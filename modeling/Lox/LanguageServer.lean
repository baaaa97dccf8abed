import Lox.Scan

/-!
# Diagnostics for an editor

An editor opens documents and tells about changes; every time it gets the diagnostics of the whole
document.  A report names a line and no column, so a diagnostic spans the whole line.  Lines and
columns count from zero, columns in characters.

The documents are kept by the library that speaks the protocol, in a workspace.  It takes in what an
editor tells, and then the server asks it for the text of the document.  How a workspace keeps the
documents is not said here, so it is a parameter.
-/

namespace Lox

/-- A diagnostic with the range that it spans, its severity as the protocol numbers it, and the name
that an editor shows for its origin. -/
structure PlacedDiagnostic where
  startLine : Int
  startColumn : Nat
  endLine : Int
  endColumn : Nat
  message : String
  severity : Nat
  origin : String
  deriving DecidableEq

/-- The severity of an error. -/
def errorSeverity : Nat := 1

/-- The origin of every diagnostic. -/
def serverOrigin : String := "loxscan"

/-- A diagnostic placed on its whole line. -/
def Diagnostic.place (source : String) (d : Diagnostic) : PlacedDiagnostic where
  startLine := d.line - 1
  startColumn := 0
  endLine := d.line - 1
  endColumn := (lineText source d.line).length
  message := d.message
  severity := errorSeverity
  origin := serverOrigin

/-- The diagnostics of a document. -/
def documentDiagnostics (source : String) : List PlacedDiagnostic :=
  (scan source).diagnostics.map (Diagnostic.place source)

/-! ## Documents -/

/-- What an editor tells: a document is opened with a text, or its text is replaced by others in
turn. -/
inductive Notification where
  | opened (document text : String)
  | changed (document : String) (texts : List String)

/-- The diagnostics of a document as they are published. -/
structure Publication where
  document : String
  diagnostics : List PlacedDiagnostic
  deriving DecidableEq

/-- The document that a notification is about. -/
def Notification.document : Notification → String
  | opened document _ => document
  | changed document _ => document

/-- A workspace that is in one of some states: how it takes in a notification, and the text that it
has for a document. -/
structure Workspace (State : Type) where
  takeIn : State → Notification → State
  text : State → String → String

namespace Workspace

variable {State : Type} (workspace : Workspace State)

/-- Publishes the diagnostics of a document. -/
def validate (state : State) (document : String) : Publication :=
  ⟨document, documentDiagnostics (workspace.text state document)⟩

/-- What is published for each notification in turn.  The workspace has taken it in by then. -/
def published (state : State) : List Notification → List Publication
  | [] => []
  | notification :: rest =>
      let updated := workspace.takeIn state notification
      workspace.validate updated notification.document :: published updated rest

end Workspace

/-- The name of the language server. -/
def serverName : String := "loxscan-lsp"

/-- The version of the program. -/
def version : String := "0.1.0"

end Lox
