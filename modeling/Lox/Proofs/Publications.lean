import Lox.LanguageServer
import Lox.Proofs.ContextBlock
import Lox.Proofs.ShownLines
import Lox.Session
import Mathlib.Data.List.Forall2

/-!
# What is published

For each notification the diagnostics of its document are published once, under the name that was
told.  They are those of the latest text of the document, whatever was told about this or any other
document before, so nothing is left over from an older text.  Each of them is placed on the line
that a block for the same report quotes.

That the workspace holds the latest texts is the business of the library that keeps it, and a
hypothesis here.

Main results:

- Theorem `latestText?_cons`: the latest text of a document is known one notification at a time.
- Theorem `Workspace.published_eq_mapIdx`: what is published for a notification is read from the
  workspace behind it.
- Theorem `Workspace.byName_holdsLatest`: a workspace that keeps the texts by name holds the latest.
- Theorem `forall₂_spans`: the diagnostics of a document are its reports, each on its whole line.
- Theorem `Workspace.published_eq`: what is published for some notifications.
-/

namespace Lox

/-! ## The latest text of a document -/

/-- The texts that a notification tells, in turn. -/
def Notification.texts : Notification → List String
  | opened _ text => [text]
  | changed _ texts => texts

/-- The latest text of a document: the last one that some notifications tell about it, if any. -/
def latestText? (notifications : List Notification) (document : String) : Option String :=
  ((notifications.filter (·.document = document)).flatMap Notification.texts).getLast?

/-- The latest text of a document is known one notification at a time. -/
theorem latestText?_cons (notification : Notification) (rest : List Notification)
    (document : String) :
    latestText? (notification :: rest) document =
      (latestText? rest document).or
        (if notification.document = document then notification.texts.getLast? else none) := by
  unfold latestText?
  by_cases h : notification.document = document
  · rw [List.filter_cons_of_pos (by simpa using h), List.flatMap_cons, List.getLast?_append,
      if_pos h]
  · rw [List.filter_cons_of_neg (by simpa using h), if_neg h, Option.or_none]

/-! ## Workspaces -/

namespace Workspace

section

variable {State : Type} (workspace : Workspace State) (state : State)

/-- The state of a workspace behind some notifications. -/
def after (notifications : List Notification) : State :=
  notifications.foldl workspace.takeIn state

/-- While some notifications are told, a workspace holds the latest text of each document of which
any text has been told. -/
def HoldsLatest (notifications : List Notification) : Prop :=
  ∀ told, told <+: notifications → ∀ document text, latestText? told document = some text →
    workspace.text (workspace.after state told) document = text

/-- What is published for a notification is read from the workspace behind it. -/
theorem published_eq_mapIdx (notifications : List Notification) :
    workspace.published state notifications =
      notifications.mapIdx fun place notification =>
        workspace.validate (workspace.after state (notifications.take (place + 1)))
          notification.document := by
  induction notifications generalizing state with
  | nil => rfl
  | cons notification rest ih =>
      rw [published, ih, List.mapIdx_cons]
      rfl

end

/-- A workspace that keeps the texts by the names of the documents, the latest in front. -/
def byName : Workspace (List (String × String)) where
  takeIn kept notification := (notification.texts.map (notification.document, ·)).reverse ++ kept
  text kept document := (kept.lookup document).getD ""

/-- Texts that are kept for one document are those of no other, and the last one counts. -/
theorem lookup_byName_takeIn (kept : List (String × String)) (notification : Notification)
    (document : String) :
    (byName.takeIn kept notification).lookup document =
      (if notification.document = document then notification.texts.getLast? else none).or
        (kept.lookup document) := by
  simp only [byName, List.lookup_append, ← List.map_reverse, ← List.head?_reverse]
  congr 1
  by_cases h : notification.document = document
  · subst h
    rw [if_pos rfl]
    cases notification.texts.reverse with
    | nil => rfl
    | cons text rest => exact List.lookup_cons_self
  · rw [if_neg h, List.lookup_eq_none_iff]
    intro entry hentry
    obtain ⟨text, -, rfl⟩ := List.mem_map.1 hentry
    simpa using Ne.symm h

/-- What is kept for a document is its latest text, or what was kept before. -/
theorem lookup_byName_after (kept : List (String × String)) (told : List Notification)
    (document : String) :
    (byName.after kept told).lookup document =
      (latestText? told document).or (kept.lookup document) := by
  induction told generalizing kept with
  | nil => rfl
  | cons notification rest ih =>
      rw [latestText?_cons, Option.or_assoc, ← lookup_byName_takeIn]
      exact ih (byName.takeIn kept notification)

/-- A workspace that keeps the texts by name holds the latest. -/
theorem byName_holdsLatest (kept : List (String × String)) (notifications : List Notification) :
    byName.HoldsLatest kept notifications := by
  intro told _ document text latest
  have found := lookup_byName_after kept told document
  rw [latest, Option.some_or] at found
  exact congrArg (·.getD "") found

end Workspace

/-! ## The diagnostics of a document -/

/-- How a report on a text is placed.  It is an error of this program with the message of the
report, on the line of the report counted from zero, which is a line of the text.  It starts at the
first character of the line and ends behind the last one of the line that every block for the report
quotes. -/
structure Spans (source : String) (report : Diagnostic) (placed : PlacedDiagnostic) : Prop where
  severity_eq : placed.severity = 1
  origin_eq : placed.origin = "loxscan"
  message_eq : placed.message = report.message
  startLine_eq : placed.startLine = report.line - 1
  startColumn_eq : placed.startColumn = 0
  endLine_eq : placed.endLine = placed.startLine
  inside : 0 ≤ placed.startLine ∧ placed.startLine ≤ newlines source.toList
  quoted : ∀ filename, ∃ above shown below,
    splitLines (report.formatContext source filename).toList =
        above ++ [(toString report.line).toList ++ (" | ".toList ++ shown), below] ∧
      placed.endColumn = shown.length

/-- A report on a line of a text is placed on the whole line. -/
theorem spans_place {source : String} {report : Diagnostic} (h : IsLineOf source report.line) :
    Spans source report (report.place source) where
  severity_eq := rfl
  origin_eq := rfl
  message_eq := rfl
  startLine_eq := rfl
  startColumn_eq := rfl
  endLine_eq := rfl
  inside := by
    rw [IsLineOf, length_splitLines] at h
    simp only [Diagnostic.place]
    omega
  quoted := by
    intro filename
    rcases report.exists_splitLines_formatContext source filename with ⟨above, below, hblock⟩
    exact ⟨above, (lineText source report.line).toList, below, hblock, rfl⟩

/-- The diagnostics of a document are its reports, in order, each on its whole line. -/
theorem forall₂_spans (source : String) :
    List.Forall₂ (Spans source) (scan source).diagnostics (documentDiagnostics source) := by
  rw [documentDiagnostics, List.forall₂_map_right_iff, List.forall₂_same]
  intro report hreport
  exact spans_place ((isLineOf_of_mem_scan source).2 report hreport)

/-! ## Publications -/

/-- For each of some notifications there is one publication, in order, under the name that was told.
It holds the diagnostics of the text that the workspace has for the document then, which is the
latest one that has been told, and depends on nothing else: for each report on that text one error,
in order, on the whole line that is quoted for the report.  The lines counted from one and the
messages are the diagnostics of scanning and printing the text. -/
theorem Workspace.published_eq {State : Type} (workspace : Workspace State) (state : State)
    {notifications : List Notification} (latest : workspace.HoldsLatest state notifications) :
    workspace.published state notifications =
        notifications.mapIdx (fun place notification =>
          ⟨notification.document, documentDiagnostics
            (workspace.text (workspace.after state (notifications.take (place + 1)))
              notification.document)⟩) ∧
      (∀ place notification text, notifications[place]? = some notification →
        latestText? (notifications.take (place + 1)) notification.document = some text →
          (workspace.published state notifications)[place]? =
            some ⟨notification.document, documentDiagnostics text⟩) ∧
      ∀ source : String,
        List.Forall₂ (Spans source) (scan source).diagnostics (documentDiagnostics source) ∧
        ∀ (format : DumpFormat) (echo : Echo),
          (documentDiagnostics source).map (fun placed =>
              (⟨placed.startLine + 1, placed.message⟩ : Diagnostic)) =
            (printScan format echo source).diagnostics := by
  have published := workspace.published_eq_mapIdx state notifications
  refine ⟨published, ?_, fun source => ⟨forall₂_spans source, ?_⟩⟩
  · intro place notification text told hlatest
    have current := latest _ (List.take_prefix (place + 1) notifications) _ _ hlatest
    rw [published, List.getElem?_mapIdx, told, Option.map_some, validate, current]
  · intro format echo
    change _ = (scan source).diagnostics
    rw [documentDiagnostics, List.map_map]
    refine List.map_id'' ?_ _
    intro report
    simp [Diagnostic.place]

/-- Two documents that are told about in turn, one of them without a new text. -/
theorem Workspace.published_eq_two_documents :
    let told : List Notification :=
      [.opened "a" "@\n#", .opened "b" "\x22", .changed "a" ["x", "ok\n?"], .changed "b" []]
    let published := byName.published [] told
    byName.HoldsLatest [] told ∧
      published[2]? = some ⟨"a", [⟨1, 0, 1, 1, "Unexpected character.", 1, "loxscan"⟩]⟩ ∧
      published[3]? = some ⟨"b", [⟨0, 0, 0, 1, "Unterminated string.", 1, "loxscan"⟩]⟩ := by
  intro told published
  have latest := byName_holdsLatest [] told
  obtain ⟨-, current, -⟩ := byName.published_eq [] latest
  refine ⟨latest, (current 2 _ "ok\n?" rfl (by decide +kernel)).trans ?_,
    (current 3 _ "\x22" rfl (by decide +kernel)).trans ?_⟩
  · decide +kernel
  · decide +kernel

end Lox
