/-!
# Transcripts

A program writes on two channels, one for results and one for errors.  A transcript keeps every
write in the order in which it was made, so it tells what stands on each channel and also what a
reader sees who has both channels on one screen.

Main results:

- `Transcript.on_append`, `Transcript.merged_append`: a transcript in two parts is read in two
  parts.
-/

namespace Lox

/-- Where a program writes. -/
inductive Channel where
  | output
  | errors
  deriving DecidableEq

/-- One text written on one channel. -/
structure Write where
  channel : Channel
  text : String
  deriving DecidableEq

/-- What a program has written, in order. -/
abbrev Transcript := List Write

namespace Transcript

/-- The text on one channel. -/
def on (channel : Channel) (transcript : Transcript) : String :=
  String.join ((transcript.filter (·.channel == channel)).map Write.text)

/-- The text on both channels, in the order of writing. -/
def merged (transcript : Transcript) : String :=
  String.join (transcript.map Write.text)

/-- A channel of a transcript in two parts. -/
theorem on_append (channel : Channel) (front back : Transcript) :
    on channel (front ++ back) = on channel front ++ on channel back := by
  simp [on, String.join_append]

/-- Both channels of a transcript in two parts. -/
theorem merged_append (front back : Transcript) :
    merged (front ++ back) = merged front ++ merged back := by
  simp [merged, String.join_append]

end Transcript

end Lox
