import Chomsky.Session.Outcome
import Chomsky.Session.Sink
import Chomsky.Text.Blank
import Chomsky.Text.Reader

/-!
# Sessions

A session asks for texts, one per line, and reports on each until a line says
to exit or the input ends. The steps of a session depend on the grammar and the
input alone; carrying them out adds what can fail, which is a line that cannot
be decoded and a sink that is full. The first failure ends the session, and
what was written before it stays.
-/

namespace Chomsky

/-- What is written before each line is read. -/
def promptText : String :=
  "Enter the string to parse (or type 'exit' to quit): "

/-- What is written in reply to the line that ends a session. -/
def farewell : String :=
  "Exiting the program.\n"

/-- Whether a line asks for the end of the session: it says so in ASCII letters
of any case, with blanks around it or not. -/
def isExit (line : String) : Bool :=
  (trim line.toList).map Char.toLower = "exit".toList

/-- A reply to one line. -/
structure Reply where
  /-- What is written. -/
  text : String
  /-- Whether the session goes on. -/
  goesOn : Bool
deriving DecidableEq, Repr

/-- The reply to a line. -/
def Reply.toLine (grammar : Grammar) (showCount : Bool) (line : String) : Reply :=
  if isExit line then ⟨farewell, false⟩
  else ⟨(Outcome.ofText grammar showCount line).report, true⟩

/-- One thing that happens in a session. -/
inductive SessionStep where
  /-- The prompt is written. -/
  | ask
  /-- A line is read that cannot be decoded. -/
  | unreadable
  /-- A reply is written. -/
  | say (text : String)
deriving DecidableEq, Repr

namespace SessionStep

/-- The steps of a session. A line is read only after its prompt, and nothing is
read after a line that cannot be decoded or that asks for the end. -/
def plan (grammar : Grammar) (showCount : Bool) (input : Bytes) : List SessionStep :=
  match _ : nextLine input with
  | .ended => [ask]
  | .unreadable => [ask, unreadable]
  | .line text rest =>
      let reply := Reply.toLine grammar showCount text
      if reply.goesOn then ask :: say reply.text :: plan grammar showCount rest
      else [ask, say reply.text]
termination_by input.length
decreasing_by exact length_lt_of_nextLine ‹_›

/-- What a step shows when prompts and replies go to the same place. -/
def shown : SessionStep → String
  | ask => promptText
  | unreadable => ""
  | say text => text

end SessionStep

/-- What can end a session early. -/
inductive SessionFault where
  /-- A line is not valid UTF-8. -/
  | notUtf8
  /-- A prompt or a reply does not fit where it is written to. -/
  | sinkFull
deriving DecidableEq, Repr

namespace SessionFault

/-- The wording of a fault. -/
def message : SessionFault → String
  | notUtf8 => "stream did not contain valid UTF-8"
  | sinkFull => "failed to write whole buffer"

end SessionFault

/-- What a session leaves behind. -/
structure Transcript where
  /-- Where the replies went. -/
  replies : Sink
  /-- Where the prompts went. -/
  prompts : Sink
  /-- What ended the session early, if anything did. -/
  fault : Option SessionFault
deriving DecidableEq, Repr

namespace Transcript

/-- The transcript of carrying out steps with the given sinks. -/
def perform (replies prompts : Sink) : List SessionStep → Transcript
  | [] => ⟨replies, prompts, none⟩
  | .ask :: rest =>
      match prompts.write? promptText with
      | some prompts => perform replies prompts rest
      | none => ⟨replies, prompts, some .sinkFull⟩
  | .unreadable :: _ => ⟨replies, prompts, some .notUtf8⟩
  | .say text :: rest =>
      match replies.write? text with
      | some replies => perform replies prompts rest
      | none => ⟨replies, prompts, some .sinkFull⟩

/-- The transcript of a session over a byte source. -/
def ofSource (grammar : Grammar) (showCount : Bool) (replies prompts : Sink)
    (source : Bytes) : Transcript :=
  perform replies prompts (SessionStep.plan grammar showCount source)

end Transcript

end Chomsky
