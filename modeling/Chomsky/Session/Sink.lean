/-!
# Bounded sinks

A sink takes texts until one does not fit any more. Room is measured in bytes
of UTF-8, and a text that does not fit as a whole leaves the sink as it was.
-/

namespace Chomsky

/-- A place to write to. -/
structure Sink where
  /-- The bytes that still fit, or `none` when there is no limit. -/
  room : Option Nat
  /-- What has been written. -/
  written : String
deriving DecidableEq, Repr

namespace Sink

/-- A sink that nothing has been written to. -/
def ofCapacity (capacity : Option Nat) : Sink := ⟨capacity, ""⟩

/-- The sink with a text written to it, if the text fits. -/
def write? (sink : Sink) (text : String) : Option Sink :=
  match sink.room with
  | none => some ⟨none, sink.written ++ text⟩
  | some room =>
      if text.utf8ByteSize ≤ room then
        some ⟨some (room - text.utf8ByteSize), sink.written ++ text⟩
      else
        none

/-- Nothing is too long for a sink without a limit. -/
@[simp] theorem write?_unbounded (written text : String) :
    write? ⟨none, written⟩ text = some ⟨none, written ++ text⟩ := rfl

end Sink

end Chomsky
