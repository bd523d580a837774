import Chomsky.Program

/-!
# The command line

The outer layer of the program: it reads the file and standard input, writes
what the pure part decides, and decides nothing itself.
-/

namespace Chomsky

/-- The contents of a file, or why it cannot be opened. -/
def readFile (path : String) : IO (Except FileFault Bytes) := do
  try
    return .ok (← IO.FS.readBinFile path).data.toList
  catch
    | .noFileOrDirectory .. => return .error .notFound
    | .inappropriateType .. => return .error .notADirectory
    | fault => throw fault

/-- The bytes of standard input up to and including the next line feed. -/
partial def readLineBytes (stdin : IO.FS.Stream) (before : ByteArray) : IO ByteArray := do
  let next ← stdin.read 1
  if next.isEmpty then
    return before
  else if next.data.contains lineFeed then
    return before ++ next
  else
    readLineBytes stdin (before ++ next)

/-- Asks for lines and replies to them until one ends the session. -/
partial def converse (grammar : Grammar) (showCount : Bool) (stdin stdout : IO.FS.Stream) :
    IO UInt32 := do
  stdout.putStr promptText
  stdout.flush
  match nextLine (← readLineBytes stdin .empty).data.toList with
  | .ended => return exitSuccess
  | .unreadable =>
      IO.eprint (sessionReport .notUtf8)
      return exitFailure
  | .line line _ =>
      let reply := Reply.toLine grammar showCount line
      stdout.putStr reply.text
      stdout.flush
      if reply.goesOn then converse grammar showCount stdin stdout
      else return exitSuccess

/-- Writes what a finished run has to say. -/
def conclude (ending : Ending) : IO UInt32 := do
  IO.print ending.stdout
  IO.eprint ending.stderr
  return ending.code

/-- A stream of words that differs from run to run. -/
def systemWords : IO WordSource := do
  let bytes ← IO.getRandomBytes 8
  return ChaCha.seeded (bytes.data.foldl (fun seed byte => seed * 256 + byte.toUInt64) 0)

/-- Does what is left to do. -/
def carryOut : Agenda → IO UInt32
  | .done ending => conclude ending
  | .dialogue opening grammar showCount => do
      IO.print opening
      converse grammar showCount (← IO.getStdin) (← IO.getStdout)

end Chomsky

/-- Runs the program on its arguments. -/
def main (arguments : List String) : IO UInt32 := do
  match Chomsky.Options.ofArguments arguments with
  | .error refusal => Chomsky.conclude refusal.ending
  | .ok options =>
      let contents ← Chomsky.readFile options.file
      Chomsky.carryOut (.ofOptions options contents (← Chomsky.systemWords))
