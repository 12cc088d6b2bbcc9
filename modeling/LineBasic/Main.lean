import LineBasic.CommandLine.Tool

/-!
# Running the tool

Standard input is read only if there is a session, and then whole, before the
first line is worked on.
-/

open LineBasic
open LineBasic.CommandLine

namespace LineBasic.Main

/-- What an error of the system says about the file.  Only opening a file names
it, so a wrong type without a name is a directory that was opened and read. -/
def fileFault : IO.Error → FileFault
  | .noFileOrDirectory .. => .missing
  | .inappropriateType (some _) .. => .notDirectory
  | .inappropriateType none .. => .isDirectory
  | .invalidArgument (some _) .. => .nameTooLong
  | .permissionDenied _ _ details => .unreadable details
  | e => .unreadable (toString e)

def readFile (path : Bytes) : IO (Except FileFault Bytes) := do
  match String.fromUTF8? path.toByteArray with
  | none => return .error .missing
  | some name =>
    try
      return .ok (← IO.FS.readBinFile name).toList
    catch e =>
      return .error (fileFault e)

/-- The program file has to be at hand before the tool starts. -/
def readProgram (args : List Bytes) : IO (Except FileFault Bytes) :=
  match Invocation.parse args with
  | .ok (.session _ (some path)) => readFile path
  | _ => return .error .missing

partial def readAll (stream : IO.FS.Stream) (sofar : ByteArray) : IO ByteArray := do
  let chunk ← stream.read 65536
  if chunk.isEmpty then return sofar else readAll stream (sofar ++ chunk)

def write (stream : IO.FS.Stream) (s : Bytes) : IO Unit := do
  stream.write s.toByteArray
  stream.flush

/-- Steps the tool to its end.  `began` is when the run under way began. -/
partial def finish (began : Nat) : Progress → IO UInt32
  | .finished e => do
    write (← IO.getStderr) e.stderr
    return e.status.toUInt32
  | .working t => do
    let now ← IO.monoMsNow
    let began := if t.interpreter.stage = .running then began else now
    let r := t.step ("elapsed = " ++ Statistics.clock ((now - began) / 1000 : Nat))
    write (← IO.getStdout) r.1
    finish began r.2

def run (args : List Bytes) : IO UInt32 := do
  let program ← readProgram args
  let terminal ← (← IO.getStdout).isTty
  let start (stdin : Bytes) := Tool.start (fun _ => program) args stdin terminal
  match start [] with
  | (out, .finished e) =>
    write (← IO.getStdout) out
    finish 0 (.finished e)
  | (_, .working _) =>
    let stdin ← readAll (← IO.getStdin) .empty
    finish 0 (start stdin.toList).2

end LineBasic.Main

def main (args : List String) : IO UInt32 :=
  LineBasic.Main.run (args.map Text.ofString)
