import NimbleLang.Tool.Rig

/-!
The command line of the test rig: reads the standard input or the files, and prints what the run left. A file that
cannot be read counts as one that does not exist.
-/

namespace NimbleLang.Tool

/-- All lines of a stream. -/
partial def readAll (stream : IO.FS.Stream) (text : String) : IO String := do
  let line ← stream.getLine
  if line.isEmpty then return text else readAll stream (text ++ line)

/-- The bytes of the files that can be read. -/
def readFiles (files : List String) : IO (List (String × List Nat)) := do
  let read ← files.mapM fun (file : String) => do
    try
      let bytes ← IO.FS.readBinFile file
      return [(file, bytes.toList.map UInt8.toNat)]
    catch _ => return []
  return read.flatten

/-- The exit code of a run. -/
def Outcome.code (o : Outcome) : UInt32 :=
  match o.ending with
  | .ok code => (code.getD 0).toUInt32
  | .error _ => 1

end NimbleLang.Tool

open NimbleLang in
def main (args : List String) : IO UInt32 := do
  let directory := (← IO.currentDir).toString
  let (files, stdin) ← (do
    match Tool.plan directory args with
    | .stop _ _ _ => return ([], "")
    | .parse _ _ [] => return ([], ← Tool.readAll (← IO.getStdin) "")
    | .parse _ _ files => return (← Tool.readFiles files, ""))
  let o := Tool.run directory args (files.lookup ·) stdin
  (← IO.getStdout).putStr o.out
  (← IO.getStderr).putStr o.err
  return o.code
