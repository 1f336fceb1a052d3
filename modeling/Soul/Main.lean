import Soul.Command

/-!
# The program

The program hands its arguments to the command. Only what is at the path that
the arguments name is looked up, as given and in its normal form.
-/

namespace Soul

/-- What is at a path. A file that can be opened but not read is a directory. -/
def lookUp (path : String) : IO File.Lookup := do
  let handle? ← try some <$> IO.FS.Handle.mk path .read catch _ => pure none
  match handle? with
  | none => return .missing
  | some handle =>
    try return .file (← handle.readBinToEnd).toList
    catch _ => return .directory

end Soul

/-- Runs the command and ends with its exit code. -/
def main (args : List String) : IO UInt32 := do
  let found ← match Soul.Command.path? args with
    | none => pure []
    | some path => [path, Soul.File.normalize path].mapM fun p => do
      return (p, ← Soul.lookUp p)
  let look := fun path => (found.lookup path).getD .missing
  let output := Soul.Command.run Soul.standardStack look args
  (← IO.getStdout).putStr output.stdout
  (← IO.getStderr).putStr output.stderr
  return output.exit.toUInt32
