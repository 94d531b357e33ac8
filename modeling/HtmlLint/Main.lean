import HtmlLint.Command.Run

/-!
# The program

Reads the files that the arguments name, runs the command on their contents, and prints what it
leaves behind.
-/

namespace HtmlLint.Program

/-- Why a file could not be read. -/
def fileFault : IO.Error → Command.FileFault
  | .noFileOrDirectory _ code reason => .system reason code.toNat
  | .inappropriateType _ code reason => .system reason code.toNat
  | .invalidArgument _ code reason => .system reason code.toNat
  | .permissionDenied _ code reason => .system reason code.toNat
  | .resourceExhausted _ code reason => .system reason code.toNat
  | fault => .other (toString fault)

/-- The contents of a file. It is read without a look at its size, so that a fault is the one of
opening or reading it. -/
def readFile (path : String) : IO (Except Command.FileFault ByteArray) := do
  try
    return .ok (← IO.FS.withFile path .read (·.readBinToEnd))
  catch fault =>
    return .error (fileFault fault)

/-- The paths that a run may read. -/
def paths (arguments : List String) : List String :=
  match Command.request? arguments with
  | some (.run options) =>
    if options.listRules then [] else options.config.toList ++ options.files
  | _ => []

/-- Runs the command on the files there are, and returns its status. -/
def run (arguments : List String) : IO UInt32 := do
  let contents ← (paths arguments).mapM fun path => return (path, ← readFile path)
  let files : Command.FileSystem := fun path => (contents.lookup path).getD (.error .missing)
  match Command.run? files arguments with
  | none =>
    IO.eprint Command.refusalText
    return 2
  | some outcome =>
    IO.eprint outcome.stderr
    IO.print outcome.stdout
    return outcome.status.toUInt32

end HtmlLint.Program

def main (arguments : List String) : IO UInt32 :=
  HtmlLint.Program.run arguments
