import PregroupGrammar.CommandLine

/-!
# The program

Reads files and prints; everything else is `CommandLine.run`.
-/

namespace PregroupGrammar

/-- The bytes of a file, or the reason why it cannot be read. -/
def readBytes (path : String) : IO (Except String ByteArray) := do
  try
    return .ok (← IO.FS.readBinFile path)
  catch e =>
    return .error (toString e)

end PregroupGrammar

/-- Runs the program on the arguments of the command line. -/
def main (args : List String) : IO UInt32 := do
  let output ← PregroupGrammar.CommandLine.run PregroupGrammar.readBytes args
  IO.print output.stdout
  IO.eprint output.stderr
  return output.exitCode.toUInt32
