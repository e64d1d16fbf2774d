import ImplFamilies.Command.Run

/-!
The program: looks into files and the standard input, and prints what running the command line
gives.
-/

namespace ImplFamilies.Command

/-- Everything up to the end of a stream. -/
def readStream (stream : IO.FS.Stream) : IO ByteArray := do
  let mut all := ByteArray.empty
  let mut chunk ← stream.read 65536
  while !chunk.isEmpty do
    all := all ++ chunk
    chunk ← stream.read 65536
  return all

/-- The contents of a source as it is now. -/
def lookUp : Source → IO Contents
  | .input => do
    try return .bytes (← readStream (← IO.getStdin))
    catch _ => return .unreadable
  | .file path => do
    try return .bytes (← IO.FS.readBinFile path)
    catch
      | .noFileOrDirectory .. => return .missing
      | _ => return .unreadable

end ImplFamilies.Command

open ImplFamilies.Command in
def main (args : List String) : IO UInt32 := do
  let result ← run lookUp args
  for notice in result.notices do
    IO.eprintln notice.render
  IO.print result.output
  return result.exitCode.toUInt32
