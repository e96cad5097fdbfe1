import Outbox.CommandLine
import Std.Time.DateTime.Timestamp

/-! # The program

Looks up the environment, reads the input to its end and the clock, and writes what
`CommandLine.run` answers. -/
namespace Outbox.CommandLine
set_option autoImplicit false

/-- The variables that the program looks at, with their values. -/
def environment : IO (List (String × String)) := do
  let keys := peerVariable :: Config.Variable.all.map (·.key)
  let values ← keys.mapM fun key => do return (key, ← IO.getEnv key)
  return values.filterMap fun (key, value) => value.map fun v => (key, v)

/-- Chunks up to the end of the stream. -/
partial def readAll (input : IO.FS.Stream) (read : ByteArray) : IO ByteArray := do
  let chunk ← input.read 65536
  if chunk.isEmpty then return read else readAll input (read ++ chunk)

end Outbox.CommandLine

def main : IO UInt32 := do
  let values ← Outbox.CommandLine.environment
  let input ← Outbox.CommandLine.readAll (← IO.getStdin) .empty
  let now ← Std.Time.Timestamp.now
  let exit := Outbox.CommandLine.run (values.lookup ·) input.toList
    now.toNanosecondsSinceUnixEpoch.val.toNat
  IO.print exit.output
  IO.eprint exit.errors
  return exit.code.toUInt32
