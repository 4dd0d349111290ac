import SegmentQuery.Command.Run

namespace SegmentQuery

/-- The bytes of the standard input, unless it is a terminal. -/
def readInput : IO (Option ByteArray) := do
  let stdin ← IO.getStdin
  if ← stdin.isTty then return none
  return some (← stdin.readBinToEnd)

end SegmentQuery

open SegmentQuery in
/-- Runs the program with its arguments. -/
def main (args : List String) : IO UInt32 := do
  let command := Command.ofArguments args
  let input ← if command.needsInput then readInput else pure none
  let outcome := command.run input
  IO.print outcome.output
  IO.eprint outcome.errors
  return outcome.status
