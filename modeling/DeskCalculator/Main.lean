import DeskCalculator.CommandLine.Reply

/-!
# The program

Reads what the request names, writes the reply, and ends with its exit code.
-/

namespace DeskCalculator

/-- The bytes of the file that a request names, if there is one and it can be read. -/
def fileOf : Request → IO (Option (List UInt8))
  | .file path => do
    try
      return some (← IO.FS.readBinFile path).data.toList
    catch _ =>
      return none
  | _ => return none

/-- The bytes of standard input, for a request that reads it. -/
def inputOf : Request → IO (List UInt8)
  | .standardInput => return (← (← IO.getStdin).readBinToEnd).data.toList
  | _ => return []

/-- The reply to the arguments of the command line. -/
def replyOf (arguments : List String) : IO Reply := do
  match Request.ofArguments? arguments with
  | none => return ⟨"", some .misuse⟩
  | some request =>
    let bytes? ← fileOf request
    let input ← inputOf request
    return reply Elementary.machine (fun _ => bytes?) input request

end DeskCalculator

/-- Answers the command line. -/
def main (arguments : List String) : IO UInt32 := do
  let r ← DeskCalculator.replyOf arguments
  IO.print r.output
  if let some fault := r.fault? then
    unless fault.message.isEmpty do
      IO.eprintln fault.message
  return UInt32.ofNat r.exitCode
