import DeskCalculator.CommandLine.Request
import DeskCalculator.Session
import DeskCalculator.Text.Blank
import DeskCalculator.Text.Lines

/-!
# What the command line answers

A reply is the text for standard output, and what went wrong, if anything did. A line that is blank
gets no answer and any other line gets one, which may be the word for a failure; that a calculation
fails is nothing that went wrong with the program. A file is read as a whole, so one that is not in
UTF-8 gets no answers at all. Standard input is read line by line, so the lines before the first one
that is not in UTF-8 are answered. The texts of help and of complaints about the arguments are left
out: both replies are empty, and only their exit codes differ.

## Main definitions

* `Fault`, `Reply`: what went wrong, and a reply.
* `answerLine`, `answerLines`, `answerInput`: the answers to lines.
* `replyToKeys`: the display after keys.
* `reply`: the reply to a request.
-/

namespace DeskCalculator

/-- What can go wrong with the program. -/
inductive Fault where
  /-- The arguments are wrong. -/
  | misuse
  /-- A label is not that of a key. -/
  | unknownKey (failure : Failure)
  /-- A file cannot be read as text. -/
  | unreadableFile (path : String)
  /-- Standard input cannot be read as text. -/
  | unreadableInput
deriving DecidableEq

namespace Fault

/-- The text for standard error. Complaints about the arguments are left out. -/
def message : Fault → String
  | misuse => ""
  | unknownKey failure => failure.message
  | unreadableFile path =>
    s!"Failed to read the input file '{path}'. Perhaps this file does not exist?"
  | unreadableInput => "Failed to read standard input: stream did not contain valid UTF-8"

/-- The exit code: 2 where the command line is at fault, and 1 where what it names is. -/
def exitCode : Fault → Nat
  | misuse | unknownKey _ => 2
  | unreadableFile _ | unreadableInput => 1

end Fault

/-- What the program writes, and what went wrong. -/
structure Reply where
  /-- The text for standard output. -/
  output : String
  /-- What went wrong, if anything did. -/
  fault? : Option Fault
deriving DecidableEq

/-- The exit code of a reply: 0 unless something went wrong. -/
def Reply.exitCode (r : Reply) : Nat := (r.fault?.map Fault.exitCode).getD 0

/-- Lines as a text in which each of them ends with a line feed. -/
def unlines (lines : List String) : String := String.join (lines.map (· ++ "\n"))

/-- The keypad with its labels aligned on the right, in columns of five characters. -/
def layoutText : String :=
  unlines <| keypad.map fun row =>
    String.join (row.map fun label => String.ofList (label.toList.leftpad 5 ' '))

variable (lib : Elementary)

/-- The answer to a line; a blank one gets none. -/
def answerLine (line : String) : List String :=
  if line.toList.all isBlank then [] else [shownAnswer lib line]

/-- The answers to lines. -/
def answerLines (lines : List String) : String := unlines (lines.flatMap (answerLine lib))

/-- The reply to lines of bytes, of which each is read when those before it have been answered. -/
def answerInput : List (List UInt8) → Reply
  | [] => ⟨"", none⟩
  | bytes :: rest =>
    match decode? bytes with
    | none => ⟨"", some .unreadableInput⟩
    | some line =>
      let later := answerInput rest
      { later with output := unlines (answerLine lib line) ++ later.output }

/-- The display after the keys with the given labels, which stand between blanks. -/
def replyToKeys (labels : String) : Reply :=
  match Session.start.pressLabels lib ((words labels.toList).map String.ofList) with
  | .ok session => ⟨unlines [session.display], none⟩
  | .error failure => ⟨"", some (.unknownKey failure)⟩

/-- The reply to the expressions in a file with the given bytes. -/
def replyToFile (path : String) (bytes? : Option (List UInt8)) : Reply :=
  match bytes?.bind decode? with
  | some text => ⟨answerLines lib (lines text), none⟩
  | none => ⟨"", some (.unreadableFile path)⟩

/-- The reply to a request, given the bytes of every file that can be read and of standard input. -/
def reply (readFile? : String → Option (List UInt8)) (input : List UInt8) : Request → Reply
  | .version => ⟨unlines ["calcpad 0.1.0"], none⟩
  | .help => ⟨"", none⟩
  | .layout => ⟨layoutText, none⟩
  | .keys labels => replyToKeys lib labels
  | .file path => replyToFile lib path (readFile? path)
  | .expression source => ⟨answerLines lib [source], none⟩
  | .standardInput => answerInput lib (byteLines input)

/-- The reply to the arguments of the command line. -/
def replyToArguments (arguments : List String) (readFile? : String → Option (List UInt8))
    (input : List UInt8) : Reply :=
  match Request.ofArguments? arguments with
  | some request => reply lib readFile? input request
  | none => ⟨"", some .misuse⟩

end DeskCalculator
