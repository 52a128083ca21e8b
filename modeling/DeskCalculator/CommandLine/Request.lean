/-!
# What the command line asks for

The arguments are switches and at most one that is none, the contents. A switch is a word behind two
hyphens, or a letter behind one, and several letters may follow the same hyphen. Behind `--` every
argument is contents, and so is a hyphen alone. Only `-v` may be given twice. The first request for
the version or for help is met at once, whatever comes behind it, unless an argument before it is
wrong already.

## Main definitions

* `Switch`, `Switch.ofWord?`, `Switch.ofLetter?`: the switches and how they are written.
* `Arguments`, `Arguments.read`: what the arguments say, read from left to right.
* `Request`, `Request.ofArguments`: what is asked for.
-/

namespace DeskCalculator

/-- A switch on the command line. -/
inductive Switch where
  /-- The contents are the path of a file of expressions. -/
  | file
  /-- The contents are labels of keys. -/
  | keys
  /-- The labels of the keypad are asked for. -/
  | layout
  /-- More is to be logged, on which no reply depends. -/
  | verbose
  /-- The version is asked for. -/
  | version
  /-- Help is asked for. -/
  | help
deriving DecidableEq, Repr

namespace Switch

/-- The switch that is written as two hyphens and a word. -/
def ofWord? (word : String) : Option Switch :=
  [("file", file), ("keys", keys), ("layout", layout), ("verbose", verbose), ("version", version),
    ("help", help)].lookup word

/-- The switch that is written as a hyphen and a letter. -/
def ofLetter? : Char → Option Switch
  | 'f' => some file
  | 'k' => some keys
  | 'v' => some verbose
  | 'V' => some version
  | 'h' => some help
  | _ => none

end Switch

/-- Why the arguments are not read to their end. -/
inductive Halt where
  /-- An argument is wrong. -/
  | misuse
  /-- The version is asked for. -/
  | version
  /-- Help is asked for. -/
  | help
deriving DecidableEq, Repr

/-- What the arguments say. -/
structure Arguments where
  /-- Whether the contents are the path of a file. -/
  file : Bool
  /-- Whether the contents are labels of keys. -/
  keys : Bool
  /-- Whether the keypad is asked for. -/
  layout : Bool
  /-- The argument that is no switch. -/
  contents? : Option String
deriving DecidableEq, Repr

namespace Arguments

/-- What no arguments say. -/
def empty : Arguments := ⟨false, false, false, none⟩

/-- Adds a switch. -/
def withSwitch (a : Arguments) : Switch → Except Halt Arguments
  | .file => if a.file then .error .misuse else .ok { a with file := true }
  | .keys => if a.keys then .error .misuse else .ok { a with keys := true }
  | .layout => if a.layout then .error .misuse else .ok { a with layout := true }
  | .verbose => .ok a
  | .version => .error .version
  | .help => .error .help

/-- Adds a switch as far as it is known. -/
def withSwitch? (a : Arguments) : Option Switch → Except Halt Arguments
  | some s => a.withSwitch s
  | none => .error .misuse

/-- Adds the contents, which may be given once. -/
def withContents (a : Arguments) (contents : String) : Except Halt Arguments :=
  match a.contents? with
  | some _ => .error .misuse
  | none => .ok { a with contents? := some contents }

/-- Adds an argument that may be a switch, a row of letters, or the contents. -/
def withArgument (a : Arguments) (argument : String) : Except Halt Arguments :=
  match argument.toList with
  | '-' :: '-' :: word => a.withSwitch? (Switch.ofWord? (String.ofList word))
  | '-' :: letter :: letters =>
    (letter :: letters).foldlM (fun a c => a.withSwitch? (Switch.ofLetter? c)) a
  | _ => a.withContents argument

/-- Adds arguments from left to right. -/
def readFrom (a : Arguments) : List String → Except Halt Arguments
  | [] => .ok a
  | argument :: rest =>
    if argument = "--" then rest.foldlM withContents a
    else do readFrom (← a.withArgument argument) rest

/-- What the arguments say together. A path and labels cannot both be meant. -/
def read (arguments : List String) : Except Halt Arguments := do
  let a ← readFrom empty arguments
  if a.file && a.keys then .error .misuse else return a

end Arguments

/-- What the command line asks for. -/
inductive Request where
  /-- The version of the program. -/
  | version
  /-- How the program is used. -/
  | help
  /-- The labels of the keypad. -/
  | layout
  /-- The display after keys given by their labels. -/
  | keys (labels : String)
  /-- The answers to the expressions in a file. -/
  | file (path : String)
  /-- The answer to an expression. -/
  | expression (source : String)
  /-- The answers to the expressions on standard input. -/
  | standardInput
deriving DecidableEq, Repr

namespace Request

/-- What is asked for by arguments that are right. -/
def ofRead (a : Arguments) : Request :=
  if a.layout then layout
  else
    match a.contents? with
    | none => standardInput
    | some contents =>
      if a.keys then keys contents
      else if a.file then file contents
      else expression contents

/-- What the arguments ask for, or nothing if one of them is wrong. -/
def ofArguments? (arguments : List String) : Option Request :=
  match Arguments.read arguments with
  | .ok a => some (ofRead a)
  | .error .misuse => none
  | .error .version => some version
  | .error .help => some help

end Request

end DeskCalculator
