import BehaviorTree.Arguments

/-!
# The command line

What the words of a command line ask for. Words are taken in order, and the first that does
not fit makes the whole line a usage error; asking for help or the version settles the line
as soon as it is met.
-/

namespace BehaviorTree.Simulation

/-- What a command line asks for. -/
inductive Command where
  /-- Run the simulation of a configuration file, perhaps for another number of updates. -/
  | run (config : String) (ticks : Option Nat)
  /-- Load tree documents and show their outlines. -/
  | check (trees : List String)
  /-- List the registered types. -/
  | types
  | help
  | version
  | usageError
  deriving DecidableEq, Repr

namespace CommandLine

/-- The commands by name. -/
inductive Verb where
  | run
  | check
  | types
  deriving DecidableEq, Repr

def Verb.ofName? : String → Option Verb
  | "run" => some .run
  | "check" => some .check
  | "types" => some .types
  | _ => none

/-- What the words after a command have given so far. -/
structure Given where
  verbose : Bool := false
  config : Option String := none
  ticks : Option Nat := none
  trees : List String := []

/-- What comes of one word: more is known, the line is settled, or the next word is the value
of an option. -/
inductive Step where
  | given (given : Given)
  | settled (command : Command)
  | needsValue (take : String → Step)

/-- A word that does not fit. -/
def Step.refused : Step := .settled .usageError

/-- Notes that output shall be verbose, which may be said once. -/
def setVerbose (given : Given) : Step :=
  if given.verbose then .refused else .given { given with verbose := true }

/-- Notes the configuration file, which has a name and may be given once. -/
def setConfig (given : Given) (value : String) : Step :=
  if value.isEmpty || given.config.isSome then .refused
  else .given { given with config := some value }

/-- Notes the number of updates, which may be given once. -/
def setTicks (given : Given) (value : String) : Step :=
  match Arguments.whole? .natural64 value, given.ticks with
  | some ticks, none => .given { given with ticks := some ticks.toNat }
  | _, _ => .refused

/-- Notes the file of a tree. Only one command takes files. -/
def addTree (verb : Verb) (given : Given) (value : String) : Step :=
  if verb = .check ∧ !value.isEmpty then .given { given with trees := given.trees ++ [value] }
  else .refused

/-- Takes a word of letters behind one dash. -/
def letters (verb : Verb) (given : Given) : List Char → Step
  | [] => .given given
  | 'v' :: rest =>
      match setVerbose given with
      | .given given => letters verb given rest
      | step => step
  | 'h' :: _ => .settled .help
  | 'c' :: rest =>
      if verb = .run then
        match rest with
        | [] => .needsValue (setConfig given)
        | '=' :: value | value => setConfig given (String.ofList value)
      else .refused
  | _ :: _ => .refused

/-- Takes a word behind two dashes, with its value if there is one in the same word. -/
def long (verb : Verb) (given : Given) (name : String) (value : Option String) : Step :=
  match name, value with
  | "verbose", none => setVerbose given
  | "help", none => .settled .help
  | "config", some value => if verb = .run then setConfig given value else .refused
  | "config", none => if verb = .run then .needsValue (setConfig given) else .refused
  | "ticks", some value => if verb = .run then setTicks given value else .refused
  | "ticks", none => if verb = .run then .needsValue (setTicks given) else .refused
  | _, _ => .refused

/-- Splits a word at its first equals sign. -/
def splitValue (cs : List Char) : String × Option String :=
  match cs.dropWhile (· ≠ '=') with
  | [] => (String.ofList cs, none)
  | _ :: value => (String.ofList (cs.takeWhile (· ≠ '=')), some (String.ofList value))

/-- Whether a word is an option and no value: it starts with a dash and has more. -/
def isOption (word : String) : Bool :=
  match word.toList with
  | '-' :: _ :: _ => true
  | _ => false

/-- Takes one word after a command. -/
def word (verb : Verb) (given : Given) (text : String) : Step :=
  match text.toList with
  | '-' :: '-' :: name =>
      let (name, value) := splitValue name
      long verb given name value
  | '-' :: c :: rest => letters verb given (c :: rest)
  | _ => addTree verb given text

/-- The command of a line that has been taken to its end. -/
def finish (verb : Verb) (given : Given) : Command :=
  match verb with
  | .types => .types
  | .run =>
      match given.config with
      | some config => .run config given.ticks
      | none => .usageError
  | .check => if given.trees.isEmpty then .usageError else .check given.trees

/-- Takes words that are no options any more. -/
def files (verb : Verb) (given : Given) : List String → Command
  | [] => finish verb given
  | text :: rest =>
      match addTree verb given text with
      | .given given => files verb given rest
      | _ => .usageError

/-- Takes the words after a command. -/
def words (verb : Verb) : Given → List String → Command
  | given, [] => finish verb given
  | given, text :: rest =>
      if text = "--" then files verb given rest
      else match word verb given text with
        | .given given => words verb given rest
        | .settled command => command
        | .needsValue take =>
            match rest with
            | [] => .usageError
            | value :: rest =>
                if isOption value then .usageError
                else match take value with
                  | .given given => words verb given rest
                  | _ => .usageError

/-- Takes a word of letters before a command, and tells whether output is verbose then. -/
def leadingLetters : Bool → List Char → Bool ⊕ Command
  | verbose, [] => .inl verbose
  | verbose, 'v' :: rest => if verbose then .inr .usageError else leadingLetters true rest
  | _, 'h' :: _ => .inr .help
  | _, 'V' :: _ => .inr .version
  | _, _ :: _ => .inr .usageError

/-- Takes the words of a line up to the command. -/
def leading : Bool → List String → Command
  | _, [] => .usageError
  | verbose, text :: rest =>
      match text.toList with
      | ['-', '-'] => .usageError
      | '-' :: '-' :: name =>
          match String.ofList name with
          | "verbose" => if verbose then .usageError else leading true rest
          | "help" => .help
          | "version" => .version
          | _ => .usageError
      | '-' :: c :: letters =>
          match leadingLetters verbose (c :: letters) with
          | .inl verbose => leading verbose rest
          | .inr command => command
      | _ =>
          match Verb.ofName? text with
          | some verb => words verb {} rest
          | none => if text = "help" then help rest else .usageError
where
  /-- Help can be asked for any command, and for help itself. -/
  help : List String → Command
    | [] => .help
    | [name] => if (Verb.ofName? name).isSome || name = "help" then .help else .usageError
    | _ => .usageError

/-- What a command line asks for. -/
def parse (line : List String) : Command := leading false line

end CommandLine

end BehaviorTree.Simulation
