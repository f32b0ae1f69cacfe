import Stencil.Style

/-! The arguments of a command: options with a value, flags, and positional arguments. -/

namespace Stencil

/-- An option. Without a value it is a flag. -/
structure OptionSpec where
  short : Option Char := none
  long : String
  takesValue : Bool := false
  repeatable : Bool := false

/-- Why arguments are not read to their end: they are wrong, or they ask for help or for
the version instead. -/
inductive Stop where
  | usage
  | help
  | version
deriving DecidableEq, Repr

/-- The options given, with their values, and the positional arguments. -/
structure Arguments where
  options : List (String × Option String) := []
  positional : List String := []

namespace Arguments

def value? (a : Arguments) (long : String) : Option String :=
  (a.options.lookup long).join

def isGiven (a : Arguments) (long : String) : Bool :=
  (a.options.lookup long).isSome

/-- Notes an option; most may be given only once. -/
def add (a : Arguments) (spec : OptionSpec) (value : Option String) : Except Stop Arguments :=
  if a.isGiven spec.long && !spec.repeatable then .error .usage
  else .ok { a with options := a.options ++ [(spec.long, value)] }

def addPositional (a : Arguments) (s : String) : Arguments :=
  { a with positional := a.positional ++ [s] }

/-- A word that begins with a dash is no value, unless it is a dash alone. -/
def isValue (s : String) : Bool :=
  match s.toList with
  | '-' :: _ :: _ => false
  | _ => true

/-- What one word of options comes to: all is read, or an option waits for the next word
to be its value. -/
inductive Reading where
  | complete (a : Arguments)
  | waiting (a : Arguments) (spec : OptionSpec)

/-- A word of one or more short options after one dash. -/
def readShort (specs : List OptionSpec) : Arguments → List Char → Except Stop Reading
  | a, [] => .ok (.complete a)
  | a, c :: cs =>
    match specs.find? fun spec => spec.short = some c with
    | none => .error (if c = 'h' then .help else .usage)
    | some spec =>
      if spec.takesValue then
        match cs with
        | [] => .ok (.waiting a spec)
        | '=' :: value => (a.add spec (some (String.ofList value))).map .complete
        | value => (a.add spec (some (String.ofList value))).map .complete
      else match a.add spec none with
        | .error stop => .error stop
        | .ok a => readShort specs a cs

/-- A long option after two dashes, with its value or without. -/
def readLong (specs : List OptionSpec) (a : Arguments) (cs : List Char) : Except Stop Reading :=
  let name := String.ofList (cs.takeWhile (· != '='))
  let value := match cs.dropWhile (· != '=') with
    | [] => none
    | _ :: value => some (String.ofList value)
  match specs.find? fun spec => spec.long = name with
  | none => .error (if name = "help" && value.isNone then .help else .usage)
  | some spec =>
    match spec.takesValue, value with
    | true, none => .ok (.waiting a spec)
    | false, some _ => .error .usage
    | _, value => (a.add spec value).map .complete

def readWord (specs : List OptionSpec) (a : Arguments) (word : String) : Except Stop Reading :=
  match word.toList with
  | '-' :: '-' :: cs => readLong specs a cs
  | '-' :: c :: cs => readShort specs a (c :: cs)
  | _ => .ok (.complete (a.addPositional word))

/-- Reads words to their end; after two dashes alone all words are positional. -/
def readFrom (specs : List OptionSpec) : Arguments → List String → Except Stop Arguments
  | a, [] => .ok a
  | a, word :: words =>
    if word = "--" then .ok (words.foldl addPositional a)
    else match readWord specs a word with
      | .error stop => .error stop
      | .ok (.complete a) => readFrom specs a words
      | .ok (.waiting a spec) =>
        match words with
        | [] => .error .usage
        | value :: words =>
          if isValue value then
            match a.add spec (some value) with
            | .error stop => .error stop
            | .ok a => readFrom specs a words
          else .error .usage

end Arguments

end Stencil
