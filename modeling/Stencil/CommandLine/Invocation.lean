import Stencil.CommandLine.Arguments

/-! What the program is asked to do. -/

namespace Stencil

structure RenderOptions where
  config : String := "pyper.toml"
  output : Option String := none
  indent : Option Indent := none
  lineEnding : Option LineEnding := none
  dryRun : Bool := false
deriving DecidableEq, Repr

inductive Invocation where
  | version
  | help
  | check (config : String)
  | render (options : RenderOptions)
  | init (name output : String)
deriving DecidableEq, Repr

def verboseOption : OptionSpec where
  short := some 'v'
  long := "verbose"
  repeatable := true

def configOption : OptionSpec where
  short := some 'c'
  long := "config"
  takesValue := true

def outputOption : OptionSpec where
  short := some 'o'
  long := "output"
  takesValue := true

namespace Invocation

/-- The path given for an option, which cannot be empty. -/
def pathOf (a : Arguments) (long : String) : Except Stop (Option String) :=
  match a.value? long with
  | some "" => .error .usage
  | path => .ok path

/-- The value given for an option, as `read` understands it. -/
def styleOf {α : Type} (a : Arguments) (long : String) (read : String → Except StyleError α) :
    Except Stop (Option α) :=
  match a.value? long with
  | none => .ok none
  | some s => match read s with
    | .ok value => .ok (some value)
    | .error _ => .error .usage

def noPositional (a : Arguments) : Except Stop Unit :=
  if a.positional.isEmpty then .ok () else .error .usage

def readCheck (words : List String) : Except Stop Invocation := do
  let a ← Arguments.readFrom [verboseOption, configOption] {} words
  noPositional a
  return .check ((← pathOf a "config").getD "pyper.toml")

def readRender (words : List String) : Except Stop Invocation := do
  let a ← Arguments.readFrom
    [verboseOption, configOption, outputOption, { long := "indent", takesValue := true },
     { long := "line-ending", takesValue := true }, { long := "dry-run" }] {} words
  noPositional a
  return .render
    { config := (← pathOf a "config").getD "pyper.toml"
      output := ← pathOf a "output"
      indent := ← styleOf a "indent" Indent.parse
      lineEnding := ← styleOf a "line-ending" LineEnding.parse
      dryRun := a.isGiven "dry-run" }

def readInit (words : List String) : Except Stop Invocation := do
  let a ← Arguments.readFrom [verboseOption, outputOption] {} words
  match a.positional with
  | [name] => return .init name ((← pathOf a "output").getD ".")
  | _ => .error .usage

/-- A word of short options before the command. -/
def checkShort : List Char → Except Stop Unit
  | [] => .ok ()
  | 'v' :: cs => checkShort cs
  | 'V' :: _ => .error .version
  | 'h' :: _ => .error .help
  | _ => .error .usage

/-- Reads the options before the command, the command, and its arguments. -/
def readWords : List String → Except Stop Invocation
  | [] => .error .usage
  | word :: words =>
    match word with
    | "check" => readCheck words
    | "render" => readRender words
    | "init" => readInit words
    | "help" => .error .help
    | "--verbose" => readWords words
    | "--version" => .error .version
    | "--help" => .error .help
    | word =>
      match word.toList with
      | '-' :: '-' :: _ => .error .usage
      | '-' :: c :: cs => match checkShort (c :: cs) with
        | .ok () => readWords words
        | .error stop => .error stop
      | _ => .error .usage

/-- No invocation stands for arguments that make no sense. -/
def parse? (words : List String) : Option Invocation :=
  match readWords words with
  | .ok invocation => some invocation
  | .error .version => some .version
  | .error .help => some .help
  | .error .usage => none

end Invocation

end Stencil
