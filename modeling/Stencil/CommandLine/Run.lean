import Stencil.CommandLine.Invocation
import Stencil.Files.Disk
import Stencil.Manifest.Diagnostic
import Stencil.Manifest.Generate

/-! The commands. Each one reads and writes files through a disk, and ends with an exit
code, the text it prints and what it has to say about a failure. -/

namespace Stencil

structure Ending where
  exit : Nat
  output : String := ""
  report : String := ""
deriving DecidableEq, Repr

def Ending.failure (report : String) : Ending where
  exit := 1
  report := report

def Ending.success (output : String) : Ending where
  exit := 0
  output := output

def counted (n : Nat) (singular plural : String) : String :=
  n.repr ++ " " ++ if n = 1 then singular else plural

/-- A heading with its number of lines, then the lines; nothing for no lines. -/
def outlineSection (singular plural : String) (entries : List String) : String :=
  if entries.isEmpty then ""
  else "\n  " ++ counted entries.length singular plural ++ ":\n"
    ++ String.join (entries.map fun e => "    " ++ e ++ "\n")

def ClassDecl.outline (c : ClassDecl) : String :=
  c.name ++ " (" ++ counted c.methods.length "method" "methods" ++ ")"

/-- What a manifest will generate. -/
def Manifest.outline (m : Manifest) : String :=
  "  module " ++ m.info.name ++ " (" ++ m.style.indent.name ++ ", "
    ++ m.style.lineEnding.name ++ ")\n"
    ++ outlineSection "import" "imports" (m.imports.map ImportDecl.source)
    ++ outlineSection "class" "classes" (m.classes.map ClassDecl.outline)
    ++ outlineSection "function" "functions" (m.functions.map FunctionDecl.name)

def Manifest.restyle (m : Manifest) (indent : Option Indent) (lineEnding : Option LineEnding) :
    Manifest :=
  { m with style :=
      { indent := indent.getD m.style.indent
        lineEnding := lineEnding.getD m.style.lineEnding } }

/-- The directory below which the module of a manifest goes: that of the manifest. -/
def baseDirectory (config : String) : String :=
  match parent? config with
  | some "" => "."
  | some directory => directory
  | none => "."

/-- The manifest that every new project starts from. -/
def starter (name : String) : String :=
  "[module]\n" ++
  "name = \"" ++ name ++ "\"\n" ++
  "header = \"Generated by pyper. Do not edit.\"\n" ++
  "\n" ++
  "[style]\n" ++
  "indent = \"spaces4\"\n" ++
  "line_ending = \"lf\"\n" ++
  "\n" ++
  "[[imports]]\n" ++
  "module = \"dataclasses\"\n" ++
  "symbols = [\"dataclass\"]\n" ++
  "\n" ++
  "[[classes]]\n" ++
  "name = \"Greeter\"\n" ++
  "decorators = [\"dataclass\"]\n" ++
  "attributes = [\x7b name = \"greeting\", value = \"'Hello'\" \x7d]\n" ++
  "\n" ++
  "[[classes.methods]]\n" ++
  "name = \"greet\"\n" ++
  "args = [\"self\", \"who: str\"]\n" ++
  "returns = \"str\"\n" ++
  "body = \"return f'\x7bself.greeting\x7d, \x7bwho\x7d!'\"\n" ++
  "\n" ++
  "[[functions]]\n" ++
  "name = \"main\"\n" ++
  "body = \"print(Greeter().greet('world'))\"\n"

/-- A starter never replaces a manifest. -/
def starterRules : FileRules where
  keepExisting := true
  header := some "# Module description for pyper. Run `pyper render` to generate."

def helpText : String :=
  "Generate Python modules from TOML descriptions\n\n"
    ++ "Usage: pyper [-v] <COMMAND>\n\n"
    ++ "Commands:\n"
    ++ "  render  Generate the Python module described by pyper.toml\n"
    ++ "  check   Validate pyper.toml without generating code\n"
    ++ "  init    Create a starter pyper.toml\n"

/-- The command line made no sense. -/
def Ending.usage : Ending where
  exit := 2
  report := helpText

section

variable {m : Type → Type} [Monad m]

def Disk.readManifest (disk : Disk m) (path : String) : m (Except ManifestError Manifest) := do
  match ← disk.read path with
  | .error fault => return .error (.unreadable path fault)
  | .ok document => return Manifest.parse document

/-- Stores the module of a manifest below a directory. -/
def Disk.generate (disk : Disk m) (base : String) (manifest : Manifest) :
    m (Except StoreError Stored) :=
  disk.store {} (manifest.module.path base) (.ok manifest.module.render)

def runCheck (disk : Disk m) (config : String) : m Ending := do
  match ← disk.readManifest config with
  | .error e => return .failure e.message
  | .ok manifest => return .success ("✓ " ++ config ++ " is valid\n\n" ++ manifest.outline)

/-- Where a module goes, and what `render` says then. -/
def runGeneration (disk : Disk m) (path content : String) : m Ending := do
  match ← disk.store {} path (.ok content) with
  | .error e => return .failure e.message
  | .ok _ => return .success ("Generated: " ++ path ++ "\n")

def runRender (disk : Disk m) (options : RenderOptions) : m Ending := do
  match ← disk.readManifest options.config with
  | .error e => return .failure e.message
  | .ok manifest =>
    let module := (manifest.restyle options.indent options.lineEnding).module
    if options.dryRun then
      return .success ("── " ++ module.relativePath ++ " ──\n" ++ module.render)
    else
      runGeneration disk
        (options.output.getD (module.path (baseDirectory options.config)))
        module.render

/-- The manifest must make sense before it is written. -/
def runInit (disk : Disk m) (name output : String) : m Ending := do
  match Manifest.parse (starter name) with
  | .error e => return .failure e.message
  | .ok _ =>
    let path := joinPath output "pyper.toml"
    match ← disk.store starterRules path (.ok (starter name)) with
    | .error e => return .failure e.message
    | .ok .written =>
      return .success ("Created " ++ path ++ "\n\nNext: pyper render -c " ++ path ++ "\n")
    | .ok .skipped => return .success (path ++ " already exists, leaving it untouched\n")

def Invocation.run (disk : Disk m) : Invocation → m Ending
  | .version => return .success "pyper 0.1.0\n"
  | .help => return .success helpText
  | .check config => runCheck disk config
  | .render options => runRender disk options
  | .init name output => runInit disk name output

/-- Runs the program on its arguments. -/
def runWords (disk : Disk m) (words : List String) : m Ending :=
  match Invocation.parse? words with
  | none => return .usage
  | some invocation => invocation.run disk

end

end Stencil
