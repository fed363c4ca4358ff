/-
The command line.

A command line names a command and a path, with options around them. Options that start with two
dashes may stand anywhere after the command; a setting takes its value after an equals sign or from
the next argument, and no option but the one for verbosity may be repeated. Two dashes alone end the
options.

* `Invocation.ofArguments?` reads a command line, or finds that it is not one.
* The verbosity is counted before and after the command; the count after it wins unless it is zero.
-/
import WordMachine.Config
import WordMachine.Numeral

namespace WordMachine.Command

/-- An option that is either given or not. -/
inductive Switch where
  | growDown
  | noStrings
  | noFloats
  | noInput
  deriving DecidableEq, Repr

/-- An option with a number. -/
inductive Setting where
  | memory
  | registers
  | maxSteps
  deriving DecidableEq, Repr

def Switch.ofName? (name : List Char) : Option Switch :=
  if name = "grow-down".toList then some growDown
  else if name = "no-strings".toList then some noStrings
  else if name = "no-floats".toList then some noFloats
  else if name = "no-input".toList then some noInput
  else none

def Setting.ofName? (name : List Char) : Option Setting :=
  if name = "memory".toList then some memory
  else if name = "registers".toList then some registers
  else if name = "max-steps".toList then some maxSteps
  else none

/-- What has been read of the arguments after the command. -/
structure Draft where
  verbosity : Nat := 0
  paths : List String := []
  switches : List Switch := []
  settings : List (Setting × Nat) := []
  deriving Repr

namespace Draft

def addSwitch (d : Draft) (s : Switch) : Option Draft :=
  if s ∈ d.switches then none else some { d with switches := s :: d.switches }

/-- The value of a setting, if it was given. -/
def setting? (d : Draft) (s : Setting) : Option Nat :=
  (d.settings.find? (·.1 = s)).map (·.2)

def addSetting (d : Draft) (s : Setting) (value : String) : Option Draft :=
  match d.setting? s, Numeral.readSize? value.toUTF8.toList with
  | none, some n => some { d with settings := (s, n) :: d.settings }
  | _, _ => none

/-- The configuration that the options describe. -/
def config (d : Draft) : Config where
  registers := (d.setting? .registers).getD 10000
  memory := (d.setting? .memory).getD 10000
  growth := if .growDown ∈ d.switches then .downward else .upward
  capabilities :=
    { strings := .noStrings ∉ d.switches
      floats := .noFloats ∉ d.switches
      input := .noInput ∉ d.switches }
  stepLimit := (d.setting? .maxSteps).map UInt64.ofNat

end Draft

/-- Whether an argument is an option and not a value. -/
def looksLikeOption (argument : String) : Bool :=
  match argument.toList with
  | ['-'] => false
  | '-' :: _ => true
  | _ => false

/-- Splits a long option at its first equals sign. -/
def splitValue (option : List Char) : List Char × Option String :=
  match option.dropWhile (· ≠ '=') with
  | [] => (option, none)
  | _ :: value => (option.takeWhile (· ≠ '='), some (String.ofList value))

/-- How much a cluster of short options adds to the verbosity, if it holds nothing else. -/
def verbosityOf? (cluster : List Char) : Option Nat :=
  if cluster ≠ [] ∧ cluster.all (· = 'v') then some cluster.length else none

/-- Reads a long option without a value of its own. It says how many of the arguments that follow
belong to it. -/
def readLong (configurable : Bool) (name : List Char) (rest : List String) (d : Draft) :
    Option (Draft × Nat) :=
  if name = "verbose".toList then some ({ d with verbosity := d.verbosity + 1 }, 0)
  else if !configurable then none
  else
    match Switch.ofName? name with
    | some s => (d.addSwitch s).map (·, 0)
    | none =>
      match Setting.ofName? name, rest with
      | some s, value :: _ =>
        if looksLikeOption value then none else (d.addSetting s value).map (·, 1)
      | _, _ => none

/-- Reads an argument after the command. It says how many of the arguments that follow belong to
it. -/
def readArgument (configurable : Bool) (argument : String) (rest : List String) (d : Draft) :
    Option (Draft × Nat) :=
  match argument.toList with
  | ['-', '-'] => some ({ d with paths := d.paths ++ rest }, rest.length)
  | '-' :: '-' :: option =>
    match splitValue option with
    | (name, none) => readLong configurable name rest d
    | (name, some value) =>
      match configurable, Setting.ofName? name with
      | true, some s => (d.addSetting s value).map (·, 0)
      | _, _ => none
  | '-' :: c :: cluster =>
    (verbosityOf? (c :: cluster)).map fun n => ({ d with verbosity := d.verbosity + n }, 0)
  | _ => some ({ d with paths := d.paths ++ [argument] }, 0)

/-- Reads the arguments after the command. Only some commands take switches and settings. -/
def readOptions (configurable : Bool) : List String → Draft → Option Draft
  | [], d => some d
  | argument :: rest, d =>
    match readArgument configurable argument rest d with
    | none => none
    | some (d, used) => readOptions configurable (rest.drop used) d
termination_by arguments => arguments.length
decreasing_by
  simp only [List.length_cons, List.length_drop]
  omega

/-- What is to be done. -/
inductive Task where
  | run (path : String) (config : Config)
  | generate (path : String)
  | inspect (path : String)
  deriving DecidableEq, Repr

/-- A command line that was understood. -/
structure Invocation where
  verbosity : Nat
  task : Task
  deriving DecidableEq, Repr

namespace Invocation

/-- Reads the arguments after a command, of which exactly one is a path. -/
def ofOptions? (configurable : Bool) (verbosity : Nat) (arguments : List String)
    (task : String → Config → Task) : Option Invocation :=
  match readOptions configurable arguments {} with
  | none => none
  | some d =>
    match d.paths with
    | [path] =>
      some ⟨if d.verbosity = 0 then verbosity else d.verbosity, task path d.config⟩
    | _ => none

/-- Reads a command line, with the verbosity counted so far. -/
def ofArgumentsFrom? : List String → Nat → Option Invocation
  | [], _ => none
  | argument :: rest, verbosity =>
    if argument = "run" then ofOptions? true verbosity rest .run
    else if argument = "generate" then ofOptions? false verbosity rest fun path _ => .generate path
    else if argument = "inspect" then ofOptions? false verbosity rest fun path _ => .inspect path
    else if argument = "--verbose" then ofArgumentsFrom? rest (verbosity + 1)
    else
      match argument.toList with
      | '-' :: cluster =>
        match verbosityOf? cluster with
        | some n => ofArgumentsFrom? rest (verbosity + n)
        | none => none
      | _ => none

/-- Reads a command line. -/
def ofArguments? (arguments : List String) : Option Invocation := ofArgumentsFrom? arguments 0

end Invocation

end WordMachine.Command
