/-
What a command does.

A report is all that a command leaves behind: its exit code, what it printed, the events that its
reader sees, and the files that it wrote. Nothing here touches the outside; the contents of files
and of the input are given as data.

* `Command.inspect`, `Command.generate` and `Command.run` are the three commands.
* `Command.perform` does what a command line says in a directory.
-/
import WordMachine.Command.Arguments
import WordMachine.Command.Directory
import WordMachine.Command.Sample
import WordMachine.Image.Decode
import WordMachine.Instruction.Listing
import WordMachine.Machine.Run

namespace WordMachine.Command

/-- Why a command did not succeed: what it was doing, and the cause. -/
structure Failure where
  context : String
  cause : String
  deriving DecidableEq, Repr

/-- A failure in words. -/
def Failure.message (f : Failure) : String :=
  "Error: " ++ f.context ++ "\n\nCaused by:\n    " ++ f.cause ++ "\n"

/-- What a command leaves behind. -/
structure Report where
  exitCode : Nat := 0
  output : Bytes := []
  errors : String := ""
  journal : List Event := []
  written : List (String × Bytes) := []
  deriving DecidableEq, Repr

namespace Report

/-- The command line was not understood. -/
def misused : Report := { exitCode := 2 }

/-- A command that failed before it did anything. -/
def ofFailure (f : Failure) : Report := { exitCode := 1, errors := f.message }

/-- A command that printed a text. -/
def ofText (text : String) : Report := { output := text.toUTF8.toList }

end Report

/-- The severity of the events that are shown at some verbosity. -/
def severityOf (verbosity : Nat) : Severity :=
  match verbosity with
  | 0 => .warn
  | 1 => .debug
  | _ => .trace

/-- The image in a file that was read, or was not. -/
def imageOf (path : String) (contents : Except String Bytes) : Except Failure Image :=
  match contents with
  | .error reason => .error ⟨"failed to read " ++ path, reason⟩
  | .ok bytes =>
    match Image.decode bytes with
    | .error f => .error ⟨"invalid program image", f.message⟩
    | .ok image => .ok image

/-- A block with its label, one line each for the label, the instructions and the transfer. -/
def blockLines (block : Block) (index : Nat) : List String :=
  (Label.text ⟨UInt32.ofNat index⟩ ++ ":") ::
    block.instructions.map ("    " ++ ·.listing) ++ ["    -> " ++ block.transfer.listing]

/-- The listing of an image. -/
def imageLines (path : String) (image : Image) : List String :=
  let p := image.program
  ["== " ++ path ++ " ==",
    "entry " ++ p.entry.text ++ ", " ++ toString p.data.length ++ " data cells, capabilities 0x" ++
      Text.hexByte image.declared.mask] ++
    p.blocks.toList.zipIdx.flatMap fun (block, index) => blockLines block index

/-- Prints the listing of an image. -/
def inspect (path : String) (contents : Except String Bytes) : Report :=
  match imageOf path contents with
  | .error f => .ofFailure f
  | .ok image => .ofText (String.join ((imageLines path image).map (· ++ "\n")))

/-- Writes the image of the sample program to a file, if the file can be written. The name is the
one under which the file is found in the working directory afterwards, if it is there. -/
def generate (path : String) (name : Except String (Option String)) : Report :=
  match name with
  | .error reason => .ofFailure ⟨"failed to write " ++ path, reason⟩
  | .ok name =>
    { Report.ofText ("wrote sample program image to " ++ path ++ "\n") with
      written := name.toList.map fun name => (name, Image.encode Sample.program) }

/-- One event for each capability that an image declares and a configuration withholds. -/
def withheld (image : Image) (config : Config) : List Event :=
  (Capability.all.filter fun c =>
    image.declared.contains c && !config.capabilities.contains c).map .capabilityWithheld

/-- The report of a run that has ended. -/
def runReport (warnings : List Event) (o : Outcome Machine Unit) : Report :=
  let m := o.state
  let report : Report :=
    { output := m.console.sink.written.toList, journal := warnings ++ m.journal.toList }
  match o.toExcept with
  | .ok () => report
  | .error f =>
    { report with exitCode := 1, errors := Failure.message ⟨"runtime error", f.message⟩ }

/-- Runs an image on some input. Without a report the fuel did not last. -/
def run (fuel : Nat) (path : String) (config : Config) (contents : Except String Bytes)
    (input : Bytes) : Option Report :=
  match imageOf path contents with
  | .error f => some (.ofFailure f)
  | .ok image =>
    let warnings := withheld image config
    let console : Console := { source := .ofSegments [.bytes input] }
    match Machine.load config image.program console with
    | .error f =>
      some { Report.ofFailure ⟨"failed to build machine", f.message⟩ with journal := warnings }
    | .ok m => (m.run fuel).map (runReport warnings)

/-- Does what a command line says in a directory. The journal holds what the reader sees. -/
def perform (fuel : Nat) (directory : Directory) (input : Bytes) (arguments : List String) :
    Option Report :=
  match Invocation.ofArguments? arguments with
  | none => some .misused
  | some invocation =>
    let report :=
      match invocation.task with
      | .run path config => run fuel path config (directory.read path) input
      | .generate path => some (generate path (directory.nameFor path))
      | .inspect path => some (inspect path (directory.read path))
    report.map fun r =>
      let shown := (severityOf invocation.verbosity).includes
      { r with journal := r.journal.filter fun e => shown e.severity }

end WordMachine.Command
