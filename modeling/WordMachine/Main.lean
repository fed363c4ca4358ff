/-
The program: reads and writes files, the input, the output and the log on behalf of a command.

An image runs block by block, which `Machine.run_eq` says is how a run goes. What a block printed is
written at once, and before a block that calls a read intrinsic the input is read up to the end of
the next token, so that a program can be used from a terminal.
-/
import WordMachine.Command.Report

namespace WordMachine.Command

/-- The number of an error of the system. Some operations give it with its sign changed. -/
def errorNumber (code : UInt32) : UInt32 := min code (0 - code)

/-- The reason that a file could not be read or written. -/
def reasonOf : IO.Error → String
  | .noFileOrDirectory .. => Directory.missing
  | .inappropriateType _ code _ =>
    if errorNumber code = 20 then Directory.notADirectory else Directory.isADirectory
  | .invalidArgument filename code details =>
    if errorNumber code = 36 then Directory.nameTooLong
    else toString (IO.Error.invalidArgument filename code details)
  | e => toString e

/-- The contents of a file, or why it cannot be read. -/
def readFile (path : String) : IO (Except String Bytes) := do
  try
    let contents ← IO.FS.readBinFile path
    return .ok contents.toList
  catch e => return .error (reasonOf e)

/-- Writes a file and gives its name, or why it cannot be written. -/
def writeFile (path : String) (bytes : Bytes) : IO (Except String (Option String)) := do
  try
    IO.FS.writeBinFile path (ByteArray.mk bytes.toArray)
    return .ok (some path)
  catch e => return .error (reasonOf e)

/-- Prints bytes. -/
def printBytes (bytes : Bytes) : IO Unit := do
  let stdout ← IO.getStdout
  stdout.write (ByteArray.mk bytes.toArray)
  stdout.flush

/-- Prints the events that are shown at a verbosity. -/
def printEvents (verbosity : Nat) (events : List Event) : IO Unit := do
  let shown := (severityOf verbosity).includes
  for e in events do
    if shown e.severity then IO.eprintln e.line

/-- A line of the input with its end, or nothing at the end of the input. -/
partial def readLine (stdin : IO.FS.Stream) (line : Array UInt8) : IO (Array UInt8) := do
  let chunk ← stdin.read 1
  match chunk.toList with
  | [] => return line
  | b :: _ => if b = 10 then return line.push b else readLine stdin (line.push b)

/-- Whether a source holds a token with a blank after it. -/
def holdsToken (source : Source) : Bool :=
  let bytes := source.coming.foldl
    (fun bytes segment =>
      match segment with
      | .bytes more => bytes ++ more
      | .failure _ => bytes)
    source.pending
  (bytes.dropWhile isBlank).any isBlank

/-- Reads lines until the source holds a token with a blank after it, or the input ends. -/
partial def fill (stdin : IO.FS.Stream) (m : Machine) : IO Machine := do
  if holdsToken m.console.source then return m
  let line ← readLine stdin #[]
  if line.isEmpty then return m
  let source := m.console.source
  let coming := source.coming ++ [.bytes line.toList]
  fill stdin { m with console := { m.console with source := { source with coming } } }

/-- Whether the block of a label calls an intrinsic that reads. -/
def reads (m : Machine) (label : Label) : Bool :=
  match m.program.block label with
  | .ok block =>
    match block.transfer.intrinsic? with
    | some i => i.needs.contains .input
    | none => false
  | .error _ => false

/-- Fills the source before a block that reads. -/
def prepare (stdin : IO.FS.Stream) : Outcome Machine Flow → IO (Outcome Machine Flow)
  | .ok (.next label) m => do
    if reads m label then return .ok (.next label) (← fill stdin m) else return .ok (.next label) m
  | o => return o

/-- The machine after what it wrote and noted was printed. -/
def drained (m : Machine) : Machine :=
  let sink := { m.console.sink with written := #[] }
  { m with journal := #[], console := { m.console with sink } }

/-- Prints what a machine wrote and noted, and forgets it. -/
def drain (verbosity : Nat) (o : Outcome Machine Flow) : IO (Outcome Machine Flow) := do
  let m := Outcome.state o
  printEvents verbosity m.journal.toList
  printBytes m.console.sink.written.toList
  return Outcome.within drained o

/-- Goes on from an outcome, block after block, until control leaves the program. -/
partial def runBlocks (verbosity : Nat) (stdin : IO.FS.Stream) (o : Outcome Machine Flow) :
    IO (Outcome Machine Unit) := do
  match Machine.drive 0 o with
  | some o => return Machine.runOutcome (Machine.flushed o)
  | none =>
    let o ← prepare stdin o
    runBlocks verbosity stdin (← drain verbosity (Machine.resume o))

/-- Prints a report that wrote no files, and gives its exit code. -/
def printReport (verbosity : Nat) (report : Report) : IO UInt32 := do
  printEvents verbosity report.journal
  printBytes report.output
  IO.eprint report.errors
  return UInt32.ofNat report.exitCode

/-- Runs an image on the input. -/
def runImage (verbosity : Nat) (path : String) (config : Config) : IO UInt32 := do
  match imageOf path (← readFile path) with
  | .error f => printReport verbosity (.ofFailure f)
  | .ok image =>
    printEvents verbosity (withheld image config)
    match Machine.load config image.program {} with
    | .error f => printReport verbosity (.ofFailure ⟨"failed to build machine", f.message⟩)
    | .ok m =>
      match ← runBlocks verbosity (← IO.getStdin) (.ok (.next m.program.entry) m) with
      | .ok () _ => return 0
      | .error f _ => printReport verbosity (.ofFailure ⟨"runtime error", f.message⟩)

def usage : String :=
  "usage: wre [-v] run PATH [--memory N] [--registers N] [--grow-down] [--no-strings]\n" ++
  "                         [--no-floats] [--no-input] [--max-steps N]\n" ++
  "       wre [-v] generate PATH\n" ++
  "       wre [-v] inspect PATH\n"

/-- Does what a command line says, and gives the exit code. -/
def execute (arguments : List String) : IO UInt32 := do
  match Invocation.ofArguments? arguments with
  | none =>
    IO.eprint usage
    return 2
  | some invocation =>
    let verbosity := invocation.verbosity
    match invocation.task with
    | .run path config => runImage verbosity path config
    | .generate path =>
      let name ← writeFile path (Image.encode Sample.program)
      printReport verbosity (generate path name)
    | .inspect path => printReport verbosity (inspect path (← readFile path))

end WordMachine.Command

def main (arguments : List String) : IO UInt32 := WordMachine.Command.execute arguments
