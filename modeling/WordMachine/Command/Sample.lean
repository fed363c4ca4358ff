/-
A sample program.

It asks for a name and a number, greets, and prints the square of the number, or "false" if what was
given is not a number.
-/
import WordMachine.Program

namespace WordMachine.Command.Sample

/-- The address of the prompt. -/
def prompt : Word := 100

/-- The address of the greeting. -/
def greeting : Word := 120

/-- The address of the buffer for the name. -/
def name : Word := 200

/-- A call of an intrinsic. -/
def callOf (i : Intrinsic) (argument : UInt16) (resume : UInt32) : Transfer :=
  .call (.intrinsic i) ⟨argument⟩ ⟨resume⟩

def blocks : Array Block := #[
  ⟨[.constant ⟨1⟩ prompt], callOf .printString 1 1⟩,
  ⟨[.constant ⟨1⟩ name], callOf .readString 1 2⟩,
  ⟨[.constant ⟨1⟩ greeting], callOf .printString 1 3⟩,
  ⟨[.constant ⟨1⟩ name], callOf .printString 1 4⟩,
  ⟨[], callOf .readInteger 1 5⟩,
  ⟨[.status ⟨2⟩], .branch ⟨2⟩ ⟨6⟩ ⟨7⟩⟩,
  ⟨[.copy ⟨3⟩ ⟨0⟩], .call (.routine ⟨8⟩) ⟨3⟩ ⟨9⟩⟩,
  ⟨[.constant ⟨1⟩ 0], callOf .printBoolean 1 10⟩,
  ⟨[.loadFrame ⟨4⟩ 0, .binary .mul ⟨4⟩ ⟨4⟩ ⟨4⟩], .ret (some ⟨4⟩)⟩,
  ⟨[], callOf .printInteger 0 10⟩,
  ⟨[], .halt⟩]

/-- The bytes of the prompt, "name? ". -/
def promptText : Bytes := [110, 97, 109, 101, 63, 32]

/-- The bytes of the greeting, "hello, ". -/
def greetingText : Bytes := [104, 101, 108, 108, 111, 44, 32]

def program : Program :=
  Program.withString (Program.withString ⟨⟨0⟩, blocks, []⟩ prompt promptText)
    greeting greetingText

-- Every label of the sample names one of its blocks.
example : Program.ofBlocks ⟨0⟩ blocks = .ok ⟨⟨0⟩, blocks, []⟩ := rfl

end WordMachine.Command.Sample
