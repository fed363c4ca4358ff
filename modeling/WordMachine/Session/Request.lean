/-
What a host asks of a store.

Apart from running programs, a host can work on a store directly: look at registers and memory, move
the stack pointer, enter and leave frames. `StoreRequest` lists the requests that concern the store
alone, `FrameRequest` those about call records, which the host keeps in a list and names by their
position in it.
-/
import WordMachine.Frame.Protocol
import WordMachine.Instruction.Basic

namespace WordMachine

/-- A request about the store alone. -/
inductive StoreRequest where
  | register (index : Nat)
  | setRegister (index : Nat) (value : Word)
  | load (address : Word)
  | store (address value : Word)
  | frameAddress (offset : Word)
  | frameLoad (offset : Word)
  | frameStore (offset value : Word)
  | readString (address : Word)
  | writeString (address : Word) (bytes : Bytes)
  | push (value : Word)
  | pop
  | reserve (count : UInt64)
  | release (count : UInt64)
  | setFp (value : Word)
  | stageFloat (number : Single)
  | growth
  | reset
  deriving DecidableEq, Repr

/-- A request about call records. -/
inductive FrameRequest where
  /-- Enters a frame and appends its record. -/
  | enter (argument returnAddress : Word)
  /-- Appends the record of the active frame. -/
  | active
  | stage (index : Nat) (completion : Completion)
  | exit (index : Nat)
  | record (index : Nat)
  deriving DecidableEq, Repr

/-- A request that needs no program. -/
inductive Request where
  | store (request : StoreRequest)
  | frame (request : FrameRequest)
  deriving DecidableEq, Repr

/-- What a host gets back. -/
inductive Answer where
  | done
  | word (value : Word)
  | size (value : Nat)
  | bytes (value : Bytes)
  | growth (value : Growth)
  | record (value : CallRecord)
  | completion (value : Completion)
  /-- There is no record at the position asked for. -/
  | noRecord
  deriving DecidableEq, Repr

/-- Serves a request about the store. -/
def StoreRequest.serve : StoreRequest → Action Store Answer
  | register index => return .word (← Store.register index)
  | setRegister index value => do
    Store.setRegister index value
    return .done
  | load address => return .word (← Store.load address)
  | store address value => do
    Store.store address value
    return .done
  | frameAddress offset => return .word (← Store.frameAddress offset)
  | frameLoad offset => return .word (← Store.frameLoad offset)
  | frameStore offset value => do
    Store.frameStore offset value
    return .done
  | readString address => return .bytes (← Store.readString address)
  | writeString address bytes => return .size (← Store.writeString address bytes)
  | push value => do
    Store.push value
    return .done
  | pop => return .word (← Store.pop)
  | reserve count => return .word (← Store.reserve count)
  | release count => do
    Store.release count
    return .done
  | setFp value => do
    Store.setFp value
    return .done
  | stageFloat number => do
    Store.stageFloat number
    return .done
  | growth => return .growth (← get).growth
  | reset => do
    modify Store.reset
    return .done

end WordMachine
