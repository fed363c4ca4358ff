/-
Resets.

A machine can be left in a bad state: a call fails in the middle and its frames stay on the stack,
the host moves the stack pointer or overwrites the program's data.  A reset makes it a machine that
was just loaded, since all that a reset looks at are the program and the sizes of the spaces, and
nothing changes these.

* `Store.reset_eq_of_shape`: two stores of one shape are reset to the same store;
* `Session.shape_of_serve`: no request changes the shape of the store;
* `Machine.reset_of_load`: a machine whose store has the shape of a loaded one is reset to it;
* `reset_is_fresh`: so it is after every history, and the machine then does what a fresh one does.
-/
import WordMachine.Proofs.Direct
import WordMachine.Proofs.Variation

namespace WordMachine

open WordMachine.Action (Keeps Through keeps_pure)
open Store (Follows shape)

/-! ### Stores of one shape -/

namespace Store

/-- What a store is reset to depends on its shape only. -/
theorem reset_eq_of_shape {s t : Store} (h : s.shape = t.shape) : s.reset = t.reset := by
  have hregisters : s.registers.size = t.registers.size := congrArg Shape.registers h
  have hmemory : s.memory.size = t.memory.size := congrArg Shape.memory h
  have hgrowth : s.stack.growth = t.stack.growth := congrArg Shape.growth h
  have hinitial : s.stack.initial = t.stack.initial := congrArg Shape.initial h
  have hcapacity : s.stack.capacity = t.stack.capacity := congrArg Shape.capacity h
  simp only [reset, Registers.clear, Memory.clear, Stack.clear, hregisters, hmemory, hgrowth,
    hinitial, hcapacity]

/-- A store that was just built is not changed by a reset. -/
theorem reset_of_ofConfig {c : Config} {s : Store} (h : ofConfig c = .ok s) : s.reset = s := by
  obtain ⟨-, -, rfl⟩ := ofConfig_eq_ok.mp h
  simp only [reset, Registers.clear, Registers.size_ofSize, Memory.clear, Memory.size_ofSize,
    Stack.clear, Stack.ofCapacity]

theorem keeps_footing_seed (cells : List DataCell) : Keeps footing (Machine.seed cells) := by
  induction cells with
  | nil => exact keeps_pure ()
  | cons cell cells ih => exact (keeps_store _ _).bind fun _ => ih

theorem keeps_seed (cells : List DataCell) : Keeps shape (Machine.seed cells) :=
  (keeps_footing_seed cells).shape

/-- Two stores have the same shape. -/
def SameShape (s t : Store) : Prop := t.shape = s.shape

instance : Std.Refl SameShape := ⟨fun _ => rfl⟩

instance : IsTrans Store SameShape := ⟨fun _ _ _ h h' => Eq.trans h' h⟩

theorem follows_sameShape : Follows SameShape fun _ => True where
  aground _ _ _ h := h
  reserve count _ := (keeps_reserve count).shape
  release count := (keeps_release count).shape
  reset := shape_reset

end Store

namespace Session

variable {s : Session} {request : HostRequest} {fuel : Nat}

/-- No request changes the shape of the store. -/
theorem shape_of_serve {o : Outcome Session Answer} (h : s.serve fuel request = some o) :
    (Outcome.state o).machine.store.shape = s.machine.store.shape := by
  refine leads_serve_of (R := Through (fun m : Machine => m.store) Store.SameShape) (fun c m => ?_)
    (fun m n => rfl) (fun r m records _ => ?_) (fun _ m => ?_) h
  · exact congrArg (fun v => v.2.2.2) (Machine.keeps_setting_advance c m)
  · exact Bench.leads_follows Store.follows_sameShape trivial trivial (fun _ _ => trivial)
      ⟨m.toWorld, records⟩
  · have hseed := Machine.keeps_onStore (Store.keeps_seed m.program.data) m.cleared
    exact (congrArg (fun v => v.2.2.2) hseed).trans (Store.shape_reset m.store)

end Session

/-! ### Loading and resetting -/

namespace Machine

variable {config : Config} {program : Program} {console : Console} {m m' : Machine}

/-- A machine is loaded by building its store and putting the data of the program into it. -/
theorem load_iff : load config program console = .ok m ↔
    ∃ built store, Store.ofConfig config = .ok built ∧
      seed program.data built = .ok () store ∧ m = { store, console, config, program } := by
  rw [load]
  cases Store.ofConfig config with
  | error f => simp
  | ok built =>
    cases hseed : seed program.data built with
    | error f store => simp [hseed]
    | ok u store => simp [hseed, eq_comm]

theorem load_of_toOption (h : (load config program console).toOption = some m) :
    load config program console = .ok m := by
  cases hload : load config program console with
  | error f =>
    rw [hload] at h
    cases h
  | ok m' =>
    rw [hload] at h
    cases h
    rfl

/-- **A machine whose store has the shape of a loaded one is reset to it.**  The console and the
journal stay. -/
theorem reset_of_load (h : load config program console = .ok m)
    (hprogram : m'.program = program) (hconfig : m'.config = config)
    (hshape : m'.store.shape = m.store.shape) :
    reset m' = .ok () { m with console := m'.console, journal := m'.journal } := by
  obtain ⟨built, store, hbuilt, hseed, rfl⟩ := load_iff.mp h
  have hsame : m'.store.shape = built.shape :=
    hshape.trans ((Store.keeps_seed program.data).of_ok hseed)
  have hreset : seed program.data m'.store.reset = .ok () store := by
    rw [Store.reset_eq_of_shape hsame, Store.reset_of_ofConfig hbuilt, hseed]
  subst hprogram hconfig
  exact onStore_of_ok (m := m'.cleared) hreset

end Machine

/-! ### What happened before -/

/-- The machine, had other things happened before it was loaded. -/
def Machine.preceded (earlier : Array Event) (m : Machine) : Machine :=
  { m with journal := earlier ++ m.journal }

def Session.preceded (earlier : Array Event) (s : Session) : Session :=
  { s with machine := s.machine.preceded earlier }

/-- The change of a journal by what happened before it. -/
def Variation.ofJournal (earlier : Array Event) : Variation where
  config c := c
  console c := c
  sink_eq := Variation.same.sink_eq
  journal j := earlier ++ j
  journal_push _ _ := Array.append_push

/-- What happened before does not matter to what is answered. -/
theorem Session.serveAll_preceded (earlier : Array Event) (fuel : Nat)
    (requests : List HostRequest) (s : Session) :
    (s.preceded earlier).serveAll fuel requests =
      (s.serveAll fuel requests).map fun r => (r.1, r.2.preceded earlier) :=
  serveAll_vary (v := .ofJournal earlier) (fun _ _ => Machine.commutesAt_count_of_limit rfl)
    (fun _ => Variation.spares_of_console (fun _ => rfl) rfl) fuel requests rfl

/-- **A machine that is reset is a fresh machine.**  After any history of runs, calls, resets and
work on the store, whether these succeeded or failed, a reset succeeds and leaves what loading the
program with the console as it is now would give, with nothing added to the journal.  From then on
the machine does what a machine that was loaded so does. -/
theorem reset_is_fresh {config : Config} {program : Program} {console : Console} {m : Machine}
    (hload : Machine.load config program console = .ok m) {fuel : Nat}
    {requests : List HostRequest} {answers : List (Except Fault Answer)} {s : Session}
    (hserve : Session.serveAll fuel requests ⟨m, #[]⟩ = some (answers, s)) :
    ∃ fresh, Machine.load config program s.machine.console = .ok fresh ∧
      fresh = { m with console := s.machine.console } ∧
      Machine.reset s.machine = .ok () (fresh.preceded s.machine.journal) ∧
      ∀ records fuel later,
        Session.serveAll fuel later ⟨fresh.preceded s.machine.journal, records⟩ =
          (Session.serveAll fuel later ⟨fresh, records⟩).map fun r =>
            (r.1, r.2.preceded s.machine.journal) := by
  obtain ⟨built, store, hbuilt, hseed, rfl⟩ := Machine.load_iff.mp hload
  obtain ⟨_, hsettled⟩ := Session.Arises.settled ⟨_, _, _, _, hload, hserve⟩
  have hshape : s.machine.store.shape = store.shape :=
    Session.serveAll_invariant (P := fun s => s.machine.store.shape = store.shape)
      (fun _ _ _ _ hs ho => (Session.shape_of_serve ho).trans hs) rfl hserve
  refine ⟨{ store, console := s.machine.console, config, program },
    Machine.load_iff.mpr ⟨built, store, hbuilt, hseed, rfl⟩, rfl, ?_, fun records fuel later => ?_⟩
  · have hreset := Machine.reset_of_load hload hsettled.since.program hsettled.since.config hshape
    rw [hreset, Machine.preceded, Array.append_empty]
  · exact Session.serveAll_preceded _ fuel later ⟨_, records⟩

/-- A routine that calls itself until the stack is full, and a cell of data where its first frame
will be. -/
def endlessCalls : Program :=
  ⟨⟨0⟩, #[⟨[], .call (.routine ⟨0⟩) ⟨1⟩ ⟨0⟩⟩], [⟨1, 7⟩]⟩

/-- A call that fails, and a reservation of a count so large that it reads as minus ten. -/
def overflowRequests : List HostRequest :=
  [.call (.routine ⟨0⟩) 5, .direct (.store (.reserve 18446744073709551606))]

theorem reset_after_overflow_is_fresh :
    ∃ m answers s, ∃ fresh : Machine,
      Machine.load { registers := 2, memory := 8 } endlessCalls {} = .ok m ∧
      Session.serveAll 3 overflowRequests ⟨m, #[]⟩ = some (answers, s) ∧
      s.machine.store.sp = -4 ∧ s.machine.store.memory.cells = #[-1, 0, 5, 0, 2, 0, 0, 0] ∧
      Machine.reset s.machine = .ok () (fresh.preceded s.machine.journal) ∧
      fresh.store = m.store ∧ m.store.memory.cells = #[0, 7, 0, 0, 0, 0, 0, 0] := by
  have hoverflow : ((Machine.load { registers := 2, memory := 8 } endlessCalls {}).toOption.bind
      fun m => (Session.serveAll 3 overflowRequests ⟨m, #[]⟩).map fun r =>
        (m.store.memory.cells, r.2.machine.store.sp, r.2.machine.store.memory.cells)) =
      some (#[0, 7, 0, 0, 0, 0, 0, 0], -4, #[-1, 0, 5, 0, 2, 0, 0, 0]) := by decide +kernel
  obtain ⟨m, hm, hserved⟩ := Option.bind_eq_some_iff.mp hoverflow
  obtain ⟨⟨answers, s⟩, hserve, hend⟩ := Option.map_eq_some_iff.mp hserved
  obtain ⟨hdata, hrest⟩ := Prod.mk.inj hend
  obtain ⟨hsp, hcells⟩ := Prod.mk.inj hrest
  have hload := Machine.load_of_toOption hm
  obtain ⟨fresh, -, hfresh, hreset, -⟩ := reset_is_fresh hload hserve
  exact ⟨m, answers, s, fresh, hload, hserve, hsp, hcells, hreset, by rw [hfresh], hdata⟩

end WordMachine
