/-
The limit on steps.

Every dispatch is counted, and a configuration may say how many are allowed.  The count is kept from
one request to the next until the machine is reset, and it goes up also when the limit refuses the
dispatch.  So a limit makes every request end, and it bounds what is run in all of them together.
A larger limit changes nothing else: it lets an execution go on that a smaller one cuts off.

The count has 64 bits and wraps around.  No count is beyond the largest limit, so that one refuses
nothing; and requests that are refused for long enough bring the count back to zero.  Both are
excluded where they matter.

* `Machine.step_cases`: what a limit makes of a dispatch;
* `Session.exists_serve`: with a limit every request is answered;
* `Machine.Spent`: of the dispatches that are counted, those within the limit are made;
* `Machine.drive_relaxed` and `Machine.drive_cut`: the same execution under two limits;
* `limited_runs_need_not_end`: the largest limit, a count that wraps around, and input without end;
* `step_limit_ends_and_cuts` puts the rest together.
-/
import WordMachine.Proofs.Dispatch
import WordMachine.Proofs.Variation

namespace WordMachine

open WordMachine.Action (Leads CommutesAt)

namespace Machine

variable {L : UInt64} {m m' : Machine} {l : Label}

/-! ### What a block costs -/

theorem toNat_succ {n : UInt64} (h : n.toNat + 1 < UInt64.size) : (n + 1).toNat = n.toNat + 1 :=
  (UInt64.toNat_add n 1).trans (Nat.mod_eq_of_lt h)

theorem toNat_succ_le (n : UInt64) : (n + 1).toNat ≤ n.toNat + 1 :=
  Nat.le_trans (Nat.le_of_eq (UInt64.toNat_add n 1)) (Nat.mod_le _ _)

/-- Within a block the limit is not looked at. -/
theorem flow_ne_stepLimit (c : Control) (m : Machine) (k : UInt64) (t : Machine) :
    c.flow m ≠ .error (.stepLimit k) t := by
  intro h
  rcases Moment.flow_cases ⟨c, m, []⟩ with ⟨f, m', live, hflow, -⟩ | ⟨b, f, m', hflow, -, hb, hfail⟩
  · cases hflow.symm.trans h
  · cases hflow.symm.trans h
    obtain ⟨c', m', live'⟩ := b
    cases failure_of_advance hfail with
    | limit hlimit hsteps => exact hb
    | plain hf hmove => cases hf

theorem dispatches_dispatched (m : Machine) (l : Label) :
    (m.dispatched l).dispatches = m.dispatches + 1 := by
  show (m.journal.push (.dispatch l m.store.sp m.store.fp)).countP Event.isDispatch = _
  rw [Array.countP_push]
  rfl

/-- **A limit refuses a dispatch, and then nothing is done but count, or it lets a block run**, and
then one step is counted and one dispatch made, however the block ends. -/
theorem step_cases (hL : m.config.stepLimit = some L) (l : Label) :
    (L < m.steps + 1 ∧ step l m = .error (.stepLimit L) { m with steps := m.steps + 1 }) ∨
    (m.steps + 1 ≤ L ∧ (Outcome.state (step l m)).steps = m.steps + 1 ∧
      (Outcome.state (step l m)).dispatches = m.dispatches + 1 ∧
      ∀ k t, step l m ≠ .error (.stepLimit k) t) := by
  by_cases hs : L < m.steps + 1
  · exact .inl ⟨hs, Action.bind_of_error (count_eq_error.mpr ⟨L, hL, hs, rfl, rfl⟩)⟩
  · have hcount : count m = .ok () { m with steps := m.steps + 1 } := by
      refine count_eq_ok.mpr ⟨fun k hk => ?_, rfl⟩
      cases hL.symm.trans hk
      exact UInt64.not_lt.mp hs
    refine .inr ⟨UInt64.not_lt.mp hs, ?_⟩
    have hlimit := (count_eq_ok.mp hcount).1
    rw [step_eq_advance]
    cases hblock : m.program.block l with
    | error f =>
      have hl := (Program.block_eq_error.mp hblock).1
      rw [Action.bind_of_error (advance_of_failure (.dispatch hlimit hl))]
      exact ⟨rfl, dispatches_dispatched m l, fun k t h => by cases h⟩
    | ok b =>
      have hquiet := leads_quiet_flow (.inside b.instructions b.transfer) (m.dispatched l)
      rw [Action.bind_of_ok (advance_of_move (.dispatch hlimit hblock))]
      refine ⟨hquiet.steps, ?_, flow_ne_stepLimit _ _⟩
      exact hquiet.world.dispatches.trans (dispatches_dispatched m l)

/-! ### Every request ends -/

/-- As many blocks as the limit leaves, and one more, are enough. -/
theorem exists_drive {fuel : Nat} {o : Outcome Machine Flow} (hmax : L.toNat + 1 < UInt64.size)
    (hL : (Outcome.state o).config.stepLimit = some L)
    (hfuel : ∀ l m, o = .ok (.next l) m → L.toNat + 1 < fuel + (m.steps + 1).toNat ∧ 0 < fuel) :
    ∃ r, drive fuel o = some r := by
  induction fuel generalizing o with
  | zero =>
    rcases o with ⟨l | _ | _, m⟩ | ⟨f, m⟩
    · exact absurd (hfuel l m rfl).2 (Nat.lt_irrefl 0)
    all_goals exact ⟨_, rfl⟩
  | succ fuel ih =>
    rcases o with ⟨l | _ | _, m⟩ | ⟨f, m⟩
    · have hfuel := (hfuel l m rfl).1
      rcases step_cases (m := m) hL l with ⟨-, hrefused⟩ | ⟨hs, hsteps, -⟩
      · exact ⟨_, by rw [drive_succ_next, hrefused, drive_error]⟩
      · refine ih (o := step l m) ?_ fun l' m' hstep => ?_
        · rw [(later_of_step l m).config]
          exact hL
        · -- The count stays within the limit, so it does not wrap around.
          rw [hstep] at hsteps
          replace hsteps : m'.steps = m.steps + 1 := hsteps
          rw [UInt64.le_iff_toNat_le, ← hsteps] at hs
          rw [← hsteps] at hfuel
          rw [toNat_succ (by omega)]
          omega
    all_goals exact ⟨_, rfl⟩

end Machine

/-- **With a limit on steps every request is answered**, if the limit is not the largest one. -/
theorem Session.exists_serve {L : UInt64} {s : Session} (hmax : L.toNat + 1 < UInt64.size)
    (hL : s.machine.config.stepLimit = some L) (request : HostRequest) :
    ∃ o, s.serve (L.toNat + 2) request = some o := by
  cases hstart : request.start? s.machine with
  | some start =>
    obtain ⟨n, hn⟩ := HostRequest.exists_of_start? hstart
    have hconfig := ((Machine.leads_quiet_flow start.control) start.machine).config
    rw [hn] at hconfig
    obtain ⟨r, hr⟩ : ∃ r, Machine.drive (L.toNat + 2) (start.control.flow start.machine) = some r :=
      Machine.exists_drive hmax (by rw [hn, hconfig, hL]) fun l m _ => by omega
    exact ⟨_, by rw [serve_eq_drive hstart, hr]; rfl⟩
  | none =>
    cases request with
    | run => exact ⟨_, serve_idle (HostRequest.start?_run_eq_none.mp hstart) _⟩
    | call callee argument => cases hstart
    | reset => exact ⟨_, rfl⟩
    | direct request => exact ⟨_, rfl⟩

/-! ### What the limit bounds -/

namespace Machine

variable {L : UInt64}

/-- Between two states as many dispatches were made as were counted within the limit, and beyond
the limit at most one was counted. -/
structure Spent (L : UInt64) (m m' : Machine) : Prop where
  steps_le : m'.steps.toNat ≤ max m.steps.toNat L.toNat + 1
  dispatches_add : m'.dispatches + min m.steps.toNat L.toNat =
    m.dispatches + min m'.steps.toNat L.toNat

theorem spent_of_eq {m m' : Machine} (hsteps : m'.steps = m.steps)
    (hdispatches : m'.dispatches = m.dispatches) : Spent L m m' :=
  ⟨by rw [hsteps]; omega, by rw [hsteps, hdispatches]⟩

theorem Spent.congr {m m₁ m' : Machine} (h : Spent L m₁ m') (hsteps : m₁.steps = m.steps)
    (hdispatches : m₁.dispatches = m.dispatches) : Spent L m m' := by
  have hle := h.steps_le
  have hadd := h.dispatches_add
  rw [hsteps] at hle hadd
  rw [hdispatches] at hadd
  exact ⟨hle, hadd⟩

/-- **An execution makes the dispatches that the limit leaves**, as long as the count does not wrap
around. -/
theorem drive_spent {fuel : Nat} {o : Outcome Machine Flow} {r : Outcome Machine Departure}
    (hL : (Outcome.state o).config.stepLimit = some L) (hmax : L.toNat + 1 < UInt64.size)
    (hcount : (Outcome.state o).steps.toNat + 1 < UInt64.size) (hr : drive fuel o = some r) :
    Spent L (Outcome.state o) (Outcome.state r) := by
  induction fuel generalizing o with
  | zero =>
    rcases o with ⟨l | _ | _, m⟩ | ⟨f, m⟩ <;> cases hr
    all_goals exact spent_of_eq rfl rfl
  | succ fuel ih =>
    rcases o with ⟨l | _ | _, m⟩ | ⟨f, m⟩
    · replace hr : drive fuel (step l m) = some r := hr
      replace hcount : m.steps.toNat + 1 < UInt64.size := hcount
      have hsucc : (m.steps + 1).toNat = m.steps.toNat + 1 := toNat_succ hcount
      rcases step_cases (m := m) hL l with ⟨hs, hrefused⟩ | ⟨hs, hsteps, hdispatches, -⟩
      · rw [hrefused, drive_error] at hr
        cases hr
        rw [UInt64.lt_iff_toNat_lt] at hs
        refine ⟨?_, ?_⟩
        · show (m.steps + 1).toNat ≤ max m.steps.toNat L.toNat + 1
          omega
        · show m.dispatches + min m.steps.toNat L.toNat =
            m.dispatches + min (m.steps + 1).toNat L.toNat
          omega
      · rw [UInt64.le_iff_toNat_le] at hs
        have hrest := ih (by rw [(later_of_step l m).config]; exact hL)
          (by rw [hsteps]; omega) hr
        have hle := hrest.steps_le
        have hadd := hrest.dispatches_add
        rw [hsteps] at hle hadd
        rw [hdispatches] at hadd
        refine ⟨?_, ?_⟩
        · show (Outcome.state r).steps.toNat ≤ max m.steps.toNat L.toNat + 1
          omega
        · show (Outcome.state r).dispatches + min m.steps.toNat L.toNat =
            m.dispatches + min (Outcome.state r).steps.toNat L.toNat
          omega
    all_goals
      cases hr
      exact spent_of_eq rfl rfl

end Machine

/-- Whether a request is one to run the program or to make a call. -/
def HostRequest.executes : HostRequest → Bool
  | run | call _ _ => true
  | reset | direct _ => false

namespace Session

variable {L : UInt64} {fuel : Nat} {s t : Session}

/-- What a run or a call spends. -/
theorem spent_of_serve {request : HostRequest} {o : Outcome Session Answer}
    (hL : s.machine.config.stepLimit = some L) (hmax : L.toNat + 1 < UInt64.size)
    (hcount : s.machine.steps.toNat + 1 < UInt64.size) (hrequest : request.executes = true)
    (h : s.serve fuel request = some o) : s.machine.Spent L (Outcome.state o).machine := by
  cases served_of_serve h with
  | @driven _ start r hstart hr =>
    obtain ⟨n, hn⟩ := HostRequest.exists_of_start? hstart
    have hquiet := Machine.leads_quiet_flow start.control start.machine
    have hdrive := Machine.drive_spent (by rw [hquiet.config, hn, hL]) hmax
      (by rw [hquiet.steps, hn]; exact hcount) hr
    have hspent : s.machine.Spent L (Outcome.state r) := by
      refine hdrive.congr (hquiet.steps.trans ?_) (hquiet.world.dispatches.trans ?_)
      · rw [hn]
      · rw [hn]
    rw [HostRequest.state_conclude]
    cases request <;> exact ⟨hspent.steps_le, hspent.dispatches_add⟩
  | idle _ => exact Machine.spent_of_eq rfl rfl
  | reset => cases hrequest
  | direct request => cases hrequest

/-- What else a host asks for leaves the count alone. -/
theorem steps_of_direct (request : Request) :
    (Outcome.state (onBench (Bench.serve request) s)).machine.steps = s.machine.steps ∧
      (Outcome.state (onBench (Bench.serve request) s)).machine.dispatches =
        s.machine.dispatches := by
  rw [onBench_apply, Outcome.state_within]
  exact ⟨rfl, (Bench.leads_serve request ⟨s.machine.toWorld, s.records⟩).dispatches⟩

/-- **Requests make the dispatches that the limit leaves**, unless they are so many that the count
can wrap around. -/
theorem dispatches_of_serveAll (hL : s.machine.config.stepLimit = some L)
    {requests : List HostRequest} (hreset : .reset ∉ requests)
    (hcount : max s.machine.steps.toNat L.toNat + requests.countP HostRequest.executes <
      UInt64.size)
    {answers : List (Except Fault Answer)}
    (h : s.serveAll fuel requests = some (answers, t)) :
    t.machine.dispatches + min s.machine.steps.toNat L.toNat =
      s.machine.dispatches + min t.machine.steps.toNat L.toNat := by
  induction requests generalizing s answers with
  | nil =>
    cases h
    rfl
  | cons request requests ih =>
    obtain ⟨o, ho, h⟩ := Option.bind_eq_some_iff.mp h
    obtain ⟨⟨rest, u⟩, hrest, h⟩ := Option.bind_eq_some_iff.mp h
    cases h
    rw [List.mem_cons, not_or] at hreset
    have hL' : (Outcome.state o).machine.config.stepLimit = some L := by
      rw [(since_of_serve ho).config, hL]
    by_cases hrequest : request.executes = true
    · rw [List.countP_cons_of_pos hrequest] at hcount
      have hspent := spent_of_serve hL (by omega) (by omega) hrequest ho
      have hle := hspent.steps_le
      have hadd := hspent.dispatches_add
      have hmore := ih hL' hreset.2 (by omega) hrest
      omega
    · rw [List.countP_cons_of_neg hrequest] at hcount
      cases request with
      | run => exact absurd rfl hrequest
      | call callee argument => exact absurd rfl hrequest
      | reset => exact absurd rfl hreset.1
      | direct request =>
        cases ho
        obtain ⟨hsteps, hdispatches⟩ := steps_of_direct (s := s) request
        have hmore := ih hL' hreset.2 (by rw [hsteps]; exact hcount) hrest
        rwa [hsteps, hdispatches] at hmore

end Session

/-! ### The same execution under two limits -/

/-- The change of the limit. -/
def Variation.ofLimit (limit : Option UInt64) : Variation where
  config c := { c with stepLimit := limit }
  console c := c
  sink_eq := Variation.same.sink_eq
  journal_push := Variation.same.journal_push

/-- A session with another limit. -/
def Session.withLimit (limit : Option UInt64) (s : Session) : Session :=
  { s with machine :=
    { s.machine with config := { s.machine.config with stepLimit := limit } } }

/-- Intrinsics know nothing of the limit. -/
theorem Variation.spares_ofLimit (limit : Option UInt64) (config : Config) (i : Intrinsic) :
    (ofLimit limit).Spares config i :=
  spares_of_console (fun _ => rfl) rfl

namespace Machine

variable {L : UInt64} {fuel : Nat} {limit : Option UInt64} {m : Machine} {l : Label}

/-- A step that the smaller limit allows is allowed by the larger one. -/
theorem commutesAt_count (hL : m.config.stepLimit = some L) (hmore : ∀ k, limit = some k → L ≤ k)
    (hs : m.steps + 1 ≤ L) : CommutesAt (Variation.ofLimit limit).machine count m := by
  have hcount : count m = .ok () { m with steps := m.steps + 1 } :=
    count_eq_ok.mpr ⟨fun k hk => by cases hL.symm.trans hk; exact hs, rfl⟩
  rw [CommutesAt, hcount]
  exact count_eq_ok.mpr ⟨fun k hk => UInt64.le_trans hs (hmore k hk), rfl⟩

theorem commutesAt_step_ofLimit (hL : m.config.stepLimit = some L)
    (hmore : ∀ k, limit = some k → L ≤ k) (hs : m.steps + 1 ≤ L) (l : Label) :
    CommutesAt (Variation.ofLimit limit).machine (step l) m :=
  commutesAt_step (commutesAt_count hL hmore hs) (fun i _ => Variation.spares_ofLimit limit _ i) l

/-- **An execution that a limit does not cut off is the same under a larger limit.** -/
theorem drive_relaxed {o : Outcome Machine Flow} {r : Outcome Machine Departure}
    (hL : (Outcome.state o).config.stepLimit = some L) (hmore : ∀ k, limit = some k → L ≤ k)
    (hr : drive fuel o = some r) (hend : ∀ k t, r ≠ .error (.stepLimit k) t) :
    drive fuel (Outcome.within (Variation.ofLimit limit).machine o) =
      some (Outcome.within (Variation.ofLimit limit).machine r) := by
  induction fuel generalizing o with
  | zero =>
    rcases o with ⟨l | _ | _, m⟩ | ⟨f, m⟩ <;> cases hr <;> rfl
  | succ fuel ih =>
    rcases o with ⟨l | _ | _, m⟩ | ⟨f, m⟩
    · replace hr : drive fuel (step l m) = some r := hr
      replace hL : m.config.stepLimit = some L := hL
      rcases step_cases hL l with ⟨-, hrefused⟩ | ⟨hs, -⟩
      -- The limit would have been the end of it.
      · rw [hrefused, drive_error] at hr
        cases hr
        exact absurd rfl (hend _ _)
      · show drive fuel (step l ((Variation.ofLimit limit).machine m)) = _
        rw [commutesAt_step_ofLimit hL hmore hs l]
        refine ih ?_ hr
        rw [(later_of_step l m).config]
        exact hL
    all_goals
      cases hr
      rfl

/-- The count at a dispatch that a limit may refuse: as it was at first, or still within the
limit. -/
def Within (L n steps : UInt64) : Prop := steps = n ∨ steps ≤ L

/-- A dispatch is refused when the limit was reached, now or already at first. -/
theorem Within.refused {n steps : UInt64} (h : Within L n steps) (hs : L < steps + 1) :
    steps = L ∨ L < n ∧ steps = n := by
  by_cases hle : steps ≤ L
  · refine .inl (UInt64.toNat_inj.mp (Nat.le_antisymm (UInt64.le_iff_toNat_le.mp hle) ?_))
    exact Nat.le_of_lt_succ
      (Nat.lt_of_lt_of_le (UInt64.lt_iff_toNat_lt.mp hs) (toNat_succ_le steps))
  · obtain rfl := h.resolve_right hle
    exact .inr ⟨UInt64.not_le.mp hle, rfl⟩

/-- **An execution that a limit cuts off is, up to there, the same under a larger limit**: the
larger limit gets it to the dispatch that the smaller one refuses. -/
theorem drive_cut {start : Moment} {n : UInt64} {o : Outcome Machine Flow} {k : UInt64}
    {t : Machine} (hL : (Outcome.state o).config.stepLimit = some L)
    (hmore : ∀ k, limit = some k → L ≤ k) (ho : ∀ k t, o ≠ .error (.stepLimit k) t)
    (hstart : ∀ l m, o = .ok (.next l) m → Within L n m.steps ∧
      ∃ live, Moment.Reaches start ⟨.dispatch l, (Variation.ofLimit limit).machine m, live⟩)
    (hr : drive fuel o = some (.error (.stepLimit k) t)) :
    k = L ∧ ∃ l m live,
      Moment.Reaches start ⟨.dispatch l, (Variation.ofLimit limit).machine m, live⟩ ∧
      (m.steps = L ∨ L < n ∧ m.steps = n) ∧ t = { m with steps := m.steps + 1 } := by
  induction fuel generalizing o with
  | zero =>
    rcases o with ⟨l | _ | _, m⟩ | ⟨f, m⟩ <;> cases hr
    exact absurd rfl (ho _ _)
  | succ fuel ih =>
    rcases o with ⟨l | _ | _, m⟩ | ⟨f, m⟩
    · obtain ⟨hwithin, live, hreach⟩ := hstart l m rfl
      replace hr : drive fuel (step l m) = some (.error (.stepLimit k) t) := hr
      replace hL : m.config.stepLimit = some L := hL
      rcases step_cases hL l with ⟨hs, hrefused⟩ | ⟨hs, hsteps, -, hother⟩
      · rw [hrefused, drive_error] at hr
        cases hr
        exact ⟨rfl, l, m, live, hreach, hwithin.refused hs, rfl⟩
      · refine ih ?_ hother (fun l' m' hstep => ?_) hr
        · rw [(later_of_step l m).config]
          exact hL
        · have hstep' : step l ((Variation.ofLimit limit).machine m) =
              .ok (.next l') ((Variation.ofLimit limit).machine m') := by
            rw [commutesAt_step_ofLimit hL hmore hs l, hstep]
            rfl
          obtain ⟨live', hreach'⟩ := Moment.reaches_of_step hstep' live
          rw [hstep] at hsteps
          replace hsteps : m'.steps = m.steps + 1 := hsteps
          exact ⟨.inr (hsteps ▸ hs), live', hreach.trans hreach'⟩
    · cases hr
    · cases hr
    · cases hr
      exact absurd rfl (ho _ _)

end Machine

namespace Session

variable {L : UInt64} {fuel : Nat} {limit : Option UInt64} {s : Session} {request : HostRequest}
  {start : Moment}

/-- Under another limit an execution starts in the same way. -/
theorem start?_withLimit (hstart : request.start? s.machine = some start) :
    request.start? (s.withLimit limit).machine =
      some ⟨start.control, (Variation.ofLimit limit).machine start.machine, start.live⟩ := by
  rcases HostRequest.start?_eq_some.mp hstart with ⟨rfl, hm, rfl⟩ | ⟨callee, argument, rfl, rfl⟩
  · exact HostRequest.start?_eq_some.mpr (.inl ⟨rfl, hm, rfl⟩)
  · rfl

/-- The limit is looked at only when a block is dispatched. -/
theorem flow_ofLimit (hstart : request.start? s.machine = some start) :
    start.control.flow ((Variation.ofLimit limit).machine start.machine) =
      Outcome.within (Variation.ofLimit limit).machine (start.control.flow start.machine) := by
  rcases HostRequest.start?_eq_some.mp hstart with ⟨-, -, rfl⟩ | ⟨callee, argument, -, rfl⟩
  · rfl
  · exact Machine.commutesAt_invoke (fun i _ => Variation.spares_ofLimit limit _ i) _ _

theorem serve_relaxed (hL : s.machine.config.stepLimit = some L)
    (hmore : ∀ k, limit = some k → L ≤ k) (hflush : s.machine.console.sink.flushFailure = none)
    (hstart : request.start? s.machine = some start) {o : Outcome Session Answer}
    (ho : s.serve fuel request = some o) (hend : ∀ k t, o ≠ .error (.stepLimit k) t) :
    (s.withLimit limit).serve fuel request = some (Outcome.within (withLimit limit) o) := by
  rw [serve_eq_drive hstart] at ho
  obtain ⟨r, hr, rfl⟩ := Option.map_eq_some_iff.mp ho
  obtain ⟨n, hn⟩ := HostRequest.exists_of_start? hstart
  have hflush' := (HostRequest.flushFailure_of_drive hstart hr).trans hflush
  have hconfig := (Machine.leads_quiet_flow start.control start.machine).config
  have hcut : ∀ k t, r ≠ .error (.stepLimit k) t := by
    rintro k t rfl
    exact hend k _ (HostRequest.conclude_error _ hflush' _)
  have hdrive := Machine.drive_relaxed (by rw [hconfig, hn, hL]) hmore hr hcut
  rw [← flow_ofLimit hstart] at hdrive
  rw [serve_eq_drive (start?_withLimit hstart), hdrive, Option.map_some]
  exact congrArg some (request.conclude_vary s.records r)

theorem serve_cut (hL : s.machine.config.stepLimit = some L)
    (hmore : ∀ k, limit = some k → L ≤ k) (hflush : s.machine.console.sink.flushFailure = none)
    (hstart : request.start? s.machine = some start) {k : UInt64} {t : Session}
    (ho : s.serve fuel request = some (.error (.stepLimit k) t)) :
    k = L ∧ ∃ start' a l, request.start? (s.withLimit limit).machine = some start' ∧
      Moment.Reaches start' a ∧ a.control = .dispatch l ∧
      (a.machine.steps = L ∨ L < s.machine.steps ∧ a.machine.steps = s.machine.steps) ∧
      t.machine.store = a.machine.store ∧ t.machine.lastCall = a.machine.lastCall ∧
      t.machine.console = a.machine.console := by
  rw [serve_eq_drive hstart] at ho
  obtain ⟨r, hr, hconclude⟩ := Option.map_eq_some_iff.mp ho
  obtain ⟨n, hn⟩ := HostRequest.exists_of_start? hstart
  have hflush' := (HostRequest.flushFailure_of_drive hstart hr).trans hflush
  have hconfig := (Machine.leads_quiet_flow start.control start.machine).config
  let start' : Moment :=
    ⟨start.control, (Variation.ofLimit limit).machine start.machine, start.live⟩
  have hfirst : ∀ l m, start.control.flow start.machine = .ok (.next l) m →
      Machine.Within L s.machine.steps m.steps ∧
        ∃ live, Moment.Reaches start' ⟨.dispatch l, (Variation.ofLimit limit).machine m, live⟩ := by
    intro l m hflow
    have hsteps : m.steps = s.machine.steps := by
      rw [((Machine.leads_quiet_flow start.control).of_ok hflow).steps, hn]
    have hflow' : start'.control.flow start'.machine =
        .ok (.next l) ((Variation.ofLimit limit).machine m) := by
      rw [flow_ofLimit hstart, hflow]
      rfl
    exact ⟨.inl hsteps, Moment.reaches_of_flow hflow'⟩
  rcases HostRequest.error_of_conclude hflush' hconclude with ⟨m, rfl, rfl⟩ | hf | hf
  · obtain ⟨rfl, l, m', live, hreach, hsteps, rfl⟩ := Machine.drive_cut (by rw [hconfig, hn, hL])
      hmore (Machine.flow_ne_stepLimit start.control start.machine) hfirst hr
    refine ⟨rfl, start', _, l, start?_withLimit hstart, hreach, rfl, hsteps, ?_⟩
    cases request <;> exact ⟨rfl, rfl, rfl⟩
  · cases hf
  · cases hf

/-- What was written up to some moment of an execution is written when it has ended. -/
theorem extends_of_reaches (hstart : request.start? s.machine = some start) {a : Moment}
    (ha : Moment.Reaches start a) {o : Outcome Session Answer}
    (ho : s.serve fuel request = some o) :
    a.machine.console.sink.Extends (Outcome.state o).machine.console.sink := by
  rw [serve_eq_drive hstart] at ho
  obtain ⟨r, hr, rfl⟩ := Option.map_eq_some_iff.mp ho
  have hlater := ha.later_of_drive hr
  rw [HostRequest.state_conclude]
  cases request <;> exact hlater.sink

/-- A reset brings the count back to zero. -/
theorem steps_of_reset {requests : List HostRequest} {answers : List (Except Fault Answer)}
    {t : Session} (h : s.serveAll fuel (requests ++ [.reset]) = some (answers, t)) :
    t.machine.steps = 0 := by
  induction requests generalizing s answers with
  | nil =>
    cases h
    obtain ⟨store, hstore⟩ := s.machine.exists_state_reset
    rw [HostRequest.state_ofMachine, hstore]
  | cons request requests ih =>
    obtain ⟨o, -, h⟩ := Option.bind_eq_some_iff.mp h
    obtain ⟨⟨rest, u⟩, hrest, h⟩ := Option.bind_eq_some_iff.mp h
    cases h
    exact ih hrest

end Session

/-! ### Where a limit does not help -/

/-- A machine whose only block jumps to itself, under a limit. -/
def selfLoop (limit : UInt64) : Session where
  machine := {
    store := ⟨.ofSize 1, .ofSize 1, .ofCapacity .upward 1, 0, .zero⟩
    console := {}
    config := { registers := 1, memory := 1, stepLimit := some limit }
    program := ⟨⟨0⟩, #[⟨[], .jump ⟨0⟩⟩], []⟩ }

namespace Machine

variable {L : UInt64} {m : Machine}

/-- A block that jumps to itself leads back to itself, if the limit allows a step. -/
theorem step_selfLoop (hL : m.config.stepLimit = some L)
    (hprogram : m.program = (selfLoop L).machine.program) (hs : m.steps + 1 ≤ L) :
    step ⟨0⟩ m = .ok (.next ⟨0⟩) (m.dispatched ⟨0⟩) := by
  have hblock : m.program.block ⟨0⟩ = .ok ⟨[], .jump ⟨0⟩⟩ := by
    rw [hprogram]
    rfl
  have hlimit : ∀ limit, m.config.stepLimit = some limit → m.steps + 1 ≤ limit := by
    intro limit hlimit
    cases hL.symm.trans hlimit
    exact hs
  rw [step_eq_advance, Action.bind_of_ok (advance_of_move (.dispatch hlimit hblock))]
  rfl

/-- No count is beyond the largest limit. -/
theorem drive_selfLoop (hL : m.config.stepLimit = some 18446744073709551615)
    (hprogram : m.program = (selfLoop 0).machine.program) (fuel : Nat) :
    drive fuel (.ok (.next ⟨0⟩) m) = none := by
  induction fuel generalizing m with
  | zero => rfl
  | succ fuel ih =>
    have hs : m.steps + 1 ≤ 18446744073709551615 := by
      rw [UInt64.le_iff_toNat_le]
      exact Nat.le_of_lt_succ (m.steps + 1).toNat_lt
    rw [drive_succ_next, step_selfLoop hL hprogram hs]
    exact ih hL hprogram

end Machine

namespace Session

/-- A run that is refused at once only counts. -/
theorem serve_run_of_refused {s : Session} {L : UInt64} (hhalted : s.machine.halted = false)
    (hflush : s.machine.console.sink.flushFailure = none)
    (hL : s.machine.config.stepLimit = some L) (hs : L < s.machine.steps + 1) (fuel : Nat) :
    s.serve (fuel + 1) .run =
      some (.error (.stepLimit L) { s with machine.steps := s.machine.steps + 1 }) := by
  have hstart : HostRequest.run.start? s.machine = some (.ofRun s.machine) :=
    HostRequest.start?_eq_some.mpr (.inl ⟨rfl, hhalted, rfl⟩)
  have hdrive : Machine.drive (fuel + 1) (.ok (.next s.machine.program.entry) s.machine) =
      some (.error (.stepLimit L) { s.machine with steps := s.machine.steps + 1 }) := by
    rcases Machine.step_cases hL s.machine.program.entry with ⟨-, hrefused⟩ | ⟨hle, -⟩
    · rw [Machine.drive_succ_next, hrefused, Machine.drive_error]
    · exact absurd hs (UInt64.not_lt.mpr hle)
  rw [serve_eq_drive hstart]
  refine (congrArg _ hdrive).trans ?_
  rw [Option.map_some, HostRequest.conclude_error _ (by exact hflush)]
  rfl

/-- A session of the looping machine, after some refused runs. -/
def refusedLoop (n : UInt64) : Session := { selfLoop 0 with machine.steps := n }

/-- When the count has come to its end, the next run makes it wrap around and gets a dispatch. -/
theorem serve_refusedLoop :
    ∃ t, (refusedLoop 18446744073709551615).serve 2 .run = some (.error (.stepLimit 0) t) ∧
      t.machine.dispatches = 1 := by
  let m := (refusedLoop 18446744073709551615).machine
  have hwrap : m.steps + 1 ≤ 0 := by decide
  have hfirst : Machine.step ⟨0⟩ m = .ok (.next ⟨0⟩) (m.dispatched ⟨0⟩) :=
    Machine.step_selfLoop (L := 0) rfl rfl hwrap
  have hsecond : Machine.step ⟨0⟩ (m.dispatched ⟨0⟩) = .error (.stepLimit 0)
      { m.dispatched ⟨0⟩ with steps := (m.dispatched ⟨0⟩).steps + 1 } := by
    rcases Machine.step_cases (L := 0) (m := m.dispatched ⟨0⟩) rfl ⟨0⟩ with
      ⟨-, hrefused⟩ | ⟨hle, -⟩
    · exact hrefused
    · exact absurd hle (by decide)
  have hdrive : Machine.drive 2 (.ok (.next ⟨0⟩) m) = some (.error (.stepLimit 0)
      { m.dispatched ⟨0⟩ with steps := (m.dispatched ⟨0⟩).steps + 1 }) := by
    rw [Machine.drive_succ_next, hfirst, Machine.drive_succ_next, hsecond, Machine.drive_error]
  have hstart : HostRequest.run.start? m = some (.ofRun m) := rfl
  refine ⟨⟨{ m.dispatched ⟨0⟩ with steps := (m.dispatched ⟨0⟩).steps + 1 }, #[]⟩, ?_,
    Machine.dispatches_dispatched m ⟨0⟩⟩
  rw [serve_eq_drive hstart]
  refine (congrArg _ hdrive).trans ?_
  rw [Option.map_some, HostRequest.conclude_error _ rfl]
  rfl

/-- As many refused runs as bring the count to its end, and one more. -/
theorem exists_serveAll_refusedLoop (k : Nat) {n : UInt64} (hn : n.toNat + k + 1 = UInt64.size) :
    ∃ answers t, (refusedLoop n).serveAll 2 (List.replicate (k + 1) .run) = some (answers, t) ∧
      t.machine.dispatches = 1 := by
  induction k generalizing n with
  | zero =>
    have hmax : n = 18446744073709551615 := UInt64.toNat_inj.mp (Nat.succ.inj hn)
    obtain ⟨t, ht, hdispatches⟩ := serve_refusedLoop
    rw [hmax]
    exact ⟨_, t, serveAll_cons ht rfl, hdispatches⟩
  | succ k ih =>
    have hsucc : (n + 1).toNat = n.toNat + 1 := Machine.toNat_succ (by omega)
    have hrefused : (refusedLoop n).serve 2 .run =
        some (.error (.stepLimit 0) (refusedLoop (n + 1))) := by
      refine serve_run_of_refused rfl rfl rfl ?_ 1
      show 0 < n + 1
      rw [UInt64.lt_iff_toNat_lt, hsucc]
      exact Nat.succ_pos _
    obtain ⟨answers, t, hrest, hdispatches⟩ := ih (n := n + 1) (by omega)
    exact ⟨_, t, serveAll_cons hrefused hrest, hdispatches⟩

end Session

namespace Source

theorem skipBlanks_of_blank {pending : Bytes} (h : pending.dropWhile isBlank = [])
    (coming : List Segment) : skipBlanks pending coming = skipBlanks [] coming := by
  rw [skipBlanks.eq_def pending, skipBlanks.eq_def [], h]
  rfl

/-- Segments of blanks are skipped, however many there are. -/
theorem nextToken_blanks (n : Nat) (more : List Segment) :
    nextToken ⟨[], List.replicate n (.bytes [32]) ++ more⟩ = nextToken ⟨[], more⟩ := by
  have hskip : skipBlanks [] (List.replicate n (.bytes [32]) ++ more) = skipBlanks [] more := by
    induction n with
    | zero => rfl
    | succ n ih =>
      rw [List.replicate_succ, List.cons_append, skipBlanks.eq_def]
      exact (skipBlanks_of_blank rfl _).trans ih
  simp only [nextToken, bind, EStateM.bind, hskip]

end Source

/-- **A limit on steps does not always make a run end, or bound what is run.**  Under the largest
limit a loop is never refused.  Under a limit of zero, as many runs as the count has values get a
block dispatched.  And no number of blank segments makes a read end before what follows them, so a
read from a stream that goes on like this does not end, and the limit does not count it. -/
theorem limited_runs_need_not_end :
    (∀ limit, Machine.load (selfLoop limit).machine.config (selfLoop limit).machine.program {} =
      .ok (selfLoop limit).machine) ∧
    (∀ fuel, (selfLoop 18446744073709551615).serve fuel .run = none) ∧
    (∃ answers t, (selfLoop 0).serveAll 2 (List.replicate (UInt64.size) .run) = some (answers, t) ∧
      ¬ t.machine.dispatches ≤ (selfLoop 0).machine.dispatches + 0) ∧
    ∀ n more, Source.nextToken ⟨[], List.replicate n (.bytes [32]) ++ more⟩ =
      Source.nextToken ⟨[], more⟩ := by
  refine ⟨fun limit => rfl, fun fuel => ?_, ?_, Source.nextToken_blanks⟩
  · let m := (selfLoop 18446744073709551615).machine
    have hstart : HostRequest.run.start? m = some (.ofRun m) := rfl
    have hdrive : Machine.drive fuel (.ok (.next ⟨0⟩) m) = none :=
      Machine.drive_selfLoop (m := m) rfl rfl fuel
    rw [Session.serve_eq_drive hstart]
    exact congrArg _ hdrive
  · obtain ⟨answers, t, h, hdispatches⟩ :=
      Session.exists_serveAll_refusedLoop 18446744073709551615 (n := 0) rfl
    refine ⟨answers, t, h, ?_⟩
    rw [hdispatches]
    decide

/-- **A limit on steps makes every request end, and a larger one only lets executions go on.**  With
a limit that is not the largest one, every run and every call comes to an end.  From the loading of
a machine or its last reset on, all of them together dispatch at most so many blocks, as long as
they are not so many that the count, which goes up with every refusal too, could wrap around.  A
source holds what its stream brings until it ends, so all this is about streams that do.

A run or a call that ends otherwise than by the limit ends in the same way under a larger limit or
none; one that the limit cuts off has done what the other has when it is about to dispatch the next
block, and has written the first part of what the other writes. -/
theorem step_limit_ends_and_cuts (L : UInt64) :
    (L.toNat + 1 < UInt64.size → ∀ s : Session, s.machine.config.stepLimit = some L →
      ∀ request, ∃ o, s.serve (L.toNat + 2) request = some o) ∧
    (∀ config program console m, config.stepLimit = some L →
      Machine.load config program console = .ok m →
      ∀ fuel before answers s after answers' t,
        before = [] ∨ (∃ earlier, before = earlier ++ [.reset]) →
        Session.serveAll fuel before ⟨m, #[]⟩ = some (answers, s) →
        .reset ∉ after → L.toNat + after.countP HostRequest.executes < UInt64.size →
        s.serveAll fuel after = some (answers', t) →
        t.machine.dispatches ≤ s.machine.dispatches + L.toNat) ∧
    ∀ (s : Session) (limit : Option UInt64), s.machine.config.stepLimit = some L →
      (∀ k, limit = some k → L ≤ k) → s.machine.console.sink.flushFailure = none →
      ∀ request fuel o, request = .run ∨ request.isCall = true → s.serve fuel request = some o →
        ((∀ k t, o ≠ .error (.stepLimit k) t) →
          (s.withLimit limit).serve fuel request =
            some (Outcome.within (Session.withLimit limit) o)) ∧
        ∀ k t, o = .error (.stepLimit k) t → k = L ∧
          ∃ start a l, request.start? (s.withLimit limit).machine = some start ∧
            Moment.Reaches start a ∧ a.control = .dispatch l ∧
            (a.machine.steps = L ∨ L < s.machine.steps ∧ a.machine.steps = s.machine.steps) ∧
            t.machine.store = a.machine.store ∧ t.machine.lastCall = a.machine.lastCall ∧
            t.machine.console = a.machine.console ∧
            ∀ fuel' o', (s.withLimit limit).serve fuel' request = some o' →
              t.machine.console.sink.written.toList <+:
                (Outcome.state o').machine.console.sink.written.toList := by
  refine ⟨fun hmax s hL request => Session.exists_serve hmax hL request, ?_, ?_⟩
  · intro config program console m hL hload fuel before answers s after answers' t hbefore hs
      hreset hcount ht
    obtain ⟨store, rfl⟩ := Machine.exists_of_load hload
    have hL' : s.machine.config.stepLimit = some L := by
      rw [(Session.Arises.settled ⟨_, _, _, _, hload, hs⟩).choose_spec.since.config]
      exact hL
    have hzero : s.machine.steps = 0 := by
      rcases hbefore with rfl | ⟨earlier, rfl⟩
      · cases hs
        rfl
      · exact Session.steps_of_reset hs
    have hsteps : s.machine.steps.toNat = 0 := congrArg UInt64.toNat hzero
    have hspent := Session.dispatches_of_serveAll hL' hreset (by omega) ht
    omega
  · intro s limit hL hmore hflush request fuel o hrequest ho
    cases hstart : request.start? s.machine with
    | some start =>
      refine ⟨fun hend => Session.serve_relaxed hL hmore hflush hstart ho hend, ?_⟩
      rintro k t rfl
      obtain ⟨hk, start', a, l, hstart', ha, hc, hsteps, hstore, hlast, hconsole⟩ :=
        Session.serve_cut hL hmore hflush hstart ho
      refine ⟨hk, start', a, l, hstart', ha, hc, hsteps, hstore, hlast, hconsole, ?_⟩
      intro fuel' o' ho'
      rw [hconsole]
      exact (Session.extends_of_reaches hstart' ha ho').written
    | none =>
      -- Only a run of a machine that has halted starts no execution, and it does nothing.
      cases request with
      | run =>
        have hm := HostRequest.start?_run_eq_none.mp hstart
        rw [Session.serve_idle hm] at ho
        cases ho
        refine ⟨fun _ => Session.serve_idle (s := s.withLimit limit) hm fuel, fun k t h => ?_⟩
        cases h
      | call callee argument => cases hstart
      | reset | direct _ => rcases hrequest with h | h <;> cases h

/-- A program that prints a zero in every second block, for ever. -/
def endlessPrinter : Program :=
  ⟨⟨0⟩, #[⟨[], .call (.intrinsic .printInteger) ⟨1⟩ ⟨1⟩⟩, ⟨[], .jump ⟨0⟩⟩], []⟩

/-- The program under a limit, before anything was asked of it. -/
def freshPrinter (limit : UInt64) : Session where
  machine := {
    store := ⟨.ofSize 2, .ofSize 8, .ofCapacity .upward 8, 0, .zero⟩
    console := {}
    config := { registers := 2, memory := 8, stepLimit := some limit }
    program := endlessPrinter }

theorem endlessPrinter_is_cut_off :
    (∃ t, (freshPrinter 3).serve 4 .run = some (.error (.stepLimit 3) t) ∧
      t.machine.console.sink.written = #[48, 48] ∧
      ∃ o, (freshPrinter 6).serve 8 .run = some o ∧
        [48, 48] <+: (Outcome.state o).machine.console.sink.written.toList) ∧
    (∃ answers t, (freshPrinter 3).serveAll 4 [.run, .call (.routine ⟨1⟩) 5] = some (answers, t) ∧
      t.machine.dispatches ≤ 3) ∧
    ∃ o, (freshPrinter 3).serve 4 (.call (.intrinsic .printInteger) 7) = some o ∧
      (freshPrinter 6).serve 4 (.call (.intrinsic .printInteger) 7) =
        some (Outcome.within (Session.withLimit (some 6)) o) := by
  obtain ⟨-, hbound, hcut⟩ := step_limit_ends_and_cuts 3
  have hmore : ∀ k : UInt64, some 6 = some k → 3 ≤ k := by
    rintro k ⟨⟩
    decide
  replace hcut := hcut (freshPrinter 3) (some 6) rfl hmore rfl
  refine ⟨?_, ?_, ?_⟩
  · have hrun : (((freshPrinter 3).serve 4 .run).bind fun o =>
        match o with
        | .ok _ _ => none
        | .error f t => some (f, t.machine.console.sink.written)) =
          some (.stepLimit 3, #[48, 48]) := by decide +kernel
    obtain ⟨_ | ⟨f, t⟩, ho, hend⟩ := Option.bind_eq_some_iff.mp hrun
    · cases hend
    · obtain ⟨rfl, hwritten⟩ := Prod.mk.inj (Option.some.inj hend)
      obtain ⟨-, _, _, _, -, -, -, -, -, -, -, hbegins⟩ := (hcut .run 4 _ (.inl rfl) ho).2 _ _ rfl
      obtain ⟨o, ho'⟩ := (step_limit_ends_and_cuts 6).1 (by decide) (freshPrinter 6) rfl .run
      have hbegins' := hbegins 8 o ho'
      rw [hwritten] at hbegins'
      exact ⟨t, ho, hwritten, o, ho', hbegins'⟩
  · have hsome : ((freshPrinter 3).serveAll 4 [.run, .call (.routine ⟨1⟩) 5]).isSome := by
      decide +kernel
    obtain ⟨⟨answers, t⟩, ht⟩ := Option.isSome_iff_exists.mp hsome
    exact ⟨answers, t, ht,
      hbound (freshPrinter 3).machine.config endlessPrinter {} _ rfl rfl 4 [] []
      (freshPrinter 3) _ _ t (.inl rfl) rfl (by decide) (by decide) ht⟩
  · have hsome : (((freshPrinter 3).serve 4 (.call (.intrinsic .printInteger) 7)).bind fun o =>
        match o with
        | .ok a _ => some a
        | .error _ _ => none).isSome := by decide +kernel
    obtain ⟨a, ha⟩ := Option.isSome_iff_exists.mp hsome
    obtain ⟨⟨b, t⟩ | _, ho, ha⟩ := Option.bind_eq_some_iff.mp ha
    · exact ⟨_, ho, (hcut _ 4 _ (.inr rfl) ho).1 fun k t h => by cases h⟩
    · cases ha

end WordMachine
