import PlayerTrace.Control.Exits

/-!
# One call of an admitting operation

What a single call of `start_session`, `end_session` or `track` did can only be said of its
own steps: other threads push and reserve meanwhile. So the thread is *watched*
(`PlayerTrace.watch`): next to the state stand the events it has pushed itself and the net
capacity it has taken itself. A call (`PlayerTrace.During`) is a run of the watched client from
the first statement of the call, in which the steps of others may be restricted.

The rule `PlayerTrace.During.rule` is the induction over such a run. Outside the admission lock
a call only moves its own position (`PlayerTrace.Client.waiting_cases`), and inside it does what
`PlayerTrace.Inside` says.
-/

namespace PlayerTrace

/-! ### The part of a run in which a call is made -/

/-- A client, with what one of its threads has pushed and reserved. -/
structure Watched where
  state : State
  pushed : List Admitted := []
  reserved : Int := 0

/-- The client with thread `t` watched. -/
def watch (env : Env) (t : Tid) : Lts.Machine Watched Label where
  start w := (machine env).Reach w.state ∧ w.pushed = [] ∧ w.reserved = 0
  step w l := (step env w.state l).map fun s' =>
    if l.thread = some t then
      { state := s'
        pushed := w.pushed ++ s'.history.accepted.drop w.state.history.accepted.length
        reserved := w.reserved + (s'.pipeline.outstanding - w.state.pipeline.outstanding) }
    else { w with state := s' }

/-- The step that executes the first statement of a call: `track` begins by reading the
consent generation. -/
inductive First (t : Tid) (s : State) : Op → Label → Prop
  | call {op : Op} (h : ∀ name properties, op ≠ .track name properties) : First t s op (.call t op)
  | track {name : String} {properties : Properties} {i : Input}
      (hc : s.callers t = .trackEnter name properties) :
      First t s (.track name properties) (.caller t i)

/-- **A call of thread `t`**, entered in `s₀`, as far as `w`: after its first statement, its
own steps and those steps of others that meet `other`. -/
def During (env : Env) (other : State → Label → Prop) (t : Tid) (op : Op) (s₀ : State)
    (w : Watched) : Prop :=
  ∃ l w₁, First t s₀ op l ∧ (watch env t).step { state := s₀ } l = some w₁ ∧
    (watch env t).RunIf
      (fun w l => (∃ i, l = .caller t i) ∨ (l.thread ≠ some t ∧ other w.state l)) w₁ w

/-! ### Waiting for the lock -/

namespace Caller

/-- The admitting call a thread is in, after its first statement and before the lock. -/
def call : Caller → Option Op
  | .startLock playerId => some (.startSession playerId)
  | .endLock => some .endSession
  | .trackFilter name properties _ | .trackLock name properties _ _ =>
    some (.track name properties)
  | _ => none

/-- The generation a call carries to the lock: `entry_generation`. -/
def carried : Caller → Option Nat
  | .trackFilter _ _ generation | .trackLock _ _ _ generation => some generation
  | _ => none

end Caller

variable {env : Env} {i : Input} {s s' s₀ : State} {t : Tid} {op : Op} {w : Watched}

/-- **The first statement** does nothing but move the thread; `track` carries on what it
read. -/
theorem First.cases {l : Label} (h : First t s op l) (hop : op.admits = true)
    (hs : step env s l = some s') : ∃ c, s' = s.move t c ∧
      ((c.call = some op ∧ ∀ name properties, op = .track name properties →
          c.carried = some s.pipeline.consentGeneration) ∨
        ∃ status : Status, status.ok = false ∧ c = .done (.status op status)) := by
  cases h with
  | @track name properties i hc =>
    have hstep : Client.step env i s t = some s' := hs
    simp only [Client.step, hc, Option.some.injEq, Client.trackEnter] at hstep
    subst hstep
    split
    · rename_i hok
      exact ⟨_, rfl, Or.inr ⟨_, hok, rfl⟩⟩
    split
    · rename_i hok
      exact ⟨_, rfl, Or.inr ⟨_, hok, rfl⟩⟩
    · exact ⟨_, rfl, Or.inl ⟨rfl, fun _ _ _ => rfl⟩⟩
  | call hne =>
    have hcall : Client.call env s t op = some s' := hs
    unfold Client.call at hcall
    split at hcall
    · cases hcall
    cases op with
    | startSession p =>
      obtain rfl := Option.some.inj hcall
      split
      · rename_i hok
        exact ⟨_, rfl, Or.inr ⟨_, hok, rfl⟩⟩
      · exact ⟨_, rfl, Or.inl ⟨rfl, by simp⟩⟩
    | endSession =>
      obtain rfl := Option.some.inj hcall
      exact ⟨_, rfl, Or.inl ⟨rfl, by simp⟩⟩
    | track name properties => exact absurd rfl (hne name properties)
    | flush | shutdown | waitForWorkerExit | setConsent | destroy => cases hop

/-- **Before the lock**, a call moves on, returns an error, or takes the lock. -/
theorem Client.waiting_cases (hc : (s.callers t).call = some op)
    (h : Client.step env i s t = some s') :
    (∃ c, s' = s.move t c ∧ c.call = some op ∧ c.carried = (s.callers t).carried) ∨
      (∃ status : Status, status.ok = false ∧ s' = s.move t (.done (.status op status))) ∨
      ∃ pc, s.client.admission = .free ∧ s' = lockAdmission s t pc ∧ Enters s t pc := by
  unfold Client.step at h
  generalize hcall : s.callers t = caller at h hc
  cases caller with
  | startLock p =>
    obtain rfl := Option.some.inj hc
    simp only [startLock] at h
    split at h
    · cases h
    rename_i hfree
    split at h
    · obtain rfl := Option.some.inj h
      exact Or.inr (Or.inl ⟨alreadyShutdown, rfl, rfl⟩)
    rename_i hrun
    split at h
    · obtain rfl := Option.some.inj h
      exact Or.inr (Or.inl ⟨consentDenied, rfl, rfl⟩)
    rename_i hcons
    obtain rfl := Option.some.inj h
    exact Or.inr (Or.inr ⟨_, not_not.mp hfree, rfl,
      .start hcall (not_not.mp hrun) (not_not.mp hcons)⟩)
  | endLock =>
    obtain rfl := Option.some.inj hc
    simp only [endLock] at h
    split at h
    · cases h
    rename_i hfree
    split at h
    · obtain rfl := Option.some.inj h
      exact Or.inr (Or.inl ⟨alreadyShutdown, rfl, rfl⟩)
    rename_i hrun
    obtain rfl := Option.some.inj h
    exact Or.inr (Or.inr ⟨_, not_not.mp hfree, rfl, .finish hcall (not_not.mp hrun)⟩)
  | trackFilter name properties g =>
    obtain rfl := Option.some.inj h
    exact Or.inl ⟨_, rfl, hc, rfl⟩
  | trackLock name properties filtered g =>
    obtain rfl := Option.some.inj hc
    simp only [trackLock] at h
    split at h
    · cases h
    rename_i hfree
    split at h
    · obtain rfl := Option.some.inj h
      exact Or.inr (Or.inl ⟨revokedMeanwhile, rfl, rfl⟩)
    rename_i hgen
    obtain rfl := Option.some.inj h
    exact Or.inr (Or.inr ⟨_, not_not.mp hfree, rfl, .track hcall (not_not.mp hgen)⟩)
  | _ => cases hc

theorem call_move {x : State} {c : Caller} (h : c.call = none) :
    ((x.move t c).callers t).call = none := by
  rw [move_callers]
  exact h

namespace Client

theorem call_of_inside {pc : AdmitPc} (hc : s.callers t = .admitting)
    (h : Inside env i s t pc s') : (s'.callers t).call = none := by
  have hin : (s.callers t).call = none := by rw [hc]; rfl
  cases h with
  | moves | begins | builds | reserves | pushes | flushBarrier => exact hin
  | refuses => exact call_move rfl
  | fails _ hok =>
    rw [resume_of_fail hok]
    exact call_move rfl
  | undoes =>
    rw [undo, resume_of_fail rfl]
    exact call_move rfl
  | @counts k =>
    rw [count, resume_of_ok]
    refine call_move ?_
    cases k with
    | replaceEnd => exact hin
    | track | endSession | start => rfl
  | flushToken => exact call_move rfl

theorem call_of_consentStep {state : ConsentState} {pc : ConsentPc}
    (hc : s.callers t = .consenting) (h : consentStep i s t state pc = some s') :
    (s'.callers t).call = none := by
  have hin : (s.callers t).call = none := by rw [hc]; rfl
  -- the thread stays inside the lock, or returns
  cases pc <;> simp only [consentStep, store, mark, purge, reset, grant] at h <;>
    (repeat' split at h) <;>
    first
    | (cases h; done)
    | (obtain rfl := Option.some.inj h; first | exact hin | exact call_move rfl)

/-- **Only `track` moves on** to another position before the lock. -/
theorem call_of_step (h : step env i s t = some s') :
    (s'.callers t).call = none ∨
      (∃ name ps, s.callers t = .trackEnter name ps ∧ s' = trackEnter env s t name ps) ∨
      ∃ name ps g, s.callers t = .trackFilter name ps g ∧ s' = trackFilter env i s t name ps g := by
  unfold step at h
  generalize hc : s.callers t = c at h
  cases c with
  | idle | done => cases h
  | admitting =>
    dsimp only at h
    split at h
    · split at h
      · exact Or.inl (call_of_inside hc (admitStep_inside h))
      · cases h
    · cases h
  | consenting =>
    dsimp only at h
    split at h
    · split at h
      · exact Or.inl (call_of_consentStep hc h)
      · cases h
    · cases h
  | trackEnter name ps => exact Or.inr (Or.inl ⟨name, ps, rfl, (Option.some.inj h).symm⟩)
  | trackFilter name ps g => exact Or.inr (Or.inr ⟨name, ps, g, rfl, (Option.some.inj h).symm⟩)
  | _ =>
    -- every other position is left for one that is in no admitting call
    left
    simp only [startLock, endLock, trackLock, flushLock, flushWait, shutdownLock, shutdownDone,
      shutdownCancel, shutdownOrdinal, shutdownBarrier, shutdownToken, shutdownWait, shutdownStop,
      shutdownJoin, shutdownMark, shutdownTerminal, destroyStop, destroyCancel, destroyJoin,
      ownClose, ownStop, exitJoin, exitMark, consentLock] at h
    (repeat' split at h) <;>
      first
      | (cases h; done)
      | (obtain rfl := Option.some.inj h; exact call_move rfl)

end Client

/-! ### The induction -/

theorem watch_own {w' : Watched} (h : (watch env t).step w (.caller t i) = some w') :
    step env w.state (.caller t i) = some w'.state ∧
      w'.pushed = w.pushed ++ w'.state.history.accepted.drop w.state.history.accepted.length ∧
      w'.reserved =
        w.reserved + (w'.state.pipeline.outstanding - w.state.pipeline.outstanding) := by
  obtain ⟨s', hs, rfl⟩ := Option.map_eq_some_iff.mp h
  have hthread : (Label.caller t i).thread = some t := rfl
  rw [if_pos hthread]
  exact ⟨hs, rfl, rfl⟩

theorem watch_other {w' : Watched} {l : Label} (hl : l.thread ≠ some t)
    (h : (watch env t).step w l = some w') :
    step env w.state l = some w'.state ∧ w'.pushed = w.pushed ∧ w'.reserved = w.reserved := by
  obtain ⟨s', hs, rfl⟩ := Option.map_eq_some_iff.mp h
  rw [if_neg hl]
  exact ⟨hs, rfl, rfl⟩

theorem watch_first {w' : Watched} {l : Label} (hl : First t s₀ op l) (hop : op.admits = true)
    (h : (watch env t).step { state := s₀ } l = some w') :
    step env s₀ l = some w'.state ∧ w'.pushed = [] ∧ w'.reserved = 0 := by
  obtain ⟨s', hs, rfl⟩ := Option.map_eq_some_iff.mp h
  have hthread : l.thread = some t := by cases hl <;> rfl
  obtain ⟨c, rfl, -⟩ := hl.cases hop hs
  rw [if_pos hthread]
  refine ⟨hs, ?_, ?_⟩
  · simp [State.move]
  · simp [State.move]

/-- **The induction along a call.** -/
theorem During.rule {other : State → Label → Prop} {P : State → List Admitted → Int → Prop}
    (hr : (machine env).Reach s₀) (hop : op.admits = true)
    (hfirst : ∀ l s, First t s₀ op l → step env s₀ l = some s → P s [] 0)
    (hown : ∀ s ps d i s', (machine env).Reach s → P s ps d → step env s (.caller t i) = some s' →
      P s' (ps ++ s'.history.accepted.drop s.history.accepted.length)
        (d + (s'.pipeline.outstanding - s.pipeline.outstanding)))
    (hother : ∀ s ps d l s', (machine env).Reach s → P s ps d → l.thread ≠ some t → other s l →
      step env s l = some s' → P s' ps d)
    (h : During env other t op s₀ w) : P w.state w.pushed w.reserved := by
  obtain ⟨l, w₁, hl, hs₁, hrun⟩ := h
  obtain ⟨hs, hp, hd⟩ := watch_first hl hop hs₁
  have hstart : (watch env t).start { state := s₀ } := ⟨hr, rfl, rfl⟩
  have hw₁ : (machine env).Reach w₁.state ∧ P w₁.state w₁.pushed w₁.reserved := by
    rw [hp, hd]
    exact ⟨hr.step (l := l) hs, hfirst l _ hl hs⟩
  refine (Lts.Machine.Reach.runIf_rule
    (P := fun w => (machine env).Reach w.state ∧ P w.state w.pushed w.reserved)
    (fun w l w' _ hi hok hs => ?_) ((Lts.Machine.Reach.of_start hstart).step hs₁) hrun hw₁).2
  rcases hok with ⟨i, rfl⟩ | ⟨hl, hok⟩
  · obtain ⟨hs, hp, hd⟩ := watch_own hs
    rw [hp, hd]
    exact ⟨hi.1.step (l := .caller t i) hs, hown _ _ _ i _ hi.1 hi.2 hs⟩
  · obtain ⟨hs, hp, hd⟩ := watch_other hl hs
    rw [hp, hd]
    exact ⟨hi.1.step (l := l) hs, hother _ _ _ l _ hi.1 hi.2 hl hok hs⟩

namespace During

variable {other other' : State → Label → Prop} {ps : List Admitted} {d : Int}

/-- A call after its first statement. -/
theorem first {l : Label} (hl : First t s₀ op l) (hop : op.admits = true)
    (hs : step env s₀ l = some s) : During env other t op s₀ ⟨s, [], 0⟩ := by
  refine ⟨l, _, hl, ?_, .refl _⟩
  have hthread : l.thread = some t := by cases hl <;> rfl
  obtain ⟨c, rfl, -⟩ := hl.cases hop hs
  simp [watch, hs, hthread, State.move]

theorem tail_own (h : During env other t op s₀ ⟨s, ps, d⟩)
    (hs : step env s (.caller t i) = some s') :
    During env other t op s₀ ⟨s', ps ++ s'.history.accepted.drop s.history.accepted.length,
      d + (s'.pipeline.outstanding - s.pipeline.outstanding)⟩ := by
  obtain ⟨l, w, hl, hw, hrun⟩ := h
  refine ⟨l, w, hl, hw, hrun.tail (l := .caller t i) (Or.inl ⟨i, rfl⟩) ?_⟩
  simp [watch, hs, Label.thread]

theorem tail_other {l : Label} (h : During env other t op s₀ ⟨s, ps, d⟩) (hl : l.thread ≠ some t)
    (hok : other s l) (hs : step env s l = some s') : During env other t op s₀ ⟨s', ps, d⟩ := by
  obtain ⟨l₀, w, hl₀, hw, hrun⟩ := h
  refine ⟨l₀, w, hl₀, hw, hrun.tail (Or.inr ⟨hl, hok⟩) ?_⟩
  simp [watch, hs, hl]

/-- A call beside weaker conditions on the other threads. -/
theorem mono (h : During env other t op s₀ w) (hle : ∀ s l, other s l → other' s l) :
    During env other' t op s₀ w := by
  obtain ⟨l, w₁, hl, hw, hrun⟩ := h
  exact ⟨l, w₁, hl, hw, hrun.mono fun w l hok => hok.imp_right fun h => ⟨h.1, hle _ _ h.2⟩⟩

end During

/-- A step of the thread inside its call. -/
def Label.isCaller (t : Tid) : Label → Bool
  | .caller u _ => decide (u = t)
  | _ => false

theorem Label.isCaller_iff {l : Label} : l.isCaller t = true ↔ ∃ i, l = .caller t i := by
  cases l with
  | caller u i => simp [isCaller]
  | worker i => simp [isCaller]
  | call u op => simp [isCaller]

/-- A call given by its labels. -/
theorem During.of_exec {other : State → Label → Prop} {l : Label} {ls : List Label}
    (hl : First t s₀ op l)
    (hls : ∀ l ∈ ls, l.isCaller t = true ∨ (l.thread ≠ some t ∧ ∀ s, other s l))
    (h : (watch env t).exec { state := s₀ } (l :: ls) = some w) : During env other t op s₀ w := by
  obtain ⟨w₁, hs, hex⟩ := Lts.Machine.exec_cons h
  refine ⟨l, w₁, hl, hs, Lts.Machine.runIf_of_exec (fun l hl w => ?_) hex⟩
  rcases hls l hl with hown | ⟨hne, hok⟩
  · exact Or.inl (Label.isCaller_iff.mp hown)
  · exact Or.inr ⟨hne, hok w.state⟩

/-- A call given by its labels, whose steps by others were tested one by one. -/
theorem During.of_meets {other : State → Label → Prop} [∀ s l, Decidable (other s l)] {l : Label}
    (ls : List Label) (p : Watched → Bool) (hl : First t s₀ op l)
    (h : ((watch env t).step { state := s₀ } l).any (fun w₁ =>
      (watch env t).meets (fun w l => l.isCaller t ||
        decide (l.thread ≠ some t ∧ other w.state l)) w₁ ls &&
        ((watch env t).exec w₁ ls).any p) = true) :
    ∃ w, During env other t op s₀ w ∧ p w = true := by
  rcases hs : (watch env t).step { state := s₀ } l with _ | w₁
  · simp [hs] at h
  · simp only [hs, Option.any_some, Bool.and_eq_true] at h
    obtain ⟨w, hex, hp⟩ := Lts.Machine.exec_of_any h.2
    refine ⟨w, ⟨l, w₁, hl, hs, Lts.Machine.runIf_of_meets (fun l _ w hok => ?_) hex h.1⟩, hp⟩
    exact (Bool.or_eq_true_iff.mp hok).imp Label.isCaller_iff.mp of_decide_eq_true

end PlayerTrace
