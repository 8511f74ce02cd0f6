import Mathlib.Logic.Relation

/-!
# Labelled machines, their runs and their invariants

A machine is a set of start states and a partial step function: a label names who
moves and what the environment answers, and the step is undefined when the move is
not enabled. Nothing here knows what a state or a label is.

Two notions of run are needed. `Lts.Machine.Run` is any run; `Lts.Machine.RunIf` is a
run all of whose steps meet a condition on the state *before* the step and the label,
which is the shape in which a guarantee that only holds on disciplined schedules is
stated. The invariant rules (`Lts.Machine.Reach.rule`, `Lts.Machine.ReachIf.rule`,
`Lts.Machine.Run.rule`) package the induction once and for all: what holds at the start
and is kept by one step holds wherever the machine gets.

A machine *simulates into* a transition relation on other states when each of its steps
is a move of that relation or stutters (`Lts.Machine.Simulated`); what is then proved of
the relation holds of the machine (`Lts.Machine.Simulated.reachable`).

Runs given by an explicit list of labels (`Lts.Machine.exec`) are the executable side,
used to exhibit a concrete run.
-/

namespace Lts

variable {σ Λ : Type*}

/-- A machine over states `σ` and labels `Λ`. -/
structure Machine (σ Λ : Type*) where
  /-- Where a run may begin. -/
  start : σ → Prop
  /-- One step, or nothing when the label is not enabled. -/
  step : σ → Λ → Option σ

namespace Machine

variable (M : Machine σ Λ)

/-! ### Runs -/

/-- One step that meets the condition `ok`. -/
def NextIf (ok : σ → Λ → Prop) (s s' : σ) : Prop :=
  ∃ l, ok s l ∧ M.step s l = some s'

/-- A run all of whose steps meet the condition `ok`. -/
def RunIf (ok : σ → Λ → Prop) : σ → σ → Prop :=
  Relation.ReflTransGen (M.NextIf ok)

/-- A run, with no condition on its steps. -/
def Run : σ → σ → Prop :=
  M.RunIf fun _ _ => True

/-- The states a run from a start state gets to. -/
def Reach (s : σ) : Prop :=
  ∃ s₀, M.start s₀ ∧ M.Run s₀ s

/-- The states a run from a start state gets to when all its steps meet `ok`. -/
def ReachIf (ok : σ → Λ → Prop) (s : σ) : Prop :=
  ∃ s₀, M.start s₀ ∧ M.RunIf ok s₀ s

variable {M} {ok : σ → Λ → Prop} {s s' s'' : σ} {l : Λ}

theorem RunIf.refl (s : σ) : M.RunIf ok s s := Relation.ReflTransGen.refl

theorem RunIf.tail (h : M.RunIf ok s s') (hok : ok s' l) (hs : M.step s' l = some s'') :
    M.RunIf ok s s'' :=
  Relation.ReflTransGen.tail h ⟨l, hok, hs⟩

theorem RunIf.mono {ok' : σ → Λ → Prop} (h : M.RunIf ok s s') (hle : ∀ s l, ok s l → ok' s l) :
    M.RunIf ok' s s' := by
  induction h with
  | refl => exact RunIf.refl s
  | tail _ hnext ih =>
    obtain ⟨l, hok, hl⟩ := hnext
    exact RunIf.tail ih (hle _ _ hok) hl

theorem RunIf.run (h : M.RunIf ok s s') : M.Run s s' := h.mono fun _ _ _ => trivial

theorem Run.refl (s : σ) : M.Run s s := Relation.ReflTransGen.refl

theorem Run.tail (h : M.Run s s') (hs : M.step s' l = some s'') : M.Run s s'' :=
  RunIf.tail h trivial hs

theorem Run.trans (h : M.Run s s') (h' : M.Run s' s'') : M.Run s s'' :=
  Relation.ReflTransGen.trans h h'

theorem Reach.of_start (h : M.start s) : M.Reach s := ⟨s, h, Run.refl s⟩

theorem Reach.step (h : M.Reach s) (hs : M.step s l = some s') : M.Reach s' := by
  obtain ⟨s₀, h₀, hr⟩ := h
  exact ⟨s₀, h₀, hr.tail hs⟩

theorem Reach.run (h : M.Reach s) (hr : M.Run s s') : M.Reach s' := by
  obtain ⟨s₀, h₀, hr₀⟩ := h
  exact ⟨s₀, h₀, hr₀.trans hr⟩

theorem ReachIf.reach (h : M.ReachIf ok s) : M.Reach s := by
  obtain ⟨s₀, h₀, hr⟩ := h
  exact ⟨s₀, h₀, hr.run⟩

/-! ### The invariant rules -/

/-- **The invariant rule along a run.** -/
theorem Run.rule {P : σ → Prop} (hstep : ∀ s l s', P s → M.step s l = some s' → P s')
    (h : M.Run s s') (hs : P s) : P s' := by
  induction h with
  | refl => exact hs
  | tail _ hnext ih =>
    obtain ⟨l, -, hl⟩ := hnext
    exact hstep _ l _ ih hl

/-- **The invariant rule**, with reachability at hand in the step: an invariant may be
proved on top of those already known of every reachable state. -/
theorem Reach.rule {P : σ → Prop} (h₀ : ∀ s, M.start s → P s)
    (hstep : ∀ s l s', M.Reach s → P s → M.step s l = some s' → P s') (h : M.Reach s) : P s := by
  obtain ⟨s₀, hs₀, hr⟩ := h
  have key : M.Reach s ∧ P s := by
    induction hr with
    | refl => exact ⟨.of_start hs₀, h₀ _ hs₀⟩
    | tail _ hnext ih =>
      obtain ⟨l, -, hl⟩ := hnext
      exact ⟨ih.1.step hl, hstep _ l _ ih.1 ih.2 hl⟩
  exact key.2

/-- **The invariant rule for disciplined runs**: the condition on the step is available
where the step is taken. -/
theorem ReachIf.rule {P : σ → Prop} (h₀ : ∀ s, M.start s → P s)
    (hstep : ∀ s l s', M.Reach s → P s → ok s l → M.step s l = some s' → P s')
    (h : M.ReachIf ok s) : P s := by
  obtain ⟨s₀, hs₀, hr⟩ := h
  have key : M.Reach s ∧ P s := by
    induction hr with
    | refl => exact ⟨.of_start hs₀, h₀ _ hs₀⟩
    | tail _ hnext ih =>
      obtain ⟨l, hok, hl⟩ := hnext
      exact ⟨ih.1.step hl, hstep _ l _ ih.1 ih.2 hok hl⟩
  exact key.2

/-- **The invariant rule along a disciplined run from a reachable state.** -/
theorem Reach.runIf_rule {P : σ → Prop}
    (hstep : ∀ s l s', M.Reach s → P s → ok s l → M.step s l = some s' → P s')
    (hr : M.Reach s) (h : M.RunIf ok s s') (hs : P s) : P s' := by
  have key : M.Reach s' ∧ P s' := by
    induction h with
    | refl => exact ⟨hr, hs⟩
    | tail _ hnext ih =>
      obtain ⟨l, hok, hl⟩ := hnext
      exact ⟨ih.1.step hl, hstep _ l _ ih.1 ih.2 hok hl⟩
  exact key.2

/-- **The invariant rule along a run from a reachable state.** -/
theorem Reach.run_rule {P : σ → Prop}
    (hstep : ∀ s l s', M.Reach s → P s → M.step s l = some s' → P s')
    (hr : M.Reach s) (h : M.Run s s') (hs : P s) : P s' :=
  hr.runIf_rule (fun s l s' hr hi _ hs => hstep s l s' hr hi hs) h hs

/-! ### Observed runs -/

section Observed

variable {α : Type*} {obs : σ → Λ → List α} {p : σ × List α}

/-- The machine, with a record of what `obs` shows of each of its steps. -/
def observed (M : Machine σ Λ) (obs : σ → Λ → List α) : Machine (σ × List α) Λ where
  start p := M.start p.1 ∧ p.2 = []
  step p l := (M.step p.1 l).map fun s' => (s', p.2 ++ obs p.1 l)

theorem observed_step {p' : σ × List α} (h : (M.observed obs).step p l = some p') :
    M.step p.1 l = some p'.1 ∧ p'.2 = p.2 ++ obs p.1 l := by
  obtain ⟨s', hs, rfl⟩ := Option.map_eq_some_iff.mp h
  exact ⟨hs, rfl⟩

/-- The record restricts nothing. -/
theorem observed_reach (h : (M.observed obs).Reach p) : M.Reach p.1 := by
  refine Reach.rule (P := fun p : σ × List α => M.Reach p.1) (fun p hp => ?_)
    (fun p l p' _ hi hs => ?_) h
  · exact .of_start hp.1
  · exact hi.step (observed_step hs).1

/-- Every reachable state has a record. -/
theorem exists_observed (obs : σ → Λ → List α) (h : M.Reach s) :
    ∃ w, (M.observed obs).Reach (s, w) := by
  refine h.rule (P := fun s => ∃ w, (M.observed obs).Reach (s, w))
    (fun s hs => ⟨[], .of_start ⟨hs, rfl⟩⟩) fun s l s' _ hi hs => ?_
  obtain ⟨w, hw⟩ := hi
  have hstep : (M.observed obs).step (s, w) l = some (s', w ++ obs s l) :=
    Option.map_eq_some_iff.mpr ⟨s', hs, rfl⟩
  exact ⟨w ++ obs s l, hw.step hstep⟩

/-- **The invariant rule for a state and its record.** -/
theorem Reach.observed_rule {P : σ → List α → Prop} (h₀ : ∀ s, M.start s → P s [])
    (hstep : ∀ s w l s', M.Reach s → P s w → M.step s l = some s' → P s' (w ++ obs s l))
    (h : (M.observed obs).Reach p) : P p.1 p.2 := by
  refine Reach.rule (P := fun p : σ × List α => P p.1 p.2) (fun p hp => ?_)
    (fun p l p' hr hi hs => ?_) h
  · rw [hp.2]
    exact h₀ p.1 hp.1
  · obtain ⟨hs, hw⟩ := observed_step hs
    rw [hw]
    exact hstep _ _ _ _ (observed_reach hr) hi hs

/-- **The invariant rule for a disciplined run and its record.** -/
theorem RunIf.observed_rule {P : σ → List α → Prop}
    (hstep : ∀ s w l s', P s w → ok s l → M.step s l = some s' → P s' (w ++ obs s l))
    (h : (M.observed obs).RunIf (fun p l => ok p.1 l) (s, []) p) (hs : P s []) : P p.1 p.2 := by
  induction h with
  | refl => exact hs
  | tail _ hnext ih =>
    obtain ⟨l, hok, hl⟩ := hnext
    obtain ⟨hl, hw⟩ := observed_step hl
    rw [hw]
    exact hstep _ _ _ _ ih hok hl

/-- The same for a run that begins at a reachable state. -/
theorem Reach.observed_runIf_rule {P : σ → List α → Prop} (hr : M.Reach s)
    (hstep : ∀ s w l s', M.Reach s → P s w → ok s l → M.step s l = some s' → P s' (w ++ obs s l))
    (h : (M.observed obs).RunIf (fun p l => ok p.1 l) (s, []) p) (hs : P s []) : P p.1 p.2 := by
  have key : M.Reach p.1 ∧ P p.1 p.2 :=
    RunIf.observed_rule (P := fun s w => M.Reach s ∧ P s w)
      (fun _ _ _ _ hi hok hl => ⟨hi.1.step hl, hstep _ _ _ _ hi.1 hi.2 hok hl⟩) h ⟨hr, hs⟩
  exact key.2

/-- **The potential rule**: when every step pays for what it adds to the record out of the
potential `Φ`, a run adds no more than `Φ` was at its beginning. Only the entries that meet
`q` are charged. -/
theorem RunIf.potential_rule {Φ : σ → Nat} {q : α → Bool}
    (hstep : ∀ s l s', ok s l → M.step s l = some s' → (obs s l).countP q + Φ s' ≤ Φ s)
    (h : (M.observed obs).RunIf (fun p l => ok p.1 l) (s, []) p) : p.2.countP q ≤ Φ s := by
  have key : p.2.countP q + Φ p.1 ≤ Φ s := by
    refine RunIf.observed_rule (P := fun s' w => w.countP q + Φ s' ≤ Φ s)
      (fun s₁ w l s₂ hi hok hl => ?_) h (by simp)
    have hpaid := hstep s₁ l s₂ hok hl
    rw [List.countP_append]
    omega
  omega

end Observed

/-! ### Simulation -/

end Machine

section Relation

variable {τ : Type*} {start : τ → Prop} {R : τ → τ → Prop} {c c' : τ}

/-- The states that moves of `R` lead to from a start state. -/
inductive Reachable (start : τ → Prop) (R : τ → τ → Prop) : τ → Prop
  | start {c : τ} (h : start c) : Reachable start R c
  | move {c c' : τ} (h : Reachable start R c) (hm : R c c') : Reachable start R c'

/-- **The invariant rule for a relation.** -/
theorem Reachable.rule {P : τ → Prop} (h₀ : ∀ c, start c → P c)
    (hmove : ∀ c c', Reachable start R c → P c → R c c' → P c') (h : Reachable start R c) :
    P c := by
  induction h with
  | start h => exact h₀ _ h
  | move h hm ih => exact hmove _ _ h ih hm

/-- Any number of moves. -/
theorem Reachable.moves (h : Reachable start R c) (hm : Relation.ReflTransGen R c c') :
    Reachable start R c' := by
  induction hm with
  | refl => exact h
  | tail _ hm ih => exact .move ih hm

/-- **The invariant rule along moves from a reachable state.** -/
theorem Reachable.moves_rule {P : τ → Prop}
    (hmove : ∀ c c', Reachable start R c → P c → R c c' → P c') (h : Reachable start R c)
    (hm : Relation.ReflTransGen R c c') (hc : P c) : P c' := by
  have key : Reachable start R c' ∧ P c' := by
    induction hm with
    | refl => exact ⟨h, hc⟩
    | tail _ hm ih => exact ⟨.move ih.1 hm, hmove _ _ ih.1 ih.2 hm⟩
  exact key.2

end Relation

namespace Machine

variable {τ : Type*} {M : Machine σ Λ} {π : σ → τ} {R : τ → τ → Prop} {start : τ → Prop}
  {s s' : σ} {ok : σ → Λ → Prop} {l : Λ}

/-- Each step of the machine, seen through `π`, is a move of `R` or none. -/
structure Simulated (M : Machine σ Λ) (π : σ → τ) (start : τ → Prop) (R : τ → τ → Prop) :
    Prop where
  start : ∀ s, M.start s → start (π s)
  step : ∀ s l s', M.step s l = some s' → π s' = π s ∨ R (π s) (π s')

theorem Simulated.moves (h : M.Simulated π start R) (hr : M.Run s s') :
    Relation.ReflTransGen R (π s) (π s') := by
  induction hr with
  | refl => exact .refl
  | tail _ hnext ih =>
    obtain ⟨l, -, hl⟩ := hnext
    rcases h.step _ _ _ hl with heq | hm
    · rw [heq]
      exact ih
    · exact ih.tail hm

/-- **Reachable states are simulated by reachable states.** -/
theorem Simulated.reachable (h : M.Simulated π start R) (hr : M.Reach s) :
    Reachable start R (π s) := by
  obtain ⟨s₀, hs₀, hrun⟩ := hr
  exact (Reachable.start (h.start s₀ hs₀)).moves (h.moves hrun)

/-! ### Runs given by their labels -/

/-- The state a list of labels leads to, if every one of them is enabled in turn. -/
def exec (M : Machine σ Λ) (s : σ) : List Λ → Option σ
  | [] => some s
  | l :: ls => (M.step s l).bind fun s' => exec M s' ls

/-- Whether every step of the run a list of labels describes meets `ok`. -/
def meets (M : Machine σ Λ) (ok : σ → Λ → Bool) (s : σ) : List Λ → Bool
  | [] => true
  | l :: ls => ok s l && (match M.step s l with
      | some s' => meets M ok s' ls
      | none => false)

theorem exec_cons {ls : List Λ} (h : M.exec s (l :: ls) = some s') :
    ∃ s₁, M.step s l = some s₁ ∧ M.exec s₁ ls = some s' :=
  Option.bind_eq_some_iff.mp h

/-- A run given by its labels, whose steps were tested one by one. -/
theorem runIf_of_meets {okb : σ → Λ → Bool} {ls : List Λ}
    (hok : ∀ l ∈ ls, ∀ s, okb s l = true → ok s l) (h : M.exec s ls = some s')
    (hmeets : M.meets okb s ls = true) : M.RunIf ok s s' := by
  induction ls generalizing s with
  | nil =>
    obtain rfl : s = s' := by simpa [exec] using h
    exact RunIf.refl s
  | cons l ls ih =>
    obtain ⟨t, hl, ht⟩ := exec_cons h
    simp only [meets, hl, Bool.and_eq_true] at hmeets
    exact Relation.ReflTransGen.head ⟨l, hok l List.mem_cons_self s hmeets.1, hl⟩
      (ih (fun l hl => hok l (List.mem_cons_of_mem _ hl)) ht hmeets.2)

/-- A run given by its labels, when the condition depends on the label alone. -/
theorem runIf_of_exec {ls : List Λ} (hok : ∀ l ∈ ls, ∀ s, ok s l) (h : M.exec s ls = some s') :
    M.RunIf ok s s' := by
  induction ls generalizing s with
  | nil =>
    obtain rfl : s = s' := by simpa [exec] using h
    exact RunIf.refl s
  | cons l ls ih =>
    obtain ⟨t, hl, ht⟩ := exec_cons h
    exact Relation.ReflTransGen.head ⟨l, hok l List.mem_cons_self s, hl⟩
      (ih (fun l hl => hok l (List.mem_cons_of_mem _ hl)) ht)

theorem run_of_exec {ls : List Λ} (h : M.exec s ls = some s') : M.Run s s' :=
  runIf_of_exec (fun _ _ _ => trivial) h

/-- What was evaluated of the end of a list of labels holds of its end. -/
theorem exec_of_any {ls : List Λ} {p : σ → Bool} (h : (M.exec s ls).any p = true) :
    ∃ s', M.exec s ls = some s' ∧ p s' = true := by
  rcases hex : M.exec s ls with _ | s'
  · simp [hex] at h
  · exact ⟨s', rfl, by simpa [hex] using h⟩

/-- A run that can be evaluated ends somewhere, with what was evaluated of its end. -/
theorem exists_run_of_exec (ls : List Λ) (p : σ → Bool) (h : (M.exec s ls).any p = true) :
    ∃ s', M.Run s s' ∧ p s' = true := by
  obtain ⟨s', hex, hp⟩ := exec_of_any h
  exact ⟨s', run_of_exec hex, hp⟩

/-- From a start state, it ends in a reachable one. -/
theorem reach_of_exec (h₀ : M.start s) (ls : List Λ) (p : σ → Bool)
    (h : (M.exec s ls).any p = true) : ∃ s', M.Reach s' ∧ p s' = true := by
  obtain ⟨s', hrun, hp⟩ := exists_run_of_exec ls p h
  exact ⟨s', ⟨s, h₀, hrun⟩, hp⟩

/-- The same for a run whose steps meet a condition. -/
theorem reachIf_of_exec (ok : σ → Λ → Prop) [∀ s l, Decidable (ok s l)] (h₀ : M.start s)
    (ls : List Λ) (p : σ → Bool) (h : (M.exec s ls).any p = true)
    (hok : M.meets (fun s l => decide (ok s l)) s ls = true) :
    ∃ s', M.ReachIf ok s' ∧ p s' = true := by
  rcases hex : M.exec s ls with _ | s'
  · simp [hex] at h
  · have hrun := runIf_of_meets (fun _ _ _ h => of_decide_eq_true h) hex hok
    exact ⟨s', ⟨s, h₀, hrun⟩, by simpa [hex] using h⟩

/-- The same in two legs. -/
theorem reach_run_of_exec (h₀ : M.start s) (ls ls' : List Λ) (p : σ → σ → Bool)
    (h : (M.exec s ls).any (fun s' => (M.exec s' ls').any (p s')) = true) :
    ∃ s' s'', M.Reach s' ∧ M.Run s' s'' ∧ p s' s'' = true := by
  obtain ⟨s', hr, hp⟩ := reach_of_exec h₀ ls _ h
  rcases hex : M.exec s' ls' with _ | s''
  · simp [hex] at hp
  · exact ⟨s', s'', hr, run_of_exec hex, by simpa [hex] using hp⟩

end Machine

end Lts
