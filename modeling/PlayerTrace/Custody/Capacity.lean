import PlayerTrace.Custody.Ledger

/-!
# Capacity

`outstanding_` stands for the capacity in use. What it has to cover is more than the live
events: an event whose fate is decided keeps its capacity until it is counted, and a
producer reserves before it pushes. All of this together is what is *claimed*, and a move
changes what is claimed and what is outstanding by the same amount
(`PlayerTrace.Custody.Step.balance`), with two exceptions. A purge frees rows and leaves the
counter alone, which errs on the safe side. And the two absolute resets set the counter to
zero whatever is claimed; they are safe only when nothing is.

So the counter covers what is claimed in every run whose resets find nothing claimed
(`PlayerTrace.Custody.covered_step`), and equals it as long as consent was never revoked
(`PlayerTrace.Custody.exact_of_reachable`).
-/

namespace PlayerTrace

/-- A producer that has found capacity and has not reserved it yet. -/
def Entry.admitted : Entry → Bool
  | .checked | .built _ => true
  | _ => false

namespace Custody

variable {env : Env} {c c' : Custody}

/-- What `outstanding_` has to cover. -/
def claimed (c : Custody) : Nat := c.live + c.due.amount + c.pending + c.entry.reservation

theorem release_eq (c : Custody) (n : Nat) : c.release n = c.outstanding - n := by
  unfold release
  split <;> omega

/-- A move sets the counter to an absolute value. -/
def Resets (c c' : Custody) : Prop :=
  (∃ n, c.stage = .resetting n ∧ c'.stage = .idle ∧ c'.outstanding = n) ∨
    ∃ st, c.revocation = some (st, .reset) ∧ c'.revocation ≠ some (st, .reset) ∧
      c'.outstanding = 0

/-- A move removes events without giving back their capacity: by a purge, or because the
worker's loop is left by an exception. -/
def Forgets (c c' : Custody) : Prop :=
  c'.raised = true ∨ c.stage = .purging ∨ ∃ st, c.revocation = some (st, .purge)

/-- What is live is what is known and not written off. -/
theorem live_eq (h : Reachable env c) :
    c.live + c.history.acked.length + c.history.discarded.length + c.history.purged.length +
      c.history.dropped.length + c.history.lost.length =
      c.history.recovered.length + c.history.accepted.length := by
  have hlen := (conserved_of_reachable h).length_eq
  simp only [places, known, List.length_append, List.length_map] at hlen
  simp only [live]
  omega

/-- **A move keeps the balance**, forgets some events, or resets the counter. -/
theorem Step.balance (hs : Step env c c') (hr : Reachable env c) (hle : c.claimed ≤ c.outstanding) :
    c'.claimed + c.outstanding = c.claimed + c'.outstanding ∨
      (Forgets c c' ∧ c'.outstanding = c.outstanding ∧ c'.claimed ≤ c.claimed) ∨
      (Resets c c' ∧ c'.claimed = c.claimed) := by
  have hlive := live_eq hr
  have hlive' := live_eq (hr.move hs)
  have hg := gated_of_reachable hr
  have hb := batched_of_reachable hr
  unfold claimed at hle ⊢
  cases hs with
  | refuse h hd | stale h hd =>
    left
    simp only [discard, hd, Due.amount, pending, List.length_append, List.length_map,
      List.length_cons, List.length_nil] at hlive' ⊢
    omega
  | refuseKept hd h =>
    left
    simp only [discard, hd, Due.amount, pending, List.length_append, List.length_map] at hlive' ⊢
    omega
  | drop h hd =>
    left
    simp only [hd, Due.amount, pending, List.length_append, List.length_cons, List.length_nil]
      at hlive' ⊢
    omega
  | @fetch seen n db read h hd hread hdb =>
    left
    obtain ⟨-, hgone⟩ := length_quarantined hread hdb
    have hdue : (if n = 0 then Due.none else .dropped n).amount = n := by
      split
      · exact Eq.symm ‹n = 0›
      · rfl
    rw [hd] at hle ⊢
    simp only [hdue, hgone, Due.amount_none, pending, List.length_append] at hlive' ⊢
    omega
  | @acknowledge b db n h hd hev hm hn =>
    left
    have hgone : (c.store.gone db).length = n :=
      Nat.add_right_cancel ((length_gone (congrArg Events.rows hev)).trans hn.symm)
    have hdue : (if n = b.length then Due.delivered n else .none).amount = n := by
      split
      · rfl
      · exact Eq.symm ((acknowledged_all hb h hev hn).resolve_left ‹_›)
    rw [hd] at hle ⊢
    simp only [hdue, hgone, Due.amount_none, pending, List.length_append] at hlive' ⊢
    omega
  | count h =>
    left
    simp only [release_eq, Due.amount, pending] at hle hlive' ⊢
    omega
  | purge h =>
    exact Or.inr (Or.inl ⟨Or.inr (Or.inl h), rfl, by
      simp only [pending, List.length_append] at hlive' ⊢
      omega⟩)
  | @purgeAll st db h =>
    exact Or.inr (Or.inl ⟨Or.inr (Or.inr ⟨st, h⟩), rfl, by
      simp only [pending, h, ConsentPc.uncounted, List.length_append] at hlive' ⊢
      omega⟩)
  | raise =>
    exact Or.inr (Or.inl ⟨Or.inl rfl, rfl, by
      simp only [pending, Due.amount, List.length_append] at hlive' ⊢
      omega⟩)
  | @reset n h =>
    exact Or.inr (Or.inr ⟨Or.inl ⟨n, h, rfl, rfl⟩, by
      simp only [pending] at hlive' ⊢
      omega⟩)
  | @settle st h =>
    refine Or.inr (Or.inr ⟨Or.inr ⟨st, h, by dsimp only; split <;> simp, rfl⟩, ?_⟩)
    by_cases hst : st = ConsentState.granted <;>
    · simp only [hst, pending, h, ConsentPc.uncounted, if_true, if_false] at hlive' ⊢
      omega
  | push origin hent =>
    left
    simp only [hent, pending, Entry.reservation, List.length_append, List.length_cons,
      List.length_nil] at hlive' ⊢
    omega
  | gate hent | check hent | build hent | reserve hent | overflow hent | countAccepted hent =>
    left
    simp only [hent, pending, Entry.reservation] at hlive' ⊢
    omega
  | undo hent =>
    left
    simp only [hent, release_eq, pending, Entry.reservation] at hle hlive' ⊢
    omega
  | giveUp hent =>
    left
    rcases hent with hent | hent <;>
    · simp only [hent, pending, Entry.reservation] at hlive' ⊢
      omega
  | enter h hpc =>
    left
    simp only [pending, h, uncounted_enter hpc] at hlive' ⊢
    omega
  | revoke h hent =>
    left
    simp only [hent, pending, h, ConsentPc.uncounted, Entry.reservation] at hlive' ⊢
    omega
  | unlock h =>
    left
    simp only [((hg.holder _ _ h).1 rfl).1, pending, h, ConsentPc.uncounted, Entry.reservation]
      at hlive' ⊢
    omega
  | clear h =>
    left
    by_cases hq : c.queue.length > 0 <;>
    · simp only [hq, pending, h, ConsentPc.uncounted, discard, List.length_append, List.length_map,
        if_true, if_false] at hlive' ⊢
      omega
  | discardRetry h =>
    left
    by_cases hq : c.retry.length > 0 <;>
    · simp only [hq, pending, h, ConsentPc.uncounted, discard, List.length_append, List.length_map,
        if_true, if_false] at hlive' ⊢
      omega
  | countCleared h | countDiscarded h =>
    left
    simp only [pending, h, ConsentPc.uncounted, release_eq] at hle hlive' ⊢
    omega
  | bump h | owe h | mark h | grant h =>
    left
    simp only [pending, h, ConsentPc.uncounted] at hlive' ⊢
    omega
  | fail h =>
    left
    rcases h with h | h <;>
    · simp only [pending, h, ConsentPc.uncounted] at hlive' ⊢
      omega
  | _ =>
    left
    simp only [pending] at hlive' ⊢
    omega

/-! ### Covering what is claimed -/

/-- The counter covers what is claimed. -/
def Covered (c : Custody) : Prop := c.claimed ≤ c.outstanding

theorem claimed_start (h : Start env c) : c.claimed = c.outstanding := by
  simp [claimed, live, h.queue, h.stage, h.retry, h.due, h.entry, h.outstanding, Stage.hands,
    Due.amount, Entry.reservation, pending, h.revocation]

/-- **The counter covers what is claimed, unless it is reset while something is.** -/
theorem covered_step (hi : Covered c) (hr : Reachable env c) (hs : Step env c c')
    (hreset : Resets c c' → c.claimed = 0) : Covered c' := by
  unfold Covered at hi ⊢
  rcases hs.balance hr hi with heq | ⟨-, hout, hle⟩ | ⟨hres, heq⟩
  · omega
  · omega
  · have := hreset hres
    omega

/-- **The counter stays within the cap**, or what was recovered. -/
structure Bounded (env : Env) (c : Custody) : Prop where
  le : c.outstanding ≤ max env.config.maxPendingEvents c.history.recovered.length
  room : c.entry.admitted = true → c.outstanding < env.config.maxPendingEvents
  /-- After a purge nothing remains. -/
  reset : ∀ n, c.stage = .resetting n → n = 0

/-- How a move changes the counter: it grows by one where room was found for it, and
otherwise does not, unless it is reset. -/
theorem Step.outstanding_cases (hs : Step env c c') :
    (c'.outstanding ≤ c.outstanding ∧
        (c'.entry.admitted = true → c.entry.admitted = true ∨
          c'.outstanding < env.config.maxPendingEvents)) ∨
      (c.entry.admitted = true ∧ c'.entry.admitted = false ∧
        c'.outstanding = c.outstanding + 1) ∨
      ∃ n, c.stage = .resetting n ∧ c'.outstanding = n ∧ c'.entry = c.entry := by
  cases hs with
  | check hent hcap => exact Or.inl ⟨Nat.le_refl _, fun _ => Or.inr hcap⟩
  | build hent => exact Or.inl ⟨Nat.le_refl _, fun _ => Or.inl (by rw [hent]; rfl)⟩
  | reserve hent => exact Or.inr (Or.inl ⟨by rw [hent]; rfl, rfl, rfl⟩)
  | reset h => exact Or.inr (Or.inr ⟨_, h, rfl, rfl⟩)
  | count | countCleared | countDiscarded =>
    exact Or.inl ⟨by simp only [release_eq]; omega, fun h => Or.inl h⟩
  | undo => exact Or.inl ⟨by simp only [release_eq]; omega, nofun⟩
  | settle => exact Or.inl ⟨Nat.zero_le _, fun h => Or.inl h⟩
  | gate | giveUp | push | overflow | countAccepted | revoke | unlock =>
    exact Or.inl ⟨Nat.le_refl _, nofun⟩
  | _ => exact Or.inl ⟨Nat.le_refl _, fun h => Or.inl h⟩

theorem Step.resetting_cases (hs : Step env c c') {n : Nat} (h : c'.stage = .resetting n) :
    c.stage = .resetting n ∨ (c.stage = .purging ∧ n = 0) := by
  cases hs with
  | purge hst => exact Or.inr ⟨hst, (Stage.resetting.inj h).symm⟩
  | fetch =>
    rcases Stage.offered_cases _ _ with ⟨-, ho⟩ | ⟨-, ho⟩ <;> exact absurd (ho.symm.trans h) nofun
  | drain | takeNothing | takeRetry | read | refuse | stale | drop | keep | keptNothing | guard
  | refuseKept | pass | commit | insertFailed | hold | look | readAgain | send | notSent | sent
  | notAcknowledged | acknowledge | refuseDelivery | outdated | notPurged | reset | raise =>
    exact absurd h nofun
  | _ => exact Or.inl h

theorem bounded_step (hi : Bounded env c) (hs : Step env c c') : Bounded env c' := by
  have hrec := hs.born_cases.1
  have hreset : ∀ n, c'.stage = .resetting n → n = 0 := fun n h => by
    rcases hs.resetting_cases h with h | ⟨-, h⟩
    · exact hi.reset n h
    · exact h
  obtain ⟨hle, hroom, -⟩ := id hi
  rcases hs.outstanding_cases with ⟨hout, hadm⟩ | ⟨hadm, hadm', hout⟩ | ⟨n, hst, hout, hent⟩
  · refine ⟨hrec ▸ Nat.le_trans hout hle, fun h => ?_, hreset⟩
    rcases hadm h with h | h
    · exact Nat.lt_of_le_of_lt hout (hroom h)
    · exact h
  · refine ⟨?_, fun h => by simp [hadm'] at h, hreset⟩
    have := hroom hadm
    rw [hout]
    omega
  · have hzero := hi.reset n hst
    refine ⟨by omega, fun h => ?_, hreset⟩
    rw [hent] at h
    exact Nat.lt_of_le_of_lt (by omega) (hroom h)

theorem bounded_of_reachable (h : Reachable env c) : Bounded env c := by
  refine Lts.Reachable.rule (fun c hs => ?_) (fun _ _ _ hi hm => bounded_step hi hm) h
  refine ⟨?_, by simp [hs.entry, Entry.admitted], by simp [hs.stage]⟩
  obtain ⟨earlier, hhist⟩ := hs.history
  rw [hs.outstanding, hhist]
  simp

/-! ### Runs without a revocation -/

/-- No revocation has begun, and consent was there from the start. -/
structure Steady (c : Custody) : Prop where
  consent : c.consent = .granted
  owed : c.purgeRequired = false
  revocation : ∀ st pc, c.revocation = some (st, pc) → pc = .store ∨ pc = .grant
  view : ∀ v, c.stage.view = some v → v = c.generation
  purging : c.stage ≠ .purging
  resetting : ∀ n, c.stage ≠ .resetting n

/-- Without a revocation, the consent lock is only taken and released again. -/
theorem Steady.locks (hi : Steady c) (hs : Step env c c') (hrev : c'.history.revocations = 0) :
    c'.purgeRequired = false ∧
      ∀ st pc, c'.revocation = some (st, pc) → pc = .store ∨ pc = .grant := by
  cases hs with
  | @enter st pc h hpc =>
    refine ⟨hi.owed, fun st' pc' heq => ?_⟩
    obtain ⟨rfl, rfl⟩ : st = st' ∧ pc = pc' := by simpa using heq
    subst hpc
    by_cases hst : st = ConsentState.granted <;> simp [hst, hi.owed]
  | revoke => simp at hrev
  | bump h | clear h | countCleared h | owe h | discardRetry h | countDiscarded h | unlock h
  | mark h | purgeAll h | settle h => exact absurd (hi.revocation _ _ h) (by simp)
  | fail h => rcases h with h | h <;> exact absurd (hi.revocation _ _ h) (by simp)
  | grant => exact ⟨hi.owed, nofun⟩
  | _ => exact ⟨hi.owed, hi.revocation⟩

theorem steady_step (hi : Steady c) (hg : Gated c) (hs : Step env c c')
    (hrev : c'.history.revocations = 0) : Steady c' := by
  obtain ⟨howed, hlocks⟩ := hi.locks hs hrev
  have hpurging : c'.stage ≠ .purging := fun h => by
    rcases hs.purging_cases h with h | h | ⟨v, hv, hne⟩
    · exact hi.purging h
    · exact h hi.consent
    · exact hne (hi.view v hv).symm
  have hresetting : ∀ n, c'.stage ≠ .resetting n := fun n h => by
    rcases hs.resetting_cases h with h | ⟨h, -⟩
    · exact hi.resetting n h
    · exact hi.purging h
  rcases hs.consent_cases hg with hq | ⟨-, -, -, hone, -⟩ | ⟨-, -, -, -, -, st, hb⟩ |
    ⟨hk, hgen, -, -, hcons, -⟩
  · refine ⟨hq.consent.trans hi.consent, howed, hlocks, fun v hv => ?_, hpurging, hresetting⟩
    rw [hq.generation]
    rcases hs.view_cases hv with ⟨hv, -⟩ | hv
    · exact hi.view v hv
    · exact hv
  · omega
  · exact absurd (hi.revocation _ _ hb) (by simp)
  · exact ⟨hcons, howed, hlocks, by rw [hk.stage, hgen]; exact hi.view, hpurging, hresetting⟩

theorem Step.revocations_mono (hs : Step env c c') (h : c'.history.revocations = 0) :
    c.history.revocations = 0 := by
  cases hs with
  | revoke => simp at h
  | _ => exact h

/-- **Without a revocation the counter is exact.** -/
theorem exact_of_reachable (hgranted : env.config.consent = .granted) (h : Reachable env c) :
    c.history.revocations = 0 → c.raised = false → Steady c ∧ c.claimed = c.outstanding := by
  refine Lts.Reachable.rule
    (P := fun c => c.history.revocations = 0 → c.raised = false →
      Steady c ∧ c.claimed = c.outstanding)
    (fun c hs _ _ => ⟨?_, claimed_start hs⟩) (fun c c' hr hi hm hrev hraise => ?_) h
  · exact ⟨hs.consent.trans hgranted, hs.purgeRequired, by simp [hs.revocation],
      by simp [hs.stage, Stage.view], by simp [hs.stage], by simp [hs.stage]⟩
  · obtain ⟨hsteady, heq⟩ := hi (hm.revocations_mono hrev) (hm.raised_mono hraise)
    refine ⟨steady_step hsteady (gated_of_reachable hr) hm hrev, ?_⟩
    rcases hm.balance hr (Nat.le_of_eq heq) with hbal | ⟨hf, -⟩ | ⟨hres, -⟩
    · omega
    · rcases hf with hf | hf | ⟨st, hf⟩
      · simp [hf] at hraise
      · exact absurd hf hsteady.purging
      · exact absurd (hsteady.revocation _ _ hf) (by simp)
    · rcases hres with ⟨n, hst, -⟩ | ⟨st, hst, -⟩
      · exact absurd hst (hsteady.resetting n)
      · exact absurd (hsteady.revocation _ _ hst) (by simp)

end Custody

end PlayerTrace
