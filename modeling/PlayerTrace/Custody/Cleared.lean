import PlayerTrace.Custody.Consent

/-!
# Cleared fences

Once the purge of a revocation has succeeded, no row below its fence is left, and none
can come back: whatever is still on its way from before carries an older generation, so
it will not pass the check the worker makes under the store mutex, and the worker was not
past that check when the purge had the mutex. `PlayerTrace.Custody.Cleared` says this of a
fence, and `PlayerTrace.Custody.cleared_step` that it stays so under every later move,
re-grants included.

A purge is *unsettled* from the moment a revocation begins to the moment its purge, or the
one a later grant makes up for it, has been committed. Whenever it is settled – in
particular whenever consent is granted – the latest fence is cleared
(`PlayerTrace.Custody.cleared_of_settled`). The durable marker follows the same course
(`PlayerTrace.Custody.Marked`).
-/

namespace PlayerTrace

namespace Custody

variable {env : Env} {c c' : Custody} {b : Nat}

/-- **Nothing below the fence `b` is stored, or will be.** -/
structure Cleared (b : Nat) (c : Custody) : Prop where
  le : b ≤ c.ordinal + 1
  rows : ∀ r ∈ c.rows, b ≤ r.ordinal
  /-- What is still on its way from below is outdated. -/
  line : ∀ e ∈ c.line, e.ordinal < b → e.consentGeneration < c.generation
  /-- What has passed the check under the store mutex is not from below. -/
  committing : ∀ v k, c.stage = .committing v k → ∀ x ∈ k, b ≤ x.qe.ordinal

theorem Cleared.mono {b' : Nat} (h : Cleared b c) (hle : b' ≤ b) : Cleared b' c where
  le := Nat.le_trans hle h.le
  rows r hr := Nat.le_trans hle (h.rows r hr)
  line e he hlt := h.line e he (Nat.lt_of_lt_of_le hlt hle)
  committing v k hst x hx := Nat.le_trans hle (h.committing v k hst x hx)

theorem Step.committing_cases {v : Nat} {k : List Kept} (hs : Step env c c')
    (h : c'.stage = .committing v k) :
    c.stage = .committing v k ∨ (c.stage = .guarded v k ∧ c.generation = v) := by
  cases hs with
  | pass hst hg =>
    obtain ⟨rfl, rfl⟩ : _ = v ∧ _ = k := by simpa using h
    exact Or.inr ⟨hst, hg⟩
  | fetch =>
    rcases Stage.offered_cases _ _ with ⟨-, ho⟩ | ⟨-, ho⟩ <;> exact absurd (ho.symm.trans h) nofun
  | drain | takeNothing | takeRetry | read | refuse | stale | drop | keep | keptNothing | guard
  | refuseKept | commit | insertFailed | hold | look | readAgain | send | notSent | sent
  | notAcknowledged | acknowledge | refuseDelivery | outdated | purge | notPurged | reset
  | raise => exact absurd h nofun
  | _ => exact Or.inl h

theorem Step.generation_le (hs : Step env c c') : c.generation ≤ c'.generation := by
  cases hs with
  | bump => exact Nat.le_succ _
  | _ => exact Nat.le_refl _

/-- **A cleared fence stays cleared.** -/
theorem cleared_step (hi : Cleared b c) (ho : Ordered c) (hf : Fenced c) (hs : Step env c c') :
    Cleared b c' where
  le := Nat.le_trans hi.le (Nat.succ_le_succ (hs.ordinal_le ho.retry))
  rows r hr := by
    rcases hs.mem_rows hr with hr | ⟨v, k, hst, -, x, hx, hitem⟩
    · exact hi.rows r hr
    · rw [show r.ordinal = x.qe.ordinal from congrArg Item.ordinal hitem]
      exact hi.committing v k hst x hx
  line e he hlt := by
    rcases hs.mem_line ho.retry he with he | ⟨-, hord, -⟩
    · exact Nat.lt_of_lt_of_le (hi.line e he hlt) hs.generation_le
    · have := hi.le
      omega
  committing v k hst x hx := by
    rcases hs.committing_cases hst with hst | ⟨hst, hgen⟩
    · exact hi.committing v k hst x hx
    · -- the check has just passed, so what was kept carries the current generation
      have hview := hf.kept x (by rw [hst]; exact hx)
      rw [hst] at hview
      have hcur : x.qe.consentGeneration = c.generation :=
        (Option.some.inj hview).symm.trans hgen.symm
      have hmem : x.qe ∈ c.line := mem_line_of_hands (by rw [hst]; exact List.mem_map_of_mem hx)
      by_contra hlt
      exact absurd (hi.line x.qe hmem (Nat.not_le.mp hlt)) (by omega)

/-- The purge of the latest revocation is still to be done. -/
def unsettled (c : Custody) : Bool :=
  match c.revocation with
  | some (_, .reset) => false
  | some (_, .bump) | some (_, .clear) | some (_, .countCleared _) | some (_, .deactivate) => true
  | _ => c.purgeRequired

/-- A move settles the latest revocation only by purging. -/
theorem Step.unsettled_cases (hs : Step env c c') (h : c'.unsettled = false) :
    (c.unsettled = false ∧ c'.history.fence = c.history.fence) ∨
      ∃ st, c.revocation = some (st, .purge) ∧ c'.rows = [] ∧ c.stage.locked = false ∧
        c'.stage = c.stage ∧ c'.line = c.line ∧ c'.generation = c.generation ∧
        c'.ordinal = c.ordinal ∧ c'.history.fence = c.history.fence := by
  cases hs with
  | purgeAll hrev hl hv =>
    exact Or.inr ⟨_, hrev, by rw [rows, Database.rows, hv]; rfl, hl, rfl, rfl, rfl, rfl, rfl⟩
  | revoke => simp [unsettled] at h
  | @enter st pc hrev hpc =>
    refine Or.inl ⟨?_, rfl⟩
    subst hpc
    simp only [unsettled, hrev]
    by_cases hst : st = ConsentState.granted
    · cases hreq : c.purgeRequired <;> simp_all [unsettled]
    · simpa [unsettled, hst] using h
  | clear => by_cases hq : c.queue.length > 0 <;> simp [unsettled, hq] at h
  | discardRetry hrev =>
    refine Or.inl ⟨?_, rfl⟩
    by_cases hq : c.retry.length > 0 <;> simpa [unsettled, hq, hrev] using h
  | bump | countCleared | owe => simp [unsettled] at h
  | countDiscarded hrev | unlock hrev | mark hrev | grant hrev =>
    exact Or.inl ⟨by simpa [unsettled, hrev] using h, rfl⟩
  | settle hrev => exact Or.inl ⟨by simp [unsettled, hrev], rfl⟩
  | fail hrev =>
    rcases hrev with hrev | hrev <;> exact Or.inl ⟨by simpa [unsettled, hrev] using h, rfl⟩
  | _ => exact Or.inl ⟨h, rfl⟩

theorem settled_step (hi : c.unsettled = false → Cleared c.history.fence c) (ho : Ordered c)
    (hf : Fenced c) (hs : Step env c c') (h : c'.unsettled = false) :
    Cleared c'.history.fence c' := by
  rcases hs.unsettled_cases h with ⟨hun, hfence⟩ |
    ⟨st, hrev, hrows, hl, hst, hline, hgen, hord, hfence⟩
  · rw [hfence]
    exact cleared_step (hi hun) ho hf hs
  · rw [hfence]
    refine ⟨hord ▸ hf.fence_le, by simp [hrows], ?_, ?_⟩
    · rw [hline, hgen]
      intro e he hlt
      refine (hf.old e he hlt).resolve_right ?_
      rintro ⟨st', hb⟩
      simp [hrev] at hb
    · intro v k hcom
      rw [hst] at hcom
      simp [hcom, Stage.locked] at hl

/-- **The latest fence is cleared once its purge is settled.** -/
theorem cleared_of_settled (h : Reachable env c) :
    c.unsettled = false → Cleared c.history.fence c := by
  refine Lts.Reachable.rule (P := fun c => c.unsettled = false → Cleared c.history.fence c)
    (fun c hs _ => ?_) (fun c c' hr hi hm => settled_step hi (ordered_of_reachable hr)
      (fenced_of_reachable hr) hm) h
  have hline : c.line = [] := by
    simp [Custody.line, hs.queue, hs.retry, hs.stage, hs.entry, Stage.hands, Entry.events]
  obtain ⟨earlier, hhist⟩ := hs.history
  rw [show c.history.fence = 0 by rw [hhist]]
  exact ⟨Nat.zero_le _, fun _ _ => Nat.zero_le _, by simp [hline], by simp [hs.stage]⟩

/-- Whenever consent is granted, nothing is owed. -/
theorem Gated.settled (h : Gated c) (hc : c.consent = .granted) : c.unsettled = false := by
  have hreq : c.purgeRequired = false := by
    by_contra hreq
    exact h.owed (by simpa using hreq) hc
  unfold unsettled
  split
  · rfl
  all_goals
    first
    | exact hreq
    | rename_i hrev
      exact absurd hc ((h.holder _ _ hrev).2.2.1 (Or.inl rfl))

/-- **With consent, the latest fence is cleared.** -/
theorem cleared_of_granted (h : Reachable env c) (hc : c.consent = .granted) :
    Cleared c.history.fence c :=
  cleared_of_settled h ((gated_of_reachable h).settled hc)

/-- Along any moves, a cleared fence stays cleared. -/
theorem cleared_moves (h : Reachable env c) (hm : Relation.ReflTransGen (Step env) c c')
    (hc : Cleared b c) : Cleared b c' :=
  Lts.Reachable.moves_rule (fun _ _ hr hi hs => cleared_step hi (ordered_of_reachable hr)
    (fenced_of_reachable hr) hs) h hm hc

/-! ### The durable marker -/

/-- **The marker is only there while a purge is owed**, and never while the worker is about
to insert. -/
structure Marked (c : Custody) : Prop where
  owed : c.store.marker = true →
    c.purgeRequired = true ∧ ∀ st, c.revocation ≠ some (st, .reset)
  locked : c.stage.locked = true → c.store.marker = false

/-- Only `mark_revocation_pending` sets the marker. -/
theorem Step.marker_cases (hs : Step env c c') (h : c'.store.marker = true) :
    c.store.marker = true ∨
      ∃ st, c.revocation = some (st, .mark) ∧ c.stage.locked = false ∧ c'.stage = c.stage ∧
        c'.revocation = some (st, .purge) ∧ c'.purgeRequired = c.purgeRequired := by
  cases hs with
  | mark hrev hl => exact Or.inr ⟨_, hrev, hl, rfl, rfl, rfl⟩
  | commit _ _ hm => exact Or.inl (hm ▸ h)
  | acknowledge _ _ _ hm => exact Or.inl (hm ▸ h)
  | fetch _ _ _ hdb =>
    rcases hdb with ⟨rfl, -⟩ | ⟨-, hm, -⟩
    · exact Or.inl h
    · exact Or.inl (hm ▸ h)
  | purge _ _ hv => simp [Database.marker, hv] at h
  | purgeAll _ _ hv => simp [Database.marker, hv] at h
  | _ => exact Or.inl h

/-- The worker takes the store mutex for an insertion only with consent. -/
theorem Step.locked_cases (hs : Step env c c') (h : c'.stage.locked = true) :
    c.stage.locked = true ∨ c.consent = .granted := by
  cases hs with
  | guard _ hc => exact Or.inr hc
  | pass hst => exact Or.inl (by rw [hst]; rfl)
  | fetch => simp at h
  | drain | takeNothing | takeRetry | read | refuse | stale | drop | keep | keptNothing
  | refuseKept | commit | insertFailed | hold | look | readAgain | send | notSent | sent
  | notAcknowledged | acknowledge | refuseDelivery | outdated | purge | notPurged | reset
  | raise => exact absurd h nofun
  | _ => exact Or.inl h

/-- What is owed stays owed until it is settled. -/
theorem Step.owed_cases (hs : Step env c c') (h : c.purgeRequired = true) :
    c'.purgeRequired = true ∨ ∃ st, c.revocation = some (st, .reset) := by
  cases hs with
  | settle hrev => exact Or.inr ⟨_, hrev⟩
  | owe => exact Or.inl rfl
  | _ => exact Or.inl h

/-- The end of `run_purge` is reached by purging. -/
theorem Step.reset_cases {st : ConsentState} (hs : Step env c c')
    (h : c'.revocation = some (st, .reset)) :
    c.revocation = some (st, .reset) ∨ c'.store.marker = false := by
  cases hs with
  | purgeAll _ _ hv => exact Or.inr (by rw [Database.marker, hv])
  | @enter st' pc hrev hpc =>
    subst hpc
    by_cases hst : st' = ConsentState.granted <;> cases hreq : c.purgeRequired <;>
      simp [hst, hreq] at h
  | clear => by_cases hq : c.queue.length > 0 <;> simp [hq] at h
  | discardRetry => by_cases hq : c.retry.length > 0 <;> simp [hq] at h
  | @settle st' hrev => by_cases hst : st' = ConsentState.granted <;> simp [hst] at h
  | revoke | bump | countCleared | owe | countDiscarded | unlock | mark | fail | grant =>
    simp at h
  | _ => exact Or.inl h

theorem marked_step (hi : Marked c) (hg : Gated c) (hs : Step env c c') : Marked c' where
  owed h := by
    rcases hs.marker_cases h with hm | ⟨st, hrev, -, -, hrev', hreq⟩
    · obtain ⟨hreq, hno⟩ := hi.owed hm
      refine ⟨(hs.owed_cases hreq).resolve_right fun ⟨st, hrev⟩ => hno st hrev, fun st hrev => ?_⟩
      rcases hs.reset_cases hrev with hrev | hm'
      · exact hno st hrev
      · simp [hm'] at h
    · refine ⟨hreq.trans ((hg.holder st _ hrev).2.1 rfl), fun st' hr => ?_⟩
      simp [hrev'] at hr
  locked h := by
    by_contra hm
    rcases hs.marker_cases (by simpa using hm) with hm | ⟨st, -, hl, hst, -, -⟩
    · rcases hs.locked_cases h with hl | hc
      · simp [hi.locked hl] at hm
      · exact hg.owed (hi.owed hm).1 hc
    · rw [hst, hl] at h
      cases h

theorem marked_of_reachable (h : Reachable env c) : Marked c :=
  Lts.Reachable.rule
    (fun _ hs => ⟨by simp [hs.marker], by simp [hs.stage, Stage.locked]⟩)
    (fun _ _ hr hi hs => marked_step hi (gated_of_reachable hr) hs) h

end Custody

end PlayerTrace
