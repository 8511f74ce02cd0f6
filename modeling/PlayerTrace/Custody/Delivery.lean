import PlayerTrace.Custody.Cleared

/-!
# Delivery, as far as custody sees it

Between the first consent check of a delivery and the acknowledgment the worker holds no
lock, and the store, the consent state and the generation can change under it. What it
can rely on is said here:

* `PlayerTrace.Custody.Looked`: how the batch lies relative to the fence depends only on
  whether a revocation has begun since that first check – if none has, it is above the
  fence, and if one has, below it;
* `PlayerTrace.Custody.Batched`: the rows of the batch are all still there, unless a purge
  has emptied the store, and no usable row in front of it was left out.
-/

namespace PlayerTrace

namespace Stage

/-- The number of revocations begun at the first consent check of the delivery. -/
def seen : Stage → Option Nat
  | .looking seen | .fetched seen _ _ => some seen
  | _ => none

/-- The batch of a delivery. -/
def batch : Stage → List SerializedEvent
  | .fetched _ _ b | .sending _ b | .acknowledging b => b
  | _ => []

@[simp] theorem offered_batch (seen : Nat) (b : List SerializedEvent) :
    (offered seen b).batch = b := by
  rcases offered_cases seen b with ⟨rfl, h⟩ | ⟨-, h⟩ <;> rw [h] <;> rfl

theorem eq_of_offered_seen {n m : Nat} {b : List SerializedEvent}
    (h : (offered n b).seen = some m) : n = m := by
  rcases offered_cases n b with ⟨-, ho⟩ | ⟨-, ho⟩
  · simp [ho, seen] at h
  · simpa [ho, seen] using h

end Stage

namespace Custody

variable {env : Env} {c c' : Custody}

/-! ### Revocations that have returned -/

/-- The latest revocation has returned, or it is under way. -/
def Returned (c : Custody) : Prop :=
  c.history.completed = c.history.fence ∨
    ∃ st pc, c.revocation = some (st, pc) ∧ st ≠ .granted ∧ pc ≠ .store

/-- A call that ends settles which revocation was the last to return. -/
theorem Returned.leave {st : ConsentState} {pc : ConsentPc} (hi : Returned c)
    (h : c.revocation = some (st, pc)) (hfence : c'.history.fence = c.history.fence)
    (hcomp : c'.history.completed =
      if st = ConsentState.granted then c.history.completed else c.history.fence) :
    Returned c' := by
  left
  rw [hcomp, hfence]
  split
  · rename_i hst
    refine hi.resolve_right ?_
    rintro ⟨st', pc', hrev, hst', -⟩
    obtain ⟨rfl, -⟩ : st = st' ∧ pc = pc' := by simpa [h] using hrev
    exact hst' hst
  · rfl

/-- A step that keeps the consent lock. -/
theorem Returned.stay {st : ConsentState} {pc pc' : ConsentPc} (hi : Returned c)
    (h : c.revocation = some (st, pc)) (hrev : c'.revocation = some (st, pc'))
    (hpc : pc' ≠ .store) (hfence : c'.history.fence = c.history.fence)
    (hcomp : c'.history.completed = c.history.completed) : Returned c' := by
  refine hi.imp (fun heq => by rw [hcomp, hfence, heq]) ?_
  rintro ⟨st', pc'', hrev', hst, -⟩
  obtain ⟨rfl, -⟩ : st = st' ∧ pc = pc'' := by simpa [h] using hrev'
  exact ⟨st, pc', hrev, hst, hpc⟩

theorem returned_step (hi : Returned c) (hg : Gated c) (hs : Step env c c') : Returned c' := by
  cases hs with
  | @revoke st h he =>
    exact Or.inr ⟨st, .bump, rfl, (hg.holder _ _ h).2.2.2.1 (Or.inr rfl), nofun⟩
  | enter h =>
    refine hi.imp id ?_
    rintro ⟨st, pc, hrev, -⟩
    simp [h] at hrev
  | bump h | countCleared h | owe h | countDiscarded h | unlock h | mark h | purgeAll h =>
    exact hi.stay h rfl nofun rfl rfl
  | clear h | discardRetry h =>
    exact hi.stay h rfl (by split <;> exact nofun) rfl rfl
  | settle h | grant h => exact hi.leave h rfl rfl
  | fail h => rcases h with h | h <;> exact hi.leave h rfl rfl
  | _ => exact hi

theorem returned_of_reachable (h : Reachable env c) : Returned c :=
  Lts.Reachable.rule (fun _ hs => Or.inl (by obtain ⟨earlier, hhist⟩ := hs.history; rw [hhist]))
    (fun _ _ hr hi hs => returned_step hi (gated_of_reachable hr) hs) h

/-- With consent, every revocation that has begun has returned. -/
theorem completed_of_granted (h : Reachable env c) (hc : c.consent = .granted) :
    c.history.completed = c.history.fence := by
  refine (returned_of_reachable h).resolve_right ?_
  rintro ⟨st, pc, hrev, hst, hpc⟩
  obtain ⟨-, -, hnot, -, hgrant⟩ := (gated_of_reachable h).holder st pc hrev
  by_cases hin : pc.inSection = true ∨ pc.owes = true
  · exact hnot hin hc
  · cases pc with
    | store => exact hpc rfl
    | grant => exact hst (hgrant rfl).1
    | _ => simp [ConsentPc.inSection, ConsentPc.owes] at hin

/-! ### What the worker saw at its first check -/

/-- **A batch and the fence**: where it lies is decided by whether a revocation has begun
since the first consent check of the delivery. -/
structure Looked (c : Custody) : Prop where
  le : ∀ seen, c.stage.seen = some seen → seen ≤ c.history.revocations
  bound : ∀ x ∈ c.stage.batch, x.ordinal ≤ c.ordinal
  same : c.stage.seen = some c.history.revocations →
    (∀ r ∈ c.rows, c.history.fence ≤ r.ordinal) ∧ ∀ x ∈ c.stage.batch, c.history.fence ≤ x.ordinal
  later : ∀ seen, c.stage.seen = some seen → seen < c.history.revocations →
    (∀ r ∈ c.rows, r.ordinal < c.history.fence) ∧ ∀ x ∈ c.stage.batch, x.ordinal < c.history.fence

/-- A delivery that is under way was so before, or has just made its first check. -/
theorem Step.seen_cases (hs : Step env c c') {seen : Nat} (h : c'.stage.seen = some seen) :
    (c.stage.seen = some seen ∧ ∀ r ∈ c'.rows, r ∈ c.rows) ∨
      (c.consent = .granted ∧ seen = c.history.revocations ∧ c'.rows = c.rows ∧
        c'.stage.batch = []) := by
  have hrows : c'.stage ≠ .idle → ∀ r ∈ c'.rows, r ∈ c.rows := fun hne =>
    hs.rows_cases.resolve_right fun ⟨_, _, _, hidle, _⟩ => hne hidle
  have hidle : c'.stage ≠ .idle := by
    intro hi
    simp [hi, Stage.seen] at h
  cases hs with
  | look _ hc => exact Or.inr ⟨hc, (Option.some.inj h).symm, rfl, rfl⟩
  | fetch hst =>
    exact Or.inl ⟨by rw [hst, Stage.eq_of_offered_seen h]; rfl, hrows hidle⟩
  | readAgain hst => exact Or.inl ⟨by rw [hst]; exact h, hrows hidle⟩
  | drain | takeNothing | takeRetry | read | refuse | stale | drop | keep | keptNothing | guard
  | refuseKept | pass | commit | insertFailed | hold | send | notSent | sent | notAcknowledged
  | acknowledge | refuseDelivery | outdated | purge | notPurged | reset | raise =>
    exact absurd h nofun
  | _ => exact Or.inl ⟨h, hrows hidle⟩

/-- Where the batch of a delivery comes from: it was there before, and the store has not
changed unless by a purge; or it was read from the first rows of the store, and no usable
row has left. -/
theorem Step.batch_cases (hs : Step env c c') :
    c'.stage.batch = [] ∨
      (c'.stage.batch = c.stage.batch ∧ (c'.rows = c.rows ∨ c'.rows = [])) ∨
      ∃ read, read <+: c.store.view.events.ordered ∧
        c'.stage.batch = (read.filter (Row.usable env.isValidJson)).map Row.serialized ∧
        c'.ordinal = c.ordinal ∧ (∀ r ∈ c'.rows, r ∈ c.rows) ∧
        ∀ r ∈ c.rows, r.usable env.isValidJson = true → r ∈ c'.rows := by
  cases hs with
  | @fetch seen n db read hst hd hread hdb hsaved =>
    refine Or.inr (Or.inr ⟨read, hread, by simp, rfl, ?_, ?_⟩)
    · exact (Step.fetch hst hd hread hdb hsaved).rows_cases.resolve_right
        fun ⟨_, _, hcom, _⟩ => by simp [hst] at hcom
    · intro r hr hu
      rcases hdb with ⟨rfl, -⟩ | ⟨hev, -, -⟩
      · exact hr
      · simp only [rows, Database.rows, hev, Events.mem_withoutRows, List.mem_filter]
        exact ⟨hr, fun hbad => by simp [hu] at hbad⟩
  | readAgain hst | send hst | sent hst =>
    exact Or.inr (Or.inl ⟨by rw [hst]; rfl, Or.inl rfl⟩)
  | mark _ _ hev =>
    exact Or.inr (Or.inl ⟨rfl, Or.inl (by simp only [rows, Database.rows, hev])⟩)
  | purgeAll _ _ hv =>
    exact Or.inr (Or.inl ⟨rfl, Or.inr (by simp only [rows, Database.rows, hv, Events.empty_rows])⟩)
  | drain | takeNothing | takeRetry | read | refuse | stale | drop | keep | keptNothing | guard
  | refuseKept | pass | commit | insertFailed | hold | look | notSent | notAcknowledged
  | acknowledge | refuseDelivery | outdated | purge | notPurged | reset | raise => exact Or.inl rfl
  | _ => exact Or.inr (Or.inl ⟨rfl, Or.inl rfl⟩)

/-- Every event of a batch that was just read is in the store. -/
theorem mem_batch_of_read {read : List Row} (hread : read <+: c.store.view.events.ordered)
    {x : SerializedEvent}
    (hx : x ∈ (read.filter (Row.usable env.isValidJson)).map Row.serialized) :
    ∃ r ∈ c.rows, r ∈ read ∧ r.usable env.isValidJson = true ∧ r.serialized = x := by
  obtain ⟨r, hr, rfl⟩ := List.mem_map.mp hx
  obtain ⟨hr, hu⟩ := List.mem_filter.mp hr
  exact ⟨r, Events.mem_ordered.mp (hread.subset hr), hr, hu, rfl⟩

/-- An event of a batch was in it before, or has just been read. -/
theorem Step.mem_batch (hs : Step env c c') {x : SerializedEvent} (hx : x ∈ c'.stage.batch) :
    x ∈ c.stage.batch ∨ ∃ r ∈ c.rows, r.ordinal = x.ordinal := by
  rcases hs.batch_cases with hnil | ⟨hb, -⟩ | ⟨read, hread, hb, -⟩
  · simp [hnil] at hx
  · exact Or.inl (hb ▸ hx)
  · obtain ⟨r, hr, -, -, rfl⟩ := mem_batch_of_read hread (hb ▸ hx)
    exact Or.inr ⟨r, hr, rfl⟩

theorem looked_step (hi : Looked c) (hr : Reachable env c) (hs : Step env c c') : Looked c' := by
  have ho := ordered_of_reachable hr
  have hf := fenced_of_reachable hr
  have hbound : ∀ x ∈ c'.stage.batch, x.ordinal ≤ c'.ordinal := fun x hx => by
    refine Nat.le_trans ?_ (hs.ordinal_le ho.retry)
    rcases hs.mem_batch hx with hx | ⟨r, hr, heq⟩
    · exact hi.bound x hx
    · exact heq ▸ (ho.rows r hr).1
  have hmem : ∀ (p : Nat → Prop), (∀ r ∈ c.rows, p r.ordinal) → (∀ x ∈ c.stage.batch, p x.ordinal) →
      ∀ x ∈ c'.stage.batch, p x.ordinal := fun p hrows hbatch x hx => by
    rcases hs.mem_batch hx with hx | ⟨r, hr, heq⟩
    · exact hbatch x hx
    · exact heq ▸ hrows r hr
  rcases hs.consent_cases (gated_of_reachable hr) with hq | ⟨hk, -, hfence, hrev, -⟩ |
    ⟨hk, -, hfence, hrev, -⟩ | ⟨hk, -, hfence, hrev, -⟩
  · refine ⟨fun seen h => ?_, hbound, fun h => ?_, fun seen h hlt => ?_⟩
    · rw [hq.revocations]
      rcases hs.seen_cases h with ⟨h, -⟩ | ⟨-, rfl, -⟩
      · exact hi.le seen h
      · exact Nat.le_refl _
    · rw [hq.revocations] at h
      rw [hq.fence]
      rcases hs.seen_cases h with ⟨h, hsub⟩ | ⟨hc, -, hrows, hb⟩
      · obtain ⟨h₁, h₂⟩ := hi.same h
        exact ⟨fun r hr => h₁ r (hsub r hr), hmem _ h₁ h₂⟩
      · rw [hrows, hb]
        exact ⟨(cleared_of_granted hr hc).rows, by simp⟩
    · rw [hq.revocations] at hlt
      rw [hq.fence]
      rcases hs.seen_cases h with ⟨h, hsub⟩ | ⟨-, rfl, -⟩
      · obtain ⟨h₁, h₂⟩ := hi.later seen h hlt
        exact ⟨fun r hr => h₁ r (hsub r hr), hmem (· < c.history.fence) h₁ h₂⟩
      · exact absurd hlt (Nat.lt_irrefl _)
  · -- a revocation begins: everything read so far falls below the new fence
    refine ⟨fun seen h => ?_, hbound, fun h => ?_,
      fun seen h hlt => ⟨fun r hr => ?_, fun x hx => ?_⟩⟩
    · rw [hk.stage] at h
      rw [hrev]
      exact Nat.le_succ_of_le (hi.le seen h)
    · rw [hk.stage, hrev] at h
      exact absurd (hi.le _ h) (Nat.not_succ_le_self _)
    · rw [rows, hk.store] at hr
      rw [hfence]
      exact Nat.lt_succ_of_le (ho.rows r hr).1
    · rw [hfence, ← hk.ordinal]
      exact Nat.lt_succ_of_le (hbound x hx)
  all_goals
    have hrows : c'.rows = c.rows := by rw [rows, hk.store, rows]
    refine ⟨?_, hbound, ?_, ?_⟩
    · rw [hk.stage, hrev]
      exact hi.le
    · rw [hk.stage, hrev, hfence, hrows]
      exact hi.same
    · rw [hk.stage, hrev, hfence, hrows]
      exact hi.later

theorem looked_of_reachable (h : Reachable env c) : Looked c :=
  Lts.Reachable.rule
    (fun _ hs => ⟨by simp [hs.stage, Stage.seen], by simp [hs.stage, Stage.batch],
      by simp [hs.stage, Stage.seen], by simp [hs.stage, Stage.seen]⟩)
    (fun _ _ hr hi hs => looked_step hi hr hs) h

/-- A fetched batch is not empty. -/
theorem fetched_nonempty (h : Reachable env c) :
    ∀ seen v b, c.stage = .fetched seen v b → b ≠ [] := by
  refine Lts.Reachable.rule (P := fun c => ∀ seen v b, c.stage = .fetched seen v b → b ≠ [])
    (fun c hs seen v b hst => by simp [hs.stage] at hst) (fun c c' _ hi hm seen v b hst => ?_) h
  cases hm with
  | fetch =>
    rcases Stage.offered_cases _ _ with ⟨-, ho⟩ | ⟨hne, ho⟩
    · exact absurd (ho.symm.trans hst) nofun
    · obtain ⟨-, -, rfl⟩ := Stage.fetched.inj (ho.symm.trans hst)
      exact hne
  | readAgain hst' =>
    obtain ⟨-, -, rfl⟩ := Stage.fetched.inj hst
    exact hi _ _ _ hst'
  | drain | takeNothing | takeRetry | read | refuse | stale | drop | keep | keptNothing | guard
  | refuseKept | pass | commit | insertFailed | hold | look | send | notSent | sent
  | notAcknowledged | acknowledge | refuseDelivery | outdated | purge | notPurged | reset
  | raise => exact absurd hst nofun
  | _ => exact hi seen v b hst

/-! ### The batch and the store -/

/-- **A batch and the store**: the rows of the batch are still there unless a purge has
emptied the store, and every usable row in front of it is part of it. -/
structure Batched (env : Env) (c : Custody) : Prop where
  held : c.rows = [] ∨
    ∀ x ∈ c.stage.batch, ∃ r ∈ c.rows, r.usable env.isValidJson = true ∧ r.serialized = x
  prior : ∀ x ∈ c.stage.batch, ∀ r ∈ c.rows, r.usable env.isValidJson = true →
    r.ordinal < x.ordinal → r.serialized ∈ c.stage.batch
  ids : (c.stage.batch.map SerializedEvent.eventId).Nodup
  sorted : c.stage.batch.Pairwise fun x y => x.ordinal ≤ y.ordinal

theorem ordered_pairwise (t : Events) : t.ordered.Pairwise fun a b => a.ordinal ≤ b.ordinal :=
  List.pairwise_insertionSort _ _

/-- The identifiers of distinct usable rows are distinct. -/
theorem usable_ids_nodup {l : List Row} (h : (l.filterMap Row.eventId).Nodup) :
    (((l.filter (Row.usable env.isValidJson)).map Row.serialized).map
      SerializedEvent.eventId).Nodup := by
  induction l with
  | nil => simp
  | cons r l ih =>
    have hl : (l.filterMap Row.eventId).Nodup :=
      h.sublist ((List.sublist_cons_self r l).filterMap _)
    by_cases hu : r.usable env.isValidJson = true
    · have hid := Row.eventId_of_usable hu
      rw [List.filterMap_cons_some hid, List.nodup_cons] at h
      rw [List.filter_cons_of_pos hu, List.map_cons, List.map_cons, List.nodup_cons]
      refine ⟨fun hmem => ?_, ih hl⟩
      simp only [List.map_map, List.mem_map, List.mem_filter, Function.comp_apply] at hmem
      obtain ⟨r', ⟨hr', hu'⟩, heq⟩ := hmem
      exact h.1 (List.mem_filterMap.mpr ⟨r', hr', heq ▸ Row.eventId_of_usable hu'⟩)
    · rw [List.filter_cons_of_neg hu]
      exact ih hl

/-- In a sorted list, what is before a member of an initial segment is in the segment. -/
theorem mem_of_before {l read : List Row} (hsort : l.Pairwise fun a b => a.ordinal ≤ b.ordinal)
    (hread : read <+: l) {r r' : Row} (hr : r ∈ l) (hr' : r' ∈ read)
    (hlt : r.ordinal < r'.ordinal) : r ∈ read := by
  obtain ⟨rest, rfl⟩ := hread
  rcases List.mem_append.mp hr with hr | hr
  · exact hr
  · exact absurd ((List.pairwise_append.mp hsort).2.2 r' hr' r hr) (by omega)

theorem Batched.of_nil (h : c.stage.batch = []) : Batched env c :=
  ⟨by simp [h], by simp [h], by simp [h], by simp [h]⟩

theorem batched_step (hi : Batched env c) (hs : Step env c c') : Batched env c' := by
  rcases hs.batch_cases with hnil | ⟨hb, hrows⟩ | ⟨read, hread, hb, -, hsub, hkeep⟩
  · exact .of_nil hnil
  · rcases hrows with hrows | hrows
    · exact ⟨by rw [hb, hrows]; exact hi.held, by rw [hb, hrows]; exact hi.prior,
        hb ▸ hi.ids, hb ▸ hi.sorted⟩
    · exact ⟨Or.inl hrows, by simp [hrows], hb ▸ hi.ids, hb ▸ hi.sorted⟩
  · -- a batch was read: the usable rows of an initial segment of the sorted table
    have hsort := ordered_pairwise c.store.view.events
    refine ⟨Or.inr fun x hx => ?_, fun x hx r hr hu hlt => ?_, ?_, ?_⟩
    · obtain ⟨r, hr, -, hu, rfl⟩ := mem_batch_of_read hread (hb ▸ hx)
      exact ⟨r, hkeep r hr hu, hu, rfl⟩
    · obtain ⟨r', -, hr', -, rfl⟩ := mem_batch_of_read hread (hb ▸ hx)
      rw [hb]
      refine List.mem_map_of_mem (List.mem_filter.mpr ⟨?_, hu⟩)
      exact mem_of_before hsort hread (Events.mem_ordered.mpr (hsub r hr)) hr' hlt
    · rw [hb]
      refine usable_ids_nodup ?_
      refine List.Nodup.sublist (hread.sublist.filterMap _) ?_
      exact (c.store.view.events.ordered_perm.filterMap _).nodup_iff.mpr
        c.store.view.events.id_nodup
    · rw [hb, List.pairwise_map]
      exact (hsort.sublist (List.filter_sublist.trans hread.sublist)).imp id

theorem batched_of_reachable (h : Reachable env c) : Batched env c :=
  Lts.Reachable.rule (fun _ hs => .of_nil (congrArg Stage.batch hs.stage))
    (fun _ _ _ hi hs => batched_step hi hs) h

end Custody

end PlayerTrace
