import PlayerTrace.Custody.Ledger

/-!
# The pipeline is in admission order

`PlayerTrace.Custody.Ordered` compares ordinals. Here the same is said without them, of the
events themselves: what is in the containers, from the oldest row of the store to the end
of the queue, is a sublist of everything known, in the order in which it was recovered and
admitted (`PlayerTrace.Custody.Sequenced`). Every move takes events out of this list, moves
the boundary between two containers, or admits one at its end.

The table itself is in ordinal order if it was so at the start
(`PlayerTrace.Custody.sorted_step`), so that `ORDER BY ordinal` reads it as it was written.
-/

namespace PlayerTrace

namespace Custody

variable {env : Env} {c c' : Custody}

/-- No transaction is open between two moves. -/
theorem saved_of_reachable (h : Reachable env c) : c.store.saved = none := by
  refine Lts.Reachable.rule (P := fun c => c.store.saved = none) (fun c hs => hs.saved)
    (fun c c' _ hi hs => ?_) h
  cases hs with
  | commit _ _ _ hsaved | fetch _ _ _ _ hsaved | acknowledge _ _ _ _ _ hsaved
  | purge _ _ _ hsaved | mark _ _ _ _ hsaved | purgeAll _ _ _ hsaved => exact hsaved.trans hi
  | _ => exact hi

/-! ### The containers as one list -/

/-- The events on their way to the store, oldest first. -/
def way (c : Custody) : List QueuedEvent := c.retry ++ c.stage.hands ++ c.queue

/-- What the containers hold, oldest first. -/
def pipe (c : Custody) : List Item :=
  c.rows.map Row.item ++ (c.retry ++ c.stage.hands ++ c.queue).map QueuedEvent.item

theorem pipe_eq (c : Custody) :
    c.pipe = c.rows.map Row.item ++ c.way.map QueuedEvent.item := rfl

/-- **A move takes events off their way**, or admits one at the end. -/
theorem Step.way_cases (hs : Step env c c') (hretry : c.stage.holds = true → c.retry = []) :
    (c'.way.Sublist c.way ∧ c'.history.accepted = c.history.accepted) ∨
      ∃ a : Admitted, c'.way = c.way ++ [a.qe] ∧ c'.rows = c.rows ∧
        c'.history.accepted = c.history.accepted ++ [a] := by
  cases hs with
  | @push e origin h => exact Or.inr ⟨⟨e, origin⟩, by simp [way], rfl, rfl⟩
  | hold h =>
    refine Or.inl ⟨?_, rfl⟩
    simp [way, h, Stage.hands, hretry (by rw [h]; rfl)]
  | refuseKept hd h =>
    refine Or.inl ⟨?_, rfl⟩
    rcases h with ⟨h, -⟩ | ⟨h, -⟩ <;> simp [way, h, Stage.hands]
  | refuseDelivery | raise | clear | discardRetry => exact Or.inl ⟨by simp [way, Stage.hands], rfl⟩
  | fetch h =>
    refine Or.inl ⟨?_, rfl⟩
    rw [way, Stage.offered_hands, way, h]
    exact List.Sublist.refl _
  | drain _ h | takeNothing h | takeRetry h | refuse h | stale h | drop h | keep _ h | read h
  | keptNothing h | guard h | pass h | commit h | insertFailed h | look h | readAgain h | send h
  | notSent h | sent h | acknowledge h | notAcknowledged h | outdated h | purge h | notPurged h
  | reset h =>
    refine Or.inl ⟨?_, rfl⟩
    simp [way, h, Stage.hands]
  | _ => exact Or.inl ⟨List.Sublist.refl _, rfl⟩

/-- A move takes rows out of the table, or an insertion moves the kept events to its end. -/
theorem Step.rows_sublist (hs : Step env c c') (hr : Reachable env c) :
    c'.rows.Sublist c.rows ∨ ∃ v k new, c.stage = .committing v k ∧ c'.rows = c.rows ++ new ∧
      new.map Row.item = (k.map Kept.qe).map QueuedEvent.item ∧ c'.way = c.retry ++ c.queue := by
  cases hs with
  | @commit v k db h hev =>
    obtain ⟨new, hrows, hnew⟩ :=
      insertAll_rows_of_committing (conserved_of_reachable hr) (named_of_reachable hr) h
    exact Or.inr ⟨v, k, new, h, by rw [rows, Database.rows, hev, hrows], hnew,
      by simp [way, Stage.hands]⟩
  | fetch h hd hread hdb =>
    refine Or.inl ?_
    rcases hdb with ⟨rfl, -⟩ | ⟨hev, -⟩
    · exact List.Sublist.refl _
    · simp only [rows, Database.rows, hev]
      exact List.filter_sublist
  | acknowledge h hd hev =>
    refine Or.inl ?_
    simp only [rows, Database.rows, hev]
    exact List.filter_sublist
  | purge _ _ hv | purgeAll _ _ hv => exact Or.inl (by simp [rows, Database.rows, hv])
  | mark h hl hev =>
    refine Or.inl ?_
    simp only [rows, Database.rows, hev]
    exact List.Sublist.refl _
  | _ => exact Or.inl (List.Sublist.refl _)

/-- **A move takes events out of the containers**, hands them on, or admits one at the end. -/
theorem Step.pipe_cases (hs : Step env c c') (hr : Reachable env c) :
    (c'.pipe.Sublist c.pipe ∧ c'.history.accepted = c.history.accepted) ∨
      ∃ a : Admitted, c'.pipe = c.pipe ++ [a.qe.item] ∧
        c'.history.accepted = c.history.accepted ++ [a] := by
  have hretry := (ordered_of_reachable hr).retry
  simp only [pipe_eq]
  rcases hs.way_cases hretry with ⟨hway, hacc⟩ | ⟨a, hway, hrows, hacc⟩
  · refine Or.inl ⟨?_, hacc⟩
    rcases hs.rows_sublist hr with hrows | ⟨v, k, new, hst, hrows, hnew, hway⟩
    · exact (hrows.map _).append (hway.map _)
    · -- the kept events are the first on their way, and become the last rows
      have hkept : c.way = k.map Kept.qe ++ c.queue := by
        rw [way, hst, hretry (by rw [hst]; rfl)]
        rfl
      rw [hrows, hway, hkept, hretry (by rw [hst]; rfl), List.nil_append, List.map_append, hnew,
        List.map_append, List.append_assoc]
  · exact Or.inr ⟨a, by rw [hrows, hway, List.map_append, List.append_assoc]; rfl, hacc⟩

/-- What is on its way was admitted. -/
theorem accepted_of_way (h : Reachable env c) :
    ∀ e ∈ c.way, ∃ a ∈ c.history.accepted, a.qe = e := by
  refine Lts.Reachable.rule (P := fun c => ∀ e ∈ c.way, ∃ a ∈ c.history.accepted, a.qe = e)
    (fun c hs e he => ?_) (fun c c' hr hi hs e he => ?_) h
  · simp [way, hs.queue, hs.retry, hs.stage, Stage.hands] at he
  · rcases hs.way_cases (ordered_of_reachable hr).retry with ⟨hway, hacc⟩ | ⟨a, hway, -, hacc⟩
    · rw [hacc]
      exact hi e (hway.subset he)
    · rw [hway] at he
      rw [hacc]
      rcases List.mem_append.mp he with he | he
      · obtain ⟨b, hb, hbe⟩ := hi e he
        exact ⟨b, List.mem_append_left _ hb, hbe⟩
      · exact ⟨a, List.mem_append_right _ (List.mem_singleton_self a),
          (List.mem_singleton.mp he).symm⟩

/-- **The pipeline is in admission order.** -/
def Sequenced (c : Custody) : Prop := c.pipe.Sublist c.known

theorem sequenced_of_reachable (h : Reachable env c) : Sequenced c := by
  refine Lts.Reachable.rule (fun c hs => ?_) (fun c c' hr hi hs => ?_) h
  · obtain ⟨earlier, hhist⟩ := hs.history
    simp [Sequenced, pipe, known, hs.queue, hs.retry, hs.stage, Stage.hands, hhist]
  · have hrec := hs.born_cases.1
    rcases hs.pipe_cases hr with ⟨hsub, hacc⟩ | ⟨a, hpipe, hacc⟩
    · rw [Sequenced, known, hrec, hacc]
      exact hsub.trans hi
    · rw [Sequenced, known, hrec, hacc, hpipe, List.map_append, ← List.append_assoc]
      exact hi.append (List.Sublist.refl _)

/-! ### The table in ordinal order -/

/-- The table is in ordinal order. -/
def Sorted (c : Custody) : Prop := c.rows.Pairwise fun a b => a.ordinal < b.ordinal

theorem sorted_step (hi : Sorted c) (hr : Reachable env c) (hs : Step env c c') : Sorted c' := by
  rcases hs.rows_sublist hr with hsub | ⟨v, k, new, hst, hrows, hnew, -⟩
  · exact hi.sublist hsub
  · have ho := ordered_of_reachable hr
    have hhands : c.stage.hands = k.map Kept.qe := by rw [hst]; rfl
    have hords : new.map Row.ordinal = (k.map Kept.qe).map QueuedEvent.ordinal := by
      have := congrArg (List.map Item.ordinal) hnew
      rwa [List.map_map, List.map_map] at this
    rw [Sorted, hrows, List.pairwise_append]
    refine ⟨hi, ?_, fun a ha b hb => ?_⟩
    · rw [← List.pairwise_map (f := Row.ordinal) (R := (· < ·)), hords, List.pairwise_map, ← hhands]
      refine ho.line.sublist ?_
      exact ((List.sublist_append_right _ _).trans (List.sublist_append_left _ _)).trans
        (List.sublist_append_left _ _)
    · have hmem : b.ordinal ∈ (k.map Kept.qe).map QueuedEvent.ordinal :=
        hords ▸ List.mem_map_of_mem hb
      obtain ⟨e, he, heq⟩ := List.mem_map.mp hmem
      rw [← heq]
      exact (ho.rows a ha).2 e (mem_line_of_hands (hhands ▸ he))

/-! ### Delivery in admission order -/

/-- Two members of a list, the first of which cannot come later, are in this order in it. -/
theorem pair_sublist {α : Type*} {R : α → α → Prop} {l : List α} {x y : α} (h : l.Pairwise R)
    (hx : x ∈ l) (hy : y ∈ l) (hne : x ≠ y) (hnot : ¬R y x) : [x, y].Sublist l := by
  induction l with
  | nil => exact absurd hx nofun
  | cons z l ih =>
    obtain ⟨hz, hl⟩ := List.pairwise_cons.mp h
    rcases List.mem_cons.mp hx with rfl | hx'
    · have hy' : y ∈ l := (List.mem_cons.mp hy).resolve_left (Ne.symm hne)
      exact (List.singleton_sublist.mpr hy').cons_cons x
    · rcases List.mem_cons.mp hy with rfl | hy'
      · exact absurd (hz x hx') hnot
      · exact (ih hl hx' hy').cons z

/-- What is known only grows at its end. -/
theorem Step.known_sublist (hs : Step env c c') (hr : Reachable env c) :
    c.known.Sublist c'.known := by
  rw [known, known, hs.born_cases.1]
  rcases hs.pipe_cases hr with ⟨-, hacc⟩ | ⟨a, -, hacc⟩
  · rw [hacc]
  · rw [hacc, List.map_append, ← List.append_assoc]
    exact List.sublist_append_left _ _

end Custody

/-- The identity of an event handed to the sink. -/
def SerializedEvent.item (x : SerializedEvent) : Item := ⟨some x.eventId, x.ordinal⟩

theorem Row.serialized_item {isValidJson : String → Bool} {r : Row}
    (h : r.usable isValidJson = true) : r.serialized.item = r.item := by
  rw [SerializedEvent.item, Row.item, Row.eventId_of_usable h]
  rfl

namespace Custody

/-- **A batch is in admission order.** -/
def InOrder (c : Custody) : Prop := (c.stage.batch.map SerializedEvent.item).Sublist c.known

theorem inOrder_step (hi : InOrder c) (hsort : Sorted c) (hr : Reachable env c)
    (hs : Step env c c') : InOrder c' := by
  refine List.Sublist.trans ?_ (hs.known_sublist hr)
  rcases hs.batch_cases with hnil | ⟨hb, -⟩ | ⟨read, hread, hb, -⟩
  · simp [hnil]
  · rw [hb]
    exact hi
  · -- the table is read in the order in which it was written
    rw [Events.ordered_eq hsort] at hread
    have hitems : c'.stage.batch.map SerializedEvent.item =
        (read.filter (Row.usable env.isValidJson)).map Row.item := by
      rw [hb, List.map_map]
      refine List.map_congr_left fun r hmem => ?_
      exact Row.serialized_item (List.mem_filter.mp hmem).2
    rw [hitems]
    have hrows : (c.rows.map Row.item).Sublist c.pipe := List.sublist_append_left _ _
    exact (((List.filter_sublist.trans hread.sublist).map _).trans hrows).trans
      (sequenced_of_reachable hr)

/-- **What is acknowledged came before everything that stays**, but for rows that cannot be
delivered. -/
theorem Step.acked_before (hs : Step env c c') (hr : Reachable env c) (hsort : Sorted c) {x : Item}
    (hx : x ∈ c'.history.acked) (hnew : x ∉ c.history.acked) :
    (∀ e ∈ c'.retry ++ c'.stage.hands ++ c'.queue, [x, e.item].Sublist c'.known) ∧
      ∀ r ∈ c'.rows, r.usable env.isValidJson = true → [x, r.item].Sublist c'.known := by
  have hseq := sequenced_of_reachable hr
  cases hs with
  | @acknowledge b db n h hd hev =>
    obtain ⟨hheld, hprior, -, -⟩ := batched_of_reachable hr
    rw [h] at hheld hprior
    obtain ⟨r₀, hr₀, rfl⟩ := List.mem_map.mp ((List.mem_append.mp hx).resolve_left hnew)
    obtain ⟨hmem₀, hgone⟩ := List.mem_filter.mp hr₀
    have hnot₀ : r₀ ∉ db.rows := of_decide_eq_true hgone
    obtain ⟨w, hw, hid₀⟩ : ∃ w ∈ b, r₀.eventId = some w.eventId := by
      have hnot := hnot₀
      simp only [Database.rows, hev, Events.mem_without, not_and, not_forall, not_not] at hnot
      obtain ⟨id, hid, heq⟩ := hnot hmem₀
      obtain ⟨w, hw, rfl⟩ := List.mem_map.mp hid
      exact ⟨w, hw, heq⟩
    have hrow₀ : ([r₀.item] : List Item).Sublist (c.rows.map Row.item) :=
      List.singleton_sublist.mpr (List.mem_map_of_mem hmem₀)
    refine ⟨fun e he => ?_, fun r hmem hu => ?_⟩
    · have he' : e ∈ c.retry ++ c.stage.hands ++ c.queue := by
        rw [h]
        exact he
      refine List.Sublist.trans ?_ hseq
      exact hrow₀.append (List.singleton_sublist.mpr (List.mem_map_of_mem he'))
    · have hmem' : r ∈ c.rows ∧ ∀ id ∈ b.map SerializedEvent.eventId, r.eventId ≠ some id := by
        simp only [rows, Database.rows, hev] at hmem
        exact Events.mem_without.mp hmem
      -- the row the batch element was read from
      obtain ⟨r₁, hmem₁, hu₁, hser⟩ := (hheld.resolve_left (List.ne_nil_of_mem hmem₀)) w hw
      have hid₁ : r₁.eventId = some w.eventId := hser ▸ Row.eventId_of_usable hu₁
      obtain rfl := Events.eq_of_eventId hmem₀ hmem₁ hid₀ hid₁
      have hord : w.ordinal = r₀.ordinal := by rw [← hser]; rfl
      have hafter : ¬r.ordinal < r₀.ordinal := fun hlt => by
        have hin := hprior w hw r hmem'.1 hu (hord ▸ hlt)
        exact hmem'.2 _ (List.mem_map_of_mem hin) (Row.eventId_of_usable hu)
      have hne : r₀ ≠ r := fun heq => hnot₀ (heq ▸ hmem)
      have hpair := (pair_sublist hsort hmem₀ hmem'.1 hne hafter).map Row.item
      exact (hpair.trans (List.sublist_append_left _ _)).trans hseq
  | _ => exact absurd hx hnew

end Custody

end PlayerTrace
