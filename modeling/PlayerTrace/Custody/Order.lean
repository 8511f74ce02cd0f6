import PlayerTrace.Custody.Machine

/-!
# Custody keeps admission order

Every container is in admission order, and the containers themselves are: what is in the
store was admitted before what waits for a retry, that before what the worker has just
drained, that before the queue. The whole of it is one statement about one list,
`PlayerTrace.Custody.line`: it is strictly increasing, and every stored ordinal is below
all of it. The failure paths are where this could break – events held back after a failed
insertion go in front of the buffer again – and it does not because the buffer is empty
whenever the worker holds a batch.
-/

namespace PlayerTrace

namespace Custody

variable {env : Env} {c c' : Custody}

/-- **Admission order across the containers.** -/
structure Ordered (c : Custody) : Prop where
  /-- What is on its way is in admission order. -/
  line : c.line.Pairwise fun x y => x.ordinal < y.ordinal
  /-- Its ordinals have been given out. -/
  bound : ∀ e ∈ c.line, 0 < e.ordinal ∧ e.ordinal ≤ c.ordinal
  /-- What is stored came before. -/
  rows : ∀ r ∈ c.rows, r.ordinal ≤ c.ordinal ∧ ∀ e ∈ c.line, r.ordinal < e.ordinal
  /-- A batch in hand has emptied the retry buffer. -/
  retry : c.stage.holds = true → c.retry = []

/-- Order survives whenever events and rows only go. -/
theorem Ordered.shrink (h : Ordered c) (hline : c'.line.Sublist c.line)
    (hrows : ∀ r ∈ c'.rows, r ∈ c.rows) (hord : c'.ordinal = c.ordinal)
    (hretry : c'.stage.holds = true → c'.retry = []) : Ordered c' where
  line := h.line.sublist hline
  bound e he := hord ▸ h.bound e (hline.subset he)
  rows r hr := by
    obtain ⟨hle, hlt⟩ := h.rows r (hrows r hr)
    exact ⟨hord ▸ hle, fun e he => hlt e (hline.subset he)⟩
  retry := hretry

theorem ordered_start (h : Start env c) : Ordered c := by
  have hline : c.line = [] := by
    simp [Custody.line, h.queue, h.retry, h.stage, h.entry, Stage.hands, Entry.events]
  refine ⟨by simp [hline], by simp [hline], fun r hr => ⟨h.ordinal r hr, by simp [hline]⟩, ?_⟩
  simp [h.retry]

/-! ### What a move does to the containers -/

/-- The retry buffer stays empty as long as a batch is in hand. -/
theorem Step.retry_nil (hs : Step env c c') (hi : c.stage.holds = true → c.retry = []) :
    c'.stage.holds = true → c'.retry = [] := by
  cases hs with
  | takeNothing | takeRetry | discardRetry => exact fun _ => rfl
  | read h | stale h | drop h | keep _ h | guard h | pass h | insertFailed h =>
    exact fun _ => hi (by rw [h]; rfl)
  | drain | refuse | keptNothing | refuseKept | commit | hold | look | readAgain | send | notSent
  | sent | notAcknowledged | acknowledge | refuseDelivery | outdated | purge | notPurged | reset
  | raise => exact nofun
  | fetch => exact fun hh => absurd hh (by simp)
  | _ => exact hi

/-- A move only takes rows out of the store, except that an insertion adds to it. -/
theorem Step.rows_cases (hs : Step env c c') :
    (∀ r ∈ c'.rows, r ∈ c.rows) ∨
      ∃ v k, c.stage = .committing v k ∧ c'.stage = .idle ∧
        c'.store.view.events = c.store.view.events.insertAll (k.map Kept.record) ∧
        c'.ordinal = c.ordinal ∧ c'.line = c.retry ++ c.queue ++ c.entry.events := by
  cases hs with
  | commit h hev hm =>
    exact Or.inr ⟨_, _, h, rfl, hev, rfl, by simp [line, Stage.hands]⟩
  | fetch h hd hread hdb =>
    refine Or.inl fun r hr => ?_
    rcases hdb with ⟨rfl, -⟩ | ⟨hev, -, -⟩
    · exact hr
    · simp only [rows, Database.rows, hev] at hr
      exact (Events.mem_withoutRows.mp hr).1
  | acknowledge h hd hev hm hn =>
    refine Or.inl fun r hr => ?_
    simp only [rows, Database.rows, hev] at hr
    exact (Events.mem_without.mp hr).1
  | purge h hd hv =>
    refine Or.inl fun r hr => ?_
    simp [rows, Database.rows, hv] at hr
  | purgeAll h hl hv =>
    refine Or.inl fun r hr => ?_
    simp [rows, Database.rows, hv] at hr
  | mark h hl hev hm =>
    refine Or.inl fun r hr => ?_
    simpa only [rows, Database.rows, hev] using hr
  | _ => exact Or.inl fun _ hr => hr

/-- A move only takes events off the line, except that an admission puts one at its end. -/
theorem Step.line_cases (hs : Step env c c') (hi : c.stage.holds = true → c.retry = []) :
    (c'.line.Sublist c.line ∧ c'.ordinal = c.ordinal) ∨
      ∃ e, c.entry = .checked ∧ c'.line = c.line ++ [e] ∧ e.ordinal = c.ordinal + 1 ∧
        c'.ordinal = c.ordinal + 1 ∧ e.consentGeneration = c.generation ∧
        0 < sqlLength e.event.eventId ∧ e.event.eventId ∉ c.history.used := by
  cases hs with
  | build h ho hg hid hfresh =>
    exact Or.inr ⟨_, h, by simp [line, h, Entry.events], ho, rfl, hg, hid, hfresh⟩
  | hold h =>
    refine Or.inl ⟨?_, rfl⟩
    have hr : c.retry = [] := hi (by rw [h]; rfl)
    simp [line, h, hr, Stage.hands]
  | refuseKept hd h =>
    rcases h with ⟨h, -⟩ | ⟨h, -⟩ <;> exact Or.inl ⟨by simp [line, h, Stage.hands], rfl⟩
  | fetch h => exact Or.inl ⟨by simp [line, h], rfl⟩
  | giveUp h =>
    rcases h with h | h <;> exact Or.inl ⟨by simp [line, h, Entry.events], rfl⟩
  | refuseDelivery h => exact Or.inl ⟨by simp [line, Stage.hands], rfl⟩
  | _ => exact Or.inl ⟨by simp [line, Stage.hands, Entry.events, *], rfl⟩

/-- What is being admitted was so before, or has just been given the next ordinal. -/
theorem Step.mem_entry (hs : Step env c c') {e : QueuedEvent} (he : e ∈ c'.entry.events) :
    e ∈ c.entry.events ∨ c.ordinal < e.ordinal := by
  cases hs with
  | build h ho =>
    obtain rfl := List.mem_singleton.mp he
    exact Or.inr (by omega)
  | reserve h => exact Or.inl (by rw [h]; exact he)
  | gate | check | giveUp | push | overflow | undo | countAccepted | revoke | unlock =>
    exact absurd he nofun
  | _ => exact Or.inl he

/-- What is in the queue was there before, or has just been pushed. -/
theorem Step.mem_queue (hs : Step env c c') {e : QueuedEvent} (he : e ∈ c'.queue) :
    e ∈ c.queue ∨ e ∈ c.entry.events := by
  cases hs with
  | drain n => exact Or.inl (List.mem_of_mem_drop he)
  | push _ h =>
    rw [h]
    exact List.mem_append.mp he
  | clear => exact absurd he nofun
  | _ => exact Or.inl he

/-- The retry buffer only grows by a batch that the worker holds. -/
theorem Step.mem_retry (hs : Step env c c') {e : QueuedEvent} (he : e ∈ c'.retry) :
    e ∈ c.retry ∨ c.stage.holds = true := by
  cases hs with
  | hold h => exact Or.inr (by rw [h]; rfl)
  | takeNothing | takeRetry | discardRetry => exact absurd he nofun
  | _ => exact Or.inl he

/-- A row an insertion adds holds one of the kept events. -/
theorem mem_insertAll {t : Events} {k : List Kept} {r : Row}
    (h : r ∈ (t.insertAll (k.map Kept.record)).rows) :
    r ∈ t.rows ∨ ∃ x ∈ k, r.item = x.qe.item := by
  obtain ⟨new, hrows, hsub⟩ := t.insertAll_rows (k.map Kept.record)
  rw [hrows, List.mem_append] at h
  refine h.imp id fun hnew => ?_
  have hmem := hsub.subset (List.mem_map_of_mem hnew)
  simp only [List.map_map, List.mem_map, Function.comp_apply] at hmem
  obtain ⟨x, hx, hitem⟩ := hmem
  exact ⟨x, hx, hitem.symm⟩

/-- Where a row after a move comes from. -/
theorem Step.mem_rows (hs : Step env c c') {r : Row} (hr : r ∈ c'.rows) :
    r ∈ c.rows ∨ ∃ v k, c.stage = .committing v k ∧ c'.stage = .idle ∧
      ∃ x ∈ k, r.item = x.qe.item := by
  rcases hs.rows_cases with h | ⟨v, k, hst, hst', hev, -, -⟩
  · exact Or.inl (h r hr)
  · simp only [rows, Database.rows, hev] at hr
    exact (mem_insertAll hr).imp id fun h => ⟨v, k, hst, hst', h⟩

/-- Where an event on the line after a move comes from. -/
theorem Step.mem_line (hs : Step env c c') (hi : c.stage.holds = true → c.retry = [])
    {e : QueuedEvent} (he : e ∈ c'.line) :
    e ∈ c.line ∨ (c.entry = .checked ∧ e.ordinal = c.ordinal + 1 ∧
      e.consentGeneration = c.generation ∧ 0 < sqlLength e.event.eventId ∧
      e.event.eventId ∉ c.history.used) := by
  rcases hs.line_cases hi with ⟨hline, -⟩ | ⟨x, hent, hline, ho, -, hg⟩
  · exact Or.inl (hline.subset he)
  · rw [hline, List.mem_append, List.mem_singleton] at he
    refine he.imp id fun h => ?_
    subst h
    exact ⟨hent, ho, hg⟩

theorem Step.ordinal_le (hs : Step env c c') (hi : c.stage.holds = true → c.retry = []) :
    c.ordinal ≤ c'.ordinal := by
  rcases hs.line_cases hi with ⟨-, h⟩ | ⟨-, -, -, -, h, -⟩ <;> omega

theorem ordered_step (hi : Ordered c) (hs : Step env c c') : Ordered c' := by
  have hretry := hs.retry_nil hi.retry
  rcases hs.rows_cases with hrows | ⟨v, k, hst, -, hev, hord, hline⟩
  · rcases hs.line_cases hi.retry with ⟨hline, hord⟩ | ⟨e, -, hline, ho, hord, -⟩
    · exact hi.shrink hline hrows hord hretry
    · refine ⟨?_, fun x hx => ?_, fun r hr => ?_, hretry⟩
      · rw [hline, List.pairwise_append]
        refine ⟨hi.line, List.pairwise_singleton _ _, fun x hx y hy => ?_⟩
        obtain rfl := List.mem_singleton.mp hy
        exact Nat.lt_of_le_of_lt (hi.bound x hx).2 (by omega)
      · rw [hline, List.mem_append, List.mem_singleton] at hx
        rcases hx with hx | rfl
        · exact ⟨(hi.bound x hx).1, Nat.le_trans (hi.bound x hx).2 (by omega)⟩
        · omega
      · obtain ⟨hle, hlt⟩ := hi.rows r (hrows r hr)
        refine ⟨by omega, fun x hx => ?_⟩
        rw [hline, List.mem_append, List.mem_singleton] at hx
        rcases hx with hx | rfl
        · exact hlt x hx
        · omega
  · -- an insertion: the kept events leave the front of the line for the store
    have hr : c.retry = [] := hi.retry (by rw [hst]; rfl)
    have hold : c.line = k.map Kept.qe ++ c'.line := by
      rw [hline]
      simp [line, hst, hr, Stage.hands]
    have hsplit := hi.line
    rw [hold, List.pairwise_append] at hsplit
    refine ⟨hsplit.2.1, fun x hx => hord ▸ hi.bound x (by simp [hold, hx]), fun r hr => ?_, hretry⟩
    simp only [rows, Database.rows, hev] at hr
    rcases mem_insertAll hr with hr | ⟨x, hx, hitem⟩
    · obtain ⟨hle, hlt⟩ := hi.rows r hr
      exact ⟨hord ▸ hle, fun e he => hlt e (by simp [hold, he])⟩
    · have heq : r.ordinal = x.qe.ordinal := congrArg Item.ordinal hitem
      have hmem : x.qe ∈ k.map Kept.qe := List.mem_map_of_mem hx
      rw [heq, hord]
      exact ⟨(hi.bound x.qe (by simp [hold, hmem])).2, fun e he => hsplit.2.2 _ hmem e he⟩

/-- **Custody is in admission order, whatever happened.** -/
theorem ordered_of_reachable (h : Reachable env c) : Ordered c :=
  Lts.Reachable.rule (fun _ => ordered_start) (fun _ _ _ => ordered_step) h

end Custody

end PlayerTrace
