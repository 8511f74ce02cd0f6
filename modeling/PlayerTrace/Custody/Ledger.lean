import PlayerTrace.Custody.Delivery

/-!
# The ledger of events

Nothing is lost and nothing is doubled: what was recovered and what was accepted is, event
by event, what the containers hold and what the history says has become of the rest
(`PlayerTrace.Custody.Conserved`, an equality of lists up to order). A hand-over moves an
event from one of these places to another in one move, so the proof is one equation of
counts per move. The only place where it could fail is the insertion, since
`INSERT OR IGNORE` skips a key that is already there; identifiers are fresh
(`PlayerTrace.Custody.Named`), so it never does.

The statistics follow the ledger with a delay, which `PlayerTrace.Custody.Counted` makes
explicit: an event whose fate is decided is either counted, or due.
-/

namespace PlayerTrace

/-- The rows that stayed and those that went are the rows there were. -/
theorem Database.gone_perm {db db' : Database} {p : Row → Bool}
    (h : db'.rows = db.rows.filter p) :
    (db'.rows.map Row.item ++ db.gone db').Perm (db.rows.map Row.item) := by
  have hgone : (db.rows.filter fun r => decide (r ∉ db'.rows)) = db.rows.filter fun r => !p r := by
    refine List.filter_congr fun r hr => ?_
    rw [h]
    cases hp : p r <;> simp [hp, hr]
  rw [Database.gone, hgone, h, ← List.map_append]
  exact (List.filter_append_perm p db.rows).map _

namespace Due

/-- What is due to be counted as discarded. -/
def discardedCount : Due → Nat
  | .discarded n => n
  | _ => 0

/-- What is due to be counted as dropped. -/
def droppedCount : Due → Nat
  | .dropped n => n
  | _ => 0

/-- What is due to be counted as delivered. -/
def deliveredCount : Due → Nat
  | .delivered n => n
  | _ => 0

end Due

/-- Discarded events that have not been counted. -/
def ConsentPc.uncounted : ConsentPc → Nat
  | .countCleared n | .countDiscarded n => n
  | _ => 0

/-- An accepted event that has not been counted. -/
def Entry.uncounted : Entry → Nat
  | .counting => 1
  | _ => 0

namespace Custody

variable {env : Env} {c c' : Custody}

/-! ### Identifiers -/

/-- The identifiers of the events admitted, and of the one that is being admitted. -/
def born (c : Custody) : List String :=
  (c.history.accepted.map fun a => a.qe.event.eventId) ++
    c.entry.events.map fun e => e.event.eventId

/-- All identifiers of events. -/
def names (c : Custody) : List String := c.history.recovered.filterMap Item.id ++ c.born

/-- **Identifiers are unique**, and those of the events on their way are usable. -/
structure Named (c : Custody) : Prop where
  nodup : c.names.Nodup
  used : ∀ id ∈ c.names, id ∈ c.history.used
  named : ∀ e ∈ c.line, 0 < sqlLength e.event.eventId

/-- A move adds no identifier, or one that was not in use. -/
theorem Step.born_cases (hs : Step env c c') :
    c'.history.recovered = c.history.recovered ∧
      ((c'.born.Sublist c.born ∧ ∀ id ∈ c.history.used, id ∈ c'.history.used) ∨
        ∃ id, c'.born = c.born ++ [id] ∧ id ∉ c.history.used ∧
          c'.history.used = id :: c.history.used) := by
  cases hs with
  | @identify id =>
    exact ⟨rfl, Or.inl ⟨List.Sublist.refl _, fun x hx => List.mem_cons_of_mem id hx⟩⟩
  | @build e hent ho hg hid hfresh =>
    exact ⟨rfl, Or.inr ⟨e.event.eventId, by simp [born, hent, Entry.events], hfresh, rfl⟩⟩
  | push _ hent | reserve hent | gate hent | check hent | overflow hent | undo hent
  | countAccepted hent | revoke _ hent =>
    exact ⟨rfl, Or.inl ⟨by simp [born, hent, Entry.events], fun _ hx => hx⟩⟩
  | giveUp | unlock =>
    exact ⟨rfl, Or.inl ⟨by simp [born, Entry.events], fun _ hx => hx⟩⟩
  | _ => exact ⟨rfl, Or.inl ⟨List.Sublist.refl _, fun _ hx => hx⟩⟩

theorem named_step (hi : Named c) (ho : Ordered c) (hs : Step env c c') : Named c' := by
  have hline : ∀ e ∈ c'.line, 0 < sqlLength e.event.eventId := fun e he => by
    rcases hs.mem_line ho.retry he with he | ⟨-, -, -, hid, -⟩
    · exact hi.named e he
    · exact hid
  obtain ⟨hrec, ⟨hsub, hused⟩ | ⟨id, hborn, hfresh, hused⟩⟩ := hs.born_cases
  · have hnames : c'.names.Sublist c.names := by
      rw [names, hrec]
      exact hsub.append_left _
    exact ⟨hi.nodup.sublist hnames, fun id hid => hused id (hi.used id (hnames.subset hid)), hline⟩
  · have hnames : c'.names = c.names ++ [id] := by
      rw [names, hrec, hborn, names, List.append_assoc]
    refine ⟨?_, fun x hx => ?_, hline⟩
    · rw [hnames]
      refine List.Nodup.append hi.nodup (List.nodup_singleton _) ?_
      rw [List.disjoint_singleton]
      exact fun hmem => hfresh (hi.used _ hmem)
    · rw [hnames, List.mem_append, List.mem_singleton] at hx
      rw [hused, List.mem_cons]
      exact hx.symm.imp (fun h => h) (hi.used x)

theorem named_of_reachable (h : Reachable env c) : Named c := by
  refine Lts.Reachable.rule (fun c hs => ?_)
    (fun _ _ hr hi hm => named_step hi (ordered_of_reachable hr) hm) h
  obtain ⟨earlier, hhist⟩ := hs.history
  have hborn : c.born = [] := by simp [born, hhist, hs.entry, Entry.events]
  have hline : c.line = [] := by
    simp [line, hs.queue, hs.retry, hs.stage, hs.entry, Stage.hands, Entry.events]
  have hnames : c.names = c.rows.filterMap Row.eventId := by
    rw [names, hborn, List.append_nil, hhist, List.filterMap_map]
    rfl
  refine ⟨hnames ▸ c.store.view.events.id_nodup, fun id hid => ?_, by simp [hline]⟩
  rw [hhist]
  exact List.mem_append_left _ (hnames ▸ hid)

/-- What is acknowledged was so before, or was in the batch of the acknowledgment. -/
theorem Step.acked_cases (hs : Step env c c') {x : Item} (hx : x ∈ c'.history.acked) :
    x ∈ c.history.acked ∨
      ∃ b, c.stage = .acknowledging b ∧ ∃ w ∈ b, x.id = some w.eventId := by
  cases hs with
  | @acknowledge b db n h hd hev =>
    refine (List.mem_append.mp hx).imp id fun hx => ⟨b, h, ?_⟩
    obtain ⟨r, hr, rfl⟩ := List.mem_map.mp hx
    obtain ⟨hmem, hgone⟩ := List.mem_filter.mp hr
    have hnot : r ∉ (c.store.view.events.without (b.map SerializedEvent.eventId)).rows := by
      rw [← hev]
      exact of_decide_eq_true hgone
    simp only [Events.mem_without, not_and, not_forall, not_not] at hnot
    obtain ⟨id, hid, heq⟩ := hnot hmem
    obtain ⟨w, hw, rfl⟩ := List.mem_map.mp hid
    exact ⟨w, hw, heq⟩
  | _ => exact Or.inl hx

/-! ### Conservation -/

/-- What was recovered and what was accepted. -/
def known (c : Custody) : List Item :=
  c.history.recovered ++ c.history.accepted.map fun a => a.qe.item

/-- Where everything is: in a container, or written off. -/
def places (c : Custody) : List Item :=
  c.queue.map QueuedEvent.item ++ c.stage.hands.map QueuedEvent.item ++
    c.retry.map QueuedEvent.item ++ c.rows.map Row.item ++ c.history.acked ++
    c.history.discarded ++ c.history.purged ++ c.history.dropped ++ c.history.lost

/-- **Everything known is in exactly one place.** -/
def Conserved (c : Custody) : Prop := c.places.Perm c.known

theorem count_places (c : Custody) (x : Item) :
    c.places.count x = (c.queue.map QueuedEvent.item).count x +
      (c.stage.hands.map QueuedEvent.item).count x + (c.retry.map QueuedEvent.item).count x +
      (c.rows.map Row.item).count x + c.history.acked.count x + c.history.discarded.count x +
      c.history.purged.count x + c.history.dropped.count x + c.history.lost.count x := by
  simp only [places, List.count_append]

/-- A move within the ledger: what leaves one place enters another. -/
theorem Conserved.move (hi : Conserved c) (hknown : c'.known = c.known)
    (h : ∀ x, c'.places.count x = c.places.count x) : Conserved c' := by
  rw [Conserved, hknown]
  exact (List.perm_iff_count.mpr h).trans hi

/-- Rows leave the store for one of the columns of the history. -/
theorem count_gone (db db' : Database) {p : Row → Bool} (h : db'.rows = db.rows.filter p)
    (x : Item) :
    (db'.rows.map Row.item).count x + (db.gone db').count x = (db.rows.map Row.item).count x := by
  rw [← List.count_append]
  exact (Database.gone_perm h).count_eq x

/-- A purge takes every row. -/
theorem count_gone_of_empty (db db' : Database) (h : db'.view = ⟨.empty, false⟩) (x : Item) :
    (db'.rows.map Row.item).count x + (db.gone db').count x = (db.rows.map Row.item).count x :=
  count_gone db db' (p := fun _ => false) (by simp [Database.rows, h]) x

theorem known_ids_sublist (c : Custody) : (c.known.filterMap Item.id).Sublist c.names := by
  rw [known, List.filterMap_append, List.filterMap_map, names, born]
  refine List.Sublist.append_left ?_ _
  rw [show (Item.id ∘ fun a : Admitted => a.qe.item) =
    some ∘ fun a : Admitted => a.qe.event.eventId from rfl, List.filterMap_eq_map]
  exact List.sublist_append_left _ _

/-- What is in the worker's hands and what is stored carry different identifiers. -/
theorem hands_rows_nodup (hi : Conserved c) (hn : Named c) :
    ((c.stage.hands.map fun e => e.event.eventId) ++ c.rows.filterMap Row.eventId).Nodup := by
  have hsub : (c.stage.hands.map QueuedEvent.item ++ c.rows.map Row.item).Sublist c.places := by
    unfold places
    iterate 5 refine List.Sublist.trans ?_ (List.sublist_append_left _ _)
    refine List.Sublist.append ?_ (List.Sublist.refl _)
    exact (List.sublist_append_right _ _).trans (List.sublist_append_left _ _)
  have hnodup := ((hi.filterMap Item.id).nodup_iff).mpr (hn.nodup.sublist c.known_ids_sublist)
  have := hnodup.sublist (hsub.filterMap Item.id)
  rw [List.filterMap_append, List.filterMap_map, List.filterMap_map,
    show (Item.id ∘ QueuedEvent.item) = some ∘ fun e : QueuedEvent => e.event.eventId from rfl,
    List.filterMap_eq_map] at this
  exact this

/-- What the worker inserts all becomes rows. -/
theorem inserted_of_committing (hi : Conserved c) (hn : Named c) {v : Nat} {k : List Kept}
    (h : c.stage = .committing v k) :
    ∃ new, (c.store.view.events.insertAll (k.map Kept.record)).rows = c.rows ++ new ∧
      RowsOf (k.map Kept.record) new := by
  have hnodup := hands_rows_nodup hi hn
  rw [h, Stage.hands, List.map_map, List.nodup_append] at hnodup
  obtain ⟨hids, -, hdisj⟩ := hnodup
  have hne : ∀ r ∈ k.map Kept.record, 0 < sqlLength r.eventId := fun r hr => by
    obtain ⟨x, hx, rfl⟩ := List.mem_map.mp hr
    exact hn.named x.qe (mem_line_of_hands (mem_hands_of_committing h hx))
  have hfresh : ∀ r ∈ k.map Kept.record, ∀ x ∈ c.rows, x.eventId ≠ some r.eventId := by
    intro r hr x hx heq
    obtain ⟨y, hy, rfl⟩ := List.mem_map.mp hr
    exact hdisj _ (List.mem_map_of_mem hy) _ (List.mem_filterMap.mpr ⟨x, hx, heq⟩) rfl
  exact c.store.view.events.insertAll_rows_of_fresh hne (by rw [List.map_map]; exact hids) hfresh

/-- The identities of the new rows. -/
theorem insertAll_rows_of_committing (hi : Conserved c) (hn : Named c) {v : Nat} {k : List Kept}
    (h : c.stage = .committing v k) :
    ∃ new, (c.store.view.events.insertAll (k.map Kept.record)).rows = c.rows ++ new ∧
      new.map Row.item = (k.map Kept.qe).map QueuedEvent.item := by
  obtain ⟨new, hrows, hnew⟩ := inserted_of_committing hi hn h
  exact ⟨new, hrows, by rw [hnew.items, List.map_map, List.map_map]; rfl⟩

theorem conserved_step (hi : Conserved c) (hn : Named c) (hs : Step env c c') : Conserved c' := by
  cases hs with
  | drain n h =>
    refine hi.move rfl fun x => ?_
    have hq : (c.queue.map QueuedEvent.item).count x =
        ((c.queue.take n).map QueuedEvent.item).count x +
          ((c.queue.drop n).map QueuedEvent.item).count x := by
      rw [← List.count_append, ← List.map_append, List.take_append_drop]
    simp only [count_places, h, Stage.hands, rows, hq, List.map_nil, List.count_nil]
    omega
  | takeNothing h hl =>
    obtain ⟨hr, rfl⟩ := List.append_eq_nil_iff.mp hl
    exact hi.move rfl fun x => by simp only [count_places, h, hr, Stage.hands, rows]
  | takeRetry h | hold h =>
    refine hi.move rfl fun x => ?_
    simp only [count_places, h, Stage.hands, rows, List.map_nil, List.map_append, List.nil_append,
      List.count_append, List.count_nil]
    omega
  | read h | keptNothing h | guard h | pass h | insertFailed h | look h | readAgain h | send h
  | notSent h | sent h | notAcknowledged h | outdated h | notPurged h | reset h =>
    exact hi.move rfl fun x => by
      simp only [count_places, h, Stage.hands, rows, List.map_nil, List.nil_append, List.append_nil]
  | refuseDelivery h =>
    refine hi.move rfl fun x => ?_
    have hh : c.stage.hands = [] := by
      cases hst : c.stage <;> simp_all [Stage.delivering, Stage.hands]
    rw [count_places, count_places, hh]
    rfl
  | refuse h | stale h =>
    refine hi.move rfl fun x => ?_
    simp only [count_places, h, Stage.hands, rows, discard, List.map_nil, List.map_append,
      List.map_cons, List.nil_append, List.count_append, List.count_nil, List.count_cons]
    omega
  | drop h =>
    refine hi.move rfl fun x => ?_
    simp only [count_places, h, Stage.hands, rows, List.map_append,
      List.map_cons, List.count_append, List.count_nil, List.count_cons]
    omega
  | keep _ h =>
    refine hi.move rfl fun x => ?_
    simp only [count_places, h, Stage.hands, rows, List.map_append, List.map_nil,
      List.map_cons, List.count_append, List.count_nil, List.count_cons]
    omega
  | refuseKept hd h =>
    refine hi.move rfl fun x => ?_
    rcases h with ⟨h, -⟩ | ⟨h, -⟩ <;>
    · simp only [count_places, h, Stage.hands, rows, discard, List.map_nil, List.append_nil,
        List.count_append, List.count_nil]
      omega
  | @commit v k db h hev hm =>
    obtain ⟨new, hrows, hnew⟩ := insertAll_rows_of_committing hi hn h
    refine hi.move rfl fun x => ?_
    have hdb : (db.rows.map Row.item).count x = (c.rows.map Row.item).count x +
        ((k.map Kept.qe).map QueuedEvent.item).count x := by
      rw [Database.rows, hev, hrows, List.map_append, List.count_append, hnew]
    simp only [count_places, h, Stage.hands, List.map_nil, List.count_nil]
    rw [rows, hdb]
    omega
  | @fetch seen n db read h hd hread hdb =>
    refine hi.move rfl fun x => ?_
    have hgone : ((db.rows.map Row.item).count x + (c.store.gone db).count x =
        (c.store.rows.map Row.item).count x) := by
      rcases hdb with ⟨rfl, -⟩ | ⟨hev, -⟩
      · simp
      · exact count_gone c.store db (congrArg Events.rows hev) x
    rw [count_places, count_places, h, Stage.offered_hands]
    simp only [Stage.hands, rows, List.count_append]
    omega
  | @acknowledge b db n h hd hev hm hn =>
    refine hi.move rfl fun x => ?_
    have hgone := count_gone c.store db (congrArg Events.rows hev) x
    simp only [count_places, h, Stage.hands, rows, List.count_append,
      List.map_nil, List.count_nil]
    omega
  | @purge db h hd hv =>
    refine hi.move rfl fun x => ?_
    have hgone := count_gone_of_empty c.store db hv x
    simp only [count_places, h, Stage.hands, rows, List.count_append,
      List.map_nil, List.count_nil]
    omega
  | @purgeAll st db h hl hv =>
    refine hi.move rfl fun x => ?_
    have hgone := count_gone_of_empty c.store db hv x
    simp only [count_places, rows, List.count_append]
    omega
  | mark h hl hev =>
    refine hi.move rfl fun x => ?_
    simp only [count_places, rows, Database.rows, hev]
  | raise =>
    refine hi.move rfl fun x => ?_
    simp only [count_places, rows, Stage.hands, List.map_nil, List.count_nil, List.count_append]
    omega
  | push origin h =>
    refine List.perm_iff_count.mpr fun x => ?_
    have := List.perm_iff_count.mp hi x
    simp only [count_places, known, rows, List.map_append, List.map_cons, List.map_nil,
      List.count_append] at this ⊢
    omega
  | clear h | discardRetry h =>
    refine hi.move rfl fun x => ?_
    simp only [count_places, rows, discard, List.map_nil, List.count_append, List.count_nil]
    omega
  | _ => exact hi

/-- **The ledger is complete, whatever happened.** -/
theorem conserved_of_reachable (h : Reachable env c) : Conserved c := by
  refine Lts.Reachable.rule (fun c hs => ?_)
    (fun _ _ hr hi hm => conserved_step hi (named_of_reachable hr) hm) h
  obtain ⟨earlier, hhist⟩ := hs.history
  simp [Conserved, places, known, hs.queue, hs.retry, hs.stage, Stage.hands, hhist]

/-! ### The statistics -/

/-- Discarded events that a revocation has not counted yet. -/
def pending (c : Custody) : Nat :=
  match c.revocation with
  | some (_, pc) => pc.uncounted
  | none => 0

/-- A consent change has nothing to count when it begins. -/
theorem uncounted_enter {st : ConsentState} {pc : ConsentPc}
    (h : pc = if st = ConsentState.granted then if c.purgeRequired then .mark else .grant
      else .store) : pc.uncounted = 0 := by
  subst h
  split
  · split <;> rfl
  · rfl

/-- A container that was emptied is counted by its length, or needs no counting. -/
theorem uncounted_of_length {n : Nat} {next : ConsentPc} (count : Nat → ConsentPc)
    (hnext : next.uncounted = 0) (hcount : ∀ n, (count n).uncounted = n) :
    (if n > 0 then count n else next).uncounted = n := by
  split
  · exact hcount n
  · omega

/-- An acknowledgment removes its whole batch, or finds the store empty. -/
theorem acknowledged_all {b : List SerializedEvent} {db : Database} {n : Nat} (hi : Batched env c)
    (h : c.stage = .acknowledging b)
    (hev : db.view.events = c.store.view.events.without (b.map SerializedEvent.eventId))
    (hn : n + db.rows.length = c.store.rows.length) : n = b.length ∨ n = 0 := by
  obtain ⟨hheld, -, hids, -⟩ := hi
  rw [h, Stage.batch] at hheld hids
  rcases hheld with hnil | hheld
  · right
    rw [show c.store.rows = [] from hnil, List.length_nil] at hn
    omega
  · left
    have hlen := c.store.view.events.length_without hids fun id hid => by
      obtain ⟨x, hx, rfl⟩ := List.mem_map.mp hid
      obtain ⟨r, hr, hu, rfl⟩ := hheld x hx
      exact ⟨r, hr, Row.eventId_of_usable hu⟩
    rw [← hev, List.length_map] at hlen
    exact Nat.add_right_cancel (hn.trans hlen.symm)

/-- As many rows went as are missing. -/
theorem length_gone {db db' : Database} {p : Row → Bool} (h : db'.rows = db.rows.filter p) :
    (db.gone db').length + db'.rows.length = db.rows.length := by
  have hlen := (Database.gone_perm h).length_eq
  rw [List.length_append, List.length_map, List.length_map] at hlen
  omega

/-- **Every fate is counted, or due**: the statistics and what is still to be counted
into them are the columns of the history. -/
structure Counted (c : Custody) : Prop where
  accepted : c.counts.accepted + c.entry.uncounted = c.history.accepted.length
  delivered : c.counts.delivered + c.due.deliveredCount = c.history.acked.length
  discarded : c.counts.discardedConsent + c.due.discardedCount + c.pending =
    c.history.discarded.length
  dropped : c.counts.droppedInvalid + c.due.droppedCount = c.history.dropped.length
  lost : c.history.lost = []

/-- A move that neither decides a fate nor counts one. -/
theorem Counted.same (hi : Counted c) (hcounts : c'.counts = c.counts)
    (hent : c'.entry.uncounted = c.entry.uncounted) (hdue : c'.due = c.due)
    (hpend : c'.pending = c.pending) (hacc : c'.history.accepted = c.history.accepted)
    (hack : c'.history.acked = c.history.acked)
    (hdisc : c'.history.discarded = c.history.discarded)
    (hdrop : c'.history.dropped = c.history.dropped) (hlost : c'.history.lost = c.history.lost) :
    Counted c' := by
  obtain ⟨h₁, h₂, h₃, h₄, h₅⟩ := hi
  constructor <;> simp only [*]

/-- Counting what is due. -/
theorem Counted.count (hi : Counted c) :
    Counted { c with
      due := .none, outstanding := c.release c.due.amount,
      counts := Counts.add c.counts c.due } := by
  obtain ⟨h₁, h₂, h₃, h₄, h₅⟩ := hi
  cases hd : c.due <;>
    simp only [hd, Due.deliveredCount, Due.discardedCount, Due.droppedCount] at h₂ h₃ h₄ <;>
    refine ⟨h₁, ?_, ?_, ?_, h₅⟩ <;>
    simp only [Counts.add, Due.deliveredCount, Due.discardedCount, Due.droppedCount, pending] <;>
    simp only [pending] at h₃ <;> omega

/-- A fetch reports as many quarantined rows as it has removed. -/
theorem length_quarantined {n : Nat} {db : Database} {read : List Row}
    (hread : read <+: c.store.view.events.ordered)
    (hdb : (db = c.store ∧ n = 0) ∨
      (db.view.events = c.store.view.events.withoutRows
          (read.filter fun r => !r.usable env.isValidJson) ∧
        db.marker = c.store.marker ∧
        n = (read.filter fun r => !r.usable env.isValidJson).length)) :
    n + db.rows.length = c.rows.length ∧ (c.store.gone db).length = n := by
  rcases hdb with ⟨rfl, rfl⟩ | ⟨hev, -, rfl⟩
  · exact ⟨Nat.zero_add _, by simp⟩
  · have hsub : (read.filter fun r => !r.usable env.isValidJson).Sublist
        c.store.view.events.ordered := List.filter_sublist.trans hread.sublist
    have hnd := ((c.store.view.events.ordered_perm.nodup_iff).mpr
      c.store.view.events.rows_nodup).sublist hsub
    have hlen := c.store.view.events.length_withoutRows hnd
      fun r hr => Events.mem_ordered.mp (hsub.subset hr)
    rw [← hev] at hlen
    have hgone := length_gone (congrArg Events.rows hev)
    exact ⟨hlen, Nat.add_right_cancel (hgone.trans hlen.symm)⟩

/-- What is discarded becomes due. -/
theorem Counted.discard {l : List QueuedEvent} {n : Nat} {stage : Stage} (hi : Counted c)
    (hd : c.due = .none) (hn : n = l.length) : Counted { c with
      stage := stage, due := .discarded n, history := c.discard l } := by
  obtain ⟨hacc, hdel, hdisc, hdrop, hlost⟩ := hi
  rw [hd] at hdel hdisc hdrop
  refine ⟨hacc, hdel, ?_, hdrop, hlost⟩
  rw [Custody.discard, List.length_append, List.length_map, ← hdisc, hn]
  exact Nat.add_right_comm _ _ _

/-- What a revocation discards is counted by its next step, if it is anything. -/
theorem Counted.revoked {l : List QueuedEvent} (hi : Counted c) (hpend : c.pending = 0)
    (hpend' : c'.pending = l.length) (hent : c'.entry = c.entry) (hdue : c'.due = c.due)
    (hcounts : c'.counts = c.counts) (hhist : c'.history = c.discard l) : Counted c' := by
  obtain ⟨hacc, hdel, hdisc, hdrop, hlost⟩ := hi
  rw [hpend] at hdisc
  refine ⟨?_, ?_, ?_, ?_, ?_⟩ <;> rw [hhist]
  · rw [hcounts, hent]
    exact hacc
  · rw [hcounts, hdue]
    exact hdel
  · rw [hcounts, hdue, hpend', Custody.discard, List.length_append, List.length_map, ← hdisc]
    rfl
  · rw [hcounts, hdue]
    exact hdrop
  · exact hlost

/-- A revocation counts what it has discarded. -/
theorem Counted.settle {n : Nat} (hi : Counted c) (hpend : c.pending = n) (hpend' : c'.pending = 0)
    (hent : c'.entry = c.entry) (hdue : c'.due = c.due)
    (hcounts : c'.counts = Counts.add c.counts (.discarded n)) (hhist : c'.history = c.history) :
    Counted c' := by
  obtain ⟨hacc, hdel, hdisc, hdrop, hlost⟩ := hi
  refine ⟨?_, ?_, ?_, ?_, ?_⟩ <;> rw [hhist]
  · rw [hcounts, hent]
    exact hacc
  · rw [hcounts, hdue]
    exact hdel
  · rw [hcounts, hdue, hpend', ← hdisc, hpend]
    simp only [Counts.add]
    omega
  · rw [hcounts, hdue]
    exact hdrop
  · exact hlost

theorem counted_step (hi : Counted c) (hb : Batched env c) (hg : Gated c) (hs : Step env c c')
    (hraise : c'.raised = false) : Counted c' := by
  cases hs with
  | refuse h hd | stale h hd => exact hi.discard hd rfl
  | refuseKept hd h => exact hi.discard hd (List.length_map _).symm
  | drop h hd =>
    obtain ⟨hacc, hdel, hdisc, hdrop, hlost⟩ := hi
    rw [hd] at hdel hdisc hdrop
    refine ⟨hacc, hdel, hdisc, ?_, hlost⟩
    rw [List.length_append, ← hdrop]
    rfl
  | @fetch seen n db read h hd hread hdb =>
    obtain ⟨-, hgone⟩ := length_quarantined hread hdb
    obtain ⟨hacc, hdel, hdisc, hdrop, hlost⟩ := hi
    rw [hd] at hdel hdisc hdrop
    by_cases hn : n = 0
    · simp only [hn, if_true]
      refine ⟨hacc, hdel, hdisc, ?_, hlost⟩
      rw [List.length_append, ← hdrop, hgone, hn]
      rfl
    · simp only [hn, if_false]
      refine ⟨hacc, hdel, hdisc, ?_, hlost⟩
      rw [List.length_append, ← hdrop, hgone]
      rfl
  | @acknowledge b db n h hd hev hm hn =>
    have hgone : (c.store.gone db).length = n :=
      Nat.add_right_cancel ((length_gone (congrArg Events.rows hev)).trans hn.symm)
    have hall := acknowledged_all hb h hev hn
    obtain ⟨hacc, hdel, hdisc, hdrop, hlost⟩ := hi
    rw [hd] at hdel hdisc hdrop
    by_cases hl : n = b.length
    · simp only [hl, if_true]
      refine ⟨hacc, ?_, hdisc, hdrop, hlost⟩
      rw [List.length_append, ← hdel, hgone, hl]
      rfl
    · simp only [hl, if_false]
      refine ⟨hacc, ?_, hdisc, hdrop, hlost⟩
      rw [List.length_append, ← hdel, hgone, hall.resolve_left hl]
      rfl
  | count h => exact hi.count
  | raise => cases hraise
  | push origin hent =>
    obtain ⟨hacc, hdel, hdisc, hdrop, hlost⟩ := hi
    rw [hent] at hacc
    exact ⟨by rw [List.length_append, ← hacc]; rfl, hdel, hdisc, hdrop, hlost⟩
  | countAccepted hent =>
    obtain ⟨hacc, hdel, hdisc, hdrop, hlost⟩ := hi
    rw [hent] at hacc
    exact ⟨hacc, hdel, hdisc, hdrop, hlost⟩
  | gate hent | check hent | build hent | reserve hent | overflow hent | undo hent =>
    exact hi.same rfl (by rw [hent]; rfl) rfl rfl rfl rfl rfl rfl rfl
  | giveUp hent =>
    rcases hent with hent | hent <;>
      exact hi.same rfl (by rw [hent]; rfl) rfl rfl rfl rfl rfl rfl rfl
  | clear h =>
    refine hi.revoked (by simp [pending, h, ConsentPc.uncounted]) ?_ rfl rfl rfl rfl
    exact uncounted_of_length .countCleared rfl fun _ => rfl
  | discardRetry h =>
    refine hi.revoked (by simp [pending, h, ConsentPc.uncounted]) ?_ rfl rfl rfl rfl
    exact uncounted_of_length .countDiscarded rfl fun _ => rfl
  | countCleared h | countDiscarded h =>
    exact hi.settle (by simp [pending, h, ConsentPc.uncounted]) rfl rfl rfl rfl rfl
  | enter h hpc =>
    exact hi.same rfl rfl rfl (by simp [pending, h, uncounted_enter hpc]) rfl rfl rfl rfl rfl
  | revoke h hent =>
    exact hi.same rfl (by rw [hent]; rfl) rfl (by simp [pending, h, ConsentPc.uncounted]) rfl rfl
      rfl rfl rfl
  | unlock h =>
    have hent := ((hg.holder _ _ h).1 rfl).1
    exact hi.same rfl (by rw [hent]; rfl) rfl (by simp [pending, h, ConsentPc.uncounted]) rfl rfl
      rfl rfl rfl
  | bump h | owe h | mark h | purgeAll h | grant h =>
    exact hi.same rfl rfl rfl (by simp [pending, h, ConsentPc.uncounted]) rfl rfl rfl rfl rfl
  | @settle st h =>
    refine hi.same rfl rfl rfl ?_ rfl rfl rfl rfl rfl
    by_cases hst : st = ConsentState.granted <;> simp [pending, h, hst, ConsentPc.uncounted]
  | fail h =>
    rcases h with h | h <;>
      exact hi.same rfl rfl rfl (by simp [pending, h, ConsentPc.uncounted]) rfl rfl rfl rfl rfl
  | _ => exact hi.same rfl rfl rfl rfl rfl rfl rfl rfl rfl

/-- An unexpected exit is not undone. -/
theorem Step.raised_mono (hs : Step env c c') (h : c'.raised = false) : c.raised = false := by
  cases hs with
  | raise => cases h
  | _ => exact h

/-- **As long as the worker's loop was not left by an exception, every fate is counted or
due**, and nothing is lost. -/
theorem counted_of_reachable (h : Reachable env c) : c.raised = false → Counted c := by
  refine Lts.Reachable.rule (P := fun c => c.raised = false → Counted c) (fun c hs _ => ?_)
    (fun _ _ hr hi hm hraise => counted_step (hi (hm.raised_mono hraise))
      (batched_of_reachable hr) (gated_of_reachable hr) hm hraise) h
  obtain ⟨earlier, hhist⟩ := hs.history
  constructor <;> simp [hs.counts, hs.entry, hs.due, hhist, pending, hs.revocation,
    Entry.uncounted, Due.deliveredCount, Due.discardedCount, Due.droppedCount]

end Custody

end PlayerTrace
