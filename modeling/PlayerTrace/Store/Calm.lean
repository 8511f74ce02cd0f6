import PlayerTrace.Store.Atomic

/-!
# The store without faults

On a connection with no transaction open, and when no point fails, every operation
succeeds. Together with the lemma that says what its success means
(`PlayerTrace.Store.Spec`), this gives the result outright: the batch is inserted, the window
is read and its unusable rows are quarantined (`PlayerTrace.fetchPending_calm`), the batch is
acknowledged (`PlayerTrace.acknowledge_calm`).

What is left after a deletion is read in the same order as before
(`PlayerTrace.Events.filter_ordered`): the sort by ordinal is stable.
-/

namespace PlayerTrace

open Txn

variable {db db' : Database}

/-! ### Nothing fails -/

theorem attempt_calm (p : Point) (report : String → Status) (db : Database) :
    Faults.none.attempt p report db = .ok () := rfl

theorem beginImmediate_calm (h : db.saved = none) :
    beginImmediate Faults.none db = .ok ⟨db.view, some db.view⟩ := by
  obtain ⟨v, saved⟩ := db
  obtain rfl : saved = none := h
  rfl

theorem insertLoop_calm (i : Nat) (records : List StoredRecord) (tx : Database) :
    ∃ tx', insertLoop Faults.none i records tx = .ok tx' := by
  induction records generalizing i tx with
  | nil => exact ⟨tx, rfl⟩
  | cons r rs ih =>
    exact ih (i + 1) (tx.update fun t => { t with events := t.events.insertOrIgnore r })

theorem insert_calm (h : db.saved = none) (records : List StoredRecord) :
    (insert Faults.none records db).1 = {} := by
  obtain ⟨tx', htx⟩ := insertLoop_calm 0 records ⟨db.view, some db.view⟩
  unfold insert
  split
  · rfl
  · simp only [attempt_calm, beginImmediate_calm h, bind, Except.bind, htx]
    rfl

theorem deleteIdsLoop_calm (i : Nat) (ids : List String) (n : Nat) (tx : Database) :
    ∃ x, deleteIdsLoop Faults.none i ids n tx = .ok x := by
  induction ids generalizing i n tx with
  | nil => exact ⟨(n, tx), rfl⟩
  | cons id ids ih =>
    exact ih (i + 1) _ (tx.update fun t => { t with events := t.events.deleteId id })

theorem deleteIds_calm (h : db.saved = none) (ids : List String) :
    (deleteIds Faults.none ids db).1 = {} := by
  obtain ⟨x, hx⟩ := deleteIdsLoop_calm 0 ids 0 ⟨db.view, some db.view⟩
  unfold deleteIds
  split
  · rfl
  · simp only [attempt_calm, beginImmediate_calm h, bind, Except.bind, hx]
    rfl

theorem deleteRowidsLoop_calm (i : Nat) (rowids : List Nat) (n : Nat) (tx : Database) :
    ∃ x, deleteRowidsLoop Faults.none i rowids n tx = .ok x := by
  induction rowids generalizing i n tx with
  | nil => exact ⟨(n, tx), rfl⟩
  | cons id ids ih =>
    exact ih (i + 1) _ (tx.update fun t => { t with events := t.events.deleteRowid id })

theorem deleteRowids_calm (h : db.saved = none) (rowids : List Nat) :
    (deleteRowids Faults.none rowids db).1 = {} := by
  obtain ⟨x, hx⟩ := deleteRowidsLoop_calm 0 rowids 0 ⟨db.view, some db.view⟩
  unfold deleteRowids
  split
  · rfl
  · simp only [attempt_calm, beginImmediate_calm h, bind, Except.bind, hx]
    rfl

theorem fetchLoop_calm (isValidJson : String → Bool) (i : Nat) (rows good bad : List Row) :
    (fetchLoop Faults.none isValidJson i rows good bad).1 = none := by
  induction rows generalizing i good bad with
  | nil => rfl
  | cons r rows ih =>
    simp only [fetchLoop, Faults.none]
    split <;> exact ih ..

/-! ### What is read, and in which order -/

/-- Inserting in order and then selecting is selecting and then inserting in order. -/
theorem filter_orderedInsert {α : Type} {r : α → α → Prop} [DecidableRel r] [IsTrans α r]
    (p : α → Bool) (x : α) {l : List α} (hl : l.Pairwise r) :
    (l.orderedInsert r x).filter p =
      if p x then (l.filter p).orderedInsert r x else l.filter p := by
  induction l with
  | nil => cases hx : p x <;> simp [hx]
  | cons a l ih =>
    obtain ⟨ha, hl⟩ := List.pairwise_cons.mp hl
    rw [List.orderedInsert_cons]
    split
    · rename_i hxa
      cases hx : p x with
      | false => simp [hx]
      | true =>
        -- the first of the selected elements is not before `a`
        have hhead : ∀ b ∈ (a :: l).filter p, r x b := fun b hb => by
          rcases List.mem_cons.mp (List.mem_filter.mp hb).1 with rfl | hb
          · exact hxa
          · exact IsTrans.trans _ _ _ hxa (ha b hb)
        rw [List.filter_cons_of_pos hx, if_pos rfl]
        cases hsel : (a :: l).filter p with
        | nil => rfl
        | cons b sel => rw [List.orderedInsert_cons, if_pos (hhead b (by simp [hsel]))]
    · rename_i hxa
      rw [List.filter_cons, ih hl, List.filter_cons]
      cases hp : p a <;> cases hx : p x <;> simp [hxa]

/-- A stable sort: selecting before or after makes no difference. -/
theorem filter_insertionSort {α : Type} {r : α → α → Prop} [DecidableRel r] [IsTrans α r]
    [Std.Total r] (p : α → Bool) (l : List α) :
    (l.filter p).insertionSort r = (l.insertionSort r).filter p := by
  induction l with
  | nil => rfl
  | cons a l ih =>
    rw [List.insertionSort_cons, filter_orderedInsert p a (List.pairwise_insertionSort r l),
      List.filter_cons]
    cases hp : p a <;> simp [ih]

namespace Events

/-- **The order is that of the whole table**: `ORDER BY ordinal` is stable. -/
theorem filter_ordered (t : Events) (p : Row → Bool) :
    (t.filter p).ordered = t.ordered.filter p := by
  have : IsTrans Row fun a b => a.ordinal ≤ b.ordinal := ⟨fun _ _ _ => Nat.le_trans⟩
  have : Std.Total fun a b : Row => a.ordinal ≤ b.ordinal := ⟨fun _ _ => Nat.le_total _ _⟩
  exact filter_insertionSort p t.rows

theorem ordered_nodup (t : Events) : t.ordered.Nodup :=
  t.ordered_perm.nodup_iff.mpr t.rows_nodup

/-- Deleting the first rows leaves the others, in order. -/
theorem ordered_withoutRows {t : Events} {first rest : List Row} (h : t.ordered = first ++ rest) :
    (t.withoutRows first).ordered = rest := by
  have hnd := t.ordered_nodup
  rw [h] at hnd
  rw [withoutRows, filter_ordered, h, List.filter_append]
  have hfirst : first.filter (fun r => decide (r ∉ first)) = [] := by
    simp [List.filter_eq_nil_iff]
  have hrest : rest.filter (fun r => decide (r ∉ first)) = rest := by
    refine List.filter_eq_self.mpr fun r hr => decide_eq_true fun hr' => ?_
    exact (List.disjoint_of_nodup_append hnd) hr' hr
  rw [hfirst, hrest, List.nil_append]

/-- Deleting the first rows that are not `p` leaves those that are, and the others. -/
theorem ordered_withoutRows_filter {t : Events} {first rest : List Row} (p : Row → Bool)
    (h : t.ordered = first ++ rest) :
    (t.withoutRows (first.filter fun r => !p r)).ordered = first.filter p ++ rest := by
  have hnd := t.ordered_nodup
  rw [h] at hnd
  rw [withoutRows, filter_ordered, h, List.filter_append]
  congr 1
  · refine List.filter_congr fun r hr => ?_
    cases hp : p r <;> simp [hr, hp]
  · refine List.filter_eq_self.mpr fun r hr => decide_eq_true fun hr' => ?_
    exact (List.disjoint_of_nodup_append hnd) (List.mem_filter.mp hr').1 hr

end Events

/-- What a deletion of rows removes. -/
theorem Database.gone_withoutRows {rows : List Row} (hnd : rows.Nodup)
    (hmem : ∀ r ∈ rows, r ∈ db.rows) (h : db'.view.events = db.view.events.withoutRows rows) :
    (db.gone db').Perm (rows.map Row.item) := by
  refine List.Perm.map _ ((List.perm_ext_iff_of_nodup (db.view.events.rows_nodup.filter _) hnd).mpr
    fun r => ?_)
  have hrows : r ∈ db'.rows ↔ r ∈ db.rows ∧ r ∉ rows := by
    rw [Database.rows, h]
    exact Events.mem_withoutRows
  simp only [List.mem_filter, decide_eq_true_eq, hrows, not_and, not_not]
  exact ⟨fun hr => hr.2 hr.1, fun hr => ⟨hmem r hr, fun _ => hr⟩⟩

/-! ### The three operations of the pipeline -/

variable {isValidJson : String → Bool}

/-- **Fetching reads the whole window**, returns its usable rows and quarantines the others. -/
theorem fetchPending_calm {limit : Nat} {res : FetchResult} (hdb : db.saved = none)
    (h : fetchPending Faults.none isValidJson limit db = (res, db')) :
    res.events = ((db.window limit).filter (Row.usable isValidJson)).map Row.serialized ∧
      res.quarantined = ((db.window limit).filter fun r => !r.usable isValidJson).length ∧
      (res.status.ok = true ↔ res.quarantined = 0) ∧
      db'.view.events = db.view.events.withoutRows
        ((db.window limit).filter fun r => !r.usable isValidJson) ∧ db'.saved = none := by
  obtain ⟨e, good, bad, hread⟩ : ∃ e good bad, fetchLoop Faults.none isValidJson 0
      (db.window limit) [] [] = (e, good, bad) := ⟨_, _, _, rfl⟩
  obtain rfl : e = none := by
    simpa [hread] using fetchLoop_calm isValidJson 0 (db.window limit) [] []
  obtain ⟨read, -, hgood, hbad, hall⟩ := fetchLoop_read hread
  obtain rfl := hall rfl
  rw [List.nil_append] at hgood hbad
  simp only [Database.window] at hread
  have hnone : ∀ q, Faults.none q = none := fun _ => rfl
  simp only [fetchPending, hnone, hread] at h
  split at h
  · rename_i hnil
    obtain rfl : bad = [] := List.isEmpty_iff.mp hnil
    obtain ⟨rfl, rfl⟩ : _ = res ∧ db = db' := by simpa using h
    rw [← hbad]
    exact ⟨by rw [hgood], rfl, by simp, by simp, hdb⟩
  · -- the unusable rows are rows of the table, each once, so their deletion counts them all
    rename_i hne
    have hsub : bad.Sublist db.view.events.ordered := by
      rw [hbad]
      exact List.filter_sublist.trans (List.take_sublist _ _)
    have hmem : ∀ r ∈ bad, r ∈ db.rows := fun r hr => Events.mem_ordered.mp (hsub.subset hr)
    obtain ⟨s, n, d, hdel⟩ : ∃ s n d, deleteRowids Faults.none (bad.map Row.rowid) db = (s, n, d) :=
      ⟨_, _, _, rfl⟩
    obtain rfl : s = {} := by simpa [hdel] using deleteRowids_calm hdb (bad.map Row.rowid)
    rcases deleteRowids_cases (db.view.events.ordered_nodup.sublist hsub) hmem hdel with
      ⟨hs, -⟩ | ⟨-, hev, -, hsaved, rfl⟩
    · cases hs
    · rw [hdel, if_pos ⟨rfl, rfl⟩] at h
      simp only [Prod.mk.injEq] at h
      obtain ⟨rfl, rfl⟩ := h
      rw [← hbad]
      refine ⟨by rw [hgood], rfl, ?_, hev, hsaved.trans hdb⟩
      have hpos : bad ≠ [] := fun h => hne (by simp [h])
      simp [Status.ok, Status.storage, hpos]

/-- Deleting usable rows by their identifiers deletes them. -/
theorem Events.without_eq {t : Events} {rows : List Row} (hmem : ∀ r ∈ rows, r ∈ t.rows)
    (husable : ∀ r ∈ rows, r.usable isValidJson = true) :
    t.without ((rows.map Row.serialized).map SerializedEvent.eventId) = t.withoutRows rows := by
  refine Events.ext ?_
  simp only [without, withoutRows, filter_rows]
  refine List.filter_congr fun x hx => ?_
  rw [Bool.eq_iff_iff]
  simp only [List.all_map, List.all_eq_true, Function.comp, decide_eq_true_eq]
  constructor
  · intro hne hxr
    exact hne x hxr (Row.eventId_of_usable (husable x hxr))
  · intro hxr r hr heq
    have hid := Row.eventId_of_usable (husable r hr)
    exact hxr (eq_of_eventId hx (hmem r hr) heq hid ▸ hr)

/-- **Acknowledging usable rows** of the table deletes them. -/
theorem acknowledge_calm {rows : List Row} {st : Status} {n : Nat} (hdb : db.saved = none)
    (hnd : rows.Nodup) (hmem : ∀ r ∈ rows, r ∈ db.rows)
    (husable : ∀ r ∈ rows, r.usable isValidJson = true)
    (h : acknowledge Faults.none ((rows.map Row.serialized).map SerializedEvent.eventId) db =
      (st, n, db')) :
    st = {} ∧ db'.view.events = db.view.events.withoutRows rows ∧ db'.saved = none := by
  set ids := (rows.map Row.serialized).map SerializedEvent.eventId with hids
  obtain ⟨s, m, d, hdel⟩ : ∃ s m d, deleteIds Faults.none ids db = (s, m, d) := ⟨_, _, _, rfl⟩
  obtain rfl : s = {} := by simpa [hdel] using deleteIds_calm hdb ids
  rcases deleteIds_cases hdel with ⟨hs, -⟩ | ⟨-, hev, -, hsaved, hcount⟩
  · cases hs
  rw [Events.without_eq hmem husable] at hev
  have hlen := Events.length_withoutRows hnd hmem
  rw [← hev] at hlen
  have hm : m = ids.length := by
    simp only [Database.rows] at hcount
    simp only [hids, List.length_map]
    omega
  unfold acknowledge at h
  simp only [hdel, hm, ne_eq, not_true_eq_false, if_false] at h
  obtain ⟨rfl, -, rfl⟩ : {} = st ∧ ids.length = n ∧ d = db' := by simpa using h
  exact ⟨rfl, hev, hsaved.trans hdb⟩

/-- **Insertion succeeds.** -/
theorem insert_eq_calm {records : List StoredRecord} {st : Status} (hdb : db.saved = none)
    (h : insert Faults.none records db = (st, db')) :
    st = {} ∧ db'.view.events = db.view.events.insertAll records ∧ db'.saved = none := by
  obtain rfl : st = {} := by simpa [h] using insert_calm hdb records
  rcases insert_cases h with ⟨-, hev, -, hsaved⟩ | ⟨hst, -⟩
  · exact ⟨rfl, hev, hsaved.trans hdb⟩
  · cases hst

end PlayerTrace
