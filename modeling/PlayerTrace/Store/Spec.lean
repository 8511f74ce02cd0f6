import Mathlib.Data.List.Pairwise
import PlayerTrace.Store.Ops

/-!
# What the store operations do

One lemma per operation, whatever the environment answers at the points inside it: the
operation reports success and has applied its whole effect, or reports failure and has
left the database alone. The one exception is in the source and is kept here:
`PlayerTrace.acknowledge` compares the number of deleted rows with the batch only after
the deleting transaction has committed, so a mismatch is reported over a changed table
(`PlayerTrace.acknowledge_cases`).
-/

namespace PlayerTrace

open Txn

/-- The statuses an early exit reports. -/
def Failed (s : Status) : Prop := s.ok = false

variable {φ : Faults} {db db' : Database} {st : Status}

theorem clean_attempt {c₀ : Database} {p : Point} {report : String → Status}
    (hr : ∀ m, (report m).code = .storageError) (hdb : db = c₀) :
    Clean c₀ Failed (φ.attempt p report db) fun _ => True := by
  unfold Faults.attempt
  cases φ p with
  | none => trivial
  | some m => exact ⟨by simp [Failed, hr], hdb⟩

theorem clean_beginImmediate :
    Clean db Failed (beginImmediate φ db) fun tx =>
      db.saved = none ∧ tx.view = db.view ∧ tx.saved = some db.view := by
  refine (clean_attempt (fun _ => rfl) rfl).bind fun _ _ => ?_
  cases h : db.begin with
  | none => exact ⟨by simp [Failed], rfl⟩
  | some tx =>
    obtain ⟨h₁, h₂, h₃⟩ := Conn.begin_saved h
    exact ⟨h₁, h₃, h₂⟩

/-- A transaction opened on `db` and not yet ended. -/
def OpenOn (db tx : Database) : Prop := db.saved = none ∧ tx.saved = some db.view

theorem OpenOn.rollback {tx : Database} (h : OpenOn db tx) : tx.rollback = db := by
  obtain ⟨h₁, h₂⟩ := h
  refine Database.ext ?_ ?_ <;> simp [Conn.rollback, h₂, h₁]

theorem OpenOn.update {tx : Database} (h : OpenOn db tx) (f : Tables → Tables) :
    OpenOn db (tx.update f) := h

theorem clean_commitTransaction {tx : Database} (h : OpenOn db tx) :
    Clean db Failed (commitTransaction φ tx) fun db' =>
      db'.view = tx.view ∧ db'.saved = db.saved := by
  refine (clean_attempt (fun _ => rfl) h.rollback).bind fun _ _ => ?_
  exact ⟨rfl, h.1.symm⟩

/-- Reading off an operation that ends in a database. -/
theorem settle_cases {x : Attempt Database} {Q : Database → Prop} (hx : Clean db Failed x Q)
    (h : settle x = (st, db')) : (st.ok = true ∧ Q db') ∨ (st.ok = false ∧ db' = db) := by
  cases x with
  | error e =>
    obtain ⟨s, d⟩ := e
    obtain ⟨rfl, rfl⟩ : s = st ∧ d = db' := by simpa [settle] using h
    exact Or.inr hx
  | ok d =>
    obtain ⟨rfl, rfl⟩ : {} = st ∧ d = db' := by simpa [settle] using h
    exact Or.inl ⟨rfl, hx⟩

/-! ### Insertion -/

/-- All the records of a batch, each inserted or ignored in turn. -/
def Events.insertAll (t : Events) (records : List StoredRecord) : Events :=
  records.foldl Events.insertOrIgnore t

@[simp] theorem Events.insertAll_nil (t : Events) : t.insertAll [] = t := rfl

@[simp] theorem Events.insertAll_cons (t : Events) (r : StoredRecord) (rs : List StoredRecord) :
    t.insertAll (r :: rs) = (t.insertOrIgnore r).insertAll rs := rfl

theorem clean_insertLoop {tx : Database} (h : OpenOn db tx) (i : Nat)
    (records : List StoredRecord) :
    Clean db Failed (insertLoop φ i records tx) fun tx' =>
      OpenOn db tx' ∧ tx'.view.events = tx.view.events.insertAll records ∧
        Database.marker tx' = Database.marker tx := by
  induction records generalizing i tx with
  | nil => exact ⟨h, rfl, rfl⟩
  | cons r rs ih =>
    have hstep := h.update fun t => { t with events := t.events.insertOrIgnore r }
    refine (clean_attempt (fun _ => rfl) h.rollback).bind fun _ _ => ?_
    refine (clean_attempt (fun _ => rfl) h.rollback).bind fun _ _ => ?_
    refine (clean_attempt (fun _ => rfl) h.rollback).bind fun _ _ => ?_
    refine (clean_attempt (fun _ => rfl) h.rollback).bind fun _ _ => ?_
    refine (clean_attempt (fun _ => rfl) hstep.rollback).bind fun _ _ => ?_
    refine (clean_attempt (fun _ => rfl) hstep.rollback).bind fun _ _ => ?_
    exact ih hstep (i + 1)

/-- **Insertion is all or nothing.** -/
theorem insert_cases {records : List StoredRecord} (h : insert φ records db = (st, db')) :
    (st.ok = true ∧ db'.view.events = db.view.events.insertAll records ∧
        db'.marker = db.marker ∧ db'.saved = db.saved) ∨
      (st.ok = false ∧ db' = db) := by
  unfold insert at h
  split at h
  · rename_i hnil
    obtain rfl := List.isEmpty_iff.mp hnil
    obtain ⟨rfl, rfl⟩ : {} = st ∧ db = db' := by simpa using h
    exact Or.inl ⟨rfl, rfl, rfl, rfl⟩
  · refine settle_cases (Q := fun d => d.view.events = db.view.events.insertAll records ∧
      d.marker = db.marker ∧ d.saved = db.saved) ?_ h
    refine (clean_attempt (fun _ => rfl) rfl).bind fun _ _ => ?_
    refine clean_beginImmediate.bind fun tx htx => ?_
    have hopen : OpenOn db tx := ⟨htx.1, htx.2.2⟩
    refine (clean_attempt (fun _ => rfl) hopen.rollback).bind fun _ _ => ?_
    refine (clean_attempt (fun _ => rfl) hopen.rollback).bind fun _ _ => ?_
    refine (clean_insertLoop hopen 0 records).bind fun tx' htx' => ?_
    refine (clean_attempt (fun _ => rfl) htx'.1.rollback).bind fun _ _ => ?_
    refine (clean_commitTransaction htx'.1).mono fun d hd => ⟨?_, ?_, hd.2⟩
    · rw [hd.1, htx'.2.1, htx.2.1]
    · rw [Database.marker, hd.1]
      exact htx'.2.2.trans (congrArg Tables.revocationPending htx.2.1)

/-- The identity of the event a record holds. -/
def StoredRecord.item (r : StoredRecord) : Item := ⟨some r.eventId, r.ordinal⟩

/-- New rows are appended, and each of them is one of the records. -/
theorem Events.insertAll_rows (t : Events) (records : List StoredRecord) :
    ∃ new, (t.insertAll records).rows = t.rows ++ new ∧
      (new.map Row.item).Sublist (records.map StoredRecord.item) := by
  induction records generalizing t with
  | nil => exact ⟨[], by simp⟩
  | cons r rs ih =>
    obtain ⟨new, hrows, hsub⟩ := ih (t.insertOrIgnore r)
    cases ha : t.accepts r with
    | true =>
      refine ⟨t.toRow r :: new, ?_, ?_⟩
      · simp [hrows, insertOrIgnore_rows_of_accepts ha]
      · simpa [Row.item, StoredRecord.item, toRow] using hsub
    | false =>
      rw [insertOrIgnore_of_not_accepts ha] at hrows
      refine ⟨new, ?_, hsub.trans (List.sublist_cons_self _ _)⟩
      rw [insertAll_cons, insertOrIgnore_of_not_accepts ha, hrows]

/-- The row `x` is what some table makes of the record `r`. -/
def Row.Holds (r : StoredRecord) (x : Row) : Prop := ∃ t : Events, x = t.toRow r

/-- The rows `new` are the records, one by one. -/
structure RowsOf (records : List StoredRecord) (new : List Row) : Prop where
  items : new.map Row.item = records.map StoredRecord.item
  sound : ∀ x ∈ new, ∃ r ∈ records, Row.Holds r x
  complete : ∀ r ∈ records, ∃ x ∈ new, Row.Holds r x

theorem RowsOf.cons {records : List StoredRecord} {new : List Row} (h : RowsOf records new)
    (t : Events) (r : StoredRecord) : RowsOf (r :: records) (t.toRow r :: new) := by
  refine ⟨?_, fun x hx => ?_, fun y hy => ?_⟩
  · simp [h.items, Row.item, StoredRecord.item, Events.toRow]
  · rcases List.mem_cons.mp hx with rfl | hx
    · exact ⟨r, List.mem_cons_self, t, rfl⟩
    · obtain ⟨y, hy, hholds⟩ := h.sound x hx
      exact ⟨y, List.mem_cons_of_mem _ hy, hholds⟩
  · rcases List.mem_cons.mp hy with rfl | hy
    · exact ⟨_, List.mem_cons_self, t, rfl⟩
    · obtain ⟨x, hx, hholds⟩ := h.complete y hy
      exact ⟨x, List.mem_cons_of_mem _ hx, hholds⟩

/-- Records with usable, new and pairwise different identifiers are all inserted. -/
theorem Events.insertAll_rows_of_fresh (t : Events) {records : List StoredRecord}
    (hne : ∀ r ∈ records, 0 < sqlLength r.eventId) (hnd : (records.map StoredRecord.eventId).Nodup)
    (hfresh : ∀ r ∈ records, ∀ x ∈ t.rows, x.eventId ≠ some r.eventId) :
    ∃ new, (t.insertAll records).rows = t.rows ++ new ∧ RowsOf records new := by
  induction records generalizing t with
  | nil => exact ⟨[], by simp, rfl, nofun, nofun⟩
  | cons r rs ih =>
    have ha : t.accepts r = true :=
      accepts_eq_true.mpr ⟨hne r (by simp), hfresh r (by simp)⟩
    have hrows := insertOrIgnore_rows_of_accepts ha
    have hnd' := List.nodup_cons.mp hnd
    obtain ⟨new, hnew, hins⟩ := ih (t.insertOrIgnore r) (fun x hx => hne x (by simp [hx]))
      hnd'.2 fun x hx y hy => by
        rw [hrows] at hy
        rcases List.mem_append.mp hy with hy | hy
        · exact hfresh x (by simp [hx]) y hy
        · obtain rfl : y = t.toRow r := by simpa using hy
          intro hc
          have heq : r.eventId = x.eventId := by simpa [toRow] using hc
          exact hnd'.1 (heq ▸ List.mem_map_of_mem hx)
    exact ⟨t.toRow r :: new, by simp [hnew, hrows], hins.cons t r⟩

/-! ### Deletion by event identifier -/

/-- The table without the rows of the given identifiers. -/
def Events.without (t : Events) (ids : List String) : Events :=
  t.filter fun r => ids.all fun id => r.eventId ≠ some id

theorem Events.mem_without {t : Events} {ids : List String} {r : Row} :
    r ∈ (t.without ids).rows ↔ r ∈ t.rows ∧ ∀ id ∈ ids, r.eventId ≠ some id := by
  simp [without]

@[simp] theorem Events.without_nil (t : Events) : t.without [] = t :=
  Events.ext (by simp [without])

theorem Events.without_cons (t : Events) (id : String) (ids : List String) :
    t.without (id :: ids) = (t.deleteId id).without ids := by
  refine Events.ext ?_
  simp only [without, deleteId, filter_rows, List.filter_filter, List.all_cons]
  refine List.filter_congr fun r _ => ?_
  rw [Bool.and_comm]

/-- The table has a row with this identifier. -/
def Events.Has (t : Events) (id : String) : Prop := ∃ r ∈ t.rows, r.eventId = some id

/-- The identifiers of the rows that a deletion by these identifiers takes away. -/
def Events.taken (t : Events) (ids : List String) : List String :=
  (t.rows.filterMap Row.eventId).filter fun id => decide (id ∈ ids)

theorem Events.taken_nodup {t : Events} {ids : List String} : (t.taken ids).Nodup :=
  t.id_nodup.filter _

theorem Events.mem_taken {t : Events} {ids : List String} {id : String} :
    id ∈ t.taken ids ↔ t.Has id ∧ id ∈ ids := by
  simp [taken, Has, List.mem_filterMap]

/-- They are as many as the rows. -/
theorem Events.length_taken (t : Events) (ids : List String) :
    (t.taken ids).length + (t.without ids).rows.length = t.rows.length := by
  rw [taken, without, filter_rows]
  induction t.rows with
  | nil => rfl
  | cons r l ih =>
    cases hid : r.eventId with
    | none => simp [hid, ← ih, Nat.add_assoc]
    | some id =>
      by_cases hmem : id ∈ ids
      · have hgone : (ids.all fun id => r.eventId ≠ some id) = false :=
          List.all_eq_false.mpr ⟨id, hmem, by simp [hid]⟩
        simp only [List.filterMap_cons_some hid, List.filter_cons, hmem, decide_true, hgone,
          if_true, Bool.false_eq_true, if_false, List.length_cons, ← ih]
        omega
      · have hkept : (ids.all fun id => r.eventId ≠ some id) = true :=
          List.all_eq_true.mpr fun x hx => by
            simp only [hid, ne_eq, Option.some.injEq, decide_not, Bool.not_eq_true',
              decide_eq_false_iff_not]
            exact fun heq => hmem (heq ▸ hx)
        simp only [List.filterMap_cons_some hid, List.filter_cons, hmem, decide_false, hkept,
          if_true, Bool.false_eq_true, if_false, List.length_cons, ← ih]
        omega

/-- **Their number is right exactly for a batch that is there as a whole.** -/
theorem Events.length_taken_eq_iff {t : Events} {ids : List String} :
    (t.taken ids).length = ids.length ↔ ids.Nodup ∧ ∀ id ∈ ids, t.Has id := by
  have hsub : (t.taken ids).Subperm ids :=
    List.subperm_of_subset taken_nodup fun id hid => (mem_taken.mp hid).2
  constructor
  · intro hlen
    have hperm : (t.taken ids).Perm ids := hsub.perm_of_length_le hlen.ge
    exact ⟨hperm.nodup taken_nodup, fun id hid => (mem_taken.mp (hperm.mem_iff.mpr hid)).1⟩
  · rintro ⟨hnd, hall⟩
    refine Nat.le_antisymm hsub.length_le ?_
    exact (List.subperm_of_subset hnd fun id hid => mem_taken.mpr ⟨hall id hid, hid⟩).length_le

/-- Identifiers that are all in the table are each deleted with one row. -/
theorem Events.length_without {t : Events} {ids : List String} (hnd : ids.Nodup)
    (hmem : ∀ id ∈ ids, ∃ r ∈ t.rows, r.eventId = some id) :
    ids.length + (t.without ids).rows.length = t.rows.length := by
  rw [← length_taken_eq_iff.mpr ⟨hnd, hmem⟩]
  exact t.length_taken ids

theorem clean_deleteIdsLoop {tx : Database} (h : OpenOn db tx) (i n : Nat) (ids : List String) :
    Clean db Failed (deleteIdsLoop φ i ids n tx) fun x =>
      OpenOn db x.2 ∧ x.2.view.events = tx.view.events.without ids ∧
        Database.marker x.2 = Database.marker tx ∧
        x.1 + (Database.rows x.2).length = n + (Database.rows tx).length := by
  induction ids generalizing i n tx with
  | nil => exact ⟨h, by simp, rfl, rfl⟩
  | cons id ids ih =>
    have hstep := h.update fun t => { t with events := t.events.deleteId id }
    refine (clean_attempt (fun _ => rfl) h.rollback).bind fun _ _ => ?_
    refine (clean_attempt (fun _ => rfl) h.rollback).bind fun _ _ => ?_
    refine (clean_attempt (fun _ => rfl) h.rollback).bind fun _ _ => ?_
    refine (clean_attempt (fun _ => rfl) hstep.rollback).bind fun _ _ => ?_
    refine (clean_attempt (fun _ => rfl) hstep.rollback).bind fun _ _ => ?_
    refine (ih hstep (i + 1) _).mono fun x hx => ⟨hx.1, ?_, hx.2.2.1, ?_⟩
    · rw [Events.without_cons]
      exact hx.2.1
    · have hle : ((tx.view.events.deleteId id).rows).length ≤ tx.view.events.rows.length :=
        List.length_filter_le _ _
      have hcount := hx.2.2.2
      simp only [Database.rows, Conn.update_view] at hcount ⊢
      omega

/-- What deleting by identifier does, before the count is compared with the batch. -/
theorem deleteIds_cases {ids : List String} {n : Nat} (h : deleteIds φ ids db = (st, n, db')) :
    (st.ok = false ∧ db' = db) ∨
      (st.ok = true ∧ db'.view.events = db.view.events.without ids ∧ db'.marker = db.marker ∧
        db'.saved = db.saved ∧ n + db'.rows.length = db.rows.length) := by
  unfold deleteIds at h
  split at h
  · rename_i hnil
    obtain rfl := List.isEmpty_iff.mp hnil
    obtain ⟨rfl, rfl, rfl⟩ : {} = st ∧ 0 = n ∧ db = db' := by simpa using h
    exact Or.inr ⟨rfl, by simp, rfl, rfl, by simp⟩
  · have hclean : Clean db Failed (do
        φ.attempt (.hook .beginDelete 0) (injected .beginDelete) db
        let tx ← beginImmediate φ db
        φ.attempt (.prepare .deleteId) (lastError "prepare delete") tx.rollback
        let x ← deleteIdsLoop φ 0 ids 0 tx
        φ.attempt (.hook .commitDelete 0) (injected .commitDelete) x.2.rollback
        let tx ← commitTransaction φ x.2
        pure (x.1, tx) : Attempt (Nat × Database)) fun x =>
          x.2.view.events = db.view.events.without ids ∧ Database.marker x.2 = db.marker ∧
            x.2.saved = db.saved ∧ x.1 + (Database.rows x.2).length = db.rows.length := by
      refine (clean_attempt (fun _ => rfl) rfl).bind fun _ _ => ?_
      refine clean_beginImmediate.bind fun tx htx => ?_
      have hopen : OpenOn db tx := ⟨htx.1, htx.2.2⟩
      refine (clean_attempt (fun _ => rfl) hopen.rollback).bind fun _ _ => ?_
      refine (clean_deleteIdsLoop hopen 0 0 ids).bind fun x hx => ?_
      refine (clean_attempt (fun _ => rfl) hx.1.rollback).bind fun _ _ => ?_
      refine (clean_commitTransaction hx.1).bind fun d hd => ?_
      obtain ⟨-, hev, hmark, hcount⟩ := hx
      simp only [Database.marker, Database.rows, htx.2.1] at hev hmark hcount
      refine ⟨?_, ?_, hd.2, ?_⟩
      · rw [hd.1, hev]
      · rw [Database.marker, hd.1, hmark, Database.marker]
      · simp only [Database.rows, hd.1]
        omega
    dsimp only at h
    split at h
    · rename_i e c heq
      obtain ⟨rfl, -, rfl⟩ : e = st ∧ 0 = n ∧ c = db' := by simpa using h
      exact Or.inl (hclean.of_error heq)
    · rename_i k c heq
      obtain ⟨rfl, rfl, rfl⟩ : {} = st ∧ k = n ∧ c = db' := by simpa using h
      exact Or.inr ⟨rfl, hclean.of_ok heq⟩

/-- **Acknowledgment.** The database is left alone under a failure; or the deleting
transaction has committed and exactly the rows with one of the identifiers are gone, and
then the verdict says whether their number is the size of the batch. -/
theorem acknowledge_cases {ids : List String} {n : Nat}
    (h : acknowledge φ ids db = (st, n, db')) :
    (st.ok = false ∧ db' = db) ∨
      (db'.view.events = db.view.events.without ids ∧ db'.marker = db.marker ∧
        db'.saved = db.saved ∧ n + db'.rows.length = db.rows.length ∧
        (st.ok = true ↔ n = ids.length)) := by
  unfold acknowledge at h
  obtain ⟨s, m, d, hdel⟩ : ∃ s m d, deleteIds φ ids db = (s, m, d) := ⟨_, _, _, rfl⟩
  rw [hdel] at h
  dsimp only at h
  rcases deleteIds_cases hdel with ⟨hs, rfl⟩ | ⟨hs, hev, hmark, hsaved, hcount⟩
  · rw [if_pos hs] at h
    obtain ⟨rfl, -, rfl⟩ : s = st ∧ m = n ∧ d = db' := by simpa using h
    exact Or.inl ⟨hs, rfl⟩
  · rw [if_neg (by simp [hs])] at h
    split at h
    · rename_i hne
      simp only [Prod.mk.injEq] at h
      obtain ⟨rfl, rfl, rfl⟩ := h
      exact Or.inr ⟨hev, hmark, hsaved, hcount, by simp [hne]⟩
    · rename_i heq
      obtain ⟨rfl, rfl, rfl⟩ : {} = st ∧ m = n ∧ d = db' := by simpa using h
      exact Or.inr ⟨hev, hmark, hsaved, hcount, by simpa using heq⟩

/-! ### Quarantine -/

/-- The table without the given rows. -/
def Events.withoutRows (t : Events) (rs : List Row) : Events :=
  t.filter fun r => decide (r ∉ rs)

theorem Events.mem_withoutRows {t : Events} {rs : List Row} {r : Row} :
    r ∈ (t.withoutRows rs).rows ↔ r ∈ t.rows ∧ r ∉ rs := by
  simp [withoutRows]

@[simp] theorem Events.withoutRows_nil (t : Events) : t.withoutRows [] = t :=
  Events.ext (by simp [withoutRows])

theorem Events.rows_nodup (t : Events) : t.rows.Nodup := t.rowid_nodup.of_map

/-- A row is determined by its identifier. -/
theorem Events.eq_of_rowid {t : Events} {r r' : Row} (h : r ∈ t.rows) (h' : r' ∈ t.rows)
    (heq : r.rowid = r'.rowid) : r = r' :=
  List.inj_on_of_nodup_map t.rowid_nodup h h' heq

/-- Rows with one event identifier are one row. -/
theorem Events.eq_of_eventId {t : Events} {r r' : Row} {id : String} (hr : r ∈ t.rows)
    (hr' : r' ∈ t.rows) (h : r.eventId = some id) (h' : r'.eventId = some id) : r = r' := by
  have hpair := List.pairwise_filterMap.mp t.id_nodup
  have : Std.Symm fun a b : Row => ∀ x, a.eventId = some x → ∀ y, b.eventId = some y → x ≠ y :=
    ⟨fun _ _ hab x hx y hy => (hab y hy x hx).symm⟩
  by_contra hne
  exact hpair.forall hr hr' hne id h id h' rfl

/-- Deleting a row by its identifier deletes that row. -/
theorem Events.deleteRowid_eq {t : Events} {r : Row} (h : r ∈ t.rows) :
    t.deleteRowid r.rowid = t.withoutRows [r] := by
  refine Events.ext ?_
  simp only [deleteRowid, withoutRows, filter_rows]
  refine List.filter_congr fun x hx => decide_eq_decide.mpr ?_
  rw [List.mem_singleton]
  exact not_congr ⟨fun he => eq_of_rowid hx h he, fun he => congrArg Row.rowid he⟩

theorem Events.length_withoutRows {t : Events} {rs : List Row} (hnd : rs.Nodup)
    (hmem : ∀ r ∈ rs, r ∈ t.rows) :
    rs.length + (t.withoutRows rs).rows.length = t.rows.length := by
  have hperm : (t.rows.filter fun r => decide (r ∈ rs)).Perm rs := by
    refine (List.perm_ext_iff_of_nodup (t.rows_nodup.filter _) hnd).mpr fun r => ?_
    simp only [List.mem_filter, decide_eq_true_eq, and_iff_right_iff_imp]
    exact hmem r
  have hsplit := (List.filter_append_perm (fun r => decide (r ∈ rs)) t.rows).length_eq
  rw [List.length_append, hperm.length_eq] at hsplit
  simpa [withoutRows] using hsplit

theorem clean_deleteRowidsLoop {tx : Database} (h : OpenOn db tx) (i n : Nat) {rs : List Row}
    (hnd : rs.Nodup) (hmem : ∀ r ∈ rs, r ∈ Database.rows tx) :
    Clean db Failed (deleteRowidsLoop φ i (rs.map Row.rowid) n tx) fun x =>
      OpenOn db x.2 ∧ x.2.view.events = tx.view.events.withoutRows rs ∧
        Database.marker x.2 = Database.marker tx ∧ x.1 = n + rs.length := by
  induction rs generalizing i n tx with
  | nil => exact ⟨h, by simp, rfl, rfl⟩
  | cons r rs ih =>
    obtain ⟨hr, hnd⟩ := List.nodup_cons.mp hnd
    have hr' : r ∈ tx.view.events.rows := hmem r (by simp)
    have hdel := Events.deleteRowid_eq hr'
    have hstep := h.update fun t => { t with events := t.events.deleteRowid r.rowid }
    refine (clean_attempt (fun _ => rfl) h.rollback).bind fun _ _ => ?_
    refine (clean_attempt (fun _ => rfl) h.rollback).bind fun _ _ => ?_
    refine (clean_attempt (fun _ => rfl) hstep.rollback).bind fun _ _ => ?_
    refine (ih hstep (i + 1) _ hnd ?_).mono fun x hx => ⟨hx.1, ?_, hx.2.2.1, ?_⟩
    · intro x hx
      change x ∈ (tx.view.events.deleteRowid r.rowid).rows
      rw [hdel]
      refine Events.mem_withoutRows.mpr ⟨hmem x (by simp [hx]), ?_⟩
      rw [List.mem_singleton]
      rintro rfl
      exact hr hx
    · rw [hx.2.1, Conn.update_view, hdel]
      refine Events.ext ?_
      simp only [Events.withoutRows, Events.filter_rows, List.filter_filter]
      refine List.filter_congr fun x _ => ?_
      simp [List.mem_cons, not_or, Bool.and_comm]
    · have hlen := Events.length_withoutRows (t := tx.view.events) (List.nodup_singleton r)
        (by simpa using hr')
      rw [← hdel] at hlen
      have hcount := hx.2.2.2
      simp only [Database.rows, Conn.update_view, List.length_cons, List.length_nil] at *
      omega

/-- Deleting rows of the table by their identifiers: all of them, or none. -/
theorem deleteRowids_cases {rs : List Row} {n : Nat} (hnd : rs.Nodup)
    (hmem : ∀ r ∈ rs, r ∈ db.rows) (h : deleteRowids φ (rs.map Row.rowid) db = (st, n, db')) :
    (st.ok = false ∧ db' = db) ∨
      (st.ok = true ∧ db'.view.events = db.view.events.withoutRows rs ∧
        db'.marker = db.marker ∧ db'.saved = db.saved ∧ n = rs.length) := by
  unfold deleteRowids at h
  split at h
  · rename_i hnil
    obtain rfl : rs = [] := by simpa using hnil
    obtain ⟨rfl, rfl, rfl⟩ : {} = st ∧ 0 = n ∧ db = db' := by simpa using h
    exact Or.inr ⟨rfl, by simp, rfl, rfl, rfl⟩
  · have hclean : Clean db Failed (do
        φ.attempt (.hook .beginQuarantine 0) (injected .beginQuarantine) db
        let tx ← beginImmediate φ db
        φ.attempt (.prepare .deleteRowid) (lastError "prepare delete rowid") tx.rollback
        let x ← deleteRowidsLoop φ 0 (rs.map Row.rowid) 0 tx
        let tx ← commitTransaction φ x.2
        pure (x.1, tx) : Attempt (Nat × Database)) fun x =>
          x.2.view.events = db.view.events.withoutRows rs ∧ Database.marker x.2 = db.marker ∧
            x.2.saved = db.saved ∧ x.1 = rs.length := by
      refine (clean_attempt (fun _ => rfl) rfl).bind fun _ _ => ?_
      refine clean_beginImmediate.bind fun tx htx => ?_
      have hopen : OpenOn db tx := ⟨htx.1, htx.2.2⟩
      have hmem' : ∀ r ∈ rs, r ∈ Database.rows tx := by
        rw [Database.rows, htx.2.1]
        exact hmem
      refine (clean_attempt (fun _ => rfl) hopen.rollback).bind fun _ _ => ?_
      refine (clean_deleteRowidsLoop hopen 0 0 hnd hmem').bind fun x hx => ?_
      refine (clean_commitTransaction hx.1).bind fun d hd => ?_
      obtain ⟨-, hev, hmark, hcount⟩ := hx
      rw [htx.2.1] at hev
      refine ⟨?_, ?_, hd.2, by simpa using hcount⟩
      · rw [hd.1, hev]
      · rw [Database.marker, hd.1]
        exact hmark.trans (congrArg Tables.revocationPending htx.2.1)
    dsimp only at h
    split at h
    · rename_i e c heq
      obtain ⟨rfl, -, rfl⟩ : e = st ∧ 0 = n ∧ c = db' := by simpa using h
      exact Or.inl (hclean.of_error heq)
    · rename_i k c heq
      obtain ⟨rfl, rfl, rfl⟩ : {} = st ∧ k = n ∧ c = db' := by simpa using h
      exact Or.inr ⟨rfl, hclean.of_ok heq⟩

/-! ### Fetching -/

variable {isValidJson : String → Bool}

theorem fetchLoop_read {i : Nat} {rows good bad good' bad' : List Row} {e : Option Status}
    (h : fetchLoop φ isValidJson i rows good bad = (e, good', bad')) :
    ∃ read, read <+: rows ∧ good' = good ++ read.filter (Row.usable isValidJson) ∧
      bad' = bad ++ read.filter (fun r => !r.usable isValidJson) ∧ (e = none → read = rows) := by
  induction rows generalizing i good bad with
  | nil =>
    unfold fetchLoop at h
    split at h <;>
    · simp only [Prod.mk.injEq] at h
      obtain ⟨rfl, rfl, rfl⟩ := h
      exact ⟨[], by simp⟩
  | cons r rows ih =>
    unfold fetchLoop at h
    split at h
    · simp only [Prod.mk.injEq] at h
      obtain ⟨rfl, rfl, rfl⟩ := h
      exact ⟨[], by simp⟩
    · dsimp only at h
      split at h
      · rename_i hu
        obtain ⟨read, hpre, rfl, rfl, hall⟩ := ih h
        exact ⟨r :: read, List.cons_prefix_cons.mpr ⟨rfl, hpre⟩, by simp [hu], by simp [hu],
          fun he => by rw [hall he]⟩
      · rename_i hu
        obtain ⟨read, hpre, rfl, rfl, hall⟩ := ih h
        exact ⟨r :: read, List.cons_prefix_cons.mpr ⟨rfl, hpre⟩, by simp [hu], by simp [hu],
          fun he => by rw [hall he]⟩

/-- A read that is cut short reports an error. -/
theorem fetchLoop_error {i : Nat} {rows good bad good' bad' : List Row} {e : Status}
    (h : fetchLoop φ isValidJson i rows good bad = (some e, good', bad')) : e.ok = false := by
  induction rows generalizing i good bad with
  | nil =>
    unfold fetchLoop at h
    split at h
    · obtain ⟨rfl, -⟩ : _ = e ∧ _ := by simpa using h
      rfl
    · simp at h
  | cons r rows ih =>
    unfold fetchLoop at h
    split at h
    · obtain ⟨rfl, -⟩ : _ = e ∧ _ := by simpa using h
      rfl
    · dsimp only at h
      split at h <;> exact ih h

theorem Events.ordered_perm (t : Events) : t.ordered.Perm t.rows :=
  List.perm_insertionSort _ _

/-- **Fetching** reads a prefix of the first `limit` rows in ordinal order and returns its
usable rows. It changes nothing and reports no quarantined row, or it has read the whole
window and removed exactly the unusable rows of it, and reports their number. -/
theorem fetchPending_cases {limit : Nat} {res : FetchResult}
    (h : fetchPending φ isValidJson limit db = (res, db')) :
    ∃ read, read <+: db.view.events.ordered.take (min limit maxLimit) ∧
      res.events = (read.filter (Row.usable isValidJson)).map Row.serialized ∧
      ((db' = db ∧ res.quarantined = 0 ∧
          (res.status.ok = false ∨
            (read = db.view.events.ordered.take (min limit maxLimit) ∧
              read.filter (fun r => !r.usable isValidJson) = []))) ∨
        (db'.view.events =
            db.view.events.withoutRows (read.filter fun r => !r.usable isValidJson) ∧
          db'.marker = db.marker ∧ db'.saved = db.saved ∧
          res.quarantined = (read.filter fun r => !r.usable isValidJson).length ∧
          read = db.view.events.ordered.take (min limit maxLimit))) := by
  unfold fetchPending at h
  split at h
  · obtain ⟨rfl, rfl⟩ : _ = res ∧ db = db' := by simpa using h
    exact ⟨[], by simp⟩
  split at h
  · obtain ⟨rfl, rfl⟩ : _ = res ∧ db = db' := by simpa using h
    exact ⟨[], by simp⟩
  split at h
  · obtain ⟨rfl, rfl⟩ : _ = res ∧ db = db' := by simpa using h
    exact ⟨[], by simp⟩
  obtain ⟨e, good, bad, hread⟩ : ∃ e good bad, fetchLoop φ isValidJson 0
      (db.view.events.ordered.take (min limit maxLimit)) [] [] = (e, good, bad) := ⟨_, _, _, rfl⟩
  obtain ⟨read, hpre, hgood, hbad, hall⟩ := fetchLoop_read hread
  rw [List.nil_append] at hgood hbad
  simp only [hread] at h
  refine ⟨read, hpre, ?_⟩
  cases e with
  | some st =>
    obtain ⟨rfl, rfl⟩ : _ = res ∧ db = db' := by simpa using h
    exact ⟨by rw [hgood], Or.inl ⟨rfl, rfl, Or.inl (fetchLoop_error hread)⟩⟩
  | none =>
    dsimp only at h
    split at h
    · rename_i hnil
      obtain ⟨rfl, rfl⟩ : _ = res ∧ db = db' := by simpa using h
      exact ⟨by rw [hgood], Or.inl ⟨rfl, rfl, Or.inr ⟨hall rfl, hbad ▸ List.isEmpty_iff.mp hnil⟩⟩⟩
    · -- the unusable rows are rows of the table, each once, so their deletion counts them all
      have hsub : bad.Sublist db.view.events.ordered := by
        rw [hbad]
        exact List.filter_sublist.trans (hpre.sublist.trans (List.take_sublist _ _))
      have hnd : bad.Nodup :=
        ((db.view.events.ordered_perm.nodup_iff).mpr db.view.events.rows_nodup).sublist hsub
      have hmem : ∀ r ∈ bad, r ∈ db.rows := fun r hr => Events.mem_ordered.mp (hsub.subset hr)
      obtain ⟨s, n, d, hdel⟩ : ∃ s n d, deleteRowids φ (bad.map Row.rowid) db = (s, n, d) :=
        ⟨_, _, _, rfl⟩
      rw [hdel] at h
      dsimp only at h
      rcases deleteRowids_cases hnd hmem hdel with ⟨hs, rfl⟩ | ⟨hs, hev, hmark, hsaved, rfl⟩
      · rw [if_neg (by simp [hs])] at h
        simp only [Prod.mk.injEq] at h
        obtain ⟨rfl, rfl⟩ := h
        exact ⟨by rw [hgood], Or.inl ⟨rfl, rfl, Or.inl rfl⟩⟩
      · rw [if_pos ⟨hs, rfl⟩] at h
        simp only [Prod.mk.injEq] at h
        obtain ⟨rfl, rfl⟩ := h
        rw [← hbad]
        exact ⟨by rw [hgood], Or.inr ⟨hev, hmark, hsaved, rfl, hall rfl⟩⟩

/-! ### Marking and purging -/

/-- **Marking** sets the marker and touches no row, or changes nothing. -/
theorem markRevocationPending_cases (h : markRevocationPending φ db = (st, db')) :
    (st.ok = true ∧ db'.view.events = db.view.events ∧ db'.marker = true ∧
        db'.saved = db.saved) ∨
      (st.ok = false ∧ db' = db) := by
  refine settle_cases (Q := fun d => d.view.events = db.view.events ∧ d.marker = true ∧
    d.saved = db.saved) ?_ h
  refine (clean_attempt (fun _ => rfl) rfl).bind fun _ _ => ?_
  refine clean_beginImmediate.bind fun tx htx => ?_
  have hopen : OpenOn db tx := ⟨htx.1, htx.2.2⟩
  refine (clean_attempt (fun _ => rfl) hopen.rollback).bind fun _ _ => ?_
  refine (clean_commitTransaction (hopen.update _)).mono fun d hd => ⟨?_, ?_, hd.2⟩
  · rw [hd.1, Conn.update_view, htx.2.1]
  · rw [Database.marker, hd.1, Conn.update_view]

/-- **Purging** removes every row together with the marker, or changes nothing. -/
theorem purgeAndClearRevocation_cases {n : Nat}
    (h : purgeAndClearRevocation φ db = (st, n, db')) :
    (st.ok = true ∧ db'.view = ⟨.empty, false⟩ ∧ db'.saved = db.saved ∧ n = db.rows.length) ∨
      (st.ok = false ∧ db' = db ∧ n = 0) := by
  unfold purgeAndClearRevocation at h
  have hclean : Clean db Failed (do
      φ.attempt (.hook .purge 0) (injected .purge) db
      let tx ← beginImmediate φ db
      φ.attempt (.exec .deleteEvents) execFailed tx.rollback
      let removed := (Database.rows tx).length
      let tx := tx.update fun t => { t with events := .empty }
      φ.attempt (.exec .clearRevocation) execFailed tx.rollback
      let tx := tx.update fun t => { t with revocationPending := false }
      φ.attempt (.hook .commitPurge 0) (injected .commitPurge) tx.rollback
      let tx ← commitTransaction φ tx
      pure (removed, tx) : Attempt (Nat × Database)) fun x =>
        x.2.view = ⟨.empty, false⟩ ∧ x.2.saved = db.saved ∧ x.1 = db.rows.length := by
    refine (clean_attempt (fun _ => rfl) rfl).bind fun _ _ => ?_
    refine clean_beginImmediate.bind fun tx htx => ?_
    have hopen : OpenOn db tx := ⟨htx.1, htx.2.2⟩
    refine (clean_attempt (fun _ => rfl) hopen.rollback).bind fun _ _ => ?_
    refine (clean_attempt (fun _ => rfl) (hopen.update _).rollback).bind fun _ _ => ?_
    refine (clean_attempt (fun _ => rfl) ((hopen.update _).update _).rollback).bind fun _ _ => ?_
    refine (clean_commitTransaction ((hopen.update _).update _)).bind fun d hd => ?_
    refine ⟨?_, hd.2, by rw [Database.rows, htx.2.1, Database.rows]⟩
    rw [hd.1, Conn.update_view, Conn.update_view]
  dsimp only at h
  split at h
  · rename_i e c heq
    rw [heq] at hclean
    obtain ⟨rfl, rfl, rfl⟩ : e = st ∧ 0 = n ∧ c = db' := by simpa using h
    exact Or.inr ⟨hclean.1, hclean.2, rfl⟩
  · rename_i k c heq
    rw [heq] at hclean
    obtain ⟨rfl, rfl, rfl⟩ : {} = st ∧ k = n ∧ c = db' := by simpa using h
    exact Or.inl ⟨rfl, hclean⟩

/-! ### Counting -/

theorem scalarUint64_eq_ok {b : Bool} {v n : Nat} (h : scalarUint64 φ b v = .ok n) : n = v := by
  unfold scalarUint64 at h
  split at h
  · cases h
  split at h
  · cases h
  split at h <;> cases h
  rfl

/-- `count` returns the number of rows. -/
theorem count_eq_ok {n : Nat} (h : count φ db = .ok n) : n = db.rows.length := by
  unfold count at h
  split at h
  · cases h
  · exact scalarUint64_eq_ok h

/-- `max_ordinal` returns a bound on the ordinals of the table. -/
theorem le_maxOrdinal {n : Nat} (h : maxOrdinal φ db = .ok n) {r : Row} (hr : r ∈ db.rows) :
    r.ordinal ≤ n := by
  rw [scalarUint64_eq_ok h]
  exact Events.le_foldr_max (List.mem_map_of_mem hr)

/-- A count that fails says so. -/
theorem countUpTo_eq_error {b : Nat} {e : Status} (h : countUpTo φ b db = .error e) :
    e.ok = false := by
  unfold countUpTo at h
  split at h
  · obtain rfl := Except.error.inj h
    rfl
  · unfold scalarUint64 at h
    repeat' split at h
    all_goals cases h
    all_goals rfl

/-- `count_up_to` returns zero only when no row is at or below the barrier. -/
theorem countUpTo_eq_zero {b : Nat} (h : countUpTo φ b db = .ok 0) {r : Row} (hr : r ∈ db.rows) :
    b < r.ordinal := by
  unfold countUpTo at h
  split at h
  · cases h
  · have := List.countP_eq_zero.mp (scalarUint64_eq_ok h).symm r hr
    simpa using this

end PlayerTrace
