import PlayerTrace.Store.Spec

/-!
# The mutations of the store are atomic

Every operation of the store that changes a table runs one transaction, with an early exit
at every call that may fail. The lemmas of `PlayerTrace.Store.Spec` say of each what all its
exits have in common. Here they are put together: from any tables, with any choice of what
fails, an operation has its whole effect or none, says which, and leaves no transaction
open.

What the whole effect of an insertion is takes a statement of its own
(`PlayerTrace.Events.insertAll_spec`): `INSERT OR IGNORE` compares with the rows the same
batch has already added, so of several records with one identifier the first one counts. And it
ignores more than duplicates. The table wants `length(event_id) > 0`, and to SQLite a text that
begins with a NUL has no length: such a record is passed over in silence
(`PlayerTrace.insert_ignores_nul`), although the text was bound with all its bytes.
-/

namespace PlayerTrace

/-- The row holds the data of the record. -/
structure StoredRecord.HeldBy (r : StoredRecord) (x : Row) : Prop where
  eventId : x.eventId = some r.eventId
  sessionId : x.sessionId = r.sessionId
  seq : x.seq = r.sequence
  ordinal : x.ordinal = r.ordinal
  createdMs : x.createdMs = r.createdMs
  payload : x.payload = r.payload

/-- A record that an insertion of `records` into `t` takes: its identifier is new, and it is
the first record with it. -/
def Events.Takes (t : Events) (records : List StoredRecord) (r : StoredRecord) : Prop :=
  (∀ x ∈ t.rows, x.eventId ≠ some r.eventId) ∧
    ∃ before after, records = before ++ r :: after ∧ ∀ y ∈ before, y.eventId ≠ r.eventId

namespace Events

variable {t : Events} {records : List StoredRecord} {r : StoredRecord}

theorem toRow_heldBy (t : Events) (r : StoredRecord) : r.HeldBy (t.toRow r) :=
  ⟨rfl, rfl, rfl, rfl, rfl, rfl⟩

/-- What a later record is taken for stays true with one more record in front of it. -/
theorem Takes.cons {r₀ : StoredRecord} (h : (t.insertOrIgnore r₀).Takes records r)
    (hid : ∀ x ∈ t.rows, x ∈ (t.insertOrIgnore r₀).rows)
    (hfirst : r₀.eventId ≠ r.eventId) : t.Takes (r₀ :: records) r := by
  obtain ⟨hnew, before, after, rfl, hbefore⟩ := h
  refine ⟨fun x hx => hnew x (hid x hx), r₀ :: before, after, rfl, fun y hy => ?_⟩
  rcases List.mem_cons.mp hy with rfl | hy
  · exact hfirst
  · exact hbefore y hy

theorem subset_insertOrIgnore (t : Events) (r : StoredRecord) :
    ∀ x ∈ t.rows, x ∈ (t.insertOrIgnore r).rows := by
  intro x hx
  cases ha : t.accepts r with
  | true =>
    rw [insertOrIgnore_rows_of_accepts ha]
    exact List.mem_append_left _ hx
  | false =>
    rw [insertOrIgnore_of_not_accepts ha]
    exact hx

/-- After its insertion an identifier is in the table. -/
theorem mem_insertOrIgnore (hne : 0 < sqlLength r.eventId) :
    ∃ x ∈ (t.insertOrIgnore r).rows, x.eventId = some r.eventId := by
  cases ha : t.accepts r with
  | true =>
    rw [insertOrIgnore_rows_of_accepts ha]
    exact ⟨t.toRow r, List.mem_append_right _ List.mem_cons_self, rfl⟩
  | false =>
    rw [insertOrIgnore_of_not_accepts ha]
    have hnot : ¬(0 < sqlLength r.eventId ∧ ∀ x ∈ t.rows, x.eventId ≠ some r.eventId) := fun h => by
      rw [accepts_eq_true.mpr h] at ha
      cases ha
    simp only [not_and, not_forall, not_not] at hnot
    obtain ⟨x, hx, heq⟩ := hnot hne
    exact ⟨x, hx, heq⟩

/-- **The effect of an insertion.** The rows that were there stay as they are, in front. Each
new row holds the data of the first record with its identifier, which has a length and was not
in the table. And every identifier of the batch that has a length is in the table. -/
theorem insertAll_spec (t : Events) (records : List StoredRecord) :
    ∃ new, (t.insertAll records).rows = t.rows ++ new ∧
      (∀ x ∈ new, ∃ r, t.Takes records r ∧ r.HeldBy x ∧ 0 < sqlLength r.eventId) ∧
      ∀ r ∈ records, 0 < sqlLength r.eventId →
        ∃ x ∈ (t.insertAll records).rows, x.eventId = some r.eventId := by
  induction records generalizing t with
  | nil => exact ⟨[], by simp⟩
  | cons r₀ records ih =>
    obtain ⟨new, hrows, hnew, hall⟩ := ih (t.insertOrIgnore r₀)
    -- the later records are taken as before: a first one with the same identifier is in the table
    have hlater : ∀ x ∈ new, ∃ r, t.Takes (r₀ :: records) r ∧ r.HeldBy x ∧
        0 < sqlLength r.eventId := fun x hx => by
      obtain ⟨r, htakes, hheld, hlen⟩ := hnew x hx
      refine ⟨r, htakes.cons (t.subset_insertOrIgnore r₀) fun heq => ?_, hheld, hlen⟩
      obtain ⟨y, hy, hyid⟩ := mem_insertOrIgnore (t := t) (r := r₀) (heq ▸ hlen)
      exact htakes.1 y hy (heq ▸ hyid)
    have hpresent : ∀ r ∈ r₀ :: records, 0 < sqlLength r.eventId →
        ∃ x ∈ (t.insertAll (r₀ :: records)).rows, x.eventId = some r.eventId := fun r hr hlen => by
      rcases List.mem_cons.mp hr with rfl | hr
      · obtain ⟨y, hy, hyid⟩ := mem_insertOrIgnore (t := t) hlen
        refine ⟨y, ?_, hyid⟩
        rw [insertAll_cons, hrows]
        exact List.mem_append_left _ hy
      · exact hall r hr hlen
    cases ha : t.accepts r₀ with
    | true =>
      refine ⟨t.toRow r₀ :: new, ?_, fun x hx => ?_, hpresent⟩
      · rw [insertAll_cons, hrows, insertOrIgnore_rows_of_accepts ha, List.append_assoc]
        rfl
      · rcases List.mem_cons.mp hx with rfl | hx
        · obtain ⟨hlen, hfresh⟩ := accepts_eq_true.mp ha
          exact ⟨r₀, ⟨hfresh, [], records, rfl, nofun⟩, t.toRow_heldBy r₀, hlen⟩
        · exact hlater x hx
    | false =>
      refine ⟨new, ?_, hlater, hpresent⟩
      rw [insertAll_cons, hrows, insertOrIgnore_of_not_accepts ha]

end Events

/-! ### All four mutations -/

/-- The tables after a whole insertion: the first record of every new identifier is added,
and nothing else changes. -/
def Inserted (records : List StoredRecord) (before after : Tables) : Prop :=
  (∃ new, after.events.rows = before.events.rows ++ new ∧
      ∀ x ∈ new, ∃ r, before.events.Takes records r ∧ r.HeldBy x) ∧
    (∀ r ∈ records, ∃! x, x ∈ after.events.rows ∧ x.eventId = some r.eventId) ∧
    after.revocationPending = before.revocationPending

/-- No transaction is open, so the next one can begin. -/
def Database.Closed (db : Database) : Prop :=
  db.saved = none ∧ ∃ tx, beginImmediate Faults.none db = .ok tx

theorem Database.closed_of_saved {db : Database} (h : db.saved = none) : db.Closed := by
  obtain ⟨v, saved⟩ := db
  obtain rfl : saved = none := h
  exact ⟨rfl, ⟨v, some v⟩, rfl⟩

/-- The rows `fetch_pending` reads with this limit. -/
def Database.window (db : Database) (limit : Nat) : List Row :=
  db.view.events.ordered.take (min limit maxLimit)

variable {db : Database}

/-- **Store mutations are atomic under any fault.** From any tables, and whatever step
fails, each of the four operations has its whole effect and reports it, or leaves the tables
as they were and reports a failure and no removed row; and no transaction stays open. For an
insertion this asks for identifiers that are not empty and do not begin with a NUL: no other is
ever inserted, whatever is reported. -/
theorem store_atomic (hdb : db.saved = none) (φ : Faults) :
    (∀ records st db', insert φ records db = (st, db') →
      db'.Closed ∧
        (((st.ok = true ∧
              ((∀ r ∈ records, r.eventId ≠ "" ∧ r.eventId.toList.head? ≠ some '\x00') →
                Inserted records db.view db'.view)) ∨
            (st.ok = false ∧ db'.view = db.view)) ∧
          ∀ x ∈ db'.rows, x ∈ db.rows ∨
            ∃ id, x.eventId = some id ∧ id ≠ "" ∧ id.toList.head? ≠ some '\x00')) ∧
    (∀ st db', markRevocationPending φ db = (st, db') →
      db'.Closed ∧ ((st.ok = true ∧ db'.view = ⟨db.view.events, true⟩) ∨
        (st.ok = false ∧ db'.view = db.view))) ∧
    (∀ st n db', purgeAndClearRevocation φ db = (st, n, db') →
      db'.Closed ∧ ((st.ok = true ∧ db'.view = ⟨.empty, false⟩ ∧ n = db.rows.length) ∨
        (st.ok = false ∧ db'.view = db.view ∧ n = 0))) ∧
    ∀ isValidJson limit res db', fetchPending φ isValidJson limit db = (res, db') →
      db'.Closed ∧
        ((db'.view.events = db.view.events.withoutRows
              ((db.window limit).filter fun r => !r.usable isValidJson) ∧
            db'.view.revocationPending = db.view.revocationPending ∧
            res.quarantined = ((db.window limit).filter fun r => !r.usable isValidJson).length) ∨
          (res.status.ok = false ∧ db'.view = db.view ∧ res.quarantined = 0)) := by
  refine ⟨fun records st db' h => ?_, fun st db' h => ?_, fun st n db' h => ?_,
    fun isValidJson limit res db' h => ?_⟩
  · rcases insert_cases h with ⟨hok, hev, hmark, hsaved⟩ | ⟨hok, rfl⟩
    · obtain ⟨new, hrows, hnew, hall⟩ := db.view.events.insertAll_spec records
      rw [← hev] at hrows hall
      refine ⟨Database.closed_of_saved (hsaved.trans hdb), Or.inl ⟨hok, fun hne => ?_⟩,
        fun x hx => ?_⟩
      · refine ⟨⟨new, hrows, fun x hx => ?_⟩, fun r hr => ?_, hmark⟩
        · obtain ⟨r, htakes, hheld, -⟩ := hnew x hx
          exact ⟨r, htakes, hheld⟩
        · obtain ⟨x, hx, hid⟩ := hall r hr (sqlLength_pos.mpr (hne r hr))
          exact ⟨x, ⟨hx, hid⟩, fun y hy => Events.eq_of_eventId hy.1 hx hy.2 hid⟩
      · rw [Database.rows, hrows] at hx
        refine (List.mem_append.mp hx).imp_right fun hx => ?_
        obtain ⟨r, -, hheld, hlen⟩ := hnew x hx
        exact ⟨r.eventId, hheld.eventId, sqlLength_pos.mp hlen⟩
    · exact ⟨Database.closed_of_saved hdb, Or.inr ⟨hok, rfl⟩, fun _ hx => Or.inl hx⟩
  · rcases markRevocationPending_cases h with ⟨hok, hev, hmark, hsaved⟩ | ⟨hok, rfl⟩
    · refine ⟨Database.closed_of_saved (hsaved.trans hdb), Or.inl ⟨hok, ?_⟩⟩
      rw [← hev, ← hmark]
      rfl
    · exact ⟨Database.closed_of_saved hdb, Or.inr ⟨hok, rfl⟩⟩
  · rcases purgeAndClearRevocation_cases h with ⟨hok, hv, hsaved, hn⟩ | ⟨hok, rfl, hn⟩
    · exact ⟨Database.closed_of_saved (hsaved.trans hdb), Or.inl ⟨hok, hv, hn⟩⟩
    · exact ⟨Database.closed_of_saved hdb, Or.inr ⟨hok, rfl, hn⟩⟩
  · obtain ⟨read, -, -, ⟨rfl, hq, hwhy⟩ | ⟨hev, hmark, hsaved, hq, hread⟩⟩ := fetchPending_cases h
    · refine ⟨Database.closed_of_saved hdb, ?_⟩
      rcases hwhy with hst | ⟨hread, hnone⟩
      · exact Or.inr ⟨hst, rfl, hq⟩
      · -- everything was read, and nothing of it is unusable
        rw [hread] at hnone
        rw [Database.window, hnone]
        exact Or.inl ⟨by simp, rfl, hq⟩
    · rw [hread] at hev hq
      exact ⟨Database.closed_of_saved (hsaved.trans hdb), Or.inl ⟨hev, hmark, hq⟩⟩

/-- Two records with one identifier into an empty table: the first one is taken, unless the
commit fails. -/
theorem store_atomic_sample : ∃ (records : List StoredRecord) (φ : Faults) (st : Status)
    (db' db'' : Database),
    insert Faults.none records (Database.ofRows .empty false) = ({}, db') ∧
    db'.rows.map Row.payload = ["first"] ∧
    Inserted records ⟨.empty, false⟩ db'.view ∧ db'.Closed ∧
    insert φ records (Database.ofRows .empty false) = (st, db'') ∧ st.ok = false ∧
    db''.Closed := by
  let r : StoredRecord := ⟨"e", "s", 0, 1, 0, "first"⟩
  let records : List StoredRecord := [r, { r with payload := "second" }]
  let φ : Faults := fun p => if p = .exec .commit then some "disk full" else none
  have hne : ∀ x ∈ records, x.eventId ≠ "" ∧ x.eventId.toList.head? ≠ some '\x00' := by decide
  have hidle : (Database.ofRows .empty false).saved = none := rfl
  obtain ⟨hclosed, hins, -⟩ := (store_atomic hidle Faults.none).1 records _ _ rfl
  refine ⟨records, φ, _, _, _, rfl, by decide, ?_, hclosed, rfl, by decide,
    ((store_atomic hidle φ).1 records _ _ rfl).1⟩
  rcases hins with ⟨-, hins⟩ | ⟨hbad, -⟩
  · exact hins hne
  · exact absurd hbad (by decide)

/-- **A record with an identifier that begins with a NUL** is not inserted, and the insertion
succeeds. -/
theorem insert_ignores_nul : ∃ r : StoredRecord, r.eventId = "\x00x" ∧
    insert Faults.none [r] (Database.ofRows .empty false) = ({}, Database.ofRows .empty false) ∧
    ¬Inserted [r] ⟨.empty, false⟩ (Database.ofRows .empty false).view := by
  refine ⟨⟨"\x00x", "s", 0, 1, 0, "payload"⟩, rfl, by decide, fun h => ?_⟩
  obtain ⟨x, ⟨hx, -⟩, -⟩ := h.2.1 _ (List.mem_singleton.mpr rfl)
  cases hx

end PlayerTrace
