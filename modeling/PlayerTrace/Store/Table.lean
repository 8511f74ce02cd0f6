import Mathlib.Data.List.Sort
import PlayerTrace.Basic
import PlayerTrace.Lib.Transaction

/-!
# The durable tables

What `src/sqlite_store.cpp` keeps on disk: the rows of `events` and the revocation
marker of `schema_meta`. The table is a structure that carries what SQLite enforces on
it – row identifiers are unique, and so are the non-null values of the primary key – so
a table that violates either cannot be built, and no later proof has to re-establish it.

The statements the store executes are functions on the table:
`PlayerTrace.Events.insertOrIgnore` (`INSERT OR IGNORE`), `PlayerTrace.Events.deleteRowid`,
`PlayerTrace.Events.deleteId` and `PlayerTrace.Events.ordered` (`ORDER BY ordinal`).
-/

namespace PlayerTrace

/-- The function `length` of SQLite: the characters of a text in front of the first NUL. -/
def sqlLength (text : String) : Nat := (text.toList.takeWhile fun c => c ≠ '\x00').length

/-- A text has a length unless it is empty or begins with a NUL. -/
theorem sqlLength_pos {text : String} :
    0 < sqlLength text ↔ text ≠ "" ∧ text.toList.head? ≠ some '\x00' := by
  rw [sqlLength, List.length_pos_iff, ne_eq text, ← String.toList_eq_nil_iff]
  cases text.toList with
  | nil => simp
  | cons c cs => by_cases hc : c = '\x00' <;> simp [hc]

/-- One row ready for insertion, already serialized. -/
structure StoredRecord where
  eventId : String
  sessionId : String
  sequence : Nat
  ordinal : Nat
  createdMs : Int
  payload : String
  deriving DecidableEq, Repr

/-- A row of `events`. The primary key of a rowid table may be null in a file this
program did not write. -/
structure Row where
  rowid : Nat
  eventId : Option String
  sessionId : String
  seq : Nat
  ordinal : Nat
  createdMs : Int
  payload : String
  deriving DecidableEq, Repr

namespace Row

/-- The identity of the event a row holds. -/
def item (r : Row) : Item := ⟨r.eventId, r.ordinal⟩

@[simp] theorem item_ordinal (r : Row) : r.item.ordinal = r.ordinal := rfl

@[simp] theorem item_id (r : Row) : r.item.id = r.eventId := rfl

/-- A row that can be delivered and acknowledged: a usable identifier and a payload that
parses. -/
def usable (isValidJson : String → Bool) (r : Row) : Bool :=
  match r.eventId with
  | none => false
  | some id => id ≠ "" && isValidJson r.payload

end Row

/-- The table `events`, in row identifier order. -/
structure Events where
  rows : List Row
  /-- Row identifiers are unique. -/
  rowid_nodup : (rows.map Row.rowid).Nodup
  /-- `event_id` is the primary key; nulls do not count. -/
  id_nodup : (rows.filterMap Row.eventId).Nodup

namespace Events

@[ext] theorem ext {t t' : Events} (h : t.rows = t'.rows) : t = t' := by
  cases t
  cases t'
  simp only at h
  subst h
  rfl

instance : DecidableEq Events := fun t t' =>
  decidable_of_iff (t.rows = t'.rows) ⟨ext, fun h => h ▸ rfl⟩

/-- The empty table. -/
def empty : Events := ⟨[], List.nodup_nil, List.nodup_nil⟩

@[simp] theorem empty_rows : empty.rows = [] := rfl

/-- Keeping the rows that meet `p`. -/
def filter (t : Events) (p : Row → Bool) : Events where
  rows := t.rows.filter p
  rowid_nodup := t.rowid_nodup.sublist (List.Sublist.map _ List.filter_sublist)
  id_nodup := t.id_nodup.sublist (List.Sublist.filterMap _ List.filter_sublist)

@[simp] theorem filter_rows (t : Events) (p : Row → Bool) :
    (t.filter p).rows = t.rows.filter p := rfl

/-- The identifier SQLite gives the next row: one above the largest in use. -/
def nextRowid (t : Events) : Nat := (t.rows.map Row.rowid).foldr max 0 + 1

/-- `MAX` over a column bounds every value in it. -/
theorem le_foldr_max {l : List Nat} {n : Nat} (h : n ∈ l) : n ≤ l.foldr max 0 := by
  induction l with
  | nil => simp at h
  | cons m l ih =>
    rcases List.mem_cons.mp h with rfl | h
    · exact Nat.le_max_left _ _
    · exact Nat.le_trans (ih h) (Nat.le_max_right _ _)

theorem lt_nextRowid (t : Events) {r : Row} (h : r ∈ t.rows) : r.rowid < t.nextRowid :=
  Nat.lt_succ_of_le (le_foldr_max (List.mem_map_of_mem h))

/-- The row a record becomes. -/
def toRow (t : Events) (r : StoredRecord) : Row :=
  { rowid := t.nextRowid, eventId := some r.eventId, sessionId := r.sessionId, seq := r.sequence,
    ordinal := r.ordinal, createdMs := r.createdMs, payload := r.payload }

/-- Whether a record would be inserted: its key is new and passes `CHECK(length(event_id) > 0)`. -/
def accepts (t : Events) (r : StoredRecord) : Bool :=
  0 < sqlLength r.eventId && !(t.rows.filterMap Row.eventId).contains r.eventId

theorem accepts_eq_true {t : Events} {r : StoredRecord} : t.accepts r = true ↔
    0 < sqlLength r.eventId ∧ ∀ x ∈ t.rows, x.eventId ≠ some r.eventId := by
  simp only [accepts, Bool.and_eq_true, decide_eq_true_eq, Bool.not_eq_true', List.contains_eq_mem,
    decide_eq_false_iff_not, List.mem_filterMap, not_exists, not_and]

/-- `INSERT OR IGNORE INTO events`. -/
def insertOrIgnore (t : Events) (r : StoredRecord) : Events :=
  if h : t.accepts r = true then
    { rows := t.rows ++ [t.toRow r]
      rowid_nodup := by
        rw [List.map_append, List.map_singleton]
        refine List.Nodup.append t.rowid_nodup (List.nodup_singleton _) ?_
        intro n hn hn'
        obtain ⟨x, hx, rfl⟩ := List.mem_map.mp hn
        have : x.rowid = t.nextRowid := by simpa [toRow] using hn'
        exact absurd (t.lt_nextRowid hx) (by omega)
      id_nodup := by
        rw [List.filterMap_append]
        refine List.Nodup.append t.id_nodup (by simp [toRow]) ?_
        intro id hid hid'
        have : id = r.eventId := by simpa [toRow] using hid'
        subst this
        simp only [accepts, Bool.and_eq_true, Bool.not_eq_true', List.contains_eq_mem,
          decide_eq_false_iff_not] at h
        exact h.2 hid }
  else t

theorem insertOrIgnore_rows_of_accepts {t : Events} {r : StoredRecord} (h : t.accepts r = true) :
    (t.insertOrIgnore r).rows = t.rows ++ [t.toRow r] := by
  simp [insertOrIgnore, h]

theorem insertOrIgnore_of_not_accepts {t : Events} {r : StoredRecord}
    (h : t.accepts r = false) : t.insertOrIgnore r = t := by
  simp [insertOrIgnore, h]

/-- `DELETE FROM events WHERE rowid = ?`. -/
def deleteRowid (t : Events) (rowid : Nat) : Events := t.filter fun r => r.rowid ≠ rowid

/-- `DELETE FROM events WHERE event_id = ?`. -/
def deleteId (t : Events) (id : String) : Events := t.filter fun r => r.eventId ≠ some id

/-- `SELECT … ORDER BY ordinal`. -/
def ordered (t : Events) : List Row :=
  t.rows.insertionSort fun a b => a.ordinal ≤ b.ordinal

@[simp] theorem mem_ordered {t : Events} {r : Row} : r ∈ t.ordered ↔ r ∈ t.rows :=
  List.mem_insertionSort _

/-- A table already in ordinal order is read in table order. -/
theorem ordered_eq {t : Events} (h : t.rows.Pairwise fun a b => a.ordinal < b.ordinal) :
    t.ordered = t.rows :=
  List.Pairwise.insertionSort_eq (h.imp Nat.le_of_lt)

end Events

/-- The tables of the store: the pending events and whether a revocation is owed. -/
structure Tables where
  events : Events
  revocationPending : Bool
  deriving DecidableEq

/-- A connection to the tables. -/
abbrev Database := Txn.Conn Tables

namespace Database

/-- The rows a statement on this connection sees. -/
def rows (db : Database) : List Row := db.view.events.rows

/-- The marker a statement on this connection sees. -/
def marker (db : Database) : Bool := db.view.revocationPending

@[ext] theorem ext {db db' : Database} (hv : db.view = db'.view) (hs : db.saved = db'.saved) :
    db = db' := by
  cases db
  cases db'
  simp_all

/-- The identities of the rows that are in `db` and no longer in `db'`. -/
def gone (db db' : Database) : List Item :=
  (db.rows.filter fun r => decide (r ∉ db'.rows)).map Row.item

@[simp] theorem gone_self (db : Database) : db.gone db = [] := by simp [gone]

/-- A database with these tables and no transaction open. -/
def ofRows (t : Events) (marker : Bool) : Database := Txn.Conn.idle ⟨t, marker⟩

end Database

end PlayerTrace
