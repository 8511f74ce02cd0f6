import PlayerTrace.Store.Table

/-!
# The operations of the store

`src/sqlite_store.cpp` from `SqliteStore::insert` to `SqliteStore::revocation_pending`.
Every call into SQLite and every call of the fault hook is a `PlayerTrace.Point` at which
the environment may answer with an error (`PlayerTrace.Faults`), and the operations leave
early exactly where the source does, with the rollback the source performs there. SQLite
is assumed to be transactional: a rollback restores the state at `BEGIN`.

The specification lemmas at the end say once what each operation can do; nothing later
unfolds an operation:

| operation | on success | otherwise |
|---|---|---|
| `insert` | `PlayerTrace.insert_cases` | unchanged |
| `fetchPending` | `PlayerTrace.fetchPending_cases` | unchanged, or the unusable rows gone |
| `acknowledge` | `PlayerTrace.acknowledge_cases` | unchanged, or the ids gone and a mismatch |
| `markRevocationPending` | `PlayerTrace.markRevocationPending_cases` | unchanged |
| `purgeAndClearRevocation` | `PlayerTrace.purgeAndClearRevocation_cases` | unchanged |
-/

namespace PlayerTrace

/-! ### Where an operation can fail -/

/-- The prepared statements of the store. -/
inductive Statement
  | insert
  | fetch
  | deleteRowid
  | deleteId
  | scalar
  | revocationPending
  deriving DecidableEq, Repr

/-- The statements run through `exec`. -/
inductive Script
  | beginImmediate
  | commit
  | markRevocation
  | deleteEvents
  | clearRevocation
  deriving DecidableEq, Repr

/-- The names the fault hook is called with. -/
inductive Hook
  | begin
  | prepareInsert
  | bindInsert
  | stepInsert
  | commit
  | count
  | prepareFetch
  | beginQuarantine
  | beginDelete
  | stepDelete
  | commitDelete
  | markRevocation
  | purge
  | commitPurge
  deriving DecidableEq, Repr

/-- What the status of an injected fault says. -/
def Hook.text : Hook → String
  | .begin => "injected fault: begin"
  | .prepareInsert => "injected fault: prepare_insert"
  | .bindInsert => "injected fault: bind_insert"
  | .stepInsert => "injected fault: step_insert"
  | .commit => "injected fault: commit"
  | .count => "injected fault: count"
  | .prepareFetch => "injected fault: fetch"
  | .beginQuarantine => "injected fault: begin_quarantine"
  | .beginDelete => "injected fault: begin_delete"
  | .stepDelete => "injected fault: step_delete"
  | .commitDelete => "injected fault: commit_delete"
  | .markRevocation => "injected fault: mark_revocation"
  | .purge => "injected fault: purge"
  | .commitPurge => "injected fault: commit_purge"

/-- A point inside an operation; the number tells the elements of a loop apart. -/
inductive Point
  | hook (h : Hook) (i : Nat)
  | exec (s : Script)
  | prepare (s : Statement)
  | bind (s : Statement) (i : Nat)
  | step (s : Statement) (i : Nat)
  | reset (s : Statement) (i : Nat)
  | clearBindings (s : Statement) (i : Nat)
  deriving DecidableEq, Repr

/-- What the environment answers at each point: nothing, or SQLite's error text. -/
abbrev Faults := Point → Option String

/-- No point fails. -/
def Faults.none : Faults := fun _ => Option.none

/-- `SqliteStore::last_error`. -/
def lastError (context message : String) : Status := .storage (context ++ ": " ++ message)

/-- The status `SqliteStore::exec` fails with. -/
def execFailed (message : String) : Status := .storage ("exec failed: " ++ message)

/-- The status of an injected fault. -/
def injected (h : Hook) (_ : String) : Status := .storage h.text

@[simp] theorem lastError_code (c m : String) : (lastError c m).code = .storageError := rfl

@[simp] theorem execFailed_code (m : String) : (execFailed m).code = .storageError := rfl

@[simp] theorem injected_code (h : Hook) (m : String) : (injected h m).code = .storageError := rfl

/-- An operation in progress: an early exit carries its status and the connection it
leaves behind. -/
abbrev Attempt (α : Type) := Except (Status × Database) α

/-- One call that may fail; `db` is the connection the exit leaves. -/
def Faults.attempt (φ : Faults) (p : Point) (report : String → Status) (db : Database) :
    Attempt Unit :=
  match φ p with
  | some m => .error (report m, db)
  | Option.none => .ok ()

/-- `exec("BEGIN IMMEDIATE;")`. -/
def beginImmediate (φ : Faults) (db : Database) : Attempt Database := do
  φ.attempt (.exec .beginImmediate) execFailed db
  match db.begin with
  | some tx => pure tx
  | Option.none => throw (execFailed "cannot start a transaction within a transaction", db)

/-- `exec("COMMIT;")`, rolling back when it fails. -/
def commitTransaction (φ : Faults) (tx : Database) : Attempt Database := do
  φ.attempt (.exec .commit) execFailed tx.rollback
  pure tx.commit

/-- The status and the connection an operation ends with. -/
def settle (x : Attempt Database) : Status × Database :=
  match x with
  | .error e => e
  | .ok db => ({}, db)

/-! ### Insertion -/

/-- The loop of `SqliteStore::insert`. -/
def insertLoop (φ : Faults) : Nat → List StoredRecord → Database → Attempt Database
  | _, [], tx => pure tx
  | i, r :: rs, tx => do
    φ.attempt (.hook .bindInsert i) (injected .bindInsert) tx.rollback
    φ.attempt (.bind .insert i) (lastError "bind insert") tx.rollback
    φ.attempt (.hook .stepInsert i) (injected .stepInsert) tx.rollback
    φ.attempt (.step .insert i) (lastError "step insert") tx.rollback
    let tx := tx.update fun t => { t with events := t.events.insertOrIgnore r }
    φ.attempt (.reset .insert i) (lastError "reset insert") tx.rollback
    φ.attempt (.clearBindings .insert i) (lastError "clear bindings") tx.rollback
    insertLoop φ (i + 1) rs tx

/-- `SqliteStore::insert`. -/
def insert (φ : Faults) (records : List StoredRecord) (db : Database) : Status × Database :=
  if records.isEmpty then ({}, db)
  else settle do
    φ.attempt (.hook .begin 0) (injected .begin) db
    let tx ← beginImmediate φ db
    φ.attempt (.hook .prepareInsert 0) (injected .prepareInsert) tx.rollback
    φ.attempt (.prepare .insert) (lastError "prepare insert") tx.rollback
    let tx ← insertLoop φ 0 records tx
    φ.attempt (.hook .commit 0) (injected .commit) tx.rollback
    commitTransaction φ tx

/-! ### Counting -/

/-- `SqliteStore::scalar_uint64`: the failure points around a one-row query. -/
def scalarUint64 (φ : Faults) (useBind : Bool) (value : Nat) : Except Status Nat :=
  match φ (.prepare .scalar) with
  | some m => .error (lastError "prepare scalar" m)
  | Option.none =>
    match if useBind then φ (.bind .scalar 0) else Option.none with
    | some m => .error (lastError "bind scalar" m)
    | Option.none =>
      match φ (.step .scalar 0) with
      | some m => .error (lastError "step scalar" m)
      | Option.none => .ok value

/-- `SqliteStore::count`. -/
def count (φ : Faults) (db : Database) : Except Status Nat :=
  match φ (.hook .count 0) with
  | some m => .error (injected .count m)
  | Option.none => scalarUint64 φ false db.rows.length

/-- `SqliteStore::max_ordinal`: zero on an empty table. -/
def maxOrdinal (φ : Faults) (db : Database) : Except Status Nat :=
  scalarUint64 φ false ((db.rows.map Row.ordinal).foldr max 0)

/-- `SqliteStore::count_up_to`. -/
def countUpTo (φ : Faults) (barrier : Nat) (db : Database) : Except Status Nat :=
  match φ (.hook .count 0) with
  | some m => .error (injected .count m)
  | Option.none => scalarUint64 φ true (db.rows.countP fun r => r.ordinal ≤ barrier)

/-! ### Deletion by row identifier and by event identifier -/

/-- The loop of `SqliteStore::delete_rowids`: the rows removed so far are counted with
`sqlite3_changes`, and the result of clearing the bindings is not looked at. -/
def deleteRowidsLoop (φ : Faults) : Nat → List Nat → Nat → Database → Attempt (Nat × Database)
  | _, [], removed, tx => pure (removed, tx)
  | i, rowid :: rowids, removed, tx => do
    φ.attempt (.bind .deleteRowid i) (lastError "bind delete rowid") tx.rollback
    φ.attempt (.step .deleteRowid i) (lastError "step delete rowid") tx.rollback
    let tx' := tx.update fun t => { t with events := t.events.deleteRowid rowid }
    let changes := (Database.rows tx).length - (Database.rows tx').length
    φ.attempt (.reset .deleteRowid i) (lastError "reset delete rowid") tx'.rollback
    deleteRowidsLoop φ (i + 1) rowids (removed + changes) tx'

/-- `SqliteStore::delete_rowids`: the status, the rows reported as removed, and the
connection. -/
def deleteRowids (φ : Faults) (rowids : List Nat) (db : Database) : Status × Nat × Database :=
  if rowids.isEmpty then ({}, 0, db)
  else
    let body : Attempt (Nat × Database) := do
      φ.attempt (.hook .beginQuarantine 0) (injected .beginQuarantine) db
      let tx ← beginImmediate φ db
      φ.attempt (.prepare .deleteRowid) (lastError "prepare delete rowid") tx.rollback
      let (removed, tx) ← deleteRowidsLoop φ 0 rowids 0 tx
      let tx ← commitTransaction φ tx
      pure (removed, tx)
    match body with
    | .error (s, db) => (s, 0, db)
    | .ok (removed, db) => ({}, removed, db)

/-- The loop of `SqliteStore::delete_ids`. -/
def deleteIdsLoop (φ : Faults) : Nat → List String → Nat → Database → Attempt (Nat × Database)
  | _, [], removed, tx => pure (removed, tx)
  | i, id :: ids, removed, tx => do
    φ.attempt (.bind .deleteId i) (lastError "bind delete") tx.rollback
    φ.attempt (.hook .stepDelete i) (injected .stepDelete) tx.rollback
    φ.attempt (.step .deleteId i) (lastError "step delete") tx.rollback
    let tx' := tx.update fun t => { t with events := t.events.deleteId id }
    let changes := (Database.rows tx).length - (Database.rows tx').length
    φ.attempt (.reset .deleteId i) (lastError "reset delete") tx'.rollback
    φ.attempt (.clearBindings .deleteId i) (lastError "clear bindings") tx'.rollback
    deleteIdsLoop φ (i + 1) ids (removed + changes) tx'

/-- `SqliteStore::delete_ids`. -/
def deleteIds (φ : Faults) (ids : List String) (db : Database) : Status × Nat × Database :=
  if ids.isEmpty then ({}, 0, db)
  else
    let body : Attempt (Nat × Database) := do
      φ.attempt (.hook .beginDelete 0) (injected .beginDelete) db
      let tx ← beginImmediate φ db
      φ.attempt (.prepare .deleteId) (lastError "prepare delete") tx.rollback
      let (removed, tx) ← deleteIdsLoop φ 0 ids 0 tx
      φ.attempt (.hook .commitDelete 0) (injected .commitDelete) tx.rollback
      let tx ← commitTransaction φ tx
      pure (removed, tx)
    match body with
    | .error (s, db) => (s, 0, db)
    | .ok (removed, db) => ({}, removed, db)

/-- `SqliteStore::acknowledge`: the count is compared with the batch only after the
deleting transaction has committed. -/
def acknowledge (φ : Faults) (ids : List String) (db : Database) : Status × Nat × Database :=
  let (s, removed, db) := deleteIds φ ids db
  if s.ok = false then (s, removed, db)
  else if removed ≠ ids.length then
    (.storage ("acknowledgment removed " ++ toString removed ++ " of " ++ toString ids.length ++
      " row(s); the store and the batch disagree"), removed, db)
  else ({}, removed, db)

/-! ### Fetching -/

/-- The result of `fetch_pending`. -/
structure FetchResult where
  status : Status := {}
  events : List SerializedEvent := []
  quarantined : Nat := 0
  deriving DecidableEq, Repr

/-- The serialized event read from a row. -/
def Row.serialized (r : Row) : SerializedEvent := ⟨r.eventId.getD "", r.payload, r.ordinal⟩

/-- A usable row is acknowledged under its own identifier. -/
theorem Row.eventId_of_usable {isValidJson : String → Bool} {r : Row}
    (h : r.usable isValidJson = true) : r.eventId = some r.serialized.eventId := by
  cases hid : r.eventId with
  | none => simp [Row.usable, hid] at h
  | some id => simp [Row.serialized, hid]

/-- The row loop of `fetch_pending`: the usable rows read, the unusable ones, and the
error that cut the read short. -/
def fetchLoop (φ : Faults) (isValidJson : String → Bool) :
    Nat → List Row → List Row → List Row → Option Status × List Row × List Row
  | i, rows, good, bad =>
    match φ (.step .fetch i) with
    | some m => (some (lastError "step fetch" m), good, bad)
    | Option.none =>
      match rows with
      | [] => (Option.none, good, bad)
      | r :: rows =>
        if r.usable isValidJson then fetchLoop φ isValidJson (i + 1) rows (good ++ [r]) bad
        else fetchLoop φ isValidJson (i + 1) rows good (bad ++ [r])

/-- The largest `LIMIT` the query is given. -/
def maxLimit : Nat := 2 ^ 31 - 1

/-- `SqliteStore::fetch_pending`. -/
def fetchPending (φ : Faults) (isValidJson : String → Bool) (limit : Nat) (db : Database) :
    FetchResult × Database :=
  match φ (.hook .prepareFetch 0) with
  | some m => ({ status := injected .prepareFetch m }, db)
  | Option.none =>
    match φ (.prepare .fetch) with
    | some m => ({ status := lastError "prepare fetch" m }, db)
    | Option.none =>
      match φ (.bind .fetch 0) with
      | some m => ({ status := lastError "bind fetch" m }, db)
      | Option.none =>
        let read :=
          fetchLoop φ isValidJson 0 (db.view.events.ordered.take (min limit maxLimit)) [] []
        let events := read.2.1.map Row.serialized
        match read.1 with
        | some s => ({ status := s, events := events }, db)
        | Option.none =>
          if read.2.2.isEmpty then ({ events := events }, db)
          else
            let (deleted, removed, db') := deleteRowids φ (read.2.2.map Row.rowid) db
            if deleted.ok ∧ removed = read.2.2.length then
              ({ status := .storage ("quarantined " ++ toString removed ++
                  " unusable row(s) (bad identifier or payload)")
                 events := events, quarantined := removed }, db')
            else
              ({ status := .storage ("found " ++ toString read.2.2.length ++
                  " unusable row(s) but could not quarantine them: " ++
                  (if deleted.ok then "only " ++ toString removed ++ " removed"
                    else deleted.message))
                 events := events }, db')

/-! ### The durable revocation marker -/

/-- `SqliteStore::mark_revocation_pending`. -/
def markRevocationPending (φ : Faults) (db : Database) : Status × Database :=
  settle do
    φ.attempt (.hook .markRevocation 0) (injected .markRevocation) db
    let tx ← beginImmediate φ db
    φ.attempt (.exec .markRevocation) execFailed tx.rollback
    commitTransaction φ (tx.update fun t => { t with revocationPending := true })

/-- `SqliteStore::purge_and_clear_revocation`: the status, the rows reported as deleted,
and the connection. -/
def purgeAndClearRevocation (φ : Faults) (db : Database) : Status × Nat × Database :=
  let body : Attempt (Nat × Database) := do
    φ.attempt (.hook .purge 0) (injected .purge) db
    let tx ← beginImmediate φ db
    φ.attempt (.exec .deleteEvents) execFailed tx.rollback
    let removed := (Database.rows tx).length
    let tx := tx.update fun t => { t with events := .empty }
    φ.attempt (.exec .clearRevocation) execFailed tx.rollback
    let tx := tx.update fun t => { t with revocationPending := false }
    φ.attempt (.hook .commitPurge 0) (injected .commitPurge) tx.rollback
    let tx ← commitTransaction φ tx
    pure (removed, tx)
  match body with
  | .error (s, db) => (s, 0, db)
  | .ok (removed, db) => ({}, removed, db)

/-- `SqliteStore::revocation_pending`. -/
def revocationPending (φ : Faults) (db : Database) : Except Status Bool :=
  match φ (.prepare .revocationPending) with
  | some m => .error (lastError "prepare revocation_pending" m)
  | Option.none =>
    match φ (.bind .revocationPending 0) with
    | some m => .error (lastError "bind revocation_pending" m)
    | Option.none =>
      match φ (.step .revocationPending 0) with
      | some m => .error (lastError "step revocation_pending" m)
      | Option.none => .ok db.marker

end PlayerTrace
