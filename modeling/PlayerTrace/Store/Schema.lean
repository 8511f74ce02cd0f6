import Mathlib.Data.List.Nodup
import PlayerTrace.Store.Checks
import PlayerTrace.Store.Ops

/-!
# Opening the store

`SqliteStore::open` over an arbitrary database file: the inspection of its schema, the
creation of the schema when the file has none, and the settings made afterwards.

A file (`PlayerTrace.Schema.File`) has tables and indexes, as `sqlite_master` and the `PRAGMA`s
report them, and rows. Names are compared in two ways, and the difference matters. SQLite resolves
the names in a statement without regard to case (`PlayerTrace.Schema.File.resolve`), and this is
how `CREATE … IF NOT EXISTS` finds what is already there; the inspection asks `sqlite_master` for
a name with `=`, which is exact (`PlayerTrace.Schema.File.hasTable`). And `IF NOT EXISTS` only
means an object of the same kind: a table that would take the name of an index is an error, and
so is an index that would take the name of a table.

As in the operations of the store, every call into SQLite is a point at which the environment
may answer with an error. A table of another origin that SQLite takes for one of the store's has
constraints that are not known here; what it makes of the statements is a parameter
(`PlayerTrace.Schema.OtherTables`).
-/

namespace PlayerTrace.Schema

open Txn

/-! ### Database files -/

/-- A row of `PRAGMA table_info`, and an entry of the tables of expected columns. -/
structure Column where
  name : String
  type : String
  notnull : Nat
  pk : Nat
  deriving DecidableEq, Repr

/-- A table: its row of `sqlite_master` and its columns. -/
structure Table where
  name : String
  sql : List UInt8
  columns : List Column
  deriving DecidableEq, Repr

/-- An index: its row of `sqlite_master`, its row of `PRAGMA index_list` and the names
`PRAGMA index_info` reports. -/
structure Index where
  name : String
  tblName : String
  unique : Nat := 0
  origin : String := "c"
  partialIndex : Nat := 0
  columns : List String
  deriving DecidableEq, Repr

/-- A name as SQLite compares it: the case of ASCII letters does not count. -/
def fold (name : String) : List Char := name.toList.map Char.toLower

/-- The column a statement names is there. -/
def Table.hasColumn (t : Table) (name : String) : Bool :=
  t.columns.any fun c => fold c.name = fold name

/-- A database file. The index that SQLite itself makes for a primary key is left out: nothing
here asks for it. -/
structure File (ρ : Type) where
  tables : List Table
  indexes : List Index
  /-- Tables and indexes share one namespace, without regard to case. -/
  names_nodup : ((tables.map Table.name ++ indexes.map Index.name).map fold).Nodup
  /-- An index is on a table of the file. -/
  indexed : ∀ ix ∈ indexes, ∃ t ∈ tables, t.name = ix.tblName
  /-- The rows of the table `events` and the revocation marker in `schema_meta`. -/
  disk : Tables
  /-- The value of the row `schema_version` of `schema_meta`. -/
  version : Option String
  /-- Everything else. -/
  rest : ρ

namespace File

variable {ρ : Type} {file file' : File ρ} {name : String} {t : Table} {ix : Index}

/-- A table of exactly this name. -/
def hasTable (file : File ρ) (name : String) : Bool := file.tables.any fun t => t.name = name

/-- The table a name in a statement stands for. -/
def resolve (file : File ρ) (name : String) : Option Table :=
  file.tables.find? fun t => fold t.name = fold name

/-- The index a name in a statement stands for. -/
def resolveIndex (file : File ρ) (name : String) : Option Index :=
  file.indexes.find? fun ix => fold ix.name = fold name

/-- Some object has this name. -/
def taken (file : File ρ) (name : String) : Bool :=
  (file.tables.map Table.name ++ file.indexes.map Index.name).any fun n => fold n = fold name

theorem not_taken (h : file.taken name = false) :
    fold name ∉ (file.tables.map Table.name ++ file.indexes.map Index.name).map fold := by
  intro hmem
  obtain ⟨n, hn, heq⟩ := List.mem_map.mp hmem
  have htaken : file.taken name = true := List.any_eq_true.mpr ⟨n, hn, decide_eq_true heq⟩
  rw [h] at htaken
  cases htaken

/-- The file with one more table. -/
def addTable (file : File ρ) (t : Table) (h : file.taken t.name = false) : File ρ where
  tables := file.tables ++ [t]
  indexes := file.indexes
  names_nodup := by
    have hperm : ((file.tables ++ [t]).map Table.name ++ file.indexes.map Index.name).Perm
        (t.name :: (file.tables.map Table.name ++ file.indexes.map Index.name)) := by
      rw [List.map_append, List.append_assoc]
      exact List.perm_middle
    refine ((hperm.map fold).nodup_iff).mpr ?_
    exact List.nodup_cons.mpr ⟨not_taken h, file.names_nodup⟩
  indexed ix hix := by
    obtain ⟨t', ht', heq⟩ := file.indexed ix hix
    exact ⟨t', List.mem_append_left _ ht', heq⟩
  disk := file.disk
  version := file.version
  rest := file.rest

/-- The file with one more index. -/
def addIndex (file : File ρ) (ix : Index) (h : file.taken ix.name = false)
    (ht : ∃ t ∈ file.tables, t.name = ix.tblName) : File ρ where
  tables := file.tables
  indexes := file.indexes ++ [ix]
  names_nodup := by
    have hperm : (file.tables.map Table.name ++ (file.indexes ++ [ix]).map Index.name).Perm
        (ix.name :: (file.tables.map Table.name ++ file.indexes.map Index.name)) := by
      rw [List.map_append, ← List.append_assoc]
      exact List.perm_append_comm
    refine ((hperm.map fold).nodup_iff).mpr ?_
    exact List.nodup_cons.mpr ⟨not_taken h, file.names_nodup⟩
  indexed ix' hix' := by
    rcases List.mem_append.mp hix' with hold | hnew
    · exact file.indexed ix' hold
    · rw [List.mem_singleton.mp hnew]
      exact ht
  disk := file.disk
  version := file.version
  rest := file.rest

end File

/-! ### Tables of another origin -/

/-- The operations of the store, with what the environment answers. -/
inductive StoreOp
  | insert (φ : Faults) (records : List StoredRecord)
  | fetchPending (φ : Faults) (isValidJson : String → Bool) (limit : Nat)
  | acknowledge (φ : Faults) (ids : List String)
  | markRevocationPending (φ : Faults)
  | purgeAndClearRevocation (φ : Faults)

/-- The connection after an operation. -/
def StoreOp.run (db : Database) : StoreOp → Database
  | .insert φ records => (PlayerTrace.insert φ records db).2
  | .fetchPending φ isValidJson limit => (PlayerTrace.fetchPending φ isValidJson limit db).2
  | .acknowledge φ ids => (PlayerTrace.acknowledge φ ids db).2.2
  | .markRevocationPending φ => (PlayerTrace.markRevocationPending φ db).2
  | .purgeAndClearRevocation φ => (PlayerTrace.purgeAndClearRevocation φ db).2.2

/-- What SQLite makes of the statements of the store where tables of another origin stand in for
its own. -/
structure OtherTables (ρ : Type) where
  /-- The insertion of the version into a table that has the columns for it. -/
  insertVersion : ρ → Except String ρ
  /-- What an operation commits. -/
  run : Tables × ρ → StoreOp → Tables × ρ

/-! ### Where opening can fail -/

/-- The queries of `open`. -/
inductive Query
  | metaExists
  | eventsExists
  | metaInfo
  | schemaVersion
  | eventsInfo
  | eventsSql
  | indexCheck
  | indexList
  | indexInfo
  | journalMode
  deriving DecidableEq, Repr

/-- How an error message calls the query. -/
def Query.context : Query → String
  | .metaExists => "table_exists"
  | .eventsExists => "table_exists"
  | .metaInfo => "meta table_info"
  | .schemaVersion => "schema_version"
  | .eventsInfo => "table_info"
  | .eventsSql => "events sql"
  | .indexCheck => "index check"
  | .indexList => "index_list"
  | .indexInfo => "index_info"
  | .journalMode => "journal_mode"

/-- What `open` runs through `exec`. -/
inductive Setup
  | beginImmediate
  | createMeta
  | createEvents
  | createIndex
  | insertVersion
  | commit
  | synchronous
  | busyTimeout
  deriving DecidableEq, Repr

/-- A point inside `open`; the number tells the rows of a query apart. -/
inductive OpenPoint
  | connect
  | prepare (q : Query)
  | bind (q : Query)
  | step (q : Query) (i : Nat)
  | exec (s : Setup)
  deriving DecidableEq, Repr

/-- The status of an error at a point. -/
def OpenPoint.report : OpenPoint → String → Status
  | .connect, m => lastError "open" m
  | .prepare q, m => lastError ("prepare " ++ q.context) m
  | .bind q, m => lastError ("bind " ++ q.context) m
  | .step q _, m => lastError ("step " ++ q.context) m
  | .exec _, m => execFailed m

/-- What the environment answers while a file is opened. -/
structure OpenAnswers where
  /-- Nothing, or SQLite's error text. -/
  fault : OpenPoint → Option String

namespace OpenAnswers

/-- Nothing fails. -/
def calm : OpenAnswers := ⟨fun _ => none⟩

/-- One call that may fail. -/
def ask (φ : OpenAnswers) (p : OpenPoint) : Except Status Unit :=
  match φ.fault p with
  | some m => .error (p.report m)
  | none => .ok ()

end OpenAnswers

/-! ### The inspection -/

section Inspection

variable {ρ : Type} (φ : OpenAnswers) (file : File ρ)

/-- `table_exists`. -/
def tableExists (q : Query) (name : String) : Except Status Bool := do
  φ.ask (.prepare q)
  φ.ask (.bind q)
  φ.ask (.step q 0)
  return file.hasTable name

def kEventsColumns : List Column :=
  [⟨"event_id", "TEXT", 1, 1⟩, ⟨"session_id", "TEXT", 1, 0⟩, ⟨"seq", "INTEGER", 1, 0⟩,
    ⟨"ordinal", "INTEGER", 1, 0⟩, ⟨"created_ms", "INTEGER", 1, 0⟩, ⟨"payload", "TEXT", 1, 0⟩]

def kMetaColumns : List Column := [⟨"key", "TEXT", 1, 1⟩, ⟨"value", "TEXT", 1, 0⟩]

/-- Whether a column is the one that is wanted. -/
def Column.matches (c want : Column) : Bool :=
  c.name = want.name ∧ c.type = want.type ∧ c.notnull = want.notnull ∧
    (c.pk ≠ 0 ↔ want.pk ≠ 0)

/-- The texts in which `validate_events_shape` and `validate_meta_shape` differ. -/
structure ShapeTexts where
  /-- What a column message begins with. -/
  column : String
  /-- A column too many. -/
  more : String
  /-- What the message on the number of columns begins with. -/
  count : String

def eventsTexts : ShapeTexts where
  column := "events column "
  more := "events table has more columns than schema version " ++ toString kStoreSchemaVersion ++
    " defines"
  count := "events table has "

def metaTexts : ShapeTexts where
  column := "schema_meta column "
  more := "schema_meta has more columns than schema version " ++ toString kStoreSchemaVersion ++
    " defines; refusing to open"
  count := "schema_meta has "

/-- The message on a column that is not the one wanted. -/
def ShapeTexts.mismatch (T : ShapeTexts) (index : Nat) (c want : Column) : Status :=
  .storage (T.column ++ toString index ++ " is '" ++ c.name ++ " " ++ c.type ++
    "' but schema version " ++ toString kStoreSchemaVersion ++ " requires '" ++ want.name ++ " " ++
    want.type ++ "'; refusing to open")

/-- The loop over the rows of `table_info`: the number of columns, all of them as wanted. -/
def shapeLoop (q : Query) (T : ShapeTexts) :
    Nat → List Column → List Column → Except Status Nat
  | index, [], _ => do
    φ.ask (.step q index)
    return index
  | index, _ :: _, [] => do
    φ.ask (.step q index)
    throw (.storage T.more)
  | index, c :: rows, want :: wants => do
    φ.ask (.step q index)
    if c.matches want then shapeLoop q T (index + 1) rows wants
    else throw (T.mismatch index c want)

/-- What `validate_events_shape` and `validate_meta_shape` have in common. -/
def validateShape (q : Query) (T : ShapeTexts) (rows wants : List Column) :
    Except Status Unit := do
  φ.ask (.prepare q)
  let index ← shapeLoop φ q T 0 rows wants
  if index ≠ wants.length then
    throw (.storage (T.count ++ toString index ++ " column(s); schema version " ++
      toString kStoreSchemaVersion ++ " requires " ++ toString wants.length ++
      "; refusing to open"))

/-- The rows of `PRAGMA table_info`. -/
def tableInfo (name : String) : List Column := ((file.resolve name).map Table.columns).getD []

/-- `validate_meta_shape`. -/
def validateMetaShape : Except Status Unit :=
  validateShape φ .metaInfo metaTexts (tableInfo file "schema_meta") kMetaColumns

/-- The digit loop of `parse_schema_version`. -/
def parseDigits : Nat → List Char → Option Nat
  | value, [] => some value
  | value, c :: cs =>
    if c < '0' ∨ c > '9' then none else parseDigits (value * 10 + (c.toNat - '0'.toNat)) cs

/-- `parse_schema_version`. -/
def parseSchemaVersion (text : String) : Option Nat :=
  if text = "" ∨ text.length > 9 then none
  else
    match parseDigits 0 text.toList with
    | none => none
    | some value => if value > 2 ^ 31 - 1 then none else some value

/-- `read_schema_version`: the version, if the row is there. -/
def readSchemaVersion : Except Status (Option Nat) := do
  φ.ask (.prepare .schemaVersion)
  φ.ask (.step .schemaVersion 0)
  match file.version with
  | none => return none
  | some raw =>
    match parseSchemaVersion raw with
    | none =>
      throw (.storage ("database schema version '" ++ raw ++ "' is malformed; refusing to open"))
    | some version => return some version

/-- No read of the scan of a definition is out of range. -/
theorem validateEventsCheck_isSome (sql : Option (List UInt8)) :
    (validateEventsCheck sql).isSome := by
  cases sql with
  | none => rfl
  | some ddl =>
    obtain ⟨ps, hps, rfl⟩ := SqlText.exists_lexed ddl
    obtain ⟨gs, hgs, -⟩ := checkGroups_spec (toLowerAscii (SqlText.blanked ps))
    simp [validateEventsCheck, stripSqlNoise_eq hps, checkExpressions, hgs]

/-- `validate_events_check`. -/
def validateCheck : Except Status Unit := do
  φ.ask (.prepare .eventsSql)
  φ.ask (.step .eventsSql 0)
  let sql := (file.tables.find? fun t => t.name = "events").map Table.sql
  let s := (validateEventsCheck sql).get (validateEventsCheck_isSome sql)
  if s.ok then return () else throw s

/-- The loop over the rows of `index_list`: whether the index was seen. -/
def indexListLoop : Nat → List Index → Except Status Bool
  | i, [] => do
    φ.ask (.step .indexList i)
    return false
  | i, ix :: rows => do
    φ.ask (.step .indexList i)
    if ix.name ≠ "idx_events_order" then indexListLoop (i + 1) rows
    else if ix.partialIndex ≠ 0 then
      throw (.storage ("idx_events_order is a PARTIAL index; schema version " ++
        toString kStoreSchemaVersion ++ " requires it to cover every row; refusing to open"))
    else if ix.unique ≠ 0 then
      throw (.storage ("idx_events_order is UNIQUE; schema version " ++
        toString kStoreSchemaVersion ++ " defines a non-unique index; refusing to open"))
    else if ix.origin ≠ "c" then
      throw (.storage ("idx_events_order was not created by CREATE INDEX (origin '" ++
        ix.origin ++ "'); refusing to open"))
    else return true

/-- The loop over the rows of `index_info`: the number of columns and the first. -/
def indexInfoLoop : Nat → String → List String → Except Status (Nat × String)
  | columns, first, [] => do
    φ.ask (.step .indexInfo columns)
    return (columns, first)
  | columns, first, name :: rows => do
    φ.ask (.step .indexInfo columns)
    indexInfoLoop (columns + 1) (if columns = 0 then name else first) rows

/-- The rows of `PRAGMA index_list`. -/
def indexList (name : String) : List Index :=
  file.indexes.filter fun ix => fold ix.tblName = fold name

/-- The rows of `PRAGMA index_info`. -/
def indexInfo (name : String) : List String :=
  ((file.resolveIndex name).map Index.columns).getD []

def missingIndex : Status :=
  .storage "database is missing the idx_events_order index; refusing to open"

/-- `validate_order_index`. -/
def validateOrderIndex : Except Status Unit := do
  φ.ask (.prepare .indexCheck)
  φ.ask (.bind .indexCheck)
  φ.ask (.step .indexCheck 0)
  match file.indexes.find? fun ix => ix.name = "idx_events_order" with
  | none => throw missingIndex
  | some ix =>
    if ix.tblName ≠ "events" then
      throw (.storage ("idx_events_order indexes table '" ++ ix.tblName ++
        "' rather than 'events'; refusing to open"))
  φ.ask (.prepare .indexList)
  let seen ← indexListLoop φ 0 (indexList file "events")
  if !seen then throw missingIndex
  φ.ask (.prepare .indexInfo)
  -- the number of columns and the first of them
  let info ← indexInfoLoop φ 0 "" (indexInfo file "idx_events_order")
  if info.1 ≠ 1 ∨ info.2 ≠ "ordinal" then
    throw (.storage ("idx_events_order must index exactly the 'ordinal' column but indexes " ++
      toString info.1 ++ " column(s) starting with '" ++ info.2 ++ "'; refusing to open"))

/-- `validate_events_shape`. -/
def validateEventsShape : Except Status Unit := do
  validateShape φ .eventsInfo eventsTexts (tableInfo file "events") kEventsColumns
  validateCheck φ file
  validateOrderIndex φ file

/-- The inspection of a file that has a table `schema_meta`. -/
def validateSchema : Except Status Unit := do
  validateMetaShape φ file
  match ← readSchemaVersion φ file with
  | none =>
    throw (.storage
      "database has a schema_meta table but no schema_version row; refusing to open")
  | some version =>
    if version ≠ kStoreSchemaVersion then
      throw (.storage ("database schema version " ++ toString version ++
        " is not supported (this build requires version " ++ toString kStoreSchemaVersion ++
        "); refusing to open"))
  let eventsExists ← tableExists φ file .eventsExists "events"
  if !eventsExists then
    throw (.storage "database is missing the events table; refusing to open")
  validateEventsShape φ file

end Inspection

/-! ### The creation -/

section Creation

variable {ρ : Type}

/-- What `kCreateMeta` makes. -/
def metaTable : Table where
  name := "schema_meta"
  sql := bytes "CREATE TABLE schema_meta (  key   TEXT PRIMARY KEY NOT NULL,  value TEXT NOT NULL)"
  columns := kMetaColumns

/-- What `kCreateEvents` makes. -/
def eventsTable : Table where
  name := "events"
  sql := bytes ("CREATE TABLE events (" ++
    "  event_id   TEXT PRIMARY KEY NOT NULL CHECK(length(event_id) > 0)," ++
    "  session_id TEXT NOT NULL," ++ "  seq        INTEGER NOT NULL," ++
    "  ordinal    INTEGER NOT NULL," ++ "  created_ms INTEGER NOT NULL," ++
    "  payload    TEXT NOT NULL)")
  columns := kEventsColumns

/-- `CREATE TABLE IF NOT EXISTS`: a table of the name is left alone, an index of the name is an
error. A new table has no rows, and `init` says so. -/
def createTable (t : Table) (init : File ρ → File ρ) (file : File ρ) : Except String (File ρ) :=
  if h : file.taken t.name = false then .ok (init (file.addTable t h))
  else if (file.resolve t.name).isSome then .ok file
  else .error ("there is already an index named " ++ t.name)

/-- `kCreateMeta`. -/
def createMeta : File ρ → Except String (File ρ) :=
  createTable metaTable fun file =>
    { file with version := none, disk := { file.disk with revocationPending := false } }

/-- `kCreateEvents`. -/
def createEvents : File ρ → Except String (File ρ) :=
  createTable eventsTable fun file => { file with disk := { file.disk with events := .empty } }

/-- `kCreateIndex`: the columns are only looked at when the index is to be made. -/
def createIndex (file : File ρ) : Except String (File ρ) :=
  match ht : file.resolve "events" with
  | none => .error "no such table: main.events"
  | some t =>
    if (file.resolve "idx_events_order").isSome then
      .error "there is already a table named idx_events_order"
    else if h : file.taken "idx_events_order" = false then
      if t.hasColumn "ordinal" then
        .ok (file.addIndex { name := "idx_events_order", tblName := t.name, columns := ["ordinal"] }
          h ⟨t, List.mem_of_find?_eq_some ht, rfl⟩)
      else .error "no such column: ordinal"
    else .ok file

/-- The insertion of the version into a table of another origin. -/
def OtherTables.insert (O : OtherTables ρ) (t : Table) (rest : ρ) : Except String ρ :=
  if t.hasColumn "key" = false then .error "table schema_meta has no column named key"
  else if t.hasColumn "value" = false then .error "table schema_meta has no column named value"
  else O.insertVersion rest

/-- The insertion of the version. -/
def insertVersion (O : OtherTables ρ) (file : File ρ) : Except String (File ρ) :=
  match file.resolve "schema_meta" with
  | none => .error "no such table: schema_meta"
  | some t =>
    if t.name = "schema_meta" then
      if file.version.isSome then .error "UNIQUE constraint failed: schema_meta.key"
      else .ok { file with version := some (toString kStoreSchemaVersion) }
    else (O.insert t file.rest).map fun rest => { file with rest }

/-- A step of `open` on a connection; an early exit leaves the connection it carries. -/
abbrev OpenAttempt (ρ α : Type) := Except (Status × Conn (File ρ)) α

/-- A statement run inside the transaction, which is rolled back when it fails. -/
def OpenAnswers.exec (φ : OpenAnswers) (s : Setup)
    (statement : File ρ → Except String (File ρ)) (tx : Conn (File ρ)) :
    OpenAttempt ρ (Conn (File ρ)) :=
  match φ.fault (.exec s) with
  | some m => .error (execFailed m, tx.rollback)
  | none =>
    match statement tx.view with
    | .error m => .error (execFailed m, tx.rollback)
    | .ok file => .ok (tx.update fun _ => file)

/-- `exec("BEGIN IMMEDIATE;")`. -/
def OpenAnswers.begin (φ : OpenAnswers) (c : Conn (File ρ)) :
    OpenAttempt ρ (Conn (File ρ)) :=
  match φ.fault (.exec .beginImmediate) with
  | some m => .error (execFailed m, c)
  | none =>
    match c.begin with
    | some tx => .ok tx
    | none => .error (execFailed "cannot start a transaction within a transaction", c)

/-- The creation of the schema. -/
def prepareSchema (O : OtherTables ρ) (φ : OpenAnswers) (c : Conn (File ρ)) :
    OpenAttempt ρ (Conn (File ρ)) := do
  let tx ← φ.begin c
  let tx ← φ.exec .createMeta createMeta tx
  let tx ← φ.exec .createEvents createEvents tx
  let tx ← φ.exec .createIndex createIndex tx
  let tx ← φ.exec .insertVersion (insertVersion O) tx
  let tx ← φ.exec .commit .ok tx
  return tx.commit

/-- `inspect_and_prepare_schema`. -/
def inspectAndPrepareSchema (O : OtherTables ρ) (φ : OpenAnswers) (c : Conn (File ρ)) :
    Status × Conn (File ρ) :=
  match tableExists φ c.view .metaExists "schema_meta" with
  | .error s => (s, c)
  | .ok true =>
    match validateSchema φ c.view with
    | .error s => (s, c)
    | .ok () => ({}, c)
  | .ok false =>
    match tableExists φ c.view .eventsExists "events" with
    | .error s => (s, c)
    | .ok true =>
      (.storage ("database contains an events table with no schema_meta; " ++
        "refusing to open an unrecognized database"), c)
    | .ok false =>
      match prepareSchema O φ c with
      | .error e => e
      | .ok c => ({}, c)

/-- The settings made once the schema is accepted. -/
def openSettings (φ : OpenAnswers) : Except Status Unit := do
  φ.ask (.prepare .journalMode)
  φ.ask (.step .journalMode 0)
  φ.ask (.exec .synchronous)
  φ.ask (.exec .busyTimeout)

/-- `SqliteStore::open`: the status, and the file behind the connection. -/
def openStore (O : OtherTables ρ) (φ : OpenAnswers) (file : File ρ) : Status × File ρ :=
  match φ.ask .connect with
  | .error s => (s, file)
  | .ok () =>
    let (s, c) := inspectAndPrepareSchema O φ (.idle file)
    if s.ok = false then (s, c.committed)
    else
      match openSettings φ with
      | .error s => (s, c.committed)
      | .ok () => ({}, c.committed)

end Creation

end PlayerTrace.Schema
