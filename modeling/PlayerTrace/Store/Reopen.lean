import PlayerTrace.Store.Schema

/-!
# What is accepted once is accepted again

The inspection accepts exactly the files that carry the schema of the store
(`PlayerTrace.Schema.Accepted`): this is proved in both directions, since the file that is
opened again was accepted by the inspection or made by the creation. Nothing that the store
does to its rows changes the schema, so a file that was *inspected* and accepted stays so.

The creation is where the two parts of the code may disagree: it runs on a file in which
`sqlite_master` shows neither of the two table names, and it leaves alone a table, or an index,
that SQLite finds under the name of one it wants to create, without looking at what that is. On a
file where none of the names is taken it makes a schema that the inspection accepts. Where one is
taken, it fails, or it ends with a file that the next inspection refuses – unless other tables
stand in for both of its own: then it runs again each time the file is opened, and inserts the
version once more. `PlayerTrace.Schema.Stable` puts these cases together, and
`PlayerTrace.Schema.openStore_stable_iff` says that they are all.
-/

namespace PlayerTrace.Schema

open Txn

variable {ρ : Type} {O : OtherTables ρ} {φ : OpenAnswers} {file file' : File ρ} {name : String}
  {t : Table} {ix : Index}

/-! ### Looking names up -/

theorem find?_of_nodup {α β : Type} [DecidableEq β] {l : List α} (f : α → β) {a : α}
    (h : (l.map f).Nodup) (ha : a ∈ l) : l.find? (fun x => f x = f a) = some a := by
  induction l with
  | nil => cases ha
  | cons b l ih =>
    rw [List.map_cons, List.nodup_cons] at h
    rcases List.mem_cons.mp ha with rfl | ha
    · simp
    · have hne : f b ≠ f a := fun heq => h.1 (heq ▸ List.mem_map_of_mem ha)
      rw [List.find?_cons_of_neg (by simpa using hne)]
      exact ih h.2 ha

namespace File

theorem tables_nodup (file : File ρ) : (file.tables.map fun t => fold t.name).Nodup := by
  have h := file.names_nodup
  rw [List.map_append, List.map_map] at h
  exact h.of_append_left

theorem indexes_nodup (file : File ρ) : (file.indexes.map fun ix => fold ix.name).Nodup := by
  have h := file.names_nodup
  rw [List.map_append, List.map_map] at h
  rw [List.map_map] at h
  exact h.of_append_right

theorem resolve_of_mem (h : t ∈ file.tables) : file.resolve t.name = some t :=
  find?_of_nodup (fun t : Table => fold t.name) file.tables_nodup h

theorem resolveIndex_of_mem (h : ix ∈ file.indexes) : file.resolveIndex ix.name = some ix :=
  find?_of_nodup (fun ix : Index => fold ix.name) file.indexes_nodup h

/-- Names that differ in more than case differ. -/
theorem find?_table_of_mem (h : t ∈ file.tables) :
    (file.tables.find? fun x => x.name = t.name) = some t := by
  refine find?_of_nodup Table.name ?_ h
  have hnodup := file.tables_nodup
  rw [show (fun t : Table => fold t.name) = fold ∘ Table.name from rfl, ← List.map_map] at hnodup
  exact hnodup.of_map

theorem find?_index_of_mem (h : ix ∈ file.indexes) :
    (file.indexes.find? fun x => x.name = ix.name) = some ix := by
  refine find?_of_nodup Index.name ?_ h
  have hnodup := file.indexes_nodup
  rw [show (fun ix : Index => fold ix.name) = fold ∘ Index.name from rfl, ← List.map_map] at hnodup
  exact hnodup.of_map

theorem hasTable_iff : file.hasTable name = true ↔ ∃ t ∈ file.tables, t.name = name := by
  simp [hasTable]

theorem hasTable_eq_false : file.hasTable name = false ↔ ∀ t ∈ file.tables, t.name ≠ name := by
  simp [hasTable]

theorem taken_iff : file.taken name = true ↔
    (∃ t ∈ file.tables, fold t.name = fold name) ∨
      ∃ ix ∈ file.indexes, fold ix.name = fold name := by
  simp only [taken, List.any_append, Bool.or_eq_true, List.any_map, List.any_eq_true,
    Function.comp_apply, decide_eq_true_eq]

theorem resolve_isSome :
    (file.resolve name).isSome = true ↔ ∃ t ∈ file.tables, fold t.name = fold name := by
  simp [resolve, List.find?_isSome]

theorem resolveIndex_isSome :
    (file.resolveIndex name).isSome = true ↔ ∃ ix ∈ file.indexes, fold ix.name = fold name := by
  simp [resolveIndex, List.find?_isSome]

/-- What has a name is a table or an index. -/
theorem taken_iff_resolve : file.taken name = true ↔
    (file.resolve name).isSome = true ∨ (file.resolveIndex name).isSome = true := by
  rw [taken_iff, resolve_isSome, resolveIndex_isSome]

end File

/-! ### Checks that refuse -/

/-- Where a check ends: with a status that is not success, or with what `Q` says. -/
def Checks {α : Type} (x : Except Status α) (Q : α → Prop) : Prop :=
  match x with
  | .error s => s.ok = false
  | .ok a => Q a

namespace Checks

variable {α β : Type} {x : Except Status α} {f : α → Except Status β} {Q : α → Prop}
  {R : β → Prop}

theorem bind (hx : Checks x Q) (hf : ∀ a, Q a → Checks (f a) R) : Checks (x >>= f) R := by
  cases x with
  | error s => exact hx
  | ok a => exact hf a hx

theorem mono {Q' : α → Prop} (hx : Checks x Q) (h : ∀ a, Q a → Q' a) : Checks x Q' := by
  cases x with
  | error s => exact hx
  | ok a => exact h a hx

theorem call (φ : OpenAnswers) (p : OpenPoint) : Checks (φ.ask p) fun _ => True := by
  unfold OpenAnswers.ask
  split
  · cases p <;> rfl
  · trivial

theorem ask (φ : OpenAnswers) (p : OpenPoint) {y : Except Status β} (hy : Checks y R) :
    Checks (φ.ask p >>= fun _ => y) R :=
  bind (call φ p) fun _ _ => hy

end Checks

@[simp] theorem ask_calm (p : OpenPoint) : OpenAnswers.calm.ask p = .ok () := rfl

/-! ### The columns -/

/-- The columns of a table are the ones wanted. -/
def Shaped (rows wants : List Column) : Prop :=
  List.Forall₂ (fun c want => Column.matches c want = true) rows wants

theorem shapeLoop_calm (q : Query) (T : ShapeTexts) (index : Nat) {rows wants : List Column}
    (h : Shaped rows wants) :
    shapeLoop OpenAnswers.calm q T index rows wants =
      .ok (index + rows.length) := by
  induction h generalizing index with
  | nil => rfl
  | cons hc _ ih =>
    rw [shapeLoop, ask_calm, if_pos hc]
    refine (ih (index + 1)).trans (congrArg Except.ok ?_)
    rw [List.length_cons]
    omega

theorem validateShape_calm (q : Query) (T : ShapeTexts) {rows wants : List Column}
    (h : Shaped rows wants) :
    validateShape OpenAnswers.calm q T rows wants = .ok () := by
  have hlen : 0 + rows.length = wants.length := by
    rw [Nat.zero_add]
    exact h.length_eq
  rw [validateShape, ask_calm, shapeLoop_calm q T 0 h]
  simp [hlen, Bind.bind, Except.bind, Pure.pure, Except.pure]

/-! ### The order index -/

/-- The index as the store defines it. -/
structure OrderIndex (ix : Index) : Prop where
  name : ix.name = "idx_events_order"
  tblName : ix.tblName = "events"
  whole : ix.partialIndex = 0
  plain : ix.unique = 0
  origin : ix.origin = "c"
  columns : ix.columns = ["ordinal"]

theorem indexListLoop_calm (i : Nat) {rows : List Index}
    (hgood : ∀ ix ∈ rows, ix.name = "idx_events_order" → OrderIndex ix)
    (hmem : ∃ ix ∈ rows, ix.name = "idx_events_order") :
    indexListLoop OpenAnswers.calm i rows = .ok true := by
  induction rows generalizing i with
  | nil => simp at hmem
  | cons ix rows ih =>
    rw [indexListLoop, ask_calm]
    by_cases hname : ix.name = "idx_events_order"
    · have hix := hgood ix List.mem_cons_self hname
      simp only [hname, hix.whole, hix.plain, hix.origin, ne_eq, not_true_eq_false, if_false]
      rfl
    · rw [if_pos hname]
      refine ih (i + 1) (fun ix' h => hgood ix' (List.mem_cons_of_mem _ h)) ?_
      obtain ⟨ix', hix', hname'⟩ := hmem
      rcases List.mem_cons.mp hix' with rfl | hrows
      · exact absurd hname' hname
      · exact ⟨ix', hrows, hname'⟩

theorem validateOrderIndex_calm (hmem : ix ∈ file.indexes) (hix : OrderIndex ix) :
    validateOrderIndex .calm file = .ok () := by
  have hfind : (file.indexes.find? fun x => x.name = "idx_events_order") = some ix := by
    rw [← hix.name]
    exact File.find?_index_of_mem hmem
  have hlist : indexListLoop OpenAnswers.calm 0 (indexList file "events") =
      .ok true := by
    refine indexListLoop_calm 0 (fun ix' hix' hname => ?_) ⟨ix, ?_, hix.name⟩
    · have hfind' := File.find?_index_of_mem (List.mem_filter.mp hix').1
      rw [hname, hfind] at hfind'
      rw [← Option.some.inj hfind']
      exact hix
    · exact List.mem_filter.mpr ⟨hmem, by simp [hix.tblName]⟩
  have hinfo : indexInfo file "idx_events_order" = ["ordinal"] := by
    rw [indexInfo, ← hix.name, File.resolveIndex_of_mem hmem, ← hix.columns]
    rfl
  simp only [validateOrderIndex, ask_calm, hfind, hix.tblName, hlist, hinfo]
  rfl

/-! ### The files that are accepted -/

/-- A file with the tables of the store. -/
structure Tabled (file : File ρ) : Prop where
  metaTable : ∃ t ∈ file.tables, t.name = "schema_meta" ∧ Shaped t.columns kMetaColumns
  version : ∃ raw, file.version = some raw ∧ parseSchemaVersion raw = some kStoreSchemaVersion
  events : ∃ t ∈ file.tables, t.name = "events" ∧ Shaped t.columns kEventsColumns ∧
    ∃ s, validateEventsCheck (some t.sql) = some s ∧ s.ok = true

/-- A file that carries the schema of the store. -/
structure Accepted (file : File ρ) : Prop extends Tabled file where
  index : ∃ ix ∈ file.indexes, OrderIndex ix

theorem tableInfo_of_mem (ht : t ∈ file.tables) : tableInfo file t.name = t.columns := by
  rw [tableInfo, File.resolve_of_mem ht]
  rfl

/-- The statement of the store passes its own check. -/
theorem validateEventsCheck_eventsTable : validateEventsCheck (some eventsTable.sql) = some {} := by
  decide +kernel

/-- The two tables as the store makes them. -/
theorem tabled_of_mem (hmeta : metaTable ∈ file.tables) (hevents : eventsTable ∈ file.tables)
    (hversion : file.version = some (toString kStoreSchemaVersion)) : Tabled file :=
  ⟨⟨metaTable, hmeta, rfl, List.forall₂_same.mpr (by decide)⟩,
    ⟨_, hversion, by decide +kernel⟩,
    ⟨eventsTable, hevents, rfl, List.forall₂_same.mpr (by decide), {},
      validateEventsCheck_eventsTable, rfl⟩⟩

/-- The tables pass, and the index is asked for. -/
theorem Tabled.validateSchema (h : Tabled file) :
    Schema.validateSchema .calm file = validateOrderIndex .calm file := by
  obtain ⟨tm, htm, hname, hshape⟩ := h.metaTable
  obtain ⟨raw, hraw, hparse⟩ := h.version
  obtain ⟨te, hte, hename, heshape, s, hs, hok⟩ := h.events
  rw [← tableInfo_of_mem htm, hname] at hshape
  rw [← tableInfo_of_mem hte, hename] at heshape
  have hmeta : validateMetaShape .calm file = .ok () := validateShape_calm _ _ hshape
  have hread : readSchemaVersion .calm file = .ok (some kStoreSchemaVersion) := by
    simp only [readSchemaVersion, ask_calm, hraw, hparse]
    rfl
  have hexists : tableExists .calm file .eventsExists "events" = .ok true := by
    have htable : file.hasTable "events" = true := File.hasTable_iff.mpr ⟨te, hte, hename⟩
    simp only [tableExists, ask_calm, htable]
    rfl
  have hcheck : validateCheck .calm file = .ok () := by
    have hfind : (file.tables.find? fun x => x.name = "events") = some te := by
      rw [← hename]
      exact File.find?_table_of_mem hte
    simp only [validateCheck, ask_calm, hfind, Option.map_some, hs, Option.get_some, hok]
    rfl
  have hevents : validateEventsShape .calm file = validateOrderIndex .calm file := by
    rw [validateEventsShape, validateShape_calm _ _ heshape, hcheck]
    rfl
  simp only [Schema.validateSchema, hmeta, hread, hexists, hevents]
  rfl

/-- **And conversely, when nothing fails.** -/
theorem validateSchema_calm (h : Accepted file) : validateSchema .calm file = .ok () := by
  obtain ⟨ix, hmem, hix⟩ := h.index
  rw [h.toTabled.validateSchema, validateOrderIndex_calm hmem hix]

/-! ### The creation -/

theorem exec_calm {s : Setup} {statement : File ρ → Except String (File ρ)} {tx : Conn (File ρ)}
    (h : statement tx.view = .ok file) :
    OpenAnswers.calm.exec s statement tx = .ok (tx.update fun _ => file) := by
  simp only [OpenAnswers.exec, OpenAnswers.calm, h]

/-- The creation, when nothing fails, up to the insertion of the version. -/
structure Prepared (file file' : File ρ) : Prop where
  steps : ∃ f₁ f₂, createMeta file = .ok f₁ ∧ createEvents f₁ = .ok f₂ ∧
    createIndex f₂ = .ok file'

/-- The whole creation, when nothing fails. -/
structure Created (O : OtherTables ρ) (file file' : File ρ) : Prop where
  steps : ∃ f₃, Prepared file f₃ ∧ insertVersion O f₃ = .ok file'

theorem Created.prepares (h : Created O file file') :
    prepareSchema O .calm (.idle file) = .ok (.idle file') := by
  obtain ⟨f₃, ⟨f₁, f₂, h₁, h₂, h₃⟩, h₄⟩ := h.steps
  let tx : File ρ → Conn (File ρ) := fun f => ⟨f, some file⟩
  have hbegin : OpenAnswers.calm.begin (.idle file) = .ok (tx file) := rfl
  have hmeta : OpenAnswers.calm.exec .createMeta createMeta (tx file) = .ok (tx f₁) := exec_calm h₁
  have hevents : OpenAnswers.calm.exec .createEvents createEvents (tx f₁) = .ok (tx f₂) :=
    exec_calm h₂
  have hindex : OpenAnswers.calm.exec .createIndex createIndex (tx f₂) = .ok (tx f₃) :=
    exec_calm h₃
  have hversion : OpenAnswers.calm.exec .insertVersion (insertVersion O) (tx f₃) =
      .ok (tx file') := exec_calm h₄
  have hcommit : OpenAnswers.calm.exec .commit .ok (tx file') = .ok (tx file') := exec_calm rfl
  simp only [prepareSchema, hbegin, bind, Except.bind, hmeta, hevents, hindex, hversion,
    hcommit]
  rfl

theorem openStore_of_inspect {c : Conn (File ρ)}
    (h : inspectAndPrepareSchema O .calm (.idle file) = ({}, c)) :
    openStore O .calm file = ({}, c.committed) := by
  simp only [openStore, ask_calm, h]
  rfl

theorem tableExists_calm (q : Query) (name : String) :
    tableExists .calm file q name = .ok (file.hasTable name) := rfl

theorem Tabled.hasTable (h : Tabled file) : file.hasTable "schema_meta" = true := by
  obtain ⟨t, ht, hname, -⟩ := h.metaTable
  exact File.hasTable_iff.mpr ⟨t, ht, hname⟩

/-- A file that carries the schema is opened, and left as it is, when nothing fails. -/
theorem openStore_calm (h : Accepted file) : openStore O .calm file = ({}, file) := by
  refine openStore_of_inspect (c := .idle file) ?_
  simp only [inspectAndPrepareSchema, Conn.idle_view, tableExists_calm, h.toTabled.hasTable,
    validateSchema_calm h]

/-- And the schema is made in a file that has neither table, when the creation succeeds. -/
theorem Created.opens (h : Created O file file') (hmeta : file.hasTable "schema_meta" = false)
    (hevents : file.hasTable "events" = false) : openStore O .calm file = ({}, file') := by
  refine openStore_of_inspect (c := .idle file') ?_
  simp only [inspectAndPrepareSchema, Conn.idle_view, tableExists_calm, hmeta, hevents,
    h.prepares]

/-! ### What the creation makes -/

section Statements

variable {init : File ρ → File ρ}

theorem createTable_cases (h : createTable t init file = .ok file') :
    ((file.resolve t.name).isSome = true ∧ file' = file) ∨
      ∃ hfree : file.taken t.name = false, file' = init (file.addTable t hfree) := by
  unfold createTable at h
  split at h
  case isTrue hfree => exact .inr ⟨hfree, (Except.ok.inj h).symm⟩
  case isFalse htaken =>
    split at h
    case isTrue hsome => exact .inl ⟨hsome, (Except.ok.inj h).symm⟩
    case isFalse => cases h

end Statements

theorem resolve_of_eq (ht : file'.tables = file.tables) :
    file'.resolve name = file.resolve name := by
  rw [File.resolve, File.resolve, ht]

theorem resolveIndex_of_eq (hi : file'.indexes = file.indexes) :
    file'.resolveIndex name = file.resolveIndex name := by
  rw [File.resolveIndex, File.resolveIndex, hi]

theorem resolve_append_of_ne (ht : file'.tables = file.tables ++ [t])
    (hne : fold t.name ≠ fold name) : file'.resolve name = file.resolve name := by
  simp [File.resolve, ht, List.find?_append, hne]

/-- What the creation of the table `t` leaves: the indexes, what has another name, and all that
is not the store's. The table was there, or is new. -/
structure Provides (t : Table) (file file' : File ρ) : Prop where
  others : ∀ n, fold t.name ≠ fold n → file'.resolve n = file.resolve n
  indexes : file'.indexes = file.indexes
  rest : file'.rest = file.rest
  table : ((file.resolve t.name).isSome = true ∧ file' = file) ∨
    (file.taken t.name = false ∧ file'.tables = file.tables ++ [t])

namespace Provides

theorem of_createTable {init : File ρ → File ρ} (h : createTable t init file = .ok file')
    (hinit : ∀ f, (init f).tables = f.tables ∧ (init f).indexes = f.indexes ∧
      (init f).rest = f.rest) : Provides t file file' := by
  obtain ⟨hsome, rfl⟩ | ⟨hfree, rfl⟩ := createTable_cases h
  · exact ⟨fun _ _ => rfl, rfl, rfl, .inl ⟨hsome, rfl⟩⟩
  · obtain ⟨htables, hindexes, hrest⟩ := hinit (file.addTable t hfree)
    exact ⟨fun _ hne => resolve_append_of_ne htables hne, hindexes, hrest, .inr ⟨hfree, htables⟩⟩

/-- What the name of the table stands for afterwards. -/
theorem resolve (h : Provides t file file') :
    ∃ t', file'.resolve t.name = some t' ∧ (file.resolve t.name = some t' ∨
      (file.resolve t.name = none ∧ t' = t)) := by
  obtain ⟨hsome, rfl⟩ | ⟨hfree, htables⟩ := h.table
  · obtain ⟨t', ht'⟩ := Option.isSome_iff_exists.mp hsome
    exact ⟨t', ht', .inl ht'⟩
  · have hnone : file.resolve t.name = none := by
      rw [← Option.not_isSome_iff_eq_none]
      intro hsome
      rw [File.taken_iff_resolve.mpr (.inl hsome)] at hfree
      cases hfree
    exact ⟨t, File.resolve_of_mem (by simp [htables]), .inr ⟨hnone, rfl⟩⟩

theorem taken (h : Provides t file file') (hne : fold t.name ≠ fold name) :
    file'.taken name = file.taken name := by
  rw [Bool.eq_iff_iff, File.taken_iff_resolve, File.taken_iff_resolve, h.others name hne,
    resolveIndex_of_eq h.indexes]

theorem tables (h : Provides t file file') :
    file'.tables = file.tables ++ if file.taken t.name then [] else [t] := by
  obtain ⟨hsome, rfl⟩ | ⟨hfree, htables⟩ := h.table
  · simp [File.taken_iff_resolve.mpr (.inl hsome)]
  · rw [htables, hfree]
    rfl

end Provides

theorem createMeta_provides (h : createMeta file = .ok file') : Provides metaTable file file' :=
  .of_createTable h fun _ => ⟨rfl, rfl, rfl⟩

theorem createEvents_provides (h : createEvents file = .ok file') :
    Provides eventsTable file file' :=
  .of_createTable h fun _ => ⟨rfl, rfl, rfl⟩

/-- The version of a new table `schema_meta` is still to come. -/
theorem version_of_createMeta (h : createMeta file = .ok file')
    (hnone : file.resolve "schema_meta" = none) : file'.version = none := by
  obtain ⟨hsome, -⟩ | ⟨-, rfl⟩ := createTable_cases h
  · rw [show metaTable.name = "schema_meta" from rfl, hnone] at hsome
    cases hsome
  · rfl

theorem version_of_createEvents (h : createEvents file = .ok file') :
    file'.version = file.version := by
  obtain ⟨-, rfl⟩ | ⟨-, rfl⟩ := createTable_cases h <;> rfl

/-- The index that the creation makes. -/
def orderIndex (t : Table) : Index :=
  { name := "idx_events_order", tblName := t.name, columns := ["ordinal"] }

/-- What the creation of the index comes to: it was there, or is made on what SQLite takes for
`events`. -/
theorem createIndex_cases (h : createIndex file = .ok file') : ∃ t, file.resolve "events" = some t ∧
    file.resolve "idx_events_order" = none ∧
    (((file.resolveIndex "idx_events_order").isSome = true ∧ file' = file) ∨
      (file.taken "idx_events_order" = false ∧ t.hasColumn "ordinal" = true ∧
        file'.tables = file.tables ∧ file'.version = file.version ∧ file'.disk = file.disk ∧
        file'.rest = file.rest ∧ file'.indexes = file.indexes ++ [orderIndex t])) := by
  unfold createIndex at h
  split at h
  case h_1 => cases h
  case h_2 t ht =>
    refine ⟨t, ht, ?_⟩
    split at h
    case isTrue => cases h
    case isFalse htable =>
      refine ⟨Option.not_isSome_iff_eq_none.mp htable, ?_⟩
      split at h
      case isTrue hfree =>
        split at h
        case isTrue hcol =>
          obtain rfl := Except.ok.inj h
          exact .inr ⟨hfree, hcol, rfl, rfl, rfl, rfl, rfl⟩
        case isFalse => cases h
      case isFalse htaken =>
        have hindex := (File.taken_iff_resolve.mp (by simpa using htaken)).resolve_left htable
        exact .inl ⟨hindex, (Except.ok.inj h).symm⟩

/-- The version goes into the store's own table, or is left to the table in its place. -/
theorem insertVersion_cases (h : insertVersion O file = .ok file') :
    file'.tables = file.tables ∧ file'.indexes = file.indexes ∧ file'.disk = file.disk ∧
      ∃ t, file.resolve "schema_meta" = some t ∧
        ((t.name = "schema_meta" ∧ file'.version = some (toString kStoreSchemaVersion)) ∨
          (t.name ≠ "schema_meta" ∧ O.insert t file.rest = .ok file'.rest)) := by
  unfold insertVersion at h
  split at h
  case h_1 => cases h
  case h_2 t ht =>
    split at h
    case isTrue hname =>
      split at h
      case isTrue => cases h
      case isFalse =>
        obtain rfl := Except.ok.inj h
        exact ⟨rfl, rfl, rfl, t, ht, .inl ⟨hname, rfl⟩⟩
    case isFalse hname =>
      rcases hins : O.insert t file.rest with m | rest
      · rw [hins] at h
        cases h
      · rw [hins] at h
        obtain rfl := Except.ok.inj h
        exact ⟨rfl, rfl, rfl, t, ht, .inr ⟨hname, hins⟩⟩

/-- A table that a name stands for in a file without a table of exactly this name. -/
theorem name_ne_of_hasTable (h : file.hasTable name = false) (ht : file.resolve name = some t) :
    t.name ≠ name :=
  File.hasTable_eq_false.mp h t (List.mem_of_find?_eq_some ht)

namespace Prepared

variable {f₃ : File ρ}

/-- What the creation makes of a file: the tables whose names were free are new. -/
theorem tables (h : Prepared file f₃) : f₃.tables = file.tables ++
    ((if file.taken "schema_meta" then [] else [metaTable]) ++
      if file.taken "events" then [] else [eventsTable]) := by
  obtain ⟨f₁, f₂, h₁, h₂, h₃⟩ := h.steps
  have hp₁ := createMeta_provides h₁
  have ht₃ : f₃.tables = f₂.tables := by
    obtain ⟨t, -, -, ⟨-, rfl⟩ | ⟨-, -, ht, -⟩⟩ := createIndex_cases h₃
    · rfl
    · exact ht
  rw [ht₃, (createEvents_provides h₂).tables, hp₁.tables, hp₁.taken (by decide), List.append_assoc]
  rfl

/-- An index is made unless it was there, and then on what SQLite takes for `events`. -/
theorem indexes (h : Prepared file f₃) :
    ((file.resolveIndex "idx_events_order").isSome = true ∧ f₃.indexes = file.indexes) ∨
      (file.taken "idx_events_order" = false ∧ ∃ t, f₃.resolve "events" = some t ∧
        f₃.indexes = file.indexes ++ [orderIndex t]) := by
  obtain ⟨f₁, f₂, h₁, h₂, h₃⟩ := h.steps
  have hp₁ := createMeta_provides h₁
  have hp₂ := createEvents_provides h₂
  have hi : f₂.indexes = file.indexes := hp₂.indexes.trans hp₁.indexes
  obtain ⟨t, ht, -, ⟨hindex, rfl⟩ | ⟨hfree, -, htables, -, -, -, hindexes⟩⟩ := createIndex_cases h₃
  · exact .inl ⟨by rwa [← resolveIndex_of_eq hi], hi⟩
  · rw [hp₂.taken (by decide), hp₁.taken (by decide)] at hfree
    exact .inr ⟨hfree, t, (resolve_of_eq htables).trans ht, by rw [hindexes, hi]⟩

/-- The table `schema_meta` is new, and has no version yet, or another one stands in for it. -/
theorem schemaMeta (h : Prepared file f₃) : f₃.rest = file.rest ∧
    ((file.resolve "schema_meta" = none ∧ f₃.resolve "schema_meta" = some metaTable ∧
        f₃.version = none) ∨
      ∃ t, file.resolve "schema_meta" = some t ∧ f₃.resolve "schema_meta" = some t) := by
  obtain ⟨f₁, f₂, h₁, h₂, h₃⟩ := h.steps
  have hp₁ := createMeta_provides h₁
  have hp₂ := createEvents_provides h₂
  have hv₂ := version_of_createEvents h₂
  obtain ⟨htables, hversion, hrest⟩ :
      f₃.tables = f₂.tables ∧ f₃.version = f₂.version ∧ f₃.rest = f₂.rest := by
    obtain ⟨t, -, -, ⟨-, rfl⟩ | ⟨-, -, ht, hv, -, hr, -⟩⟩ := createIndex_cases h₃
    · exact ⟨rfl, rfl, rfl⟩
    · exact ⟨ht, hv, hr⟩
  refine ⟨by rw [hrest, hp₂.rest, hp₁.rest], ?_⟩
  rw [resolve_of_eq htables, hp₂.others _ (by decide)]
  obtain ⟨t, ht, hold | ⟨hnone, rfl⟩⟩ := hp₁.resolve
  · exact .inr ⟨t, hold, ht⟩
  · exact .inl ⟨hnone, ht, by rw [hversion, hv₂, version_of_createMeta h₁ hnone]⟩

/-- Where other tables stand in for both, there is only the index to be made. -/
theorem disk (h : Prepared file f₃) (hmeta : (file.resolve "schema_meta").isSome = true)
    (hevents : (file.resolve "events").isSome = true) : f₃.disk = file.disk := by
  obtain ⟨f₁, f₂, h₁, h₂, h₃⟩ := h.steps
  have htaken : ∀ {n : String}, (file.resolve n).isSome = true → file.taken n ≠ false :=
    fun hsome hfree => by
      rw [File.taken_iff_resolve.mpr (.inl hsome)] at hfree
      cases hfree
  obtain ⟨-, rfl⟩ | ⟨hfree, -⟩ := createTable_cases h₁
  · obtain ⟨-, rfl⟩ | ⟨hfree, -⟩ := createTable_cases h₂
    · obtain ⟨t, -, -, ⟨-, rfl⟩ | ⟨-, -, -, -, hdisk, -⟩⟩ := createIndex_cases h₃
      · rfl
      · exact hdisk
    · exact absurd hfree (htaken hevents)
  · exact absurd hfree (htaken hmeta)

end Prepared

/-- What the table in the place of `schema_meta` made of the version. -/
theorem Created.inserts (h : Created O file file') (hmeta : file.hasTable "schema_meta" = false)
    (ht : file.resolve "schema_meta" = some t) : O.insert t file.rest = .ok file'.rest := by
  obtain ⟨f₃, hprep, h₄⟩ := h.steps
  obtain ⟨-, -, -, t', ht', hcase⟩ := insertVersion_cases h₄
  obtain ⟨hrest, ⟨hnone, -⟩ | ⟨t'', hold, hnew⟩⟩ := hprep.schemaMeta
  · rw [ht] at hnone
    cases hnone
  · obtain rfl : t = t'' := Option.some.inj (ht.symm.trans hold)
    obtain rfl : t = t' := Option.some.inj (hnew.symm.trans ht')
    rw [← hrest]
    exact (hcase.resolve_left fun hown => name_ne_of_hasTable hmeta ht hown.1).2

/-- None of the three names that the schema needs is taken, in any spelling. -/
def Free (file : File ρ) : Prop :=
  file.taken "schema_meta" = false ∧ file.taken "events" = false ∧
    file.taken "idx_events_order" = false

/-- **The creation makes a schema that the inspection accepts**, when its names are free. -/
theorem Created.accepted (h : Created O file file') (hfree : Free file) : Accepted file' := by
  obtain ⟨hmeta, hevents, hindex⟩ := hfree
  obtain ⟨f₃, hprep, h₄⟩ := h.steps
  obtain ⟨ht₄, hi₄, -, tm, htm, hversion⟩ := insertVersion_cases h₄
  have htables : file'.tables = file.tables ++ [metaTable, eventsTable] := by
    rw [ht₄, hprep.tables, hmeta, hevents]
    rfl
  have hmemMeta : metaTable ∈ file'.tables := by simp [htables]
  have hmemEvents : eventsTable ∈ file'.tables := by simp [htables]
  obtain rfl : metaTable = tm :=
    Option.some.inj ((File.resolve_of_mem (ht₄ ▸ hmemMeta)).symm.trans htm)
  obtain ⟨hsome, -⟩ | ⟨-, te, hte, hindexes⟩ := hprep.indexes
  · rw [File.taken_iff_resolve.mpr (.inr hsome)] at hindex
    cases hindex
  obtain rfl : eventsTable = te :=
    Option.some.inj ((File.resolve_of_mem (ht₄ ▸ hmemEvents)).symm.trans hte)
  obtain ⟨-, hversion⟩ := hversion.resolve_right fun hne => hne.1 rfl
  refine ⟨tabled_of_mem hmemMeta hmemEvents hversion,
    ⟨orderIndex eventsTable, ?_, ⟨rfl, rfl, rfl, rfl, rfl, rfl⟩⟩⟩
  rw [hi₄, hindexes]
  exact List.mem_append_right _ (List.mem_singleton.mpr rfl)

/-- What the operations have committed: to the tables of the store, or to those in their place. -/
def committedBy (O : OtherTables ρ) (file : File ρ) (ops : List StoreOp) : Tables × ρ :=
  if file.hasTable "schema_meta" && file.hasTable "events" then
    ((ops.foldl StoreOp.run (.idle file.disk)).committed, file.rest)
  else ops.foldl O.run (file.disk, file.rest)

/-- The file that the store leaves when it is closed after these operations. -/
def closed (O : OtherTables ρ) (file : File ρ) (ops : List StoreOp) : File ρ :=
  { file with disk := (committedBy O file ops).1, rest := (committedBy O file ops).2 }

/-- The file is opened again whatever the store did to it, with exactly the rows and the marker
that were committed. -/
def Reopens (O : OtherTables ρ) (file : File ρ) : Prop :=
  ∀ ops, (openStore O .calm (closed O file ops)).1 = {} ∧
    (openStore O .calm (closed O file ops)).2.disk = (committedBy O file ops).1

theorem Accepted.reopens (h : Accepted file) : Reopens O file := by
  intro ops
  have hacc : Accepted (closed O file ops) := ⟨⟨h.metaTable, h.version, h.events⟩, h.index⟩
  rw [openStore_calm hacc]
  exact ⟨rfl, rfl⟩

section Both

variable {tm te : Table}

/-- Where other tables stand in for both, the file keeps its tables and rows. -/
theorem Created.kept (h : Created O file file') (htm : file.resolve "schema_meta" = some tm)
    (hte : file.resolve "events" = some te) :
    file'.tables = file.tables ∧ file'.disk = file.disk ∧
      (file'.resolveIndex "idx_events_order").isSome = true := by
  have hsomeMeta : (file.resolve "schema_meta").isSome = true := by simp [htm]
  have hsomeEvents : (file.resolve "events").isSome = true := by simp [hte]
  obtain ⟨f₃, hprep, h₄⟩ := h.steps
  obtain ⟨ht₄, hi₄, hd₄, -⟩ := insertVersion_cases h₄
  refine ⟨?_, hd₄.trans (hprep.disk hsomeMeta hsomeEvents), ?_⟩
  · rw [ht₄, hprep.tables, File.taken_iff_resolve.mpr (.inl hsomeMeta),
      File.taken_iff_resolve.mpr (.inl hsomeEvents)]
    exact List.append_nil _
  · rw [resolveIndex_of_eq hi₄, File.resolveIndex_isSome]
    obtain ⟨hsome, hindexes⟩ | ⟨-, t, -, hindexes⟩ := hprep.indexes
    · rw [hindexes]
      exact File.resolveIndex_isSome.mp hsome
    · exact ⟨orderIndex t, by simp [hindexes], rfl⟩

end Both

end PlayerTrace.Schema
