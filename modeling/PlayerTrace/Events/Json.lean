import PlayerTrace.Events.Timestamp
import PlayerTrace.Events.Validator
import PlayerTrace.Lib.OrderedMap

/-!
# `JsonSerializer::serialize`

`src/json_serializer.cpp` over the values of `nlohmann::ordered_json` that it builds: a document
is an ordered map of fields, one of which is an ordered map of scalars. The library itself is
given (`PlayerTrace.Nlohmann`): `dump` throws on ill-formed UTF-8 only, and what it writes is
read back as the same value, as long as every number in it is finite – it writes any other number
as `null`.

Reading a document by its field names is `PlayerTrace.decode`. An event whose texts are in UTF-8,
whose numbers are finite and whose property keys are distinct is read back as it was
(`PlayerTrace.Presentable.roundTrips`).
-/

namespace PlayerTrace

/-! ### Documents -/

/-- A value without members. -/
inductive Scalar
  | boolean (value : Bool)
  | integer (value : Int)
  | number (value : Double)
  | string (value : String)
  deriving DecidableEq, Repr

/-- The value of a field. -/
inductive Value
  | scalar (value : Scalar)
  | object (members : OrderedMap String Scalar)

/-- An object of fields. -/
abbrev Document := OrderedMap String Value

namespace Scalar

/-- The texts in a value. -/
def texts : Scalar → List String
  | .string value => [value]
  | .boolean _ | .integer _ | .number _ => []

/-- The numbers in a value that are not integers. -/
def numbers : Scalar → List Double
  | .number value => [value]
  | .boolean _ | .integer _ | .string _ => []

end Scalar

namespace Value

def texts : Value → List String
  | .scalar value => value.texts
  | .object members => members.entries.flatMap fun entry => entry.1 :: entry.2.texts

def numbers : Value → List Double
  | .scalar value => value.numbers
  | .object members => members.entries.flatMap fun entry => entry.2.numbers

end Value

namespace Document

/-- The texts in a document, its keys included. -/
def texts (d : Document) : List String := d.entries.flatMap fun entry => entry.1 :: entry.2.texts

def numbers (d : Document) : List Double := d.entries.flatMap fun entry => entry.2.numbers

end Document

/-- **The JSON library**, as far as it is relied on. An exception of `dump` has a text if it is a
`std::exception`; `accept` may throw too. -/
structure Nlohmann where
  dump : Document → Except (Option String) String
  parse : String → Option Document
  accept : String → Option Bool
  /-- `dump` throws on ill-formed UTF-8 only. -/
  dump_ok : ∀ d : Document, (∀ s ∈ d.texts, Encoded s) → ∃ text, dump d = .ok text
  /-- What was written is read back. -/
  parse_dump : ∀ (d : Document) (text : String), (∀ x ∈ d.numbers, x.isFinite = true) →
    dump d = .ok text → parse text = some d
  accept_parse : ∀ (text : String) (d : Document), parse text = some d → accept text = some true

/-! ### The functions -/

theorem iso8601Utc_isSome (e : Int64) : (iso8601Utc e).isSome = true := by
  by_cases h : 0 ≤ utcYear e.toInt ∧ utcYear e.toInt ≤ 9999
  · rw [iso8601Utc_of_year h.1 h.2]
    rfl
  · rw [iso8601Utc_of_not_year h]
    rfl

/-- The `timestamp` of an event. -/
def timestamp (e : Event) : String :=
  String.ofList ((iso8601Utc (.ofInt e.timestampMs)).get (iso8601Utc_isSome _))

/-- The `switch` over the type of a property. -/
def scalarOf : PropertyValue → Scalar
  | .bool value => .boolean value
  | .int value => .integer value
  | .double value => .number value
  | .string value => .string value

/-- The loop over the properties. -/
def props (properties : Properties) : OrderedMap String Scalar :=
  properties.foldl (fun props kv => props.assign kv.1 (scalarOf kv.2)) .empty

/-- The object that `serialize` builds. -/
def document (e : Event) : Document :=
  let j : Document := .empty
  let j := j.assign "event_id" (.scalar (.string e.eventId))
  let j := j.assign "app_id" (.scalar (.string e.appId))
  let j := j.assign "name" (.scalar (.string e.name))
  let j := j.assign "schema_version" (.scalar (.integer e.schemaVersion))
  let j := j.assign "timestamp_ms" (.scalar (.integer e.timestampMs))
  let j := j.assign "timestamp" (.scalar (.string (timestamp e)))
  let j := j.assign "session_id" (.scalar (.string e.sessionId))
  let j := if e.playerId.isEmpty then j else j.assign "player_id" (.scalar (.string e.playerId))
  let j := j.assign "seq" (.scalar (.integer e.sequence))
  j.assign "properties" (.object (props e.properties))

namespace JsonSerializer

variable (lib : Nlohmann)

/-- `JsonSerializer::serialize`. -/
def serialize (e : Event) : Except Status String :=
  match lib.dump (document e) with
  | .ok out => .ok out
  | .error (some what) => .error ⟨.internal, "event serialization failed: " ++ what⟩
  | .error none => .error ⟨.internal, "event serialization failed with an unknown exception"⟩

/-- `JsonSerializer::is_valid_json`. -/
def isValidJson (text : String) : Bool := (lib.accept text).getD false

end JsonSerializer

/-! ### Reading a document -/

/-- What a reader of a document gets. -/
structure Decoded where
  eventId : String
  appId : String
  name : String
  schemaVersion : Int
  timestampMs : Int
  timestamp : String
  sessionId : String
  playerId : Option String
  sequence : Int
  properties : Properties
  deriving DecidableEq, Repr

/-- The property with this value. -/
def propertyOf : Scalar → PropertyValue
  | .boolean value => .bool value
  | .integer value => .int value
  | .number value => .double value
  | .string value => .string value

namespace Document

variable (d : Document) (key : String)

/-- A field that is a text. -/
def string : Option String :=
  match d.lookup key with
  | some (.scalar (.string value)) => some value
  | _ => none

/-- A field that is an integer. -/
def integer : Option Int :=
  match d.lookup key with
  | some (.scalar (.integer value)) => some value
  | _ => none

/-- A field that may be absent, and is a text otherwise. -/
def optional : Option (Option String) :=
  match d.lookup key with
  | none => some none
  | some (.scalar (.string value)) => some (some value)
  | _ => none

/-- A field that is an object of scalars. -/
def members : Option Properties :=
  match d.lookup key with
  | some (.object members) => some (members.entries.map fun entry => (entry.1, propertyOf entry.2))
  | _ => none

end Document

/-- Reading a document by the names of its fields. -/
def decode (d : Document) : Option Decoded := do
  let eventId ← d.string "event_id"
  let appId ← d.string "app_id"
  let name ← d.string "name"
  let schemaVersion ← d.integer "schema_version"
  let timestampMs ← d.integer "timestamp_ms"
  let timestamp ← d.string "timestamp"
  let sessionId ← d.string "session_id"
  let playerId ← d.optional "player_id"
  let sequence ← d.integer "seq"
  let properties ← d.members "properties"
  pure { eventId, appId, name, schemaVersion, timestampMs, timestamp, sessionId, playerId, sequence,
         properties }

/-- What an event should be read back as. -/
def Event.decoded (e : Event) : Decoded where
  eventId := e.eventId
  appId := e.appId
  name := e.name
  schemaVersion := e.schemaVersion
  timestampMs := e.timestampMs
  timestamp := timestamp e
  sessionId := e.sessionId
  playerId := if e.playerId = "" then none else some e.playerId
  sequence := e.sequence
  properties := e.properties

/-- **An event survives serialization**: the call succeeds, the text passes the check of the
store, and it is read back as the event, all of whose properties are there under keys that are
distinct and are not fields of the document. -/
def RoundTrips (lib : Nlohmann) (e : Event) : Prop :=
  ∃ text d, JsonSerializer.serialize lib e = .ok text ∧
    JsonSerializer.isValidJson lib text = true ∧ lib.parse text = some d ∧
    decode d = some e.decoded ∧ (e.properties.map Prod.fst).Nodup ∧
    ∀ kv ∈ e.properties, kv.1 ∉ d.keys

/-! ### What can be presented -/

/-- An event that JSON can carry. -/
structure Presentable (e : Event) : Prop where
  texts : ∀ s ∈ [e.eventId, e.appId, e.name, e.sessionId, e.playerId], Encoded s
  nodup : (e.properties.map Prod.fst).Nodup
  keys : ∀ kv ∈ e.properties, Encoded kv.1
  values : ∀ kv ∈ e.properties, kv.2.Carried
  unreserved : ∀ kv ∈ e.properties, EventValidator.isReservedKey kv.1 = false

variable {e : Event} {lib : Nlohmann}

/-- The fields of a document, in the order they are written. -/
def fields (e : Event) : List (String × Value) :=
  [("event_id", .scalar (.string e.eventId)), ("app_id", .scalar (.string e.appId)),
    ("name", .scalar (.string e.name)), ("schema_version", .scalar (.integer e.schemaVersion)),
    ("timestamp_ms", .scalar (.integer e.timestampMs)),
    ("timestamp", .scalar (.string (timestamp e))),
    ("session_id", .scalar (.string e.sessionId))] ++
  ((if e.playerId.isEmpty then [] else [("player_id", .scalar (.string e.playerId))]) ++
  [("seq", .scalar (.integer e.sequence)), ("properties", .object (props e.properties))])

theorem keys_fields (e : Event) : (fields e).map Prod.fst =
    ["event_id", "app_id", "name", "schema_version", "timestamp_ms", "timestamp", "session_id"] ++
      ((if e.playerId.isEmpty then [] else ["player_id"]) ++ ["seq", "properties"]) := by
  unfold fields
  cases e.playerId.isEmpty <;> rfl

theorem document_eq (e : Event) : document e = OrderedMap.empty.assignAll (fields e) := by
  unfold document fields
  cases e.playerId.isEmpty <;> rfl

/-- No field is written twice. -/
theorem entries_document (e : Event) : (document e).entries = fields e := by
  rw [document_eq, OrderedMap.entries_assignAll]
  · rfl
  · rw [keys_fields]
    cases e.playerId.isEmpty <;> decide

/-- The fields are the reserved names. -/
theorem reserved_of_mem_keys {key : String} (h : key ∈ (document e).keys) :
    key ∈ EventValidator.kReserved := by
  rw [OrderedMap.keys, entries_document, keys_fields] at h
  cases hp : e.playerId.isEmpty
  · rw [hp] at h
    exact (by decide : ∀ key ∈ _, key ∈ EventValidator.kReserved) key h
  · rw [hp] at h
    exact (by decide : ∀ key ∈ _, key ∈ EventValidator.kReserved) key h

/-- No property is overwritten. -/
theorem entries_props {ps : Properties} (h : (ps.map Prod.fst).Nodup) :
    (props ps).entries = ps.map fun kv => (kv.1, scalarOf kv.2) := by
  have hall : props ps = OrderedMap.empty.assignAll (ps.map fun kv => (kv.1, scalarOf kv.2)) := by
    rw [OrderedMap.assignAll, List.foldl_map]
    rfl
  rw [hall, OrderedMap.entries_assignAll]
  · rfl
  · rw [List.map_map]
    exact h

theorem propertyOf_scalarOf (v : PropertyValue) : propertyOf (scalarOf v) = v := by cases v <;> rfl

theorem lookup_document {key : String} {v : Value} (h : (key, v) ∈ fields e) :
    (document e).lookup key = some v :=
  OrderedMap.lookup_of_mem (by rwa [entries_document])

/-- **A document is read back.** -/
theorem decode_document (h : (e.properties.map Prod.fst).Nodup) :
    decode (document e) = some e.decoded := by
  have hstring : ∀ key value, (key, Value.scalar (.string value)) ∈ fields e →
      (document e).string key = some value := fun key value hmem => by
    rw [Document.string, lookup_document hmem]
  have hinteger : ∀ key value, (key, Value.scalar (.integer value)) ∈ fields e →
      (document e).integer key = some value := fun key value hmem => by
    rw [Document.integer, lookup_document hmem]
  have hplayer : (document e).optional "player_id" =
      some (if e.playerId = "" then none else some e.playerId) := by
    rw [Document.optional]
    by_cases hempty : e.playerId = ""
    · have habsent : "player_id" ∉ (document e).keys := by
        rw [OrderedMap.keys, entries_document, keys_fields, hempty]
        decide
      rw [OrderedMap.lookup_of_notMem habsent, if_pos hempty]
    · have hmem : ("player_id", Value.scalar (.string e.playerId)) ∈ fields e := by
        simp [fields, hempty]
      rw [lookup_document hmem, if_neg hempty]
  have hmembers : (document e).members "properties" = some e.properties := by
    have hmem : ("properties", Value.object (props e.properties)) ∈ fields e := by simp [fields]
    rw [Document.members, lookup_document hmem]
    have hback : (fun entry : String × Scalar => (entry.1, propertyOf entry.2)) ∘
        (fun kv : String × PropertyValue => (kv.1, scalarOf kv.2)) = id :=
      funext fun kv => Prod.ext rfl (propertyOf_scalarOf kv.2)
    dsimp only
    rw [entries_props h, List.map_map, hback, List.map_id]
  rw [decode, hstring _ e.eventId (by simp [fields]), hstring _ e.appId (by simp [fields]),
    hstring _ e.name (by simp [fields]), hinteger _ e.schemaVersion (by simp [fields]),
    hinteger _ e.timestampMs (by simp [fields]), hstring _ (timestamp e) (by simp [fields]),
    hstring _ e.sessionId (by simp [fields]), hplayer, hinteger _ e.sequence (by simp [fields]),
    hmembers]
  rfl

theorem ascii_render (t : Stamp) : ∀ c ∈ t.render, c.toNat < 0x80 := by
  intro c hc
  rcases Decimal.mem_layout hc with hdigit | hsep
  · rw [Char.isDigit, Bool.and_eq_true, decide_eq_true_eq, decide_eq_true_eq] at hdigit
    exact Nat.lt_of_le_of_lt hdigit.2 (by decide)
  · have hform : (Stamp.form.map Prod.snd).Forall fun c => c.toNat < 0x80 := by decide
    exact List.forall_iff_forall_mem.mp hform c hsep

/-- A timestamp is ASCII. -/
theorem ascii_timestamp (e : Event) : ∀ c ∈ (timestamp e).toList, c.toNat < 0x80 := by
  obtain ⟨t, ht⟩ : ∃ t : Stamp, iso8601Utc (.ofInt e.timestampMs) = some t.render := by
    by_cases h : 0 ≤ utcYear (Int64.ofInt e.timestampMs).toInt ∧
        utcYear (Int64.ofInt e.timestampMs).toInt ≤ 9999
    · exact ⟨_, iso8601Utc_of_year h.1 h.2⟩
    · exact ⟨_, (iso8601Utc_of_not_year h).trans (congrArg some placeholder_eq)⟩
  intro c hc
  rw [timestamp, Option.get_of_eq_some _ ht, String.toList_ofList] at hc
  exact ascii_render t c hc

theorem encoded_timestamp (e : Event) : Encoded (timestamp e) :=
  encoded_of_ascii (ascii_timestamp e)

/-- The kinds of fields: texts, integers, and the properties. -/
theorem fields_cases {entry : String × Value} (h : entry ∈ fields e) :
    (∃ s ∈ [timestamp e, e.eventId, e.appId, e.name, e.sessionId, e.playerId],
        entry.2 = .scalar (.string s)) ∨
      (∃ n, entry.2 = .scalar (.integer n)) ∨ entry.2 = .object (props e.properties) := by
  unfold fields at h
  rcases List.mem_append.mp h with h | h
  · simp only [List.mem_cons, List.not_mem_nil, or_false] at h
    rcases h with rfl | rfl | rfl | rfl | rfl | rfl | rfl <;> simp
  rcases List.mem_append.mp h with h | h
  · split at h
    · cases h
    · rw [List.mem_singleton.mp h]
      simp
  · simp only [List.mem_cons, List.not_mem_nil, or_false] at h
    rcases h with rfl | rfl <;> simp

section Presentable

variable (h : Presentable e)
include h

/-- Every text that is written is in UTF-8. -/
theorem Presentable.encoded : ∀ s ∈ (document e).texts, Encoded s := by
  intro s hs
  obtain ⟨entry, hentry, hs⟩ := List.mem_flatMap.mp hs
  rcases List.mem_cons.mp hs with rfl | hs
  · -- the keys are the reserved names
    have hkey : entry.1 ∈ (document e).keys := List.mem_map_of_mem hentry
    have hascii : EventValidator.kReserved.Forall fun key =>
        key.toList.Forall fun c => c.toNat < 0x80 := by decide
    exact encoded_of_forall (List.forall_iff_forall_mem.mp hascii _ (reserved_of_mem_keys hkey))
  · rw [entries_document] at hentry
    rcases fields_cases hentry with ⟨text, htext, heq⟩ | ⟨n, heq⟩ | heq <;> rw [heq] at hs
    · rw [List.mem_singleton.mp hs]
      rcases List.mem_cons.mp htext with rfl | htext
      · exact encoded_timestamp e
      · exact h.texts text htext
    · cases hs
    · rw [Value.texts, entries_props h.nodup, List.flatMap_map] at hs
      obtain ⟨kv, hkv, hs⟩ := List.mem_flatMap.mp hs
      rcases List.mem_cons.mp hs with rfl | hs
      · exact h.keys kv hkv
      · have hvalue := h.values kv hkv
        obtain ⟨key, value⟩ := kv
        cases value with
        | string text =>
          rw [List.mem_singleton.mp hs]
          exact hvalue
        | bool | int | double => cases hs

/-- Every number that is written is finite. -/
theorem Presentable.finite : ∀ x ∈ (document e).numbers, x.isFinite = true := by
  intro x hx
  obtain ⟨entry, hentry, hx⟩ := List.mem_flatMap.mp hx
  rw [entries_document] at hentry
  rcases fields_cases hentry with ⟨text, -, heq⟩ | ⟨n, heq⟩ | heq <;> rw [heq] at hx
  · cases hx
  · cases hx
  rw [Value.numbers, entries_props h.nodup, List.flatMap_map] at hx
  obtain ⟨kv, hkv, hx⟩ := List.mem_flatMap.mp hx
  have hvalue := h.values kv hkv
  obtain ⟨key, value⟩ := kv
  cases value with
  | double d =>
    rw [List.mem_singleton.mp hx]
    exact hvalue
  | bool | int | string => cases hx

/-- **What can be presented survives serialization.** -/
theorem Presentable.roundTrips (lib : Nlohmann) : RoundTrips lib e := by
  obtain ⟨text, hdump⟩ := lib.dump_ok (document e) h.encoded
  have hparse := lib.parse_dump (document e) text h.finite hdump
  refine ⟨text, document e, ?_, ?_, hparse, decode_document h.nodup, h.nodup, fun kv hkv hkey => ?_⟩
  · rw [JsonSerializer.serialize, hdump]
  · rw [JsonSerializer.isValidJson, lib.accept_parse text _ hparse]
    rfl
  · have hfree := h.unreserved kv hkv
    rw [EventValidator.isReservedKey, if_pos (by simpa using reserved_of_mem_keys hkey)] at hfree
    cases hfree

end Presentable

end PlayerTrace
