import PlayerTrace.Events.Json
import PlayerTrace.Json.RoundTrip

/-!
# The library does what is relied on

The serializer is modelled over a library that is given by what is relied on
(`PlayerTrace.Nlohmann`). Here the code of the library is put in its place: documents become values
with their texts as bytes (`PlayerTrace.Json.ofDocument`), are written and read by
`PlayerTrace.Json.dump` and `PlayerTrace.Json.parse`, and become documents again
(`PlayerTrace.Json.toDocument`).

What the program can put into a document are bytes and machine integers
(`PlayerTrace.Document.Typed`). On such documents the code of the library does all that is relied
on, if the two conversions of floating-point numbers carry every finite number
(`PlayerTrace.Json.library`, `PlayerTrace.Json.exists_library`). So an event survives
serialization to the byte (`PlayerTrace.event_survives`).
-/

namespace PlayerTrace

/-! ### Texts of bytes -/

/-- A text of bytes. -/
def Narrow (s : String) : Prop := ∀ c ∈ s.toList, c.toNat < 256

instance (s : String) : Decidable (Narrow s) := List.decidableBAll _ s.toList

theorem ofNat_ch {c : Char} (h : c.toNat < 256) : Char.ofNat (SqlText.ch c).toNat = c := by
  rw [SqlText.ch, UInt8.toNat_ofNat', Nat.mod_eq_of_lt h, Char.ofNat_toNat]

theorem toNat_ofNat_byte : ∀ b : UInt8, (Char.ofNat b.toNat).toNat = b.toNat :=
  Utf8.forall_byte (by decide +kernel)

theorem shown_bytes {s : String} (h : Narrow s) : shown (bytes s) = s := by
  have hchars : s.toList.map ((fun b : UInt8 => Char.ofNat b.toNat) ∘ SqlText.ch) =
      s.toList.map id := List.map_congr_left fun c hc => ofNat_ch (h c hc)
  rw [shown, bytes, List.map_map, hchars, List.map_id, String.ofList_toList]

theorem bytes_shown (t : Json.Text) : bytes (shown t) = t := by
  have hbytes : t.map (SqlText.ch ∘ fun b : UInt8 => Char.ofNat b.toNat) = t.map id := by
    refine List.map_congr_left fun b _ => ?_
    rw [Function.comp_apply, SqlText.ch, toNat_ofNat_byte, UInt8.ofNat_toNat, id]
  rw [bytes, shown, String.toList_ofList, List.map_map, hbytes, List.map_id]

theorem narrow_shown (t : Json.Text) : Narrow (shown t) := by
  intro c hc
  rw [shown, String.toList_ofList] at hc
  obtain ⟨b, -, rfl⟩ := List.mem_map.mp hc
  rw [toNat_ofNat_byte]
  exact b.toNat_lt

/-! ### What the program can put into a document -/

/-- A scalar of the types of the source. -/
def Scalar.Typed : Scalar → Prop
  | .integer value => Json.Machine value
  | .string value => Narrow value
  | .boolean _ | .number _ => True

instance : DecidablePred Scalar.Typed
  | .integer value => inferInstanceAs (Decidable (Json.Machine value))
  | .string value => inferInstanceAs (Decidable (Narrow value))
  | .boolean _ | .number _ => .isTrue trivial

/-- The scalars in a value. -/
def Value.scalars : Value → List Scalar
  | .scalar value => [value]
  | .object members => members.entries.map Prod.snd

/-- The scalars in a document. -/
def Document.scalars (d : Document) : List Scalar := d.entries.flatMap fun entry => entry.2.scalars

/-- A map whose keys are of bytes, and whose values are as `P` says. -/
def OrderedMap.Keyed {α : Type} (P : α → Prop) (m : OrderedMap String α) : Prop :=
  ∀ entry ∈ m.entries, Narrow entry.1 ∧ P entry.2

instance {α : Type} (P : α → Prop) [DecidablePred P] : DecidablePred (OrderedMap.Keyed P) :=
  fun m => List.decidableBAll _ m.entries

def Value.Typed : Value → Prop
  | .scalar value => value.Typed
  | .object members => OrderedMap.Keyed Scalar.Typed members

instance : DecidablePred Value.Typed
  | .scalar value => inferInstanceAs (Decidable value.Typed)
  | .object members => inferInstanceAs (Decidable (OrderedMap.Keyed Scalar.Typed members))

/-- **A document of the types of the source**: its texts are of bytes, and its integers are machine
integers. -/
def Document.Typed (d : Document) : Prop := OrderedMap.Keyed Value.Typed d

instance (d : Document) : Decidable d.Typed :=
  inferInstanceAs (Decidable (OrderedMap.Keyed Value.Typed d))

/-! ### Documents as numbers -/

instance encodableString : Encodable String :=
  .ofLeftInverse (fun s => s.toList.map Char.toNat) (fun l => String.ofList (l.map Char.ofNat))
    fun s => by simp [Function.comp_def]

/-- A scalar as data that can be numbered. -/
def Scalar.code : Scalar → Bool ⊕ Int ⊕ Nat ⊕ String
  | .boolean value => .inl value
  | .integer value => .inr (.inl value)
  | .number value => .inr (.inr (.inl value.bits.toNat))
  | .string value => .inr (.inr (.inr value))

def Scalar.ofCode : Bool ⊕ Int ⊕ Nat ⊕ String → Scalar
  | .inl value => .boolean value
  | .inr (.inl value) => .integer value
  | .inr (.inr (.inl bits)) => .number ⟨.ofNat bits⟩
  | .inr (.inr (.inr value)) => .string value

instance : Encodable Scalar :=
  .ofLeftInverse Scalar.code Scalar.ofCode fun s => by
    cases s with
    | number value => exact congrArg (fun bits => Scalar.number ⟨bits⟩) UInt64.ofNat_toNat
    | _ => rfl

/-- A value as a scalar or the map of its members. -/
def Value.code : Value → Scalar ⊕ OrderedMap String Scalar
  | .scalar value => .inl value
  | .object members => .inr members

instance : Encodable Value :=
  .ofLeftInverse Value.code (Sum.elim .scalar .object) fun v => by cases v <;> rfl

/-- A document as a text that is not of bytes: its number, behind a character that is no byte. -/
def foreign (d : Document) : String :=
  String.ofList ('Ā' :: List.replicate (Encodable.encode d) 'I')

/-- The document of such a text. -/
def ofForeign (s : String) : Option Document := Encodable.decode (s.toList.length - 1)

theorem ofForeign_foreign (d : Document) : ofForeign (foreign d) = some d := by
  rw [ofForeign, foreign, String.toList_ofList, List.length_cons, List.length_replicate]
  exact Encodable.encodek d

theorem not_narrow_foreign (d : Document) : ¬Narrow (foreign d) := by
  intro hnarrow
  have hfirst := hnarrow 'Ā' (by rw [foreign, String.toList_ofList]; exact List.mem_cons_self)
  exact absurd hfirst (by decide)

namespace Json

/-! ### Documents as values -/

/-- A map as an object. -/
def ofMap {α : Type} (f : α → Value) (m : OrderedMap String α) : Value :=
  .object (m.entries.map fun entry => (bytes entry.1, f entry.2))

def atomOf : Scalar → Atom
  | .boolean value => .boolean value
  | .integer value => .integer value
  | .number value => .number value
  | .string value => .string (bytes value)

def ofScalar (s : Scalar) : Value := .atom (atomOf s)

def ofValue : PlayerTrace.Value → Value
  | .scalar value => ofScalar value
  | .object members => ofMap ofScalar members

def ofDocument : Document → Value := ofMap ofValue

/-- The entries of an object, if its values are what `f` reads. -/
def toEntries {α : Type} (f : Value → Option α) : List (Text × Value) → Option (List (String × α))
  | [] => some []
  | (key, v) :: members => do
    let x ← f v
    let entries ← toEntries f members
    pure ((shown key, x) :: entries)

/-- An object as a map. -/
def toMap {α : Type} (f : Value → Option α) : Value → Option (OrderedMap String α)
  | .object members => (toEntries f members).bind OrderedMap.ofEntries
  | _ => none

def toScalar : Value → Option Scalar
  | .atom (.boolean value) => some (.boolean value)
  | .atom (.integer value) => some (.integer value)
  | .atom (.number value) => some (.number value)
  | .atom (.string value) => some (.string (shown value))
  | _ => none

def toValue (v : Value) : Option PlayerTrace.Value :=
  match v with
  | .object _ => (toMap toScalar v).map .object
  | _ => (toScalar v).map .scalar

def toDocument : Value → Option Document := toMap toValue

section Maps

variable {α : Type} {f : α → Value} {m : OrderedMap String α} {P : α → Prop}

theorem toEntries_map {g : Value → Option α} {entries : List (String × α)}
    (h : ∀ entry ∈ entries, Narrow entry.1 ∧ g (f entry.2) = some entry.2) :
    toEntries g (entries.map fun entry => (bytes entry.1, f entry.2)) = some entries := by
  induction entries with
  | nil => rfl
  | cons entry entries ih =>
    obtain ⟨⟨hkey, hvalue⟩, hrest⟩ := List.forall_mem_cons.mp h
    rw [List.map_cons, toEntries, hvalue, ih hrest, shown_bytes hkey]
    rfl

/-- A map is read back from its object. -/
theorem toMap_ofMap {g : Value → Option α} (h : OrderedMap.Keyed P m)
    (hback : ∀ x, P x → g (f x) = some x) : toMap g (ofMap f m) = some m := by
  rw [ofMap, toMap, toEntries_map fun entry hentry =>
    ⟨(h entry hentry).1, hback entry.2 (h entry hentry).2⟩, Option.bind_some,
    OrderedMap.ofEntries_entries]

theorem distinct_ofMap (h : OrderedMap.Keyed P m) (hdistinct : ∀ x, P x → (f x).Distinct) :
    (ofMap f m).Distinct := by
  refine Value.distinct_object.mpr ⟨?_, List.forall_mem_map.mpr fun entry hentry =>
    hdistinct entry.2 (h entry hentry).2⟩
  have hkeys : ∀ k ∈ m.keys, Narrow k := List.forall_mem_map.mpr fun entry hentry =>
    (h entry hentry).1
  have hmap : (m.entries.map fun entry => (bytes entry.1, f entry.2)).map Prod.fst =
      m.keys.map bytes := by
    rw [OrderedMap.keys, List.map_map, List.map_map]
    rfl
  rw [hmap]
  refine List.Nodup.map_on (fun k hk l hl heq => ?_) m.nodup
  rw [← shown_bytes (hkeys k hk), heq, shown_bytes (hkeys l hl)]

theorem forall_atoms_ofMap {Q : Atom → Prop} : (∀ a ∈ (ofMap f m).atoms, Q a) ↔
    ∀ entry ∈ m.entries, Q (.string (bytes entry.1)) ∧ ∀ a ∈ (f entry.2).atoms, Q a := by
  rw [ofMap, Value.forall_atoms_object, List.forall_mem_map]

end Maps

section Documents

variable {d : Document} {F : Floats}

theorem toScalar_ofScalar {s : Scalar} (h : s.Typed) : toScalar (ofScalar s) = some s := by
  cases s with
  | string value => rw [ofScalar, atomOf, toScalar, shown_bytes h]
  | boolean | integer | number => rfl

theorem toValue_of_scalar {v : Value} {s : Scalar} (h : toScalar v = some s) :
    toValue v = some (.scalar s) := by
  cases v with
  | atom a => exact congrArg (Option.map _) h
  | array | object => cases h

theorem toValue_ofValue {v : PlayerTrace.Value} (h : v.Typed) : toValue (ofValue v) = some v := by
  cases v with
  | scalar value => exact toValue_of_scalar (toScalar_ofScalar h)
  | object members =>
    have hmap := toMap_ofMap h fun s => toScalar_ofScalar
    exact congrArg (Option.map _) hmap

/-- **A document is read back from its value.** -/
theorem toDocument_ofDocument (h : d.Typed) : toDocument (ofDocument d) = some d :=
  toMap_ofMap h fun _ => toValue_ofValue

theorem distinct_ofDocument (h : d.Typed) : (ofDocument d).Distinct := by
  refine distinct_ofMap h fun v hv => ?_
  cases v with
  | scalar value => trivial
  | object members => exact distinct_ofMap hv fun _ _ => trivial

theorem encoded_ofScalar {s : Scalar} :
    (ofScalar s).Encoded ↔ ∀ t ∈ s.texts, PlayerTrace.Encoded t := by
  cases s with
  | string value =>
    have htexts : (Scalar.string value).texts = [value] := rfl
    rw [htexts, List.forall_mem_singleton]
    exact List.forall_mem_singleton
  | boolean | integer | number =>
    exact iff_of_true (List.forall_mem_singleton.mpr trivial) (List.forall_mem_nil _)

/-- The texts of a document and of its value are the same. -/
theorem encoded_ofDocument : (ofDocument d).Encoded ↔ ∀ t ∈ d.texts, PlayerTrace.Encoded t := by
  have hvalue : ∀ v : PlayerTrace.Value,
      (ofValue v).Encoded ↔ ∀ t ∈ v.texts, PlayerTrace.Encoded t := by
    intro v
    cases v with
    | scalar value => exact encoded_ofScalar
    | object members =>
      rw [Value.texts, List.forall_mem_flatMap]
      refine forall_atoms_ofMap.trans (forall₂_congr fun entry _ => ?_)
      rw [List.forall_mem_cons]
      exact and_congr Iff.rfl encoded_ofScalar
  rw [Document.texts, List.forall_mem_flatMap]
  refine forall_atoms_ofMap.trans (forall₂_congr fun entry _ => ?_)
  rw [List.forall_mem_cons]
  exact and_congr Iff.rfl (hvalue entry.2)

/-- What holds of every text, and of the scalars of a document, holds of the atoms of its value. -/
theorem forall_atoms_ofDocument {Q : Atom → Prop} (htext : ∀ t, Q (.string t))
    (h : ∀ s ∈ d.scalars, Q (atomOf s)) : ∀ a ∈ (ofDocument d).atoms, Q a := by
  rw [Document.scalars, List.forall_mem_flatMap] at h
  refine forall_atoms_ofMap.mpr fun entry hentry => ⟨htext _, ?_⟩
  have hvalue := h entry hentry
  cases hkind : entry.2 with
  | scalar value =>
    rw [hkind] at hvalue
    exact List.forall_mem_singleton.mpr (hvalue value (List.mem_singleton_self _))
  | object members =>
    rw [hkind, Value.scalars, List.forall_mem_map] at hvalue
    refine forall_atoms_ofMap.mpr fun entry' hentry' => ⟨htext _, ?_⟩
    exact List.forall_mem_singleton.mpr (hvalue entry' hentry')

theorem typed_scalars (h : d.Typed) : ∀ s ∈ d.scalars, s.Typed := by
  rw [Document.scalars, List.forall_mem_flatMap]
  intro entry hentry
  have hvalue := (h entry hentry).2
  cases hkind : entry.2 with
  | scalar value =>
    rw [hkind] at hvalue
    exact List.forall_mem_singleton.mpr hvalue
  | object members =>
    rw [hkind] at hvalue
    exact List.forall_mem_map.mpr fun entry' hentry' => (hvalue entry' hentry').2

theorem mem_numbers {x : Double} (h : .number x ∈ d.scalars) : x ∈ d.numbers := by
  obtain ⟨entry, hentry, hx⟩ := List.mem_flatMap.mp h
  refine List.mem_flatMap.mpr ⟨entry, hentry, ?_⟩
  cases hkind : entry.2 with
  | scalar value =>
    rw [hkind] at hx
    rw [← List.mem_singleton.mp hx]
    exact List.mem_singleton_self x
  | object members =>
    rw [hkind] at hx
    obtain ⟨entry', hentry', heq⟩ := List.mem_map.mp hx
    exact List.mem_flatMap.mpr ⟨entry', hentry', heq ▸ List.mem_singleton_self x⟩

theorem fits_ofDocument (h : d.Typed)
    (hcarried : ∀ x ∈ d.numbers, x.isFinite = true → F.Carries x) : (ofDocument d).Fits F := by
  refine forall_atoms_ofDocument (fun _ => trivial) fun s hs => ?_
  have htyped := typed_scalars h s hs
  cases s with
  | integer value => exact htyped
  | number value => exact hcarried value (mem_numbers hs)
  | boolean | string => trivial

theorem finite_ofDocument (h : ∀ x ∈ d.numbers, x.isFinite = true) : (ofDocument d).Finite := by
  refine forall_atoms_ofDocument (fun _ => rfl) fun s hs => ?_
  cases s with
  | number value => exact h value (mem_numbers hs)
  | boolean | integer | string => rfl

/-- **A document is written on one line, accepted and read back.** -/
theorem document_back (htyped : d.Typed) (hencoded : ∀ t ∈ d.texts, PlayerTrace.Encoded t)
    (hcarried : ∀ x ∈ d.numbers, F.Carries x) :
    ∃ t, dump F (ofDocument d) = some (.ok t) ∧ Printable t ∧ accept F t = true ∧
      (parse F t).bind toDocument = some d := by
  have hfits := fits_ofDocument htyped fun x hx _ => hcarried x hx
  obtain ⟨t, hdump, hline, haccept, hparse⟩ :=
    dump_back hfits (distinct_ofDocument htyped) (encoded_ofDocument.mpr hencoded)
  have hfinite := finite_ofDocument fun x hx => (hcarried x hx).finite
  refine ⟨t, hdump, hline, haccept, ?_⟩
  rw [hparse, hfinite.presented, Option.bind_some, toDocument_ofDocument htyped]

end Documents

/-! ### The library -/

section Library

variable (F : Floats)

/-- `dump`, of a document. Without a value there was an access beyond a buffer. -/
def dumpDocument (d : Document) : Except (Option String) String :=
  match dump F (ofDocument d) with
  | some (.ok t) => .ok (shown t)
  | some (.error what) => .error (some what)
  | none => .error none

/-- `parse`, to a document. -/
def parseDocument (s : String) : Option Document := (parse F (bytes s)).bind toDocument

variable {F} {d : Document}

theorem accept_of_parse {input : Text} {v : Value} (h : parse F input = some v) :
    accept F input = true := by
  have hne : saxParse F Dom.handler input ⟨none, []⟩ ≠ none := by
    intro hnone
    rw [parse, hnone] at h
    cases h
  obtain ⟨w, hfinite, hreads⟩ := exists_reads hne
  exact accept_of_reads hfinite hreads

theorem accept_of_parseDocument {s : String} (h : parseDocument F s = some d) :
    accept F (bytes s) = true := by
  obtain ⟨v, hparse, -⟩ := Option.bind_eq_some_iff.mp h
  exact accept_of_parse hparse

section Typed

variable (hF : ∀ x : Double, x.isFinite = true → F.Carries x) (htyped : d.Typed)
include hF htyped

theorem yields_ofDocument : Output.Yields (ofDocument d).Encoded (text F (ofDocument d))
    (dump F (ofDocument d)) :=
  yields_dump (fits_ofDocument htyped fun x _ => hF x)

theorem dumpDocument_of_encoded (h : ∀ t ∈ d.texts, PlayerTrace.Encoded t) :
    ∃ text, dumpDocument F d = .ok text := by
  have hdump := (yields_ofDocument hF htyped).eq_write (encoded_ofDocument.mpr h)
  rw [dumpDocument, hdump]
  exact ⟨_, rfl⟩

/-- What `dump` has written for a document is of bytes, and read back. -/
theorem parse_of_dumpDocument {s : String} (hfinite : ∀ x ∈ d.numbers, x.isFinite = true)
    (h : dumpDocument F d = .ok s) : Narrow s ∧ parseDocument F s = some d := by
  by_cases hencoded : (ofDocument d).Encoded
  · obtain ⟨t, hdump, -, -, hparse⟩ := document_back htyped (encoded_ofDocument.mp hencoded)
      fun x hx => hF x (hfinite x hx)
    rw [dumpDocument, hdump] at h
    obtain rfl : shown t = s := Except.ok.inj h
    refine ⟨narrow_shown t, ?_⟩
    rwa [parseDocument, bytes_shown]
  · obtain ⟨what, hdump⟩ := (yields_ofDocument hF htyped).error hencoded
    rw [dumpDocument, hdump] at h
    cases h

end Typed

/-- **The code of the library**, on what the program can have. No document of other types is
written as one of these. -/
def library (hF : ∀ x : Double, x.isFinite = true → F.Carries x) : Nlohmann where
  dump d := if d.Typed then dumpDocument F d else .ok (foreign d)
  parse s := if Narrow s then parseDocument F s else ofForeign s
  accept s := some (if Narrow s then accept F (bytes s) else true)
  dump_ok d hencoded := by
    split_ifs with htyped
    · exact dumpDocument_of_encoded hF htyped hencoded
    · exact ⟨foreign d, rfl⟩
  parse_dump d s hfinite hdump := by
    split_ifs at hdump with htyped
    · obtain ⟨hnarrow, hparse⟩ := parse_of_dumpDocument hF htyped hfinite hdump
      rw [if_pos hnarrow, hparse]
    · -- no text of bytes, so it is not taken for what the code wrote
      obtain rfl : foreign d = s := Except.ok.inj hdump
      rw [if_neg (not_narrow_foreign d)]
      exact ofForeign_foreign d
  accept_parse s d hparse := by
    split_ifs at hparse ⊢ with hnarrow
    · rw [accept_of_parseDocument hparse]
    · rfl

/-- **What is relied on is what the code does.** There is a library as `Nlohmann` asks for that
writes every document of the types of the source as the code does, without overrunning a buffer, and
reads and checks every text of bytes as the code does. -/
theorem exists_library (hF : ∀ x : Double, x.isFinite = true → F.Carries x) :
    ∃ lib : Nlohmann,
      (∀ d : Document, d.Typed →
        lib.dump d = dumpDocument F d ∧ dump F (ofDocument d) ≠ none) ∧
      ∀ s : String, Narrow s →
        lib.parse s = parseDocument F s ∧ lib.accept s = some (accept F (bytes s)) := by
  refine ⟨library hF, fun d htyped => ⟨if_pos htyped, fun hnone => ?_⟩,
    fun s hnarrow => ⟨if_pos hnarrow, congrArg some (if_pos hnarrow)⟩⟩
  have hyields := yields_ofDocument hF htyped
  rw [hnone] at hyields
  cases hyields

theorem exists_library_sample : ∃ lib : Nlohmann,
    (∀ d : Document, d.Typed →
      lib.dump d = dumpDocument Floats.sample d ∧ dump Floats.sample (ofDocument d) ≠ none) ∧
    ∀ s : String, Narrow s →
      lib.parse s = parseDocument Floats.sample s ∧
        lib.accept s = some (accept Floats.sample (bytes s)) :=
  exists_library fun _ => Floats.carries_sample

end Library

end Json

/-! ### Events -/

/-- **An event of the types of the source**: its texts are of bytes, and its integers are machine
integers. -/
structure Event.Typed (e : Event) : Prop where
  texts : ∀ s ∈ [e.eventId, e.appId, e.name, e.sessionId, e.playerId], Narrow s
  integers : ∀ n ∈ [(e.schemaVersion : Int), e.timestampMs, e.sequence], Json.Machine n
  properties : ∀ kv ∈ e.properties, Narrow kv.1 ∧ (scalarOf kv.2).Typed

section Events

variable {e : Event} {F : Json.Floats}

theorem narrow_of_ascii {s : String} (h : ∀ c ∈ s.toList, c.toNat < 0x80) : Narrow s :=
  fun c hc => (h c hc).trans (by decide)

/-- The names of the fields are ASCII. -/
theorem narrow_of_mem_keys {key : String} (h : key ∈ (document e).keys) : Narrow key := by
  have hascii : EventValidator.kReserved.Forall fun key =>
      key.toList.Forall fun c => c.toNat < 0x80 := by decide
  have hkey := List.forall_iff_forall_mem.mp hascii key (reserved_of_mem_keys h)
  exact narrow_of_ascii (List.forall_iff_forall_mem.mp hkey)

section Typed

variable (h : e.Typed)
include h

theorem Event.Typed.props (hnodup : (e.properties.map Prod.fst).Nodup) :
    OrderedMap.Keyed Scalar.Typed (props e.properties) := by
  intro entry hentry
  rw [entries_props hnodup] at hentry
  obtain ⟨kv, hkv, rfl⟩ := List.mem_map.mp hentry
  exact h.properties kv hkv

/-- The document of such an event is of those types too. -/
theorem Event.Typed.document (hnodup : (e.properties.map Prod.fst).Nodup) :
    (document e).Typed := by
  intro entry hentry
  refine ⟨narrow_of_mem_keys (List.mem_map_of_mem hentry), ?_⟩
  have htext : ∀ s ∈ [e.eventId, e.appId, e.name, e.sessionId, e.playerId],
      Value.Typed (.scalar (.string s)) := h.texts
  have hinteger : ∀ n ∈ [(e.schemaVersion : Int), e.timestampMs, e.sequence],
      Value.Typed (.scalar (.integer n)) := h.integers
  have htimestamp : Value.Typed (.scalar (.string (timestamp e))) :=
    narrow_of_ascii (ascii_timestamp e)
  rw [entries_document, fields] at hentry
  rcases List.mem_append.mp hentry with hentry | hentry
  · simp only [List.mem_cons, List.not_mem_nil, or_false] at hentry
    rcases hentry with rfl | rfl | rfl | rfl | rfl | rfl | rfl
    · exact htext _ (by simp)
    · exact htext _ (by simp)
    · exact htext _ (by simp)
    · exact hinteger _ (by simp)
    · exact hinteger _ (by simp)
    · exact htimestamp
    · exact htext _ (by simp)
  rcases List.mem_append.mp hentry with hentry | hentry
  · split at hentry
    · cases hentry
    · obtain rfl := List.mem_singleton.mp hentry
      exact htext _ (by simp)
  · simp only [List.mem_cons, List.not_mem_nil, or_false] at hentry
    rcases hentry with rfl | rfl
    · exact hinteger _ (by simp)
    · exact h.props hnodup

end Typed

/-- **An event survives serialization, to the byte.** Written by the code of the library, an event
that can be presented is one line; the check of the store accepts it, and it is read back as the
event. -/
theorem event_survives (h : Presentable e) (htyped : e.Typed)
    (hcarried : ∀ x ∈ (document e).numbers, F.Carries x) :
    ∃ t d, Json.dump F (Json.ofDocument (document e)) = some (.ok t) ∧ Json.Printable t ∧
      Json.accept F t = true ∧ (Json.parse F t).bind Json.toDocument = some d ∧
      decode d = some e.decoded := by
  obtain ⟨t, hdump, hline, haccept, hparse⟩ :=
    Json.document_back (htyped.document h.nodup) h.encoded hcarried
  exact ⟨t, document e, hdump, hline, haccept, hparse, decode_document h.nodup⟩

/-- An event with a property of each kind, and a text in UTF-8 that is not ASCII. -/
def Event.scored : Event where
  eventId := "e1"
  appId := "app"
  name := "scored"
  schemaVersion := 1
  timestampMs := 1700000000000
  sessionId := "s1"
  playerId := ""
  sequence := 7
  properties := [("level", .int 3), ("ratio", .double ⟨0x3FF8000000000000⟩), ("won", .bool true),
    ("title", .string (shown [0xC3, 0xA9]))]

theorem Event.ascii_scored : ∀ s ∈ ["e1", "app", "scored", "s1", ""], ∀ c ∈ s.toList,
    c.toNat < 0x80 := by
  have hascii : ["e1", "app", "scored", "s1", ""].Forall fun s =>
      s.toList.Forall fun c => c.toNat < 0x80 := by decide
  exact fun s hs => List.forall_iff_forall_mem.mp (List.forall_iff_forall_mem.mp hascii s hs)

theorem Event.presentable_scored : Presentable Event.scored where
  texts := fun s hs => encoded_of_ascii (Event.ascii_scored s hs)
  nodup := by decide
  keys := by
    have hascii : ["level", "ratio", "won", "title"].Forall fun s =>
        s.toList.Forall fun c => c.toNat < 0x80 := by decide
    intro kv hkv
    have hkey : kv.1 ∈ ["level", "ratio", "won", "title"] := List.mem_map_of_mem hkv
    exact encoded_of_forall (List.forall_iff_forall_mem.mp hascii kv.1 hkey)
  values := by
    intro kv hkv
    simp only [Event.scored, List.mem_cons, List.not_mem_nil, or_false] at hkv
    rcases hkv with rfl | rfl | rfl | rfl
    · trivial
    · exact (by decide : Double.isFinite ⟨0x3FF8000000000000⟩ = true)
    · trivial
    · exact EventValidator.validText_iff.mp (by decide +kernel)
  unreserved := by decide

theorem Event.typed_scored : Event.scored.Typed where
  texts := fun s hs => narrow_of_ascii (Event.ascii_scored s hs)
  integers := by
    intro n hn
    simp only [Event.scored, List.mem_cons, List.not_mem_nil, or_false] at hn
    rcases hn with rfl | rfl | rfl <;> constructor <;> decide
  properties := by
    intro kv hkv
    simp only [Event.scored, List.mem_cons, List.not_mem_nil, or_false] at hkv
    rcases hkv with rfl | rfl | rfl | rfl
    · exact ⟨by decide, by constructor <;> decide⟩
    · exact ⟨by decide, trivial⟩
    · exact ⟨by decide, trivial⟩
    · exact ⟨by decide, narrow_shown _⟩

theorem event_survives_scored : ∃ t d,
    Json.dump Json.Floats.sample (Json.ofDocument (document Event.scored)) = some (.ok t) ∧
      Json.Printable t ∧ Json.accept Json.Floats.sample t = true ∧
      (Json.parse Json.Floats.sample t).bind Json.toDocument = some d ∧
      decode d = some Event.scored.decoded :=
  event_survives Event.presentable_scored Event.typed_scored fun x hx =>
    Json.Floats.carries_sample (Event.presentable_scored.finite x hx)

end Events

end PlayerTrace
