import Mathlib.Data.List.Nodup
import PlayerTrace.Config
import PlayerTrace.Events.Utf8
import PlayerTrace.Store.Checks

/-!
# `EventValidator`

The checks of `src/event_validator.cpp` on names, player identifiers and properties, with the
limits of the configuration. What a property list that passes them is like is said without the
loop (`PlayerTrace.EventValidator.validateProperties_ok`): every property passes on its own, and no
key comes twice.

Two facts carry over to the serializer. What passes as an identifier is ASCII, and whatever text
passes is well-formed UTF-8; both are `PlayerTrace.Encoded`.
-/

namespace PlayerTrace

/-- A text whose bytes are well-formed UTF-8. -/
def Encoded (s : String) : Prop := Utf8.WellFormed (bytes s)

/-- A text in ASCII is encoded. -/
theorem encoded_of_ascii {s : String} (h : ∀ c ∈ s.toList, c.toNat < 0x80) : Encoded s := by
  refine Utf8.WellFormed.of_ascii fun b hb => ?_
  obtain ⟨c, hc, rfl⟩ := List.mem_map.mp hb
  have hlt := h c hc
  rw [SqlText.ch, UInt8.toNat_ofNat']
  omega

/-- The same of a text that is given, whose characters can be looked through. -/
theorem encoded_of_forall {s : String} (h : s.toList.Forall fun c => c.toNat < 0x80) : Encoded s :=
  encoded_of_ascii (List.forall_iff_forall_mem.mp h)

/-- `std::isfinite`: the exponent is not all ones. -/
def Double.isFinite (d : Double) : Bool := (d.bits >>> 52) &&& 0x7FF != 0x7FF

/-- A value that JSON can carry: a text is in UTF-8, and a number is one. -/
def PropertyValue.Carried : PropertyValue → Prop
  | .string value => Encoded value
  | .double value => value.isFinite = true
  | .bool _ | .int _ => True

namespace EventValidator

/-! ### The functions -/

theorem isValidUtf8_isSome (text : List UInt8) : (isValidUtf8 text).isSome = true := by
  obtain ⟨valid, hscan, -⟩ := scanUtf8_spec (p := text) text.length 0 (by omega)
  rw [isValidUtf8, hscan]
  rfl

/-- `is_valid_utf8` of a `std::string`. -/
def validText (s : String) : Bool := (isValidUtf8 (bytes s)).get (isValidUtf8_isSome _)

/-- `is_first_char`. -/
def isFirstChar (c : Char) : Bool :=
  ('A' ≤ c && c ≤ 'Z') || ('a' ≤ c && c ≤ 'z') || c == '_'

/-- `is_rest_char`. -/
def isRestChar (c : Char) : Bool :=
  isFirstChar c || ('0' ≤ c && c ≤ '9') || c == '.' || c == '-'

/-- `kReserved`: the names of the top-level fields. -/
def kReserved : List String :=
  ["event_id", "app_id", "name", "schema_version", "timestamp", "timestamp_ms", "session_id",
    "player_id", "seq", "properties"]

/-- `EventValidator::is_reserved_key`. -/
def isReservedKey (key : String) : Bool :=
  if kReserved.contains key then true
  else key.toList.take 3 == ['p', 't', '_']

section Limits

variable (config : Config)

/-- `EventValidator::validate_identifier`. -/
def validateIdentifier (id : String) (badCode : ErrorCode) : Status :=
  match id.toList with
  | [] => ⟨badCode, "identifier must not be empty"⟩
  | front :: rest =>
    if id.length > config.maxNameLength then
      ⟨badCode, "identifier '" ++ id ++ "' exceeds max length of " ++
        toString config.maxNameLength⟩
    else if !isFirstChar front then
      ⟨badCode, "identifier '" ++ id ++ "' must start with a letter or underscore"⟩
    else if (front :: rest).any fun c => !isRestChar c then
      ⟨badCode, "identifier '" ++ id ++ "' contains an invalid character"⟩
    else {}

/-- `EventValidator::validate_name`. -/
def validateName (name : String) : Status := validateIdentifier config name .invalidEventName

/-- `EventValidator::validate_player_id`. -/
def validatePlayerId (playerId : String) : Status :=
  if playerId.isEmpty then {}
  else if playerId.length > config.maxPlayerIdLength then
    ⟨.valueTooLarge, "player_id exceeds max length of " ++ toString config.maxPlayerIdLength ++
      " bytes"⟩
  else if !validText playerId then ⟨.invalidProperty, "player_id is not well-formed UTF-8"⟩
  else {}

/-- The `switch` over the type of a property. -/
def validateValue (key : String) : PropertyValue → Status
  | .string value =>
    if value.length > config.maxStringLength then
      ⟨.valueTooLarge, "string value for '" ++ key ++ "' exceeds max length of " ++
        toString config.maxStringLength⟩
    else if !validText value then
      ⟨.invalidProperty, "string value for '" ++ key ++ "' is not well-formed UTF-8"⟩
    else {}
  | .double value =>
    if !value.isFinite then ⟨.invalidProperty, "double value for '" ++ key ++ "' must be finite"⟩
    else {}
  | .bool _ | .int _ => {}

/-- The loop of `validate_properties`, with the keys seen so far. -/
def propertiesLoop (seen : List String) : Properties → Status
  | [] => {}
  | (key, value) :: rest =>
    let nameStatus := validateIdentifier config key .invalidProperty
    if nameStatus.ok = false then nameStatus
    else if isReservedKey key then ⟨.reservedKey, "property key '" ++ key ++ "' is reserved"⟩
    else if seen.contains key then ⟨.duplicateKey, "duplicate property key '" ++ key ++ "'"⟩
    else
      let valueStatus := validateValue config key value
      if valueStatus.ok = false then valueStatus else propertiesLoop (key :: seen) rest

/-- `EventValidator::validate_properties`. -/
def validateProperties (properties : Properties) : Status :=
  if properties.length > config.maxProperties then
    ⟨.tooManyProperties, "event has " ++ toString properties.length ++ " properties; max is " ++
      toString config.maxProperties⟩
  else propertiesLoop config [] properties

end Limits

/-! ### What passes -/

variable {config : Config}

theorem validText_iff {s : String} : validText s = true ↔ Encoded s := by
  obtain ⟨valid, hscan, hvalid⟩ := scanUtf8_spec (p := bytes s) (bytes s).length 0 (by omega)
  have hget : validText s = valid := by
    have hcall : isValidUtf8 (bytes s) = some valid := hscan
    rw [validText, Option.get_of_eq_some _ hcall]
  rw [hget, hvalid, List.drop_zero]
  rfl

theorem ascii_of_isFirstChar {c : Char} (h : isFirstChar c = true) : c.toNat < 0x80 := by
  simp only [isFirstChar, Bool.or_eq_true, Bool.and_eq_true, decide_eq_true_eq, beq_iff_eq,
    Char.le_def, UInt32.le_iff_toNat_le] at h
  rcases h with (⟨-, h⟩ | ⟨-, h⟩) | rfl
  · exact Nat.lt_of_le_of_lt h (by decide)
  · exact Nat.lt_of_le_of_lt h (by decide)
  · decide

theorem ascii_of_isRestChar {c : Char} (h : isRestChar c = true) : c.toNat < 0x80 := by
  simp only [isRestChar, Bool.or_eq_true, Bool.and_eq_true, decide_eq_true_eq, beq_iff_eq] at h
  rcases h with ((h | ⟨-, h⟩) | rfl) | rfl
  · exact ascii_of_isFirstChar h
  · rw [Char.le_def, UInt32.le_iff_toNat_le] at h
    exact Nat.lt_of_le_of_lt h (by decide)
  · decide
  · decide

/-- **An identifier is ASCII.** -/
theorem encoded_of_identifier {id : String} {badCode : ErrorCode} (hbad : badCode ≠ ErrorCode.ok)
    (h : (validateIdentifier config id badCode).ok = true) : Encoded id := by
  refine encoded_of_ascii fun c hc => ?_
  have hcode : ∀ m, (⟨badCode, m⟩ : Status).ok ≠ true := fun m hok =>
    hbad (Status.ok_eq_true.mp hok)
  unfold validateIdentifier at h
  split at h
  · exact absurd h (hcode _)
  rename_i front rest hid
  split at h
  · exact absurd h (hcode _)
  split at h
  · exact absurd h (hcode _)
  split at h
  · exact absurd h (hcode _)
  · rename_i hrest
    simp only [List.any_eq_true, not_exists, not_and, Bool.not_eq_true', Bool.not_eq_false] at hrest
    exact ascii_of_isRestChar (hrest c (hid ▸ hc))

theorem encoded_of_validateName {name : String} (h : (validateName config name).ok = true) :
    Encoded name :=
  encoded_of_identifier (show ErrorCode.invalidEventName ≠ .ok by decide) h

theorem encoded_of_validatePlayerId {playerId : String}
    (h : (validatePlayerId config playerId).ok = true) : Encoded playerId := by
  unfold validatePlayerId at h
  split at h
  · rename_i hempty
    rw [String.isEmpty_iff] at hempty
    exact encoded_of_ascii (by simp [hempty])
  split at h
  · cases h
  split at h
  · cases h
  · rename_i hvalid
    exact validText_iff.mp (by simpa using hvalid)

/-- A property that passes on its own. -/
structure Passes (config : Config) (kv : String × PropertyValue) : Prop where
  key : (validateIdentifier config kv.1 .invalidProperty).ok = true
  unreserved : isReservedKey kv.1 = false
  value : (validateValue config kv.1 kv.2).ok = true

/-- One round of the loop. -/
theorem propertiesLoop_cons {seen : List String} {kv : String × PropertyValue} {ps : Properties} :
    (propertiesLoop config seen (kv :: ps)).ok = true ↔
      Passes config kv ∧ kv.1 ∉ seen ∧ (propertiesLoop config (kv.1 :: seen) ps).ok = true := by
  obtain ⟨key, value⟩ := kv
  simp only [propertiesLoop]
  split
  · rename_i hkey
    exact iff_of_false (by simp [hkey]) fun h => by simp [h.1.key] at hkey
  rename_i hkey
  split
  · rename_i hreserved
    exact iff_of_false nofun fun h => by simp [h.1.unreserved] at hreserved
  rename_i hreserved
  split
  · rename_i hseen
    exact iff_of_false nofun fun h => h.2.1 (by simpa using hseen)
  rename_i hseen
  split
  · rename_i hvalue
    exact iff_of_false (by simp [hvalue]) fun h => by simp [h.1.value] at hvalue
  · rename_i hvalue
    refine ⟨fun h => ⟨⟨?_, ?_, ?_⟩, ?_, h⟩, fun h => h.2.2⟩
    · simpa only [Bool.not_eq_false] using hkey
    · simpa only [Bool.not_eq_true] using hreserved
    · simpa only [Bool.not_eq_false] using hvalue
    · simpa using hseen

/-- What the loop lets through, after the keys in `seen`. -/
theorem propertiesLoop_ok {seen : List String} {ps : Properties} :
    (propertiesLoop config seen ps).ok = true ↔
      (∀ kv ∈ ps, Passes config kv) ∧ (ps.map Prod.fst).Nodup ∧ ∀ kv ∈ ps, kv.1 ∉ seen := by
  induction ps generalizing seen with
  | nil => simp [propertiesLoop]
  | cons kv ps ih =>
    rw [propertiesLoop_cons, ih]
    rw [List.forall_mem_cons, List.forall_mem_cons, List.map_cons, List.nodup_cons]
    simp only [List.mem_cons, not_or, List.mem_map, not_exists, not_and]
    constructor
    · rintro ⟨hkv, hseen, hps, hnodup, hrest⟩
      exact ⟨⟨hkv, hps⟩, ⟨fun kv' hmem heq => (hrest kv' hmem).1 heq, hnodup⟩, hseen,
        fun kv' hmem => (hrest kv' hmem).2⟩
    · rintro ⟨⟨hkv, hps⟩, ⟨hnew, hnodup⟩, hseen, hrest⟩
      exact ⟨hkv, hseen, hps, hnodup, fun kv' hmem =>
        ⟨fun heq => hnew kv' hmem heq, hrest kv' hmem⟩⟩

/-- **What passes**: few enough properties, each of which passes on its own, with no key twice. -/
theorem validateProperties_ok {ps : Properties} :
    (validateProperties config ps).ok = true ↔
      ps.length ≤ config.maxProperties ∧ (∀ kv ∈ ps, Passes config kv) ∧
        (ps.map Prod.fst).Nodup := by
  unfold validateProperties
  split
  · rename_i hlen
    exact iff_of_false nofun fun h => Nat.not_lt.mpr h.1 hlen
  · rename_i hlen
    rw [propertiesLoop_ok]
    simp [Nat.not_lt.mp hlen]

/-- A value as the checks leave it is one that JSON can carry. -/
theorem carried_of_validateValue {key : String} {v : PropertyValue}
    (h : (validateValue config key v).ok = true) : v.Carried := by
  cases v with
  | bool b => trivial
  | int n => trivial
  | double d =>
    simp only [validateValue] at h
    split at h
    · cases h
    · rename_i hfinite
      simpa [PropertyValue.Carried] using hfinite
  | string text =>
    simp only [validateValue] at h
    split at h
    · cases h
    split at h
    · cases h
    · rename_i hvalid
      exact validText_iff.mp (by simpa using hvalid)

end EventValidator

end PlayerTrace
