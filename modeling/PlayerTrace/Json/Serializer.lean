import PlayerTrace.Json.Numbers

/-!
# `serializer::dump`

The compact branch of `dump` in `src/third_party/nlohmann/nlohmann/json.hpp`, which `dump()`
without arguments takes. A call without a value stands for an access beyond one of its buffers.

What is written is said without the machinery (`PlayerTrace.Json.text`). For a value whose integers
are machine integers and whose finite numbers are carried the call always has a value, and it throws
just when one of the texts in the value, keys included, is not in UTF-8
(`PlayerTrace.Json.yields_dump`). What it writes is on one line (`PlayerTrace.Json.printable_text`).
-/

namespace PlayerTrace

namespace Json

/-- What a call writes, unless it throws. -/
abbrev Output := Option (Except String Text)

namespace Output

/-- What is written for sure. -/
def write (t : Text) : Output := some (.ok t)

/-- One output after the other: an exception ends the call. -/
def append : Output → Output → Output
  | some (.ok t), some (.ok u) => some (.ok (t ++ u))
  | some (.ok _), some (.error what) => some (.error what)
  | some (.ok _), none => none
  | some (.error what), _ => some (.error what)
  | none, _ => none

/-- **An output, told in one**: if `ok` holds it is `t`, and otherwise it is an exception. -/
inductive Yields (ok : Prop) (t : Text) : Output → Prop
  | writes (h : ok) : Yields ok t (some (.ok t))
  | throws (h : ¬ok) (what : String) : Yields ok t (some (.error what))

variable {o o' : Output} {p q : Prop} {t u : Text}

theorem Yields.write (t : Text) : Yields True t (write t) := .writes trivial

theorem Yields.append (h : Yields p t o) (h' : Yields q u o') :
    Yields (p ∧ q) (t ++ u) (o.append o') := by
  cases h with
  | throws hp what => exact .throws (fun hpq => hp hpq.1) what
  | writes hp =>
    cases h' with
    | throws hq what => exact .throws (fun hpq => hq hpq.2) what
    | writes hq => exact .writes ⟨hp, hq⟩

theorem Yields.congr (h : Yields p t o) (hpq : p ↔ q) (ht : t = u) : Yields q u o := by
  rw [← hpq, ← ht]
  exact h

theorem Yields.eq_write (h : Yields p t o) (hp : p) : o = Output.write t := by
  cases h with
  | writes => rfl
  | throws hnot => exact absurd hp hnot

theorem Yields.error (h : Yields p t o) (hp : ¬p) : ∃ what, o = some (.error what) := by
  cases h with
  | writes hyes => exact absurd hyes hp
  | throws _ what => exact ⟨what, rfl⟩

end Output

open PlayerTrace.Json.Output

/-! ### The function -/

section Dump

variable (F : Floats)

/-- The branches of `dump` for values without members. -/
def dumpAtom : Atom → Output
  | .null => write (bytes "null")
  | .boolean true => write (bytes "true")
  | .boolean false => write (bytes "false")
  | .integer value => (dumpInteger value).map .ok
  | .number value => (F.dumpFloat value).map .ok
  | .string value => ((write [0x22]).append (dumpEscaped value)).append (write [0x22])

/-- A key and what is between it and its value. -/
def dumpKey (key : Text) : Output :=
  ((write [0x22]).append (dumpEscaped key)).append (write [0x22, 0x3A])

mutual

/-- `dump`. -/
def dump : Value → Output
  | .atom a => dumpAtom F a
  | .array elements =>
    if elements.isEmpty then write [0x5B, 0x5D]
    else ((write [0x5B]).append (dumpElements elements)).append (write [0x5D])
  | .object members =>
    if members.isEmpty then write [0x7B, 0x7D]
    else ((write [0x7B]).append (dumpMembers members)).append (write [0x7D])

/-- The first elements, each with a comma behind it, and the last one. -/
def dumpElements : List Value → Output
  | [] => write []
  | [v] => dump v
  | v :: w :: vs => ((dump v).append (write [0x2C])).append (dumpElements (w :: vs))

/-- The first members, each with a comma behind it, and the last one. -/
def dumpMembers : List (Text × Value) → Output
  | [] => write []
  | [(key, v)] => (dumpKey key).append (dump v)
  | (key, v) :: m :: ms =>
    (((dumpKey key).append (dump v)).append (write [0x2C])).append (dumpMembers (m :: ms))

end

end Dump

/-! ### What is written -/

/-- A text that is written without an exception. -/
def Atom.Encoded : Atom → Prop
  | .string value => Utf8.WellFormed value
  | .null | .boolean _ | .integer _ | .number _ => True

/-- An integer fits its type, and a number is carried if it is finite. -/
def Atom.Fits (F : Floats) : Atom → Prop
  | .integer value => Machine value
  | .number value => value.isFinite = true → F.Carries value
  | .null | .boolean _ | .string _ => True

namespace Value

/-- Every text in the value, keys included, is in UTF-8. -/
def Encoded (v : Value) : Prop := ∀ a ∈ v.atoms, a.Encoded

/-- Every integer in the value fits its type, and every finite number is carried. -/
def Fits (F : Floats) (v : Value) : Prop := ∀ a ∈ v.atoms, a.Fits F

theorem forall_atoms_array {P : Atom → Prop} {elements : List Value} :
    (∀ a ∈ (Value.array elements).atoms, P a) ↔ ∀ v ∈ elements, ∀ a ∈ v.atoms, P a := by
  rw [atoms_array, List.forall_mem_flatMap]

theorem forall_atoms_object {P : Atom → Prop} {members : List (Text × Value)} :
    (∀ a ∈ (Value.object members).atoms, P a) ↔
      ∀ m ∈ members, P (.string m.1) ∧ ∀ a ∈ m.2.atoms, P a := by
  rw [atoms_object, List.forall_mem_flatMap]
  simp only [List.forall_mem_cons]

end Value

section Text

variable (F : Floats)

/-- A text between quotes. -/
def quoted (s : Text) : Text := 0x22 :: escaped s ++ [0x22]

def atomText : Atom → Text
  | .null => bytes "null"
  | .boolean true => bytes "true"
  | .boolean false => bytes "false"
  | .integer value => integerText value
  | .number value => if value.isFinite then F.toChars value else bytes "null"
  | .string value => quoted value

/-- Texts with commas between them. -/
def joined (ts : List Text) : Text := List.intercalate [0x2C] ts

/-- A member, with its value written. -/
def memberText (m : Text × Text) : Text := quoted m.1 ++ 0x3A :: m.2

/-- The text of a value. -/
def text : Value → Text :=
  Value.fold (atomText F) (fun ts => 0x5B :: joined ts ++ [0x5D]) fun ms =>
    0x7B :: joined (ms.map memberText) ++ [0x7D]

theorem text_array (elements : List Value) :
    text F (.array elements) = 0x5B :: joined (elements.map (text F)) ++ [0x5D] := by
  rw [text, Value.fold_array]

theorem text_object (members : List (Text × Value)) :
    text F (.object members) =
      0x7B :: joined (members.map fun m => memberText (m.1, text F m.2)) ++ [0x7D] := by
  rw [text, Value.fold_object, List.map_map]
  rfl

@[simp] theorem joined_singleton (t : Text) : joined [t] = t := List.append_nil t

theorem joined_cons (t u : Text) (ts : List Text) :
    joined (t :: u :: ts) = t ++ 0x2C :: joined (u :: ts) := rfl

end Text

/-! ### The writer writes it -/

section Correct

variable {F : Floats}

theorem yields_dumpEscaped (s : Text) : Yields (Utf8.WellFormed s) (escaped s) (dumpEscaped s) := by
  by_cases h : Utf8.WellFormed s
  · rw [dumpEscaped_of_wellFormed h]
    exact .writes h
  · obtain ⟨what, hwhat⟩ := dumpEscaped_of_not h
    rw [hwhat]
    exact .throws h what

theorem yields_dumpAtom {a : Atom} (h : a.Fits F) :
    Yields a.Encoded (atomText F a) (dumpAtom F a) := by
  cases a with
  | null => exact .write _
  | boolean value => cases value <;> exact .write _
  | integer value =>
    rw [dumpAtom, dumpInteger_eq h]
    exact .write _
  | number value =>
    rw [dumpAtom, atomText]
    by_cases hfinite : value.isFinite = true
    · rw [(h hfinite).dumpFloat, if_pos hfinite]
      exact .write _
    · have hnot : (!value.isFinite) = true := by simpa using hfinite
      rw [if_neg hfinite, Floats.dumpFloat, if_pos hnot]
      exact .write _
  | string value =>
    exact (((Yields.write [0x22]).append (yields_dumpEscaped value)).append (.write [0x22])).congr
      (by simp [Atom.Encoded]) rfl

theorem yields_dumpKey (key : Text) :
    Yields (Utf8.WellFormed key) (quoted key ++ [0x3A]) (dumpKey key) :=
  (((Yields.write [0x22]).append (yields_dumpEscaped key)).append (.write [0x22, 0x3A])).congr
    (by simp) (by simp [quoted])

/-- Outputs with commas between them. -/
def commas : List Output → Output
  | [] => write []
  | [o] => o
  | o :: o' :: os => (o.append (write [0x2C])).append (commas (o' :: os))

theorem dumpElements_eq (vs : List Value) : dumpElements F vs = commas (vs.map (dump F)) := by
  induction vs with
  | nil => rw [dumpElements, List.map_nil, commas]
  | cons v vs ih =>
    cases vs with
    | nil => rw [dumpElements, List.map_singleton, commas]
    | cons w vs =>
      rw [dumpElements, ih]
      rfl

theorem dumpMembers_eq (ms : List (Text × Value)) :
    dumpMembers F ms = commas (ms.map fun m => (dumpKey m.1).append (dump F m.2)) := by
  induction ms with
  | nil => rw [dumpMembers, List.map_nil, commas]
  | cons m ms ih =>
    cases ms with
    | nil => rw [dumpMembers, List.map_singleton, commas]
    | cons m' ms =>
      rw [dumpMembers, ih]
      rfl

theorem yields_commas {ι : Type} {l : List ι} {ok : ι → Prop} {t : ι → Text} {o : ι → Output}
    (h : ∀ x ∈ l, Yields (ok x) (t x) (o x)) :
    Yields (∀ x ∈ l, ok x) (joined (l.map t)) (commas (l.map o)) := by
  induction l with
  | nil => exact (Yields.write []).congr (by simp) rfl
  | cons x l ih =>
    obtain ⟨hx, hl⟩ := List.forall_mem_cons.mp h
    cases l with
    | nil => exact hx.congr (by simp) (by simp)
    | cons y l =>
      refine ((hx.append (.write [0x2C])).append (ih hl)).congr ?_ ?_
      · rw [and_true, List.forall_mem_cons (l := y :: l)]
      · simp [joined_cons]

theorem yields_dumpMember {m : Text × Value} (h : Yields m.2.Encoded (text F m.2) (dump F m.2)) :
    Yields (Utf8.WellFormed m.1 ∧ m.2.Encoded) (memberText (m.1, text F m.2))
      ((dumpKey m.1).append (dump F m.2)) :=
  ((yields_dumpKey m.1).append h).congr Iff.rfl (by simp [memberText])

/-- **What the call does.** -/
theorem yields_dump {v : Value} (h : v.Fits F) : Yields v.Encoded (text F v) (dump F v) := by
  induction v with
  | atom a =>
    rw [dump]
    exact (yields_dumpAtom (h a List.mem_cons_self)).congr List.forall_mem_singleton.symm rfl
  | array elements ih =>
    have hall := Value.forall_atoms_array.mp h
    have helements := yields_commas fun v hv => ih v hv (hall v hv)
    rw [dump, dumpElements_eq]
    split_ifs with hempty
    · obtain rfl := List.isEmpty_iff.mp hempty
      exact (Yields.write _).congr (by simp [Value.Encoded, Value.atoms_array]) rfl
    · refine (((Yields.write [0x5B]).append helements).append (.write [0x5D])).congr ?_ ?_
      · rw [true_and, and_true]
        exact Value.forall_atoms_array.symm
      · rw [text_array]
        rfl
  | object members ih =>
    have hall := Value.forall_atoms_object.mp h
    have hmembers := yields_commas fun m hm => yields_dumpMember (ih m hm (hall m hm).2)
    rw [dump, dumpMembers_eq]
    split_ifs with hempty
    · obtain rfl := List.isEmpty_iff.mp hempty
      exact (Yields.write _).congr (by simp [Value.Encoded, Value.atoms_object]) rfl
    · refine (((Yields.write [0x7B]).append hmembers).append (.write [0x7D])).congr ?_ ?_
      · rw [true_and, and_true]
        exact (Value.forall_atoms_object (P := Atom.Encoded)).symm
      · rw [text_object]
        rfl

end Correct

/-! ### On one line -/

section Line

variable {F : Floats}

/-- A text without control characters below the space; so it is one line. -/
def Printable (t : Text) : Prop := ∀ b ∈ t, 0x20 ≤ b.toNat

instance (t : Text) : Decidable (Printable t) := List.decidableBAll _ t

theorem printable_append {t u : Text} : Printable (t ++ u) ↔ Printable t ∧ Printable u :=
  List.forall_mem_append

theorem printable_cons {b : UInt8} {t : Text} : Printable (b :: t) ↔ 0x20 ≤ b.toNat ∧ Printable t :=
  List.forall_mem_cons

theorem printable_escaped (s : Text) : Printable (escaped s) := by
  have hbyte : ∀ b : UInt8, (escapeByte b).all (0x20 ≤ ·.toNat) = true :=
    Utf8.forall_byte (by decide +kernel)
  intro c hc
  obtain ⟨b, -, hc⟩ := List.mem_flatMap.mp hc
  exact of_decide_eq_true (List.all_eq_true.mp (hbyte b) c hc)

theorem printable_quoted (s : Text) : Printable (quoted s) :=
  printable_cons.mpr ⟨by decide, printable_append.mpr ⟨printable_escaped s, by decide⟩⟩

theorem Digits.printable {ds : Text} (h : Digits ds) : Printable ds := by
  intro d hd
  have hrange := isDigit_iff.mp (h d hd)
  omega

theorem printable_digits {d : UInt8} {ds : Text} (hd : isDigit d = true) (hds : Digits ds) :
    Printable (d :: ds) :=
  Digits.printable (List.forall_mem_cons.mpr ⟨hd, hds⟩)

theorem Floating.printable {t : Text} (h : Floating t) : Printable t := by
  obtain ⟨whole, fraction, exponent, rfl, hwhole, hfraction, hexponent, -⟩ := h
  refine printable_append.mpr ⟨?_, printable_append.mpr ⟨?_, ?_⟩⟩
  · cases hwhole with
    | zero => decide
    | digits hd _ hds => exact printable_digits hd hds
  · cases hfraction with
    | none => decide
    | digits hd hds => exact printable_cons.mpr ⟨by decide, printable_digits hd hds⟩
  · cases hexponent with
    | none => decide
    | digits hsign hd hds =>
      refine printable_cons.mpr ⟨by decide, printable_cons.mpr ⟨?_, printable_digits hd hds⟩⟩
      rcases hsign with rfl | rfl <;> decide

theorem printable_atomText {a : Atom} (h : a.Fits F) : Printable (atomText F a) := by
  have hsign : ∀ negative : Bool, Printable (if negative then [0x2D] else []) := by decide
  have hnames : Printable (bytes "null") ∧ Printable (bytes "true") ∧
      Printable (bytes "false") := by decide
  cases a with
  | null => exact hnames.1
  | boolean value =>
    cases value with
    | true => exact hnames.2.1
    | false => exact hnames.2.2
  | integer value =>
    refine printable_append.mpr ⟨?_, (digits_numeral _).printable⟩
    split_ifs <;> decide
  | number value =>
    rw [atomText]
    split_ifs with hfinite
    · obtain ⟨t, ht, hfloating⟩ := (h hfinite).floating
      rw [ht]
      exact printable_append.mpr ⟨hsign _, hfloating.printable⟩
    · exact hnames.1
  | string value => exact printable_quoted value

theorem printable_joined {ts : List Text} (h : ∀ t ∈ ts, Printable t) : Printable (joined ts) := by
  induction ts with
  | nil => decide
  | cons t ts ih =>
    obtain ⟨ht, hts⟩ := List.forall_mem_cons.mp h
    cases ts with
    | nil => rwa [joined_singleton]
    | cons u ts =>
      rw [joined_cons]
      exact printable_append.mpr ⟨ht, printable_cons.mpr ⟨by decide, ih hts⟩⟩

/-- **A value is written on one line.** -/
theorem printable_text {v : Value} (h : v.Fits F) : Printable (text F v) := by
  induction v with
  | atom a => exact printable_atomText (h a List.mem_cons_self)
  | array elements ih =>
    have hall := Value.forall_atoms_array.mp h
    rw [text_array, List.cons_append]
    refine printable_cons.mpr ⟨by decide, printable_append.mpr ⟨printable_joined ?_, by decide⟩⟩
    exact List.forall_mem_map.mpr fun v hv => ih v hv (hall v hv)
  | object members ih =>
    have hall := (Value.forall_atoms_object (P := Atom.Fits F)).mp h
    rw [text_object, List.cons_append]
    refine printable_cons.mpr ⟨by decide, printable_append.mpr ⟨printable_joined ?_, by decide⟩⟩
    refine List.forall_mem_map.mpr fun m hm => printable_append.mpr ⟨printable_quoted m.1, ?_⟩
    exact printable_cons.mpr ⟨by decide, ih m hm (hall m hm).2⟩

end Line

end Json

end PlayerTrace
