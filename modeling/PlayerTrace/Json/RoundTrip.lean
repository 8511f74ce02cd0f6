import PlayerTrace.Json.Grammar
import PlayerTrace.Lib.OrderedMap

/-!
# Reading back what was written

`json_sax_dom_parser` of `src/third_party/nlohmann/nlohmann/json.hpp`, the handler that builds a
value, and `parse` with it. The source keeps pointers to the arrays and objects that are open; here
an open one is a frame, which goes into the frame below it when it is closed
(`PlayerTrace.Json.Dom`).

The calls of a value without duplicate keys build that value (`PlayerTrace.Json.feed_dom`). So
**what is written is accepted and read back**: a value whose texts are in UTF-8 and whose numbers
are carried is written to a text, on one line, that reads as the value
(`PlayerTrace.Json.dump_back`). The end of the input may be a null byte here, and then whatever
stands behind it is not looked at (`PlayerTrace.Json.reads_text`).
-/

namespace PlayerTrace

namespace Json

/-! ### The handler -/

/-- An array or an object that is open. In an object, `key` is the one whose value comes next. -/
inductive Frame
  | array (elements : List Value)
  | object (members : List (Text × Value)) (key : Option Text)

/-- The state of `json_sax_dom_parser`: the value it has built, and what is open, the innermost
first. -/
structure Dom where
  root : Option Value
  frames : List Frame

namespace Dom

/-- `handle_value`, for a value that is complete. No value stands for a failed assertion. -/
def put (d : Dom) (v : Value) : Option Dom :=
  match d.frames with
  | [] => some { d with root := some v }
  | .array elements :: outer => some { d with frames := .array (elements ++ [v]) :: outer }
  | .object members (some key) :: outer =>
    some { d with frames := .object (OrderedMap.assignEntry key v members) (some key) :: outer }
  | .object _ none :: _ => none

/-- `start_object` and `start_array`. -/
def push (d : Dom) (frame : Frame) : Dom := { d with frames := frame :: d.frames }

/-- `key`, which puts a null into the object if the key is new. -/
def select (d : Dom) (key : Text) : Option Dom :=
  match d.frames with
  | .object members _ :: outer =>
    let members := if key ∈ members.map Prod.fst then members else members ++ [(key, .atom .null)]
    some { d with frames := .object members (some key) :: outer }
  | _ => none

/-- `end_object`. -/
def endObject (d : Dom) : Option Dom :=
  match d.frames with
  | .object members _ :: outer => { d with frames := outer : Dom }.put (.object members)
  | _ => none

/-- `end_array`. -/
def endArray (d : Dom) : Option Dom :=
  match d.frames with
  | .array elements :: outer => { d with frames := outer : Dom }.put (.array elements)
  | _ => none

/-- `json_sax_dom_parser`. -/
def handler : Handler Dom where
  call
    | .atom a, d => d.put (.atom a)
    | .startObject, d => some (d.push (.object [] none))
    | .key key, d => d.select key
    | .endObject, d => d.endObject
    | .startArray, d => some (d.push (.array []))
    | .endArray, d => d.endArray

end Dom

/-- `parse`; an exception gives no value. -/
def parse (F : Floats) (input : Text) : Option Value :=
  (saxParse F Dom.handler input ⟨none, []⟩).bind Dom.root

/-! ### The calls of a value build it -/

section Build

variable {d : Dom}

/-- The calls of `v` put it in its place. -/
def Builds (v : Value) : Prop := ∀ d : Dom, feed Dom.handler v.calls d = d.put v

theorem feed_elements {vs : List Value} (h : ∀ v ∈ vs, Builds v) (es : List Value) :
    feed Dom.handler (vs.flatMap Value.calls) (d.push (.array es)) =
      some (d.push (.array (es ++ vs))) := by
  induction vs generalizing es with
  | nil => rw [List.flatMap_nil, feed, List.append_nil]
  | cons v vs ih =>
    obtain ⟨hv, hvs⟩ := List.forall_mem_cons.mp h
    have hput : (d.push (.array es)).put v = some (d.push (.array (es ++ [v]))) := rfl
    rw [List.flatMap_cons, feed_append, hv, hput, Option.bind_some, ih hvs, List.append_assoc]
    rfl

/-- Assigning to the key that comes last. -/
theorem assignEntry_last {ms : List (Text × Value)} {key : Text} {v w : Value}
    (hnew : key ∉ ms.map Prod.fst) :
    OrderedMap.assignEntry key v (ms ++ [(key, w)]) = ms ++ [(key, v)] := by
  induction ms with
  | nil =>
    rw [List.nil_append, OrderedMap.assignEntry, if_pos rfl]
    rfl
  | cons m ms ih =>
    rw [List.map_cons, List.mem_cons, not_or] at hnew
    rw [List.cons_append, OrderedMap.assignEntry, if_neg (Ne.symm hnew.1), ih hnew.2]
    rfl

/-- A key that is new, and its value. -/
theorem select_put {ms : List (Text × Value)} {key : Text} {prev : Option Text} {v : Value}
    (hnew : key ∉ ms.map Prod.fst) :
    ((d.push (.object ms prev)).select key).bind (Dom.put · v) =
      some (d.push (.object (ms ++ [(key, v)]) (some key))) := by
  rw [Dom.select, Dom.push]
  dsimp only
  rw [if_neg hnew, Option.bind_some, Dom.put]
  dsimp only
  rw [assignEntry_last hnew]
  rfl

theorem feed_members {ms : List (Text × Value)} (h : ∀ m ∈ ms, Builds m.2)
    (before : List (Text × Value)) (prev : Option Text)
    (hnodup : ((before ++ ms).map Prod.fst).Nodup) :
    ∃ last, feed Dom.handler (ms.flatMap fun m => .key m.1 :: m.2.calls)
      (d.push (.object before prev)) = some (d.push (.object (before ++ ms) last)) := by
  induction ms generalizing before prev with
  | nil => exact ⟨prev, by rw [List.flatMap_nil, feed, List.append_nil]⟩
  | cons m ms ih =>
    obtain ⟨hm, hms⟩ := List.forall_mem_cons.mp h
    have hnew : m.1 ∉ before.map Prod.fst := by
      rw [List.map_append, List.nodup_append'] at hnodup
      exact fun hmem => hnodup.2.2 hmem List.mem_cons_self
    have hsplit : before ++ m :: ms = (before ++ [m]) ++ ms := by rw [List.append_assoc]; rfl
    rw [hsplit] at hnodup ⊢
    obtain ⟨last, hlast⟩ := ih hms (before ++ [m]) (some m.1) hnodup
    refine ⟨last, ?_⟩
    have hmember : feed Dom.handler (.key m.1 :: m.2.calls) (d.push (.object before prev)) =
        some (d.push (.object (before ++ [m]) (some m.1))) := by
      rw [feed, funext hm]
      exact select_put hnew
    rw [List.flatMap_cons, feed_append, hmember, Option.bind_some, hlast]

/-- **The calls of a value build it.** -/
theorem feed_dom {v : Value} (h : v.Distinct) : Builds v := by
  induction v with
  | atom a =>
    intro d
    have hcalls : (Value.atom a).calls = [.atom a] := rfl
    rw [hcalls, feed_singleton]
    rfl
  | array elements ih =>
    intro d
    have hall := Value.distinct_array.mp h
    have hstart : Dom.handler.call .startArray d = some (d.push (.array [])) := rfl
    rw [Value.calls_array, feed, hstart, Option.bind_some, feed_append,
      feed_elements fun v hv => ih v hv (hall v hv), Option.bind_some, feed_singleton]
    rfl
  | object members ih =>
    intro d
    obtain ⟨hnodup, hall⟩ := Value.distinct_object.mp h
    obtain ⟨last, hlast⟩ := feed_members (d := d) (fun m hm => ih m hm (hall m hm)) [] none hnodup
    have hstart : Dom.handler.call .startObject d = some (d.push (.object [] none)) := rfl
    rw [Value.calls_object, feed, hstart, Option.bind_some, feed_append, hlast, Option.bind_some,
      feed_singleton]
    rfl

end Build

/-! ### What a value is read back as -/

/-- A number that is not finite is written as `null`. -/
def Atom.presented : Atom → Atom
  | .number value => if value.isFinite then .number value else .null
  | a => a

/-- The value with those numbers replaced. -/
def Value.presented : Value → Value := Value.fold (fun a => .atom a.presented) .array .object

section Presented

variable {F : Floats} {v : Value}

theorem Value.presented_array (elements : List Value) :
    (Value.array elements).presented = .array (elements.map Value.presented) := by
  rw [Value.presented, Value.fold_array]

theorem Value.presented_object (members : List (Text × Value)) :
    (Value.object members).presented = .object (members.map fun m => (m.1, m.2.presented)) := by
  rw [Value.presented, Value.fold_object]

theorem Value.atoms_presented (v : Value) : v.presented.atoms = v.atoms.map Atom.presented := by
  induction v with
  | atom a => rfl
  | array elements ih =>
    rw [presented_array, atoms_array, atoms_array, List.flatMap_map, List.map_flatMap]
    exact List.flatMap_congr ih
  | object members ih =>
    rw [presented_object, atoms_object, atoms_object, List.flatMap_map, List.map_flatMap]
    exact List.flatMap_congr fun m hm => congrArg (Atom.string m.1 :: ·) (ih m hm)

/-- A value and what it is read back as are written alike. -/
theorem text_presented (v : Value) : text F v.presented = text F v := by
  induction v with
  | atom a =>
    cases a with
    | number value =>
      by_cases hfinite : value.isFinite = true
      · simp [Value.presented, Value.fold, text, Atom.presented, hfinite]
      · simp [Value.presented, Value.fold, text, Atom.presented, hfinite, atomText]
    | null | boolean | integer | string => rfl
  | array elements ih =>
    rw [Value.presented_array, text_array, text_array, List.map_map,
      ← List.map_congr_left ih]
    rfl
  | object members ih =>
    have hmembers : ∀ m ∈ members, memberText (m.1, text F m.2.presented) =
        memberText (m.1, text F m.2) := fun m hm => by rw [ih m hm]
    rw [Value.presented_object, text_object, text_object, List.map_map,
      ← List.map_congr_left hmembers]
    rfl

theorem Value.forall_atoms_presented {P : Atom → Prop} :
    (∀ a ∈ v.presented.atoms, P a) ↔ ∀ a ∈ v.atoms, P a.presented := by
  rw [atoms_presented, List.forall_mem_map]

theorem Value.Finite.presented (h : v.Finite) : v.presented = v := by
  induction v with
  | atom a =>
    have hatom := h a List.mem_cons_self
    cases a with
    | number value => exact congrArg Value.atom (if_pos hatom)
    | null | boolean | integer | string => rfl
  | array elements ih =>
    have hall := Value.forall_atoms_array.mp h
    have hmap : elements.map Value.presented = elements.map id :=
      List.map_congr_left fun v hv => ih v hv (hall v hv)
    rw [presented_array, hmap, List.map_id]
  | object members ih =>
    have hall := (Value.forall_atoms_object (P := fun a => a.finite = true)).mp h
    have hmap : members.map (fun m => (m.1, m.2.presented)) = members.map id :=
      List.map_congr_left fun m hm => Prod.ext rfl (ih m hm (hall m hm).2)
    rw [presented_object, hmap, List.map_id]

theorem Value.Fits.carried (h : v.Fits F) : v.presented.Carried F := by
  refine Value.forall_atoms_presented.mpr fun a ha => ?_
  have hfits := h a ha
  cases a with
  | number value =>
    rw [Atom.presented]
    split_ifs with hfinite
    · exact hfits hfinite
    · trivial
  | integer value => exact hfits
  | null | boolean | string => trivial

theorem Value.encoded_presented : v.presented.Encoded ↔ v.Encoded := by
  have hatom : ∀ a : Atom, a.presented.Encoded ↔ a.Encoded := by
    intro a
    cases a with
    | number value =>
      rw [Atom.presented]
      split_ifs <;> exact Iff.rfl
    | null | boolean | integer | string => exact Iff.rfl
  exact Value.forall_atoms_presented.trans (forall₂_congr fun a _ => hatom a)

theorem Value.Distinct.presented (h : v.Distinct) : v.presented.Distinct := by
  induction v with
  | atom a => trivial
  | array elements ih =>
    have hall := Value.distinct_array.mp h
    rw [presented_array, distinct_array]
    exact List.forall_mem_map.mpr fun v hv => ih v hv (hall v hv)
  | object members ih =>
    obtain ⟨hnodup, hall⟩ := Value.distinct_object.mp h
    rw [presented_object, distinct_object, List.map_map]
    exact ⟨hnodup, List.forall_mem_map.mpr fun m hm => ih m hm (hall m hm)⟩

end Presented

/-! ### Reading back -/

section Back

variable {F : Floats} {v : Value} {rest : Text}

theorem Atom.Carried.finite {a : Atom} (h : a.Carried F) : a.finite = true := by
  cases a with
  | number value => exact Floats.Carries.finite h
  | null | boolean | integer | string => rfl

/-- The end of an input: nothing, or a null byte and anything. -/
def Ended (rest : Text) : Prop := ∀ c ∈ rest.head?, c = 0

theorem Ended.scan (h : Ended rest) : (scan F rest).1 = .endOfInput := by
  cases rest with
  | nil => rfl
  | cons c rest =>
    obtain rfl : c = 0 := h c rfl
    rfl

theorem Ended.delimited (h : Ended rest) : Delimited rest := by
  intro c hc
  rw [h c hc]
  decide

/-- **What is written reads as the value**, whatever stands behind a null byte. -/
theorem reads_text (hcarried : v.Carried F) (hencoded : v.Encoded) (hrest : Ended rest) :
    Reads F (text F v ++ rest) v :=
  .of_lexes (lexes_text hcarried hencoded hrest.delimited) hrest.scan

theorem accept_text (hcarried : v.Carried F) (hencoded : v.Encoded) (hrest : Ended rest) :
    accept F (text F v ++ rest) = true :=
  accept_of_reads (fun a ha => (hcarried a ha).finite) (reads_text hcarried hencoded hrest)

/-- What is parsed is what the calls of the value come to. -/
theorem parse_text (hcarried : v.Carried F) (hencoded : v.Encoded) (hrest : Ended rest) :
    parse F (text F v ++ rest) = (feed Dom.handler v.calls ⟨none, []⟩).bind Dom.root := by
  have hfinite : v.Finite := fun a ha => (hcarried a ha).finite
  rw [parse, saxParse_of_reads hfinite (reads_text hcarried hencoded hrest)]

theorem ended_nil : Ended [] := fun _ hc => by cases hc

/-- A value whose texts are in UTF-8 is written on one line, which is accepted and read back. -/
theorem dump_back (hfits : v.Fits F) (hdistinct : v.Distinct) (hencoded : v.Encoded) :
    ∃ t, dump F v = some (.ok t) ∧ Printable t ∧ accept F t = true ∧
      parse F t = some v.presented := by
  have hpresented := Value.encoded_presented.mpr hencoded
  refine ⟨text F v, (yields_dump hfits).eq_write hencoded, printable_text hfits, ?_, ?_⟩
  · rw [← text_presented, ← List.append_nil (text F _)]
    exact accept_text hfits.carried hpresented ended_nil
  · rw [← text_presented, ← List.append_nil (text F _)]
    rw [parse_text hfits.carried hpresented ended_nil, feed_dom hdistinct.presented]
    rfl

/-- The number 1, an infinite number and a text with a line feed, under a key. -/
def Value.mixed : Value :=
  .object [(bytes "a", .array [.atom (.number ⟨0x3FF0000000000000⟩),
    .atom (.number ⟨0x7FF0000000000000⟩), .atom (.integer (-5)), .atom (.string (bytes "x\ny"))])]

theorem Value.atoms_mixed : Value.mixed.atoms =
    [.string (bytes "a"), .number ⟨0x3FF0000000000000⟩, .number ⟨0x7FF0000000000000⟩, .integer (-5),
      .string (bytes "x\ny")] := rfl

theorem Value.fits_mixed : Value.mixed.Fits Floats.sample := by
  intro a ha
  rw [Value.atoms_mixed] at ha
  simp only [List.mem_cons, List.not_mem_nil, or_false] at ha
  rcases ha with rfl | rfl | rfl | rfl | rfl
  · trivial
  · exact Floats.carries_sample
  · exact Floats.carries_sample
  · constructor <;> decide
  · trivial

theorem Value.encoded_mixed : Value.mixed.Encoded := by
  intro a ha
  rw [Value.atoms_mixed] at ha
  simp only [List.mem_cons, List.not_mem_nil, or_false] at ha
  rcases ha with rfl | rfl | rfl | rfl | rfl
  · exact encoded_of_forall (by decide)
  · trivial
  · trivial
  · trivial
  · exact encoded_of_forall (by decide)

theorem Value.distinct_mixed : Value.mixed.Distinct := by
  refine Value.distinct_object.mpr ⟨by decide, List.forall_mem_singleton.mpr ?_⟩
  refine Value.distinct_array.mpr fun v hv => ?_
  simp only [List.mem_cons, List.not_mem_nil, or_false] at hv
  rcases hv with rfl | rfl | rfl | rfl <;> trivial

/-- **Writing and reading back.** A value is written on one line, which is accepted and read back as
the value with `null` for what is not finite, unless one of its texts is not in UTF-8; and then an
exception is thrown. No buffer is overrun. -/
theorem round_trip (hfits : v.Fits F) (hdistinct : v.Distinct) :
    (v.Encoded → ∃ t, dump F v = some (.ok t) ∧ Printable t ∧ accept F t = true ∧
        parse F t = some v.presented) ∧
      (¬v.Encoded → ∃ what, dump F v = some (.error what)) :=
  ⟨dump_back hfits hdistinct, (yields_dump hfits).error⟩

theorem round_trip_mixed : ∃ t, dump Floats.sample Value.mixed = some (.ok t) ∧ Printable t ∧
    accept Floats.sample t = true ∧ parse Floats.sample t = some Value.mixed.presented :=
  (round_trip Value.fits_mixed Value.distinct_mixed).1 Value.encoded_mixed

/-- **A null byte ends the input.** Whatever stands behind it, a text that was written is accepted
and parsed as without it. -/
theorem null_ends_input {t : Text} (hfits : v.Fits F) (h : dump F v = some (.ok t)) (junk : Text) :
    accept F (t ++ 0x00 :: junk) = true ∧ parse F (t ++ 0x00 :: junk) = parse F t := by
  have hyields := yields_dump hfits
  have hencoded : v.Encoded := by
    by_contra hnot
    obtain ⟨what, hwhat⟩ := hyields.error hnot
    rw [h] at hwhat
    cases hwhat
  obtain rfl : t = text F v := by
    rw [hyields.eq_write hencoded] at h
    exact (Except.ok.inj (Option.some.inj h)).symm
  have hcarried := hfits.carried
  have hpresented := Value.encoded_presented.mpr hencoded
  have hnull : Ended (0x00 :: junk) := fun c hc => (Option.some.inj hc).symm
  rw [← text_presented]
  refine ⟨accept_text hcarried hpresented hnull, ?_⟩
  have hplain := parse_text hcarried hpresented ended_nil
  rw [List.append_nil] at hplain
  rw [parse_text hcarried hpresented hnull, hplain]

theorem null_ends_input_mixed : ∃ t, dump Floats.sample Value.mixed = some (.ok t) ∧
    accept Floats.sample (t ++ [0x00, 0x7D]) = true ∧
    parse Floats.sample (t ++ [0x00, 0x7D]) = parse Floats.sample t := by
  obtain ⟨t, hdump, -⟩ := dump_back Value.fits_mixed Value.distinct_mixed Value.encoded_mixed
  exact ⟨t, hdump, null_ends_input Value.fits_mixed hdump [0x7D]⟩

end Back

end Json

end PlayerTrace
