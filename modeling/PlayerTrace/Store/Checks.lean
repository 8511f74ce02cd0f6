import Mathlib.Data.List.TakeWhile
import PlayerTrace.Basic
import PlayerTrace.Lib.Parens
import PlayerTrace.Store.Noise

/-!
# `check_expressions`

The search of `src/sqlite_store.cpp` for the CHECK constraints of a DDL that has been through
`strip_sql_noise`, and the check of the `events` table built on it.

The search goes from one occurrence of the word to the next; where the word stands alone and a
balanced group of parentheses follows, it goes on behind the group. `PlayerTrace.IsGroup` says
what such an occurrence is without a search, and the search finds exactly those that do not lie
inside the group of another one (`PlayerTrace.checkGroups_spec`).
-/

namespace PlayerTrace

open Loop SqlText Parens

/-! ### The search -/

/-- `to_lower_ascii`, of one character. -/
def toLowerChar (c : UInt8) : UInt8 := if ch 'A' ≤ c ∧ c ≤ ch 'Z' then c - ch 'A' + ch 'a' else c

/-- `to_lower_ascii`. -/
def toLowerAscii (text : List UInt8) : List UInt8 := text.map toLowerChar

/-- `is_ident_char`. -/
def isIdentChar (c : UInt8) : Bool :=
  (ch 'a' ≤ c && c ≤ ch 'z') || (ch 'A' ≤ c && c ≤ ch 'Z') || (ch '0' ≤ c && c ≤ ch '9') ||
    c == ch '_' || c == ch '$'

/-- The space, the tabulator, the line feed or the carriage return. -/
def isBlank (c : UInt8) : Bool := c == ch ' ' || c == 9 || c == 10 || c == 13

/-- `collapse_spaces`, which also takes the form feed and the vertical tabulator. -/
def collapseSpaces (text : List UInt8) : List UInt8 :=
  text.filter fun c => !(isBlank c || c == 12 || c == 11)

/-- The word that is looked for. -/
def keyword : List UInt8 := [ch 'c', ch 'h', ch 'e', ch 'c', ch 'k']

section Search

variable (text : List UInt8)

/-- `text.find("check", i)`. -/
def findKeyword (i : Nat) : Option Nat :=
  (List.range text.length).find? fun j => i ≤ j && keyword.isPrefixOf (text.drop j)

/-- `!is_ident_char(text[i])`. -/
def identFree (i : Nat) : Option Bool := text[i]?.map fun c => !isIdentChar c

/-- The loop over the blanks. -/
def blankBody (p : Nat) : Option (Round Nat Nat) :=
  if p < text.length then
    match text[p]? with
    | none => none
    | some c => if isBlank c then some (.again (p + 1)) else some (.done p)
  else some (.done p)

/-- The loop over the group, with the depth. -/
def groupBody (s : Nat × Int) : Option (Round (Nat × Int) (Nat × Int)) :=
  if s.1 < text.length then
    match text[s.1]? with
    | none => none
    | some c =>
      if c = ch '(' then some (.again (s.1 + 1, s.2 + 1))
      else if c = ch ')' then
        if s.2 - 1 = 0 then some (.done (s.1 + 1, 0)) else some (.again (s.1 + 1, s.2 - 1))
      else some (.again (s.1 + 1, s.2))
  else some (.done s)

/-- An occurrence of the word at `at`, with its group from `start` to before `stop`. -/
structure Group where
  pos : Nat
  start : Nat
  stop : Nat
  deriving DecidableEq, Repr

/-- The blanks and the group behind the word at `pos`. -/
def groupBehind (pos : Nat) : Option (Option Group) :=
  match loop (blankBody text) (text.length + 1) (pos + 5) with
  | none => none
  | some p =>
    if p ≥ text.length then some none
    else match text[p]? with
      | none => none
      | some c =>
        if c ≠ ch '(' then some none
        else match loop (groupBody text) (text.length + 1) (p, 0) with
          | none => none
          | some (stop, depth) => if depth ≠ 0 then some none else some (some ⟨pos, p, stop⟩)

/-- What is made of the word at `pos`; `some none` when it is passed over. -/
def groupAt (pos : Nat) : Option (Option Group) :=
  match (if pos = 0 then some true else identFree text (pos - 1)),
      (if pos + 5 ≥ text.length then some true else identFree text (pos + 5)) with
  | some leftOk, some rightOk => if !leftOk || !rightOk then some none else groupBehind text pos
  | _, _ => none

/-- One round of the search. -/
def checkBody (s : Nat × List Group) : Option (Round (Nat × List Group) (List Group)) :=
  match findKeyword text s.1 with
  | none => some (.done s.2)
  | some pos =>
    match groupAt text pos with
    | none => none
    | some none => some (.again (pos + 5, s.2))
    | some (some g) => some (.again (g.stop, s.2 ++ [g]))

/-- The groups that `check_expressions` takes its expressions from. -/
def checkGroups : Option (List Group) := loop (checkBody text) (text.length + 1) (0, [])

/-- The text of a group, without the outer parentheses and without white space. -/
def expression (g : Group) : List UInt8 :=
  collapseSpaces ((text.drop (g.start + 1)).take (g.stop - g.start - 2))

end Search

/-- `check_expressions`. -/
def checkExpressions (ddl : List UInt8) : Option (List (List UInt8)) :=
  (checkGroups (toLowerAscii ddl)).map fun gs => gs.map (expression (toLowerAscii ddl))

/-- The bytes of a text. -/
def bytes (s : String) : List UInt8 := s.toList.map ch

/-- Bytes as they are put into a message. -/
def shown (text : List UInt8) : String := String.ofList (text.map fun c => Char.ofNat c.toNat)

/-- `kStoreSchemaVersion`. -/
def kStoreSchemaVersion : Nat := 3

/-- `seen`: the expressions, with a comma where there is something in front of it. -/
def seenExpressions (checks : List (List UInt8)) : String :=
  checks.foldl (fun seen expr => (if seen = "" then seen else seen ++ ", ") ++ shown expr) ""

/-- The verdict on the expressions. -/
def eventsCheckStatus (checks : List (List UInt8)) : Status :=
  if checks.any fun e => e = bytes "length(event_id)>0" ∨ e = bytes "0<length(event_id)" then {}
  else .storage ("events.event_id is missing the non-empty CHECK constraint " ++
    "required by schema version " ++ toString kStoreSchemaVersion ++ " (found " ++
    (if checks.isEmpty then "no CHECK constraint"
      else "CHECK(" ++ seenExpressions checks ++ ")") ++ ")" ++ "; refusing to open")

/-- `validate_events_check`, on what `sqlite_master` has for the table. -/
def validateEventsCheck : Option (List UInt8) → Option Status
  | none => some (.storage
      "database is missing the events table definition; refusing to open")
  | some sql => ((stripSqlNoise sql).bind checkExpressions).map eventsCheckStatus

/-! ### What is looked for -/

/-- Balanced in round parentheses. -/
abbrev RoundBalanced (s : List UInt8) : Prop := Balanced (ch '(') (ch ')') s

/-- The group of an occurrence of the word that is not the end of a longer one. -/
structure IsGroup (text : List UInt8) (g : Group) : Prop where
  left : g.pos = 0 ∨ ∃ c, text[g.pos - 1]? = some c ∧ isIdentChar c = false
  word : ∃ ws body rest, text.drop g.pos = keyword ++ (ws ++ ch '(' :: (body ++ ch ')' :: rest)) ∧
    (∀ c ∈ ws, isBlank c = true) ∧ RoundBalanced body ∧ g.start = g.pos + 5 + ws.length ∧
    g.stop = g.start + body.length + 2

/-- A group that does not lie inside another one. -/
def Outermost (text : List UInt8) (g : Group) : Prop :=
  IsGroup text g ∧ ∀ g', IsGroup text g' → ¬(g'.pos < g.pos ∧ g.pos < g'.stop)

variable {text ws body rest : List UInt8} {p rounds : Nat} {d : Int}

/-! ### The loops of the search -/

theorem findKeyword_eq_some {i pos : Nat} (h : findKeyword text i = some pos) :
    i ≤ pos ∧ keyword <+: text.drop pos ∧ ∀ j, i ≤ j → keyword <+: text.drop j → pos ≤ j := by
  obtain ⟨hpos, -, hmin⟩ := List.find?_range_eq_some.mp h
  rw [Bool.and_eq_true, decide_eq_true_eq, List.isPrefixOf_iff_prefix] at hpos
  refine ⟨hpos.1, hpos.2, fun j hij hj => ?_⟩
  by_contra hlt
  have hnot := hmin j (by omega)
  rw [Bool.not_eq_true', Bool.and_eq_false_iff, decide_eq_false_iff_not] at hnot
  rcases hnot with hnot | hnot
  · exact hnot hij
  · rw [List.isPrefixOf_iff_prefix.mpr hj] at hnot
    exact absurd hnot (by decide)

theorem findKeyword_eq_none {i : Nat} (h : findKeyword text i = none) (j : Nat) (hj : i ≤ j) :
    ¬keyword <+: text.drop j := by
  intro hpre
  have hlt : j < text.length := by
    have := hpre.length_le
    rw [List.length_drop] at this
    exact Nat.lt_of_sub_pos (Nat.lt_of_lt_of_le (by decide) this)
  have hnot := List.find?_eq_none.mp h j (List.mem_range.mpr hlt)
  exact hnot (by rw [Bool.and_eq_true, decide_eq_true_eq, List.isPrefixOf_iff_prefix]
                 exact ⟨hj, hpre⟩)

theorem blankBody_loop (rounds : Nat) (hws : ∀ c ∈ ws, isBlank c = true)
    (h : text.drop p = ws ++ rest)
    (hrest : ∀ c, rest.head? = some c → isBlank c = false) (hrounds : ws.length < rounds) :
    loop (blankBody text) rounds p = some (p + ws.length) := by
  induction ws generalizing p rounds with
  | nil =>
    obtain ⟨rounds, rfl⟩ := rounds_pos hrounds
    refine loop_done ?_
    unfold blankBody
    cases rest with
    | nil =>
      rw [if_neg (le_of_drop_nil h)]
      rfl
    | cons c rest =>
      have h : text.drop p = c :: rest := h
      rw [if_pos (lt_of_drop h), read_of_drop h]
      simp [hrest c rfl]
  | cons c ws ih =>
    obtain ⟨rounds, rfl⟩ := rounds_pos hrounds
    have hbody : blankBody text p = some (.again (p + 1)) := by
      unfold blankBody
      rw [if_pos (lt_of_drop h), read_of_drop h]
      simp [hws c List.mem_cons_self]
    rw [loop_again hbody, ih rounds (fun d hd => hws d (List.mem_cons_of_mem _ hd)) (drop_succ h)
      (by simpa using hrounds), List.length_cons]
    congr 1
    omega

theorem groupBody_again {c : UInt8} (h : text.drop p = c :: rest)
    (hc : c = ch ')' → d - 1 ≠ 0) :
    groupBody text (p, d) = some (.again (p + 1, d + weight (ch '(') (ch ')') c)) := by
  unfold groupBody
  simp only [if_pos (lt_of_drop h), read_of_drop h]
  by_cases ho : c = ch '('
  · subst ho
    simp
  by_cases hcl : c = ch ')'
  · subst hcl
    rw [weight_close (by decide)]
    simp only [if_neg ho, if_true, if_neg (hc rfl)]
    rfl
  · rw [weight_other ho hcl]
    simp [ho, hcl]

/-- The loop ends at the matching parenthesis, if there is one. -/
theorem groupBody_close (hbody : Closes (ch '(') (ch ')') d body)
    (h : text.drop p = body ++ ch ')' :: rest) (hrounds : body.length < rounds) :
    loop (groupBody text) rounds (p, d) = some (p + body.length + 1, 0) := by
  induction body generalizing p d rounds with
  | nil =>
    obtain ⟨rounds, rfl⟩ := rounds_pos hrounds
    obtain rfl := closes_nil_iff.mp hbody
    have h : text.drop p = ch ')' :: rest := h
    refine loop_done ?_
    unfold groupBody
    simp only [if_pos (lt_of_drop h), read_of_drop h]
    rfl
  | cons c body ih =>
    obtain ⟨rounds, rfl⟩ := rounds_pos hrounds
    obtain ⟨hd, htail⟩ := closes_cons_iff.mp hbody
    have hc : c = ch ')' → d - 1 ≠ 0 := by
      rintro rfl heq
      have := htail.2 [] List.nil_prefix
      rw [weight_close (by decide), height_nil] at this
      omega
    rw [loop_again (groupBody_again h hc), ih htail (drop_succ h) (by simpa using hrounds),
      List.length_cons]
    congr 2
    omega

theorem groupBody_open (rounds : Nat) {s : List UInt8} (h : text.drop p = s)
    (hno : ∀ body rest, s = body ++ ch ')' :: rest → ¬Closes (ch '(') (ch ')') d body)
    (hd : 1 ≤ d) (hrounds : s.length < rounds) :
    ∃ p' depth, loop (groupBody text) rounds (p, d) = some (p', depth) ∧ depth ≠ 0 := by
  induction s generalizing p d rounds with
  | nil =>
    obtain ⟨rounds, rfl⟩ := rounds_pos hrounds
    refine ⟨p, d, loop_done ?_, by omega⟩
    exact if_neg (le_of_drop_nil h)
  | cons c s ih =>
    obtain ⟨rounds, rfl⟩ := rounds_pos hrounds
    have hc : c = ch ')' → d - 1 ≠ 0 := by
      rintro rfl heq
      exact hno [] s rfl (closes_nil_iff.mpr (by omega))
    have hweight : 1 ≤ d + weight (ch '(') (ch ')') c := by
      by_cases ho : c = ch '('
      · subst ho
        rw [weight_open]
        omega
      by_cases hcl : c = ch ')'
      · have := hc hcl
        subst hcl
        rw [weight_close (by decide)]
        omega
      · rw [weight_other ho hcl]
        omega
    rw [loop_again (groupBody_again h hc)]
    refine ih rounds (drop_succ h) (fun body rest heq hcl => ?_) hweight (by simpa using hrounds)
    exact hno (c :: body) rest (by rw [heq]; rfl) (closes_cons_iff.mpr ⟨hd, hcl⟩)

/-! ### One occurrence -/

theorem isBlank_paren : isBlank (ch '(') = false := by decide

theorem drop_keyword {pos : Nat} {tail : List UInt8} (h : text.drop pos = keyword ++ tail) :
    text.drop (pos + 5) = tail :=
  drop_add h

/-- The group behind the word, if blanks and a balanced group follow. -/
theorem groupBehind_of_tail {pos : Nat} (hws : ∀ c ∈ ws, isBlank c = true)
    (hbody : RoundBalanced body)
    (h : text.drop (pos + 5) = ws ++ ch '(' :: (body ++ ch ')' :: rest)) :
    groupBehind text pos =
      some (some ⟨pos, pos + 5 + ws.length, pos + 5 + ws.length + body.length + 2⟩) := by
  have hlen := congrArg List.length h
  simp only [List.length_drop, List.length_append, List.length_cons] at hlen
  have hblank := blankBody_loop (text.length + 1) hws h
    (fun c hc => by rw [← Option.some.inj hc]; exact isBlank_paren) (by omega)
  have hopen : text.drop (pos + 5 + ws.length) = ch '(' :: (body ++ ch ')' :: rest) := drop_add h
  have hgroup : loop (groupBody text) (text.length + 1) (pos + 5 + ws.length, 0) =
      some (pos + 5 + ws.length + body.length + 2, 0) := by
    rw [loop_again (groupBody_again hopen (fun hc => absurd hc (by decide))), weight_open,
      Int.zero_add, groupBody_close (closes_one_iff.mpr hbody) (drop_succ hopen) (by omega)]
    congr 2
    omega
  simp only [groupBehind, hblank, ge_iff_le, Nat.not_le.mpr (lt_of_drop hopen), if_false,
    read_of_drop hopen, ne_eq, not_true_eq_false, hgroup]

/-- Otherwise there is none. -/
theorem groupBehind_cases (text : List UInt8) (pos : Nat) :
    groupBehind text pos = some none ∨ ∃ ws body rest,
      text.drop (pos + 5) = ws ++ ch '(' :: (body ++ ch ')' :: rest) ∧
        (∀ c ∈ ws, isBlank c = true) ∧ RoundBalanced body := by
  obtain ⟨ws, rest, h, hws, hrest⟩ : ∃ ws rest, text.drop (pos + 5) = ws ++ rest ∧
      (∀ c ∈ ws, isBlank c = true) ∧ ∀ c, rest.head? = some c → isBlank c = false := by
    refine ⟨(text.drop (pos + 5)).takeWhile isBlank, (text.drop (pos + 5)).dropWhile isBlank,
      List.takeWhile_append_dropWhile.symm, fun c => List.mem_takeWhile_imp, fun c hc => ?_⟩
    have hnot := List.head?_dropWhile_not isBlank (text.drop (pos + 5))
    rw [hc] at hnot
    simpa using hnot
  have hlen := congrArg List.length h
  rw [List.length_drop, List.length_append] at hlen
  have hblank := blankBody_loop (text.length + 1) hws h hrest (by omega)
  have hnext : text.drop (pos + 5 + ws.length) = rest := drop_add h
  unfold groupBehind
  rw [hblank]
  dsimp only
  cases rest with
  | nil => exact .inl (if_pos (Nat.not_lt.mp (le_of_drop_nil hnext)))
  | cons c rest =>
    rw [if_neg (Nat.not_le.mpr (lt_of_drop hnext)), read_of_drop hnext]
    by_cases hc : c = ch '('
    · subst hc
      by_cases hbody : ∃ body rest', rest = body ++ ch ')' :: rest' ∧ RoundBalanced body
      · obtain ⟨body, rest', rfl, hbal⟩ := hbody
        exact .inr ⟨ws, body, rest', h, hws, hbal⟩
      · left
        have hno : ∀ body rest', rest = body ++ ch ')' :: rest' →
            ¬Closes (ch '(') (ch ')') 1 body := fun body rest' heq hcl =>
          hbody ⟨body, rest', heq, closes_one_iff.mp hcl⟩
        rw [List.length_cons] at hlen
        obtain ⟨p', depth, hloop, hdepth⟩ := groupBody_open text.length
          (drop_succ hnext) hno (Int.le_refl 1) (by omega)
        have hgroup : loop (groupBody text) (text.length + 1) (pos + 5 + ws.length, 0) =
            some (p', depth) := by
          rw [loop_again (groupBody_again hnext (fun hc => absurd hc (by decide))), weight_open,
            Int.zero_add, hloop]
        simp only [ne_eq, not_true_eq_false, if_false, hgroup, hdepth, not_false_eq_true, if_true]
    · exact .inl (if_pos hc)

/-! #### The whole test -/

variable {g g' : Group}

theorem IsGroup.keyword_isPrefix (h : IsGroup text g) : keyword <+: text.drop g.pos := by
  obtain ⟨ws, body, rest, heq, -⟩ := h.word
  exact ⟨_, heq.symm⟩

theorem IsGroup.groupBehind_eq (h : IsGroup text g) : groupBehind text g.pos = some (some g) := by
  obtain ⟨ws, body, rest, heq, hws, hbody, hstart, hstop⟩ := h.word
  rw [groupBehind_of_tail hws hbody (drop_keyword heq)]
  obtain ⟨pos, start, stop⟩ := g
  simp only [Option.some.injEq, Group.mk.injEq, true_and] at hstart hstop ⊢
  exact ⟨hstart.symm, by omega⟩

/-- There is one group at a place. -/
theorem IsGroup.eq_of_pos (h : IsGroup text g) (h' : IsGroup text g') (hpos : g.pos = g'.pos) :
    g = g' := by
  have heq := h.groupBehind_eq
  rw [hpos, h'.groupBehind_eq] at heq
  exact (Option.some.inj (Option.some.inj heq)).symm

theorem identFree_eq {text : List UInt8} {i : Nat} (hi : i < text.length) :
    ∃ c, text[i]? = some c ∧ identFree text i = some !isIdentChar c :=
  ⟨text[i], List.getElem?_eq_getElem hi, by rw [identFree, List.getElem?_eq_getElem hi]; rfl⟩

theorem leftOk_eq {pos : Nat} (hpos : pos < text.length) :
    ∃ l, (if pos = 0 then some true else identFree text (pos - 1)) = some l ∧
      (l = true ↔ pos = 0 ∨ ∃ c, text[pos - 1]? = some c ∧ isIdentChar c = false) := by
  by_cases h : pos = 0
  · exact ⟨true, if_pos h, by simp [h]⟩
  · obtain ⟨c, hc, heq⟩ := identFree_eq (show pos - 1 < text.length by omega)
    refine ⟨!isIdentChar c, by rw [if_neg h, heq], ?_⟩
    simp [h, hc]

/-- A word with a group behind it is not the beginning of a longer one. -/
theorem rightOk_eq (text : List UInt8) (pos : Nat) :
    ∃ r, (if pos + 5 ≥ text.length then some true else identFree text (pos + 5)) = some r ∧
      (r = false → ∀ ws body rest, (∀ c ∈ ws, isBlank c = true) →
        text.drop (pos + 5) ≠ ws ++ ch '(' :: (body ++ ch ')' :: rest)) := by
  by_cases h : pos + 5 ≥ text.length
  · exact ⟨true, if_pos h, nofun⟩
  · obtain ⟨c, hc, heq⟩ := identFree_eq (show pos + 5 < text.length by omega)
    refine ⟨!isIdentChar c, by rw [if_neg h, heq], fun hr ws body rest hws htail => ?_⟩
    cases ws with
    | nil =>
      rw [read_of_drop htail] at hc
      obtain rfl := Option.some.inj hc
      exact absurd hr (by decide)
    | cons w ws =>
      rw [read_of_drop htail] at hc
      obtain rfl := Option.some.inj hc
      have hw := hws w List.mem_cons_self
      simp only [isBlank, Bool.or_eq_true, beq_iff_eq] at hw
      rcases hw with ((rfl | rfl) | rfl) | rfl <;> exact absurd hr (by decide)

/-- **What is made of an occurrence of the word.** -/
theorem groupAt_cases {pos : Nat} (hpre : keyword <+: text.drop pos) :
    (groupAt text pos = some none ∧ ∀ g, IsGroup text g → g.pos ≠ pos) ∨
      ∃ g, groupAt text pos = some (some g) ∧ IsGroup text g ∧ g.pos = pos := by
  obtain ⟨tail, htail⟩ := hpre
  have hpos : pos < text.length := lt_of_drop htail.symm
  obtain ⟨l, hl, hleft⟩ := leftOk_eq hpos
  obtain ⟨r, hr, hright⟩ := rightOk_eq text pos
  simp only [groupAt, hl, hr]
  cases l with
  | false =>
    refine .inl ⟨rfl, ?_⟩
    rintro g hg rfl
    exact absurd (hleft.mpr hg.left) (by decide)
  | true =>
    cases r with
    | false =>
      refine .inl ⟨rfl, ?_⟩
      rintro g hg rfl
      obtain ⟨ws, body, rest, heq, hws, -⟩ := hg.word
      exact hright rfl ws body rest hws (drop_keyword heq)
    | true =>
      simp only [Bool.not_true, Bool.or_self, Bool.false_eq_true, if_false]
      rcases groupBehind_cases text pos with hnone | ⟨ws, body, rest, heq, hws, hbody⟩
      · refine .inl ⟨hnone, ?_⟩
        rintro g hg rfl
        rw [hg.groupBehind_eq] at hnone
        exact absurd (Option.some.inj hnone) (Option.some_ne_none g)
      · refine .inr ⟨_, groupBehind_of_tail hws hbody heq, ⟨hleft.mp rfl, ?_⟩, rfl⟩
        refine ⟨ws, body, rest, ?_, hws, hbody, rfl, rfl⟩
        rw [← heq, drop_keyword htail.symm]
        exact htail.symm

/-! ### Groups inside groups -/

/-- The word does not begin again within itself: only its second `c` could be the first letter,
and then the next one differs. -/
theorem not_keyword_within {k : Nat} {tail : List UInt8} (hk : 0 < k) (hk' : k < 5) :
    ¬keyword <+: (keyword ++ tail).drop k := by
  intro hpre
  obtain rfl | rfl | rfl | rfl : k = 1 ∨ k = 2 ∨ k = 3 ∨ k = 4 := by omega
  all_goals
    simp only [keyword, List.cons_append, List.nil_append, List.drop_succ_cons, List.drop_zero,
      List.cons_prefix_cons] at hpre
    first
      | exact absurd hpre.1 (by decide)
      | exact absurd hpre.2.1 (by decide)

/-- Nor does it within the blanks and the parenthesis behind it. -/
theorem not_keyword_inside {k : Nat} (hws : ∀ c ∈ ws, isBlank c = true) (hk : 0 < k)
    (hk' : k ≤ 5 + ws.length) :
    ¬keyword <+: (keyword ++ (ws ++ ch '(' :: rest)).drop k := by
  rcases Nat.lt_or_ge k 5 with hlt | hge
  · exact not_keyword_within hk hlt
  · intro hpre
    obtain ⟨j, rfl⟩ := Nat.exists_eq_add_of_le hge
    rw [← List.drop_drop,
      show (keyword ++ (ws ++ ch '(' :: rest)).drop 5 = ws ++ ch '(' :: rest from rfl] at hpre
    have hhead : (ws ++ ch '(' :: rest)[j]? = some (ch 'c') := by
      obtain ⟨t, ht⟩ := hpre
      rw [← List.head?_drop, ← ht]
      rfl
    rcases Nat.lt_or_ge j ws.length with hj | hj
    · rw [List.getElem?_append_left hj] at hhead
      exact absurd (hws _ (List.mem_of_getElem? hhead)) (by decide)
    · rw [List.getElem?_append_right hj, show j - ws.length = 0 by omega] at hhead
      exact absurd (Option.some.inj hhead) (by decide)

/-- Up to its end, a group never closes more than was opened since its word. -/
theorem IsGroup.height_nonneg {t : List UInt8} (h : IsGroup text g) (ht : t <+: text.drop g.pos)
    (hlt : t.length < g.stop - g.pos) : 0 ≤ height (ch '(') (ch ')') t := by
  obtain ⟨ws, body, rest, heq, hws, hbody, hstart, hstop⟩ := h.word
  rw [heq, ← List.append_assoc] at ht
  have hfree : ∀ c ∈ keyword ++ ws, c ≠ ch '(' ∧ c ≠ ch ')' := by
    intro c hc
    rcases List.mem_append.mp hc with hc | hc
    · have hletters : ∀ c ∈ keyword, c ≠ ch '(' ∧ c ≠ ch ')' :=
        List.forall_iff_forall_mem.mp (by decide)
      exact hletters c hc
    · have hblank := hws c hc
      refine ⟨?_, ?_⟩ <;> rintro rfl <;> exact absurd hblank (by decide)
  rcases List.prefix_or_prefix_of_prefix ht (List.prefix_append (keyword ++ ws) _) with hpre | hpre
  · rw [height_of_free fun c hc => hfree c (hpre.subset hc)]
  · obtain ⟨t, rfl⟩ := hpre
    have htail : t <+: ch '(' :: (body ++ ch ')' :: rest) := (List.prefix_append_right_inj _).mp ht
    rw [height_append, height_of_free hfree, Int.zero_add]
    rw [List.length_append, List.length_append, show keyword.length = 5 from rfl] at hlt
    rcases eq_or_ne t [] with rfl | hne
    · exact Int.le_refl 0
    · have hpos := hbody.height_pos htail hne (by omega)
      omega

theorem IsGroup.stop_le (h : IsGroup text g) (h' : IsGroup text g') (hlt : g'.pos < g.pos)
    (hin : g.pos < g'.stop) : g.stop ≤ g'.stop := by
  obtain ⟨ws, body, rest, heq, hws, hbody, hstart, hstop⟩ := h'.word
  by_contra hover
  have hinside : g'.start < g.pos := by
    by_contra hle
    have hnone : ¬keyword <+: (text.drop g'.pos).drop (g.pos - g'.pos) := by
      rw [heq]
      exact not_keyword_inside hws (by omega) (by omega)
    rw [List.drop_drop, show g'.pos + (g.pos - g'.pos) = g.pos by omega] at hnone
    exact hnone h.keyword_isPrefix
  -- what lies between the two words is open, and what follows up to the end does not close it
  have hgroup : text.drop g'.start = ch '(' :: (body ++ ch ')' :: rest) := by
    rw [hstart]
    exact drop_add (drop_keyword heq)
  have hwhole : (text.drop g'.start).take (g'.stop - g'.start) = ch '(' :: (body ++ [ch ')']) := by
    have hparts : text.drop g'.start = (ch '(' :: (body ++ [ch ')'])) ++ rest := by
      rw [hgroup]
      simp
    rw [hparts]
    refine List.take_left' ?_
    simp only [List.length_cons, List.length_append, List.length_nil]
    omega
  have hsplit : (text.drop g'.start).take (g'.stop - g'.start) =
      (text.drop g'.start).take (g.pos - g'.start) ++ (text.drop g.pos).take (g'.stop - g.pos) := by
    rw [show g'.stop - g'.start = (g.pos - g'.start) + (g'.stop - g.pos) by omega, List.take_add,
      List.drop_drop, show g'.start + (g.pos - g'.start) = g.pos by omega]
  have hlen := congrArg List.length hgroup
  simp only [List.length_drop, List.length_cons, List.length_append] at hlen
  have hfirst : 1 ≤ height (ch '(') (ch ')') ((text.drop g'.start).take (g.pos - g'.start)) := by
    have hpre :
        (text.drop g'.start).take (g.pos - g'.start) <+: ch '(' :: (body ++ ch ')' :: rest) := by
      rw [← hgroup]
      exact List.take_prefix _ _
    refine hbody.height_pos hpre ?_ ?_
    · refine List.ne_nil_of_length_pos ?_
      rw [List.length_take, List.length_drop]
      omega
    · rw [List.length_take]
      omega
  have hpart : (text.drop g.pos).take (g'.stop - g.pos) <+: text.drop g.pos :=
    List.take_prefix _ _
  have hsecond := h.height_nonneg hpart (by rw [List.length_take]; omega)
  have hzero := hbody.height_group (show ch '(' ≠ ch ')' by decide)
  rw [← hwhole, hsplit, height_append] at hzero
  omega

/-! ### The groups that are found -/

/-- The state of the search at `i`. -/
structure Searched (text : List UInt8) (s : Nat × List Group) : Prop where
  group : ∀ g ∈ s.2, Outermost text g ∧ g.stop ≤ s.1
  seen : ∀ g, IsGroup text g → g.pos < s.1 → g ∈ s.2 ∨ ∃ g' ∈ s.2, g'.pos < g.pos ∧ g.pos < g'.stop
  sorted : s.2.Pairwise fun g g' => g.stop ≤ g'.pos

theorem IsGroup.lt_stop (h : IsGroup text g) : g.pos + 5 < g.stop ∧ g.stop ≤ text.length := by
  obtain ⟨ws, body, rest, heq, -, -, hstart, hstop⟩ := h.word
  have hlen := congrArg List.length heq
  simp only [List.length_drop, List.length_append, List.length_cons,
    show keyword.length = 5 from rfl] at hlen
  omega

/-- Nothing that was not seen covers the next occurrence. -/
theorem Searched.outermost {i : Nat} {found : List Group} (hs : Searched text (i, found))
    (hg : IsGroup text g) (hi : i ≤ g.pos)
    (hmin : ∀ j, i ≤ j → keyword <+: text.drop j → g.pos ≤ j) : Outermost text g := by
  refine ⟨hg, fun g' hg' hcover => ?_⟩
  rcases Nat.lt_or_ge g'.pos i with hlt | hge
  · rcases hs.seen g' hg' hlt with hmem | ⟨g'', hmem, hpos, hin⟩
    · have := (hs.group g' hmem).2
      dsimp only at this
      omega
    · have := (hs.group g'' hmem).2
      have := hg'.stop_le (hs.group g'' hmem).1.1 hpos hin
      dsimp only at *
      omega
  · have := hmin g'.pos hge hg'.keyword_isPrefix
    omega

theorem IsGroup.pos_eq_of_lt {pos : Nat} (hg : IsGroup text g) (hpre : keyword <+: text.drop pos)
    (hle : pos ≤ g.pos) (hlt : g.pos < pos + 5) : g.pos = pos := by
  by_contra hne
  obtain ⟨tail, htail⟩ := hpre
  have hnone : ¬keyword <+: (keyword ++ tail).drop (g.pos - pos) :=
    not_keyword_within (by omega) (by omega)
  rw [htail, List.drop_drop, show pos + (g.pos - pos) = g.pos by omega] at hnone
  exact hnone hg.keyword_isPrefix

/-- **One round of the search.** -/
theorem checkBody_step {s : Nat × List Group} (hs : Searched text s) (hi : s.1 ≤ text.length) :
    (∃ gs, checkBody text s = some (.done gs) ∧ (∀ g, g ∈ gs ↔ Outermost text g) ∧
        gs.Pairwise fun g g' => g.stop ≤ g'.pos) ∨
      ∃ s', checkBody text s = some (.again s') ∧ (Searched text s' ∧ s'.1 ≤ text.length) ∧
        text.length - s'.1 < text.length - s.1 := by
  obtain ⟨i, found⟩ := s
  unfold checkBody
  dsimp only at hi ⊢
  rcases hfind : findKeyword text i with _ | pos
  · refine .inl ⟨found, rfl, fun g => ⟨fun hg => (hs.group g hg).1, fun hg => ?_⟩, hs.sorted⟩
    have hlt : g.pos < i := by
      by_contra hge
      exact findKeyword_eq_none hfind g.pos (by omega) hg.1.keyword_isPrefix
    rcases hs.seen g hg.1 hlt with hmem | ⟨g', hmem, hpos, hin⟩
    · exact hmem
    · exact absurd ⟨hpos, hin⟩ (hg.2 g' (hs.group g' hmem).1.1)
  · right
    obtain ⟨hle, hpre, hmin⟩ := findKeyword_eq_some hfind
    have hlen := hpre.length_le
    rw [List.length_drop, show keyword.length = 5 from rfl] at hlen
    rcases groupAt_cases hpre with ⟨heq, hno⟩ | ⟨g, heq, hg, rfl⟩ <;> simp only [heq]
    · refine ⟨_, rfl,
        ⟨⟨fun g hmem => ⟨(hs.group g hmem).1, ?_⟩, fun g hg hlt => ?_, hs.sorted⟩, ?_⟩, ?_⟩
      · have := (hs.group g hmem).2
        dsimp only at this ⊢
        omega
      · rcases Nat.lt_or_ge g.pos i with hold | hnew
        · exact hs.seen g hg hold
        · have hge := hmin g.pos hnew hg.keyword_isPrefix
          exact absurd (hg.pos_eq_of_lt hpre hge hlt) (hno g hg)
      · dsimp only
        omega
      · dsimp only
        omega
    · have hstop := hg.lt_stop
      have hout := hs.outermost hg hle hmin
      refine ⟨_, rfl, ⟨⟨fun g' hmem => ?_, fun g' hg' hlt => ?_, ?_⟩, hstop.2⟩, ?_⟩
      · rcases List.mem_append.mp hmem with hmem | hmem
        · have := (hs.group g' hmem).2
          refine ⟨(hs.group g' hmem).1, ?_⟩
          dsimp only at this ⊢
          omega
        · rw [List.mem_singleton.mp hmem]
          exact ⟨hout, Nat.le_refl _⟩
      · rcases Nat.lt_or_ge g'.pos i with hold | hnew
        · rcases hs.seen g' hg' hold with hmem | ⟨g'', hmem, hcover⟩
          · exact .inl (List.mem_append_left _ hmem)
          · exact .inr ⟨g'', List.mem_append_left _ hmem, hcover⟩
        · have hge := hmin g'.pos hnew hg'.keyword_isPrefix
          rcases Nat.eq_or_lt_of_le hge with hpos | hpos
          · rw [hg'.eq_of_pos hg hpos.symm]
            exact .inl (List.mem_append_right _ (List.mem_singleton_self g))
          · exact .inr ⟨g, List.mem_append_right _ (List.mem_singleton_self g), hpos, hlt⟩
      · refine List.pairwise_append.mpr ⟨hs.sorted, List.pairwise_singleton _ _, ?_⟩
        intro g' hmem g'' hmem'
        have := (hs.group g' hmem).2
        rw [List.mem_singleton.mp hmem']
        dsimp only at this
        omega
      · dsimp only
        omega

/-- **The groups that are found** are those that lie in no other one, in the order in which
they stand. -/
theorem checkGroups_spec (text : List UInt8) :
    ∃ gs, checkGroups text = some gs ∧ (∀ g, g ∈ gs ↔ Outermost text g) ∧
      gs.Pairwise fun g g' => g.stop ≤ g'.pos :=
  loop_rule (I := fun s => Searched text s ∧ s.1 ≤ text.length) (m := fun s => text.length - s.1)
    (fun _ hs => checkBody_step hs.1 hs.2) _ _
    ⟨⟨by simp, fun _ _ hlt => absurd hlt (Nat.not_lt_zero _), .nil⟩, Nat.zero_le _⟩ (by simp)

end PlayerTrace
