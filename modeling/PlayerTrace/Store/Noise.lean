import PlayerTrace.Lib.Loop
import PlayerTrace.Lib.SqlText

/-!
# `strip_sql_noise`

The scanner of `src/sqlite_store.cpp` that puts a blank for every comment and every quoted
text of a DDL. It reads by index, with a loop of its own for each kind of region. On the
pieces of a text (`SqlText.Lexed`) one round of the main loop takes one piece
(`PlayerTrace.stripBody_piece`), so that what comes out is known
(`PlayerTrace.stripSqlNoise_eq`).
-/

namespace PlayerTrace

open Loop SqlText

/-! ### The scanner -/

section Scanner

variable (sql : List UInt8)

/-- `i + 1 < n && sql[i + 1] == c`. -/
def nextIs (i : Nat) (c : UInt8) : Bool := i + 1 < sql.length && sql[i + 1]? == some c

/-- The loop over a line comment. -/
def lineBody (i : Nat) : Option (Round Nat Nat) :=
  if i < sql.length then
    match sql[i]? with
    | none => none
    | some c => if c ≠ lineFeed then some (.again (i + 1)) else some (.done i)
  else some (.done i)

/-- The loop over a block comment, with the step over its end mark. -/
def blockBody (i : Nat) : Option (Round Nat Nat) :=
  if i + 1 < sql.length then
    match sql[i]? with
    | none => none
    | some c =>
      if ¬(c = ch '*' ∧ nextIs sql i (ch '/')) then some (.again (i + 1)) else some (.done (i + 2))
  else some (.done sql.length)

/-- The loop over a quoted region. -/
def quotedBody (close : UInt8) (doubling : Bool) (i : Nat) : Option (Round Nat Nat) :=
  if i < sql.length then
    match sql[i]? with
    | none => none
    | some c =>
      if c = close then
        -- a doubled terminator is an escape
        if doubling ∧ nextIs sql i close then some (.again (i + 2)) else some (.done (i + 1))
      else some (.again (i + 1))
  else some (.done i)

/-- A character that opens a quoted region. -/
def isQuote (c : UInt8) : Bool := c = 39 || c = 34 || c = 96 || c = ch '['

/-- Where the region ends that `c`, at `i`, opens; `some none` when it opens none. -/
def regionEnd (c : UInt8) (i : Nat) : Option (Option Nat) :=
  if c = ch '-' ∧ nextIs sql i (ch '-') then (loop (lineBody sql) (sql.length + 1) i).map some
  else if c = ch '/' ∧ nextIs sql i (ch '*') then
    (loop (blockBody sql) (sql.length + 1) (i + 2)).map some
  else if isQuote c then
    (loop (quotedBody sql (if c = ch '[' then ch ']' else c) (c ≠ ch '[')) (sql.length + 1)
      (i + 1)).map some
  else some none

/-- One round of the main loop, over the index and the output. -/
def stripBody (s : Nat × List UInt8) : Option (Round (Nat × List UInt8) (List UInt8)) :=
  if s.1 < sql.length then
    match sql[s.1]? with
    | none => none
    | some c =>
      match regionEnd sql c s.1 with
      | none => none
      | some (some i) => some (.again (i, s.2 ++ [ch ' ']))
      | some none => some (.again (s.1 + 1, s.2 ++ [c]))
  else some (.done s.2)

/-- `strip_sql_noise`. -/
def stripSqlNoise : Option (List UInt8) := loop (stripBody sql) (sql.length + 1) (0, [])

end Scanner

variable {sql contents rest : List UInt8} {i rounds : Nat}

/-! ### The loops over the regions -/

theorem nextIs_iff {c d : UInt8} (h : sql.drop i = d :: rest) :
    nextIs sql i c = true ↔ rest.head? = some c := by
  have hread : sql[i + 1]? = rest.head? := by
    rw [read_drop h, List.head?_eq_getElem?]
    rfl
  simp only [nextIs, hread, Bool.and_eq_true, decide_eq_true_eq, beq_iff_eq, and_iff_right_iff_imp]
  intro hc
  obtain ⟨t, rfl⟩ := List.head?_eq_some_iff.mp hc
  exact lt_of_drop (drop_succ h)

theorem le_of_drop_nil (h : sql.drop i = []) : ¬i < sql.length := by
  simpa using h

theorem rounds_pos (h : contents.length < rounds) : ∃ k, rounds = k + 1 :=
  Nat.exists_eq_add_one_of_ne_zero (by omega)

theorem lineBody_loop {closed : Bool} (hin : Kind.line.Inside contents)
    (hrest : if closed then Kind.line.Closed rest else rest = [])
    (h : sql.drop i = contents ++ rest) (hrounds : contents.length < rounds) :
    loop (lineBody sql) rounds i = some (i + contents.length) := by
  induction contents generalizing i rounds with
  | nil =>
    obtain ⟨rounds, rfl⟩ := rounds_pos hrounds
    refine loop_done ?_
    unfold lineBody
    cases closed with
    | false =>
      obtain rfl : rest = [] := hrest
      rw [if_neg (le_of_drop_nil h)]
      rfl
    | true =>
      obtain ⟨t, rfl⟩ := List.head?_eq_some_iff.mp (show rest.head? = some lineFeed from hrest)
      rw [if_pos (lt_of_drop h), read_of_drop h]
      simp
  | cons c contents ih =>
    obtain ⟨rounds, rfl⟩ := rounds_pos hrounds
    have hc : c ≠ lineFeed := fun heq => hin (heq ▸ List.mem_cons_self)
    have hbody : lineBody sql i = some (.again (i + 1)) := by
      unfold lineBody
      rw [if_pos (lt_of_drop h), read_of_drop h]
      simp [hc]
    rw [loop_again hbody, ih (fun hmem => hin (List.mem_cons_of_mem _ hmem)) (drop_succ h)
      (by simpa using hrounds), List.length_cons]
    congr 1
    omega

/-- The end mark does not begin inside the contents, not even at their last byte. -/
theorem not_endMark {c : UInt8} {closed : Bool} (hin : Kind.block.Inside (c :: contents))
    (hrest : if closed then Kind.block.Closed rest else rest = []) :
    ¬(c = ch '*' ∧ (contents ++ (if closed then Kind.block.closing else []) ++ rest).head? =
      some (ch '/')) := by
  rintro ⟨rfl, hhead⟩
  cases contents with
  | nil =>
    cases closed with
    | false =>
      obtain rfl : rest = [] := hrest
      exact absurd hhead (Option.some_ne_none _).symm
    | true => exact absurd (Option.some.inj hhead) (by decide)
  | cons d contents =>
    obtain rfl : d = ch '/' := Option.some.inj hhead
    exact hin ⟨[], contents, rfl⟩

theorem blockBody_loop {closed : Bool} (hin : Kind.block.Inside contents) (hi : i ≤ sql.length)
    (h : sql.drop i = contents ++ (if closed then Kind.block.closing else []) ++ rest)
    (hrest : if closed then Kind.block.Closed rest else rest = [])
    (hrounds : contents.length < rounds) :
    loop (blockBody sql) rounds i =
      some (i + contents.length + if closed then Kind.block.closing.length else 0) := by
  have hlen := congrArg List.length h
  rw [List.length_drop] at hlen
  induction contents generalizing i rounds with
  | nil =>
    obtain ⟨rounds, rfl⟩ := rounds_pos hrounds
    refine loop_done ?_
    unfold blockBody
    cases closed with
    | false =>
      obtain rfl : rest = [] := hrest
      have hlen : sql.length - i = 0 := hlen
      rw [if_neg (by omega)]
      exact congrArg (some ∘ Round.done) (by simp; omega)
    | true =>
      have h : sql.drop i = ch '*' :: ch '/' :: rest := h
      rw [if_pos (lt_of_drop (drop_succ h)), read_of_drop h]
      simp only [(nextIs_iff h).mpr rfl, and_self, not_true_eq_false, if_false]
      rfl
  | cons c contents ih =>
    obtain ⟨rounds, rfl⟩ := rounds_pos hrounds
    have hlt : i < sql.length := lt_of_drop h
    have hno : ¬(c = ch '*' ∧ nextIs sql i (ch '/') = true) := fun hmark =>
      not_endMark hin hrest ⟨hmark.1, (nextIs_iff h).mp hmark.2⟩
    have hin' : Kind.block.Inside contents := fun hmark =>
      hin (hmark.trans (List.suffix_cons _ _).isInfix)
    have htail : sql.drop (i + 1) =
        contents ++ (if closed then Kind.block.closing else []) ++ rest := drop_succ h
    by_cases hend : i + 1 < sql.length
    · have hbody : blockBody sql i = some (.again (i + 1)) := by
        unfold blockBody
        rw [if_pos hend, read_of_drop h]
        simp only [if_pos hno]
      rw [loop_again hbody, ih hin' (by omega) htail (by simpa using hrounds) ?_,
        List.length_cons]
      · congr 1
        omega
      · rw [← htail, List.length_drop]
    · -- nothing is behind `c`
      have hnil : contents ++ (if closed then Kind.block.closing else []) ++ rest = [] := by
        rw [← htail]
        exact List.drop_eq_nil_of_le (by omega)
      have hbody : blockBody sql i = some (.done sql.length) := if_neg hend
      rw [loop_done hbody]
      simp only [List.append_eq_nil_iff] at hnil
      obtain ⟨⟨rfl, hclosing⟩, -⟩ := hnil
      cases closed with
      | false => exact congrArg some (by simp; omega)
      | true => exact absurd hclosing (by decide)

theorem quotedBody_loop {q : Quote} {closed : Bool} (hin : Quoted q contents)
    (h : sql.drop i = contents ++ (if closed then [q.closing] else []) ++ rest)
    (hrest : if closed then (Kind.quote q).Closed rest else rest = [])
    (hrounds : contents.length < rounds) :
    loop (quotedBody sql q.closing q.doubling) rounds i =
      some (i + contents.length + if closed then 1 else 0) := by
  induction hin generalizing i rounds with
  | nil =>
    obtain ⟨rounds, rfl⟩ := rounds_pos hrounds
    refine loop_done ?_
    unfold quotedBody
    cases closed with
    | false =>
      obtain rfl : rest = [] := hrest
      rw [if_neg (le_of_drop_nil h)]
      rfl
    | true =>
      have h : sql.drop i = q.closing :: rest := h
      have hnext : ¬(q.doubling = true ∧ nextIs sql i q.closing = true) := fun hd =>
        hrest hd.1 ((nextIs_iff h).mp hd.2)
      rw [if_pos (lt_of_drop h), read_of_drop h]
      simp only [if_pos, if_neg hnext]
      rfl
  | @other c contents hc hs ih =>
    obtain ⟨rounds, rfl⟩ := rounds_pos hrounds
    have hbody : quotedBody sql q.closing q.doubling i = some (.again (i + 1)) := by
      unfold quotedBody
      rw [if_pos (lt_of_drop h), read_of_drop h]
      simp only [if_neg hc]
    rw [loop_again hbody, ih (drop_succ h) (by simpa using hrounds), List.length_cons]
    congr 1
    omega
  | @pair contents hq hs ih =>
    obtain ⟨rounds, rfl⟩ := rounds_pos hrounds
    have hbody : quotedBody sql q.closing q.doubling i = some (.again (i + 2)) := by
      unfold quotedBody
      rw [if_pos (lt_of_drop h), read_of_drop h]
      simp only [if_pos]
      rw [if_pos ⟨hq, (nextIs_iff h).mpr rfl⟩]
    rw [List.length_cons, List.length_cons] at hrounds
    rw [loop_again hbody, ih (drop_succ (drop_succ h)) (by omega), List.length_cons,
      List.length_cons]
    congr 1
    omega

/-! ### The main loop -/

theorem isQuote_iff {c : UInt8} : isQuote c = true ↔ ∃ q : Quote, c = q.opening := by
  simp only [isQuote, Bool.or_eq_true, decide_eq_true_eq]
  constructor
  · rintro (((rfl | rfl) | rfl) | rfl)
    · exact ⟨.single, rfl⟩
    · exact ⟨.double, rfl⟩
    · exact ⟨.grave, rfl⟩
    · exact ⟨.bracket, rfl⟩
  · rintro ⟨q, rfl⟩
    cases q <;> simp [Quote.opening]

theorem regionEnd_plain {c : UInt8} (hplain : Piece.Plain c rest) (h : sql.drop i = c :: rest) :
    regionEnd sql c i = some none := by
  obtain ⟨hline, hblock, hquote⟩ := hplain
  unfold regionEnd
  rw [if_neg fun hc => hline hc.1 ((nextIs_iff h).mp hc.2),
    if_neg fun hc => hblock hc.1 ((nextIs_iff h).mp hc.2),
    if_neg fun hc => (isQuote_iff.mp hc).elim hquote]

theorem regionEnd_line {closed : Bool} (hfits : (Piece.region .line contents closed).Fits rest)
    (h : sql.drop i = (Piece.region .line contents closed).text ++ rest) :
    regionEnd sql (ch '-') i =
      some (some (i + (Piece.region .line contents closed).text.length)) := by
  have htext : (Piece.region .line contents closed).text = ch '-' :: ch '-' :: contents := by
    cases closed <;> simp [Piece.text, Kind.opening, Kind.closing]
  have hin : Kind.line.Inside (ch '-' :: ch '-' :: contents) := by
    simp only [Kind.Inside, List.mem_cons, not_or]
    exact ⟨by decide, by decide, hfits.1⟩
  have hlen := congrArg List.length h
  rw [htext] at h hlen ⊢
  rw [List.length_drop, List.length_append] at hlen
  unfold regionEnd
  rw [if_pos ⟨rfl, (nextIs_iff h).mpr rfl⟩, lineBody_loop hin hfits.2 h (by omega)]
  rfl

theorem regionEnd_block {closed : Bool} (hfits : (Piece.region .block contents closed).Fits rest)
    (h : sql.drop i = (Piece.region .block contents closed).text ++ rest) :
    regionEnd sql (ch '/') i =
      some (some (i + (Piece.region .block contents closed).text.length)) := by
  have hlen := congrArg List.length h
  rw [List.length_drop, List.length_append] at hlen
  have hfirst : sql.drop i = ch '/' :: ch '*' :: (contents ++
      (if closed then Kind.block.closing else []) ++ rest) := h
  have hsize : (Piece.region .block contents closed).text.length =
      2 + contents.length + if closed then Kind.block.closing.length else 0 := by
    cases closed <;> simp [Piece.text, Kind.opening, Kind.closing] <;> omega
  unfold regionEnd
  rw [if_neg fun hc => absurd hc.1 (by decide), if_pos ⟨rfl, (nextIs_iff hfirst).mpr rfl⟩,
    blockBody_loop hfits.1 (lt_of_drop (drop_succ hfirst)) (drop_succ (drop_succ hfirst)) hfits.2
      (by omega), hsize]
  simp only [Option.map_some, Option.some.injEq]
  omega

theorem regionEnd_quote {q : Quote} {closed : Bool}
    (hfits : (Piece.region (.quote q) contents closed).Fits rest)
    (h : sql.drop i = (Piece.region (.quote q) contents closed).text ++ rest) :
    regionEnd sql q.opening i =
      some (some (i + (Piece.region (.quote q) contents closed).text.length)) := by
  have hlen := congrArg List.length h
  rw [List.length_drop, List.length_append] at hlen
  have hfirst : sql.drop i = q.opening :: (contents ++ (if closed then [q.closing] else []) ++
      rest) := h
  have hsize : (Piece.region (.quote q) contents closed).text.length =
      1 + contents.length + if closed then 1 else 0 := by
    cases closed <;> simp [Piece.text, Kind.opening, Kind.closing] <;> omega
  have hclose : (if q.opening = ch '[' then ch ']' else q.opening) = q.closing := by
    cases q <;> rfl
  have hdoubling : decide (q.opening ≠ ch '[') = q.doubling := by cases q <;> rfl
  unfold regionEnd
  rw [if_neg fun hc => absurd hc.1 (by cases q <;> decide),
    if_neg fun hc => absurd hc.1 (by cases q <;> decide), if_pos (isQuote_iff.mpr ⟨q, rfl⟩),
    hclose, hdoubling, quotedBody_loop hfits.1 (drop_succ hfirst) hfits.2 (by omega), hsize]
  simp only [Option.map_some, Option.some.injEq]
  omega

/-- **One round of the main loop takes one piece.** -/
theorem stripBody_piece {p : Piece} {out : List UInt8} (hfits : p.Fits rest)
    (h : sql.drop i = p.text ++ rest) :
    stripBody sql (i, out) = some (.again (i + p.text.length, out ++ [p.blank])) := by
  cases p with
  | plain c =>
    have h : sql.drop i = c :: rest := h
    simp only [stripBody, if_pos (lt_of_drop h), read_of_drop h, regionEnd_plain hfits h]
    rfl
  | region k contents closed =>
    -- the bytes that open a region are different for the three kinds
    have key : ∀ {c : UInt8} {t : List UInt8}, sql.drop i = c :: t →
        regionEnd sql c i = some (some (i + (Piece.region k contents closed).text.length)) →
        stripBody sql (i, out) = some (.again (i + (Piece.region k contents closed).text.length,
          out ++ [ch ' '])) := by
      intro c t hc hend
      simp only [stripBody, if_pos (lt_of_drop hc), read_of_drop hc, hend]
    cases k with
    | line => exact key h (regionEnd_line hfits h)
    | block => exact key h (regionEnd_block hfits h)
    | quote q => exact key h (regionEnd_quote hfits h)

theorem stripBody_loop {ps : List Piece} {out : List UInt8} (hps : Lexed ps)
    (h : sql.drop i = text ps) (hrounds : (text ps).length < rounds) :
    loop (stripBody sql) rounds (i, out) = some (out ++ blanked ps) := by
  induction ps generalizing i rounds out with
  | nil =>
    obtain ⟨rounds, rfl⟩ := rounds_pos hrounds
    refine loop_done ?_
    unfold stripBody
    rw [if_neg (le_of_drop_nil h), blanked, List.map_nil, List.append_nil]
  | cons p ps ih =>
    obtain ⟨rounds, rfl⟩ := rounds_pos hrounds
    have hpos := length_text_pos p
    rw [text_cons, List.length_append] at hrounds
    rw [loop_again (stripBody_piece hps.1 h), ih hps.2 (drop_add h) (by omega)]
    simp [blanked]

/-- **What is left of a text**: every piece of it, with a blank for each region. -/
theorem stripSqlNoise_eq {ps : List Piece} (hps : Lexed ps) :
    stripSqlNoise (text ps) = some (blanked ps) :=
  stripBody_loop hps rfl (Nat.lt_succ_self _)

end PlayerTrace
