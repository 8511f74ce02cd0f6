import PlayerTrace.Lib.Calendar
import PlayerTrace.Lib.Decimal

/-!
# `JsonSerializer::iso8601_utc`

The timestamp of `src/json_serializer.cpp`. A computed integer goes through the range of its
type, `PlayerTrace.int32` or `PlayerTrace.int64`, and has no value outside it, so that an
overflow would leave the call without a value. `gmtime` is the proleptic Gregorian calendar of
`Calendar` without leap seconds; it fails when the year does not fit into its field.

What the texts stand for is said apart from the code: a `PlayerTrace.Stamp` is a date and a
time of day that exist, in a year of four digits, `render` writes it and `parse` reads it.
The text of an instant in these years is the rendering of its own stamp, and otherwise a fixed
text that is a rendering too.
-/

namespace PlayerTrace

open Calendar Decimal

/-! ### The function -/

/-- A value of `int`. -/
def int32 (x : Int) : Option Int := if -2 ^ 31 ≤ x ∧ x < 2 ^ 31 then some x else none

/-- A value of `std::int64_t`. -/
def int64 (x : Int) : Option Int := if -2 ^ 63 ≤ x ∧ x < 2 ^ 63 then some x else none

/-- `struct tm`. -/
structure Tm where
  sec : Int
  min : Int
  hour : Int
  mday : Int
  mon : Int
  year : Int

/-- The days from the year 0 to the epoch. -/
def epochDay : Int := 719528

/-- `gmtime_r`. -/
def gmtime (secs : Int) : Option Tm :=
  let date := Date.ofDays (secs / 86400 + epochDay)
  let time := secs % 86400
  if (int32 (date.year - 1900)).isSome then
    some { sec := time % 60, min := time / 60 % 60, hour := time / 3600, mday := date.day,
           mon := date.month - 1, year := date.year - 1900 }
  else none

/-- The text for what cannot be represented. -/
def placeholder : List Char :=
  ['1', '9', '7', '0', '-', '0', '1', '-', '0', '1', 'T', '0', '0', ':', '0', '0', ':', '0', '0',
    '.', '0', '0', '0', 'Z']

/-- A conversion `%0wd`. -/
def formatPadded (w : Nat) (n : Int) : List Char :=
  if n < 0 then '-' :: padded (w - 1) n.natAbs else padded w n.toNat

/-- `"%04d-%02d-%02dT%02d:%02d:%02d.%03dZ"`. -/
def formatStamp (year month day hour minute second millis : Int) : List Char :=
  formatPadded 4 year ++ '-' :: (formatPadded 2 month ++ '-' :: (formatPadded 2 day ++ 'T' ::
    (formatPadded 2 hour ++ ':' :: (formatPadded 2 minute ++ ':' :: (formatPadded 2 second ++ '.' ::
      (formatPadded 3 millis ++ ['Z']))))))

/-- The size of the buffer that is printed into. -/
def bufSize : Nat := 40

/-- The part after the calendar conversion. -/
def formatTm (tm : Tm) (millis : Int) : Option (List Char) := do
  let year ← int32 (tm.year + 1900)
  let month ← int32 (tm.mon + 1)
  if year < 0 ∨ year > 9999 ∨ month < 1 ∨ month > 12 ∨ tm.mday < 1 ∨ tm.mday > 31 ∨
      tm.hour < 0 ∨ tm.hour > 23 ∨ tm.min < 0 ∨ tm.min > 59 ∨ tm.sec < 0 ∨ tm.sec > 60 ∨
      millis < 0 ∨ millis > 999 then
    pure placeholder
  else
    let written := formatStamp year month tm.mday tm.hour tm.min tm.sec millis
    if written.length ≥ bufSize then pure placeholder else pure written

/-- The division rounded down, by way of the one that truncates. -/
def floorParts (epochMs : Int) : Option (Int × Int) := do
  let secs64 ← int64 (epochMs.tdiv 1000)
  let millis ← int32 (epochMs.tmod 1000)
  if millis < 0 then
    let millis ← int32 (millis + 1000)
    let secs64 ← int64 (secs64 - 1)
    pure (secs64, millis)
  else pure (secs64, millis)

/-- `JsonSerializer::iso8601_utc`. -/
def iso8601Utc (epochMs : Int64) : Option (List Char) := do
  let (secs, millis) ← floorParts epochMs.toInt
  match gmtime secs with
  | none => pure placeholder
  | some tm => formatTm tm millis

/-! ### Stamps -/

/-- A date and a time of day, in a year of four digits. -/
structure Stamp where
  date : Date
  hour : Nat
  minute : Nat
  second : Nat
  millis : Nat
  year_nonneg : 0 ≤ date.year
  year_le : date.year ≤ 9999
  hour_lt : hour < 24
  minute_lt : minute < 60
  second_lt : second < 60
  millis_lt : millis < 1000

namespace Stamp

/-- The milliseconds since the epoch. -/
def epochMs (t : Stamp) : Int :=
  (((t.date.days - epochDay) * 86400 + (t.hour * 3600 + t.minute * 60 + t.second : Nat)) * 1000) +
    t.millis

/-- The fields, from the year down. -/
def fields (t : Stamp) : List Nat :=
  [t.date.year.toNat, t.date.month, t.date.day, t.hour, t.minute, t.second, t.millis]

/-- `YYYY-MM-DDThh:mm:ss.mmmZ`. -/
def form : List (Nat × Char) :=
  [(4, '-'), (2, '-'), (2, 'T'), (2, ':'), (2, ':'), (2, '.'), (3, 'Z')]

def render (t : Stamp) : List Char := layout form t.fields

/-- The milliseconds that a text in this form stands for. -/
def parse (cs : List Char) : Option Int :=
  match readLayout form cs with
  | some [year, month, day, hour, minute, second, millis] =>
    if h : (1 ≤ month ∧ month ≤ 12 ∧ 1 ≤ day ∧ day ≤ monthLength year month) ∧
        ((year : Int) ≤ 9999 ∧ hour < 24 ∧ minute < 60 ∧ second < 60 ∧ millis < 1000) then
      some (epochMs ⟨⟨year, month, day, h.1.1, h.1.2.1, h.1.2.2.1, h.1.2.2.2⟩, hour, minute, second,
        millis, Int.natCast_nonneg _, h.2.1, h.2.2.1, h.2.2.2.1, h.2.2.2.2.1, h.2.2.2.2.2⟩)
    else none
  | _ => none

theorem monthLength_le (y : Int) (m : Nat) : monthLength y m ≤ 31 := by
  unfold monthLength
  rcases hm : (monthLengths y)[m - 1]? with _ | l
  · exact Nat.zero_le _
  · have hmem := List.mem_of_getElem? hm
    simp only [monthLengths, List.mem_cons, List.not_mem_nil, or_false] at hmem
    split at hmem <;> simp <;> omega

variable (t : Stamp) {t' : Stamp}

theorem toNat_year : (t.date.year.toNat : Int) = t.date.year := Int.toNat_of_nonneg t.year_nonneg

theorem fits : Fits form t.fields := by
  have := t.year_le
  have := t.date.month_le
  have := t.date.day_le.trans (monthLength_le _ _)
  have := t.hour_lt
  have := t.minute_lt
  have := t.second_lt
  have := t.millis_lt
  simp only [Fits, form, fields, List.forall₂_cons, List.forall₂_nil_right_iff, and_true]
  omega

theorem length_render : t.render.length = 24 := length_layout t.fits

theorem parse_render : parse t.render = some t.epochMs := by
  rw [parse, render, readLayout_layout t.fits]
  simp only [fields]
  rw [dif_pos ⟨⟨t.date.one_le_month, t.date.month_le, t.date.one_le_day,
      t.toNat_year ▸ t.date.day_le⟩, t.toNat_year ▸ t.year_le, t.hour_lt, t.minute_lt,
      t.second_lt, t.millis_lt⟩]
  simp only [epochMs, Date.days, Date.dayOfYear, t.toNat_year]

variable {t}

/-- What comes first by its fields is the earlier instant. -/
theorem epochMs_lt_of_fields_lt (h : t.fields < t'.fields) : t.epochMs < t'.epochMs := by
  have := t.toNat_year
  have := t'.toNat_year
  have := t.hour_lt
  have := t.minute_lt
  have := t.second_lt
  have := t.millis_lt
  simp only [fields, List.cons_lt_cons_iff, List.lt_irrefl, and_false, or_false] at h
  by_cases hdate : t.date.Before t'.date
  · have := hdate.days_lt
    unfold epochMs
    omega
  · unfold Date.Before at hdate
    have hday : t.date.days = t'.date.days := by
      unfold Date.days Date.dayOfYear
      rw [show t.date.year = t'.date.year by omega, show t.date.month = t'.date.month by omega,
        show t.date.day = t'.date.day by omega]
    unfold epochMs
    rw [hday]
    omega

theorem epochMs_eq_of_fields_eq (h : t.fields = t'.fields) : t.epochMs = t'.epochMs := by
  have hyear := t.toNat_year
  simp only [fields, List.cons.injEq, and_true] at h
  obtain ⟨hy, hm, hd, hh, hmin, hs, hms⟩ := h
  rw [hy, t'.toNat_year] at hyear
  simp only [epochMs, Date.days, Date.dayOfYear, hyear, hm, hd, hh, hmin, hs, hms]

/-- The order of the texts is the order of the instants. -/
theorem render_lt_iff : t.render < t'.render ↔ t.epochMs < t'.epochMs := by
  rcases lt_trichotomy t.fields t'.fields with h | h | h
  · exact iff_of_true (layout_lt_layout t.fits t'.fits h) (epochMs_lt_of_fields_lt h)
  · refine iff_of_false ?_ ?_
    · rw [render, render, h]
      exact List.lt_irrefl _
    · rw [epochMs_eq_of_fields_eq h]
      exact Int.lt_irrefl _
  · have hlt : t'.epochMs < t.epochMs := epochMs_lt_of_fields_lt h
    exact iff_of_false (List.lt_asymm (layout_lt_layout t'.fits t.fits h)) (by omega)

end Stamp

/-! ### The text of an instant -/

theorem int32_eq {x : Int} (hlo : -2 ^ 31 ≤ x) (hhi : x < 2 ^ 31) : int32 x = some x :=
  if_pos ⟨hlo, hhi⟩

theorem int64_eq {x : Int} (hlo : -2 ^ 63 ≤ x) (hhi : x < 2 ^ 63) : int64 x = some x :=
  if_pos ⟨hlo, hhi⟩

/-- Truncating division, corrected when the remainder is negative, rounds down. -/
theorem floorParts_eq {e : Int} (hlo : -2 ^ 63 ≤ e) (hhi : e < 2 ^ 63) :
    floorParts e = some (e / 1000, e % 1000) := by
  have htrunc : (0 ≤ e ∧ e.tdiv 1000 = e / 1000 ∧ e.tmod 1000 = e % 1000) ∨
      (e < 0 ∧ e.tdiv 1000 = -(-e / 1000) ∧ e.tmod 1000 = -(-e % 1000)) := by
    rcases Int.lt_or_le e 0 with h | h
    · have h' : 0 ≤ -e := by omega
      have hdiv := Int.neg_tdiv (-e) 1000
      have hmod := Int.neg_tmod (-e) 1000
      rw [Int.neg_neg, Int.tdiv_eq_ediv_of_nonneg h'] at hdiv
      rw [Int.neg_neg, Int.tmod_eq_emod_of_nonneg h'] at hmod
      exact .inr ⟨h, hdiv, hmod⟩
    · exact .inl ⟨h, Int.tdiv_eq_ediv_of_nonneg h, Int.tmod_eq_emod_of_nonneg h⟩
  unfold floorParts
  rw [int64_eq (by omega) (by omega), int32_eq (by omega) (by omega)]
  simp only [Option.bind_eq_bind, Option.bind_some]
  split
  · rw [int32_eq (by omega) (by omega), int64_eq (by omega) (by omega)]
    simp only [Option.bind_some, Option.pure_def, Option.some.injEq, Prod.mk.injEq]
    omega
  · simp only [Option.pure_def, Option.some.injEq, Prod.mk.injEq]
    omega

/-- The year of an instant, in UTC. -/
def utcYear (epochMs : Int) : Int := yearOf (epochMs / 86400000 + epochDay)

/-- The years of 64-bit instants fit their field by far. -/
theorem utcYear_bounds {e : Int} (hlo : -2 ^ 63 ≤ e) (hhi : e < 2 ^ 63) :
    -2 ^ 30 ≤ utcYear e ∧ utcYear e ≤ 2 ^ 30 := by
  unfold utcYear yearOf daysBeforeYear epochDay
  dsimp only
  split <;> omega

theorem gmtime_eq {e : Int} (hlo : -2 ^ 63 ≤ e) (hhi : e < 2 ^ 63) :
    gmtime (e / 1000) = some
      { sec := e / 1000 % 60, min := e / 60000 % 60, hour := e / 3600000 % 24,
        mday := (Date.ofDays (e / 86400000 + epochDay)).day,
        mon := (Date.ofDays (e / 86400000 + epochDay)).month - 1, year := utcYear e - 1900 } := by
  have hyear := utcYear_bounds hlo hhi
  have hday : e / 1000 / 86400 = e / 86400000 := by omega
  unfold gmtime
  rw [hday]
  dsimp only
  rw [show (Date.ofDays (e / 86400000 + epochDay)).year = utcYear e from rfl,
    int32_eq (by omega) (by omega), if_pos Option.isSome_some]
  simp only [Option.some.injEq, Tm.mk.injEq, and_true]
  omega

/-- The stamp of an instant. -/
def stampOf (e : Int) (h : 0 ≤ utcYear e) (h' : utcYear e ≤ 9999) : Stamp where
  date := Date.ofDays (e / 86400000 + epochDay)
  hour := (e / 3600000 % 24).toNat
  minute := (e / 60000 % 60).toNat
  second := (e / 1000 % 60).toNat
  millis := (e % 1000).toNat
  year_nonneg := h
  year_le := h'
  hour_lt := by omega
  minute_lt := by omega
  second_lt := by omega
  millis_lt := by omega

theorem epochMs_stampOf {e : Int} (h : 0 ≤ utcYear e) (h' : utcYear e ≤ 9999) :
    (stampOf e h h').epochMs = e := by
  unfold Stamp.epochMs stampOf
  dsimp only
  rw [Date.days_ofDays]
  omega

theorem formatPadded_of_nonneg {w : Nat} {n : Int} (h : 0 ≤ n) :
    formatPadded w n = padded w n.toNat :=
  if_neg (by omega)

theorem formatTm_eq {e : Int} (h : 0 ≤ utcYear e) (h' : utcYear e ≤ 9999) :
    formatTm { sec := e / 1000 % 60, min := e / 60000 % 60, hour := e / 3600000 % 24,
               mday := (Date.ofDays (e / 86400000 + epochDay)).day,
               mon := (Date.ofDays (e / 86400000 + epochDay)).month - 1,
               year := utcYear e - 1900 } (e % 1000) = some (stampOf e h h').render := by
  have hmonth := (Date.ofDays (e / 86400000 + epochDay)).month_le
  have hmonth' := (Date.ofDays (e / 86400000 + epochDay)).one_le_month
  have hday := (Date.ofDays (e / 86400000 + epochDay)).day_le.trans (Stamp.monthLength_le _ _)
  have hday' := (Date.ofDays (e / 86400000 + epochDay)).one_le_day
  have hformat : ∀ {month : Int}, month = (Date.ofDays (e / 86400000 + epochDay)).month →
      formatStamp (utcYear e) month (Date.ofDays (e / 86400000 + epochDay)).day
        (e / 3600000 % 24) (e / 60000 % 60) (e / 1000 % 60) (e % 1000) =
      (stampOf e h h').render := by
    rintro month rfl
    unfold formatStamp
    rw [formatPadded_of_nonneg h, formatPadded_of_nonneg (by omega),
      formatPadded_of_nonneg (by omega), formatPadded_of_nonneg (by omega),
      formatPadded_of_nonneg (by omega), formatPadded_of_nonneg (by omega),
      formatPadded_of_nonneg (by omega)]
    rfl
  unfold formatTm
  dsimp only
  rw [int32_eq (by omega) (by omega), int32_eq (by omega) (by omega)]
  simp only [Option.bind_eq_bind, Option.bind_some]
  rw [if_neg (by omega), Int.sub_add_cancel, hformat (by omega), Stamp.length_render,
    if_neg (by decide)]
  rfl

theorem formatTm_of_year {tm : Tm} {millis : Int} (hlo : -2 ^ 31 ≤ tm.year)
    (hhi : tm.year ≤ 2 ^ 30) (hmon : 0 ≤ tm.mon ∧ tm.mon < 12)
    (hyear : tm.year + 1900 < 0 ∨ 9999 < tm.year + 1900) :
    formatTm tm millis = some placeholder := by
  unfold formatTm
  rw [int32_eq (by omega) (by omega), int32_eq (by omega) (by omega)]
  simp only [Option.bind_eq_bind, Option.bind_some]
  exact if_pos (by omega)

/-- The text of an instant of a year with four digits. -/
theorem iso8601Utc_of_year {e : Int64} (h : 0 ≤ utcYear e.toInt) (h' : utcYear e.toInt ≤ 9999) :
    iso8601Utc e = some (stampOf e.toInt h h').render := by
  unfold iso8601Utc
  rw [floorParts_eq e.le_toInt e.toInt_lt]
  simp only [Option.bind_eq_bind, Option.bind_some, gmtime_eq e.le_toInt e.toInt_lt]
  exact formatTm_eq h h'

theorem iso8601Utc_of_not_year {e : Int64} (h : ¬(0 ≤ utcYear e.toInt ∧ utcYear e.toInt ≤ 9999)) :
    iso8601Utc e = some placeholder := by
  have hyear := utcYear_bounds e.le_toInt e.toInt_lt
  have hmonth := (Date.ofDays (e.toInt / 86400000 + epochDay)).month_le
  have hmonth' := (Date.ofDays (e.toInt / 86400000 + epochDay)).one_le_month
  unfold iso8601Utc
  rw [floorParts_eq e.le_toInt e.toInt_lt]
  simp only [Option.bind_eq_bind, Option.bind_some, gmtime_eq e.le_toInt e.toInt_lt]
  exact formatTm_of_year (by dsimp only; omega) (by dsimp only; omega) (by dsimp only; omega)
    (by dsimp only; omega)

/-- The fixed text is the rendering of the epoch. -/
theorem placeholder_eq : placeholder = (stampOf 0 (by decide) (by decide)).render := by decide

/-- **Timestamps are exact and sortable.** For every 64-bit number of milliseconds the call
returns, without an overflow, a text of 24 characters that renders a date and a time of day
that exist. If the year of the instant has four digits, reading the text gives the
milliseconds back, and otherwise it is the fixed text. The order of such instants is the
lexicographic order of their texts. -/
theorem iso8601Utc_exact :
    (∀ e : Int64, ∃ text, iso8601Utc e = some text ∧ text.length = 24 ∧
      (∃ t : Stamp, text = t.render) ∧
      (0 ≤ utcYear e.toInt ∧ utcYear e.toInt ≤ 9999 → Stamp.parse text = some e.toInt) ∧
      (¬(0 ≤ utcYear e.toInt ∧ utcYear e.toInt ≤ 9999) → text = placeholder)) ∧
    ∀ (e e' : Int64) (text text' : List Char), iso8601Utc e = some text →
      iso8601Utc e' = some text' → 0 ≤ utcYear e.toInt ∧ utcYear e.toInt ≤ 9999 →
      0 ≤ utcYear e'.toInt ∧ utcYear e'.toInt ≤ 9999 → (e < e' ↔ text < text') := by
  refine ⟨fun e => ?_, fun e e' text text' htext htext' h h' => ?_⟩
  · by_cases h : 0 ≤ utcYear e.toInt ∧ utcYear e.toInt ≤ 9999
    · refine ⟨_, iso8601Utc_of_year h.1 h.2, Stamp.length_render _, ⟨_, rfl⟩, fun _ => ?_,
        fun hn => absurd h hn⟩
      rw [Stamp.parse_render, epochMs_stampOf]
    · exact ⟨_, iso8601Utc_of_not_year h, rfl, ⟨_, placeholder_eq⟩, fun hy => absurd hy h,
        fun _ => rfl⟩
  · obtain rfl := Option.some.inj ((iso8601Utc_of_year h.1 h.2).symm.trans htext)
    obtain rfl := Option.some.inj ((iso8601Utc_of_year h'.1 h'.2).symm.trans htext')
    rw [Stamp.render_lt_iff, epochMs_stampOf, epochMs_stampOf, Int64.lt_iff_toInt_lt]

/-- The last millisecond before the epoch. -/
theorem iso8601Utc_before_epoch :
    iso8601Utc (-1) = some "1969-12-31T23:59:59.999Z".toList ∧
      "1969-12-31T23:59:59.999Z".toList < placeholder :=
  ⟨by decide, (iso8601Utc_exact.2 (-1) 0 _ _ (by decide) (by decide) (by decide) (by decide)).mp
    (by decide)⟩

end PlayerTrace
