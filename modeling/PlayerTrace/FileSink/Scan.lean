import PlayerTrace.FileSink.Spec
import PlayerTrace.Lib.Loop
import PlayerTrace.Lib.Signed

/-!
# The backward scan in machine arithmetic

`find_last_complete_line_end` decides where a file is cut when it is opened. In
`PlayerTrace.findLastCompleteLineEnd` its offsets are natural numbers and a block is the list of
bytes it holds. Here it is the source statement by statement: an offset is a `long long`, whose
arithmetic has no value when it overflows; the blocks go through one buffer, which keeps what an
earlier block has left in it, and reading it outside its bounds has no value either; and the
loop over the blocks has no value unless it ends by itself. So to have a value is to have ended,
without an overflow and without a read outside the buffer. What is not undefined in the source
but would be wrong – to seek or to read outside the file – is kept on record
(`PlayerTrace.Scan.Access`).

The size of the blocks is a parameter. The source has `PlayerTrace.Scan.kBlock`, and that the
result does not depend on it is a theorem.

What one round of the loop does is `PlayerTrace.Scan.Turn`. From it follows what the scan finds
(`PlayerTrace.Scan.scan_finds`) and, whatever the environment answers, that it is the scan of
`PlayerTrace.findLastCompleteLineEnd` (`PlayerTrace.Scan.scan_refines`), so that what is proved
about opening a file holds of the source's arithmetic.
-/

namespace PlayerTrace

open Stdio Stream Lines Loop

/-- `Offset`: a `long long`. -/
abbrev Offset := Signed 64

/-- What the scan does that could be out of range. -/
inductive Scan.Access
  /-- It seeks to an offset. -/
  | seek (offset : Offset)
  /-- It reads `want` bytes at an offset of the file, to the beginning of the buffer. -/
  | fread (offset want : Nat)
  /-- It reads the buffer at an index, when `got` bytes have been read to it. -/
  | index (i got : Nat)
  deriving DecidableEq

/-- The loop over the blocks: its variables. -/
structure Scan where
  pos : Offset
  buffer : List UInt8
  stream : Stream
  /-- Ghost: the number of the block, counted from the end. -/
  j : Nat := 0
  /-- Ghost: what has been done so far. -/
  record : List Scan.Access := []

namespace Scan

/-- What the scan leaves: `*out`, or nothing when it returns `false`. -/
structure Verdict where
  out : Option Offset
  stream : Stream
  record : List Access

/-- `kBlock`, the size of the blocks. -/
def kBlock : Offset := ⟨64 * 1024, by decide, by decide⟩

example : Signed.mul (⟨64, by decide, by decide⟩ : Offset) ⟨1024, by decide, by decide⟩ =
    some kBlock := by decide

/-- `seek_offset`, which fails for a negative offset. -/
def seekOffset (a : Answers) (p : Place) (h : Stream) (offset : Offset) : Bool × Stream :=
  if offset.val < 0 then (false, h) else h.seekSet (a.seek p) offset.val.toNat

/-- `fread` to the beginning of a buffer, which has to have room for what is asked for: how
much was read, and the buffer. -/
def freadTo (short : Option Nat) (h : Stream) (buffer : List UInt8) (want : Nat) :
    Option (Nat × List UInt8 × Stream) :=
  if want ≤ buffer.length then
    let (data, h) := h.fread short want
    some (data.length, data ++ buffer.drop data.length, h)
  else none

/-- The loop over the buffer, from the index below `i` down. -/
def search (buffer : List UInt8) (got : Nat) : Nat → List Access → Option (Option Nat × List Access)
  | 0, record => some (none, record)
  | i + 1, record =>
    match buffer[i]? with
    | none => none
    | some c =>
      if c = newline then some (some (i + 1), record ++ [.index i got])
      else search buffer got i (record ++ [.index i got])

/-- A round once `start` has been sought: `want` bytes are read, and looked through. -/
def readBlock (a : Answers) (s : Scan) (start : Offset) (want : Nat) (h : Stream) :
    Option (Round Scan Verdict) := do
  let record := s.record ++ [.seek start, .fread h.position want]
  let (got, buffer, h) ← freadTo (a.read (.block s.j)) h s.buffer want
  if got ≠ want then some (.done ⟨none, h, record⟩)
  else
    match ← search buffer got got record with
    | (some i, record) =>
      let i ← Signed.ofInt i
      let out ← start.add i
      some (.done ⟨some out, h, record⟩)
    | (none, record) => some (.again ⟨start, buffer, h, s.j + 1, record⟩)

/-- One round of the loop over the blocks. -/
def round (a : Answers) (block : Offset) (s : Scan) : Option (Round Scan Verdict) :=
  if s.pos.val ≤ 0 then some (.done ⟨some 0, s.stream, s.record⟩)
  else do
    let chunk := if s.pos.val < block.val then s.pos else block
    let start ← s.pos.sub chunk
    match seekOffset a (.block s.j) s.stream start with
    | (false, h) => some (.done ⟨none, h, s.record ++ [.seek start]⟩)
    | (true, h) => readBlock a s start (chunk.toUnsigned 64) h

/-- The scan, with blocks of any size. -/
def scan (a : Answers) (block : Offset) (rounds : Nat) (size : Offset) (h : Stream) :
    Option Verdict :=
  loop (round a block) rounds
    { pos := size, buffer := List.replicate (block.toUnsigned 64) 0, stream := h }

/-- `find_last_complete_line_end`. -/
def findLastCompleteLineEnd (a : Answers) (rounds : Nat) (size : Offset) (h : Stream) :
    Option Verdict :=
  scan a kBlock rounds size h

/-! ### What is in range -/

/-- In range, for a part of the file of this length and a buffer of this size. An index is one
of those that have just been read. -/
def Access.InRange (length block : Nat) : Access → Prop
  | .seek offset => 0 ≤ offset.val ∧ offset.val < length
  | .fread offset want => offset + want ≤ length ∧ want ≤ block
  | .index i got => i < got ∧ got ≤ block

variable {a : Answers} {block size : Offset} {s : Scan} {h : Stream}

theorem Access.InRange.mono {m n b : Nat} {x : Access} (hx : x.InRange m b) (hle : m ≤ n) :
    x.InRange n b := by
  cases x with
  | seek offset => exact ⟨hx.1, lt_of_lt_of_le hx.2 (Int.ofNat_le.mpr hle)⟩
  | fread offset want => exact ⟨hx.1.trans hle, hx.2⟩
  | index i got => exact hx

/-! ### A round -/

/-- How much of the file is left, in bytes. -/
def left (s : Scan) : Nat := s.pos.val.toNat

/-- How much of it the round reads. -/
def chunk (block : Offset) (s : Scan) : Nat :=
  if s.left < block.val.toNat then s.left else block.val.toNat

/-- What it reads, once it has sought the place. -/
def taken (a : Answers) (block : Offset) (s : Scan) : List UInt8 × Stream :=
  { s.stream with position := s.left - s.chunk block }.fread (a.read (.block s.j)) (s.chunk block)

/-- What the loop keeps of its variables. -/
structure Fit (block : Offset) (s : Scan) : Prop where
  block_pos : 0 < block.val
  pos_nonneg : 0 ≤ s.pos.val
  buffer : s.buffer.length = block.val.toNat
  stream : s.stream.buffer = []

/-- **What a round does**, and that what it does is in range of what is left of the file. -/
inductive Turn (a : Answers) (block : Offset) (s : Scan) : Round Scan Verdict → Prop
  | ended (hleft : s.left = 0) : Turn a block s (.done ⟨some 0, s.stream, s.record⟩)
  | unsought {t : List Access} (hleft : 0 < s.left) (hseek : a.seek (.block s.j) = false)
      (ht : ∀ x ∈ t, x.InRange s.left block.val.toNat) :
      Turn a block s (.done ⟨none, s.stream, s.record ++ t⟩)
  | short {t : List Access} (hleft : 0 < s.left) (hseek : a.seek (.block s.j) = true)
      (hlen : (taken a block s).1.length ≠ s.chunk block)
      (ht : ∀ x ∈ t, x.InRange s.left block.val.toNat) :
      Turn a block s (.done ⟨none, (taken a block s).2, s.record ++ t⟩)
  | found {t : List Access} {i : Nat} {out : Offset} (hleft : 0 < s.left)
      (hseek : a.seek (.block s.j) = true) (hlen : (taken a block s).1.length = s.chunk block)
      (hlast : lastNewline (taken a block s).1 (s.chunk block) = some i)
      (hout : out.val = (s.left - s.chunk block + i : Nat))
      (ht : ∀ x ∈ t, x.InRange s.left block.val.toNat) :
      Turn a block s (.done ⟨some out, (taken a block s).2, s.record ++ t⟩)
  | onward {t : List Access} {start : Offset} {buffer : List UInt8} (hleft : 0 < s.left)
      (hseek : a.seek (.block s.j) = true) (hlen : (taken a block s).1.length = s.chunk block)
      (hlast : lastNewline (taken a block s).1 (s.chunk block) = none)
      (hstart : start.val = (s.left - s.chunk block : Nat))
      (hbuffer : buffer.length = s.buffer.length)
      (ht : ∀ x ∈ t, x.InRange s.left block.val.toNat) :
      Turn a block s (.again ⟨start, buffer, (taken a block s).2, s.j + 1, s.record ++ t⟩)

theorem chunk_le (block : Offset) (s : Scan) : s.chunk block ≤ s.left := by
  unfold chunk
  split <;> omega

theorem chunk_le_block (block : Offset) (s : Scan) : s.chunk block ≤ block.val.toNat := by
  unfold chunk
  split <;> omega

/-- Every round but the last makes progress. -/
theorem chunk_pos (hs : Fit block s) (hleft : 0 < s.left) : 0 < s.chunk block := by
  have := hs.block_pos
  unfold chunk
  split <;> omega

/-- The loop over the buffer finds the last newline of what was read to it. -/
theorem exists_search (data rest : List UInt8) {i : Nat} (hi : i ≤ data.length)
    (record : List Access) :
    ∃ t, search (data ++ rest) data.length i record = some (lastNewline data i, record ++ t) ∧
      ∀ x ∈ t, ∃ k, k < data.length ∧ x = .index k data.length := by
  induction i generalizing record with
  | zero => exact ⟨[], by simp [search, lastNewline], by simp⟩
  | succ i ih =>
    have hread : (data ++ rest)[i]? = some (data.get ⟨i, hi⟩) := by
      rw [List.getElem?_append_left hi]
      exact List.getElem?_eq_getElem hi
    have hdata : data[i]? = some (data.get ⟨i, hi⟩) := List.getElem?_eq_getElem hi
    simp only [search, hread, lastNewline, hdata, Option.some.injEq]
    split
    · exact ⟨[.index i data.length], rfl, fun x hx => ⟨i, hi, List.mem_singleton.mp hx⟩⟩
    · obtain ⟨t, heq, ht⟩ := ih (Nat.le_of_succ_le hi) (record ++ [.index i data.length])
      refine ⟨.index i data.length :: t, by rw [heq, List.append_assoc]; rfl, fun x hx => ?_⟩
      rcases List.mem_cons.mp hx with rfl | hx
      · exact ⟨i, hi, rfl⟩
      · exact ht x hx

/-- What is in range of a round. -/
theorem inRange_of_round (hs : Fit block s) (hleft : 0 < s.left) {start : Offset}
    (hstart : start.val = (s.left - s.chunk block : Nat)) :
    (Access.seek start).InRange s.left block.val.toNat ∧
      (Access.fread (s.left - s.chunk block) (s.chunk block)).InRange s.left block.val.toNat := by
  have hpos := chunk_pos hs hleft
  have hle := s.chunk_le block
  exact ⟨⟨by omega, by omega⟩, by omega, s.chunk_le_block block⟩

theorem left_eq (hs : Fit block s) : (s.left : Int) = s.pos.val := Int.toNat_of_nonneg hs.pos_nonneg

/-- Where the round finds a newline, the offset behind it can be computed. -/
theorem exists_out (hs : Fit block s) {start : Offset}
    (hstart : start.val = (s.left - s.chunk block : Nat)) {i : Nat} (hi : i ≤ s.chunk block) :
    ∃ n out : Offset, Signed.ofInt i = some n ∧ start.add n = some out ∧
      out.val = (s.left - s.chunk block + i : Nat) := by
  have hleft := left_eq hs
  have hle := s.chunk_le block
  obtain ⟨n, hn, hnval⟩ : ∃ n : Offset, Signed.ofInt i = some n ∧ n.val = i :=
    Signed.exists_ofInt (x := 0) (y := s.pos) (by simp) (by omega)
  obtain ⟨out, hout, houtval⟩ : ∃ out, start.add n = some out ∧ out.val = start.val + n.val :=
    Signed.exists_add (z := s.pos) (by omega) (by omega)
  exact ⟨n, out, hn, hout, by omega⟩

/-- A round whose seek has succeeded. -/
theorem readBlock_turn (hs : Fit block s) (hleft : 0 < s.left)
    (hseek : a.seek (.block s.j) = true) {start : Offset}
    (hstart : start.val = (s.left - s.chunk block : Nat)) :
    ∃ r, readBlock a s start (s.chunk block)
        { s.stream with position := s.left - s.chunk block } = some r ∧ Turn a block s r := by
  obtain ⟨hsought, hread⟩ := inRange_of_round hs hleft hstart
  have hroom : s.chunk block ≤ s.buffer.length := by
    rw [hs.buffer]
    exact s.chunk_le_block block
  have hrecord : ∀ x ∈ [Access.seek start, .fread (s.left - s.chunk block) (s.chunk block)],
      x.InRange s.left block.val.toNat := by
    intro x hx
    simp only [List.mem_cons, List.not_mem_nil, or_false] at hx
    rcases hx with rfl | rfl
    · exact hsought
    · exact hread
  have htaken : ({ s.stream with position := s.left - s.chunk block } : Stream).fread
      (a.read (.block s.j)) (s.chunk block) = taken a block s := rfl
  unfold readBlock
  simp only [freadTo, if_pos hroom, htaken, Option.bind_eq_bind, Option.bind_some]
  by_cases hlen : (taken a block s).1.length = s.chunk block
  · rw [if_neg (not_not.mpr hlen)]
    obtain ⟨t, hsearch, hindex⟩ := exists_search (taken a block s).1
      (s.buffer.drop (taken a block s).1.length) (Nat.le_refl _)
      (s.record ++ [.seek start, .fread (s.left - s.chunk block) (s.chunk block)])
    rw [hsearch, Option.bind_some, List.append_assoc]
    have ht : ∀ x ∈ [Access.seek start, .fread (s.left - s.chunk block) (s.chunk block)] ++ t,
        x.InRange s.left block.val.toNat := by
      refine List.forall_mem_append.mpr ⟨hrecord, fun x hx => ?_⟩
      obtain ⟨k, hk, rfl⟩ := hindex x hx
      exact ⟨hk, hlen ▸ s.chunk_le_block block⟩
    rcases hlast : lastNewline (taken a block s).1 (taken a block s).1.length with _ | i
    · refine ⟨_, rfl, .onward hleft hseek hlen (hlen ▸ hlast) hstart ?_ ht⟩
      rw [List.length_append, List.length_drop, hlen]
      omega
    · obtain ⟨n, out, hn, hout, hval⟩ := exists_out hs hstart (hlen ▸ lastNewline_le hlast)
      simp only [hn, hout, Option.bind_some]
      exact ⟨_, rfl, .found hleft hseek hlen (hlen ▸ hlast) hval ht⟩
  · rw [if_pos hlen]
    exact ⟨_, rfl, .short hleft hseek hlen hrecord⟩

/-- **Every round has a value.** -/
theorem round_turn (hs : Fit block s) : ∃ r, round a block s = some r ∧ Turn a block s r := by
  have hpos := hs.pos_nonneg
  have hblock := hs.block_pos
  by_cases hend : s.pos.val ≤ 0
  · exact ⟨_, if_pos hend, .ended (by rw [left]; omega)⟩
  have hleft : 0 < s.left := by rw [left]; omega
  have hle := s.chunk_le block
  -- the chunk, and where it begins
  obtain ⟨c, hc, hcval⟩ : ∃ c : Offset, (if s.pos.val < block.val then s.pos else block) = c ∧
      c.val = s.chunk block := by
    refine ⟨_, rfl, ?_⟩
    unfold chunk left
    split <;> split <;> omega
  obtain ⟨start, hsub, hdiff⟩ : ∃ start, s.pos.sub c = some start ∧ start.val = s.pos.val - c.val :=
    Signed.exists_sub (by omega) (by rw [hcval]; unfold left at hle; omega)
  have hstart : start.val = (s.left - s.chunk block : Nat) := by
    rw [hdiff, hcval]
    unfold left at hle ⊢
    omega
  have hwant : c.toUnsigned 64 = s.chunk block := by
    rw [Signed.toUnsigned_eq (by decide) (by omega), hcval]
    rfl
  have hsought : seekOffset a (.block s.j) s.stream start =
      s.stream.seekSet (a.seek (.block s.j)) (s.left - s.chunk block) := by
    rw [seekOffset, if_neg (by omega), hstart]
    rfl
  unfold round
  rw [if_neg hend]
  simp only [hc, hsub, hsought, hwant, Option.bind_eq_bind, Option.bind_some]
  rcases hseek : a.seek (.block s.j) with _ | _
  · refine ⟨_, rfl, .unsought hleft hseek fun x hx => ?_⟩
    rw [List.mem_singleton.mp hx]
    exact (inRange_of_round hs hleft hstart).1
  · rw [seekSet_of_empty hs.stream]
    exact readBlock_turn hs hleft hseek hstart

/-! ### The scan -/

/-- The variables of the next round. -/
theorem Fit.onward (hs : Fit block s) {start : Offset} {buffer : List UInt8} {n : Nat}
    {record : List Access} (hstart : start.val = n) (hbuffer : buffer.length = s.buffer.length) :
    Fit block ⟨start, buffer, (taken a block s).2, s.j + 1, record⟩ where
  block_pos := hs.block_pos
  pos_nonneg := by
    change 0 ≤ start.val
    omega
  buffer := hbuffer.trans hs.buffer
  stream := hs.stream

/-- A read that succeeds reads the block. -/
theorem taken_eq (block : Offset) (hread : a.read (.block s.j) = none) : (taken a block s).1 =
    (s.stream.file.bytes.drop (s.left - s.chunk block)).take (s.chunk block) := by
  simp only [taken, Stream.fread, hread, Option.getD_none, Nat.min_self]

/-- **What the scan knows between two rounds**: there is no newline in the part of the file that
it has read. -/
structure Searching (h : Stream) (block : Offset) (s : Scan) : Prop extends Fit block s where
  file : s.stream.file = h.file
  left_le : s.left ≤ h.file.bytes.length
  complete : complete newline (h.file.bytes.take s.left) = Lines.complete newline h.file.bytes
  record : ∀ x ∈ s.record, x.InRange h.file.bytes.length block.val.toNat

/-- What it has found: the offset `n`, with everything in range. -/
structure Verdict.Finds (v : Verdict) (length block n : Nat) : Prop where
  out : ∃ out, v.out = some out ∧ out.val = n
  record : ∀ x ∈ v.record, x.InRange length block

section Success

variable (hseek : ∀ j, a.seek (.block j) = true) (hread : ∀ j, a.read (.block j) = none)

include hseek hread

/-- **One round** finds the end of the last complete line, or goes on below its block. -/
theorem Searching.round (hs : Searching h block s) :
    (∃ v, Scan.round a block s = some (.done v) ∧ v.Finds h.file.bytes.length block.val.toNat
      (Lines.complete newline h.file.bytes).length) ∨
    ∃ s', Scan.round a block s = some (.again s') ∧ Searching h block s' ∧ s'.left < s.left := by
  obtain ⟨r, hround, hturn⟩ := round_turn (a := a) hs.toFit
  have hle := s.chunk_le block
  have hin := hs.left_le
  have hdata := hs.file ▸ taken_eq block (hread s.j)
  have hall : (taken a block s).1.length = s.chunk block := by
    rw [hdata, List.length_take, List.length_drop]
    omega
  have hrecord : ∀ {t : List Access}, (∀ x ∈ t, x.InRange s.left block.val.toNat) →
      ∀ x ∈ s.record ++ t, x.InRange h.file.bytes.length block.val.toNat := by
    intro t ht
    exact List.forall_mem_append.mpr ⟨hs.record, fun x hx => (ht x hx).mono hin⟩
  cases hturn with
  | ended hleft =>
    refine Or.inl ⟨_, hround, ⟨0, rfl, ?_⟩, hs.record⟩
    rw [← hs.complete, hleft]
    rfl
  | unsought _ hno => exact absurd ((hseek s.j).symm.trans hno) (by decide)
  | short _ _ hlen => exact absurd hall hlen
  | found _ _ _ hlast hout ht =>
    refine Or.inl ⟨_, hround, ⟨_, rfl, ?_⟩, hrecord ht⟩
    rw [hdata] at hlast
    rw [hout, ← hs.complete, complete_of_lastNewline_some hle hin hlast]
  | onward hleft _ _ hlast hstart hbuffer ht =>
    have hpos := chunk_pos hs.toFit hleft
    rw [hdata] at hlast
    refine Or.inr ⟨_, hround, ⟨hs.toFit.onward hstart hbuffer, hs.file, ?_, ?_, hrecord ht⟩, ?_⟩
    all_goals
      rw [left, hstart, Int.toNat_natCast]
    · omega
    · rw [← hs.complete, complete_of_lastNewline_none hle hlast]
    · omega

/-- **The scan finds the end of the last complete line**, with blocks of any size. -/
theorem scan_finds {rounds : Nat} (hb : h.buffer = []) (hsize : size.val = h.file.bytes.length)
    (hblock : 0 < block.val) (hrounds : h.file.bytes.length < rounds) :
    ∃ v, scan a block rounds size h = some v ∧ v.Finds h.file.bytes.length block.val.toNat
      (complete newline h.file.bytes).length := by
  have hsearching : Searching h block
      { pos := size, buffer := List.replicate (block.toUnsigned 64) 0, stream := h } := by
    have hleft : size.val.toNat = h.file.bytes.length := by omega
    refine ⟨⟨hblock, ?_, ?_, hb⟩, rfl, hleft.le, ?_, by simp⟩
    · change 0 ≤ size.val
      omega
    · rw [List.length_replicate, Signed.toUnsigned_eq (by decide) hblock.le]
    · rw [left, hleft, List.take_length]
  refine loop_rule (I := Searching h block) (m := left) (fun s hs => hs.round hseek hread) rounds _
    hsearching ?_
  change size.val.toNat < rounds
  omega

/-- **The backward scan is right for every file** whose size is an offset. It ends; what it yields
is the offset just past the last newline of the file, or zero if there is none; it neither seeks
nor reads outside the file, and does not read the buffer outside what it has just read to it. With
blocks of any other size it would have yielded the same. -/
theorem tail_scan_correct (hb : h.buffer = []) (hlen : h.file.bytes.length < 2 ^ 63) :
    ∃ (size : Offset) (n : Nat), size.val = h.file.bytes.length ∧
      PastLast newline h.file.bytes n ∧ ∀ rounds, h.file.bytes.length < rounds →
        (∃ v, findLastCompleteLineEnd a rounds size h = some v ∧
          v.Finds h.file.bytes.length kBlock.val.toNat n) ∧
        ∀ block : Offset, 0 < block.val → ∃ v, scan a block rounds size h = some v ∧
          v.Finds h.file.bytes.length block.val.toNat n := by
  obtain ⟨size, hsize⟩ : ∃ size : Offset, size.val = h.file.bytes.length :=
    ⟨⟨h.file.bytes.length, by omega, by omega⟩, rfl⟩
  refine ⟨size, _, hsize, pastLast_complete newline h.file.bytes, fun rounds hrounds => ⟨?_, ?_⟩⟩
  · exact scan_finds hseek hread hb hsize (by decide) hrounds
  · exact fun block hblock => scan_finds hseek hread hb hsize hblock hrounds

end Success

/-- A line and a fragment of another: the scan yields the end of the line. -/
theorem tail_scan_correct_fragment : ∃ (size : Offset) (v : Verdict), size.val = 3 ∧
    findLastCompleteLineEnd {} 4 size { file := { bytes := [97, 10, 98] } } = some v ∧
    v.Finds 3 65536 2 := by
  obtain ⟨size, n, hsize, hlast, hfinds⟩ := tail_scan_correct (a := {})
    (h := { file := { bytes := [97, 10, 98] } }) (fun _ => rfl) (fun _ => rfl) rfl (by decide)
  obtain ⟨⟨v, hscan, hv⟩, -⟩ := hfinds 4 (by decide)
  obtain rfl : n = 2 := hlast.unique ⟨fun _ => rfl, fun i hi => by
    rcases Nat.eq_or_lt_of_le hi with rfl | hi
    · decide
    · rw [List.getElem?_eq_none hi]
      decide⟩
  exact ⟨size, v, hsize, hscan, hv⟩

/-! ### The scan of natural numbers -/

/-- What the scan leaves, with natural numbers for the offsets. -/
def Verdict.result (v : Verdict) : Option Nat × Stream :=
  (v.out.map fun out => out.val.toNat, v.stream)

/-- What is left of the other scan when this one is between two rounds. -/
def rest (a : Answers) (n : Nat) (s : Scan) : Option Nat × Stream :=
  scanBlocks a n s.j s.left s.stream

/-- A round of the other scan, once it has sought the place. -/
theorem rest_succ (hs : Fit kBlock s) (hleft : 0 < s.left) (hseek : a.seek (.block s.j) = true)
    (n : Nat) : rest a (n + 1) s =
      if (taken a kBlock s).1.length ≠ s.chunk kBlock then (none, (taken a kBlock s).2)
      else match lastNewline (taken a kBlock s).1 (taken a kBlock s).1.length with
        | some i => (some (s.left - s.chunk kBlock + i), (taken a kBlock s).2)
        | none => scanBlocks a n (s.j + 1) (s.left - s.chunk kBlock) (taken a kBlock s).2 := by
  have hchunk : (if s.left < PlayerTrace.kBlock then s.left else PlayerTrace.kBlock) =
      s.chunk kBlock := rfl
  rw [rest, scanBlocks, if_neg hleft.ne']
  simp only [hchunk, hseek, seekSet_of_empty hs.stream]
  rfl

/-- **The two scans agree** round by round. -/
theorem rest_round (hs : Fit kBlock s) {n : Nat} (hn : s.left ≤ n) :
    (∃ v, round a kBlock s = some (.done v) ∧ v.result = rest a n s) ∨
    ∃ s', round a kBlock s = some (.again s') ∧ Fit kBlock s' ∧
      (∃ m, s'.left ≤ m ∧ rest a m s' = rest a n s) ∧ s'.left < s.left := by
  obtain ⟨r, hround, hturn⟩ := round_turn (a := a) hs
  rcases Nat.eq_zero_or_pos s.left with hzero | hpos
  · cases hturn with
    | ended =>
      refine Or.inl ⟨_, hround, ?_⟩
      unfold rest scanBlocks
      rw [if_pos hzero]
      rfl
    | unsought hleft | short hleft | found hleft | onward hleft => omega
  obtain ⟨n, rfl⟩ : ∃ m, n = m + 1 := ⟨n - 1, by omega⟩
  cases hturn with
  | ended hleft => omega
  | unsought _ hseek =>
    refine Or.inl ⟨_, hround, ?_⟩
    rw [rest, scanBlocks, if_neg hpos.ne']
    simp only [hseek]
    rfl
  | short _ hseek hlen =>
    refine Or.inl ⟨_, hround, ?_⟩
    rw [rest_succ hs hpos hseek, if_pos hlen]
    rfl
  | found _ hseek hlen hlast hout =>
    refine Or.inl ⟨_, hround, ?_⟩
    rw [rest_succ hs hpos hseek, if_neg (not_not.mpr hlen), hlen, hlast, Verdict.result,
      Option.map_some, hout, Int.toNat_natCast]
  | onward _ hseek hlen hlast hstart hbuffer =>
    have hchunk := chunk_pos hs hpos
    refine Or.inr ⟨_, hround, hs.onward hstart hbuffer, ⟨n, ?_, ?_⟩, ?_⟩
    · rw [left, hstart, Int.toNat_natCast]
      omega
    · rw [rest_succ hs hpos hseek, if_neg (not_not.mpr hlen), hlen, hlast, rest, left, hstart,
        Int.toNat_natCast]
    · rw [left, hstart, Int.toNat_natCast]
      omega

/-- **The scan is the scan of natural numbers**, whatever the environment answers. -/
theorem scan_refines (a : Answers) (hb : h.buffer = []) (hsize : 0 ≤ size.val) {rounds : Nat}
    (hrounds : size.val.toNat < rounds) :
    ∃ v, findLastCompleteLineEnd a rounds size h = some v ∧
      v.result = PlayerTrace.findLastCompleteLineEnd a size.val.toNat h := by
  have hfit : Fit kBlock
      { pos := size, buffer := List.replicate (kBlock.toUnsigned 64) 0, stream := h } :=
    ⟨by decide, hsize, by rw [List.length_replicate]; decide, hb⟩
  refine loop_rule (m := left)
    (I := fun s => Fit kBlock s ∧ ∃ n, s.left ≤ n ∧
      rest a n s = PlayerTrace.findLastCompleteLineEnd a size.val.toNat h) ?_ rounds _
    ⟨hfit, size.val.toNat, Nat.le_refl _, rfl⟩ hrounds
  rintro s ⟨hs, n, hn, hrest⟩
  rcases rest_round hs hn with ⟨v, hround, hv⟩ | ⟨s', hround, hs', ⟨m, hm, heq⟩, hlt⟩
  · exact Or.inl ⟨v, hround, hv.trans hrest⟩
  · exact Or.inr ⟨s', hround, ⟨hs', m, hm, heq.trans hrest⟩, hlt⟩

end Scan

end PlayerTrace
