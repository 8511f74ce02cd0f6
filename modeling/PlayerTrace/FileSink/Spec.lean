import PlayerTrace.FileSink.Model
import PlayerTrace.Lib.Lines

/-!
# What a call of a `FileSink` does to its file

A call is described from the file it finds: its content, and the part of it that every
crash would keep. `PlayerTrace.FileSink.Opening` lists what `ensure_open` can end with and
`PlayerTrace.FileSink.Outcome` what `write` can end with once the file is open; both are
proved together with what is left when the process is killed on the way, which is why every
result here is a `Stdio.Ends`.

The two facts behind them are that the backward scan finds the end of the last complete
line, whatever the blocks (`PlayerTrace.scanBlocks_spec`), and that a rollback ends with
the content the write began with or makes the sink fail
(`PlayerTrace.FileSink.rollBack_ends`).
-/

namespace PlayerTrace

open Stdio Stream Lines

variable {a : Answers} {h : Stream} {p : Place} {c x sec t : List UInt8}

/-! ### The backward scan -/

theorem lastNewline_some {buffer : List UInt8} {i n : Nat} (hn : lastNewline buffer i = some n)
    (c : List UInt8) : complete newline (c ++ buffer.take i) = c ++ buffer.take n := by
  induction i with
  | zero => simp [lastNewline] at hn
  | succ i ih =>
    rw [lastNewline] at hn
    split at hn
    · rename_i hi
      obtain rfl : i + 1 = n := Option.some.inj hn
      rw [List.take_add_one, hi, Option.toList_some, ← List.append_assoc, complete_concat_sep]
    · rename_i hi
      rw [← ih hn, List.take_add_one, ← List.append_assoc]
      exact complete_append fun hm => hi (Option.mem_toList.mp hm)

theorem lastNewline_le {buffer : List UInt8} {i n : Nat} (hn : lastNewline buffer i = some n) :
    n ≤ i := by
  induction i with
  | zero => simp [lastNewline] at hn
  | succ i ih =>
    rw [lastNewline] at hn
    split at hn
    · exact Nat.le_of_eq (Option.some.inj hn).symm
    · exact Nat.le_succ_of_le (ih hn)

theorem lastNewline_none {buffer : List UInt8} {i : Nat} (hn : lastNewline buffer i = none) :
    newline ∉ buffer.take i := by
  induction i with
  | zero => simp
  | succ i ih =>
    rw [lastNewline] at hn
    split at hn
    · exact absurd hn (by simp)
    · rename_i hi
      rw [List.take_add_one, List.mem_append, not_or]
      exact ⟨ih hn, fun hm => hi (Option.mem_toList.mp hm)⟩

/-- A read that is not short reads what lies there. -/
theorem fread_full {short : Option Nat} {n : Nat} (hlen : (h.fread short n).1.length = n) :
    (h.fread short n).1 = (h.file.bytes.drop h.position).take n := by
  have hle : min n (short.getD n) = n ∨ (h.fread short n).1.length < n := by
    simp only [Stream.fread, List.length_take]
    omega
  rcases hle with hle | hlt
  · simp only [Stream.fread, hle]
  · omega

/-- The part of a file below `pos` is the part below a block, and the block. -/
theorem take_block {pos chunk : Nat} (hle : chunk ≤ pos) (c : List UInt8) :
    c.take pos = c.take (pos - chunk) ++ (c.drop (pos - chunk)).take chunk := by
  rw [← List.take_add, Nat.sub_add_cancel hle]

/-- A block without a newline has no part in the complete lines. -/
theorem complete_of_lastNewline_none {pos chunk : Nat} (hle : chunk ≤ pos)
    (hlast : lastNewline ((c.drop (pos - chunk)).take chunk) chunk = none) :
    complete newline (c.take pos) = complete newline (c.take (pos - chunk)) := by
  have hnone := lastNewline_none hlast
  rw [List.take_take, Nat.min_self] at hnone
  rw [take_block hle, complete_append hnone]

/-- The last newline of a block that has one ends them. -/
theorem complete_of_lastNewline_some {pos chunk i : Nat} (hle : chunk ≤ pos)
    (hlen : pos ≤ c.length)
    (hlast : lastNewline ((c.drop (pos - chunk)).take chunk) chunk = some i) :
    (complete newline (c.take pos)).length = pos - chunk + i := by
  have hi := lastNewline_le hlast
  have hsome := lastNewline_some hlast (c.take (pos - chunk))
  rw [List.take_take, Nat.min_self] at hsome
  rw [take_block hle, hsome]
  simp only [List.length_append, List.length_take, List.length_drop]
  omega

/-- **The scan finds the end of the last complete line**, and leaves the file alone. -/
theorem scanBlocks_spec (rounds j pos : Nat) (hb : h.buffer = []) :
    (scanBlocks a rounds j pos h).2.file = h.file ∧ (scanBlocks a rounds j pos h).2.buffer = [] ∧
      ∀ n, (scanBlocks a rounds j pos h).1 = some n →
        n = (complete newline (h.file.bytes.take pos)).length := by
  induction rounds generalizing j pos h with
  | zero =>
    unfold scanBlocks
    split
    · rename_i hpos
      exact ⟨rfl, hb, fun n hn => by simpa [hpos] using hn.symm⟩
    · exact ⟨rfl, hb, fun n hn => by simp at hn⟩
  | succ rounds ih =>
    unfold scanBlocks
    split
    · rename_i hpos
      exact ⟨rfl, hb, fun n hn => by simpa [hpos] using hn.symm⟩
    rename_i hpos
    dsimp only
    generalize hchunk : (if pos < kBlock then pos else kBlock) = chunk
    have hle : chunk ≤ pos := by
      rw [← hchunk]
      split <;> omega
    rcases hseek : a.seek (.block j)
    · exact ⟨rfl, hb, fun n hn => by simp [Stream.seekSet] at hn⟩
    rw [seekSet_of_empty hb]
    dsimp only
    split
    · exact ⟨rfl, hb, fun n hn => by simp at hn⟩
    rename_i hlen
    have hgot := fread_full (not_not.mp hlen)
    rw [not_not] at hlen
    rw [hgot] at hlen ⊢
    rw [hlen]
    rcases hlast : lastNewline ((h.file.bytes.drop (pos - chunk)).take chunk) chunk with _ | i
    · rw [complete_of_lastNewline_none hle hlast]
      exact ih _ _ hb
    · refine ⟨rfl, hb, fun n hn => ?_⟩
      have hpos' : 0 < chunk := by
        rw [← hchunk, kBlock]
        split <;> omega
      simp only [List.length_take, List.length_drop] at hlen
      rw [complete_of_lastNewline_some hle (by omega) hlast]
      exact (Option.some.inj hn).symm

/-! ### Single operations -/

namespace Answers

variable {K : File → Prop}

theorem fwrite_ends {data : List UInt8} (ha : Appending c x h) (hw : h.file.Within sec t)
    (ht : c ++ (x ++ data) <+: t) :
    Ends (·.Within sec t) (a.fwrite p h data) fun r => r.2.file.Within sec t ∧
      ∃ y, y <+: data ∧ (r.1 = true → y = data) ∧ Appending c (x ++ y) r.2 :=
  ends_unless hw ⟨ha.within_fwrite hw ht _, ha.fwrite _ _⟩

theorem fwriteText_ends {data : List UInt8} (ha : Appending c x h) (hw : h.file.Within sec t)
    (ht : c ++ (x ++ data) <+: t) :
    Ends (·.Within sec t) (a.fwriteText p h data) fun r => r.2.file.Within sec t ∧
      ∃ y, y <+: data ∧ (r.1 = true → y = data) ∧ Appending c (x ++ y) r.2 := by
  unfold fwriteText
  split
  · rename_i hd
    obtain rfl : data = [] := List.isEmpty_iff.mp hd
    refine ends_pure ⟨hw, [], List.prefix_refl _, fun _ => rfl, ?_⟩
    rwa [List.append_nil]
  · exact fwrite_ends ha hw ht

theorem fflush_ends (ha : Appending c x h) (hw : h.file.Within sec t) (ht : c ++ x <+: t) :
    Ends (·.Within sec t) (a.fflush p h) fun r => r.2.file.Within sec t ∧
      ∃ y, y <+: x ∧ (r.1 = true → y = x) ∧ Ready (c ++ y) r.2 :=
  ends_unless hw ⟨ha.within_fflush hw ht _, ha.fflush _⟩

theorem fflush_ready (hr : Ready c h) (hk : K h.file) :
    Ends K (a.fflush p h) fun r => r.2 = h :=
  ends_unless hk (fflush_of_empty hr.buffer _)

theorem fflush_grown (hg : Grown c t h) (hw : h.file.Within sec t) :
    Ends (·.Within sec t) (a.fflush p h) fun r => r.2.file.Within sec t ∧
      ∃ y, Ready (c ++ y) r.2 := by
  obtain ⟨x, hx, ha | hr⟩ := hg
  · refine (a.fflush_ends ha hw hx).mono ?_
    rintro r ⟨hw', y, -, -, hr⟩
    exact ⟨hw', y, hr⟩
  · refine (a.fflush_ready hr hw).mono ?_
    rintro r heq
    rw [heq]
    exact ⟨hw, x, hr⟩

/-- Cutting back to `c` a file that has grown beyond it. -/
theorem cutBack_ends {y : List UInt8} (hr : Ready (c ++ y) h) (hw : h.file.Within sec t)
    (hc : sec.length ≤ c.length) :
    Ends (·.Within sec t) (a.cutBack p h c.length) fun r => r.2.file.Within sec t ∧
      Ready (if r.1 = true then c else c ++ y) r.2 := by
  have hle : c.length ≤ h.file.bytes.length := by simp [hr.bytes]
  unfold cutBack
  split
  · exact ends_pure ⟨hw, hr⟩
  refine ends_unless hw ?_
  rcases htr : a.truncate p
  · exact ⟨hw, hr⟩
  · refine ⟨hw.cut hc hle, ?_, hr.buffer⟩
    rw [show (h.ftruncate true c.length).2.file.bytes = h.file.bytes.take c.length from
      File.cut_bytes hle, hr.bytes, List.take_left]
    rfl

theorem syncToDisk_ends (hr : Ready c h) (hw : h.file.Within sec t) :
    Ends (·.Within sec t) (a.syncToDisk p h) fun r => Ready c r.2 ∧
      if r.1 = true then r.2.file.Within sec c ∧ r.2.file.Within c c
      else r.2.file.Within sec t := by
  refine ends_unless hw ?_
  rcases hs : a.sync p
  · exact ⟨hr, hw⟩
  · have hsync := hw.sync
    have hall := File.within_sync (f := h.file)
    rw [hr.bytes] at hsync hall
    exact ⟨⟨hr.bytes, hr.buffer⟩, hsync, hall⟩

/-- Seeking to the end of a stream that holds nothing back. -/
theorem seekToEnd_ready (hr : Ready c h) :
    a.seekToEnd p h = (none, h) ∨
      a.seekToEnd p h = (some c.length, { h with position := c.length }) := by
  rcases hs : a.seek p
  · exact Or.inl (by simp [seekToEnd, hs, Stream.seekEnd])
  · refine Or.inr ?_
    rw [seekToEnd, hs, seekEnd_of_empty hr.buffer, hr.bytes]

end Answers

namespace FileSink

variable {s : FileSink}

/-! ### Failing for good -/

/-- The sink has failed for good, and left the file at that. -/
def fallen (s : FileSink) (st : Status) (f : File) : FileSink :=
  { s with output := .closed (some f), failure := st }

theorem failHard_ends {K : File → Prop} (message : String) (hr : Ready c h) (hk : K h.file) :
    Ends K ((s.withStream h).failHard a message) fun r =>
      r.1.ok = false ∧ r.2 = s.fallen r.1 h.file := by
  refine Ends.bind (Q := fun s' => s' = { s with output := .closed (some h.file) }) ?_ ?_
  · refine Ends.bind (a.fflush_ready hr hk) ?_
    rintro ⟨b, h'⟩ heq
    obtain rfl : h' = h := heq
    exact ends_pure rfl
  · rintro s' rfl
    exact ends_pure ⟨rfl, rfl⟩

/-! ### Rolling back -/

/-- What a failed `write` ends with: the content it began with, or the end of the sink. -/
inductive Undone (s : FileSink) (sec c t : List UInt8) : Status × FileSink → Prop
  | back {st : Status} {h : Stream} (hst : st.ok = false) (hr : Ready c h)
      (hw : h.file.Within sec c) : Undone s sec c t (st, s.withStream h)
  | failed {st : Status} {f : File} (hst : st.ok = false) (hw : f.Within sec t) :
      Undone s sec c t (st, s.fallen st f)

theorem failHard_undone (message : String) {d : List UInt8} (hr : Ready d h)
    (hw : h.file.Within sec t) :
    Ends (·.Within sec t) ((s.withStream h).failHard a message) (Undone s sec c t) := by
  refine (failHard_ends message hr hw).mono ?_
  rintro ⟨st, s'⟩ ⟨hst, heq⟩
  obtain rfl : s' = s.fallen st h.file := heq
  exact .failed hst hw

/-- **A rollback restores the content or ends the sink.** -/
theorem rollBack_ends (message : String) (hg : Grown c t h) (hw : h.file.Within sec t)
    (hsec : sec <+: c) :
    Ends (·.Within sec t) (s.rollBack a h c.length message) (Undone s sec c t) := by
  have hc : c <+: t := by
    obtain ⟨x, hx, -⟩ := hg
    exact (List.prefix_append c x).trans hx
  refine Ends.bind (a.fflush_grown hg hw) ?_
  rintro ⟨b, h₁⟩ ⟨hw₁, y, hr₁⟩
  refine Ends.bind (a.cutBack_ends hr₁ hw₁ hsec.length_le) ?_
  rintro ⟨truncated, h₂⟩ ⟨hw₂, hr₂⟩
  cases truncated
  · exact failHard_undone _ hr₂ hw₂
  refine Ends.bind (a.syncToDisk_ends (show Ready c h₂ from hr₂) hw₂) ?_
  rintro ⟨synced, h₃⟩ ⟨hr₃, hw₃⟩
  cases synced
  · exact failHard_undone _ hr₃ hw₃
  obtain ⟨hw₃, -⟩ := hw₃
  dsimp only
  rcases a.seekToEnd_ready (p := .rollingBack) hr₃ with heq | heq
  · rw [heq]
    exact failHard_undone _ hr₃ (hw₃.mono hc)
  · rw [heq]
    exact ends_pure (.back rfl ⟨hr₃.bytes, hr₃.buffer⟩ hw₃)

/-! ### Writing -/

theorem writeEvents_ends {path : String} {i : Nat} {batch : List (List UInt8)}
    (ha : Appending c x h) (hw : h.file.Within sec t) (ht : c ++ (x ++ text newline batch) <+: t) :
    Ends (·.Within sec t) (writeEvents a path i batch h) fun r => r.2.file.Within sec t ∧
      ∃ y, c ++ y <+: t ∧ (r.1 = none → y = x ++ text newline batch) ∧ Appending c y r.2 := by
  induction batch generalizing i x h with
  | nil =>
    refine ends_pure ⟨hw, x, ?_, fun _ => ?_, ha⟩
    · simpa using ht
    · simp
  | cons json rest ih =>
    have hline : c ++ (x ++ (json ++ [newline])) <+: t := by
      refine List.IsPrefix.trans ?_ ht
      rw [text_cons, List.prefix_append_right_inj, List.prefix_append_right_inj]
      exact List.prefix_append _ _
    -- a part of the line is within what the whole batch would give
    have hpart : ∀ y, y <+: json ++ [newline] → c ++ (x ++ y) <+: t := by
      intro y hy
      refine List.IsPrefix.trans ?_ hline
      rwa [List.prefix_append_right_inj, List.prefix_append_right_inj]
    have hjson : ∀ y, y <+: json → y <+: json ++ [newline] := fun y hy =>
      hy.trans (List.prefix_append _ _)
    unfold writeEvents
    split
    · have htake := hjson _ <| List.take_prefix (json.length / 2 + 1) json
      refine Ends.bind (a.fwriteText_ends ha hw (hpart _ htake)) ?_
      rintro ⟨b, h₁⟩ ⟨hw₁, y, hy, -, ha₁⟩
      exact ends_pure ⟨hw₁, x ++ y, hpart y (hy.trans htake), nofun, ha₁⟩
    split
    · refine ends_pure ⟨hw, x, ?_, nofun, ha⟩
      have := hpart [] List.nil_prefix
      rwa [List.append_nil] at this
    refine Ends.bind (a.fwriteText_ends ha hw (hpart _ (hjson _ (List.prefix_refl _)))) ?_
    rintro ⟨taken, h₁⟩ ⟨hw₁, y, hy, hfull, ha₁⟩
    cases taken
    · exact ends_pure ⟨hw₁, x ++ y, hpart y (hjson y hy), nofun, ha₁⟩
    obtain rfl : y = json := hfull rfl
    have hend : c ++ (x ++ y ++ [newline]) <+: t := by rwa [List.append_assoc]
    refine Ends.bind (a.fwrite_ends ha₁ hw₁ hend) ?_
    rintro ⟨ended, h₂⟩ ⟨hw₂, z, hz, hfull, ha₂⟩
    cases ended
    · refine ends_pure ⟨hw₂, x ++ y ++ z, ?_, nofun, ha₂⟩
      refine List.IsPrefix.trans ?_ hend
      rwa [List.prefix_append_right_inj, List.prefix_append_right_inj]
    obtain rfl : z = [newline] := hfull rfl
    have hrest : c ++ (x ++ y ++ [newline] ++ text newline rest) <+: t := by
      simpa using ht
    refine (ih ha₂ hw₂ hrest).mono ?_
    rintro ⟨failed, h₃⟩ ⟨hw₃, z, hz, hall, ha₃⟩
    refine ⟨hw₃, z, hz, fun hf => ?_, ha₃⟩
    rw [hall hf]
    simp

/-- The flush and the sync: on success everything accepted is in the file, and on the disk if
the sink is durable. -/
theorem finish_ends (ha : Appending c x h) (hw : h.file.Within sec t) (ht : c ++ x <+: t) :
    Ends (·.Within sec t) (s.finish a h) fun r => r.2.file.Within sec t ∧
      match r.1 with
      | some _ => Grown c t r.2
      | none => Ready (c ++ x) r.2 ∧
          (s.durableSync = true → r.2.file.Within (c ++ x) (c ++ x)) := by
  unfold finish
  split
  · exact ends_pure ⟨hw, x, ht, .inl ha⟩
  refine Ends.bind (a.fflush_ends ha hw ht) ?_
  rintro ⟨flushed, h₁⟩ ⟨hw₁, y, hy, hall, hr₁⟩
  cases flushed
  · refine ends_pure ⟨hw₁, y, List.IsPrefix.trans ?_ ht, .inr hr₁⟩
    rwa [List.prefix_append_right_inj]
  obtain rfl : y = x := hall rfl
  dsimp only
  rw [if_neg (by simp)]
  split
  · rename_i hd
    exact ends_pure ⟨hw₁, hr₁, fun hd' => absurd (hd.symm.trans hd') (by simp)⟩
  split
  · exact ends_pure ⟨hw₁, y, ht, .inr hr₁⟩
  refine Ends.bind (a.syncToDisk_ends hr₁ hw₁) ?_
  rintro ⟨synced, h₂⟩ ⟨hr₂, hw₂⟩
  cases synced
  · exact ends_pure ⟨hw₂, y, ht, .inr hr₂⟩
  · exact ends_pure ⟨hw₂.1.mono ht, hr₂, fun _ => hw₂.2⟩

/-- What `write` can end with once the file is open. -/
inductive Outcome (s : FileSink) (sec c x : List UInt8) : Status × FileSink → Prop
  | written {h : Stream} (hr : Ready (c ++ x) h) (hw : h.file.Within sec (c ++ x))
      (hd : s.durableSync = true → h.file.Within (c ++ x) (c ++ x)) :
      Outcome s sec c x ({}, s.withStream h)
  | undone {r : Status × FileSink} (h : Undone s sec c (c ++ x) r) : Outcome s sec c x r

/-- **A batch is in the file as a whole or not at all.** -/
theorem writeOpened_ends {batch : List (List UInt8)} (hr : Ready c h) (hw : h.file.Within sec c) :
    Ends (·.Within sec (c ++ text newline batch)) (s.writeOpened a h batch)
      (Outcome s sec c (text newline batch)) := by
  have hlimit : c <+: c ++ text newline batch := List.prefix_append _ _
  have hundone : ∀ {h : Stream} {message : String}, Grown c (c ++ text newline batch) h →
      h.file.Within sec (c ++ text newline batch) →
      Ends (·.Within sec (c ++ text newline batch)) (s.rollBack a h c.length message)
        (Outcome s sec c (text newline batch)) := fun hg hw' =>
    (rollBack_ends _ hg hw' (hr.bytes ▸ hw.kept)).mono fun _ => .undone
  unfold writeOpened
  rcases a.seekToEnd_ready (p := .starting) hr with heq | heq
  · rw [heq]
    exact (failHard_undone _ hr (hw.mono hlimit)).mono fun _ => .undone
  rw [heq]
  have ha : Appending c [] { h with position := c.length } := .of_ready ⟨hr.bytes, hr.buffer⟩ rfl
  refine Ends.bind (writeEvents_ends ha (hw.mono hlimit) (List.prefix_refl _)) ?_
  rintro ⟨failed, h₁⟩ ⟨hw₁, y, hy, hall, ha₁⟩
  cases failed with
  | some message => exact hundone ⟨y, hy, .inl ha₁⟩ hw₁
  | none =>
    obtain rfl : y = text newline batch := hall rfl
    refine Ends.bind (finish_ends ha₁ hw₁ hy) ?_
    rintro ⟨failed, h₂⟩ ⟨hw₂, hend⟩
    cases failed with
    | some message => exact hundone hend hw₂
    | none => exact ends_pure (.written hend.1 hw₂ hend.2)

/-! ### Opening -/

/-- The file a sink finds, or its absence. -/
def Found (sec c : List UInt8) : Option File → Prop
  | none => c = [] ∧ sec = []
  | some f => f.bytes = c ∧ f.Within sec c

/-- What `ensure_open` can end with on a closed file. -/
inductive Opening (s : FileSink) (sec c : List UInt8) : Status × FileSink → Prop
  | refused {st : Status} (hst : st.ok = false) : Opening s sec c (st, s)
  | opened {h : Stream} (hr : Ready (complete newline c) h)
      (hw : h.file.Within sec (complete newline c)) : Opening s sec c ({}, s.withStream h)
  | failed {st : Status} {f : File} (hst : st.ok = false) (hw : f.Within sec c) :
      Opening s sec c (st, s.fallen st f)

theorem failHard_opening (message : String) {d : List UInt8} (hr : Ready d h)
    (hw : h.file.Within sec c) :
    Ends (·.Within sec c) ((s.withStream h).failHard a message) (Opening s sec c) := by
  refine (failHard_ends message hr hw).mono ?_
  rintro ⟨st, s'⟩ ⟨hst, heq⟩
  obtain rfl : s' = s.fallen st h.file := heq
  exact .failed hst hw

theorem cutTail_ends (hr : Ready c h) (hw : h.file.Within sec c) (hsec : Ended newline sec) :
    Ends (·.Within sec c) (cutTail a h (complete newline c).length) fun r =>
      if r.1 = true then Ready (complete newline c) r.2 ∧
        r.2.file.Within sec (complete newline c)
      else (∃ d, Ready d r.2) ∧ r.2.file.Within sec c := by
  obtain ⟨tail, htail⟩ : complete newline c <+: c := complete_isPrefix c
  have hlen : sec.length ≤ (complete newline c).length :=
    (isPrefix_complete (hr.bytes ▸ hw.kept) hsec).length_le
  refine Ends.bind (a.fflush_ready hr hw) ?_
  rintro ⟨b, h₁⟩ heq
  obtain rfl : h₁ = h := heq
  rw [← htail] at hr
  refine Ends.bind (a.cutBack_ends hr hw hlen) ?_
  rintro ⟨truncated, h₂⟩ ⟨hw₂, hr₂⟩
  cases truncated
  · exact ends_pure ⟨⟨_, hr₂⟩, hw₂⟩
  refine Ends.bind (a.syncToDisk_ends (show Ready (complete newline c) h₂ from hr₂) hw₂) ?_
  rintro ⟨synced, h₃⟩ ⟨hr₃, hw₃⟩
  cases synced
  · exact ends_pure ⟨⟨_, hr₃⟩, hw₃⟩
  obtain ⟨hw₃, -⟩ := hw₃
  dsimp only
  rcases a.seekToEnd_ready (p := .repairing) hr₃ with heq | heq
  · rw [heq]
    exact ends_pure ⟨⟨_, hr₃⟩, hw₃.mono (complete_isPrefix c)⟩
  · rw [heq]
    exact ends_pure ⟨⟨hr₃.bytes, hr₃.buffer⟩, hw₃⟩

/-- **Opening a file leaves its complete lines.** -/
theorem repairTail_ends (hr : Ready c h) (hw : h.file.Within sec c) (hsec : Ended newline sec) :
    Ends (·.Within sec c) (s.repairTail a h) (Opening s sec c) := by
  unfold repairTail
  rcases a.seekToEnd_ready (p := .sizing) hr with heq | heq
  · rw [heq]
    exact failHard_opening _ hr hw
  rw [heq]
  have hr₁ : Ready c { h with position := c.length } := ⟨hr.bytes, hr.buffer⟩
  have hw₁ : ({ h with position := c.length } : Stream).file.Within sec c := hw
  generalize ({ h with position := c.length } : Stream) = h₁ at hr₁ hw₁
  dsimp only
  split
  · rename_i hzero
    obtain rfl : c = [] := List.eq_nil_of_length_eq_zero hzero
    exact ends_pure (.opened hr₁ hw₁)
  obtain ⟨hfile, hbuffer, hscan⟩ := scanBlocks_spec (a := a) c.length 0 c.length hr₁.buffer
  rcases hfound : findLastCompleteLineEnd a c.length h₁ with ⟨found, h₂⟩
  rw [show scanBlocks a c.length 0 c.length h₁ = (found, h₂) from hfound] at hfile hbuffer hscan
  have hr₂ : Ready c h₂ := ⟨by rw [show h₂.file = h₁.file from hfile, hr₁.bytes], hbuffer⟩
  have hw₂ : h₂.file.Within sec c := by rwa [show h₂.file = h₁.file from hfile]
  cases found with
  | none => exact failHard_opening _ hr₂ hw₂
  | some goodEnd =>
    obtain rfl : goodEnd = (complete newline c).length := by
      have := hscan goodEnd rfl
      rwa [hr₁.bytes, List.take_length] at this
    dsimp only
    split
    · rename_i hall
      have hc : complete newline c = c := (complete_isPrefix c).eq_of_length hall
      rcases a.seekToEnd_ready (p := .repairing) hr₂ with heq | heq
      · rw [heq]
        exact failHard_opening _ hr₂ hw₂
      · rw [heq]
        refine ends_pure (.opened ?_ ?_)
        · rw [hc]
          exact ⟨hr₂.bytes, hr₂.buffer⟩
        · rwa [hc]
    · refine Ends.bind (cutTail_ends hr₂ hw₂ hsec) ?_
      rintro ⟨repaired, h₃⟩ hend
      cases repaired
      · obtain ⟨⟨d, hr₃⟩, hw₃⟩ := hend
        exact failHard_opening _ hr₃ hw₃
      · exact ends_pure (.opened hend.1 hend.2)

theorem openFile_found {file : Option File} (hf : Found sec c file) (ha : a.reopens = true)
    (hopen : a.openFile file = some h) : Ready c h ∧ h.file.Within sec c := by
  cases file with
  | none =>
    obtain ⟨rfl, rfl⟩ := hf
    simp only [Answers.openFile] at hopen
    split at hopen
    · obtain rfl := Option.some.inj hopen
      exact ⟨⟨rfl, rfl⟩, File.within_of_past rfl (List.prefix_refl _) (Nat.le_refl _)⟩
    · simp at hopen
  | some f =>
    simp only [Answers.openFile, ha] at hopen
    obtain rfl := Option.some.inj hopen
    exact ⟨⟨hf.1, rfl⟩, hf.2⟩

theorem ensureOpen_closed {file : Option File} (hs : s.failure.ok = true)
    (ho : s.output = .closed file) (hf : Found sec c file) (hsec : Ended newline sec)
    (ha : a.reopens = true) :
    Ends (·.Within sec c) (s.ensureOpen a) (Opening s sec c) := by
  unfold ensureOpen
  rw [if_neg (by simp [hs]), ho]
  dsimp only
  split
  · exact ends_pure (.refused rfl)
  rcases hopen : a.openFile file with _ | h
  · exact ends_pure (.refused rfl)
  · obtain ⟨hr, hw⟩ := openFile_found hf ha hopen
    exact repairTail_ends hr hw hsec

/-! ### Whole calls -/

/-- The sink is at work on a file with content `c`, of which every crash keeps `sec`. -/
def Holds (sec c : List UInt8) (s : FileSink) : Prop :=
  s.failure.ok = true ∧
    match s.output with
    | .closed file => Found sec c file
    | .opened h => Ready c h ∧ h.file.Within sec c ∧ Ended newline c

/-- What `write` leaves on the disk when it does not return, or fails for good: something of
the content it found, or of the complete lines of it and of the batch. -/
def Left (sec c x : List UInt8) (f : File) : Prop :=
  f.Within sec c ∨ f.Within sec (complete newline c ++ x)

/-- What `write` can end with. -/
inductive Wrote (s : FileSink) (sec c x : List UInt8) : Status × FileSink → Prop
  | refused {st : Status} (hst : st.ok = false) : Wrote s sec c x (st, s)
  | written {h : Stream} (hr : Ready (complete newline c ++ x) h)
      (hw : h.file.Within sec (complete newline c ++ x))
      (hd : s.durableSync = true →
        h.file.Within (complete newline c ++ x) (complete newline c ++ x)) :
      Wrote s sec c x ({}, s.withStream h)
  | undone {st : Status} {h : Stream} (hst : st.ok = false) (hr : Ready (complete newline c) h)
      (hw : h.file.Within sec (complete newline c)) : Wrote s sec c x (st, s.withStream h)
  | failed {st : Status} {f : File} (hst : st.ok = false) (hl : Left sec c x f) :
      Wrote s sec c x (st, s.fallen st f)

theorem Outcome.wrote {r : Status × FileSink} (h : Outcome s sec (complete newline c) x r) :
    Wrote s sec c x r := by
  cases h with
  | written hr hw hd => exact .written hr hw hd
  | undone h =>
    cases h with
    | back hst hr hw => exact .undone hst hr hw
    | failed hst hw => exact .failed hst (.inr hw)

/-- The stream a call begins with is replaced. -/
theorem Outcome.of_withStream {r : Status × FileSink} (ho : Outcome (s.withStream h) sec c x r) :
    Outcome s sec c x r := by
  cases ho with
  | written hr hw hd => exact .written hr hw hd
  | undone hu =>
    cases hu with
    | back hst hr hw => exact .undone (.back hst hr hw)
    | failed hst hw => exact .undone (.failed hst hw)

/-- **What a call of `write` does to the file.** -/
theorem write_ends {batch : List (List UInt8)} (hs : s.Holds sec c) (hsec : Ended newline sec)
    (ha : a.reopens = true) :
    Ends (Left sec c (text newline batch)) (s.write a batch)
      (Wrote s sec c (text newline batch)) := by
  unfold write
  split
  · exact ends_pure (.refused rfl)
  obtain ⟨hok, hout⟩ := hs
  rcases ho : s.output with file | h
  · rw [ho] at hout
    refine Ends.bind ((ensureOpen_closed hok ho hout hsec ha).weaken fun _ => .inl) ?_
    rintro ⟨ready, s'⟩ hopening
    cases hopening with
    | refused hst =>
      dsimp only
      rw [if_pos hst]
      exact ends_pure (.refused hst)
    | @opened h hr hw =>
      exact ((writeOpened_ends hr hw).weaken fun _ => .inr).mono fun _ hout =>
        hout.of_withStream.wrote
    | failed hst hw =>
      dsimp only
      rw [if_pos hst]
      exact ends_pure (.failed hst (.inl hw))
  · rw [ho] at hout
    obtain ⟨hr, hw, he⟩ := hout
    rw [← complete_eq he] at hr hw
    refine Ends.bind (Q := fun r => r = ({}, s)) ?_ ?_
    · unfold ensureOpen
      rw [if_neg (by simp [hok]), ho]
      exact ends_pure rfl
    · rintro ⟨ready, s'⟩ heq
      obtain ⟨rfl, rfl⟩ := Prod.mk.inj heq
      dsimp only
      rw [if_neg (by simp), ho]
      exact ((writeOpened_ends hr hw).weaken fun _ => .inr).mono fun _ => Outcome.wrote

theorem finish_ready (hr : Ready c h) (hw : h.file.Within sec c) :
    Ends (·.Within sec c) (s.finish a h) fun r => Ready c r.2 ∧ r.2.file.Within sec c := by
  unfold finish
  split
  · exact ends_pure ⟨hr, hw⟩
  refine Ends.bind (a.fflush_ready hr hw) ?_
  rintro ⟨flushed, h₁⟩ heq
  obtain rfl : h₁ = h := heq
  dsimp only
  split
  · exact ends_pure ⟨hr, hw⟩
  split
  · exact ends_pure ⟨hr, hw⟩
  split
  · exact ends_pure ⟨hr, hw⟩
  refine Ends.bind (a.syncToDisk_ends hr hw) ?_
  rintro ⟨synced, h₂⟩ ⟨hr₂, hw₂⟩
  cases synced
  · exact ends_pure ⟨hr₂, hw₂⟩
  · exact ends_pure ⟨hr₂, hw₂.1⟩

/-- `flush` changes nothing. -/
theorem flushNow_ends (hs : s.Holds sec c) :
    Ends (·.Within sec c) (s.flushNow a) fun r => r.2 = s ∨
      ∃ h h', s.output = .opened h ∧ r.2 = s.withStream h' ∧ Ready c h' ∧ h'.file.Within sec c := by
  obtain ⟨hok, hout⟩ := hs
  unfold flushNow
  rw [if_neg (by simp [hok])]
  rcases ho : s.output with file | h
  · exact ends_pure (.inl rfl)
  · rw [ho] at hout
    refine Ends.bind (finish_ready hout.1 hout.2.1) ?_
    rintro ⟨failed, h'⟩ ⟨hr, hw⟩
    cases failed <;> exact ends_pure (.inr ⟨h, h', rfl, rfl, hr, hw⟩)

/-- Once it has failed, a sink refuses everything. -/
theorem write_of_failed {batch : List (List UInt8)} (hs : s.failure.ok = false) :
    ∃ st : Status, st.ok = false ∧ s.write a batch = pure (st, s) := by
  unfold write
  split
  · exact ⟨_, rfl, rfl⟩
  · refine ⟨s.failure, hs, ?_⟩
    unfold ensureOpen
    rw [if_pos hs]
    exact if_pos hs

theorem flushNow_of_failed (hs : s.failure.ok = false) : s.flushNow a = pure (s.failure, s) :=
  if_pos hs

end FileSink

end PlayerTrace
