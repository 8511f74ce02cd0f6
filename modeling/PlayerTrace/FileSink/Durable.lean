import PlayerTrace.FileSink.Spec

/-!
# What a durable sink keeps

The state of a durable sink and of its file, as far as crashes are concerned
(`PlayerTrace.FileSink.Filed`): there is a sequence of complete lines that every crash
keeps, and beyond it the file has nothing but lines, and at most a part of one, of texts
that were given to the sink. A call keeps this, and an acknowledged batch becomes part of
what is kept (`PlayerTrace.FileSink.Filed.write`); so does a kill at any point of a call.

All this needs texts without a newline, for then a line that is complete is the whole of a
text, wherever the file was cut.
-/

namespace PlayerTrace

namespace FileSink

open Stdio Stream Lines

variable {s s' : FileSink} {a : Answers} {c x sec t : List UInt8}
  {texts ps batch : List (List UInt8)} {st : Status} {f : File} {k n : Nat}

/-- Something of given lines. -/
def Spelt (texts : List (List UInt8)) (t : List UInt8) : Prop :=
  ∃ ps, (∀ p ∈ ps, p ∈ texts) ∧ t <+: text newline ps

theorem Spelt.of_isPrefix (h : Spelt texts t) (hc : c <+: t) : Spelt texts c := by
  obtain ⟨ps, hps, ht⟩ := h
  exact ⟨ps, hps, hc.trans ht⟩

theorem Spelt.mono {texts' : List (List UInt8)} (h : Spelt texts t) (hsub : texts ⊆ texts') :
    Spelt texts' t := by
  obtain ⟨ps, hps, ht⟩ := h
  exact ⟨ps, fun p hp => hsub (hps p hp), ht⟩

section Free

variable (hfree : ∀ p ∈ texts, newline ∉ p)

include hfree

/-- Its complete lines are whole texts. -/
theorem Spelt.complete (h : Spelt texts t) :
    ∃ ps, (∀ p ∈ ps, p ∈ texts) ∧ Lines.complete newline t = text newline ps := by
  obtain ⟨ps, hps, ht⟩ := h
  obtain ⟨k, hk⟩ := exists_text_of_isPrefix (fun p hp => hfree p (hps p hp))
    ((complete_isPrefix t).trans ht) (complete_ended t)
  exact ⟨ps.take k, fun p hp => hps p (List.mem_of_mem_take hp), hk⟩

/-- The complete lines and a batch after them. -/
theorem Spelt.append (h : Spelt texts t) (hbatch : ∀ p ∈ batch, p ∈ texts) :
    Spelt texts (Lines.complete newline t ++ text newline batch) := by
  obtain ⟨ps, hps, heq⟩ := h.complete hfree
  refine ⟨ps ++ batch, fun p hp => ?_, ?_⟩
  · exact (List.mem_append.mp hp).elim (hps p) (hbatch p)
  · rw [heq]
    exact text_append.symm ▸ List.prefix_refl _

end Free

/-- The file, or its absence, as every crash leaves it. -/
def Backed (sec t : List UInt8) : Option File → Prop
  | none => sec = []
  | some f => f.Within sec t

/-- **The state of a durable sink**: `sec` is what every crash keeps. -/
structure Filed (texts : List (List UInt8)) (sec : List UInt8) (s : FileSink) : Prop where
  durable : s.durableSync = true
  ended : Ended newline sec
  file : ∃ t, Spelt texts t ∧ Backed sec t s.output.file ∧ (s.failure.ok = true → s.Holds sec t)

theorem Filed.mono {texts' : List (List UInt8)} (h : Filed texts sec s) (hsub : texts ⊆ texts') :
    Filed texts' sec s := by
  obtain ⟨t, ht, hrest⟩ := h.file
  exact ⟨h.durable, h.ended, t, ht.mono hsub, hrest⟩

theorem Found.backed {file : Option File} (h : Found sec c file) : Backed sec c file := by
  cases file with
  | none => exact h.2
  | some f => exact h.2

theorem Holds.backed (h : s.Holds sec c) : Backed sec c s.output.file := by
  obtain ⟨-, h⟩ := h
  rcases ho : s.output with file | stream
  · rw [ho] at h
    exact h.backed
  · rw [ho] at h
    exact h.2.1

/-- A sink at work. -/
theorem Filed.of_holds (hd : s.durableSync = true) (he : Ended newline sec) (ht : Spelt texts t)
    (h : s.Holds sec t) : Filed texts sec s :=
  ⟨hd, he, t, ht, h.backed, fun _ => h⟩

/-- A sink that has failed. -/
theorem Filed.of_fallen (hd : s.durableSync = true) (he : Ended newline sec) (ht : Spelt texts t)
    (hst : st.ok = false) (h : f.Within sec t) : Filed texts sec (s.fallen st f) :=
  ⟨hd, he, t, ht, h, fun hok => absurd (hst.symm.trans hok) Bool.false_ne_true⟩

/-- A line that is kept is in the file. -/
theorem Filed.isLine {l : List UInt8} (h : Filed texts sec s) (hl : IsLine newline l sec) :
    IsLine newline l s.content := by
  obtain ⟨t, -, hb, -⟩ := h.file
  unfold content
  rcases hfile : s.output.file with _ | f
  · rw [hfile] at hb
    exact hb ▸ hl
  · rw [hfile] at hb
    exact hl.of_isPrefix hb.kept

/-! ### Kills and new beginnings -/

/-- What a killed process leaves. -/
theorem Backed.survive {file : Option File} (h : Backed sec t file) (ht : Spelt texts t) :
    ∃ c, Spelt texts c ∧ Found sec c (file.map (·.survive k n)) := by
  cases file with
  | none =>
    obtain rfl : sec = [] := h
    exact ⟨[], ht.of_isPrefix List.nil_prefix, rfl, rfl⟩
  | some f =>
    obtain ⟨hw, hle⟩ := File.Within.survive (k := k) (n := n) h
    exact ⟨(f.survive k n).bytes, ht.of_isPrefix hle, rfl, hw⟩

/-- A new sink over what it finds. -/
theorem Filed.create {path : String} {refused : Option String} {file : Option File}
    (he : Ended newline sec) (ht : Spelt texts c) (hf : Found sec c file) :
    Filed texts sec (create path true refused file) where
  durable := rfl
  ended := he
  file := ⟨c, ht, hf.backed, fun hok => ⟨hok, hf⟩⟩

/-! ### Calls -/

section Calls

variable (hfree : ∀ p ∈ texts, newline ∉ p) (ha : a.reopens = true)

include hfree ha

/-- **A call of `write`**: whatever is kept stays so, and an acknowledged batch is kept. -/
theorem Filed.write (h : Filed texts sec s) (hbatch : ∀ p ∈ batch, p ∈ texts)
    (hwrite : s.write a batch = .ok (st, s')) :
    ∃ sec', Filed texts sec' s' ∧ sec <+: sec' ∧
      (st.ok = true → ∀ p ∈ batch, IsLine newline p sec') := by
  obtain ⟨t, ht, -, hholds⟩ := h.file
  rcases hok : s.failure.ok
  · obtain ⟨st', hst', heq⟩ : ∃ st : Status, st.ok = false ∧ s.write a batch = pure (st, s) :=
      write_of_failed hok
    obtain ⟨rfl, rfl⟩ := Prod.mk.inj (Except.ok.inj (heq.symm.trans hwrite))
    exact ⟨sec, h, List.prefix_refl _, fun hst => absurd (hst'.symm.trans hst) Bool.false_ne_true⟩
  have hends : Wrote s sec t (text newline batch) (st, s') :=
    (write_ends (hholds hok) h.ended ha).ok hwrite
  cases hends with
  | refused hst =>
    exact ⟨sec, h, List.prefix_refl _, fun hst' => absurd (hst.symm.trans hst') Bool.false_ne_true⟩
  | @written stream hr hw hd =>
    -- the batch has been synced, so that all of the file is kept
    have hend : Ended newline (Lines.complete newline t ++ text newline batch) :=
      (complete_ended t).append (text_ended batch)
    refine ⟨Lines.complete newline t ++ text newline batch, .of_holds h.durable hend
      (ht.append hfree hbatch) ⟨hok, hr, hd h.durable, hend⟩, hr.bytes ▸ hw.kept, fun _ p hp => ?_⟩
    obtain ⟨ps, -, heq⟩ := ht.complete hfree
    rw [heq, ← text_append]
    exact isLine_text (List.mem_append_right _ hp) (hfree p (hbatch p hp))
  | undone hst hr hw =>
    refine ⟨sec, .of_holds h.durable h.ended (ht.of_isPrefix (complete_isPrefix t))
      ⟨hok, hr, hw, complete_ended t⟩, List.prefix_refl _, fun hst' => ?_⟩
    exact absurd (hst.symm.trans hst') Bool.false_ne_true
  | failed hst hl =>
    refine ⟨sec, ?_, List.prefix_refl _, fun hst' =>
      absurd (hst.symm.trans hst') Bool.false_ne_true⟩
    rcases hl with hl | hl
    · exact .of_fallen h.durable h.ended ht hst hl
    · exact .of_fallen h.durable h.ended (ht.append hfree hbatch) hst hl

/-- A kill inside `write`. -/
theorem Filed.write_killed (h : Filed texts sec s) (hbatch : ∀ p ∈ batch, p ∈ texts)
    (hw : s.write a batch = .error f) : ∃ t, Spelt texts t ∧ Backed sec t (some f) := by
  obtain ⟨t, ht, -, hholds⟩ := h.file
  rcases hok : s.failure.ok
  · obtain ⟨st', -, heq⟩ : ∃ st : Status, st.ok = false ∧ s.write a batch = pure (st, s) :=
      write_of_failed hok
    exact absurd (heq.symm.trans hw) nofun
  · have hleft : Left sec t (text newline batch) f :=
      (write_ends (hholds hok) h.ended ha).error hw
    rcases hleft with hl | hl
    · exact ⟨t, ht, hl⟩
    · exact ⟨_, ht.append hfree hbatch, hl⟩

/-- **After a successful open the file consists of whole texts.** -/
theorem Filed.ensureOpen (h : Filed texts sec s) (hopen : s.ensureOpen a = .ok (st, s'))
    (hst : st.ok = true) :
    ∃ ps, (∀ p ∈ ps, p ∈ texts) ∧
      s'.content = text newline ps := by
  obtain ⟨t, ht, -, hholds⟩ := h.file
  rcases hok : s.failure.ok
  · unfold FileSink.ensureOpen at hopen
    rw [if_pos hok] at hopen
    obtain ⟨rfl, -⟩ := Prod.mk.inj (Except.ok.inj hopen)
    exact absurd (hok.symm.trans hst) Bool.false_ne_true
  obtain ⟨ps, hps, heq⟩ := ht.complete hfree
  refine ⟨ps, hps, ?_⟩
  rw [← heq]
  have hh := (hholds hok).2
  rcases ho : s.output with file | stream
  · rw [ho] at hh
    have hends := (ensureOpen_closed hok ho hh h.ended ha).ok hopen
    cases hends with
    | refused hst' => exact absurd (hst'.symm.trans hst) Bool.false_ne_true
    | opened hr hw => exact hr.bytes
    | failed hst' hw => exact absurd (hst'.symm.trans hst) Bool.false_ne_true
  · rw [ho] at hh
    unfold FileSink.ensureOpen at hopen
    rw [if_neg (by simp [hok]), ho] at hopen
    obtain ⟨-, rfl⟩ := Prod.mk.inj (Except.ok.inj hopen)
    rw [content, ho, complete_eq hh.2.2]
    exact hh.1.bytes

end Calls

/-- `flush` changes nothing. -/
theorem Filed.flush (h : Filed texts sec s) (hflush : s.flushNow a = .ok (st, s')) :
    Filed texts sec s' := by
  obtain ⟨t, ht, -, hholds⟩ := h.file
  rcases hok : s.failure.ok
  · obtain ⟨-, rfl⟩ := Prod.mk.inj (Except.ok.inj ((flushNow_of_failed hok).symm.trans hflush))
    exact h
  · have hh := hholds hok
    rcases (flushNow_ends hh).ok hflush with heq | ⟨stream, stream', ho, heq, hr, hw⟩
    · exact (show s' = s from heq) ▸ h
    · obtain rfl : s' = s.withStream stream' := heq
      have hend := hh.2
      rw [ho] at hend
      exact .of_holds h.durable h.ended ht ⟨hok, hr, hw, hend.2.2⟩

theorem Filed.flush_killed (h : Filed texts sec s) (hflush : s.flushNow a = .error f) :
    ∃ t, Spelt texts t ∧ Backed sec t (some f) := by
  obtain ⟨t, ht, -, hholds⟩ := h.file
  rcases hok : s.failure.ok
  · exact absurd ((flushNow_of_failed hok).symm.trans hflush) nofun
  · exact ⟨t, ht, (flushNow_ends (hholds hok)).error hflush⟩

theorem Filed.requestCancel (h : Filed texts sec s) : Filed texts sec s.requestCancel :=
  ⟨h.durable, h.ended, h.file⟩

end FileSink

end PlayerTrace
