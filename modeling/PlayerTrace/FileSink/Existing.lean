import PlayerTrace.FileSink.Output

/-!
# Lines that are in the file before a call

Once a file is open, a sink only touches what lies beyond the end it found: it writes at the
end, it cuts back to where a write began, and opening cuts off an incomplete last line. So
whatever holds of the file because of its first bytes keeps holding
(`PlayerTrace.FileSink.Robust`), through every failure and every rollback, and whether or not
the sink fails for good.

Opening the file is another matter. `ensure_open` first tries the mode `r+b` and, when that
fails, takes it that there is no file and tries `w+b`, which empties a file that is there
after all. Any other reason for the first failure therefore destroys everything that was in
the file, and `PlayerTrace.FileSink.write_spares_iff` says that nothing else does.
-/

namespace PlayerTrace

namespace FileSink

open Stdio Stream Lines

variable {W : File → Prop} {N : Prop} {C : Nat → Prop} {a : Answers} {h : Stream} {p : Place}
  {s s' : FileSink} {batch : List (List UInt8)} {c : List UInt8}

/-! ### What only depends on the first bytes -/

/-- A property of files that neither a sync nor cutting the file at an offset of `C` breaks;
the end of the file is one of these. -/
structure Robust (W : File → Prop) (C : Nat → Prop) : Prop where
  length : ∀ f, W f → C f.bytes.length
  cut : ∀ f n, C n → W f → W (f.cut n)
  sync : ∀ f, W f → W f.sync

/-- Nor does writing at such an offset, and what is behind one is one. -/
structure Settled (W : File → Prop) (C : Nat → Prop) : Prop where
  put : ∀ f pos d, C pos → W f → W (f.put pos d)
  behind : ∀ n k, C n → C (n + k)

theorem isPrefix_revise {f : File} {d : List UInt8} {n : Nat} {hn : n ≤ f.synced}
    {heq : d.take n = f.bytes.take n} (hd : d.take c.length = f.bytes.take c.length)
    (hc : c <+: f.bytes) : c <+: (f.revise d n hn heq).bytes := by
  have hpre : c <+: f.bytes.take c.length := List.prefix_take_iff.mpr ⟨hc, Nat.le_refl _⟩
  rw [← hd] at hpre
  exact hpre.trans <| List.take_prefix _ _

/-- To begin with `c` is such a property. -/
theorem robust_isPrefix (c : List UInt8) :
    Robust (fun f => c <+: f.bytes) fun n => c.length ≤ n where
  length _ hf := hf.length_le
  cut _ _ hn hf := isPrefix_revise (take_resize hf.length_le hn) hf
  sync _ hf := hf

theorem settled_isPrefix (c : List UInt8) :
    Settled (fun f => c <+: f.bytes) fun n => c.length ≤ n where
  put f pos d hpos hf := by
    unfold File.put
    split
    · exact hf
    · exact isPrefix_revise (take_overwrite hf.length_le hpos) hf
  behind _ _ hn := Nat.le_add_right_of_le hn

/-- To be empty is another one, but for writing. -/
theorem robust_empty : Robust (fun f => f.bytes = []) fun n => n = 0 where
  length _ hf := by rw [hf]; rfl
  cut f n hn hf := by
    rw [hn]
    exact (File.cut_bytes (Nat.zero_le _)).trans List.take_zero
  sync _ hf := hf

/-! ### Streams -/

/-- A stream that holds nothing back, or will put it where it does no harm. -/
def Beyond (W : File → Prop) (C : Nat → Prop) (h : Stream) : Prop :=
  W h.file ∧ (h.buffer = [] ∨ (C h.position ∧ Settled W C))

theorem Beyond.push (hb : Beyond W C h) (n : Nat) : Beyond W C (h.push n) := by
  obtain ⟨hw, hempty | ⟨hpos, hset⟩⟩ := hb
  · rw [push_of_empty hempty]
    exact ⟨hw, Or.inl hempty⟩
  · exact ⟨hset.put _ _ _ hpos hw, Or.inr ⟨hset.behind _ _ hpos, hset⟩⟩

theorem Beyond.fwrite {data : List UInt8} (hw : W h.file) (hpos : C h.position)
    (hset : Settled W C) :
    Ends W (a.fwrite p h data) fun r => W r.2.file ∧ C r.2.position :=
  ends_unless hw ⟨hset.put _ _ _ hpos hw, hset.behind _ _ hpos⟩

theorem Beyond.fwriteText {data : List UInt8} (hw : W h.file) (hpos : C h.position)
    (hset : Settled W C) :
    Ends W (a.fwriteText p h data) fun r => W r.2.file ∧ C r.2.position := by
  unfold Answers.fwriteText
  split
  · exact ends_pure ⟨hw, hpos⟩
  · exact Beyond.fwrite hw hpos hset

theorem Beyond.fflush (hb : Beyond W C h) :
    Ends W (a.fflush p h) fun r => W r.2.file ∧ r.2.buffer = [] := by
  refine ends_unless hb.1 ?_
  rcases a.flush p with _ | n
  · exact ⟨(hb.push _).1, List.drop_length⟩
  · exact ⟨(hb.push n).1, rfl⟩

section Robust

variable (hW : Robust W C)

include hW

theorem cutBack_robust {n : Nat} (hn : C n) (hw : W h.file) :
    Ends W (a.cutBack p h n) fun r => W r.2.file ∧ r.2.buffer = h.buffer := by
  unfold Answers.cutBack
  split
  · exact ends_pure ⟨hw, rfl⟩
  refine ends_unless hw ?_
  rcases a.truncate p
  · exact ⟨hw, rfl⟩
  · exact ⟨hW.cut _ _ hn hw, rfl⟩

theorem syncToDisk_robust (hw : W h.file) :
    Ends W (a.syncToDisk p h) fun r => W r.2.file ∧ r.2.buffer = h.buffer := by
  refine ends_unless hw ?_
  rcases a.sync p
  · exact ⟨hw, rfl⟩
  · exact ⟨hW.sync _ hw, rfl⟩

end Robust

/-! ### Calls -/

/-- What a call ends with: the file has the property still, and nothing is held back. That
there is no file has to be allowed by `N`. -/
structure Landed (W : File → Prop) (N : Prop) (s : FileSink) : Prop where
  file : ∀ f, s.output.file = some f → W f
  none : s.output.file = none → N
  buffer : ∀ h, s.output = .opened h → h.buffer = []

theorem landed_withStream (hw : W h.file) (hb : h.buffer = []) : Landed W N (s.withStream h) where
  file _ hf := Option.some.inj hf ▸ hw
  none := nofun
  buffer _ ho := Output.opened.inj ho ▸ hb

theorem failHard_landed {message : String} (hw : W h.file) (hb : h.buffer = []) :
    Ends W ((s.withStream h).failHard a message) fun r => Landed W N r.2 := by
  have hr : Ready h.file.bytes h := ⟨rfl, hb⟩
  refine (failHard_ends message hr hw).mono ?_
  rintro ⟨st, s'⟩ ⟨-, heq⟩
  obtain rfl : s' = s.fallen st h.file := heq
  exact ⟨fun f hf => Option.some.inj hf ▸ hw, nofun, nofun⟩

/-- Seeking to the end of a stream that holds nothing back. -/
theorem seekToEnd_cases (hb : h.buffer = []) :
    a.seekToEnd p h = (none, h) ∨ a.seekToEnd p h =
      (some h.file.bytes.length, { h with position := h.file.bytes.length }) :=
  a.seekToEnd_ready (c := h.file.bytes) ⟨rfl, hb⟩

/-- A call of `write` opens the file. -/
def Opens (s : FileSink) (a : Answers) (h : Stream) : Prop :=
  s.cancelled = false ∧ s.failure.ok = true ∧ a.fault .open .opening = false ∧
    ∃ file, s.output = .closed file ∧ a.openFile file = some h

theorem openFile_buffer {file : Option File} (hopen : a.openFile file = some h) :
    h.buffer = [] := by
  unfold Answers.openFile at hopen
  split at hopen
  · exact Option.some.inj hopen ▸ rfl
  all_goals
    split at hopen
    · exact Option.some.inj hopen ▸ rfl
    · exact absurd hopen.symm (Option.some_ne_none h)

theorem ensureOpen_of_not_opens (ho : ∀ h, ¬Opens s a h) (hcancel : s.cancelled = false) :
    ∃ st, s.ensureOpen a = pure (st, s) := by
  rcases hok : s.failure.ok
  · exact ⟨_, if_pos hok⟩
  rcases hout : s.output with file | h
  · rcases hfault : a.fault .open .opening
    · rcases hopen : a.openFile file with _ | h
      · exact ⟨_, by simp [ensureOpen, hok, hout, hfault, hopen]; rfl⟩
      · exact absurd ⟨hcancel, hok, hfault, file, hout, hopen⟩ (ho h)
    · exact ⟨_, by simp [ensureOpen, hok, hout, hfault]; rfl⟩
  · exact ⟨_, by simp [ensureOpen, hok, hout]; rfl⟩

section Robust

variable (hW : Robust W C)

include hW

theorem rollBack_landed {message : String} {n : Nat} (hn : C n) (hb : Beyond W C h) :
    Ends W (s.rollBack a h n message) fun r => Landed W N r.2 := by
  refine Ends.bind hb.fflush ?_
  rintro ⟨b, h₁⟩ ⟨hw₁, hb₁⟩
  refine Ends.bind (cutBack_robust hW hn hw₁) ?_
  rintro ⟨truncated, h₂⟩ ⟨hw₂, hsame₂⟩
  have hb₂ : h₂.buffer = [] := hsame₂.trans hb₁
  cases truncated
  · exact failHard_landed hw₂ hb₂
  refine Ends.bind (syncToDisk_robust hW hw₂) ?_
  rintro ⟨synced, h₃⟩ ⟨hw₃, hsame₃⟩
  have hb₃ : h₃.buffer = [] := hsame₃.trans hb₂
  cases synced
  · exact failHard_landed hw₃ hb₃
  dsimp only
  rcases seekToEnd_cases (a := a) (p := .rollingBack) hb₃ with heq | heq <;> rw [heq]
  · exact failHard_landed hw₃ hb₃
  · exact ends_pure (landed_withStream hw₃ hb₃)

theorem finish_beyond (hb : Beyond W C h) :
    Ends W (s.finish a h) fun r => Beyond W C r.2 ∧
      (r.1 = none ∨ h.buffer = [] → r.2.buffer = []) := by
  unfold finish
  split
  · exact ends_pure ⟨hb, fun hor => hor.resolve_left nofun⟩
  refine Ends.bind hb.fflush ?_
  rintro ⟨flushed, h₁⟩ ⟨hw₁, hb₁⟩
  dsimp only
  split
  · exact ends_pure ⟨⟨hw₁, .inl hb₁⟩, fun _ => hb₁⟩
  split
  · exact ends_pure ⟨⟨hw₁, .inl hb₁⟩, fun _ => hb₁⟩
  split
  · exact ends_pure ⟨⟨hw₁, .inl hb₁⟩, fun _ => hb₁⟩
  refine Ends.bind (syncToDisk_robust hW hw₁) ?_
  rintro ⟨synced, h₂⟩ ⟨hw₂, hb₂⟩
  have hb₂ : h₂.buffer = [] := hb₂.trans hb₁
  dsimp only
  split
  · exact ends_pure ⟨⟨hw₂, .inl hb₂⟩, fun _ => hb₂⟩
  · exact ends_pure ⟨⟨hw₂, .inl hb₂⟩, fun _ => hb₂⟩

omit hW in
theorem writeEvents_settled {path : String} {i : Nat} (hset : Settled W C) (hw : W h.file)
    (hpos : C h.position) :
    Ends W (writeEvents a path i batch h) fun r => W r.2.file ∧ C r.2.position := by
  induction batch generalizing i h with
  | nil => exact ends_pure ⟨hw, hpos⟩
  | cons json rest ih =>
    unfold writeEvents
    split
    · refine Ends.bind (Beyond.fwriteText hw hpos hset) ?_
      rintro ⟨b, h₁⟩ hend
      exact ends_pure hend
    split
    · exact ends_pure ⟨hw, hpos⟩
    refine Ends.bind (Beyond.fwriteText hw hpos hset) ?_
    rintro ⟨taken, h₁⟩ ⟨hw₁, hpos₁⟩
    dsimp only
    split
    · exact ends_pure ⟨hw₁, hpos₁⟩
    refine Ends.bind (Beyond.fwrite hw₁ hpos₁ hset) ?_
    rintro ⟨ended, h₂⟩ ⟨hw₂, hpos₂⟩
    dsimp only
    split
    · exact ends_pure ⟨hw₂, hpos₂⟩
    · exact ih hw₂ hpos₂

theorem writeOpened_landed (hset : batch = [] ∨ Settled W C) (hw : W h.file)
    (hb : h.buffer = []) : Ends W (s.writeOpened a h batch) fun r => Landed W N r.2 := by
  unfold writeOpened
  rcases seekToEnd_cases (a := a) (p := .starting) hb with heq | heq <;> rw [heq]
  · exact failHard_landed hw hb
  have hstart : C h.file.bytes.length := hW.length _ hw
  refine Ends.bind (Q := fun r => Beyond W C r.2) ?_ ?_
  · rcases hset with rfl | hset
    · exact ends_pure ⟨hw, .inl hb⟩
    · refine (writeEvents_settled (h := { h with position := h.file.bytes.length })
        hset hw hstart).mono ?_
      rintro r ⟨hw₁, hpos₁⟩
      exact ⟨hw₁, .inr ⟨hpos₁, hset⟩⟩
  · rintro ⟨failed, h₁⟩ hb₁
    cases failed with
    | some message => exact rollBack_landed hW hstart hb₁
    | none =>
      refine Ends.bind (finish_beyond hW hb₁) ?_
      rintro ⟨failed, h₂⟩ ⟨hb₂, hempty⟩
      cases failed with
      | some message => exact rollBack_landed hW hstart hb₂
      | none => exact ends_pure (landed_withStream hb₂.1 (hempty (.inl rfl)))

theorem cutTail_robust {n : Nat} (hn : C n) (hw : W h.file) (hb : h.buffer = []) :
    Ends W (cutTail a h n) fun r => W r.2.file ∧ r.2.buffer = [] := by
  have hbeyond : Beyond W C h := ⟨hw, .inl hb⟩
  refine Ends.bind hbeyond.fflush ?_
  rintro ⟨b, h₁⟩ ⟨hw₁, hb₁⟩
  refine Ends.bind (cutBack_robust hW hn hw₁) ?_
  rintro ⟨truncated, h₂⟩ ⟨hw₂, hb₂⟩
  have hb₂ : h₂.buffer = [] := hb₂.trans hb₁
  dsimp only
  split
  · exact ends_pure ⟨hw₂, hb₂⟩
  refine Ends.bind (syncToDisk_robust hW hw₂) ?_
  rintro ⟨synced, h₃⟩ ⟨hw₃, hb₃⟩
  have hb₃ : h₃.buffer = [] := hb₃.trans hb₂
  dsimp only
  split
  · exact ends_pure ⟨hw₃, hb₃⟩
  rcases seekToEnd_cases (a := a) (p := .repairing) hb₃ with heq | heq <;> rw [heq]
  · exact ends_pure ⟨hw₃, hb₃⟩
  · exact ends_pure ⟨hw₃, hb₃⟩

/-- Opening a file may cut it at the end of its last complete line. -/
theorem repairTail_landed (hn : C (complete newline h.file.bytes).length) (hw : W h.file)
    (hb : h.buffer = []) : Ends W (s.repairTail a h) fun r => Landed W N r.2 := by
  unfold repairTail
  rcases seekToEnd_cases (a := a) (p := .sizing) hb with heq | heq <;> rw [heq]
  · exact failHard_landed hw hb
  dsimp only
  split
  · exact ends_pure (landed_withStream hw hb)
  have hb₁ : ({ h with position := h.file.bytes.length } : Stream).buffer = [] := hb
  obtain ⟨hfile, hbuffer, hscan⟩ := scanBlocks_spec (a := a) h.file.bytes.length 0
    h.file.bytes.length hb₁
  rcases hfound : findLastCompleteLineEnd a h.file.bytes.length
    { h with position := h.file.bytes.length } with ⟨found, h₂⟩
  rw [findLastCompleteLineEnd] at hfound
  rw [hfound] at hfile hbuffer hscan
  have hw₂ : W h₂.file := by rw [show h₂.file = h.file from hfile]; exact hw
  cases found with
  | none => exact failHard_landed hw₂ hbuffer
  | some goodEnd =>
    have hgood : C goodEnd := by
      have := hscan goodEnd rfl
      rw [List.take_length] at this
      rwa [this]
    dsimp only
    split
    · rcases seekToEnd_cases (a := a) (p := .repairing) (h := h₂) hbuffer with heq | heq <;>
        rw [heq]
      · exact failHard_landed hw₂ hbuffer
      · exact ends_pure (landed_withStream hw₂ hbuffer)
    · refine Ends.bind (cutTail_robust hW hgood hw₂ hbuffer) ?_
      rintro ⟨repaired, h₃⟩ ⟨hw₃, hb₃⟩
      dsimp only
      split
      · exact failHard_landed hw₃ hb₃
      · exact ends_pure (landed_withStream hw₃ hb₃)

/-- `write` goes on with what `ensure_open` leaves. -/
theorem write_of_ensureOpen (hset : batch = [] ∨ Settled W C)
    (hopen : Ends W (s.ensureOpen a) fun r => Landed W N r.2) (hcancel : s.cancelled = false) :
    Ends W (s.write a batch) fun r => Landed W N r.2 := by
  unfold write
  rw [if_neg (by simp [hcancel])]
  refine Ends.bind hopen ?_
  rintro ⟨ready, s₁⟩ hland
  dsimp only at hland ⊢
  split
  · exact ends_pure hland
  rcases hout : s₁.output with file | h₁
  · exact ends_pure hland
  · exact writeOpened_landed hW hset (hland.file _ (by rw [hout]; rfl)) (hland.buffer _ hout)

theorem write_of_opens (ho : Opens s a h) (hset : batch = [] ∨ Settled W C) (hw : W h.file)
    (hn : C (complete newline h.file.bytes).length) :
    Ends W (s.write a batch) fun r => Landed W N r.2 := by
  obtain ⟨hcancel, hok, hfault, file, hout, hopen⟩ := ho
  refine write_of_ensureOpen hW hset ?_ hcancel
  have hready : s.ensureOpen a = s.repairTail a h := by
    simp [ensureOpen, hok, hout, hfault, hopen]
  rw [hready]
  exact repairTail_landed hW hn hw (openFile_buffer hopen)

theorem write_of_not_opens (ho : ∀ h, ¬Opens s a h) (hset : batch = [] ∨ Settled W C)
    (hland : Landed W N s) : Ends W (s.write a batch) fun r => Landed W N r.2 := by
  rcases hcancel : s.cancelled
  · refine write_of_ensureOpen hW hset ?_ hcancel
    obtain ⟨st, heq⟩ := ensureOpen_of_not_opens ho hcancel
    rw [heq]
    exact ends_pure hland
  · unfold write
    rw [if_pos hcancel]
    exact ends_pure hland

theorem flushNow_landed (hland : Landed W N s) :
    Ends W (s.flushNow a) fun r => Landed W N r.2 := by
  unfold flushNow
  split
  · exact ends_pure hland
  rcases hout : s.output with file | h
  · exact ends_pure hland
  · have hw : W h.file := hland.file _ (by rw [hout]; rfl)
    have hb : h.buffer = [] := hland.buffer _ hout
    refine Ends.bind (finish_beyond hW (h := h) ⟨hw, .inl hb⟩) ?_
    rintro ⟨failed, h₁⟩ ⟨hb₁, hempty⟩
    cases failed <;> exact ends_pure (landed_withStream hb₁.1 (hempty (.inr hb)))

end Robust

/-! ### Between calls -/

theorem robust_true : Robust (fun _ => True) fun _ => True := ⟨by simp, by simp, by simp⟩

theorem settled_true : Settled (fun _ => True) fun _ => True := ⟨by simp, by simp⟩

/-- Between two calls a stream holds nothing back. -/
theorem landed_of_reach (hs : machine.Reach s) : Landed (fun _ => True) True s := by
  refine hs.rule ?_ ?_
  · rintro s ⟨path, durableSync, refused, file, -, rfl⟩
    exact ⟨fun _ _ => trivial, fun _ => trivial, nofun⟩
  · rintro s ⟨call, a⟩ s' - hland h
    cases call with
    | write batch =>
      obtain ⟨st, hwrite⟩ := returned_of_step h
      by_cases ho : ∃ h, Opens s a h
      · obtain ⟨h, ho⟩ := ho
        exact (write_of_opens robust_true ho (.inr settled_true) trivial trivial).ok hwrite
      · exact (write_of_not_opens robust_true (not_exists.mp ho) (.inr settled_true) hland).ok
          hwrite
    | flush =>
      obtain ⟨st, hflush⟩ := returned_of_step h
      exact (flushNow_landed robust_true hland).ok hflush
    | requestCancel =>
      obtain rfl : s.requestCancel = s' := Option.some.inj h
      exact ⟨fun _ _ => trivial, fun _ => trivial, hland.buffer⟩

/-! ### Which calls destroy a line -/

/-- However `write` ends, the complete lines that were in the file are where they were. -/
def Spares (s : FileSink) (a : Answers) (batch : List (List UInt8)) : Prop :=
  Ends (fun f => complete newline s.content <+: f.bytes) (s.write a batch)
    fun r => complete newline s.content <+: r.2.content

/-- The call opens a file with a complete line in it, and the mode `r+b` fails on it while
`w+b` does not. -/
def Empties (s : FileSink) (a : Answers) : Prop :=
  s.cancelled = false ∧ s.failure.ok = true ∧ a.fault .open .opening = false ∧
    a.reopens = false ∧ a.creates = true ∧
    ∃ f, s.output = .closed (some f) ∧ complete newline f.bytes ≠ []

theorem Empties.opens (he : Empties s a) : ∃ h, Opens s a h ∧ h.file.bytes = [] := by
  obtain ⟨hcancel, hok, hfault, hreopens, hcreates, f, hout, -⟩ := he
  refine ⟨{ file := f.cut 0 }, ⟨hcancel, hok, hfault, some f, hout, ?_⟩, ?_⟩
  · simp [Answers.openFile, hreopens, hcreates]
  · exact (File.cut_bytes (Nat.zero_le _)).trans List.take_zero

theorem Empties.complete_ne (he : Empties s a) : complete newline s.content ≠ [] := by
  obtain ⟨-, -, -, -, -, f, hout, hne⟩ := he
  simpa [content, hout, Output.file] using hne

/-- What a file has that is opened. -/
theorem Opens.bytes (ho : Opens s a h) :
    h.file.bytes = s.content ∨ Empties s a ∨ complete newline s.content = [] := by
  obtain ⟨hcancel, hok, hfault, file, hout, hopen⟩ := ho
  rcases file with _ | f
  · right; right
    simp [content, hout, Output.file]
  rcases hreopens : a.reopens
  · rcases hcreates : a.creates
    · simp [Answers.openFile, hreopens, hcreates] at hopen
    · right
      by_cases hne : complete newline f.bytes = []
      · right
        simpa [content, hout, Output.file] using hne
      · exact .inl ⟨hcancel, hok, hfault, hreopens, hcreates, f, hout, hne⟩
  · left
    simp only [Answers.openFile, hreopens, Option.some.injEq] at hopen
    subst hopen
    simp [content, hout, Output.file]

theorem content_isPrefix {d : List UInt8} (hland : Landed (fun f => d <+: f.bytes) (d = []) s) :
    d <+: s.content := by
  rcases hf : s.output.file with _ | f
  · rw [hland.none hf]
    exact List.nil_prefix
  · simpa [content, hf] using hland.file f hf

theorem spares_of_not_empties (hs : machine.Reach s) (he : ¬Empties s a) : Spares s a batch := by
  have hset := settled_isPrefix (complete newline s.content)
  have hpre : complete newline s.content <+: s.content := complete_isPrefix _
  refine Ends.mono ?_ fun _ => content_isPrefix
  by_cases ho : ∃ h, Opens s a h
  · obtain ⟨h, ho⟩ := ho
    rcases ho.bytes with hbytes | hempty | hnil
    · refine write_of_opens (robust_isPrefix _) ho (.inr hset) ?_ ?_
      · rwa [hbytes]
      · rw [hbytes]
    · exact absurd hempty he
    · rw [hnil] at hset ⊢
      exact write_of_opens (robust_isPrefix _) ho (.inr hset) List.nil_prefix (Nat.zero_le _)
  · refine write_of_not_opens (robust_isPrefix _) (not_exists.mp ho) (.inr hset) ⟨?_, ?_, ?_⟩
    · intro f hf
      have hcontent : s.content = f.bytes := by simp [content, hf]
      rwa [hcontent] at hpre ⊢
    · intro hf
      simp [content, hf]
    · exact (landed_of_reach hs).buffer

theorem not_spares_of_empties (he : Empties s a) : ¬Spares s a [] := by
  intro hspares
  obtain ⟨h, ho, hempty⟩ := he.opens
  have hn : (complete newline h.file.bytes).length = 0 := by rw [hempty]; rfl
  have hends := write_of_opens (N := True) robust_empty ho (.inl rfl) hempty hn
  -- whatever the call comes to, nothing is left in the file
  rcases hwrite : s.write a [] with f | r
  · have hpre := hspares.error hwrite
    rw [hends.error hwrite] at hpre
    exact he.complete_ne (List.prefix_nil.mp hpre)
  · have hnil : r.2.content = [] := by
      rcases hf : r.2.output.file with _ | f
      · simp [content, hf]
      · simpa [content, hf] using (hends.ok hwrite).file f hf
    have hpre := hspares.ok hwrite
    rw [hnil] at hpre
    exact he.complete_ne (List.prefix_nil.mp hpre)

/-- **Which calls spare the complete lines.** With these answers of the operating system,
every `write` leaves the complete lines of the file where they are, unless it opens a file
that has such lines, the mode `r+b` fails and the mode `w+b` does not. -/
theorem write_spares_iff (hs : machine.Reach s) :
    (∀ batch, Spares s a batch) ↔ ¬Empties s a :=
  ⟨fun hspares he => not_spares_of_empties he (hspares []),
    fun he _ => spares_of_not_empties hs he⟩

/-- Over a file with a complete line: the batch is torn in the middle and the rollback fails,
so that the sink fails for good, and the line is there. -/
theorem write_spares_torn :
    ¬Empties sample { fault := fun o _ => o = .partialWrite ∨ o = .truncate } ∧
      Spares sample { fault := fun o _ => o = .partialWrite ∨ o = .truncate } [[97], [98]] := by
  have hspared : ¬Empties sample { fault := fun o _ => o = .partialWrite ∨ o = .truncate } := by
    simp [Empties]
  exact ⟨hspared, (write_spares_iff (.of_start sample_start)).mpr hspared _⟩

/-- `r+b` fails on a file with a complete line, for want of a file descriptor say, and `w+b`
does not: the batch is acknowledged, and the line that was in the file is gone. -/
theorem write_empties_existing :
    machine.Reach sample ∧
      ((sample.write { reopens := false } [[97]]).toOption.map fun r =>
        (r.1.ok, sample.content, r.2.content)) = some (true, [120, 10, 121], [97, 10]) ∧
      ¬Spares sample { reopens := false } [[97]] := by
  refine ⟨.of_start sample_start, by decide, ?_⟩
  intro hspares
  rcases hwrite : sample.write { reopens := false } [[97]] with f | r
  · have hok : (sample.write { reopens := false } [[97]]).toOption.isSome = true := by decide
    simp [hwrite, Except.toOption] at hok
  · have hcontent : ((sample.write { reopens := false } [[97]]).toOption.map fun r =>
        r.2.content) = some [97, 10] := by decide
    rw [hwrite] at hcontent
    have hpre := hspares.ok hwrite
    rw [show r.2.content = [97, 10] from Option.some.inj hcontent] at hpre
    exact absurd hpre (by decide)

end FileSink

end PlayerTrace
