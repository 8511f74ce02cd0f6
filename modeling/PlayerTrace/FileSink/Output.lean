import PlayerTrace.FileSink.Spec
import PlayerTrace.Lib.Machine

/-!
# The output of a `FileSink` is what it has acknowledged

A sink over a file, and any sequence of calls on it with any failures
(`PlayerTrace.FileSink.machine`). What is in the file is known after every call: nothing of
the sink before the file is open, then the complete lines the file had and the lines of the
batches whose `write` returned `Ok`, in order, and from a permanent failure on whatever it
was then.

The record of the acknowledged batches is kept beside the run
(`PlayerTrace.FileSink.acknowledged`), and one call extends both
(`PlayerTrace.FileSink.Tells.step`).
-/

namespace PlayerTrace

open Stdio Stream Lines

/-- A call on a sink. -/
inductive SinkCall
  | write (batch : List (List UInt8))
  | flush
  | requestCancel

namespace FileSink

/-- A call with the environment's answers to it; it has no end if the process is killed. -/
def step (s : FileSink) : SinkCall × Answers → Option FileSink
  | (.write batch, a) => (s.write a batch).toOption.map Prod.snd
  | (.flush, a) => (s.flushNow a).toOption.map Prod.snd
  | (.requestCancel, _) => some s.requestCancel

/-- The batch that a call acknowledges. -/
def acknowledged (s : FileSink) : SinkCall × Answers → List (List (List UInt8))
  | (.write batch, a) =>
    match s.write a batch with
    | .ok (st, _) => if st.ok = true then [batch] else []
    | .error _ => []
  | (.flush, _) | (.requestCancel, _) => []

/-- The calls on one sink, over a file with any content or none. -/
def machine : Lts.Machine FileSink (SinkCall × Answers) where
  start s := ∃ path durableSync refused file, (∀ f ∈ file, f.past = []) ∧
    s = create path durableSync refused file
  step := step

variable {s s' s₀ : FileSink} {acked : List (List (List UInt8))} {a : Answers}

theorem found_of_start (h₀ : machine.start s₀) :
    ∃ file, s₀.output = .closed file ∧ Found [] s₀.content file := by
  obtain ⟨path, durableSync, refused, file, hpast, rfl⟩ := h₀
  refine ⟨file, rfl, ?_⟩
  cases file with
  | none => exact ⟨rfl, rfl⟩
  | some f =>
    exact ⟨rfl, File.within_of_past (hpast f rfl) List.nil_prefix (Nat.zero_le _)⟩

/-- What the file should have once the sink has opened it. -/
def due (s₀ : FileSink) (acked : List (List (List UInt8))) : List UInt8 :=
  complete newline s₀.content ++ text newline acked.flatten

theorem due_ended : Ended newline (due s₀ acked) := (complete_ended _).append (text_ended _)

theorem due_append {batch : List (List UInt8)} :
    due s₀ (acked ++ [batch]) = due s₀ acked ++ text newline batch := by
  simp [due]

/-- The sink has not failed, and its file tells what it has acknowledged. -/
def Tells (s₀ s : FileSink) (acked : List (List (List UInt8))) : Prop :=
  (s.output = s₀.output ∧ acked = []) ∨
    ∃ h, s.output = .opened h ∧ Ready (due s₀ acked) h ∧ h.file.Within [] (due s₀ acked)

theorem Tells.holds (h₀ : machine.start s₀) (ht : Tells s₀ s acked) (hok : s.failure.ok = true) :
    ∃ c, s.Holds [] c ∧ complete newline c = due s₀ acked := by
  rcases ht with ⟨ho, rfl⟩ | ⟨h, ho, hr, hw⟩
  · obtain ⟨file, hfile, hfound⟩ := found_of_start h₀
    refine ⟨s₀.content, ⟨hok, ?_⟩, by simp [due]⟩
    rw [ho, hfile]
    exact hfound
  · refine ⟨due s₀ acked, ⟨hok, ?_⟩, complete_eq due_ended⟩
    rw [ho]
    exact ⟨hr, hw, due_ended⟩

theorem Tells.write {batch : List (List UInt8)} {st : Status} (h₀ : machine.start s₀)
    (ht : Tells s₀ s acked) (hok : s.failure.ok = true) (ha : a.reopens = true)
    (hwrite : s.write a batch = .ok (st, s')) (hok' : s'.failure.ok = true) :
    Tells s₀ s' (acked ++ if st.ok = true then [batch] else []) := by
  obtain ⟨c, hholds, hc⟩ := ht.holds h₀ hok
  have hends : Wrote s [] c (text newline batch) (st, s') :=
    (write_ends hholds ended_nil ha).ok hwrite
  cases hends with
  | refused hst => simpa [hst] using ht
  | written hr hw hd =>
    rw [hc, ← due_append] at hr hw
    exact .inr ⟨_, rfl, hr, hw⟩
  | undone hst hr hw =>
    rw [hc] at hr hw
    rw [if_neg (by simp [hst]), List.append_nil]
    exact .inr ⟨_, rfl, hr, hw⟩
  | failed hst hl => exact absurd (hst.symm.trans hok') Bool.false_ne_true

theorem Tells.flush {st : Status} (h₀ : machine.start s₀) (ht : Tells s₀ s acked)
    (hok : s.failure.ok = true) (hflush : s.flushNow a = .ok (st, s')) : Tells s₀ s' acked := by
  obtain ⟨c, hholds, hc⟩ := ht.holds h₀ hok
  rcases (flushNow_ends hholds).ok hflush with heq | ⟨h, h', ho, heq, hr, hw⟩
  · rwa [show s' = s from heq]
  · -- the file is open, so all of it is due
    have he : Ended newline c := by
      have := hholds.2
      rw [ho] at this
      exact this.2.2
    rw [← complete_eq he, hc] at hr hw
    exact .inr ⟨h', by rw [show s' = s.withStream h' from heq]; rfl, hr, hw⟩

theorem returned_of_step {x : Process (Status × FileSink)}
    (h : x.toOption.map Prod.snd = some s') : ∃ st, x = .ok (st, s') := by
  rcases x with f | ⟨st, s⟩
  · simp [Except.toOption] at h
  · exact ⟨st, by simpa [Except.toOption] using h⟩

/-- A sink that has failed stays as it is, but for being cancelled. -/
theorem output_of_failed {l : SinkCall × Answers} (hs : s.failure.ok = false)
    (h : machine.step s l = some s') : s'.failure.ok = false ∧ s'.output = s.output := by
  obtain ⟨call, a⟩ := l
  cases call with
  | write batch =>
    obtain ⟨st, hwrite⟩ := returned_of_step h
    obtain ⟨st', -, heq⟩ : ∃ st : Status, st.ok = false ∧ s.write a batch = pure (st, s) :=
      write_of_failed hs
    obtain ⟨-, rfl⟩ := Prod.mk.inj (Except.ok.inj (heq.symm.trans hwrite))
    exact ⟨hs, rfl⟩
  | flush =>
    obtain ⟨st, hflush⟩ := returned_of_step h
    obtain ⟨-, rfl⟩ := Prod.mk.inj (Except.ok.inj ((flushNow_of_failed hs).symm.trans hflush))
    exact ⟨hs, rfl⟩
  | requestCancel =>
    obtain rfl : s.requestCancel = s' := Option.some.inj h
    exact ⟨hs, rfl⟩

/-- **One call.** -/
theorem Tells.step {l : SinkCall × Answers} (h₀ : machine.start s₀)
    (ht : s.failure.ok = true → Tells s₀ s acked) (ha : l.2.reopens = true)
    (h : machine.step s l = some s') (hok' : s'.failure.ok = true) :
    Tells s₀ s' (acked ++ s.acknowledged l) := by
  rcases hok : s.failure.ok
  · exact absurd ((output_of_failed hok h).1.symm.trans hok') Bool.false_ne_true
  have ht := ht hok
  obtain ⟨call, a⟩ := l
  cases call with
  | write batch =>
    obtain ⟨st, hwrite⟩ := returned_of_step h
    rw [acknowledged, hwrite]
    exact ht.write h₀ hok ha hwrite hok'
  | flush =>
    obtain ⟨st, hflush⟩ := returned_of_step h
    rw [acknowledged, List.append_nil]
    exact ht.flush h₀ hok hflush
  | requestCancel =>
    obtain rfl : s.requestCancel = s' := Option.some.inj h
    rw [acknowledged, List.append_nil]
    exact ht

/-- **The output is what was acknowledged.** As long as the sink has not failed, the file is
untouched until it is opened, and then it has the complete lines it had at the beginning
and one line for each event of each batch whose `write` returned `Ok`, with nothing held
back; once the sink has failed, nothing changes the file. -/
theorem output_eq_acknowledged (h₀ : machine.start s₀)
    (h : (machine.observed acknowledged).RunIf (fun _ l => l.2.reopens = true) (s₀, [])
      (s, acked)) :
    (s.failure.ok = true →
      (∀ file, s.output = .closed file → s₀.output = .closed file ∧ acked = []) ∧
      ∀ h, s.output = .opened h → h.buffer = [] ∧
        h.file.bytes = complete newline s₀.content ++ text newline acked.flatten) ∧
    (s.failure.ok = false → ∀ s', machine.Run s s' → s'.output = s.output) := by
  have htells : s.failure.ok = true → Tells s₀ s acked :=
    Lts.Machine.Reach.observed_runIf_rule (M := machine)
      (P := fun s acked => s.failure.ok = true → Tells s₀ s acked) (.of_start h₀)
      (fun s acked l s' _ ht ha hs => Tells.step h₀ ht ha hs) h fun _ => .inl ⟨rfl, rfl⟩
  refine ⟨fun hok => ?_, fun hfail s' hrun => ?_⟩
  · rcases htells hok with ⟨ho, rfl⟩ | ⟨h, ho, hr, -⟩
    · obtain ⟨file, hfile, -⟩ := found_of_start h₀
      refine ⟨fun file' hf => ⟨ho ▸ hf, rfl⟩, fun h hh => ?_⟩
      simp [ho, hfile] at hh
    · refine ⟨fun file hf => by simp [ho] at hf, fun h' hh => ?_⟩
      obtain rfl : h = h' := Output.opened.inj (ho.symm.trans hh)
      exact ⟨hr.buffer, hr.bytes⟩
  · have key : s'.failure.ok = false ∧ s'.output = s.output :=
      hrun.rule (P := fun t => t.failure.ok = false ∧ t.output = s.output)
        (fun t l t' ht hstep => by
          obtain ⟨hf, ho⟩ := output_of_failed ht.1 hstep
          exact ⟨hf, ho.trans ht.2⟩) ⟨hfail, rfl⟩
    exact key.2

/-! ### A torn write between two good ones -/

/-- A sink over a file whose last line is incomplete. -/
def sample : FileSink := create "out" true none (some { bytes := [120, 10, 121] })

theorem sample_start : machine.start sample :=
  ⟨"out", true, none, some { bytes := [120, 10, 121] }, by simp, rfl⟩

/-- A batch of one event, or two; the second time the newline of the second event is not
taken. -/
def sampleCalls : List (SinkCall × Answers) :=
  [(.write [[97]], {}),
    (.write [[98], [99]], { write := fun p => if p = .newline 1 then ⟨some 0, 3⟩ else {} }),
    (.flush, {}), (.write [[98], [99]], {})]

theorem output_eq_acknowledged_sample :
    ∃ s, (machine.observed acknowledged).RunIf (fun _ l => l.2.reopens = true) (sample, [])
        (s, [[[97]], [[98], [99]]]) ∧
      (∀ h, s.output = .opened h → h.file.bytes = [120, 10, 97, 10, 98, 10, 99, 10]) ∧
      s.failure.ok = true ∧ s.output.file ≠ none := by
  have hany : ((machine.observed acknowledged).exec (sample, []) sampleCalls).any (fun p =>
      p.2 = [[[97]], [[98], [99]]] ∧ p.1.failure.ok = true ∧ p.1.output.file ≠ none) = true := by
    decide
  obtain ⟨⟨s, acked⟩, hex, hp⟩ := Lts.Machine.exec_of_any hany
  obtain ⟨rfl, hok, hfile⟩ := of_decide_eq_true hp
  have hrun : (machine.observed acknowledged).RunIf (fun _ l => l.2.reopens = true) (sample, [])
      (s, [[[97]], [[98], [99]]]) :=
    Lts.Machine.runIf_of_exec (by simp [sampleCalls]) hex
  exact ⟨s, hrun, fun h ho =>
    (((output_eq_acknowledged sample_start hrun).1 hok).2 h ho).2.trans (by decide), hok, hfile⟩

end FileSink

end PlayerTrace
