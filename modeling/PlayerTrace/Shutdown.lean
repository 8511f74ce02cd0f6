import PlayerTrace.Control.Passes
import PlayerTrace.Custody.Ledger

/-!
# Shutdown

`shutdown` closes admission, asks for a final drain, waits for it as long as its budget
allows, and then sets the stop flag and joins the worker. A drain that times out counts as
no failure (`persist_status` stays `Ok`), and so does one that the worker did not get to
before it stopped. The worker tests the stop flag at the end of each iteration and leaves
its loop with whatever is still queued.

So a shutdown can return `Ok` with an accepted event left in the queue
(`PlayerTrace.shutdown_loses`). What is true is that nothing is admitted any more once the
lifecycle has left `running`, and that a shutdown returns `Ok` only after the worker's
thread has ended: if the stop check that ended its loop found the queue and the retry
buffer empty, every accepted event is accounted for (`PlayerTrace.shutdown_keeps`).
-/

namespace PlayerTrace

variable {env : Env} {i : Input} {l : Label} {s s' : State} {t : Tid}

/-! ### Admission stays closed -/

theorem Entry.events_of_not_inside {e : Entry} (h : e.inside = false) : e.events = [] := by
  cases e <;> first | rfl | cases h

/-- A producer gets past the tests by the test of consent only. -/
theorem Custody.Step.inside_cases {c c' : Custody} (hs : Step env c c')
    (h : c'.entry.inside = true) : c.entry.inside = true ∨ c'.entry = .gated := by
  cases hs with
  | gate => exact Or.inr rfl
  | check hent | build hent | reserve hent | push _ hent | overflow hent =>
    exact Or.inl (by rw [hent]; rfl)
  | giveUp | undo | countAccepted | revoke | unlock => cases h
  | _ => exact Or.inl h

namespace Client

theorem entry_resume (k : AdmitFor) (st : Status) :
    entryOf (resume s t k st).client.admission = .out :=
  congrArg Custody.entry (custody_resume k st)

theorem entry_endSessionLocked (k : AdmitFor) :
    entryOf (endSessionLocked env i s t k).client.admission = .out := by
  unfold endSessionLocked
  split
  · exact entry_resume k _
  · rfl

/-- Under the admission lock, the tests are only passed while the client is running. -/
theorem admitStep_gated {pc : AdmitPc} (h : admitStep env i s t pc = some s')
    (hg : entryOf s'.client.admission = .gated) : s.client.lifecycle = .running := by
  have hresume : ∀ {x : State} {k : AdmitFor} {st : Status}, s' = resume x t k st →
      s.client.lifecycle = .running := fun hs => by
    subst hs
    exact absurd (hg.symm.trans (entry_resume _ _)) nofun
  cases pc with
  | gate k name ps =>
    obtain rfl := Option.some.inj h
    unfold gate at hg
    dsimp only at hg
    split at hg
    · exact absurd (hg.symm.trans (entry_resume _ _)) nofun
    split at hg
    · exact absurd (hg.symm.trans (entry_resume _ _)) nofun
    · rename_i hrun
      exact not_not.mp hrun
  | capacity k name ps =>
    obtain rfl := Option.some.inj h
    unfold capacity at hg
    split at hg
    · exact absurd (hg.symm.trans (entry_resume _ _)) nofun
    · cases hg
  | room k name ps =>
    simp only [admitStep, room] at h
    split at h
    · exact hresume (Option.some.inj h).symm
    split at h
    · exact hresume (Option.some.inj h).symm
    split at h
    · obtain rfl := Option.some.inj h
      cases hg
    · cases h
  | undo k qe => exact hresume (Option.some.inj h).symm
  | count k => exact hresume (Option.some.inj h).symm
  | startRoom p =>
    obtain rfl := Option.some.inj h
    unfold startRoom at hg
    split at hg
    · cases hg
    · exact absurd (hg.symm.trans (entry_endSessionLocked _)) nofun
  | endTerminal =>
    obtain rfl := Option.some.inj h
    unfold endTerminal at hg
    dsimp only at hg
    split at hg
    · cases hg
    · exact absurd (hg.symm.trans (entry_endSessionLocked _)) nofun
  | startBegin p replacing previous =>
    simp only [admitStep, startBegin] at h
    split at h
    · obtain rfl := Option.some.inj h
      cases hg
    · cases h
  | startTerminal p =>
    obtain rfl := Option.some.inj h
    unfold startTerminal at hg
    dsimp only at hg
    repeat' split at hg
    all_goals cases hg
  | startReserve p =>
    obtain rfl := Option.some.inj h
    unfold startReserve at hg
    split at hg <;> cases hg
  | push k qe =>
    obtain rfl := Option.some.inj h
    unfold push at hg
    split at hg <;> cases hg
  | flushTerminal =>
    obtain rfl := Option.some.inj h
    unfold flushTerminal at hg
    dsimp only at hg
    split at hg <;> cases hg
  | reserve | flushBarrier | flushToken =>
    obtain rfl := Option.some.inj h
    cases hg

/-- The holder of the consent lock lets no producer in. -/
theorem consentStep_gated {st : ConsentState} {pc : ConsentPc}
    (h : consentStep i s t st pc = some s') (hg : entryOf s'.client.admission = .gated) :
    entryOf s.client.admission = .gated := by
  cases pc with
  | store =>
    simp only [consentStep, store] at h
    split at h
    · cases h
    · obtain rfl := Option.some.inj h
      cases hg
  | forget =>
    obtain rfl := Option.some.inj h
    cases hg
  | mark =>
    simp only [consentStep, mark] at h
    split at h
    · obtain rfl := Option.some.inj h
      split at hg <;> exact hg
    · cases h
  | purge =>
    simp only [consentStep, purge] at h
    split at h
    · obtain rfl := Option.some.inj h
      split at hg <;> exact hg
    · cases h
  | reset =>
    obtain rfl := Option.some.inj h
    simp only [reset] at hg
    split at hg <;> exact hg
  | grant =>
    simp only [consentStep, grant] at h
    split at h
    · cases h
    · obtain rfl := Option.some.inj h
      exact hg
  | bump | clear | countCleared | deactivate | discard | countDiscarded =>
    obtain rfl := Option.some.inj h
    exact hg

theorem entry_shutdownDone (d : Bool) (st : Status) :
    entryOf (shutdownDone s t d st).client.admission = entryOf s.client.admission := by
  cases d <;> rfl

/-- **Admission is only passed while the client is running.** -/
theorem step_gated (h : step env i s t = some s') (hg : entryOf s'.client.admission = .gated)
    (hne : entryOf s.client.admission ≠ .gated) : s.client.lifecycle = .running := by
  unfold step at h
  generalize s.callers t = c at h
  cases c with
  | idle => cases h
  | done o => cases h
  | admitting =>
    dsimp only at h
    split at h
    · split at h
      · exact admitStep_gated h hg
      · cases h
    · cases h
  | consenting =>
    dsimp only at h
    split at h
    · split at h
      · exact absurd (consentStep_gated h hg) hne
      · cases h
    · cases h
  | trackEnter name ps =>
    obtain rfl := Option.some.inj h
    unfold trackEnter at hg
    dsimp only at hg
    repeat' split at hg
    all_goals exact absurd hg hne
  | shutdownTerminal d persist =>
    obtain rfl := Option.some.inj h
    unfold shutdownTerminal at hg
    repeat' split at hg
    all_goals exact absurd ((entry_shutdownDone d _).symm.trans hg) hne
  | trackFilter | shutdownCancel | shutdownBarrier | shutdownToken | shutdownStop | destroyStop
  | destroyCancel | ownStop =>
    obtain rfl := Option.some.inj h
    exact absurd hg hne
  | _ =>
    -- a wait: its step takes the admission lock, or leaves it alone
    simp only [startLock, endLock, trackLock, flushLock, flushWait, shutdownLock, shutdownOrdinal,
      shutdownWait, shutdownJoin, shutdownMark, destroyJoin, ownClose, exitJoin, exitMark,
      consentLock] at h
    repeat' split at h
    all_goals first
      | cases h; done
      | obtain rfl := Option.some.inj h; first
          | exact absurd hg hne
          | exact absurd ((entry_shutdownDone _ _).symm.trans hg) hne
          | cases hg

end Client

/-- A step lets a producer in only while the client is running. -/
theorem inside_of_step (h : step env s l = some s')
    (hin : (custody s').entry.inside = true) :
    (custody s).entry.inside = true ∨ s.client.lifecycle = .running := by
  by_contra hnot
  rw [not_or] at hnot
  obtain ⟨hout, hlife⟩ := hnot
  have hgated : (custody s).entry ≠ .gated := fun heq => hout (by rw [heq]; rfl)
  rcases step_moves h with heq | hm
  · exact hout (heq ▸ hin)
  · have hg := (hm.inside_cases hin).resolve_left hout
    have hsame : s'.client = s.client → (custody s').entry = (custody s).entry :=
      congrArg fun c : Client => entryOf c.admission
    cases l with
    | worker i => exact hgated ((hsame (Worker.step_pass h).1.client).symm.trans hg)
    | call t op => exact hgated ((hsame (Client.call_client h)).symm.trans hg)
    | caller t i => exact hlife (Client.step_gated h hg hgated)

/-! ### The order of a shutdown -/

/-- **What is closed stays closed.** -/
structure Closed (s : State) : Prop where
  closing : ∀ t, (s.callers t).closing = true → s.client.lifecycle ≠ .running
  stop : s.core.stop = true → s.client.lifecycle ≠ .running
  entry : s.client.lifecycle ≠ .running → (custody s).entry.inside = false
  joined : ∀ t, (s.callers t).joined = true → s.core.finished = true
  stopped : s.client.lifecycle = .stopped → s.core.finished = true
  returned : ∀ t status, s.callers t = .done (.status .shutdown status) → status.ok = true →
    s.core.finished = true
  exited : s.core.finished = true → s.frame.pc = .exited

/-- The lifecycle never goes back to `running`, and ends at `stopped` only by a caller that
has seen the worker's thread end. -/
theorem Turn.lifecycle_cases (h : Turn s t s') :
    s'.client.lifecycle = s.client.lifecycle ∨
      (s'.client.admission = .free ∧ s'.client.lifecycle = .stopping) ∨
      (s'.client.admission = .free ∧ s'.client.lifecycle = .stopped ∧
        (s.callers t).joined = true) := by
  cases h with
  | close hfree hd =>
    rcases hd with ⟨-, hd⟩ | ⟨-, hd⟩
    · exact Or.inr (Or.inl ⟨hfree, congrArg Desk.lifecycle hd⟩)
    · exact Or.inl (congrArg Desk.lifecycle hd)
  | mark hw hfree hd => exact Or.inr (Or.inr ⟨hfree, congrArg Desk.lifecycle hd, hw⟩)
  | advance _ hd => rcases hd with hd | hd <;> exact Or.inl (congrArg Desk.lifecycle hd)
  | plain hd | consented _ _ hd | flushBarrier _ hd | flushToken _ hd | flushed _ hd
  | flushTimeout _ _ hd | ordinal _ _ hd | barrier _ hd | token _ hd | stop _ hd | join _ hd
  | finish _ hd => exact Or.inl (congrArg Desk.lifecycle hd)

/-- A caller that is closing was so before, or has just closed admission. -/
theorem Turn.closing_cases (h : Turn s t s') (hc : (s'.callers t).closing = true) :
    (s.callers t).closing = true ∨ s'.client.lifecycle ≠ .running := by
  have hplain : (s'.callers t).plain = true → (s.callers t).closing = true ∨
      s'.client.lifecycle ≠ .running := fun hp => by
    cases hcs : s'.callers t <;> simp [hcs, Caller.plain, Caller.closing] at hp hc
  cases h with
  | close _ hd _ =>
    rcases hd with ⟨-, hd⟩ | ⟨hstopped, hd⟩
    · exact Or.inr (by rw [show s'.client.lifecycle = _ from congrArg Desk.lifecycle hd]; nofun)
    · refine Or.inr ?_
      rw [show s'.client.lifecycle = _ from congrArg Desk.lifecycle hd]
      exact fun hrun => absurd (hstopped.symm.trans hrun) nofun
  | advance hw | stop hw => exact Or.inl hw
  | ordinal hw | barrier hw | token hw => exact Or.inl (by rw [hw]; rfl)
  | join _ _ hc' =>
    rcases hc' with ⟨hw, -⟩ | hc'
    · exact Or.inl hw
    · simp [hc', Caller.closing] at hc
  | mark _ _ hd _ =>
    exact Or.inr (by rw [show s'.client.lifecycle = _ from congrArg Desk.lifecycle hd]; nofun)
  | finish hw hd hc' =>
    rcases hw with hstopped | ⟨hw, -⟩
    · refine Or.inr ?_
      rw [show s'.client.lifecycle = _ from congrArg Desk.lifecycle hd]
      exact fun hrun => absurd (hstopped.symm.trans hrun) nofun
    · exact Or.inl hw
  | plain _ hp => exact hplain hp
  | consented _ _ _ hc' | flushBarrier _ _ hc' | flushToken _ _ hc' | flushed _ _ hc'
  | flushTimeout _ _ _ hc' => simp [hc', Caller.closing] at hc

/-- A caller that has joined had done so before, or the thread has ended. -/
theorem Turn.joined_cases (h : Turn s t s') (hc : (s'.callers t).joined = true) :
    (s.callers t).joined = true ∨ s.core.finished = true := by
  cases h with
  | join hfin => exact Or.inr hfin
  | mark hw => exact Or.inl hw
  | plain _ hp =>
    cases hcs : s'.callers t <;> simp [hcs, Caller.plain, Caller.joined] at hp hc
  | @finish d _ _ _ hc' => cases d <;> simp [hc', shutdownCaller, Caller.joined] at hc
  | close _ _ hc' =>
    rcases hc' with ⟨d, hc'⟩ | hc' <;> simp [hc', Caller.joined] at hc
  | advance _ _ hc' =>
    rcases hc' with ⟨d, hc'⟩ | hc' | ⟨d, status, hc'⟩ <;> simp [hc', Caller.joined] at hc
  | stop _ _ hc' =>
    rcases hc' with ⟨d, status, hc'⟩ | hc' | hp
    · simp [hc', Caller.joined] at hc
    · simp [hc', Caller.joined] at hc
    · cases hcs : s'.callers t <;> simp [hcs, Caller.plain, Caller.joined] at hp hc
  | consented _ _ _ hc' | flushBarrier _ _ hc' | flushToken _ _ hc' | flushed _ _ hc'
  | flushTimeout _ _ _ hc' | ordinal _ _ _ hc' | barrier _ _ hc' | token _ _ hc' =>
    simp [hc', Caller.joined] at hc

/-- A shutdown returns `Ok` when the client was stopped already, or after it has joined. -/
theorem Turn.shutdown_cases (h : Turn s t s') {status : Status}
    (hc : s'.callers t = .done (.status .shutdown status)) (hok : status.ok = true) :
    s.client.lifecycle = .stopped ∨ (s.callers t).joined = true := by
  cases h with
  | @finish d status' hw _ hc' =>
    cases d with
    | true => simp [hc, shutdownCaller] at hc'
    | false =>
      obtain rfl : status = status' := by simpa [hc, shutdownCaller] using hc'
      refine hw.imp id fun ⟨_, hw⟩ => hw.resolve_right fun hfail => ?_
      exact absurd (hfail.symm.trans hok) nofun
  | plain _ hp => simp [hc, Caller.plain, hok] at hp
  | stop _ _ hc' | mark _ _ _ hc' => simp [hc, Caller.plain, hok] at hc'
  | consented _ _ _ hc' | flushBarrier _ _ hc' | flushToken _ _ hc' | flushed _ _ hc'
  | flushTimeout _ _ _ hc' | close _ _ hc' | advance _ _ hc' | ordinal _ _ _ hc'
  | barrier _ _ hc' | token _ _ hc' | join _ _ hc' => simp [hc] at hc'

theorem Turn.stop_cases (h : Turn s t s') (hstop : s'.core.stop = true) :
    s.core.stop = true ∨ (s.callers t).closing = true := by
  cases h with
  | stop hw => exact Or.inr hw
  | close _ hd =>
    rcases hd with ⟨-, hd⟩ | ⟨-, hd⟩ <;> exact Or.inl ((congrArg Desk.stop hd).symm.trans hstop)
  | advance _ hd =>
    rcases hd with hd | hd <;> exact Or.inl ((congrArg Desk.stop hd).symm.trans hstop)
  | plain hd | consented _ _ hd | flushBarrier _ hd | flushToken _ hd | flushed _ hd
  | flushTimeout _ _ hd | ordinal _ _ hd | barrier _ hd | token _ hd | join _ hd | mark _ _ hd
  | finish _ hd => exact Or.inl ((congrArg Desk.stop hd).symm.trans hstop)

theorem closed_turn (hi : Closed s) (h : step env s l = some s') (ha : Aside s t s')
    (ht : Turn s t s') : Closed s' := by
  have hmono : s.client.lifecycle ≠ .running → s'.client.lifecycle ≠ .running := fun hne => by
    rcases ht.lifecycle_cases with heq | ⟨-, heq⟩ | ⟨-, heq, -⟩
    · rw [heq]
      exact hne
    · rw [heq]
      exact nofun
    · rw [heq]
      exact nofun
  have hfin : s.core.finished = true → s'.core.finished = true := fun hf => ha.finished.trans hf
  refine ⟨fun u hc => ?_, fun hstop => ?_, fun hne => ?_, fun u hc => ?_, fun hst => ?_,
    fun u status hc hok => ?_, fun hf => ?_⟩
  · by_cases hu : u = t
    · subst hu
      exact (ht.closing_cases hc).elim (fun hc => hmono (hi.closing u hc)) id
    · exact hmono (hi.closing u (ha.others u hu ▸ hc))
  · exact hmono ((ht.stop_cases hstop).elim hi.stop (hi.closing t))
  · rcases ht.lifecycle_cases with heq | ⟨hfree, -⟩ | ⟨hfree, -⟩
    · rw [heq] at hne
      by_contra hin
      rcases inside_of_step h (Bool.not_eq_false _ ▸ hin) with hin | hrun
      · exact absurd ((hi.entry hne).symm.trans hin) nofun
      · exact hne hrun
    · exact congrArg (fun a => (entryOf a).inside) hfree
    · exact congrArg (fun a => (entryOf a).inside) hfree
  · by_cases hu : u = t
    · subst hu
      exact hfin ((ht.joined_cases hc).elim (hi.joined u) id)
    · exact hfin (hi.joined u (ha.others u hu ▸ hc))
  · rcases ht.lifecycle_cases with heq | ⟨-, heq⟩ | ⟨-, -, hw⟩
    · exact hfin (hi.stopped (heq ▸ hst))
    · exact absurd (heq.symm.trans hst) nofun
    · exact hfin (hi.joined t hw)
  · by_cases hu : u = t
    · subst hu
      exact hfin ((ht.shutdown_cases hc hok).elim hi.stopped (hi.joined u))
    · exact hfin (hi.returned u status ((ha.others u hu).symm.trans hc) hok)
  · rw [ha.frame]
    exact hi.exited (ha.finished ▸ hf)

/-- The thread ends by its last statement, and takes no step afterwards. -/
theorem Pass.finished_cases (h : Pass i s s') :
    s'.core.finished = s.core.finished ∨ s'.frame.pc = .exited := by
  cases h with
  | plain hidle | vacuous _ _ hidle | ending _ hidle => exact Or.inl hidle.finished
  | latch _ hcore | readBarrier _ hcore | popMore _ hcore =>
    exact Or.inl (congrArg WorkerCore.finished hcore)
  | finish _ hs => exact Or.inr (by rw [hs]; rfl)
  | write _ hs | queueClear _ _ hs | retryClear _ _ hs | storeClear _ _ hs | failed _ _ hs
  | record _ hs | stop _ _ hs | raise _ hs => exact Or.inl (by rw [hs]; rfl)

theorem Worker.step_exited (h : s.frame.pc = .exited) : Worker.step env i s = none := by
  unfold step
  split
  · rfl
  · split
    · simp [h, WorkerPc.inLoop]
    · simp [execute, h]

theorem closed_pass (hi : Closed s) (hw : Worker.step env i s = some s') : Closed s' := by
  obtain ⟨ha, hp⟩ := Worker.step_pass hw
  have hentry : (custody s').entry = (custody s).entry :=
    congrArg (fun c : Client => entryOf c.admission) ha.client
  have hlife : s'.client.lifecycle = s.client.lifecycle := congrArg Client.lifecycle ha.client
  -- the worker is not at its end, so its thread has not ended
  have hnot : s.core.finished ≠ true := fun hf => by
    rw [Worker.step_exited (hi.exited hf)] at hw
    cases hw
  refine ⟨?_, ?_, ?_, fun t hc => ?_, fun hst => ?_, fun t status hc hok => ?_, fun hf => ?_⟩
  · rw [ha.callers, hlife]
    exact hi.closing
  · rw [ha.stop, hlife]
    exact hi.stop
  · rw [hlife, hentry]
    exact hi.entry
  · rw [ha.callers] at hc
    exact absurd (hi.joined t hc) hnot
  · rw [hlife] at hst
    exact absurd (hi.stopped hst) hnot
  · rw [ha.callers] at hc
    exact absurd (hi.returned t status hc hok) hnot
  · rcases hp.finished_cases with heq | hpc
    · exact absurd (heq ▸ hf) hnot
    · exact hpc

theorem closed_of_reach (h : (machine env).Reach s) : Closed s := by
  refine h.rule (P := Closed) (fun s hs => ?_) (fun s l s' hr hi hs => ?_)
  · obtain ⟨db, m, earlier, rfl⟩ := start_eq hs
    exact ⟨nofun, nofun, fun h => absurd rfl h, nofun, nofun, nofun, nofun⟩
  · rcases turn_of_step hr hs with ⟨i, -, hw⟩ | ⟨t, -, ha, ht⟩
    · exact closed_pass hi hw
    · exact closed_turn hi hs ha ht

/-! ### An orderly stop -/

/-- No exception leaves the worker's loop, and the check of the stop flag that ends it finds
the queue and the retry buffer empty. -/
def OrderlyStop (s : State) : Label → Bool
  | .worker i => i.raise.isNone &&
    match s.frame.pc with
    | .checkStop => !s.core.stop || (s.pipeline.queue.isEmpty && s.core.retry.isEmpty)
    | _ => true
  | _ => true

/-- **After an orderly stop nothing is left in memory.** -/
structure Emptied (s : State) : Prop where
  terminal : s.core.terminalStatus.ok = true
  ended : s.frame.pc.ending = true → s.core.stop = true ∧ s.pipeline.queue = [] ∧ s.core.retry = []

/-- The loop ends by the check of the stop flag, or by an exception. -/
theorem Pass.ending_cases (h : Pass i s s') (hpc' : s'.frame.pc.ending = true) :
    s.frame.pc.ending = true ∨ (s.frame.pc = .checkStop ∧ s.core.stop = true ∧
      s' = s.goto .stopped) ∨ i.raise.isNone = false := by
  cases h with
  | ending hpc => exact Or.inl hpc
  | finish hpc => exact Or.inl (by rw [hpc]; rfl)
  | stop hpc hstop hs => exact Or.inr (Or.inl ⟨hpc, hstop, hs⟩)
  | raise hraise => exact Or.inr (Or.inr (by rw [hraise]; rfl))
  | plain _ hp => simp [WorkerPc.plain, hpc'] at hp
  | latch _ _ _ hf =>
    obtain ⟨pending, pc, hpc, hf⟩ := hf
    rw [hf] at hpc'
    rcases hpc with rfl | rfl <;> cases hpc'
  | readBarrier _ _ _ hf =>
    obtain ⟨pc, hpc, hf⟩ := hf
    rw [hf] at hpc'
    rcases hpc with rfl | rfl <;> cases hpc'
  | popMore _ _ _ hf =>
    obtain ⟨l, site, hf⟩ := hf
    rw [hf] at hpc'
    cases hpc'
  | vacuous _ _ _ hpc =>
    rw [hpc] at hpc'
    cases hpc'
  | write _ hs | queueClear _ _ hs | retryClear _ _ hs | storeClear _ _ hs | failed _ _ hs
  | record _ hs =>
    rw [hs] at hpc'
    cases hpc'

theorem stageOf_ending {pc : WorkerPc} (h : pc.ending = true) : stageOf pc = .idle := by
  cases pc <;> first | rfl | cases h

theorem Turn.stop_mono (h : Turn s t s') (hstop : s.core.stop = true) : s'.core.stop = true := by
  cases h with
  | stop _ hd => exact congrArg Desk.stop hd
  | close _ hd => rcases hd with ⟨-, hd⟩ | ⟨-, hd⟩ <;> exact (congrArg Desk.stop hd).trans hstop
  | advance _ hd => rcases hd with hd | hd <;> exact (congrArg Desk.stop hd).trans hstop
  | plain hd | consented _ _ hd | flushBarrier _ hd | flushToken _ hd | flushed _ hd
  | flushTimeout _ _ hd | ordinal _ _ hd | barrier _ hd | token _ hd | join _ hd | mark _ _ hd
  | finish _ hd => exact (congrArg Desk.stop hd).trans hstop

/-- With admission closed and nothing in the worker's hands, empty containers stay empty. -/
theorem empty_step (h : step env s l = some s') (hst : (custody s).stage = .idle)
    (hent : (custody s).entry.inside = false) (hq : s.pipeline.queue = [])
    (hr : s.core.retry = []) :
    s'.pipeline.queue = [] ∧ s'.core.retry = [] := by
  rcases step_moves h with heq | hm
  · exact ⟨(congrArg Custody.queue heq).trans hq, (congrArg Custody.retry heq).trans hr⟩
  · constructor <;> refine List.eq_nil_iff_forall_not_mem.mpr fun e he => ?_
    · rcases hm.mem_queue he with he | he
      · rw [show (custody s).queue = [] from hq] at he
        exact absurd he nofun
      · rw [Entry.events_of_not_inside hent] at he
        exact absurd he nofun
    · rcases hm.mem_retry he with he | hholds
      · rw [show (custody s).retry = [] from hr] at he
        exact absurd he nofun
      · rw [hst] at hholds
        cases hholds

/-- The same for a worker past its loop, after a stop. -/
theorem Closed.empty_step (hi : Closed s) (h : step env s l = some s')
    (hpc : s.frame.pc.ending = true) (hstop : s.core.stop = true) (hq : s.pipeline.queue = [])
    (hr : s.core.retry = []) : s'.pipeline.queue = [] ∧ s'.core.retry = [] :=
  PlayerTrace.empty_step h (stageOf_ending hpc) (hi.entry (hi.stop hstop)) hq hr

theorem Pass.terminal_cases (h : Pass i s s') (hraise : i.raise.isNone = true) :
    s'.core.terminalStatus = s.core.terminalStatus := by
  cases h with
  | plain hidle | vacuous _ _ hidle | ending _ hidle => exact hidle.terminalStatus
  | latch _ hcore | readBarrier _ hcore | popMore _ hcore =>
    exact congrArg WorkerCore.terminalStatus hcore
  | raise hr => simp [hr] at hraise
  | write _ hs | queueClear _ _ hs | retryClear _ _ hs | storeClear _ _ hs | failed _ _ hs
  | record _ hs | stop _ _ hs | finish _ hs =>
    rw [hs]
    rfl

theorem emptied_of_reachIf (h : (machine env).ReachIf (fun s l => OrderlyStop s l = true) s) :
    Emptied s := by
  refine h.rule (P := Emptied) (fun s hs => ?_) (fun s l s' hr hi hok hs => ?_)
  · obtain ⟨db, m, earlier, rfl⟩ := start_eq hs
    exact ⟨rfl, nofun⟩
  have hclosed := closed_of_reach hr
  have hstep : step env s l = some s' := hs
  rcases turn_of_step hr hs with ⟨i, rfl, hw⟩ | ⟨t, -, ha, ht⟩
  · obtain ⟨hapart, hp⟩ := Worker.step_pass hw
    simp only [OrderlyStop, Bool.and_eq_true] at hok
    refine ⟨by rw [hp.terminal_cases hok.1]; exact hi.terminal, fun hpc' => ?_⟩
    rw [hapart.stop]
    rcases hp.ending_cases hpc' with hpc | ⟨hpc, hstop, rfl⟩ | hraise
    · obtain ⟨hstop, hq, hretry⟩ := hi.ended hpc
      exact ⟨hstop, hclosed.empty_step hstep hpc hstop hq hretry⟩
    · have hempty := hok.2
      simp only [hpc, hstop, Bool.not_true, Bool.false_or, Bool.and_eq_true,
        List.isEmpty_iff] at hempty
      exact ⟨hstop, hempty⟩
    · exact absurd (hraise.symm.trans hok.1) nofun
  · refine ⟨by rw [ha.terminalStatus]; exact hi.terminal, fun hpc => ?_⟩
    rw [ha.frame] at hpc
    obtain ⟨hstop, hq, hretry⟩ := hi.ended hpc
    exact ⟨ht.stop_mono hstop, hclosed.empty_step hstep hpc hstop hq hretry⟩

/-- **When a shutdown keeps every accepted event.** In every run in which no exception
leaves the worker's loop, and the stop check that ends it finds the queue and the retry
buffer empty: once a `shutdown` has returned `Ok`, nothing is left in memory, and every
accepted event is acknowledged, stored, discarded or purged by a revocation, or dropped. -/
theorem shutdown_keeps (h : (machine env).ReachIf (fun s l => OrderlyStop s l = true) s)
    {status : Status} (hc : s.callers t = .done (.status .shutdown status))
    (hok : status.ok = true) :
    s.pipeline.queue = [] ∧ s.hands = [] ∧ s.core.retry = [] ∧
      ∀ a ∈ s.history.accepted, a.qe.item ∈ s.history.acked ∨
        a.qe.item ∈ s.pipeline.store.rows.map Row.item ∨ a.qe.item ∈ s.history.discarded ∨
        a.qe.item ∈ s.history.purged ∨ a.qe.item ∈ s.history.dropped := by
  have hr := h.reach
  have hr' := custody_reachable hr
  have hclosed := closed_of_reach hr
  have hemptied := emptied_of_reachIf h
  have hpc := hclosed.exited (hclosed.returned t status hc hok)
  obtain ⟨-, hq, hretry⟩ := hemptied.ended (by rw [hpc]; rfl)
  have hhands : s.hands = [] := by rw [State.hands, hpc]; rfl
  have hlost : s.history.lost = [] :=
    (Custody.counted_of_reachable hr' (by simp [custody, hemptied.terminal])).lost
  refine ⟨hq, hhands, hretry, fun a ha => ?_⟩
  have hknown : a.qe.item ∈ (custody s).known :=
    List.mem_append_right _ (List.mem_map_of_mem (f := fun a : Admitted => a.qe.item) ha)
  have hplace := (Custody.conserved_of_reachable hr').mem_iff.mpr hknown
  rw [Custody.places, show (custody s).stage.hands = s.hands from stageOf_hands _, hhands,
    show (custody s).queue = [] from hq, show (custody s).retry = [] from hretry,
    show (custody s).history.lost = [] from hlost] at hplace
  simp only [List.map_nil, List.nil_append, List.append_nil, List.mem_append] at hplace
  rcases hplace with (((hx | hx) | hx) | hx) | hx
  · exact Or.inr (Or.inl hx)
  · exact Or.inl hx
  · exact Or.inr (Or.inr (Or.inl hx))
  · exact Or.inr (Or.inr (Or.inr (Or.inl hx)))
  · exact Or.inr (Or.inr (Or.inr (Or.inr hx)))

/-- A shutdown whose drain is serviced in time. -/
theorem shutdown_keeps_sample : ∃ s,
    (machine sample).ReachIf (fun s l => OrderlyStop s l = true) s ∧
    s.callers 2 = .done (.status .shutdown {}) ∧ s.history.accepted.length = 1 ∧
    s.pipeline.queue = [] ∧ s.core.retry = [] := by
  obtain ⟨s, hreach, hp⟩ := Lts.Machine.reachIf_of_exec (fun s l => OrderlyStop s l = true)
    sampleClient_start
    (Label.starts 1 "s" "e" ++ [.call 2 .shutdown] ++ Label.steps 2 5 ++ Label.works 34 ++
      Label.steps 2 2 ++ Label.works 3 ++ Label.steps 2 3)
    (fun s => decide (s.callers 2 = .done (.status .shutdown {})) &&
      decide (s.history.accepted.length = 1)) (by decide) (by decide)
  simp only [Bool.and_eq_true, decide_eq_true_eq] at hp
  obtain ⟨hq, -, hretry, -⟩ := shutdown_keeps hreach hp.1 rfl
  exact ⟨s, hreach, hp.1, hp.2, hq, hretry⟩

/-- **A shutdown can return `Ok` and leave an accepted event in the queue.** The worker has
begun an iteration with an empty queue; an event is admitted and `start_session` returns
`Ok`; the drain of the shutdown times out before the worker gets to it, and the stop flag is
set; the worker finishes its iteration, sees the flag and ends. -/
theorem shutdown_loses : ∃ s, (machine sample).Reach s ∧
    s.callers 1 = .done (.status (.startSession "") {}) ∧
    s.callers 2 = .done (.status .shutdown {}) ∧
    ∃ a ∈ s.history.accepted, a.qe ∈ s.pipeline.queue ∧ a.qe.item ∉ s.history.acked ∧
      a.qe.item ∉ s.pipeline.store.rows.map Row.item ∧ a.qe.item ∉ s.history.discarded ∧
      a.qe.item ∉ s.history.purged ∧ a.qe.item ∉ s.history.dropped := by
  obtain ⟨s, hr, hp⟩ := Lts.Machine.reach_of_exec sampleClient_start
    (Label.works 3 ++ Label.starts 1 "s" "e" ++ [.call 2 .shutdown] ++ Label.steps 2 5 ++
      [.caller 2 { timeout := true }] ++ Label.steps 2 1 ++ Label.works 6 ++ Label.steps 2 3)
    (fun s => decide (s.callers 1 = .done (.status (.startSession "") {})) &&
      decide (s.callers 2 = .done (.status .shutdown {})) &&
      s.history.accepted.any fun a => decide (a.qe ∈ s.pipeline.queue ∧
        a.qe.item ∉ s.history.acked ∧ a.qe.item ∉ s.pipeline.store.rows.map Row.item ∧
        a.qe.item ∉ s.history.discarded ∧ a.qe.item ∉ s.history.purged ∧
        a.qe.item ∉ s.history.dropped)) (by decide)
  simp only [Bool.and_eq_true, decide_eq_true_eq, List.any_eq_true] at hp
  exact ⟨s, hr, hp.1.1, hp.1.2, hp.2⟩

end PlayerTrace
