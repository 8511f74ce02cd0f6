import PlayerTrace.Control.Producers

/-!
# How a call ends

Four things a caller's step can do are told by where it leaves the caller: a shutdown that
is about to ask the sink to cancel, a caller that has joined the worker's thread, a
destructor, and a call that has returned what it promises. `PlayerTrace.Course` says, for all
of them at once, what must have been true before. Every other position is *quiet*
(`PlayerTrace.Caller.quiet`), and most steps lead to a quiet one.
-/

namespace PlayerTrace

/-- The operations that admit events. -/
def Op.admits : Op → Bool
  | .startSession _ | .endSession | .track .. => true
  | _ => false

namespace Caller

/-- A caller inside the destructor. -/
def destroying : Caller → Bool
  | .shutdownLock d | .shutdownCancel d | .shutdownOrdinal d | .shutdownBarrier d _
  | .shutdownToken d _ | .shutdownWait d _ | .shutdownStop d _ | .shutdownJoin d _
  | .shutdownMark d _ | .shutdownTerminal d _ => d
  | .destroyStop | .destroyCancel | .destroyJoin => true
  | _ => false

/-- The positions of a shutdown between its request to cancel and its join, and those of the
destructor. -/
def underway : Caller → Bool
  | .shutdownOrdinal _ | .shutdownBarrier .. | .shutdownToken .. | .shutdownWait ..
  | .shutdownStop .. | .shutdownJoin .. | .destroyStop | .destroyCancel | .destroyJoin => true
  | _ => false

/-- A position that says nothing about the end of the worker or of an admission. -/
def quiet : Caller → Bool
  | .done (.status op status) => !((op.admits || decide (op = .shutdown)) && status.ok)
  | .done (.waited exited) => !exited
  | .shutdownCancel _ => false
  | c => !c.joined && !c.destroying

end Caller

/-- How a step of a caller moves the lifecycle: not at all, or to `stopping`, or, once it
has joined the worker's thread, to `stopped`. -/
def Advances (s : State) (t : Tid) (s' : State) : Prop :=
  s'.client.lifecycle = s.client.lifecycle ∨
    (s.client.lifecycle ≠ .stopped ∧ s'.client.lifecycle = .stopping) ∨
    ((s.client.lifecycle ≠ .running ∨ (s.callers t).closing = true) ∧
      (s.callers t).joined = true ∧ s'.client.lifecycle = .stopped)

/-- A thread that has ended may be joined. -/
def Joins (s s' : State) : Prop :=
  s'.client.joined = s.client.joined ∨ (s.core.finished = true ∧ s'.client.joined = true)

/-- An error a pass has recorded stays, unless it is forgotten. -/
def Forgets (s s' : State) : Prop :=
  s'.core.pendingError = s.core.pendingError ∨ s'.core.pendingError = {}

/-- **What a caller's step says about the past.** -/
structure Course (s : State) (t : Tid) (s' : State) : Prop where
  lifecycle : Advances s t s'
  joined : Joins s s'
  flushDone : s'.core.flushDone = s.core.flushDone
  errors : Forgets s s'
  marked : (s'.callers t).joined = true → (s.callers t).joined = true ∨ s'.client.joined = true
  waited : s'.callers t = .done (.waited true) → (s.callers t).joined = true
  cancels : ∀ d, s'.callers t = .shutdownCancel d → s.client.lifecycle ≠ .stopped
  destroys : (s'.callers t).destroying = true →
    (s.callers t).destroying = true ∨ (s.callers t).free = true
  admits : ∀ op status, s'.callers t = .done (.status op status) → op.admits = true →
    status.ok = true → ∃ k, s.client.admission = .producer t (.count k)
  marks : ∀ d persist, s'.callers t = .shutdownTerminal d persist →
    s'.client.lifecycle = .stopped
  returns : ∀ status, s'.callers t = .done (.status .shutdown status) → status.ok = true →
    s.client.lifecycle = .stopped ∨ ∃ d persist, s.callers t = .shutdownTerminal d persist

/-- The fields that tell of an end, all as they were. -/
structure Client.Still (s s' : State) : Prop where
  lifecycle : s'.client.lifecycle = s.client.lifecycle
  joined : s'.client.joined = s.client.joined
  flushDone : s'.core.flushDone = s.core.flushDone
  pendingError : s'.core.pendingError = s.core.pendingError

namespace Course

variable {s s' : State} {t : Tid}

theorem of_quiet (hlife : Advances s t s') (hjoined : Joins s s')
    (hdone : s'.core.flushDone = s.core.flushDone) (herr : Forgets s s')
    (hc : (s'.callers t).quiet = true) : Course s t s' := by
  refine ⟨hlife, hjoined, hdone, herr, fun h => ?_, fun h => ?_, fun d h => ?_, fun h => ?_,
    fun op st h ho hok => ?_, fun d p h => ?_, fun st h hok => ?_⟩
  · cases hcs : s'.callers t <;> simp [hcs, Caller.quiet, Caller.joined] at hc h
  · simp [h, Caller.quiet] at hc
  · simp [h, Caller.quiet] at hc
  · cases hcs : s'.callers t <;> simp [hcs, Caller.quiet, Caller.destroying] at hc h
    · exact absurd h (by simp [hc.2])
    all_goals simp [h] at hc
  · simp [h, Caller.quiet, ho, hok] at hc
  · simp [h, Caller.quiet, Caller.joined] at hc
  · simp [h, Caller.quiet, hok] at hc

/-- A step that ends by moving the caller, told by where it goes. -/
theorem move {x : State} {c : Caller} (hlife : Advances s t x) (hjoined : Joins s x)
    (hdone : x.core.flushDone = s.core.flushDone) (herr : Forgets s x)
    (hmarked : c.joined = true → (s.callers t).joined = true ∨ x.client.joined = true)
    (hwaited : c = .done (.waited true) → (s.callers t).joined = true)
    (hcancels : ∀ d, c = .shutdownCancel d → s.client.lifecycle ≠ .stopped)
    (hdestroys : c.destroying = true →
      (s.callers t).destroying = true ∨ (s.callers t).free = true)
    (hadmits : ∀ op status, c = .done (.status op status) → op.admits = true →
      status.ok = true → ∃ k, s.client.admission = .producer t (.count k))
    (hmarks : ∀ d persist, c = .shutdownTerminal d persist → x.client.lifecycle = .stopped)
    (hreturns : ∀ status, c = .done (.status .shutdown status) → status.ok = true →
      s.client.lifecycle = .stopped ∨ ∃ d persist, s.callers t = .shutdownTerminal d persist) :
    Course s t (x.move t c) := by
  have hc : (x.move t c).callers t = c := move_callers c
  exact ⟨hlife, hjoined, hdone, herr, by rwa [hc], by rwa [hc], by rwa [hc], by rwa [hc],
    by rwa [hc], by rwa [hc], by rwa [hc]⟩

/-- The same when it goes to a quiet position. -/
theorem of_move {x : State} {c : Caller} (hst : Client.Still s x) (hc : c.quiet = true) :
    Course s t (x.move t c) :=
  of_quiet (Or.inl hst.lifecycle) (Or.inl hst.joined) hst.flushDone (Or.inl hst.pendingError)
    (by rw [move_callers]; exact hc)

/-- A shutdown goes on: it is in the destructor if it was before. -/
theorem of_underway {x : State} {c : Caller} (hst : Client.Still s x) (hc : c.underway = true)
    (hd : c.destroying = (s.callers t).destroying) : Course s t (x.move t c) := by
  refine move (Or.inl hst.lifecycle) (Or.inl hst.joined) hst.flushDone (Or.inl hst.pendingError)
    (fun h => ?_) (fun h => ?_) (fun d h => ?_) (fun h => Or.inl (hd.symm.trans h))
    (fun op st h => ?_) (fun d p h => ?_) fun st h => ?_
  · cases c <;> simp [Caller.underway, Caller.joined] at hc h
  all_goals
    subst h
    cases hc

end Course

namespace Client

variable {env : Env} {i : Input} {s s' : State} {t : Tid}

/-! ### Inside the two locks -/

theorem leave_course {x : State} {op : Op} {status : Status} (hok : status.ok = false)
    (hst : Still s x) : Course s t (leave x t op status) :=
  .of_move (x := { x with client := { x.client with admission := .free } })
    ⟨hst.lifecycle, hst.joined, hst.flushDone, hst.pendingError⟩
    (by simp [Caller.quiet, hok])

theorem fail_course {x : State} {k : AdmitFor} {status : Status} (hok : status.ok = false)
    (hst : Still s x) : Course s t (resume x t k status) := by
  rw [resume_of_fail hok]
  exact leave_course hok ⟨hst.lifecycle, hst.joined, hst.flushDone, hst.pendingError⟩

theorem inside_course {pc : AdmitPc} (hc : s.callers t = .admitting)
    (hadm : s.client.admission = .producer t pc) (h : Inside env i s t pc s') : Course s t s' := by
  have hquiet : (s.callers t).quiet = true := by rw [hc]; rfl
  cases h with
  | moves | begins | builds | reserves | pushes | flushBarrier =>
    exact .of_quiet (Or.inl rfl) (Or.inl rfl) rfl (Or.inl rfl) hquiet
  | refuses _ hok => exact leave_course hok ⟨rfl, rfl, rfl, rfl⟩
  | fails _ hok => exact fail_course hok ⟨rfl, rfl, rfl, rfl⟩
  | undoes => exact fail_course rfl ⟨rfl, rfl, rfl, rfl⟩
  | flushToken => exact .of_move ⟨rfl, rfl, rfl, rfl⟩ rfl
  | @counts k =>
    rw [count, resume_of_ok]
    refine ⟨Or.inl rfl, Or.inl rfl, rfl, Or.inl rfl, ?_, ?_, ?_, ?_,
      fun _ _ _ _ _ => ⟨k, hadm⟩, ?_, ?_⟩ <;> rw [move_callers]
    all_goals
      cases k with
      | replaceEnd => simp [AdmitFor.caller, countRejection, hc, Caller.joined, Caller.destroying]
      | _ => simp [AdmitFor.caller, Caller.joined, Caller.destroying, op]

theorem leaveConsent_course {x : State} {state : ConsentState} {status : Status}
    (hst : Still s x) : Course s t (leaveConsent x t state status) :=
  .of_move (x := { x with
    client := { x.client with consentSection := .free }
    history := { x.history with
      completed := if state = ConsentState.granted then x.history.completed
        else x.history.fence } }) ⟨hst.lifecycle, hst.joined, hst.flushDone, hst.pendingError⟩ rfl

theorem consentStep_course {state : ConsentState} {pc : ConsentPc}
    (hc : s.callers t = .consenting) (h : consentStep i s t state pc = some s') :
    Course s t s' := by
  have hquiet : (s.callers t).quiet = true := by rw [hc]; rfl
  cases pc with
  | store =>
    simp only [consentStep, store] at h
    split at h
    · cases h
    · obtain rfl := Option.some.inj h
      exact .of_quiet (Or.inl rfl) (Or.inl rfl) rfl (Or.inl rfl) hquiet
  | mark =>
    simp only [consentStep, mark] at h
    split at h
    · obtain rfl := Option.some.inj h
      split
      · exact leaveConsent_course ⟨rfl, rfl, rfl, rfl⟩
      · exact .of_quiet (Or.inl rfl) (Or.inl rfl) rfl (Or.inl rfl) hquiet
    · cases h
  | purge =>
    simp only [consentStep, purge] at h
    split at h
    · obtain rfl := Option.some.inj h
      split
      · exact leaveConsent_course ⟨rfl, rfl, rfl, rfl⟩
      · exact .of_quiet (Or.inl rfl) (Or.inl rfl) rfl (Or.inl rfl) hquiet
    · cases h
  | reset =>
    obtain rfl := Option.some.inj h
    unfold reset
    dsimp only
    split
    · exact .of_quiet (Or.inl rfl) (Or.inl rfl) rfl (Or.inl rfl) hquiet
    · exact leaveConsent_course ⟨rfl, rfl, rfl, rfl⟩
  | grant =>
    simp only [consentStep, grant] at h
    split at h
    · cases h
    · obtain rfl := Option.some.inj h
      exact leaveConsent_course ⟨rfl, rfl, rfl, rfl⟩
  | forget =>
    obtain rfl := Option.some.inj h
    exact .of_quiet (Or.inl rfl) (Or.inl rfl) rfl (Or.inr rfl) hquiet
  | bump | clear | countCleared | deactivate | discard | countDiscarded =>
    obtain rfl := Option.some.inj h
    exact .of_quiet (Or.inl rfl) (Or.inl rfl) rfl (Or.inl rfl) hquiet

/-! ### Outside them -/

theorem shutdownDone_course {x : State} {d : Bool} {status : Status}
    (hst : Still s x) (hd : (s.callers t).destroying = d)
    (hret : status.ok = true →
      s.client.lifecycle = .stopped ∨ ∃ d persist, s.callers t = .shutdownTerminal d persist) :
    Course s t (shutdownDone x t d status) := by
  cases d with
  | true => exact .of_underway (c := .destroyStop) hst rfl hd.symm
  | false =>
    refine .move (Or.inl hst.lifecycle) (Or.inl hst.joined) hst.flushDone (Or.inl hst.pendingError)
      nofun nofun nofun nofun ?_ nofun ?_
    · rintro op st h ho
      obtain ⟨rfl, -⟩ : Op.shutdown = op ∧ status = st := by simpa using h
      cases ho
    · rintro st h
      obtain rfl : status = st := by simpa using h
      exact hret

theorem waited_course {x : State} (hc : (s.callers t).joined = true) (hlife : Advances s t x)
    (hj : x.client.joined = s.client.joined) (hdone : x.core.flushDone = s.core.flushDone)
    (herr : x.core.pendingError = s.core.pendingError) :
    Course s t (x.move t (.done (.waited true))) :=
  .move hlife (Or.inl hj) hdone (Or.inl herr) nofun (fun _ => hc)
    (fun _ h => Caller.noConfusion h) nofun nofun (fun _ _ h => Caller.noConfusion h) nofun

theorem still_prunePassResults : Still s (prunePassResults s) :=
  ⟨rfl, rfl, by simp only [prunePassResults], by simp only [prunePassResults]⟩

/-- **Every step of a caller.** -/
theorem step_course (h : step env i s t = some s') : Course s t s' := by
  unfold step at h
  generalize hc : s.callers t = c at h
  cases c with
  | idle | done => cases h
  | admitting =>
    dsimp only at h
    split at h
    · rename_i t' pc hadm
      split at h
      · rename_i ht
        subst ht
        exact inside_course hc hadm (admitStep_inside h)
      · cases h
    · cases h
  | consenting =>
    dsimp only at h
    split at h
    · split at h
      · rename_i ht
        subst ht
        exact consentStep_course hc h
      · cases h
    · cases h
  | startLock p =>
    simp only [startLock] at h
    repeat' split at h
    · cases h
    · obtain rfl := Option.some.inj h; exact .of_move ⟨rfl, rfl, rfl, rfl⟩ rfl
    · obtain rfl := Option.some.inj h; exact .of_move ⟨rfl, rfl, rfl, rfl⟩ rfl
    · obtain rfl := Option.some.inj h; exact .of_move ⟨rfl, rfl, rfl, rfl⟩ rfl
  | endLock =>
    simp only [endLock] at h
    repeat' split at h
    · cases h
    · obtain rfl := Option.some.inj h; exact .of_move ⟨rfl, rfl, rfl, rfl⟩ rfl
    · obtain rfl := Option.some.inj h; exact .of_move ⟨rfl, rfl, rfl, rfl⟩ rfl
  | trackEnter name ps =>
    obtain rfl := Option.some.inj h
    unfold trackEnter
    dsimp only
    split
    · rename_i hok
      exact .of_move ⟨rfl, rfl, rfl, rfl⟩ (by simp [Caller.quiet, hok])
    split
    · rename_i hok
      exact .of_move ⟨rfl, rfl, rfl, rfl⟩ (by simp [Caller.quiet, hok])
    · exact .of_move ⟨rfl, rfl, rfl, rfl⟩ rfl
  | trackFilter name ps g =>
    obtain rfl := Option.some.inj h
    exact .of_move ⟨rfl, rfl, rfl, rfl⟩ rfl
  | trackLock name ps filtered g =>
    simp only [trackLock] at h
    repeat' split at h
    · cases h
    · obtain rfl := Option.some.inj h; exact .of_move ⟨rfl, rfl, rfl, rfl⟩ rfl
    · obtain rfl := Option.some.inj h; exact .of_move ⟨rfl, rfl, rfl, rfl⟩ rfl
  | flushLock =>
    simp only [flushLock] at h
    repeat' split at h
    · cases h
    · obtain rfl := Option.some.inj h; exact .of_move ⟨rfl, rfl, rfl, rfl⟩ rfl
    · obtain rfl := Option.some.inj h; exact .of_move ⟨rfl, rfl, rfl, rfl⟩ rfl
  | flushWait token barrier =>
    simp only [flushWait] at h
    repeat' split at h
    · obtain rfl := Option.some.inj h; exact .of_move still_prunePassResults rfl
    · obtain rfl := Option.some.inj h; exact .of_move ⟨rfl, rfl, rfl, rfl⟩ rfl
    · cases h
  | shutdownLock d =>
    simp only [shutdownLock] at h
    repeat' split at h
    · cases h
    · rename_i hstopped
      obtain rfl := Option.some.inj h
      exact shutdownDone_course ⟨rfl, rfl, rfl, rfl⟩ (by rw [hc]; rfl) fun _ => Or.inl hstopped
    · rename_i hrun
      obtain rfl := Option.some.inj h
      exact .move (Or.inr (Or.inl ⟨hrun, rfl⟩)) (Or.inl rfl) rfl (Or.inl rfl)
        (by simp [Caller.joined]) (fun h => Caller.noConfusion h) (fun _ _ => hrun)
        (by rw [hc]; exact Or.inl) (fun _ _ h => Caller.noConfusion h)
        (fun _ _ h => Caller.noConfusion h) (fun _ h => Caller.noConfusion h)
  | shutdownCancel d =>
    obtain rfl := Option.some.inj h
    exact .of_underway ⟨rfl, rfl, rfl, rfl⟩ rfl (by rw [hc]; rfl)
  | shutdownOrdinal d =>
    simp only [shutdownOrdinal] at h
    split at h
    · cases h
    · obtain rfl := Option.some.inj h
      exact .of_underway ⟨rfl, rfl, rfl, rfl⟩ rfl (by rw [hc]; rfl)
  | shutdownBarrier d b =>
    obtain rfl := Option.some.inj h
    exact .of_underway ⟨rfl, rfl, rfl, rfl⟩ rfl (by rw [hc]; rfl)
  | shutdownToken d b =>
    obtain rfl := Option.some.inj h
    exact .of_underway ⟨rfl, rfl, rfl, rfl⟩ rfl (by rw [hc]; rfl)
  | shutdownWait d token =>
    simp only [shutdownWait] at h
    repeat' split at h
    · obtain rfl := Option.some.inj h
      exact .of_underway still_prunePassResults rfl (by rw [hc]; rfl)
    · obtain rfl := Option.some.inj h
      exact .of_underway ⟨rfl, rfl, rfl, rfl⟩ rfl (by rw [hc]; rfl)
    · cases h
  | shutdownStop d persist =>
    obtain rfl := Option.some.inj h
    exact .of_underway ⟨rfl, rfl, rfl, rfl⟩ rfl (by rw [hc]; rfl)
  | shutdownJoin d persist =>
    simp only [shutdownJoin] at h
    repeat' split at h
    · rename_i hfin
      obtain rfl := Option.some.inj h
      exact .move (Or.inl rfl) (Or.inr ⟨hfin, rfl⟩) rfl (Or.inl rfl) (fun _ => Or.inr rfl)
        (fun h => Caller.noConfusion h) (fun _ h => Caller.noConfusion h)
        (by rw [hc]; exact Or.inl) (fun _ _ h => Caller.noConfusion h)
        (fun _ _ h => Caller.noConfusion h) (fun _ h => Caller.noConfusion h)
    · obtain rfl := Option.some.inj h
      exact shutdownDone_course ⟨rfl, rfl, rfl, rfl⟩ (by rw [hc]; rfl) fun hok => by cases hok
    · cases h
  | shutdownMark d persist =>
    simp only [shutdownMark] at h
    split at h
    · cases h
    · obtain rfl := Option.some.inj h
      exact .move (Or.inr (Or.inr ⟨Or.inr (by rw [hc]; rfl), by rw [hc]; rfl, rfl⟩)) (Or.inl rfl)
        rfl (Or.inl rfl) (fun _ => Or.inl (by rw [hc]; rfl)) (fun h => Caller.noConfusion h)
        (fun _ h => Caller.noConfusion h) (by rw [hc]; exact Or.inl)
        (fun _ _ h => Caller.noConfusion h) (fun _ _ _ => rfl)
        (fun _ h => Caller.noConfusion h)
  | shutdownTerminal d persist =>
    obtain rfl := Option.some.inj h
    unfold shutdownTerminal
    repeat' split
    all_goals
      exact shutdownDone_course ⟨rfl, rfl, rfl, rfl⟩ (by rw [hc]; rfl) fun _ =>
        Or.inr ⟨d, persist, hc⟩
  | destroyStop =>
    obtain rfl := Option.some.inj h
    exact .of_underway ⟨rfl, rfl, rfl, rfl⟩ rfl (by rw [hc]; rfl)
  | destroyCancel =>
    obtain rfl := Option.some.inj h
    exact .of_underway ⟨rfl, rfl, rfl, rfl⟩ rfl (by rw [hc]; rfl)
  | destroyJoin =>
    simp only [destroyJoin] at h
    split at h
    · rename_i hfin
      obtain rfl := Option.some.inj h
      exact .of_quiet (Or.inl rfl) (Or.inr ⟨hfin, rfl⟩) rfl (Or.inl rfl)
        (by rw [return_, move_callers]; rfl)
    · cases h
  | ownClose =>
    simp only [ownClose] at h
    split at h
    · cases h
    · obtain rfl := Option.some.inj h
      split
      · rename_i hrun
        exact .of_quiet (Or.inr (Or.inl ⟨by simp [hrun], rfl⟩)) (Or.inl rfl) rfl
          (Or.inl rfl) (by rw [move_callers]; rfl)
      · exact .of_move ⟨rfl, rfl, rfl, rfl⟩ rfl
  | ownStop => obtain rfl := Option.some.inj h; exact .of_move ⟨rfl, rfl, rfl, rfl⟩ rfl
  | exitJoin =>
    simp only [exitJoin] at h
    repeat' split at h
    · rename_i hfin
      obtain rfl := Option.some.inj h
      exact .move (Or.inl rfl) (Or.inr ⟨hfin, rfl⟩) rfl (Or.inl rfl) (fun _ => Or.inr rfl)
        (fun h => Caller.noConfusion h) (fun _ h => Caller.noConfusion h) (fun h => by cases h)
        (fun _ _ h => Caller.noConfusion h) (fun _ _ h => Caller.noConfusion h)
        (fun _ h => Caller.noConfusion h)
    · obtain rfl := Option.some.inj h; exact .of_move ⟨rfl, rfl, rfl, rfl⟩ rfl
    · cases h
  | exitMark =>
    simp only [exitMark] at h
    split at h
    · cases h
    · obtain rfl := Option.some.inj h
      have hjoined : (s.callers t).joined = true := by rw [hc]; rfl
      split
      · rename_i hrun
        exact waited_course hjoined (Or.inr (Or.inr ⟨Or.inl hrun, hjoined, rfl⟩)) rfl rfl rfl
      · exact waited_course hjoined (Or.inl rfl) rfl rfl rfl
  | consentLock state =>
    simp only [consentLock] at h
    split at h
    · cases h
    · obtain rfl := Option.some.inj h
      exact .of_move ⟨rfl, rfl, rfl, rfl⟩ rfl

/-- A step of a caller is one of a thread inside a call. -/
theorem step_busy (h : step env i s t = some s') : (s.callers t).free = false := by
  cases hc : s.callers t <;> first | rfl | simp [step, hc] at h

/-- A thread gets into the destructor by calling it. -/
theorem call_destroying {op : Op} (h : call env s t op = some s')
    (hd : (s'.callers t).destroying = true) : op = .destroy := by
  by_contra hop
  unfold call at h
  split at h
  · cases h
  cases op with
  | startSession p =>
    obtain rfl := Option.some.inj h
    split at hd <;> simp [return_, move_callers, Caller.destroying] at hd
  | flush =>
    obtain rfl := Option.some.inj h
    split at hd <;> simp [return_, move_callers, Caller.destroying] at hd
  | shutdown | waitForWorkerExit =>
    obtain rfl := Option.some.inj h
    rw [move_callers] at hd
    split at hd <;> cases hd
  | endSession | track | setConsent =>
    obtain rfl := Option.some.inj h
    rw [move_callers] at hd
    cases hd
  | destroy => exact hop rfl

/-- **Every call.** -/
theorem call_course {op : Op} (h : call env s t op = some s') : Course s t s' := by
  have hclient := call_client h
  have hlife : Advances s t s' := Or.inl (congrArg Client.lifecycle hclient)
  have hjoined : Joins s s' := Or.inl (congrArg Client.joined hclient)
  have hdone : s'.core.flushDone = s.core.flushDone := by
    obtain ⟨c, rfl⟩ := call_eq_move h
    rfl
  have herr : Forgets s s' := by
    obtain ⟨c, rfl⟩ := call_eq_move h
    exact Or.inl rfl
  unfold call at h
  split at h
  · cases h
  rename_i hfree
  cases op with
  | startSession p =>
    obtain rfl := Option.some.inj h
    refine .of_quiet hlife hjoined hdone herr ?_
    split
    · rename_i hok
      rw [return_, move_callers]
      simp [Caller.quiet, hok]
    · rw [move_callers]; rfl
  | flush =>
    obtain rfl := Option.some.inj h
    refine .of_quiet hlife hjoined hdone herr ?_
    split
    · rw [return_, move_callers]; rfl
    · rw [move_callers]; rfl
  | shutdown | waitForWorkerExit =>
    obtain rfl := Option.some.inj h
    refine .of_quiet hlife hjoined hdone herr ?_
    rw [move_callers]
    split <;> rfl
  | endSession | track | setConsent =>
    obtain rfl := Option.some.inj h
    exact .of_quiet hlife hjoined hdone herr (by rw [move_callers]; rfl)
  | destroy =>
    dsimp only at h
    split at h
    · cases h
    · obtain rfl := Option.some.inj h
      simp only [not_or, Bool.not_eq_false] at hfree
      exact .move hlife hjoined hdone herr (by simp [Caller.joined]) (fun h => Caller.noConfusion h)
        (fun _ h => Caller.noConfusion h) (fun _ => Or.inr hfree.1)
        (fun _ _ h => Caller.noConfusion h) (fun _ _ h => Caller.noConfusion h)
        (fun _ h => Caller.noConfusion h)

end Client

/-- The thread a label moves, if it is not the worker. -/
def Label.thread : Label → Option Tid
  | .worker _ => none
  | .call t _ | .caller t _ => some t

/-- **Every step** is one of the worker, or has a course. -/
theorem course_of_step {env : Env} {s s' : State} {l : Label} (hr : (machine env).Reach s)
    (h : step env s l = some s') :
    (∃ i, l = .worker i ∧ Worker.step env i s = some s') ∨
      ∃ t, l.thread = some t ∧ Aside s t s' ∧ Course s t s' := by
  cases l with
  | worker i => exact Or.inl ⟨i, rfl, h⟩
  | call t op => exact Or.inr ⟨t, rfl, (Client.call_turn h).1, Client.call_course h⟩
  | caller t i =>
    have hg := Custody.gated_of_reachable (custody_reachable hr)
    exact Or.inr ⟨t, rfl, (Client.step_turn hg h).1, Client.step_course h⟩

/-- A thread that none of the labels moves stays where it is. -/
theorem callers_of_exec {env : Env} {s s' : State} {ls : List Label} {t : Tid}
    (hr : (machine env).Reach s) (h : (machine env).exec s ls = some s')
    (hl : ls.all (fun l => decide (l.thread ≠ some t)) = true) : s'.callers t = s.callers t := by
  induction ls generalizing s with
  | nil =>
    obtain rfl : s = s' := by simpa [Lts.Machine.exec] using h
    rfl
  | cons l ls ih =>
    simp only [List.all_cons, Bool.and_eq_true, decide_eq_true_eq] at hl
    rcases hs : (machine env).step s l with _ | s₁
    · simp [Lts.Machine.exec, hs] at h
    · simp only [Lts.Machine.exec, hs, Option.bind_some] at h
      rw [ih (hr.step hs) h hl.2]
      rcases course_of_step hr hs with ⟨i, -, hw⟩ | ⟨u, hu, ha, -⟩
      · rw [(Worker.step_pass hw).1.callers]
      · exact ha.others t fun htu => hl.1 (htu ▸ hu)

end PlayerTrace
