import PlayerTrace.Control.Turns

/-!
# The worker's loop

The other half of the control side: what a statement of the worker does to the counters of
the flush passes, to its results, and to its own course through `run`. Most statements do
nothing to them; the others are listed in `PlayerTrace.Pass`.

A pass is *armed* once it has read its barrier (`PlayerTrace.Frame.armed`), and it settles
its outcome by the residual check, whose three tests are made one after the other at the
*settling* points.
-/

namespace PlayerTrace

namespace WorkerPc

/-- The points of a flush pass, from the barrier on, outside `process_incoming` and
`deliver_all`. -/
def inPass : WorkerPc → Bool
  | .remainsQueue _ | .remainsRetry _ | .remainsStore _ | .queueBefore | .popMore _
  | .stallCheck _ | .flushSink | .noteFlushSink _ | .takeOutcome | .record _ => true
  | _ => false

/-- Points that are reached by a test of `work_remains_at_or_below`. -/
def settling : WorkerPc → Bool
  | .remainsRetry _ | .remainsStore _ | .record _ => true
  | _ => false

/-- Points after the loop. -/
def ending : WorkerPc → Bool
  | .stopped | .terminate | .reportTerminal | .finish | .exited => true
  | _ => false

/-- The batch the sink has accepted and the store still holds. -/
def sent : WorkerPc → List SerializedEvent
  | .postConsent _ _ b | .postGeneration _ _ b | .acknowledge _ b => b
  | _ => []

/-- A point that promises nothing to a flush or a shutdown. -/
def plain (pc : WorkerPc) : Bool := !pc.settling && !pc.ending

end WorkerPc

/-- The pass has read its barrier. -/
def Frame.armed (f : Frame) : Prop := f.site ≠ .main ∨ f.pc.inPass = true

/-- What no statement of the worker touches. -/
structure Apart (s s' : State) : Prop where
  client : s'.client = s.client
  callers : s'.callers = s.callers
  flushSeq : s'.core.flushSeq = s.core.flushSeq
  flushBarrier : s'.core.flushBarrier = s.core.flushBarrier
  stop : s'.core.stop = s.core.stop
  issued : s'.log.issued = s.log.issued

/-- The control state of the worker's loop, but for its position. -/
structure Idle (s s' : State) : Prop where
  frame : s'.frame = { s.frame with pc := s'.frame.pc }
  passResults : s'.core.passResults = s.core.passResults
  finished : s'.core.finished = s.core.finished
  terminalStatus : s'.core.terminalStatus = s.core.terminalStatus
  written : s'.log.written = s.log.written

/-- **What a statement does to the worker's loop.** -/
inductive Pass (i : Input) (s s' : State) : Prop
  | plain (h : Idle s s') (hpc : s'.frame.pc.plain = true) (harmed : s'.frame.armed → s.frame.armed)
      (hsent : ∀ x ∈ s'.frame.pc.sent, x ∈ s.frame.pc.sent)
  | write {d : Bool} {v : Nat} {batch : List SerializedEvent}
      (hpc : s.frame.pc = .write d v batch)
      (hs : s' = { s with log := { s.log with written := s.log.written ++ batch } }.goto
        (.postConsent d v batch))
  | latch (hpc : s.frame.pc = .latch) (hcore : s'.core = s.core) (hlog : s'.log = s.log)
      (hf : ∃ pending pc, (pc = .clearError ∨ pc = .pop) ∧
        s'.frame = { s.frame with
          want := s.core.flushSeq, flushPending := pending, site := .main, pc := pc })
  | readBarrier (hpc : s.frame.pc = .readBarrier) (hcore : s'.core = s.core) (hlog : s'.log = s.log)
      (hf : ∃ pc, (pc = .flushSink ∨ pc = .remainsQueue .loop) ∧
        s'.frame = { s.frame with barrier := s.core.flushBarrier, pc := pc })
  | popMore {q : Nat} (hpc : s.frame.pc = .popMore q) (hcore : s'.core = s.core)
      (hlog : s'.log = s.log)
      (hf : ∃ l site, s'.frame = { s.frame with pc := .takeRetry l, site := site })
  -- the tests of the residual check
  | queueClear {r : Remains} (hpc : s.frame.pc = .remainsQueue r)
      (hclear : s.frame.barrier < frontOrdinal s.pipeline.queue)
      (hs : s' = s.goto (.remainsRetry r))
  | retryClear {r : Remains} (hpc : s.frame.pc = .remainsRetry r)
      (hclear : s.frame.barrier < frontOrdinal s.core.retry) (hs : s' = s.goto (.remainsStore r))
  | storeClear {outcome : Status} (hpc : s.frame.pc = .remainsStore (.residual outcome))
      (hclear : countUpTo i.faults s.frame.barrier s.pipeline.store = .ok 0)
      (hs : s' = s.goto (.record outcome))
  | vacuous {outcome : Status} (hpc : s.frame.pc = .takeOutcome) (hzero : s.frame.barrier = 0)
      (hs : Idle s s') (hpc' : s'.frame.pc = .record outcome)
  | failed {outcome : Status} (harmed : s.frame.pc.inPass = true) (hfail : outcome.ok = false)
      (hs : s' = s.goto (.record outcome))
  | record {outcome : Status} (hpc : s.frame.pc = .record outcome)
      (hs : s' = Worker.record s outcome)
  -- the end
  | stop (hpc : s.frame.pc = .checkStop) (hstop : s.core.stop = true) (hs : s' = s.goto .stopped)
  | ending (hpc : s.frame.pc.ending = true) (h : Idle s s') (hpc' : s'.frame.pc.ending = true)
      (hne : s'.frame.pc ≠ .exited)
  | finish (hpc : s.frame.pc = .finish) (hs : s' = Worker.finish s)
  | raise {what : Option String} (hraise : i.raise = some what) (hs : s' = Worker.unexpected s what)

variable {env : Env} {i : Input} {s s' x : State}

/-- Before the worker moves on: only the pipeline, the retry buffer, the error slot and the
history may differ. -/
structure Unmoved (s x : State) : Prop where
  apart : Apart s x
  frame : x.frame = s.frame
  passResults : x.core.passResults = s.core.passResults
  finished : x.core.finished = s.core.finished
  terminalStatus : x.core.terminalStatus = s.core.terminalStatus
  written : x.log.written = s.log.written

namespace Unmoved

theorem refl (s : State) : Unmoved s s := ⟨⟨rfl, rfl, rfl, rfl, rfl, rfl⟩, rfl, rfl, rfl, rfl, rfl⟩

theorem idle (h : Unmoved s x) (pc : WorkerPc) : Idle s (x.goto pc) :=
  ⟨by rw [State.goto, h.frame], h.passResults, h.finished, h.terminalStatus, h.written⟩

theorem apart_goto (h : Unmoved s x) (pc : WorkerPc) : Apart s (x.goto pc) :=
  ⟨h.apart.client, h.apart.callers, h.apart.flushSeq, h.apart.flushBarrier, h.apart.stop,
    h.apart.issued⟩

theorem goto {pc : WorkerPc} (h : Unmoved s x) (hpc : pc.plain = true)
    (harmed : pc.inPass = true → s.frame.armed) (hsent : ∀ y ∈ pc.sent, y ∈ s.frame.pc.sent) :
    Apart s (x.goto pc) ∧ Pass i s (x.goto pc) := by
  refine ⟨h.apart_goto pc, .plain (h.idle pc) hpc ?_ hsent⟩
  rintro (hsite | hin)
  · exact Or.inl (by rw [← h.frame]; exact hsite)
  · exact harmed hin

/-- Going where nothing is promised at all. -/
theorem idle_goto {pc : WorkerPc} (h : Unmoved s x) (hpc : pc.plain = true)
    (hin : pc.inPass = false) (hsent : pc.sent = []) :
    Apart s (x.goto pc) ∧ Pass i s (x.goto pc) :=
  h.goto hpc (by simp [hin]) (by simp [hsent])

/-- Going on with the pass, with nothing sent. -/
theorem armed_goto {pc : WorkerPc} (h : Unmoved s x) (hpc : pc.plain = true)
    (harmed : s.frame.armed) (hsent : pc.sent = []) :
    Apart s (x.goto pc) ∧ Pass i s (x.goto pc) :=
  h.goto hpc (fun _ => harmed) (by simp [hsent])

theorem enterLoop (h : Unmoved s x) (harmed : s.frame.armed) :
    Apart s (Worker.enterRemains x .loop) ∧ Pass i s (Worker.enterRemains x .loop) := by
  unfold Worker.enterRemains
  split
  · exact h.armed_goto rfl harmed rfl
  · exact h.armed_goto rfl harmed rfl

theorem afterDelivery (h : Unmoved s x) (d : Bool) :
    Apart s (Worker.afterDelivery x d) ∧ Pass i s (Worker.afterDelivery x d) := by
  unfold Worker.afterDelivery
  split
  · split
    · exact h.idle_goto rfl rfl rfl
    · exact h.idle_goto rfl rfl rfl
  · rename_i q moved hsite
    have harmed : s.frame.armed := Or.inl (by rw [← h.frame, hsite]; exact nofun)
    split
    · exact h.armed_goto rfl harmed rfl
    · exact h.enterLoop harmed

theorem afterIncoming (h : Unmoved s x) :
    Apart s (Worker.afterIncoming x) ∧ Pass i s (Worker.afterIncoming x) :=
  h.idle_goto rfl rfl rfl

theorem afterPurge (h : Unmoved s x) (site : PurgeSite) :
    Apart s (Worker.afterPurge x site) ∧ Pass i s (Worker.afterPurge x site) := by
  cases site with
  | incoming => exact h.afterIncoming
  | delivery d => exact h.afterDelivery d

theorem afterFetch (h : Unmoved s x) (d : Bool) (seen : Nat) (events : List SerializedEvent) :
    Apart s (Worker.afterFetch x d seen events) ∧
      Pass i s (Worker.afterFetch x d seen events) := by
  unfold Worker.afterFetch
  split
  · exact h.afterDelivery d
  · exact h.idle_goto rfl rfl rfl

theorem reportFetch (h : Unmoved s x) (d : Bool) (seen : Nat) (pending : FetchResult) :
    Apart s (Worker.reportFetch x d seen pending) ∧
      Pass i s (Worker.reportFetch x d seen pending) := by
  unfold Worker.reportFetch
  split
  · exact h.idle_goto rfl rfl rfl
  · exact h.afterFetch d seen pending.events

end Unmoved

namespace Worker

/-- The end of a test of the residual check that has found something, or of one in the
drain loop. -/
theorem remainsDone_pass {r : Remains} {w : Status} (hin : s.frame.pc.inPass = true)
    (hw : w.ok = false) :
    Apart s (remainsDone s r (some w)) ∧ Pass i s (remainsDone s r (some w)) := by
  have hs := Unmoved.refl s
  cases r with
  | loop => exact hs.armed_goto rfl (Or.inr hin) rfl
  | residual o =>
    refine ⟨hs.apart_goto _, .failed hin ?_ rfl⟩
    split
    · exact hw
    · rename_i ho
      simpa using ho

theorem execute_pass (h : execute env i s = some s') : Apart s s' ∧ Pass i s s' := by
  have hs := Unmoved.refl s
  have hu : ∀ p r e h, Unmoved s { s with
      pipeline := p, core := { s.core with retry := r, pendingError := e }, history := h } :=
    fun _ _ _ _ => ⟨⟨rfl, rfl, rfl, rfl, rfl, rfl⟩, rfl, rfl, rfl, rfl, rfl⟩
  unfold execute at h
  generalize hpc : s.frame.pc = pc at h
  cases pc with
  | start => obtain rfl := Option.some.inj h; exact hs.idle_goto rfl rfl rfl
  | latch =>
    obtain rfl := Option.some.inj h
    refine ⟨⟨rfl, rfl, rfl, rfl, rfl, rfl⟩, .latch hpc rfl rfl ⟨_, _, ?_, rfl⟩⟩
    split
    · exact Or.inl rfl
    · exact Or.inr rfl
  | clearError => obtain rfl := Option.some.inj h; exact (hu ..).idle_goto rfl rfl rfl
  | pop => obtain rfl := Option.some.inj h; exact (hu ..).idle_goto rfl rfl rfl
  | takeRetry l =>
    dsimp only [takeRetry] at h
    split at h
    · obtain rfl := Option.some.inj h
      split
      · exact (hu ..).afterIncoming
      · exact (hu ..).idle_goto rfl rfl rfl
    · cases h
  | readGeneration l => obtain rfl := Option.some.inj h; exact hs.idle_goto rfl rfl rfl
  | checkConsent v l =>
    obtain rfl := Option.some.inj h
    unfold checkConsent
    split
    · exact (hu ..).idle_goto rfl rfl rfl
    · exact hs.idle_goto rfl rfl rfl
  | countRevoked n => obtain rfl := Option.some.inj h; exact (hu ..).idle_goto rfl rfl rfl
  | serialize v k l =>
    obtain rfl := Option.some.inj h
    cases l with
    | nil =>
      simp only [serialize]
      split
      · exact hs.afterIncoming
      · exact hs.idle_goto rfl rfl rfl
    | cons e l =>
      simp only [serialize]
      split
      · exact (hu ..).idle_goto rfl rfl rfl
      · split
        · exact (hu ..).idle_goto rfl rfl rfl
        · exact hs.idle_goto rfl rfl rfl
  | countStale v k l => obtain rfl := Option.some.inj h; exact (hu ..).idle_goto rfl rfl rfl
  | countInvalid v k l => obtain rfl := Option.some.inj h; exact (hu ..).idle_goto rfl rfl rfl
  | boundaryConsent v k =>
    obtain rfl := Option.some.inj h
    unfold boundaryConsent
    split
    · exact (hu ..).idle_goto rfl rfl rfl
    · exact hs.idle_goto rfl rfl rfl
  | boundaryGeneration v k =>
    obtain rfl := Option.some.inj h
    unfold boundaryGeneration
    split
    · exact (hu ..).idle_goto rfl rfl rfl
    · exact hs.idle_goto rfl rfl rfl
  | insert v k =>
    obtain rfl := Option.some.inj h
    unfold insert
    dsimp only
    split
    · exact (hu ..).idle_goto rfl rfl rfl
    · exact (hu ..).idle_goto rfl rfl rfl
  | countBoundary n => obtain rfl := Option.some.inj h; exact (hu ..).afterIncoming
  | noteInsert st l => obtain rfl := Option.some.inj h; exact (hu ..).idle_goto rfl rfl rfl
  | holdForRetry l =>
    dsimp only [holdForRetry] at h
    split at h
    · obtain rfl := Option.some.inj h
      exact hs.afterIncoming
    · split at h
      · obtain rfl := Option.some.inj h
        exact (hu ..).afterIncoming
      · cases h
  | countPersisted n => obtain rfl := Option.some.inj h; exact (hu ..).afterIncoming
  | deliverConsent d =>
    obtain rfl := Option.some.inj h
    unfold deliverConsent
    split
    · exact hs.idle_goto rfl rfl rfl
    · exact hs.idle_goto rfl rfl rfl
  | fetch d seen =>
    obtain rfl := Option.some.inj h
    unfold fetch
    dsimp only
    split
    · exact (hu ..).idle_goto rfl rfl rfl
    · exact (hu ..).reportFetch d seen _
  | countQuarantined d seen p => obtain rfl := Option.some.inj h; exact (hu ..).reportFetch d seen p
  | noteFetch d seen p => obtain rfl := Option.some.inj h; exact (hu ..).afterFetch d seen _
  | deliverGeneration d seen b => obtain rfl := Option.some.inj h; exact hs.idle_goto rfl rfl rfl
  | recheckConsent d seen v b =>
    obtain rfl := Option.some.inj h
    unfold recheckConsent
    split
    · exact hs.idle_goto rfl rfl rfl
    · exact hs.idle_goto rfl rfl rfl
  | write d v b =>
    obtain rfl := Option.some.inj h
    unfold write
    dsimp only
    split
    · exact hs.idle_goto rfl rfl rfl
    · exact ⟨⟨rfl, rfl, rfl, rfl, rfl, rfl⟩, .write hpc rfl⟩
  | noteWrite d st => obtain rfl := Option.some.inj h; exact (hu ..).afterDelivery d
  | postConsent d v b =>
    obtain rfl := Option.some.inj h
    unfold postConsent
    split
    · exact hs.idle_goto rfl rfl rfl
    · exact hs.goto rfl (fun hin => by cases hin) (by rw [hpc]; exact fun _ hy => hy)
  | postGeneration d v b =>
    obtain rfl := Option.some.inj h
    unfold postGeneration
    split
    · exact hs.idle_goto rfl rfl rfl
    · exact hs.goto rfl (fun hin => by cases hin) (by rw [hpc]; exact fun _ hy => hy)
  | acknowledge d b =>
    obtain rfl := Option.some.inj h
    unfold acknowledge
    dsimp only
    split
    · exact (hu ..).idle_goto rfl rfl rfl
    · exact (hu ..).idle_goto rfl rfl rfl
  | noteAck d st => obtain rfl := Option.some.inj h; exact (hu ..).afterDelivery d
  | countDelivered n => obtain rfl := Option.some.inj h; exact (hu ..).idle_goto rfl rfl rfl
  | purge site =>
    obtain rfl := Option.some.inj h
    unfold purge
    dsimp only
    split
    · exact (hu ..).idle_goto rfl rfl rfl
    · exact (hu ..).idle_goto rfl rfl rfl
  | notePurge site st => obtain rfl := Option.some.inj h; exact (hu ..).afterPurge site
  | resetOutstanding site n => obtain rfl := Option.some.inj h; exact (hu ..).afterPurge site
  | readBarrier =>
    obtain rfl := Option.some.inj h
    unfold readBarrier enterRemains
    split
    · exact ⟨⟨rfl, rfl, rfl, rfl, rfl, rfl⟩, .readBarrier hpc rfl rfl ⟨_, Or.inl rfl, rfl⟩⟩
    · exact ⟨⟨rfl, rfl, rfl, rfl, rfl, rfl⟩, .readBarrier hpc rfl rfl ⟨_, Or.inr rfl, rfl⟩⟩
  | remainsQueue r =>
    obtain rfl := Option.some.inj h
    unfold remainsQueue
    split
    · exact remainsDone_pass (by rw [hpc]; rfl) rfl
    · rename_i hclear
      exact ⟨hs.apart_goto _, .queueClear hpc (Nat.lt_of_not_le hclear) rfl⟩
  | remainsRetry r =>
    dsimp only [remainsRetry] at h
    split at h
    · obtain rfl := Option.some.inj h
      split
      · exact remainsDone_pass (by rw [hpc]; rfl) rfl
      · rename_i hclear
        exact ⟨hs.apart_goto _, .retryClear hpc (Nat.lt_of_not_le hclear) rfl⟩
    · cases h
  | remainsStore r =>
    obtain rfl := Option.some.inj h
    have hin : s.frame.pc.inPass = true := by rw [hpc]; rfl
    unfold remainsStore
    split
    · rename_i e hcount
      exact remainsDone_pass hin (countUpTo_eq_error hcount)
    · rename_i n hcount
      split
      · exact remainsDone_pass hin rfl
      · rename_i hn
        cases r with
        | loop => exact hs.armed_goto rfl (Or.inr hin) rfl
        | residual o =>
          obtain rfl : n = 0 := by omega
          exact ⟨hs.apart_goto _, .storeClear hpc hcount rfl⟩
  | queueBefore =>
    obtain rfl := Option.some.inj h
    exact hs.armed_goto rfl (Or.inr (by rw [hpc]; rfl)) rfl
  | popMore q =>
    obtain rfl := Option.some.inj h
    exact ⟨⟨rfl, rfl, rfl, rfl, rfl, rfl⟩, .popMore hpc rfl rfl ⟨_, _, rfl⟩⟩
  | stallCheck q =>
    obtain rfl := Option.some.inj h
    have harmed : s.frame.armed := Or.inr (by rw [hpc]; rfl)
    unfold stallCheck
    split
    · exact hs.armed_goto rfl harmed rfl
    · exact hs.enterLoop harmed
  | flushSink =>
    obtain rfl := Option.some.inj h
    have harmed : s.frame.armed := Or.inr (by rw [hpc]; rfl)
    unfold flushSink
    dsimp only
    split
    · exact hs.armed_goto rfl harmed rfl
    · exact hs.armed_goto rfl harmed rfl
  | noteFlushSink st =>
    obtain rfl := Option.some.inj h
    exact (hu ..).armed_goto rfl (Or.inr (by rw [hpc]; rfl)) rfl
  | takeOutcome =>
    obtain rfl := Option.some.inj h
    have hs' := hu s.pipeline s.core.retry {} s.history
    unfold takeOutcome enterRemains
    split
    · rename_i hzero
      exact ⟨hs'.apart_goto _, .vacuous hpc hzero (hs'.idle _) rfl⟩
    · exact hs'.armed_goto rfl (Or.inr (by rw [hpc]; rfl)) rfl
  | record o =>
    obtain rfl := Option.some.inj h
    exact ⟨⟨rfl, rfl, rfl, rfl, rfl, rfl⟩, .record hpc rfl⟩
  | checkStop =>
    obtain rfl := Option.some.inj h
    unfold checkStop
    cases hstop : s.core.stop with
    | true => exact ⟨hs.apart_goto _, .stop hpc hstop rfl⟩
    | false => exact hs.idle_goto rfl rfl rfl
  | stopped =>
    obtain rfl := Option.some.inj h
    refine ⟨hs.apart_goto _, .ending (by rw [hpc]; rfl) (hs.idle _) ?_ ?_⟩
    · rw [stopped, State.goto]
      split <;> rfl
    · rw [stopped, State.goto]
      split <;> exact fun h => by cases h
  | terminate =>
    obtain rfl := Option.some.inj h
    have hs' := hu { s.pipeline with terminated := true } s.core.retry s.core.pendingError s.history
    exact ⟨hs'.apart_goto _, .ending (by rw [hpc]; rfl) (hs'.idle _) rfl fun h => by cases h⟩
  | reportTerminal =>
    obtain rfl := Option.some.inj h
    exact ⟨hs.apart_goto _, .ending (by rw [hpc]; rfl) (hs.idle _) rfl fun h => by cases h⟩
  | finish =>
    obtain rfl := Option.some.inj h
    exact ⟨⟨rfl, rfl, rfl, rfl, rfl, rfl⟩, .finish hpc rfl⟩
  | exited => cases h

/-- A step without an exception executes a statement. -/
theorem execute_of_step (hraise : i.raise = none) (h : step env i s = some s') :
    execute env i s = some s' := by
  unfold step at h
  split at h
  · cases h
  · rwa [hraise] at h

/-- A step with an exception ends the loop. -/
theorem unexpected_of_step {what : Option String} (hraise : i.raise = some what)
    (h : step env i s = some s') : s' = unexpected s what := by
  unfold step at h
  rw [hraise] at h
  split at h
  · cases h
  · dsimp only at h
    split at h
    · exact (Option.some.inj h).symm
    · cases h

/-- **Every step of the worker is one of these.** -/
theorem step_pass (h : step env i s = some s') : Apart s s' ∧ Pass i s s' := by
  unfold step at h
  split at h
  · cases h
  split at h
  · split at h
    · rename_i what hraise hin
      obtain rfl := Option.some.inj h
      exact ⟨⟨rfl, rfl, rfl, rfl, rfl, rfl⟩, .raise hraise rfl⟩
    · cases h
  · exact execute_pass h

/-- The worker does not come back from the end of its loop. -/
theorem step_ending (h : step env i s = some s') (hpc : s.frame.pc.ending = true) :
    s'.frame.pc.ending = true := by
  unfold step at h
  split at h
  · cases h
  split at h
  · split at h
    · obtain rfl := Option.some.inj h
      rfl
    · cases h
  · unfold execute at h
    split at h <;> rename_i heq <;> simp only [heq, WorkerPc.ending, Bool.false_eq_true] at hpc
    · obtain rfl := Option.some.inj h
      unfold stopped
      split <;> rfl
    · obtain rfl := Option.some.inj h
      rfl
    · obtain rfl := Option.some.inj h
      rfl
    · obtain rfl := Option.some.inj h
      rfl
    · cases h

/-- What the sink has accepted grows only where the worker gets `Ok` from it. -/
theorem written_cases (h : step env i s = some s') :
    s'.log.written = s.log.written ∨
      ∃ d v batch, s.frame.pc = .write d v batch ∧ i.raise = none ∧
        (safeWrite i.sink).ok = true ∧ s'.log.written = s.log.written ++ batch := by
  rcases hraise : i.raise with _ | what
  · cases (step_pass h).2 with
    | plain hidle | vacuous _ _ hidle | ending _ hidle => exact Or.inl hidle.written
    | @write d v batch hpc hs =>
      refine Or.inr ⟨d, v, batch, hpc, rfl, ?_, by rw [hs]; rfl⟩
      have hex := execute_of_step hraise h
      unfold execute at hex
      simp only [hpc, write, Option.some.injEq] at hex
      split at hex
      · subst hex
        cases congrArg (fun s => s.frame.pc) hs
      · rename_i hok
        simpa using hok
    | latch _ _ hlog | readBarrier _ _ hlog | popMore _ _ hlog => exact Or.inl (by rw [hlog])
    | queueClear _ _ hs | retryClear _ _ hs | storeClear _ _ hs | failed _ _ hs | record _ hs
    | stop _ _ hs | finish _ hs =>
      subst hs
      exact Or.inl rfl
    | raise hr => simp [hraise] at hr
  · rw [unexpected_of_step hraise h]
    exact Or.inl rfl

end Worker

/-- **An exception ends the loop for good**: as long as the worker is in its loop, its
terminal status is `Ok`. -/
theorem ending_of_terminal (h : (machine env).Reach s) :
    s.core.terminalStatus.ok = false → s.frame.pc.ending = true := by
  refine h.rule (P := fun s => s.core.terminalStatus.ok = false → s.frame.pc.ending = true)
    (fun s hs hok => ?_) (fun s l s' hr hi hs hok => ?_)
  · obtain ⟨db, m, earlier, rfl⟩ := start_eq hs
    cases hok
  · rcases turn_of_step hr hs with ⟨i, -, hw⟩ | ⟨t, -, ha, -⟩
    · have hkeep : s'.core.terminalStatus = s.core.terminalStatus → s'.frame.pc.ending = true :=
        fun heq => Worker.step_ending hw (hi (heq ▸ hok))
      cases (Worker.step_pass hw).2 with
      | plain hidle | vacuous _ _ hidle | ending _ hidle => exact hkeep hidle.terminalStatus
      | latch _ hcore | readBarrier _ hcore | popMore _ hcore =>
        exact hkeep (congrArg WorkerCore.terminalStatus hcore)
      | write _ heq | queueClear _ _ heq | retryClear _ _ heq | storeClear _ _ heq
      | failed _ _ heq | record _ heq | stop _ _ heq | finish _ heq =>
        exact hkeep (by rw [heq]; rfl)
      | raise _ heq =>
        rw [heq]
        rfl
    · rw [ha.frame]
      exact hi (ha.terminalStatus ▸ hok)

end PlayerTrace
