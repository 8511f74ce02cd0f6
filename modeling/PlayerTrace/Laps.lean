import PlayerTrace.Progress
import PlayerTrace.Termination
import PlayerTrace.Tokens

/-!
# The laps of the worker's loop

A *lap* is an iteration of the worker's loop, with its flush pass if it has one. A pass ends
whatever fails (`PlayerTrace.flush_pass_ends`); so does a lap, and what it costs at most depends
on nothing but the events in the pipeline (`PlayerTrace.State.lap`). Two promises of the client
follow, both without any assumption on the answers of the store and of the sink:

* once the stop flag is set the worker is gone after a lap and a few statements: nothing can be
  admitted any more, so there is nothing that could prolong it (`PlayerTrace.worker_exits`);
* a flush token is answered within two laps – the one under way may have latched its tokens too
  early, the next one cannot – as long as no event is admitted meanwhile
  (`PlayerTrace.token_answered`).

How the worker goes round is `PlayerTrace.Stride`; the measure that goes down with every
statement is `PlayerTrace.State.countdown`.
-/

namespace PlayerTrace

variable {env : Env} {i : Input} {s s' x : State} {l : Label} {token : Nat}

/-! ### What a lap costs -/

/-- The statements of a lap, at most. -/
def State.lap (s : State) : Nat := (3 * s.load + 2) * s.span

theorem State.weight_le (s : State) : s.weight ≤ 3 * s.load := by
  unfold weight load Sizes.weight Sizes.load
  omega

theorem State.potential_le_lap (s : State) : s.potential ≤ s.lap := by
  have hrounds : s.rounds ≤ 3 * s.load + 1 := by
    have := s.rounds_le
    have := s.weight_le
    omega
  calc s.potential
      ≤ (3 * s.load + 1) * s.span + s.span := by
        exact Nat.add_le_add (Nat.mul_le_mul_right _ hrounds) s.steps_le
    _ = s.lap := by rw [lap, ← Nat.succ_mul]

theorem State.lap_mono (h : s'.load ≤ s.load) : s'.lap ≤ s.lap := by
  unfold lap span
  exact Nat.mul_le_mul (by omega) (by omega)

/-! ### How the worker goes round -/

/-- What a pass leaves alone of the tokens it has latched. -/
structure Keeps (s s' : State) : Prop where
  flushPending : s'.frame.flushPending = s.frame.flushPending
  want : s'.frame.want = s.frame.want
  handledFlush : s'.frame.handledFlush = s.frame.handledFlush

/-- The statements after the loop that are not its last. -/
def WorkerPc.closes : WorkerPc → Bool
  | .stopped | .terminate | .reportTerminal => true
  | _ => false

/-- The statements up to the end of the thread if the loop is left at the next occasion, but for
those of the pass. -/
def WorkerPc.tail : WorkerPc → Nat
  | .start => 8
  | .latch => 7
  | .checkStop => 5
  | .stopped => 4
  | .terminate => 3
  | .reportTerminal => 2
  | .finish => 1
  | .exited => 0
  | _ => 6

/-- **A statement of the worker**, by what it does to the loop. -/
inductive Stride (s s' : State) : Prop
  | begins (hpc : s.frame.pc = .start) (hs : s' = s.goto .latch)
  | latches (hpc : s.frame.pc = .latch) (hs : s' = Worker.latch s)
  | passes (hpass : s.frame.pc.passing = true) (hpass' : s'.frame.pc.passing = true)
      (hkeep : Keeps s s')
  | concludes {o : Status} (hpass : s.frame.pc.passing = true) (hpc' : s'.frame.pc = .record o)
      (hkeep : Keeps s s')
  | skips (hpass : s.frame.pc.passing = true) (hnone : s.frame.flushPending = false)
      (hpc' : s'.frame.pc = .checkStop) (hkeep : Keeps s s')
  | records {o : Status} (hpc : s.frame.pc = .record o) (hs : s' = Worker.record s o)
  | again (hpc : s.frame.pc = .checkStop) (hstop : s.core.stop = false) (hs : s' = s.goto .latch)
  | stops (hpc : s.frame.pc = .checkStop) (hstop : s.core.stop = true) (hs : s' = s.goto .stopped)
  | closes {pc : WorkerPc} (hpc : s.frame.pc.closes = true) (htail : pc.tail < s.frame.pc.tail)
      (hs : s' = { s with pipeline := s'.pipeline }.goto pc)
      (hsame : s'.sizes = s.sizes) (hpc' : pc.ending = true)
  | finishes (hpc : s.frame.pc = .finish) (hs : s' = Worker.finish s)
  | raises {what : Option String} (hloop : s.frame.pc.inLoop = true)
      (hs : s' = Worker.unexpected s what)

/-- A statement of a pass that ends with `x` in `x`'s own pass, or concludes it. -/
def Stays (s x : State) : Prop :=
  x.frame.pc.passing = true ∨ (∃ o, x.frame.pc = .record o) ∨
    (x.frame.pc = .checkStop ∧ s.frame.flushPending = false)

namespace Worker

theorem stays_goto {pc : WorkerPc} (h : pc.passing = true) : Stays s (x.goto pc) := Or.inl h

theorem stays_remainsDone (r : Remains) (why : Option Status) :
    Stays s (remainsDone x r why) := by
  cases r <;> cases why <;> first | exact Or.inl rfl | exact Or.inr (Or.inl ⟨_, rfl⟩)

theorem stays_enterRemains (r : Remains) : Stays s (enterRemains x r) := by
  unfold enterRemains
  split
  · exact stays_remainsDone r none
  · exact stays_goto rfl

theorem stays_afterDelivery (h : x.frame.flushPending = s.frame.flushPending) (d : Bool) :
    Stays s (afterDelivery x d) := by
  unfold afterDelivery
  split
  · split
    · exact stays_goto rfl
    · rename_i hnone
      exact Or.inr (Or.inr ⟨rfl, by rw [← h]; simpa using hnone⟩)
  · split
    · exact stays_goto rfl
    · exact stays_enterRemains .loop

theorem stays_afterPurge (h : x.frame.flushPending = s.frame.flushPending) (site : PurgeSite) :
    Stays s (afterPurge x site) := by
  cases site with
  | incoming => exact stays_goto rfl
  | delivery d => exact stays_afterDelivery h d

theorem stays_afterFetch (h : x.frame.flushPending = s.frame.flushPending) (d : Bool) (seen : Nat)
    (events : List SerializedEvent) : Stays s (afterFetch x d seen events) := by
  unfold afterFetch
  split
  · exact stays_afterDelivery h d
  · exact stays_goto rfl

theorem stays_reportFetch (h : x.frame.flushPending = s.frame.flushPending) (d : Bool)
    (seen : Nat) (pending : FetchResult) : Stays s (reportFetch x d seen pending) := by
  unfold reportFetch
  split
  · exact stays_goto rfl
  · exact stays_afterFetch h d seen pending.events

/-- **A pass ends by its record**, or, if no flush was pending, at the end of the iteration. -/
theorem execute_stays (hpass : s.frame.pc.passing = true) (h : execute env i s = some s') :
    Stays s s' := by
  have hstep : ∀ {y}, some y = some s' → Stays s y → Stays s s' :=
    fun hy hl => Option.some.inj hy ▸ hl
  unfold execute at h
  generalize hpc : s.frame.pc = pc at h hpass
  cases pc with
  | start | latch | record | checkStop | stopped | terminate | reportTerminal | finish | exited =>
    cases hpass
  | takeRetry l =>
    dsimp only [takeRetry] at h
    split at h
    · refine hstep h ?_
      split <;> exact stays_goto rfl
    · cases h
  | holdForRetry l =>
    dsimp only [holdForRetry] at h
    split at h
    · exact hstep h (stays_goto rfl)
    · split at h
      · exact hstep h (stays_goto rfl)
      · cases h
  | remainsRetry r =>
    dsimp only [remainsRetry] at h
    split at h
    · refine hstep h ?_
      split
      · exact stays_remainsDone r _
      · exact stays_goto rfl
    · cases h
  | serialize v k batch =>
    refine hstep h ?_
    cases batch with
    | nil =>
      simp only [serialize]
      split <;> exact stays_goto rfl
    | cons e batch =>
      simp only [serialize]
      repeat' split
      all_goals exact stays_goto rfl
  | checkConsent | boundaryConsent | boundaryGeneration | deliverConsent | recheckConsent
  | postConsent | postGeneration =>
    refine hstep h ?_
    simp only [checkConsent, boundaryConsent, boundaryGeneration, deliverConsent, recheckConsent,
      postConsent, postGeneration]
    split <;> exact stays_goto rfl
  | insert | write | acknowledge | purge | flushSink =>
    refine hstep h ?_
    simp only [insert, write, acknowledge, purge, flushSink]
    split <;> exact stays_goto rfl
  | fetch d seen =>
    refine hstep h ?_
    simp only [fetch]
    split
    · exact stays_goto rfl
    · exact stays_reportFetch rfl d seen _
  | countQuarantined d seen p => exact hstep h (stays_reportFetch rfl d seen p)
  | noteFetch d seen p => exact hstep h (stays_afterFetch rfl d seen p.events)
  | noteWrite d st | noteAck d st => exact hstep h (stays_afterDelivery rfl d)
  | notePurge site st => exact hstep h (stays_afterPurge rfl site)
  | resetOutstanding site n => exact hstep h (stays_afterPurge rfl site)
  | readBarrier => exact hstep h (stays_enterRemains .loop)
  | remainsQueue r =>
    refine hstep h ?_
    unfold remainsQueue
    split
    · exact stays_remainsDone r _
    · exact stays_goto rfl
  | remainsStore r =>
    refine hstep h ?_
    unfold remainsStore
    repeat' split
    all_goals exact stays_remainsDone r _
  | stallCheck q =>
    refine hstep h ?_
    unfold stallCheck
    split
    · exact stays_goto rfl
    · exact stays_enterRemains .loop
  | takeOutcome => exact hstep h (stays_enterRemains _)
  | clearError | pop | readGeneration | countRevoked | countStale | countInvalid | countBoundary
  | noteInsert | countPersisted | deliverGeneration | countDelivered | queueBefore
  | noteFlushSink => exact hstep h (stays_goto rfl)
  | popMore => exact hstep h (Or.inl rfl)

/-- A statement of a pass keeps what was latched. -/
theorem keeps_of_pass (hpass : s.frame.pc.passing = true) (hraise : i.raise = none)
    (h : Pass i s s') : Keeps s s' := by
  have hframe : ∀ {f : Frame}, s'.frame = f → f.flushPending = s.frame.flushPending →
      f.want = s.frame.want → f.handledFlush = s.frame.handledFlush → Keeps s s' := by
    rintro f rfl hpending hwant hhandled
    exact ⟨hpending, hwant, hhandled⟩
  have hnot : ∀ {pc : WorkerPc}, s.frame.pc = pc → pc.passing = false → Keeps s s' := by
    intro pc hpc hp
    rw [hpc, hp] at hpass
    cases hpass
  cases h with
  | plain hidle | vacuous _ _ hidle => exact hframe hidle.frame rfl rfl rfl
  | write _ hs | queueClear _ _ hs | retryClear _ _ hs | storeClear _ _ hs | failed _ _ hs =>
    exact hframe (congrArg State.frame hs) rfl rfl rfl
  | readBarrier _ _ _ hf =>
    obtain ⟨pc, -, hf⟩ := hf
    exact hframe hf rfl rfl rfl
  | popMore _ _ _ hf =>
    obtain ⟨l, site, hf⟩ := hf
    exact hframe hf rfl rfl rfl
  | latch hpc | record hpc | stop hpc | finish hpc => exact hnot hpc rfl
  | ending hpc =>
    generalize s.frame.pc = pc at hpc hpass
    cases pc <;> first | cases hpc; done | cases hpass
  | raise hr => rw [hraise] at hr; cases hr

theorem stride_of_execute (hraise : i.raise = none) (h : execute env i s = some s') :
    Stride s s' := by
  by_cases hpass : s.frame.pc.passing = true
  · have hkeep := keeps_of_pass hpass hraise (execute_pass h).2
    rcases execute_stays hpass h with hp | ⟨o, hp⟩ | ⟨hp, hnone⟩
    · exact .passes hpass hp hkeep
    · exact .concludes hpass hp hkeep
    · exact .skips hpass hnone hp hkeep
  · unfold execute at h
    cases hpc : s.frame.pc with
    | start => rw [hpc] at h; exact .begins hpc (Option.some.inj h).symm
    | latch => rw [hpc] at h; exact .latches hpc (Option.some.inj h).symm
    | record o => rw [hpc] at h; exact .records hpc (Option.some.inj h).symm
    | checkStop =>
      rw [hpc] at h
      have hs := (Option.some.inj h).symm
      unfold checkStop at hs
      rcases hstop : s.core.stop with _ | _
      · rw [hstop] at hs
        exact .again hpc hstop hs
      · rw [hstop] at hs
        exact .stops hpc hstop hs
    | stopped =>
      rw [hpc] at h
      obtain rfl := Option.some.inj h
      unfold stopped
      split
      · exact .closes (by rw [hpc]; rfl) (by rw [hpc]; exact Nat.lt_succ_self 3) rfl rfl rfl
      · exact .closes (by rw [hpc]; rfl) (by rw [hpc]; exact Nat.le_add_left 2 2) rfl rfl rfl
    | terminate =>
      rw [hpc] at h
      obtain rfl := Option.some.inj h
      exact .closes (by rw [hpc]; rfl) (by rw [hpc]; exact Nat.lt_succ_self 2) rfl rfl rfl
    | reportTerminal =>
      rw [hpc] at h
      obtain rfl := Option.some.inj h
      exact .closes (by rw [hpc]; rfl) (by rw [hpc]; exact Nat.lt_succ_self 1) rfl rfl rfl
    | finish => rw [hpc] at h; exact .finishes hpc (Option.some.inj h).symm
    | exited => rw [hpc] at h; cases h
    | _ => rw [hpc] at hpass; exact absurd rfl hpass

/-- **Every step of the worker.** -/
theorem stride_of_step (h : step env i s = some s') : Stride s s' := by
  rcases hraise : i.raise with _ | what
  · exact stride_of_execute hraise (execute_of_step hraise h)
  · refine .raises ?_ (unexpected_of_step hraise h)
    unfold step at h
    rw [hraise] at h
    split at h
    · cases h
    · dsimp only at h
      split at h
      · assumption
      · cases h

end Worker

/-! ### The countdown -/

/-- A position at the head of the loop. -/
def WorkerPc.heads : WorkerPc → Bool
  | .start | .latch => true
  | _ => false

/-- The part of the countdown that depends on the events: the pass under way, or the one that is
about to begin. -/
def State.share (s : State) : Nat :=
  if s.frame.pc.passing then s.potential else if s.frame.pc.heads then s.lap else 0

/-- **The statements up to the end of the thread**, at most, if it is not sent round again. -/
def State.countdown (s : State) : Nat := s.frame.pc.tail + s.share

theorem share_of_passing (h : s.frame.pc.passing = true) : s.share = s.potential := if_pos h

theorem share_of_head (h : s.frame.pc.heads = true) : s.share = s.lap := by
  rw [State.share, if_neg, if_pos h]
  cases hpc : s.frame.pc <;> simp [hpc, WorkerPc.heads, WorkerPc.passing] at h ⊢

theorem share_of_end (hpass : s.frame.pc.passing = false) (hhead : s.frame.pc.heads = false) :
    s.share = 0 := by
  rw [State.share, if_neg (by simp [hpass]), if_neg (by simp [hhead])]

theorem State.countdown_le (s : State) : s.countdown ≤ s.lap + 8 := by
  have hle := s.potential_le_lap
  have htail : s.frame.pc.tail ≤ 8 := by
    cases s.frame.pc <;> simp [WorkerPc.tail]
  unfold countdown share
  repeat' split
  all_goals omega

theorem tail_of_passing {pc : WorkerPc} (h : pc.passing = true) : pc.tail = 6 := by
  cases pc <;> first | cases h; done | rfl

/-- An exception takes the events in hand with it. -/
theorem load_unexpected (what : Option String) : (Worker.unexpected s what).load ≤ s.load :=
  Nat.add_le_add_right (Nat.add_le_add_left (Nat.zero_le _) _) _

/-- Outside a pass the worker has nothing in hand, so moving on changes no load. -/
theorem load_of_sizes (h : s'.sizes = s.sizes) (hs' : s'.hands = []) : s'.load ≤ s.load := by
  rw [State.load, State.load, h, hs']
  exact Nat.add_le_add_right (Nat.add_le_add_left (Nat.zero_le _) _) _

theorem hands_of_ending {pc : WorkerPc} (h : pc.ending = true) : pc.hands = [] := by
  cases pc <;> first | cases h; done | rfl

/-- The loop is gone through once more. -/
def Turns (s s' : State) : Prop := s.frame.pc = .checkStop ∧ s' = s.goto .latch

/-- Once the stop flag is set it is not. -/
theorem Stride.not_turns (h : Stride s s') (hstop : s.core.stop = true) : ¬Turns s s' := by
  rintro ⟨hpc, hs⟩
  have hlatch : s'.frame.pc = .latch := by rw [hs]; rfl
  cases h with
  | again _ hgo => rw [hstop] at hgo; cases hgo
  | stops _ _ hs' => rw [hs'] at hlatch; cases hlatch
  | raises _ hs' => rw [hs'] at hlatch; cases hlatch
  | begins hp | latches hp | records hp | finishes hp => rw [hpc] at hp; cases hp
  | passes hp | concludes hp | skips hp | closes hp => rw [hpc] at hp; cases hp

/-- **A statement brings the end closer**, unless the loop is gone through once more. -/
theorem Worker.countdown_step (h : step env i s = some s') (hturn : ¬Turns s s') :
    s'.countdown + 1 ≤ s.countdown ∧ s'.load ≤ s.load := by
  have hpaid : s.frame.pc.passing = true → s'.potential + 1 ≤ s.potential ∧ s'.load ≤ s.load := by
    intro hpass
    have ha := Worker.advance_of_step hpass h
    have hp := ha.potential
    rw [statements, List.length_singleton] at hp
    refine ⟨by omega, ?_⟩
    cases ha with
    | inside _ hl => exact hl.load
    | opens _ _ hl => exact hl
    | aside hl => cases hl
  cases stride_of_step h with
  | begins hpc hs =>
    have hload : s'.load ≤ s.load := load_of_sizes (by rw [hs]; rfl) (by rw [hs]; rfl)
    have hlap := State.lap_mono hload
    rw [State.countdown, State.countdown, share_of_head (by rw [hs]; rfl),
      share_of_head (by rw [hpc]; rfl), hpc, show s'.frame.pc = .latch by rw [hs]; rfl]
    simp only [WorkerPc.tail]
    omega
  | latches hpc hs =>
    have hload : s'.load ≤ s.load := by
      refine load_of_sizes (by rw [hs]; rfl) ?_
      rw [hs, State.hands]
      unfold latch
      dsimp only
      split <;> rfl
    have hpass : s'.frame.pc.passing = true := by
      rw [hs]
      unfold latch
      dsimp only
      split <;> rfl
    have hlap := State.lap_mono hload
    have hle := s'.potential_le_lap
    rw [State.countdown, State.countdown, share_of_passing hpass, tail_of_passing hpass,
      share_of_head (by rw [hpc]; rfl), hpc]
    simp only [WorkerPc.tail]
    omega
  | passes hpass hpass' =>
    obtain ⟨hlower, hload⟩ := hpaid hpass
    rw [State.countdown, State.countdown, share_of_passing hpass, share_of_passing hpass',
      tail_of_passing hpass, tail_of_passing hpass']
    omega
  | concludes hpass hpc' =>
    obtain ⟨hlower, hload⟩ := hpaid hpass
    rw [State.countdown, State.countdown, share_of_passing hpass, tail_of_passing hpass,
      share_of_end (by rw [hpc']; rfl) (by rw [hpc']; rfl), hpc']
    simp only [WorkerPc.tail]
    omega
  | skips hpass _ hpc' =>
    obtain ⟨hlower, hload⟩ := hpaid hpass
    rw [State.countdown, State.countdown, share_of_passing hpass, tail_of_passing hpass,
      share_of_end (by rw [hpc']; rfl) (by rw [hpc']; rfl), hpc']
    simp only [WorkerPc.tail]
    omega
  | records hpc hs =>
    refine ⟨?_, load_of_sizes (by rw [hs]; rfl) (by rw [hs]; rfl)⟩
    rw [State.countdown, State.countdown, share_of_end (by rw [hs]; rfl) (by rw [hs]; rfl), hpc,
      show s'.frame.pc = .checkStop by rw [hs]; rfl]
    simp only [WorkerPc.tail]
    omega
  | again hpc _ hs => exact absurd ⟨hpc, hs⟩ hturn
  | stops hpc _ hs =>
    refine ⟨?_, load_of_sizes (by rw [hs]; rfl) (by rw [hs]; rfl)⟩
    rw [State.countdown, State.countdown, share_of_end (by rw [hs]; rfl) (by rw [hs]; rfl), hpc,
      show s'.frame.pc = .stopped by rw [hs]; rfl]
    simp only [WorkerPc.tail]
    omega
  | @closes pc hpc htail hs hsame hpc' =>
    have hframe : s'.frame.pc = pc := by rw [hs]; rfl
    refine ⟨?_, load_of_sizes hsame (by rw [State.hands, hframe, hands_of_ending hpc'])⟩
    have hpass : pc.passing = false := by cases pc <;> first | cases hpc'; done | rfl
    have hhead : pc.heads = false := by cases pc <;> first | cases hpc'; done | rfl
    rw [State.countdown, State.countdown, share_of_end (by rw [hframe]; exact hpass)
      (by rw [hframe]; exact hhead), hframe]
    omega
  | finishes hpc hs =>
    refine ⟨?_, load_of_sizes (by rw [hs]; rfl) (by rw [hs]; rfl)⟩
    rw [State.countdown, State.countdown, share_of_end (by rw [hs]; rfl) (by rw [hs]; rfl), hpc,
      show s'.frame.pc = .exited by rw [hs]; rfl]
    simp only [WorkerPc.tail]
    omega
  | raises hloop hs =>
    refine ⟨?_, by rw [hs]; exact load_unexpected _⟩
    have htail : 4 ≤ s.frame.pc.tail := by
      cases hpc : s.frame.pc <;> simp [hpc, WorkerPc.tail, WorkerPc.inLoop] at hloop ⊢
    rw [State.countdown, State.countdown, share_of_end (by rw [hs]; rfl) (by rw [hs]; rfl),
      show s'.frame.pc.tail = 3 by rw [hs]; rfl]
    omega

/-- **A step of another thread** that admits nothing does not put the end off. -/
theorem countdown_aside (h : step env s l = some s') (hl : ∀ i, l ≠ .worker i)
    (haccepted : s'.history.accepted = s.history.accepted) :
    s'.countdown ≤ s.countdown ∧ s'.load ≤ s.load ∧ s'.frame = s.frame := by
  rcases aside_of_step h with ⟨i, rfl, -⟩ | ⟨t, -, ha⟩
  · exact absurd rfl (hl i)
  obtain ⟨hqueue, hretry, hrows⟩ := Sizes.within_of_step h ha.frame haccepted
  have hload : s'.load ≤ s.load := by
    rw [State.load, State.load, State.hands, State.hands, ha.frame, Sizes.load, Sizes.load]
    omega
  refine ⟨?_, hload, ha.frame⟩
  rw [State.countdown, State.countdown, ha.frame]
  refine Nat.add_le_add_left ?_ _
  rcases hpass : s.frame.pc.passing with _ | _
  · rcases hhead : s.frame.pc.heads with _ | _
    · rw [share_of_end (by rw [ha.frame]; exact hpass) (by rw [ha.frame]; exact hhead)]
      exact Nat.zero_le _
    · rw [share_of_head hhead, share_of_head (by rw [ha.frame]; exact hhead)]
      exact State.lap_mono hload
  · rw [share_of_passing hpass, share_of_passing (by rw [ha.frame]; exact hpass)]
    have hadv : Advance s s' l := advance_of_step
      ⟨hpass, fun x hx => by rw [h] at hx; exact Option.some.inj hx ▸ haccepted⟩ h
    exact Nat.le_trans (Nat.le_add_left _ _) hadv.potential

/-! ### The end of the worker -/

/-- Once the stop flag is set nothing is admitted any more. -/
theorem accepted_of_stop (hr : (machine env).Reach s) (hstop : s.core.stop = true)
    (h : step env s l = some s') : s'.history.accepted = s.history.accepted := by
  have hi := closed_of_reach hr
  exact accepted_of_outside (hi.entry (hi.stop hstop)) h

theorem stop_step (hr : (machine env).Reach s) (h : step env s l = some s')
    (hstop : s.core.stop = true) : s'.core.stop = true := by
  rcases turn_of_step hr h with ⟨i, -, hw⟩ | ⟨t, -, -, ht⟩
  · rw [(Worker.step_pass hw).1.stop]
    exact hstop
  · exact ht.stop_mono hstop

/-- What the worker needs to be left alone: nobody is in a callback, and the retry mutex is
free. -/
structure Alone (env : Env) (s : State) : Prop where
  reach : (machine env).Reach s
  free : (s.callers 0).free = true
  retry : s.retryFree = true

/-- Alone, it executes its next statement, and stays alone. -/
theorem Alone.step (h : Alone env s) (hpc : s.frame.pc ≠ .exited) (hraise : i.raise = none) :
    ∃ s', Worker.step env i s = some s' ∧ Alone env s' := by
  obtain ⟨s', hs⟩ : ∃ s', Worker.step env i s = some s' := by
    rw [Worker.step, if_neg (by simp [h.free]), hraise]
    exact Worker.execute_defined hpc fun _ => h.retry
  have hapart := (Worker.step_pass hs).1
  have hstep : (machine env).step s (.worker i) = some s' := hs
  refine ⟨s', hs, h.reach.step hstep, by rw [hapart.callers]; exact h.free, ?_⟩
  rw [State.retryFree, hapart.client]
  exact h.retry

/-- The worker alone goes on to its end. -/
theorem exits_alone (inputs : List Input) (hraise : ∀ i ∈ inputs, i.raise = none)
    (hstop : s.core.stop = true) (hlen : s.countdown ≤ inputs.length) (h : Alone env s) :
    ∃ used s', used <+: inputs ∧ (machine env).exec s (used.map .worker) = some s' ∧
      s'.core.finished = true := by
  have hstep : ∀ s i, Alone env s ∧ s.core.stop = true → ¬s.frame.pc = .exited →
      Input.raise i = none → ∃ s', (machine env).step s (.worker i) = some s' ∧
        (Alone env s' ∧ s'.core.stop = true) ∧ s'.countdown < s.countdown := by
    rintro s i ⟨halone, hstop⟩ hpc hraise
    obtain ⟨s', hs, halone'⟩ := halone.step hpc hraise
    exact ⟨s', hs, ⟨halone', (Worker.step_pass hs).1.stop.trans hstop⟩,
      (Worker.countdown_step hs ((Worker.stride_of_step hs).not_turns hstop)).1⟩
  obtain ⟨used, s', hused, hexec, ⟨halone, -⟩, hend⟩ :=
    Lts.Machine.exec_descends Label.worker hstep inputs hraise ⟨h, hstop⟩ hlen
  refine ⟨used, s', hused, hexec, finished_of_exited halone.reach (hend.elim id fun hzero => ?_)⟩
  unfold State.countdown at hzero
  cases hpc : s'.frame.pc <;> simp [hpc, WorkerPc.tail] at hzero ⊢

/-- **The worker exits.** From any reachable state in which the stop flag is set – whatever is in
the queue, in the retry buffer and in the store, however the store, the sink and the filter
answer and whatever the other threads do –, the worker executes no more statements than a lap has
and eight. Wherever such a run has come it is not stuck: left alone, outside a callback and with
the retry mutex free, it comes to its end, whatever it is answered. -/
theorem worker_exits {s₀ : State} {w : List WorkerPc} (hr : (machine env).Reach s₀)
    (hstop : s₀.core.stop = true)
    (h : ((machine env).observed statements).Run (s₀, []) (s, w)) :
    w.length ≤ s₀.lap + 8 ∧
      ∀ inputs : List Input, (∀ i ∈ inputs, i.raise = none) → s.lap + 8 ≤ inputs.length →
        (s.callers 0).free = true → s.retryFree = true →
        ∃ used s', used <+: inputs ∧ (machine env).exec s (used.map .worker) = some s' ∧
          s'.core.finished = true := by
  have key : ((machine env).Reach s ∧ s.core.stop = true) ∧
      w.length + s.countdown ≤ s₀.countdown := by
    refine hr.observed_run_rule (P := fun s w => ((machine env).Reach s ∧ s.core.stop = true) ∧
      w.length + s.countdown ≤ s₀.countdown) (fun s w l s' hr hi hs => ?_) h
      ⟨⟨hr, hstop⟩, by simp⟩
    obtain ⟨⟨-, hstop⟩, hle⟩ := hi
    refine ⟨⟨hr.step hs, stop_step hr hs hstop⟩, ?_⟩
    rw [List.length_append]
    cases l with
    | worker i =>
      have hturn := (Worker.stride_of_step hs).not_turns hstop
      have := (Worker.countdown_step hs hturn).1
      rw [statements, List.length_singleton]
      omega
    | call t op =>
      have haccepted := accepted_of_stop (l := .call t op) hr hstop hs
      have := (countdown_aside (l := .call t op) hs (by simp) haccepted).1
      simp only [statements, List.length_nil]
      omega
    | caller t i =>
      have haccepted := accepted_of_stop (l := .caller t i) hr hstop hs
      have := (countdown_aside (l := .caller t i) hs (by simp) haccepted).1
      simp only [statements, List.length_nil]
      omega
  obtain ⟨⟨hreach, hstop'⟩, hle⟩ := key
  refine ⟨?_, fun inputs hraise hlen hfree hretry => ?_⟩
  · have := s₀.countdown_le
    omega
  · exact exits_alone inputs hraise hstop' (Nat.le_trans s.countdown_le hlen)
      ⟨hreach, hfree, hretry⟩

/-- **A shutdown that waits for the worker**: it has asked it to stop, and three statements later
the worker is gone. -/
theorem worker_exits_sample : ∃ s₀ s w, (machine sample).Reach s₀ ∧ s₀.core.stop = true ∧
    ((machine sample).observed statements).Run (s₀, []) (s, w) ∧ s.core.finished = true ∧
    w.length = 3 ∧ w.length ≤ s₀.lap + 8 := by
  have hany : ((machine sample).exec sampleClient ([.call 1 .shutdown] ++ Label.steps 1 5 ++
      Label.works 11 ++ Label.steps 1 2)).any (fun s₀ => s₀.core.stop &&
        (((machine sample).observed statements).exec (s₀, []) (Label.works 3)).any fun p =>
          p.1.core.finished && decide (p.2.length = 3)) = true := by
    decide +kernel
  obtain ⟨s₀, hex, hp⟩ := Lts.Machine.exec_of_any hany
  rw [Bool.and_eq_true] at hp
  obtain ⟨⟨s, w⟩, hrun, hend⟩ := Lts.Machine.exec_of_any hp.2
  rw [Bool.and_eq_true, decide_eq_true_eq] at hend
  have hr : (machine sample).Reach s₀ := ⟨_, sampleClient_start, Lts.Machine.run_of_exec hex⟩
  have hobs := Lts.Machine.run_of_exec hrun
  exact ⟨s₀, s, w, hr, hp.1, hobs, hend.1, hend.2, (worker_exits hr hp.1 hobs).1⟩

/-! ### The answer to a flush -/

/-- The points between the latch of a lap and its record. -/
def WorkerPc.lapping : WorkerPc → Bool
  | .record _ => true
  | pc => pc.passing

/-- The lap under way has latched the token. -/
def Frame.serves (token : Nat) (f : Frame) : Bool :=
  f.pc.lapping && f.flushPending && decide (token ≤ f.want)

/-- The laps that may still have to begin before the token is answered: one, unless the lap under
way has latched the token, or is about to. -/
def State.further (token : Nat) (s : State) : Nat :=
  if Client.flushReady s token || s.frame.pc.heads || s.frame.pc.ending || s.frame.serves token
  then 0 else 1

/-- **The statements up to the answer**, at most. -/
def State.answering (token : Nat) (s : State) : Nat :=
  s.countdown + s.further token * (s.lap + 8)

theorem State.further_le (token : Nat) (s : State) : s.further token ≤ 1 := by
  unfold further
  split <;> omega

theorem State.answering_le (token : Nat) (s : State) : s.answering token ≤ 2 * (s.lap + 8) := by
  have hle := s.countdown_le
  have hmul := Nat.mul_le_mul_right (s.lap + 8) (s.further_le token)
  unfold answering
  omega

theorem lapping_of_passing {pc : WorkerPc} (h : pc.passing = true) : pc.lapping = true := by
  cases pc <;> first | exact h | rfl

/-- A lap that has not latched the token needs another one. -/
theorem further_of_lapping (hlap : s.frame.pc.lapping = true)
    (hwait : Client.flushReady s token = false) :
    s.further token = if s.frame.serves token then 0 else 1 := by
  have hhead : s.frame.pc.heads = false ∧ s.frame.pc.ending = false := by
    cases hpc : s.frame.pc <;> simp [hpc, WorkerPc.lapping, WorkerPc.passing, WorkerPc.heads,
      WorkerPc.ending] at hlap ⊢
  rw [State.further, hwait, hhead.1, hhead.2]
  rfl

theorem further_eq_zero (h : (Client.flushReady s token || s.frame.pc.heads ||
    s.frame.pc.ending || s.frame.serves token) = true) : s.further token = 0 := if_pos h

/-- What is latched stays latched up to the record. -/
theorem serves_of_keeps (hkeep : Keeps s s') (hlap : s.frame.pc.lapping = true)
    (hlap' : s'.frame.pc.lapping = true) : s'.frame.serves token = s.frame.serves token := by
  rw [Frame.serves, Frame.serves, hlap, hlap', hkeep.flushPending, hkeep.want]

/-- Until the worker is gone, what it has handled is what it has answered. -/
theorem handled_of_reach (hr : (machine env).Reach s) (hfin : s.core.finished = false) :
    s.core.flushDone = s.frame.handledFlush := by
  obtain ⟨w, hw⟩ := Lts.Machine.exists_observed serviced hr
  exact (recorded_of_reach hw).running hfin

/-- No statement but the turn at the end of the loop needs one lap more. -/
theorem further_step (hr : (machine env).Reach s) (htok : token ≤ s.core.flushSeq)
    (hwait : Client.flushReady s token = false) (hturn : ¬Turns s s') (h : Stride s s') :
    s'.further token ≤ s.further token := by
  have hzero : ∀ n, s'.further token = 0 → s'.further token ≤ n := fun n h => h ▸ Nat.zero_le n
  cases h with
  | begins _ hs => exact hzero _ (further_eq_zero (by rw [hs]; simp [State.goto, WorkerPc.heads]))
  | latches hpc hs =>
    -- the token is not answered yet, so it is latched now
    refine hzero _ (further_eq_zero ?_)
    simp only [Client.flushReady, Bool.or_eq_false_iff, decide_eq_false_iff_not] at hwait
    have hdone := handled_of_reach hr hwait.2
    have hpending : decide (s.core.flushSeq > s.frame.handledFlush) = true :=
      decide_eq_true (by omega)
    have hserves : s'.frame.serves token = true := by
      rw [hs, Frame.serves]
      simp only [Worker.latch, hpending, if_true, WorkerPc.lapping, WorkerPc.passing,
        decide_eq_true htok]
      rfl
    rw [hserves, Bool.or_true]
  | passes hpass hpass' hkeep =>
    rcases hready : Client.flushReady s' token with _ | _
    · rw [further_of_lapping (lapping_of_passing hpass') hready,
        further_of_lapping (lapping_of_passing hpass) hwait,
        serves_of_keeps hkeep (lapping_of_passing hpass) (lapping_of_passing hpass')]
    · exact hzero _ (further_eq_zero (by rw [hready]; rfl))
  | concludes hpass hpc' hkeep =>
    have hlap' : s'.frame.pc.lapping = true := by rw [hpc']; rfl
    rcases hready : Client.flushReady s' token with _ | _
    · rw [further_of_lapping hlap' hready, further_of_lapping (lapping_of_passing hpass) hwait,
        serves_of_keeps hkeep (lapping_of_passing hpass) hlap']
    · exact hzero _ (further_eq_zero (by rw [hready]; rfl))
  | skips hpass hnone =>
    rw [further_of_lapping (lapping_of_passing hpass) hwait, Frame.serves, hnone]
    simpa using s'.further_le token
  | records hpc hs =>
    have hlap : s.frame.pc.lapping = true := by rw [hpc]; rfl
    rw [further_of_lapping hlap hwait]
    rcases hserves : s.frame.serves token with _ | _
    · simpa using s'.further_le token
    · -- the record answers what was latched
      rw [Frame.serves, Bool.and_eq_true, decide_eq_true_eq] at hserves
      have hdone : s'.core.flushDone = s.frame.want := by rw [hs]; rfl
      refine hzero _ (further_eq_zero ?_)
      rw [Client.flushReady, hdone, decide_eq_true hserves.2]
      rfl
  | again hpc _ hs => exact absurd ⟨hpc, hs⟩ hturn
  | stops _ _ hs => exact hzero _ (further_eq_zero (by rw [hs]; simp [State.goto, WorkerPc.ending]))
  | @closes pc _ _ hs _ hpc' =>
    have hpc : s'.frame.pc = pc := by rw [hs]; rfl
    exact hzero _ (further_eq_zero (by rw [hpc, hpc']; simp))
  | finishes _ hs =>
    exact hzero _ (further_eq_zero (by rw [hs]; simp [Worker.finish, WorkerPc.ending]))
  | raises _ hs =>
    exact hzero _ (further_eq_zero (by
      rw [hs]
      simp [Worker.unexpected, Worker.note, State.goto, WorkerPc.ending]))

/-- **A statement brings the answer closer.** -/
theorem Worker.answering_step (hr : (machine env).Reach s) (htok : token ≤ s.core.flushSeq)
    (hwait : Client.flushReady s token = false) (h : step env i s = some s') :
    s'.answering token + 1 ≤ s.answering token := by
  by_cases hturn : Turns s s'
  · -- this is the lap that was set aside
    obtain ⟨hpc, rfl⟩ := hturn
    have hload : (s.goto .latch).load ≤ s.load := load_of_sizes rfl rfl
    have hlap := State.lap_mono hload
    have hfurther : s.further token = 1 := by
      rw [State.further, hwait, Frame.serves, hpc]
      rfl
    have hfurther' : (s.goto .latch).further token = 0 :=
      further_eq_zero (by simp [State.goto, WorkerPc.heads])
    have hcount : (s.goto .latch).countdown = 7 + (s.goto .latch).lap := by
      rw [State.countdown, share_of_head rfl]
      rfl
    rw [State.answering, State.answering, hfurther, hfurther', hcount]
    omega
  · obtain ⟨hcount, hload⟩ := countdown_step h hturn
    have hfurther := further_step hr htok hwait hturn (stride_of_step h)
    have := Nat.mul_le_mul hfurther (Nat.add_le_add_right (State.lap_mono hload) 8)
    unfold State.answering
    omega

/-- A step of another thread that admits nothing does not put the answer off. -/
theorem answering_aside (hr : (machine env).Reach s) (h : step env s l = some s')
    (hl : ∀ i, l ≠ .worker i) (haccepted : s'.history.accepted = s.history.accepted) :
    s'.answering token ≤ s.answering token := by
  obtain ⟨hcount, hload, hframe⟩ := countdown_aside h hl haccepted
  have hready : Client.flushReady s' token = Client.flushReady s token := by
    rcases course_of_step hr h with ⟨i, rfl, -⟩ | ⟨t, -, ha, hc⟩
    · exact absurd rfl (hl i)
    · rw [Client.flushReady, Client.flushReady, hc.flushDone, ha.finished]
  have hfurther : s'.further token = s.further token := by
    rw [State.further, State.further, hready, hframe]
  have := Nat.mul_le_mul (Nat.le_of_eq hfurther) (Nat.add_le_add_right (State.lap_mono hload) 8)
  unfold State.answering
  omega

/-- Tokens are only ever added. -/
theorem flushSeq_step (hr : (machine env).Reach s) (h : step env s l = some s') :
    s.core.flushSeq ≤ s'.core.flushSeq := by
  rcases turn_of_step hr h with ⟨i, -, hw⟩ | ⟨t, -, -, ht⟩
  · exact Nat.le_of_eq (Worker.step_pass hw).1.flushSeq.symm
  · change (desk s).flushSeq ≤ (desk s').flushSeq
    cases ht with
    | flushToken _ hd | token _ hd =>
      rw [hd]
      exact Nat.le_succ _
    | advance _ hd => rcases hd with hd | hd <;> exact Nat.le_of_eq (congrArg Desk.flushSeq hd).symm
    | close _ hd =>
      rcases hd with ⟨-, hd⟩ | ⟨-, hd⟩ <;> exact Nat.le_of_eq (congrArg Desk.flushSeq hd).symm
    | plain hd | consented _ _ hd | flushBarrier _ hd | flushed _ hd | flushTimeout _ _ hd
    | ordinal _ _ hd | barrier _ hd | stop _ hd | join _ hd | mark _ _ hd | finish _ hd =>
      exact Nat.le_of_eq (congrArg Desk.flushSeq hd).symm

/-- **A step during which a flush waits** and nothing is admitted. -/
structure Waits (env : Env) (token : Nat) (s : State) (l : Label) : Prop where
  unanswered : Client.flushReady s token = false
  accepted : ∀ s', step env s l = some s' → s'.history.accepted = s.history.accepted

/-- The worker alone goes on to the answer. -/
theorem answers_alone (inputs : List Input) (hraise : ∀ i ∈ inputs, i.raise = none)
    (htok : token ≤ s.core.flushSeq) (hlen : s.answering token ≤ inputs.length)
    (h : Alone env s) :
    ∃ used s', used <+: inputs ∧ (machine env).exec s (used.map .worker) = some s' ∧
      Client.flushReady s' token = true := by
  have hstep : ∀ s i, Alone env s ∧ token ≤ s.core.flushSeq →
      ¬Client.flushReady s token = true → Input.raise i = none →
      ∃ s', (machine env).step s (.worker i) = some s' ∧
        (Alone env s' ∧ token ≤ s'.core.flushSeq) ∧ s'.answering token < s.answering token := by
    rintro s i ⟨halone, htok⟩ hwait hraise
    rw [Bool.not_eq_true] at hwait
    have hpc : s.frame.pc ≠ .exited := by
      intro hpc
      rw [Client.flushReady, finished_of_exited halone.reach hpc, Bool.or_true] at hwait
      cases hwait
    obtain ⟨s', hs, halone'⟩ := halone.step hpc hraise
    have hseq : s.core.flushSeq ≤ s'.core.flushSeq :=
      flushSeq_step (l := .worker i) halone.reach hs
    exact ⟨s', hs, ⟨halone', Nat.le_trans htok hseq⟩,
      Worker.answering_step halone.reach htok hwait hs⟩
  obtain ⟨used, s', hused, hexec, ⟨halone, -⟩, hend⟩ :=
    Lts.Machine.exec_descends Label.worker hstep inputs hraise ⟨h, htok⟩ hlen
  refine ⟨used, s', hused, hexec, hend.elim id fun hzero => ?_⟩
  have hcount : s'.countdown = 0 := by
    unfold State.answering at hzero
    omega
  have hpc : s'.frame.pc = .exited := by
    unfold State.countdown at hcount
    cases hpc : s'.frame.pc <;> simp [hpc, WorkerPc.tail] at hcount ⊢
  rw [Client.flushReady, finished_of_exited halone.reach hpc, Bool.or_true]

/-- **A flush is answered.** From any reachable state in which a token has been drawn, and as
long as no event is admitted: however the store and the sink answer, whatever the other threads
revoke, flush and shut down, the worker executes no more statements than two laps have before the
token is answered. Wherever such a run has come it is not stuck: left alone, outside a callback
and with the retry mutex free, the worker comes to the answer, whatever it is answered itself. -/
theorem token_answered {s₀ : State} {w : List WorkerPc} (hr : (machine env).Reach s₀)
    (htok : token ≤ s₀.core.flushSeq)
    (h : ((machine env).observed statements).RunIf (fun p l => Waits env token p.1 l) (s₀, [])
      (s, w)) :
    w.length ≤ 2 * (s₀.lap + 8) ∧
      ∀ inputs : List Input, (∀ i ∈ inputs, i.raise = none) → 2 * (s.lap + 8) ≤ inputs.length →
        (s.callers 0).free = true → s.retryFree = true →
        ∃ used s', used <+: inputs ∧ (machine env).exec s (used.map .worker) = some s' ∧
          Client.flushReady s' token = true := by
  have key : ((machine env).Reach s ∧ token ≤ s.core.flushSeq) ∧
      w.length + s.answering token ≤ s₀.answering token := by
    refine hr.observed_runIf_rule (P := fun s w => ((machine env).Reach s ∧
      token ≤ s.core.flushSeq) ∧ w.length + s.answering token ≤ s₀.answering token)
      (fun s w l s' hr hi hok hs => ?_) h ⟨⟨hr, htok⟩, by simp⟩
    obtain ⟨⟨-, htok⟩, hle⟩ := hi
    refine ⟨⟨hr.step hs, Nat.le_trans htok (flushSeq_step hr hs)⟩, ?_⟩
    rw [List.length_append]
    cases l with
    | worker i =>
      have := Worker.answering_step hr htok hok.unanswered hs
      simp only [statements, List.length_singleton]
      omega
    | call t op =>
      have : s'.answering token ≤ s.answering token :=
        answering_aside (l := .call t op) hr hs (by simp) (hok.accepted s' hs)
      simp only [statements, List.length_nil]
      omega
    | caller t i =>
      have : s'.answering token ≤ s.answering token :=
        answering_aside (l := .caller t i) hr hs (by simp) (hok.accepted s' hs)
      simp only [statements, List.length_nil]
      omega
  obtain ⟨⟨hreach, htok'⟩, hle⟩ := key
  refine ⟨?_, fun inputs hraise hlen hfree hretry => ?_⟩
  · have := s₀.answering_le token
    omega
  · exact answers_alone inputs hraise htok' (Nat.le_trans (s.answering_le token) hlen)
      ⟨hreach, hfree, hretry⟩

/-- Such a step, as it is evaluated. -/
def waits (env : Env) (token : Nat) (p : State × List WorkerPc) (l : Label) : Bool :=
  !Client.flushReady p.1 token &&
    (step env p.1 l).all fun s' => decide (s'.history.accepted = p.1.history.accepted)

theorem waits_iff {p : State × List WorkerPc} :
    waits env token p l = true ↔ Waits env token p.1 l := by
  rw [waits, Bool.and_eq_true, Bool.not_eq_true', Option.all_eq_true]
  simp only [decide_eq_true_eq]
  exact ⟨fun h => ⟨h.1, h.2⟩, fun h => ⟨h.unanswered, h.accepted⟩⟩

/-- **A flush that comes late**: the lap under way has latched no token, and the next one answers
it although neither the store nor the sink takes anything. -/
theorem token_answered_late : ∃ s₀ s w, (machine sample).Reach s₀ ∧ 1 ≤ s₀.core.flushSeq ∧
    s₀.frame.flushPending = false ∧
    ((machine sample).observed statements).RunIf (fun p l => Waits sample 1 p.1 l) (s₀, [])
      (s, w) ∧
    Client.flushReady s 1 = true ∧ w.length ≤ 2 * (s₀.lap + 8) := by
  have hany : ((machine sample).exec sampleClient (Label.starts 1 "s" "e" ++ Label.works 3 ++
      [.call 3 .flush] ++ Label.steps 3 4)).any (fun s₀ =>
        decide (1 ≤ s₀.core.flushSeq) && !s₀.frame.flushPending &&
        ((machine sample).observed statements).meets (waits sample 1) (s₀, [])
          (List.replicate 52 (.worker refused)) &&
        (((machine sample).observed statements).exec (s₀, [])
          (List.replicate 52 (.worker refused))).any fun p => Client.flushReady p.1 1) = true := by
    decide +kernel
  obtain ⟨s₀, hex, hp⟩ := Lts.Machine.exec_of_any hany
  simp only [Bool.and_eq_true, decide_eq_true_eq, Bool.not_eq_true'] at hp
  obtain ⟨⟨⟨htok, hnone⟩, hmeets⟩, hpass⟩ := hp
  obtain ⟨⟨s, w⟩, hrun, hend⟩ := Lts.Machine.exec_of_any hpass
  have hwaits := Lts.Machine.runIf_of_meets (fun l _ p hp => waits_iff.mp hp) hrun hmeets
  have hr : (machine sample).Reach s₀ := ⟨_, sampleClient_start, Lts.Machine.run_of_exec hex⟩
  exact ⟨s₀, s, w, hr, htok, hnone, hwaits, hend, (token_answered hr htok hwaits).1⟩

end PlayerTrace
