import PlayerTrace.Control.Flow
import PlayerTrace.Laps
import PlayerTrace.Lib.Monitor

/-!
# No wake-up is lost

The client waits at two condition variables. The worker sleeps in `pop_wait` of
`src/event_queue.cpp` until a batch is complete, or `kick` was called, or the batch interval is
over; a caller sleeps in `wait_flush` or `wait_finished` of `src/worker.cpp` until its token is
answered or the worker has finished. `PlayerTrace.machine` leaves the waiting out, since it
decides only *when* a statement is taken. Here it is put back: `PlayerTrace.waking` runs the
client between the two condition variables, with `kicked_`, and with each call of `kick` and each
notification as a step of its own that other threads may overtake.

A sleeping thread may be overlooked only as long as somebody still has to call `kick` or to
notify. With all that done, a sleeping worker has nothing to do – no complete batch, no request
to stop, no token without an answer – and no caller sleeps whose wait is over; so worker and
callers never sleep waiting for each other (`PlayerTrace.no_lost_wakeup`).

Two things differ from the source, and only add interleavings: the `kick` of `flush` may come
after the admission lock is released, and a notification wakes all who wait.
-/

namespace PlayerTrace

/-- A client with its two condition variables. -/
structure Waking where
  client : State
  /-- `kicked_` of the queue. -/
  kicked : Bool := false
  /-- `cv_` of the queue, where the worker waits. -/
  queue : Monitor Unit Tid := .quiet
  /-- `cv_` of the worker's core, where callers wait; the worker notifies. -/
  core : Monitor Tid Unit := .quiet
  /-- The threads that have come to a call of `kick` and not entered its section. -/
  kicking : Finset Tid := ∅

/-- What `pop_wait` waits for. -/
def batchReady (env : Env) (s : State) (kicked : Bool) : Bool :=
  decide (env.config.batchSize ≤ s.pipeline.queue.length) || kicked

/-- What a caller waits for at the core's condition variable, if it does. -/
def Caller.awaited (s : State) : Caller → Option Bool
  | .flushWait token _ | .shutdownWait _ token => some (Client.flushReady s token)
  | .shutdownJoin .. | .exitJoin => some s.core.finished
  | _ => none

/-- The calls of `request_stop`. -/
def Caller.requestsStop : Caller → Bool
  | .shutdownStop .. | .destroyStop | .ownStop => true
  | _ => false

/-- The statements that pop the queue. -/
def WorkerPc.pops : WorkerPc → Bool
  | .pop | .popMore _ => true
  | _ => false

/-- The statements after which the worker notifies: those that answer tokens. -/
def WorkerPc.announces : WorkerPc → Bool
  | .record _ | .finish => true
  | _ => false

namespace Waking

/-- What happens to a client and its condition variables. -/
inductive Act
  /-- A statement of the client. -/
  | run (l : Label)
  /-- The section of `kick`. -/
  | kick (t : Tid)
  /-- A notification at the queue, by `kick` or by `try_push`. -/
  | notify (t : Tid)
  /-- The worker's notification at the core. -/
  | announce
  /-- The worker goes to sleep in `pop_wait`, or wakes up by itself. -/
  | doze
  | rouse
  /-- A caller goes to sleep in `wait_flush` or `wait_finished`, or wakes up by itself. -/
  | wait (t : Tid)
  | stir (t : Tid)

variable (env : Env) (w : Waking)

/-- A thread has nothing left to do for others before it goes on. -/
def clear (t : Tid) : Bool := decide (t ∉ w.kicking ∧ t ∉ w.queue.owing ∧ t ∉ w.core.asleep)

/-- The worker has neither, and is not asleep. -/
def workerClear : Bool := w.clear 0 && decide (w.queue.asleep = ∅ ∧ w.core.owing = ∅)

/-- The wait of `pop_wait` is over: its predicate holds, or there is no time to wait, or none
left. -/
def popOver (i : Input) : Bool :=
  match w.client.frame.pc with
  | .pop => batchReady env w.client w.kicked || w.client.frame.flushPending || i.timeout
  | _ => true

/-- The client after a statement of the worker. -/
def afterWorker (i : Input) (s' : State) : Waking :=
  { w with
    client := s'
    kicked := w.kicked && !(w.client.frame.pc.pops && i.raise.isNone)
    core := if w.client.frame.pc.announces && i.raise.isNone then w.core.owe () else w.core }

/-- The client after a statement of a caller: it owes a `kick` if it has drawn a token or
requested a stop, and a notification if it has pushed an event. -/
def afterCaller (t : Tid) (s' : State) : Waking :=
  { w with
    client := s'
    kicking := if decide (w.client.core.flushSeq < s'.core.flushSeq) ||
      (w.client.callers t).requestsStop then Insert.insert t w.kicking else w.kicking
    queue := if w.client.pipeline.queue.length < s'.pipeline.queue.length then w.queue.owe t
      else w.queue }

def step : Act → Option Waking
  | .run (.worker i) =>
    if w.workerClear && (w.popOver env i || i.raise.isSome) then
      (PlayerTrace.step env w.client (.worker i)).map (w.afterWorker i)
    else none
  | .run (.call t op) =>
    if w.clear t then
      (PlayerTrace.step env w.client (.call t op)).map fun s' => { w with client := s' }
    else none
  | .run (.caller t i) =>
    if w.clear t then (PlayerTrace.step env w.client (.caller t i)).map (w.afterCaller t) else none
  | .kick t =>
    if t ∈ w.kicking then
      some { w with kicked := true, kicking := w.kicking.erase t, queue := w.queue.owe t }
    else none
  | .notify t => if t ∈ w.queue.owing then some { w with queue := w.queue.notify t } else none
  | .announce => if () ∈ w.core.owing then some { w with core := w.core.notify () } else none
  | .doze =>
    match w.client.frame.pc with
    | .pop =>
      if w.workerClear && !w.popOver env {} then some { w with queue := w.queue.doze () } else none
    | _ => none
  | .rouse => if () ∈ w.queue.asleep then some { w with queue := w.queue.rouse () } else none
  | .wait t =>
    if w.clear t && (w.client.callers t).awaited w.client == some false then
      some { w with core := w.core.doze t }
    else none
  | .stir t => if t ∈ w.core.asleep then some { w with core := w.core.rouse t } else none

end Waking

/-- The client among its condition variables. -/
def waking (env : Env) : Lts.Machine Waking Waking.Act where
  start w := (machine env).start w.client ∧ w = { client := w.client }
  step := Waking.step env

variable {env : Env} {i : Input} {l : Label} {s s' : State} {t : Tid} {w w' : Waking}

/-! ### What the client's statements do -/

/-- Only a request to stop sets the stop flag. -/
theorem stop_of_step (hr : (machine env).Reach s) (h : step env s (.caller t i) = some s')
    (hreq : (s.callers t).requestsStop = false) : s'.core.stop = s.core.stop := by
  have hturn := (Client.step_turn (Custody.gated_of_reachable (custody_reachable hr)) h).2
  have hclosing : (desk s').stop = (desk s).stop ∨ (s.callers t).closing = true := by
    cases hturn with
    | stop hw => exact Or.inr hw
    | plain hd | consented _ _ hd | flushBarrier _ hd | flushToken _ hd | flushed _ hd
    | flushTimeout _ _ hd | ordinal _ _ hd | barrier _ hd | token _ hd | join _ hd | mark _ _ hd
    | finish _ hd => exact Or.inl (by simp only [hd, Desk.drawn, Desk.pruned])
    | close _ hd => rcases hd with ⟨-, hd⟩ | ⟨-, hd⟩ <;> exact Or.inl (by rw [hd])
    | advance _ hd => rcases hd with hd | hd <;> exact Or.inl (by simp only [hd, Desk.pruned])
  refine hclosing.elim id fun hw => ?_
  change Client.step env i s t = some s' at h
  unfold Client.step at h
  cases hc : s.callers t with
  | shutdownStop | destroyStop | ownStop => rw [hc] at hreq; cases hreq
  | shutdownCancel | shutdownBarrier | shutdownToken | destroyCancel =>
    rw [hc] at h
    obtain rfl := Option.some.inj h
    rfl
  | shutdownTerminal d st =>
    rw [hc] at h
    obtain rfl := Option.some.inj h
    unfold Client.shutdownTerminal
    repeat' split
    all_goals
      rw [Client.shutdownDone_eq]
      rfl
  | shutdownJoin d st =>
    simp only [hc, Client.shutdownJoin] at h
    split at h
    · obtain rfl := Option.some.inj h
      rfl
    · split at h
      · obtain rfl := Option.some.inj h
        rw [Client.shutdownDone_eq]
        rfl
      · cases h
  | shutdownWait d token =>
    simp only [hc, Client.shutdownWait] at h
    split at h
    · obtain rfl := Option.some.inj h
      simp only [State.move, Client.prunePassResults]
    · split at h
      · obtain rfl := Option.some.inj h
        rfl
      · cases h
  | shutdownOrdinal | shutdownMark =>
    simp only [hc, Client.shutdownOrdinal, Client.shutdownMark] at h
    split at h
    · cases h
    · obtain rfl := Option.some.inj h
      rfl
  | destroyJoin =>
    simp only [hc, Client.destroyJoin] at h
    split at h
    · obtain rfl := Option.some.inj h
      rfl
    · cases h
  | _ => rw [hc] at hw; cases hw

/-- A caller comes to its join with the stop flag set. -/
theorem Turn.stop_of_join {d : Bool} {persist : Status} (h : Turn s t s')
    (hc : s'.callers t = .shutdownJoin d persist) : s'.core.stop = true := by
  have hplain : (s'.callers t).plain = true → False := by
    rw [hc]
    exact Bool.noConfusion
  have hother : ∀ {c}, s'.callers t = c → c ≠ .shutdownJoin d persist → False :=
    fun heq hne => hne (heq.symm.trans hc)
  cases h with
  | stop _ hd => exact congrArg Desk.stop hd
  | plain _ hp => exact (hplain hp).elim
  | @finish e _ _ _ hc' => cases e <;> exact (hother hc' Caller.noConfusion).elim
  | close _ _ hc' =>
    rcases hc' with ⟨e, hc'⟩ | hc' <;> exact (hother hc' Caller.noConfusion).elim
  | advance _ _ hc' =>
    rcases hc' with ⟨e, hc'⟩ | hc' | ⟨e, st, hc'⟩ <;> exact (hother hc' Caller.noConfusion).elim
  | join _ _ hc' =>
    rcases hc' with ⟨-, e, st, hc'⟩ | hc' <;> exact (hother hc' Caller.noConfusion).elim
  | mark _ _ _ hc' =>
    rcases hc' with ⟨-, e, st, hc'⟩ | hp
    · exact (hother hc' Caller.noConfusion).elim
    · exact (hplain hp).elim
  | consented _ _ _ hc' | flushBarrier _ _ hc' | flushToken _ _ hc' | flushed _ _ hc'
  | flushTimeout _ _ _ hc' | ordinal _ _ _ hc' | barrier _ _ hc' | token _ _ hc' =>
    exact (hother hc' Caller.noConfusion).elim

/-- **What a waiting caller may expect**: its token has been drawn, and before it waits for the
end of the worker it has asked for it. -/
structure Pledged (s : State) : Prop where
  token : ∀ t token, (s.callers t).waitsOn = some token → token ≤ s.core.flushSeq
  join : ∀ t d persist, s.callers t = .shutdownJoin d persist → s.core.stop = true

theorem pledged_of_reach (h : (machine env).Reach s) : Pledged s := by
  refine h.rule (P := Pledged) (fun s hs => ?_) (fun s l s' hr hi hs => ?_)
  · obtain ⟨db, m, earlier, rfl⟩ := start_eq hs
    refine ⟨fun t token h => ?_, fun t d persist h => ?_⟩
    all_goals cases h
  · have hseq := flushSeq_step hr hs
    rcases turn_of_step hr hs with ⟨i, -, hw⟩ | ⟨t, -, ha, ht⟩
    · have hc := (Worker.step_pass hw).1.callers
      refine ⟨fun t token h => ?_, fun t d persist h => ?_⟩
      · rw [hc] at h
        exact Nat.le_trans (hi.token t token h) hseq
      · rw [hc] at h
        exact stop_step hr hs (hi.join t d persist h)
    · refine ⟨fun u token h => ?_, fun u d persist h => ?_⟩
      · by_cases hu : u = t
        · subst hu
          obtain ⟨rfl, hnew⟩ := ht.waitsOn_eq h
          exact Nat.le_of_eq hnew.symm
        · rw [ha.others u hu] at h
          exact Nat.le_trans (hi.token u token h) hseq
      · by_cases hu : u = t
        · subst hu
          exact ht.stop_of_join h
        · rw [ha.others u hu] at h
          exact stop_step hr hs (hi.join u d persist h)

/-! ### Up to the pop -/

/-- **What the worker may have missed** since the head of its iteration, it is called for: by
`called`, which it will see before it goes to sleep. -/
structure Opening (called : Prop) (s : State) : Prop where
  token : s.frame.pc.latched = true → s.frame.want < s.core.flushSeq → called
  stop : s.frame.pc.opening = true → s.core.stop = true → called
  pending : s.frame.pc.latched = true → s.frame.flushPending = false →
    s.frame.want ≤ s.frame.handledFlush

namespace Opening

variable {called called' : Prop}

/-- The worker itself. -/
theorem of_worker (h : Opening called s) (hs : Worker.step env i s = some s')
    (hkeep : s.frame.pc.opening = true → s.frame.pc ≠ .pop → called → called') :
    Opening called' s' := by
  rcases hraise : i.raise with _ | what
  · have hflow := Worker.flow_of_execute (Worker.execute_of_step hraise hs)
    have hap := (Worker.step_pass hs).1
    have hopen : s.frame.pc.latched = true → s'.frame.pc.latched = true →
        s.frame.pc.opening = true ∧ s.frame.pc ≠ .pop := by
      intro hl hl'
      refine (hflow.opening (WorkerPc.opening_of_latched hl')).elim id fun hc => ?_
      rw [hc.1] at hl
      cases hl
    refine ⟨fun hl' hlt => ?_, fun ho' hstop => ?_, fun hl' hnone => ?_⟩
    · rw [hap.flushSeq] at hlt
      rcases hflow.latched hl' with rfl | ⟨hl, hf⟩
      · exact absurd hlt (Nat.lt_irrefl _)
      · rw [hf] at hlt
        exact hkeep (hopen hl hl').1 (hopen hl hl').2 (h.token hl hlt)
    · rw [hap.stop] at hstop
      rcases hflow.opening ho' with ⟨ho, hne⟩ | ⟨-, hgo⟩
      · exact hkeep ho hne (h.stop ho hstop)
      · rw [hgo] at hstop
        cases hstop
    · rcases hflow.latched hl' with rfl | ⟨hl, hf⟩
      · simpa [Worker.latch] using hnone
      · rw [hf] at hnone ⊢
        exact h.pending hl hnone
  · obtain rfl := Worker.unexpected_of_step hraise hs
    refine ⟨fun hl => ?_, fun ho => ?_, fun hl => ?_⟩
    · cases hl
    · cases ho
    · cases hl

/-- Other threads: whoever draws a token or requests a stop calls the worker. -/
theorem of_frame (h : Opening called s) (hf : s'.frame = s.frame)
    (hseq : s'.core.flushSeq = s.core.flushSeq ∨ called')
    (hstop : s'.core.stop = s.core.stop ∨ called') (hkeep : called → called') :
    Opening called' s' := by
  refine ⟨fun hl hlt => ?_, fun ho hs => ?_, fun hl hnone => ?_⟩
  · refine hseq.elim (fun heq => ?_) id
    rw [hf] at hl hlt
    rw [heq] at hlt
    exact hkeep (h.token hl hlt)
  · refine hstop.elim (fun heq => ?_) id
    rw [hf] at ho
    rw [heq] at hs
    exact hkeep (h.stop ho hs)
  · rw [hf] at hl hnone ⊢
    exact h.pending hl hnone

end Opening

/-! ### What callers wait for -/

/-- What a caller waits for depends only on the answers and on the end of the worker. -/
theorem Caller.awaited_congr (hdone : s'.core.flushDone = s.core.flushDone)
    (hfin : s'.core.finished = s.core.finished) (c : Caller) : c.awaited s' = c.awaited s := by
  cases c with
  | flushWait | shutdownWait =>
    rw [Caller.awaited, Caller.awaited, Client.flushReady, Client.flushReady, hdone, hfin]
  | shutdownJoin | exitJoin => rw [Caller.awaited, Caller.awaited, hfin]
  | _ => rfl

/-- Whether a caller waits at all is its own position. -/
theorem Caller.awaited_isSome (c : Caller) : (c.awaited s').isSome = (c.awaited s).isSome := by
  cases c <;> rfl

/-- The worker notifies where it answers a token or ends. -/
theorem Worker.answers_of_quiet (h : step env i s = some s')
    (hquiet : (s.frame.pc.announces && i.raise.isNone) = false) :
    s'.core.flushDone = s.core.flushDone ∧ s'.core.finished = s.core.finished := by
  rcases step_answers h with ⟨o, hpc, hraise, -⟩ | ⟨-, ⟨hpc, -⟩ | ⟨-, hdone, hfin, -⟩⟩
  · rw [hpc, hraise] at hquiet
    cases hquiet
  · rcases hraise : i.raise with _ | what
    · rw [hpc, hraise] at hquiet
      cases hquiet
    · obtain rfl := unexpected_of_step hraise h
      exact ⟨rfl, rfl⟩
  · exact ⟨hdone, hfin⟩

/-! ### The invariant -/

/-- `kicked_` is set, or about to be. -/
def Waking.Called (w : Waking) : Prop := w.kicked = true ∨ w.kicking.Nonempty

/-- **Nobody sleeps over what it waits for.** -/
structure Attentive (env : Env) (w : Waking) : Prop where
  reach : (machine env).Reach w.client
  asleep : () ∈ w.queue.asleep →
    w.client.frame.pc = .pop ∧ w.client.frame.flushPending = false
  batch : w.queue.Alert fun _ => batchReady env w.client w.kicked = true
  opening : Opening w.Called w.client
  waits : ∀ t ∈ w.core.asleep, ((w.client.callers t).awaited w.client).isSome = true
  answer : w.core.Alert fun t => (w.client.callers t).awaited w.client = some true

namespace Attentive

theorem of_start (h : (waking env).start w) : Attentive env w := by
  obtain ⟨hstart, heq⟩ := h
  have hqueue : w.queue = .quiet := congrArg Waking.queue heq
  have hcore : w.core = .quiet := congrArg Waking.core heq
  refine ⟨.of_start hstart, fun h => ?_, ?_, ?_, fun t h => ?_, ?_⟩
  · rw [hqueue] at h
    exact absurd h (Finset.notMem_empty _)
  · rw [hqueue]
    exact Monitor.alert_quiet
  · obtain ⟨db, m, earlier, hs⟩ := start_eq hstart
    refine ⟨fun h => ?_, fun _ h => ?_, fun h => ?_⟩
    all_goals
      rw [hs] at h
      cases h
  · rw [hcore] at h
    exact absurd h (Finset.notMem_empty _)
  · rw [hcore]
    exact Monitor.alert_quiet

theorem of_worker (h : Attentive env w) (hclear : w.workerClear = true)
    (hs : step env w.client (.worker i) = some s') : Attentive env (w.afterWorker i s') := by
  have hw : Worker.step env i w.client = some s' := hs
  have hreach : (machine env).Reach s' := h.reach.step (l := .worker i) hs
  have hcallers := (Worker.step_pass hw).1.callers
  have hawake : w.queue.asleep = ∅ := by
    simp only [Waking.workerClear, Bool.and_eq_true, decide_eq_true_eq] at hclear
    exact hclear.2.1
  refine ⟨hreach, fun hsleep => ?_, fun u hsleep => ?_, ?_, fun t hsleep => ?_, ?_⟩
  · exact absurd hsleep (by simp [Waking.afterWorker, hawake])
  · exact absurd hsleep (by simp [Waking.afterWorker, hawake])
  · -- only the two pops take the `kick` back
    refine h.opening.of_worker hw fun ho hne hcalled => ?_
    have hpops : w.client.frame.pc.pops = false := by
      cases hpc : w.client.frame.pc with
      | pop => exact absurd hpc hne
      | popMore => rw [hpc] at ho; cases ho
      | _ => rfl
    simpa [Waking.Called, Waking.afterWorker, hpops] using hcalled
  · have hsleep : t ∈ w.core.asleep := by
      revert hsleep
      unfold Waking.afterWorker
      dsimp only
      split <;> exact id
    have := h.waits t hsleep
    rw [Caller.awaited_isSome (s := w.client)]
    change ((s'.callers t).awaited w.client).isSome = true
    rwa [hcallers]
  · rcases hquiet : w.client.frame.pc.announces && i.raise.isNone with _ | _
    · obtain ⟨hdone, hfin⟩ := Worker.answers_of_quiet hw hquiet
      simp only [Waking.afterWorker, hquiet, hcallers, Caller.awaited_congr hdone hfin]
      exact h.answer
    · simp only [Waking.afterWorker, hquiet, if_true]
      exact Monitor.alert_owe

/-- A statement of a caller, whatever else it does to the condition variable of the queue: it
calls the worker if it draws a token or requests a stop, and owes a notification if it makes a
batch complete. -/
theorem of_caller (h : Attentive env w) (hclear : w.clear t = true)
    (hs : step env w.client l = some s') (ha : Aside w.client t s')
    (hdone : s'.core.flushDone = w.client.core.flushDone)
    (hclient : w'.client = s') (hcore : w'.core = w.core)
    (hasleep : w'.queue.asleep = w.queue.asleep)
    (hbatch : w'.queue.Alert fun _ => batchReady env s' w'.kicked = true)
    (hopening : Opening w'.Called s') : Attentive env w' := by
  have hawake : t ∉ w.core.asleep := by
    simp only [Waking.clear, decide_eq_true_eq] at hclear
    exact hclear.2.2
  -- whoever sleeps at the core is another thread
  have hsame : ∀ u ∈ w.core.asleep,
      (s'.callers u).awaited s' = (w.client.callers u).awaited w.client := by
    intro u hu
    have hne : u ≠ t := by
      rintro rfl
      exact hawake hu
    rw [ha.others u hne, Caller.awaited_congr hdone ha.finished]
  refine ⟨?_, fun hsleep => ?_, ?_, ?_, fun u hu => ?_, ?_⟩
  · rw [hclient]
    exact h.reach.step hs
  · rw [hclient, ha.frame]
    exact h.asleep (hasleep ▸ hsleep)
  · rw [hclient]
    exact hbatch
  · rw [hclient]
    exact hopening
  · rw [hcore] at hu
    rw [hclient, hsame u hu]
    exact h.waits u hu
  · rw [hclient, hcore]
    refine h.answer.mono fun u hu hready => ?_
    rwa [hsame u hu] at hready

theorem of_call {op : Op} (h : Attentive env w) (hclear : w.clear t = true)
    (hs : step env w.client (.call t op) = some s') :
    Attentive env { w with client := s' } := by
  obtain ⟨c, rfl, -⟩ := Client.call_placed hs
  have ha : Aside w.client t (w.client.move t c) :=
    ⟨rfl, rfl, rfl, rfl, fun u hu => move_others c u hu⟩
  exact h.of_caller hclear hs ha rfl rfl rfl rfl h.batch
    (h.opening.of_frame rfl (Or.inl rfl) (Or.inl rfl) id)

theorem of_statement (h : Attentive env w) (hclear : w.clear t = true)
    (hs : step env w.client (.caller t i) = some s') : Attentive env (w.afterCaller t s') := by
  obtain ⟨ha, hdone⟩ : Aside w.client t s' ∧ s'.core.flushDone = w.client.core.flushDone := by
    rcases course_of_step h.reach hs with ⟨j, hl, -⟩ | ⟨u, hl, ha, hc⟩
    · cases hl
    · obtain rfl : t = u := Option.some.inj hl
      exact ⟨ha, hc.flushDone⟩
  have hcalls : (decide (w.client.core.flushSeq < s'.core.flushSeq) ||
      (w.client.callers t).requestsStop) = true → (w.afterCaller t s').Called := by
    intro hc
    simp only [Waking.Called, Waking.afterCaller, hc, if_true]
    exact Or.inr (Finset.insert_nonempty t _)
  refine h.of_caller hclear hs ha hdone rfl rfl ?_ ?_ (h.opening.of_frame ha.frame ?_ ?_ ?_)
  · unfold Waking.afterCaller
    dsimp only
    split <;> rfl
  · by_cases hgrow : w.client.pipeline.queue.length < s'.pipeline.queue.length
    · simp only [Waking.afterCaller, if_pos hgrow]
      exact Monitor.alert_owe
    · simp only [Waking.afterCaller, if_neg hgrow]
      refine h.batch.mono fun _ _ hready => ?_
      simp only [batchReady, Bool.or_eq_true, decide_eq_true_eq] at hready ⊢
      exact hready.imp_left fun hle => Nat.le_trans hle (Nat.le_of_not_lt hgrow)
  · rcases Nat.lt_or_ge w.client.core.flushSeq s'.core.flushSeq with hlt | hge
    · exact Or.inr (hcalls (by rw [decide_eq_true hlt, Bool.true_or]))
    · exact Or.inl (Nat.le_antisymm hge (flushSeq_step h.reach hs))
  · rcases hreq : (w.client.callers t).requestsStop with _ | _
    · exact Or.inl (stop_of_step h.reach hs hreq)
    · exact Or.inr (hcalls (by rw [hreq, Bool.or_true]))
  · refine Or.imp_right fun hu => ?_
    unfold Waking.afterCaller
    dsimp only
    split
    · exact Finset.insert_nonempty t _
    · exact hu

/-- **Nothing that happens leaves a thread asleep** over what it waits for. -/
theorem of_step {a : Waking.Act} (h : Attentive env w) (hs : Waking.step env w a = some w') :
    Attentive env w' := by
  cases a with
  | run l =>
    cases l with
    | worker i =>
      simp only [Waking.step, Option.ite_none_right_eq_some, Option.map_eq_some_iff,
        Bool.and_eq_true] at hs
      obtain ⟨⟨hclear, -⟩, s', hstep, rfl⟩ := hs
      exact h.of_worker hclear hstep
    | call t op =>
      simp only [Waking.step, Option.ite_none_right_eq_some, Option.map_eq_some_iff] at hs
      obtain ⟨hclear, s', hstep, rfl⟩ := hs
      exact h.of_call hclear hstep
    | caller t i =>
      simp only [Waking.step, Option.ite_none_right_eq_some, Option.map_eq_some_iff] at hs
      obtain ⟨hclear, s', hstep, rfl⟩ := hs
      exact h.of_statement hclear hstep
  | kick t =>
    simp only [Waking.step, Option.ite_none_right_eq_some, Option.some.injEq] at hs
    obtain ⟨-, rfl⟩ := hs
    exact ⟨h.reach, h.asleep, Monitor.alert_owe,
      h.opening.of_frame rfl (Or.inl rfl) (Or.inl rfl) fun _ => Or.inl rfl, h.waits, h.answer⟩
  | notify t =>
    simp only [Waking.step, Option.ite_none_right_eq_some, Option.some.injEq] at hs
    obtain ⟨-, rfl⟩ := hs
    refine ⟨h.reach, fun hsleep => ?_, Monitor.alert_notify, h.opening, h.waits, h.answer⟩
    exact absurd hsleep (Finset.notMem_empty _)
  | announce =>
    simp only [Waking.step, Option.ite_none_right_eq_some, Option.some.injEq] at hs
    obtain ⟨-, rfl⟩ := hs
    refine ⟨h.reach, h.asleep, h.batch, h.opening, fun t hsleep => ?_, Monitor.alert_notify⟩
    exact absurd hsleep (Finset.notMem_empty _)
  | doze =>
    simp only [Waking.step] at hs
    split at hs
    · rename_i hpc
      simp only [Option.ite_none_right_eq_some, Option.some.injEq, Bool.and_eq_true,
        Bool.not_eq_true', Waking.popOver, hpc, Bool.or_eq_false_iff] at hs
      obtain ⟨⟨-, ⟨hready, hpending⟩, -⟩, rfl⟩ := hs
      refine ⟨h.reach, fun _ => ⟨hpc, hpending⟩, h.batch.doze ?_, h.opening, h.waits, h.answer⟩
      rw [hready]
      exact Bool.false_ne_true
    · cases hs
  | rouse =>
    simp only [Waking.step, Option.ite_none_right_eq_some, Option.some.injEq] at hs
    obtain ⟨hsleep, rfl⟩ := hs
    exact ⟨h.reach, fun _ => h.asleep hsleep, h.batch.rouse, h.opening, h.waits, h.answer⟩
  | wait t =>
    simp only [Waking.step, Option.ite_none_right_eq_some, Option.some.injEq, Bool.and_eq_true,
      beq_iff_eq] at hs
    obtain ⟨⟨-, hawaits⟩, rfl⟩ := hs
    refine ⟨h.reach, h.asleep, h.batch, h.opening, fun u hu => ?_, h.answer.doze ?_⟩
    · rcases Finset.mem_insert.mp hu with rfl | hu
      · rw [hawaits]
        rfl
      · exact h.waits u hu
    · rw [hawaits]
      exact fun heq => Bool.false_ne_true (Option.some.inj heq)
  | stir t =>
    simp only [Waking.step, Option.ite_none_right_eq_some, Option.some.injEq] at hs
    obtain ⟨-, rfl⟩ := hs
    exact ⟨h.reach, h.asleep, h.batch, h.opening,
      fun u hu => h.waits u (Finset.mem_of_mem_erase hu), h.answer.rouse⟩

end Attentive

theorem attentive_of_reach (h : (waking env).Reach w) : Attentive env w :=
  h.rule (fun _ hs => .of_start hs) fun _ _ _ _ hi hs => hi.of_step hs

/-! ### No wake-up is lost -/

/-- Nobody has a `kick` or a notification left to make. -/
structure Waking.Settled (w : Waking) : Prop where
  kicking : w.kicking = ∅
  queue : w.queue.owing = ∅
  core : w.core.owing = ∅

/-- **No wake-up is lost.** Whatever order the threads, their calls of `kick` and their
notifications come in: with all of these made, a sleeping worker has no complete batch, no stop
request and no unanswered token, and a sleeping caller's wait is not over. So while the worker
sleeps, the only callers that do wait for an exit nobody has requested. -/
theorem no_lost_wakeup (h : (waking env).Reach w) (hset : w.Settled) :
    (() ∈ w.queue.asleep → w.client.pipeline.queue.length < env.config.batchSize ∧
      w.client.core.stop = false ∧ w.client.core.flushSeq ≤ w.client.core.flushDone) ∧
    (∀ t ∈ w.core.asleep, (w.client.callers t).awaited w.client = some false) ∧
    (() ∈ w.queue.asleep → ∀ t ∈ w.core.asleep, w.client.callers t = .exitJoin) := by
  have hi := attentive_of_reach h
  have hidle : () ∈ w.queue.asleep → w.client.pipeline.queue.length < env.config.batchSize ∧
      w.client.core.stop = false ∧ w.client.core.flushSeq ≤ w.client.core.flushDone := by
    intro hsleep
    obtain ⟨hpc, hpending⟩ := hi.asleep hsleep
    have hready := hi.batch.not_ready hset.queue hsleep
    simp only [batchReady, Bool.or_eq_true, decide_eq_true_eq, not_or, Bool.not_eq_true] at hready
    have hcalled : ¬w.Called := by
      rintro (hk | hk)
      · rw [hready.2] at hk
        cases hk
      · exact hk.ne_empty hset.kicking
    have hopen : w.client.frame.pc.opening = true := by rw [hpc]; rfl
    have hlatched : w.client.frame.pc.latched = true := by rw [hpc]; rfl
    have hfin : w.client.core.finished = false := by
      by_contra hfin
      rw [Bool.not_eq_false] at hfin
      have hexited := (closed_of_reach hi.reach).exited hfin
      rw [hpc] at hexited
      cases hexited
    refine ⟨Nat.lt_of_not_le hready.1, ?_, ?_⟩
    · rw [← Bool.not_eq_true]
      exact fun hstop => hcalled (hi.opening.stop hopen hstop)
    · calc w.client.core.flushSeq
          ≤ w.client.frame.want :=
            Nat.le_of_not_lt fun hlt => hcalled (hi.opening.token hlatched hlt)
        _ ≤ w.client.frame.handledFlush := hi.opening.pending hlatched hpending
        _ = w.client.core.flushDone := (handled_of_reach hi.reach hfin).symm
  have hwaits : ∀ t ∈ w.core.asleep,
      (w.client.callers t).awaited w.client = some false := by
    intro t ht
    obtain ⟨b, hb⟩ := Option.isSome_iff_exists.mp (hi.waits t ht)
    cases b with
    | false => exact hb
    | true => exact absurd hb (hi.answer.not_ready hset.core ht)
  refine ⟨hidle, hwaits, fun hsleep t ht => ?_⟩
  obtain ⟨-, hstop, hdone⟩ := hidle hsleep
  have hpledged := pledged_of_reach hi.reach
  have hanswered : ∀ token, (w.client.callers t).waitsOn = some token →
      Client.flushReady w.client token = true := by
    intro token htok
    rw [Client.flushReady, decide_eq_true (Nat.le_trans (hpledged.token t token htok) hdone),
      Bool.true_or]
  have hwait := hwaits t ht
  cases hc : w.client.callers t with
  | exitJoin => rfl
  | flushWait token _ | shutdownWait _ token =>
    rw [hc, Caller.awaited, hanswered token (by rw [hc]; rfl)] at hwait
    cases hwait
  | shutdownJoin d persist =>
    rw [hpledged.join t d persist hc] at hstop
    cases hstop
  | _ =>
    rw [hc] at hwait
    cases hwait

/-- **A flush wakes the worker**, which answers it and goes to sleep again, beside a caller that
waits for its exit. -/
theorem no_lost_wakeup_flush : ∃ w, (waking sample).Reach w ∧ w.Settled ∧ () ∈ w.queue.asleep ∧
    w.client.core.flushSeq = 1 ∧ w.client.core.flushDone = 1 ∧ 2 ∈ w.core.asleep ∧
    w.client.callers 2 = .exitJoin := by
  have hany : ((waking sample).exec { client := sampleClient } ((Label.works 2).map .run ++
      [.doze, .run (.call 2 .waitForWorkerExit), .wait 2] ++
      (Label.call 3 .flush :: Label.steps 3 4).map .run ++ [.kick 3, .notify 3, .wait 3] ++
      (Label.works 15).map .run ++ [.announce] ++ (Label.works 2).map .run ++
      [.doze, .wait 2])).any (fun w => decide ((w.kicking = ∅ ∧ w.queue.owing = ∅ ∧
        w.core.owing = ∅) ∧ () ∈ w.queue.asleep ∧ 2 ∈ w.core.asleep ∧
        w.client.core.flushSeq = 1 ∧ w.client.core.flushDone = 1)) = true := by
    decide +kernel
  obtain ⟨w, hex, hp⟩ := Lts.Machine.exec_of_any hany
  rw [decide_eq_true_eq] at hp
  obtain ⟨⟨hkick, hqueue, hcore⟩, hsleep, hwait, hseq, hdone⟩ := hp
  have hr : (waking sample).Reach w :=
    ⟨_, ⟨sampleClient_start, rfl⟩, Lts.Machine.run_of_exec hex⟩
  have hset : w.Settled := ⟨hkick, hqueue, hcore⟩
  exact ⟨w, hr, hset, hsleep, hseq, hdone, hwait, (no_lost_wakeup hr hset).2.2 hsleep 2 hwait⟩

end PlayerTrace
