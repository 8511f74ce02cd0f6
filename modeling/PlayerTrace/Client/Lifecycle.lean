import PlayerTrace.Client.Admission

/-!
# Flush and shutdown

`flush`, `shutdown`, `wait_for_worker_exit` and the destructor of `src/client.cpp`, with
the parts of `WorkerCore` they call: `submit_flush`, `wait_flush`, `request_stop`. Time is
not modelled: a wait ends when its predicate holds, and may time out while it does not.
-/

namespace PlayerTrace

namespace Client

variable (env : Env) (i : Input) (s : State) (t : Tid)

/-! ### Flush tokens -/

/-- The first half of `submit_flush`: barriers only move forward. -/
def submitBarrier (barrier : Nat) : State :=
  { s with core := { s.core with
      flushBarrier := if barrier > s.core.flushBarrier then barrier else s.core.flushBarrier } }

/-- The second half: the token is drawn. -/
def submitToken (barrier : Nat) : State :=
  { s with
    core := { s.core with flushSeq := s.core.flushSeq + 1 }
    log := { s.log with issued := (s.core.flushSeq + 1, barrier) :: s.log.issued } }

/-- The answer to a token whose record is gone. -/
def expired (token : Nat) : Status :=
  ⟨.internal, "the result for this flush (token " ++ toString token ++ ") is no longer " ++
    "available: it was discarded after more than " ++ toString kMaxRetainedPasses ++
    " later flushes completed. Submit a new flush to obtain a current result."⟩

/-- `flush_result_locked`. -/
def flushResult (core : WorkerCore) (token : Nat) : Status :=
  match core.passResults.lookup token with
  | some status => status
  | none =>
    if core.finished ∧ ∀ last ∈ core.passResults.getLast?, last.1 < token then
      ⟨.alreadyShutdown, "the worker stopped before this flush ran; nothing was flushed and " ++
        "any pending events remain in durable storage"⟩
    else expired token

/-- What `wait_flush` waits for. -/
def flushReady (token : Nat) : Bool := decide (s.core.flushDone ≥ token) || s.core.finished

/-- What `wait_flush` reports once it is ready. -/
def flushOutcome (token : Nat) : Status :=
  if s.core.terminalStatus.ok = false then s.core.terminalStatus else flushResult s.core token

/-- `prune_pass_results_locked`, at the end of `wait_flush`. -/
def prunePassResults : State :=
  { s with core := { s.core with
      passResults := s.core.passResults.drop (s.core.passResults.length - kMaxRetainedPasses) } }

/-! ### `flush` -/

def flushFromWorker : Status :=
  ⟨.internal, "flush() must not be called from a PlayerTrace callback or sink running on the " ++
    "worker thread"⟩

def flushLock : Option State :=
  if s.client.admission ≠ .free then none
  else if s.client.lifecycle ≠ .running then
    some (return_ s t .flush ⟨.alreadyShutdown, "client is shutting down or shut down; " ++
      "flush() cannot guarantee delivery of anything still pending"⟩)
  else some (lockAdmission s t .flushTerminal)

def flushTerminal : State :=
  let terminal := terminalLocked s
  if terminal.ok = false then leave s t .flush terminal else proceed s t .flushBarrier

/-- Everything admitted so far is what this flush must cover. -/
def flushBarrier : State :=
  proceed (submitBarrier s s.client.ordinal) t (.flushToken s.client.ordinal)

def flushToken (barrier : Nat) : State :=
  let s' := submitToken s barrier
  { s' with client := { s'.client with admission := .free } }.move t
    (.flushWait (s.core.flushSeq + 1) barrier)

def flushWait (token barrier : Nat) : Option State :=
  if flushReady s token then
    some ((prunePassResults s).move t (.done (.flushed token barrier (flushOutcome s token))))
  else if i.timeout then
    some (s.move t (.done (.flushed token barrier ⟨.timeout, "flush did not complete in time"⟩)))
  else none

/-! ### `shutdown` -/

/-- `request_stop`. -/
def requestStop : State := { s with core := { s.core with stop := true } }

/-- `lifecycle_ = …`. -/
def setLifecycle (l : LifecycleState) : State :=
  { s with client := { s.client with lifecycle := l } }

/-- The end of `shutdown`, and what the destructor does next. -/
def shutdownDone (destroying : Bool) (status : Status) : State :=
  if destroying then s.move t .destroyStop else return_ s t .shutdown status

def shutdownLock (destroying : Bool) : Option State :=
  if s.client.admission ≠ .free then none
  else if s.client.lifecycle = .stopped then some (shutdownDone s t destroying {})
  else some ((setLifecycle s .stopping).move t (.shutdownCancel destroying))

/-- `request_sink_cancel` reaches nothing but the sink. -/
def shutdownCancel (destroying : Bool) : State := s.move t (.shutdownOrdinal destroying)

def shutdownOrdinal (destroying : Bool) : Option State :=
  if s.client.admission ≠ .free then none
  else some (s.move t (.shutdownBarrier destroying s.client.ordinal))

def shutdownBarrier (destroying : Bool) (barrier : Nat) : State :=
  (submitBarrier s barrier).move t (.shutdownToken destroying barrier)

def shutdownToken (destroying : Bool) (barrier : Nat) : State :=
  (submitToken s barrier).move t (.shutdownWait destroying (s.core.flushSeq + 1))

/-- The bounded wait for the final drain; `persist_status` stays `Ok` on a time-out. -/
def shutdownWait (destroying : Bool) (token : Nat) : Option State :=
  if flushReady s token then
    some ((prunePassResults s).move t (.shutdownStop destroying (flushOutcome s token)))
  else if i.timeout then some (s.move t (.shutdownStop destroying {}))
  else none

def shutdownStop (destroying : Bool) (persist : Status) : State :=
  (requestStop s).move t (.shutdownJoin destroying persist)

def shutdownTimeout : Status :=
  ⟨.timeout, "shutdown timed out: the worker is still inside a sink or callback and is still " ++
    "owned by this Client. It was NOT abandoned. Call shutdown() or wait_for_worker_exit() " ++
    "again; undelivered events remain in durable storage."⟩

/-- `wait_and_join`. -/
def shutdownJoin (destroying : Bool) (persist : Status) : Option State :=
  if s.core.finished then
    some ({ s with client := { s.client with joined := true } }.move t
      (.shutdownMark destroying persist))
  else if i.timeout then some (shutdownDone s t destroying shutdownTimeout)
  else none

def shutdownMark (destroying : Bool) (persist : Status) : Option State :=
  if s.client.admission ≠ .free then none
  else some ((setLifecycle s .stopped).move t (.shutdownTerminal destroying persist))

/-- Only a storage-side failure of the drain is a failure of the shutdown. -/
def shutdownTerminal (destroying : Bool) (persist : Status) : State :=
  if s.core.terminalStatus.ok = false then shutdownDone s t destroying s.core.terminalStatus
  else if persist.ok = false ∧ persist.code ≠ .sinkError ∧ persist.code ≠ .alreadyShutdown then
    shutdownDone s t destroying persist
  else shutdownDone s t destroying {}

/-! ### The destructor, after its `shutdown` -/

def destroyStop : State := (requestStop s).move t .destroyCancel

def destroyCancel : State := s.move t .destroyJoin

/-- `join_blocking`. -/
def destroyJoin : Option State :=
  if s.core.finished then
    some (return_ { s with client := { s.client with joined := true } } t .destroy {})
  else none

/-! ### `shutdown` on the worker's own thread -/

def ownClose : Option State :=
  if s.client.admission ≠ .free then none
  else
    let s := if s.client.lifecycle = .running then setLifecycle s .stopping else s
    some (s.move t .ownStop)

def shutdownFromWorker : Status :=
  ⟨.internal, "shutdown() was called from a PlayerTrace callback or sink running on the worker " ++
    "thread; admission is now closed and the worker was asked to stop, but this call cannot " ++
    "wait for itself. Call shutdown() again from another thread."⟩

def ownStop : State := return_ (requestStop s) t .shutdown shutdownFromWorker

/-! ### `wait_for_worker_exit` -/

def exitJoin : Option State :=
  if s.core.finished then
    some ({ s with client := { s.client with joined := true } }.move t .exitMark)
  else if i.timeout then some (s.move t (.done (.waited false)))
  else none

def exitMark : Option State :=
  if s.client.admission ≠ .free then none
  else
    let s := if s.client.lifecycle ≠ .running then setLifecycle s .stopped else s
    some (s.move t (.done (.waited true)))

end Client

end PlayerTrace
