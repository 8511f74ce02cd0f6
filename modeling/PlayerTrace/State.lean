import PlayerTrace.Config
import PlayerTrace.Queue
import PlayerTrace.Session
import PlayerTrace.Store.Ops

/-!
# The state of a client

A client is its shared objects – the pipeline, the worker's core, the client's own fields
– together with where each thread currently is. A thread's position is a program point
that carries the local variables still needed there, so a value that the source no
longer holds does not exist in the model either.

Two mutexes are held across several steps by a caller, and each is modelled by *what its
holder is doing*: `PlayerTrace.Admission` for `admission_mutex_` and
`PlayerTrace.ConsentSection` for `consent_mutex_`. There is one such slot for each, so two
threads inside one critical section is not a state. The store mutex is held across steps
only by the worker, between its last consent check and the insertion
(`PlayerTrace.WorkerPc.holdsStore`), and the retry mutex only by a revocation
(`PlayerTrace.ConsentPc.holdsRetry`). All other critical sections are single steps.

`PlayerTrace.History` and `PlayerTrace.Log` are ghost: no step reads them, except that a new
identifier is taken outside the ones already used.
-/

namespace PlayerTrace

/-- Threads. Number `0` is the worker's own thread, which enters the client only from a
callback or a sink. -/
abbrev Tid := Nat

/-! ### The shared objects -/

/-- The counters of `Stats`. -/
structure Stats where
  accepted : Nat := 0
  droppedQueueFull : Nat := 0
  droppedStorageFull : Nat := 0
  discardedConsent : Nat := 0
  droppedInvalid : Nat := 0
  persisted : Nat := 0
  delivered : Nat := 0
  deliveryFailures : Nat := 0
  deriving DecidableEq, Repr

/-- `Pipeline`: the state shared by the client and its worker. -/
structure Pipeline where
  queue : List QueuedEvent := []
  store : Database
  consent : ConsentState
  consentGeneration : Nat := 0
  outstanding : Nat := 0
  terminated : Bool := false
  stats : Stats := {}

/-- `Pipeline::release_outstanding`: never below zero. -/
def Pipeline.releaseOutstanding (p : Pipeline) (n : Nat) : Pipeline :=
  { p with outstanding := if p.outstanding > n then p.outstanding - n else 0 }

/-- `kMaxRetainedPasses`. -/
def kMaxRetainedPasses : Nat := 256

/-- The fields of `WorkerCore` that other threads see. `passResults` is the
`std::map`, in key order. -/
structure WorkerCore where
  retry : List QueuedEvent := []
  stop : Bool := false
  finished : Bool := false
  flushSeq : Nat := 0
  flushDone : Nat := 0
  flushBarrier : Nat := 0
  pendingError : Status := {}
  terminalStatus : Status := {}
  passResults : List (Nat × Status) := []

/-! ### The worker's position -/

/-- Where `purge_store` was called from. -/
inductive PurgeSite
  | incoming
  | delivery (deliveredAny : Bool)
  deriving DecidableEq, Repr

/-- Which of its two calls `work_remains_at_or_below` is in: the condition of the drain
loop, or the residual check with the outcome so far. -/
inductive Remains
  | loop
  | residual (outcome : Status)
  deriving DecidableEq, Repr

/-- An event that passed the serialization loop: `keep` and `records` grow in lockstep,
so they are one list. -/
structure Kept where
  qe : QueuedEvent
  payload : String
  deriving DecidableEq, Repr

/-- The element of `records` for a kept event. -/
def Kept.record (k : Kept) : StoredRecord :=
  { eventId := k.qe.event.eventId, sessionId := k.qe.event.sessionId,
    sequence := k.qe.event.sequence, ordinal := k.qe.ordinal,
    createdMs := k.qe.event.timestampMs, payload := k.payload }

/-- The program points of the worker thread, with the locals live there. -/
inductive WorkerPc
  -- `run`, up to the first pop
  | start
  | latch
  | clearError
  | pop
  -- `process_incoming`
  | takeRetry (drained : List QueuedEvent)
  | readGeneration (batch : List QueuedEvent)
  | checkConsent (generation : Nat) (batch : List QueuedEvent)
  | countRevoked (n : Nat)
  | serialize (generation : Nat) (keep : List Kept) (batch : List QueuedEvent)
  | countStale (generation : Nat) (keep : List Kept) (batch : List QueuedEvent)
  | countInvalid (generation : Nat) (keep : List Kept) (batch : List QueuedEvent)
  | boundaryConsent (generation : Nat) (keep : List Kept)
  | boundaryGeneration (generation : Nat) (keep : List Kept)
  | insert (generation : Nat) (keep : List Kept)
  | countBoundary (n : Nat)
  | noteInsert (inserted : Status) (keep : List QueuedEvent)
  | holdForRetry (keep : List QueuedEvent)
  | countPersisted (n : Nat)
  -- `deliver_all`; `seen` is ghost: the revocations begun before the first check
  | deliverConsent (deliveredAny : Bool)
  | fetch (deliveredAny : Bool) (seen : Nat)
  | countQuarantined (deliveredAny : Bool) (seen : Nat) (pending : FetchResult)
  | noteFetch (deliveredAny : Bool) (seen : Nat) (pending : FetchResult)
  | deliverGeneration (deliveredAny : Bool) (seen : Nat) (events : List SerializedEvent)
  | recheckConsent (deliveredAny : Bool) (seen : Nat) (generation : Nat)
      (events : List SerializedEvent)
  | write (deliveredAny : Bool) (generation : Nat) (batch : List SerializedEvent)
  | noteWrite (deliveredAny : Bool) (written : Status)
  | postConsent (deliveredAny : Bool) (generation : Nat) (batch : List SerializedEvent)
  | postGeneration (deliveredAny : Bool) (generation : Nat) (batch : List SerializedEvent)
  | acknowledge (deliveredAny : Bool) (batch : List SerializedEvent)
  | noteAck (deliveredAny : Bool) (ack : Status)
  | countDelivered (n : Nat)
  -- `purge_store`
  | purge (site : PurgeSite)
  | notePurge (site : PurgeSite) (purged : Status)
  | resetOutstanding (site : PurgeSite) (remaining : Nat)
  -- `run`, the flush pass
  | readBarrier
  | remainsQueue (r : Remains)
  | remainsRetry (r : Remains)
  | remainsStore (r : Remains)
  | queueBefore
  | popMore (queueBefore : Nat)
  | stallCheck (queueBefore : Nat)
  | flushSink
  | noteFlushSink (sinkFlush : Status)
  | takeOutcome
  | record (outcome : Status)
  | checkStop
  -- after the loop
  | stopped
  | terminate
  | reportTerminal
  | finish
  | exited

/-- Which iteration `process_incoming` and `deliver_all` belong to: the one of the main
loop, or one of the drain loop with its `queue_before` and `moved`. -/
inductive Site
  | main
  | drain (queueBefore : Nat) (moved : Bool)
  deriving DecidableEq, Repr

/-- The worker thread: its position, and the locals of `run` that outlive a call. -/
structure Frame where
  pc : WorkerPc := .start
  site : Site := .main
  handledFlush : Nat := 0
  want : Nat := 0
  flushPending : Bool := false
  barrier : Nat := 0

/-- The worker holds the store mutex across its last consent check and the insertion. -/
def WorkerPc.holdsStore : WorkerPc → Bool
  | .boundaryGeneration .. | .insert .. => true
  | _ => false

/-- Where the worker's thread is inside user code: a callback, or the sink. -/
def WorkerPc.inCallback : WorkerPc → Bool
  | .start | .countInvalid .. | .noteInsert .. | .noteFetch .. | .write .. | .noteWrite ..
  | .noteAck .. | .notePurge .. | .flushSink | .noteFlushSink .. | .stopped
  | .reportTerminal => true
  | _ => false

/-- Inside the `try` of `run`. -/
def WorkerPc.inLoop : WorkerPc → Bool
  | .terminate | .reportTerminal | .finish | .exited => false
  | _ => true

/-- The events in the worker's hands: drained, being serialized, or about to be inserted
or held for retry. -/
def WorkerPc.hands : WorkerPc → List QueuedEvent
  | .takeRetry l | .readGeneration l | .checkConsent _ l | .noteInsert _ l
  | .holdForRetry l => l
  | .serialize _ keep batch | .countStale _ keep batch | .countInvalid _ keep batch =>
    keep.map Kept.qe ++ batch
  | .boundaryConsent _ keep | .boundaryGeneration _ keep | .insert _ keep => keep.map Kept.qe
  | _ => []

/-! ### Callers -/

/-- The operations of the public interface. Time-outs are not arguments: a wait may time
out whenever what it waits for is not there. -/
inductive Op
  | startSession (playerId : String)
  | endSession
  | track (name : String) (properties : Properties)
  | flush
  | shutdown
  | waitForWorkerExit
  | setConsent (state : ConsentState)
  | destroy
  deriving DecidableEq, Repr

/-- What an operation returned. The token and barrier of a flush, and the fence of a
consent change (see `PlayerTrace.History`), are ghost. -/
inductive Outcome
  | status (op : Op) (status : Status)
  | flushed (token barrier : Nat) (status : Status)
  | consented (state : ConsentState) (fence : Nat) (status : Status)
  | waited (exited : Bool)
  deriving DecidableEq, Repr

/-- What `admit_locked` was called for: the rest of the calling function. -/
inductive AdmitFor
  | track (name : String) (properties : Properties)
  | endSession
  | replaceEnd (playerId : String) (previous : SessionManager)
  | start (playerId : String) (replacing : Bool) (previous : SessionManager)
  deriving DecidableEq, Repr

/-- The program points of a producer or a flush inside the admission lock. -/
inductive AdmitPc
  -- `start_session`
  | startTerminal (playerId : String)
  | startReserve (playerId : String)
  | startRoom (playerId : String)
  | startBegin (playerId : String) (replacing : Bool) (previous : SessionManager)
  -- `end_session`
  | endTerminal
  -- `admit_locked`
  | gate (k : AdmitFor) (name : String) (properties : Properties)
  | capacity (k : AdmitFor) (name : String) (properties : Properties)
  | room (k : AdmitFor) (name : String) (properties : Properties)
  | reserve (k : AdmitFor) (qe : QueuedEvent)
  | push (k : AdmitFor) (qe : QueuedEvent)
  | undo (k : AdmitFor) (qe : QueuedEvent)
  | count (k : AdmitFor)
  -- `flush`
  | flushTerminal
  | flushBarrier
  | flushToken (barrier : Nat)
  deriving DecidableEq, Repr

/-- `admission_mutex_` and what its holder is doing. -/
inductive Admission
  | free
  | producer (t : Tid) (pc : AdmitPc)
  | consent
  deriving DecidableEq, Repr

/-- The program points of `set_consent` inside the consent lock; those from `bump` to
`forget` also hold the admission lock. -/
inductive ConsentPc
  | store
  | bump
  | clear
  | countCleared (n : Nat)
  | deactivate
  | discard
  | countDiscarded (n : Nat)
  | forget
  -- `run_purge`
  | mark
  | purge
  | reset
  -- the end of a grant
  | grant
  deriving DecidableEq, Repr

/-- `discard_in_flight` holds the retry mutex until it has counted. -/
def ConsentPc.holdsRetry : ConsentPc → Bool
  | .countDiscarded _ => true
  | _ => false

/-- `consent_mutex_` and what its holder is doing. -/
inductive ConsentSection
  | free
  | held (t : Tid) (state : ConsentState) (pc : ConsentPc)
  deriving DecidableEq, Repr

/-- Where a caller is. A thread inside one of the two locks that are held across steps is
described by the slot of that lock. -/
inductive Caller
  | idle
  | done (o : Outcome)
  | admitting
  | consenting
  -- waiting for the admission lock
  | startLock (playerId : String)
  | endLock
  | trackEnter (name : String) (properties : Properties)
  | trackFilter (name : String) (properties : Properties) (entryGeneration : Nat)
  | trackLock (name : String) (properties filtered : Properties) (entryGeneration : Nat)
  | flushLock
  -- the second half of `flush`
  | flushWait (token barrier : Nat)
  -- `shutdown`, as such or from the destructor
  | shutdownLock (destroying : Bool)
  | shutdownCancel (destroying : Bool)
  | shutdownOrdinal (destroying : Bool)
  | shutdownBarrier (destroying : Bool) (barrier : Nat)
  | shutdownToken (destroying : Bool) (barrier : Nat)
  | shutdownWait (destroying : Bool) (token : Nat)
  | shutdownStop (destroying : Bool) (persist : Status)
  | shutdownJoin (destroying : Bool) (persist : Status)
  | shutdownMark (destroying : Bool) (persist : Status)
  | shutdownTerminal (destroying : Bool) (persist : Status)
  -- the rest of the destructor
  | destroyStop
  | destroyCancel
  | destroyJoin
  -- `shutdown` on the worker's own thread
  | ownClose
  | ownStop
  -- `wait_for_worker_exit`
  | exitJoin
  | exitMark
  -- waiting for the consent lock
  | consentLock (state : ConsentState)
  deriving DecidableEq, Repr

/-- A thread that is not inside any call. -/
def Caller.free : Caller → Bool
  | .idle | .done _ => true
  | _ => false

/-- The fields of `Client::Impl`. `joined` is `Worker::joined_`. -/
structure Client where
  lifecycle : LifecycleState := .running
  ordinal : Nat := 0
  session : SessionManager := {}
  purgeRequired : Bool := false
  joined : Bool := false
  admission : Admission := .free
  consentSection : ConsentSection := .free

/-! ### Ghost state -/

/-- Which SDK call an admitted event stems from. -/
inductive Origin
  | start
  | track
  | finish
  deriving DecidableEq, Repr

/-- The origin of the event `admit_locked` is called for. -/
def AdmitFor.origin : AdmitFor → Origin
  | .track .. => .track
  | .endSession | .replaceEnd .. => .finish
  | .start .. => .start

/-- An event that was pushed to the queue. -/
structure Admitted where
  qe : QueuedEvent
  origin : Origin
  deriving DecidableEq, Repr

/-- What happened so far. The *fence* of a revocation is one above the last ordinal given
out when it stored the new consent state, so an event is covered by it exactly when its
ordinal is below the fence. -/
structure History where
  /-- The rows found when the client was created. -/
  recovered : List Item := []
  /-- The events admitted, in admission order. -/
  accepted : List Admitted := []
  /-- Deleted by an acknowledgment. -/
  acked : List Item := []
  /-- Discarded because of a revocation, before they were stored. -/
  discarded : List Item := []
  /-- Deleted from the store by a purge. -/
  purged : List Item := []
  /-- Dropped as unserializable, or quarantined. -/
  dropped : List Item := []
  /-- In the worker's hands when its loop was left by an exception. -/
  lost : List Item := []
  /-- The fence of the latest revocation. -/
  fence : Nat := 0
  /-- The number of revocations begun. -/
  revocations : Nat := 0
  /-- The fence of the latest revocation that has returned. -/
  completed : Nat := 0
  /-- The identifiers in use. -/
  used : List String := []

/-- What was handed out and accepted outside the ledger of events. -/
structure Log where
  /-- The events of the batches the sink accepted. -/
  written : List SerializedEvent := []
  /-- The flush tokens given out, each with the barrier it was issued for. -/
  issued : List (Nat × Nat) := []

/-- The state of one client and its threads. -/
structure State where
  pipeline : Pipeline
  core : WorkerCore := {}
  frame : Frame := {}
  client : Client := {}
  callers : Tid → Caller := fun _ => .idle
  history : History := {}
  log : Log := {}

/-! ### What the environment decides -/

/-- How a sink call ends. -/
inductive SinkAnswer
  | returned (status : Status)
  | threw (what : Option String)
  deriving DecidableEq, Repr

/-- The environment's share of a step; a step uses at most the parts it needs. -/
structure Input where
  /-- The answers of SQLite and of the fault hook. -/
  faults : Faults := Faults.none
  /-- The answer of the sink. -/
  sink : SinkAnswer := .returned {}
  /-- An exception in the worker's loop, with its text if it has one. -/
  raise : Option (Option String) := none
  /-- The identifier `uuid4` returns. -/
  uuid : String := ""
  /-- The wall clock. -/
  now : Int := 0
  /-- The wait times out. -/
  timeout : Bool := false
  /-- The property filter: keep the property, or throw. -/
  filter : String → PropertyValue → Option Bool := fun _ _ => some true

namespace State

/-- Moving the worker. -/
def goto (s : State) (pc : WorkerPc) : State := { s with frame := { s.frame with pc := pc } }

/-- Moving a caller. -/
def move (s : State) (t : Tid) (c : Caller) : State :=
  { s with callers := Function.update s.callers t c }

/-- No step of the worker has the store mutex. -/
def storeFree (s : State) : Bool := !s.frame.pc.holdsStore

/-- No revocation has the retry mutex. -/
def retryFree (s : State) : Bool :=
  match s.client.consentSection with
  | .free => true
  | .held _ _ pc => !pc.holdsRetry

/-- The events in the worker's hands. -/
def hands (s : State) : List QueuedEvent := s.frame.pc.hands

/-- Counting `n` events into a statistic and giving back their capacity. -/
def countOut (s : State) (n : Nat) (stat : Stats → Stats) : State :=
  { s with pipeline := { s.pipeline.releaseOutstanding n with stats := stat s.pipeline.stats } }

end State

end PlayerTrace
