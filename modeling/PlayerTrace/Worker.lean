import PlayerTrace.State

/-!
# The worker thread

`src/worker.cpp`, one definition per shared access: between two of them any other thread
may move. A definition is named after the statement it executes and is given the locals
of its program point; it returns the state at the next one, and nothing when the worker
has to wait for a mutex. `PlayerTrace.Worker.step` dispatches on the position.

An event leaves the worker's hands at the statement that decides its fate; the statistic
and the capacity it holds are counted by the next one, in one step, since nobody reads
the statistics in between.
-/

namespace PlayerTrace

namespace Worker

variable (env : Env) (i : Input) (s : State)

/-- Writing down what happened. -/
def note (f : History → History) : State := { s with history := f s.history }

/-- Replacing the store. -/
def setStore (db : Database) : State := { s with pipeline := { s.pipeline with store := db } }

/-- Replacing the retry buffer. -/
def setRetry (l : List QueuedEvent) : State := { s with core := { s.core with retry := l } }

/-- `note_error`, after the error callback: the first error of a pass is kept. -/
def noteError (st : Status) : State :=
  { s with core := { s.core with
      pendingError := if s.core.pendingError.ok then st else s.core.pendingError } }

/-- Discarding events for a revocation. -/
def discard (l : List QueuedEvent) : State :=
  note s fun h => { h with discarded := h.discarded ++ l.map QueuedEvent.item }

/-- Counting `n` discarded events. -/
def countDiscarded (n : Nat) : State :=
  s.countOut n fun st => { st with discardedConsent := st.discardedConsent + n }

/-- Counting `n` dropped events. -/
def countDropped (n : Nat) : State :=
  s.countOut n fun st => { st with droppedInvalid := st.droppedInvalid + n }

/-! ### The end of `work_remains_at_or_below`, `deliver_all` and `process_incoming` -/

/-- What follows `work_remains_at_or_below`: `why` is the reason work remains, if it does. -/
def remainsDone (r : Remains) (why : Option Status) : State :=
  match r, why with
  | .loop, some _ => s.goto .queueBefore
  | .loop, none => s.goto .flushSink
  | .residual outcome, some w => s.goto (.record (if outcome.ok then w else outcome))
  | .residual outcome, none => s.goto (.record outcome)

/-- Entering `work_remains_at_or_below`, which looks at nothing when the barrier is zero. -/
def enterRemains (r : Remains) : State :=
  if s.frame.barrier = 0 then remainsDone s r none else s.goto (.remainsQueue r)

/-- What follows `deliver_all`. -/
def afterDelivery (delivered : Bool) : State :=
  match s.frame.site with
  | .main => s.goto (if s.frame.flushPending then .readBarrier else .checkStop)
  | .drain queueBefore moved =>
    if !moved && !delivered then s.goto (.stallCheck queueBefore) else enterRemains s .loop

/-- What follows `process_incoming`: a call of `deliver_all`. -/
def afterIncoming : State := s.goto (.deliverConsent false)

/-- What follows `purge_store`. -/
def afterPurge (site : PurgeSite) : State :=
  match site with
  | .incoming => afterIncoming s
  | .delivery deliveredAny => afterDelivery s deliveredAny

/-! ### `process_incoming` -/

/-- `take_retry`, and the drained events behind what it took. -/
def takeRetry (drained : List QueuedEvent) : Option State :=
  if s.retryFree then
    let batch := s.core.retry ++ drained
    let s := setRetry s []
    some (if batch.isEmpty then afterIncoming s else s.goto (.readGeneration batch))
  else none

/-- `generation = consent_generation()`. -/
def readGeneration (batch : List QueuedEvent) : State :=
  s.goto (.checkConsent s.pipeline.consentGeneration batch)

/-- The first consent check: without consent the whole batch is discarded. -/
def checkConsent (generation : Nat) (batch : List QueuedEvent) : State :=
  if s.pipeline.consent ≠ .granted then
    (discard s batch).goto (.countRevoked batch.length)
  else s.goto (.serialize generation [] batch)

def countRevoked (n : Nat) : State := (countDiscarded s n).goto (.purge .incoming)

/-- One turn of the serialization loop, or its end. -/
def serialize (generation : Nat) (keep : List Kept) : List QueuedEvent → State
  | [] =>
    if keep.isEmpty then afterIncoming s else s.goto (.boundaryConsent generation keep)
  | qe :: batch =>
    if qe.consentGeneration ≠ generation then
      (discard s [qe]).goto (.countStale generation keep batch)
    else
      match env.serialize qe.event with
      | .error _ =>
        (note s fun h => { h with dropped := h.dropped ++ [qe.item] }).goto
          (.countInvalid generation keep batch)
      | .ok payload => s.goto (.serialize generation (keep ++ [⟨qe, payload⟩]) batch)

def countStale (generation : Nat) (keep : List Kept) (batch : List QueuedEvent) : State :=
  (countDiscarded s 1).goto (.serialize generation keep batch)

def countInvalid (generation : Nat) (keep : List Kept) (batch : List QueuedEvent) : State :=
  (countDropped s 1).goto (.serialize generation keep batch)

/-- What a batch refused at the boundary comes to. -/
def refuseAtBoundary (keep : List Kept) : State :=
  (discard s (keep.map Kept.qe)).goto (.countBoundary keep.length)

/-- The store mutex is taken and consent checked under it. -/
def boundaryConsent (generation : Nat) (keep : List Kept) : State :=
  if s.pipeline.consent ≠ .granted then refuseAtBoundary s keep
  else s.goto (.boundaryGeneration generation keep)

/-- The generation is checked, still under the store mutex. -/
def boundaryGeneration (generation : Nat) (keep : List Kept) : State :=
  if s.pipeline.consentGeneration ≠ generation then refuseAtBoundary s keep
  else s.goto (.insert generation keep)

/-- The insertion, which ends the store mutex's section. -/
def insert (keep : List Kept) : State :=
  let (inserted, db) := PlayerTrace.insert i.faults (keep.map Kept.record) s.pipeline.store
  let s := setStore s db
  if inserted.ok then s.goto (.countPersisted keep.length)
  else s.goto (.noteInsert inserted (keep.map Kept.qe))

def countBoundary (n : Nat) : State := afterIncoming (countDiscarded s n)

def noteInsert (inserted : Status) (keep : List QueuedEvent) : State :=
  (noteError s inserted).goto (.holdForRetry keep)

/-- `hold_for_retry`: what was kept goes ahead of what is already there. -/
def holdForRetry (keep : List QueuedEvent) : Option State :=
  if keep.isEmpty then some (afterIncoming s)
  else if s.retryFree then
    some (afterIncoming
      (setRetry s (if s.core.retry.isEmpty then keep else keep ++ s.core.retry)))
  else none

def countPersisted (n : Nat) : State :=
  afterIncoming { s with pipeline := { s.pipeline with
    stats := { s.pipeline.stats with persisted := s.pipeline.stats.persisted + n } } }

/-! ### `deliver_all` -/

/-- The consent check at the head of the loop. -/
def deliverConsent (deliveredAny : Bool) : State :=
  if s.pipeline.consent ≠ .granted then s.goto (.purge (.delivery deliveredAny))
  else s.goto (.fetch deliveredAny s.history.revocations)

/-- What follows the report of a fetch: the end of the call when nothing was read. -/
def afterFetch (deliveredAny : Bool) (seen : Nat) (events : List SerializedEvent) : State :=
  if events.isEmpty then afterDelivery s deliveredAny
  else s.goto (.deliverGeneration deliveredAny seen events)

/-- What follows the counting of quarantined rows. -/
def reportFetch (deliveredAny : Bool) (seen : Nat) (pending : FetchResult) : State :=
  if pending.status.ok = false then s.goto (.noteFetch deliveredAny seen pending)
  else afterFetch s deliveredAny seen pending.events

/-- `fetch_pending`. The rows it removes are quarantined. -/
def fetch (deliveredAny : Bool) (seen : Nat) : State :=
  let (pending, db) :=
    fetchPending i.faults env.isValidJson env.config.batchSize s.pipeline.store
  let gone := s.pipeline.store.gone db
  let s := note (setStore s db) fun h => { h with dropped := h.dropped ++ gone }
  if pending.quarantined > 0 then s.goto (.countQuarantined deliveredAny seen pending)
  else reportFetch s deliveredAny seen pending

def countQuarantined (deliveredAny : Bool) (seen : Nat) (pending : FetchResult) : State :=
  reportFetch (countDropped s pending.quarantined) deliveredAny seen pending

def noteFetch (deliveredAny : Bool) (seen : Nat) (pending : FetchResult) : State :=
  afterFetch (noteError s pending.status) deliveredAny seen pending.events

def deliverGeneration (deliveredAny : Bool) (seen : Nat) (events : List SerializedEvent) : State :=
  s.goto (.recheckConsent deliveredAny seen s.pipeline.consentGeneration events)

/-- The consent check immediately before the sink is called. -/
def recheckConsent (deliveredAny : Bool) (generation : Nat) (events : List SerializedEvent) :
    State :=
  if s.pipeline.consent ≠ .granted then s.goto (.purge (.delivery deliveredAny))
  else s.goto (.write deliveredAny generation events)

/-- `safe_write`. -/
def safeWrite : SinkAnswer → Status
  | .returned status => status
  | .threw (some what) => ⟨.sinkError, "sink threw: " ++ what⟩
  | .threw none => ⟨.sinkError, "sink threw an unknown exception"⟩

/-- The sink returns from `write`. -/
def write (deliveredAny : Bool) (generation : Nat) (batch : List SerializedEvent) : State :=
  let written := safeWrite i.sink
  if written.ok = false then s.goto (.noteWrite deliveredAny written)
  else
    { s with log := { s.log with written := s.log.written ++ batch } }.goto
      (.postConsent deliveredAny generation batch)

def noteWrite (deliveredAny : Bool) (written : Status) : State :=
  let s := noteError s written
  afterDelivery { s with pipeline := { s.pipeline with stats :=
    { s.pipeline.stats with deliveryFailures := s.pipeline.stats.deliveryFailures + 1 } } }
    deliveredAny

/-- The first half of the check after the sink has returned. -/
def postConsent (deliveredAny : Bool) (generation : Nat) (batch : List SerializedEvent) : State :=
  if s.pipeline.consent ≠ .granted then s.goto (.purge (.delivery deliveredAny))
  else s.goto (.postGeneration deliveredAny generation batch)

/-- Its second half. -/
def postGeneration (deliveredAny : Bool) (generation : Nat) (batch : List SerializedEvent) :
    State :=
  if s.pipeline.consentGeneration ≠ generation then s.goto (.purge (.delivery deliveredAny))
  else s.goto (.acknowledge deliveredAny batch)

/-- `acknowledge`. -/
def acknowledge (deliveredAny : Bool) (batch : List SerializedEvent) : State :=
  let (ack, _, db) :=
    PlayerTrace.acknowledge i.faults (batch.map SerializedEvent.eventId) s.pipeline.store
  let gone := s.pipeline.store.gone db
  let s := note (setStore s db) fun h => { h with acked := h.acked ++ gone }
  if ack.ok = false then s.goto (.noteAck deliveredAny ack)
  else s.goto (.countDelivered batch.length)

def noteAck (deliveredAny : Bool) (ack : Status) : State :=
  afterDelivery (noteError s ack) deliveredAny

def countDelivered (n : Nat) : State :=
  (s.countOut n fun st => { st with delivered := st.delivered + n }).goto (.deliverConsent true)

/-! ### `purge_store` -/

/-- The purge, and the count of what remains, in one section of the store mutex. -/
def purge (site : PurgeSite) : State :=
  let (purged, _, db) := purgeAndClearRevocation i.faults s.pipeline.store
  let gone := s.pipeline.store.gone db
  let s := note (setStore s db) fun h => { h with purged := h.purged ++ gone }
  if purged.ok = false then s.goto (.notePurge site purged)
  else s.goto (.resetOutstanding site ((count i.faults db).toOption.getD 0))

def notePurge (site : PurgeSite) (purged : Status) : State := afterPurge (noteError s purged) site

def resetOutstanding (site : PurgeSite) (remaining : Nat) : State :=
  afterPurge { s with pipeline := { s.pipeline with outstanding := remaining } } site

/-! ### `run` -/

/-- Latching the flush request. -/
def latch : State :=
  let want := s.core.flushSeq
  let pending := decide (want > s.frame.handledFlush)
  { s with frame := { s.frame with
      want := want, flushPending := pending, site := .main
      pc := if pending then .clearError else .pop } }

def clearError : State := { s with core := { s.core with pendingError := {} } }.goto .pop

/-- `pop_wait` at the head of an iteration. -/
def pop : State :=
  let (drained, queue) := EventQueue.popWait s.pipeline.queue env.config.batchSize
  { s with pipeline := { s.pipeline with queue := queue } }.goto (.takeRetry drained)

def readBarrier : State :=
  enterRemains { s with frame := { s.frame with barrier := s.core.flushBarrier } } .loop

def remainsQueue (r : Remains) : State :=
  if frontOrdinal s.pipeline.queue ≤ s.frame.barrier then
    remainsDone s r (some ⟨.timeout, "flush did not drain every event accepted before it"⟩)
  else s.goto (.remainsRetry r)

def remainsRetry (r : Remains) : Option State :=
  if s.retryFree then
    some (if frontOrdinal s.core.retry ≤ s.frame.barrier then
      remainsDone s r (some ⟨.storageError, "events accepted before this flush could not be " ++
        "written to durable storage and are awaiting retry"⟩)
    else s.goto (.remainsStore r))
  else none

def remainsStore (r : Remains) : State :=
  match countUpTo i.faults s.frame.barrier s.pipeline.store with
  | .error counted => remainsDone s r (some counted)
  | .ok pending =>
    if pending > 0 then
      remainsDone s r (some ⟨.sinkError, "events accepted before this flush are persisted but " ++
        "were not acknowledged by the sink"⟩)
    else remainsDone s r none

def queueBefore : State := s.goto (.popMore s.pipeline.queue.length)

/-- `pop_wait` inside the drain loop. -/
def popMore (queueBefore : Nat) : State :=
  let (more, queue) := EventQueue.popWait s.pipeline.queue env.config.batchSize
  { s with
    pipeline := { s.pipeline with queue := queue }
    frame := { s.frame with
      pc := .takeRetry more, site := .drain queueBefore (!more.isEmpty) } }

/-- The last conjunct of the stall test; the other two are known to hold here. -/
def stallCheck (queueBefore : Nat) : State :=
  if s.pipeline.queue.length ≥ queueBefore then s.goto .flushSink else enterRemains s .loop

/-- `safe_flush_sink`. -/
def safeFlushSink : SinkAnswer → Status
  | .returned status => status
  | .threw (some what) => ⟨.sinkError, "sink flush threw: " ++ what⟩
  | .threw none => ⟨.sinkError, "sink flush threw an unknown exception"⟩

/-- The sink returns from `flush`. -/
def flushSink : State :=
  let sinkFlush := safeFlushSink i.sink
  if sinkFlush.ok = false then s.goto (.noteFlushSink sinkFlush) else s.goto .takeOutcome

def noteFlushSink (sinkFlush : Status) : State := (noteError s sinkFlush).goto .takeOutcome

def takeOutcome : State :=
  enterRemains { s with core := { s.core with pendingError := {} } }
    (.residual s.core.pendingError)

/-- `pass_results_[k] = v`. -/
def setResult (k : Nat) (v : Status) : List (Nat × Status) → List (Nat × Status)
  | [] => [(k, v)]
  | (k', v') :: m =>
    if k < k' then (k, v) :: (k', v') :: m
    else if k = k' then (k, v) :: m
    else (k', v') :: setResult k v m

/-- `prune_pass_results_locked`: the oldest records go first. -/
def prune (m : List (Nat × Status)) : List (Nat × Status) := m.drop (m.length - kMaxRetainedPasses)

/-- One outcome for every token from `first` to `last`. -/
def setResults (m : List (Nat × Status)) (first last : Nat) (v : Status) : List (Nat × Status) :=
  (List.range' first (last + 1 - first)).foldl (fun m t => setResult t v m) m

/-- Recording the outcome for every token the pass answered. -/
def record (outcome : Status) : State :=
  let want := s.frame.want
  { s with
    core := { s.core with
      passResults := prune (setResults s.core.passResults (s.frame.handledFlush + 1) want outcome)
      flushDone := want }
    frame := { s.frame with handledFlush := want, pc := .checkStop } }

def checkStop : State := s.goto (if s.core.stop then .stopped else .latch)

/-- Past the `try`: an unexpected exit closes admission first. -/
def stopped : State := s.goto (if s.core.terminalStatus.ok = false then .terminate else .finish)

def terminate : State :=
  { s with pipeline := { s.pipeline with terminated := true } }.goto .reportTerminal

/-- The answer to a token no pass has serviced. -/
def unserviced : Status :=
  ⟨.alreadyShutdown, "the worker stopped before this flush ran; nothing was flushed and any " ++
    "pending events remain in durable storage"⟩

/-- Releasing every waiter at the end of the thread. -/
def finish : State :=
  let last := s.core.flushSeq
  { s with
    core := { s.core with
      finished := true
      passResults :=
        prune (setResults s.core.passResults (s.frame.handledFlush + 1) last unserviced)
      flushDone := last }
    frame := { s.frame with pc := .exited } }

/-- The status an exception leaves behind. -/
def terminalStatus : Option String → Status
  | some what => ⟨.internal, "the playertrace worker stopped unexpectedly: " ++ what⟩
  | none => ⟨.internal, "the playertrace worker stopped unexpectedly (unknown exception)"⟩

/-- An exception in the loop: what the worker holds is gone. -/
def unexpected (what : Option String) : State :=
  (note { s with core := { s.core with terminalStatus := terminalStatus what } } fun h =>
    { h with lost := h.lost ++ s.hands.map QueuedEvent.item }).goto .terminate

/-- One statement of the worker. -/
def execute : Option State :=
  match s.frame.pc with
  | .start => some (s.goto .latch)
  | .latch => some (latch s)
  | .clearError => some (clearError s)
  | .pop => some (pop env s)
  | .takeRetry drained => takeRetry s drained
  | .readGeneration batch => some (readGeneration s batch)
  | .checkConsent generation batch => some (checkConsent s generation batch)
  | .countRevoked n => some (countRevoked s n)
  | .serialize generation keep batch => some (serialize env s generation keep batch)
  | .countStale generation keep batch => some (countStale s generation keep batch)
  | .countInvalid generation keep batch => some (countInvalid s generation keep batch)
  | .boundaryConsent generation keep => some (boundaryConsent s generation keep)
  | .boundaryGeneration generation keep => some (boundaryGeneration s generation keep)
  | .insert _ keep => some (insert i s keep)
  | .countBoundary n => some (countBoundary s n)
  | .noteInsert inserted keep => some (noteInsert s inserted keep)
  | .holdForRetry keep => holdForRetry s keep
  | .countPersisted n => some (countPersisted s n)
  | .deliverConsent deliveredAny => some (deliverConsent s deliveredAny)
  | .fetch deliveredAny seen => some (fetch env i s deliveredAny seen)
  | .countQuarantined deliveredAny seen pending =>
    some (countQuarantined s deliveredAny seen pending)
  | .noteFetch deliveredAny seen pending => some (noteFetch s deliveredAny seen pending)
  | .deliverGeneration deliveredAny seen events =>
    some (deliverGeneration s deliveredAny seen events)
  | .recheckConsent deliveredAny _ generation events =>
    some (recheckConsent s deliveredAny generation events)
  | .write deliveredAny generation batch => some (write i s deliveredAny generation batch)
  | .noteWrite deliveredAny written => some (noteWrite s deliveredAny written)
  | .postConsent deliveredAny generation batch =>
    some (postConsent s deliveredAny generation batch)
  | .postGeneration deliveredAny generation batch =>
    some (postGeneration s deliveredAny generation batch)
  | .acknowledge deliveredAny batch => some (acknowledge i s deliveredAny batch)
  | .noteAck deliveredAny ack => some (noteAck s deliveredAny ack)
  | .countDelivered n => some (countDelivered s n)
  | .purge site => some (purge i s site)
  | .notePurge site purged => some (notePurge s site purged)
  | .resetOutstanding site remaining => some (resetOutstanding s site remaining)
  | .readBarrier => some (readBarrier s)
  | .remainsQueue r => some (remainsQueue s r)
  | .remainsRetry r => remainsRetry s r
  | .remainsStore r => some (remainsStore i s r)
  | .queueBefore => some (queueBefore s)
  | .popMore q => some (popMore env s q)
  | .stallCheck q => some (stallCheck s q)
  | .flushSink => some (flushSink i s)
  | .noteFlushSink sinkFlush => some (noteFlushSink s sinkFlush)
  | .takeOutcome => some (takeOutcome s)
  | .record outcome => some (record s outcome)
  | .checkStop => some (checkStop s)
  | .stopped => some (stopped s)
  | .terminate => some (terminate s)
  | .reportTerminal => some (s.goto .finish)
  | .finish => some (finish s)
  | .exited => none

/-- A step of the worker thread: a statement, or an exception inside the loop. While its
thread is inside a call of the client, made from a callback, the worker does not move. -/
def step : Option State :=
  if (s.callers 0).free = false then none
  else
    match i.raise with
    | some what => if s.frame.pc.inLoop then some (unexpected s what) else none
    | none => execute env i s

end Worker

end PlayerTrace
