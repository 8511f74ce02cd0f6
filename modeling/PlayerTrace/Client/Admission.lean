import PlayerTrace.State

/-!
# Sessions and admission

`start_session`, `end_session` and `track` of `src/client.cpp`, with the functions they
share under the admission lock. What only the admission lock protects – the lifecycle,
the session record, the ordinal, the consent state – is read together with the next
access that another thread may interfere with.
-/

namespace PlayerTrace

namespace Client

variable (env : Env) (i : Input) (s : State) (t : Tid)

/-- The holder of the admission lock moves on inside it. -/
def proceed (pc : AdmitPc) : State :=
  { s with client := { s.client with admission := .producer t pc } }

/-- Taking the admission lock. -/
def lockAdmission (pc : AdmitPc) : State := (proceed s t pc).move t .admitting

/-- Releasing the admission lock and returning. -/
def leave (op : Op) (status : Status) : State :=
  { s with client := { s.client with admission := .free } }.move t (.done (.status op status))

/-- Returning without having held a lock beyond this step. -/
def return_ (op : Op) (status : Status) : State := s.move t (.done (.status op status))

/-- Replacing the session record. -/
def setSession (m : SessionManager) : State := { s with client := { s.client with session := m } }

/-- Counting a rejection. -/
def countRejection (f : Stats → Stats) : State :=
  { s with pipeline := { s.pipeline with stats := f s.pipeline.stats } }

def rejectStorageFull : State :=
  countRejection s fun st => { st with droppedStorageFull := st.droppedStorageFull + 1 }

def rejectQueueFull : State :=
  countRejection s fun st => { st with droppedQueueFull := st.droppedQueueFull + 1 }

/-- An identifier `uuid4` may return: it begins with a digit, and is not in use. -/
def fresh (uuid : String) : Bool := 0 < sqlLength uuid && !s.history.used.contains uuid

/-- Taking an identifier into use. -/
def use (uuid : String) : State :=
  { s with history := { s.history with used := uuid :: s.history.used } }

/-! ### The statuses of a refusal -/

def alreadyShutdown : Status := ⟨.alreadyShutdown, "client is shut down"⟩

def consentDenied : Status := ⟨.consentDenied, "consent is not granted"⟩

def revokedMeanwhile : Status :=
  ⟨.consentDenied, "consent was revoked while this event was being prepared"⟩

def notStarted : Status := ⟨.notStarted, "no active session"⟩

def storageFull : Status :=
  ⟨.storageFull, "durable storage is full (max_pending_events=" ++
    toString env.config.maxPendingEvents ++ "); event rejected"⟩

def queueFull : Status := ⟨.queueFull, "in-memory queue is full; event rejected"⟩

/-- `terminal_locked`. The terminal status is set before `terminated_`, and once. -/
def terminalLocked : Status :=
  if s.pipeline.terminated = false then {}
  else if s.core.terminalStatus.ok = false then s.core.terminalStatus
  else ⟨.internal,
    "the playertrace worker stopped unexpectedly; no further events can be accepted"⟩

/-! ### `admit_locked` -/

/-- The public operation an admission belongs to. -/
def op : AdmitFor → Op
  | .track name properties => .track name properties
  | .endSession => .endSession
  | .replaceEnd playerId _ | .start playerId _ _ => .startSession playerId

/-- What the caller of `admit_locked` does with its result. -/
def resume (k : AdmitFor) (status : Status) : State :=
  match k with
  | .track .. => leave s t (op k) status
  | .endSession =>
    if status.ok then leave (setSession s s.client.session.end) t (op k) {}
    else leave s t (op k) status
  | .replaceEnd playerId previous =>
    if status.ok then
      proceed (setSession s s.client.session.end) t (.startBegin playerId true previous)
    else leave (setSession s (s.client.session.restore previous)) t (op k) status
  | .start _ replacing previous =>
    if status.ok then leave s t (op k) {}
    else if replacing then leave (setSession s s.client.session.deactivate) t (op k) status
    else leave (setSession s (s.client.session.restore previous)) t (op k) status

/-- The tests of `admit_locked` that need no capacity. -/
def gate (k : AdmitFor) (name : String) (properties : Properties) : State :=
  let terminal := terminalLocked s
  if terminal.ok = false then resume s t k terminal
  else if s.client.lifecycle ≠ .running then resume s t k alreadyShutdown
  else if s.pipeline.consent ≠ .granted then resume s t k consentDenied
  else if s.client.session.active = false then resume s t k notStarted
  else proceed s t (.capacity k name properties)

/-- The durable cap. -/
def capacity (k : AdmitFor) (name : String) (properties : Properties) : State :=
  if s.pipeline.outstanding ≥ env.config.maxPendingEvents then
    resume (rejectStorageFull s) t k (storageFull env)
  else proceed s t (.room k name properties)

/-- The event an admission builds. -/
def build (name : String) (properties : Properties) (sessionId playerId : String)
    (sequence : Nat) : QueuedEvent :=
  { event :=
      { eventId := i.uuid, appId := env.config.appId, name := name
        schemaVersion := kEventSchemaVersion, timestampMs := i.now, sessionId := sessionId
        playerId := playerId, sequence := sequence, properties := properties }
    ordinal := s.client.ordinal + 1
    consentGeneration := s.pipeline.consentGeneration }

/-- The queue test, and the event with its sequence number and ordinal. -/
def room (k : AdmitFor) (name : String) (properties : Properties) : Option State :=
  if EventQueue.full env.config.maxQueueSize s.pipeline.queue then
    some (resume (rejectQueueFull s) t k queueFull)
  else
    match s.client.session.next with
    | none => some (resume s t k notStarted)
    | some (sessionId, playerId, sequence, session) =>
      if fresh s i.uuid then
        let qe := build env i s name properties sessionId playerId sequence
        let s := use (setSession s session) i.uuid
        some (proceed { s with client := { s.client with ordinal := s.client.ordinal + 1 } } t
          (.reserve k qe))
      else none

/-- `add_outstanding(1)`. -/
def reserve (k : AdmitFor) (qe : QueuedEvent) : State :=
  proceed { s with pipeline := { s.pipeline with outstanding := s.pipeline.outstanding + 1 } } t
    (.push k qe)

/-- `try_push`: here the event is accepted. -/
def push (k : AdmitFor) (qe : QueuedEvent) : State :=
  match EventQueue.tryPush env.config.maxQueueSize s.pipeline.queue qe with
  | some queue =>
    proceed { s with
      pipeline := { s.pipeline with queue := queue }
      history := { s.history with accepted := s.history.accepted ++ [⟨qe, k.origin⟩] } } t
      (.count k)
  | none => proceed s t (.undo k qe)

/-- The way back from a failed push. -/
def undo (k : AdmitFor) (qe : QueuedEvent) : State :=
  let s := { s with pipeline := s.pipeline.releaseOutstanding 1 }
  let s := setSession s (s.client.session.rollback qe.event.sessionId qe.event.sequence)
  resume (rejectQueueFull s) t k queueFull

/-- `stats().accepted`, and `Ok`. -/
def count (k : AdmitFor) : State :=
  resume (countRejection s fun st => { st with accepted := st.accepted + 1 }) t k {}

/-! ### `start_session` and `end_session` -/

/-- Taking the lock in `start_session`. -/
def startLock (playerId : String) : Option State :=
  if s.client.admission ≠ .free then none
  else if s.client.lifecycle ≠ .running then
    some (return_ s t (.startSession playerId) alreadyShutdown)
  else if s.pipeline.consent ≠ .granted then
    some (return_ s t (.startSession playerId) consentDenied)
  else some (lockAdmission s t (.startTerminal playerId))

def startTerminal (playerId : String) : State :=
  let terminal := terminalLocked s
  if terminal.ok = false then leave s t (.startSession playerId) terminal
  else if s.client.session.active then proceed s t (.startReserve playerId)
  else proceed s t (.startBegin playerId false s.client.session.save)

/-- `reserve_locked(2)`, its first test. -/
def startReserve (playerId : String) : State :=
  if s.pipeline.outstanding + 2 > env.config.maxPendingEvents then
    leave (rejectStorageFull s) t (.startSession playerId) (storageFull env)
  else proceed s t (.startRoom playerId)

/-- `end_session_locked`, up to its call of `admit_locked`. -/
def endSessionLocked (k : AdmitFor) : State :=
  match s.client.session.peekDuration i.now with
  | none => resume s t k notStarted
  | some duration =>
    proceed s t (.gate k "session_end" [("session_seconds", .double (env.toSeconds duration))])

/-- `reserve_locked(2)`, its second test, and the end of the session being replaced. -/
def startRoom (playerId : String) : State :=
  if EventQueue.hasRoomFor env.config.maxQueueSize s.pipeline.queue 2 = false then
    leave (rejectQueueFull s) t (.startSession playerId) queueFull
  else endSessionLocked env i s t (.replaceEnd playerId s.client.session.save)

/-- `session_.begin`, and the call of `admit_locked` for its marker. -/
def startBegin (playerId : String) (replacing : Bool) (previous : SessionManager) : Option State :=
  if fresh s i.uuid then
    let s := use (setSession s (s.client.session.begin i.uuid playerId i.now)) i.uuid
    some (proceed s t (.gate (.start playerId replacing previous) "session_start" []))
  else none

/-- Taking the lock in `end_session`. -/
def endLock : Option State :=
  if s.client.admission ≠ .free then none
  else if s.client.lifecycle ≠ .running then some (return_ s t .endSession alreadyShutdown)
  else some (lockAdmission s t .endTerminal)

def endTerminal : State :=
  let terminal := terminalLocked s
  if terminal.ok = false then leave s t .endSession terminal
  else endSessionLocked env i s t .endSession

/-! ### `track` -/

/-- The entry generation, and the validation of the original input. -/
def trackEnter (name : String) (properties : Properties) : State :=
  let entryGeneration := s.pipeline.consentGeneration
  if (env.validateName name).ok = false then
    return_ s t (.track name properties) (env.validateName name)
  else if (env.validateProperties properties).ok = false then
    return_ s t (.track name properties) (env.validateProperties properties)
  else s.move t (.trackFilter name properties entryGeneration)

/-- `apply_filter`: a property is dropped when the filter throws. -/
def applyFilter (properties : Properties) : Properties :=
  if env.config.propertyFilter then properties.filter fun kv => (i.filter kv.1 kv.2).getD false
  else properties

def trackFilter (name : String) (properties : Properties) (entryGeneration : Nat) : State :=
  s.move t (.trackLock name properties (applyFilter env i properties) entryGeneration)

/-- Taking the lock in `track`. -/
def trackLock (name : String) (properties filtered : Properties) (entryGeneration : Nat) :
    Option State :=
  if s.client.admission ≠ .free then none
  else if s.pipeline.consentGeneration ≠ entryGeneration then
    some (return_ s t (.track name properties) revokedMeanwhile)
  else some (lockAdmission s t (.gate (.track name properties) name filtered))

end Client

end PlayerTrace
