import PlayerTrace.Client.Consent
import PlayerTrace.Client.Lifecycle
import PlayerTrace.Lib.Machine
import PlayerTrace.Worker

/-!
# A client and its threads

The steps of all threads together, and the states a client starts in. A label says which
thread moves and what the environment answers; a run is any interleaving.

`PlayerTrace.create` is `ClientInternal::create` from the point where the store is open:
a revocation that is still owed, or a start without consent, purges before anything else,
and the capacity in use and the last ordinal are read off the table.
-/

namespace PlayerTrace

/-! ### The callers -/

namespace Client

variable (env : Env) (i : Input) (s : State) (t : Tid)

/-- A call of the public interface, up to its first shared access. -/
def call (op : Op) : Option State :=
  if (s.callers t).free = false ∨ (t = 0 ∧ s.frame.pc.inCallback = false) then none
  else
    match op with
    | .startSession playerId =>
      let status := env.validatePlayerId playerId
      some (if status.ok = false then return_ s t op status else s.move t (.startLock playerId))
    | .endSession => some (s.move t .endLock)
    | .track name properties => some (s.move t (.trackEnter name properties))
    | .flush => some (if t = 0 then return_ s t op flushFromWorker else s.move t .flushLock)
    | .shutdown => some (s.move t (if t = 0 then .ownClose else .shutdownLock false))
    | .waitForWorkerExit => some (s.move t (if t = 0 then .done (.waited false) else .exitJoin))
    | .setConsent state => some (s.move t (.consentLock state))
    | .destroy => if t = 0 then none else some (s.move t (.shutdownLock true))

/-- A step inside the admission lock. -/
def admitStep : AdmitPc → Option State
  | .startTerminal playerId => some (startTerminal s t playerId)
  | .startReserve playerId => some (startReserve env s t playerId)
  | .startRoom playerId => some (startRoom env i s t playerId)
  | .startBegin playerId replacing previous => startBegin i s t playerId replacing previous
  | .endTerminal => some (endTerminal env i s t)
  | .gate k name properties => some (gate s t k name properties)
  | .capacity k name properties => some (capacity env s t k name properties)
  | .room k name properties => room env i s t k name properties
  | .reserve k qe => some (reserve s t k qe)
  | .push k qe => some (push env s t k qe)
  | .undo k qe => some (undo s t k qe)
  | .count k => some (count s t k)
  | .flushTerminal => some (flushTerminal s t)
  | .flushBarrier => some (flushBarrier s t)
  | .flushToken barrier => some (flushToken s t barrier)

/-- A step inside the consent lock. -/
def consentStep (state : ConsentState) : ConsentPc → Option State
  | .store => store s t state
  | .bump => some (bump s t state)
  | .clear => some (clear s t state)
  | .countCleared n => some (countCleared s t state n)
  | .deactivate => some (deactivate s t state)
  | .discard => some (discard s t state)
  | .countDiscarded n => some (countDiscarded s t state n)
  | .forget => some (forget s t state)
  | .mark => mark i s t state
  | .purge => purge i s t state
  | .reset => some (reset s t state)
  | .grant => grant s t state

/-- A step of a caller. -/
def step : Option State :=
  match s.callers t with
  | .idle | .done _ => none
  | .admitting =>
    match s.client.admission with
    | .producer t' pc => if t' = t then admitStep env i s t pc else none
    | _ => none
  | .consenting =>
    match s.client.consentSection with
    | .held t' state pc => if t' = t then consentStep i s t state pc else none
    | .free => none
  | .startLock playerId => startLock s t playerId
  | .endLock => endLock s t
  | .trackEnter name properties => some (trackEnter env s t name properties)
  | .trackFilter name properties generation =>
    some (trackFilter env i s t name properties generation)
  | .trackLock name properties filtered generation =>
    trackLock s t name properties filtered generation
  | .flushLock => flushLock s t
  | .flushWait token barrier => flushWait i s t token barrier
  | .shutdownLock destroying => shutdownLock s t destroying
  | .shutdownCancel destroying => some (shutdownCancel s t destroying)
  | .shutdownOrdinal destroying => shutdownOrdinal s t destroying
  | .shutdownBarrier destroying barrier => some (shutdownBarrier s t destroying barrier)
  | .shutdownToken destroying barrier => some (shutdownToken s t destroying barrier)
  | .shutdownWait destroying token => shutdownWait i s t destroying token
  | .shutdownStop destroying persist => some (shutdownStop s t destroying persist)
  | .shutdownJoin destroying persist => shutdownJoin i s t destroying persist
  | .shutdownMark destroying persist => shutdownMark s t destroying persist
  | .shutdownTerminal destroying persist => some (shutdownTerminal s t destroying persist)
  | .destroyStop => some (destroyStop s t)
  | .destroyCancel => some (destroyCancel s t)
  | .destroyJoin => destroyJoin s t
  | .ownClose => ownClose s t
  | .ownStop => some (ownStop s t)
  | .exitJoin => exitJoin i s t
  | .exitMark => exitMark s t
  | .consentLock state => consentLock s t state

end Client

/-! ### The whole client -/

/-- Who moves, and the environment's share of the step. -/
inductive Label
  | worker (i : Input)
  | call (t : Tid) (op : Op)
  | caller (t : Tid) (i : Input)

/-- One step of a client. -/
def step (env : Env) (s : State) : Label → Option State
  | .worker i => Worker.step env i s
  | .call t op => Client.call env s t op
  | .caller t i => Client.step env i s t

/-- The status `create` fails with when an owed purge fails. -/
def openPurgeFailed (message : String) : Status :=
  ⟨.storageError, "recovered events could not be purged before opening without granted " ++
    "consent: " ++ message⟩

/-- The purge `create` owes before anything can be delivered. -/
def openPurge (env : Env) (φ : Faults) (owed : Bool) (db : Database) : Except Status Database :=
  if owed ∨ env.config.consent ≠ .granted then
    let (purged, _, db) := purgeAndClearRevocation φ db
    if purged.ok = false then .error (openPurgeFailed purged.message) else .ok db
  else .ok db

/-- The state of a new client over an open store. -/
def initial (env : Env) (db : Database) (recovered highest : Nat) : State :=
  { pipeline := { store := db, consent := env.config.consent, outstanding := recovered }
    client := { ordinal := highest }
    history :=
      { recovered := db.rows.map Row.item, used := db.rows.filterMap Row.eventId } }

/-- `ClientInternal::create` over an open store; `φ` answers its four store operations. -/
def create (env : Env) (φ : Fin 4 → Faults) (db : Database) : Except Status State := do
  let status := validateConfig env.config
  if status.ok = false then throw status
  let owed ← revocationPending (φ 0) db
  let db ← openPurge env (φ 1) owed db
  let recovered ← count (φ 2) db
  let highest ← maxOrdinal (φ 3) db
  pure (initial env db recovered highest)

/-- The store as `create` leaves it, whether or not it returns a client. -/
def openedStore (env : Env) (φ : Fin 4 → Faults) (db : Database) : Database :=
  if (validateConfig env.config).ok = false then db
  else
    match revocationPending (φ 0) db with
    | .error _ => db
    | .ok owed =>
      if owed ∨ env.config.consent ≠ .granted then (purgeAndClearRevocation (φ 1) db).2.2 else db

/-- The identifiers of earlier lifetimes are in use too: `uuid4` returns none of them. -/
def State.remember (s : State) (earlier : List String) : State :=
  { s with history := { s.history with used := s.history.used ++ earlier } }

/-- The client as a machine: it starts as `create` leaves it, over any table. -/
def machine (env : Env) : Lts.Machine State Label where
  start s := ∃ φ db s₀ earlier, db.saved = none ∧ create env φ db = .ok s₀ ∧
    s = s₀.remember earlier
  step := step env

/-! ### A small client, for concrete runs -/

/-- A client that moves one event at a time and has room for one. -/
def sample : Env where
  config := { appId := "game", storagePath := "db", consent := .granted, batchSize := 1
              maxQueueSize := 10, maxPendingEvents := 1 }
  validatePlayerId _ := {}
  validateName _ := {}
  validateProperties _ := {}
  serialize _ := .ok "event"
  isValidJson _ := true
  toSeconds _ := ⟨0⟩

/-- The sample client over an empty table. -/
def sampleClient : State := initial sample (Database.ofRows .empty false) 0 0

theorem sampleClient_start : (machine sample).start sampleClient :=
  ⟨fun _ => Faults.none, Database.ofRows .empty false, sampleClient, [], rfl, rfl, rfl⟩

/-- The same client with room for more. -/
def roomy : Env := { sample with config := { sample.config with maxPendingEvents := 4 } }

/-- The roomy client over an empty table. -/
def roomyClient : State := initial roomy (Database.ofRows .empty false) 0 0

theorem roomyClient_start : (machine roomy).start roomyClient :=
  ⟨fun _ => Faults.none, Database.ofRows .empty false, roomyClient, [], rfl, rfl, rfl⟩

namespace Label

/-- The worker moves `n` times, without a fault. -/
def works (n : Nat) : List Label := List.replicate n (.worker {})

/-- A caller moves `n` times, without a fault. -/
def steps (t : Tid) (n : Nat) : List Label := List.replicate n (.caller t {})

/-- A whole call of `set_consent` that takes `n` steps. -/
def consents (t : Tid) (state : ConsentState) (n : Nat) : List Label :=
  .call t (.setConsent state) :: steps t n

/-- A whole call of `start_session` without a session to replace. -/
def starts (t : Tid) (sessionId eventId : String) : List Label :=
  .call t (.startSession "") :: steps t 2 ++ [.caller t { uuid := sessionId }] ++ steps t 2 ++
    [.caller t { uuid := eventId }] ++ steps t 3

/-- A whole call of `start_session` that replaces a session. -/
def replaces (t : Tid) (endId sessionId eventId : String) : List Label :=
  .call t (.startSession "") :: steps t 6 ++ [.caller t { uuid := endId }] ++ steps t 3 ++
    [.caller t { uuid := sessionId }] ++ steps t 2 ++ [.caller t { uuid := eventId }] ++ steps t 3

/-- A whole call of `shutdown`, of a client that holds nothing. -/
def shutsDown (t : Tid) : List Label :=
  .call t .shutdown :: steps t 5 ++ works 11 ++ steps t 2 ++ works 3 ++ steps t 3

end Label

end PlayerTrace
