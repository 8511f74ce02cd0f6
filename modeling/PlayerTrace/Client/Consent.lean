import PlayerTrace.Client.Admission

/-!
# Consent

`set_consent` and `run_purge` of `src/client.cpp`, with `discard_in_flight` and
`forget_errors` of `src/worker.cpp`. The revocation section runs under both locks; the
purge that follows holds only the consent lock.
-/

namespace PlayerTrace

namespace Client

variable (i : Input) (s : State) (t : Tid) (state : ConsentState)

/-- The holder of the consent lock moves on inside it. -/
def proceedConsent (pc : ConsentPc) : State :=
  { s with client := { s.client with consentSection := .held t state pc } }

/-- Releasing the consent lock and returning. -/
def leaveConsent (status : Status) : State :=
  { s with
    client := { s.client with consentSection := .free }
    history := { s.history with
      completed :=
        if state = ConsentState.granted then s.history.completed else s.history.fence } }.move t
    (.done (.consented state s.history.fence status))

/-- Taking the consent lock: a grant that still owes a purge runs it first. -/
def consentLock : Option State :=
  if s.client.consentSection ≠ .free then none
  else
    let pc : ConsentPc :=
      if state = ConsentState.granted then if s.client.purgeRequired then .mark else .grant
      else .store
    some ((proceedConsent s t state pc).move t .consenting)

/-! ### The revocation section -/

/-- The admission lock is taken and the new state stored: here a revocation begins. -/
def store : Option State :=
  if s.client.admission ≠ .free then none
  else some (proceedConsent { s with
    pipeline := { s.pipeline with consent := state }
    client := { s.client with admission := .consent }
    history := { s.history with
      fence := s.client.ordinal + 1, revocations := s.history.revocations + 1 } } t state .bump)

/-- `bump_consent_generation`. -/
def bump : State :=
  proceedConsent { s with pipeline := { s.pipeline with
    consentGeneration := s.pipeline.consentGeneration + 1 } } t state .clear

/-- `queue().clear()`. -/
def clear : State :=
  let dropped := s.pipeline.queue
  let s := { s with
    pipeline := { s.pipeline with queue := [] }
    history := { s.history with
      discarded := s.history.discarded ++ dropped.map QueuedEvent.item } }
  proceedConsent s t state
    (if dropped.length > 0 then .countCleared dropped.length else .deactivate)

def countCleared (n : Nat) : State :=
  proceedConsent (s.countOut n fun st => { st with discardedConsent := st.discardedConsent + n })
    t state .deactivate

/-- `session_.deactivate()` and `purge_required_ = true`. -/
def deactivate : State :=
  proceedConsent { s with client := { s.client with
    session := s.client.session.deactivate, purgeRequired := true } } t state .discard

/-- `discard_in_flight`. -/
def discard : State :=
  let dropped := s.core.retry
  let s := { s with
    core := { s.core with retry := [] }
    history := { s.history with
      discarded := s.history.discarded ++ dropped.map QueuedEvent.item } }
  proceedConsent s t state (if dropped.length > 0 then .countDiscarded dropped.length else .forget)

def countDiscarded (n : Nat) : State :=
  proceedConsent (s.countOut n fun st => { st with discardedConsent := st.discardedConsent + n })
    t state .forget

/-- `forget_errors`, and the end of the admission lock. -/
def forget : State :=
  proceedConsent { s with
    core := { s.core with pendingError := {} }
    client := { s.client with admission := .free } } t state .mark

/-! ### `run_purge` -/

/-- What `set_consent` returns when `run_purge` failed. -/
def purgeFailed (message : String) : Status :=
  if state = ConsentState.granted then
    ⟨.storageError, "consent cannot be granted while a previous revocation is still unfinished: " ++
      message⟩
  else ⟨.storageError, message⟩

def mark : Option State :=
  if s.storeFree then
    let (marked, db) := markRevocationPending i.faults s.pipeline.store
    let s := { s with pipeline := { s.pipeline with store := db } }
    some (if marked.ok = false then
      leaveConsent s t state (purgeFailed state
        ("consent revocation could not be made durable: " ++ marked.message))
    else proceedConsent s t state .purge)
  else none

def purge : Option State :=
  if s.storeFree then
    let (purged, _, db) := purgeAndClearRevocation i.faults s.pipeline.store
    let gone := s.pipeline.store.gone db
    let s := { s with
      pipeline := { s.pipeline with store := db }
      history := { s.history with purged := s.history.purged ++ gone } }
    some (if purged.ok = false then
      leaveConsent s t state (purgeFailed state
        ("consent revocation could not purge durable storage; collection stays blocked and the " ++
          "purge will be retried: " ++ purged.message))
    else proceedConsent s t state .reset)
  else none

/-- `purge_required_ = false` and `reset_outstanding(0)`. -/
def reset : State :=
  let s := { s with
    pipeline := { s.pipeline with outstanding := 0 }
    client := { s.client with purgeRequired := false } }
  if state = ConsentState.granted then proceedConsent s t state .grant
  else leaveConsent s t state {}

/-! ### The grant -/

def grant : Option State :=
  if s.client.admission ≠ .free then none
  else some (leaveConsent { s with pipeline := { s.pipeline with consent := state } } t state {})

end Client

end PlayerTrace
