import PlayerTrace.Lib.Machine
import PlayerTrace.State
import PlayerTrace.Store.Spec

/-!
# The custody of events

The pipeline, reduced to the question who holds an event. Custody is what is left of a
client when one forgets sessions, lifecycles, flushes and every local variable that no
event depends on: the four containers an event can be in – queue, the worker's hands,
retry buffer, store –, the consent state with its generation and its revocation, the
capacity counter, and the ledger of what happened so far.

The moves are few and each is named after what it does to an event
(`PlayerTrace.Custody.Step`). Their guards say what the code has just *read*, not what
is true: that a batch refused at the boundary really is revoked, or that a purge
destroys nothing newer than the revocation that asked for it, is what has to be proved.
`PlayerTrace.Refine` shows that every step of a client is such a move or none.
-/

namespace PlayerTrace

/-! ### Where the worker is -/

/-- What the worker is doing with the events it holds. `view` is a consent generation it
has read, and `seen` the number of revocations begun at its first consent check. -/
inductive Stage
  /-- Nothing in hand. -/
  | idle
  /-- Drained from the queue. -/
  | drained (taken : List QueuedEvent)
  /-- Being sorted: some already kept for insertion. -/
  | holding (view : Option Nat) (kept : List Kept) (rest : List QueuedEvent)
  /-- Consent was granted under the store mutex. -/
  | guarded (view : Nat) (kept : List Kept)
  /-- Both checks under the store mutex have passed. -/
  | committing (view : Nat) (kept : List Kept)
  /-- Consent was granted at the head of a delivery. -/
  | looking (seen : Nat)
  /-- A batch was read from the store. -/
  | fetched (seen : Nat) (view : Option Nat) (batch : List SerializedEvent)
  /-- A batch is with the sink, or back from it. -/
  | sending (view : Nat) (batch : List SerializedEvent)
  /-- A batch was accepted and is about to be removed. -/
  | acknowledging (batch : List SerializedEvent)
  /-- A purge was decided. -/
  | purging
  /-- A purge was committed. -/
  | resetting (remaining : Nat)

namespace Stage

/-- The events in the worker's hands. -/
def hands : Stage → List QueuedEvent
  | .drained l => l
  | .holding _ kept rest => kept.map Kept.qe ++ rest
  | .guarded _ kept | .committing _ kept => kept.map Kept.qe
  | _ => []

/-- The events that passed the generation check. -/
def kept : Stage → List Kept
  | .holding _ kept _ | .guarded _ kept | .committing _ kept => kept
  | _ => []

/-- The consent generation the worker acts under, once it has read one. -/
def view : Stage → Option Nat
  | .holding v _ _ | .fetched _ v _ => v
  | .guarded v _ | .committing v _ | .sending v _ => some v
  | _ => none

/-- The retry buffer has been taken. -/
def holds : Stage → Bool
  | .holding .. | .guarded .. | .committing .. => true
  | _ => false

/-- The worker has the store mutex. -/
def locked : Stage → Bool
  | .guarded .. | .committing .. => true
  | _ => false

/-- A delivery may be given up for a purge here. -/
def delivering : Stage → Bool
  | .idle | .fetched .. | .sending .. => true
  | _ => false

/-- A fetch that may have read nothing. -/
def offered (seen : Nat) (batch : List SerializedEvent) : Stage :=
  if batch.isEmpty then .idle else .fetched seen none batch

theorem offered_cases (seen : Nat) (batch : List SerializedEvent) :
    (batch = [] ∧ offered seen batch = .idle) ∨
      (batch ≠ [] ∧ offered seen batch = .fetched seen none batch) := by
  cases batch with
  | nil => exact Or.inl ⟨rfl, rfl⟩
  | cons b batch => exact Or.inr ⟨by simp, rfl⟩

@[simp] theorem offered_hands (seen : Nat) (batch : List SerializedEvent) :
    (offered seen batch).hands = [] := by
  rcases offered_cases seen batch with ⟨-, h⟩ | ⟨-, h⟩ <;> rw [h] <;> rfl

@[simp] theorem offered_view (seen : Nat) (batch : List SerializedEvent) :
    (offered seen batch).view = none := by
  rcases offered_cases seen batch with ⟨-, h⟩ | ⟨-, h⟩ <;> rw [h] <;> rfl

@[simp] theorem offered_kept (seen : Nat) (batch : List SerializedEvent) :
    (offered seen batch).kept = [] := by
  rcases offered_cases seen batch with ⟨-, h⟩ | ⟨-, h⟩ <;> rw [h] <;> rfl

@[simp] theorem offered_holds (seen : Nat) (batch : List SerializedEvent) :
    (offered seen batch).holds = false := by
  rcases offered_cases seen batch with ⟨-, h⟩ | ⟨-, h⟩ <;> rw [h] <;> rfl

@[simp] theorem offered_locked (seen : Nat) (batch : List SerializedEvent) :
    (offered seen batch).locked = false := by
  rcases offered_cases seen batch with ⟨-, h⟩ | ⟨-, h⟩ <;> rw [h] <;> rfl

end Stage

/-- Events whose fate is decided and which have not been counted. -/
inductive Due
  | none
  | discarded (n : Nat)
  | dropped (n : Nat)
  | delivered (n : Nat)
  deriving DecidableEq, Repr

/-- How many events have not been counted. -/
def Due.amount : Due → Nat
  | .none => 0
  | .discarded n | .dropped n | .delivered n => n

theorem Due.amount_none : Due.none.amount = 0 := rfl

/-! ### Where a producer is -/

/-- What the holder of the admission lock is doing. -/
inductive Entry
  /-- Nothing yet, or nobody holds the lock. -/
  | out
  /-- Consent was granted. -/
  | gated
  /-- There is capacity. -/
  | checked
  /-- The event is built. -/
  | built (e : QueuedEvent)
  /-- Its capacity is reserved. -/
  | reserved (e : QueuedEvent)
  /-- It did not fit. -/
  | undoing
  /-- It was pushed. -/
  | counting
  /-- A revocation has the lock. -/
  | locked
  deriving DecidableEq, Repr

/-- The event that has an ordinal and is not in the queue yet. -/
def Entry.events : Entry → List QueuedEvent
  | .built e | .reserved e => [e]
  | _ => []

/-- Capacity that is reserved for an event outside the four containers. -/
def Entry.reservation : Entry → Nat
  | .reserved _ | .undoing => 1
  | _ => 0

/-- The statistics custody accounts for. -/
structure Counts where
  accepted : Nat
  delivered : Nat
  discardedConsent : Nat
  droppedInvalid : Nat
  deriving DecidableEq, Repr

/-- Who holds what. -/
structure Custody where
  queue : List QueuedEvent
  retry : List QueuedEvent
  stage : Stage
  due : Due
  entry : Entry
  store : Database
  consent : ConsentState
  generation : Nat
  ordinal : Nat
  purgeRequired : Bool
  revocation : Option (ConsentState × ConsentPc)
  outstanding : Nat
  counts : Counts
  /-- The worker's loop was left by an exception. -/
  raised : Bool
  history : History

namespace Custody

/-- Everything on its way to the store, oldest first. -/
def line (c : Custody) : List QueuedEvent := c.retry ++ c.stage.hands ++ c.queue ++ c.entry.events

/-- The rows of the store. -/
def rows (c : Custody) : List Row := c.store.rows

/-- What is still in one of the four containers. -/
def live (c : Custody) : Nat :=
  c.queue.length + c.stage.hands.length + c.retry.length + c.rows.length

/-- Writing events off. -/
def discard (c : Custody) (l : List QueuedEvent) : History :=
  { c.history with discarded := c.history.discarded ++ l.map QueuedEvent.item }

/-- `release_outstanding`. -/
def release (c : Custody) (n : Nat) : Nat :=
  if c.outstanding > n then c.outstanding - n else 0

/-- Counting what is due. -/
def Counts.add (k : Counts) : Due → Counts
  | .none => k
  | .discarded n => { k with discardedConsent := k.discardedConsent + n }
  | .dropped n => { k with droppedInvalid := k.droppedInvalid + n }
  | .delivered n => { k with delivered := k.delivered + n }

/-! ### The moves -/

/-- **The moves of custody**: of the worker, of a producer under the admission lock, and
of the one thread under the consent lock. -/
inductive Step (env : Env) (c : Custody) : Custody → Prop
  -- the worker: from the queue to the store
  | drain (n : Nat) (h : c.stage = .idle) :
      Step env c { c with queue := c.queue.drop n, stage := .drained (c.queue.take n) }
  | takeNothing {l : List QueuedEvent} (h : c.stage = .drained l) (hl : c.retry ++ l = []) :
      Step env c { c with retry := [], stage := .idle }
  | takeRetry {l : List QueuedEvent} (h : c.stage = .drained l) :
      Step env c { c with retry := [], stage := .holding none [] (c.retry ++ l) }
  | read {r : List QueuedEvent} (h : c.stage = .holding none [] r) :
      Step env c { c with stage := .holding (some c.generation) [] r }
  | refuse {v : Nat} {r : List QueuedEvent} (h : c.stage = .holding (some v) [] r)
      (hd : c.due = .none) (hc : c.consent ≠ .granted) :
      Step env c { c with stage := .purging, due := .discarded r.length, history := c.discard r }
  | stale {v : Nat} {k : List Kept} {e : QueuedEvent} {r : List QueuedEvent}
      (h : c.stage = .holding (some v) k (e :: r)) (hd : c.due = .none)
      (hg : e.consentGeneration ≠ v) :
      Step env c { c with
        stage := .holding (some v) k r, due := .discarded 1, history := c.discard [e] }
  | drop {v : Nat} {k : List Kept} {e : QueuedEvent} {r : List QueuedEvent}
      (h : c.stage = .holding (some v) k (e :: r)) (hd : c.due = .none) :
      Step env c { c with
        stage := .holding (some v) k r, due := .dropped 1
        history := { c.history with dropped := c.history.dropped ++ [e.item] } }
  | keep {v : Nat} {k : List Kept} {e : QueuedEvent} {r : List QueuedEvent} (payload : String)
      (h : c.stage = .holding (some v) k (e :: r)) (hg : e.consentGeneration = v) :
      Step env c { c with stage := .holding (some v) (k ++ [⟨e, payload⟩]) r }
  | keptNothing {v : Nat} (h : c.stage = .holding (some v) [] []) :
      Step env c { c with stage := .idle }
  | guard {v : Nat} {k : List Kept} (h : c.stage = .holding (some v) k [])
      (hc : c.consent = .granted) : Step env c { c with stage := .guarded v k }
  | refuseKept {v : Nat} {k : List Kept} (hd : c.due = .none)
      (h : (c.stage = .holding (some v) k [] ∧ c.consent ≠ .granted) ∨
        (c.stage = .guarded v k ∧ c.generation ≠ v)) :
      Step env c { c with
        stage := .idle, due := .discarded k.length, history := c.discard (k.map Kept.qe) }
  | pass {v : Nat} {k : List Kept} (h : c.stage = .guarded v k) (hg : c.generation = v) :
      Step env c { c with stage := .committing v k }
  | commit {v : Nat} {k : List Kept} {db : Database} (h : c.stage = .committing v k)
      (hev : db.view.events = c.store.view.events.insertAll (k.map Kept.record))
      (hm : db.marker = c.store.marker) (hsaved : db.saved = c.store.saved) :
      Step env c { c with store := db, stage := .idle }
  | insertFailed {v : Nat} {k : List Kept} (h : c.stage = .committing v k) :
      Step env c { c with stage := .holding none [] (k.map Kept.qe) }
  | hold {r : List QueuedEvent} (h : c.stage = .holding none [] r) :
      Step env c { c with retry := r ++ c.retry, stage := .idle }
  -- the worker: from the store to the sink
  | look (h : c.stage = .idle) (hc : c.consent = .granted) :
      Step env c { c with stage := .looking c.history.revocations }
  | fetch {seen n : Nat} {db : Database} {read : List Row} (h : c.stage = .looking seen)
      (hd : c.due = .none) (hread : read <+: c.store.view.events.ordered)
      (hdb : (db = c.store ∧ n = 0) ∨
        (db.view.events = c.store.view.events.withoutRows
            (read.filter fun r => !r.usable env.isValidJson) ∧
          db.marker = c.store.marker ∧
          n = (read.filter fun r => !r.usable env.isValidJson).length))
      (hsaved : db.saved = c.store.saved) :
      Step env c { c with
        store := db
        stage := .offered seen ((read.filter (Row.usable env.isValidJson)).map Row.serialized)
        due := if n = 0 then .none else .dropped n
        history := { c.history with dropped := c.history.dropped ++ c.store.gone db } }
  | readAgain {seen : Nat} {b : List SerializedEvent} (h : c.stage = .fetched seen none b) :
      Step env c { c with stage := .fetched seen (some c.generation) b }
  | send {seen v : Nat} {b : List SerializedEvent} (h : c.stage = .fetched seen (some v) b)
      (hc : c.consent = .granted) : Step env c { c with stage := .sending v b }
  | notSent {v : Nat} {b : List SerializedEvent} (h : c.stage = .sending v b) :
      Step env c { c with stage := .idle }
  | sent {v : Nat} {b : List SerializedEvent} (h : c.stage = .sending v b) :
      Step env c { c with stage := .acknowledging b }
  | notAcknowledged {b : List SerializedEvent} (h : c.stage = .acknowledging b) :
      Step env c { c with stage := .idle }
  | acknowledge {b : List SerializedEvent} {db : Database} {n : Nat}
      (h : c.stage = .acknowledging b) (hd : c.due = .none)
      (hev : db.view.events = c.store.view.events.without (b.map SerializedEvent.eventId))
      (hm : db.marker = c.store.marker) (hn : n + db.rows.length = c.store.rows.length)
      (hsaved : db.saved = c.store.saved) :
      Step env c { c with
        store := db, stage := .idle
        due := if n = b.length then .delivered n else .none
        history := { c.history with acked := c.history.acked ++ c.store.gone db } }
  -- the worker: purging, counting, dying
  | refuseDelivery (h : c.stage.delivering = true) (hc : c.consent ≠ .granted) :
      Step env c { c with stage := .purging }
  | outdated {v : Nat} {b : List SerializedEvent} (h : c.stage = .sending v b)
      (hg : c.generation ≠ v) : Step env c { c with stage := .purging }
  | purge {db : Database} (h : c.stage = .purging) (hd : c.due = .none)
      (hv : db.view = ⟨.empty, false⟩) (hsaved : db.saved = c.store.saved) :
      Step env c { c with
        store := db, stage := .resetting 0
        history := { c.history with purged := c.history.purged ++ c.store.gone db } }
  | notPurged (h : c.stage = .purging) (hd : c.due = .none) :
      Step env c { c with stage := .idle }
  | reset {n : Nat} (h : c.stage = .resetting n) :
      Step env c { c with outstanding := n, stage := .idle }
  | count (h : c.due ≠ .none) :
      Step env c { c with
        due := .none, outstanding := c.release c.due.amount, counts := Counts.add c.counts c.due }
  | raise :
      Step env c { c with
        stage := .idle, due := .none, raised := true
        history := { c.history with
          lost := c.history.lost ++ c.stage.hands.map QueuedEvent.item } }
  -- a producer
  | identify {id : String} (hid : 0 < sqlLength id) (hfresh : id ∉ c.history.used) :
      Step env c { c with history := { c.history with used := id :: c.history.used } }
  | gate (h : c.entry = .out) (hc : c.consent = .granted) : Step env c { c with entry := .gated }
  | check (h : c.entry = .gated) (hcap : c.outstanding < env.config.maxPendingEvents) :
      Step env c { c with entry := .checked }
  | giveUp (h : c.entry = .gated ∨ c.entry = .checked) : Step env c { c with entry := .out }
  | build {e : QueuedEvent} (h : c.entry = .checked) (ho : e.ordinal = c.ordinal + 1)
      (hg : e.consentGeneration = c.generation) (hid : 0 < sqlLength e.event.eventId)
      (hfresh : e.event.eventId ∉ c.history.used) :
      Step env c { c with
        entry := .built e, ordinal := c.ordinal + 1
        history := { c.history with used := e.event.eventId :: c.history.used } }
  | reserve {e : QueuedEvent} (h : c.entry = .built e) :
      Step env c { c with entry := .reserved e, outstanding := c.outstanding + 1 }
  | push {e : QueuedEvent} (origin : Origin) (h : c.entry = .reserved e) :
      Step env c { c with
        entry := .counting, queue := c.queue ++ [e]
        history := { c.history with accepted := c.history.accepted ++ [⟨e, origin⟩] } }
  | overflow {e : QueuedEvent} (h : c.entry = .reserved e) :
      Step env c { c with entry := .undoing }
  | undo (h : c.entry = .undoing) :
      Step env c { c with entry := .out, outstanding := c.release 1 }
  | countAccepted (h : c.entry = .counting) :
      Step env c { c with
        entry := .out, counts := { c.counts with accepted := c.counts.accepted + 1 } }
  -- under the consent lock
  | enter {st : ConsentState} {pc : ConsentPc} (h : c.revocation = none)
      (hpc : pc = if st = ConsentState.granted then if c.purgeRequired then .mark else .grant
        else .store) :
      Step env c { c with revocation := some (st, pc) }
  | revoke {st : ConsentState} (h : c.revocation = some (st, .store)) (he : c.entry = .out) :
      Step env c { c with
        consent := st, entry := .locked, revocation := some (st, .bump)
        history := { c.history with
          fence := c.ordinal + 1, revocations := c.history.revocations + 1 } }
  | bump {st : ConsentState} (h : c.revocation = some (st, .bump)) :
      Step env c { c with generation := c.generation + 1, revocation := some (st, .clear) }
  | clear {st : ConsentState} (h : c.revocation = some (st, .clear)) :
      Step env c { c with
        queue := []
        revocation := some (st, if c.queue.length > 0 then .countCleared c.queue.length
          else .deactivate)
        history := c.discard c.queue }
  | countCleared {st : ConsentState} {n : Nat} (h : c.revocation = some (st, .countCleared n)) :
      Step env c { c with
        outstanding := c.release n, counts := Counts.add c.counts (.discarded n)
        revocation := some (st, .deactivate) }
  | owe {st : ConsentState} (h : c.revocation = some (st, .deactivate)) :
      Step env c { c with purgeRequired := true, revocation := some (st, .discard) }
  | discardRetry {st : ConsentState} (h : c.revocation = some (st, .discard)) :
      Step env c { c with
        retry := []
        revocation := some (st, if c.retry.length > 0 then .countDiscarded c.retry.length
          else .forget)
        history := c.discard c.retry }
  | countDiscarded {st : ConsentState} {n : Nat}
      (h : c.revocation = some (st, .countDiscarded n)) :
      Step env c { c with
        outstanding := c.release n, counts := Counts.add c.counts (.discarded n)
        revocation := some (st, .forget) }
  | unlock {st : ConsentState} (h : c.revocation = some (st, .forget)) :
      Step env c { c with entry := .out, revocation := some (st, .mark) }
  | mark {st : ConsentState} {db : Database} (h : c.revocation = some (st, .mark))
      (hl : c.stage.locked = false) (hev : db.view.events = c.store.view.events)
      (hm : db.marker = true) (hsaved : db.saved = c.store.saved) :
      Step env c { c with store := db, revocation := some (st, .purge) }
  | purgeAll {st : ConsentState} {db : Database} (h : c.revocation = some (st, .purge))
      (hl : c.stage.locked = false) (hv : db.view = ⟨.empty, false⟩)
      (hsaved : db.saved = c.store.saved) :
      Step env c { c with
        store := db, revocation := some (st, .reset)
        history := { c.history with purged := c.history.purged ++ c.store.gone db } }
  | settle {st : ConsentState} (h : c.revocation = some (st, .reset)) :
      Step env c { c with
        purgeRequired := false, outstanding := 0
        revocation := if st = ConsentState.granted then some (st, .grant) else none
        history := { c.history with
          completed := if st = ConsentState.granted then c.history.completed
            else c.history.fence } }
  | fail {st : ConsentState}
      (h : c.revocation = some (st, .mark) ∨ c.revocation = some (st, .purge)) :
      Step env c { c with
        revocation := none
        history := { c.history with
          completed := if st = ConsentState.granted then c.history.completed
            else c.history.fence } }
  | grant {st : ConsentState} (h : c.revocation = some (st, .grant)) (he : c.entry = .out) :
      Step env c { c with
        consent := st, revocation := none
        history := { c.history with
          completed := if st = ConsentState.granted then c.history.completed
            else c.history.fence } }

/-- Where custody begins: nothing is on its way, no revocation is owed, and without
consent the store is empty. The identifiers of the stored events are in use, and those of
earlier lifetimes. -/
structure Start (env : Env) (c : Custody) : Prop where
  queue : c.queue = []
  retry : c.retry = []
  stage : c.stage = .idle
  due : c.due = .none
  entry : c.entry = .out
  revocation : c.revocation = none
  purgeRequired : c.purgeRequired = false
  consent : c.consent = env.config.consent
  marker : c.store.marker = false
  saved : c.store.saved = none
  rows : c.consent ≠ .granted → c.rows = []
  ordinal : ∀ r ∈ c.rows, r.ordinal ≤ c.ordinal
  outstanding : c.outstanding = c.rows.length
  counts : c.counts = ⟨0, 0, 0, 0⟩
  raised : c.raised = false
  history : ∃ earlier, c.history =
    { recovered := c.rows.map Row.item, used := c.rows.filterMap Row.eventId ++ earlier }

/-- The custodies that can come about. -/
def Reachable (env : Env) : Custody → Prop := Lts.Reachable (Start env) (Step env)

end Custody

end PlayerTrace
