import Mathlib.Algebra.Order.Ring.Int
import Mathlib.Data.List.Basic

/-!
# The value types of the SDK

The types that cross the public interface or travel through the pipeline: statuses
(`include/playertrace/result.hpp`), consent (`consent.hpp`), properties and events
(`event.hpp`), the admission metadata of a queued event
(`src/internal/event_queue.hpp`), and what a sink receives (`sink.hpp`).

A `std::string` is a `String` here, with one character for each of its bytes, and an unsigned
counter is a `ℕ`: no counter of the pipeline comes near `2 ^ 64`. A `double` is its bit pattern;
no arithmetic is done on it.
-/

namespace PlayerTrace

/-! ### Statuses -/

/-- The error codes of `result.hpp`, in source order. -/
inductive ErrorCode
  | ok
  | invalidConfig
  | invalidEventName
  | invalidProperty
  | reservedKey
  | valueTooLarge
  | tooManyProperties
  | duplicateKey
  | queueFull
  | storageFull
  | consentDenied
  | notStarted
  | alreadyShutdown
  | storageError
  | sinkError
  | timeout
  | internal
  deriving DecidableEq, Repr

/-- The status every public entry point returns; the default is success. -/
structure Status where
  code : ErrorCode := .ok
  message : String := ""
  deriving DecidableEq, Repr

namespace Status

/-- `Status::ok()`. -/
def ok (s : Status) : Bool := decide (s.code = .ok)

@[simp] theorem ok_default : ok {} = true := rfl

@[simp] theorem ok_eq_true {s : Status} : s.ok = true ↔ s.code = .ok := by simp [ok]

@[simp] theorem ok_eq_false {s : Status} : s.ok = false ↔ s.code ≠ .ok := by simp [ok]

/-- A storage-side failure carrying SQLite's own text. -/
def storage (message : String) : Status := ⟨.storageError, message⟩

@[simp] theorem storage_code (m : String) : (storage m).code = .storageError := rfl

end Status

/-! ### Consent and lifecycle -/

/-- The consent gate. Only `granted` permits collection. -/
inductive ConsentState
  | unknown
  | denied
  | granted
  deriving DecidableEq, Repr

/-- The client's lifecycle; admission is open only in `running`. -/
inductive LifecycleState
  | running
  | stopping
  | stopped
  deriving DecidableEq, Repr

/-! ### Events -/

/-- A `double`, kept as its bit pattern. -/
structure Double where
  bits : UInt64
  deriving DecidableEq, Repr

/-- A flat property value: exactly one of the four supported types. -/
inductive PropertyValue
  | bool (value : Bool)
  | int (value : Int)
  | double (value : Double)
  | string (value : String)
  deriving DecidableEq, Repr

/-- Properties keep the caller's order. -/
abbrev Properties := List (String × PropertyValue)

/-- The schema version stamped on every event (`kEventSchemaVersion`). -/
def kEventSchemaVersion : Nat := 1

/-- The event model recorded by the SDK. -/
structure Event where
  eventId : String
  appId : String
  name : String
  schemaVersion : Nat
  timestampMs : Int
  sessionId : String
  playerId : String
  sequence : Nat
  properties : Properties
  deriving DecidableEq, Repr

/-- An event with the metadata admission gave it: its place in the admission order, and
the consent generation it was admitted under. -/
structure QueuedEvent where
  event : Event
  ordinal : Nat
  consentGeneration : Nat
  deriving DecidableEq, Repr

/-- One serialized event handed to a sink. The ordinal of the row it was read from is
ghost: the sink is given the identifier and the payload only. -/
structure SerializedEvent where
  eventId : String
  json : String
  ordinal : Nat
  deriving DecidableEq, Repr

/-! ### What identifies an event on its way

The same event is a queued event, then a record, then a row, then an identifier in an
acknowledgment. `Item` is what all of these have in common. -/

/-- The identity of an event, wherever it currently is. The identifier is optional
because a stored row may have lost its own. -/
structure Item where
  id : Option String
  ordinal : Nat
  deriving DecidableEq, Repr

/-- The identity of a queued event. -/
def QueuedEvent.item (e : QueuedEvent) : Item := ⟨some e.event.eventId, e.ordinal⟩

@[simp] theorem QueuedEvent.item_ordinal (e : QueuedEvent) : e.item.ordinal = e.ordinal := rfl

@[simp] theorem QueuedEvent.item_id (e : QueuedEvent) : e.item.id = some e.event.eventId := rfl

end PlayerTrace
