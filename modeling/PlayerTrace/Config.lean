import PlayerTrace.Basic

/-!
# Configuration, and the code a client is run with

`include/playertrace/config.hpp` with `validate_config` of `src/client.cpp`, and the
functions the pipeline calls but does not look into: validation of names, properties and
player identifiers, serialization, and the JSON check of the store. Everything proved
about the pipeline holds for any choice of these.
-/

namespace PlayerTrace

/-- `Config`. A callback is user code: the property filter only leaves whether it is set,
its answers come with the step that calls it. -/
structure Config where
  appId : String
  storagePath : String
  consent : ConsentState := .unknown
  maxQueueSize : Nat := 10000
  batchSize : Nat := 100
  batchInterval : Int := 1000
  maxPendingEvents : Nat := 100000
  maxNameLength : Nat := 64
  maxProperties : Nat := 64
  maxStringLength : Nat := 1024
  maxPlayerIdLength : Nat := 128
  propertyFilter : Bool := false
  deriving DecidableEq, Repr

/-- `kMaxConfigCount`. -/
def kMaxConfigCount : Nat := 100 * 1000 * 1000

/-- The characters `validate_config` allows in `app_id`. -/
def appIdChar (c : Char) : Bool :=
  ('A' ≤ c && c ≤ 'Z') || ('a' ≤ c && c ≤ 'z') || ('0' ≤ c && c ≤ '9') ||
    c == '.' || c == '-' || c == '_'

/-- The limits `validate_config` bounds from above, in source order. -/
def Config.counts (c : Config) : List Nat :=
  [c.maxQueueSize, c.batchSize, c.maxPendingEvents, c.maxProperties, c.maxNameLength,
    c.maxStringLength, c.maxPlayerIdLength]

/-- A refused configuration. -/
def invalidConfig (message : String) : Status := ⟨.invalidConfig, message⟩

/-- `validate_config`. -/
def validateConfig (c : Config) : Status :=
  if c.appId.isEmpty then invalidConfig "app_id must not be empty"
  else if c.appId.length > 64 then invalidConfig "app_id exceeds 64 characters"
  else if c.appId.toList.any (fun ch => !appIdChar ch) then
    invalidConfig "app_id contains an invalid character"
  else if c.storagePath.isEmpty then invalidConfig "storage_path must not be empty"
  else if c.batchSize = 0 then invalidConfig "batch_size must be >= 1"
  else if c.maxQueueSize = 0 then invalidConfig "max_queue_size must be >= 1"
  else if c.maxPendingEvents = 0 then invalidConfig "max_pending_events must be >= 1"
  else if c.maxNameLength = 0 then invalidConfig "max_name_length must be >= 1"
  else if c.maxStringLength = 0 then invalidConfig "max_string_length must be >= 1"
  else if c.maxPlayerIdLength = 0 then invalidConfig "max_player_id_length must be >= 1"
  else if c.batchInterval ≤ 0 then invalidConfig "batch_interval must be greater than zero"
  else if c.counts.any (fun n => n > kMaxConfigCount) then
    invalidConfig ("a configuration limit exceeds the supported maximum of " ++
      toString kMaxConfigCount)
  else if c.batchSize > c.maxQueueSize then
    invalidConfig "batch_size must not exceed max_queue_size"
  else {}

/-- What a client is run with: its configuration, and the functions the pipeline treats
as given. -/
structure Env where
  config : Config
  /-- `EventValidator::validate_player_id`. -/
  validatePlayerId : String → Status
  /-- `EventValidator::validate_name`. -/
  validateName : String → Status
  /-- `EventValidator::validate_properties`. -/
  validateProperties : Properties → Status
  /-- `JsonSerializer::serialize`. -/
  serialize : Event → Except Status String
  /-- The JSON check `fetch_pending` makes on a payload. -/
  isValidJson : String → Bool
  /-- `static_cast<double>(duration_ms) / 1000.0`. -/
  toSeconds : Int → Double

end PlayerTrace
