import PlayerTrace.Basic

/-!
# The session record

`src/session_manager.cpp`: the current session identity and its sequence counter. Every
operation is one short critical section of the manager's own mutex, and every caller
also holds the client's admission lock, so each is a plain function on the record. The
identifier a new session draws from `uuid4`, and the clock reading, are arguments.
-/

namespace PlayerTrace

/-- The state of `SessionManager`; its `Snapshot` has the same five fields. -/
structure SessionManager where
  active : Bool := false
  sessionId : String := ""
  playerId : String := ""
  sequence : Nat := 0
  startedMs : Int := 0
  deriving DecidableEq, Repr

namespace SessionManager

/-- `SessionManager::begin`. -/
def begin (_ : SessionManager) (uuid : String) (playerId : String) (now : Int) : SessionManager :=
  { active := true, sessionId := uuid, playerId := playerId, sequence := 0, startedMs := now }

/-- `SessionManager::end`, for a caller that does not ask for the duration. -/
def «end» (m : SessionManager) : SessionManager :=
  if m.active then { m with active := false } else m

/-- `SessionManager::peek_duration`: the duration so far, if a session is active. -/
def peekDuration (m : SessionManager) (now : Int) : Option Int :=
  if m.active then some (now - m.startedMs) else none

/-- `SessionManager::next`: the identity and the sequence number of the next event,
with the advanced record. -/
def next (m : SessionManager) : Option (String × String × Nat × SessionManager) :=
  if m.active then some (m.sessionId, m.playerId, m.sequence, { m with sequence := m.sequence + 1 })
  else none

/-- `SessionManager::save`. -/
def save (m : SessionManager) : SessionManager := m

/-- `SessionManager::restore`. -/
def restore (_ : SessionManager) (snapshot : SessionManager) : SessionManager := snapshot

/-- `SessionManager::deactivate`. -/
def deactivate (m : SessionManager) : SessionManager := { m with active := false }

/-- `SessionManager::rollback`: gives back the most recent sequence number, if the same
session is still active. -/
def rollback (m : SessionManager) (sessionId : String) (sequence : Nat) : SessionManager :=
  if m.active ∧ m.sessionId = sessionId ∧ m.sequence = sequence + 1 then
    { m with sequence := sequence }
  else m

@[simp] theorem begin_active (m : SessionManager) (u p : String) (t : Int) :
    (m.begin u p t).active = true := rfl

@[simp] theorem begin_sessionId (m : SessionManager) (u p : String) (t : Int) :
    (m.begin u p t).sessionId = u := rfl

@[simp] theorem begin_sequence (m : SessionManager) (u p : String) (t : Int) :
    (m.begin u p t).sequence = 0 := rfl

@[simp] theorem end_active (m : SessionManager) : m.end.active = false := by
  cases h : m.active <;> simp [SessionManager.end, h]

@[simp] theorem deactivate_active (m : SessionManager) : m.deactivate.active = false := rfl

@[simp] theorem save_eq (m : SessionManager) : m.save = m := rfl

@[simp] theorem restore_eq (m m' : SessionManager) : m.restore m' = m' := rfl

theorem next_eq_some {m : SessionManager} {sid pid : String} {n : Nat} {m' : SessionManager} :
    m.next = some (sid, pid, n, m') ↔
      m.active = true ∧ sid = m.sessionId ∧ pid = m.playerId ∧ n = m.sequence ∧
        m' = { m with sequence := m.sequence + 1 } := by
  cases h : m.active <;> simp [next, h, eq_comm]

/-- Undoing the assignment `next` has just made restores the record. -/
theorem rollback_next {m : SessionManager} {sid pid : String} {n : Nat} {m' : SessionManager}
    (h : m.next = some (sid, pid, n, m')) : m'.rollback sid n = m := by
  obtain ⟨ha, rfl, -, rfl, rfl⟩ := next_eq_some.mp h
  cases m
  simp_all [rollback]

end SessionManager

end PlayerTrace
