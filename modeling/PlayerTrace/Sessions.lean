import PlayerTrace.Control.Producers
import PlayerTrace.Custody.Sequence
import PlayerTrace.Lib.Blocks

/-!
# The streams of sessions

The events of a session are numbered by its record, and the record is saved, begun,
advanced, rolled back, restored and deactivated by five operations with many early exits.
All of them hold the admission lock, so what is accepted is written by one author at a time:
the list of accepted events is a log of numbered blocks (`Blocks.Blocked`), one for each
session, and the record describes the block that is open (`PlayerTrace.Rest`).

Between two calls an active record has its start marker in the log. Inside a call the record
may be ahead of the log by one number, or describe a session that has no event yet; the
invariant `PlayerTrace.Fits` follows the position of the producer, together with the record
it would go back to.
-/

namespace PlayerTrace

/-- How the accepted events are read as the log of sessions. -/
def stream : Blocks.Reading Admitted String where
  key a := a.qe.event.sessionId
  number a := a.qe.event.sequence
  first a := a.origin = .start
  last a := a.origin = .finish

/-- The accepted events of a session, in the order of admission. -/
def State.events (s : State) (sessionId : String) : List Admitted :=
  Blocks.entries stream sessionId s.history.accepted

/-! ### The record and the log -/

section Fits

variable (used : List String) (accepted : List Admitted)

/-- **A record between two calls**: if it is active, its session is the open block of the
log, and the start marker is in it. -/
def Rest (m : SessionManager) : Prop :=
  m.active = true → m.sessionId ∈ used ∧ 0 < m.sequence ∧
    Blocks.Open stream m.sessionId m.sequence accepted

/-- A record whose session has no event yet. -/
structure Begun (m : SessionManager) : Prop where
  active : m.active = true
  used : m.sessionId ∈ used
  sequence : m.sequence = 0
  unseen : ∀ a ∈ accepted, a.qe.event.sessionId ≠ m.sessionId

/-- A record that `admit_locked` may take a number from. -/
def Ready (m : SessionManager) : AdmitFor → Prop
  | .track .. | .endSession => Rest used accepted m
  | .replaceEnd _ previous => Rest used accepted m ∧ Rest used accepted previous
  | .start _ replacing previous =>
    Begun used accepted m ∧ (replacing = false → previous.active = false)

/-- A record whose number is in an event that is not in the log yet. -/
def Ahead (m : SessionManager) (k : AdmitFor) (qe : QueuedEvent) : Prop :=
  ∃ m₀ : SessionManager, m = { m₀ with sequence := m₀.sequence + 1 } ∧ m₀.active = true ∧
    qe.event.sessionId = m₀.sessionId ∧ qe.event.sequence = m₀.sequence ∧ Ready used accepted m₀ k

/-- A record after the push. -/
def Pushed (m : SessionManager) : AdmitFor → Prop
  | .track .. | .start .. => Rest used accepted m
  | .endSession | .replaceEnd .. => True

/-- **The record fits the log**, wherever the producer is. -/
def Fits (m : SessionManager) : Admission → Prop
  | .producer _ (.startBegin _ replacing previous) =>
    m.active = false ∧ (replacing = false → previous.active = false)
  | .producer _ (.gate k ..) | .producer _ (.capacity k ..) | .producer _ (.room k ..) =>
    Ready used accepted m k
  | .producer _ (.reserve k qe) | .producer _ (.push k qe) | .producer _ (.undo k qe) =>
    Ahead used accepted m k qe
  | .producer _ (.count k) => Pushed used accepted m k
  | _ => Rest used accepted m

end Fits

variable {used used' : List String} {accepted : List Admitted} {m : SessionManager}

theorem rest_of_inactive (h : m.active = false) : Rest used accepted m := fun ha => by
  rw [h] at ha
  cases ha

theorem Rest.mono (h : Rest used accepted m) (hsub : used ⊆ used') : Rest used' accepted m :=
  fun ha => ⟨hsub (h ha).1, (h ha).2⟩

theorem Ready.mono {k : AdmitFor} (h : Ready used accepted m k) (hsub : used ⊆ used') :
    Ready used' accepted m k := by
  cases k with
  | track name ps => exact Rest.mono h hsub
  | endSession => exact Rest.mono h hsub
  | replaceEnd p previous => exact ⟨h.1.mono hsub, h.2.mono hsub⟩
  | start p replacing previous =>
    exact ⟨⟨h.1.active, hsub h.1.used, h.1.sequence, h.1.unseen⟩, h.2⟩

/-- A failure of `admit_locked` leaves a record that is between two calls. -/
theorem Ready.fallback {k : AdmitFor} (h : Ready used accepted m k) :
    Rest used accepted (k.fallback m) := by
  cases k with
  | track name ps => exact h
  | endSession => exact h
  | replaceEnd p previous => exact h.2
  | start p replacing previous =>
    cases replacing with
    | true => exact rest_of_inactive rfl
    | false => exact rest_of_inactive (h.2 rfl)

/-- The way back from a failed push gives the number back. -/
theorem Ahead.rollback {k : AdmitFor} {qe : QueuedEvent} (h : Ahead used accepted m k qe) :
    Ready used accepted (m.rollback qe.event.sessionId qe.event.sequence) k := by
  obtain ⟨m₀, rfl, hactive, hsid, hseq, hready⟩ := h
  have hback : ({ m₀ with sequence := m₀.sequence + 1 } : SessionManager).rollback
      qe.event.sessionId qe.event.sequence = m₀ := by
    have hnext : m₀.next = some (qe.event.sessionId, m₀.playerId, qe.event.sequence,
        { m₀ with sequence := m₀.sequence + 1 }) :=
      SessionManager.next_eq_some.mpr ⟨hactive, hsid, rfl, hseq, rfl⟩
    exact SessionManager.rollback_next hnext
  rw [hback]
  exact hready

/-- **The push writes the next entry of the log**, and the record fits it. -/
theorem Ahead.push {k : AdmitFor} {qe : QueuedEvent} (h : Ahead used accepted m k qe)
    (hlog : Blocks.Blocked stream accepted) :
    qe.event.sessionId ∈ used ∧ Blocks.Blocked stream (accepted ++ [⟨qe, k.origin⟩]) ∧
      Pushed used (accepted ++ [⟨qe, k.origin⟩]) m k := by
  obtain ⟨m₀, rfl, hactive, hsid, hseq, hready⟩ := h
  -- in a running session: not the first entry, and the last one only if it is an end marker
  have hrunning : Rest used accepted m₀ → k.origin ≠ .start → qe.event.sessionId ∈ used ∧
      Blocks.Blocked stream (accepted ++ [⟨qe, k.origin⟩]) ∧
      (k.origin ≠ .finish → Rest used (accepted ++ [⟨qe, k.origin⟩])
        { m₀ with sequence := m₀.sequence + 1 }) := by
    intro hrest hstart
    obtain ⟨hused, hpos, hopen⟩ := hrest hactive
    have hkey : stream.key ⟨qe, k.origin⟩ = m₀.sessionId := hsid
    have hnum : stream.number ⟨qe, k.origin⟩ = m₀.sequence := hseq
    have hfirst : stream.first ⟨qe, k.origin⟩ ↔ stream.number ⟨qe, k.origin⟩ = 0 :=
      iff_of_false hstart (by omega)
    obtain ⟨hblocked, hnext⟩ := hopen.append hkey hnum hfirst
    exact ⟨hsid ▸ hused, hblocked, fun hlast _ => ⟨hused, Nat.succ_pos _, hnext hlast⟩⟩
  cases k with
  | track name ps =>
    obtain ⟨hused, hblocked, hrest⟩ := hrunning hready nofun
    exact ⟨hused, hblocked, hrest nofun⟩
  | endSession =>
    obtain ⟨hused, hblocked, -⟩ := hrunning hready nofun
    exact ⟨hused, hblocked, trivial⟩
  | replaceEnd p previous =>
    obtain ⟨hused, hblocked, -⟩ := hrunning hready.1 nofun
    exact ⟨hused, hblocked, trivial⟩
  | start p replacing previous =>
    -- the session has no event yet, so its block is opened by this one
    obtain ⟨⟨-, hused, hzero, hunseen⟩, -⟩ := hready
    have hkey : stream.key ⟨qe, .start⟩ = m₀.sessionId := hsid
    have hnum : stream.number ⟨qe, .start⟩ = 0 := hseq.trans hzero
    have hfirst : stream.first ⟨qe, .start⟩ := rfl
    obtain ⟨hblocked, hnext⟩ :=
      (hlog.open hunseen).append hkey hnum (iff_of_true hfirst hnum)
    refine ⟨hsid ▸ hused, hblocked, fun _ => ⟨hused, Nat.succ_pos _, ?_⟩⟩
    rw [show m₀.sequence = 0 from hzero]
    exact hnext nofun

/-- A success of `admit_locked` leaves a record that fits. -/
theorem Pushed.outcome {k : AdmitFor} {t : Tid} (h : Pushed used accepted m k) :
    Fits used accepted (k.outcome m) (k.slot t) := by
  cases k with
  | track name ps => exact h
  | start p replacing previous => exact h
  | endSession => exact rest_of_inactive m.end_active
  | replaceEnd p previous => exact ⟨m.end_active, nofun⟩

/-! ### Every step keeps the streams -/

variable {env : Env} {i : Input} {s s' : State} {t : Tid}

namespace Custody

variable {c c' : Custody}

end Custody

end PlayerTrace
