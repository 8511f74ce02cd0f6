import PlayerTrace.Control.Admissions

/-!
# The producer inside the admission lock

What `PlayerTrace.Client.admitStep` can do, once and for all: the producer moves on
(`PlayerTrace.Leads`), is refused (`PlayerTrace.Refuses`), or `admit_locked` fails and its caller
takes over (`PlayerTrace.Fails`); or it takes one of the steps that do something – a new session
record, an event with its number, a reservation, the push, the way back, the count. Every
guard that was passed is kept.
-/

namespace PlayerTrace

/-- The moves inside the lock that change nothing, with what was read. -/
inductive Leads (env : Env) (s : State) : AdmitPc → AdmitPc → Prop
  | replacing {p : String} (hterm : s.pipeline.terminated = false)
      (hactive : s.client.session.active = true) :
      Leads env s (.startTerminal p) (.startReserve p)
  | opening {p : String} (hactive : s.client.session.active = false) :
      Leads env s (.startTerminal p) (.startBegin p false s.client.session)
  | reserved {p : String} (hcap : s.pipeline.outstanding + 2 ≤ env.config.maxPendingEvents) :
      Leads env s (.startReserve p) (.startRoom p)
  | ending {p : String} {properties : Properties}
      (hroom : EventQueue.hasRoomFor env.config.maxQueueSize s.pipeline.queue 2 = true)
      (hactive : s.client.session.active = true) :
      Leads env s (.startRoom p) (.gate (.replaceEnd p s.client.session) "session_end" properties)
  | finishing {properties : Properties}
      (hactive : s.client.session.active = true) :
      Leads env s .endTerminal (.gate .endSession "session_end" properties)
  | gated {k : AdmitFor} {name : String} {properties : Properties}
      (hterm : s.pipeline.terminated = false) (hrun : s.client.lifecycle = .running)
      (hcons : s.pipeline.consent = .granted) (hactive : s.client.session.active = true) :
      Leads env s (.gate k name properties) (.capacity k name properties)
  | covered {k : AdmitFor} {name : String} {properties : Properties}
      (hcap : s.pipeline.outstanding < env.config.maxPendingEvents) :
      Leads env s (.capacity k name properties) (.room k name properties)
  | overflow {k : AdmitFor} {qe : QueuedEvent}
      (hfull : EventQueue.tryPush env.config.maxQueueSize s.pipeline.queue qe = none) :
      Leads env s (.push k qe) (.undo k qe)
  | flushing : Leads env s .flushTerminal .flushBarrier

/-- The refusals before `admit_locked` is called, with their reasons. -/
inductive Refuses (env : Env) (s : State) : AdmitPc → Op → Prop
  | startTerminal {p : String} (hterm : s.pipeline.terminated = true) :
      Refuses env s (.startTerminal p) (.startSession p)
  | startReserve {p : String} (hcap : env.config.maxPendingEvents < s.pipeline.outstanding + 2) :
      Refuses env s (.startReserve p) (.startSession p)
  | startRoom {p : String}
      (hroom : EventQueue.hasRoomFor env.config.maxQueueSize s.pipeline.queue 2 = false) :
      Refuses env s (.startRoom p) (.startSession p)
  | endTerminal (hterm : s.pipeline.terminated = true) : Refuses env s .endTerminal .endSession
  | flushTerminal (hterm : s.pipeline.terminated = true) : Refuses env s .flushTerminal .flush

/-- The failures of `admit_locked`, and of `end_session_locked` before it, with their
reasons. -/
inductive Fails (env : Env) (s : State) : AdmitPc → AdmitFor → Prop
  | startRoom {p : String} (hactive : s.client.session.active = false) :
      Fails env s (.startRoom p) (.replaceEnd p s.client.session)
  | endTerminal (hactive : s.client.session.active = false) : Fails env s .endTerminal .endSession
  | gate {k : AdmitFor} {name : String} {properties : Properties}
      (hwhy : s.pipeline.terminated = true ∨ s.client.lifecycle ≠ .running ∨
        s.pipeline.consent ≠ .granted ∨ s.client.session.active = false) :
      Fails env s (.gate k name properties) k
  | capacity {k : AdmitFor} {name : String} {properties : Properties}
      (hcap : env.config.maxPendingEvents ≤ s.pipeline.outstanding) :
      Fails env s (.capacity k name properties) k
  | room {k : AdmitFor} {name : String} {properties : Properties}
      (hwhy : EventQueue.full env.config.maxQueueSize s.pipeline.queue = true ∨
        s.client.session.active = false) :
      Fails env s (.room k name properties) k

/-- A change of the statistics that counts no admission. -/
def Rejection (f : Stats → Stats) : Prop := ∀ st, (f st).accepted = st.accepted

/-- **The steps of a producer inside the admission lock.** -/
inductive Inside (env : Env) (i : Input) (s : State) (t : Tid) : AdmitPc → State → Prop
  | moves {pc pc' : AdmitPc} (h : Leads env s pc pc') : Inside env i s t pc (Client.proceed s t pc')
  | refuses {pc : AdmitPc} {op : Op} {status : Status} {f : Stats → Stats}
      (h : Refuses env s pc op) (hok : status.ok = false) (hf : Rejection f) :
      Inside env i s t pc (Client.leave (Client.countRejection s f) t op status)
  | fails {pc : AdmitPc} {k : AdmitFor} {status : Status} {f : Stats → Stats}
      (h : Fails env s pc k) (hok : status.ok = false) (hf : Rejection f) :
      Inside env i s t pc (Client.resume (Client.countRejection s f) t k status)
  | begins {p : String} {replacing : Bool} {previous : SessionManager}
      (hfresh : Client.fresh s i.uuid = true) :
      Inside env i s t (.startBegin p replacing previous)
        (Client.proceed
          (Client.use (Client.setSession s (s.client.session.begin i.uuid p i.now)) i.uuid) t
          (.gate (.start p replacing previous) "session_start" []))
  | builds {k : AdmitFor} {name : String} {properties : Properties} {qe : QueuedEvent}
      {m : SessionManager}
      (hroom : EventQueue.full env.config.maxQueueSize s.pipeline.queue = false)
      (hnext : s.client.session.next =
        some (qe.event.sessionId, qe.event.playerId, qe.event.sequence, m))
      (hfresh : Client.fresh s i.uuid = true)
      (hord : qe.ordinal = s.client.ordinal + 1)
      (hgen : qe.consentGeneration = s.pipeline.consentGeneration) (hname : qe.event.name = name) :
      Inside env i s t (.room k name properties)
        (Client.proceed { Client.use (Client.setSession s m) i.uuid with
          client := { s.client with session := m, ordinal := s.client.ordinal + 1 } } t
          (.reserve k qe))
  | reserves {k : AdmitFor} {qe : QueuedEvent} :
      Inside env i s t (.reserve k qe) (Client.reserve s t k qe)
  | pushes {k : AdmitFor} {qe : QueuedEvent}
      (hroom : EventQueue.tryPush env.config.maxQueueSize s.pipeline.queue qe =
        some (s.pipeline.queue ++ [qe])) :
      Inside env i s t (.push k qe)
        (Client.proceed { s with
          pipeline := { s.pipeline with queue := s.pipeline.queue ++ [qe] }
          history := { s.history with accepted := s.history.accepted ++ [⟨qe, k.origin⟩] } } t
          (.count k))
  | undoes {k : AdmitFor} {qe : QueuedEvent} : Inside env i s t (.undo k qe) (Client.undo s t k qe)
  | counts {k : AdmitFor} : Inside env i s t (.count k) (Client.count s t k)
  | flushBarrier : Inside env i s t .flushBarrier (Client.flushBarrier s t)
  | flushToken {barrier : Nat} :
      Inside env i s t (.flushToken barrier) (Client.flushToken s t barrier)

namespace Client

variable {env : Env} {i : Input} {s s' : State} {t : Tid}

theorem rejection_id : Rejection id := fun _ => rfl

/-- The terminal status is an error exactly when the worker is gone. -/
theorem terminalLocked_ok : (terminalLocked s).ok = false ↔ s.pipeline.terminated = true := by
  unfold terminalLocked
  cases s.pipeline.terminated with
  | false => simp
  | true =>
    rw [if_neg (by simp)]
    split
    · rename_i h
      simpa using h
    · simp [Status.ok]

theorem endSessionLocked_inside {pc : AdmitPc} {k : AdmitFor}
    (hfail : s.client.session.active = false → Fails env s pc k)
    (hlead : ∀ properties, s.client.session.active = true →
      Leads env s pc (.gate k "session_end" properties)) :
    Inside env i s t pc (endSessionLocked env i s t k) := by
  unfold endSessionLocked
  cases hactive : s.client.session.active with
  | true =>
    simp only [SessionManager.peekDuration, hactive, if_pos]
    exact .moves (hlead _ hactive)
  | false =>
    simp only [SessionManager.peekDuration, hactive, Bool.false_eq_true, if_false]
    exact .fails (f := id) (hfail hactive) rfl rejection_id

/-- **Every step inside the admission lock is one of these.** -/
theorem admitStep_inside {pc : AdmitPc} (h : admitStep env i s t pc = some s') :
    Inside env i s t pc s' := by
  cases pc with
  | startTerminal p =>
    obtain rfl := Option.some.inj h
    simp only [startTerminal]
    split
    · rename_i hterm
      exact .refuses (f := id) (.startTerminal (terminalLocked_ok.mp hterm)) hterm rejection_id
    rename_i hterm
    split
    · rename_i hactive
      refine .moves (.replacing ?_ hactive)
      rw [terminalLocked_ok] at hterm
      simpa using hterm
    · rename_i hactive
      exact .moves (.opening (by simpa using hactive))
  | startReserve p =>
    obtain rfl := Option.some.inj h
    unfold startReserve
    split
    · rename_i hcap
      exact .refuses (.startReserve hcap) rfl fun _ => rfl
    · rename_i hcap
      exact .moves (.reserved (Nat.not_lt.mp hcap))
  | startRoom p =>
    obtain rfl := Option.some.inj h
    unfold startRoom
    split
    · rename_i hroom
      exact .refuses (.startRoom hroom) rfl fun _ => rfl
    · rename_i hroom
      exact endSessionLocked_inside .startRoom fun _ => .ending (by simpa using hroom)
  | startBegin p replacing previous =>
    simp only [admitStep, startBegin] at h
    split at h
    · rename_i hfresh
      obtain rfl := Option.some.inj h
      exact .begins hfresh
    · cases h
  | endTerminal =>
    obtain rfl := Option.some.inj h
    simp only [endTerminal]
    split
    · rename_i hterm
      exact .refuses (f := id) (.endTerminal (terminalLocked_ok.mp hterm)) hterm rejection_id
    · exact endSessionLocked_inside .endTerminal fun _ => .finishing
  | gate k name ps =>
    obtain rfl := Option.some.inj h
    simp only [gate]
    split
    · rename_i hterm
      exact .fails (f := id) (.gate (Or.inl (terminalLocked_ok.mp hterm))) hterm rejection_id
    rename_i hterm
    split
    · rename_i hrun
      exact .fails (f := id) (.gate (Or.inr (Or.inl hrun))) rfl rejection_id
    rename_i hrun
    split
    · rename_i hcons
      exact .fails (f := id) (.gate (Or.inr (Or.inr (Or.inl hcons)))) rfl rejection_id
    rename_i hcons
    split
    · rename_i hactive
      exact .fails (f := id) (.gate (Or.inr (Or.inr (Or.inr hactive)))) rfl rejection_id
    · rename_i hactive
      refine .moves (.gated ?_ (not_not.mp hrun) (not_not.mp hcons) (by simpa using hactive))
      rw [terminalLocked_ok] at hterm
      simpa using hterm
  | capacity k name ps =>
    obtain rfl := Option.some.inj h
    unfold capacity
    split
    · rename_i hcap
      exact .fails (.capacity hcap) rfl fun _ => rfl
    · rename_i hcap
      exact .moves (.covered (Nat.lt_of_not_le hcap))
  | room k name ps =>
    simp only [admitStep, room] at h
    split at h
    · rename_i hfull
      obtain rfl := Option.some.inj h
      exact .fails (.room (Or.inl hfull)) rfl fun _ => rfl
    rename_i hfull
    split at h
    · rename_i hnext
      obtain rfl := Option.some.inj h
      refine .fails (f := id) (.room (Or.inr ?_)) rfl rejection_id
      cases hactive : s.client.session.active with
      | false => rfl
      | true => simp [SessionManager.next, hactive] at hnext
    rename_i sid pid n m hnext
    split at h
    · rename_i hfresh
      obtain rfl := Option.some.inj h
      exact .builds (by simpa using hfull) hnext hfresh rfl rfl rfl
    · cases h
  | reserve k qe => obtain rfl := Option.some.inj h; exact .reserves
  | push k qe =>
    obtain rfl := Option.some.inj h
    unfold push
    split
    · rename_i queue hpush
      have hqueue : queue = s.pipeline.queue ++ [qe] := by
        simp only [EventQueue.tryPush] at hpush
        split at hpush
        · cases hpush
        · exact (Option.some.inj hpush).symm
      subst hqueue
      exact .pushes hpush
    · rename_i hpush
      exact .moves (.overflow hpush)
  | undo k qe => obtain rfl := Option.some.inj h; exact .undoes
  | count k => obtain rfl := Option.some.inj h; exact .counts
  | flushTerminal =>
    obtain rfl := Option.some.inj h
    simp only [flushTerminal]
    split
    · rename_i hterm
      exact .refuses (f := id) (.flushTerminal (terminalLocked_ok.mp hterm)) hterm rejection_id
    · exact .moves .flushing
  | flushBarrier => obtain rfl := Option.some.inj h; exact .flushBarrier
  | flushToken b => obtain rfl := Option.some.inj h; exact .flushToken

end Client

/-! ### What the caller of `admit_locked` makes of its result -/

namespace AdmitFor

/-- The session record after a failure. -/
def fallback (k : AdmitFor) (m : SessionManager) : SessionManager :=
  match k with
  | .track .. | .endSession => m
  | .replaceEnd _ previous => previous
  | .start _ replacing previous => if replacing then m.deactivate else previous

/-- The session record after a success. -/
def outcome (k : AdmitFor) (m : SessionManager) : SessionManager :=
  match k with
  | .track .. | .start .. => m
  | .endSession | .replaceEnd .. => m.end

/-- The admission lock after a success: a replacement goes on. -/
def slot (k : AdmitFor) (t : Tid) : Admission :=
  match k with
  | .replaceEnd playerId previous => .producer t (.startBegin playerId true previous)
  | _ => .free

/-- Where the caller is after a success. -/
def caller (k : AdmitFor) (c : Caller) : Caller :=
  match k with
  | .replaceEnd .. => c
  | _ => .done (.status (Client.op k) {})

end AdmitFor

namespace Client

variable {s : State} {t : Tid} {k : AdmitFor} {status : Status}

/-- **A failure goes back** to the record of before, and returns. -/
theorem resume_of_fail (h : status.ok = false) :
    resume s t k status = leave (setSession s (k.fallback s.client.session)) t (op k) status := by
  cases k with
  | track name ps => rfl
  | endSession => simp [resume, h, AdmitFor.fallback, setSession]
  | replaceEnd p previous => simp [resume, h, AdmitFor.fallback]
  | start p replacing previous => cases replacing <;> simp [resume, h, AdmitFor.fallback]

/-- **A success commits**, and returns unless a session is being replaced. -/
theorem resume_of_ok :
    resume s t k {} = ({ s with client :=
      { s.client with session := k.outcome s.client.session, admission := k.slot t } }).move t
        (k.caller (s.callers t)) := by
  cases k with
  | replaceEnd p previous =>
    simp [resume, AdmitFor.outcome, AdmitFor.slot, AdmitFor.caller, proceed, setSession, State.move]
  | track name ps => rfl
  | endSession => rfl
  | start p replacing previous => rfl

end Client

end PlayerTrace
