import PlayerTrace.Boundary
import PlayerTrace.Events.Json

/-!
# Where the contents of an event come from

Every field of an admitted event has been looked at before: `start_session` validates the player
identifier, `track` validates the name and the properties and then filters them, the two session
markers are built from constants, and both identifiers are drawn from `uuid4`. In between stands
the whole way of a call – the wait for the lock, the session record that outlives it, the record
saved for going back – so that an event is vetted (`PlayerTrace.Vetted`) is an invariant that
follows the contents along this way (`PlayerTrace.Vetting`).
-/

namespace PlayerTrace

/-! ### Identifiers -/

namespace IdGenerator

/-- A conversion `%02x`. -/
def hex (b : UInt8) : List Char := [Nat.digitChar (b.toNat / 16), Nat.digitChar (b.toNat % 16)]

/-- A byte of a word. -/
def byte (w shift : UInt64) : UInt8 := ((w >>> shift) &&& 0xFF).toUInt8

/-- The bytes that `uuid4` prints, with the dashes between them. -/
def pattern (hi lo : UInt64) : List (Option UInt8) :=
  [some (byte hi 56), some (byte hi 48), some (byte hi 40), some (byte hi 32), none,
    some (byte hi 24), some (byte hi 16), none, some (byte hi 8), some (byte hi 0), none,
    some (byte lo 56), some (byte lo 48), none, some (byte lo 40), some (byte lo 32),
    some (byte lo 24), some (byte lo 16), some (byte lo 8), some (byte lo 0)]

/-- `IdGenerator::uuid4`, for two numbers of its generator. -/
def uuid4 (hi lo : UInt64) : String :=
  let hi := (hi &&& 0xFFFFFFFFFFFF0FFF) ||| 0x0000000000004000
  let lo := (lo &&& 0x3FFFFFFFFFFFFFFF) ||| 0x8000000000000000
  String.ofList ((pattern hi lo).flatMap fun b => (b.map hex).getD ['-'])

theorem ascii_hex {b : UInt8} {c : Char} (h : c ∈ hex b) : c.toNat < 0x80 := by
  have hdigit : ∀ n < 16, (Nat.digitChar n).toNat < 0x80 := by decide
  have hb := b.toNat_lt
  simp only [hex, List.mem_cons, List.not_mem_nil, or_false] at h
  rcases h with rfl | rfl
  · exact hdigit _ (by omega)
  · exact hdigit _ (by omega)

/-- An identifier is ASCII. -/
theorem encoded_uuid4 (hi lo : UInt64) : Encoded (uuid4 hi lo) := by
  refine encoded_of_ascii fun c hc => ?_
  rw [uuid4, String.toList_ofList] at hc
  obtain ⟨b, -, hc⟩ := List.mem_flatMap.mp hc
  cases b with
  | some b => exact ascii_hex hc
  | none =>
    rw [List.mem_singleton.mp hc]
    decide

/-- And it has a length in the sense of SQLite: it begins with a digit. -/
theorem sqlLength_uuid4 (hi lo : UInt64) : 0 < sqlLength (uuid4 hi lo) := by
  have hdigit : ∀ n < 16, Nat.digitChar n ≠ '\x00' := by decide
  have hlt : ∀ b : UInt8, b.toNat / 16 < 16 := fun b => by
    have := b.toNat_lt
    omega
  simp [sqlLength, uuid4, pattern, hex, hdigit _ (hlt _)]

end IdGenerator

/-- An identifier that `uuid4` returned. -/
def Drawn (uuid : String) : Prop := ∃ hi lo, uuid = IdGenerator.uuid4 hi lo

/-- Identifiers come from `uuid4`; a step that draws none has none. -/
def Label.draws : Label → Prop
  | .caller _ i => i.uuid = "" ∨ Drawn i.uuid
  | .worker _ | .call .. => True

/-! ### What was looked at -/

section Vetted

variable (env : Env)

/-- The contents of an event, by the call it stems from. -/
def Built (name : String) (properties : Properties) : Origin → Prop
  | .start => name = "session_start" ∧ properties = []
  | .finish => name = "session_end" ∧
      ∃ duration, properties = [("session_seconds", .double (env.toSeconds duration))]
  | .track => (env.validateName name).ok = true ∧ ∃ original i,
      (env.validateProperties original).ok = true ∧ properties = Client.applyFilter env i original

/-- **An event all of whose contents have been looked at.** -/
structure Vetted (origin : Origin) (e : Event) : Prop where
  eventId : Drawn e.eventId
  appId : e.appId = env.config.appId
  schemaVersion : e.schemaVersion = kEventSchemaVersion
  sessionId : Drawn e.sessionId
  playerId : (env.validatePlayerId e.playerId).ok = true
  built : Built env e.name e.properties origin

/-- A session record whose identity is vetted, if it is active. -/
def Reputed (m : SessionManager) : Prop :=
  m.active = true → Drawn m.sessionId ∧ (env.validatePlayerId m.playerId).ok = true

/-- What a call of `admit_locked` carries for its caller. -/
def Entrusted : AdmitFor → Prop
  | .track .. | .endSession => True
  | .replaceEnd playerId previous =>
    (env.validatePlayerId playerId).ok = true ∧ Reputed env previous
  | .start _ _ previous => Reputed env previous

/-- What is carried inside the admission lock. -/
def Brought : Admission → Prop
  | .producer _ (.startTerminal playerId) | .producer _ (.startReserve playerId)
  | .producer _ (.startRoom playerId) => (env.validatePlayerId playerId).ok = true
  | .producer _ (.startBegin playerId _ previous) =>
    (env.validatePlayerId playerId).ok = true ∧ Reputed env previous
  | .producer _ (.gate k name properties) | .producer _ (.capacity k name properties)
  | .producer _ (.room k name properties) => Entrusted env k ∧ Built env name properties k.origin
  | .producer _ (.reserve k qe) | .producer _ (.push k qe) | .producer _ (.undo k qe) =>
    Entrusted env k ∧ Vetted env k.origin qe.event
  | .producer _ (.count k) => Entrusted env k
  | _ => True

/-- What is carried to the admission lock. -/
def Waiting : Caller → Prop
  | .startLock playerId => (env.validatePlayerId playerId).ok = true
  | .trackFilter name properties _ =>
    (env.validateName name).ok = true ∧ (env.validateProperties properties).ok = true
  | .trackLock name _ filtered _ => Built env name filtered .track
  | _ => True

/-- **The contents of events are vetted** wherever they are. -/
structure Vetting (s : State) : Prop where
  record : Reputed env s.client.session
  slot : Brought env s.client.admission
  accepted : ∀ a ∈ s.history.accepted, Vetted env a.origin a.qe.event

end Vetted

variable {env : Env} {i : Input} {s s' : State} {t : Tid}

theorem reputed_of_inactive {m : SessionManager} (h : m.active = false) : Reputed env m :=
  fun ha => by
    rw [h] at ha
    cases ha

/-- A failure goes back to a record that is vetted. -/
theorem Reputed.fallback {k : AdmitFor} {m : SessionManager} (h : Reputed env m)
    (hk : Entrusted env k) : Reputed env (k.fallback m) := by
  cases k with
  | track name ps => exact h
  | endSession => exact h
  | replaceEnd p previous => exact hk.2
  | start p replacing previous =>
    cases replacing with
    | true => exact reputed_of_inactive rfl
    | false => exact hk

theorem Reputed.rollback {m : SessionManager} (h : Reputed env m) (sid : String) (n : Nat) :
    Reputed env (m.rollback sid n) := by
  unfold SessionManager.rollback
  split <;> exact h

theorem ne_empty_of_fresh {uuid : String} (h : Client.fresh s uuid = true) : uuid ≠ "" := by
  simp only [Client.fresh, Bool.and_eq_true, decide_eq_true_eq] at h
  exact (sqlLength_pos.mp h.1).1

/-! ### A producer -/

theorem Vetting.fails {x : State} {k : AdmitFor} {status : Status} (hok : status.ok = false)
    (hrecord : Reputed env x.client.session) (hk : Entrusted env k)
    (haccepted : ∀ a ∈ x.history.accepted, Vetted env a.origin a.qe.event) :
    Vetting env (Client.resume x t k status) := by
  rw [Client.resume_of_fail hok]
  exact ⟨hrecord.fallback hk, trivial, haccepted⟩

/-- The end marker is built here. -/
theorem Vetting.endSessionLocked {k : AdmitFor} (hi : Vetting env s) (hk : Entrusted env k)
    (horigin : k.origin = .finish) : Vetting env (Client.endSessionLocked env i s t k) := by
  unfold Client.endSessionLocked
  split
  · exact .fails rfl hi.record hk hi.accepted
  · rename_i duration hduration
    refine ⟨hi.record, ⟨hk, ?_⟩, hi.accepted⟩
    rw [horigin]
    exact ⟨rfl, duration, rfl⟩

/-- The event is built here, from what was carried and from the session record. -/
theorem Vetting.room {k : AdmitFor} {name : String} {ps : Properties} (hi : Vetting env s)
    (hadm : s.client.admission = .producer t (.room k name ps)) (hdraw : i.uuid = "" ∨ Drawn i.uuid)
    (h : Client.room env i s t k name ps = some s') : Vetting env s' := by
  obtain ⟨hrecord, hslot, haccepted⟩ := hi
  rw [hadm] at hslot
  unfold Client.room at h
  split at h
  · obtain rfl := Option.some.inj h
    exact .fails rfl hrecord hslot.1 haccepted
  split at h
  · obtain rfl := Option.some.inj h
    exact .fails rfl hrecord hslot.1 haccepted
  rename_i sid pid n m hnext
  split at h
  · rename_i hfresh
    obtain rfl := Option.some.inj h
    obtain ⟨hactive, rfl, rfl, rfl, rfl⟩ := SessionManager.next_eq_some.mp hnext
    obtain ⟨hsid, hpid⟩ := hrecord hactive
    have hid := ne_empty_of_fresh hfresh
    exact ⟨fun _ => ⟨hsid, hpid⟩,
      ⟨hslot.1, hdraw.resolve_left hid, rfl, rfl, hsid, hpid, hslot.2⟩, haccepted⟩
  · cases h

theorem Vetting.startRoom {p : String} (hi : Vetting env s)
    (hadm : s.client.admission = .producer t (.startRoom p)) :
    Vetting env (Client.startRoom env i s t p) := by
  have hslot := hi.slot
  rw [hadm] at hslot
  unfold Client.startRoom
  split
  · exact ⟨hi.record, trivial, hi.accepted⟩
  · exact hi.endSessionLocked ⟨hslot, hi.record⟩ rfl

theorem Vetting.endTerminal (hi : Vetting env s) : Vetting env (Client.endTerminal env i s t) := by
  simp only [Client.endTerminal]
  split
  · exact ⟨hi.record, trivial, hi.accepted⟩
  · exact hi.endSessionLocked trivial rfl

theorem entrusted_of_fails {pc : AdmitPc} {k : AdmitFor} (h : Fails env s pc k)
    (hslot : Brought env (.producer t pc)) (hrecord : Reputed env s.client.session) :
    Entrusted env k := by
  cases h with
  | startRoom => exact ⟨hslot, hrecord⟩
  | endTerminal => trivial
  | gate | capacity | room => exact hslot.1

/-- A success leaves a record that is vetted. -/
theorem Vetting.counts {x : State} {k : AdmitFor} (hrecord : Reputed env x.client.session)
    (hk : Entrusted env k) (haccepted : ∀ a ∈ x.history.accepted, Vetted env a.origin a.qe.event) :
    Vetting env (Client.resume x t k {}) := by
  rw [Client.resume_of_ok]
  refine ⟨?_, ?_, haccepted⟩
  · cases k with
    | track | start => exact hrecord
    | endSession | replaceEnd => exact reputed_of_inactive x.client.session.end_active
  · cases k with
    | track | start | endSession => trivial
    | replaceEnd p previous => exact hk

/-- **A producer keeps the contents vetted.** -/
theorem vetting_admitStep {pc : AdmitPc} (hi : Vetting env s)
    (hadm : s.client.admission = .producer t pc) (hdraw : i.uuid = "" ∨ Drawn i.uuid)
    (h : Client.admitStep env i s t pc = some s') : Vetting env s' := by
  have ⟨hrecord, hslot, haccepted⟩ := hi
  rw [hadm] at hslot
  cases Client.admitStep_inside h with
  | moves hl =>
    cases hl with
    | ending =>
      rw [← Option.some.inj h]
      exact hi.startRoom hadm
    | finishing =>
      rw [← Option.some.inj h]
      exact hi.endTerminal
    | opening => exact ⟨hrecord, ⟨hslot, hrecord⟩, haccepted⟩
    | flushing => exact ⟨hrecord, trivial, haccepted⟩
    | replacing | reserved | gated | covered | overflow => exact ⟨hrecord, hslot, haccepted⟩
  | refuses => exact ⟨hrecord, trivial, haccepted⟩
  | fails hf hok => exact .fails hok hrecord (entrusted_of_fails hf hslot hrecord) haccepted
  | begins hfresh =>
    have hid := ne_empty_of_fresh hfresh
    exact ⟨fun _ => ⟨hdraw.resolve_left hid, hslot.1⟩, ⟨hslot.2, rfl, rfl⟩, haccepted⟩
  | builds => exact hi.room hadm hdraw h
  | reserves => exact ⟨hrecord, hslot, haccepted⟩
  | pushes =>
    refine ⟨hrecord, hslot.1, fun a ha => ?_⟩
    rcases List.mem_append.mp ha with ha | ha
    · exact haccepted a ha
    · rw [List.mem_singleton.mp ha]
      exact hslot.2
  | @undoes k qe => exact .fails rfl (hrecord.rollback _ _) hslot.1 haccepted
  | counts => exact .counts hrecord hslot haccepted
  | flushBarrier | flushToken => exact ⟨hrecord, trivial, haccepted⟩

/-! ### The way to the lock -/

/-- Outside the lock, what is brought into it was waiting for it. -/
theorem vetting_beside (hi : Vetting env s) (hw : ∀ t, Waiting env (s.callers t))
    (h : Beside s s') : Vetting env s' := by
  refine ⟨?_, ?_, by rw [h.accepted]; exact hi.accepted⟩
  · rcases h.session with heq | ⟨-, -, heq⟩
    · rw [heq]
      exact hi.record
    · exact reputed_of_inactive (by rw [heq]; rfl)
  · rcases h.slot with heq | ⟨-, hadm⟩ | ⟨-, hadm⟩ | ⟨t, pc, -, hadm, he, -⟩
    · rw [heq]
      exact hi.slot
    · rw [hadm]
      trivial
    · rw [hadm]
      trivial
    · rw [hadm]
      have hwait := hw t
      cases he with
      | start hc =>
        rw [hc] at hwait
        exact hwait
      | track hc =>
        rw [hc] at hwait
        exact ⟨trivial, hwait⟩
      | finish | flush => trivial

theorem waiting_of_call {c : Caller} (h : c.call = none) : Waiting env c := by
  cases c <;> trivial

/-- **What waits for the lock has been validated**, and filtered. -/
theorem waiting_step {l : Label} (hr : (machine env).Reach s) (hw : ∀ t, Waiting env (s.callers t))
    (h : step env s l = some s') (t : Tid) : Waiting env (s'.callers t) := by
  by_cases hl : l.thread = some t
  swap
  · rw [callers_of_other hr hl h]
    exact hw t
  cases l with
  | worker i => cases hl
  | call u op =>
    obtain rfl := Option.some.inj hl
    have hcall : Client.call env s u op = some s' := h
    unfold Client.call at hcall
    split at hcall
    · cases hcall
    cases op with
    | startSession p =>
      obtain rfl := Option.some.inj hcall
      split
      · exact waiting_of_call (call_move rfl)
      · rename_i hok
        rw [move_callers]
        exact eq_true_of_ne_false hok
    | endSession | track =>
      obtain rfl := Option.some.inj hcall
      rw [move_callers]
      trivial
    | flush =>
      obtain rfl := Option.some.inj hcall
      split <;> exact waiting_of_call (call_move rfl)
    | shutdown | waitForWorkerExit =>
      obtain rfl := Option.some.inj hcall
      exact waiting_of_call (call_move (by split <;> rfl))
    | setConsent state =>
      obtain rfl := Option.some.inj hcall
      exact waiting_of_call (call_move rfl)
    | destroy =>
      dsimp only at hcall
      split at hcall
      · cases hcall
      · obtain rfl := Option.some.inj hcall
        exact waiting_of_call (call_move rfl)
  | caller u i =>
    obtain rfl := Option.some.inj hl
    have hwait := hw u
    rcases Client.call_of_step h with hnone | ⟨name, ps, hc, rfl⟩ | ⟨name, ps, g, hc, rfl⟩
    · exact waiting_of_call hnone
    · unfold Client.trackEnter
      dsimp only
      split
      · exact waiting_of_call (call_move rfl)
      rename_i hname
      split
      · exact waiting_of_call (call_move rfl)
      rename_i hprops
      rw [move_callers]
      exact ⟨eq_true_of_ne_false hname, eq_true_of_ne_false hprops⟩
    · rw [hc] at hwait
      rw [Client.trackFilter, move_callers]
      exact ⟨hwait.1, ps, i, hwait.2, rfl⟩

/-- **The invariant**: the contents of events are vetted on their whole way. -/
structure Traced (env : Env) (s : State) : Prop extends Vetting env s where
  waiting : ∀ t, Waiting env (s.callers t)

theorem traced_start (h : (machine env).start s) : Traced env s := by
  obtain ⟨db, m, earlier, rfl⟩ := start_eq h
  exact ⟨⟨reputed_of_inactive rfl, trivial, fun a ha => absurd ha List.not_mem_nil⟩,
    fun t => trivial⟩

/-- **Every step keeps the contents vetted**, if identifiers are drawn. -/
theorem traced_step {l : Label} (hr : (machine env).Reach s) (hi : Traced env s) (hdraw : l.draws)
    (h : step env s l = some s') : Traced env s' := by
  refine ⟨?_, waiting_step hr hi.waiting h⟩
  rcases admission_of_step hr h with hb | ⟨t, i, pc, rfl, -, hadm, hstep⟩
  · exact vetting_beside hi.toVetting hi.waiting hb
  · exact vetting_admitStep hi.toVetting hadm hdraw hstep

end PlayerTrace
