import PlayerTrace.Refine.Worker

/-!
# Callers move custody

The steps of the public interface, seen as moves of custody. Flushes, shutdowns and
waits leave it alone; a producer's steps are those of `admit_locked`; the steps of
`set_consent` are the revocation and the grant. `PlayerTrace.step_moves` puts them
together with the worker's: **every step of a client is one move of custody, or none**,
and `PlayerTrace.custody_reachable` is the rule by which a property of custody is proved of
every reachable client.
-/

namespace PlayerTrace

variable {env : Env} {i : Input} {s s' : State} {t : Tid}

namespace Client

/-! ### What a step leaves behind -/

@[simp] theorem custody_move (c : Caller) : custody (s.move t c) = custody s := rfl

@[simp] theorem custody_return (op : Op) (st : Status) : custody (return_ s t op st) = custody s :=
  rfl

theorem custody_resume (k : AdmitFor) (st : Status) :
    custody (resume s t k st) = { custody s with entry := .out } := by
  unfold resume
  repeat' split
  all_goals rfl

theorem custody_shutdownDone (d : Bool) (st : Status) :
    custody (shutdownDone s t d st) = custody s := by
  cases d <;> rfl

theorem fresh_iff {uuid : String} :
    fresh s uuid = true ↔ 0 < sqlLength uuid ∧ uuid ∉ s.history.used := by
  simp [fresh]

/-! ### Under the admission lock -/

theorem gate_moves {k : AdmitFor} {name : String} {ps : Properties} :
    Moves env (proceed s t (.gate k name ps))
      (gate (proceed s t (.gate k name ps)) t k name ps) := by
  unfold gate
  dsimp only
  split
  · exact Or.inl (custody_resume k _)
  split
  · exact Or.inl (custody_resume k _)
  split
  · exact Or.inl (custody_resume k _)
  · rename_i hc
    split
    · exact Or.inl (custody_resume k _)
    · exact Or.inr (.gate rfl (not_not.mp hc))

theorem capacity_moves {k : AdmitFor} {name : String} {ps : Properties} :
    Moves env (proceed s t (.capacity k name ps))
      (capacity env (proceed s t (.capacity k name ps)) t k name ps) := by
  refine Or.inr ?_
  unfold capacity
  split
  · rw [custody_resume]
    exact .giveUp (Or.inl rfl)
  · rename_i hcap
    exact .check rfl (Nat.lt_of_not_le hcap)

theorem room_moves {k : AdmitFor} {name : String} {ps : Properties}
    (h : room env i (proceed s t (.room k name ps)) t k name ps = some s') :
    Moves env (proceed s t (.room k name ps)) s' := by
  refine Or.inr ?_
  unfold room at h
  split at h
  · obtain rfl := Option.some.inj h
    rw [custody_resume]
    exact .giveUp (Or.inr rfl)
  split at h
  · obtain rfl := Option.some.inj h
    rw [custody_resume]
    exact .giveUp (Or.inr rfl)
  · split at h
    · rename_i hf
      obtain rfl := Option.some.inj h
      obtain ⟨hne, hnew⟩ := fresh_iff.mp hf
      exact .build rfl rfl rfl hne hnew
    · cases h

theorem push_moves {k : AdmitFor} {qe : QueuedEvent} :
    Moves env (proceed s t (.push k qe)) (push env (proceed s t (.push k qe)) t k qe) := by
  unfold push
  split
  · rename_i q hq
    obtain ⟨-, rfl⟩ := EventQueue.tryPush_eq_some.mp hq
    exact Or.inr (.push k.origin rfl)
  · exact Or.inr (.overflow rfl)

theorem undo_moves {k : AdmitFor} {qe : QueuedEvent} :
    Moves env (proceed s t (.undo k qe)) (undo (proceed s t (.undo k qe)) t k qe) := by
  refine Or.inr ?_
  unfold undo
  dsimp only
  rw [custody_resume]
  exact .undo rfl

theorem count_moves {k : AdmitFor} :
    Moves env (proceed s t (.count k)) (count (proceed s t (.count k)) t k) := by
  refine Or.inr ?_
  unfold count
  rw [custody_resume]
  exact .countAccepted rfl

theorem custody_endSessionLocked {k : AdmitFor} (h : (custody s).entry = .out) :
    custody (endSessionLocked env i s t k) = custody s := by
  have hout : { custody s with entry := .out } = custody s := by rw [← h]
  unfold endSessionLocked
  split
  · rw [custody_resume, hout]
  · exact hout

theorem startRoom_moves {p : String} :
    Moves env (proceed s t (.startRoom p)) (startRoom env i (proceed s t (.startRoom p)) t p) := by
  refine Or.inl ?_
  unfold startRoom
  split
  · rfl
  · exact custody_endSessionLocked rfl

theorem startBegin_moves {p : String} {replacing : Bool} {previous : SessionManager}
    (h : startBegin i (proceed s t (.startBegin p replacing previous)) t p replacing previous =
      some s') : Moves env (proceed s t (.startBegin p replacing previous)) s' := by
  unfold startBegin at h
  split at h
  · rename_i hf
    obtain rfl := Option.some.inj h
    obtain ⟨hne, hnew⟩ := fresh_iff.mp hf
    exact Or.inr (.identify hne hnew)
  · cases h

theorem endTerminal_moves :
    Moves env (proceed s t .endTerminal) (endTerminal env i (proceed s t .endTerminal) t) := by
  refine Or.inl ?_
  unfold endTerminal
  dsimp only
  split
  · rfl
  · exact custody_endSessionLocked rfl

theorem admitStep_moves {pc : AdmitPc} (hadm : s.client.admission = .producer t pc)
    (h : admitStep env i s t pc = some s') : Moves env s s' := by
  have hs : proceed s t pc = s := by
    unfold proceed
    rw [← hadm]
  rw [← hs] at h ⊢
  cases pc with
  | startTerminal p =>
    obtain rfl := Option.some.inj h
    refine Or.inl ?_
    unfold startTerminal
    dsimp only
    split
    · rfl
    · split <;> rfl
  | startReserve p =>
    obtain rfl := Option.some.inj h
    refine Or.inl ?_
    unfold startReserve
    split <;> rfl
  | startRoom p => obtain rfl := Option.some.inj h; exact startRoom_moves
  | startBegin p replacing previous => exact startBegin_moves h
  | endTerminal => obtain rfl := Option.some.inj h; exact endTerminal_moves
  | gate k name ps => obtain rfl := Option.some.inj h; exact gate_moves
  | capacity k name ps => obtain rfl := Option.some.inj h; exact capacity_moves
  | room k name ps => exact room_moves h
  | reserve k qe => obtain rfl := Option.some.inj h; exact Or.inr (.reserve rfl)
  | push k qe => obtain rfl := Option.some.inj h; exact push_moves
  | undo k qe => obtain rfl := Option.some.inj h; exact undo_moves
  | count k => obtain rfl := Option.some.inj h; exact count_moves
  | flushTerminal =>
    obtain rfl := Option.some.inj h
    refine Or.inl ?_
    unfold flushTerminal
    dsimp only
    split <;> rfl
  | flushBarrier => obtain rfl := Option.some.inj h; exact Or.inl rfl
  | flushToken b => obtain rfl := Option.some.inj h; exact Or.inl rfl

/-! ### Under the consent lock -/

theorem clear_moves {st : ConsentState} :
    Moves env (proceedConsent s t st .clear) (clear (proceedConsent s t st .clear) t st) :=
  Or.inr (.clear rfl)

theorem storeFree_locked (h : s.storeFree = true) : (custody s).stage.locked = false := by
  rw [show (custody s).stage.locked = s.frame.pc.holdsStore from stageOf_locked _]
  simpa [State.storeFree] using h

theorem mark_moves {st : ConsentState}
    (h : mark i (proceedConsent s t st .mark) t st = some s') :
    Moves env (proceedConsent s t st .mark) s' := by
  obtain ⟨res, db, hres⟩ : ∃ res db, markRevocationPending i.faults
      (proceedConsent s t st .mark).pipeline.store = (res, db) := ⟨_, _, rfl⟩
  unfold mark at h
  split at h
  · rename_i hfree
    rw [hres] at h
    dsimp only at h
    obtain rfl := Option.some.inj h
    rcases markRevocationPending_cases hres with ⟨hok, hev, hm, hsaved⟩ | ⟨hok, rfl⟩
    · rw [if_neg (by simp [hok])]
      exact Or.inr (.mark rfl (storeFree_locked hfree) hev hm hsaved)
    · rw [if_pos hok]
      exact Or.inr (.fail (Or.inl rfl))
  · cases h

theorem purge_moves {st : ConsentState}
    (h : purge i (proceedConsent s t st .purge) t st = some s') :
    Moves env (proceedConsent s t st .purge) s' := by
  obtain ⟨res, n, db, hres⟩ : ∃ res n db, purgeAndClearRevocation i.faults
      (proceedConsent s t st .purge).pipeline.store = (res, n, db) := ⟨_, _, _, rfl⟩
  unfold purge at h
  split at h
  · rename_i hfree
    rw [hres] at h
    dsimp only at h
    obtain rfl := Option.some.inj h
    rcases purgeAndClearRevocation_cases hres with ⟨hok, hv, hsaved, -⟩ | ⟨hok, rfl, -⟩
    · rw [if_neg (by simp [hok])]
      exact Or.inr (.purgeAll rfl (storeFree_locked hfree) hv hsaved)
    · rw [if_pos hok]
      simp only [Database.gone_self, List.append_nil]
      exact Or.inr (.fail (Or.inr rfl))
  · cases h

theorem reset_moves {st : ConsentState} :
    Moves env (proceedConsent s t st .reset) (reset (proceedConsent s t st .reset) t st) := by
  have key : Custody.Step env (custody (proceedConsent s t st .reset)) _ := .settle rfl
  refine Or.inr ?_
  unfold reset
  dsimp only
  by_cases hst : st = ConsentState.granted
  · simp only [hst, if_true] at key ⊢
    exact key
  · simp only [hst, if_false] at key ⊢
    simp only [leaveConsent, hst, if_false]
    exact key

theorem consentStep_moves {st : ConsentState} {pc : ConsentPc}
    (hsec : s.client.consentSection = .held t st pc)
    (h : consentStep i s t st pc = some s') : Moves env s s' := by
  have hs : proceedConsent s t st pc = s := by
    unfold proceedConsent
    rw [← hsec]
  rw [← hs] at h ⊢
  cases pc with
  | store =>
    simp only [consentStep, store] at h
    split at h
    · cases h
    · rename_i hfree
      obtain rfl := Option.some.inj h
      have hout : (custody (proceedConsent s t st .store)).entry = .out :=
        congrArg entryOf (not_not.mp hfree)
      exact Or.inr (.revoke rfl hout)
  | bump => obtain rfl := Option.some.inj h; exact Or.inr (.bump rfl)
  | clear => obtain rfl := Option.some.inj h; exact clear_moves
  | countCleared n => obtain rfl := Option.some.inj h; exact Or.inr (.countCleared rfl)
  | deactivate => obtain rfl := Option.some.inj h; exact Or.inr (.owe rfl)
  | discard => obtain rfl := Option.some.inj h; exact Or.inr (.discardRetry rfl)
  | countDiscarded n => obtain rfl := Option.some.inj h; exact Or.inr (.countDiscarded rfl)
  | forget => obtain rfl := Option.some.inj h; exact Or.inr (.unlock rfl)
  | mark => exact mark_moves h
  | purge => exact purge_moves h
  | reset => obtain rfl := Option.some.inj h; exact reset_moves
  | grant =>
    simp only [consentStep, grant] at h
    split at h
    · cases h
    · rename_i hfree
      obtain rfl := Option.some.inj h
      have hout : (custody (proceedConsent s t st .grant)).entry = .out :=
        congrArg entryOf (not_not.mp hfree)
      exact Or.inr (.grant rfl hout)

/-! ### Outside the two locks -/

theorem custody_lock {pc : AdmitPc} (hfree : s.client.admission = .free)
    (hpc : entryOf (.producer t pc) = .out) : custody (lockAdmission s t pc) = custody s := by
  have hout : { custody s with entry := .out } = custody s := by
    rw [show Entry.out = (custody s).entry from (congrArg entryOf hfree).symm]
  rw [← hout, ← hpc]
  rfl

theorem custody_prunePassResults : custody (prunePassResults s) = custody s := by
  simp only [custody, prunePassResults]

theorem custody_flushWait {token barrier : Nat} (h : flushWait i s t token barrier = some s') :
    custody s' = custody s := by
  unfold flushWait at h
  split at h
  · obtain rfl := Option.some.inj h
    rw [custody_move, custody_prunePassResults]
  · split at h
    · obtain rfl := Option.some.inj h
      rfl
    · cases h

theorem custody_shutdownWait {d : Bool} {token : Nat} (h : shutdownWait i s t d token = some s') :
    custody s' = custody s := by
  unfold shutdownWait at h
  split at h
  · obtain rfl := Option.some.inj h
    rw [custody_move, custody_prunePassResults]
  · split at h
    · obtain rfl := Option.some.inj h
      rfl
    · cases h

theorem custody_shutdownJoin {d : Bool} {st : Status} (h : shutdownJoin i s t d st = some s') :
    custody s' = custody s := by
  unfold shutdownJoin at h
  split at h
  · obtain rfl := Option.some.inj h
    rfl
  · split at h
    · obtain rfl := Option.some.inj h
      exact custody_shutdownDone d _
    · cases h

theorem custody_exitJoin (h : exitJoin i s t = some s') : custody s' = custody s := by
  unfold exitJoin at h
  split at h
  · obtain rfl := Option.some.inj h
    rfl
  · split at h
    · obtain rfl := Option.some.inj h
      rfl
    · cases h

theorem custody_shutdownTerminal {d : Bool} {st : Status} :
    custody (shutdownTerminal s t d st) = custody s := by
  unfold shutdownTerminal
  split
  · exact custody_shutdownDone d _
  · split
    · exact custody_shutdownDone d _
    · exact custody_shutdownDone d _

theorem custody_trackEnter {name : String} {ps : Properties} :
    custody (trackEnter env s t name ps) = custody s := by
  unfold trackEnter
  dsimp only
  split
  · rfl
  · split <;> rfl

theorem consentLock_moves {st : ConsentState} (h : consentLock s t st = some s') :
    Moves env s s' := by
  unfold consentLock at h
  split at h
  · cases h
  · rename_i hfree
    obtain rfl := Option.some.inj h
    exact Or.inr (.enter (congrArg revocationOf (not_not.mp hfree)) rfl)

/-- A step that takes the admission lock, or returns at once for the reason `c`. -/
theorem lock_moves {c : Prop} [Decidable c] {x : State} {pc : AdmitPc}
    (h : (if s.client.admission ≠ .free then none
      else if c then some x else some (lockAdmission s t pc)) = some s')
    (hx : custody x = custody s) (hpc : entryOf (.producer t pc) = .out) : Moves env s s' := by
  split at h
  · cases h
  rename_i hfree
  split at h
  · obtain rfl := Option.some.inj h
    exact Or.inl hx
  · obtain rfl := Option.some.inj h
    exact Or.inl (custody_lock (not_not.mp hfree) hpc)

/-- A step that needs the admission lock for its own length only. -/
theorem of_free {x : State} (h : (if s.client.admission ≠ .free then none else some x) = some s')
    (hx : custody x = custody s) : custody s' = custody s := by
  split at h
  · cases h
  · obtain rfl := Option.some.inj h
    exact hx

/-- **Every step of a caller moves custody.** -/
theorem step_moves (h : step env i s t = some s') : Moves env s s' := by
  unfold step at h
  generalize s.callers t = caller at h
  cases caller with
  | idle => cases h
  | done o => cases h
  | admitting =>
    dsimp only at h
    split at h
    · rename_i t' pc hadm
      split at h
      · rename_i ht
        exact admitStep_moves (ht ▸ hadm) h
      · cases h
    · cases h
  | consenting =>
    dsimp only at h
    split at h
    · rename_i t' st pc hsec
      split at h
      · rename_i ht
        exact consentStep_moves (ht ▸ hsec) h
      · cases h
    · cases h
  | startLock p =>
    simp only [startLock] at h
    split at h
    · cases h
    rename_i hfree
    split at h
    · obtain rfl := Option.some.inj h
      exact Or.inl rfl
    split at h
    · obtain rfl := Option.some.inj h
      exact Or.inl rfl
    · obtain rfl := Option.some.inj h
      exact Or.inl (custody_lock (not_not.mp hfree) rfl)
  | endLock => exact lock_moves h rfl rfl
  | trackEnter name ps => obtain rfl := Option.some.inj h; exact Or.inl custody_trackEnter
  | trackFilter name ps g => obtain rfl := Option.some.inj h; exact Or.inl rfl
  | trackLock name ps filtered g => exact lock_moves h rfl rfl
  | flushLock => exact lock_moves h rfl rfl
  | flushWait token b => exact Or.inl (custody_flushWait h)
  | shutdownLock d =>
    simp only [shutdownLock] at h
    split at h
    · cases h
    split at h
    · obtain rfl := Option.some.inj h
      exact Or.inl (custody_shutdownDone _ _)
    · obtain rfl := Option.some.inj h
      exact Or.inl rfl
  | shutdownCancel d => obtain rfl := Option.some.inj h; exact Or.inl rfl
  | shutdownOrdinal d => exact Or.inl (of_free h rfl)
  | shutdownBarrier d b => obtain rfl := Option.some.inj h; exact Or.inl rfl
  | shutdownToken d b => obtain rfl := Option.some.inj h; exact Or.inl rfl
  | shutdownWait d token => exact Or.inl (custody_shutdownWait h)
  | shutdownStop d st => obtain rfl := Option.some.inj h; exact Or.inl rfl
  | shutdownJoin d st => exact Or.inl (custody_shutdownJoin h)
  | shutdownMark d st => exact Or.inl (of_free h rfl)
  | shutdownTerminal d st =>
    obtain rfl := Option.some.inj h
    exact Or.inl custody_shutdownTerminal
  | destroyStop => obtain rfl := Option.some.inj h; exact Or.inl rfl
  | destroyCancel => obtain rfl := Option.some.inj h; exact Or.inl rfl
  | destroyJoin =>
    simp only [destroyJoin] at h
    split at h
    · obtain rfl := Option.some.inj h
      exact Or.inl rfl
    · cases h
  | ownClose =>
    refine Or.inl (of_free h ?_)
    split <;> rfl
  | ownStop => obtain rfl := Option.some.inj h; exact Or.inl rfl
  | exitJoin => exact Or.inl (custody_exitJoin h)
  | exitMark =>
    refine Or.inl (of_free h ?_)
    split <;> rfl
  | consentLock st => exact consentLock_moves h

theorem call_moves {op : Op} (h : call env s t op = some s') : Moves env s s' := by
  refine Or.inl ?_
  unfold call at h
  split at h
  · cases h
  cases op with
  | startSession p =>
    obtain rfl := Option.some.inj h
    split <;> rfl
  | endSession => obtain rfl := Option.some.inj h; rfl
  | track name ps => obtain rfl := Option.some.inj h; rfl
  | flush =>
    obtain rfl := Option.some.inj h
    split <;> rfl
  | shutdown => obtain rfl := Option.some.inj h; rfl
  | waitForWorkerExit => obtain rfl := Option.some.inj h; rfl
  | setConsent st => obtain rfl := Option.some.inj h; rfl
  | destroy =>
    dsimp only at h
    split at h
    · cases h
    · obtain rfl := Option.some.inj h
      rfl

end Client

/-- **Every step of a client is one move of custody, or none.** -/
theorem step_moves {l : Label} (h : step env s l = some s') : Moves env s s' := by
  cases l with
  | worker i => exact Worker.step_moves h
  | call t op => exact Client.call_moves h
  | caller t i => exact Client.step_moves h

/-! ### The whole client -/

theorem revocationPending_eq_ok {φ : Faults} {db : Database} {owed : Bool}
    (h : revocationPending φ db = .ok owed) : owed = db.marker := by
  unfold revocationPending at h
  split at h
  · cases h
  split at h
  · cases h
  split at h
  · cases h
  · exact (Except.ok.inj h).symm

/-- After the purge `create` owes, no revocation is pending, and without consent there is
no row. -/
theorem openPurge_eq_ok {φ : Faults} {db db' : Database}
    (h : openPurge env φ db.marker db = .ok db') :
    (db' = db ∨ db'.view = ⟨.empty, false⟩) ∧ db'.marker = false ∧ db'.saved = db.saved ∧
      (env.config.consent ≠ .granted → db'.rows = []) := by
  unfold openPurge at h
  split at h
  · obtain ⟨st, n, d, hp⟩ : ∃ st n d, purgeAndClearRevocation φ db = (st, n, d) := ⟨_, _, _, rfl⟩
    simp only [hp] at h
    rcases purgeAndClearRevocation_cases hp with ⟨hok, hv, hsaved, -⟩ | ⟨hok, -⟩
    · rw [if_neg (by simp [hok])] at h
      obtain rfl := Except.ok.inj h
      exact ⟨Or.inr hv, by rw [Database.marker, hv], hsaved,
        fun _ => by rw [Database.rows, hv]; rfl⟩
    · rw [if_pos hok] at h
      cases h
  · rename_i howed
    obtain rfl := Except.ok.inj h
    rw [not_or] at howed
    exact ⟨Or.inl rfl, by simpa using howed.1, rfl, fun hc => absurd hc howed.2⟩

/-- **What `create` has established when it returns a client.** -/
theorem create_eq_ok {φ : Fin 4 → Faults} {db : Database} (h : create env φ db = .ok s) :
    ∃ db' m, s = initial env db' db'.rows.length m ∧ (validateConfig env.config).ok = true ∧
      (∀ r ∈ db'.rows, r.ordinal ≤ m) ∧ (db' = db ∨ db'.view = ⟨.empty, false⟩) ∧
      db'.marker = false ∧ db'.saved = db.saved ∧
      (env.config.consent ≠ .granted → db'.rows = []) := by
  unfold create at h
  dsimp only at h
  split at h
  · cases h
  rename_i hvalid
  rcases howed : revocationPending (φ 0) db with e | owed
  · simp [howed, bind, Except.bind] at h
  obtain rfl := revocationPending_eq_ok howed
  rcases hopen : openPurge env (φ 1) db.marker db with e | db'
  · simp [howed, hopen, bind, Except.bind] at h
  rcases hcount : PlayerTrace.count (φ 2) db' with e | n
  · simp [howed, hopen, hcount, bind, Except.bind] at h
  rcases hmax : maxOrdinal (φ 3) db' with e | m
  · simp [howed, hopen, hcount, hmax, bind, Except.bind] at h
  obtain rfl := count_eq_ok hcount
  have hs : initial env db' db'.rows.length m = s := by
    simpa [howed, hopen, hcount, hmax, bind, Except.bind, pure, Except.pure] using h
  obtain ⟨hview, hmark, hsaved, hrows⟩ := openPurge_eq_ok hopen
  exact ⟨db', m, hs.symm, by simpa using hvalid, fun r hr => le_maxOrdinal hmax hr, hview, hmark,
    hsaved, hrows⟩

/-- A client has a valid configuration. -/
theorem valid_of_reach (h : (machine env).Reach s) : (validateConfig env.config).ok = true := by
  obtain ⟨s₁, ⟨φ, db, s₂, earlier, -, hcreate, -⟩, -⟩ := h
  obtain ⟨-, -, -, hvalid, -⟩ := create_eq_ok hcreate
  exact hvalid

theorem start_custody (h : (machine env).start s) : Custody.Start env (custody s) := by
  obtain ⟨φ, db, s₀, earlier, hdb, hcreate, rfl⟩ := h
  obtain ⟨db', m, rfl, -, hord, -, hmark, hsaved, hrows⟩ := create_eq_ok hcreate
  exact
    { queue := rfl, retry := rfl, stage := rfl, due := rfl, entry := rfl, revocation := rfl
      purgeRequired := rfl, consent := rfl, marker := hmark, saved := hsaved.trans hdb
      rows := hrows, ordinal := hord, outstanding := rfl, counts := rfl, raised := rfl
      history := ⟨earlier, rfl⟩ }

/-- How a client starts. -/
theorem start_eq (h : (machine env).start s) :
    ∃ db m earlier, s = (initial env db db.rows.length m).remember earlier := by
  obtain ⟨φ, db, s₀, earlier, -, hcreate, rfl⟩ := h
  obtain ⟨db', m, rfl, -⟩ := create_eq_ok hcreate
  exact ⟨db', m, earlier, rfl⟩

/-- **Custody simulates the client.** -/
theorem machine_simulated :
    (machine env).Simulated custody (Custody.Start env) (Custody.Step env) where
  start _ := start_custody
  step _ _ _ := step_moves

/-- The custody of a reachable client can come about. -/
theorem custody_reachable (h : (machine env).Reach s) : Custody.Reachable env (custody s) :=
  machine_simulated.reachable h

/-- A step of a client preserves what the moves of custody preserve. -/
theorem custody_step {l : Label} {P : Custody → Prop} (hr : (machine env).Reach s)
    (h : step env s l = some s') (hs : P (custody s))
    (hmove : ∀ c', Custody.Reachable env (custody s) → Custody.Step env (custody s) c' → P c') :
    P (custody s') := by
  rcases step_moves h with heq | hm
  · rw [heq]
    exact hs
  · exact hmove _ (custody_reachable hr) hm

end PlayerTrace
