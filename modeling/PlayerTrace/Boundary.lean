import PlayerTrace.Control.Calls
import PlayerTrace.Control.Positions

/-!
# Calls across a revocation

`track` reads the consent generation as its first statement and compares it once it holds the
admission lock, so all it admits carries the generation it was entered under – whatever was
revoked and granted again meanwhile. `start_session` validates the player identifier before it
takes the lock and compares nothing: all it asks for under the lock is consent. A revocation in
that window is noticed, since it withdraws consent – unless consent is granted again before the
call has the lock (`PlayerTrace.start_crosses`).

Such a grant behind a revocation is the only way across (`PlayerTrace.generation_stamped`): as
long as there is none (`PlayerTrace.NoRegrant`), an event that a call admits carries the generation
of its entry, and a call that returns `Ok` with such events has seen none.
-/

namespace PlayerTrace

namespace AdmitPc

/-- The event a producer has built and not pushed. -/
def inHand : AdmitPc → Option QueuedEvent
  | .reserve _ qe | .push _ qe | .undo _ qe => some qe
  | _ => none

/-- The event is pushed and only has to be counted. -/
def counting : AdmitPc → Bool
  | .count _ => true
  | _ => false

/-- The positions of `flush`. -/
def flushing : AdmitPc → Bool
  | .flushTerminal | .flushBarrier | .flushToken _ => true
  | _ => false

end AdmitPc

/-- The step with which a `set_consent(Granted)` takes effect. -/
def Label.grants (s : State) : Label → Bool
  | .caller u _ => decide (s.callers u = .consenting) &&
      match s.client.consentSection with
      | .held v _ pc => decide (v = u) && decide (pc = .grant)
      | .free => false
  | _ => false

/-- **No grant behind a revocation**: while the call of thread `t`, entered under the generation
`g`, waits for the admission lock, consent is not granted again once a revocation has moved the
generation on. -/
def NoRegrant (g : Nat) (t : Tid) (s : State) (l : Label) : Prop :=
  (s.callers t).call.isSome = true → l.grants s = true → s.pipeline.consentGeneration = g

instance (g : Nat) (t : Tid) (s : State) (l : Label) : Decidable (NoRegrant g t s l) :=
  inferInstanceAs (Decidable (_ → _ → _))

/-- **A call whose events carry generations that meet `P`.** Before the lock `W` says what is
known of the generation, unless the call carries one; inside the lock, with consent, the one in
force meets `P`, and so do those of all events so far. -/
inductive Stamps (P : Nat → Prop) (W : State → Prop) (t : Tid) (op : Op) (s : State)
    (pushed : List Admitted) : Prop
  | waiting (hc : (s.callers t).call = some op) (hps : pushed = [])
      (hgen : (∃ g, (s.callers t).carried = some g ∧ P g) ∨ W s)
  | inside {pc : AdmitPc} (hc : s.callers t = .admitting)
      (hadm : s.client.admission = .producer t pc) (hpc : pc.flushing = false)
      (hgen : s.pipeline.consent = .granted → P s.pipeline.consentGeneration)
      (hhand : ∀ qe, pc.inHand = some qe → P qe.consentGeneration)
      (hps : ∀ a ∈ pushed, P a.qe.consentGeneration) (hcount : pc.counting = true → pushed ≠ [])
  | returned {op' : Op} {status : Status} (hc : s.callers t = .done (.status op' status))
      (hps : ∀ a ∈ pushed, P a.qe.consentGeneration) (hok : status.ok = true → pushed ≠ [])

variable {env : Env} {i : Input} {l : Label} {s s' s₀ : State} {t : Tid} {op : Op}
  {pushed : List Admitted} {P : Nat → Prop} {W : State → Prop} {g : Nat}

/-! ### The consent and its generation -/

/-- A producer touches neither. -/
theorem Inside.standing {pc : AdmitPc} (h : Inside env i s t pc s') :
    s'.pipeline.consentGeneration = s.pipeline.consentGeneration ∧
      s'.pipeline.consent = s.pipeline.consent := by
  cases h with
  | fails _ hok =>
    rw [Client.resume_of_fail hok]
    exact ⟨rfl, rfl⟩
  | undoes =>
    rw [Client.undo, Client.resume_of_fail rfl]
    exact ⟨rfl, rfl⟩
  | counts =>
    rw [Client.count, Client.resume_of_ok]
    exact ⟨rfl, rfl⟩
  | moves | refuses | begins | builds | reserves | pushes | flushBarrier | flushToken =>
    exact ⟨rfl, rfl⟩

/-- **The generation changes only while a revocation holds the admission lock**, and by one. -/
theorem generation_cases (hr : (machine env).Reach s) (h : step env s l = some s') :
    s'.pipeline.consentGeneration = s.pipeline.consentGeneration ∨
      (s.client.admission = .consent ∧ s'.pipeline.consent = s.pipeline.consent ∧
        s'.pipeline.consentGeneration = s.pipeline.consentGeneration + 1) := by
  rcases admission_of_step hr h with hb | ⟨u, i, pc, -, -, -, hstep⟩
  · refine hb.generation.imp_right fun ⟨hadm, _, heq⟩ => ⟨hadm, ?_, heq⟩
    exact hb.consent.resolve_right (by simp [hadm])
  · exact Or.inl (Client.admitStep_inside hstep).standing.1

/-- A revocation that holds the admission lock has withdrawn consent. -/
theorem withdrawn_of_consent (hr : (machine env).Reach s)
    (hadm : s.client.admission = .consent) : s.pipeline.consent ≠ .granted := by
  obtain ⟨u, st, pc, hsec, hpc⟩ := (seated_of_reach hr).section_ hadm
  have hg := Custody.gated_of_reachable (custody_reachable hr)
  exact (hg.holder st pc (congrArg revocationOf hsec)).2.2.1 (Or.inl hpc)

/-- Outside the consent lock a caller does not touch the consent. -/
theorem Client.consent_of_step (hc : s.callers t ≠ .consenting)
    (h : Client.step env i s t = some s') : s'.pipeline.consent = s.pipeline.consent := by
  unfold Client.step at h
  generalize hcall : s.callers t = c at h hc
  cases c with
  | idle | done => cases h
  | consenting => exact absurd rfl hc
  | admitting =>
    dsimp only at h
    split at h
    · split at h
      · exact (admitStep_inside h).standing.2
      · cases h
    · cases h
  | _ =>
    simp only [startLock, endLock, trackEnter, trackFilter, trackLock, flushLock, flushWait,
      shutdownLock, shutdownDone, shutdownCancel, shutdownOrdinal, shutdownBarrier, shutdownToken,
      shutdownWait, shutdownStop, shutdownJoin, shutdownMark, shutdownTerminal, destroyStop,
      destroyCancel, destroyJoin, ownClose, ownStop, exitJoin, exitMark, consentLock] at h
    (repeat' split at h) <;>
      first
      | (cases h; done)
      | (obtain rfl := Option.some.inj h; rfl)

/-- **Consent is given by a grant alone.** -/
theorem grants_of_step (hr : (machine env).Reach s) (h : step env s l = some s')
    (hno : s.pipeline.consent ≠ .granted) (hyes : s'.pipeline.consent = .granted) :
    l.grants s = true := by
  have hsame : s'.pipeline.consent = s.pipeline.consent → l.grants s = true :=
    fun heq => absurd (heq ▸ hyes) hno
  cases l with
  | worker i => exact hsame (Worker.step_foreign h).consent
  | call u op =>
    obtain ⟨c, rfl, -⟩ := Client.call_placed h
    exact hsame rfl
  | caller u i =>
    by_cases hc : s.callers u = .consenting
    · have hstep : Client.step env i s u = some s' := h
      have hg := Custody.gated_of_reachable (custody_reachable hr)
      simp only [Client.step, hc] at hstep
      split at hstep
      · rename_i v st pc hsec
        split at hstep
        · rename_i hv
          subst hv
          cases pc with
          | grant => simp [Label.grants, hc, hsec]
          | store =>
            have hst : st ≠ .granted :=
              (hg.holder st .store (congrArg revocationOf hsec)).2.2.2.1 (Or.inr rfl)
            simp only [Client.consentStep, Client.store] at hstep
            split at hstep
            · cases hstep
            · obtain rfl := Option.some.inj hstep
              exact absurd hyes hst
          | _ =>
            refine hsame ?_
            simp only [Client.consentStep, Client.mark, Client.purge, Client.reset] at hstep
            (repeat' split at hstep) <;>
              first
              | (cases hstep; done)
              | (obtain rfl := Option.some.inj hstep; rfl)
        · cases hstep
      · cases hstep
    · exact hsame (Client.consent_of_step hc h)

/-- A step that keeps to the generation `g` does not leave a waiting call with consent under
another one. -/
theorem NoRegrant.step (hr : (machine env).Reach s) (hk : NoRegrant g t s l)
    (hc : (s.callers t).call.isSome = true)
    (hi : s.pipeline.consent = .granted → s.pipeline.consentGeneration = g)
    (h : PlayerTrace.step env s l = some s') (hyes : s'.pipeline.consent = .granted) :
    s'.pipeline.consentGeneration = g := by
  rcases generation_cases hr h with heq | ⟨hadm, hsame, -⟩
  · rw [heq]
    by_cases hcons : s.pipeline.consent = .granted
    · exact hi hcons
    · exact hk hc (grants_of_step hr h hcons hyes)
  · exact absurd (hsame ▸ hyes) (withdrawn_of_consent hr hadm)

/-! ### The steps of others -/

/-- Another thread's step does not move this one. -/
theorem callers_of_other (hr : (machine env).Reach s) (hl : l.thread ≠ some t)
    (h : step env s l = some s') : s'.callers t = s.callers t := by
  rcases course_of_step hr h with ⟨i, -, hw⟩ | ⟨u, hu, haside, -⟩
  · rw [(Worker.step_pass hw).1.callers]
  · refine haside.others t fun hne => hl ?_
    rw [hu, hne]

/-- While a thread is inside the admission lock, all others are beside it. -/
theorem beside_of_other {pc : AdmitPc} (hr : (machine env).Reach s)
    (hadm : s.client.admission = .producer t pc) (hl : l.thread ≠ some t)
    (h : step env s l = some s') : Beside s s' := by
  rcases admission_of_step hr h with hb | ⟨u, i, pc', rfl, -, hadm', -⟩
  · exact hb
  · rw [hadm] at hadm'
    obtain rfl : t = u := by simpa using (Admission.producer.inj hadm').1
    exact absurd rfl hl

theorem Stamps.other (hr : (machine env).Reach s)
    (hW : (s.callers t).call.isSome = true → W s → W s') (h : Stamps P W t op s pushed)
    (hl : l.thread ≠ some t) (hs : step env s l = some s') : Stamps P W t op s' pushed := by
  have hcallers := callers_of_other hr hl hs
  cases h with
  | waiting hc hps hgen =>
    refine .waiting (by rwa [hcallers]) hps (hgen.imp (fun hcar => ?_) (hW (by simp [hc])))
    rwa [hcallers]
  | @inside pc hc hadm hpc hgen hhand hps hcount =>
    have hb := beside_of_other hr hadm hl hs
    have hslot : s'.client.admission = .producer t pc := by
      rcases hb.slot with heq | ⟨hfree, -⟩ | ⟨hcons, -⟩ | ⟨_, _, hfree, -⟩
      · rw [heq, hadm]
      · simp [hadm] at hfree
      · simp [hadm] at hcons
      · simp [hadm] at hfree
    have hconsent : s'.pipeline.consent = s.pipeline.consent :=
      hb.consent.resolve_right (by simp [hadm])
    have hsame : s'.pipeline.consentGeneration = s.pipeline.consentGeneration :=
      (generation_cases hr hs).resolve_right (by simp [hadm])
    refine .inside (by rwa [hcallers]) hslot hpc ?_ hhand hps hcount
    rw [hconsent, hsame]
    exact hgen
  | returned hc hps hok => exact .returned (by rwa [hcallers]) hps hok

/-! ### The call's own steps -/

/-- A step that pushes nothing adds nothing to the record. -/
theorem Stamps.still (hacc : s'.history.accepted = s.history.accepted)
    (h : Stamps P W t op s' pushed) :
    Stamps P W t op s' (pushed ++ s'.history.accepted.drop s.history.accepted.length) := by
  simpa [hacc] using h

theorem Leads.hand {pc pc' : AdmitPc} (h : Leads env s pc pc') :
    pc'.flushing = pc.flushing ∧ pc'.counting = false ∧
      ∀ qe, pc'.inHand = some qe → pc.inHand = some qe := by
  cases h <;> exact ⟨rfl, rfl, fun _ h => h⟩

/-- Past the gate of `admit_locked` there is consent. -/
theorem granted_of_room {k : AdmitFor} {name : String} {properties : Properties}
    (hr : (machine env).Reach s)
    (hadm : s.client.admission = .producer t (.room k name properties)) :
    s.pipeline.consent = .granted := by
  have hg := Custody.gated_of_reachable (custody_reachable hr)
  refine hg.inside ?_
  rw [show (custody s).entry = entryOf s.client.admission from rfl, hadm]
  rfl

/-- **Inside the lock** every event is stamped with the generation in force. -/
theorem Stamps.inside_step {pc : AdmitPc} (hr : (machine env).Reach s)
    (hc : s.callers t = .admitting) (hadm : s.client.admission = .producer t pc)
    (hpc : pc.flushing = false)
    (hgen : s.pipeline.consent = .granted → P s.pipeline.consentGeneration)
    (hhand : ∀ qe, pc.inHand = some qe → P qe.consentGeneration)
    (hps : ∀ a ∈ pushed, P a.qe.consentGeneration) (hcount : pc.counting = true → pushed ≠ [])
    (h : Inside env i s t pc s') :
    Stamps P W t op s' (pushed ++ s'.history.accepted.drop s.history.accepted.length) := by
  have hno : ∀ {status : Status}, status.ok = false → status.ok = true → pushed ≠ [] :=
    fun h₁ h₂ => absurd h₂ (by simp [h₁])
  cases h with
  | moves hl =>
    obtain ⟨hflush, hcnt, hin⟩ := hl.hand
    exact .still rfl (.inside hc rfl (hflush.trans hpc) hgen (fun qe hqe => hhand qe (hin qe hqe))
      hps (fun h => absurd h (by simp [hcnt])))
  | refuses _ hok => exact .still rfl (.returned (move_callers _) hps (hno hok))
  | fails _ hok =>
    rw [Client.resume_of_fail hok]
    exact .still rfl (.returned (move_callers _) hps (hno hok))
  | begins =>
    exact .still rfl (.inside hc rfl rfl hgen (by simp [AdmitPc.inHand]) hps
      (by simp [AdmitPc.counting]))
  | builds _ _ _ _ hstamp =>
    -- the generation is read here, behind the gate that asked for consent
    refine .still rfl (.inside hc rfl rfl hgen (fun qe hqe => ?_) hps (by simp [AdmitPc.counting]))
    obtain rfl := Option.some.inj hqe
    rw [hstamp]
    exact hgen (granted_of_room hr hadm)
  | reserves => exact .still rfl (.inside hc rfl rfl hgen hhand hps (by simp [AdmitPc.counting]))
  | @pushes k qe =>
    have hnew : (s.history.accepted ++ [(⟨qe, k.origin⟩ : Admitted)]).drop
        s.history.accepted.length = [⟨qe, k.origin⟩] := List.drop_left
    refine .inside hc rfl rfl hgen (by simp [AdmitPc.inHand]) (fun a ha => ?_) fun _ => ?_
    · rcases List.mem_append.mp ha with ha | ha
      · exact hps a ha
      · have ha : a ∈ [(⟨qe, k.origin⟩ : Admitted)] := hnew ▸ ha
        rw [List.mem_singleton.mp ha]
        exact hhand qe rfl
    · exact List.append_ne_nil_of_right_ne_nil _ (by simp [Client.proceed])
  | undoes =>
    rw [Client.undo, Client.resume_of_fail rfl]
    exact .still rfl (.returned (move_callers _) hps (hno rfl))
  | @counts k =>
    rw [Client.count, Client.resume_of_ok]
    cases k with
    | replaceEnd p previous =>
      -- the end of the old session; the start of the new one is still to come
      exact .still rfl (.inside ((move_callers _).trans hc) rfl
        rfl hgen (by simp [AdmitPc.inHand]) hps (by simp [AdmitPc.counting]))
    | track | endSession | start =>
      exact .still rfl (.returned (move_callers _) hps fun _ => hcount rfl)
  | flushBarrier | flushToken => cases hpc

/-- A call takes the lock with nothing in hand. -/
theorem Enters.plain {pc : AdmitPc} (he : Enters s t pc) (hc : (s.callers t).call = some op) :
    pc.flushing = false ∧ pc.inHand = none ∧ pc.counting = false := by
  cases he with
  | start | finish | track => exact ⟨rfl, rfl, rfl⟩
  | flush hcall =>
    rw [hcall] at hc
    cases hc

/-- What is known of the generation in force when the lock is taken: `track` has compared it. -/
theorem Enters.generation {pc : AdmitPc} (he : Enters s t pc)
    (hW : W s → s.pipeline.consent = .granted → P s.pipeline.consentGeneration)
    (hgen : (∃ g, (s.callers t).carried = some g ∧ P g) ∨ W s) :
    s.pipeline.consent = .granted → P s.pipeline.consentGeneration := by
  rcases hgen with ⟨g, hcar, hg⟩ | hw
  · cases he with
    | track hcall heq =>
      rw [hcall] at hcar
      obtain rfl := Option.some.inj hcar
      exact fun _ => heq ▸ hg
    | start hcall | finish hcall | flush hcall =>
      rw [hcall] at hcar
      cases hcar
  · exact hW hw

theorem Stamps.own (hr : (machine env).Reach s) (hmove : ∀ c, W s → W (s.move t c))
    (hW : W s → s.pipeline.consent = .granted → P s.pipeline.consentGeneration)
    (h : Stamps P W t op s pushed) (hs : Client.step env i s t = some s') :
    Stamps P W t op s' (pushed ++ s'.history.accepted.drop s.history.accepted.length) := by
  cases h with
  | waiting hc hps hgen =>
    subst hps
    rcases Client.waiting_cases hc hs with
      ⟨c, rfl, hc', hcar⟩ | ⟨status, hok, rfl⟩ | ⟨pc, -, rfl, he⟩
    · refine .still rfl (.waiting (by rwa [move_callers]) rfl (hgen.imp (fun hg => ?_) (hmove c)))
      rwa [move_callers, hcar]
    · exact .still rfl (.returned (move_callers _) nofun fun h => absurd h (by simp [hok]))
    · obtain ⟨hpc, hhand, hcount⟩ := he.plain hc
      exact .still rfl (.inside (move_callers _) rfl hpc (he.generation hW hgen)
        (fun qe hqe => absurd hqe (by simp [hhand])) nofun fun h => absurd h (by simp [hcount]))
  | inside hc hadm hpc hgen hhand hps hcount =>
    simp only [Client.step, hc, hadm, if_true] at hs
    exact inside_step hr hc hadm hpc hgen hhand hps hcount (Client.admitStep_inside hs)
  | returned hc => simp [Client.step, hc] at hs

/-! ### The whole call -/

/-- What is known after the first statement. -/
theorem First.stamps (hl : First t s₀ op l) (hop : op.admits = true)
    (hfirst : (∃ name properties, op = .track name properties ∧
      P s₀.pipeline.consentGeneration) ∨ ∀ c, W (s₀.move t c))
    (hs : step env s₀ l = some s) : Stamps P W t op s [] := by
  obtain ⟨c, rfl, ⟨hc, hcar⟩ | ⟨status, hok, rfl⟩⟩ := hl.cases hop hs
  · refine .waiting (by rwa [move_callers]) rfl ?_
    rw [move_callers]
    rcases hfirst with ⟨name, properties, hop, hg⟩ | hw
    · exact Or.inl ⟨_, hcar name properties hop, hg⟩
    · exact Or.inr (hw c)
  · exact .returned (move_callers _) nofun fun h => absurd h (by simp [hok])

/-- **The rule**: `W` holds at the entry, or the call carries its generation from there; other
threads preserve `W` while the call waits; and with consent it gives `P`. -/
theorem During.stamps {other : State → Label → Prop} {w : Watched}
    (hr : (machine env).Reach s₀) (hop : op.admits = true)
    (hfirst : (∃ name properties, op = .track name properties ∧
      P s₀.pipeline.consentGeneration) ∨ ∀ c, W (s₀.move t c))
    (hmove : ∀ s c, W s → W (s.move t c))
    (hW : ∀ s, W s → s.pipeline.consent = .granted → P s.pipeline.consentGeneration)
    (hother : ∀ s l s', (machine env).Reach s → other s l → step env s l = some s' →
      (s.callers t).call.isSome = true → W s → W s')
    (h : During env other t op s₀ w) : Stamps P W t op w.state w.pushed :=
  h.rule (P := fun s ps _ => Stamps P W t op s ps) hr hop
    (fun _ _ hl hs => hl.stamps hop hfirst hs)
    (fun s _ _ _ _ hr hi hs => hi.own hr (hmove s) (hW s) hs)
    fun s _ _ l s' hr hi hl hok hs => hi.other hr (hother s l s' hr hok hs) hl hs

/-- What has been pushed meets `P`. -/
theorem Stamps.all (h : Stamps P W t op s pushed) : ∀ a ∈ pushed, P a.qe.consentGeneration := by
  cases h with
  | waiting _ hps => exact fun a ha => absurd ha (by simp [hps])
  | inside _ _ _ _ _ hps => exact hps
  | returned _ hps => exact hps

/-- A call that has returned `Ok` has pushed something. -/
theorem Stamps.pushed_of_ok {status : Status} (h : Stamps P W t op s pushed)
    (hdone : s.callers t = .done (.status op status)) (hok : status.ok = true) : pushed ≠ [] := by
  cases h with
  | waiting hc => simp [hdone, Caller.call] at hc
  | inside hc => simp [hdone] at hc
  | @returned op' status' hc _ hsome =>
    obtain ⟨-, rfl⟩ : op = op' ∧ status = status' := by simpa [hdone] using hc
    exact hsome hok

/-- Before the lock nothing is pushed. -/
theorem Stamps.waits (h : Stamps P W t op s pushed) (hc : (s.callers t).call.isSome = true) :
    (s.callers t).call = some op ∧ pushed = [] := by
  cases h with
  | waiting hcall hps => exact ⟨hcall, hps⟩
  | inside hin => simp [hin, Caller.call] at hc
  | returned hdone => simp [hdone, Caller.call] at hc

/-- The generation only grows. -/
theorem generation_le (hr : (machine env).Reach s) (h : step env s l = some s')
    (hle : g ≤ s.pipeline.consentGeneration) : g ≤ s'.pipeline.consentGeneration := by
  rcases generation_cases hr h with heq | ⟨-, -, heq⟩ <;> omega

/-- The run of a call behind the generation `g`. -/
abbrev Later (g : Nat) : Tid → Op → State → List Admitted → Prop :=
  Stamps (g < ·) fun s => g < s.pipeline.consentGeneration

/-- **A run that does not keep to the generation leaves it behind**: up to any point of a call,
either no grant came behind a revocation, or the generation has moved on and all events of the
call are of a later one. -/
theorem During.keeps_or_later {w : Watched} (hr : (machine env).Reach s₀) (hop : op.admits = true)
    (h : During env (fun _ _ => True) t op s₀ w) :
    During env (NoRegrant s₀.pipeline.consentGeneration t) t op s₀ w ∨
      Later s₀.pipeline.consentGeneration t op w.state w.pushed := by
  set g := s₀.pipeline.consentGeneration with hg
  refine (h.rule (P := fun s ps d => g ≤ s.pipeline.consentGeneration ∧
    Stamps (fun _ => True) (fun _ => True) t op s ps ∧
      (During env (NoRegrant g t) t op s₀ ⟨s, ps, d⟩ ∨ Later g t op s ps)) hr hop
    (fun l s hl hs => ⟨generation_le hr hs le_rfl, ?_, Or.inl (.first hl hop hs)⟩)
    (fun s ps d i s' hr ⟨hle, hany, hi⟩ hs => ⟨generation_le hr hs hle, ?_, ?_⟩)
    fun s ps d l s' hr ⟨hle, hany, hi⟩ hl _ hs => ⟨generation_le hr hs hle, ?_, ?_⟩).2.2
  · exact hl.stamps hop (Or.inr fun _ => trivial) hs
  · exact hany.own hr (fun _ _ => trivial) (fun _ _ => trivial) hs
  · exact hi.imp (·.tail_own hs) fun hi => hi.own hr (fun _ => id) (fun hlt _ => hlt) hs
  · exact hany.other hr (fun _ _ => trivial) hl hs
  · rcases hi with hi | hi
    · by_cases hk : NoRegrant g t s l
      · exact Or.inl (hi.tail_other hl hk hs)
      · -- the call is still waiting, and the generation is no longer its own
        simp only [NoRegrant, Classical.not_imp] at hk
        obtain ⟨hc, -, hne⟩ := hk
        obtain ⟨hcall, rfl⟩ := hany.waits hc
        have hlt : g < s'.pipeline.consentGeneration := generation_le hr hs (by omega)
        refine Or.inr (.waiting ?_ rfl (Or.inr hlt))
        rw [callers_of_other hr hl hs]
        exact hcall
    · refine Or.inr (hi.other hr (fun _ hlt => ?_) hl hs)
      exact generation_le hr hs hlt

/-- **What a call admits is stamped with the generation it was entered under**: for `track`
always, and for the others as long as no grant comes behind a revocation before the call has the
lock. A call that returns `Ok` has admitted something; and if all of it carries the generation of
the entry, then there was no such grant. -/
theorem generation_stamped {w : Watched} (hr : (machine env).Reach s₀) (hop : op.admits = true)
    (h : During env (fun _ _ => True) t op s₀ w) :
    ((∃ name properties, op = .track name properties) ∨
        During env (NoRegrant s₀.pipeline.consentGeneration t) t op s₀ w →
      ∀ a ∈ w.pushed, a.qe.consentGeneration = s₀.pipeline.consentGeneration) ∧
    ∀ status : Status, w.state.callers t = .done (.status op status) → status.ok = true →
      w.pushed ≠ [] ∧
        ((∀ a ∈ w.pushed, a.qe.consentGeneration = s₀.pipeline.consentGeneration) →
          (∃ name properties, op = .track name properties) ∨
            During env (NoRegrant s₀.pipeline.consentGeneration t) t op s₀ w) := by
  have hany : Stamps (fun _ => True) (fun _ => True) t op w.state w.pushed :=
    h.stamps hr hop (Or.inr fun _ => trivial) (fun _ _ _ => trivial) (fun _ _ _ => trivial)
      fun _ _ _ _ _ _ _ _ => trivial
  refine ⟨?_, fun status hdone hok => ⟨hany.pushed_of_ok hdone hok, fun hall => ?_⟩⟩
  · rintro (⟨name, properties, htrack⟩ | hkeeps)
    · -- the generation is carried to the lock, so that nothing is asked of the other threads
      exact (h.stamps (P := (· = s₀.pipeline.consentGeneration)) (W := fun _ => False) hr hop
        (Or.inl ⟨name, properties, htrack, rfl⟩) (fun _ _ => id) (fun _ => False.elim)
        fun _ _ _ _ _ _ _ => id).all
    · -- while the call waits, consent comes with the generation of the entry
      exact (hkeeps.stamps (P := (· = s₀.pipeline.consentGeneration))
        (W := fun s => s.pipeline.consent = .granted →
          s.pipeline.consentGeneration = s₀.pipeline.consentGeneration) hr hop
        (Or.inr fun _ _ => rfl) (fun _ _ => id) (fun _ => id)
        fun _ _ _ hr hk hs hc hi => hk.step hr hc hi hs).all
  · -- the events of a call that did not keep to its generation are of a later one
    rcases h.keeps_or_later hr hop with hkeeps | hlater
    · exact Or.inr hkeeps
    · obtain ⟨a, ha⟩ := List.exists_mem_of_ne_nil _ (hany.pushed_of_ok hdone hok)
      have hlt := hlater.all a ha
      exact absurd (hall a ha) (Nat.ne_of_gt hlt)

/-- `start_session` while consent is granted once more, which it was already: no revocation is in
between, and the event carries the generation of the entry. And while consent is denied, and not
granted again: the call is refused. -/
theorem generation_stamped_sample : ∃ w w',
    (During roomy (NoRegrant 0 1) 1 (.startSession "") roomyClient w ∧
      w.state.callers 1 = .done (.status (.startSession "") {}) ∧ w.pushed ≠ [] ∧
      ∀ a ∈ w.pushed, a.qe.consentGeneration = 0) ∧
    During roomy (NoRegrant 0 1) 1 (.startSession "") roomyClient w' ∧
      w'.state.callers 1 = .done (.status (.startSession "") Client.consentDenied) ∧
      w'.state.pipeline.consentGeneration = 1 ∧ ∀ a ∈ w'.pushed, a.qe.consentGeneration = 0 := by
  have hfirst : First 1 roomyClient (.startSession "") (.call 1 (.startSession "")) := .call nofun
  obtain ⟨w, hkeeps, hw⟩ : ∃ w, During roomy (NoRegrant 0 1) 1 (.startSession "") roomyClient w ∧
      decide (w.state.callers 1 = .done (.status (.startSession "") {})) = true :=
    During.of_meets (Label.consents 2 .granted 2 ++ (Label.starts 1 "s" "e").tail) _ hfirst
      (by decide)
  obtain ⟨w', hkeeps', hw'⟩ : ∃ w, During roomy (NoRegrant 0 1) 1 (.startSession "") roomyClient
      w ∧ decide (w.state.callers 1 = .done (.status (.startSession "") Client.consentDenied) ∧
        w.state.pipeline.consentGeneration = 1) = true :=
    During.of_meets (Label.consents 2 .denied 10 ++ Label.steps 1 1) _ hfirst (by decide)
  have hdone := of_decide_eq_true hw
  obtain ⟨hrefused, hgen⟩ := of_decide_eq_true hw'
  have hr : (machine roomy).Reach roomyClient := .of_start roomyClient_start
  obtain ⟨hstamped, hsome⟩ := generation_stamped hr rfl (hkeeps.mono fun _ _ _ => trivial)
  obtain ⟨hstamped', -⟩ := generation_stamped hr rfl (hkeeps'.mono fun _ _ _ => trivial)
  exact ⟨w, w', ⟨hkeeps, hdone, (hsome _ hdone rfl).1, hstamped (Or.inr hkeeps)⟩, hkeeps',
    hrefused, hgen, hstamped' (Or.inr hkeeps')⟩

/-- **A revocation and a grant between the validation and the lock of `start_session`**: the
call returns `Ok`, and its event carries a generation the call was not entered under. -/
theorem start_crosses : ∃ w, During roomy (fun _ _ => True) 1 (.startSession "") roomyClient w ∧
    w.state.callers 1 = .done (.status (.startSession "") {}) ∧
    ∃ a ∈ w.pushed, a.qe.consentGeneration ≠ roomyClient.pipeline.consentGeneration := by
  have hany : ((watch roomy 1).exec { state := roomyClient } (.call 1 (.startSession "") ::
      Label.consents 2 .denied 10 ++ Label.consents 2 .granted 2 ++
      (Label.starts 1 "s" "e").tail)).any
      (fun w => decide (w.state.callers 1 = .done (.status (.startSession "") {})) &&
        w.pushed.any fun a =>
          decide (a.qe.consentGeneration ≠ roomyClient.pipeline.consentGeneration)) = true := by
    decide
  obtain ⟨w, hex, hw⟩ := Lts.Machine.exec_of_any hany
  simp only [Bool.and_eq_true, decide_eq_true_eq, List.any_eq_true] at hw
  have hlabels : ∀ l ∈ Label.consents 2 .denied 10 ++ Label.consents 2 .granted 2 ++
      (Label.starts 1 "s" "e").tail, l.isCaller 1 = true ∨ l.thread ≠ some 1 := by decide
  refine ⟨w, .of_exec (.call nofun) (fun l hl => ?_) hex, hw⟩
  exact (hlabels l hl).imp_right fun h => ⟨h, fun _ => trivial⟩

end PlayerTrace
