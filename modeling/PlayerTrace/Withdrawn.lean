import PlayerTrace.Control.Flow
import PlayerTrace.Control.Positions
import PlayerTrace.Revocation

/-!
# While consent is withdrawn

What still happens between the moment a revocation has stored the new consent state and the
moment consent is granted again. The worker checks the consent before each thing it does with
an event – inserting it, handing it to the sink, acknowledging it – but not in the same breath:
it may already be past the check. `PlayerTrace.WorkerPc.bound` is the deed it has committed
itself to.

That deed is the only one (`PlayerTrace.withdrawn_halts`): whatever is called meanwhile and
whatever the store and the sink answer, nothing is admitted, at most one deed is done, and it is
the one the worker was bound to at the beginning. An insertion is ruled out once no call of
`set_consent` is under way: a revocation waits for the store mutex, which the worker keeps from
its check to the end of the insertion (`PlayerTrace.Bolted`). What is left after `set_consent`
has returned is the one batch that is with the sink, or on its way back from it.
-/

namespace PlayerTrace

/-- The deeds of a step. -/
def deeds (s : State) : Label → List Deed
  | .worker i => if i.raise.isSome then [] else s.frame.pc.deed.toList
  | _ => []

variable {env : Env} {i : Input} {l : Label} {s s' : State} {t : Tid}

theorem WorkerPc.bound_of_deed {pc : WorkerPc} {e : Deed} (h : pc.deed = some e) :
    pc.bound = some e := by
  cases pc with
  | insert | write | acknowledge => exact h
  | _ => cases h

/-- **Without consent a step binds the worker to nothing new**, and the only deed it can do is
the one the worker is bound to. -/
theorem bound_of_step (h : step env s l = some s') (hc : s.pipeline.consent ≠ .granted) :
    (deeds s l = [] ∧ (s'.frame.pc.bound = none ∨ s'.frame.pc.bound = s.frame.pc.bound)) ∨
      ∃ e, deeds s l = [e] ∧ s.frame.pc.bound = some e ∧ s'.frame.pc.bound = none := by
  rcases aside_of_step h with ⟨i, rfl, hw⟩ | ⟨t, hl, ha⟩
  · rcases hraise : i.raise with _ | what
    · have hdeeds : deeds s (.worker i) = s.frame.pc.deed.toList := by simp [deeds, hraise]
      rw [hdeeds]
      rcases (Worker.flow_of_execute (Worker.execute_of_step hraise hw)).bound hc with hb | ⟨hb, hd⟩
      · rcases hd : s.frame.pc.deed with _ | e
        · exact Or.inl ⟨rfl, Or.inl hb⟩
        · exact Or.inr ⟨e, rfl, WorkerPc.bound_of_deed hd, hb⟩
      · rw [hd]
        exact Or.inl ⟨rfl, Or.inr hb⟩
    · rw [Worker.unexpected_of_step hraise hw]
      exact Or.inl ⟨by simp [deeds, hraise], Or.inl rfl⟩
  · refine Or.inl ⟨?_, Or.inr (by rw [ha.frame])⟩
    cases l with
    | worker i => exact absurd rfl (hl i)
    | _ => rfl

/-! ### What the deeds amount to -/

/-- **What a run has done to the sink, the table and the acknowledgments**: nothing that is not
one of its deeds. -/
structure Amounts (s s' : State) (ds : List Deed) : Prop where
  written : s'.log.written = s.log.written ∨
    ∃ b, ds = [.write b] ∧ s'.log.written = s.log.written ++ b
  rows : (∀ r ∈ s'.pipeline.store.rows, r ∈ s.pipeline.store.rows) ∨
    ∃ k, ds = [.insert k] ∧ ∀ r ∈ s'.pipeline.store.rows, r ∈ s.pipeline.store.rows ∨
      ∃ x ∈ k, r.item = x.qe.item
  acked : (∀ x ∈ s'.history.acked, x ∈ s.history.acked) ∨
    ∃ b, ds = [.acknowledge b] ∧ ∀ x ∈ s'.history.acked, x ∈ s.history.acked ∨
      ∃ y ∈ b, x.id = some y.eventId

theorem insert_of_committing {pc : WorkerPc} {v : Nat} {k : List Kept}
    (h : stageOf pc = .committing v k) : pc = .insert v k := by
  cases pc with
  | insert => cases h; rfl
  | countQuarantined _ seen p | noteFetch _ seen p =>
    rcases Stage.offered_cases seen p.events with ⟨-, ho⟩ | ⟨-, ho⟩
    · exact absurd (ho.symm.trans h) Stage.noConfusion
    · exact absurd (ho.symm.trans h) Stage.noConfusion
  | _ => cases h

theorem acknowledge_of_acknowledging {pc : WorkerPc} {b : List SerializedEvent}
    (h : stageOf pc = .acknowledging b) : ∃ d, pc = .acknowledge d b := by
  cases pc with
  | acknowledge d => cases h; exact ⟨d, rfl⟩
  | countQuarantined _ seen p | noteFetch _ seen p =>
    rcases Stage.offered_cases seen p.events with ⟨-, ho⟩ | ⟨-, ho⟩
    · exact absurd (ho.symm.trans h) Stage.noConfusion
    · exact absurd (ho.symm.trans h) Stage.noConfusion
  | _ => cases h

/-- Only the worker's own move acknowledges, and it ends the delivery. -/
theorem Custody.Step.acked_of_stage {c c' : Custody} (hs : Step env c c')
    (hstage : c'.stage = c.stage) : c'.history.acked = c.history.acked := by
  cases hs with
  | acknowledge h => rw [h] at hstage; cases hstage
  | _ => rfl

/-- A step amounts to its deeds. -/
theorem amounts_of_step (h : step env s l = some s') : Amounts s s' (deeds s l) := by
  rcases aside_of_step h with ⟨i, rfl, hw⟩ | ⟨t, -, ha⟩
  · rcases hraise : i.raise with _ | what
    · have hdeeds : deeds s (.worker i) = s.frame.pc.deed.toList := by simp [deeds, hraise]
      rw [hdeeds]
      refine ⟨?_, ?_, ?_⟩
      · refine (Worker.written_cases hw).imp_right ?_
        rintro ⟨d, v, b, hpc, -, -, heq⟩
        exact ⟨b, by rw [hpc]; rfl, heq⟩
      · rcases step_moves h with heq | hm
        · have hsame : s'.pipeline.store.rows = s.pipeline.store.rows := congrArg Custody.rows heq
          exact Or.inl fun r hr => hsame ▸ hr
        · refine hm.rows_cases.imp id ?_
          rintro ⟨v, k, hst, hst', -⟩
          have hpc : s.frame.pc = .insert v k := insert_of_committing hst
          refine ⟨k, by rw [hpc]; rfl, fun r hr => (hm.mem_rows hr).imp_right ?_⟩
          rintro ⟨v', k', hst', -, x, hx, hitem⟩
          obtain ⟨-, rfl⟩ := Stage.committing.inj (hst.symm.trans hst')
          exact ⟨x, hx, hitem⟩
      · rcases step_moves h with heq | hm
        · have hsame : s'.history.acked = s.history.acked :=
            congrArg (fun c => c.history.acked) heq
          exact Or.inl fun x hx => hsame ▸ hx
        · by_cases hst : ∃ b, (custody s).stage = .acknowledging b
          · obtain ⟨b, hst⟩ := hst
            obtain ⟨d, hpc⟩ := acknowledge_of_acknowledging hst
            refine Or.inr ⟨b, by rw [hpc]; rfl, fun x hx => (hm.acked_cases hx).imp_right ?_⟩
            rintro ⟨b', hst', y, hy, hid⟩
            obtain rfl := Stage.acknowledging.inj (hst.symm.trans hst')
            exact ⟨y, hy, hid⟩
          · refine Or.inl fun x hx => (hm.acked_cases hx).resolve_right ?_
            rintro ⟨b, hst', -⟩
            exact hst ⟨b, hst'⟩
    · rw [Worker.unexpected_of_step hraise hw]
      exact ⟨Or.inl rfl, Or.inl fun _ hr => hr, Or.inl fun _ hx => hx⟩
  · have hstage : (custody s').stage = (custody s).stage :=
      congrArg (fun f : Frame => stageOf f.pc) ha.frame
    refine ⟨Or.inl ha.written, Or.inl ?_, Or.inl ?_⟩
    · rcases step_moves h with heq | hm
      · have hsame : s'.pipeline.store.rows = s.pipeline.store.rows := congrArg Custody.rows heq
        exact fun r hr => hsame ▸ hr
      · refine hm.rows_cases.resolve_right ?_
        rintro ⟨v, k, hst, hst', -⟩
        rw [hst, hst'] at hstage
        cases hstage
    · rcases step_moves h with heq | hm
      · have hsame : s'.history.acked = s.history.acked :=
          congrArg (fun c => c.history.acked) heq
        exact fun x hx => hsame ▸ hx
      · have hsame : s'.history.acked = s.history.acked := hm.acked_of_stage hstage
        exact fun x hx => hsame ▸ hx

/-- Nothing more is done, or nothing was done before. -/
theorem Amounts.trans {s₀ : State} {ds ds' : List Deed} (h : Amounts s₀ s ds)
    (h' : Amounts s s' ds') (hnil : ds = [] ∨ ds' = []) : Amounts s₀ s' (ds ++ ds') := by
  rcases hnil with rfl | rfl
  · have hw : s.log.written = s₀.log.written :=
      h.written.resolve_right (by rintro ⟨b, hb, -⟩; cases hb)
    have hr := h.rows.resolve_right (by rintro ⟨k, hk, -⟩; cases hk)
    have ha := h.acked.resolve_right (by rintro ⟨b, hb, -⟩; cases hb)
    rw [List.nil_append]
    refine ⟨hw ▸ h'.written, ?_, ?_⟩
    · refine h'.rows.imp (fun hsub r hmem => hr r (hsub r hmem)) ?_
      rintro ⟨k, hk, hsub⟩
      exact ⟨k, hk, fun r hmem => (hsub r hmem).imp_left (hr r)⟩
    · refine h'.acked.imp (fun hsub x hmem => ha x (hsub x hmem)) ?_
      rintro ⟨b, hb, hsub⟩
      exact ⟨b, hb, fun x hmem => (hsub x hmem).imp_left (ha x)⟩
  · have hw : s'.log.written = s.log.written :=
      h'.written.resolve_right (by rintro ⟨b, hb, -⟩; cases hb)
    have hr := h'.rows.resolve_right (by rintro ⟨k, hk, -⟩; cases hk)
    have ha := h'.acked.resolve_right (by rintro ⟨b, hb, -⟩; cases hb)
    rw [List.append_nil]
    refine ⟨hw ▸ h.written, ?_, ?_⟩
    · refine h.rows.imp (fun hsub r hmem => hsub r (hr r hmem)) ?_
      rintro ⟨k, hk, hsub⟩
      exact ⟨k, hk, fun r hmem => hsub r (hr r hmem)⟩
    · refine h.acked.imp (fun hsub x hmem => hsub x (ha x hmem)) ?_
      rintro ⟨b, hb, hsub⟩
      exact ⟨b, hb, fun x hmem => hsub x (ha x hmem)⟩

/-! ### The store mutex -/

/-- **A revocation waits for the store mutex**: if the worker has it and consent is withdrawn,
the revocation has not got beyond its marker. -/
def Bolted (c : Custody) : Prop :=
  c.stage.locked = true → c.consent ≠ .granted →
    ∃ st pc, c.revocation = some (st, pc) ∧ (pc.inSection = true ∨ pc = .mark)

theorem bolted_step {c c' : Custody} (hi : Bolted c) (hg : Custody.Gated c)
    (hs : Custody.Step env c c')
    (hmark : c.stage.locked = true → ∀ st, c.revocation = some (st, .mark) →
      c'.revocation = c.revocation) : Bolted c' := by
  intro hl hc
  -- the revocation has left its section for good
  have hno : ∀ {st pc}, c.revocation = some (st, pc) → c.stage.locked = true →
      c.consent ≠ .granted → pc.inSection = false → pc ≠ .mark → False := by
    intro st pc hrev hl hc hsec hne
    obtain ⟨st', pc', hrev', hpc⟩ := hi hl hc
    obtain ⟨-, rfl⟩ : st = st' ∧ pc = pc' := by simpa [hrev] using hrev'
    rcases hpc with hpc | hpc
    · rw [hsec] at hpc
      cases hpc
    · exact hne hpc
  cases hs with
  | guard _ hgr => exact absurd hgr hc
  | pass h => exact hi (by rw [h]; rfl) hc
  | revoke | bump | countCleared | owe | countDiscarded => exact ⟨_, _, rfl, Or.inl rfl⟩
  | clear | discardRetry => exact ⟨_, _, rfl, Or.inl (by split <;> rfl)⟩
  | unlock => exact ⟨_, _, rfl, Or.inr rfl⟩
  | mark _ hfree | purgeAll _ hfree => rw [hfree] at hl; cases hl
  | enter h =>
    obtain ⟨st, pc, hrev, -⟩ := hi hl hc
    rw [h] at hrev
    cases hrev
  | settle h => exact (hno h hl hc rfl ConsentPc.noConfusion).elim
  | fail h =>
    rcases h with h | h
    · have hsame := hmark hl _ h
      rw [h] at hsame
      cases hsame
    · exact (hno h hl hc rfl ConsentPc.noConfusion).elim
  | grant h => exact absurd ((hg.holder _ _ h).2.2.2.2 rfl).1 hc
  | fetch => rw [Stage.offered_locked] at hl; cases hl
  | drain | takeNothing | takeRetry | read | refuse | stale | drop | keep | keptNothing
  | refuseKept | commit | insertFailed | hold | look | readAgain | send | notSent | sent
  | notAcknowledged | acknowledge | refuseDelivery | outdated | purge | notPurged | reset
  | raise => cases hl
  | _ => exact hi hl hc

/-- Nobody gets past the marker while the worker has the store mutex. -/
theorem section_of_locked {u : Tid} {st : ConsentState} (hr : (machine env).Reach s)
    (h : step env s l = some s') (hl : s.frame.pc.holdsStore = true)
    (hsec : s.client.consentSection = .held u st .mark) :
    s'.client.consentSection = s.client.consentSection := by
  cases l with
  | worker i => rw [(Worker.step_pass h).1.client]
  | call t op =>
    obtain ⟨c, rfl, -⟩ := Client.call_placed h
    rfl
  | caller t i =>
    by_cases hu : u = t
    · -- the holder itself finds the mutex taken
      subst hu
      change Client.step env i s u = some s' at h
      simp only [Client.step, (seated_of_reach hr).holder u st .mark hsec, hsec, if_true,
        Client.consentStep, Client.mark, State.storeFree, hl, Bool.not_true,
        Bool.false_eq_true, if_false] at h
      cases h
    · exact (placed_of_step hr h).2.locks.section_kept hu hsec

theorem bolted_of_reach (h : (machine env).Reach s) : Bolted (custody s) := by
  refine h.rule (P := fun s => Bolted (custody s)) (fun s hs => ?_) (fun s l s' hr hi hs => ?_)
  · obtain ⟨db, m, earlier, rfl⟩ := start_eq hs
    intro hl
    cases hl
  · rcases step_moves hs with heq | hm
    · rwa [heq]
    · refine bolted_step hi (Custody.gated_of_reachable (custody_reachable hr)) hm ?_
      intro hl st hrev
      rw [show (custody s).stage.locked = s.frame.pc.holdsStore from stageOf_locked _] at hl
      change revocationOf s.client.consentSection = some (st, .mark) at hrev
      rcases hsec : s.client.consentSection with _ | ⟨u, st', pc⟩
      · rw [hsec] at hrev
        cases hrev
      · rw [hsec] at hrev
        cases hrev
        exact congrArg revocationOf (section_of_locked hr hs hl hsec)

/-! ### The halt -/

/-- A step that finds consent withdrawn. -/
def Withdrawn (s : State) (_ : Label) : Prop := s.pipeline.consent ≠ .granted

instance (s : State) (l : Label) : Decidable (Withdrawn s l) :=
  inferInstanceAs (Decidable (s.pipeline.consent ≠ .granted))

/-- **What a run without consent can have done.** -/
structure Halted (s₀ s : State) (ds : List Deed) : Prop where
  accepted : s.history.accepted = s₀.history.accepted
  deeds : (ds = [] ∧ (s.frame.pc.bound = none ∨ s.frame.pc.bound = s₀.frame.pc.bound)) ∨
    ∃ e, ds = [e] ∧ s₀.frame.pc.bound = some e ∧ s.frame.pc.bound = none
  amounts : Amounts s₀ s ds

theorem halted_step {s₀ : State} {ds : List Deed} (hi : Halted s₀ s ds)
    (hr : (machine env).Reach s) (h : step env s l = some s') (hc : Withdrawn s l) :
    Halted s₀ s' (ds ++ deeds s l) := by
  have hout : (custody s).entry.inside = false := by
    rw [Bool.eq_false_iff]
    exact fun hin => hc ((Custody.gated_of_reachable (custody_reachable hr)).inside hin)
  refine ⟨(accepted_of_outside hout h).trans hi.accepted, ?_, ?_⟩
  · rcases hi.deeds with ⟨rfl, hb⟩ | ⟨e, rfl, hb₀, hb⟩
    · rw [List.nil_append]
      rcases bound_of_step h hc with ⟨hnil, hb'⟩ | ⟨e, he, hbe, hb'⟩
      · refine Or.inl ⟨hnil, ?_⟩
        rcases hb' with hb' | hb'
        · exact Or.inl hb'
        · rw [hb']
          exact hb
      · refine Or.inr ⟨e, he, ?_, hb'⟩
        rcases hb with hb | hb
        · rw [hb] at hbe
          cases hbe
        · rw [← hb]
          exact hbe
    · rcases bound_of_step h hc with ⟨hnil, hb'⟩ | ⟨e', -, hbe, -⟩
      · rw [hnil, List.append_nil]
        exact Or.inr ⟨e, rfl, hb₀, hb'.elim id fun hb' => hb'.trans hb⟩
      · rw [hb] at hbe
        cases hbe
  · refine hi.amounts.trans (amounts_of_step h) ?_
    rcases hi.deeds with ⟨rfl, -⟩ | ⟨e, -, -, hb⟩
    · exact Or.inl rfl
    · rcases bound_of_step h hc with ⟨hnil, -⟩ | ⟨e', -, hbe, -⟩
      · exact Or.inr hnil
      · rw [hb] at hbe
        cases hbe

/-- **Withdrawing consent halts the client.** Along any run that finds consent withdrawn at each
of its steps – any calls, any faults, any order – nothing is admitted, and at most one deed is
done: the insertion, the write or the acknowledgment that the worker was already bound to when
the run began. Whatever has reached the sink, the table or the acknowledgments since then is part
of that deed. Where no call of `set_consent` was under way, that is after it has returned, the
deed is not an insertion. -/
theorem withdrawn_halts {s₀ : State} {ds : List Deed} (hr : (machine env).Reach s₀)
    (h : ((machine env).observed deeds).RunIf (fun p l => Withdrawn p.1 l) (s₀, []) (s, ds)) :
    s.history.accepted = s₀.history.accepted ∧
      (ds = [] ∨ ∃ e, ds = [e] ∧ s₀.frame.pc.bound = some e) ∧ Amounts s₀ s ds ∧
      (s₀.pipeline.consent ≠ .granted → s₀.client.consentSection = .free →
        ∀ k, ds ≠ [.insert k]) := by
  have hi : Halted s₀ s ds := by
    refine hr.observed_runIf_rule (P := fun s ds => Halted s₀ s ds) ?_ h ?_
    · exact fun s ds l s' hr hi hc hs => halted_step hi hr hs hc
    · exact ⟨rfl, Or.inl ⟨rfl, Or.inr rfl⟩, Or.inl rfl, Or.inl fun _ h => h, Or.inl fun _ h => h⟩
  refine ⟨hi.accepted, ?_, hi.amounts, ?_⟩
  · rcases hi.deeds with ⟨hnil, -⟩ | ⟨e, he, hb, -⟩
    · exact Or.inl hnil
    · exact Or.inr ⟨e, he, hb⟩
  · rintro hc hfree k rfl
    -- the worker would have the store mutex, and a revocation would be waiting for it
    have hb : s₀.frame.pc.bound = some (.insert k) := by
      rcases hi.deeds with ⟨hnil, -⟩ | ⟨e, he, hb, -⟩
      · cases hnil
      · cases he
        exact hb
    have hl : (custody s₀).stage.locked = true := by
      change (stageOf s₀.frame.pc).locked = true
      cases hpc : s₀.frame.pc with
      | boundaryGeneration | insert => rfl
      | _ =>
        rw [hpc] at hb
        cases hb
    obtain ⟨st, pc, hrev, -⟩ := bolted_of_reach hr hl hc
    change revocationOf s₀.client.consentSection = _ at hrev
    rw [hfree] at hrev
    cases hrev

/-- The rest of the lap, a new call, and another lap. -/
def afterRevocation : List Label :=
  Label.works 4 ++ [.call 1 (.startSession "")] ++ Label.steps 1 1 ++ Label.works 20

/-- **The batch in flight**: consent is denied while the worker is about to call the sink, and
the call returns. The write is done afterwards; a new session is refused, and the worker goes
round without another deed. -/
theorem withdrawn_halts_in_flight : ∃ s₀ s ds, (machine sample).Reach s₀ ∧
    s₀.callers 2 = .done (.consented .denied 2 {}) ∧ s₀.log.written.length = 0 ∧
    ((machine sample).observed deeds).RunIf (fun p l => Withdrawn p.1 l) (s₀, []) (s, ds) ∧
    s.log.written.length = 1 ∧ s.history.accepted = s₀.history.accepted ∧
    ∃ b, ds = [.write b] ∧ s₀.frame.pc.bound = some (.write b) := by
  have hany : ((machine sample).exec sampleClient (Label.starts 1 "s" "e" ++ Label.works 16 ++
      Label.consents 2 .denied 10)).any (fun s₀ =>
        decide (s₀.callers 2 = .done (.consented .denied 2 {})) &&
        decide (s₀.log.written.length = 0) &&
        ((machine sample).observed deeds).meets (fun p l => decide (Withdrawn p.1 l)) (s₀, [])
          afterRevocation &&
        (((machine sample).observed deeds).exec (s₀, []) afterRevocation).any fun p =>
          decide (p.1.log.written.length = 1)) = true := by
    decide +kernel
  obtain ⟨s₀, hex, hp⟩ := Lts.Machine.exec_of_any hany
  simp only [Bool.and_eq_true, decide_eq_true_eq] at hp
  obtain ⟨⟨⟨hret, hnone⟩, hmeets⟩, hlater⟩ := hp
  obtain ⟨⟨s, ds⟩, hrun, hone⟩ := Lts.Machine.exec_of_any hlater
  have hout : ((machine sample).observed deeds).RunIf (fun p l => Withdrawn p.1 l) (s₀, [])
      (s, ds) :=
    Lts.Machine.runIf_of_meets (fun l _ p hp => of_decide_eq_true hp) hrun hmeets
  have hr : (machine sample).Reach s₀ := ⟨_, sampleClient_start, Lts.Machine.run_of_exec hex⟩
  obtain ⟨haccepted, hdeeds, hamounts, -⟩ := withdrawn_halts hr hout
  refine ⟨s₀, s, ds, hr, hret, hnone, hout, of_decide_eq_true hone, haccepted, ?_⟩
  rcases hamounts.written with hsame | ⟨b, hb, -⟩
  · have hone : s.log.written.length = 1 := of_decide_eq_true hone
    rw [hsame, hnone] at hone
    cases hone
  · refine ⟨b, hb, ?_⟩
    rcases hdeeds with hnil | ⟨e, he, hbound⟩
    · rw [hnil] at hb
      cases hb
    · rw [hb] at he
      cases he
      exact hbound

end PlayerTrace
