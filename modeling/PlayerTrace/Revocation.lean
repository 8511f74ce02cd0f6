import PlayerTrace.Control.Passes
import PlayerTrace.Custody.Ledger

/-!
# Revocations

What a caller of `set_consent` may rely on, in every interleaving with producers, other
callers and the worker, and with any faults of the store and the sink.

* **A completed revocation is final.** Once it has returned `Ok`, no event from before it is
  ever in the table again; if its purge failed, the same holds from the moment consent is
  granted again, and until then collection stays closed.
* **New work is safe.** An event admitted after the latest revocation began is neither
  discarded nor purged, however late the worker acts on the consent it saw before.
* **A re-grant can revive revoked events at the sink.** Between the first consent check of
  a delivery and the one before `Sink::write`, a whole revocation and a re-grant can pass;
  the batch is then written although it was revoked.
-/

namespace PlayerTrace

variable {env : Env} {i : Input} {s s' : State} {t : Tid}

/-! ### A completed revocation is final -/

theorem Custody.Step.fence_le {c c' : Custody} (hs : Step env c c') (hr : Reachable env c) :
    c.history.fence ≤ c'.history.fence := by
  rcases hs.consent_cases (gated_of_reachable hr) with hq | ⟨-, -, hf, -⟩ | ⟨-, -, hf, -⟩ |
    ⟨-, -, hf, -⟩
  · exact Nat.le_of_eq hq.fence.symm
  · rw [hf]
    exact (fenced_of_reachable hr).fence_le
  · exact Nat.le_of_eq hf.symm
  · exact Nat.le_of_eq hf.symm

/-- Only the end of a consent change returns from it. -/
theorem Turn.consented_cases (h : Turn s t s') {st : ConsentState} {f : Nat} {status : Status}
    (hc : s'.callers t = .done (.consented st f status)) :
    ∃ pc, s.client.consentSection = .held t st pc ∧ f = s.history.fence ∧
      (status.ok = true → pc = .reset ∨ pc = .grant) := by
  cases h with
  | @consented st' pc status' hsec hok _ hc' =>
    obtain ⟨rfl, rfl, rfl⟩ : st' = st ∧ s.history.fence = f ∧ status' = status := by
      simpa [hc] using hc'.symm
    exact ⟨pc, hsec, rfl, hok⟩
  | plain _ hp => simp [hc, Caller.plain] at hp
  | @finish d _ _ _ hc' => cases d <;> simp [hc, shutdownCaller] at hc'
  | flushBarrier _ _ hc' | flushToken _ _ hc' | flushed _ _ hc' | flushTimeout _ _ _ hc'
  | close _ _ hc' | advance _ _ hc' | ordinal _ _ _ hc' | barrier _ _ hc' | token _ _ hc'
  | stop _ _ hc' | join _ _ hc' | mark _ _ _ hc' => simp [hc, Caller.plain] at hc'

/-- **What a returned revocation has achieved.** -/
def Promised (s : State) : Prop :=
  ∀ t st f status, s.callers t = .done (.consented st f status) → st ≠ .granted →
    f ≤ s.history.fence ∧ (status.ok = true → Custody.Cleared f (custody s))

theorem cleared_of_step {f : Nat} {l : Label} (hr : (machine env).Reach s)
    (h : step env s l = some s') (hc : Custody.Cleared f (custody s)) :
    Custody.Cleared f (custody s') := by
  refine custody_step hr h hc fun c' hr' hm => ?_
  exact Custody.cleared_step hc (Custody.ordered_of_reachable hr')
    (Custody.fenced_of_reachable hr') hm

theorem fence_le_of_step {l : Label} (hr : (machine env).Reach s) (h : step env s l = some s') :
    s.history.fence ≤ s'.history.fence := by
  rcases step_moves h with heq | hm
  · exact Nat.le_of_eq (congrArg (fun c => c.history.fence) heq).symm
  · exact hm.fence_le (custody_reachable hr)

theorem promised_step {l : Label} (hr : (machine env).Reach s) (hi : Promised s)
    (h : step env s l = some s') : Promised s' := by
  intro t st f status hc hst
  have hkeep : s.callers t = .done (.consented st f status) →
      f ≤ s'.history.fence ∧ (status.ok = true → Custody.Cleared f (custody s')) := fun hc => by
    obtain ⟨hle, hclear⟩ := hi t st f status hc hst
    exact ⟨Nat.le_trans hle (fence_le_of_step hr h), fun hok => cleared_of_step hr h (hclear hok)⟩
  rcases turn_of_step hr h with ⟨i, -, hw⟩ | ⟨u, -, haside, hturn⟩
  · exact hkeep ((congrFun ((Worker.step_pass hw).1.callers) t).symm.trans hc)
  by_cases htu : t = u
  · subst htu
    obtain ⟨pc, hsec, rfl, hok⟩ := hturn.consented_cases hc
    refine ⟨fence_le_of_step hr h, fun hstatus => cleared_of_step hr h ?_⟩
    have hrev : (custody s).revocation = some (st, pc) := congrArg revocationOf hsec
    have hr' := custody_reachable hr
    rcases hok hstatus with rfl | rfl
    · refine Custody.cleared_of_settled hr' ?_
      simp [Custody.unsettled, hrev]
    · exact absurd (((Custody.gated_of_reachable hr').holder _ _ hrev).2.2.2.2 rfl).1 hst
  · exact hkeep ((haside.others t htu).symm.trans hc)

theorem promised_of_reach (h : (machine env).Reach s) : Promised s := by
  refine Lts.Machine.Reach.rule (fun s hs => ?_) (fun _ _ _ hr hi hs => promised_step hr hi hs) h
  obtain ⟨db, m, earlier, rfl⟩ := start_eq hs
  intro t st f status hc
  exact absurd hc nofun

/-- Along a run, a cleared fence stays cleared. -/
theorem cleared_of_run {f : Nat} (hr : (machine env).Reach s) (h : (machine env).Run s s')
    (hc : Custody.Cleared f (custody s)) : Custody.Cleared f (custody s') :=
  Custody.cleared_moves (custody_reachable hr) (machine_simulated.moves h) hc

theorem fence_le_of_run (hr : (machine env).Reach s) (h : (machine env).Run s s') :
    s.history.fence ≤ s'.history.fence :=
  hr.run_rule (P := fun x => s.history.fence ≤ x.history.fence)
    (fun _ _ _ hr hle hs => Nat.le_trans hle (fence_le_of_step hr hs)) h (Nat.le_refl _)

/-- **A completed revocation is final.** Once `set_consent` has returned `Ok` for a state
other than granted – or, if it returned an error, once consent is granted again – the table
never again holds an event from before its fence; and while a purge is owed, consent is not
granted. -/
theorem revocation_final (hr : (machine env).Reach s) (hrun : (machine env).Run s s') :
    (∀ t st f status, s.callers t = .done (.consented st f status) → st ≠ .granted →
      (status.ok = true ∨ ∃ s₁, (machine env).Run s s₁ ∧ s₁.pipeline.consent = .granted ∧
        (machine env).Run s₁ s') →
      ∀ r ∈ s'.pipeline.store.rows, f ≤ r.ordinal) ∧
    (s.client.purgeRequired = true → s.pipeline.consent ≠ .granted) := by
  refine ⟨fun t st f status hc hst hwhen => ?_,
    (Custody.gated_of_reachable (custody_reachable hr)).owed⟩
  obtain ⟨hle, hok⟩ := promised_of_reach hr t st f status hc hst
  rcases hwhen with hstatus | ⟨s₁, hrun₁, hgranted, hrun₂⟩
  · exact (cleared_of_run hr hrun (hok hstatus)).rows
  · have hr₁ := hr.run hrun₁
    have hclear := Custody.cleared_of_granted (custody_reachable hr₁) hgranted
    exact (cleared_of_run hr₁ hrun₂
      (hclear.mono (Nat.le_trans hle (fence_le_of_run hr hrun₁)))).rows

/-- A stored event, a revocation, a re-grant and a new event in the table. -/
theorem revocation_final_sample : ∃ s s', (machine sample).Reach s ∧ (machine sample).Run s s' ∧
    s'.pipeline.store.rows.length = 1 ∧ ∀ r ∈ s'.pipeline.store.rows, 2 ≤ r.ordinal := by
  obtain ⟨s, s', hr, hrun, hp⟩ := Lts.Machine.reach_run_of_exec sampleClient_start
    (Label.starts 1 "s" "e" ++ Label.works 11 ++ Label.consents 2 .denied 10)
    (Label.consents 2 .granted 2 ++ Label.starts 1 "t" "f" ++ Label.works 14)
    (fun s s' => decide (s.callers 2 = .done (.consented .denied 2 {})) &&
      decide (s'.pipeline.store.rows.length = 1)) (by decide)
  simp only [Bool.and_eq_true, decide_eq_true_eq] at hp
  exact ⟨s, s', hr, hrun, hp.2, (revocation_final hr hrun).1 2 .denied 2 {} hp.1 nofun (Or.inl rfl)⟩

/-! ### New work is safe -/

/-- **Stale revocation handling never destroys new work.** An event admitted with no
revocation beginning after it – at or above the latest fence – is in none of the columns
of a revocation: it is still on its way or stored, or it was acknowledged, dropped as
invalid, or in the worker's hands when its loop was left by an exception. -/
theorem new_work_safe (hr : (machine env).Reach s) {a : Admitted} (ha : a ∈ s.history.accepted)
    (hnew : s.history.fence ≤ a.qe.ordinal) :
    a.qe.item ∉ s.history.discarded ∧ a.qe.item ∉ s.history.purged ∧
      (a.qe.item ∈ (s.pipeline.queue ++ s.hands ++ s.core.retry).map QueuedEvent.item ∨
        a.qe.item ∈ s.pipeline.store.rows.map Row.item ∨ a.qe.item ∈ s.history.acked ∨
        a.qe.item ∈ s.history.dropped ∨ a.qe.item ∈ s.history.lost) := by
  have hr' := custody_reachable hr
  have hgone : a.qe.item ∉ s.history.discarded ++ s.history.purged := fun hmem => by
    have hlt : a.qe.ordinal < s.history.fence := (Custody.fenced_of_reachable hr').gone _ hmem
    omega
  rw [List.mem_append, not_or] at hgone
  refine ⟨hgone.1, hgone.2, ?_⟩
  have hknown : a.qe.item ∈ (custody s).known :=
    List.mem_append_right _ (List.mem_map_of_mem (f := fun a : Admitted => a.qe.item) ha)
  have hplace := (Custody.conserved_of_reachable hr').mem_iff.mpr hknown
  rw [Custody.places, show (custody s).stage.hands = s.hands from stageOf_hands _] at hplace
  simp only [List.mem_append, List.map_append] at hplace ⊢
  have hdisc : a.qe.item ∉ (custody s).history.discarded := hgone.1
  have hpurged : a.qe.item ∉ (custody s).history.purged := hgone.2
  tauto

/-- The worker has refused a batch for a revocation and is about to purge; consent is
granted again and a new event admitted before it does. -/
theorem new_work_safe_sample : ∃ s, (machine sample).Reach s ∧ s.history.fence = 2 ∧
    s.history.discarded.length = 1 ∧ ∃ a ∈ s.history.accepted, a.qe.ordinal = 2 ∧
      a.qe.item ∉ s.history.discarded ∧ a.qe.item ∉ s.history.purged := by
  obtain ⟨s, hr, hp⟩ := Lts.Machine.reach_of_exec sampleClient_start
    (Label.starts 1 "s" "e" ++ Label.works 4 ++ Label.consents 2 .denied 10 ++ Label.works 2 ++
      Label.consents 2 .granted 2 ++ Label.starts 1 "t" "f" ++ Label.works 3)
    (fun s => decide (s.history.fence = 2) && decide (s.history.discarded.length = 1) &&
      s.history.accepted.any fun a => decide (a.qe.ordinal = 2)) (by decide)
  simp only [Bool.and_eq_true, decide_eq_true_eq, List.any_eq_true] at hp
  obtain ⟨⟨hfence, hdisc⟩, a, ha, hord⟩ := hp
  have hsafe := new_work_safe hr ha (by omega)
  exact ⟨s, hr, hfence, hdisc, a, ha, hord, hsafe.1, hsafe.2.1⟩

/-! ### A re-grant and the sink -/

/-- **When the check before `Sink::write` protects revoked events.** At a passing check, the
batch holds no event from before a revocation that has returned exactly when no revocation
has begun since the delivery's first look at the consent: the check compares no generation,
so a revocation and a re-grant in between go unnoticed. -/
theorem write_current_iff (hr : (machine env).Reach s) {d : Bool} {seen v : Nat}
    {b : List SerializedEvent} (hpc : s.frame.pc = .recheckConsent d seen v b)
    (hc : s.pipeline.consent = .granted) :
    (∀ x ∈ b, s.history.completed ≤ x.ordinal) ↔ s.history.revocations = seen := by
  have hr' := custody_reachable hr
  have hst : (custody s).stage = .fetched seen (some v) b := congrArg stageOf hpc
  have hlook := Custody.looked_of_reachable hr'
  have hcomp : s.history.completed = s.history.fence := Custody.completed_of_granted hr' hc
  have hseen : (custody s).stage.seen = some seen := by rw [hst]; rfl
  have hbatch : (custody s).stage.batch = b := by rw [hst]; rfl
  rw [hcomp]
  refine ⟨fun hall => ?_, fun heq => ?_⟩
  · -- a later revocation covers the whole batch, and the batch is not empty
    by_contra hne
    have hlt : seen < s.history.revocations :=
      Nat.lt_of_le_of_ne (hlook.le seen hseen) (Ne.symm hne)
    obtain ⟨x, hx⟩ := List.exists_mem_of_ne_nil b (Custody.fetched_nonempty hr' _ _ _ hst)
    have hbelow : x.ordinal < s.history.fence := (hlook.later seen hseen hlt).2 x (hbatch.symm ▸ hx)
    exact absurd (hall x hx) (Nat.not_le_of_lt hbelow)
  · have hsame := (hlook.same (hseen.trans (congrArg some heq.symm))).2
    exact hbatch ▸ hsame

/-- A delivery with no revocation under way. -/
theorem write_current_iff_sample : ∃ s d seen v b, (machine sample).Reach s ∧
    s.frame.pc = .recheckConsent d seen v b ∧ s.pipeline.consent = .granted ∧
    s.history.revocations = seen ∧ ∀ x ∈ b, s.history.completed ≤ x.ordinal := by
  obtain ⟨s, hr, hp⟩ := Lts.Machine.reach_of_exec sampleClient_start
    (Label.starts 1 "s" "e" ++ Label.works 15)
    (fun s => decide (s.pipeline.consent = .granted) && decide (s.history.revocations = 0) &&
      match s.frame.pc with
      | .recheckConsent _ seen _ _ => decide (seen = 0)
      | _ => false) (by decide)
  simp only [Bool.and_eq_true, decide_eq_true_eq] at hp
  obtain ⟨⟨hc, hrev⟩, hpc⟩ := hp
  split at hpc
  · rename_i d seen v b hpc'
    have hseen : s.history.revocations = seen := hrev.trans (of_decide_eq_true hpc).symm
    exact ⟨s, d, seen, v, b, hr, hpc', hc, hseen, (write_current_iff hr hpc' hc).mpr hseen⟩
  · cases hpc

/-- **A re-grant can revive a revoked event at the sink.** The worker has fetched a batch;
consent is denied, the denial returns `Ok`, and consent is granted again. The check before
`Sink::write` passes with the revoked event in the batch. -/
theorem write_revoked : ∃ s d seen v b, (machine sample).Reach s ∧
    s.frame.pc = .recheckConsent d seen v b ∧ s.pipeline.consent = .granted ∧
    ∃ x ∈ b, x.ordinal < s.history.completed := by
  obtain ⟨s, hr, hp⟩ := Lts.Machine.reach_of_exec sampleClient_start
    (Label.starts 1 "s" "e" ++ Label.works 14 ++ Label.consents 2 .denied 10 ++
      Label.consents 2 .granted 2 ++ Label.works 1)
    (fun s => decide (s.pipeline.consent = .granted) &&
      match s.frame.pc with
      | .recheckConsent _ _ _ b => b.any fun x => decide (x.ordinal < s.history.completed)
      | _ => false) (by decide)
  simp only [Bool.and_eq_true, decide_eq_true_eq] at hp
  obtain ⟨hc, hpc⟩ := hp
  split at hpc
  · rename_i d seen v b hpc'
    obtain ⟨x, hx, hlt⟩ := List.any_eq_true.mp hpc
    exact ⟨s, d, seen, v, b, hr, hpc', hc, x, hx, of_decide_eq_true hlt⟩
  · cases hpc

end PlayerTrace
