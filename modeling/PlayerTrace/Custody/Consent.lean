import PlayerTrace.Custody.Order

/-!
# Custody under a revocation

A revocation draws a *fence* through the admission order: what is below it was admitted
before, what is at or above it after. The consent state, the generation and the purge
change at different moments and under different locks, so most of what one would like to
say about the fence only holds from some moment on. Three invariants carry the argument:

* `PlayerTrace.Custody.Gated`: what the holder of the consent lock has done so far, and
  that consent is not granted while a purge is owed;
* `PlayerTrace.Custody.Fenced`: without consent everything is below the fence; with it, an
  event at or above the fence carries the current generation, and a generation the worker
  has read is still the current one if anything it concerns is at or above the fence. In
  particular nothing above the fence is ever discarded or purged;
* `PlayerTrace.Custody.Cleared`: a fence is *cleared* when no row is below it and none can
  come back. A successful purge clears the latest fence, and a cleared fence stays so.
-/

namespace PlayerTrace

/-- The part of a revocation that holds the admission lock. -/
def ConsentPc.inSection : ConsentPc → Bool
  | .bump | .clear | .countCleared _ | .deactivate | .discard | .countDiscarded _
  | .forget => true
  | _ => false

/-- Where `purge_required_` has been set and not been cleared. -/
def ConsentPc.owes : ConsentPc → Bool
  | .discard | .countDiscarded _ | .forget | .mark | .purge | .reset => true
  | _ => false

/-- A producer that has passed the consent check. -/
def Entry.inside : Entry → Bool
  | .out | .locked => false
  | _ => true

namespace Custody

variable {env : Env} {c c' : Custody}

/-! ### The two locks -/

/-- What the holder of the consent lock knows. -/
def Holds (c : Custody) (st : ConsentState) (pc : ConsentPc) : Prop :=
  (pc.inSection = true → c.entry = .locked ∧ c.consent = st ∧ c.history.fence = c.ordinal + 1) ∧
    (pc.owes = true → c.purgeRequired = true) ∧
    (pc.inSection = true ∨ pc.owes = true → c.consent ≠ .granted) ∧
    (pc.inSection = true ∨ pc = .store → st ≠ .granted) ∧
    (pc = .grant → st = .granted ∧ c.purgeRequired = false)

/-- **Consent is not granted while a purge is owed**, and what goes with it. -/
structure Gated (c : Custody) : Prop where
  owed : c.purgeRequired = true → c.consent ≠ .granted
  /-- A producer inside has consent. -/
  inside : c.entry.inside = true → c.consent = .granted
  holder : ∀ st pc, c.revocation = some (st, pc) → Holds c st pc

theorem gated_start (h : Start env c) : Gated c where
  owed := by simp [h.purgeRequired]
  inside := by simp [h.entry, Entry.inside]
  holder := by simp [h.revocation]

/-- A step of a producer, who has the admission lock or takes it. -/
theorem Gated.producer (hi : Gated c) (hne : c.entry ≠ .locked)
    (hin : c'.entry.inside = true → c.consent = .granted) (hcons : c'.consent = c.consent)
    (hreq : c'.purgeRequired = c.purgeRequired) (hrev : c'.revocation = c.revocation) :
    Gated c' where
  owed := by rw [hreq, hcons]; exact hi.owed
  inside := by rw [hcons]; exact hin
  holder st pc h := by
    obtain ⟨hsec, howes, hnot, hst, hgrant⟩ := hi.holder st pc (hrev ▸ h)
    refine ⟨fun hin => absurd (hsec hin).1 hne, ?_, ?_, hst, ?_⟩
    · rw [hreq]; exact howes
    · rw [hcons]; exact hnot
    · rw [hreq]; exact hgrant

/-- A step of the holder of the consent lock, who keeps it. -/
theorem Gated.holding {st : ConsentState} {pc : ConsentPc}
    (hrev : c'.revocation = some (st, pc)) (hh : Holds c' st pc)
    (howed : c'.purgeRequired = true → c'.consent ≠ .granted)
    (hin : c'.entry.inside = true → c'.consent = .granted) : Gated c' where
  owed := howed
  inside := hin
  holder st' pc' h := by
    rw [hrev, Option.some.injEq, Prod.mk.injEq] at h
    obtain ⟨rfl, rfl⟩ := h
    exact hh

/-- The last step of the holder of the consent lock. -/
theorem Gated.released (hrev : c'.revocation = none)
    (howed : c'.purgeRequired = true → c'.consent ≠ .granted)
    (hin : c'.entry.inside = true → c'.consent = .granted) : Gated c' where
  owed := howed
  inside := hin
  holder st pc h := by simp [hrev] at h

/-- A step inside the revocation section. -/
theorem Gated.section_ {st : ConsentState} {pc pc' : ConsentPc} (hi : Gated c)
    (h : c.revocation = some (st, pc)) (hpc : pc.inSection = true)
    (hrev : c'.revocation = some (st, pc')) (hpc' : pc'.inSection = true)
    (he : c'.entry = c.entry) (hcons : c'.consent = c.consent)
    (hfence : c'.history.fence = c.history.fence) (hord : c'.ordinal = c.ordinal)
    (hreq : pc'.owes = true → c'.purgeRequired = true) : Gated c' := by
  obtain ⟨hsec, -, hnot, hst, -⟩ := hi.holder st pc h
  have hgr : c.consent ≠ .granted := hnot (Or.inl hpc)
  refine .holding hrev ⟨fun _ => ?_, hreq, fun _ => hcons ▸ hgr, fun _ => hst (Or.inl hpc), ?_⟩
    (fun _ => hcons ▸ hgr) ?_
  · rw [he, hcons, hfence, hord]
    exact hsec hpc
  · rintro rfl
    simp [ConsentPc.inSection] at hpc'
  · rw [he, hcons]
    exact hi.inside

/-- A step of `run_purge`. -/
theorem Gated.purging {st : ConsentState} {pc pc' : ConsentPc} (hi : Gated c)
    (h : c.revocation = some (st, pc)) (hpc : pc.owes = true)
    (hrev : c'.revocation = some (st, pc')) (hpc' : pc'.owes = true ∧ pc'.inSection = false)
    (hin : c'.entry.inside = true → c.consent = .granted) (hcons : c'.consent = c.consent)
    (hreq : c'.purgeRequired = c.purgeRequired) : Gated c' := by
  obtain ⟨-, howes, hnot, -, -⟩ := hi.holder st pc h
  have hgr : c.consent ≠ .granted := hnot (Or.inr hpc)
  refine .holding hrev ⟨?_, fun _ => hreq ▸ howes hpc, fun _ => hcons ▸ hgr, ?_, ?_⟩
    (fun _ => hcons ▸ hgr) (hcons ▸ hin)
  · simp [hpc'.2]
  · rintro (hs | rfl)
    · simp [hpc'.2] at hs
    · simp [ConsentPc.owes] at hpc'
  · rintro rfl
    simp [ConsentPc.owes] at hpc'

theorem gated_step (hi : Gated c) (hs : Step env c c') : Gated c' := by
  cases hs with
  -- producers
  | gate h hc => exact hi.producer (by simp [h]) (fun _ => hc) rfl rfl rfl
  | check h hcap =>
    exact hi.producer (by simp [h]) (fun _ => hi.inside (by simp [h, Entry.inside])) rfl rfl rfl
  | giveUp h =>
    exact hi.producer (by rcases h with h | h <;> simp [h]) (by simp [Entry.inside]) rfl rfl rfl
  | build h ho hg hid hfresh =>
    exact hi.producer (by simp [h]) (fun _ => hi.inside (by simp [h, Entry.inside])) rfl rfl rfl
  | reserve h | overflow h | push _ h =>
    exact hi.producer (by simp [h]) (fun _ => hi.inside (by simp [h, Entry.inside])) rfl rfl rfl
  | undo h | countAccepted h =>
    exact hi.producer (by simp [h]) (by simp [Entry.inside]) rfl rfl rfl
  -- the holder of the consent lock
  | @enter st pc h hpc =>
    refine .holding rfl ?_ hi.owed hi.inside
    subst hpc
    by_cases hst : st = ConsentState.granted
    · cases hreq : c.purgeRequired
      · simp [Holds, hst, ConsentPc.inSection, ConsentPc.owes]
      · simp [Holds, hst, ConsentPc.inSection, ConsentPc.owes, hi.owed hreq]
    · simp [Holds, hst, ConsentPc.inSection, ConsentPc.owes]
  | @revoke st h he =>
    have hst : st ≠ .granted := (hi.holder _ _ h).2.2.2.1 (Or.inr rfl)
    exact .holding rfl (by simp [Holds, ConsentPc.inSection, ConsentPc.owes, hst])
      (fun _ => hst) (by simp [Entry.inside])
  | bump h => exact hi.section_ h rfl rfl rfl rfl rfl rfl rfl nofun
  | clear h =>
    refine hi.section_ h rfl rfl ?_ rfl rfl rfl rfl ?_
    · split <;> rfl
    · split <;> exact nofun
  | countCleared h => exact hi.section_ h rfl rfl rfl rfl rfl rfl rfl nofun
  | owe h => exact hi.section_ h rfl rfl rfl rfl rfl rfl rfl fun _ => rfl
  | discardRetry h =>
    refine hi.section_ h rfl rfl ?_ rfl rfl rfl rfl fun _ => (hi.holder _ _ h).2.1 rfl
    split <;> rfl
  | countDiscarded h =>
    exact hi.section_ h rfl rfl rfl rfl rfl rfl rfl fun _ => (hi.holder _ _ h).2.1 rfl
  | unlock h => exact hi.purging h rfl rfl ⟨rfl, rfl⟩ nofun rfl rfl
  | mark h hl hev hm => exact hi.purging h rfl rfl ⟨rfl, rfl⟩ hi.inside rfl rfl
  | purgeAll h hl hv => exact hi.purging h rfl rfl ⟨rfl, rfl⟩ hi.inside rfl rfl
  | @settle st h =>
    by_cases hst : st = ConsentState.granted
    · refine .holding (if_pos hst) ?_ nofun hi.inside
      simp [Holds, ConsentPc.inSection, ConsentPc.owes, hst]
    · exact .released (if_neg hst) nofun hi.inside
  | fail h => exact .released rfl hi.owed hi.inside
  | grant h he =>
    obtain ⟨hst, hreq⟩ := (hi.holder _ _ h).2.2.2.2 rfl
    exact .released rfl (by simp [hreq]) (fun _ => hst)
  -- the worker
  | _ => exact ⟨hi.owed, hi.inside, hi.holder⟩

theorem gated_of_reachable (h : Reachable env c) : Gated c :=
  Lts.Reachable.rule (fun _ => gated_start) (fun _ _ _ => gated_step) h

/-! ### What a move does to consent -/

/-- A move that leaves consent, its generation and the fence alone. -/
structure Quiet (c c' : Custody) : Prop where
  consent : c'.consent = c.consent
  generation : c'.generation = c.generation
  fence : c'.history.fence = c.history.fence
  revocations : c'.history.revocations = c.history.revocations
  /-- A revocation that has not bumped the generation still has not. -/
  bump : ∀ st, c.revocation = some (st, .bump) → c'.revocation = some (st, .bump)

/-- What is left untouched by a move of the consent lock that is not quiet. -/
structure Still (c c' : Custody) : Prop where
  line : c'.line = c.line
  stage : c'.stage = c.stage
  store : c'.store = c.store
  ordinal : c'.ordinal = c.ordinal
  discarded : c'.history.discarded = c.history.discarded
  purged : c'.history.purged = c.history.purged

/-- **A move is quiet, or it is one of the three that change consent.** -/
theorem Step.consent_cases (hs : Step env c c') (hi : Gated c) :
    Quiet c c' ∨
      (Still c c' ∧ c'.generation = c.generation ∧ c'.history.fence = c.ordinal + 1 ∧
        c'.history.revocations = c.history.revocations + 1 ∧ c'.consent ≠ .granted ∧
        ∃ st, c'.revocation = some (st, .bump)) ∨
      (Still c c' ∧ c'.generation = c.generation + 1 ∧ c'.history.fence = c.history.fence ∧
        c'.history.revocations = c.history.revocations ∧ c'.consent = c.consent ∧
        ∃ st, c.revocation = some (st, .bump)) ∨
      (Still c c' ∧ c'.generation = c.generation ∧ c'.history.fence = c.history.fence ∧
        c'.history.revocations = c.history.revocations ∧ c'.consent = .granted ∧
        ∃ st, c.revocation = some (st, .grant)) := by
  cases hs with
  | @revoke st h he =>
    refine Or.inr (Or.inl ⟨⟨?_, rfl, rfl, rfl, rfl, rfl⟩, rfl, rfl, rfl, ?_, st, rfl⟩)
    · simp [line, he, Entry.events]
    · exact (hi.holder _ _ h).2.2.2.1 (Or.inr rfl)
  | bump h =>
    exact Or.inr (Or.inr (Or.inl ⟨⟨rfl, rfl, rfl, rfl, rfl, rfl⟩, rfl, rfl, rfl, rfl, _, h⟩))
  | grant h he =>
    exact Or.inr (Or.inr (Or.inr ⟨⟨rfl, rfl, rfl, rfl, rfl, rfl⟩, rfl, rfl, rfl,
      ((hi.holder _ _ h).2.2.2.2 rfl).1, _, h⟩))
  | enter h => exact Or.inl ⟨rfl, rfl, rfl, rfl, fun st hb => by simp [h] at hb⟩
  | clear h | countCleared h | owe h | discardRetry h | countDiscarded h | unlock h | mark h
  | purgeAll h | settle h => exact Or.inl ⟨rfl, rfl, rfl, rfl, fun st hb => by simp [h] at hb⟩
  | fail h =>
    exact Or.inl ⟨rfl, rfl, rfl, rfl, fun st hb => by rcases h with h | h <;> simp [h] at hb⟩
  | _ => exact Or.inl ⟨rfl, rfl, rfl, rfl, fun _ hb => hb⟩

/-- A generation the worker acts under was read before, or has just been. -/
theorem Step.view_cases (hs : Step env c c') {v : Nat} (h : c'.stage.view = some v) :
    (c.stage.view = some v ∧ ∀ e ∈ c'.stage.hands, e ∈ c.stage.hands) ∨ v = c.generation := by
  cases hs with
  | read _ | readAgain _ => exact Or.inr (Option.some.inj h).symm
  | stale hst | drop hst =>
    refine Or.inl ⟨by rw [hst]; exact h, fun e he => ?_⟩
    rw [hst]
    simp only [Stage.hands, List.mem_append, List.mem_cons] at he ⊢
    tauto
  | keep _ hst =>
    refine Or.inl ⟨by rw [hst]; exact h, fun e he => ?_⟩
    rw [hst]
    simp only [Stage.hands, List.map_append, List.map_cons, List.map_nil, List.mem_append,
      List.mem_cons, List.not_mem_nil, or_false] at he ⊢
    tauto
  | guard hst | pass hst =>
    exact Or.inl ⟨by rw [hst]; exact h, fun e he => by rw [hst]; simpa [Stage.hands] using he⟩
  | send hst => exact Or.inl ⟨by rw [hst]; exact h, by simp [Stage.hands]⟩
  | fetch => simp at h
  | drain | takeNothing | takeRetry | refuse | keptNothing | refuseKept | commit | insertFailed
  | hold | look | notSent | sent | notAcknowledged | acknowledge | refuseDelivery | outdated
  | purge | notPurged | reset | raise => simp [Stage.view] at h
  | _ => exact Or.inl ⟨h, fun _ he => he⟩

/-- What is kept was kept before, or has just passed the generation check. -/
theorem Step.kept_cases (hs : Step env c c') {k : Kept} (hk : k ∈ c'.stage.kept) :
    (k ∈ c.stage.kept ∧ c'.stage.view = c.stage.view) ∨
      ∃ kept r, c.stage = .holding (some k.qe.consentGeneration) kept (k.qe :: r) ∧
        c'.stage = .holding (some k.qe.consentGeneration) (kept ++ [k]) r := by
  cases hs with
  | stale hst | drop hst | guard hst | pass hst =>
    exact Or.inl ⟨by rw [hst]; exact hk, by rw [hst]; rfl⟩
  | @keep v kept e r _ hst hg =>
    simp only [Stage.kept, List.mem_append, List.mem_singleton] at hk
    rcases hk with hk | rfl
    · exact Or.inl ⟨by rw [hst]; exact hk, by rw [hst]; rfl⟩
    · rw [← hg] at hst ⊢
      exact Or.inr ⟨kept, r, hst, rfl⟩
  | fetch => simp at hk
  | drain | takeNothing | takeRetry | read | refuse | keptNothing | refuseKept | commit
  | insertFailed | hold | look | readAgain | send | notSent | sent | notAcknowledged
  | acknowledge | refuseDelivery | outdated | purge | notPurged | reset | raise =>
    simp [Stage.kept] at hk
  | _ => exact Or.inl ⟨hk, rfl⟩

/-- Why the worker purges: it has seen that consent is not granted, or that the
generation has moved. -/
theorem Step.purging_cases (hs : Step env c c') (h : c'.stage = .purging) :
    c.stage = .purging ∨ c.consent ≠ .granted ∨ ∃ v, c.stage.view = some v ∧ c.generation ≠ v := by
  cases hs with
  | refuse _ _ hc => exact Or.inr (Or.inl hc)
  | refuseDelivery _ hc => exact Or.inr (Or.inl hc)
  | outdated hst hg => exact Or.inr (Or.inr ⟨_, by rw [hst]; rfl, hg⟩)
  | fetch =>
    rcases Stage.offered_cases _ _ with ⟨-, ho⟩ | ⟨-, ho⟩ <;> exact absurd (ho.symm.trans h) nofun
  | drain | takeNothing | takeRetry | read | stale | drop | keep | keptNothing | guard
  | refuseKept | pass | commit | insertFailed | hold | look | readAgain | send | notSent | sent
  | notAcknowledged | acknowledge | purge | notPurged | reset | raise => exact absurd h nofun
  | _ => exact Or.inl h

/-- Why an event in the worker's hands may be discarded. -/
def Unwanted (c : Custody) (e : QueuedEvent) : Prop :=
  c.consent ≠ .granted ∨
    ∃ v, c.stage.view = some v ∧ (e.consentGeneration ≠ v ∨ c.generation ≠ v)

theorem mem_discard {l : List QueuedEvent} {x : Item}
    (hx : x ∈ (c.discard l).discarded ++ (c.discard l).purged) :
    x ∈ c.history.discarded ++ c.history.purged ∨ ∃ e ∈ l, x = e.item := by
  simp only [discard, List.mem_append, List.mem_map] at hx ⊢
  rcases hx with (hx | ⟨e, he, rfl⟩) | hx
  · exact Or.inl (Or.inl hx)
  · exact Or.inr ⟨e, he, rfl⟩
  · exact Or.inl (Or.inr hx)

theorem mem_purged {db : Database} {x : Item}
    (hx : x ∈ c.history.discarded ++ (c.history.purged ++ c.store.gone db)) :
    x ∈ c.history.discarded ++ c.history.purged ∨ ∃ r ∈ c.rows, x = r.item := by
  rw [← List.append_assoc, List.mem_append] at hx
  refine hx.imp id fun hx => ?_
  obtain ⟨r, hr, rfl⟩ := List.mem_map.mp hx
  exact ⟨r, (List.mem_filter.mp hr).1, rfl⟩

/-- **Who is discarded or purged, and why.** -/
theorem Step.gone_cases (hs : Step env c c') {x : Item}
    (hx : x ∈ c'.history.discarded ++ c'.history.purged) :
    x ∈ c.history.discarded ++ c.history.purged ∨
      (∃ e ∈ c.stage.hands, x = e.item ∧ Unwanted c e) ∨
      (∃ e ∈ c.line, x = e.item ∧ ∃ st pc, c.revocation = some (st, pc) ∧ pc.inSection = true) ∨
      (∃ r ∈ c.rows, x = r.item ∧
        (c.stage = .purging ∨ ∃ st, c.revocation = some (st, .purge))) := by
  cases hs with
  | refuse h hd hc =>
    rcases mem_discard hx with hx | ⟨e, he, hitem⟩
    · exact Or.inl hx
    · exact Or.inr (Or.inl ⟨e, by simp [h, Stage.hands, he], hitem, Or.inl hc⟩)
  | stale h hd hg =>
    rcases mem_discard hx with hx | ⟨e, he, hitem⟩
    · exact Or.inl hx
    refine Or.inr (Or.inl ⟨e, ?_, hitem, ?_⟩)
    · simp [h, Stage.hands, List.mem_singleton.mp he]
    · rw [List.mem_singleton.mp he]
      exact Or.inr ⟨_, by rw [h]; rfl, Or.inl hg⟩
  | refuseKept hd h =>
    rcases mem_discard hx with hx | ⟨e, he, hitem⟩
    · exact Or.inl hx
    refine Or.inr (Or.inl ⟨e, ?_, hitem, ?_⟩)
    · rcases h with ⟨h, -⟩ | ⟨h, -⟩ <;> simpa [h, Stage.hands] using he
    · rcases h with ⟨-, hc⟩ | ⟨h, hg⟩
      · exact Or.inl hc
      · exact Or.inr ⟨_, by rw [h]; rfl, Or.inr hg⟩
  | clear h | discardRetry h =>
    rcases mem_discard hx with hx | ⟨e, he, hitem⟩
    · exact Or.inl hx
    · exact Or.inr (Or.inr (Or.inl ⟨e, by simp [line, he], hitem, _, _, h, rfl⟩))
  | purge h hd hv =>
    rcases mem_purged (c := c) hx with hx | ⟨r, hr, hitem⟩
    · exact Or.inl hx
    · exact Or.inr (Or.inr (Or.inr ⟨r, hr, hitem, Or.inl h⟩))
  | purgeAll h hl hv =>
    rcases mem_purged (c := c) hx with hx | ⟨r, hr, hitem⟩
    · exact Or.inl hx
    · exact Or.inr (Or.inr (Or.inr ⟨r, hr, hitem, Or.inr ⟨_, h⟩⟩))
  | _ => exact Or.inl hx

/-! ### The fence -/

/-- **What the fence separates.** -/
structure Fenced (c : Custody) : Prop where
  fence_le : c.history.fence ≤ c.ordinal + 1
  /-- Without consent everything is below the fence. -/
  line_closed : c.consent ≠ .granted → ∀ e ∈ c.line, e.ordinal < c.history.fence
  rows_closed : c.consent ≠ .granted → ∀ r ∈ c.rows, r.ordinal < c.history.fence
  /-- An event at or above the fence carries the current generation. -/
  fresh : ∀ e ∈ c.line, c.history.fence ≤ e.ordinal → e.consentGeneration = c.generation
  /-- An event below it does not, from the moment the generation is bumped. -/
  old : ∀ e ∈ c.line, e.ordinal < c.history.fence →
    e.consentGeneration < c.generation ∨ ∃ st, c.revocation = some (st, .bump)
  le : ∀ e ∈ c.line, e.consentGeneration ≤ c.generation
  /-- A generation the worker has read is current, if it concerns anything new. -/
  view : ∀ v, c.stage.view = some v →
    ((∃ e ∈ c.stage.hands, c.history.fence ≤ e.ordinal) ∨
      ∃ r ∈ c.rows, c.history.fence ≤ r.ordinal) → v = c.generation
  /-- What is kept for insertion carries the generation that was read. -/
  kept : ∀ k ∈ c.stage.kept, c.stage.view = some k.qe.consentGeneration
  /-- A purge that was decided finds nothing new. -/
  purging : c.stage = .purging → ∀ r ∈ c.rows, r.ordinal < c.history.fence
  /-- What was discarded or purged was below the fence. -/
  gone : ∀ x ∈ c.history.discarded ++ c.history.purged, x.ordinal < c.history.fence

theorem mem_line_of_hands {e : QueuedEvent} (he : e ∈ c.stage.hands) : e ∈ c.line := by
  simp [line, he]

theorem fenced_start (h : Start env c) : Fenced c := by
  have hline : c.line = [] := by
    simp [Custody.line, h.queue, h.retry, h.stage, h.entry, Stage.hands, Entry.events]
  obtain ⟨earlier, hhist⟩ := h.history
  refine ⟨by simp [hhist], by simp [hline], fun hc r hr => ?_, by simp [hline], by simp [hline],
    by simp [hline], by simp [h.stage, Stage.view], by simp [h.stage, Stage.kept],
    by simp [h.stage], by simp [hhist]⟩
  simp [h.rows hc] at hr

/-- An event that is discarded, or a row that is purged, is below the fence. -/
theorem Fenced.gone_step (hi : Fenced c) (ho : Ordered c) (hg : Gated c) (hs : Step env c c')
    {x : Item} (hx : x ∈ c'.history.discarded ++ c'.history.purged) :
    x.ordinal < c.history.fence := by
  rcases hs.gone_cases hx with hx | ⟨e, he, rfl, hun⟩ | ⟨e, he, rfl, st, pc, hrev, hpc⟩ |
    ⟨r, hr, rfl, hwhy⟩
  · exact hi.gone x hx
  · by_contra hlt
    rw [Nat.not_lt] at hlt
    have hgen := hi.fresh e (mem_line_of_hands he) hlt
    rcases hun with hc | ⟨v, hv, hne⟩
    · exact absurd (hi.line_closed hc e (mem_line_of_hands he)) (Nat.not_lt.mpr hlt)
    · have hcur := hi.view v hv (Or.inl ⟨e, he, hlt⟩)
      rcases hne with hne | hne
      · exact hne (hgen.trans hcur.symm)
      · exact hne hcur.symm
  · obtain ⟨-, -, hfence⟩ := (hg.holder st pc hrev).1 hpc
    have := (ho.bound e he).2
    simp only [QueuedEvent.item_ordinal]
    omega
  · rcases hwhy with hp | ⟨st, hrev⟩
    · exact hi.purging hp r hr
    · exact hi.rows_closed ((hg.holder st _ hrev).2.2.1 (Or.inr rfl)) r hr

theorem mem_hands_of_committing {v : Nat} {k : List Kept} (h : c.stage = .committing v k) {x : Kept}
    (hx : x ∈ k) : x.qe ∈ c.stage.hands := by
  rw [h]
  exact List.mem_map_of_mem hx

/-- A move that leaves consent alone. -/
theorem Fenced.quiet (hi : Fenced c) (ho : Ordered c) (hg : Gated c) (hs : Step env c c')
    (hq : Quiet c c') : Fenced c' := by
  have hrows : ∀ r ∈ c'.rows, r ∈ c.rows ∨
      (c'.stage = .idle ∧ ∃ e ∈ c.stage.hands, r.ordinal = e.ordinal) := by
    intro r hr
    refine (hs.mem_rows hr).imp id fun ⟨v, k, hst, hst', x, hx, hitem⟩ => ?_
    exact ⟨hst', x.qe, mem_hands_of_committing hst hx, congrArg Item.ordinal hitem⟩
  refine ⟨?_, ?_, ?_, ?_, ?_, ?_, ?_, ?_, ?_, ?_⟩
  · have := hs.ordinal_le ho.retry
    have := hi.fence_le
    rw [hq.fence]
    omega
  · rw [hq.consent, hq.fence]
    intro hc e he
    rcases hs.mem_line ho.retry he with he | ⟨hent, -, -⟩
    · exact hi.line_closed hc e he
    · exact absurd (hg.inside (by rw [hent]; rfl)) hc
  · rw [hq.consent, hq.fence]
    intro hc r hr
    rcases hrows r hr with hr | ⟨-, e, he, heq⟩
    · exact hi.rows_closed hc r hr
    · exact heq ▸ hi.line_closed hc e (mem_line_of_hands he)
  · rw [hq.generation, hq.fence]
    intro e he hle
    rcases hs.mem_line ho.retry he with he | ⟨-, -, hgen, -⟩
    · exact hi.fresh e he hle
    · exact hgen
  · rw [hq.generation, hq.fence]
    intro e he hlt
    rcases hs.mem_line ho.retry he with he | ⟨-, hord, -⟩
    · exact (hi.old e he hlt).imp id fun ⟨st, hb⟩ => ⟨st, hq.bump st hb⟩
    · have := hi.fence_le
      omega
  · rw [hq.generation]
    intro e he
    rcases hs.mem_line ho.retry he with he | ⟨-, -, hgen, -⟩
    · exact hi.le e he
    · exact Nat.le_of_eq hgen
  · rw [hq.generation, hq.fence]
    intro v hv hnew
    rcases hs.view_cases hv with ⟨hv', hhands⟩ | hv'
    · refine hi.view v hv' (hnew.imp (fun ⟨e, he, hle⟩ => ⟨e, hhands e he, hle⟩) ?_)
      rintro ⟨r, hr, hle⟩
      rcases hrows r hr with hr | ⟨hidle, -⟩
      · exact ⟨r, hr, hle⟩
      · simp [hidle, Stage.view] at hv
    · exact hv'
  · intro k hk
    rcases hs.kept_cases hk with ⟨hk, hv⟩ | ⟨kept, r, -, hst⟩
    · rw [hv]
      exact hi.kept k hk
    · rw [hst]
      rfl
  · rw [hq.fence]
    intro hp r hr
    have hr : r ∈ c.rows := by
      rcases hrows r hr with hr | ⟨hidle, -⟩
      · exact hr
      · simp [hp] at hidle
    rcases hs.purging_cases hp with hp | hc | ⟨v, hv, hne⟩
    · exact hi.purging hp r hr
    · exact hi.rows_closed hc r hr
    · by_contra hlt
      exact hne (hi.view v hv (Or.inr ⟨r, hr, Nat.not_lt.mp hlt⟩)).symm
  · rw [hq.fence]
    exact fun x hx => hi.gone_step ho hg hs hx

/-- A move after which everything there is lies below the fence. -/
theorem Fenced.below (hi : Fenced c) (ho : Ordered c) (hk : Still c c')
    (hfence : c'.history.fence = c.ordinal + 1) (hle : c.history.fence ≤ c'.history.fence)
    (hgen : c.generation ≤ c'.generation)
    (hold : ∀ e ∈ c.line, e.consentGeneration < c'.generation ∨
      ∃ st, c'.revocation = some (st, .bump)) : Fenced c' := by
  have hline : ∀ e ∈ c.line, e.ordinal < c'.history.fence := fun e he => by
    rw [hfence]
    exact Nat.lt_succ_of_le (ho.bound e he).2
  have hrows : ∀ r ∈ c.rows, r.ordinal < c'.history.fence := fun r hr => by
    rw [hfence]
    exact Nat.lt_succ_of_le (ho.rows r hr).1
  have hrows' : c'.rows = c.rows := by rw [rows, hk.store, rows]
  refine ⟨by rw [hfence, hk.ordinal], ?_, ?_, ?_, ?_, ?_, ?_, ?_, ?_, ?_⟩
  · rw [hk.line]
    exact fun _ => hline
  · rw [hrows']
    exact fun _ => hrows
  · rw [hk.line]
    exact fun e he hle => absurd (hline e he) (Nat.not_lt.mpr hle)
  · rw [hk.line]
    exact fun e he _ => hold e he
  · rw [hk.line]
    exact fun e he => Nat.le_trans (hi.le e he) hgen
  · rw [hk.stage, hrows']
    rintro v - (⟨e, he, hle⟩ | ⟨r, hr, hle⟩)
    · exact absurd (hline e (mem_line_of_hands he)) (Nat.not_lt.mpr hle)
    · exact absurd (hrows r hr) (Nat.not_lt.mpr hle)
  · rw [hk.stage]
    exact hi.kept
  · rw [hrows']
    exact fun _ => hrows
  · rw [hk.discarded, hk.purged]
    exact fun x hx => Nat.lt_of_lt_of_le (hi.gone x hx) hle

/-- **The fence separates, whatever is done.** -/
theorem fenced_step (hi : Fenced c) (ho : Ordered c) (hg : Gated c) (hs : Step env c c') :
    Fenced c' := by
  rcases hs.consent_cases hg with hq | ⟨hk, hgen, hfence, -, -, hrev⟩ |
    ⟨hk, hgen, hfence, -, hcons, st, hrev⟩ | ⟨hk, hgen, hfence, -, hcons, st, hrev⟩
  · exact hi.quiet ho hg hs hq
  · -- a revocation begins
    exact hi.below ho hk hfence (hfence ▸ hi.fence_le) (Nat.le_of_eq hgen.symm)
      fun _ _ => Or.inr hrev
  · -- the generation is bumped: no event has been admitted since the fence was drawn
    obtain ⟨-, -, hfull⟩ := (hg.holder st _ hrev).1 rfl
    refine hi.below ho hk (hfence.trans hfull) (Nat.le_of_eq hfence.symm) (by omega) fun e he => ?_
    have := hi.le e he
    exact Or.inl (by omega)
  · -- consent is granted again
    have hrows' : c'.rows = c.rows := by rw [rows, hk.store, rows]
    refine ⟨by rw [hfence, hk.ordinal]; exact hi.fence_le, fun hc => absurd hcons hc,
      fun hc => absurd hcons hc, ?_, ?_, ?_, ?_, ?_, ?_, ?_⟩
    · rw [hk.line, hfence, hgen]
      exact hi.fresh
    · rw [hk.line, hfence, hgen]
      intro e he hlt
      refine (hi.old e he hlt).imp id ?_
      rintro ⟨st', hb⟩
      simp [hrev] at hb
    · rw [hk.line, hgen]
      exact hi.le
    · rw [hk.stage, hrows', hfence, hgen]
      exact hi.view
    · rw [hk.stage]
      exact hi.kept
    · rw [hk.stage, hrows', hfence]
      exact hi.purging
    · rw [hk.discarded, hk.purged, hfence]
      exact hi.gone

theorem fenced_of_reachable (h : Reachable env c) : Fenced c :=
  Lts.Reachable.rule (fun _ => fenced_start)
    (fun _ _ hr hi hs => fenced_step hi (ordered_of_reachable hr) (gated_of_reachable hr) hs) h

end Custody

end PlayerTrace
