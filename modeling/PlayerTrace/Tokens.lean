import PlayerTrace.Control.Exits
import PlayerTrace.Flush
import PlayerTrace.Shutdown

/-!
# Every flush token gets its own answer

A pass answers all the tokens it has latched, and the end of the thread answers the rest, by
a refusal. Both write into one map that keeps the 256 latest answers, and a wait that finds
none has to tell two cases apart by the largest key: a token above it was drawn after the
worker had ended, a token below it has expired.

Passes answer the tokens in order, so the map is always the tail of one list: the outcomes of
the passes, then the refusals (`PlayerTrace.Recorded`). What a wait reports can then be read
off the position of the token in it (`PlayerTrace.Recorded.outcome`).

The test against the largest key is right as long as at most 256 tokens are refused at the
end. With more of them the first refusals are pruned at once, and a token that no pass ever
serviced is told that its result was discarded (`PlayerTrace.unserviced_expires`).
-/

namespace PlayerTrace

variable {env : Env} {i : Input} {l : Label} {s s' : State} {w : List (Nat × Status)}

/-! ### The map of results -/

namespace Worker

theorem setResult_of_lt {k : Nat} {v : Status} {m : List (Nat × Status)}
    (h : ∀ p ∈ m, p.1 < k) : setResult k v m = m ++ [(k, v)] := by
  induction m with
  | nil => rfl
  | cons p m ih =>
    have hp : p.1 < k := h p List.mem_cons_self
    rw [setResult, if_neg (by omega), if_neg (by omega),
      ih fun q hq => h q (List.mem_cons_of_mem _ hq)]
    rfl

/-- Answers for the tokens that follow are put behind those that are there. -/
theorem setResults_of_lt {m : List (Nat × Status)} {first : Nat} (last : Nat) (v : Status)
    (h : ∀ p ∈ m, p.1 < first) :
    setResults m first last v = m ++ (List.range' first (last + 1 - first)).map (·, v) := by
  unfold setResults
  generalize last + 1 - first = n
  induction n generalizing m first with
  | zero => simp
  | succ n ih =>
    rw [List.range'_succ, List.foldl_cons, setResult_of_lt h, ih, List.map_cons, List.append_assoc]
    · rfl
    · intro p hp
      rcases List.mem_append.mp hp with hp | hp
      · exact Nat.lt_succ_of_lt (h p hp)
      · obtain rfl := List.mem_singleton.mp hp
        exact Nat.lt_succ_self _

/-- What is pruned twice is pruned once. -/
theorem prune_append (m x : List (Nat × Status)) : prune (prune m ++ x) = prune (m ++ x) := by
  unfold prune
  generalize kMaxRetainedPasses = n
  rw [List.length_append, List.length_append, List.length_drop]
  rcases Nat.le_total m.length n with h | h
  · rw [Nat.sub_eq_zero_of_le h, List.drop_zero, Nat.sub_zero]
  · rw [Nat.sub_sub_self h, ← List.drop_append_of_le_length (Nat.sub_le _ _), List.drop_drop]
    congr 1
    omega

theorem prune_prune (m : List (Nat × Status)) : prune (prune m) = prune m := by
  have h := prune_append m []
  rwa [List.append_nil, List.append_nil] at h

end Worker

/-- The outcomes that a step records: those of the tokens the pass has latched. -/
def serviced (s : State) : Label → List (Nat × Status)
  | .worker i =>
    match i.raise, s.frame.pc with
    | none, .record outcome =>
      (List.range' (s.frame.handledFlush + 1) (s.frame.want - s.frame.handledFlush)).map
        (·, outcome)
    | _, _ => []
  | _ => []

/-- The answers to all tokens, in order: those of the passes, and the refusals. -/
def answers (s : State) (w : List (Nat × Status)) : List (Nat × Status) :=
  w ++ (List.range' (s.frame.handledFlush + 1) (s.core.flushDone - s.frame.handledFlush)).map
    (·, Worker.unserviced)

/-- **What the map of results holds**, given the outcomes `w` of the passes. -/
structure Recorded (s : State) (w : List (Nat × Status)) : Prop where
  /-- The passes have answered the tokens up to `handled_flush`, each once. -/
  keys : w.map Prod.fst = List.range' 1 s.frame.handledFlush
  results : s.core.passResults = Worker.prune (answers s w)
  handled : s.frame.handledFlush ≤ s.frame.want
  done : s.frame.handledFlush ≤ s.core.flushDone
  running : s.core.finished = false → s.core.flushDone = s.frame.handledFlush

/-! ### What a step records -/

namespace Worker

/-- The counter that says up to which token an answer is there. -/
theorem remainsDone_flushDone (r : Remains) (why : Option Status) :
    (remainsDone s r why).core.flushDone = s.core.flushDone := by
  cases r <;> cases why <;> rfl

theorem enterRemains_flushDone (r : Remains) :
    (enterRemains s r).core.flushDone = s.core.flushDone := by
  unfold enterRemains
  split
  · exact remainsDone_flushDone r none
  · rfl

theorem afterDelivery_flushDone (d : Bool) :
    (afterDelivery s d).core.flushDone = s.core.flushDone := by
  unfold afterDelivery
  split
  · rfl
  · split
    · rfl
    · exact enterRemains_flushDone .loop

theorem afterPurge_flushDone (site : PurgeSite) :
    (afterPurge s site).core.flushDone = s.core.flushDone := by
  cases site with
  | incoming => rfl
  | delivery d => exact afterDelivery_flushDone d

theorem afterFetch_flushDone (d : Bool) (seen : Nat) (events : List SerializedEvent) :
    (afterFetch s d seen events).core.flushDone = s.core.flushDone := by
  unfold afterFetch
  split
  · exact afterDelivery_flushDone d
  · rfl

theorem reportFetch_flushDone (d : Bool) (seen : Nat) (pending : FetchResult) :
    (reportFetch s d seen pending).core.flushDone = s.core.flushDone := by
  unfold reportFetch
  split
  · rfl
  · exact afterFetch_flushDone d seen pending.events

/-- A statement that records nothing. -/
theorem execute_flushDone (h : execute env i s = some s') (hrec : ∀ o, s.frame.pc ≠ .record o)
    (hfin : s.frame.pc ≠ .finish) : s'.core.flushDone = s.core.flushDone := by
  unfold execute at h
  generalize hpc : s.frame.pc = pc at h
  cases pc with
  | record o => exact absurd hpc (hrec o)
  | finish => exact absurd hpc hfin
  | exited => cases h
  | takeRetry l =>
    dsimp only [takeRetry] at h
    split at h
    · obtain rfl := Option.some.inj h
      split <;> rfl
    · cases h
  | holdForRetry l =>
    dsimp only [holdForRetry] at h
    split at h
    · obtain rfl := Option.some.inj h; rfl
    split at h
    · obtain rfl := Option.some.inj h; rfl
    · cases h
  | remainsRetry r =>
    dsimp only [remainsRetry] at h
    split at h
    · obtain rfl := Option.some.inj h
      split
      · exact remainsDone_flushDone r _
      · rfl
    · cases h
  | serialize v k batch =>
    obtain rfl := Option.some.inj h
    cases batch with
    | nil =>
      simp only [serialize]
      split <;> rfl
    | cons e batch =>
      simp only [serialize]
      split
      · rfl
      · split <;> rfl
  | fetch d seen =>
    obtain rfl := Option.some.inj h
    unfold fetch
    dsimp only
    split
    · rfl
    · exact reportFetch_flushDone d seen _
  | countQuarantined d seen p =>
    obtain rfl := Option.some.inj h
    exact reportFetch_flushDone d seen p
  | noteFetch d seen p => obtain rfl := Option.some.inj h; exact afterFetch_flushDone d seen _
  | noteWrite d | noteAck d => obtain rfl := Option.some.inj h; exact afterDelivery_flushDone d
  | notePurge site | resetOutstanding site =>
    obtain rfl := Option.some.inj h
    exact afterPurge_flushDone site
  | readBarrier => obtain rfl := Option.some.inj h; exact enterRemains_flushDone .loop
  | takeOutcome => obtain rfl := Option.some.inj h; exact enterRemains_flushDone _
  | remainsQueue r =>
    obtain rfl := Option.some.inj h
    unfold remainsQueue
    split
    · exact remainsDone_flushDone r _
    · rfl
  | remainsStore r =>
    obtain rfl := Option.some.inj h
    unfold remainsStore
    split
    · exact remainsDone_flushDone r _
    · split <;> exact remainsDone_flushDone r _
  | stallCheck q =>
    obtain rfl := Option.some.inj h
    unfold stallCheck
    split
    · rfl
    · exact enterRemains_flushDone .loop
  | checkConsent =>
    obtain rfl := Option.some.inj h
    unfold checkConsent
    split <;> rfl
  | boundaryConsent =>
    obtain rfl := Option.some.inj h
    unfold boundaryConsent
    split <;> rfl
  | boundaryGeneration =>
    obtain rfl := Option.some.inj h
    unfold boundaryGeneration
    split <;> rfl
  | insert =>
    obtain rfl := Option.some.inj h
    unfold insert
    dsimp only
    split <;> rfl
  | deliverConsent =>
    obtain rfl := Option.some.inj h
    unfold deliverConsent
    split <;> rfl
  | recheckConsent =>
    obtain rfl := Option.some.inj h
    unfold recheckConsent
    split <;> rfl
  | write =>
    obtain rfl := Option.some.inj h
    unfold write
    dsimp only
    split <;> rfl
  | postConsent =>
    obtain rfl := Option.some.inj h
    unfold postConsent
    split <;> rfl
  | postGeneration =>
    obtain rfl := Option.some.inj h
    unfold postGeneration
    split <;> rfl
  | acknowledge =>
    obtain rfl := Option.some.inj h
    unfold acknowledge
    dsimp only
    split <;> rfl
  | purge =>
    obtain rfl := Option.some.inj h
    unfold purge
    dsimp only
    split <;> rfl
  | flushSink =>
    obtain rfl := Option.some.inj h
    unfold flushSink
    dsimp only
    split <;> rfl
  | start | latch | clearError | pop | readGeneration | countRevoked | countStale | countInvalid
  | countBoundary | noteInsert | countPersisted | deliverGeneration | countDelivered | queueBefore
  | popMore | noteFlushSink | checkStop | stopped | terminate | reportTerminal =>
    obtain rfl := Option.some.inj h
    rfl

end Worker

/-- **What a step of the worker does to the answers.** -/
theorem Worker.step_answers (h : Worker.step env i s = some s') :
    (∃ o, s.frame.pc = .record o ∧ i.raise = none ∧ s' = Worker.record s o) ∨
      (serviced s (.worker i) = [] ∧
        ((s.frame.pc = .finish ∧ s' = Worker.finish s) ∨
          (s'.core.passResults = s.core.passResults ∧ s'.core.flushDone = s.core.flushDone ∧
            s'.core.finished = s.core.finished ∧ s'.frame.handledFlush = s.frame.handledFlush ∧
            (s'.frame.want = s.frame.want ∨ s'.frame.want = s.core.flushSeq)))) := by
  have hpass := (Worker.step_pass h).2
  unfold Worker.step at h
  split at h
  · cases h
  split at h
  · rename_i what hraise
    split at h
    · obtain rfl := Option.some.inj h
      exact Or.inr ⟨by simp [serviced, hraise], Or.inr ⟨rfl, rfl, rfl, rfl, Or.inl rfl⟩⟩
    · cases h
  · rename_i hraise
    by_cases hrec : ∃ o, s.frame.pc = .record o
    · obtain ⟨o, hpc⟩ := hrec
      simp only [Worker.execute, hpc] at h
      exact Or.inl ⟨o, hpc, hraise, (Option.some.inj h).symm⟩
    have hrec : ∀ o, s.frame.pc ≠ .record o := fun o ho => hrec ⟨o, ho⟩
    have hnone : serviced s (.worker i) = [] := by
      simp only [serviced, hraise]
      split
      · rename_i o _ hpc
        exact absurd hpc (hrec o)
      · rfl
    refine Or.inr ⟨hnone, ?_⟩
    by_cases hfin : s.frame.pc = .finish
    · simp only [Worker.execute, hfin] at h
      exact Or.inl ⟨hfin, (Option.some.inj h).symm⟩
    have hdone := Worker.execute_flushDone h hrec hfin
    refine Or.inr ?_
    cases hpass with
    | plain hidle | vacuous _ _ hidle | ending _ hidle =>
      refine ⟨hidle.passResults, hdone, hidle.finished, ?_, Or.inl ?_⟩ <;> rw [hidle.frame]
    | latch _ hcore _ hf =>
      obtain ⟨pending, pc, -, hf⟩ := hf
      exact ⟨by rw [hcore], hdone, by rw [hcore], by rw [hf], Or.inr (by rw [hf])⟩
    | readBarrier _ hcore _ hf =>
      obtain ⟨pc, -, hf⟩ := hf
      exact ⟨by rw [hcore], hdone, by rw [hcore], by rw [hf], Or.inl (by rw [hf])⟩
    | popMore _ hcore _ hf =>
      obtain ⟨batch, site, hf⟩ := hf
      exact ⟨by rw [hcore], hdone, by rw [hcore], by rw [hf], Or.inl (by rw [hf])⟩
    | record hpc => exact absurd hpc (hrec _)
    | finish hpc => exact absurd hpc hfin
    | raise hr => cases hr.symm.trans hraise
    | write _ hs | queueClear _ _ hs | retryClear _ _ hs | storeClear _ _ hs | failed _ _ hs
    | stop _ _ hs =>
      subst hs
      exact ⟨rfl, rfl, rfl, rfl, Or.inl rfl⟩

/-! ### The invariant -/

namespace Recorded

/-- All answered tokens have one answer. -/
theorem answers_keys (h : Recorded s w) :
    (answers s w).map Prod.fst = List.range' 1 s.core.flushDone := by
  have hle := h.done
  rw [answers, List.map_append, h.keys, List.map_map]
  have hfst : (Prod.fst ∘ fun k : Nat => (k, Worker.unserviced)) = id := rfl
  rw [hfst, List.map_id, show s.frame.handledFlush + 1 = 1 + s.frame.handledFlush by omega,
    List.range'_append_1]
  congr 1
  omega

theorem answers_lt (h : Recorded s w) : ∀ p ∈ answers s w, p.1 < s.core.flushDone + 1 := by
  intro p hp
  have hmem : p.1 ∈ (answers s w).map Prod.fst := List.mem_map_of_mem hp
  rw [h.answers_keys, List.mem_range'_1] at hmem
  omega

theorem results_lt (h : Recorded s w) :
    ∀ p ∈ s.core.passResults, p.1 < s.core.flushDone + 1 := by
  intro p hp
  rw [h.results] at hp
  exact h.answers_lt p (List.mem_of_mem_drop hp)

/-- Nothing is refused while the worker runs. -/
theorem answers_eq (h : Recorded s w) (hfin : s.core.finished = false) : answers s w = w := by
  rw [answers, h.running hfin, Nat.sub_self]
  exact List.append_nil w

end Recorded

/-- The fields the record depends on. -/
theorem Recorded.of_same (h : Recorded s w) (hres : s'.core.passResults = s.core.passResults)
    (hdone : s'.core.flushDone = s.core.flushDone) (hfin : s'.core.finished = s.core.finished)
    (hhan : s'.frame.handledFlush = s.frame.handledFlush)
    (hwant : s.frame.handledFlush ≤ s'.frame.want) : Recorded s' w := by
  have hans : answers s' w = answers s w := by rw [answers, answers, hhan, hdone]
  exact ⟨by rw [hhan]; exact h.keys, by rw [hres, hans]; exact h.results, by rw [hhan]; exact hwant,
    by rw [hhan, hdone]; exact h.done, by rw [hhan, hdone, hfin]; exact h.running⟩

/-- A pass records one outcome for all the tokens it has latched. -/
theorem recorded_record {o : Status} (h : Recorded s w) (hfin : s.core.finished = false)
    (hpc : s.frame.pc = .record o) (hraise : i.raise = none) :
    Recorded (Worker.record s o) (w ++ serviced s (.worker i)) := by
  have hserv : serviced s (.worker i) = (List.range' (s.frame.handledFlush + 1)
      (s.frame.want - s.frame.handledFlush)).map (·, o) := by simp [serviced, hraise, hpc]
  have hhan := h.handled
  have hres := h.results
  rw [h.answers_eq hfin] at hres
  have hlt := h.results_lt
  rw [h.running hfin] at hlt
  have hset := Worker.setResults_of_lt s.frame.want o hlt
  rw [show s.frame.want + 1 - (s.frame.handledFlush + 1) = s.frame.want - s.frame.handledFlush by
    omega, ← hserv] at hset
  refine ⟨?_, ?_, Nat.le_refl _, Nat.le_refl _, fun _ => rfl⟩
  · rw [List.map_append, h.keys, hserv, List.map_map]
    have hfst : (Prod.fst ∘ fun k : Nat => (k, o)) = id := rfl
    rw [hfst, List.map_id, show s.frame.handledFlush + 1 = 1 + s.frame.handledFlush by omega,
      List.range'_append_1]
    simp only [Worker.record]
    congr 1
    omega
  · have hans : answers (Worker.record s o) (w ++ serviced s (.worker i)) =
        w ++ serviced s (.worker i) := by
      simp only [answers, Worker.record, Nat.sub_self, List.range'_zero, List.map_nil,
        List.append_nil]
    rw [hans]
    simp only [Worker.record]
    rw [hset, hres, Worker.prune_append]

/-- The end of the thread refuses the rest. -/
theorem recorded_finish (h : Recorded s w) (hfin : s.core.finished = false)
    (hseq : s.frame.handledFlush ≤ s.core.flushSeq) : Recorded (Worker.finish s) w := by
  have hres := h.results
  rw [h.answers_eq hfin] at hres
  have hlt := h.results_lt
  rw [h.running hfin] at hlt
  have hset := Worker.setResults_of_lt s.core.flushSeq Worker.unserviced hlt
  rw [show s.core.flushSeq + 1 - (s.frame.handledFlush + 1) =
    s.core.flushSeq - s.frame.handledFlush by omega] at hset
  refine ⟨h.keys, ?_, h.handled, hseq, nofun⟩
  simp only [answers, Worker.finish]
  rw [hset, hres, Worker.prune_append]

/-- A caller prunes what is pruned. -/
theorem Turn.passResults_eq {t : Tid} (h : Turn s t s')
    (hp : Worker.prune s.core.passResults = s.core.passResults) :
    s'.core.passResults = s.core.passResults := by
  have hprune : desk s' = (desk s).pruned → s'.core.passResults = s.core.passResults := fun hd => by
    rw [show s'.core.passResults = _ from congrArg Desk.passResults hd]
    simp only [Desk.pruned, desk]
    exact hp
  cases h with
  | flushed _ hd => exact hprune hd
  | close _ hd => rcases hd with ⟨-, hd⟩ | ⟨-, hd⟩ <;> exact congrArg Desk.passResults hd
  | advance _ hd =>
    rcases hd with hd | hd
    · exact congrArg Desk.passResults hd
    · exact hprune hd
  | plain hd | consented _ _ hd | flushBarrier _ hd | flushToken _ hd | flushTimeout _ _ hd
  | ordinal _ _ hd | barrier _ hd | token _ hd | stop _ hd | join _ hd | mark _ _ hd
  | finish _ hd => exact congrArg Desk.passResults hd

theorem recorded_of_reach (h : ((machine env).observed serviced).Reach (s, w)) : Recorded s w := by
  refine Lts.Machine.Reach.observed_rule (P := Recorded) (fun s hs => ?_)
    (fun s w l s' hr hi hs => ?_) h
  · obtain ⟨db, m, earlier, rfl⟩ := start_eq hs
    refine ⟨rfl, ?_, Nat.le_refl _, Nat.le_refl _, fun _ => rfl⟩
    simp [answers, Worker.prune, initial, State.remember]
  · rcases turn_of_step hr hs with ⟨i, rfl, hw⟩ | ⟨t, hl, ha, ht⟩
    · have hlatched := latched_of_reach hr
      have hnot : s.core.finished = false := by
        rw [← Bool.not_eq_true]
        intro hfin
        rw [Worker.step_exited ((closed_of_reach hr).exited hfin)] at hw
        cases hw
      rcases Worker.step_answers hw with ⟨o, hpc, hraise, rfl⟩ | ⟨hnone, hcases⟩
      · exact recorded_record hi hnot hpc hraise
      rw [hnone, List.append_nil]
      have hseq := Nat.le_trans hi.handled hlatched.want
      rcases hcases with ⟨-, rfl⟩ | ⟨hres, hdone, hfin, hhan, hwant⟩
      · exact recorded_finish hi hnot hseq
      · refine hi.of_same hres hdone hfin hhan ?_
        rcases hwant with hwant | hwant <;> rw [hwant]
        · exact hi.handled
        · exact hseq
    · have hnone : serviced s l = [] := by
        cases l with
        | worker i => exact absurd rfl (hl i)
        | _ => rfl
      rw [hnone, List.append_nil]
      have hdone : s'.core.flushDone = s.core.flushDone := by
        rcases course_of_step hr hs with ⟨i, rfl, -⟩ | ⟨u, -, -, hc⟩
        · exact absurd rfl (hl i)
        · exact hc.flushDone
      have hprune : Worker.prune s.core.passResults = s.core.passResults := by
        rw [hi.results, Worker.prune_prune]
      refine hi.of_same (ht.passResults_eq hprune) hdone ha.finished ?_ ?_
      · rw [ha.frame]
      · rw [ha.frame]
        exact hi.handled

/-! ### Reading the map -/

/-- In a map with different keys an entry is found by its key. -/
theorem lookup_of_mem {m : List (Nat × Status)} (hnd : (m.map Prod.fst).Nodup) {k : Nat}
    {v : Status} (h : (k, v) ∈ m) : m.lookup k = some v := by
  obtain ⟨before, after, rfl⟩ := List.append_of_mem h
  refine List.lookup_eq_some_iff.mpr ⟨before, after, rfl, fun p hp => ?_⟩
  rw [List.map_append, List.map_cons, List.nodup_append] at hnd
  exact bne_iff_ne.mpr (hnd.2.2 p.1 (List.mem_map_of_mem hp) k List.mem_cons_self).symm

namespace Recorded

variable {token : Nat} {v : Status}

/-- The keys of the map: the 256 latest answered tokens. -/
theorem results_keys (h : Recorded s w) : s.core.passResults.map Prod.fst =
    List.range' (1 + (s.core.flushDone - kMaxRetainedPasses))
      (s.core.flushDone - (s.core.flushDone - kMaxRetainedPasses)) := by
  have hlen : (answers s w).length = s.core.flushDone := by
    rw [← List.length_map Prod.fst, h.answers_keys, List.length_range']
  rw [h.results, Worker.prune, List.map_drop, h.answers_keys, hlen, List.drop_range', Nat.mul_one]

theorem results_nodup (h : Recorded s w) : (s.core.passResults.map Prod.fst).Nodup := by
  rw [h.results_keys]
  exact List.nodup_range'

/-- A token has one answer. -/
theorem answers_inj (h : Recorded s w) {v' : Status} (hv : (token, v) ∈ answers s w)
    (hv' : (token, v') ∈ answers s w) : v = v' := by
  have hnd : ((answers s w).map Prod.fst).Nodup := by
    rw [h.answers_keys]
    exact List.nodup_range'
  exact Option.some.inj ((lookup_of_mem hnd hv).symm.trans (lookup_of_mem hnd hv'))

/-- A recent answer is still there. -/
theorem result_recent (h : Recorded s w) (hv : (token, v) ∈ answers s w)
    (hrecent : s.core.flushDone < token + kMaxRetainedPasses) :
    Client.flushResult s.core token = v := by
  have hkey : token ∈ (answers s w).map Prod.fst := List.mem_map_of_mem hv
  rw [h.answers_keys, List.mem_range'_1] at hkey
  have hmem : token ∈ s.core.passResults.map Prod.fst := by
    rw [h.results_keys, List.mem_range'_1]
    omega
  obtain ⟨⟨k, v'⟩, hp, rfl⟩ := List.mem_map.mp hmem
  have hp' : (k, v') ∈ answers s w := List.mem_of_mem_drop (h.results ▸ hp)
  obtain rfl := h.answers_inj hv hp'
  rw [Client.flushResult, lookup_of_mem h.results_nodup hp]

/-- No answer is there for a token outside the window. -/
theorem lookup_none (h : Recorded s w)
    (hout : token + kMaxRetainedPasses ≤ s.core.flushDone ∨ s.core.flushDone < token) :
    s.core.passResults.lookup token = none := by
  refine List.lookup_eq_none_iff.mpr fun p hp => bne_iff_ne.mpr ?_
  rintro rfl
  have hkey : p.1 ∈ s.core.passResults.map Prod.fst := List.mem_map_of_mem hp
  rw [h.results_keys, List.mem_range'_1] at hkey
  omega

/-- An old answer has expired. -/
theorem result_old (h : Recorded s w) (hold : token + kMaxRetainedPasses ≤ s.core.flushDone) :
    Client.flushResult s.core token = Client.expired token := by
  rw [Client.flushResult, h.lookup_none (Or.inl hold)]
  refine if_neg fun ⟨_, hlast⟩ => ?_
  -- the largest key is that of the last answered token
  have hpos : 0 < kMaxRetainedPasses := by decide
  have hend : s.core.passResults.getLast?.map Prod.fst = some s.core.flushDone := by
    rw [← List.getLast?_map, h.results_keys, List.getLast?_range', if_neg (by omega)]
    exact congrArg some (by omega)
  obtain ⟨last, hmem, heq⟩ := Option.map_eq_some_iff.mp hend
  have hlt := hlast last hmem
  omega

/-- A token drawn after the end is refused. -/
theorem result_new (h : Recorded s w) (hfin : s.core.finished = true)
    (hnew : s.core.flushDone < token) : Client.flushResult s.core token = Worker.unserviced := by
  rw [Client.flushResult, h.lookup_none (Or.inr hnew)]
  refine if_pos ⟨hfin, fun last hlast => ?_⟩
  have hlt := h.results_lt last (List.mem_of_getLast? hlast)
  omega

/-- The passes have answered a token exactly if it is not above `handled_flush`. -/
theorem mem_serviced (h : Recorded s w) (hpos : 0 < token) :
    (∃ v, (token, v) ∈ w) ↔ token ≤ s.frame.handledFlush := by
  have hkey : token ∈ w.map Prod.fst ↔ token ≤ s.frame.handledFlush := by
    rw [h.keys, List.mem_range'_1]
    omega
  rw [← hkey, List.mem_map]
  exact ⟨fun ⟨v, hv⟩ => ⟨(token, v), hv, rfl⟩, fun ⟨p, hp, heq⟩ => ⟨p.2, heq ▸ hp⟩⟩

/-- **What a wait finds**, by the place of its token among the answers. -/
theorem outcome (h : Recorded s w) (hpos : 0 < token) (hready : Client.flushReady s token = true) :
    (∃ v, (token, v) ∈ w ∧ s.core.flushDone < token + kMaxRetainedPasses ∧
        Client.flushResult s.core token = v) ∨
      (token + kMaxRetainedPasses ≤ s.core.flushDone ∧
        Client.flushResult s.core token = Client.expired token) ∨
      (s.frame.handledFlush < token ∧ Client.flushResult s.core token = Worker.unserviced) := by
  rcases Nat.lt_or_ge s.core.flushDone (token + kMaxRetainedPasses) with hrecent | hold
  · rcases Nat.lt_or_ge s.frame.handledFlush token with hun | hserv
    · refine Or.inr (Or.inr ⟨hun, ?_⟩)
      rcases Nat.lt_or_ge s.core.flushDone token with hnew | hdone
      · refine h.result_new ?_ hnew
        simp only [Client.flushReady, Bool.or_eq_true, decide_eq_true_eq] at hready
        exact hready.resolve_left (by omega)
      · refine h.result_recent (List.mem_append_right _ (List.mem_map.mpr ⟨token, ?_, rfl⟩)) hrecent
        rw [List.mem_range'_1]
        omega
    · obtain ⟨v, hv⟩ := (h.mem_serviced hpos).mpr hserv
      exact Or.inl ⟨v, hv, hrecent, h.result_recent (List.mem_append_left _ hv) hrecent⟩
  · exact Or.inr (Or.inl ⟨hold, h.result_old hold⟩)

end Recorded

/-! ### Waiting -/

/-- A wait on `token` returns `status`: that of a flush, or that of the drain of a shutdown. -/
inductive WaitReturns (env : Env) (s : State) (token : Nat) (status : Status) : Prop
  | flush {t : Tid} {barrier : Nat} {i : Input} {s' : State}
      (hc : s.callers t = .flushWait token barrier) (hready : Client.flushReady s token = true)
      (hs : step env s (.caller t i) = some s')
      (hret : s'.callers t = .done (.flushed token barrier status))
  | drain {t : Tid} {d : Bool} {i : Input} {s' : State}
      (hc : s.callers t = .shutdownWait d token) (hready : Client.flushReady s token = true)
      (hs : step env s (.caller t i) = some s') (hret : s'.callers t = .shutdownStop d status)

theorem WaitReturns.ready {token : Nat} {status : Status} (h : WaitReturns env s token status) :
    Client.flushReady s token = true := by
  cases h with
  | flush _ hready | drain _ hready => exact hready

/-- A wait returns what it finds. -/
theorem WaitReturns.status_eq {token : Nat} {status : Status} (h : WaitReturns env s token status) :
    status = Client.flushOutcome s token := by
  cases h with
  | flush hc hready hs hret =>
    simp only [step, Client.step, hc, Client.flushWait, hready, if_true, Option.some.injEq] at hs
    subst hs
    rw [move_callers] at hret
    simpa using hret.symm
  | drain hc hready hs hret =>
    simp only [step, Client.step, hc, Client.shutdownWait, hready, if_true, Option.some.injEq] at hs
    subst hs
    rw [move_callers] at hret
    simpa using hret.symm

/-- The tokens of waiting callers, numbered from one. -/
def Caller.waitsOn : Caller → Option Nat
  | .flushWait token _ | .shutdownWait _ token => some token
  | _ => none

/-- A caller begins to wait when it has drawn its token. -/
theorem Turn.waitsOn_eq {t : Tid} {token : Nat} (h : Turn s t s')
    (hc : (s'.callers t).waitsOn = some token) :
    token = s.core.flushSeq + 1 ∧ s'.core.flushSeq = s.core.flushSeq + 1 := by
  have hplain : (s'.callers t).plain = true → False := fun hp => by
    cases hcs : s'.callers t <;> simp [hcs, Caller.plain, Caller.closing, Caller.waitsOn] at hp hc
  have hother : (s'.callers t).waitsOn = none → False := fun hn => by
    cases hn.symm.trans hc
  cases h with
  | plain _ hp => exact (hplain hp).elim
  | flushToken _ hd hc' | token _ hd hc' =>
    rw [hc'] at hc
    obtain rfl := Option.some.inj hc
    exact ⟨rfl, congrArg Desk.flushSeq hd⟩
  | @finish d _ _ _ hc' => cases d <;> exact (hother (by rw [hc']; rfl)).elim
  | close _ _ hc' => rcases hc' with ⟨d, hc'⟩ | hc' <;> exact (hother (by rw [hc']; rfl)).elim
  | advance _ _ hc' =>
    rcases hc' with ⟨d, hc'⟩ | hc' | ⟨d, st, hc'⟩ <;> exact (hother (by rw [hc']; rfl)).elim
  | stop _ _ hc' =>
    rcases hc' with ⟨d, st, hc'⟩ | hc' | hp
    · exact (hother (by rw [hc']; rfl)).elim
    · exact (hother (by rw [hc']; rfl)).elim
    · exact (hplain hp).elim
  | join _ _ hc' =>
    rcases hc' with ⟨-, d, st, hc'⟩ | hc' <;> exact (hother (by rw [hc']; rfl)).elim
  | mark _ _ _ hc' =>
    rcases hc' with ⟨-, d, st, hc'⟩ | hp
    · exact (hother (by rw [hc']; rfl)).elim
    · exact (hplain hp).elim
  | consented _ _ _ hc' | flushBarrier _ _ hc' | flushed _ _ hc' | flushTimeout _ _ _ hc'
  | ordinal _ _ _ hc' | barrier _ _ hc' => exact (hother (by rw [hc']; rfl)).elim

theorem token_pos (hr : (machine env).Reach s) {t : Tid} {token : Nat}
    (hc : (s.callers t).waitsOn = some token) : 0 < token := by
  refine hr.rule (P := fun s => ∀ t token, (s.callers t).waitsOn = some token → 0 < token)
    (fun s hs t token hc => ?_) (fun s l s' hr hi hs u token hc => ?_) t token hc
  · obtain ⟨db, m, earlier, rfl⟩ := start_eq hs
    cases hc
  · rcases turn_of_step hr hs with ⟨i, -, hw⟩ | ⟨t, -, ha, ht⟩
    · rw [(Worker.step_pass hw).1.callers] at hc
      exact hi u token hc
    · by_cases hut : u = t
      · subst hut
        exact (ht.waitsOn_eq hc).1 ▸ Nat.succ_pos _
      · rw [ha.others u hut] at hc
        exact hi u token hc

/-- **When every token gets its own, correctly classified answer.** Let `w` be the outcomes
recorded by the passes of a run, and let the worker not have ended by an exception. A wait on
a token reports exactly the outcome recorded for it by the pass that serviced it, if fewer than
256 later tokens have been answered; reports that the result is no longer available, if a pass
serviced it and at least 256 later tokens have been answered; and is refused with
`AlreadyShutdown`, if no pass ever serviced it – if and only if a pass serviced the token, or
fewer than 256 later tokens have been answered. A pass records one outcome for a token. -/
theorem flush_answered (h : ((machine env).observed serviced).Reach (s, w))
    (hexit : s.core.terminalStatus.ok = true) {token : Nat} {status : Status}
    (hw : WaitReturns env s token status) :
    ((token ≤ s.frame.handledFlush ∨ s.core.flushDone < token + kMaxRetainedPasses) ↔
      (∃ v, (token, v) ∈ w ∧ s.core.flushDone < token + kMaxRetainedPasses ∧ status = v) ∨
      ((∃ v, (token, v) ∈ w) ∧ token + kMaxRetainedPasses ≤ s.core.flushDone ∧
        status = Client.expired token) ∨
      ((∀ v, (token, v) ∉ w) ∧ status.code = .alreadyShutdown)) ∧
    ∀ v v', (token, v) ∈ w → (token, v') ∈ w → v = v' := by
  have hi := recorded_of_reach h
  have hpos : 0 < token := by
    cases id hw with
    | flush hc | drain hc =>
      exact token_pos (Lts.Machine.observed_reach h) (by rw [hc]; rfl)
  have hstatus : status = Client.flushResult s.core token := by
    rw [hw.status_eq, Client.flushOutcome, if_neg (by simp [hexit])]
  refine ⟨⟨fun hwhen => ?_, fun hanswer => ?_⟩, fun v v' hv hv' =>
    hi.answers_inj (List.mem_append_left _ hv) (List.mem_append_left _ hv')⟩
  · rcases hi.outcome hpos hw.ready with ⟨v, hv, hrecent, heq⟩ | ⟨hold, heq⟩ | ⟨hun, heq⟩
    · exact Or.inl ⟨v, hv, hrecent, hstatus.trans heq⟩
    · have hserv : token ≤ s.frame.handledFlush := hwhen.resolve_right (by omega)
      exact Or.inr (Or.inl ⟨(hi.mem_serviced hpos).mpr hserv, hold, hstatus.trans heq⟩)
    · refine Or.inr (Or.inr ⟨fun v hv => ?_, by rw [hstatus, heq]; rfl⟩)
      have hserv := (hi.mem_serviced hpos).mp ⟨v, hv⟩
      omega
  · rcases hanswer with ⟨v, -, hrecent, -⟩ | ⟨hserv, -⟩ | ⟨-, hcode⟩
    · exact Or.inr hrecent
    · exact Or.inl ((hi.mem_serviced hpos).mp hserv)
    · -- an old token that was refused is told that its result has expired
      refine Or.inr (Nat.lt_of_not_le fun hold => ?_)
      rw [hstatus, hi.result_old hold] at hcode
      cases hcode

/-- A flush of one event, answered by its pass. -/
theorem flush_answered_sample : ∃ s w, ((machine sample).observed serviced).Reach (s, w) ∧
    WaitReturns sample s 1 {} ∧ (1, {}) ∈ w := by
  obtain ⟨s, hr, hp⟩ := Lts.Machine.reach_of_exec sampleClient_start
    (Label.starts 1 "s" "e" ++ [.call 3 .flush] ++ Label.steps 3 4 ++ Label.works 34)
    (fun s => decide (s.callers 3 = .flushWait 1 1) && decide (s.frame.handledFlush = 1) &&
      Client.flushReady s 1 && s.core.terminalStatus.ok &&
      (step sample s (.caller 3 {})).any fun s' : State =>
        decide (s'.callers 3 = .done (.flushed 1 1 {}))) (by decide)
  simp only [Bool.and_eq_true, decide_eq_true_eq] at hp
  obtain ⟨⟨⟨⟨hc, hhan⟩, hready⟩, hexit⟩, hstep⟩ := hp
  obtain ⟨s', hs, hret⟩ : ∃ s', step sample s (.caller 3 {}) = some s' ∧
      s'.callers 3 = .done (.flushed 1 1 {}) := by
    rcases hs : step sample s (.caller 3 {}) with _ | s'
    · simp [hs] at hstep
    · exact ⟨s', rfl, by simpa [hs] using hstep⟩
  obtain ⟨w, hw⟩ := Lts.Machine.exists_observed serviced hr
  have hwait : WaitReturns sample s 1 {} := .flush hc hready hs hret
  refine ⟨s, w, hw, hwait, ?_⟩
  rcases (flush_answered hw hexit hwait).1.mp (Or.inl (by omega)) with
    ⟨v, hv, -, rfl⟩ | ⟨-, -, heq⟩ | ⟨-, hcode⟩
  · exact hv
  · exact absurd (congrArg Status.code heq) (by decide)
  · exact absurd hcode (by decide)

/-! ### A crowd of tokens -/

/-- One thread waits for token 1, another one has given up. -/
def crowdCallers (o : Outcome) : Tid → Caller
  | 1 => .flushWait 1 0
  | 2 => .done o
  | _ => .idle

/-- The worker is in an iteration without a flush, and `n` tokens have been drawn meanwhile. -/
def crowd (n : Nat) (issued : List (Nat × Nat)) (o : Outcome) : State :=
  { sampleClient with
    core := { flushSeq := n }, frame := { pc := .pop }, log := { issued := issued }
    callers := crowdCallers o }

/-- A flush that gives up at once. -/
def Label.flushes (t : Tid) : List Label :=
  .call t .flush :: steps t 4 ++ [.caller t { timeout := true }]

theorem crowd_grows (n : Nat) (issued : List (Nat × Nat)) (o : Outcome) :
    ∃ issued' o', (machine sample).exec (crowd n issued o) (Label.flushes 2) =
      some (crowd (n + 1) issued' o') := by
  let o' : Outcome := .flushed (n + 1) 0 ⟨.timeout, "flush did not complete in time"⟩
  have hex : ∃ f, (machine sample).exec (crowd n issued o) (Label.flushes 2) =
      some { crowd (n + 1) ((n + 1, 0) :: issued) o' with callers := f } ∧ f = crowdCallers o' := by
    refine ⟨_, rfl, ?_⟩
    funext t
    match t with
    | 0 | 1 | 2 | t + 3 => rfl
  obtain ⟨f, hex, rfl⟩ := hex
  exact ⟨_, o', hex⟩

theorem crowd_reach (n : Nat) : ∃ issued o, (machine sample).Reach (crowd (n + 2) issued o) := by
  induction n with
  | zero =>
    let o : Outcome := .flushed 2 0 ⟨.timeout, "flush did not complete in time"⟩
    have hex : ∃ f, (machine sample).exec sampleClient
        (Label.works 2 ++ [.call 1 .flush] ++ Label.steps 1 4 ++ Label.flushes 2) =
        some { crowd 2 [(2, 0), (1, 0)] o with callers := f } ∧ f = crowdCallers o := by
      refine ⟨_, rfl, ?_⟩
      funext t
      match t with
      | 0 | 1 | 2 | t + 3 => rfl
    obtain ⟨f, hex, rfl⟩ := hex
    exact ⟨_, o, ⟨sampleClient, sampleClient_start, Lts.Machine.run_of_exec hex⟩⟩
  | succ n ih =>
    obtain ⟨issued, o, hr⟩ := ih
    obtain ⟨issued', o', hex⟩ := crowd_grows (n + 2) issued o
    exact ⟨issued', o', hr.run (Lts.Machine.run_of_exec hex)⟩

/-- **A token that no pass serviced can be told that its result was discarded.** While the
worker is in an iteration without a flush, 256 tokens are drawn; a shutdown, whose drain times
out, draws another one and sets the stop flag. The worker ends and refuses all 257 tokens at
once, and its map keeps 256 of them: the wait on the first token finds nothing, and a larger
key. -/
theorem unserviced_expires : ∃ s w, ((machine sample).observed serviced).Reach (s, w) ∧
    s.core.terminalStatus.ok = true ∧ s.core.stop = true ∧
    WaitReturns sample s 1 (Client.expired 1) ∧ ∀ v, (1, v) ∉ w := by
  obtain ⟨issued, o, hr⟩ := crowd_reach 254
  obtain ⟨s, hrun, hp⟩ := Lts.Machine.exists_run_of_exec (M := machine sample)
    (s := crowd 256 issued o)
    ([.call 3 .shutdown] ++ Label.steps 3 5 ++ [.caller 3 { timeout := true }] ++
      Label.steps 3 1 ++ Label.works 7)
    (fun s => decide (s.callers 1 = .flushWait 1 0) && decide (s.frame.handledFlush = 0) &&
      decide (s.core.flushDone = 257) && s.core.terminalStatus.ok && s.core.stop) rfl
  simp only [Bool.and_eq_true, decide_eq_true_eq] at hp
  obtain ⟨⟨⟨⟨hc, hhan⟩, hdone⟩, hexit⟩, hstop⟩ := hp
  have hr' := hr.run hrun
  obtain ⟨w, hw⟩ := Lts.Machine.exists_observed serviced hr'
  have hi := recorded_of_reach hw
  have hready : Client.flushReady s 1 = true := by simp [Client.flushReady, hdone]
  have hout : Client.flushOutcome s 1 = Client.expired 1 := by
    rw [Client.flushOutcome, if_neg (by simp [hexit])]
    exact hi.result_old (by rw [hdone]; decide)
  refine ⟨s, w, hw, hexit, hstop, ?_, fun v hv => ?_⟩
  · have hs : step sample s (.caller 1 {}) = some ((Client.prunePassResults s).move 1
        (.done (.flushed 1 0 (Client.expired 1)))) := by
      simp only [step, Client.step, hc, Client.flushWait, hready, if_true, hout]
    exact .flush hc hready hs (move_callers _)
  · have hserv := (hi.mem_serviced Nat.one_pos).mp ⟨v, hv⟩
    omega

end PlayerTrace
