import PlayerTrace.Custody.Sequence
import PlayerTrace.Json.Library
import PlayerTrace.Vetted

/-!
# What was admitted can be read back

What the worker does to an event that serializes: it keeps it with its payload, and what the
store holds of it is this payload, which passes the check of `fetch_pending`. So nothing that was
admitted is ever dropped as unserializable or quarantined (`PlayerTrace.Legible`).

With the validators and the serializer of `PlayerTrace.Events` every event that was admitted
serializes, and is read back as it was (`PlayerTrace.admitted_round_trips`).
-/

namespace PlayerTrace

variable {env : Env} {i : Input} {s s' : State} {t : Tid}

/-! ### Sorting -/

/-- The positions at which an event is the next to be sorted. -/
theorem pc_of_sorting {pc : WorkerPc} {v : Nat} {k : List Kept} {e : QueuedEvent}
    {r : List QueuedEvent} (h : stageOf pc = .holding (some v) k (e :: r)) :
    pc = .checkConsent v (e :: r) ∨ pc = .serialize v k (e :: r) ∨ pc = .countStale v k (e :: r) ∨
      pc = .countInvalid v k (e :: r) := by
  cases pc with
  | checkConsent | serialize | countStale | countInvalid =>
    simp only [stageOf, Stage.holding.injEq, Option.some.injEq] at h
    obtain ⟨rfl, rfl, rfl⟩ := h
    simp
  | countQuarantined _ seen pending | noteFetch _ seen pending =>
    rcases Stage.offered_cases seen pending.events with ⟨-, heq⟩ | ⟨-, heq⟩ <;>
      cases heq.symm.trans h
  | _ => cases h

/-- **An event is sorted by its serialization**: it is kept with its payload, and dropped when it
has none. -/
theorem Worker.step_sorting {v : Nat} {k : List Kept} {e : QueuedEvent} {r : List QueuedEvent}
    (h : Worker.step env i s = some s') (hst : stageOf s.frame.pc = .holding (some v) k (e :: r)) :
    (∀ x, stageOf s'.frame.pc = .holding (some v) (k ++ [x]) r →
        env.serialize e.event = .ok x.payload) ∧
      (s'.history.dropped = s.history.dropped ∨ ∃ why, env.serialize e.event = .error why) := by
  -- where nothing is taken from the batch, nothing is kept
  have hno : ∀ {x : Kept} {v' : Nat} {k' : List Kept},
      Stage.holding (some v') k' (e :: r) = .holding (some v) (k ++ [x]) r → False := fun heq =>
    absurd (congrArg List.length (Stage.holding.inj heq).2.2) (by simp)
  cases hraise : i.raise with
  | some what =>
    obtain rfl := Worker.unexpected_of_step hraise h
    exact ⟨fun x hx => (by cases hx), Or.inl rfl⟩
  | none =>
    have hex := Worker.execute_of_step hraise h
    unfold Worker.execute at hex
    rcases pc_of_sorting hst with hpc | hpc | hpc | hpc <;>
      simp only [hpc, Option.some.injEq] at hex <;> subst hex
    · unfold Worker.checkConsent
      split
      · exact ⟨fun x hx => (by cases hx), Or.inl rfl⟩
      · exact ⟨fun x hx => (hno hx).elim, Or.inl rfl⟩
    · rw [Worker.serialize]
      split
      · refine ⟨fun x hx => ?_, Or.inl rfl⟩
        exact absurd (congrArg List.length (Stage.holding.inj hx).2.1) (by simp)
      · cases hser : env.serialize e.event with
        | error why =>
          refine ⟨fun x hx => ?_, Or.inr ⟨why, rfl⟩⟩
          exact absurd (congrArg List.length (Stage.holding.inj hx).2.1) (by simp)
        | ok payload =>
          refine ⟨fun x hx => ?_, Or.inl rfl⟩
          have hkept := List.append_cancel_left (Stage.holding.inj hx).2.1
          rw [← List.singleton_inj.mp hkept]
    · exact ⟨fun x hx => (hno hx).elim, Or.inl rfl⟩
    · exact ⟨fun x hx => (hno hx).elim, Or.inl rfl⟩

/-! ### What the store holds -/

namespace Custody

variable {c c' : Custody}

/-- What is dropped could not be serialized, or was a row that could not be used. -/
theorem Step.dropped_cases (hs : Step env c c') {x : Item} (hx : x ∈ c'.history.dropped) :
    x ∈ c.history.dropped ∨
      (∃ r ∈ c.rows, r.item = x ∧ r.usable env.isValidJson = false) ∨
      ∃ v k e r, c.stage = .holding (some v) k (e :: r) ∧ c'.stage = .holding (some v) k r ∧
        c'.history.dropped = c.history.dropped ++ [e.item] := by
  cases hs with
  | @drop v k e r h => exact Or.inr (Or.inr ⟨v, k, e, r, h, rfl, rfl⟩)
  | @fetch seen n db read h hd hread hdb =>
    rcases List.mem_append.mp hx with hx | hx
    · exact Or.inl hx
    refine Or.inr (Or.inl ?_)
    obtain ⟨r, hr, rfl⟩ := List.mem_map.mp hx
    obtain ⟨hold, hgone⟩ := List.mem_filter.mp hr
    have hgone : r ∉ db.rows := of_decide_eq_true hgone
    rcases hdb with ⟨rfl, -⟩ | ⟨hev, -⟩
    · exact absurd hold hgone
    · have hmem : r ∈ read.filter fun r => !r.usable env.isValidJson := by
        by_contra hnot
        refine hgone ?_
        rw [Database.rows, hev]
        exact Events.mem_withoutRows.mpr ⟨hold, hnot⟩
      exact ⟨r, hold, rfl, by simpa using (List.mem_filter.mp hmem).2⟩
  | _ => exact Or.inl hx

/-- What was admitted stays admitted. -/
theorem Step.accepted_subset (hs : Step env c c') : c.history.accepted ⊆ c'.history.accepted := by
  cases hs with
  | push => exact List.subset_append_left _ _
  | _ => exact List.Subset.refl _

/-- **What was admitted is legible**: what is kept is kept with its payload, a row is an earlier
one or holds the payload of an admitted event, and only earlier rows have been dropped. -/
structure Legible (env : Env) (c : Custody) : Prop where
  kept : ∀ k ∈ c.stage.kept, env.serialize k.qe.event = .ok k.payload
  rows : ∀ r ∈ c.rows, r.item ∈ c.history.recovered ∨
    ∃ a ∈ c.history.accepted, r.item = a.qe.item ∧ env.serialize a.qe.event = .ok r.payload
  dropped : ∀ x ∈ c.history.dropped, x ∈ c.history.recovered

/-- The rows after a move. -/
theorem Legible.rows_step (hi : Legible env c) (hr : Reachable env c) (hs : Step env c c') :
    ∀ r ∈ c'.rows, r.item ∈ c'.history.recovered ∨
      ∃ a ∈ c'.history.accepted, r.item = a.qe.item ∧ env.serialize a.qe.event = .ok r.payload := by
  intro r hmem
  rw [hs.born_cases.1]
  have hold : r ∈ c.rows → r.item ∈ c.history.recovered ∨ ∃ a ∈ c'.history.accepted,
      r.item = a.qe.item ∧ env.serialize a.qe.event = .ok r.payload := fun hr =>
    (hi.rows r hr).imp_right fun ⟨a, ha, hrest⟩ => ⟨a, hs.accepted_subset ha, hrest⟩
  rcases hs.rows_cases with hrows | ⟨v, k, hst, -, hev, -⟩
  · exact hold (hrows r hmem)
  · obtain ⟨new, hins, hnew⟩ :=
      inserted_of_committing (conserved_of_reachable hr) (named_of_reachable hr) hst
    rw [Custody.rows, Database.rows, hev, hins] at hmem
    rcases List.mem_append.mp hmem with hmem | hmem
    · exact hold hmem
    · -- a new row is one of the kept events, which were admitted
      obtain ⟨x, hx, table, rfl⟩ := hnew.sound r hmem
      obtain ⟨kept, hkept, rfl⟩ := List.mem_map.mp hx
      have hhands := mem_hands_of_committing hst hkept
      have hway : kept.qe ∈ c.way := List.mem_append_left _ (List.mem_append_right _ hhands)
      obtain ⟨a, ha, heq⟩ := accepted_of_way hr kept.qe hway
      refine Or.inr ⟨a, hs.accepted_subset ha, by rw [heq]; rfl, ?_⟩
      rw [heq]
      exact hi.kept kept (by rw [hst]; exact hkept)

end Custody

open Custody

/-- An event with an identifier that serializes to what the store accepts. -/
structure Storable (env : Env) (e : Event) : Prop where
  named : e.eventId ≠ ""
  payload : ∃ payload, env.serialize e = .ok payload ∧ env.isValidJson payload = true

/-- A row that holds such an event can be used. -/
theorem Storable.usable {e : Event} {r : Row} (h : Storable env e)
    (hid : r.eventId = some e.eventId) (hpayload : env.serialize e = .ok r.payload) :
    r.usable env.isValidJson = true := by
  obtain ⟨payload, hok, hvalid⟩ := h.payload
  obtain rfl := Except.ok.inj (hok.symm.trans hpayload)
  simp [Row.usable, hid, h.named, hvalid]

/-- The batch of the worker is sorted as its events serialize, whoever moves. -/
theorem sorting_of_step {l : Label} (hr : (machine env).Reach s) (h : step env s l = some s')
    {v : Nat} {k : List Kept} {e : QueuedEvent} {r : List QueuedEvent}
    (hst : (custody s).stage = .holding (some v) k (e :: r)) :
    (∀ x, (custody s').stage = .holding (some v) (k ++ [x]) r →
        env.serialize e.event = .ok x.payload) ∧
      ((custody s').stage = .holding (some v) k r → s'.history.dropped = s.history.dropped ∨
        ∃ why, env.serialize e.event = .error why) := by
  rcases course_of_step hr h with ⟨i, -, hw⟩ | ⟨t, -, haside, -⟩
  · exact (Worker.step_sorting hw hst).imp id fun hd _ => hd
  · have hsame : (custody s').stage = .holding (some v) k (e :: r) := by
      rw [← hst]
      exact congrArg (fun f : Frame => stageOf f.pc) haside.frame
    rw [hsame]
    refine ⟨fun x hx => ?_, fun hx => ?_⟩
    all_goals exact absurd (congrArg List.length (Stage.holding.inj hx).2.2) (by simp)

/-- **A step keeps what was admitted legible.** -/
theorem legible_step {l : Label} (hr : (machine env).Reach s)
    (hser : ∀ a ∈ s.history.accepted, Storable env a.qe.event) (hi : Legible env (custody s))
    (h : step env s l = some s') : Legible env (custody s') := by
  have hreach := custody_reachable hr
  rcases step_moves h with heq | hs
  · rw [heq]
    exact hi
  -- what is being sorted was admitted
  have hsorted : ∀ {v k e r}, (custody s).stage = .holding (some v) k (e :: r) →
      Storable env e.event := by
    intro v k e r hst
    have hway : e ∈ (custody s).way := by simp [way, hst, Stage.hands]
    obtain ⟨a, ha, rfl⟩ := accepted_of_way hreach e hway
    exact hser a ha
  refine ⟨fun k hk => ?_, hi.rows_step hreach hs, fun x hx => ?_⟩
  · rcases hs.kept_cases hk with ⟨hk, -⟩ | ⟨kept, r, hst, hst'⟩
    · exact hi.kept k hk
    · exact (sorting_of_step hr h hst).1 k hst'
  · rw [hs.born_cases.1]
    rcases hs.dropped_cases hx with hx | ⟨r, hrow, rfl, hbad⟩ | ⟨v, k, e, r, hst, hst', hdrop⟩
    · exact hi.dropped x hx
    · refine (hi.rows r hrow).resolve_right ?_
      rintro ⟨a, ha, hitem, hpayload⟩
      rw [(hser a ha).usable (congrArg Item.id hitem) hpayload] at hbad
      cases hbad
    · exfalso
      obtain ⟨payload, hok, -⟩ := (hsorted hst).payload
      rcases (sorting_of_step hr h hst).2 hst' with hsame | ⟨why, herr⟩
      · have hdrop : s'.history.dropped = s.history.dropped ++ [e.item] := hdrop
        rw [hsame] at hdrop
        simp at hdrop
      · cases hok.symm.trans herr

/-! ### The client as it is built -/

/-- The division `static_cast<double>(ms) / 1000.0`, of which only is used that its result is a
number. -/
structure Division where
  toSeconds : Int → Double
  finite : ∀ ms, (toSeconds ms).isFinite = true

/-- The environment of a client: its own validators and serializer, over the JSON library. -/
def production (lib : Nlohmann) (config : Config) (division : Division) : Env where
  config := config
  validatePlayerId := EventValidator.validatePlayerId config
  validateName := EventValidator.validateName config
  validateProperties := EventValidator.validateProperties config
  serialize := JsonSerializer.serialize lib
  isValidJson := JsonSerializer.isValidJson lib
  toSeconds := division.toSeconds

variable {lib : Nlohmann} {config : Config} {division : Division}

/-- The name of an application is ASCII. -/
theorem encoded_of_validateConfig (h : (validateConfig config).ok = true) :
    Encoded config.appId := by
  refine encoded_of_ascii fun c hc => ?_
  have hall : config.appId.toList.any (fun ch => !appIdChar ch) ≠ true := by
    intro hany
    unfold validateConfig at h
    by_cases hempty : config.appId.isEmpty = true
    · rw [if_pos hempty] at h
      cases h
    by_cases hlong : config.appId.length > 64
    · rw [if_neg hempty, if_pos hlong] at h
      cases h
    · rw [if_neg hempty, if_neg hlong, if_pos hany] at h
      cases h
  have hchar : appIdChar c = true := by
    simp only [ne_eq, List.any_eq_true, not_exists, not_and, Bool.not_eq_true', Bool.not_eq_false]
      at hall
    exact hall c hc
  refine EventValidator.ascii_of_isRestChar ?_
  simp only [appIdChar, EventValidator.isRestChar, EventValidator.isFirstChar, Bool.or_eq_true]
    at hchar ⊢
  tauto

theorem encoded_of_drawn {uuid : String} (h : Drawn uuid) : Encoded uuid := by
  obtain ⟨hi, lo, rfl⟩ := h
  exact IdGenerator.encoded_uuid4 hi lo

/-- The contents of an event that JSON can carry. -/
structure Carriable (name : String) (properties : Properties) : Prop where
  name : Encoded name
  nodup : (properties.map Prod.fst).Nodup
  properties : ∀ kv ∈ properties, Encoded kv.1 ∧ kv.2.Carried ∧
    EventValidator.isReservedKey kv.1 = false

/-- **What an event is built from can be carried**: the validation of the whole list survives the
filter. -/
theorem carriable_of_built {name : String} {properties : Properties} {origin : Origin}
    (h : Built (production lib config division) name properties origin) :
    Carriable name properties := by
  cases origin with
  | start =>
    obtain ⟨rfl, rfl⟩ := h
    exact ⟨encoded_of_forall (by decide), List.nodup_nil, fun kv hkv => absurd hkv List.not_mem_nil⟩
  | finish =>
    obtain ⟨rfl, duration, rfl⟩ := h
    refine ⟨encoded_of_forall (by decide), List.nodup_singleton _, fun kv hkv => ?_⟩
    rw [List.mem_singleton.mp hkv]
    have hkey : Encoded "session_seconds" := encoded_of_forall (by decide)
    have hfree : EventValidator.isReservedKey "session_seconds" = false := by decide
    exact ⟨hkey, division.finite duration, hfree⟩
  | track =>
    obtain ⟨hname, original, i, hprops, rfl⟩ := h
    obtain ⟨-, hpass, hnodup⟩ := EventValidator.validateProperties_ok.mp hprops
    have hsub :
        (Client.applyFilter (production lib config division) i original).Sublist original := by
      unfold Client.applyFilter
      split
      · exact List.filter_sublist
      · exact List.Sublist.refl _
    refine ⟨EventValidator.encoded_of_validateName hname, hnodup.sublist (hsub.map _),
      fun kv hkv => ?_⟩
    have hkv := hpass kv (hsub.subset hkv)
    exact ⟨EventValidator.encoded_of_identifier (by decide) hkv.key,
      EventValidator.carried_of_validateValue hkv.value, hkv.unreserved⟩

/-- **What is vetted can be presented.** -/
theorem presentable_of_vetted {origin : Origin} {e : Event}
    (hconfig : (validateConfig config).ok = true)
    (h : Vetted (production lib config division) origin e) : Presentable e := by
  obtain ⟨hname, hnodup, hprops⟩ := carriable_of_built h.built
  refine ⟨?_, hnodup, fun kv hkv => (hprops kv hkv).1, fun kv hkv => (hprops kv hkv).2.1,
    fun kv hkv => (hprops kv hkv).2.2⟩
  have happ : Encoded e.appId := by
    rw [h.appId]
    exact encoded_of_validateConfig hconfig
  simp only [List.forall_mem_cons, List.not_mem_nil, false_imp_iff, implies_true, and_true]
  exact ⟨encoded_of_drawn h.eventId, happ, hname, encoded_of_drawn h.sessionId,
    EventValidator.encoded_of_validatePlayerId h.playerId⟩

theorem storable_of_vetted {origin : Origin} {e : Event}
    (hconfig : (validateConfig config).ok = true)
    (h : Vetted (production lib config division) origin e) :
    Storable (production lib config division) e := by
  obtain ⟨text, d, hser, hvalid, -⟩ := (presentable_of_vetted hconfig h).roundTrips lib
  obtain ⟨hi, lo, hid⟩ := h.eventId
  exact ⟨hid ▸ (sqlLength_pos.mp (IdGenerator.sqlLength_uuid4 hi lo)).1, text, hser, hvalid⟩

/-- **What was admitted is vetted and legible**, in every run that draws its identifiers. -/
theorem legible_of_reach
    (h : (machine (production lib config division)).ReachIf (fun _ l => l.draws) s) :
    Traced (production lib config division) s ∧
      Legible (production lib config division) (custody s) := by
  refine h.rule (P := fun s => Traced (production lib config division) s ∧
    Legible (production lib config division) (custody s)) (fun s hs => ⟨traced_start hs, ?_⟩)
    fun s l s' hr hi hdraw hs =>
      ⟨traced_step hr hi.1 hdraw hs, legible_step hr (fun a ha => ?_) hi.2 hs⟩
  · obtain ⟨db, m, earlier, rfl⟩ := start_eq hs
    exact ⟨fun k hk => absurd hk List.not_mem_nil,
      fun r hr => Or.inl (List.mem_map_of_mem hr), fun x hx => absurd hx List.not_mem_nil⟩
  · exact storable_of_vetted (valid_of_reach hr) (hi.1.accepted a ha)

/-- **Every admitted event can be read back.** Whatever was admitted – by a valid configuration,
from validated contents, through any filter – serializes, and the document is read back as the
event: no field and no property is lost, overwritten or mistaken for another. The worker holds
nothing that does not serialize, nothing that was admitted is dropped, and what the store holds
of it is its serialization and will not be quarantined. -/
theorem admitted_round_trips
    (h : (machine (production lib config division)).ReachIf (fun _ l => l.draws) s) :
    (∀ a ∈ s.history.accepted,
      Built (production lib config division) a.qe.event.name a.qe.event.properties a.origin ∧
      RoundTrips lib a.qe.event ∧ a.qe.item ∉ s.history.dropped ∧
      ∀ r ∈ s.pipeline.store.rows, r.eventId = some a.qe.event.eventId →
        JsonSerializer.serialize lib a.qe.event = .ok r.payload ∧
        r.usable (JsonSerializer.isValidJson lib) = true) ∧
    ∀ e ∈ s.hands, ∃ payload, JsonSerializer.serialize lib e.event = .ok payload := by
  obtain ⟨htraced, hlegible⟩ := legible_of_reach h
  have hvalid := valid_of_reach h.reach
  have hreach := custody_reachable h.reach
  -- identifiers are unique, so nothing else goes by the name of an event
  obtain ⟨-, hborn, hdisjoint⟩ := List.nodup_append.mp (named_of_reachable hreach).nodup
  have hids : (s.history.accepted.map fun a => a.qe.event.eventId).Nodup :=
    hborn.sublist (List.sublist_append_left _ _)
  refine ⟨fun a ha => ?_, fun e he => ?_⟩
  · have hvetted := htraced.accepted a ha
    have hnew : ∀ x ∈ s.history.recovered, x.id ≠ some a.qe.event.eventId := fun x hx hid =>
      hdisjoint _ (List.mem_filterMap.mpr ⟨x, hx, hid⟩) _
        (List.mem_append_left _ (List.mem_map_of_mem ha)) rfl
    refine ⟨hvetted.built, (presentable_of_vetted hvalid hvetted).roundTrips lib, fun hdrop => ?_,
      fun r hr hid => ?_⟩
    · exact hnew _ (hlegible.dropped _ hdrop) rfl
    · obtain ⟨b, hb, hitem, hpayload⟩ :=
        (hlegible.rows r hr).resolve_left fun hrec => hnew _ hrec hid
      have hsame : b.qe.event.eventId = a.qe.event.eventId :=
        Option.some.inj ((congrArg Item.id hitem).symm.trans hid)
      obtain rfl : b = a := List.inj_on_of_nodup_map hids hb ha hsame
      exact ⟨hpayload, (storable_of_vetted hvalid hvetted).usable hid hpayload⟩
  · have hway : e ∈ (custody s).way := by
      refine List.mem_append_left _ (List.mem_append_right _ ?_)
      rwa [show (custody s).stage.hands = s.hands from stageOf_hands s.frame.pc]
    obtain ⟨a, ha, rfl⟩ := accepted_of_way hreach e hway
    obtain ⟨payload, hok, -⟩ := (storable_of_vetted hvalid (htraced.accepted a ha)).payload
    exact ⟨payload, hok⟩

/-! ### A client that tracks one event -/

/-- A client of its own over the code of the library, with a property filter. -/
def filtering : Env :=
  production (Json.library fun _ => Json.Floats.carries_sample)
    { appId := "game", storagePath := "db", consent := .granted, maxQueueSize := 10, batchSize := 1,
      maxPendingEvents := 4, propertyFilter := true }
    ⟨fun _ => ⟨0⟩, fun _ => rfl⟩

/-- The client over an empty table. -/
def filteringClient : State :=
  initial filtering (Database.ofRows .empty false) 0 0

theorem filteringClient_start : (machine filtering).start filteringClient :=
  ⟨fun _ => Faults.none, Database.ofRows .empty false, filteringClient, [], rfl, rfl, rfl⟩

/-- A session is started and an event tracked; the filter throws on one of its properties. -/
def tracked : List Label :=
  .call 1 (.startSession "p") :: Label.steps 1 2 ++ [.caller 1 { uuid := IdGenerator.uuid4 1 1 }] ++
    Label.steps 1 2 ++ [.caller 1 { uuid := IdGenerator.uuid4 1 2 }] ++ Label.steps 1 3 ++
    [.call 1 (.track "level" [("score", .int 3), ("secret", .bool true)]), .caller 1 {},
      .caller 1 { filter := fun key _ => if key = "secret" then none else some true }] ++
    Label.steps 1 3 ++ [.caller 1 { uuid := IdGenerator.uuid4 1 3 }] ++ Label.steps 1 3

theorem tracked_draws : ∀ l ∈ tracked, l.draws := by
  have hsteps : ∀ n, ∀ l ∈ Label.steps 1 n, l.draws := fun n l hl => by
    rw [List.eq_of_mem_replicate hl]
    exact Or.inl rfl
  have hnone : ∀ l ∈ ([] : List Label), l.draws := fun l hl => absurd hl List.not_mem_nil
  simp only [tracked, List.cons_append, List.forall_mem_cons, List.forall_mem_append]
  exact ⟨trivial, ⟨⟨⟨⟨⟨⟨⟨hsteps 2, Or.inr ⟨1, 1, rfl⟩, hnone⟩, hsteps 2⟩,
    Or.inr ⟨1, 2, rfl⟩, hnone⟩, hsteps 3⟩, trivial, Or.inl rfl, Or.inl rfl, hnone⟩, hsteps 3⟩,
    Or.inr ⟨1, 3, rfl⟩, hnone⟩, hsteps 3⟩

/-- The event of this client is read back, without the property that was filtered out. -/
theorem admitted_round_trips_tracked :
    ∃ s, (machine filtering).ReachIf (fun _ l => l.draws) s ∧ ∃ a ∈ s.history.accepted,
      a.origin = .track ∧ a.qe.event.properties = [("score", .int 3)] ∧
        RoundTrips (Json.library fun _ => Json.Floats.carries_sample) a.qe.event := by
  have hany : ((machine filtering).exec filteringClient tracked).any (fun s =>
      s.history.accepted.any fun a => decide (a.origin = .track ∧
        a.qe.event.properties = [("score", .int 3)])) = true := by decide +kernel
  obtain ⟨s, hex, hp⟩ := Lts.Machine.exec_of_any hany
  have hreach : (machine filtering).ReachIf (fun _ l => l.draws) s :=
    ⟨_, filteringClient_start,
      Lts.Machine.runIf_of_exec (fun l hl _ => tracked_draws l hl) hex⟩
  obtain ⟨a, ha, hp⟩ := List.any_eq_true.mp hp
  obtain ⟨horigin, hprops⟩ := of_decide_eq_true hp
  exact ⟨s, hreach, a, ha, horigin, hprops, ((admitted_round_trips hreach).1 a ha).2.1⟩

end PlayerTrace
