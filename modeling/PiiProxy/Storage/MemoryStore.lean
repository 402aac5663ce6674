import PiiProxy.Core.ProcessService
import PiiProxy.Demasking.Demasker
import PiiProxy.Detectors.Builtin

/-!
# The lifetime of a record in the in-memory store

`InMemoryMappingStore` of `app/storage/memory_store.py` with the `mark_demasked` of `MappingStore`,
and runs of requests over it, one request after another, each at one moment of a monotone clock.

A record goes through a lifecycle: it is active for the time to live, the first request that may
demask it moves it to grace, and nothing moves the end of the grace. The requests that a service
answers refine this lifecycle, whatever they are.

## Main definitions

* `MemoryData`, `MemoryStore.apply`: the store.
* `Request`, `serveRequest`, `serveAll`: runs of requests.
* `ModeDemasker.service`: a service with the demasker of the repository.
* `Phase`, `Phase.step`, `Phase.Holds`: the lifecycle of a record, and what it says about the store.

## Main results

* `serveRequest_holds`: every request moves a record along its lifecycle.
* `bounded_lifetime`: the state and the expiry of a record at every moment after its creation.
-/

namespace PiiProxy

/-! ### The store -/

/-- An entry of the store: when it expires, and the record. -/
structure MemoryEntry where
  expiresAt : ℚ
  record : MappingRecord
  deriving DecidableEq

/-- `_data`. -/
abbrev MemoryData : Type := Text → Option MemoryEntry

namespace MemoryStore

variable (now : ℚ) (data : MemoryData)

/-- `save_if_absent`. -/
def saveIfAbsent (payloadId : Text) (record : MappingRecord) (ttl : ℚ) : Bool × MemoryData :=
  match data payloadId with
  | some existing =>
    if existing.expiresAt ≤ now then
      (true, Function.update data payloadId (some ⟨now + ttl, record⟩))
    else (false, data)
  | none => (true, Function.update data payloadId (some ⟨now + ttl, record⟩))

/-- `update`. -/
def update (payloadId : Text) (record : MappingRecord) (ttl : ℚ) : MemoryData :=
  Function.update data payloadId (some ⟨now + ttl, record⟩)

/-- `get`: an expired entry is deleted. -/
def get (payloadId : Text) : Option MappingRecord × MemoryData :=
  match data payloadId with
  | none => (none, data)
  | some e =>
    if e.expiresAt ≤ now then (none, Function.update data payloadId none) else (some e.record, data)

/-- `delete`. -/
def delete (payloadId : Text) : MemoryData := Function.update data payloadId none

/-- `MappingStore.mark_demasked`. -/
def markDemasked (payloadId : Text) (grace : ℚ) : MemoryData :=
  match get now data payloadId with
  | (none, data) => data
  | (some record, data) => update now data payloadId (record.demasked now) grace

/-- An operation of the store at the time `now`. -/
def apply : (op : StoreOp) → op.Result × MemoryData
  | .get payloadId => get now data payloadId
  | .saveIfAbsent payloadId record ttl => saveIfAbsent now data payloadId record ttl
  | .update payloadId record ttl => ((), update now data payloadId record ttl)
  | .delete payloadId => ((), delete data payloadId)
  | .markDemasked payloadId grace => ((), markDemasked now data payloadId grace)

/-- A call of the service at the time `now`. -/
def respond : (e : ServiceOp) → MemoryData → e.Answer × MemoryData
  | .store op, data => (.ok (apply now data op).1, (apply now data op).2)
  | .time, data => (now, data)

end MemoryStore

/-! ### Requests -/

/-- A request to `process` and its time. -/
structure Request where
  payload : Text
  payloadId : Text
  consumerId : Option Text := none
  time : ℚ

/-- The service with the demasker of the repository. -/
def ModeDemasker.service (pipeline : Pipeline) (consumers : ConsumerRegistry) (hashing : Hashing)
    (ttl grace : ℚ) (secret : Option Text) : ProcessService where
  pipeline := pipeline
  demask text mappings mode := .ok (demask pipeline.runtime text mappings mode)
  consumers := consumers
  hashing := hashing
  ttl := ttl
  grace := grace
  secret := secret

variable (svc : ProcessService)

/-- The store after a request. -/
def serveRequest (q : Request) (data : MemoryData) : MemoryData :=
  (Prog.simulate (MemoryStore.respond q.time) []
    (svc.process q.payload q.payloadId q.consumerId) data).2.2

/-- The store after requests, one after another. -/
def serveAll (qs : List Request) (data : MemoryData) : MemoryData :=
  qs.foldl (fun data q => serveRequest svc q data) data

/-- The request is made by an enabled consumer, is no retry of the text that the record was made
from, and is not blocked by a policy that disables demasking. -/
def Demasks (record : MappingRecord) (q : Request) : Bool :=
  match svc.consumers.resolve q.consumerId with
  | none => false
  | some consumer =>
    consumer.enabled && decide (svc.fingerprint q.payload ≠ record.originalFingerprint) &&
      record.demaskEnabled && consumer.demask

/-- The demasker raises nothing. -/
def ProcessService.Demasking (svc : ProcessService) : Prop :=
  ∀ text mappings mode, ∃ result, svc.demask text mappings mode = .ok result

theorem ModeDemasker.demasking_service (pipeline : Pipeline) (consumers : ConsumerRegistry)
    (hashing : Hashing) (ttl grace : ℚ) (secret : Option Text) :
    (ModeDemasker.service pipeline consumers hashing ttl grace secret).Demasking :=
  fun _ _ _ => ⟨_, rfl⟩

/-! ### What one request does to an entry -/

section

variable {svc} {q : Request} {data : MemoryData}

theorem serveRequest_of_rejected (h : ∀ consumer,
    svc.consumers.resolve q.consumerId = some consumer →
    consumer.enabled = false) : serveRequest svc q data = data := by
  unfold serveRequest ProcessService.process
  cases hresolve : svc.consumers.resolve q.consumerId with
  | none => rfl
  | some consumer => simp [h consumer hresolve, Prog.simulate]

theorem serveRequest_of_accepted {consumer : ConsumerConfig}
    (hresolve : svc.consumers.resolve q.consumerId = some consumer)
    (henabled : consumer.enabled = true) :
    serveRequest svc q data =
      (Prog.simulate (MemoryStore.respond q.time) [] (svc.afterRead q.payload q.payloadId consumer
        (.ok (MemoryStore.get q.time data q.payloadId).1))
        (MemoryStore.get q.time data q.payloadId).2).2.2 := by
  rw [serveRequest, svc.process_eq_call hresolve henabled, Prog.simulate]
  exact congrArg Prod.snd (Prog.simulate_snd _ _ _ _ _)

/-- The record is what a first request with the payload at the time `now` stores. -/
structure ProcessService.IsFresh (svc : ProcessService) (payload : Text) (now : ℚ)
    (record : MappingRecord) : Prop where
  createdAt : record.createdAt = now
  state : record.state = .active
  originalFingerprint : record.originalFingerprint = svc.fingerprint payload

/-- A first request leaves the store or creates a record of the present moment. -/
theorem simulate_firstRequest {now : ℚ} {payload payloadId : Text} {consumer : ConsumerConfig}
    {h : List (Prog.Event ServiceOp ServiceOp.Answer)} (hnone : data payloadId = none) :
    (Prog.simulate (MemoryStore.respond now) h (svc.firstRequest payload payloadId consumer)
        data).2.2 = data ∨
      ∃ record, svc.IsFresh payload now record ∧
        (Prog.simulate (MemoryStore.respond now) h (svc.firstRequest payload payloadId consumer)
          data).2.2 = Function.update data payloadId (some ⟨now + svc.ttl, record⟩) := by
  cases hpipeline : svc.pipeline.process payload consumer.maskingMode consumer payloadId with
  | error e =>
    left
    simp only [ProcessService.firstRequest, hpipeline]
    rfl
  | ok transform =>
    right
    refine ⟨buildRecord svc.hashing transform payload consumer.demask svc.secret now,
      ⟨rfl, rfl, rfl⟩,
      ?_⟩
    rw [svc.firstRequest_eq_call hpipeline]
    simp only [Prog.simulate, MemoryStore.respond, MemoryStore.apply, MemoryStore.saveIfAbsent,
      hnone]
    rfl

theorem get_of_live {now : ℚ} {payloadId : Text} {e : MemoryEntry} (he : data payloadId = some e)
    (hlive : now < e.expiresAt) : MemoryStore.get now data payloadId = (some e.record, data) := by
  simp only [MemoryStore.get, he, not_le.2 hlive, ↓reduceIte]

/-- The transition moves a live record that is not in grace yet, and no other. -/
theorem simulate_transitionToGrace {now : ℚ} {payloadId : Text} {e : MemoryEntry}
    (he : data payloadId = some e) (hlive : now < e.expiresAt)
    {h : List (Prog.Event ServiceOp ServiceOp.Answer)}
    (outcome : Except ServiceError ProcessOutcome) :
    (Prog.simulate (MemoryStore.respond now) h
        ((svc.transitionToGrace payloadId e.record).bind fun _ => .ret outcome) data).2.2 =
      if e.record.state ≠ .demaskedGrace then
        Function.update data payloadId (some ⟨now + svc.grace, e.record.demasked now⟩)
      else data := by
  by_cases hstate : e.record.state = .demaskedGrace
  · simp [ProcessService.transitionToGrace, hstate, Prog.simulate]
  · simp only [ProcessService.transitionToGrace, hstate, ↓reduceIte, Prog.bind_call, Prog.bind_ret,
      Prog.simulate, MemoryStore.respond, MemoryStore.apply, MemoryStore.markDemasked,
      get_of_live he hlive, ne_eq, not_false_eq_true]
    rfl

/-- A request that finds a live record leaves the store or moves the record to grace. -/
theorem simulate_answerFromRecord
    (hdemask : svc.Demasking)
    {consumer : ConsumerConfig} (hresolve : svc.consumers.resolve q.consumerId = some consumer)
    (henabled : consumer.enabled = true) {e : MemoryEntry} (he : data q.payloadId = some e)
    (hlive : q.time < e.expiresAt) {h : List (Prog.Event ServiceOp ServiceOp.Answer)} :
    (Prog.simulate (MemoryStore.respond q.time) h
        (svc.answerFromRecord q.payload q.payloadId consumer e.record) data).2.2 =
      if Demasks svc e.record q = true ∧ e.record.state ≠ .demaskedGrace then
        Function.update data q.payloadId (some ⟨q.time + svc.grace, e.record.demasked q.time⟩)
      else data := by
  have hdemasks : Demasks svc e.record q =
      (decide (svc.fingerprint q.payload ≠ e.record.originalFingerprint) &&
        (e.record.demaskEnabled && consumer.demask)) := by
    simp only [Demasks, hresolve, henabled, Bool.true_and, Bool.and_assoc]
  unfold ProcessService.answerFromRecord
  by_cases hretry : svc.fingerprint q.payload = e.record.originalFingerprint
  · simp [hdemasks, hretry, Prog.simulate]
  by_cases hallowed : (e.record.demaskEnabled && consumer.demask) = true
  swap
  · have hblocked : (!e.record.demaskEnabled || !consumer.demask) = true := by
      rw [← Bool.not_and, Bool.eq_false_of_not_eq_true hallowed]
      rfl
    simp [hdemasks, hretry, hblocked, hallowed, Prog.simulate]
  have hblocked : (!e.record.demaskEnabled || !consumer.demask) = false := by
    rw [← Bool.not_and, hallowed]
    rfl
  have hyes : Demasks svc e.record q = true := by
    simp [hdemasks, hretry, hallowed]
  simp only [hyes, true_and, hretry, ↓reduceIte, hblocked, Bool.false_eq_true]
  by_cases hexact : svc.fingerprint q.payload = e.record.transformedFingerprint
  · rw [if_pos hexact]
    exact simulate_transitionToGrace he hlive _
  · obtain ⟨result, hresult⟩ := hdemask q.payload e.record.mappings e.record.mode
    rw [if_neg hexact, hresult]
    exact simulate_transitionToGrace he hlive _

theorem get_of_dead {now : ℚ} {payloadId : Text}
    (hdead : ∀ e, data payloadId = some e → e.expiresAt ≤ now) :
    MemoryStore.get now data payloadId = (none, Function.update data payloadId none) := by
  cases hentry : data payloadId with
  | none =>
    have hself : Function.update data payloadId none = data := by
      rw [← hentry, Function.update_eq_self]
    simp [MemoryStore.get, hentry, hself]
  | some e => simp [MemoryStore.get, hentry, hdead e hentry]

/-- **What a request does to the store.** It moves a live record to grace, it purges an expired
record, it creates a record in a free place, or it changes nothing. -/
theorem serveRequest_cases (q : Request) (data : MemoryData)
    (hdemask : svc.Demasking) :
    (∃ e, data q.payloadId = some e ∧ q.time < e.expiresAt ∧
        serveRequest svc q data =
          if Demasks svc e.record q = true ∧ e.record.state ≠ .demaskedGrace then
            Function.update data q.payloadId (some ⟨q.time + svc.grace, e.record.demasked q.time⟩)
          else data) ∨
      ((∀ e, data q.payloadId = some e → e.expiresAt ≤ q.time) ∧
        (serveRequest svc q data = data ∨
          serveRequest svc q data = Function.update data q.payloadId none ∨
          ∃ record, svc.IsFresh q.payload q.time record ∧
            serveRequest svc q data =
              Function.update data q.payloadId (some ⟨q.time + svc.ttl, record⟩))) := by
  by_cases haccepted : ∃ consumer, svc.consumers.resolve q.consumerId = some consumer ∧
      consumer.enabled = true
  · obtain ⟨consumer, hresolve, henabled⟩ := haccepted
    rw [serveRequest_of_accepted hresolve henabled]
    by_cases hlive : ∃ e, data q.payloadId = some e ∧ q.time < e.expiresAt
    · obtain ⟨e, he, hlive⟩ := hlive
      refine .inl ⟨e, he, hlive, ?_⟩
      rw [get_of_live he hlive]
      exact simulate_answerFromRecord hdemask hresolve henabled he hlive
    · push Not at hlive
      refine .inr ⟨hlive, .inr ?_⟩
      rw [get_of_dead hlive]
      refine (simulate_firstRequest (Function.update_self ..)).imp id ?_
      rintro ⟨record, hfresh, heq⟩
      exact ⟨record, hfresh, heq.trans (Function.update_idem ..)⟩
  · have hrejected : serveRequest svc q data = data := by
      apply serveRequest_of_rejected
      intro consumer hresolve
      by_contra henabled
      exact haccepted ⟨consumer, hresolve, by simpa using henabled⟩
    by_cases hlive : ∃ e, data q.payloadId = some e ∧ q.time < e.expiresAt
    · obtain ⟨e, he, hlive⟩ := hlive
      have hno : Demasks svc e.record q = false := by
        unfold Demasks
        cases hresolve : svc.consumers.resolve q.consumerId with
        | none => rfl
        | some consumer =>
          have henabled : consumer.enabled = false := by
            by_contra henabled
            exact haccepted ⟨consumer, hresolve, by simpa using henabled⟩
          simp [henabled]
      exact .inl ⟨e, he, hlive, by simp [hno, hrejected]⟩
    · push Not at hlive
      exact .inr ⟨hlive, .inl hrejected⟩

theorem serveRequest_of_ne
    (hdemask : svc.Demasking)
    {payloadId : Text} (hne : payloadId ≠ q.payloadId) :
    serveRequest svc q data payloadId = data payloadId := by
  obtain ⟨e, -, -, heq⟩ | ⟨-, heq | heq | ⟨record, -, heq⟩⟩ := serveRequest_cases q data hdemask
  · rw [heq]
    split
    · exact Function.update_of_ne hne ..
    · rfl
  · rw [heq]
  · rw [heq, Function.update_of_ne hne]
  · rw [heq, Function.update_of_ne hne]

theorem serveRequest_of_live
    (hdemask : svc.Demasking)
    {e : MemoryEntry} (he : data q.payloadId = some e) (hlive : q.time < e.expiresAt) :
    serveRequest svc q data q.payloadId =
      if Demasks svc e.record q = true ∧ e.record.state ≠ .demaskedGrace then
        some ⟨q.time + svc.grace, e.record.demasked q.time⟩
      else some e := by
  obtain ⟨e', he', -, heq⟩ | ⟨hdead, -⟩ := serveRequest_cases q data hdemask
  · obtain rfl : e' = e := Option.some.inj (he'.symm.trans he)
    rw [heq]
    split
    · exact Function.update_self ..
    · exact he
  · exact absurd hlive (not_lt.2 (hdead e he))

end

/-! ### The lifecycle of a record -/

/-- Where a record is in its lifecycle. -/
inductive Phase where
  | active
  /-- The record was demasked at the time `since`. -/
  | grace (since : ℚ)
  /-- The record was gone at the time `since`. -/
  | ended (since : ℚ)
  deriving DecidableEq, Repr

namespace Phase

/-- The lifecycle at a request of the time `t`, for a record that is active until `deadline` and in
grace for `graceLength`. -/
def step (deadline graceLength : ℚ) (demasks : Bool) (t : ℚ) : Phase → Phase
  | .active =>
    if deadline ≤ t then .ended deadline else if demasks then .grace t else .active
  | .grace since => if since + graceLength ≤ t then .ended (since + graceLength) else .grace since
  | .ended since => .ended since

/-- What the phase of the record `r` of `payloadId` says about the store at the time `now`. -/
def Holds (deadline graceLength : ℚ) (payloadId : Text) (r : MappingRecord) (now : ℚ)
    (data : MemoryData) : Phase → Prop
  | .active => data payloadId = some ⟨deadline, r⟩
  | .grace since => data payloadId = some ⟨since + graceLength, r.demasked since⟩
  | .ended since => since ≤ now ∧
    ∀ e, data payloadId = some e → e.expiresAt ≤ since ∨ since ≤ e.record.createdAt

end Phase

section

variable {svc} {q : Request} {data : MemoryData} {payloadId : Text} {r : MappingRecord}
  {deadline now : ℚ}

/-- After the time `x`, a request leaves no entry in the place of the record that lives after `x`
and was created before. -/
theorem serveRequest_ended
    (hdemask : svc.Demasking)
    {x : ℚ} (hx : x ≤ q.time)
    (h : ∀ e, data payloadId = some e → e.expiresAt ≤ x ∨ x ≤ e.record.createdAt)
    {e : MemoryEntry} (he : serveRequest svc q data payloadId = some e) :
    e.expiresAt ≤ x ∨ x ≤ e.record.createdAt := by
  by_cases hid : payloadId = q.payloadId
  swap
  · rw [serveRequest_of_ne hdemask hid] at he
    exact h e he
  subst hid
  obtain ⟨e₀, he₀, hlive, -⟩ | ⟨-, heq | heq | ⟨record, hfresh, heq⟩⟩ :=
    serveRequest_cases q data hdemask
  · rw [serveRequest_of_live hdemask he₀ hlive] at he
    -- The grace transition keeps the time of creation.
    have hcreated : x ≤ e₀.record.createdAt := (h e₀ he₀).resolve_left (by linarith)
    split at he <;> obtain rfl := Option.some.inj he <;> exact .inr hcreated
  · exact h e (heq ▸ he)
  · simp [heq] at he
  · obtain rfl : ⟨q.time + svc.ttl, record⟩ = e := by simpa [heq] using he
    exact .inr (hfresh.createdAt.symm ▸ hx)

/-- **A request moves a record along its lifecycle.** -/
theorem serveRequest_holds
    (hdemask : svc.Demasking)
    (hactive : r.state = .active) (hnow : now ≤ q.time) {phase : Phase}
    (h : phase.Holds deadline svc.grace payloadId r now data) :
    (phase.step deadline svc.grace (decide (q.payloadId = payloadId) && Demasks svc r q)
      q.time).Holds deadline svc.grace payloadId r q.time (serveRequest svc q data) := by
  cases phase with
  | active =>
    simp only [Phase.Holds] at h
    by_cases hend : deadline ≤ q.time
    · rw [Phase.step, if_pos hend]
      refine ⟨hend, fun e he => serveRequest_ended hdemask hend (fun e he => .inl ?_) he⟩
      obtain rfl := Option.some.inj (h.symm.trans he)
      exact le_rfl
    · rw [Phase.step, if_neg hend]
      by_cases hid : q.payloadId = payloadId
      · subst hid
        have hserve := serveRequest_of_live hdemask h (not_le.1 hend)
        simp only [hactive, ne_eq, reduceCtorEq, not_false_eq_true, and_true] at hserve
        cases hdemasks : Demasks svc r q <;> simpa [hdemasks, Phase.Holds] using hserve
      · simpa [hid, Phase.Holds] using (serveRequest_of_ne hdemask (Ne.symm hid)).trans h
  | grace since =>
    simp only [Phase.Holds] at h
    by_cases hend : since + svc.grace ≤ q.time
    · rw [Phase.step, if_pos hend]
      refine ⟨hend, fun e he => serveRequest_ended hdemask hend (fun e he => .inl ?_) he⟩
      obtain rfl := Option.some.inj (h.symm.trans he)
      exact le_rfl
    · rw [Phase.step, if_neg hend]
      by_cases hid : q.payloadId = payloadId
      · subst hid
        have hserve := serveRequest_of_live hdemask h (not_le.1 hend)
        simpa [MappingRecord.demasked, Phase.Holds] using hserve
      · exact (serveRequest_of_ne hdemask (Ne.symm hid)).trans h
  | ended since =>
    exact ⟨h.1.trans hnow, fun e he => serveRequest_ended hdemask (h.1.trans hnow) h.2 he⟩

theorem Phase.Holds.mono {phase : Phase} {graceLength t : ℚ}
    (h : phase.Holds deadline graceLength payloadId r now data) (ht : now ≤ t) :
    phase.Holds deadline graceLength payloadId r t data := by
  cases phase with
  | active => exact h
  | grace since => exact h
  | ended since => exact ⟨h.1.trans ht, h.2⟩

end

/-- The phase of the record `r` of `payloadId` after requests. -/
def phaseAfter (deadline : ℚ) (payloadId : Text) (r : MappingRecord) (qs : List Request)
    (phase : Phase) : Phase :=
  qs.foldl (fun phase q => phase.step deadline svc.grace
    (decide (q.payloadId = payloadId) && Demasks svc r q) q.time) phase

section

variable {svc} {data : MemoryData} {payloadId : Text} {r : MappingRecord} {deadline : ℚ}

/-- **Requests move a record along its lifecycle.** -/
theorem serveAll_holds (hdemask : svc.Demasking) (hactive : r.state = .active) {t : ℚ}
    (qs : List Request) (hclock : qs.Pairwise (·.time ≤ ·.time)) {now : ℚ} (hnow : now ≤ t)
    (hqs : ∀ q ∈ qs, now ≤ q.time ∧ q.time ≤ t) {data : MemoryData} {phase : Phase}
    (h : phase.Holds deadline svc.grace payloadId r now data) :
    (phaseAfter svc deadline payloadId r qs phase).Holds deadline svc.grace payloadId r t
      (serveAll svc qs data) := by
  induction qs generalizing now data phase with
  | nil => exact h.mono hnow
  | cons q qs ih =>
    obtain ⟨hfirst, hclock⟩ := List.pairwise_cons.1 hclock
    have hq := hqs q List.mem_cons_self
    refine ih hclock hq.2 (fun q' hq' => ⟨hfirst q' hq', (hqs q' (.tail _ hq')).2⟩) ?_
    exact serveRequest_holds hdemask hactive hq.1 h

theorem phaseAfter_ended (qs : List Request) (since : ℚ) :
    phaseAfter svc deadline payloadId r qs (.ended since) = .ended since := by
  induction qs with
  | nil => rfl
  | cons q qs ih => exact ih

theorem phaseAfter_grace (qs : List Request) (since : ℚ) :
    phaseAfter svc deadline payloadId r qs (.grace since) = .grace since ∨
      phaseAfter svc deadline payloadId r qs (.grace since) = .ended (since + svc.grace) := by
  induction qs with
  | nil => exact .inl rfl
  | cons q qs ih =>
    simp only [phaseAfter, List.foldl_cons, Phase.step]
    split
    · exact .inr (phaseAfter_ended qs _)
    · exact ih

/-- The first request of the record's id, before its deadline, that may demask it. -/
def firstDemask (svc : ProcessService) (deadline : ℚ) (payloadId : Text) (r : MappingRecord)
    (qs : List Request) : Option Request :=
  qs.find? fun q => decide (q.payloadId = payloadId) && Demasks svc r q &&
    decide (q.time < deadline)

/-- A record is active until its deadline when no request demasks it. -/
theorem phaseAfter_of_firstDemask_eq_none {qs : List Request}
    (h : firstDemask svc deadline payloadId r qs = none) :
    phaseAfter svc deadline payloadId r qs .active = .active ∨
      phaseAfter svc deadline payloadId r qs .active = .ended deadline := by
  induction qs with
  | nil => exact .inl rfl
  | cons q qs ih =>
    have hall := List.find?_eq_none.1 h
    have hq := hall q List.mem_cons_self
    have hqs := List.find?_eq_none.2 fun q' hq' => hall q' (.tail _ hq')
    simp only [phaseAfter, List.foldl_cons, Phase.step]
    split
    · exact .inr (phaseAfter_ended qs _)
    · rename_i hlive
      have hno : ¬(decide (q.payloadId = payloadId) && Demasks svc r q) = true := by
        simpa [not_le.1 hlive] using hq
      rw [if_neg hno]
      exact ih hqs

/-- A record is in grace, and then gone, from the first request that demasks it. -/
theorem phaseAfter_of_firstDemask_eq_some {qs : List Request}
    (hclock : qs.Pairwise (·.time ≤ ·.time)) {q : Request}
    (h : firstDemask svc deadline payloadId r qs = some q) :
    phaseAfter svc deadline payloadId r qs .active = .grace q.time ∨
      phaseAfter svc deadline payloadId r qs .active = .ended (q.time + svc.grace) := by
  induction qs with
  | nil => cases h
  | cons q' qs ih =>
    obtain ⟨hfirst, hclock⟩ := List.pairwise_cons.1 hclock
    have hbefore : q.time < deadline := by
      exact of_decide_eq_true (Bool.and_eq_true .. ▸ List.find?_some h).2
    simp only [phaseAfter, List.foldl_cons, Phase.step]
    obtain ⟨hq, rfl⟩ | ⟨hq, hqs⟩ := List.find?_cons_eq_some.1 h
    · have hdemasks := (Bool.and_eq_true .. ▸ hq).1
      rw [if_neg (not_le.2 hbefore), if_pos hdemasks]
      exact phaseAfter_grace qs _
    · -- The clock puts every earlier request before the deadline, too.
      have hlive : ¬deadline ≤ q'.time := by
        have := hfirst q (List.mem_of_find?_eq_some hqs)
        linarith
      have hno : ¬(decide (q'.payloadId = payloadId) && Demasks svc r q') = true := by
        simpa [not_le.1 hlive, imp_iff_not_or] using hq
      rw [if_neg hlive, if_neg hno]
      exact ih hclock hqs

end

/-! ### Bounded lifetime -/

/-- The request creates the record: its id has none before, and has this one after. -/
def Creates (data : MemoryData) (q : Request) (r : MappingRecord) : Prop :=
  (MemoryStore.get q.time data q.payloadId).1 = none ∧
    (MemoryStore.get q.time (serveRequest svc q data) q.payloadId).1 = some r

section

variable {svc} {data : MemoryData}

theorem get_eq_some {now : ℚ} {payloadId : Text} {r : MappingRecord}
    (h : (MemoryStore.get now data payloadId).1 = some r) :
    ∃ expiresAt, data payloadId = some ⟨expiresAt, r⟩ ∧ now < expiresAt := by
  unfold MemoryStore.get at h
  split at h
  · cases h
  · rename_i e he
    split at h
    · cases h
    · rename_i hlive
      obtain rfl := Option.some.inj h
      exact ⟨e.expiresAt, he, not_le.1 hlive⟩

/-- A created record is fresh and lives for the time to live. -/
theorem Creates.spec (hdemask : svc.Demasking) {q : Request} {r : MappingRecord}
    (h : Creates svc data q r) :
    svc.IsFresh q.payload q.time r ∧
      serveRequest svc q data q.payloadId = some ⟨q.time + svc.ttl, r⟩ := by
  obtain ⟨hbefore, hafter⟩ := h
  obtain ⟨expiresAt, hentry, hexpires⟩ := get_eq_some hafter
  obtain ⟨e, he, hlive, -⟩ | ⟨hdead, heq | heq | ⟨record, hfresh, heq⟩⟩ :=
    serveRequest_cases q data hdemask
  · simp [get_of_live he hlive] at hbefore
  · rw [heq] at hentry
    exact absurd hexpires (not_lt.2 (hdead _ hentry))
  · simp [heq] at hentry
  · obtain ⟨hexp, rfl⟩ : q.time + svc.ttl = expiresAt ∧ record = r := by simpa [heq] using hentry
    exact ⟨hfresh, by rw [heq, Function.update_self]⟩

/-- At the time `t` the entry is in the store until it expires. After that, `get` returns nothing
that was created before the entry expired. -/
def LivesUntilExpiry (data : MemoryData) (payloadId : Text) (t : ℚ) (e : MemoryEntry) : Prop :=
  (t < e.expiresAt →
      data payloadId = some e ∧ (MemoryStore.get t data payloadId).1 = some e.record) ∧
    (e.expiresAt ≤ t →
      ∀ r', (MemoryStore.get t data payloadId).1 = some r' → e.expiresAt ≤ r'.createdAt)

theorem livesUntilExpiry_of_entry {payloadId : Text} {t : ℚ} {e : MemoryEntry}
    (he : data payloadId = some e) : LivesUntilExpiry data payloadId t e := by
  refine ⟨fun hlive => ⟨he, by rw [get_of_live he hlive]⟩, fun hexpired r' hr' => ?_⟩
  obtain ⟨expiresAt, hentry, hlive⟩ := get_eq_some hr'
  obtain rfl := Option.some.inj (he.symm.trans hentry)
  exact absurd hlive (not_lt.2 hexpired)

theorem livesUntilExpiry_of_ended {deadline graceLength : ℚ} {payloadId : Text} {r : MappingRecord}
    {t : ℚ} {e : MemoryEntry}
    (h : Phase.Holds deadline graceLength payloadId r t data (.ended e.expiresAt)) :
    LivesUntilExpiry data payloadId t e := by
  obtain ⟨hended, hentries⟩ := h
  refine ⟨fun hlive => absurd hlive (not_lt.2 hended), fun _ r' hr' => ?_⟩
  obtain ⟨expiresAt, hentry, hlive⟩ := get_eq_some hr'
  exact (hentries _ hentry).resolve_left (not_le.2 (hended.trans_lt hlive))

end

/-- **Bounded lifetime of a record.** A request `first` creates the record `r`, whatever the store
holds before. At every later moment `t`, after any requests, the record is active and expires at
the end of the time to live, as long as no request may demask it. From the first request that may,
it is in grace and expires at the end of the grace after that request. Once it has expired, `get`
returns no record of that time, so none is older than the time to live and the grace. -/
theorem bounded_lifetime (pipeline : Pipeline) (consumers : ConsumerRegistry) (hashing : Hashing)
    (ttl grace : ℚ) (secret : Option Text) (httl : 0 < ttl) (hgrace : 0 < grace)
    (data : MemoryData) (first : Request) (after : List Request)
    (hclock : (first :: after).Pairwise (·.time ≤ ·.time)) (r : MappingRecord)
    (hcreates : Creates (ModeDemasker.service pipeline consumers hashing ttl grace secret) data
      first r)
    (t : ℚ) (hnow : ∀ q ∈ first :: after, q.time ≤ t) :
    let svc := ModeDemasker.service pipeline consumers hashing ttl grace secret
    let deadline := first.time + ttl
    let data' := serveAll svc (first :: after) data
    svc.IsFresh first.payload first.time r ∧
      (match firstDemask svc deadline first.payloadId r after with
        | none => LivesUntilExpiry data' first.payloadId t ⟨deadline, r⟩
        | some q =>
          LivesUntilExpiry data' first.payloadId t ⟨q.time + grace, r.demasked q.time⟩) ∧
      (deadline + grace ≤ t → ∀ r', (MemoryStore.get t data' first.payloadId).1 = some r' →
        first.time < r'.createdAt) := by
  intro svc deadline data'
  have hdemask : svc.Demasking :=
    ModeDemasker.demasking_service pipeline consumers hashing ttl grace secret
  obtain ⟨hfresh, hentry⟩ := hcreates.spec hdemask
  obtain ⟨hfirst, hclock'⟩ := List.pairwise_cons.1 hclock
  have hrun : (phaseAfter svc deadline first.payloadId r after .active).Holds deadline grace
      first.payloadId r t data' := by
    refine serveAll_holds hdemask hfresh.state after hclock' (hnow first List.mem_cons_self)
      (fun q hq => ⟨hfirst q hq, hnow q (.tail _ hq)⟩) ?_
    exact hentry
  refine ⟨hfresh, ?_⟩
  cases hfind : firstDemask svc deadline first.payloadId r after with
  | none =>
    have hlives : LivesUntilExpiry data' first.payloadId t ⟨deadline, r⟩ := by
      obtain hphase | hphase := phaseAfter_of_firstDemask_eq_none hfind <;> rw [hphase] at hrun
      · exact livesUntilExpiry_of_entry hrun
      · exact livesUntilExpiry_of_ended hrun
    refine ⟨hlives, fun hlate r' hr' => ?_⟩
    have hcreated := hlives.2 (by show deadline ≤ t; linarith) r' hr'
    exact lt_of_lt_of_le (lt_add_of_pos_right _ httl) hcreated
  | some q =>
    have hmem : q ∈ after := List.mem_of_find?_eq_some hfind
    have hbefore : q.time < deadline :=
      of_decide_eq_true (Bool.and_eq_true .. ▸ List.find?_some hfind).2
    have hlives : LivesUntilExpiry data' first.payloadId t
        ⟨q.time + grace, r.demasked q.time⟩ := by
      obtain hphase | hphase := phaseAfter_of_firstDemask_eq_some hclock' hfind <;>
        rw [hphase] at hrun
      · exact livesUntilExpiry_of_entry hrun
      · exact livesUntilExpiry_of_ended hrun
    refine ⟨hlives, fun hlate r' hr' => ?_⟩
    have hcreated := hlives.2 (by show q.time + grace ≤ t; linarith) r' hr'
    have hgap : first.time < q.time + grace := by linarith [hfirst q hmem]
    exact hgap.trans_le hcreated

/-- The requests of a document with an e-mail address, its masked text and the document again. -/
def mailRequests : Request × List Request :=
  (⟨"mail a@b.ru".toList, "p1".toList, none, 0⟩,
    [⟨"mail <EMAIL_1>".toList, "p1".toList, none, 10⟩,
      ⟨"mail a@b.ru".toList, "p1".toList, none, 20⟩])

/-- The case of a record that is demasked at the time 10, and expires at 70 in spite of a retry. -/
theorem bounded_lifetime_mail :
    let svc := ModeDemasker.service (builtinPipeline (basicRuntime 0 (by decide)))
      { defaultConsumer := { consumerId := "default".toList, maskingMode := .tokenMode } }
      ⟨id, fun _ => id⟩ 3600 60 none
    ∃ r, Creates svc (fun _ => none) mailRequests.1 r ∧
      serveAll svc (mailRequests.1 :: mailRequests.2) (fun _ => none) "p1".toList =
        some ⟨70, r.demasked 10⟩ := by
  intro svc
  have hsome : ((MemoryStore.get 0 (serveRequest svc mailRequests.1 fun _ => none)
      "p1".toList).1.map fun r => (r.demaskEnabled, r.originalFingerprint)) =
        some (true, "mail a@b.ru".toList) := by
    decide +kernel
  obtain ⟨r, hr, hfields⟩ := Option.map_eq_some_iff.1 hsome
  obtain ⟨henabled, horiginal⟩ := Prod.mk.inj hfields
  have hcreates : Creates svc (fun _ => none) mailRequests.1 r := ⟨rfl, hr⟩
  have hfind : firstDemask svc 3600 "p1".toList r mailRequests.2 =
      some ⟨"mail <EMAIL_1>".toList, "p1".toList, none, 10⟩ := by
    apply List.find?_cons_of_pos
    simp only [Demasks, henabled, horiginal]
    decide +kernel
  obtain ⟨-, hlives, -⟩ := bounded_lifetime (builtinPipeline (basicRuntime 0 (by decide)))
    { defaultConsumer := { consumerId := "default".toList, maskingMode := .tokenMode } }
    ⟨id, fun _ => id⟩ 3600 60 none (by norm_num) (by norm_num) (fun _ => none) mailRequests.1
    mailRequests.2 (by decide +kernel) r hcreates 30 (by decide +kernel)
  have hdeadline : mailRequests.1.time + 3600 = 3600 := by decide +kernel
  rw [hdeadline, show mailRequests.1.payloadId = "p1".toList from rfl, hfind] at hlives
  refine ⟨r, hcreates, (hlives.1 ?_).1.trans ?_⟩
  · norm_num
  · norm_num

end PiiProxy
