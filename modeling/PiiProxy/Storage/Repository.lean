import PiiProxy.Storage.GraceTransition
import PiiProxy.Storage.Outage
import PiiProxy.Storage.Sessions

/-!
# The service over the repository

The service over a `MongoMappingRepository` without the batch, one request after another, each at
one moment of a monotone clock, while the TTL monitor deletes expired documents whenever it likes.
An expired document counts for nothing, whether it is deleted yet or not, so the service answers as
over the in-memory store. Only a creation can tell the difference: it inserts a document, and when
an expired one is in the way, replaces that. If the monitor deletes it in between, nothing is
created, and the request is refused.

## Main definitions

* `MongoRepository.serve`, `monitored`: the calls of the service, and the collection during one
  request.
* `Collection.Shows`: the collection shows the entries of an in-memory store.
* `ProcessService.servesOverMongo`: one request, and the collection after it.

## Main results

* `wp_get`, `wp_saveIfAbsent`, `wp_markDemasked`: the calls of the service do what those of the
  in-memory store do.
* `ProcessService.wp_process`: so does a request.
* `ProcessService.outcomes_overMongo`: runs of requests.
-/

namespace PiiProxy

open Relation (ReflTransGen)

/-! ### The collection during a request -/

/-- A call of the service on the repository. -/
def MongoRepository.serve (repo : MongoRepository) : (e : ServiceOp) → MongoProg Unit e.Answer
  | .store op => repo.perform op
  | .time => .call .utcnow .ret

/-- The TTL monitor deletes an expired document. -/
def Collection.Expires (s s' : Collection Unit) : Prop :=
  ∃ payloadId doc, s.docs payloadId = some doc ∧ doc.expiresAt ≤ s.now ∧
    s' = (s.remove payloadId).noted

/-- The collection while the clock stands still. Only the creation of the indexes may raise. The
monitor is at work if it is so `during` the request. -/
def monitored (during : Prop) : Sys (Collection Unit) (MongoOp Unit) MongoOp.Answer where
  handle e s r s' :=
    (collection Unit).handle e s r s' ∧ (e.Raises r → e = .indexesDue ∨ e = .createIndex)
  env s s' := during ∧ s.Expires s'

/-- The entry of a document. -/
def MongoDoc.entry (doc : MongoDoc) : MemoryEntry := ⟨doc.expiresAt, doc.record⟩

/-- An entry that has not expired. -/
def MemoryEntry.live (now : ℚ) (e : Option MemoryEntry) : Option MemoryEntry :=
  e.filter fun e => decide (now < e.expiresAt)

theorem MemoryEntry.live_some {now : ℚ} {e : MemoryEntry} (hlive : now < e.expiresAt) :
    live now (some e) = some e := by
  simp [live, hlive]

theorem MemoryEntry.live_live {now t : ℚ} (ht : now ≤ t) (e : Option MemoryEntry) :
    live t (live now e) = live t e := by
  rw [live, live, Option.filter_filter]
  congr 1
  funext e
  rw [Bool.and_eq_right_iff_imp]
  exact fun hlive => decide_eq_true (ht.trans_lt (of_decide_eq_true hlive))

/-- What has not expired at the present moment is the same in the collection and in the store. -/
structure Collection.Shows (s : Collection Unit) (now : ℚ) (data : MemoryData) : Prop where
  now_eq : s.now = now
  visible : ∀ payloadId,
    (s.visible payloadId).map MongoDoc.entry = MemoryEntry.live now (data payloadId)

/-- What the monitor may have done: documents are gone that had expired. -/
structure Collection.Swept (during : Prop) (s s' : Collection Unit) : Prop where
  now_eq : s'.now = s.now
  docs : ∀ payloadId, s'.docs payloadId = s.docs payloadId ∨
    during ∧ s'.docs payloadId = none ∧
      ∃ doc, s.docs payloadId = some doc ∧ doc.expiresAt ≤ s.now

namespace Collection

variable {during : Prop} {s s' s'' : Collection Unit} {now : ℚ} {data : MemoryData}
  {payloadId : Text}

theorem Swept.refl (s : Collection Unit) : Swept during s s := ⟨rfl, fun _ => .inl rfl⟩

theorem Swept.trans (h : Swept during s s') (h' : Swept during s' s'') : Swept during s s'' where
  now_eq := h'.now_eq.trans h.now_eq
  docs payloadId := by
    rcases h'.docs payloadId with hsame' | ⟨hduring, hnone, doc, hdoc, hexpired⟩
    · rw [hsame']
      exact h.docs payloadId
    · rcases h.docs payloadId with hsame | ⟨-, hnone', -⟩
      · exact .inr ⟨hduring, hnone, doc, hsame ▸ hdoc, h.now_eq ▸ hexpired⟩
      · rw [hnone'] at hdoc
        cases hdoc

theorem Expires.swept (hduring : during) (h : s.Expires s') : Swept during s s' := by
  obtain ⟨payloadId, doc, hdoc, hexpired, rfl⟩ := h
  refine ⟨rfl, fun payloadId' => ?_⟩
  by_cases hid : payloadId' = payloadId
  · subst hid
    exact .inr ⟨hduring, Function.update_self .., doc, hdoc, hexpired⟩
  · exact .inl (Function.update_of_ne hid _ _)

theorem swept_of_reflTransGen (hduring : during) (h : ReflTransGen Expires s s') :
    Swept during s s' := by
  induction h with
  | refl => exact .refl s
  | tail _ hstep ih => exact ih.trans (hstep.swept hduring)

theorem swept_of_env (h : ReflTransGen (monitored during).env s s') : Swept during s s' := by
  induction h with
  | refl => exact .refl s
  | tail _ hstep ih => exact ih.trans (hstep.2.swept hstep.1)

/-- What is visible does not change when expired documents go. -/
theorem Swept.visible_eq (h : Swept during s s') : s'.visible payloadId = s.visible payloadId := by
  rw [visible, visible, h.now_eq]
  rcases h.docs payloadId with hsame | ⟨-, hnone, doc, hdoc, hexpired⟩
  · rw [hsame]
  · rw [hnone, hdoc, Option.filter_none, Option.filter_some_neg]
    simpa using hexpired

theorem Shows.swept (h : s.Shows now data) (hs : Swept during s s') : s'.Shows now data where
  now_eq := hs.now_eq.trans h.now_eq
  visible payloadId := hs.visible_eq ▸ h.visible payloadId

theorem Swept.noted (h : Swept during s s') : Swept during s s'.noted := ⟨h.now_eq, h.docs⟩

theorem Shows.noted (h : s.Shows now data) : s.noted.Shows now data := ⟨h.now_eq, h.visible⟩

/-- A document that is in the way and not visible has expired. -/
theorem expired_of_visible_eq_none {doc : MongoDoc} (hdoc : s.docs payloadId = some doc)
    (hnone : s.visible payloadId = none) : doc.expiresAt ≤ s.now := by
  rw [visible, hdoc, Option.filter_eq_none_iff] at hnone
  simpa using hnone doc rfl

theorem Shows.visible_eq_none (h : s.Shows now data)
    (hnone : MemoryEntry.live now (data payloadId) = none) : s.visible payloadId = none :=
  Option.map_eq_none_iff.1 ((h.visible payloadId).trans hnone)

/-- What is visible are the entries that live. -/
theorem map_visible (s : Collection Unit) (payloadId : Text) :
    (s.visible payloadId).map MongoDoc.entry =
      MemoryEntry.live s.now ((s.docs payloadId).map MongoDoc.entry) := by
  rw [visible, MemoryEntry.live, Option.filter_map]
  rfl

/-- A write to both. -/
theorem Shows.put (h : s.Shows now data) (doc : MongoDoc) (hnow : s'.now = s.now)
    (hdocs : s'.docs = Function.update s.docs payloadId (some doc)) :
    s'.Shows now (Function.update data payloadId (some doc.entry)) where
  now_eq := hnow.trans h.now_eq
  visible payloadId' := by
    have hvisible := h.visible payloadId'
    rw [map_visible] at hvisible ⊢
    rw [hnow, hdocs]
    by_cases hid : payloadId' = payloadId
    · subst hid
      rw [Function.update_self, Function.update_self, h.now_eq, Option.map_some]
    · rw [Function.update_of_ne hid, Function.update_of_ne hid, hvisible]

/-- The in-memory store forgets an entry that has expired when it is read. -/
theorem shows_forget_iff :
    s.Shows now (Function.update data payloadId (MemoryEntry.live now (data payloadId))) ↔
      s.Shows now data := by
  have hlive (payloadId' : Text) :
      MemoryEntry.live now (Function.update data payloadId
        (MemoryEntry.live now (data payloadId)) payloadId') =
          MemoryEntry.live now (data payloadId') := by
    by_cases hid : payloadId' = payloadId
    · rw [hid, Function.update_self, MemoryEntry.live_live le_rfl]
    · rw [Function.update_of_ne hid]
  constructor
  · exact fun h => ⟨h.now_eq, fun payloadId' => (h.visible payloadId').trans (hlive payloadId')⟩
  · exact fun h =>
      ⟨h.now_eq, fun payloadId' => (h.visible payloadId').trans (hlive payloadId').symm⟩

/-- Time passes. -/
theorem Shows.later (h : s.Shows now data) {t : ℚ} (ht : now ≤ t) :
    { s with now := t }.Shows t data where
  now_eq := rfl
  visible payloadId := by
    have hvisible := h.visible payloadId
    rw [map_visible, h.now_eq] at hvisible
    rw [map_visible, ← MemoryEntry.live_live ht, hvisible, MemoryEntry.live_live ht]

end Collection

/-! ### The calls of the service -/

section Calls

open Collection

variable {during : Prop} {s s' : Collection Unit} {now : ℚ} {data : MemoryData} {payloadId : Text}
  {h : List (Prog.Event (MongoOp Unit) MongoOp.Answer)}

/-- An operation that has to do with documents does not raise. -/
theorem eq_apply_of_handle {e : MongoOp Unit} {r : e.Answer}
    (hr : (monitored during).handle e s r s') (hdue : e ≠ .indexesDue)
    (hindex : e ≠ .createIndex) : r = (s.apply e).1 ∧ s' = (s.apply e).2.noted := by
  obtain ⟨hr | ⟨hraises, -⟩, honly⟩ := hr
  · exact hr
  · rcases honly hraises with rfl | rfl
    · exact absurd rfl hdue
    · exact absurd rfl hindex

theorem wp_utcnow {α : Type} {Q : List (Prog.Event (MongoOp Unit) MongoOp.Answer) → α →
      Collection Unit → Prop} {k : ℚ → MongoProg Unit α} (hs : s.Shows now data)
    (hk : ∀ h' s', Swept during s s' → s'.Shows now data →
      Prog.Wp (monitored during) Q h' (k now) s') :
    Prog.Wp (monitored during) Q h (.call .utcnow k) s := by
  intro s₁ henv t s₂ ht
  have hswept := swept_of_env henv
  obtain ⟨rfl, rfl⟩ := eq_apply_of_handle ht (by simp) (by simp)
  rw [show (s₁.apply .utcnow).1 = now from (hs.swept hswept).now_eq]
  exact hk _ _ hswept.noted (hs.swept hswept).noted

theorem wp_ret {α : Type} {Q : List (Prog.Event (MongoOp Unit) MongoOp.Answer) → α →
      Collection Unit → Prop} {a : α} (hs : s.Shows now data)
    (hQ : ∀ s', s'.Shows now data → Q h a s') :
    Prog.Wp (monitored during) Q h (.ret a) s :=
  fun s' henv => hQ s' (hs.swept (swept_of_env henv))

/-- `get` reads the record of the entry that lives. -/
theorem wp_get (repo : MongoRepository) (hs : s.Shows now data) :
    Prog.Wp (monitored during) (fun _ r s' =>
        r = .ok ((MemoryEntry.live now (data payloadId)).map MemoryEntry.record) ∧
          s'.Shows now data) h
      (repo.perform (.get payloadId)) s := by
  intro s₁ henv r s₂ hr
  replace hs := hs.swept (swept_of_env henv)
  obtain ⟨hanswer, rfl⟩ := eq_apply_of_handle hr (by simp) (by simp)
  have hvisible := hs.visible payloadId
  rw [← hvisible, Option.map_map, visible]
  cases hdoc : s₁.docs payloadId with
  | none =>
    obtain rfl : r = .ok none := hanswer.trans (congrArg Except.ok hdoc)
    exact wp_ret hs.noted fun s' hs' => ⟨rfl, hs'⟩
  | some doc =>
    obtain rfl : r = .ok (some doc) := hanswer.trans (congrArg Except.ok hdoc)
    refine wp_utcnow hs.noted fun h' s' _ hs' => wp_ret hs' fun s' hs' => ⟨?_, hs'⟩
    rw [hs.now_eq, Option.filter_some]
    simp only [raisedByMongo, decide_eq_true_eq]
    rfl

/-- `time.time()` of the service. -/
theorem wp_time (repo : MongoRepository) (hs : s.Shows now data) :
    Prog.Wp (monitored during) (fun _ t s' => t = now ∧ s'.Shows now data) h
      (repo.serve .time) s :=
  wp_utcnow hs fun _ _ _ hs' => wp_ret hs' fun _ hs' => ⟨rfl, hs'⟩

theorem wp_ensureIndexesLazy (hs : s.Shows now data) :
    Prog.Wp (monitored during) (fun _ _ s' => s'.Shows now data) h
      MongoRepository.ensureIndexesLazy s := by
  intro s₁ henv due s₂ hdue
  replace hs := hs.swept (swept_of_env henv)
  rw [indexesDue_cases hdue.1]
  cases due with
  | false => exact wp_ret hs.noted fun _ hs' => hs'
  | true =>
    intro s₃ henv r s₄ hcreate
    rw [createIndex_cases hcreate.1]
    exact wp_ret (hs.noted.swept (swept_of_env henv)).noted fun _ hs' => hs'

/-- `save_if_absent` when no entry lives: it creates one, unless the monitor deletes the expired
document that refused the insertion. -/
theorem wp_saveIfAbsent (repo : MongoRepository) (record : MappingRecord) (ttl : ℚ)
    (hs : s.Shows now data) (hnone : MemoryEntry.live now (data payloadId) = none) :
    Prog.Wp (monitored during) (fun _ r s' =>
        (r = .ok true ∧
          s'.Shows now (Function.update data payloadId (some ⟨now + ttl, record⟩))) ∨
        (r = .ok false ∧ (during ∨ ttl ≤ 0) ∧ s'.Shows now data)) h
      (repo.perform (.saveIfAbsent payloadId record ttl)) s := by
  refine Prog.Wp.bind (Prog.Wp.bind ((wp_ensureIndexesLazy hs).mono fun h' _ s hs => ?_))
  refine wp_utcnow hs fun h' s _ hs => ?_
  intro s₁ henv r s₂ hr
  replace hs := hs.swept (swept_of_env henv)
  obtain ⟨hanswer, rfl⟩ := eq_apply_of_handle hr (by simp) (by simp)
  have hcreate {s : Collection Unit} (hs : s.Shows now data) :
      (s.create () payloadId record (now + ttl)).Shows now
        (Function.update data payloadId (some ⟨now + ttl, record⟩)) :=
    hs.put ⟨record, now + ttl, s.created.length⟩ rfl rfl
  cases hdoc : s₁.docs payloadId with
  | none =>
    have happly : s₁.apply (.insertOne () payloadId record (now + ttl)) =
        (.ok (), s₁.create () payloadId record (now + ttl)) := by simp only [apply, hdoc]
    rw [happly] at hanswer ⊢
    subst hanswer
    exact wp_ret (hcreate hs).noted fun s' hs' => wp_ret hs' fun s' hs' => .inl ⟨rfl, hs'⟩
  | some doc =>
    have happly : s₁.apply (.insertOne () payloadId record (now + ttl)) =
        (.error .duplicateKey, s₁) := by simp only [apply, hdoc]
    rw [happly] at hanswer ⊢
    subst hanswer
    refine wp_utcnow hs.noted fun h' s₃ hswept hs => ?_
    intro s₄ henv r s₅ hr
    have hgone := (hswept.trans (swept_of_env henv)).docs payloadId
    replace hs := hs.swept (swept_of_env henv)
    obtain ⟨hanswer, rfl⟩ := eq_apply_of_handle hr (by simp) (by simp)
    cases hdoc' : s₄.docs payloadId with
    | none =>
      have happly : s₄.apply (.replaceExpired () payloadId now record (now + ttl)) =
          (.ok false, s₄) := by simp only [apply, hdoc']
      rw [happly] at hanswer ⊢
      subst hanswer
      have hduring : during := by
        rcases hgone with hsame | hgone
        · cases hdoc'.symm.trans (hsame.trans hdoc)
        · exact hgone.1
      exact wp_ret hs.noted fun s' hs' => wp_ret hs' fun s' hs' => .inr ⟨rfl, .inl hduring, hs'⟩
    | some doc' =>
      have hexpired : doc'.expiresAt ≤ now :=
        hs.now_eq ▸ expired_of_visible_eq_none hdoc' (hs.visible_eq_none hnone)
      by_cases hsame : doc'.record = record ∧ doc'.expiresAt = now + ttl
      · have happly : s₄.apply (.replaceExpired () payloadId now record (now + ttl)) =
            (.ok false, s₄) := by
          simp only [apply, hdoc', if_pos hexpired, if_pos hsame]
        rw [happly] at hanswer ⊢
        subst hanswer
        have httl : ttl ≤ 0 := by linarith only [hexpired, hsame.2]
        exact wp_ret hs.noted fun s' hs' => wp_ret hs' fun s' hs' => .inr ⟨rfl, .inr httl, hs'⟩
      · have happly : s₄.apply (.replaceExpired () payloadId now record (now + ttl)) =
            (.ok true, s₄.create () payloadId record (now + ttl)) := by
          simp only [apply, hdoc', if_pos hexpired, if_neg hsame]
        rw [happly] at hanswer ⊢
        subst hanswer
        exact wp_ret (hcreate hs).noted fun s' hs' => wp_ret hs' fun s' hs' => .inl ⟨rfl, hs'⟩

/-- `mark_demasked` moves the entry that lives to grace. -/
theorem wp_markDemasked {repo : MongoRepository} (hrepo : repo.batchGrace = false) (grace : ℚ)
    (hs : s.Shows now data) {e : MemoryEntry}
    (hlive : MemoryEntry.live now (data payloadId) = some e) :
    Prog.Wp (monitored during) (fun _ _ s' => s'.Shows now
        (Function.update data payloadId (some ⟨now + grace, e.record.demasked now⟩))) h
      (repo.perform (.markDemasked payloadId grace)) s := by
  rw [MongoRepository.perform, MongoRepository.markDemasked, hrepo]
  refine wp_utcnow hs fun h' s _ hs => wp_utcnow hs fun h' s _ hs => ?_
  intro s₁ henv r s₂ hr
  replace hs := hs.swept (swept_of_env henv)
  obtain ⟨-, rfl⟩ := eq_apply_of_handle hr (by simp) (by simp)
  have hvisible := (hs.visible payloadId).trans hlive
  obtain ⟨doc, hdoc, rfl⟩ := Option.map_eq_some_iff.1 hvisible
  replace hdoc := (Option.filter_eq_some_iff.1 hdoc).1
  let write : GraceWrite := ⟨payloadId, now, now + grace, 0⟩
  have happly : s₁.apply (.updateOne write) =
      (.ok (), (s₁.put payloadId (write.set doc)).logGrace 0 (some doc)
        (some (write.set doc))) := by
    simp only [apply, write, hdoc]
  have hput : ((s₁.put payloadId (write.set doc)).logGrace 0 (some doc)
      (some (write.set doc))).Shows now
        (Function.update data payloadId (some (write.set doc).entry)) :=
    hs.put (write.set doc) rfl rfl
  rw [happly]
  exact wp_ret hput.noted fun s' hs' => hs'

end Calls

/-! ### Requests -/

namespace ProcessService

variable (svc : ProcessService)

/-- The refusal of a request that neither created a record nor found one. -/
def refusal : Except ServiceError ProcessOutcome :=
  .error (.storageUnavailable "winning mapping unavailable".toList)

/-- The request is refused in this way. -/
def refused (outcome : Except ServiceError ProcessOutcome) : Bool := decide (outcome = refusal)

/-- The outcome and the collection after a request are those over the in-memory store, or the
request is refused and has left nothing. -/
def AnswersAs (during : Prop) (now : ℚ) (before : MemoryData)
    (expected : Except ServiceError ProcessOutcome × MemoryData)
    (outcome : Except ServiceError ProcessOutcome) (s' : Collection Unit) : Prop :=
  (outcome = expected.1 ∧ outcome ≠ refusal ∧ s'.Shows now expected.2) ∨
    (outcome = refusal ∧ (during ∨ svc.ttl ≤ 0) ∧ s'.Shows now before)

variable {svc} {during : Prop} {s : Collection Unit} {now : ℚ} {before data : MemoryData}
  {payload payloadId : Text} {consumer : ConsumerConfig} {repo : MongoRepository}
  {h : List (Prog.Event (MongoOp Unit) MongoOp.Answer)}
  {h' : List (Prog.Event ServiceOp ServiceOp.Answer)}

/-- The request answers without another call. -/
theorem wp_answer (hs : s.Shows now data) {outcome : Except ServiceError ProcessOutcome}
    (houtcome : outcome ≠ refusal) :
    Prog.Wp (monitored during) (fun _ => svc.AnswersAs during now before (outcome, data)) h
      (.ret outcome) s :=
  wp_ret hs fun _ hs' => .inl ⟨rfl, houtcome, hs'⟩

theorem wp_transitionToGrace (hrepo : repo.batchGrace = false) (hs : s.Shows now data)
    {e : MemoryEntry} (he : data payloadId = some e) (hlive : now < e.expiresAt)
    {outcome : Except ServiceError ProcessOutcome} (houtcome : outcome ≠ refusal) :
    Prog.Wp (monitored during) (fun _ => svc.AnswersAs during now before
        (Prog.simulate (MemoryStore.respond now) h'
          ((svc.transitionToGrace payloadId e.record).bind fun _ => .ret outcome) data).2) h
      (((svc.transitionToGrace payloadId e.record).bind fun _ => .ret outcome).translate
        repo.serve) s := by
  rw [transitionToGrace]
  split_ifs
  · exact wp_answer hs houtcome
  · have hentry : MemoryEntry.live now (data payloadId) = some e := by
      rw [he, MemoryEntry.live_some hlive]
    refine Prog.Wp.bind ((wp_markDemasked hrepo svc.grace hs hentry).mono fun h' r s hs => ?_)
    simp only [Prog.simulate, Prog.bind_call, Prog.bind_ret, MemoryStore.respond,
      MemoryStore.apply, MemoryStore.markDemasked, get_of_live he hlive, MemoryStore.update]
    exact wp_answer hs houtcome

theorem wp_answerFromRecord (hrepo : repo.batchGrace = false) (hs : s.Shows now data)
    {e : MemoryEntry} (he : data payloadId = some e) (hlive : now < e.expiresAt) :
    Prog.Wp (monitored during) (fun _ => svc.AnswersAs during now before
        (Prog.simulate (MemoryStore.respond now) h'
          (svc.answerFromRecord payload payloadId consumer e.record) data).2) h
      ((svc.answerFromRecord payload payloadId consumer e.record).translate repo.serve) s := by
  rw [answerFromRecord]
  split_ifs
  · exact wp_answer hs (by simp [refusal])
  · exact wp_answer hs (by simp [refusal])
  · exact wp_transitionToGrace hrepo hs he hlive (by simp [refusal])
  · split
    · exact wp_answer hs (by simp [refusal])
    · exact wp_transitionToGrace hrepo hs he hlive (by simp [refusal])

theorem wp_firstRequest (hs : s.Shows now data) (hnone : data payloadId = none)
    (hbefore : ∀ s' : Collection Unit, s'.Shows now data → s'.Shows now before) :
    Prog.Wp (monitored during) (fun _ => svc.AnswersAs during now before
        (Prog.simulate (MemoryStore.respond now) h'
          (svc.firstRequest payload payloadId consumer) data).2) h
      ((svc.firstRequest payload payloadId consumer).translate repo.serve) s := by
  have hdead : MemoryEntry.live now (data payloadId) = none := by
    rw [hnone, MemoryEntry.live, Option.filter_none]
  cases hprocess : svc.pipeline.process payload consumer.maskingMode consumer payloadId with
  | error error =>
    rw [firstRequest, hprocess]
    exact wp_answer hs (by simp [refusal])
  | ok transform =>
    rw [svc.firstRequest_eq_call hprocess]
    refine Prog.Wp.bind ((wp_time repo hs).mono fun h₁ t s hread => ?_)
    obtain ⟨rfl, hs⟩ := hread
    refine Prog.Wp.bind ((wp_saveIfAbsent repo _ svc.ttl hs hdead).mono fun h₂ r s hsaved => ?_)
    rcases hsaved with ⟨rfl, hs⟩ | ⟨rfl, hrefused, hs⟩
    · simp only [Prog.simulate, MemoryStore.respond, MemoryStore.apply, MemoryStore.saveIfAbsent,
        hnone, afterSave]
      exact wp_answer hs (by simp [refusal])
    · -- neither created nor there
      refine Prog.Wp.bind ((wp_get repo hs).mono fun h₃ r s hread => ?_)
      obtain ⟨rfl, hs⟩ := hread
      rw [hdead, Option.map_none]
      exact wp_ret hs fun s' hs' => .inr ⟨rfl, hrefused, hbefore s' hs'⟩

theorem error_ne_refusal {consumerId : Option Text} {error : ServiceError}
    (h : svc.grant consumerId = .error error) :
    (.error error : Except ServiceError ProcessOutcome) ≠ refusal := by
  intro heq
  obtain rfl := Except.error.inj heq
  unfold grant at h
  split at h
  · cases h
  · split_ifs at h
    cases h

/-- **One request** over the repository answers as over the in-memory store, or is refused. -/
theorem wp_process (hrepo : repo.batchGrace = false) (hs : s.Shows now data)
    (consumerId : Option Text) :
    Prog.Wp (monitored during) (fun _ => svc.AnswersAs during now data
        (Prog.simulate (MemoryStore.respond now) []
          (svc.process payload payloadId consumerId) data).2) h
      ((svc.process payload payloadId consumerId).translate repo.serve) s := by
  cases hconsumer : svc.grant consumerId with
  | error error =>
    rw [process_of_not_admitted hconsumer]
    exact wp_answer hs (error_ne_refusal hconsumer)
  | ok consumer =>
    obtain ⟨hresolve, henabled⟩ := admit_eq_ok hconsumer
    rw [svc.process_eq_call hresolve henabled]
    refine Prog.Wp.bind ((wp_get repo hs).mono fun h₁ r s hread => ?_)
    obtain ⟨rfl, hs⟩ := hread
    have hget : MemoryStore.get now data payloadId =
        ((MemoryEntry.live now (data payloadId)).map MemoryEntry.record,
          Function.update data payloadId (MemoryEntry.live now (data payloadId))) :=
      svc.get_eq_alive now data payloadId
    have hforget : s.Shows now
        (Function.update data payloadId (MemoryEntry.live now (data payloadId))) :=
      Collection.shows_forget_iff.2 hs
    have hbefore (s' : Collection Unit) (hs' : s'.Shows now
        (Function.update data payloadId (MemoryEntry.live now (data payloadId)))) :
        s'.Shows now data := Collection.shows_forget_iff.1 hs'
    simp only [Prog.simulate, MemoryStore.respond, MemoryStore.apply, hget]
    cases hlive : MemoryEntry.live now (data payloadId) with
    | none =>
      rw [hlive] at hforget hbefore
      exact wp_firstRequest hforget (Function.update_self ..) hbefore
    | some e =>
      rw [hlive] at hforget
      have hexpires := of_decide_eq_true (Option.filter_eq_some_iff.1 hlive).2
      exact wp_answerFromRecord hrepo hforget (Function.update_self ..) hexpires

/-- A request over the repository, at its time, with its outcome and the collection after it. The
monitor may have been at work before the request. -/
def servesOverMongo (svc : ProcessService) (during : Prop) (q : PiiProxy.Request)
    (s : Collection Unit) (outcome : Except ServiceError ProcessOutcome) (s' : Collection Unit) :
    Prop :=
  s.now ≤ q.time ∧ ∃ s₁ h, ReflTransGen Collection.Expires { s with now := q.time } s₁ ∧
    Prog.Exec (monitored during) [] ((svc.process q.payload q.payloadId q.consumerId).translate
      (MongoRepository.serve { batchGrace := false })) s₁ h outcome s'

theorem answersAs_of_serves {q : PiiProxy.Request} {outcome : Except ServiceError ProcessOutcome}
    {s' : Collection Unit} (hs : s.Shows s.now data)
    (hserves : svc.servesOverMongo during q s outcome s') :
    svc.AnswersAs during q.time data (serveStep svc q data) outcome s' := by
  obtain ⟨hnow, s₁, h, hswept, hexec⟩ := hserves
  have hs₁ := (hs.later hnow).swept (Collection.swept_of_reflTransGen trivial hswept)
  exact hexec.wp (wp_process rfl hs₁ q.consumerId)

/-- **The repository stands for the in-memory store.** Requests over an empty collection, one after
another while the TTL monitor is at work, are answered as over the in-memory store, but for those
that are refused, which leave nothing behind. When the monitor pauses during requests and the time
to live is positive, no request is refused. -/
theorem outcomes_overMongo (svc : ProcessService) (during : Prop)
    {log : List (PiiProxy.Request × Except ServiceError ProcessOutcome)} {s s' : Collection Unit}
    (hlog : Reactive.Logged (svc.servesOverMongo during) s log s')
    (hempty : ∀ payloadId, s.docs payloadId = none) :
    let answered := log.filter fun e => !refused e.2
    answered.map Prod.snd =
        Reactive.outputs (serveStep svc) (answered.map Prod.fst) (fun _ => none) ∧
      (¬during → 0 < svc.ttl → answered = log) := by
  have hshows : s.Shows s.now fun _ => none := by
    refine ⟨rfl, fun payloadId => ?_⟩
    rw [Collection.map_visible, hempty, Option.map_none]
  constructor
  · refine Reactive.Logged.outputs_eq (R := fun data s => s.Shows s.now data) ?_ hlog hshows
    intro q data s outcome s' hs hserves
    rcases answersAs_of_serves hs hserves with ⟨houtcome, hne, hs'⟩ | ⟨houtcome, -, hs'⟩
    · exact .inl ⟨houtcome, decide_eq_false hne, hs'.now_eq ▸ hs'⟩
    · exact .inr ⟨decide_eq_true houtcome, hs'.now_eq ▸ hs'⟩
  · intro hduring httl
    have hanswered : ∀ e ∈ log, refused e.2 = false := by
      refine hlog.forall_answers (I := fun s => ∃ data, s.Shows s.now data)
        (Q := fun outcome => refused outcome = false) ?_ ⟨_, hshows⟩
      rintro q s outcome s' ⟨data, hs⟩ hserves
      rcases answersAs_of_serves hs hserves with ⟨-, hne, hs'⟩ | ⟨-, hcause, -⟩
      · exact ⟨decide_eq_false hne, _, hs'.now_eq ▸ hs'⟩
      · exact (hcause.elim hduring (not_le.2 httl)).elim
    exact List.filter_eq_self.2 fun e he => by rw [hanswered e he]; rfl

/-- An expired document is deleted right before it would be replaced. -/
def sweep : MongoOp Unit → Collection Unit → Collection Unit
  | .replaceExpired _ payloadId _ _ _, s =>
    match s.docs payloadId with
    | none => s
    | some doc => if doc.expiresAt ≤ s.now then (s.remove payloadId).noted else s
  | _, s => s

theorem sweep_env (e : MongoOp Unit) (s : Collection Unit) :
    ReflTransGen (monitored True).env s (sweep e s) := by
  unfold sweep
  split
  · split
    · exact .refl
    · next doc hdoc =>
      split_ifs with hexpired
      · exact .single ⟨trivial, _, doc, hdoc, hexpired, rfl⟩
      · exact .refl
  · exact .refl

theorem monitored_respond (e : MongoOp Unit) (s : Collection Unit) :
    (monitored True).handle e s (Collection.respond e s).1 (Collection.respond e s).2 := by
  refine ⟨Collection.handle_respond e s, fun hraises => ?_⟩
  cases e with
  | indexesDue => exact .inl rfl
  | createIndex => exact .inr rfl
  | insertOne owner payloadId record expiresAt =>
    simp only [MongoOp.Raises, Collection.respond, Collection.apply] at hraises
    split at hraises <;> cases hraises
  | replaceExpired owner payloadId cutoff record expiresAt =>
    simp only [MongoOp.Raises, Collection.respond, Collection.apply] at hraises
    split at hraises
    · cases hraises
    · split_ifs at hraises
  | replaceOne owner payloadId record expiresAt =>
    simp only [MongoOp.Raises, Collection.respond, Collection.apply] at hraises
    split at hraises <;> cases hraises
  | updateOne write =>
    simp only [MongoOp.Raises, Collection.respond, Collection.apply] at hraises
    split at hraises <;> cases hraises
  | utcnow => exact hraises.elim
  | findOne payloadId => cases hraises
  | deleteOne payloadId => cases hraises
  | enqueueGrace pending => exact hraises.elim
  | takePending => exact hraises.elim

/-- A request during which the monitor does so, and the collection after it. -/
def serveSwept (svc : ProcessService) (q : PiiProxy.Request) (s : Collection Unit) :
    Except ServiceError ProcessOutcome × Collection Unit :=
  (Prog.simulate (fun e s => Collection.respond e (sweep e s)) []
    ((svc.process q.payload q.payloadId q.consumerId).translate
      (MongoRepository.serve { batchGrace := false })) { s with now := q.time }).2

theorem servesOverMongo_swept {q : PiiProxy.Request} (hnow : s.now ≤ q.time) :
    svc.servesOverMongo True q s (serveSwept svc q s).1 (serveSwept svc q s).2 :=
  ⟨hnow, _, _, .refl, Prog.exec_simulate_moves sweep_env monitored_respond _ _ _⟩

/-- A request with an e-mail address. -/
def mailAt (time : ℚ) : PiiProxy.Request := ⟨"mail a@b.ru".toList, "p1".toList, none, time⟩

/-- The collection after the first request, and after a second one, before which the record has
expired. -/
def mailTwice : Collection Unit × Collection Unit :=
  let s := (serveSwept plainService (mailAt 0) { now := 0, docs := fun _ => none }).2
  (s, (serveSwept plainService (mailAt 5000) s).2)

/-- The second request is refused, the third one is answered as the second one would have been. -/
theorem outcomes_overMongo_mailAgain :
    let log :=
      [(mailAt 0, (serveSwept plainService (mailAt 0) { now := 0, docs := fun _ => none }).1),
      (mailAt 5000, (serveSwept plainService (mailAt 5000) mailTwice.1).1),
      (mailAt 5001, (serveSwept plainService (mailAt 5001) mailTwice.2).1)]
    log.map (fun e => answerOf e.2) =
        [.ok ("mail <EMAIL_1>".toList, .mask),
          .error (.storageUnavailable "winning mapping unavailable".toList),
          .ok ("mail <EMAIL_1>".toList, .mask)] ∧
      let answered := log.filter fun e => !refused e.2
      answered.map Prod.snd =
        Reactive.outputs (serveStep plainService) (answered.map Prod.fst) (fun _ => none) := by
  intro log
  have hlog : Reactive.Logged (plainService.servesOverMongo True)
      { now := 0, docs := fun _ => none } log
      (serveSwept plainService (mailAt 5001) mailTwice.2).2 :=
    .cons (servesOverMongo_swept (by decide +kernel))
      (.cons (servesOverMongo_swept (by decide +kernel))
        (.cons (servesOverMongo_swept (by decide +kernel)) (.nil _)))
  exact ⟨by decide +kernel, (outcomes_overMongo plainService True hlog fun _ => rfl).1⟩

end ProcessService

end PiiProxy
