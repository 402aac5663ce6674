import PiiProxy.Storage.Backends
import PiiProxy.Storage.Collection

/-!
# Creating a record when there is no live one

Concurrent `save_if_absent` calls of the Mongo repository on a collection whose expired documents
the TTL monitor deletes at any moment. An insertion that is refused is followed by a replacement of
the document, if that has expired. Whatever the order of the steps, a live record is never
overwritten, and two calls that have created records of one id have created records with disjoint
lifetimes. A call that creates nothing has met a live record, unless the expired document that
refused its insertion is deleted before the replacement (`saveIfAbsent_refused_by_nobody`), or some
call is so slow that it writes a document that has expired by then.

## Main definitions

* `Collection.InTime`: the replacement finds a document, and what is written has not expired.
* `Collection.Follows`, `Collection.Disjoint`: the law and the invariant of the collection.

## Main results

* `saveIfAbsent_atomic`: creation is atomic in every run whose writes are in time.
-/

namespace PiiProxy

namespace Collection

variable {τ : Type} {s s' s₁ s₂ s₃ : Collection τ}

/-! ### The law of the collection -/

/-- A write is made before the expiry that it carries, and a replacement finds a document. -/
def InTime (s : Collection τ) : MongoOp τ → Prop
  | .insertOne _ _ _ expiresAt => s.now < expiresAt
  | .replaceExpired _ payloadId _ _ expiresAt => s.now < expiresAt ∧ s.docs payloadId ≠ none
  | _ => True

instance InTime.decidable (s : Collection τ) : (e : MongoOp τ) → Decidable (s.InTime e)
  | .insertOne _ _ _ expiresAt => inferInstanceAs (Decidable (s.now < expiresAt))
  | .replaceExpired _ payloadId _ _ expiresAt =>
    inferInstanceAs (Decidable (s.now < expiresAt ∧ s.docs payloadId ≠ none))
  | .utcnow | .indexesDue | .createIndex | .replaceOne .. | .findOne _ | .deleteOne _
  | .updateOne _ | .enqueueGrace _ | .takePending => .isTrue trivial

/-- The collection in which, if `strict`, all writes are in time. -/
def claims (τ : Type) (strict : Prop) : Sys (Collection τ) (MongoOp τ) MongoOp.Answer :=
  (collection τ).restrict fun e s _ _ => strict → s.InTime e

/-- What happens to a collection: time does not go back, live documents stay, and if all writes are
in time, a new document has been live at some moment. -/
structure Follows (strict : Prop) (s s' : Collection τ) : Prop where
  now_le : s.now ≤ s'.now
  kept : ∀ payloadId doc, s.docs payloadId = some doc → s'.now < doc.expiresAt →
    s'.docs payloadId = some doc
  created : s.created <+: s'.created
  noted : ∃ seg, s'.moments = s.moments ++ seg ∧ (strict → ∀ payloadId doc,
    s'.docs payloadId = some doc → s.docs payloadId = some doc ∨
      ∃ m ∈ seg, m.2 payloadId = some doc ∧ m.1 < doc.expiresAt)

/-- Records of one id have been created one after another, each after the expiry of those before
it, and all but the one in the collection have expired. -/
structure Disjoint (s : Collection τ) : Prop where
  pairwise : s.created.Pairwise fun a b => a.payloadId = b.payloadId → a.expiresAt ≤ b.time
  expired : ∀ a ∈ s.created, a.expiresAt ≤ s.now ∨
    ∃ doc, s.docs a.payloadId = some doc ∧ doc.expiresAt = a.expiresAt

variable {strict : Prop}

namespace Follows

theorem refl (s : Collection τ) : Follows strict s s :=
  ⟨le_rfl, fun _ _ h _ => h, List.prefix_rfl, [], by simp, fun _ _ _ h => .inl h⟩

theorem trans (h₁ : Follows strict s₁ s₂) (h₂ : Follows strict s₂ s₃) : Follows strict s₁ s₃ where
  now_le := h₁.now_le.trans h₂.now_le
  kept payloadId doc hdoc hlive :=
    h₂.kept payloadId doc (h₁.kept payloadId doc hdoc (h₂.now_le.trans_lt hlive)) hlive
  created := h₁.created.trans h₂.created
  noted := by
    obtain ⟨seg₁, hseg₁, hnew₁⟩ := h₁.noted
    obtain ⟨seg₂, hseg₂, hnew₂⟩ := h₂.noted
    refine ⟨seg₁ ++ seg₂, by rw [hseg₂, hseg₁, List.append_assoc],
      fun hstrict payloadId doc hdoc => ?_⟩
    rcases hnew₂ hstrict payloadId doc hdoc with hdoc₂ | ⟨m, hm, hlive⟩
    · rcases hnew₁ hstrict payloadId doc hdoc₂ with hdoc₁ | ⟨m, hm, hlive⟩
      · exact .inl hdoc₁
      · exact .inr ⟨m, List.mem_append_left _ hm, hlive⟩
    · exact .inr ⟨m, List.mem_append_right _ hm, hlive⟩

/-- A step is noted after it has been made. -/
theorem of_step (hnow : s.now ≤ s'.now)
    (hkept : ∀ payloadId doc, s.docs payloadId = some doc → s'.now < doc.expiresAt →
      s'.docs payloadId = some doc)
    (hcreated : s.created <+: s'.created) (hmoments : s'.moments = s.moments)
    (hnew : strict → ∀ payloadId doc, s'.docs payloadId = some doc →
      s.docs payloadId = some doc ∨ s'.now < doc.expiresAt) : Follows strict s s'.noted where
  now_le := hnow
  kept := hkept
  created := hcreated
  noted := by
    refine ⟨[(s'.now, s'.docs)], by rw [noted_moments, hmoments],
      fun hstrict payloadId doc hdoc => ?_⟩
    rcases hnew hstrict payloadId doc hdoc with hold | hlive
    · exact .inl hold
    · exact .inr ⟨_, List.mem_singleton_self _, hdoc, hlive⟩

/-- Only the moment is noted. -/
theorem of_noted (s : Collection τ) : Follows strict s s.noted :=
  of_step le_rfl (fun _ _ h _ => h) List.prefix_rfl rfl fun _ _ _ h => .inl h

/-- A record is created when the document of its id is gone or has expired. -/
theorem of_create {owner : τ} {payloadId : Text} {record : MappingRecord} {expiresAt : ℚ}
    (hfree : ∀ doc, s.docs payloadId = some doc → doc.expiresAt ≤ s.now)
    (htime : strict → s.now < expiresAt) :
    Follows strict s (s.create owner payloadId record expiresAt).noted := by
  refine of_step le_rfl (fun payloadId' doc hdoc hlive => ?_) (List.prefix_append _ _) rfl
    fun hstrict payloadId' doc hdoc => ?_
  · have hne : payloadId' ≠ payloadId := by
      rintro rfl
      exact absurd (hfree doc hdoc) (not_le.mpr hlive)
    simpa only [create_docs, Function.update_of_ne hne] using hdoc
  · by_cases hid : payloadId' = payloadId
    · subst hid
      simp only [create_docs, Function.update_self, Option.some.injEq] at hdoc
      subst hdoc
      exact .inr (htime hstrict)
    · simp only [create_docs, Function.update_of_ne hid] at hdoc
      exact .inl hdoc

/-- Time passes, or the TTL monitor deletes an expired document. -/
theorem of_env (h : (collection τ).env s s') : Follows strict s s' := by
  rcases h with ⟨t, ht, rfl⟩ | ⟨payloadId, doc, hdoc, hexpired, rfl⟩
  · exact of_step ht (fun _ _ h _ => h) List.prefix_rfl rfl fun _ _ _ h => .inl h
  · refine of_step le_rfl (fun payloadId' doc' hdoc' hlive => ?_) List.prefix_rfl rfl
      fun _ payloadId' doc' hdoc' => ?_
    · have hne : payloadId' ≠ payloadId := by
        rintro rfl
        obtain rfl := Option.some.inj (hdoc.symm.trans hdoc')
        exact absurd hexpired (not_le.mpr hlive)
      simpa only [remove_docs, Function.update_of_ne hne] using hdoc'
    · by_cases hid : payloadId' = payloadId
      · simp only [remove_docs, hid, Function.update_self, reduceCtorEq] at hdoc'
      · simp only [remove_docs, Function.update_of_ne hid] at hdoc'
        exact .inl hdoc'

end Follows

namespace Disjoint

theorem noted (h : s.Disjoint) : s.noted.Disjoint := ⟨h.pairwise, h.expired⟩

/-- All records of an id have expired when its document is gone or has expired. -/
theorem expiresAt_le (h : s.Disjoint) {payloadId : Text}
    (hfree : ∀ doc, s.docs payloadId = some doc → doc.expiresAt ≤ s.now) {a : Creation τ}
    (ha : a ∈ s.created) (hid : a.payloadId = payloadId) : a.expiresAt ≤ s.now := by
  subst hid
  rcases h.expired a ha with hle | ⟨doc, hdoc, heq⟩
  · exact hle
  · exact heq ▸ hfree doc hdoc

theorem create (h : s.Disjoint) {owner : τ} {payloadId : Text} {record : MappingRecord}
    {expiresAt : ℚ} (hfree : ∀ doc, s.docs payloadId = some doc → doc.expiresAt ≤ s.now) :
    (s.create owner payloadId record expiresAt).noted.Disjoint where
  pairwise := by
    refine List.pairwise_append.mpr ⟨h.pairwise, List.pairwise_singleton _ _, fun a ha b hb => ?_⟩
    obtain rfl := List.mem_singleton.mp hb
    exact fun hid => h.expiresAt_le hfree ha hid
  expired a ha := by
    rcases List.mem_append.mp ha with ha | ha
    · by_cases hid : a.payloadId = payloadId
      · exact .inl (h.expiresAt_le hfree ha hid)
      · simpa only [noted_now, noted_docs, create_now, create_docs, Function.update_of_ne hid] using
          h.expired a ha
    · obtain rfl := List.mem_singleton.mp ha
      exact .inr ⟨_, Function.update_self _ _ _, rfl⟩

theorem env (h : s.Disjoint) (he : (collection τ).env s s') : s'.Disjoint := by
  rcases he with ⟨t, ht, rfl⟩ | ⟨payloadId, doc, hdoc, hexpired, rfl⟩
  · exact ⟨h.pairwise, fun a ha => (h.expired a ha).imp_left fun hle => hle.trans ht⟩
  · have hfree (doc' : MongoDoc) (hdoc' : s.docs payloadId = some doc') :
        doc'.expiresAt ≤ s.now := by
      obtain rfl := Option.some.inj (hdoc.symm.trans hdoc')
      exact hexpired
    refine ⟨h.pairwise, fun a ha => ?_⟩
    by_cases hid : a.payloadId = payloadId
    · exact .inl (h.expiresAt_le hfree ha hid)
    · simpa only [noted_now, noted_docs, remove_now, remove_docs, Function.update_of_ne hid] using
        h.expired a ha

end Disjoint

theorem law (strict : Prop) : Prog.Law (claims τ strict) Disjoint (Follows strict) where
  refl := .refl
  trans := .trans
  env hs he := ⟨hs.env he, .of_env he⟩

/-! ### One call -/

theorem Saw.of_follows {payloadId : Text} (h : Saw s₁ s₂ payloadId) (h₂ : Follows strict s₂ s₃) :
    Saw s₁ s₃ payloadId := by
  obtain ⟨seg₁, hseg₁, m, hm, hlive⟩ := h
  obtain ⟨seg₂, hseg₂, -⟩ := h₂.noted
  exact ⟨seg₁ ++ seg₂, by rw [hseg₂, hseg₁, List.append_assoc], m, List.mem_append_left _ hm, hlive⟩

theorem Follows.saw {payloadId : Text} (h₁ : Follows strict s₁ s₂) (h : Saw s₂ s₃ payloadId) :
    Saw s₁ s₃ payloadId := by
  obtain ⟨seg₁, hseg₁, -⟩ := h₁.noted
  obtain ⟨seg₂, hseg₂, m, hm, hlive⟩ := h
  exact ⟨seg₁ ++ seg₂, by rw [hseg₂, hseg₁, List.append_assoc], m,
    List.mem_append_right _ hm, hlive⟩

/-- What a document that expires after the noted moment shows, when it is found later. -/
theorem saw_of_found {payloadId : Text} {doc : MongoDoc} (hstrict : strict)
    (h : Follows strict s.noted s') (hdoc : s'.docs payloadId = some doc)
    (hlive : s.now < doc.expiresAt) : Saw s s' payloadId := by
  obtain ⟨seg, hseg, hnew⟩ := h.noted
  refine ⟨(s.now, s.docs) :: seg, by rw [hseg, noted_moments, List.append_assoc]; rfl, ?_⟩
  rcases hnew hstrict payloadId doc hdoc with hold | ⟨m, hm, hm'⟩
  · exact ⟨_, List.mem_cons_self, doc, hold, hlive⟩
  · exact ⟨m, List.mem_cons_of_mem _ hm, doc, hm'⟩

/-- The result of a `save_if_absent` that was begun in the state `s`: a call that has created a
record has logged it, and one that has not has met a live record. -/
def Claimed (strict : Prop) (owner : τ) (payloadId : Text) (s : Collection τ)
    (r : Except MongoError Bool) (s' : Collection τ) : Prop :=
  (r = .ok true → ∃ a ∈ s'.created, a.owner = owner ∧ a.payloadId = payloadId) ∧
    (strict → r = .ok false → Saw s s' payloadId)

variable {owner : τ} {payloadId : Text} {record : MappingRecord} {expiresAt ttl : ℚ}
  {h : List (Prog.Event (MongoOp τ) MongoOp.Answer)}

/-- A call that has created its record. -/
theorem claimed_of_create {r : Except MongoError Bool} (hr : r ≠ .ok false)
    (hs : Follows strict (s₁.create owner payloadId record expiresAt).noted s') :
    Claimed strict owner payloadId s r s' := by
  refine ⟨fun _ => ⟨_, hs.created.subset (List.mem_append_right _ (List.mem_singleton_self _)),
    rfl, rfl⟩, fun _ hfalse => absurd hfalse hr⟩

theorem safe_claimExpired (hs : Follows strict s s₁) :
    Prog.Safe (claims τ strict) Disjoint (Follows strict)
      (fun _ r s' => Claimed strict owner payloadId s r s') h
      (MongoRepository.claimExpired owner payloadId record expiresAt) s₁ := by
  intro s₂ h₂ hI₂ cutoff s₃ hcutoff
  obtain ⟨rfl, rfl⟩ := utcnow_cases hcutoff.1
  refine ⟨hI₂.noted, .of_noted _, ?_⟩
  intro s₃ h₃ hI₃ r s₄ hr
  obtain ⟨hr, htime⟩ := hr
  rcases replaceExpired_cases hr with ⟨doc, hdoc, hexpired, rfl, hfalse⟩ | ⟨rfl, htrue, hfalse⟩
  · have hfree (doc' : MongoDoc) (hdoc' : s₃.docs payloadId = some doc') :
        doc'.expiresAt ≤ s₃.now := by
      obtain rfl := Option.some.inj (hdoc.symm.trans hdoc')
      exact hexpired.trans h₃.now_le
    refine ⟨hI₃.create hfree, .of_create hfree fun hstrict => (htime hstrict).1, ?_⟩
    exact fun s₅ h₅ _ => claimed_of_create hfalse h₅
  · refine ⟨hI₃.noted, .of_noted _, fun s₅ h₅ _ => ⟨fun h => absurd h htrue, ?_⟩⟩
    intro hstrict hr
    obtain ⟨hlate, hpresent⟩ := htime hstrict
    have hsaw : Saw s₂ s₃ payloadId := by
      rcases hfalse hr with hnone | ⟨doc, hdoc, hlive | ⟨hle, rfl⟩⟩
      · exact absurd hnone hpresent
      · exact saw_of_found hstrict h₃ hdoc hlive
      · exact absurd (hle.trans h₃.now_le) (not_le.mpr hlate)
    have h₀ : Follows strict s s₂ := hs.trans h₂
    exact (h₀.saw hsaw).of_follows ((Follows.of_noted s₃).trans h₅)

theorem safe_ensureIndexesLazy :
    Prog.Safe (claims τ strict) Disjoint (Follows strict) (fun _ _ s' => Follows strict s s') h
      MongoRepository.ensureIndexesLazy s := by
  intro s₁ h₁ hI₁ due s₂ hdue
  obtain rfl := indexesDue_cases hdue.1
  have h₂ : Follows strict s s₁.noted := h₁.trans (.of_noted s₁)
  refine ⟨hI₁.noted, .of_noted _, ?_⟩
  match due with
  | true =>
    intro s₃ h₃ hI₃ r s₄ hr
    obtain rfl := createIndex_cases hr.1
    exact ⟨hI₃.noted, .of_noted _,
      fun s₅ h₅ _ => (h₂.trans h₃).trans ((Follows.of_noted s₃).trans h₅)⟩
  | false => exact fun s₃ h₃ _ => h₂.trans h₃

theorem safe_saveIfAbsent (hs : s.Disjoint) :
    Prog.Safe (claims τ strict) Disjoint (Follows strict)
      (fun _ r s' => Claimed strict owner payloadId s r s') h
      (MongoRepository.saveIfAbsent owner payloadId record ttl) s := by
  refine Prog.Safe.bind (law strict) hs (safe_ensureIndexesLazy.mono fun _ _ s₁ _ h₁ => ?_)
  intro s₂ h₂ hI₂ now s₃ hnow
  obtain ⟨rfl, rfl⟩ := utcnow_cases hnow.1
  refine ⟨hI₂.noted, .of_noted _, ?_⟩
  intro s₃ h₃ hI₃ r s₄ hr
  obtain ⟨hr, htime⟩ := hr
  have h₄ : Follows strict s s₃ := (h₁.trans h₂).trans ((Follows.of_noted s₂).trans h₃)
  rcases insertOne_cases hr with ⟨hnone, rfl, hdup⟩ | ⟨rfl, hok⟩
  · have hfree (doc : MongoDoc) (hdoc : s₃.docs payloadId = some doc) :
        doc.expiresAt ≤ s₃.now := by
      rw [hnone] at hdoc
      cases hdoc
    refine ⟨hI₃.create hfree, .of_create hfree htime, ?_⟩
    match r with
    | .ok () => exact fun s₅ h₅ _ => claimed_of_create (by simp) h₅
    | .error .duplicateKey => exact absurd rfl hdup
    | .error .other => exact fun s₅ h₅ _ => claimed_of_create (by simp) h₅
  · refine ⟨hI₃.noted, .of_noted _, ?_⟩
    match r with
    | .ok () => exact absurd rfl hok
    | .error .duplicateKey => exact safe_claimExpired (h₄.trans (.of_noted s₃))
    | .error .other => exact fun s₅ h₅ _ => ⟨(nomatch ·), fun _ => (nomatch ·)⟩

end Collection

/-! ### Every interleaving -/

/-- A `save_if_absent` call. -/
structure SaveCall where
  payloadId : Text
  record : MappingRecord
  ttl : ℚ

/-- Concurrent `save_if_absent` calls. -/
def saveCalls {ι : Type} (calls : ι → SaveCall) (i : ι) :
    Prog.Thread (MongoOp ι) MongoOp.Answer (Except MongoError Bool) :=
  Prog.start (MongoRepository.saveIfAbsent i (calls i).payloadId (calls i).record (calls i).ttl)

section

variable {ι : Type} [DecidableEq ι] {calls : ι → SaveCall} {strict : Prop} {s₀ : Collection ι}
  {c₁ c₂ : Collection ι × (ι → Prog.Thread (MongoOp ι) MongoOp.Answer (Except MongoError Bool))}

private theorem claimed_of_steps (hs₀ : s₀.created = [])
    (h₁ : Prog.Steps (Collection.claims ι strict) (s₀, saveCalls calls) c₁)
    (h₂ : Prog.Steps (Collection.claims ι strict) c₁ c₂) :
    c₂.1.Disjoint ∧ Collection.Follows strict c₁.1 c₂.1 ∧
      (∀ i r, (c₂.2 i).prog = .ret r →
        Collection.Claimed strict i (calls i).payloadId s₀ r c₂.1) ∧
      ∀ i r, (c₁.2 i).hist = [] → (c₂.2 i).prog = .ret r →
        Collection.Claimed strict i (calls i).payloadId c₁.1 r c₂.1 := by
  have hI₀ : s₀.Disjoint := ⟨by simp [hs₀], by simp [hs₀]⟩
  have hL := Collection.law (τ := ι) strict
  obtain ⟨hI₁, -, hsafe₁⟩ := h₁.safe hL hI₀ fun i => Collection.safe_saveIfAbsent hI₀
  obtain ⟨hI₂, hfollows, hsafe₂⟩ := h₂.safe hL hI₁ hsafe₁
  refine ⟨hI₂, hfollows, fun i r hr => ?_, fun i r hi hr => ?_⟩
  · have hpost := hsafe₂ i
    rw [hr] at hpost
    exact hpost c₂.1 (hL.refl _) hI₂
  · -- the call has not begun in `c₁`, so it may be judged from there
    have hthread : c₁.2 i = saveCalls calls i := h₁.eq_of_hist_eq_nil hi
    have hsafe (j : ι) : Prog.Safe (Collection.claims ι strict) Collection.Disjoint
        (Collection.Follows strict) (fun _ r s' => j = i →
          Collection.Claimed strict i (calls i).payloadId c₁.1 r s') (c₁.2 j).hist (c₁.2 j).prog
        c₁.1 := by
      by_cases hj : j = i
      · subst hj
        rw [hthread]
        exact (Collection.safe_saveIfAbsent hI₁).mono fun _ _ _ _ h _ => h
      · exact (hsafe₁ j).mono fun _ _ _ _ _ h => absurd h hj
    exact h₂.post hL hI₁ hsafe hr rfl

/-- **Creation is atomic.** Concurrent `save_if_absent` calls on a collection with any documents
never overwrite a live document, and if two calls for one id have created records, the one record
had expired when the other was created. When all writes are in time, a call that tells that it has
created nothing saw a live document of its id between its first step and its last. -/
theorem saveIfAbsent_atomic (calls : ι → SaveCall) (now : ℚ) (docs : Text → Option MongoDoc) :
    (∀ c₁ c₂, Prog.Steps (collection ι) ({ now, docs }, saveCalls calls) c₁ →
      Prog.Steps (collection ι) c₁ c₂ →
      (∀ payloadId doc, c₁.1.docs payloadId = some doc → c₂.1.now < doc.expiresAt →
        c₂.1.docs payloadId = some doc) ∧
      ∀ i j, i ≠ j → (calls i).payloadId = (calls j).payloadId →
        (c₂.2 i).prog = .ret (.ok true) → (c₂.2 j).prog = .ret (.ok true) →
        ∃ a ∈ c₂.1.created, ∃ b ∈ c₂.1.created, a.owner = i ∧ b.owner = j ∧
          (a.expiresAt ≤ b.time ∨ b.expiresAt ≤ a.time)) ∧
    ∀ c₁ c₂, Prog.Steps ((collection ι).restrict fun e s _ _ => s.InTime e)
        ({ now, docs }, saveCalls calls) c₁ →
      Prog.Steps ((collection ι).restrict fun e s _ _ => s.InTime e) c₁ c₂ →
      ∀ i, (c₁.2 i).hist = [] → (c₂.2 i).prog = .ret (.ok false) →
        c₁.1.Saw c₂.1 (calls i).payloadId := by
  refine ⟨fun c₁ c₂ h₁ h₂ => ?_, fun c₁ c₂ h₁ h₂ i hi hr => ?_⟩
  · have hhandle (e : MongoOp ι) (s r s') (h : (collection ι).handle e s r s') :
        (Collection.claims ι False).handle e s r s' := ⟨h, False.elim⟩
    obtain ⟨hdisjoint, hfollows, hclaimed, -⟩ := claimed_of_steps rfl
      (h₁.mono hhandle fun _ _ h => h) (h₂.mono hhandle fun _ _ h => h)
    refine ⟨hfollows.kept, fun i j hij hid hi hj => ?_⟩
    obtain ⟨a, ha, rfl, haid⟩ := (hclaimed i _ hi).1 rfl
    obtain ⟨b, hb, rfl, hbid⟩ := (hclaimed j _ hj).1 rfl
    have hab : a ≠ b := fun h => hij (congrArg Creation.owner h)
    have hids : a.payloadId = b.payloadId := haid.trans (hid.trans hbid.symm)
    refine ⟨a, ha, b, hb, rfl, rfl, ?_⟩
    have hpairwise : c₂.1.created.Pairwise fun a b => a.payloadId = b.payloadId →
        a.expiresAt ≤ b.time ∨ b.expiresAt ≤ a.time :=
      hdisjoint.pairwise.imp fun h hid => .inl (h hid)
    have hsymm : Std.Symm fun a b : Creation ι => a.payloadId = b.payloadId →
        a.expiresAt ≤ b.time ∨ b.expiresAt ≤ a.time := ⟨fun _ _ h hid => (h hid.symm).symm⟩
    exact hpairwise.forall ha hb hab hids
  · have hhandle (e : MongoOp ι) (s r s')
        (h : ((collection ι).restrict fun e s _ _ => s.InTime e).handle e s r s') :
        (Collection.claims ι True).handle e s r s' := ⟨h.1, fun _ => h.2⟩
    obtain ⟨-, -, -, hclaimed⟩ := claimed_of_steps rfl
      (h₁.mono hhandle fun _ _ h => h) (h₂.mono hhandle fun _ _ h => h)
    exact (hclaimed i _ hi hr).2 trivial rfl

end

/-- Two calls that create the same record of one id for ten seconds. -/
def twinCalls (_ : Bool) : SaveCall := ⟨"p".toList, plainRecord, 10⟩

/-- Nothing is stored. -/
def emptyCollection : Collection Bool := { now := 0, docs := fun _ => none }

private theorem handle_inTime (e : MongoOp Bool) (s : Collection Bool)
    (h : decide (s.InTime e) = true) :
    ((collection Bool).restrict fun e s _ _ => s.InTime e).handle e s
      (Collection.respond e s).1 (Collection.respond e s).2 :=
  ⟨Collection.handle_respond e s, of_decide_eq_true h⟩

/-- The one call creates the record, and the other one meets it. -/
theorem saveIfAbsent_atomic_twins :
    ∃ c, Prog.Steps ((collection Bool).restrict fun e s _ _ => s.InTime e)
        (emptyCollection, saveCalls twinCalls) c ∧
      (c.2 false).prog = .ret (.ok true) ∧ (c.2 true).prog = .ret (.ok false) ∧
      emptyCollection.Saw c.1 "p".toList := by
  let c := Prog.advances Collection.respond (List.replicate 3 false ++ List.replicate 5 true)
    (emptyCollection, saveCalls twinCalls)
  have hfalse : (c.2 false).prog.result? = some (.ok true) := by decide +kernel
  have htrue : (c.2 true).prog.result? = some (.ok false) := by decide +kernel
  have hrun : Prog.Steps ((collection Bool).restrict fun e s _ _ => s.InTime e)
      (emptyCollection, saveCalls twinCalls) c :=
    Prog.steps_of_checks handle_inTime _ _ (by decide +kernel)
  refine ⟨c, hrun, Prog.eq_ret_of_result? hfalse, Prog.eq_ret_of_result? htrue, ?_⟩
  exact (saveIfAbsent_atomic twinCalls 0 fun _ => none).2 _ c .refl hrun true rfl
    (Prog.eq_ret_of_result? htrue)

/-- **Refused by nobody.** The record that the one call created has expired when the other call
begins. Its insertion is refused by the expired document, which the TTL monitor deletes before the
replacement: the call tells that it has created nothing, though no live record has been there. -/
theorem saveIfAbsent_refused_by_nobody :
    ∃ c₁ c₂, Prog.Steps (collection Bool) (emptyCollection, saveCalls twinCalls) c₁ ∧
      Prog.Steps (collection Bool) c₁ c₂ ∧ (c₁.2 true).hist = [] ∧
      (c₂.2 true).prog = .ret (.ok false) ∧ ¬ c₁.1.Saw c₂.1 "p".toList := by
  let c₀ := Prog.advances Collection.respond (List.replicate 3 false)
    (emptyCollection, saveCalls twinCalls)
  let c₁ := ({ c₀.1 with now := 20 }.noted, c₀.2)
  let c₂ := Prog.advances Collection.respond (List.replicate 3 true) c₁
  let c₃ := ((c₂.1.remove "p".toList).noted, c₂.2)
  let c₄ := Prog.advances Collection.respond (List.replicate 2 true) c₃
  have hdoc : c₂.1.docs "p".toList = some ⟨plainRecord, 10, 0⟩ := by decide +kernel
  have hexpired : 10 ≤ c₂.1.now := by decide +kernel
  have hresult : (c₄.2 true).prog.result? = some (.ok false) := by decide +kernel
  have hunseen : c₁.1.saw c₄.1 "p".toList = false := by decide +kernel
  have h₀ : Prog.Steps (collection Bool) (emptyCollection, saveCalls twinCalls) c₀ :=
    Prog.steps_advances Collection.handle_respond _ _
  have h₁ : Prog.Step (collection Bool) c₀ c₁ := .env (.inl ⟨20, by decide +kernel, rfl⟩)
  have h₂ : Prog.Steps (collection Bool) c₁ c₂ :=
    Prog.steps_advances Collection.handle_respond _ _
  have h₃ : Prog.Step (collection Bool) c₂ c₃ :=
    .env (.inr ⟨_, _, hdoc, hexpired, rfl⟩)
  have h₄ : Prog.Steps (collection Bool) c₃ c₄ :=
    Prog.steps_advances Collection.handle_respond _ _
  refine ⟨c₁, c₄, h₀.tail h₁, (h₂.tail h₃).trans h₄, rfl, Prog.eq_ret_of_result? hresult, ?_⟩
  intro hsaw
  rw [hsaw.saw_eq_true] at hunseen
  cases hunseen

end PiiProxy
