import PiiProxy.Storage.Backends

/-!
# Coherence of the cache under concurrency

Any number of `get` and `mark_demasked` calls on one resilient store, interleaved at single calls of
the backends, with backends that never fail, records that never expire and a cache that may evict
an entry at any time. A payload id is *settled* when neither the authority nor the cache shows its
record in another state than `DEMASKED_GRACE`. A finished `mark_demasked` leaves its id settled, and
an id stays settled as long as no cache write brings back a copy that was read before the
transition: this is the one thing that the backfill of `get` does not check.

## Main definitions

* `steadyBackends`: the backends, without failures.
* `FreshCopies`: an active copy is written to the cache only while the authority's record is active.
* `Backends.Settled`.
* `GraceCall`: the calls of a run.

## Main results

* `ResilientStore.safe_graceCall`: what each call does for an id.
* `ResilientStore.get_after_markDemasked`: with fresh copies only, a `get` that starts after a
  `mark_demasked` has returned finds the record in the state `DEMASKED_GRACE`.
-/

namespace PiiProxy

/-- Backends that never fail, with a cache that may evict. -/
def steadyBackends : Sys Backends BackendOp BackendOp.Answer :=
  Backends.system (fun tier op s r s' => ∃ a, s.apply tier op a s' ∧ r = .ok a)
    fun s s' => ∃ payloadId, s' = s.put .cache payloadId none

/-- An active copy is written to the cache only while the record of the authority is active. -/
def FreshCopies : (e : BackendOp) → Backends → e.Answer → Backends → Prop
  | .backend .cache (.update payloadId record _), s, _, _ =>
    record.state = .active → ∃ r, s.held .auth payloadId = some r ∧ r.state = .active
  | _, _, _, _ => True

namespace Backends

/-- Both circuits are closed. -/
def Closed (s : Backends) : Prop := ∀ tier, (s.breaker tier).failures < (s.breaker tier).threshold

/-- The authority holds the record of the id, and the circuits are closed. -/
def Holds (payloadId : Text) (s : Backends) : Prop :=
  s.Closed ∧ ∃ r, s.held .auth payloadId = some r

/-- A tier does not show the record of the id in another state than `DEMASKED_GRACE`. -/
def Graced (payloadId : Text) (tier : Tier) (s : Backends) : Prop :=
  ∀ r, s.held tier payloadId = some r → r.state = .demaskedGrace

/-- Neither tier shows the record of the id in another state than `DEMASKED_GRACE`. -/
def Settled (payloadId : Text) (s : Backends) : Prop := ∀ tier, s.Graced payloadId tier

/-- What may happen to an id: the transition is final in the authority, and a settled id stays
settled. -/
def Onward (payloadId : Text) (s s' : Backends) : Prop :=
  (s.Graced payloadId .auth → s'.Graced payloadId .auth) ∧
    (s.Settled payloadId → s'.Settled payloadId)

variable {s s' : Backends} {tier : Tier} {payloadId payloadId' : Text}

theorem Graced.put {entry : Option MappingRecord} (hs : s.Graced payloadId tier)
    (hentry : ∀ r, payloadId' = payloadId → entry = some r → r.state = .demaskedGrace)
    (tier' : Tier) : (s.put tier' payloadId' entry).Graced payloadId tier := by
  intro r hr
  rw [put_held] at hr
  split_ifs at hr with hid
  · exact hentry r hid.2.symm hr
  · exact hs r hr

theorem Onward.refl (payloadId : Text) (s : Backends) : s.Onward payloadId s := ⟨id, id⟩

theorem Onward.trans {s₁ s₂ s₃ : Backends} (h₁ : s₁.Onward payloadId s₂)
    (h₂ : s₂.Onward payloadId s₃) : s₁.Onward payloadId s₃ :=
  ⟨fun h => h₂.1 (h₁.1 h), fun h => h₂.2 (h₁.2 h)⟩

/-- A write that brings no other state than `DEMASKED_GRACE` to a settled id goes onward. -/
theorem Onward.put {entry : Option MappingRecord}
    (hauth : tier = .auth → s.Graced payloadId .auth →
      ∀ r, payloadId' = payloadId → entry = some r → r.state = .demaskedGrace)
    (hentry : s.Settled payloadId →
      ∀ r, payloadId' = payloadId → entry = some r → r.state = .demaskedGrace) :
    s.Onward payloadId (s.put tier payloadId' entry) := by
  refine ⟨fun hs => ?_, fun hs tier' => (hs tier').put (hentry hs) tier⟩
  cases tier with
  | auth => exact hs.put (hauth rfl hs) .auth
  | cache =>
    intro r hr
    rw [s.put_held_of_ne (by decide)] at hr
    exact hs r hr

/-- Evictions obey the law. -/
theorem law_steady (payloadId : Text) :
    Prog.Law (steadyBackends.restrict FreshCopies) (Holds payloadId) (Onward payloadId) where
  refl := Onward.refl payloadId
  trans := Onward.trans
  env := by
    rintro s s' ⟨hclosed, r, hr⟩ ⟨payloadId', rfl⟩
    refine ⟨⟨hclosed, r, ?_⟩, Onward.put (fun h => by cases h) fun _ r _ hr => by cases hr⟩
    rw [s.put_held_of_ne (by decide)]
    exact hr

end Backends

/-! ### The calls of a run -/

/-- A call of `get` or of `mark_demasked`. -/
inductive GraceCall where
  | get (payloadId : Text)
  | markDemasked (payloadId : Text) (grace : ℚ)

/-- The program of a call. -/
def GraceCall.run (store : ResilientStore) :
    GraceCall → BackendProg (Except StoreFault (Option MappingRecord))
  | .get payloadId => store.get payloadId
  | .markDemasked payloadId grace =>
    (store.markDemasked payloadId grace).bind fun r => .ret (r.map fun _ => none)

/-- Safety of a program for the law of an id. -/
abbrev SteadySafe {α : Type} (payloadId : Text) (Q : α → Backends → Prop)
    (h : List (Prog.Event BackendOp BackendOp.Answer)) (p : BackendProg α) (s : Backends) : Prop :=
  Prog.Safe (steadyBackends.restrict FreshCopies) (Backends.Holds payloadId)
    (Backends.Onward payloadId) (fun _ a s' => Q a s') h p s

namespace ResilientStore

open Backends

variable {α : Type} {Q : α → Backends → Prop} {store : ResilientStore} {s : Backends}
  {h : List (Prog.Event BackendOp BackendOp.Answer)} {op : StoreOp} {tier : Tier}
  {payloadId payloadId' : Text}

/-- What one applied call of a backend has to guarantee: it obeys the law, and establishes what its
answer stands for. -/
def Obeys (payloadId : Text) (tier : Tier) (op : StoreOp) (P : op.Result → Backends → Prop)
    (s : Backends) : Prop :=
  ∀ s₁, s.Onward payloadId s₁ → s₁.Holds payloadId → ∀ a s₂, s₁.apply tier op a s₂ →
    FreshCopies (.backend tier op) s₁ (.ok a) s₂ →
      s₂.Holds payloadId ∧ s₁.Onward payloadId s₂ ∧
        ∀ s₃, s₂.Onward payloadId s₃ → s₃.Holds payloadId → P a s₃

/-- A guarded call is made, as the circuits are closed, and answered. -/
private theorem steady_guardedCall {refused failed : α} {answered : op.Result → α}
    (hop : Obeys payloadId tier op (fun a s' => Q (answered a) s') s) :
    SteadySafe payloadId Q h (guardedCall tier op refused failed answered) s := by
  rintro s₁ hs₁ hI₁ allowed s₂ ⟨⟨⟨now, hallowed⟩, rfl⟩, -⟩
  obtain rfl : allowed = true := hallowed.trans (CircuitBreaker.allow_of_lt (hI₁.1 tier) now)
  refine ⟨hI₁, .refl _ _, ?_⟩
  rintro s₃ hs₃ hI₃ r s₄ ⟨⟨a, happly, rfl⟩, hfresh⟩
  obtain ⟨hI₄, hs₄, hQ⟩ := hop s₃ (hs₁.trans hs₃) hI₃ a s₄ happly hfresh
  refine ⟨hI₄, hs₄, ?_⟩
  rintro s₅ hs₅ ⟨hclosed, hheld⟩ _ s₆ ⟨rfl, -⟩
  refine ⟨⟨fun tier' => ?_, hheld⟩, .refl _ _, fun s₇ hs₇ hI₇ => hQ s₇ (hs₅.trans hs₇) hI₇⟩
  by_cases htier : tier' = tier
  · subst htier
    simp only [Function.update_self]
    exact CircuitBreaker.recordSuccess_lt (hclosed tier')
  · simp only [Function.update_of_ne htier]
    exact hclosed tier'

/-- A guarded call, followed by the rest of an operation. -/
private theorem steady_guardedCall_bind {β : Type} {refused failed : β} {answered : op.Result → β}
    {f : β → BackendProg α} (hs : s.Holds payloadId)
    (hop : Obeys payloadId tier op
      (fun a s' => ∀ h', SteadySafe payloadId Q h' (f (answered a)) s') s) :
    SteadySafe payloadId Q h ((guardedCall tier op refused failed answered).bind f) s := by
  refine Prog.Safe.bind (law_steady payloadId) hs (Prog.Safe.mono ?_ (steady_guardedCall
    (Q := fun b s' => ∀ h', SteadySafe payloadId Q h' (f b) s') hop))
  exact fun h' b s' _ hb => hb h'

/-- The same for a call of the cache, if there is one. -/
private theorem steady_cacheCall_bind {f : Option op.Result → BackendProg α}
    (hs : s.Holds payloadId)
    (hnone : store.hasCache = false → SteadySafe payloadId Q h (f none) s)
    (hop : store.hasCache = true → Obeys payloadId .cache op
      (fun a s' => ∀ h', SteadySafe payloadId Q h' (f (some a)) s') s) :
    SteadySafe payloadId Q h ((store.cacheCall op).bind f) s := by
  unfold cacheCall
  cases hcache : store.hasCache with
  | false => exact hnone hcache
  | true => exact steady_guardedCall_bind hs (hop hcache)

private theorem obeys_get {P : Option MappingRecord → Backends → Prop}
    (hP : ∀ s₁, s.Onward payloadId s₁ → s₁.Holds payloadId → ∀ s₂, s₁.Onward payloadId s₂ →
      s₂.Holds payloadId → P (s₁.held tier payloadId') s₂) :
    Obeys payloadId tier (.get payloadId') P s := by
  rintro s₁ hs₁ hI₁ a s₂ ⟨rfl, rfl⟩ -
  exact ⟨hI₁, .refl _ _, fun s₃ hs₃ hI₃ => hP s₂ hs₁ hI₁ s₃ hs₃ hI₃⟩

/-- A fresh copy, or a copy in the state `DEMASKED_GRACE`, may be written to the cache. -/
private theorem obeys_update {record : MappingRecord} {ttl : ℚ} {P : Unit → Backends → Prop}
    (hP : ∀ s₁, s.Onward payloadId s₁ → s₁.Holds payloadId → ∀ s₂,
      (s₁.put .cache payloadId' (some record)).Onward payloadId s₂ → P () s₂) :
    Obeys payloadId .cache (.update payloadId' record ttl) P s := by
  rintro s₁ hs₁ hI₁ a s₂ rfl hfresh
  refine ⟨⟨hI₁.1, ?_⟩, Onward.put (fun h => by cases h) ?_, fun s₃ hs₃ _ => hP s₁ hs₁ hI₁ s₃ hs₃⟩
  · obtain ⟨r, hr⟩ := hI₁.2
    exact ⟨r, (s₁.put_held_of_ne (by decide) _ _ _).trans hr⟩
  · rintro hsettled r rfl hr
    cases hr
    cases hstate : record.state with
    | demaskedGrace => rfl
    | active =>
      obtain ⟨r, hr, hactive⟩ := hfresh hstate
      exact hactive.symm.trans (hsettled .auth r hr)

/-- The transition in the authority is immediate. -/
private theorem obeys_markDemasked {grace : ℚ} {P : Unit → Backends → Prop}
    (hP : ∀ s₁, s₁.Holds payloadId → (payloadId' = payloadId → s₁.Graced payloadId .auth) →
      P () s₁) :
    Obeys payloadId .auth (.markDemasked payloadId' grace) P s := by
  rintro s₁ hs₁ hI₁ a s₂ ⟨now, rfl⟩ -
  have hentry : ∀ r, payloadId' = payloadId →
      (s₁.held .auth payloadId').map (·.demasked now) = some r → r.state = .demaskedGrace := by
    rintro r - hr
    obtain ⟨r', -, rfl⟩ := Option.map_eq_some_iff.mp hr
    rfl
  refine ⟨⟨hI₁.1, ?_⟩, Onward.put (fun _ _ => hentry) fun _ => hentry, fun s₃ hs₃ hI₃ => ?_⟩
  · obtain ⟨r, hr⟩ := hI₁.2
    by_cases hid : payloadId' = payloadId
    · subst hid
      exact ⟨r.demasked now, by rw [put_held_self, hr, Option.map_some]⟩
    · exact ⟨r, (s₁.put_held_of_id_ne (Ne.symm hid) _ _ _).trans hr⟩
  · refine hP s₃ hI₃ fun hid => hs₃.1 ?_
    subst hid
    intro r hr
    rw [put_held_self] at hr
    exact hentry r rfl hr

/-- The call is about another id, or the id is settled as far as the store looks. -/
def Done (store : ResilientStore) (payloadId : Text) (s : Backends) : Prop :=
  s.Graced payloadId .auth ∧ (store.hasCache = true → s.Settled payloadId)

private theorem Done.onward {s' : Backends} (hs : store.Done payloadId s)
    (hs' : s.Onward payloadId s') : store.Done payloadId s' :=
  ⟨hs'.1 hs.1, fun hcache => hs'.2 (hs.2 hcache)⟩

/-- What a `get` has to return when the id was settled at its start. -/
def Returns (store : ResilientStore) (payloadId payloadId' : Text) (s : Backends)
    (a : Except StoreFault (Option MappingRecord)) : Prop :=
  payloadId' = payloadId → store.Done payloadId s →
    ∃ r, a = .ok (some r) ∧ r.state = .demaskedGrace

/-- The read of the authority, with or without the backfill. -/
private theorem steady_readThrough {backfill : Bool} {s₀ : Backends} (hs : s.Holds payloadId)
    (hs₀ : s₀.Onward payloadId s) :
    SteadySafe payloadId (fun a _ => store.Returns payloadId payloadId' s₀ a) h
      (store.readThrough payloadId' backfill) s := by
  refine steady_guardedCall_bind hs (obeys_get fun s₁ hs₁ hI₁ s₂ _ hI₂ h₂ => ?_)
  cases hheld : s₁.held .auth payloadId' with
  | none =>
    rintro s₃ - - rfl
    obtain ⟨r, hr⟩ := hI₁.2
    rw [hheld] at hr
    cases hr
  | some r =>
    have hreturns : store.Returns payloadId payloadId' s₀ (.ok (some r)) := by
      rintro rfl hdone
      exact ⟨r, rfl, (hs₀.trans hs₁).1 hdone.1 r hheld⟩
    simp only [afterAuthGet]
    split_ifs
    · refine steady_cacheCall_bind hI₂ (fun _ s₃ _ _ => hreturns) fun _ => ?_
      exact obeys_update fun _ _ _ _ _ _ _ _ _ => hreturns
    · exact fun s₃ _ _ => hreturns

private theorem steady_get (hs : s.Holds payloadId) :
    SteadySafe payloadId (fun a _ => store.Returns payloadId payloadId' s a) h
      (store.get payloadId') s := by
  refine steady_cacheCall_bind hs (fun _ => steady_readThrough hs (.refl _ _)) fun hcache => ?_
  refine obeys_get fun s₁ hs₁ hI₁ s₂ hs₂ hI₂ h₂ => ?_
  cases hheld : s₁.held .cache payloadId' with
  | none => exact steady_readThrough hI₂ (hs₁.trans hs₂)
  | some r =>
    rintro s₃ - - rfl hdone
    exact ⟨r, rfl, hs₁.2 (hdone.2 hcache) .cache r hheld⟩

private theorem steady_refreshCache {grace : ℚ} (hs : s.Holds payloadId)
    (hgraced : payloadId' = payloadId → s.Graced payloadId .auth) :
    SteadySafe payloadId (fun _ s' => payloadId' = payloadId → store.Done payloadId s') h
      (store.refreshCache payloadId' grace) s := by
  refine steady_cacheCall_bind hs (fun hcache s₁ hs₁ _ hid => ?_) fun _ => ?_
  · refine ⟨hs₁.1 (hgraced hid), fun hcache' => ?_⟩
    rw [hcache] at hcache'
    cases hcache'
  refine obeys_get fun s₁ hs₁ hI₁ s₂ hs₂ hI₂ h₂ => ?_
  cases hheld : s₁.held .cache payloadId' with
  | none =>
    rintro s₃ hs₃ - rfl
    have hsettled : s₁.Settled payloadId' := by
      intro tier r hr
      cases tier with
      | auth => exact hs₁.1 (hgraced rfl) r hr
      | cache =>
        rw [hheld] at hr
        cases hr
    exact ⟨(hs₂.trans hs₃).1 (hsettled .auth), fun _ => (hs₂.trans hs₃).2 hsettled⟩
  | some r =>
    rintro s₃ hs₃ hI₃ now s₄ ⟨rfl, -⟩
    refine ⟨hI₃, .refl _ _, ?_⟩
    have hgraced' (hid : payloadId' = payloadId) : s₄.Graced payloadId .auth :=
      (hs₁.trans (hs₂.trans hs₃)).1 (hgraced hid)
    refine steady_cacheCall_bind hI₃ (fun hcache s₅ hs₅ _ hid => ?_) fun _ => ?_
    · refine ⟨hs₅.1 (hgraced' hid), fun hcache' => ?_⟩
      rw [hcache] at hcache'
      cases hcache'
    refine obeys_update fun s₅ hs₅ _ s₆ hs₆ _ s₇ hs₇ _ hid => ?_
    subst hid
    have hsettled : (s₅.put .cache payloadId' (some (r.demasked now))).Settled payloadId' := by
      intro tier r' hr'
      cases tier with
      | auth =>
        rw [s₅.put_held_of_ne (by decide)] at hr'
        exact hs₅.1 (hgraced' rfl) r' hr'
      | cache =>
        rw [put_held_self] at hr'
        cases hr'
        rfl
    exact ⟨(hs₆.trans hs₇).1 (hsettled .auth), fun _ => (hs₆.trans hs₇).2 hsettled⟩

private theorem steady_markDemasked {grace : ℚ} (hs : s.Holds payloadId) :
    SteadySafe payloadId (fun _ s' => payloadId' = payloadId → store.Done payloadId s') h
      (store.markDemasked payloadId' grace) s := by
  refine steady_guardedCall_bind hs (obeys_markDemasked fun s₁ hI₁ hgraced h₁ => ?_)
  exact steady_refreshCache hI₁ hgraced

/-- What a call establishes for the id, started in the state `s`. -/
def Establishes (store : ResilientStore) (payloadId : Text) (call : GraceCall) (s : Backends)
    (a : Except StoreFault (Option MappingRecord)) (s' : Backends) : Prop :=
  match call with
  | .get payloadId' => store.Returns payloadId payloadId' s a
  | .markDemasked payloadId' _ => payloadId' = payloadId → store.Done payloadId s'

/-- **Each call obeys the law of the id.** A `mark_demasked` of the id leaves it settled, and a
`get` that starts when it is settled returns the record in the state `DEMASKED_GRACE`. -/
theorem safe_graceCall {call : GraceCall} (hs : s.Holds payloadId) :
    SteadySafe payloadId (store.Establishes payloadId call s) h (call.run store) s := by
  cases call with
  | get payloadId' => exact steady_get hs
  | markDemasked payloadId' grace =>
    refine Prog.Safe.bind (law_steady payloadId) hs ((steady_markDemasked hs).mono ?_)
    exact fun h₁ a s₁ _ hdone s₂ hs₂ _ hid => (hdone hid).onward hs₂

/-- The calls, none of which has started yet. -/
def calls {ι : Type*} (store : ResilientStore) (call : ι → GraceCall) :
    ι → Prog.Thread BackendOp BackendOp.Answer (Except StoreFault (Option MappingRecord)) :=
  fun i => Prog.start ((call i).run store)

/-- **Coherence of the cache.** In every interleaving in which active copies are written to the
cache only while the authority's record is active: once a `mark_demasked` of the id has returned,
every `get` of the id that has not started yet returns the record in the state `DEMASKED_GRACE`. -/
theorem get_after_markDemasked {ι : Type*} [DecidableEq ι] (store : ResilientStore)
    (call : ι → GraceCall) {s₀ : Backends} (hclosed : s₀.Closed) {payloadId : Text}
    (hheld : s₀.held .auth payloadId ≠ none) {i j : ι} {grace : ℚ}
    (hi : call i = .get payloadId) (hj : call j = .markDemasked payloadId grace)
    {c₁ c₂ : Backends × (ι → Prog.Thread BackendOp BackendOp.Answer
      (Except StoreFault (Option MappingRecord)))}
    (hrun₁ : Prog.Steps (steadyBackends.restrict FreshCopies) (s₀, store.calls call) c₁)
    {a b : Except StoreFault (Option MappingRecord)} (hreturned : (c₁.2 j).prog = .ret a)
    (hstart : (c₁.2 i).hist = [])
    (hrun₂ : Prog.Steps (steadyBackends.restrict FreshCopies) c₁ c₂)
    (hend : (c₂.2 i).prog = .ret b) :
    ∃ r, b = .ok (some r) ∧ r.state = .demaskedGrace := by
  have hlaw := law_steady payloadId
  have hI₀ : s₀.Holds payloadId := ⟨hclosed, Option.ne_none_iff_exists'.mp hheld⟩
  have hsafe (k : ι) : SteadySafe payloadId (store.Establishes payloadId (call k) s₀)
      (store.calls call k).hist (store.calls call k).prog s₀ := safe_graceCall hI₀
  obtain ⟨hI₁, -, hsafe₁⟩ := hrun₁.safe hlaw hI₀ hsafe
  have hdone : store.Done payloadId c₁.1 := by
    have hpost := hrun₁.post hlaw hI₀ hsafe hreturned
    rw [hj] at hpost
    exact hpost rfl
  -- from here on only the result of the reader matters
  have hreader : SteadySafe payloadId (store.Establishes payloadId (call i) c₁.1)
      (c₁.2 i).hist (c₁.2 i).prog c₁.1 := by
    rw [hrun₁.eq_of_hist_eq_nil hstart]
    exact safe_graceCall hI₁
  have hsafe₂ (k : ι) : SteadySafe payloadId
      (fun a s' => k = i → store.Establishes payloadId (call i) c₁.1 a s')
      (c₁.2 k).hist (c₁.2 k).prog c₁.1 := by
    by_cases hk : k = i
    · subst hk
      exact hreader.mono fun _ _ _ _ h _ => h
    · exact (hsafe₁ k).mono fun _ _ _ _ _ hk' => absurd hk' hk
  have hpost := hrun₂.post hlaw hI₁ hsafe₂ hend rfl
  rw [hi] at hpost
  exact hpost rfl hdone

/-! ### A copy that was read before the transition -/

/-- The authority holds the record of `p1`; the cache is empty. -/
def heldByAuthority : Backends :=
  (Backends.empty fun _ => {}).put .auth "p1".toList (some plainRecord)

/-- Two readers and a transition of `p1`. -/
def twoReaders : Fin 3 → GraceCall
  | 0 => .get "p1".toList
  | 1 => .markDemasked "p1".toList 60
  | 2 => .get "p1".toList

private theorem steady_respond (e : BackendOp) (s : Backends) :
    steadyBackends.handle e s (Backends.respond (fun _ => false) e s).1
      (Backends.respond (fun _ => false) e s).2 :=
  Backends.handle_respond (fun _ _ _ a _ _ happly => ⟨a, happly, rfl⟩) (fun _ _ _ h => by cases h)
    e s

/-- The first reader reads the authority, the transition runs to its end, and the backfill of the
first reader comes last: the second reader then finds the record active. -/
theorem get_after_markDemasked_stale :
    ∃ c₁ c₂, Prog.Steps steadyBackends (heldByAuthority, calls {} twoReaders) c₁ ∧
      (∃ a, (c₁.2 1).prog = .ret (.ok a)) ∧ (c₁.2 2).hist = [] ∧
      Prog.Steps steadyBackends c₁ c₂ ∧
      ∃ r, (c₂.2 2).prog = .ret (.ok (some r)) ∧ r.state = .active := by
  let c₁ := Prog.advances (Backends.respond fun _ => false)
    (List.replicate 6 0 ++ List.replicate 6 1) (heldByAuthority, calls {} twoReaders)
  let c₂ := Prog.advances (Backends.respond fun _ => false)
    (List.replicate 3 0 ++ List.replicate 3 2) c₁
  have hmark : (c₁.2 1).prog.result? = some (.ok none) := by decide +kernel
  have hread : (c₂.2 2).prog.result? = some (.ok (some plainRecord)) := by decide +kernel
  refine ⟨c₁, c₂, Prog.steps_advances steady_respond _ _, ⟨_, Prog.eq_ret_of_result? hmark⟩, rfl,
    Prog.steps_advances steady_respond _ _, _, Prog.eq_ret_of_result? hread, rfl⟩

/-- The test whether a call keeps to fresh copies. -/
def freshCopy : BackendOp → Backends → Bool
  | .backend .cache (.update payloadId record _), s =>
    record.state == .demaskedGrace || (s.held .auth payloadId).any (·.state == .active)
  | _, _ => true

private theorem steady_respond_fresh (e : BackendOp) (s : Backends)
    (hfresh : freshCopy e s = true) :
    (steadyBackends.restrict FreshCopies).handle e s (Backends.respond (fun _ => false) e s).1
      (Backends.respond (fun _ => false) e s).2 := by
  refine ⟨steady_respond e s, ?_⟩
  match e, hfresh with
  | .backend .cache (.update payloadId record ttl), hfresh =>
    intro hactive
    simp only [freshCopy, hactive, Option.any_eq_true, beq_iff_eq, Bool.or_eq_true,
      reduceCtorEq, false_or] at hfresh
    exact hfresh
  | .backend .cache (.get _), _ => trivial
  | .backend .cache (.saveIfAbsent _ _ _), _ => trivial
  | .backend .cache (.delete _), _ => trivial
  | .backend .cache (.markDemasked _ _), _ => trivial
  | .backend .auth _, _ => trivial
  | .allow _, _ => trivial
  | .recordSuccess _, _ => trivial
  | .recordFailure _, _ => trivial
  | .time, _ => trivial

/-- The case in which the first reader ends before the transition begins. -/
theorem get_after_markDemasked_in_turn :
    ∃ c, Prog.Steps (steadyBackends.restrict FreshCopies)
        (heldByAuthority, calls {} twoReaders) c ∧
      ∃ r, (c.2 2).prog = .ret (.ok (some r)) ∧ r.state = .demaskedGrace := by
  let c₁ := Prog.advances (Backends.respond fun _ => false)
    (List.replicate 9 0 ++ List.replicate 10 1) (heldByAuthority, calls {} twoReaders)
  let c₂ := Prog.advances (Backends.respond fun _ => false) (List.replicate 3 2) c₁
  have hmark : (c₁.2 1).prog.result? = some (.ok none) := by decide +kernel
  have hread : (c₂.2 2).prog.result? = some (.ok (some (plainRecord.demasked 0))) := by
    decide +kernel
  have hrun₁ : Prog.Steps (steadyBackends.restrict FreshCopies)
      (heldByAuthority, calls {} twoReaders) c₁ :=
    Prog.steps_of_checks steady_respond_fresh _ _ (by decide +kernel)
  have hrun₂ : Prog.Steps (steadyBackends.restrict FreshCopies) c₁ c₂ :=
    Prog.steps_of_checks steady_respond_fresh _ _ (by decide +kernel)
  obtain ⟨r, hr, hstate⟩ := get_after_markDemasked {} twoReaders (fun _ => Nat.zero_lt_succ 2)
    (by decide) (i := 2) (j := 1) rfl rfl hrun₁ (Prog.eq_ret_of_result? hmark) rfl hrun₂
    (Prog.eq_ret_of_result? hread)
  exact ⟨c₂, hrun₁.trans hrun₂, r, (Prog.eq_ret_of_result? hread).trans (by rw [hr]), hstate⟩

end ResilientStore

end PiiProxy
