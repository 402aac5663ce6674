import PiiProxy.Storage.Backends

/-!
# Expiry in two stores

Sequential runs of the operations of the resilient store over backends whose entries expire, each
operation at one instant of a monotone clock, without failures, with a cache that may evict an entry
at any time. An authority that batches its grace transitions only queues them in `mark_demasked` and
writes them at some later moment.

The cache must not outlive the authority. A record is *kept* until a time when the authority's entry
of the id expires no earlier, or, while a transition of the id is queued, when the entry is live and
the transition will give it a lifetime up to that time. The cache is *covered* when the authority
keeps the record of every live cache entry until that entry expires. `save_if_absent`, `update` and
`mark_demasked` give both entries the same lifetime, but the backfill of `get` gives the cache entry
the full backfill lifetime, whatever is left of the lifetime of the record it has read; a queued
transition may come after the authority's entry has expired; and it may shorten the lifetime of a
record that was written after it was queued.

## Main definitions

* `Entry`, `TimedBackends`, `TimedBackends.apply`: entries with their expiry, the backends.
* `timedBackends`: the system, with evictions and the flushes of queued transitions.
* `LongLived`: the authority keeps what a `get` reads for as long as a backfilled copy lives, and
  nothing that is written outlives a transition queued before.
* `InTimeFlush`: no record expires in the authority before its queued transition is written.
* `TimedRun`: operations at instants of a monotone clock.
* `TimedBackends.Kept`, `TimedBackends.Covered`: kept records, covered caches.

## Main results

* `ResilientStore.covered_run`: every operation keeps the cache covered.
* `ResilientStore.cache_within_authority`: with long-lived reads and writes and flushes in time
  only, `get` returns a record only if the authority holds a live one.
-/

namespace PiiProxy

/-! ### Backends with expiry -/

/-- A record with the time at which it expires. -/
structure Entry where
  record : MappingRecord
  expiresAt : ℚ

/-- The clock, the breakers, the contents of the two backends, and the grace of the transitions that
the authority has queued. -/
structure TimedBackends where
  now : ℚ
  breaker : Tier → CircuitBreaker
  held : Tier → Text → Option Entry
  pending : Text → Option ℚ

namespace TimedBackends

variable (s : TimedBackends)

/-- The entry of the id, unless it has expired. -/
def live (tier : Tier) (payloadId : Text) : Option Entry :=
  (s.held tier payloadId).filter fun e => s.now < e.expiresAt

/-- The backend `tier` holds `entry` under the payload id. -/
def put (tier : Tier) (payloadId : Text) (entry : Option Entry) : TimedBackends :=
  { s with held := fun tier' payloadId' =>
      if tier' = tier ∧ payloadId' = payloadId then entry else s.held tier' payloadId' }

/-- The queue of the authority holds the transition of the id. -/
def queue (payloadId : Text) (grace : Option ℚ) : TimedBackends :=
  { s with pending := Function.update s.pending payloadId grace }

/-- A grace transition is written. On an entry that has expired it does nothing, or, where the store
does not look at the expiry, brings the entry back. -/
def Graced (tier : Tier) (payloadId : Text) (grace : ℚ) (s' : TimedBackends) : Prop :=
  (s.live tier payloadId = none ∧ s' = s) ∨
    ∃ e, s.held tier payloadId = some e ∧
      s' = s.put tier payloadId (some ⟨e.record.demasked s.now, s.now + grace⟩)

/-- The transition of a live entry is written. -/
def writeGrace (tier : Tier) (payloadId : Text) (grace : ℚ) : TimedBackends :=
  match s.live tier payloadId with
  | none => s
  | some e => s.put tier payloadId (some ⟨e.record.demasked s.now, s.now + grace⟩)

/-- The effect of an operation; an authority that batches queues its grace transitions. -/
def apply (batch : Bool) (tier : Tier) : (op : StoreOp) → op.Result → TimedBackends → Prop
  | .get payloadId, r, s' => r = (s.live tier payloadId).map Entry.record ∧ s' = s
  | .saveIfAbsent payloadId record ttl, r, s' =>
    (s.live tier payloadId = none ∧ r = true ∧
      s' = s.put tier payloadId (some ⟨record, s.now + ttl⟩)) ∨
      (s.live tier payloadId ≠ none ∧ r = false ∧ s' = s)
  | .update payloadId record ttl, _, s' => s' = s.put tier payloadId (some ⟨record, s.now + ttl⟩)
  | .delete payloadId, _, s' => s' = s.put tier payloadId none
  | .markDemasked payloadId grace, _, s' =>
    if tier = .auth ∧ batch = true then s' = s.queue payloadId (some grace)
    else s.Graced tier payloadId grace s'

/-- What happens on its own: the cache evicts an entry, or a queued transition is written. A flush
of the whole queue, by the thread that sleeps a tenth of a second at a time or by the
`mark_demasked` that finds 500 ids queued, is such a step for each queued id. -/
inductive Background : TimedBackends → TimedBackends → Prop
  | evict (s payloadId) : Background s (s.put .cache payloadId none)
  | flush {s payloadId grace s'} (hpending : s.pending payloadId = some grace)
      (hgraced : (s.queue payloadId none).Graced .auth payloadId grace s') : Background s s'

/-- The answer to an operation, and the state after it. -/
def serve (batch : Bool) (tier : Tier) : (op : StoreOp) → op.Result × TimedBackends
  | .get payloadId => ((s.live tier payloadId).map Entry.record, s)
  | .saveIfAbsent payloadId record ttl =>
    if (s.live tier payloadId).isNone then
      (true, s.put tier payloadId (some ⟨record, s.now + ttl⟩))
    else (false, s)
  | .update payloadId record ttl => ((), s.put tier payloadId (some ⟨record, s.now + ttl⟩))
  | .delete payloadId => ((), s.put tier payloadId none)
  | .markDemasked payloadId grace =>
    ((), if tier = .auth ∧ batch = true then s.queue payloadId (some grace)
      else s.writeGrace tier payloadId grace)

theorem graced_writeGrace (tier : Tier) (payloadId : Text) (grace : ℚ) :
    s.Graced tier payloadId grace (s.writeGrace tier payloadId grace) := by
  cases hlive : s.live tier payloadId with
  | none =>
    simp only [writeGrace, hlive]
    exact .inl ⟨hlive, rfl⟩
  | some e =>
    simp only [writeGrace, hlive]
    exact .inr ⟨e, (Option.filter_eq_some_iff.mp hlive).1, rfl⟩

theorem apply_serve (batch : Bool) (tier : Tier) (op : StoreOp) :
    s.apply batch tier op (s.serve batch tier op).1 (s.serve batch tier op).2 := by
  cases op with
  | get payloadId => exact ⟨rfl, rfl⟩
  | saveIfAbsent payloadId record ttl =>
    by_cases hlive : s.live tier payloadId = none
    · rw [serve, if_pos (Option.isNone_iff_eq_none.mpr hlive)]
      exact .inl ⟨hlive, rfl, rfl⟩
    · rw [serve, if_neg fun h => hlive (Option.isNone_iff_eq_none.mp h)]
      exact .inr ⟨hlive, rfl, rfl⟩
  | update payloadId record ttl => rfl
  | delete payloadId => rfl
  | markDemasked payloadId grace =>
    simp only [apply, serve]
    split_ifs
    · rfl
    · exact s.graced_writeGrace tier payloadId grace

/-- The answers of backends that do not fail. -/
def respond (batch : Bool) : (e : BackendOp) → e.Answer × TimedBackends
  | .allow tier => ((s.breaker tier).allow s.now, s)
  | .recordSuccess tier =>
    ((), { s with breaker := Function.update s.breaker tier (s.breaker tier).recordSuccess })
  | .recordFailure tier =>
    ((), { s with breaker :=
      Function.update s.breaker tier ((s.breaker tier).recordFailure s.now) })
  | .backend tier op => (.ok (s.serve batch tier op).1, (s.serve batch tier op).2)
  | .time => (s.now, s)

end TimedBackends

/-- Backends that never fail, with a cache that may evict and an authority that may batch its grace
transitions. The clock stands still during an operation. -/
def timedBackends (batch : Bool) : Sys TimedBackends BackendOp BackendOp.Answer where
  handle
    | .allow tier, s, r, s' => r = (s.breaker tier).allow s.now ∧ s' = s
    | .recordSuccess tier, s, _, s' =>
      s' = { s with breaker := Function.update s.breaker tier (s.breaker tier).recordSuccess }
    | .recordFailure tier, s, _, s' =>
      s' = { s with breaker :=
        Function.update s.breaker tier ((s.breaker tier).recordFailure s.now) }
    | .backend tier op, s, r, s' => ∃ a, s.apply batch tier op a s' ∧ r = .ok a
    | .time, s, r, s' => r = s.now ∧ s' = s
  env := TimedBackends.Background

/-- The authority keeps a live entry that `get` reads for as long as the copy lives that the
backfill writes to the cache: the entry expires no earlier or, when its grace transition is queued,
the grace is no shorter. A record that is written while a transition of its id is queued gets a
lifetime no longer than the grace. -/
def LongLived (store : ResilientStore) : (e : BackendOp) → TimedBackends → e.Answer →
    TimedBackends → Prop
  | .backend .auth (.get payloadId), s, _, _ =>
    ∀ e, s.live .auth payloadId = some e →
      match s.pending payloadId with
      | none => s.now + store.backfillTtl ≤ e.expiresAt
      | some grace => store.backfillTtl ≤ grace
  | .backend .auth (.saveIfAbsent payloadId _ ttl), s, _, _ =>
    s.live .auth payloadId = none → ∀ grace, s.pending payloadId = some grace → ttl ≤ grace
  | .backend .auth (.update payloadId _ ttl), s, _, _ =>
    ∀ grace, s.pending payloadId = some grace → ttl ≤ grace
  | _, _, _, _ => True

/-- Until the time `t`, no entry of the authority expires whose transition is still queued and of
which the cache holds a copy that expires later. -/
def InTimeFlush (s : TimedBackends) (t : ℚ) : Prop :=
  ∀ payloadId e e', (s.pending payloadId).isSome = true → s.held .cache payloadId = some e →
    s.live .auth payloadId = some e' → e'.expiresAt < e.expiresAt → t < e'.expiresAt

/-- Operations one after the other at instants of a monotone clock, with anything that happens on
its own in between. The clock goes on to a time that meets the condition `T`. -/
inductive TimedRun (store : ResilientStore) (S : Sys TimedBackends BackendOp BackendOp.Answer)
    (T : TimedBackends → ℚ → Prop) (s₀ : TimedBackends) : TimedBackends → Prop
  | nil : TimedRun store S T s₀ s₀
  | tick {s} (hrun : TimedRun store S T s₀ s) {t : ℚ} (ht : s.now ≤ t) (hT : T s t) :
      TimedRun store S T s₀ { s with now := t }
  | env {s s'} (hrun : TimedRun store S T s₀ s) (he : S.env s s') : TimedRun store S T s₀ s'
  | op {s op h a s'} (hrun : TimedRun store S T s₀ s)
      (hop : Prog.Exec S [] (store.run op) s h a s') : TimedRun store S T s₀ s'

/-- The entry keeps a record until the time `x`, given the transition of its id that is queued. -/
def Entry.KeptUntil (e : Entry) (now x : ℚ) : Option ℚ → Prop
  | none => x ≤ e.expiresAt
  | some grace => now < e.expiresAt ∧ x ≤ now + grace

namespace TimedBackends

variable {s s' : TimedBackends} {tier tier' : Tier} {payloadId payloadId' : Text}
  {entry : Option Entry} {grace x : ℚ} {batch : Bool} {ids : Set Text}

@[simp] theorem put_held_self : (s.put tier payloadId entry).held tier payloadId = entry :=
  if_pos ⟨rfl, rfl⟩

theorem put_held_of_ne (h : tier' ≠ tier) :
    (s.put tier payloadId entry).held tier' payloadId' = s.held tier' payloadId' :=
  if_neg fun hid => h hid.1

theorem put_held_of_id_ne (h : payloadId' ≠ payloadId) :
    (s.put tier payloadId entry).held tier' payloadId' = s.held tier' payloadId' :=
  if_neg fun hid => h hid.2

theorem live_eq_some {e : Entry} :
    s.live tier payloadId = some e ↔ s.held tier payloadId = some e ∧ s.now < e.expiresAt := by
  simp [live, Option.filter_eq_some_iff]

/-- Both circuits are closed. -/
def Closed (s : TimedBackends) : Prop :=
  ∀ tier, (s.breaker tier).failures < (s.breaker tier).threshold

/-- The authority keeps a record of the id until the time `x`, unless that has come. -/
def Kept (s : TimedBackends) (payloadId : Text) (x : ℚ) : Prop :=
  s.now < x → ∃ e, s.held .auth payloadId = some e ∧ e.KeptUntil s.now x (s.pending payloadId)

/-- A record that is kept until a later time is live. -/
theorem Kept.live (hkept : s.Kept payloadId x) (hx : s.now < x) :
    ∃ e, s.live .auth payloadId = some e := by
  obtain ⟨e, hheld, huntil⟩ := hkept hx
  refine ⟨e, live_eq_some.mpr ⟨hheld, ?_⟩⟩
  cases hpending : s.pending payloadId with
  | none =>
    rw [hpending] at huntil
    exact hx.trans_le huntil
  | some grace =>
    rw [hpending] at huntil
    exact huntil.1

/-- Whether a record is kept depends on what the authority has of its id, and on the time. -/
theorem Kept.congr (hkept : s.Kept payloadId x) (hnow : s'.now = s.now)
    (hheld : s'.held .auth payloadId = s.held .auth payloadId)
    (hpending : s'.pending payloadId = s.pending payloadId) : s'.Kept payloadId x := by
  unfold Kept
  rw [hnow, hheld, hpending]
  exact hkept

/-- A queued transition that is written keeps its record no shorter. -/
theorem Kept.graced (hkept : s.Kept payloadId' x) (hpending : s.pending payloadId = some grace)
    (hgraced : (s.queue payloadId none).Graced .auth payloadId grace s') :
    s'.Kept payloadId' x := by
  by_cases hid : payloadId' = payloadId
  · subst hid
    rcases hgraced with ⟨hnone, rfl⟩ | ⟨e, -, rfl⟩
    · intro hx
      obtain ⟨e, hlive⟩ := hkept.live hx
      rw [show s.live .auth payloadId' = none from hnone] at hlive
      cases hlive
    · intro hx
      obtain ⟨e, -, huntil⟩ := hkept hx
      rw [hpending] at huntil
      refine ⟨_, put_held_self, ?_⟩
      rw [show ((s.queue payloadId' none).put .auth payloadId' _).pending payloadId' = none from
        Function.update_self _ _ _]
      exact huntil.2
  · have hqueue : (s.queue payloadId none).pending payloadId' = s.pending payloadId' :=
      Function.update_of_ne hid _ _
    rcases hgraced with ⟨-, rfl⟩ | ⟨e, -, rfl⟩
    · exact hkept.congr rfl rfl hqueue
    · exact hkept.congr rfl (put_held_of_id_ne hid) hqueue

/-- Nothing happened but what happens on its own and reports to the breakers. -/
structure Calm (s s' : TimedBackends) : Prop where
  now : s'.now = s.now
  kept : ∀ payloadId x, s.Kept payloadId x → s'.Kept payloadId x
  cache : ∀ payloadId e, s'.held .cache payloadId = some e → s.held .cache payloadId = some e
  closed : s.Closed → s'.Closed
  unqueued : (∀ payloadId, s.pending payloadId = none) → ∀ payloadId, s'.pending payloadId = none

theorem Calm.refl (s : TimedBackends) : s.Calm s := ⟨rfl, fun _ _ => id, fun _ _ => id, id, id⟩

theorem Calm.trans {s₁ s₂ s₃ : TimedBackends} (h₁ : s₁.Calm s₂) (h₂ : s₂.Calm s₃) : s₁.Calm s₃ where
  now := h₂.now.trans h₁.now
  kept id x hkept := h₂.kept id x (h₁.kept id x hkept)
  cache id e he := h₁.cache id e (h₂.cache id e he)
  closed hs := h₂.closed (h₁.closed hs)
  unqueued hs := h₂.unqueued (h₁.unqueued hs)

/-- A live cache entry after calm was one before it. -/
theorem Calm.live_cache (h : s.Calm s') {e : Entry} (he : s'.live .cache payloadId = some e) :
    s.live .cache payloadId = some e := by
  obtain ⟨hheld, hlive⟩ := live_eq_some.mp he
  exact live_eq_some.mpr ⟨h.cache payloadId e hheld, h.now ▸ hlive⟩

/-- What happens on its own is calm. -/
theorem Background.calm (he : Background s s') : s.Calm s' := by
  cases he with
  | evict payloadId =>
    refine ⟨rfl, fun id x hkept => hkept.congr rfl (put_held_of_ne (by decide)) rfl,
      fun id e he => ?_, id, id⟩
    by_cases hid : id = payloadId
    · subst hid
      rw [put_held_self] at he
      cases he
    · rwa [put_held_of_id_ne hid] at he
  | @flush payloadId grace _ hpending hgraced =>
    have hkept (id : Text) (x : ℚ) (hkept : s.Kept id x) : s'.Kept id x :=
      hkept.graced hpending hgraced
    have hunqueued (hs : ∀ id, s.pending id = none) : ∀ id, s'.pending id = none := by
      rw [hs payloadId] at hpending
      cases hpending
    rcases hgraced with ⟨-, rfl⟩ | ⟨e, -, rfl⟩
    · exact ⟨rfl, hkept, fun _ _ => id, id, hunqueued⟩
    · refine ⟨rfl, hkept, fun id e he => ?_, id, hunqueued⟩
      rwa [put_held_of_ne (by decide)] at he

theorem calm_of_env {C : (e : BackendOp) → TimedBackends → e.Answer → TimedBackends → Prop}
    (he : Relation.ReflTransGen ((timedBackends batch).restrict C).env s s') : s.Calm s' := by
  induction he with
  | refl => exact .refl s
  | tail _ hstep ih => exact ih.trans (Background.calm hstep)

/-- The circuits are closed, a transition is queued only where the authority batches, and the
records of the live cache entries of the given ids are kept until these expire. -/
structure Covered (batch : Bool) (ids : Set Text) (s : TimedBackends) : Prop where
  closed : s.Closed
  unqueued : batch = false → ∀ payloadId, s.pending payloadId = none
  covers : ∀ payloadId ∈ ids, ∀ e, s.live .cache payloadId = some e →
    s.Kept payloadId e.expiresAt

namespace Covered

theorem calm (hs : s.Covered batch ids) (hcalm : s.Calm s') : s'.Covered batch ids where
  closed := hcalm.closed hs.closed
  unqueued hbatch := hcalm.unqueued (hs.unqueued hbatch)
  covers payloadId hid e he :=
    hcalm.kept payloadId _ (hs.covers payloadId hid e (hcalm.live_cache he))

theorem tick (hs : s.Covered batch Set.univ) {t : ℚ} (ht : s.now ≤ t) (hflush : InTimeFlush s t) :
    Covered batch Set.univ { s with now := t } where
  closed := hs.closed
  unqueued := hs.unqueued
  covers payloadId _ e he hx := by
    obtain ⟨hheld, hlive⟩ := live_eq_some.mp he
    have hnow : s.now < e.expiresAt := ht.trans_lt hlive
    obtain ⟨e', hauth, huntil⟩ :=
      hs.covers payloadId trivial e (live_eq_some.mpr ⟨hheld, hnow⟩) hnow
    refine ⟨e', hauth, ?_⟩
    change e'.KeptUntil t e.expiresAt (s.pending payloadId)
    cases hpending : s.pending payloadId with
    | none =>
      rw [hpending] at huntil
      exact huntil
    | some grace =>
      rw [hpending] at huntil
      -- the transition is still queued, so the copy expires first, or the flush is in time
      refine ⟨?_, huntil.2.trans (add_le_add_left ht grace)⟩
      rcases le_or_gt e.expiresAt e'.expiresAt with hle | hlt
      · exact hlive.trans_le hle
      · exact hflush payloadId e e' (by rw [hpending]; rfl) hheld
          (live_eq_some.mpr ⟨hauth, huntil.1⟩) hlt

theorem mono {ids' : Set Text} (hs : s.Covered batch ids) (hids : ids' ⊆ ids) :
    s.Covered batch ids' :=
  ⟨hs.closed, hs.unqueued, fun payloadId hid => hs.covers payloadId (hids hid)⟩

/-- A write to the authority leaves the other ids covered. -/
theorem writeAuth (hs : s.Covered batch ids) (payloadId : Text) (entry : Option Entry) :
    (s.put .auth payloadId entry).Covered batch (ids \ {payloadId}) where
  closed := hs.closed
  unqueued := hs.unqueued
  covers payloadId' hid e he := by
    obtain ⟨hheld, hlive⟩ := live_eq_some.mp he
    rw [put_held_of_ne (by decide)] at hheld
    exact (hs.covers payloadId' hid.1 e (live_eq_some.mpr ⟨hheld, hlive⟩)).congr rfl
      (put_held_of_id_ne hid.2) rfl

/-- A transition that is queued leaves the other ids covered. -/
theorem queue (hs : s.Covered true ids) (payloadId : Text) (grace : ℚ) :
    (s.queue payloadId (some grace)).Covered true (ids \ {payloadId}) where
  closed := hs.closed
  unqueued hbatch := by cases hbatch
  covers payloadId' hid e he :=
    (hs.covers payloadId' hid.1 e he).congr rfl rfl (Function.update_of_ne hid.2 _ _)

/-- The id is covered when its cache entry is. -/
theorem catchUp (hs : s.Covered batch (Set.univ \ {payloadId}))
    (hentry : ∀ e, s.live .cache payloadId = some e → s.Kept payloadId e.expiresAt) :
    s.Covered batch Set.univ where
  closed := hs.closed
  unqueued := hs.unqueued
  covers payloadId' _ e he := by
    by_cases hid : payloadId' = payloadId
    · subst hid
      exact hentry e he
    · exact hs.covers payloadId' ⟨trivial, hid⟩ e he

/-- The cache entry of an id is replaced by one that is covered. -/
theorem writeCache (hs : s.Covered batch (Set.univ \ {payloadId}))
    (hentry : ∀ e, entry = some e → s.Kept payloadId e.expiresAt) :
    (s.put .cache payloadId entry).Covered batch Set.univ where
  closed := hs.closed
  unqueued := hs.unqueued
  covers payloadId' _ e he := by
    obtain ⟨hheld, hlive⟩ := live_eq_some.mp he
    have hauth : (s.put .cache payloadId entry).held .auth payloadId' = s.held .auth payloadId' :=
      put_held_of_ne (by decide)
    refine Kept.congr ?_ rfl hauth rfl
    by_cases hid : payloadId' = payloadId
    · subst hid
      rw [put_held_self] at hheld
      exact hentry e hheld
    · rw [put_held_of_id_ne hid] at hheld
      exact hs.covers payloadId' ⟨trivial, hid⟩ e (live_eq_some.mpr ⟨hheld, hlive⟩)

end Covered

end TimedBackends

/-! ### Operations over backends with expiry -/

namespace ResilientStore

open TimedBackends

variable {α β : Type} {store : ResilientStore} {batch : Bool} {s : TimedBackends} {op : StoreOp}
  {tier : Tier} {h : List (Prog.Event BackendOp BackendOp.Answer)} {payloadId : Text}
  {record : MappingRecord} {ttl grace : ℚ}
  {Q : List (Prog.Event BackendOp BackendOp.Answer) → α → TimedBackends → Prop}

/-- What a program establishes over these backends, with long-lived reads and writes only. -/
abbrev TimedWp (store : ResilientStore) (batch : Bool)
    (Q : List (Prog.Event BackendOp BackendOp.Answer) → α → TimedBackends → Prop)
    (h : List (Prog.Event BackendOp BackendOp.Answer)) (p : BackendProg α) (s : TimedBackends) :
    Prop :=
  Prog.Wp ((timedBackends batch).restrict (LongLived store)) Q h p s

/-- A guarded call is made and answered. -/
private theorem timed_guardedCall_bind {refused failed : β} {answered : op.Result → β}
    {f : β → BackendProg α} (hs : s.Closed)
    (hok : ∀ h' s₁ a s₂ s₃, s.Calm s₁ → s₁.apply batch tier op a s₂ →
      LongLived store (.backend tier op) s₁ (.ok a) s₂ → s₂.Calm s₃ →
      TimedWp store batch Q h' (f (answered a)) s₃) :
    TimedWp store batch Q h ((guardedCall tier op refused failed answered).bind f) s := by
  rintro s₁ he₁ allowed s₂ ⟨⟨hallowed, rfl⟩, -⟩
  have hs₁ := calm_of_env he₁
  obtain rfl : allowed = true :=
    hallowed.trans (CircuitBreaker.allow_of_lt (hs₁.closed hs tier) _)
  rintro s₃ he₃ r s₄ ⟨⟨a, happly, rfl⟩, hlong⟩
  rintro s₅ he₅ _ s₆ ⟨rfl, -⟩
  refine hok _ s₃ a s₄ _ (hs₁.trans (calm_of_env he₃)) happly hlong ((calm_of_env he₅).trans ?_)
  refine ⟨rfl, fun _ _ hkept => hkept.congr rfl rfl rfl, fun _ _ => id,
    fun hclosed tier' => ?_, id⟩
  by_cases htier : tier' = tier
  · subst htier
    simp only [Function.update_self]
    exact CircuitBreaker.recordSuccess_lt (hclosed tier')
  · simp only [Function.update_of_ne htier]
    exact hclosed tier'

/-- A call of the cache is made and answered. -/
private theorem timed_cacheCall_bind {f : Option op.Result → BackendProg α}
    (hcache : store.hasCache = true) (hs : s.Closed)
    (hok : ∀ h' s₁ a s₂ s₃, s.Calm s₁ → s₁.apply batch .cache op a s₂ → s₂.Calm s₃ →
      TimedWp store batch Q h' (f (some a)) s₃) :
    TimedWp store batch Q h ((store.cacheCall op).bind f) s := by
  rw [cacheCall, hcache]
  exact timed_guardedCall_bind hs
    fun h' s₁ a s₂ s₃ hs₁ happly _ => hok h' s₁ a s₂ s₃ hs₁ happly

/-- Writing to the cache an entry that is covered. -/
private theorem timed_writeCache {a : α} (hcache : store.hasCache = true)
    (hs : s.Covered batch (Set.univ \ {payloadId}))
    (hentry : s.Kept payloadId (s.now + ttl))
    (hQ : ∀ h' s', s'.now = s.now → s'.Kept payloadId (s.now + ttl) →
      s'.Covered batch Set.univ → Q h' a s') :
    TimedWp store batch Q h ((store.cacheCall (.update payloadId record ttl)).bind fun _ =>
      .ret a) s := by
  refine timed_cacheCall_bind hcache hs.closed fun h' s₁ _ s₂ s₃ hs₁ happly hs₃ s' he => ?_
  obtain rfl := happly
  have hs' := hs₃.trans (calm_of_env he)
  have hkept := hs₁.kept payloadId _ hentry
  have hwritten : (s₁.put .cache payloadId (some ⟨record, s₁.now + ttl⟩)).Covered batch
      Set.univ := by
    refine (hs.calm hs₁).writeCache fun e he => ?_
    cases he
    rw [hs₁.now]
    exact hkept
  exact hQ h' s' (hs'.now.trans hs₁.now)
    (hs'.kept payloadId _ (hkept.congr rfl (put_held_of_ne (by decide)) rfl)) (hwritten.calm hs')

/-- What a `get` returns is live in the authority; what is not live there is not returned. -/
def ReadsLive (payloadId : Text) (a : Except StoreFault (Option MappingRecord))
    (s : TimedBackends) : Prop :=
  ∃ found, a = .ok found ∧ (found.isSome = true → (s.live .auth payloadId).isSome = true)

/-- The authority keeps what a `get` reads for as long as the backfilled copy lives. -/
private theorem kept_of_read {r : Option MappingRecord} {s' : TimedBackends} {e : Entry}
    (hlong : LongLived store (.backend .auth (.get payloadId)) s (.ok r) s')
    (hlive : s.live .auth payloadId = some e) :
    s.Kept payloadId (s.now + store.backfillTtl) := by
  intro _
  obtain ⟨hheld, hnow⟩ := live_eq_some.mp hlive
  have hlong := hlong e hlive
  refine ⟨e, hheld, ?_⟩
  cases hpending : s.pending payloadId with
  | none =>
    rw [hpending] at hlong
    exact hlong
  | some grace =>
    rw [hpending] at hlong
    exact ⟨hnow, by gcongr⟩

/-- The authority keeps what it has taken for its lifetime. -/
private theorem kept_of_write (record : MappingRecord)
    (hlong : ∀ grace, s.pending payloadId = some grace → ttl ≤ grace) :
    (s.put .auth payloadId (some ⟨record, s.now + ttl⟩)).Kept payloadId (s.now + ttl) := by
  intro hnow
  refine ⟨_, put_held_self, ?_⟩
  change Entry.KeptUntil _ s.now _ (s.pending payloadId)
  cases hpending : s.pending payloadId with
  | none => exact le_rfl
  | some grace =>
    have hle := hlong grace hpending
    exact ⟨hnow, by gcongr⟩

private theorem timed_get (hcache : store.hasCache = true) (hbackfill : 0 < store.backfillTtl)
    (hs : s.Covered batch Set.univ) :
    TimedWp store batch (fun _ a s' => ReadsLive payloadId a s' ∧ s'.Covered batch Set.univ) h
      (store.get payloadId) s := by
  refine timed_cacheCall_bind hcache hs.closed fun h₁ s₁ a s₂ s₃ hs₁ happly hs₃ => ?_
  obtain ⟨rfl, rfl⟩ := happly
  cases hlive : s₂.live .cache payloadId with
  | some e =>
    intro s' he
    have hs' := hs₃.trans (calm_of_env he)
    have hnow := (live_eq_some.mp hlive).2
    have hkept := hs'.kept payloadId _ ((hs.calm hs₁).covers payloadId trivial e hlive)
    obtain ⟨e', hauth⟩ := hkept.live (hs'.now ▸ hnow)
    exact ⟨⟨some e.record, rfl, fun _ => by rw [hauth]; rfl⟩, (hs.calm hs₁).calm hs'⟩
  | none =>
    have hs₃ := (hs.calm hs₁).calm hs₃
    refine timed_guardedCall_bind hs₃.closed fun h₄ s₄ a s₅ s₆ hs₄ happly hlong hs₆ => ?_
    obtain ⟨rfl, rfl⟩ := happly
    cases hlive : s₅.live .auth payloadId with
    | none =>
      intro s' he
      exact ⟨⟨none, rfl, fun h => by cases h⟩,
        (hs₃.calm hs₄).calm (hs₆.trans (calm_of_env he))⟩
    | some e =>
      have hkept := hs₆.kept payloadId _ (kept_of_read hlong hlive)
      rw [← hs₆.now] at hkept
      refine timed_writeCache hcache (((hs₃.calm hs₄).calm hs₆).mono Set.sdiff_subset) hkept
        fun _ s' hnow hkept hs' => ⟨⟨some e.record, rfl, fun _ => ?_⟩, hs'⟩
      obtain ⟨e', hauth⟩ := hkept.live (by rw [hnow]; exact lt_add_of_pos_right _ hbackfill)
      rw [hauth]
      rfl

private theorem timed_saveIfAbsent (hcache : store.hasCache = true)
    (hs : s.Covered batch Set.univ) :
    TimedWp store batch (fun _ _ s' => s'.Covered batch Set.univ) h
      (store.saveIfAbsent payloadId record ttl) s := by
  refine timed_guardedCall_bind hs.closed fun h₁ s₁ a s₂ s₃ hs₁ happly hlong hs₃ => ?_
  have hs₁ := hs.calm hs₁
  rcases happly with ⟨hnone, rfl, rfl⟩ | ⟨-, rfl, rfl⟩
  · have hkept := hs₃.kept payloadId _ (kept_of_write record (hlong hnone))
    rw [← show _ = s₁.now from hs₃.now] at hkept
    exact timed_writeCache hcache ((hs₁.writeAuth payloadId _).calm hs₃) hkept
      fun _ _ _ _ hs' => hs'
  · exact fun s' he => hs₁.calm (hs₃.trans (calm_of_env he))

private theorem timed_update (hcache : store.hasCache = true) (hs : s.Covered batch Set.univ) :
    TimedWp store batch (fun _ _ s' => s'.Covered batch Set.univ) h
      (store.update payloadId record ttl) s := by
  refine timed_guardedCall_bind hs.closed fun h₁ s₁ a s₂ s₃ hs₁ happly hlong hs₃ => ?_
  obtain rfl := happly
  have hkept := hs₃.kept payloadId _ (kept_of_write record hlong)
  rw [← show _ = s₁.now from hs₃.now] at hkept
  exact timed_writeCache hcache (((hs.calm hs₁).writeAuth payloadId _).calm hs₃) hkept
    fun _ _ _ _ hs' => hs'

private theorem timed_delete (hcache : store.hasCache = true) (hs : s.Covered batch Set.univ) :
    TimedWp store batch (fun _ _ s' => s'.Covered batch Set.univ) h (store.delete payloadId) s := by
  refine timed_cacheCall_bind hcache hs.closed fun h₁ s₁ _ s₂ s₃ hs₁ happly hs₃ => ?_
  obtain rfl := happly
  have hdeleted : (s₁.put .cache payloadId none).Covered batch Set.univ :=
    ((hs.calm hs₁).mono Set.sdiff_subset).writeCache fun e he => by cases he
  rw [← Prog.bind_ret_right (store.authCall (.delete payloadId))]
  refine timed_guardedCall_bind (hs₃.closed hdeleted.closed)
    fun h₄ s₄ _ s₅ s₆ hs₄ happly _ hs₆ s' he => ?_
  obtain rfl := happly
  have hs' := hs₆.trans (calm_of_env he)
  refine ((((hdeleted.calm hs₃).calm hs₄).writeAuth payloadId none).calm hs').catchUp fun e he => ?_
  have hheld := hs'.cache payloadId e (live_eq_some.mp he).1
  rw [put_held_of_ne (by decide)] at hheld
  have hheld := (hs₃.trans hs₄).cache payloadId e hheld
  rw [put_held_self] at hheld
  cases hheld

/-- The authority keeps a record that it has marked, or has queued to mark, for the grace from now
on, if the cache has a live copy. -/
private theorem covered_of_mark {s' : TimedBackends} (hs : s.Covered batch Set.univ)
    (happly : s.apply batch .auth (.markDemasked payloadId grace) () s') :
    s'.Covered batch (Set.univ \ {payloadId}) ∧ s'.now = s.now ∧
      (s'.Kept payloadId (s.now + grace) ∨ s'.live .cache payloadId = none) := by
  simp only [apply, true_and] at happly
  cases batch with
  | true =>
    rw [if_pos rfl] at happly
    subst happly
    refine ⟨hs.queue payloadId grace, rfl, ?_⟩
    cases hlive : s.live .cache payloadId with
    | none => exact .inr hlive
    | some e =>
      obtain ⟨e', hauth⟩ :=
        (hs.covers payloadId trivial e hlive).live (live_eq_some.mp hlive).2
      obtain ⟨hheld, hnow⟩ := live_eq_some.mp hauth
      refine .inl fun _ => ⟨e', hheld, ?_⟩
      rw [show (s.queue payloadId (some grace)).pending payloadId = some grace from
        Function.update_self _ _ _]
      exact ⟨hnow, le_rfl⟩
  | false =>
    rw [if_neg Bool.false_ne_true] at happly
    rcases happly with ⟨hnone, rfl⟩ | ⟨e, -, rfl⟩
    · refine ⟨hs.mono Set.sdiff_subset, rfl, .inr ?_⟩
      refine Option.eq_none_iff_forall_ne_some.mpr fun e he => ?_
      obtain ⟨e', hauth⟩ := (hs.covers payloadId trivial e he).live (live_eq_some.mp he).2
      rw [hnone] at hauth
      cases hauth
    · refine ⟨hs.writeAuth payloadId _, rfl, .inl (kept_of_write _ fun grace hpending => ?_)⟩
      rw [hs.unqueued rfl payloadId] at hpending
      cases hpending

private theorem timed_markDemasked (hcache : store.hasCache = true)
    (hs : s.Covered batch Set.univ) :
    TimedWp store batch (fun _ _ s' => s'.Covered batch Set.univ) h
      (store.markDemasked payloadId grace) s := by
  refine timed_guardedCall_bind hs.closed fun h₁ s₁ _ s₂ s₃ hs₁ happly _ hs₃ => ?_
  obtain ⟨hs₂, hnow, hentry⟩ := covered_of_mark (hs.calm hs₁) happly
  refine timed_cacheCall_bind hcache (hs₃.closed hs₂.closed)
    fun h₄ s₄ _ s₅ s₆ hs₄ happly hs₆ => ?_
  obtain ⟨rfl, rfl⟩ := happly
  have hs₅ := hs₃.trans hs₄
  cases hlive : s₅.live .cache payloadId with
  | none =>
    intro s' he
    have hs' := hs₆.trans (calm_of_env he)
    refine (hs₂.calm (hs₅.trans hs')).catchUp fun e he => ?_
    rw [hs'.live_cache he] at hlive
    cases hlive
  | some e =>
    rintro s₇ he₇ now s₈ ⟨⟨rfl, rfl⟩, -⟩
    have hs₈ := hs₅.trans (hs₆.trans (calm_of_env he₇))
    have hkept : s₈.Kept payloadId (s₈.now + grace) := by
      rw [hs₈.now, hnow]
      rcases hentry with hkept | hnone
      · exact hs₈.kept payloadId _ hkept
      · rw [hs₅.live_cache hlive] at hnone
        cases hnone
    exact timed_writeCache hcache (hs₂.calm hs₈) hkept fun _ _ _ _ hs' => hs'

/-- **Every operation keeps the cache covered**, when the authority keeps every entry that a `get`
reads for as long as a backfilled copy lives, and nothing that is written outlives a transition
queued before. -/
theorem covered_run (hcache : store.hasCache = true) (hbackfill : 0 < store.backfillTtl)
    (hs : s.Covered batch Set.univ) :
    TimedWp store batch (fun _ _ s' => s'.Covered batch Set.univ) h (store.run op) s := by
  cases op with
  | get payloadId => exact (timed_get hcache hbackfill hs).mono fun _ _ _ hget => hget.2
  | saveIfAbsent payloadId record ttl => exact timed_saveIfAbsent hcache hs
  | update payloadId record ttl => exact timed_update hcache hs
  | delete payloadId => exact timed_delete hcache hs
  | markDemasked payloadId grace => exact timed_markDemasked hcache hs

/-- A run keeps the cache covered. -/
theorem covered_of_run {s₀ : TimedBackends} (hcache : store.hasCache = true)
    (hbackfill : 0 < store.backfillTtl) (hs₀ : s₀.Covered batch Set.univ)
    (hrun : TimedRun store ((timedBackends batch).restrict (LongLived store)) InTimeFlush s₀ s) :
    s.Covered batch Set.univ := by
  induction hrun with
  | nil => exact hs₀
  | tick _ ht hflush ih => exact ih.tick ht hflush
  | env _ he ih => exact ih.calm (Background.calm he)
  | op _ hop ih => exact hop.wp (covered_run hcache hbackfill ih)

/-- Empty backends at the time `now` behind the given breakers. -/
def emptyAt (now : ℚ) (breaker : Tier → CircuitBreaker) : TimedBackends :=
  ⟨now, breaker, fun _ _ => none, fun _ => none⟩

/-- **The cache within the authority.** In every run whose `get` calls read from the authority only
entries that it keeps for as long as a backfilled copy lives, and in which queued transitions are
written in time and no record is written that outlives one, `get` returns a record only if the
authority holds a live one at that time; otherwise the id is new, and a request for it is a first
request. -/
theorem cache_within_authority (store : ResilientStore) (hcache : store.hasCache = true)
    (hbackfill : 0 < store.backfillTtl) {now : ℚ} {breaker : Tier → CircuitBreaker}
    (hclosed : ∀ tier, (breaker tier).failures < (breaker tier).threshold)
    (hrun : TimedRun store ((timedBackends batch).restrict (LongLived store)) InTimeFlush
      (emptyAt now breaker) s)
    {a : Except StoreFault (Option MappingRecord)} {s' : TimedBackends}
    (hget : Prog.Exec ((timedBackends batch).restrict (LongLived store)) []
      (store.get payloadId) s h a s') :
    (∀ r, a = .ok (some r) → ∃ e, s'.live .auth payloadId = some e) ∧
      (s'.live .auth payloadId = none → ∀ (svc : ProcessService) payload consumer,
        svc.afterRead payload payloadId consumer a =
          svc.firstRequest payload payloadId consumer) := by
  have hempty : (emptyAt now breaker).Covered batch Set.univ :=
    ⟨hclosed, fun _ _ => rfl, fun _ _ _ he => (by cases he)⟩
  obtain ⟨found, rfl, hfound⟩ :=
    (hget.wp (timed_get hcache hbackfill (covered_of_run hcache hbackfill hempty hrun))).1
  refine ⟨fun r hr => ?_, fun hnone svc payload consumer => ?_⟩
  · cases hr
    exact Option.isSome_iff_exists.mp (hfound rfl)
  · rw [hnone] at hfound
    cases found with
    | none => rfl
    | some r => exact absurd (hfound rfl) Bool.false_ne_true

/-! ### A copy that outlives its record -/

private theorem timed_respond (e : BackendOp) (s : TimedBackends) :
    (timedBackends true).handle e s (s.respond true e).1 (s.respond true e).2 := by
  cases e with
  | allow tier => exact ⟨rfl, rfl⟩
  | recordSuccess tier => rfl
  | recordFailure tier => rfl
  | backend tier op => exact ⟨_, s.apply_serve true tier op, rfl⟩
  | time => exact ⟨rfl, rfl⟩

/-- The history, the answer and the state of an operation, over an authority that batches. -/
def attemptAt (op : StoreOp) (s : TimedBackends) :
    List (Prog.Event BackendOp BackendOp.Answer) × Except StoreFault op.Result × TimedBackends :=
  Prog.simulate (fun e s => s.respond true e) [] (({} : ResilientStore).run op) s

private theorem exec_attemptAt (op : StoreOp) (s : TimedBackends) :
    Prog.Exec (timedBackends true) [] (({} : ResilientStore).run op) s (attemptAt op s).1
      (attemptAt op s).2.1 (attemptAt op s).2.2 :=
  Prog.exec_simulate timed_respond [] _ s

/-- A record was saved for ten seconds at the time `0` and evicted from the cache; it is the time
`9`. -/
def evictedState : TimedBackends :=
  { (attemptAt (.saveIfAbsent "p1".toList plainRecord 10) (emptyAt 0 fun _ => {})).2.2.put .cache
    "p1".toList none with now := 9 }

/-- A `get` has brought the record back to the cache; it is the time `20`. -/
def lateState : TimedBackends :=
  { (attemptAt (.get "p1".toList) evictedState).2.2 with now := 20 }

private theorem run_lateState :
    TimedRun {} (timedBackends true) (fun _ _ => True) (emptyAt 0 fun _ => {}) lateState := by
  have hsaved : TimedRun {} (timedBackends true) (fun _ _ => True) (emptyAt 0 fun _ => {})
      (attemptAt (.saveIfAbsent "p1".toList plainRecord 10) (emptyAt 0 fun _ => {})).2.2 :=
    .op .nil (exec_attemptAt _ _)
  refine .tick (.op (.tick (t := 9) (.env hsaved (.evict _ "p1".toList)) ?_ trivial)
    (exec_attemptAt (.get "p1".toList) evictedState)) ?_ trivial
  · decide +kernel
  · decide +kernel

/-- A record saved for ten seconds is evicted from the cache; a `get` one second before its expiry
brings it back there for five minutes, and a `get` ten seconds after its expiry returns it. -/
theorem cache_within_authority_late_read :
    TimedRun {} (timedBackends true) (fun _ _ => True) (emptyAt 0 fun _ => {}) lateState ∧
      lateState.live .auth "p1".toList = none ∧
      ∃ h s', Prog.Exec (timedBackends true) [] (({} : ResilientStore).get "p1".toList) lateState h
        (.ok (some plainRecord)) s' ∧ s'.live .auth "p1".toList = none := by
  have hread : (attemptAt (.get "p1".toList) lateState).2.1 = .ok (some plainRecord) := by
    decide +kernel
  have hexec := exec_attemptAt (.get "p1".toList) lateState
  rw [hread] at hexec
  refine ⟨run_lateState, ?_, _, _, hexec, ?_⟩
  · exact Option.isNone_iff_eq_none.mp (by decide +kernel)
  · exact Option.isNone_iff_eq_none.mp (by decide +kernel)

/-- The test whether a call keeps to long-lived reads and writes. -/
def longLived : BackendOp → TimedBackends → Bool
  | .backend .auth (.get payloadId), s =>
    match s.pending payloadId with
    | none => (s.live .auth payloadId).all fun e => s.now + 300 ≤ e.expiresAt
    | some grace => 300 ≤ grace
  | .backend .auth (.saveIfAbsent payloadId _ ttl), s => (s.pending payloadId).all (ttl ≤ ·)
  | .backend .auth (.update payloadId _ ttl), s => (s.pending payloadId).all (ttl ≤ ·)
  | _, _ => true

private theorem timed_respond_longLived (e : BackendOp) (s : TimedBackends)
    (hlong : longLived e s = true) :
    ((timedBackends true).restrict (LongLived {})).handle e s (s.respond true e).1
      (s.respond true e).2 := by
  refine ⟨timed_respond e s, ?_⟩
  match e, hlong with
  | .backend .auth (.get payloadId), hlong =>
    intro entry hentry
    cases hpending : s.pending payloadId with
    | none =>
      simpa only [longLived, hpending, hentry, Option.all_some, decide_eq_true_eq] using hlong
    | some grace => simpa only [longLived, hpending, decide_eq_true_eq] using hlong
  | .backend .auth (.saveIfAbsent payloadId _ _), hlong =>
    intro _ grace hpending
    simpa only [longLived, hpending, Option.all_some, decide_eq_true_eq] using hlong
  | .backend .auth (.update payloadId _ _), hlong =>
    intro grace hpending
    simpa only [longLived, hpending, Option.all_some, decide_eq_true_eq] using hlong
  | .backend .auth (.delete _), _ => trivial
  | .backend .auth (.markDemasked _ _), _ => trivial
  | .backend .cache _, _ => trivial
  | .allow _, _ => trivial
  | .recordSuccess _, _ => trivial
  | .recordFailure _, _ => trivial
  | .time, _ => trivial

/-- The id is the only one with a queued transition. -/
def OnlyQueued (payloadId : Text) (s : TimedBackends) : Prop :=
  ∀ payloadId', payloadId' ≠ payloadId → s.pending payloadId' = none

/-- A call that does not mark another id. -/
def marksOnly (payloadId : Text) : BackendOp → TimedBackends → Bool
  | .backend _ (.markDemasked payloadId' _), _ => payloadId' = payloadId
  | _, _ => true

private theorem onlyQueued_respond (e : BackendOp) (s : TimedBackends)
    (hmarks : marksOnly payloadId e s = true) (hs : OnlyQueued payloadId s) :
    OnlyQueued payloadId (s.respond true e).2 := by
  match e, hmarks with
  | .backend tier (.markDemasked payloadId' _), hmarks =>
    obtain rfl : payloadId' = payloadId := of_decide_eq_true hmarks
    intro id hid
    simp only [respond, TimedBackends.serve]
    split_ifs
    · exact (Function.update_of_ne hid _ _).trans (hs id hid)
    · unfold writeGrace
      split
      · exact hs id hid
      · exact hs id hid
  | .backend tier (.saveIfAbsent _ _ _), _ =>
    simp only [respond, TimedBackends.serve]
    split_ifs
    · exact hs
    · exact hs
  | .backend _ (.get _), _ => exact hs
  | .backend _ (.update _ _ _), _ => exact hs
  | .backend _ (.delete _), _ => exact hs
  | .allow _, _ => exact hs
  | .recordSuccess _, _ => exact hs
  | .recordFailure _, _ => exact hs
  | .time, _ => exact hs

/-- A record was saved for an hour, and its grace transition of ten minutes has been queued. -/
def queuedState : TimedBackends :=
  (attemptAt (.markDemasked "p1".toList 600)
    (attemptAt (.saveIfAbsent "p1".toList plainRecord 3600) (emptyAt 0 fun _ => {})).2.2).2.2

/-- The transition was written at the time `1`. -/
def writtenState : TimedBackends :=
  ({ queuedState with now := 1 }.queue "p1".toList none).writeGrace .auth "p1".toList 600

/-- It is the time `100`, and the cache has evicted the record. -/
def flushedState : TimedBackends :=
  { writtenState with now := 100 }.put .cache "p1".toList none

private theorem onlyQueued_queuedState : OnlyQueued "p1".toList queuedState :=
  Prog.simulate_of_checks onlyQueued_respond [] _ (Prog.simulate_of_checks onlyQueued_respond [] _
    (fun _ _ => rfl) (by decide +kernel)) (by decide +kernel)

private theorem pending_writtenState (payloadId : Text) :
    writtenState.pending payloadId = none := by
  by_cases hid : payloadId = "p1".toList
  · subst hid
    exact Option.isNone_iff_eq_none.mp (by decide +kernel)
  · unfold writtenState writeGrace
    split
    · exact (Function.update_of_ne hid _ _).trans (onlyQueued_queuedState _ hid)
    · exact (Function.update_of_ne hid _ _).trans (onlyQueued_queuedState _ hid)

private theorem run_flushedState :
    TimedRun {} ((timedBackends true).restrict (LongLived {})) InTimeFlush (emptyAt 0 fun _ => {})
      flushedState := by
  have hsave := Prog.exec_of_checks timed_respond_longLived []
    (({} : ResilientStore).run (.saveIfAbsent "p1".toList plainRecord 3600))
    (emptyAt 0 fun _ => {}) (by decide +kernel)
  have hmark := Prog.exec_of_checks timed_respond_longLived []
    (({} : ResilientStore).run (.markDemasked "p1".toList 600))
    (attemptAt (.saveIfAbsent "p1".toList plainRecord 3600) (emptyAt 0 fun _ => {})).2.2
    (by decide +kernel)
  have hqueued : TimedRun {} ((timedBackends true).restrict (LongLived {})) InTimeFlush
      (emptyAt 0 fun _ => {}) queuedState := .op (.op .nil hsave) hmark
  -- the record of `p1` expires long after the time `1`, and no other id has a queued transition
  have hlater : InTimeFlush queuedState 1 := by
    intro payloadId _ e' hpending _ hauth _
    by_cases hid : payloadId = "p1".toList
    · subst hid
      have hlong : (queuedState.live .auth "p1".toList).all fun e => 1 < e.expiresAt := by
        decide +kernel
      rw [hauth] at hlong
      exact of_decide_eq_true hlong
    · rw [onlyQueued_queuedState _ hid] at hpending
      cases hpending
  have hpending : ({ queuedState with now := 1 }).pending "p1".toList = some 600 := by
    decide +kernel
  have hwritten : TimedRun {} ((timedBackends true).restrict (LongLived {})) InTimeFlush
      (emptyAt 0 fun _ => {}) writtenState :=
    .env (hqueued.tick (t := 1) (by decide +kernel) hlater)
      (.flush hpending (graced_writeGrace _ _ _ _))
  refine .env (hwritten.tick (t := 100) (by decide +kernel) fun id _ _ h => ?_)
    (.evict _ "p1".toList)
  rw [pending_writtenState] at h
  cases h

/-- The case of a record that was saved for an hour, marked, evicted after its queued transition was
written, and read again. -/
theorem cache_within_authority_early_read :
    ∃ h s', Prog.Exec ((timedBackends true).restrict (LongLived {})) []
        (({} : ResilientStore).get "p1".toList) flushedState h
        (.ok (some (plainRecord.demasked 1))) s' ∧
      ∃ e, s'.live .auth "p1".toList = some e := by
  have hget := Prog.exec_of_checks timed_respond_longLived []
    (({} : ResilientStore).get "p1".toList) flushedState (by decide +kernel)
  have hread : (Prog.simulate (fun e s => TimedBackends.respond s true e) []
      (({} : ResilientStore).get "p1".toList) flushedState).2.1 =
      .ok (some (plainRecord.demasked 1)) := by
    decide +kernel
  rw [hread] at hget
  exact ⟨_, _, hget, (cache_within_authority {} rfl (by decide +kernel)
    (fun _ => Nat.zero_lt_succ 2) run_flushedState hget).1 _ rfl⟩

end ResilientStore

end PiiProxy
