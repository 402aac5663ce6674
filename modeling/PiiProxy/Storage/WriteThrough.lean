import PiiProxy.Storage.Backends

/-!
# Writing through a cache that fails

Sequential runs of the operations of the resilient store, over an authority that never fails and a
cache whose every call may fail, be skipped by its open circuit, or be preceded by evictions. An
authority that batches its grace transitions only queues them in `mark_demasked` and writes them at
some later moment, to whatever record it then has of the id.

The purpose of the store is stated as a plain map from payload ids to records, up to the date of the
grace transition, which the two backends write at different times. The store refines the plain map,
but for the records that a late transition has moved to grace, as long as no `update`,
`mark_demasked` or `delete` loses its write to a cache that holds an entry of the id (such an entry
stays and is what later reads return), and as long as no read comes to the authority between a
`mark_demasked` and the flush of its transition.

## Main definitions

* `PlainStore`, `PlainStore.step`: the map that the store stands for.
* `UpToGrace`: a record is one of the map, or that one moved to grace.
* `FlakyBackends`, `flakyCache`: the backends, with the queue of the authority and with a cache that
  may fail.
* `CacheKept`: no write is lost to a cache that holds an entry of its id.
* `ReadsMarked`: a record that is read from the authority has had its queued transition.
* `SequentialRun`: runs of operations one after the other.

## Main results

* `ResilientStore.run_refines`: one operation refines one step of the plain map.
* `ResilientStore.get_refines_plainStore`: after every run, `get` returns what the plain map holds.
-/

namespace PiiProxy

/-! ### The map that the store stands for -/

/-- The record without the date of its grace transition. -/
def MappingRecord.undated (r : MappingRecord) : MappingRecord := { r with demaskedAt := none }

/-- A map from payload ids to undated records. -/
abbrev PlainStore : Type := Text → Option MappingRecord

namespace PlainStore

/-- The effect of an operation on the map. -/
def step (m : PlainStore) : StoreOp → PlainStore
  | .get _ => m
  | .saveIfAbsent payloadId record _ =>
    if m payloadId = none then Function.update m payloadId (some record.undated) else m
  | .update payloadId record _ => Function.update m payloadId (some record.undated)
  | .delete payloadId => Function.update m payloadId none
  | .markDemasked payloadId _ =>
    Function.update m payloadId ((m payloadId).map fun r => (r.demasked 0).undated)

/-- The map after a list of operations, from the empty map on. -/
def run (ops : List StoreOp) : PlainStore := ops.foldl step fun _ => none

end PlainStore

/-- The record is the one of the map or, where transitions are batched, that one moved to grace. -/
def UpToGrace (batch : Bool) (r rm : MappingRecord) : Prop :=
  r.undated = rm ∨ batch = true ∧ r.undated = (rm.demasked 0).undated

/-- Moving to grace again changes only the date. -/
theorem demasked_undated_of_eq {r rm : MappingRecord} {now : ℚ}
    (h : r.undated = (rm.demasked 0).undated) :
    (r.demasked now).undated = (rm.demasked 0).undated := by
  have hgrace := congrArg (fun r : MappingRecord => (r.demasked 0).undated) h
  exact hgrace

namespace UpToGrace

variable {batch : Bool} {r rm : MappingRecord}

/-- Of the two, one is moved to grace. -/
theorem demasked_left (h : UpToGrace true r rm) (now : ℚ) : UpToGrace true (r.demasked now) rm := by
  refine .inr ⟨rfl, ?_⟩
  rcases h with rfl | ⟨-, h⟩
  · rfl
  · exact demasked_undated_of_eq h

/-- Both are moved to grace. -/
theorem demasked (h : UpToGrace batch r rm) (now : ℚ) :
    UpToGrace batch (r.demasked now) (rm.demasked 0).undated := by
  rcases h with rfl | ⟨-, h⟩
  · exact .inl rfl
  · exact .inl (demasked_undated_of_eq h)

end UpToGrace

/-! ### A cache that fails and an authority that batches -/

/-- Whether the queue of the authority holds a transition of the record that the authority has of an
id, or one that was meant for an earlier record of the id. -/
inductive Queued where
  | current
  | outdated

/-- The backends with the transitions that the authority has queued. -/
structure FlakyBackends extends Backends where
  pending : Text → Option Queued

namespace FlakyBackends

variable (s : FlakyBackends)

/-- The backend `tier` holds `entry` under the payload id. -/
def put (tier : Tier) (payloadId : Text) (entry : Option MappingRecord) : FlakyBackends :=
  { s with toBackends := s.toBackends.put tier payloadId entry }

/-- The queue holds a transition of the id. -/
def queue (payloadId : Text) (pending : Option Queued) : FlakyBackends :=
  { s with pending := Function.update s.pending payloadId pending }

/-- The record of the id is another one from now on; a transition that is queued stays queued. -/
def replace (tier : Tier) (payloadId : Text) (entry : Option MappingRecord) : FlakyBackends :=
  match tier with
  | .auth => (s.put .auth payloadId entry).queue payloadId
      ((s.pending payloadId).map fun _ => .outdated)
  | .cache => s.put .cache payloadId entry

/-- The effect of an operation; an authority that batches queues its grace transitions. -/
def apply (batch : Bool) (tier : Tier) : (op : StoreOp) → op.Result → FlakyBackends → Prop
  | .get payloadId, r, s' => r = s.held tier payloadId ∧ s' = s
  | .saveIfAbsent payloadId record _, r, s' =>
    (s.held tier payloadId = none ∧ r = true ∧ s' = s.replace tier payloadId (some record)) ∨
      (s.held tier payloadId ≠ none ∧ r = false ∧ s' = s)
  | .update payloadId record _, _, s' => s' = s.replace tier payloadId (some record)
  | .delete payloadId, _, s' => s' = s.replace tier payloadId none
  | .markDemasked payloadId _, _, s' =>
    if tier = .auth ∧ batch = true then s' = s.queue payloadId (some .current)
    else ∃ now, s' = s.put tier payloadId ((s.held tier payloadId).map (·.demasked now))

/-- What happens on its own: the cache evicts an entry, or an authority that batches writes a queued
transition. A flush of the whole queue is such a step for each queued id. -/
inductive Background (batch : Bool) : FlakyBackends → FlakyBackends → Prop
  | evict (s payloadId) : Background batch s (s.put .cache payloadId none)
  | flush {s payloadId} (hbatch : batch = true) (hpending : s.pending payloadId ≠ none) (now : ℚ) :
      Background batch s ((s.queue payloadId none).put .auth payloadId
        ((s.held .auth payloadId).map (·.demasked now)))

/-- The answer to an operation, and the state after it, at the time `0`. -/
def serve (batch : Bool) (tier : Tier) : (op : StoreOp) → op.Result × FlakyBackends
  | .get payloadId => (s.held tier payloadId, s)
  | .saveIfAbsent payloadId record _ =>
    if s.held tier payloadId = none then (true, s.replace tier payloadId (some record))
    else (false, s)
  | .update payloadId record _ => ((), s.replace tier payloadId (some record))
  | .delete payloadId => ((), s.replace tier payloadId none)
  | .markDemasked payloadId _ =>
    ((), if tier = .auth ∧ batch = true then s.queue payloadId (some .current)
      else s.put tier payloadId ((s.held tier payloadId).map (·.demasked 0)))

theorem apply_serve (batch : Bool) (tier : Tier) (op : StoreOp) :
    s.apply batch tier op (s.serve batch tier op).1 (s.serve batch tier op).2 := by
  cases op with
  | get payloadId => exact ⟨rfl, rfl⟩
  | saveIfAbsent payloadId record ttl =>
    by_cases hheld : s.held tier payloadId = none
    · rw [serve, if_pos hheld]
      exact .inl ⟨hheld, rfl, rfl⟩
    · rw [serve, if_neg hheld]
      exact .inr ⟨hheld, rfl, rfl⟩
  | update payloadId record ttl => rfl
  | delete payloadId => rfl
  | markDemasked payloadId grace =>
    simp only [apply, serve]
    split_ifs
    · rfl
    · exact ⟨0, rfl⟩

/-- The answers of backends that batch, with or without an outage of the cache, at the time `0`. -/
def respond (down : Bool) : (e : BackendOp) → e.Answer × FlakyBackends
  | .allow tier => ((s.breaker tier).allow 0, s)
  | .recordSuccess tier =>
    ((), { s with breaker := Function.update s.breaker tier (s.breaker tier).recordSuccess })
  | .recordFailure tier =>
    ((), { s with breaker := Function.update s.breaker tier ((s.breaker tier).recordFailure 0) })
  | .backend tier op =>
    if tier = .cache ∧ down = true then (.error .other, s)
    else (.ok (s.serve true tier op).1, (s.serve true tier op).2)
  | .time => (0, s)

/-- Empty backends behind the given breakers. -/
def empty (breaker : Tier → CircuitBreaker) : FlakyBackends := ⟨.empty breaker, fun _ => none⟩

end FlakyBackends

/-- An authority that never fails and that may batch its grace transitions, and a cache whose every
call may fail and which may evict. -/
def flakyCache (batch : Bool) : Sys FlakyBackends BackendOp BackendOp.Answer where
  handle
    | .allow tier, s, r, s' => (∃ now, r = (s.breaker tier).allow now) ∧ s' = s
    | .recordSuccess tier, s, _, s' =>
      s' = { s with breaker := Function.update s.breaker tier (s.breaker tier).recordSuccess }
    | .recordFailure tier, s, _, s' => ∃ now,
      s' = { s with breaker := Function.update s.breaker tier ((s.breaker tier).recordFailure now) }
    | .backend tier op, s, r, s' => (∃ a, s.apply batch tier op a s' ∧ r = .ok a) ∨
      (tier = .cache ∧ s' = s ∧ ∃ fault, r = .error fault)
    | .time, s, _, s' => s' = s
  env := FlakyBackends.Background batch

/-- A call of the cache was skipped or failed. -/
def cacheFault : Prog.Event BackendOp BackendOp.Answer → Bool
  | ⟨.allow .cache, false⟩ => true
  | ⟨.backend .cache _, .error _⟩ => true
  | _ => false

/-- The id whose entry an operation replaces or removes. -/
def StoreOp.replaces? : StoreOp → Option Text
  | .update payloadId _ _ => some payloadId
  | .delete payloadId => some payloadId
  | .markDemasked payloadId _ => some payloadId
  | _ => none

/-- When the cache holds an entry of the id that the operation replaces or removes, none of the
cache calls of the operation is skipped or fails. -/
def CacheKept (op : StoreOp) (s : FlakyBackends)
    (h : List (Prog.Event BackendOp BackendOp.Answer)) : Prop :=
  ∀ payloadId, op.replaces? = some payloadId → s.held .cache payloadId ≠ none →
    h.any cacheFault = false

/-- A record that is read from the authority while its transition is queued is in grace already. -/
def ReadsMarked : (e : BackendOp) → FlakyBackends → e.Answer → FlakyBackends → Prop
  | .backend .auth (.get payloadId), s, _, _ =>
    s.pending payloadId = some .current →
      ∀ r, s.held .auth payloadId = some r → r.state = .demaskedGrace
  | _, _, _, _ => True

/-- Operations one after the other, each of them meeting the condition `C` on the state before it
and on the answers of the backends, with anything that happens on its own in between. -/
inductive SequentialRun (store : ResilientStore) (S : Sys FlakyBackends BackendOp BackendOp.Answer)
    (C : StoreOp → FlakyBackends → List (Prog.Event BackendOp BackendOp.Answer) → Prop)
    (s₀ : FlakyBackends) : List StoreOp → FlakyBackends → Prop
  | nil : SequentialRun store S C s₀ [] s₀
  | env {ops s s'} (hrun : SequentialRun store S C s₀ ops s) (he : S.env s s') :
      SequentialRun store S C s₀ ops s'
  | snoc {ops s op h a s'} (hrun : SequentialRun store S C s₀ ops s)
      (hop : Prog.Exec S [] (store.run op) s h a s') (hC : C op s h) :
      SequentialRun store S C s₀ (ops ++ [op]) s'

namespace FlakyBackends

variable {batch : Bool} {s s' : FlakyBackends} {payloadId payloadId' : Text}
  {entry : Option MappingRecord}

/-- The circuit of the authority is closed. -/
def AuthClosed (s : FlakyBackends) : Prop :=
  (s.breaker .auth).failures < (s.breaker .auth).threshold

/-- What the authority has of the id is what the map holds, up to grace; or its queued transition
will make it so. -/
def Follows (batch : Bool) (s : FlakyBackends) (payloadId : Text) (x : Option MappingRecord) :
    Prop :=
  Option.Rel (fun r rm => UpToGrace batch r rm ∨
    s.pending payloadId = some .current ∧ (r.demasked 0).undated = rm) (s.held .auth payloadId) x

/-- Whether the authority follows the map depends on what it has of the id. -/
theorem Follows.congr {x : Option MappingRecord} (h : s.Follows batch payloadId x)
    (hheld : s'.held .auth payloadId = s.held .auth payloadId)
    (hpending : s'.pending payloadId = s.pending payloadId) : s'.Follows batch payloadId x := by
  unfold Follows
  rw [hheld, hpending]
  exact h

/-- A queued transition that is written. -/
theorem Follows.flush {x : Option MappingRecord} (h : s.Follows true payloadId x) (now : ℚ) :
    ((s.queue payloadId none).put .auth payloadId
      ((s.held .auth payloadId).map (·.demasked now))).Follows true payloadId x := by
  unfold Follows at h ⊢
  rw [show ((s.queue payloadId none).put .auth payloadId _).held .auth payloadId = _ from
    Backends.put_held_self _ _ _ _]
  generalize s.held .auth payloadId = held at h ⊢
  cases h with
  | none => exact .none
  | some h =>
    refine .some (.inl ?_)
    rcases h with h | ⟨-, rfl⟩
    · exact h.demasked_left now
    · exact .inl rfl

/-- A transition that is queued. -/
theorem Follows.queue {x : Option MappingRecord} (h : s.Follows batch payloadId x) :
    (s.queue payloadId (some .current)).Follows batch payloadId
      (x.map fun r => (r.demasked 0).undated) := by
  unfold Follows at h ⊢
  have hpending : (s.queue payloadId (some .current)).pending payloadId = some .current :=
    Function.update_self _ _ _
  rw [show (s.queue payloadId (some .current)).held = s.held from rfl]
  generalize s.held .auth payloadId = held at h ⊢
  cases h with
  | none => exact .none
  | some h =>
    refine .some (.inr ⟨hpending, ?_⟩)
    rcases h with (rfl | ⟨-, h⟩) | ⟨-, rfl⟩
    · rfl
    · exact demasked_undated_of_eq h
    · rfl

/-- A transition that is written at once. -/
theorem Follows.demasked {x : Option MappingRecord} (h : s.Follows batch payloadId x) (now : ℚ) :
    (s.put .auth payloadId ((s.held .auth payloadId).map (·.demasked now))).Follows batch payloadId
      (x.map fun r => (r.demasked 0).undated) := by
  unfold Follows at h ⊢
  rw [show (s.put .auth payloadId _).held .auth payloadId = _ from
    Backends.put_held_self _ _ _ _]
  generalize s.held .auth payloadId = held at h ⊢
  cases h with
  | none => exact .none
  | some h =>
    refine .some (.inl ?_)
    rcases h with h | ⟨-, rfl⟩
    · exact h.demasked now
    · exact .inl rfl

/-- A record of the authority that has had its queued transition is that of the map, up to grace. -/
theorem Follows.upToGrace {x : Option MappingRecord} (h : s.Follows batch payloadId x)
    (hmarked : s.pending payloadId = some .current →
      ∀ r, s.held .auth payloadId = some r → r.state = .demaskedGrace) :
    Option.Rel (UpToGrace batch) (s.held .auth payloadId) x := by
  unfold Follows at h
  cases hheld : s.held .auth payloadId with
  | none =>
    rw [hheld] at h
    cases h
    exact .none
  | some r =>
    rw [hheld] at h
    cases h with
    | some h =>
      refine .some ?_
      rcases h with h | ⟨hpending, rfl⟩
      · exact h
      · have hstate := hmarked hpending r hheld
        refine .inl ?_
        rw [MappingRecord.undated, MappingRecord.undated, MappingRecord.demasked, ← hstate]

/-- Nothing happened but what happens on its own and reports to the breakers. -/
structure Calm (batch : Bool) (s s' : FlakyBackends) : Prop where
  auth : ∀ payloadId x, s.Follows batch payloadId x → s'.Follows batch payloadId x
  cache : ∀ payloadId r, s'.held .cache payloadId = some r → s.held .cache payloadId = some r
  closed : s.AuthClosed → s'.AuthClosed

theorem Calm.refl (s : FlakyBackends) : s.Calm batch s := ⟨fun _ _ => id, fun _ _ => id, id⟩

theorem Calm.trans {s₁ s₂ s₃ : FlakyBackends} (h₁ : s₁.Calm batch s₂) (h₂ : s₂.Calm batch s₃) :
    s₁.Calm batch s₃ :=
  ⟨fun id x h => h₂.auth id x (h₁.auth id x h), fun id r hr => h₁.cache id r (h₂.cache id r hr),
    fun h => h₂.closed (h₁.closed h)⟩

/-- What happens on its own is calm. -/
theorem Background.calm (he : Background batch s s') : s.Calm batch s' := by
  cases he with
  | evict payloadId =>
    refine ⟨fun id x h => h.congr (Backends.put_held_of_ne _ (by decide) _ _ _) rfl,
      fun id r hr => ?_, id⟩
    rw [put, Backends.put_held] at hr
    split_ifs at hr
    exact hr
  | @flush payloadId hbatch _ now =>
    subst hbatch
    refine ⟨fun id x h => ?_, fun id r hr => ?_, id⟩
    · by_cases hid : id = payloadId
      · subst hid
        exact h.flush now
      · exact h.congr (Backends.put_held_of_id_ne _ hid _ _ _) (Function.update_of_ne hid _ _)
    · rwa [put, Backends.put_held_of_ne _ (by decide)] at hr

theorem calm_of_env {C : (e : BackendOp) → FlakyBackends → e.Answer → FlakyBackends → Prop}
    (he : Relation.ReflTransGen ((flakyCache batch).restrict C).env s s') : s.Calm batch s' := by
  induction he with
  | refl => exact .refl s
  | tail _ hstep ih => exact ih.trans (Background.calm hstep)

/-- The backends stand for the map, but for the cache entry of the ids outside `ids`: the authority
follows the map, and the cache holds a part of it, up to grace. -/
structure Represents (store : ResilientStore) (batch : Bool) (m : PlainStore) (ids : Set Text)
    (s : FlakyBackends) : Prop where
  closed : s.AuthClosed
  auth : ∀ payloadId, s.Follows batch payloadId (m payloadId)
  cache : ∀ payloadId ∈ ids, ∀ r, s.held .cache payloadId = some r →
    ∃ rm, m payloadId = some rm ∧ UpToGrace batch r rm
  noCache : store.hasCache = false → ∀ payloadId, s.held .cache payloadId = none

namespace Represents

variable {store : ResilientStore} {m : PlainStore} {ids : Set Text}

theorem calm (hs : s.Represents store batch m ids) (hcalm : s.Calm batch s') :
    s'.Represents store batch m ids where
  closed := hcalm.closed hs.closed
  auth payloadId := hcalm.auth payloadId _ (hs.auth payloadId)
  cache payloadId hid r hr := hs.cache payloadId hid r (hcalm.cache payloadId r hr)
  noCache hcache payloadId := by
    refine Option.eq_none_iff_forall_ne_some.mpr fun r hr => ?_
    have hheld := hcalm.cache payloadId r hr
    rw [hs.noCache hcache payloadId] at hheld
    cases hheld

/-- The authority follows a map that has changed at an id; the cache entry of the id is left
behind. -/
theorem changeAuth {x : Option MappingRecord} (hs : s.Represents store batch m ids)
    (hclosed : s'.AuthClosed) (hid : s'.Follows batch payloadId x)
    (hother : ∀ payloadId', payloadId' ≠ payloadId →
      s'.held .auth payloadId' = s.held .auth payloadId' ∧
        s'.pending payloadId' = s.pending payloadId')
    (hcache : s'.held .cache = s.held .cache) :
    s'.Represents store batch (Function.update m payloadId x) (ids \ {payloadId}) where
  closed := hclosed
  auth payloadId' := by
    by_cases hid' : payloadId' = payloadId
    · subst hid'
      rw [Function.update_self]
      exact hid
    · rw [Function.update_of_ne hid']
      exact (hs.auth payloadId').congr (hother payloadId' hid').1 (hother payloadId' hid').2
  cache payloadId' hid' r hr := by
    rw [hcache] at hr
    rw [Function.update_of_ne hid'.2]
    exact hs.cache payloadId' hid'.1 r hr
  noCache h payloadId' := by
    rw [hcache]
    exact hs.noCache h payloadId'

/-- A write to the authority is a write to the map. -/
theorem replaceAuth (hs : s.Represents store batch m ids) (payloadId : Text)
    (entry : Option MappingRecord) :
    (s.replace .auth payloadId entry).Represents store batch
      (Function.update m payloadId (entry.map MappingRecord.undated)) (ids \ {payloadId}) := by
  refine hs.changeAuth hs.closed ?_ (fun id hid => ⟨Backends.put_held_of_id_ne _ hid _ _ _,
    Function.update_of_ne hid _ _⟩) (funext fun id => Backends.put_held_of_ne _ (by decide) _ _ _)
  unfold Follows
  rw [show (s.replace .auth payloadId entry).held .auth payloadId = entry from
    Backends.put_held_self _ _ _ _]
  cases entry with
  | none => exact .none
  | some r => exact .some (.inl (.inl rfl))

/-- A grace transition of the authority is one of the map. -/
theorem markAuth (hs : s.Represents store batch m ids)
    (happly : s.apply batch .auth (.markDemasked payloadId grace) () s') :
    s'.Represents store batch (m.step (.markDemasked payloadId grace)) (ids \ {payloadId}) ∧
      s'.held .cache = s.held .cache := by
  simp only [apply, true_and] at happly
  split_ifs at happly with hbatch
  · subst happly
    exact ⟨hs.changeAuth hs.closed (hs.auth payloadId).queue
      (fun id hid => ⟨rfl, Function.update_of_ne hid _ _⟩) rfl, rfl⟩
  · obtain ⟨now, rfl⟩ := happly
    have hcache : (s.put .auth payloadId ((s.held .auth payloadId).map (·.demasked now))).held
        .cache = s.held .cache := funext fun id => Backends.put_held_of_ne _ (by decide) _ _ _
    exact ⟨hs.changeAuth hs.closed ((hs.auth payloadId).demasked now)
      (fun id hid => ⟨Backends.put_held_of_id_ne _ hid _ _ _, rfl⟩) hcache, hcache⟩

/-- The cache entry of an id catches up. -/
theorem catchUp (hs : s.Represents store batch m (Set.univ \ {payloadId}))
    (hentry : ∀ r, s.held .cache payloadId = some r →
      ∃ rm, m payloadId = some rm ∧ UpToGrace batch r rm) :
    s.Represents store batch m Set.univ where
  closed := hs.closed
  auth := hs.auth
  cache payloadId' _ r hr := by
    by_cases hid : payloadId' = payloadId
    · subst hid
      exact hentry r hr
    · exact hs.cache payloadId' ⟨trivial, hid⟩ r hr
  noCache := hs.noCache

/-- The cache entry of an id is replaced. -/
theorem writeCache (hs : s.Represents store batch m (Set.univ \ {payloadId}))
    (hentry : ∀ r, entry = some r → ∃ rm, m payloadId = some rm ∧ UpToGrace batch r rm)
    (hcache : store.hasCache = true) :
    (s.put .cache payloadId entry).Represents store batch m Set.univ where
  closed := hs.closed
  auth payloadId' :=
    (hs.auth payloadId').congr (Backends.put_held_of_ne _ (by decide) _ _ _) rfl
  cache payloadId' _ r hr := by
    by_cases hid : payloadId' = payloadId
    · subst hid
      rw [put, Backends.put_held_self] at hr
      exact hentry r hr
    · rw [put, Backends.put_held_of_id_ne _ hid] at hr
      exact hs.cache payloadId' ⟨trivial, hid⟩ r hr
  noCache h := by
    rw [hcache] at h
    cases h

theorem mono {ids' : Set Text} (hs : s.Represents store batch m ids) (hids : ids' ⊆ ids) :
    s.Represents store batch m ids' where
  closed := hs.closed
  auth := hs.auth
  cache payloadId hid := hs.cache payloadId (hids hid)
  noCache := hs.noCache

end Represents

end FlakyBackends

/-! ### Operations over a cache that fails -/

namespace ResilientStore

open FlakyBackends

variable {α : Type} {store : ResilientStore} {batch : Bool} {s : FlakyBackends} {op : StoreOp}
  {h : List (Prog.Event BackendOp BackendOp.Answer)}
  {Q : List (Prog.Event BackendOp BackendOp.Answer) → α → FlakyBackends → Prop}

/-- What a program establishes over these backends, with reads of marked records only. -/
abbrev FlakyWp (batch : Bool)
    (Q : List (Prog.Event BackendOp BackendOp.Answer) → α → FlakyBackends → Prop)
    (h : List (Prog.Event BackendOp BackendOp.Answer)) (p : BackendProg α) (s : FlakyBackends) :
    Prop :=
  Prog.Wp ((flakyCache batch).restrict ReadsMarked) Q h p s

/-- A report to a breaker that keeps the circuit of the authority closed is calm. -/
private theorem calm_report {tier : Tier} {b : CircuitBreaker}
    (hb : tier = .auth → s.AuthClosed → b.failures < b.threshold) :
    s.Calm batch { s with breaker := Function.update s.breaker tier b } := by
  refine ⟨fun _ _ h => h.congr rfl rfl, fun _ _ => id, fun hclosed => ?_⟩
  cases tier with
  | auth =>
    simp only [AuthClosed, Function.update_self]
    exact hb rfl hclosed
  | cache =>
    simp only [AuthClosed, ne_eq, reduceCtorEq, not_false_eq_true, Function.update_of_ne]
    exact hclosed

/-- A call of the authority is made and answered. -/
private theorem wp_authCall_bind {f : Except StoreFault op.Result → BackendProg α}
    (hs : s.AuthClosed)
    (hok : ∀ h' s₁ a s₂ s₃, s.Calm batch s₁ → s₁.apply batch .auth op a s₂ →
      ReadsMarked (.backend .auth op) s₁ (.ok a) s₂ → s₂.Calm batch s₃ →
      h'.any cacheFault = h.any cacheFault → FlakyWp batch Q h' (f (.ok a)) s₃) :
    FlakyWp batch Q h ((store.authCall op).bind f) s := by
  rintro s₁ he₁ allowed s₂ ⟨⟨⟨now, hallowed⟩, rfl⟩, -⟩
  have hs₁ := calm_of_env he₁
  obtain rfl : allowed = true :=
    hallowed.trans (CircuitBreaker.allow_of_lt (hs₁.closed hs) now)
  rintro s₃ he₃ r s₄ ⟨⟨a, happly, rfl⟩ | ⟨htier, -⟩, hmarked⟩
  · rintro s₅ he₅ _ s₆ ⟨rfl, -⟩
    refine hok _ s₃ a s₄ _ (hs₁.trans (calm_of_env he₃)) happly hmarked
      ((calm_of_env he₅).trans (calm_report fun _ => CircuitBreaker.recordSuccess_lt)) ?_
    simp [List.any_append, cacheFault]
  · cases htier

/-- A call of the cache is answered, or it is skipped or fails. -/
private theorem wp_cacheCall_bind {f : Option op.Result → BackendProg α}
    (hskip : store.hasCache = false → FlakyWp batch Q h (f none) s)
    (hok : ∀ h' s₁ a s₂ s₃, store.hasCache = true → s.Calm batch s₁ →
      s₁.apply batch .cache op a s₂ → s₂.Calm batch s₃ →
      h'.any cacheFault = h.any cacheFault → FlakyWp batch Q h' (f (some a)) s₃)
    (hfault : ∀ h' s₁, s.Calm batch s₁ → h'.any cacheFault = true →
      FlakyWp batch Q h' (f none) s₁) :
    FlakyWp batch Q h ((store.cacheCall op).bind f) s := by
  unfold cacheCall
  cases hcache : store.hasCache with
  | false => exact hskip hcache
  | true =>
    rintro s₁ he₁ allowed s₂ ⟨⟨⟨now, hallowed⟩, rfl⟩, -⟩
    have hs₁ := calm_of_env he₁
    cases allowed with
    | false => exact hfault _ s₂ hs₁ (by simp [List.any_append, cacheFault])
    | true =>
      rintro s₃ he₃ r s₄ ⟨⟨a, happly, rfl⟩ | ⟨-, rfl, fault, rfl⟩, -⟩
      · rintro s₅ he₅ _ s₆ ⟨rfl, -⟩
        refine hok _ s₃ a s₄ _ hcache (hs₁.trans (calm_of_env he₃)) happly
          ((calm_of_env he₅).trans (calm_report fun h => by cases h)) ?_
        simp [List.any_append, cacheFault]
      · rintro s₅ he₅ _ s₆ ⟨⟨now, rfl⟩, -⟩
        refine hfault _ _ (hs₁.trans ((calm_of_env he₃).trans ((calm_of_env he₅).trans
          (calm_report fun h => by cases h)))) ?_
        simp [List.any_append, cacheFault]

/-- The operation returns, and a `get` returns what the map holds, up to grace. -/
def Answers (batch : Bool) (m : PlainStore) : (op : StoreOp) → Except StoreFault op.Result → Prop
  | .get payloadId, a => ∃ found, a = .ok found ∧ Option.Rel (UpToGrace batch) found (m payloadId)
  | _, a => ∃ r, a = .ok r

/-- A run of an operation that began in `s` refines its step of the map. -/
def Refines (store : ResilientStore) (batch : Bool) (m : PlainStore) (op : StoreOp)
    (s : FlakyBackends) (h : List (Prog.Event BackendOp BackendOp.Answer))
    (a : Except StoreFault op.Result) (s' : FlakyBackends) : Prop :=
  Answers batch m op a ∧ (CacheKept op s h → s'.Represents store batch (m.step op) Set.univ)

variable {m : PlainStore} {payloadId : Text} {record rm : MappingRecord} {ttl grace : ℚ}

/-- Writing to the cache what the map holds: a lost write leaves the entry as it was. -/
private theorem wp_writeCache {a : α} (rm : MappingRecord)
    (hs : s.Represents store batch m (Set.univ \ {payloadId}))
    (hrecord : m payloadId = some rm) (hgrace : UpToGrace batch record rm)
    (hok : ∀ h' s', s'.Represents store batch m Set.univ → Q h' a s')
    (hfault : ∀ h' s', s.Calm batch s' → store.hasCache = false ∨ h'.any cacheFault = true →
      Q h' a s') :
    FlakyWp batch Q h
      ((store.cacheCall (.update payloadId record ttl)).bind fun _ => .ret a) s := by
  refine wp_cacheCall_bind (fun hcache s' he => ?_)
    (fun h' s₁ _ s₂ s₃ hcache hs₁ happly hs₃ _ => ?_)
    fun h' s₁ hs₁ hfaulty s' he => ?_
  · exact hfault h s' (calm_of_env he) (.inl hcache)
  · obtain rfl := happly
    intro s' he
    have hwritten : (s₁.put .cache payloadId (some record)).Represents store batch m Set.univ :=
      (hs.calm hs₁).writeCache (fun r hr => by cases hr; exact ⟨rm, hrecord, hgrace⟩) hcache
    exact hok h' s' (hwritten.calm (hs₃.trans (calm_of_env he)))
  · exact hfault h' s' (hs₁.trans (calm_of_env he)) (.inr hfaulty)

private theorem wp_readThrough {backfill : Bool} (hs : s.Represents store batch m Set.univ) :
    FlakyWp batch (fun _ a s' => Answers batch m (.get payloadId) a ∧
      s'.Represents store batch m Set.univ) h (store.readThrough payloadId backfill) s := by
  refine wp_authCall_bind hs.closed fun h' s₁ a s₂ s₃ hs₁ happly hmarked hs₃ _ => ?_
  obtain ⟨rfl, rfl⟩ := happly
  have hs₃ := (hs.calm hs₁).calm hs₃
  have hauth := ((hs.calm hs₁).auth payloadId).upToGrace hmarked
  cases hheld : s₂.held .auth payloadId with
  | none =>
    rw [hheld] at hauth
    exact fun s' he => ⟨⟨none, rfl, hauth⟩, hs₃.calm (calm_of_env he)⟩
  | some r =>
    rw [hheld] at hauth
    have hanswer : Answers batch m (.get payloadId) (.ok (some r)) := ⟨some r, rfl, hauth⟩
    simp only [afterAuthGet]
    split_ifs
    · obtain ⟨rm, hrm⟩ : ∃ rm, m payloadId = some rm := by
        cases hm : m payloadId with
        | none =>
          rw [hm] at hauth
          cases hauth
        | some rm => exact ⟨rm, rfl⟩
      have hgrace : UpToGrace batch r rm := by
        rw [hrm] at hauth
        cases hauth with
        | some hgrace => exact hgrace
      exact wp_writeCache _ (hs₃.mono Set.sdiff_subset) hrm hgrace
        (fun _ _ hs' => ⟨hanswer, hs'⟩) fun _ _ hs' _ => ⟨hanswer, hs₃.calm hs'⟩
    · exact fun s' he => ⟨hanswer, hs₃.calm (calm_of_env he)⟩

private theorem wp_get (hs : s.Represents store batch m Set.univ) :
    FlakyWp batch (fun _ a s' => Answers batch m (.get payloadId) a ∧
      s'.Represents store batch m Set.univ) h (store.get payloadId) s := by
  refine wp_cacheCall_bind (fun _ => wp_readThrough hs)
    (fun h' s₁ a s₂ s₃ _ hs₁ happly hs₃ _ => ?_) fun h' s₁ hs₁ _ => wp_readThrough (hs.calm hs₁)
  obtain ⟨rfl, rfl⟩ := happly
  have hs₃ := (hs.calm hs₁).calm hs₃
  cases hheld : s₂.held .cache payloadId with
  | none => exact wp_readThrough hs₃
  | some r =>
    obtain ⟨rm, hrm, hgrace⟩ := (hs.calm hs₁).cache payloadId trivial r hheld
    refine fun s' he => ⟨⟨some r, rfl, ?_⟩, hs₃.calm (calm_of_env he)⟩
    rw [hrm]
    exact .some hgrace

private theorem wp_saveIfAbsent (hs : s.Represents store batch m Set.univ) :
    FlakyWp batch (store.Refines batch m (.saveIfAbsent payloadId record ttl) s) h
      (store.saveIfAbsent payloadId record ttl) s := by
  refine wp_authCall_bind hs.closed fun h' s₁ a s₂ s₃ hs₁ happly _ hs₃ _ => ?_
  have hs₁ := hs.calm hs₁
  have hauth : s₁.Follows batch payloadId (m payloadId) := hs₁.auth payloadId
  unfold Follows at hauth
  rcases happly with ⟨hnone, rfl, rfl⟩ | ⟨hsome, rfl, rfl⟩
  · have hm : m payloadId = none := by
      rw [hnone] at hauth
      cases hm : m payloadId with
      | none => rfl
      | some rm =>
        rw [hm] at hauth
        cases hauth
    have hwritten : s₃.Represents store batch
        (m.step (.saveIfAbsent payloadId record ttl)) (Set.univ \ {payloadId}) := by
      rw [PlainStore.step, if_pos hm]
      exact (hs₁.replaceAuth payloadId (some record)).calm hs₃
    -- the cache has no entry of an id that the authority does not have
    have hempty (r : MappingRecord) : s₃.held .cache payloadId ≠ some r := by
      intro hr
      have hr' : s₁.held .cache payloadId = some r := by
        have hr := hs₃.cache payloadId r hr
        rwa [show (s₁.replace .auth payloadId (some record)).held .cache payloadId = _ from
          Backends.put_held_of_ne _ (by decide) _ _ _] at hr
      obtain ⟨rm, hrm, -⟩ := hs₁.cache payloadId trivial r hr'
      rw [hrm] at hm
      cases hm
    refine wp_writeCache record.undated hwritten ?_ (.inl rfl)
      (fun _ _ hs' => ⟨⟨true, rfl⟩, fun _ => hs'⟩) fun _ s' hs' _ => ⟨⟨true, rfl⟩, fun _ => ?_⟩
    · rw [PlainStore.step, if_pos hm, Function.update_self]
    · exact (hwritten.calm hs').catchUp fun r hr =>
        absurd (hs'.cache payloadId r hr) (hempty r)
  · have hm : m payloadId ≠ none := by
      intro hm
      rw [hm] at hauth
      cases hheld : s₂.held .auth payloadId with
      | none => exact hsome hheld
      | some r =>
        rw [hheld] at hauth
        cases hauth
    refine fun s' he => ⟨⟨false, rfl⟩, fun _ => ?_⟩
    rw [PlainStore.step, if_neg hm]
    exact (hs₁.calm hs₃).calm (calm_of_env he)

/-- A write that was lost to the cache met no entry there. -/
private theorem entry_eq_none {s₀ : FlakyBackends} (hs₀ : s₀.Represents store batch m Set.univ)
    (hop : op.replaces? = some payloadId) (hkept : CacheKept op s₀ h)
    (hlost : store.hasCache = false ∨ h.any cacheFault = true) :
    s₀.held .cache payloadId = none := by
  rcases hlost with hcache | hfault
  · exact hs₀.noCache hcache payloadId
  · by_contra hne
    rw [hkept payloadId hop hne] at hfault
    cases hfault

private theorem wp_update (hs : s.Represents store batch m Set.univ) :
    FlakyWp batch (store.Refines batch m (.update payloadId record ttl) s) h
      (store.update payloadId record ttl) s := by
  refine wp_authCall_bind hs.closed fun h' s₁ a s₂ s₃ hs₁ happly _ hs₃ _ => ?_
  obtain rfl := happly
  have hwritten := ((hs.calm hs₁).replaceAuth payloadId (some record)).calm hs₃
  refine wp_writeCache _ hwritten (Function.update_self _ _ _) (.inl rfl)
    (fun _ _ hs' => ⟨⟨(), rfl⟩, fun _ => hs'⟩) fun h₄ s₄ hs₄ hlost => ⟨⟨(), rfl⟩, fun hkept => ?_⟩
  have hnone := entry_eq_none hs rfl hkept hlost
  refine (hwritten.calm hs₄).catchUp fun r hr => ?_
  have hr := (hs₃.trans hs₄).cache payloadId r hr
  rw [show (s₁.replace .auth payloadId (some record)).held .cache payloadId = _ from
    Backends.put_held_of_ne _ (by decide) _ _ _] at hr
  rw [hs₁.cache payloadId r hr] at hnone
  cases hnone

private theorem wp_delete (hs : s.Represents store batch m Set.univ) :
    FlakyWp batch (store.Refines batch m (.delete payloadId) s) h (store.delete payloadId) s := by
  -- the entry of the cache is gone, or the write to the cache was lost
  have hauth (h₁ : List (Prog.Event BackendOp BackendOp.Answer)) (s₁ : FlakyBackends)
      (hs₁ : s₁.Represents store batch m Set.univ)
      (hentry : s₁.held .cache payloadId = none ∨ s.Calm batch s₁ ∧
        (store.hasCache = false ∨ h₁.any cacheFault = true)) :
      FlakyWp batch (store.Refines batch m (.delete payloadId) s) h₁
        (store.authCall (.delete payloadId)) s₁ := by
    rw [← Prog.bind_ret_right (store.authCall (.delete payloadId))]
    refine wp_authCall_bind hs₁.closed fun h₂ s₂ a s₃ s₄ hs₂ happly _ hs₄ hfaults s' he => ?_
    obtain rfl := happly
    have hs' := hs₄.trans (calm_of_env he)
    have hwritten := ((hs₁.calm hs₂).replaceAuth payloadId none).calm hs'
    refine ⟨⟨(), rfl⟩, fun hkept => hwritten.catchUp fun r hr => ?_⟩
    have hr := hs'.cache payloadId r hr
    rw [show (s₂.replace .auth payloadId none).held .cache payloadId = _ from
      Backends.put_held_of_ne _ (by decide) _ _ _] at hr
    have hr := hs₂.cache payloadId r hr
    have hnone : s₁.held .cache payloadId = none := by
      rcases hentry with hnone | ⟨hcalm, hlost⟩
      · exact hnone
      · refine Option.eq_none_iff_forall_ne_some.mpr fun r hr => ?_
        rw [← hfaults] at hlost
        have hr := hcalm.cache payloadId r hr
        rw [entry_eq_none hs rfl hkept hlost] at hr
        cases hr
    rw [hnone] at hr
    cases hr
  refine wp_cacheCall_bind (fun hcache => hauth h s hs (.inr ⟨.refl s, .inl hcache⟩))
    (fun h₁ s₁ _ s₂ s₃ hcache hs₁ happly hs₃ _ => ?_)
    fun h₁ s₁ hs₁ hfault => hauth h₁ s₁ (hs.calm hs₁) (.inr ⟨hs₁, .inr hfault⟩)
  obtain rfl := happly
  have hdeleted : (s₁.put .cache payloadId none).Represents store batch m Set.univ :=
    ((hs.calm hs₁).mono Set.sdiff_subset).writeCache (fun r hr => by cases hr) hcache
  refine hauth h₁ s₃ (hdeleted.calm hs₃) (.inl ?_)
  refine Option.eq_none_iff_forall_ne_some.mpr fun r hr => ?_
  have hr := hs₃.cache payloadId r hr
  rw [show (s₁.replace .cache payloadId none).held .cache payloadId = none from
    Backends.put_held_self _ _ _ _] at hr
  cases hr

private theorem wp_markDemasked (hs : s.Represents store batch m Set.univ) :
    FlakyWp batch (store.Refines batch m (.markDemasked payloadId grace) s) h
      (store.markDemasked payloadId grace) s := by
  refine wp_authCall_bind hs.closed fun h₁ s₁ a s₂ s₃ hs₁ happly _ hs₃ _ => ?_
  obtain ⟨hmarked, hcache₂⟩ := (hs.calm hs₁).markAuth happly
  have hwritten := hmarked.calm hs₃
  have hcached (s' : FlakyBackends) (hs' : s₃.Calm batch s') (r : MappingRecord)
      (hr : s'.held .cache payloadId = some r) : s.held .cache payloadId = some r := by
    have hr := (hs₃.trans hs').cache payloadId r hr
    rw [hcache₂] at hr
    exact hs₁.cache payloadId r hr
  have hlost (h' : List (Prog.Event BackendOp BackendOp.Answer)) (s' : FlakyBackends)
      (hs' : s₃.Calm batch s') (hlost : store.hasCache = false ∨ h'.any cacheFault = true) :
      store.Refines batch m (.markDemasked payloadId grace) s h' (.ok ()) s' := by
    refine ⟨⟨(), rfl⟩, fun hkept => (hwritten.calm hs').catchUp fun r hr => ?_⟩
    have hnone := entry_eq_none hs rfl hkept hlost
    rw [hcached s' hs' r hr] at hnone
    cases hnone
  refine wp_cacheCall_bind (fun hcache s' he => hlost h₁ s' (calm_of_env he) (.inl hcache))
    (fun h₂ s₄ _ s₅ s₆ _ hs₄ happly hs₆ _ => ?_)
    fun h₂ s₄ hs₄ hfault s' he => hlost h₂ s' (hs₄.trans (calm_of_env he)) (.inr hfault)
  obtain ⟨rfl, rfl⟩ := happly
  cases hheld : s₅.held .cache payloadId with
  | none =>
    intro s' he
    refine ⟨⟨(), rfl⟩, fun _ => ?_⟩
    refine (hwritten.calm (hs₄.trans (hs₆.trans (calm_of_env he)))).catchUp fun r hr => ?_
    rw [(hs₆.trans (calm_of_env he)).cache payloadId r hr] at hheld
    cases hheld
  | some r =>
    rintro s₇ he₇ now' s₈ ⟨rfl, -⟩
    have hs₈ := hs₄.trans (hs₆.trans (calm_of_env he₇))
    obtain ⟨rm, hrm, hgrace⟩ := hs.cache payloadId trivial r (hcached s₅ hs₄ r hheld)
    refine wp_writeCache (rm.demasked 0).undated (hwritten.calm hs₈) ?_
      (hgrace.demasked now') (fun _ _ hs' => ⟨⟨(), rfl⟩, fun _ => hs'⟩)
      fun h' s' hs' => hlost h' s' (hs₈.trans hs')
    rw [PlainStore.step, Function.update_self, hrm]
    rfl

/-- **One operation refines one step of the plain map**, when it loses no write to a cache that
holds an entry of its id and reads only marked records from the authority. -/
theorem run_refines (hs : s.Represents store batch m Set.univ) :
    FlakyWp batch (store.Refines batch m op s) h (store.run op) s := by
  cases op with
  | get payloadId => exact (wp_get hs).mono fun _ _ _ hget => ⟨hget.1, fun _ => hget.2⟩
  | saveIfAbsent payloadId record ttl => exact wp_saveIfAbsent hs
  | update payloadId record ttl => exact wp_update hs
  | delete payloadId => exact wp_delete hs
  | markDemasked payloadId grace => exact wp_markDemasked hs

/-- A run keeps standing for the plain map. -/
theorem represents_of_run {s₀ : FlakyBackends} {ops : List StoreOp}
    (hs₀ : s₀.Represents store batch (fun _ => none) Set.univ)
    (hrun : SequentialRun store ((flakyCache batch).restrict ReadsMarked) CacheKept s₀ ops s) :
    s.Represents store batch (PlainStore.run ops) Set.univ := by
  induction hrun with
  | nil => exact hs₀
  | env _ he ih => exact ih.calm (Background.calm he)
  | snoc _ hop hkept ih =>
    rw [PlainStore.run, List.foldl_append]
    exact (hop.wp (run_refines ih)).2 hkept

/-- **Writing through a cache that fails.** After every sequential run of operations over a cache
that may fail at any call, in which no `update`, `mark_demasked` or `delete` loses a cache call
while the cache holds an entry of its id, and in which no record is read from the authority between
a `mark_demasked` and the flush of its transition, `get` returns what the plain map holds: the last
update, the record in the state `DEMASKED_GRACE` after the last transition, nothing after the last
deletion. Where transitions are batched, a transition that comes late may have moved the record to
grace. -/
theorem get_refines_plainStore (store : ResilientStore) {breaker : Tier → CircuitBreaker}
    (hclosed : (breaker .auth).failures < (breaker .auth).threshold) {ops : List StoreOp}
    (hrun : SequentialRun store ((flakyCache batch).restrict ReadsMarked) CacheKept
      (.empty breaker) ops s)
    {a : Except StoreFault (Option MappingRecord)} {s' : FlakyBackends}
    (hget : Prog.Exec ((flakyCache batch).restrict ReadsMarked) [] (store.get payloadId) s h a s') :
    ∃ found, a = .ok found ∧
      Option.Rel (UpToGrace batch) found (PlainStore.run ops payloadId) := by
  have hempty : (FlakyBackends.empty breaker).Represents store batch (fun _ => none) Set.univ :=
    ⟨hclosed, fun _ => .none, fun _ _ _ hr => (by cases hr), fun _ _ => rfl⟩
  exact (hget.wp (wp_get (represents_of_run hempty hrun))).1

/-! ### A write that the cache loses -/

private theorem flaky_respond (down : Bool) (e : BackendOp) (s : FlakyBackends) :
    (flakyCache true).handle e s (s.respond down e).1 (s.respond down e).2 := by
  cases e with
  | allow tier => exact ⟨⟨0, rfl⟩, rfl⟩
  | recordSuccess tier => rfl
  | recordFailure tier => exact ⟨0, rfl⟩
  | backend tier op =>
    simp only [FlakyBackends.respond]
    split_ifs with hdown
    · exact .inr ⟨hdown.1, rfl, _, rfl⟩
    · exact .inl ⟨_, s.apply_serve true tier op, rfl⟩
  | time => rfl

/-- The history, the answer and the state of an operation, with or without an outage of the
cache. -/
def attempt (down : Bool) (op : StoreOp) (s : FlakyBackends) :
    List (Prog.Event BackendOp BackendOp.Answer) × Except StoreFault op.Result × FlakyBackends :=
  Prog.simulate (fun e s => s.respond down e) [] (({} : ResilientStore).run op) s

private theorem exec_attempt (down : Bool) (op : StoreOp) (s : FlakyBackends) :
    Prog.Exec (flakyCache true) [] (({} : ResilientStore).run op) s (attempt down op s).1
      (attempt down op s).2.1 (attempt down op s).2.2 :=
  Prog.exec_simulate (flaky_respond down) [] _ s

/-- The state after the record of `p1` was saved. -/
def savedState : FlakyBackends :=
  (attempt false (.saveIfAbsent "p1".toList plainRecord 3600) (.empty fun _ => {})).2.2

/-- The operation returns during an outage of the cache, and a `get` after the outage returns the
record as it was saved before. -/
def LostWrite (op : StoreOp) : Prop :=
  SequentialRun {} (flakyCache true) (fun _ _ _ => True) (.empty fun _ => {})
      [.saveIfAbsent "p1".toList plainRecord 3600, op] (attempt true op savedState).2.2 ∧
    (∃ r, (attempt true op savedState).2.1 = .ok r) ∧
    PlainStore.run [.saveIfAbsent "p1".toList plainRecord 3600, op] "p1".toList ≠ some plainRecord ∧
    ∃ h s', Prog.Exec (flakyCache true) [] (({} : ResilientStore).get "p1".toList)
      (attempt true op savedState).2.2 h (.ok (some plainRecord)) s'

/-- The cache has evicted the record of `p1`, and its grace transition has been queued. -/
def unwrittenState : FlakyBackends :=
  (attempt false (.markDemasked "p1".toList 60) (savedState.put .cache "p1".toList none)).2.2

/-- An `update`, a `mark_demasked` and a `delete` are lost for reads during an outage of the
cache; and without any outage, a `mark_demasked` is lost for a read that comes to the authority
before the transition is written. -/
theorem get_after_lost_write :
    LostWrite (.update "p1".toList { plainRecord with createdAt := 1 } 3600) ∧
      LostWrite (.markDemasked "p1".toList 60) ∧ LostWrite (.delete "p1".toList) ∧
      SequentialRun {} (flakyCache true) CacheKept (.empty fun _ => {})
        [.saveIfAbsent "p1".toList plainRecord 3600, .markDemasked "p1".toList 60]
        unwrittenState ∧
      ∃ h s', Prog.Exec (flakyCache true) [] (({} : ResilientStore).get "p1".toList)
        unwrittenState h (.ok (some plainRecord)) s' := by
  have hread : ∀ op ∈ [StoreOp.update "p1".toList { plainRecord with createdAt := 1 } 3600,
      .markDemasked "p1".toList 60, .delete "p1".toList],
      (attempt true op savedState).2.1.isOk = true ∧
      PlainStore.run [.saveIfAbsent "p1".toList plainRecord 3600, op] "p1".toList ≠
        some plainRecord ∧
      (attempt false (.get "p1".toList) (attempt true op savedState).2.2).2.1 =
        .ok (some plainRecord) := by
    decide +kernel
  have hlost : ∀ op ∈ [StoreOp.update "p1".toList { plainRecord with createdAt := 1 } 3600,
      .markDemasked "p1".toList 60, .delete "p1".toList], LostWrite op := by
    intro op hop
    obtain ⟨hok, hplain, hget⟩ := hread op hop
    refine ⟨?_, ?_, hplain, _, _, hget ▸ exec_attempt false (.get "p1".toList) _⟩
    · exact .snoc (.snoc .nil (exec_attempt false _ _) trivial) (exec_attempt true op _) trivial
    · cases ha : (attempt true op savedState).2.1 with
      | error fault =>
        rw [ha] at hok
        cases hok
      | ok r => exact ⟨r, rfl⟩
  have hunwritten : SequentialRun {} (flakyCache true) CacheKept (.empty fun _ => {})
      [.saveIfAbsent "p1".toList plainRecord 3600, .markDemasked "p1".toList 60]
      unwrittenState := by
    refine .snoc (.env (.snoc .nil (exec_attempt false _ _) ?_) (.evict savedState "p1".toList))
      (exec_attempt false _ _) ?_
    · intro _ h
      cases h
    · intro _ _ _
      decide +kernel
  have hget : (attempt false (.get "p1".toList) unwrittenState).2.1 = .ok (some plainRecord) := by
    decide +kernel
  exact ⟨hlost _ (by simp), hlost _ (by simp), hlost _ (by simp), hunwritten, _, _,
    hget ▸ exec_attempt false (.get "p1".toList) _⟩

/-- The test whether a call keeps to reads of marked records. -/
def readsMarked : BackendOp → FlakyBackends → Bool
  | .backend .auth (.get payloadId), s =>
    (s.pending payloadId).isNone || (s.held .auth payloadId).all fun r => r.state = .demaskedGrace
  | _, _ => true

private theorem flaky_respond_readsMarked (e : BackendOp) (s : FlakyBackends)
    (hmarked : readsMarked e s = true) :
    ((flakyCache true).restrict ReadsMarked).handle e s (s.respond false e).1
      (s.respond false e).2 := by
  refine ⟨flaky_respond false e s, ?_⟩
  match e, hmarked with
  | .backend .auth (.get payloadId), hmarked =>
    intro hpending r hr
    simpa [readsMarked, hpending, hr] using hmarked
  | .backend .auth (.saveIfAbsent _ _ _), _ => trivial
  | .backend .auth (.update _ _ _), _ => trivial
  | .backend .auth (.delete _), _ => trivial
  | .backend .auth (.markDemasked _ _), _ => trivial
  | .backend .cache _, _ => trivial
  | .allow _, _ => trivial
  | .recordSuccess _, _ => trivial
  | .recordFailure _, _ => trivial
  | .time, _ => trivial

/-- The record of `p1` was saved, and its grace transition has been queued. -/
def unflushedState : FlakyBackends := (attempt false (.markDemasked "p1".toList 60) savedState).2.2

/-- The queued transition has been written, and then the cache has evicted the record. -/
def markedState : FlakyBackends :=
  ((unflushedState.queue "p1".toList none).put .auth "p1".toList
    ((unflushedState.held .auth "p1".toList).map (·.demasked 5))).put .cache "p1".toList none

/-- The case of a transition without an outage, read after it was written and the cache has evicted
the record. -/
theorem get_refines_plainStore_marked :
    SequentialRun {} ((flakyCache true).restrict ReadsMarked) CacheKept (.empty fun _ => {})
        [.saveIfAbsent "p1".toList plainRecord 3600, .markDemasked "p1".toList 60] markedState ∧
      ∃ h s', Prog.Exec ((flakyCache true).restrict ReadsMarked) []
          (({} : ResilientStore).get "p1".toList) markedState h
          (.ok (some (plainRecord.demasked 5))) s' ∧
        UpToGrace true (plainRecord.demasked 5) (plainRecord.demasked 0).undated := by
  have hsave := Prog.exec_of_checks flaky_respond_readsMarked []
    (({} : ResilientStore).run (.saveIfAbsent "p1".toList plainRecord 3600))
    (.empty fun _ => {}) (by decide +kernel)
  have hmark := Prog.exec_of_checks flaky_respond_readsMarked []
    (({} : ResilientStore).run (.markDemasked "p1".toList 60)) savedState (by decide +kernel)
  have hrun : SequentialRun {} ((flakyCache true).restrict ReadsMarked) CacheKept
      (.empty fun _ => {})
      [.saveIfAbsent "p1".toList plainRecord 3600, .markDemasked "p1".toList 60] markedState := by
    refine .env (.env (.snoc (.snoc .nil hsave ?_) hmark ?_)
      (.flush (s := unflushedState) rfl (by decide +kernel) 5)) (.evict _ "p1".toList)
    · intro _ h
      cases h
    · intro _ _ _
      decide +kernel
  have hget := Prog.exec_of_checks flaky_respond_readsMarked []
    (({} : ResilientStore).get "p1".toList) markedState (by decide +kernel)
  have hread : (Prog.simulate (fun e s => FlakyBackends.respond s false e) []
      (({} : ResilientStore).get "p1".toList) markedState).2.1 =
      .ok (some (plainRecord.demasked 5)) := by
    decide +kernel
  rw [hread] at hget
  obtain ⟨found, hfound, hplain⟩ := get_refines_plainStore {} (by decide) hrun hget
  obtain rfl := Except.ok.inj hfound
  refine ⟨hrun, _, _, hget, ?_⟩
  rw [show PlainStore.run _ _ = some (plainRecord.demasked 0).undated from rfl] at hplain
  cases hplain with
  | some hgrace => exact hgrace

end ResilientStore

end PiiProxy
