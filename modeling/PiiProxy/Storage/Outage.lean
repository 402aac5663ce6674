import PiiProxy.Storage.Backends
import PiiProxy.Storage.Collection

/-!
# The breaker of the authority during an outage

The resilient store over the Mongo repository, from a moment on from which every operation of the
collection raises. Requests run concurrently; time passes, the cache answers what it likes, and the
thread of the repository empties the batch of grace transitions without success. The breaker is told
about failures only, so its count does not decrease, provided that every `mark_demasked` that
reaches the repository touches the collection. It does so when it fills the batch. A
`mark_demasked` that only adds to the batch is reported as a success of the authority and closes its
circuit (`authority_failures_reset`).

## Main definitions

* `MongoRepository.perform`, `overMongo`: the repository as the authority of a resilient store.
* `Outage`, `outage`, `Outage.FillsBatch`.
* `FailsOnly`: a program that reports no success of the authority when that always raises.

## Main results

* `failsOnly_run`: every operation of the resilient store is such a program.
* `authority_failures_mono`: during an outage the failure count of the authority does not decrease.
-/

namespace PiiProxy

/-! ### The repository as an authority -/

/-- An exception of the repository, as the resilient store sees it. -/
def raisedByMongo {α β : Type} (f : α → β) : Except MongoError α → Except StoreFault β
  | .error _ => .error .other
  | .ok a => .ok (f a)

/-- The operations of a store on the repository. -/
def MongoRepository.perform (repo : MongoRepository) :
    (op : StoreOp) → MongoProg Unit (Except StoreFault op.Result)
  | .get payloadId => (get payloadId).bind fun r =>
    .ret (raisedByMongo (Option.map MongoDoc.record) r)
  | .saveIfAbsent payloadId record ttl => (saveIfAbsent () payloadId record ttl).bind fun r =>
    .ret (raisedByMongo id r)
  | .update payloadId record ttl => (update () payloadId record ttl).bind fun r =>
    .ret (raisedByMongo id r)
  | .delete payloadId => (delete payloadId).bind fun r => .ret (raisedByMongo id r)
  | .markDemasked payloadId grace => (repo.markDemasked payloadId grace 0).bind fun r =>
    .ret (raisedByMongo id r)

/-- The calls of the resilient store, and those of the repository below it. -/
abbrev StackOp : Type := BackendOp ⊕ MongoOp Unit

abbrev StackOp.Answer : StackOp → Type
  | .inl e => e.Answer
  | .inr e => e.Answer

/-- Calls of the authority are programs of the repository. -/
def overMongo (repo : MongoRepository) : (e : BackendOp) → Prog StackOp StackOp.Answer e.Answer
  | .backend .auth op => (repo.perform op).translate fun e => .call (.inr e) .ret
  | .backend .cache op => .call (.inl (.backend .cache op)) .ret
  | .allow tier => .call (.inl (.allow tier)) .ret
  | .recordSuccess tier => .call (.inl (.recordSuccess tier)) .ret
  | .recordFailure tier => .call (.inl (.recordFailure tier)) .ret
  | .time => .call (.inl .time) .ret

/-- `authoritative_degraded`. -/
def ResilientStore.authoritativeDegraded (authBreaker : CircuitBreaker) (now : ℚ) : Bool :=
  authBreaker.state now != .closed

/-! ### The outage -/

/-- The state during an outage: nothing can be known about the collection. -/
structure Outage where
  breaker : Tier → CircuitBreaker
  now : ℚ
  pending : List PendingGrace

namespace Outage

variable (s : Outage)

def setBreaker (tier : Tier) (b : CircuitBreaker) : Outage :=
  { s with breaker := Function.update s.breaker tier b }

/-- What a call answers and leaves. Every operation of the collection raises, and the cache answers
anything. -/
def Handles : (e : StackOp) → e.Answer → Outage → Prop
  | .inl (.allow tier), r, s' => r = (s.breaker tier).allow s.now ∧ s' = s
  | .inl (.recordSuccess tier), _, s' => s' = s.setBreaker tier (s.breaker tier).recordSuccess
  | .inl (.recordFailure tier), _, s' =>
    s' = s.setBreaker tier ((s.breaker tier).recordFailure s.now)
  | .inl (.backend _ _), _, s' => s' = s
  | .inl .time, _, s' => s' = s
  | .inr .utcnow, _, s' => s' = s
  | .inr .indexesDue, _, s' => s' = s
  | .inr (.enqueueGrace p), r, s' =>
    r = (enqueue p s.pending).length ∧ s' = { s with pending := enqueue p s.pending }
  | .inr .takePending, r, s' => r = s.pending ∧ s' = { s with pending := [] }
  | .inr .createIndex, r, s' => r = .error .other ∧ s' = s
  | .inr (.insertOne ..), r, s' => r = .error .other ∧ s' = s
  | .inr (.replaceExpired ..), r, s' => r = .error .other ∧ s' = s
  | .inr (.replaceOne ..), r, s' => r = .error .other ∧ s' = s
  | .inr (.findOne _), r, s' => r = .error .other ∧ s' = s
  | .inr (.deleteOne _), r, s' => r = .error .other ∧ s' = s
  | .inr (.updateOne _), r, s' => r = .error .other ∧ s' = s

/-- A grace transition that is added fills the batch, and a flush finds transitions in it. -/
def FillsBatch : StackOp → Prop
  | .inr (.enqueueGrace p) => MongoRepository.batchSize ≤ (enqueue p s.pending).length
  | .inr .takePending => s.pending ≠ []
  | _ => True

instance FillsBatch.decidable : (e : StackOp) → Decidable (s.FillsBatch e)
  | .inr (.enqueueGrace p) =>
    inferInstanceAs (Decidable (MongoRepository.batchSize ≤ (enqueue p s.pending).length))
  | .inr .takePending => inferInstanceAs (Decidable (s.pending ≠ []))
  | .inl _ | .inr .utcnow | .inr .indexesDue | .inr .createIndex | .inr (.insertOne ..)
  | .inr (.replaceExpired ..) | .inr (.replaceOne ..) | .inr (.findOne _) | .inr (.deleteOne _)
  | .inr (.updateOne _) => .isTrue trivial

end Outage

/-- The resilient store and its repository during an outage. -/
def outage : Sys Outage StackOp StackOp.Answer where
  handle e s r s' := s.Handles e r s'
  env s s' := (∃ t, s.now ≤ t ∧ s' = { s with now := t }) ∨ s' = { s with pending := [] }

/-! ### The repository raises -/

/-- The answers of the repository's operations during an outage in which batches are filled. -/
def MongoOp.Down {τ : Type} : (e : MongoOp τ) → e.Answer → Prop
  | .utcnow, _ => True
  | .indexesDue, _ => True
  | .enqueueGrace _, size => MongoRepository.batchSize ≤ size
  | .takePending, pending => pending ≠ []
  | .createIndex, r => r = .error .other
  | .insertOne .., r => r = .error .other
  | .replaceExpired .., r => r = .error .other
  | .replaceOne .., r => r = .error .other
  | .findOne _, r => r = .error .other
  | .deleteOne _, r => r = .error .other
  | .updateOne _, r => r = .error .other

/-- With such answers the program can only end with `Q`. -/
def WhenDown {τ α : Type} (Q : α → Prop) : MongoProg τ α → Prop
  | .ret a => Q a
  | .call e k => ∀ r, e.Down r → WhenDown Q (k r)

namespace WhenDown

variable {τ α β : Type}

theorem bind {Q : β → Prop} {p : MongoProg τ α} {f : α → MongoProg τ β}
    (hp : WhenDown (fun a => WhenDown Q (f a)) p) : WhenDown Q (p.bind f) := by
  induction p with
  | ret a => exact hp
  | call e k ih => exact fun r hr => ih r (hp r hr)

theorem mono {Q Q' : α → Prop} {p : MongoProg τ α} (hQ : ∀ a, Q a → Q' a) (hp : WhenDown Q p) :
    WhenDown Q' p := by
  induction p with
  | ret a => exact hQ a hp
  | call e k ih => exact fun r hr => ih r (hp r hr)

end WhenDown

/-- The result is an exception. -/
def Raised {ε α : Type} (r : Except ε α) : Prop := ∃ e, r = .error e

namespace MongoRepository

variable {τ : Type} {payloadId : Text} {record : MappingRecord} {ttl grace : ℚ} {gen : ℕ}

theorem whenDown_graceUpdate (p : PendingGrace) :
    WhenDown (fun _ => True) (graceUpdate p : MongoProg τ GraceWrite) :=
  fun _ _ _ _ => trivial

theorem whenDown_graceUpdates (ps : List PendingGrace) :
    WhenDown (fun writes => writes.length = ps.length)
      (graceUpdates ps : MongoProg τ (List GraceWrite)) := by
  induction ps with
  | nil => rfl
  | cons p ps ih =>
    refine WhenDown.bind ((whenDown_graceUpdate p).mono fun _ _ => WhenDown.bind ?_)
    exact ih.mono fun writes hlength => congrArg (· + 1) hlength

/-- A bulk write that has something to write raises. -/
theorem whenDown_bulkWrite (write : GraceWrite) (writes : List GraceWrite) :
    WhenDown Raised (bulkWrite (write :: writes) : MongoProg τ (Except MongoError Unit)) := by
  intro r hr
  obtain rfl : r = .error .other := hr
  have htotal : WhenDown (fun _ => True) (bulkWrite writes : MongoProg τ _) := by
    induction writes with
    | nil => trivial
    | cons write writes ih => exact fun r _ => WhenDown.bind (ih.mono fun _ _ => trivial)
  exact WhenDown.bind (htotal.mono fun _ _ => ⟨_, rfl⟩)

theorem whenDown_flushGraceNow :
    WhenDown Raised (flushGraceNow : MongoProg τ (Except MongoError ℕ)) := by
  intro pending hpending
  match pending, hpending with
  | p :: ps, _ =>
    refine WhenDown.bind ((whenDown_graceUpdates (p :: ps)).mono fun writes hlength => ?_)
    obtain ⟨write, rest, rfl⟩ := List.exists_cons_of_length_eq_add_one hlength
    refine WhenDown.bind ((whenDown_bulkWrite write rest).mono ?_)
    rintro _ ⟨e, rfl⟩
    exact ⟨e, rfl⟩

theorem whenDown_markDemasked (repo : MongoRepository) :
    WhenDown Raised (repo.markDemasked payloadId grace gen : MongoProg τ
      (Except MongoError Unit)) := by
  unfold markDemasked
  split
  · intro size hsize
    have hfull : batchSize ≤ size := hsize
    show WhenDown Raised (if batchSize ≤ size then _ else _)
    rw [if_pos hfull]
    refine WhenDown.bind (whenDown_flushGraceNow.mono ?_)
    rintro _ ⟨e, rfl⟩
    exact ⟨e, rfl⟩
  · refine WhenDown.bind ((whenDown_graceUpdate _).mono fun write _ => ?_)
    exact fun r hr => ⟨_, hr⟩

theorem whenDown_saveIfAbsent (owner : τ) :
    WhenDown Raised (saveIfAbsent owner payloadId record ttl) := by
  have hindexes : WhenDown (fun _ => True) (ensureIndexesLazy : MongoProg τ Unit) := by
    intro due _
    match due with
    | true => exact fun _ _ => trivial
    | false => trivial
  refine WhenDown.bind (hindexes.mono fun _ _ => ?_)
  intro now _ r hr
  obtain rfl : r = .error .other := hr
  exact ⟨_, rfl⟩

/-- **Every operation raises** on a repository whose collection is down, if a grace transition fills
the batch. -/
theorem whenDown_perform (repo : MongoRepository) (op : StoreOp) :
    WhenDown Raised (repo.perform op) := by
  have hraised {α β : Type} (f : α → β) (r : Except MongoError α) (hr : Raised r) :
      Raised (raisedByMongo f r) := by
    obtain ⟨e, rfl⟩ := hr
    exact ⟨_, rfl⟩
  cases op with
  | get payloadId =>
    refine WhenDown.bind (WhenDown.mono (fun r hr => hraised _ r hr) ?_)
    intro r hr
    obtain rfl : r = .error .other := hr
    exact ⟨_, rfl⟩
  | saveIfAbsent payloadId record ttl =>
    exact WhenDown.bind ((whenDown_saveIfAbsent ()).mono fun r hr => hraised _ r hr)
  | update payloadId record ttl => exact fun _ _ r hr => hraised id r ⟨_, hr⟩
  | delete payloadId => exact fun r hr => hraised id r ⟨_, hr⟩
  | markDemasked payloadId grace =>
    exact WhenDown.bind ((whenDown_markDemasked repo).mono fun r hr => hraised _ r hr)

end MongoRepository

/-! ### The resilient store reports failures only -/

/-- When every call of the authority raises, the program reports no success of the authority. -/
def FailsOnly {α : Type} : BackendProg α → Prop
  | .ret _ => True
  | .call (.backend .auth _) k => ∀ fault, FailsOnly (k (.error fault))
  | .call (.recordSuccess .auth) _ => False
  | .call (.recordSuccess .cache) k => ∀ r, FailsOnly (k r)
  | .call (.backend .cache _) k => ∀ r, FailsOnly (k r)
  | .call (.allow _) k => ∀ r, FailsOnly (k r)
  | .call (.recordFailure _) k => ∀ r, FailsOnly (k r)
  | .call .time k => ∀ r, FailsOnly (k r)

namespace FailsOnly

variable {α β : Type}

theorem bind {p : BackendProg α} {f : α → BackendProg β} (hp : FailsOnly p)
    (hf : ∀ a, FailsOnly (f a)) : FailsOnly (p.bind f) := by
  induction p with
  | ret a => exact hf a
  | call e k ih =>
    match e with
    | .backend .auth _ => exact fun fault => ih _ (hp fault)
    | .recordSuccess .auth => exact hp.elim
    | .recordSuccess .cache => exact fun r => ih r (hp r)
    | .backend .cache _ => exact fun r => ih r (hp r)
    | .allow _ => exact fun r => ih r (hp r)
    | .recordFailure _ => exact fun r => ih r (hp r)
    | .time => exact fun r => ih r (hp r)

end FailsOnly

namespace ResilientStore

variable (store : ResilientStore)

theorem failsOnly_authCall (op : StoreOp) : FailsOnly (store.authCall op) := by
  intro allowed
  match allowed with
  | false => trivial
  | true => exact fun _ _ => trivial

theorem failsOnly_cacheCall (op : StoreOp) : FailsOnly (store.cacheCall op) := by
  unfold cacheCall
  split
  · trivial
  · intro allowed
    match allowed with
    | false => trivial
    | true =>
      intro r
      match r with
      | .error _ => exact fun _ => trivial
      | .ok _ => exact fun _ => trivial

theorem failsOnly_readThrough (payloadId : Text) (backfill : Bool) :
    FailsOnly (store.readThrough payloadId backfill) := by
  refine (store.failsOnly_authCall _).bind fun r => ?_
  match r with
  | .error _ => trivial
  | .ok none => trivial
  | .ok (some record) =>
    match backfill with
    | true => exact (store.failsOnly_cacheCall _).bind fun _ => trivial
    | false => trivial

theorem failsOnly_markDemasked (payloadId : Text) (grace : ℚ) :
    FailsOnly (store.markDemasked payloadId grace) := by
  refine (store.failsOnly_authCall _).bind fun _ => (store.failsOnly_cacheCall _).bind fun r => ?_
  match r with
  | none => trivial
  | some none => trivial
  | some (some cached) => exact fun now => (store.failsOnly_cacheCall _).bind fun _ => trivial

/-- **Only failures are reported** by the operations of the resilient store when every call of the
authority raises. -/
theorem failsOnly_run (op : StoreOp) : FailsOnly (store.run op) := by
  cases op with
  | get payloadId =>
    refine (store.failsOnly_cacheCall _).bind fun r => ?_
    match r with
    | some (some cached) => trivial
    | some none => exact store.failsOnly_readThrough payloadId true
    | none => exact store.failsOnly_readThrough payloadId false
  | saveIfAbsent payloadId record ttl =>
    refine (store.failsOnly_authCall _).bind fun r => ?_
    match r with
    | .error _ => trivial
    | .ok false => trivial
    | .ok true => exact (store.failsOnly_cacheCall _).bind fun _ => trivial
  | update payloadId record ttl =>
    refine (store.failsOnly_authCall _).bind fun r => ?_
    match r with
    | .error _ => trivial
    | .ok _ => exact (store.failsOnly_cacheCall _).bind fun _ => trivial
  | delete payloadId =>
    exact (store.failsOnly_cacheCall _).bind fun _ => store.failsOnly_authCall _
  | markDemasked payloadId grace => exact store.failsOnly_markDemasked payloadId grace

end ResilientStore

/-! ### Every interleaving -/

namespace Outage

variable {s s' s₁ s₂ s₃ : Outage}

/-- The failure count of the authority does not decrease. -/
structure Worsens (s s' : Outage) : Prop where
  threshold : (s'.breaker .auth).threshold = (s.breaker .auth).threshold
  failures : (s.breaker .auth).failures ≤ (s'.breaker .auth).failures

theorem Worsens.refl (s : Outage) : s.Worsens s := ⟨rfl, le_rfl⟩

theorem Worsens.trans (h₁ : s₁.Worsens s₂) (h₂ : s₂.Worsens s₃) : s₁.Worsens s₃ :=
  ⟨h₂.threshold.trans h₁.threshold, h₁.failures.trans h₂.failures⟩

/-- The outage in which batches are filled. -/
def filling : Sys Outage StackOp StackOp.Answer := outage.restrict fun e s _ _ => s.FillsBatch e

theorem filling_law : Prog.Law filling (fun _ => True) Worsens where
  refl := .refl
  trans := .trans
  env _ he := by
    rcases he with ⟨t, -, rfl⟩ | rfl
    · exact ⟨trivial, rfl, le_rfl⟩
    · exact ⟨trivial, rfl, le_rfl⟩

/-- An operation of the repository touches no breaker, and its answer is one of an outage. -/
theorem worsens_inr {e : MongoOp Unit} {r : e.Answer} (h : filling.handle (.inr e) s r s') :
    s.Worsens s' ∧ e.Down r := by
  obtain ⟨h, hfills⟩ := h
  cases e with
  | utcnow => exact ⟨(show s' = s from h) ▸ .refl s, trivial⟩
  | indexesDue => exact ⟨(show s' = s from h) ▸ .refl s, trivial⟩
  | enqueueGrace p =>
    obtain ⟨rfl, rfl⟩ := h
    exact ⟨⟨rfl, le_rfl⟩, hfills⟩
  | takePending =>
    obtain ⟨rfl, rfl⟩ := h
    exact ⟨⟨rfl, le_rfl⟩, hfills⟩
  | createIndex | insertOne | replaceExpired | replaceOne | findOne | deleteOne | updateOne =>
    exact ⟨h.2 ▸ .refl s, h.1⟩

theorem safe_mongo {α : Type} {Q : α → Prop} {p : MongoProg Unit α} (hp : WhenDown Q p)
    {h : List (Prog.Event StackOp StackOp.Answer)} :
    Prog.Safe filling (fun _ => True) Worsens (fun _ a _ => Q a) h
      (p.translate fun e => .call (.inr e) .ret) s := by
  induction p generalizing h s with
  | ret a => exact fun _ _ _ => hp
  | call e k ih =>
    intro s₁ _ _ r s₂ hr
    obtain ⟨hworsens, hdown⟩ := worsens_inr hr
    exact ⟨trivial, hworsens, ih r (hp r hdown)⟩

theorem worsens_setBreaker_cache (b : CircuitBreaker) : s.Worsens (s.setBreaker .cache b) :=
  ⟨by simp [setBreaker], by simp [setBreaker]⟩

theorem worsens_recordFailure (tier : Tier) :
    s.Worsens (s.setBreaker tier ((s.breaker tier).recordFailure s.now)) := by
  cases tier with
  | auth => exact ⟨by simp [setBreaker, CircuitBreaker.recordFailure],
      by simp [setBreaker, CircuitBreaker.recordFailure]⟩
  | cache => exact worsens_setBreaker_cache _

/-- A program that reports no success of an authority that raises. -/
theorem safe_failsOnly {α : Type} (repo : MongoRepository) {p : BackendProg α} (hp : FailsOnly p)
    {h : List (Prog.Event StackOp StackOp.Answer)} :
    Prog.Safe filling (fun _ => True) Worsens (fun _ _ _ => True) h (p.translate (overMongo repo))
      s := by
  induction p generalizing h s with
  | ret a => exact fun _ _ _ => trivial
  | call e k ih =>
    match e with
    | .backend .auth op =>
      refine Prog.Safe.bind filling_law trivial
        ((safe_mongo (repo.whenDown_perform op)).mono fun h₁ r s₁ _ hr => ?_)
      obtain ⟨fault, rfl⟩ := hr
      exact ih _ (hp fault)
    | .recordSuccess .auth => exact hp.elim
    | .recordSuccess .cache =>
      rintro s₁ - - r _ ⟨rfl, -⟩
      exact ⟨trivial, worsens_setBreaker_cache _, ih r (hp r)⟩
    | .recordFailure tier =>
      rintro s₁ - - r _ ⟨rfl, -⟩
      exact ⟨trivial, worsens_recordFailure tier, ih r (hp r)⟩
    | .backend .cache op =>
      rintro s₁ - - r s₂ ⟨heq, -⟩
      exact ⟨trivial, (show s₂ = s₁ from heq) ▸ .refl s₁, ih r (hp r)⟩
    | .allow tier =>
      rintro s₁ - - r s₂ ⟨⟨-, heq⟩, -⟩
      exact ⟨trivial, (show s₂ = s₁ from heq) ▸ .refl s₁, ih r (hp r)⟩
    | .time =>
      rintro s₁ - - r s₂ ⟨heq, -⟩
      exact ⟨trivial, (show s₂ = s₁ from heq) ▸ .refl s₁, ih r (hp r)⟩

end Outage

/-- Concurrent calls of the resilient store over the repository. -/
def storeCalls {ι : Type} (store : ResilientStore) (repo : MongoRepository) (ops : ι → StoreOp)
    (i : ι) : Prog.Thread StackOp StackOp.Answer Unit :=
  Prog.start (((store.run (ops i)).bind fun _ => .ret ()).translate (overMongo repo))

/-- **The breaker reflects the outage.** Concurrent calls during an outage, from any state of the
breakers and of the batch: if every grace transition that reaches the repository fills its batch,
then the failure count of the authority does not decrease, and once it has reached the threshold the
circuit of the authority is not closed again. -/
theorem authority_failures_mono {ι : Type} [DecidableEq ι] (store : ResilientStore)
    (repo : MongoRepository) (ops : ι → StoreOp) (s₀ : Outage)
    {c₁ c₂ : Outage × (ι → Prog.Thread StackOp StackOp.Answer Unit)}
    (h₁ : Prog.Steps (outage.restrict fun e s _ _ => s.FillsBatch e)
      (s₀, storeCalls store repo ops) c₁)
    (h₂ : Prog.Steps (outage.restrict fun e s _ _ => s.FillsBatch e) c₁ c₂) :
    (c₁.1.breaker .auth).failures ≤ (c₂.1.breaker .auth).failures ∧
      ((c₁.1.breaker .auth).threshold ≤ (c₁.1.breaker .auth).failures →
        ∀ now, (c₂.1.breaker .auth).state now ≠ .closed ∧
          ResilientStore.authoritativeDegraded (c₂.1.breaker .auth) now = true) := by
  have hfails (i : ι) : FailsOnly ((store.run (ops i)).bind fun _ => .ret ()) :=
    (store.failsOnly_run (ops i)).bind fun _ => trivial
  have hsafe (i : ι) : Prog.Safe Outage.filling (fun _ => True) Outage.Worsens
      (fun _ _ _ => True) [] (storeCalls store repo ops i).prog s₀ :=
    Outage.safe_failsOnly repo (hfails i)
  obtain ⟨-, -, hsafe₁⟩ := h₁.safe Outage.filling_law trivial hsafe
  obtain ⟨-, hworsens, -⟩ := h₂.safe Outage.filling_law trivial hsafe₁
  refine ⟨hworsens.failures, fun hthreshold now => ?_⟩
  have hopen : ¬ (c₂.1.breaker .auth).failures < (c₂.1.breaker .auth).threshold := by
    rw [hworsens.threshold]
    exact not_lt.mpr (hthreshold.trans hworsens.failures)
  have hstate : (c₂.1.breaker .auth).state now ≠ .closed := by
    rw [CircuitBreaker.state, if_neg hopen]
    split <;> decide
  exact ⟨hstate, bne_iff_ne.mpr hstate⟩

/-- Three reads that miss the cache, a read that the cache answers, and the grace transition of its
record. -/
def outageOps : Fin 5 → StoreOp
  | 0 => .get "q".toList
  | 1 => .get "q".toList
  | 2 => .get "q".toList
  | 3 => .get "p".toList
  | 4 => .markDemasked "p".toList 60

/-- Fresh breakers and an empty batch. -/
def outageBegins : Outage := ⟨fun _ => {}, 0, []⟩

/-- A cache that holds the record of one id. -/
def cacheOfP : (op : StoreOp) → op.Result
  | .get payloadId => if payloadId = "p".toList then some plainRecord else none
  | .saveIfAbsent .. => true
  | .update .. => ()
  | .delete _ => ()
  | .markDemasked .. => ()

/-- The answers during the outage with this cache. -/
def Outage.respond : (e : StackOp) → Outage → e.Answer × Outage
  | .inl (.allow tier), s => ((s.breaker tier).allow s.now, s)
  | .inl (.recordSuccess tier), s => ((), s.setBreaker tier (s.breaker tier).recordSuccess)
  | .inl (.recordFailure tier), s => ((), s.setBreaker tier ((s.breaker tier).recordFailure s.now))
  | .inl (.backend _ op), s => (.ok (cacheOfP op), s)
  | .inl .time, s => (s.now, s)
  | .inr .utcnow, s => (s.now, s)
  | .inr .indexesDue, s => (false, s)
  | .inr (.enqueueGrace p), s =>
    ((enqueue p s.pending).length, { s with pending := enqueue p s.pending })
  | .inr .takePending, s => (s.pending, { s with pending := [] })
  | .inr .createIndex, s => (.error .other, s)
  | .inr (.insertOne ..), s => (.error .other, s)
  | .inr (.replaceExpired ..), s => (.error .other, s)
  | .inr (.replaceOne ..), s => (.error .other, s)
  | .inr (.findOne _), s => (.error .other, s)
  | .inr (.deleteOne _), s => (.error .other, s)
  | .inr (.updateOne _), s => (.error .other, s)

theorem Outage.handle_respond (e : StackOp) (s : Outage) :
    outage.handle e s (Outage.respond e s).1 (Outage.respond e s).2 := by
  match e with
  | .inl (.allow tier) => exact ⟨rfl, rfl⟩
  | .inl (.recordSuccess tier) => rfl
  | .inl (.recordFailure tier) => rfl
  | .inl (.backend _ op) => rfl
  | .inl .time => rfl
  | .inr .utcnow => rfl
  | .inr .indexesDue => rfl
  | .inr (.enqueueGrace p) => exact ⟨rfl, rfl⟩
  | .inr .takePending => exact ⟨rfl, rfl⟩
  | .inr .createIndex => exact ⟨rfl, rfl⟩
  | .inr (.insertOne ..) => exact ⟨rfl, rfl⟩
  | .inr (.replaceExpired ..) => exact ⟨rfl, rfl⟩
  | .inr (.replaceOne ..) => exact ⟨rfl, rfl⟩
  | .inr (.findOne _) => exact ⟨rfl, rfl⟩
  | .inr (.deleteOne _) => exact ⟨rfl, rfl⟩
  | .inr (.updateOne _) => exact ⟨rfl, rfl⟩

private theorem handle_fillsBatch (e : StackOp) (s : Outage) (h : decide (s.FillsBatch e) = true) :
    (outage.restrict fun e s _ _ => s.FillsBatch e).handle e s (Outage.respond e s).1
      (Outage.respond e s).2 :=
  ⟨Outage.handle_respond e s, of_decide_eq_true h⟩

/-- The three reads open the circuit, and the read that the cache answers leaves it so. -/
theorem authority_failures_mono_reads :
    ∃ c, Prog.Steps (outage.restrict fun e s _ _ => s.FillsBatch e)
        (outageBegins, storeCalls {} {} outageOps) c ∧
      ResilientStore.authoritativeDegraded (c.1.breaker .auth) 100 = true := by
  let c₁ := Prog.advances Outage.respond
    (List.replicate 6 0 ++ List.replicate 6 1 ++ List.replicate 6 2)
    (outageBegins, storeCalls {} {} outageOps)
  let c₂ := Prog.advances Outage.respond (List.replicate 3 3) c₁
  have hopen : (c₁.1.breaker .auth).threshold ≤ (c₁.1.breaker .auth).failures := by
    decide +kernel
  have h₁ : Prog.Steps (outage.restrict fun e s _ _ => s.FillsBatch e)
      (outageBegins, storeCalls {} {} outageOps) c₁ :=
    Prog.steps_of_checks handle_fillsBatch _ _ (by decide +kernel)
  have h₂ : Prog.Steps (outage.restrict fun e s _ _ => s.FillsBatch e) c₁ c₂ :=
    Prog.steps_of_checks handle_fillsBatch _ _ (by decide +kernel)
  exact ⟨c₂, h₁.trans h₂,
    ((authority_failures_mono {} {} outageOps outageBegins h₁ h₂).2 hopen 100).2⟩

/-- **The circuit closes during the outage.** Three reads have opened the circuit. After the
cooldown a record is read from the cache and its grace transition is added to the batch: the
authority has not been touched, and its circuit is closed. -/
theorem authority_failures_reset :
    ∃ c₁ c₂, Prog.Steps outage (outageBegins, storeCalls {} {} outageOps) c₁ ∧
      Prog.Steps outage c₁ c₂ ∧ (c₁.1.breaker .auth).failures = 3 ∧
      (c₂.1.breaker .auth).failures = 0 ∧ (c₂.1.breaker .auth).state c₂.1.now = .closed := by
  let c₁ := Prog.advances Outage.respond
    (List.replicate 6 0 ++ List.replicate 6 1 ++ List.replicate 6 2)
    (outageBegins, storeCalls {} {} outageOps)
  let c₂ := ({ c₁.1 with now := 10 }, c₁.2)
  let c₃ := Prog.advances Outage.respond (List.replicate 3 3 ++ List.replicate 3 4) c₂
  have h₁ : Prog.Steps outage (outageBegins, storeCalls {} {} outageOps) c₁ :=
    Prog.steps_advances Outage.handle_respond _ _
  have h₂ : Prog.Step outage c₁ c₂ := .env (.inl ⟨10, by decide +kernel, rfl⟩)
  have h₃ : Prog.Steps outage c₂ c₃ := Prog.steps_advances Outage.handle_respond _ _
  exact ⟨c₁, c₃, h₁, (Relation.ReflTransGen.single h₂).trans h₃, by decide +kernel,
    by decide +kernel, by decide +kernel⟩

end PiiProxy
