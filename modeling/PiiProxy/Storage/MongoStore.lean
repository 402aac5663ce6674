import PiiProxy.Core.ProcessService

/-!
# The Mongo repository and the Redis store

`MongoMappingRepository` of `app/storage/mongo_store.py` as programs over the operations of its
collection, of its batch of pending grace transitions and of the clock, and `RedisMappingStore` of
`app/storage/redis_store.py` with the `mark_demasked` that it inherits from `MappingStore`
(`app/core/interfaces.py`) as programs over single Redis commands.

Documents carry two ghosts that no program looks at: the generation of the record, which the
collection counts, and with each write the call it is made for. The throttle of the index creation
is left to the environment, as index creation touches no document.

## Main definitions

* `MongoDoc`, `GraceWrite`, `MongoOp`: documents, grace transitions, the operations.
* `MongoRepository.saveIfAbsent`, `MongoRepository.get`, `MongoRepository.update`,
  `MongoRepository.delete`, `MongoRepository.markDemasked`, `MongoRepository.flushGraceNow`.
* `RedisOp`, `RedisStore.saveIfAbsent`, `RedisStore.get`, `RedisStore.markDemasked`.
-/

namespace PiiProxy

/-! ### The operations of a collection -/

/-- A document of the collection, with the generation of its record. -/
structure MongoDoc where
  record : MappingRecord
  expiresAt : ℚ
  gen : ℕ
  deriving DecidableEq

/-- The `$set` of `_grace_update` for a payload id, with the generation of the record that the
transition was requested for. -/
structure GraceWrite where
  payloadId : Text
  demaskedAt : ℚ
  expiresAt : ℚ
  gen : ℕ

/-- A pending grace transition. -/
structure PendingGrace where
  payloadId : Text
  grace : ℚ
  gen : ℕ
  deriving DecidableEq

/-- What an operation of the collection may raise. -/
inductive MongoError where
  | duplicateKey
  | other
  deriving DecidableEq, Repr

/-- The operations of the repository. Writes carry the call `owner` that makes them. -/
inductive MongoOp (τ : Type) where
  /-- `_utcnow()` or `time.time()`. -/
  | utcnow
  /-- The indexes are not ready, and the last attempt was a minute ago. -/
  | indexesDue
  | createIndex
  | insertOne (owner : τ) (payloadId : Text) (record : MappingRecord) (expiresAt : ℚ)
  /-- `replace_one` of a document that expires at `cutoff` or earlier. -/
  | replaceExpired (owner : τ) (payloadId : Text) (cutoff : ℚ) (record : MappingRecord)
      (expiresAt : ℚ)
  /-- `replace_one` with `upsert`. -/
  | replaceOne (owner : τ) (payloadId : Text) (record : MappingRecord) (expiresAt : ℚ)
  | findOne (payloadId : Text)
  | deleteOne (payloadId : Text)
  | updateOne (write : GraceWrite)
  /-- Add to the batch and tell its size, under the lock. -/
  | enqueueGrace (pending : PendingGrace)
  /-- Empty the batch, under the lock. -/
  | takePending

/-- The type of the answers to an operation. -/
abbrev MongoOp.Answer {τ : Type} : MongoOp τ → Type
  | .utcnow => ℚ
  | .indexesDue => Bool
  | .createIndex => Except MongoError Unit
  | .insertOne .. => Except MongoError Unit
  | .replaceExpired .. => Except MongoError Bool
  | .replaceOne .. => Except MongoError Unit
  | .findOne _ => Except MongoError (Option MongoDoc)
  | .deleteOne _ => Except MongoError Unit
  | .updateOne _ => Except MongoError Unit
  | .enqueueGrace _ => ℕ
  | .takePending => List PendingGrace

/-- Programs over a collection. -/
abbrev MongoProg (τ : Type) : Type → Type := Prog (MongoOp τ) MongoOp.Answer

/-! ### The repository -/

structure MongoRepository where
  batchGrace : Bool := true

namespace MongoRepository

variable {τ : Type} (repo : MongoRepository)

/-- `_ensure_indexes_lazy`: a failure is put off. -/
def ensureIndexesLazy : MongoProg τ Unit :=
  .call .indexesDue fun due => if due then .call .createIndex fun _ => .ret () else .ret ()

/-- `save_if_absent` after a duplicate key: claim the document if it has expired. -/
def claimExpired (owner : τ) (payloadId : Text) (record : MappingRecord) (expiresAt : ℚ) :
    MongoProg τ (Except MongoError Bool) :=
  .call .utcnow fun cutoff =>
    .call (.replaceExpired owner payloadId cutoff record expiresAt) fun r => .ret r

/-- `save_if_absent`. -/
def saveIfAbsent (owner : τ) (payloadId : Text) (record : MappingRecord) (ttl : ℚ) :
    MongoProg τ (Except MongoError Bool) :=
  ensureIndexesLazy.bind fun _ => .call .utcnow fun now =>
    .call (.insertOne owner payloadId record (now + ttl)) fun
      | .ok () => .ret (.ok true)
      | .error .duplicateKey => claimExpired owner payloadId record (now + ttl)
      | .error .other => .ret (.error .other)

/-- `update`. -/
def update (owner : τ) (payloadId : Text) (record : MappingRecord) (ttl : ℚ) :
    MongoProg τ (Except MongoError Unit) :=
  .call .utcnow fun now => .call (.replaceOne owner payloadId record (now + ttl)) fun r => .ret r

/-- `get`, with the generation of the record. -/
def get (payloadId : Text) : MongoProg τ (Except MongoError (Option MongoDoc)) :=
  .call (.findOne payloadId) fun
    | .error e => .ret (.error e)
    | .ok none => .ret (.ok none)
    | .ok (some doc) => .call .utcnow fun now =>
      .ret (.ok (if now < doc.expiresAt then some doc else none))

/-- `delete`. -/
def delete (payloadId : Text) : MongoProg τ (Except MongoError Unit) :=
  .call (.deleteOne payloadId) fun r => .ret r

/-- `_grace_update`. -/
def graceUpdate (pending : PendingGrace) : MongoProg τ GraceWrite :=
  .call .utcnow fun demaskedAt => .call .utcnow fun now =>
    .ret ⟨pending.payloadId, demaskedAt, now + pending.grace, pending.gen⟩

/-- The updates of a batch. -/
def graceUpdates : List PendingGrace → MongoProg τ (List GraceWrite)
  | [] => .ret []
  | pending :: rest =>
    (graceUpdate pending).bind fun write => (graceUpdates rest).bind fun writes =>
      .ret (write :: writes)

/-- `bulk_write`, unordered: the updates are made one at a time, and one that fails does not keep
the others from being made. -/
def bulkWrite : List GraceWrite → MongoProg τ (Except MongoError Unit)
  | [] => .ret (.ok ())
  | write :: writes => .call (.updateOne write) fun r => (bulkWrite writes).bind fun rest =>
    .ret (match r with
      | .ok () => rest
      | .error e => .error e)

/-- `flush_grace_now`. -/
def flushGraceNow : MongoProg τ (Except MongoError ℕ) :=
  .call .takePending fun
    | [] => .ret (.ok 0)
    | pending :: rest => (graceUpdates (pending :: rest)).bind fun writes =>
      (bulkWrite writes).bind fun r => .ret (r.map fun _ => writes.length)

/-- The size of a batch that is flushed at once. -/
def batchSize : ℕ := 500

/-- `mark_demasked`, requested for the record of generation `gen`. -/
def markDemasked (payloadId : Text) (grace : ℚ) (gen : ℕ) :
    MongoProg τ (Except MongoError Unit) :=
  if repo.batchGrace then
    .call (.enqueueGrace ⟨payloadId, grace, gen⟩) fun size =>
      if batchSize ≤ size then flushGraceNow.bind fun r => .ret (r.map fun _ => ())
      else .ret (.ok ())
  else
    (graceUpdate ⟨payloadId, grace, gen⟩).bind fun write => .call (.updateOne write) fun r => .ret r

/-- A request that demasks: it reads the record and moves it to grace, unless it is there
(`_transition_to_grace`). -/
def readAndMark (payloadId : Text) (grace : ℚ) : MongoProg τ (Except MongoError Unit) :=
  (get payloadId).bind fun
    | .error e => .ret (.error e)
    | .ok none => .ret (.ok ())
    | .ok (some doc) =>
      if doc.record.state = .demaskedGrace then .ret (.ok ())
      else repo.markDemasked payloadId grace doc.gen

end MongoRepository

/-! ### The Redis store -/

/-- The commands of the Redis store. Writes carry what they are made for: a creation its owner, a
grace transition the generation of the record it was requested for. -/
inductive RedisOp (τ : Type) where
  /-- `SET key value NX EX ttl`. -/
  | setNx (owner : τ) (payloadId : Text) (record : MappingRecord) (ttl : ℚ)
  /-- `SET key value EX ttl`. -/
  | setEx (payloadId : Text) (record : MappingRecord) (ttl : ℚ) (gen : ℕ)
  | get (payloadId : Text)
  /-- `time.time()`. -/
  | time

/-- The type of the answers to a command. -/
abbrev RedisOp.Answer {τ : Type} : RedisOp τ → Type
  | .setNx .. => Bool
  | .setEx .. => Unit
  | .get _ => Option MongoDoc
  | .time => ℚ

/-- Programs over Redis. -/
abbrev RedisProg (τ : Type) : Type → Type := Prog (RedisOp τ) RedisOp.Answer

namespace RedisStore

variable {τ : Type}

/-- `save_if_absent`. -/
def saveIfAbsent (owner : τ) (payloadId : Text) (record : MappingRecord) (ttl : ℚ) :
    RedisProg τ Bool :=
  .call (.setNx owner payloadId record ttl) .ret

/-- `get`, with the generation of the record. -/
def get (payloadId : Text) : RedisProg τ (Option MongoDoc) := .call (.get payloadId) .ret

/-- `MappingStore.mark_demasked`, requested for the record of generation `gen`: it reads the record
of the id again and writes it back. -/
def markDemasked (payloadId : Text) (grace : ℚ) (gen : ℕ) : RedisProg τ Unit :=
  .call (.get payloadId) fun
    | none => .ret ()
    | some doc => .call .time fun now =>
      .call (.setEx payloadId (doc.record.demasked now) grace gen) fun _ => .ret ()

/-- A request that demasks: it reads the record and moves it to grace, unless it is there. -/
def readAndMark (payloadId : Text) (grace : ℚ) : RedisProg τ Unit :=
  (get payloadId).bind fun
    | none => .ret ()
    | some doc =>
      if doc.record.state = .demaskedGrace then .ret () else markDemasked payloadId grace doc.gen

end RedisStore

end PiiProxy
