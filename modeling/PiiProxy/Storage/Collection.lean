import PiiProxy.Storage.MongoStore

/-!
# A collection with expiring documents

The system that the programs of the Mongo repository run on: the documents of a collection, the
batch of pending grace transitions and a clock that the callers share. Every single operation is
atomic. It may also raise, and then it may have had its effect or not. The environment lets time
pass, and the TTL monitor deletes expired documents whenever it likes.

The state keeps three ghosts: the creations of records, the effects of the grace transitions, and
the moments that the collection has gone through.

## Main definitions

* `Collection`, `Collection.apply`, `collection`: the state, the effect of an operation, the system.
* `Collection.Saw`: a live document of the id existed between two states.

## Main results

* `Collection.insertOne_cases`, `Collection.replaceExpired_cases`, `Collection.updateOne_cases`:
  everything that a write can do.
-/

namespace PiiProxy

/-- A creation of a record: the call that made it, its time and the expiry of the record. -/
structure Creation (τ : Type) where
  owner : τ
  payloadId : Text
  record : MappingRecord
  time : ℚ
  expiresAt : ℚ
  deriving DecidableEq

/-- What a grace transition has done to the document of its id. -/
structure GraceEffect where
  gen : ℕ
  time : ℚ
  before : Option MongoDoc
  after : Option MongoDoc

/-- The state of a collection and of the batch of its repository. -/
structure Collection (τ : Type) where
  now : ℚ
  docs : Text → Option MongoDoc
  pending : List PendingGrace := []
  /-- The expiry of the record of a generation, as of its last write. -/
  expiry : ℕ → Option ℚ := fun _ => none
  /-- The creation of the record of each generation. -/
  created : List (Creation τ) := []
  graced : List GraceEffect := []
  moments : List (ℚ × (Text → Option MongoDoc)) := []

/-- The answers of an operation that raises, and those that depend on nothing in the state. -/
def MongoOp.Raises {τ : Type} : (e : MongoOp τ) → e.Answer → Prop
  | .indexesDue, _ => True
  | .createIndex, r => r = .error .other
  | .insertOne .., r => r = .error .other
  | .replaceExpired .., r => r = .error .other
  | .replaceOne .., r => r = .error .other
  | .findOne _, r => r = .error .other
  | .deleteOne _, r => r = .error .other
  | .updateOne _, r => r = .error .other
  | .utcnow, _ => False
  | .enqueueGrace _, _ => False
  | .takePending, _ => False

/-- `_grace_pending[payload_id] = grace_seconds`. -/
def enqueue (pending : PendingGrace) : List PendingGrace → List PendingGrace
  | [] => [pending]
  | p :: ps => if p.payloadId = pending.payloadId then pending :: ps else p :: enqueue pending ps

/-- The document with the `$set` of a grace transition. -/
def GraceWrite.set (write : GraceWrite) (doc : MongoDoc) : MongoDoc :=
  { doc with record := doc.record.demasked write.demaskedAt, expiresAt := write.expiresAt }

namespace Collection

variable {τ : Type}

/-- Write a document of some record. -/
def put (s : Collection τ) (payloadId : Text) (doc : MongoDoc) : Collection τ :=
  { s with
    docs := Function.update s.docs payloadId (some doc)
    expiry := Function.update s.expiry doc.gen (some doc.expiresAt) }

/-- Write the document of a new record. -/
def create (s : Collection τ) (owner : τ) (payloadId : Text) (record : MappingRecord)
    (expiresAt : ℚ) : Collection τ :=
  { s.put payloadId ⟨record, expiresAt, s.created.length⟩ with
    created := s.created ++ [⟨owner, payloadId, record, s.now, expiresAt⟩] }

/-- Delete a document. -/
def remove (s : Collection τ) (payloadId : Text) : Collection τ :=
  { s with docs := Function.update s.docs payloadId none }

/-- Log what a grace transition requested for the record `gen` has made of the document `before`. -/
def logGrace (s : Collection τ) (gen : ℕ) (before after : Option MongoDoc) : Collection τ :=
  { s with graced := s.graced ++ [⟨gen, s.now, before, after⟩] }

/-- An operation that does not raise. -/
def apply (s : Collection τ) : (e : MongoOp τ) → e.Answer × Collection τ
  | .utcnow => (s.now, s)
  | .indexesDue => (false, s)
  | .createIndex => (.ok (), s)
  | .insertOne owner payloadId record expiresAt =>
    match s.docs payloadId with
    | some _ => (.error .duplicateKey, s)
    | none => (.ok (), s.create owner payloadId record expiresAt)
  | .replaceExpired owner payloadId cutoff record expiresAt =>
    match s.docs payloadId with
    | none => (.ok false, s)
    | some doc =>
      if doc.expiresAt ≤ cutoff then
        -- a replacement by the same document is matched and not counted as modified
        if doc.record = record ∧ doc.expiresAt = expiresAt then (.ok false, s)
        else (.ok true, s.create owner payloadId record expiresAt)
      else (.ok false, s)
  | .replaceOne owner payloadId record expiresAt =>
    match s.docs payloadId with
    | none => (.ok (), s.create owner payloadId record expiresAt)
    | some doc => (.ok (), s.put payloadId ⟨record, expiresAt, doc.gen⟩)
  | .findOne payloadId => (.ok (s.docs payloadId), s)
  | .deleteOne payloadId => (.ok (), s.remove payloadId)
  | .updateOne write =>
    match s.docs write.payloadId with
    | none => (.ok (), s.logGrace write.gen none none)
    | some doc => (.ok (), (s.put write.payloadId (write.set doc)).logGrace write.gen (some doc)
        (some (write.set doc)))
  | .enqueueGrace pending =>
    ((enqueue pending s.pending).length, { s with pending := enqueue pending s.pending })
  | .takePending => (s.pending, { s with pending := [] })

/-- The state with the present moment noted. -/
def noted (s : Collection τ) : Collection τ :=
  { s with moments := s.moments ++ [(s.now, s.docs)] }

end Collection

/-- A collection that its callers, the passing of time and the TTL monitor act on. -/
def collection (τ : Type) : Sys (Collection τ) (MongoOp τ) MongoOp.Answer where
  handle e s r s' :=
    (r = (s.apply e).1 ∧ s' = (s.apply e).2.noted) ∨
      (e.Raises r ∧ (s' = s.noted ∨ s' = (s.apply e).2.noted))
  env s s' :=
    (∃ t, s.now ≤ t ∧ s' = { s with now := t }.noted) ∨
      ∃ payloadId doc, s.docs payloadId = some doc ∧ doc.expiresAt ≤ s.now ∧
        s' = (s.remove payloadId).noted

namespace Collection

variable {τ : Type} {s s' : Collection τ}

@[simp] theorem noted_now : s.noted.now = s.now := rfl

@[simp] theorem noted_docs : s.noted.docs = s.docs := rfl

@[simp] theorem noted_created : s.noted.created = s.created := rfl

@[simp] theorem noted_moments : s.noted.moments = s.moments ++ [(s.now, s.docs)] := rfl

section

variable {owner : τ} {payloadId : Text} {record : MappingRecord} {expiresAt : ℚ} {doc : MongoDoc}
  {gen : ℕ} {before after : Option MongoDoc}

@[simp] theorem put_docs :
    (s.put payloadId doc).docs = Function.update s.docs payloadId (some doc) := rfl

@[simp] theorem put_expiry :
    (s.put payloadId doc).expiry = Function.update s.expiry doc.gen (some doc.expiresAt) := rfl

@[simp] theorem create_now : (s.create owner payloadId record expiresAt).now = s.now := rfl

@[simp] theorem remove_now : (s.remove payloadId).now = s.now := rfl

@[simp] theorem create_docs :
    (s.create owner payloadId record expiresAt).docs =
      Function.update s.docs payloadId (some ⟨record, expiresAt, s.created.length⟩) := rfl

@[simp] theorem create_expiry :
    (s.create owner payloadId record expiresAt).expiry =
      Function.update s.expiry s.created.length (some expiresAt) := rfl

@[simp] theorem create_created :
    (s.create owner payloadId record expiresAt).created =
      s.created ++ [⟨owner, payloadId, record, s.now, expiresAt⟩] := rfl

@[simp] theorem remove_docs :
    (s.remove payloadId).docs = Function.update s.docs payloadId none := rfl

@[simp] theorem logGrace_docs : (s.logGrace gen before after).docs = s.docs := rfl

@[simp] theorem logGrace_expiry : (s.logGrace gen before after).expiry = s.expiry := rfl

end

/-! ### What a write can do -/

/-- An insertion creates the record of an id without a document, or changes nothing. -/
theorem insertOne_cases {owner : τ} {payloadId : Text} {record : MappingRecord} {expiresAt : ℚ}
    {r : Except MongoError Unit}
    (h : (collection τ).handle (.insertOne owner payloadId record expiresAt) s r s') :
    (s.docs payloadId = none ∧ s' = (s.create owner payloadId record expiresAt).noted ∧
        r ≠ .error .duplicateKey) ∨
      (s' = s.noted ∧ r ≠ .ok ()) := by
  cases hdoc : s.docs payloadId with
  | none =>
    simp only [collection, apply, hdoc, MongoOp.Raises] at h
    rcases h with ⟨rfl, rfl⟩ | ⟨rfl, rfl | rfl⟩ <;> simp
  | some doc =>
    simp only [collection, apply, hdoc, MongoOp.Raises] at h
    rcases h with ⟨rfl, rfl⟩ | ⟨rfl, rfl | rfl⟩ <;> simp

/-- A replacement of an expired document creates a record in its place, or changes nothing. If it
tells that nothing was modified, there was no document, it had not expired, or it was the same. -/
theorem replaceExpired_cases {owner : τ} {payloadId : Text} {cutoff : ℚ} {record : MappingRecord}
    {expiresAt : ℚ} {r : Except MongoError Bool}
    (h : (collection τ).handle (.replaceExpired owner payloadId cutoff record expiresAt) s r s') :
    (∃ doc, s.docs payloadId = some doc ∧ doc.expiresAt ≤ cutoff ∧
        s' = (s.create owner payloadId record expiresAt).noted ∧ r ≠ .ok false) ∨
      (s' = s.noted ∧ r ≠ .ok true ∧ (r = .ok false → s.docs payloadId = none ∨
        ∃ doc, s.docs payloadId = some doc ∧
          (cutoff < doc.expiresAt ∨ (doc.expiresAt ≤ cutoff ∧ doc.expiresAt = expiresAt)))) := by
  cases hdoc : s.docs payloadId with
  | none =>
    simp only [collection, apply, hdoc, MongoOp.Raises] at h
    rcases h with ⟨rfl, rfl⟩ | ⟨rfl, rfl | rfl⟩ <;> simp
  | some doc =>
    simp only [collection, apply, hdoc, MongoOp.Raises] at h
    by_cases hexpired : doc.expiresAt ≤ cutoff
    · by_cases hsame : doc.record = record ∧ doc.expiresAt = expiresAt
      · rw [if_pos hexpired, if_pos hsame] at h
        right
        rcases h with ⟨rfl, rfl⟩ | ⟨rfl, rfl | rfl⟩
        · exact ⟨rfl, by simp, fun _ => .inr ⟨doc, rfl, .inr ⟨hexpired, hsame.2⟩⟩⟩
        · exact ⟨rfl, by simp, by simp⟩
        · exact ⟨rfl, by simp, by simp⟩
      · rw [if_pos hexpired, if_neg hsame] at h
        rcases h with ⟨rfl, rfl⟩ | ⟨rfl, rfl | rfl⟩
        · exact .inl ⟨doc, rfl, hexpired, rfl, by simp⟩
        · exact .inr ⟨rfl, by simp, by simp⟩
        · exact .inl ⟨doc, rfl, hexpired, rfl, by simp⟩
    · simp only [hexpired, if_false] at h
      right
      rcases h with ⟨rfl, rfl⟩ | ⟨rfl, rfl | rfl⟩ <;> simp [not_le.mp hexpired]

/-- A grace transition moves the document of its id to grace, whatever the document is, or changes
nothing. -/
theorem updateOne_cases {write : GraceWrite} {r : Except MongoError Unit}
    (h : (collection τ).handle (.updateOne write) s r s') :
    s' = s.noted ∨ (s.docs write.payloadId = none ∧ s' = (s.logGrace write.gen none none).noted) ∨
      ∃ doc, s.docs write.payloadId = some doc ∧
        s' = ((s.put write.payloadId (write.set doc)).logGrace write.gen (some doc)
          (some (write.set doc))).noted := by
  cases hdoc : s.docs write.payloadId with
  | none =>
    simp only [collection, apply, hdoc, MongoOp.Raises] at h
    rcases h with ⟨rfl, rfl⟩ | ⟨rfl, rfl | rfl⟩ <;> simp
  | some doc =>
    simp only [collection, apply, hdoc, MongoOp.Raises] at h
    rcases h with ⟨rfl, rfl⟩ | ⟨rfl, rfl | rfl⟩ <;> simp

theorem findOne_cases {payloadId : Text} {r : Except MongoError (Option MongoDoc)}
    (h : (collection τ).handle (.findOne payloadId) s r s') :
    s' = s.noted ∧ (r = .ok (s.docs payloadId) ∨ r = .error .other) := by
  rcases h with ⟨hr, h⟩ | ⟨hr, h | h⟩
  · exact ⟨h, .inl hr⟩
  · exact ⟨h, .inr hr⟩
  · exact ⟨h, .inr hr⟩

theorem enqueueGrace_cases {pending : PendingGrace} {size : ℕ}
    (h : (collection τ).handle (.enqueueGrace pending) s size s') :
    s' = { s with pending := enqueue pending s.pending }.noted := by
  rcases h with ⟨-, h⟩ | ⟨h, -⟩
  · exact h
  · exact h.elim

theorem takePending_cases {pending : List PendingGrace}
    (h : (collection τ).handle .takePending s pending s') :
    pending = s.pending ∧ s' = { s with pending := [] }.noted := by
  rcases h with h | ⟨h, -⟩
  · exact h
  · exact h.elim

/-- An operation that writes nothing only notes the moment. -/
theorem utcnow_cases {t : ℚ} (h : (collection τ).handle .utcnow s t s') :
    t = s.now ∧ s' = s.noted := by
  rcases h with h | ⟨h, -⟩
  · exact h
  · exact h.elim

theorem indexesDue_cases {due : Bool} (h : (collection τ).handle .indexesDue s due s') :
    s' = s.noted := by
  rcases h with ⟨-, h⟩ | ⟨-, h | h⟩ <;> exact h

theorem createIndex_cases {r : Except MongoError Unit}
    (h : (collection τ).handle .createIndex s r s') : s' = s.noted := by
  rcases h with ⟨-, h⟩ | ⟨-, h | h⟩ <;> exact h

/-- The answer of an operation that does not raise. -/
def respond (e : MongoOp τ) (s : Collection τ) : e.Answer × Collection τ :=
  ((s.apply e).1, (s.apply e).2.noted)

theorem handle_respond (e : MongoOp τ) (s : Collection τ) :
    (collection τ).handle e s (respond e s).1 (respond e s).2 := .inl ⟨rfl, rfl⟩

/-! ### Moments -/

/-- Between `s` and `s'` there was a moment at which the id had a document that had not expired. -/
def Saw (s s' : Collection τ) (payloadId : Text) : Prop :=
  ∃ seg, s'.moments = s.moments ++ seg ∧
    ∃ m ∈ seg, ∃ doc, m.2 payloadId = some doc ∧ m.1 < doc.expiresAt

/-- The moments from `s` to `s'` searched for a live document. -/
def saw (s s' : Collection τ) (payloadId : Text) : Bool :=
  (s'.moments.drop s.moments.length).any fun m =>
    (m.2 payloadId).any fun doc => decide (m.1 < doc.expiresAt)

theorem Saw.saw_eq_true {payloadId : Text} (h : Saw s s' payloadId) :
    saw s s' payloadId = true := by
  obtain ⟨seg, hseg, m, hm, doc, hdoc, hlive⟩ := h
  rw [saw, hseg, List.drop_left, List.any_eq_true]
  exact ⟨m, hm, by simp [hdoc, hlive]⟩

end Collection

end PiiProxy
