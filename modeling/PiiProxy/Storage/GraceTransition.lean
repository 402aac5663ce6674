import PiiProxy.Storage.Backends
import PiiProxy.Storage.Collection

/-!
# Grace transitions and the records they were requested for

A grace transition is keyed by its payload id and may be applied long after the read that triggered
it: the Mongo repository collects transitions in a batch, and the Redis store reads the record again
and writes it back. By then the record may have expired, and a later record may have been created
under the id. The transition is harmless when it is applied before the expiry of the record that it
was requested for, whatever else happens; on the Mongo repository also when the id has no document
at all.

## Main definitions

* `redis`: the system that the programs of the Redis store run on.
* `Collection.Lives`, `Collection.InGraceTime`, `Collection.InRedisTime`: the record of a generation
  has not expired; every grace transition is applied in time.
* `GraceEffect.Harmless`: a transition has changed nothing, or the live record it was requested for.
* `Collection.Tracked`, `Collection.Tracks`: the invariant and the law.

## Main results

* `graceTransition_harmless`: in every run whose grace transitions are applied in time, every grace
  transition is harmless.
-/

namespace PiiProxy

/-! ### The system of the Redis store -/

namespace Collection

variable {τ : Type}

/-- The document of a key that has not expired. Redis shows no others. -/
def visible (s : Collection τ) (payloadId : Text) : Option MongoDoc :=
  (s.docs payloadId).filter fun doc => decide (s.now < doc.expiresAt)

/-- A Redis command. -/
def applyRedis (s : Collection τ) : (e : RedisOp τ) → e.Answer × Collection τ
  | .setNx owner payloadId record ttl =>
    match s.visible payloadId with
    | some _ => (false, s)
    | none => (true, s.create owner payloadId record (s.now + ttl))
  | .setEx payloadId record ttl gen =>
    ((), (s.put payloadId ⟨record, s.now + ttl, gen⟩).logGrace gen (s.visible payloadId)
      (some ⟨record, s.now + ttl, gen⟩))
  | .get payloadId => (s.visible payloadId, s)
  | .time => (s.now, s)

/-- The record of the generation has not expired. -/
def Lives (s : Collection τ) (gen : ℕ) : Prop := ∃ x, s.expiry gen = some x ∧ s.now < x

instance Lives.decidable (s : Collection τ) (gen : ℕ) : Decidable (s.Lives gen) :=
  decidable_of_iff ((s.expiry gen).any fun x => decide (s.now < x)) (by
    simp [Lives, Option.any_eq_true])

/-- A grace transition is applied before the expiry of the record it was requested for, or its id
has no document. -/
def InGraceTime (s : Collection τ) : MongoOp τ → Prop
  | .updateOne write => s.docs write.payloadId = none ∨ s.Lives write.gen
  | _ => True

instance InGraceTime.decidable (s : Collection τ) : (e : MongoOp τ) → Decidable (s.InGraceTime e)
  | .updateOne write =>
    inferInstanceAs (Decidable (s.docs write.payloadId = none ∨ s.Lives write.gen))
  | .utcnow | .indexesDue | .createIndex | .insertOne .. | .replaceExpired .. | .replaceOne ..
  | .findOne _ | .deleteOne _ | .enqueueGrace _ | .takePending => .isTrue trivial

/-- A grace transition is applied before the expiry of the record it was requested for. -/
def InRedisTime (s : Collection τ) : RedisOp τ → Prop
  | .setEx _ _ _ gen => s.Lives gen
  | _ => True

instance InRedisTime.decidable (s : Collection τ) : (e : RedisOp τ) → Decidable (s.InRedisTime e)
  | .setEx _ _ _ gen => inferInstanceAs (Decidable (s.Lives gen))
  | .setNx .. | .get _ | .time => .isTrue trivial

end Collection

/-- A Redis database that its callers and the passing of time act on. -/
def redis (τ : Type) : Sys (Collection τ) (RedisOp τ) RedisOp.Answer where
  handle e s r s' := r = (s.applyRedis e).1 ∧ s' = (s.applyRedis e).2
  env s s' := ∃ t, s.now ≤ t ∧ s' = { s with now := t }

/-- The transition has changed nothing, or it has moved to grace the live record that it was
requested for. -/
def GraceEffect.Harmless (e : GraceEffect) : Prop :=
  e.after = e.before ∨ ∃ doc t x, e.before = some doc ∧ doc.gen = e.gen ∧
    e.time < doc.expiresAt ∧ e.after = some ⟨doc.record.demasked t, x, doc.gen⟩

namespace Collection

variable {τ : Type} {s s' s₁ s₂ s₃ : Collection τ} {payloadId payloadId' : Text} {gen : ℕ}
  {r r' : MappingRecord}

/-! ### The invariant -/

/-- The record of the generation was created under the id, with the content of `r` up to its
grace. -/
def Made (s : Collection τ) (gen : ℕ) (payloadId : Text) (r : MappingRecord) : Prop :=
  ∃ c, s.created[gen]? = some c ∧ c.payloadId = payloadId ∧ c.record.demasked 0 = r.demasked 0

theorem Made.unique (h : s.Made gen payloadId r) (h' : s.Made gen payloadId' r') :
    payloadId = payloadId' ∧ r.demasked 0 = r'.demasked 0 := by
  obtain ⟨c, hc, rfl, hr⟩ := h
  obtain ⟨c', hc', rfl, hr'⟩ := h'
  obtain rfl := Option.some.inj (hc.symm.trans hc')
  exact ⟨rfl, hr.symm.trans hr'⟩

theorem Made.mono (h : s.Made gen payloadId r) (hcreated : s.created <+: s'.created) :
    s'.Made gen payloadId r := by
  obtain ⟨c, hc, hrest⟩ := h
  obtain ⟨l, hl⟩ := hcreated
  obtain ⟨hlt, -⟩ := List.getElem?_eq_some_iff.mp hc
  exact ⟨c, by rw [← hl, List.getElem?_append_left hlt, hc], hrest⟩

theorem Made.lt (h : s.Made gen payloadId r) : gen < s.created.length := by
  obtain ⟨c, hc, -⟩ := h
  exact (List.getElem?_eq_some_iff.mp hc).1

/-- The demasked record does not depend on an earlier grace. -/
theorem demasked_congr (h : r.demasked 0 = r'.demasked 0) (t : ℚ) :
    r.demasked t = r'.demasked t := by
  show (r.demasked 0).demasked t = (r'.demasked 0).demasked t
  rw [h]

/-- A record that has not expired is in the collection, under the id it was created with, and every
grace transition was harmless. -/
structure Tracked (s : Collection τ) : Prop where
  doc : ∀ payloadId doc, s.docs payloadId = some doc →
    s.Made doc.gen payloadId doc.record ∧ s.expiry doc.gen = some doc.expiresAt
  live : ∀ gen, s.Lives gen → ∃ payloadId doc, s.docs payloadId = some doc ∧ doc.gen = gen
  known : ∀ gen x, s.expiry gen = some x → gen < s.created.length
  pending : ∀ p ∈ s.pending, ∃ r, s.Made p.gen p.payloadId r
  graced : ∀ e ∈ s.graced, e.Harmless

/-- Time does not go back, records are added, and a record that has expired stays so. -/
structure Tracks (s s' : Collection τ) : Prop where
  now_le : s.now ≤ s'.now
  created : s.created <+: s'.created
  dead : ∀ gen, gen < s.created.length → s'.Lives gen → s.Lives gen

theorem Tracks.refl (s : Collection τ) : s.Tracks s := ⟨le_rfl, List.prefix_rfl, fun _ _ h => h⟩

theorem Tracks.trans (h₁ : s₁.Tracks s₂) (h₂ : s₂.Tracks s₃) : s₁.Tracks s₃ where
  now_le := h₁.now_le.trans h₂.now_le
  created := h₁.created.trans h₂.created
  dead gen hgen hlives :=
    h₁.dead gen hgen (h₂.dead gen (hgen.trans_le h₁.created.length_le) hlives)

namespace Tracked

/-- The live record of a generation is the document of its id. -/
theorem doc_of_lives (h : s.Tracked) (hlives : s.Lives gen) (hmade : s.Made gen payloadId r) :
    ∃ doc, s.docs payloadId = some doc ∧ doc.gen = gen ∧ s.now < doc.expiresAt ∧
      doc.record.demasked 0 = r.demasked 0 := by
  obtain ⟨payloadId', doc, hdoc, rfl⟩ := h.live gen hlives
  obtain ⟨hmade', hexpiry⟩ := h.doc payloadId' doc hdoc
  obtain ⟨rfl, hrecord⟩ := hmade'.unique hmade
  obtain ⟨x, hx, hlt⟩ := hlives
  obtain rfl := Option.some.inj (hexpiry.symm.trans hx)
  exact ⟨doc, hdoc, rfl, hlt, hrecord⟩

/-- A step that touches no document and no log. -/
theorem of_eq (h : s.Tracked) (s' : Collection τ) (hnow : s.now ≤ s'.now) (hdocs : s'.docs = s.docs)
    (hexpiry : s'.expiry = s.expiry) (hcreated : s'.created = s.created)
    (hgraced : s'.graced = s.graced)
    (hpending : ∀ p ∈ s'.pending, ∃ r, s.Made p.gen p.payloadId r) : s'.Tracked ∧ s.Tracks s' := by
  have hmade {gen payloadId r} : s'.Made gen payloadId r ↔ s.Made gen payloadId r := by
    rw [Made, Made, hcreated]
  have hlives {gen} (hl : s'.Lives gen) : s.Lives gen := by
    obtain ⟨x, hx, hlt⟩ := hl
    exact ⟨x, hexpiry ▸ hx, hnow.trans_lt hlt⟩
  refine ⟨⟨?_, ?_, ?_, ?_, ?_⟩, hnow, hcreated ▸ List.prefix_rfl, fun _ _ => hlives⟩
  · intro payloadId doc hdoc
    rw [hdocs] at hdoc
    rw [hexpiry, hmade]
    exact h.doc payloadId doc hdoc
  · intro gen hl
    rw [hdocs]
    exact h.live gen (hlives hl)
  · intro gen x hx
    rw [hcreated]
    exact h.known gen x (hexpiry ▸ hx)
  · intro p hp
    obtain ⟨r, hr⟩ := hpending p hp
    exact ⟨r, hmade.mpr hr⟩
  · rw [hgraced]
    exact h.graced

/-- The expiry of a document that a live record has. -/
theorem not_lives (h : s.Tracked) {doc : MongoDoc} (hdoc : s.docs payloadId = some doc)
    (hexpired : doc.expiresAt ≤ s.now) : ¬ s.Lives doc.gen := by
  rintro ⟨x, hx, hlt⟩
  obtain rfl := Option.some.inj ((h.doc payloadId doc hdoc).2.symm.trans hx)
  exact absurd hexpired (not_le.mpr hlt)

/-- The TTL monitor deletes an expired document. -/
theorem remove (h : s.Tracked) {doc : MongoDoc} (hdoc : s.docs payloadId = some doc)
    (hexpired : doc.expiresAt ≤ s.now) :
    (s.remove payloadId).Tracked ∧ s.Tracks (s.remove payloadId) := by
  refine ⟨⟨fun payloadId' doc' hdoc' => ?_, fun gen hlives => ?_, h.known, h.pending, h.graced⟩,
    le_rfl, List.prefix_rfl, fun _ _ h => h⟩
  · by_cases hid : payloadId' = payloadId
    · simp only [remove_docs, hid, Function.update_self, reduceCtorEq] at hdoc'
    · simp only [remove_docs, Function.update_of_ne hid] at hdoc'
      exact h.doc payloadId' doc' hdoc'
  · obtain ⟨payloadId', doc', hdoc', rfl⟩ := h.live gen hlives
    have hne : payloadId' ≠ payloadId := by
      rintro rfl
      obtain rfl := Option.some.inj (hdoc.symm.trans hdoc')
      exact h.not_lives hdoc hexpired hlives
    exact ⟨payloadId', doc', by rw [remove_docs, Function.update_of_ne hne, hdoc'], rfl⟩

/-- A record is created when the document of its id is gone or has expired. -/
theorem create (h : s.Tracked) {owner : τ} {record : MappingRecord} {expiresAt : ℚ}
    (hfree : ∀ doc, s.docs payloadId = some doc → doc.expiresAt ≤ s.now) :
    (s.create owner payloadId record expiresAt).Tracked ∧
      s.Tracks (s.create owner payloadId record expiresAt) := by
  have hgrows : s.created <+: (s.create owner payloadId record expiresAt).created :=
    List.prefix_append _ _
  have hold {gen} (hgen : gen < s.created.length) :
      (s.create owner payloadId record expiresAt).expiry gen = s.expiry gen :=
    Function.update_of_ne hgen.ne _ _
  have hdead (gen) (hgen : gen < s.created.length)
      (hlives : (s.create owner payloadId record expiresAt).Lives gen) : s.Lives gen := by
    obtain ⟨x, hx, hlt⟩ := hlives
    exact ⟨x, (hold hgen).symm.trans hx, hlt⟩
  refine ⟨⟨fun payloadId' doc hdoc => ?_, fun gen hlives => ?_, fun gen x hx => ?_,
    fun p hp => ?_, h.graced⟩, le_rfl, hgrows, hdead⟩
  · by_cases hid : payloadId' = payloadId
    · subst hid
      simp only [create_docs, Function.update_self, Option.some.injEq] at hdoc
      subst hdoc
      exact ⟨⟨⟨owner, payloadId', record, s.now, expiresAt⟩, by simp [Collection.create], rfl, rfl⟩,
        Function.update_self _ _ _⟩
    · simp only [create_docs, Function.update_of_ne hid] at hdoc
      obtain ⟨hmade, hexpiry⟩ := h.doc payloadId' doc hdoc
      exact ⟨hmade.mono hgrows, (hold hmade.lt).trans hexpiry⟩
  · by_cases hgen : gen = s.created.length
    · exact ⟨payloadId, _, Function.update_self _ _ _, hgen.symm⟩
    · have hlt : gen < s.created.length := by
        obtain ⟨x, hx, -⟩ := hlives
        have hx' : s.expiry gen = some x := by
          rwa [create_expiry, Function.update_of_ne hgen] at hx
        exact h.known gen x hx'
      obtain ⟨payloadId', doc, hdoc, rfl⟩ := h.live gen (hdead gen hlt hlives)
      have hne : payloadId' ≠ payloadId := by
        rintro rfl
        exact h.not_lives hdoc (hfree doc hdoc) (hdead doc.gen hlt hlives)
      exact ⟨payloadId', doc, by rw [create_docs, Function.update_of_ne hne, hdoc], rfl⟩
  · have hlength : (s.create owner payloadId record expiresAt).created.length =
        s.created.length + 1 := by simp [Collection.create]
    rw [hlength]
    by_cases hgen : gen = s.created.length
    · omega
    · rw [create_expiry, Function.update_of_ne hgen] at hx
      exact (h.known gen x hx).trans (Nat.lt_succ_self _)
  · obtain ⟨r, hr⟩ := h.pending p hp
    exact ⟨r, hr.mono hgrows⟩

/-- A grace transition applied in time meets the document of the record it was requested for. -/
theorem grace (h : s.Tracked) (hlives : s.Lives gen) (hmade : s.Made gen payloadId r) (t x : ℚ) :
    ∃ doc, s.docs payloadId = some doc ∧ doc.gen = gen ∧ s.now < doc.expiresAt ∧
      doc.record.demasked t = r.demasked t ∧
      ((s.put payloadId ⟨r.demasked t, x, gen⟩).logGrace gen (some doc)
        (some ⟨r.demasked t, x, gen⟩)).Tracked ∧
      s.Tracks ((s.put payloadId ⟨r.demasked t, x, gen⟩).logGrace gen (some doc)
        (some ⟨r.demasked t, x, gen⟩)) := by
  obtain ⟨doc, hdoc, rfl, hlt, hrecord⟩ := h.doc_of_lives hlives hmade
  have hsame := demasked_congr hrecord t
  refine ⟨doc, hdoc, rfl, hlt, hsame,
    ⟨fun payloadId' doc' hdoc' => ?_, fun gen' hlives' => ?_, fun gen' x' hx' => ?_, h.pending,
      fun e he => ?_⟩, le_rfl, List.prefix_rfl, fun gen' _ hlives' => ?_⟩
  · rw [logGrace_docs, put_docs] at hdoc'
    rw [logGrace_expiry, put_expiry]
    by_cases hid : payloadId' = payloadId
    · subst hid
      rw [Function.update_self, Option.some.injEq] at hdoc'
      subst hdoc'
      obtain ⟨c, hc, hcid, hcrecord⟩ := hmade
      exact ⟨⟨c, hc, hcid, hcrecord⟩, Function.update_self _ _ _⟩
    · rw [Function.update_of_ne hid] at hdoc'
      obtain ⟨hmade', hexpiry⟩ := h.doc payloadId' doc' hdoc'
      have hne : doc'.gen ≠ doc.gen := fun heq => hid (hmade'.unique (heq ▸ hmade)).1
      exact ⟨hmade', by rw [Function.update_of_ne hne, hexpiry]⟩
  · by_cases hgen : gen' = doc.gen
    · exact ⟨payloadId, _, Function.update_self _ _ _, hgen.symm⟩
    · have hlives₀ : s.Lives gen' := by
        rwa [Lives, logGrace_expiry, put_expiry, Function.update_of_ne hgen] at hlives'
      obtain ⟨payloadId', doc', hdoc', rfl⟩ := h.live gen' hlives₀
      have hne : payloadId' ≠ payloadId := by
        rintro rfl
        obtain rfl := Option.some.inj (hdoc.symm.trans hdoc')
        exact hgen rfl
      exact ⟨payloadId', doc', by
        rw [logGrace_docs, put_docs, Function.update_of_ne hne, hdoc'], rfl⟩
  · by_cases hgen : gen' = doc.gen
    · exact hgen ▸ hmade.lt
    · rw [logGrace_expiry, put_expiry, Function.update_of_ne hgen] at hx'
      exact h.known gen' x' hx'
  · rcases List.mem_append.mp he with he | he
    · exact h.graced e he
    · obtain rfl := List.mem_singleton.mp he
      exact .inr ⟨doc, t, x, rfl, rfl, hlt, by rw [hsame]⟩
  · by_cases hgen : gen' = doc.gen
    · exact hgen ▸ hlives
    · rwa [Lives, logGrace_expiry, put_expiry, Function.update_of_ne hgen] at hlives'

/-- The moment is noted after a step. -/
theorem noted (h : s'.Tracked ∧ s.Tracks s') : s'.noted.Tracked ∧ s.Tracks s'.noted := by
  obtain ⟨h', hnoted⟩ := h.1.of_eq s'.noted le_rfl rfl rfl rfl rfl h.1.pending
  exact ⟨h', h.2.trans hnoted⟩

/-- Only the moment is noted. -/
theorem quiet (h : s.Tracked) : s.noted.Tracked ∧ s.Tracks s.noted := noted ⟨h, .refl s⟩

/-- Time passes. -/
theorem tick (h : s.Tracked) {t : ℚ} (ht : s.now ≤ t) :
    Tracked { s with now := t } ∧ s.Tracks { s with now := t } :=
  h.of_eq _ ht rfl rfl rfl rfl h.pending

theorem env (h : s.Tracked) (he : (collection τ).env s s') : s'.Tracked ∧ s.Tracks s' := by
  rcases he with ⟨t, ht, rfl⟩ | ⟨payloadId, doc, hdoc, hexpired, rfl⟩
  · exact noted (h.tick ht)
  · exact noted (h.remove hdoc hexpired)

/-- A grace transition is logged when there is nothing to change. -/
theorem logNothing (h : s.Tracked) :
    (s.logGrace gen none none).Tracked ∧ s.Tracks (s.logGrace gen none none) := by
  refine ⟨⟨h.doc, h.live, h.known, h.pending, fun e he => ?_⟩, le_rfl, List.prefix_rfl,
    fun _ _ h => h⟩
  rcases List.mem_append.mp he with he | he
  · exact h.graced e he
  · obtain rfl := List.mem_singleton.mp he
    exact .inl rfl

end Tracked

/-! ### The programs of the Mongo repository -/

/-- The collection whose grace transitions are applied in time. -/
def mongoInTime (τ : Type) : Sys (Collection τ) (MongoOp τ) MongoOp.Answer :=
  (collection τ).restrict fun e s _ _ => s.InGraceTime e

theorem mongoInTime_law : Prog.Law (mongoInTime τ) Tracked Tracks where
  refl := .refl
  trans := .trans
  env hs he := hs.env he

section

variable {h : List (Prog.Event (MongoOp τ) MongoOp.Answer)} {owner : τ} {ttl grace : ℚ}

/-- A grace transition keeps the invariant when its record was created under its id. -/
theorem updateOne_tracked (hs : s.Tracked) {write : GraceWrite} {a : Except MongoError Unit}
    (hmade : s.Made write.gen write.payloadId r)
    (hstep : (mongoInTime τ).handle (.updateOne write) s a s') : s'.Tracked ∧ s.Tracks s' := by
  obtain ⟨hstep, htime⟩ := hstep
  rcases updateOne_cases hstep with rfl | ⟨-, rfl⟩ | ⟨doc, hdoc, rfl⟩
  · exact hs.quiet
  · exact Tracked.noted hs.logNothing
  · have hlives : s.Lives write.gen := by
      rcases htime with hnone | hlives
      · rw [hdoc] at hnone
        cases hnone
      · exact hlives
    obtain ⟨doc', hdoc', hgen, -, hrecord, htracked⟩ :=
      hs.grace hlives hmade write.demaskedAt write.expiresAt
    obtain rfl := Option.some.inj (hdoc.symm.trans hdoc')
    have hset : write.set doc = ⟨r.demasked write.demaskedAt, write.expiresAt, write.gen⟩ := by
      rw [GraceWrite.set, hrecord, hgen]
    rw [hset]
    exact Tracked.noted htracked

theorem safe_graceUpdate {p : PendingGrace} (hmade : s.Made p.gen p.payloadId r) :
    Prog.Safe (mongoInTime τ) Tracked Tracks (fun _ w s' => s'.Made w.gen w.payloadId r) h
      (MongoRepository.graceUpdate p) s := by
  intro s₁ h₁ hI₁ demaskedAt s₂ hr
  obtain ⟨rfl, rfl⟩ := utcnow_cases hr.1
  refine ⟨hI₁.quiet.1, hI₁.quiet.2, ?_⟩
  intro s₂ h₂ hI₂ now s₃ hr
  obtain ⟨rfl, rfl⟩ := utcnow_cases hr.1
  refine ⟨hI₂.quiet.1, hI₂.quiet.2, fun s₃ h₃ _ => ?_⟩
  exact hmade.mono ((h₁.trans hI₁.quiet.2).trans ((h₂.trans hI₂.quiet.2).trans h₃)).created

theorem safe_graceUpdates {ps : List PendingGrace} (hs : s.Tracked)
    (hmade : ∀ p ∈ ps, ∃ r, s.Made p.gen p.payloadId r) :
    Prog.Safe (mongoInTime τ) Tracked Tracks
      (fun _ ws s' => ∀ w ∈ ws, ∃ r, s'.Made w.gen w.payloadId r) h
      (MongoRepository.graceUpdates ps) s := by
  induction ps generalizing h s with
  | nil => exact fun s' _ _ w hw => absurd hw List.not_mem_nil
  | cons p ps ih =>
    obtain ⟨r, hr⟩ := hmade p List.mem_cons_self
    refine Prog.Safe.bind mongoInTime_law hs
      (((safe_graceUpdate hr).since mongoInTime_law).mono fun h₁ w s₁ hs₁ hw => ?_)
    have hrest (p' : PendingGrace) (hp' : p' ∈ ps) : ∃ r, s₁.Made p'.gen p'.payloadId r := by
      obtain ⟨r', hr'⟩ := hmade p' (List.mem_cons_of_mem _ hp')
      exact ⟨r', hr'.mono hw.1.created⟩
    refine Prog.Safe.bind mongoInTime_law hs₁
      (((ih hs₁ hrest).since mongoInTime_law).mono fun h₂ ws s₂ _ hws => ?_)
    intro s₃ h₃ _ w' hw'
    rcases List.mem_cons.mp hw' with rfl | hw'
    · exact ⟨r, hw.2.mono (hws.1.trans h₃).created⟩
    · obtain ⟨r', hr'⟩ := hws.2 w' hw'
      exact ⟨r', hr'.mono h₃.created⟩

theorem safe_bulkWrite {ws : List GraceWrite}
    (hmade : ∀ w ∈ ws, ∃ r, s.Made w.gen w.payloadId r) :
    Prog.Safe (mongoInTime τ) Tracked Tracks (fun _ _ _ => True) h
      (MongoRepository.bulkWrite ws) s := by
  induction ws generalizing h s with
  | nil => exact fun _ _ _ => trivial
  | cons w ws ih =>
    intro s₁ h₁ hI₁ a s₂ hstep
    obtain ⟨r, hr⟩ := hmade w List.mem_cons_self
    obtain ⟨hI₂, h₂⟩ := updateOne_tracked hI₁ (hr.mono h₁.created) hstep
    refine ⟨hI₂, h₂, Prog.Safe.bind mongoInTime_law hI₂ ((ih fun w' hw' => ?_).mono ?_)⟩
    · obtain ⟨r', hr'⟩ := hmade w' (List.mem_cons_of_mem _ hw')
      exact ⟨r', hr'.mono (h₁.trans h₂).created⟩
    · exact fun _ _ _ _ _ _ _ _ => trivial

/-- `flush_grace_now`: the transitions taken from the batch were requested for records created
under their ids. -/
theorem safe_flushGraceNow :
    Prog.Safe (mongoInTime τ) Tracked Tracks (fun _ _ _ => True) h
      MongoRepository.flushGraceNow s := by
  intro s₁ _ hI₁ pending s₂ hstep
  obtain ⟨rfl, rfl⟩ := takePending_cases hstep.1
  obtain ⟨hI₂, h₂⟩ := Tracked.noted
    (hI₁.of_eq { s₁ with pending := [] } le_rfl rfl rfl rfl rfl fun p hp =>
      absurd hp List.not_mem_nil)
  refine ⟨hI₂, h₂, ?_⟩
  have hmade (p) (hp : p ∈ s₁.pending) :
      ∃ r, ({ s₁ with pending := [] } : Collection τ).noted.Made p.gen p.payloadId r :=
    hI₁.pending p hp
  match s₁.pending, hmade with
  | [], _ => exact fun _ _ _ => trivial
  | p :: ps, hmade =>
    refine Prog.Safe.bind mongoInTime_law hI₂ ((safe_graceUpdates hI₂ hmade).mono
      fun _ ws s₃ hI₃ hws => ?_)
    refine Prog.Safe.bind mongoInTime_law hI₃ ((safe_bulkWrite hws).mono ?_)
    exact fun _ _ _ _ _ _ _ _ => trivial

theorem mem_enqueue {p p' : PendingGrace} {ps : List PendingGrace} (h : p' ∈ enqueue p ps) :
    p' = p ∨ p' ∈ ps := by
  induction ps with
  | nil => exact .inl (List.mem_singleton.mp h)
  | cons q ps ih =>
    rw [enqueue] at h
    split at h
    · exact (List.mem_cons.mp h).imp_right (List.mem_cons_of_mem _)
    · rcases List.mem_cons.mp h with rfl | h
      · exact .inr List.mem_cons_self
      · exact (ih h).imp_right (List.mem_cons_of_mem _)

theorem safe_markDemasked (repo : MongoRepository) (hs : s.Tracked)
    (hmade : s.Made gen payloadId r) :
    Prog.Safe (mongoInTime τ) Tracked Tracks (fun _ _ _ => True) h
      (repo.markDemasked payloadId grace gen) s := by
  unfold MongoRepository.markDemasked
  split
  · intro s₁ h₁ hI₁ size s₂ hstep
    obtain rfl := enqueueGrace_cases hstep.1
    obtain ⟨hI₂, h₂⟩ := Tracked.noted (hI₁.of_eq
      { s₁ with pending := enqueue ⟨payloadId, grace, gen⟩ s₁.pending } le_rfl rfl rfl rfl rfl
      fun p hp => by
        rcases mem_enqueue hp with rfl | hp
        · exact ⟨r, hmade.mono h₁.created⟩
        · exact hI₁.pending p hp)
    refine ⟨hI₂, h₂, ?_⟩
    dsimp only
    split
    · refine Prog.Safe.bind mongoInTime_law hI₂ (safe_flushGraceNow.mono ?_)
      exact fun _ _ _ _ _ _ _ _ => trivial
    · exact fun _ _ _ => trivial
  · refine Prog.Safe.bind mongoInTime_law hs ((safe_graceUpdate hmade).mono fun _ w s₁ _ hw => ?_)
    intro s₂ h₂ hI₂ a s₃ hstep
    obtain ⟨hI₃, h₃⟩ := updateOne_tracked hI₂ (hw.mono h₂.created) hstep
    exact ⟨hI₃, h₃, fun _ _ _ => trivial⟩

/-- `get` returns a record that was created under the id. -/
theorem safe_get :
    Prog.Safe (mongoInTime τ) Tracked Tracks
      (fun _ a s' => ∀ doc, a = .ok (some doc) → s'.Made doc.gen payloadId doc.record) h
      (MongoRepository.get payloadId) s := by
  intro s₁ h₁ hI₁ a s₂ hstep
  obtain ⟨rfl, ha⟩ := findOne_cases hstep.1
  refine ⟨hI₁.quiet.1, hI₁.quiet.2, ?_⟩
  rcases ha with rfl | rfl
  · cases hdoc : s₁.docs payloadId with
    | none => exact fun _ _ _ _ => (nomatch ·)
    | some doc =>
      intro s₂ h₂ hI₂ now s₃ hnow
      obtain ⟨rfl, rfl⟩ := utcnow_cases hnow.1
      refine ⟨hI₂.quiet.1, hI₂.quiet.2, fun s₃ h₃ _ doc' hdoc' => ?_⟩
      have hmade := (hI₁.doc payloadId doc hdoc).1.mono
        (hI₁.quiet.2.trans (h₂.trans (hI₂.quiet.2.trans h₃))).created
      split at hdoc'
      · cases hdoc'
        exact hmade
      · cases hdoc'
  · exact fun _ _ _ _ => (nomatch ·)

theorem safe_readAndMark (repo : MongoRepository) (hs : s.Tracked) :
    Prog.Safe (mongoInTime τ) Tracked Tracks (fun _ _ _ => True) h
      (repo.readAndMark payloadId grace) s := by
  refine Prog.Safe.bind mongoInTime_law hs (safe_get.mono fun _ a s₁ hI₁ ha => ?_)
  match a, ha with
  | .error e, _ => exact fun _ _ _ => trivial
  | .ok none, _ => exact fun _ _ _ => trivial
  | .ok (some doc), ha =>
    dsimp only
    split
    · exact fun _ _ _ => trivial
    · exact safe_markDemasked repo hI₁ (ha doc rfl)

theorem safe_claimExpired_tracked {record : MappingRecord} {expiresAt : ℚ} :
    Prog.Safe (mongoInTime τ) Tracked Tracks (fun _ _ _ => True) h
      (MongoRepository.claimExpired owner payloadId record expiresAt) s := by
  intro s₁ _ hI₁ cutoff s₂ hcutoff
  obtain ⟨rfl, rfl⟩ := utcnow_cases hcutoff.1
  refine ⟨hI₁.quiet.1, hI₁.quiet.2, ?_⟩
  intro s₂ h₂ hI₂ a s₃ hstep
  rcases replaceExpired_cases hstep.1 with ⟨doc, hdoc, hexpired, rfl, -⟩ | ⟨rfl, -⟩
  · have hfree (doc' : MongoDoc) (hdoc' : s₂.docs payloadId = some doc') :
        doc'.expiresAt ≤ s₂.now := by
      obtain rfl := Option.some.inj (hdoc.symm.trans hdoc')
      exact hexpired.trans h₂.now_le
    obtain ⟨hI₃, h₃⟩ := Tracked.noted (hI₂.create hfree)
    exact ⟨hI₃, h₃, fun _ _ _ => trivial⟩
  · exact ⟨hI₂.quiet.1, hI₂.quiet.2, fun _ _ _ => trivial⟩

theorem safe_ensureIndexesLazy_tracked :
    Prog.Safe (mongoInTime τ) Tracked Tracks (fun _ _ _ => True) h
      MongoRepository.ensureIndexesLazy s := by
  intro s₁ _ hI₁ due s₂ hdue
  obtain rfl := indexesDue_cases hdue.1
  refine ⟨hI₁.quiet.1, hI₁.quiet.2, ?_⟩
  match due with
  | true =>
    intro s₃ _ hI₃ a s₄ hstep
    obtain rfl := createIndex_cases hstep.1
    exact ⟨hI₃.quiet.1, hI₃.quiet.2, fun _ _ _ => trivial⟩
  | false => exact fun _ _ _ => trivial

theorem safe_saveIfAbsent_tracked {record : MappingRecord} (hs : s.Tracked) :
    Prog.Safe (mongoInTime τ) Tracked Tracks (fun _ _ _ => True) h
      (MongoRepository.saveIfAbsent owner payloadId record ttl) s := by
  refine Prog.Safe.bind mongoInTime_law hs
    (safe_ensureIndexesLazy_tracked.mono fun _ _ s₁ _ _ => ?_)
  intro s₂ _ hI₂ now s₃ hnow
  obtain ⟨rfl, rfl⟩ := utcnow_cases hnow.1
  refine ⟨hI₂.quiet.1, hI₂.quiet.2, ?_⟩
  intro s₃ _ hI₃ a s₄ hstep
  have hkept : s₄.Tracked ∧ s₃.Tracks s₄ := by
    rcases insertOne_cases hstep.1 with ⟨hnone, rfl, -⟩ | ⟨rfl, -⟩
    · exact Tracked.noted (hI₃.create fun doc hdoc => by rw [hnone] at hdoc; cases hdoc)
    · exact hI₃.quiet
  refine ⟨hkept.1, hkept.2, ?_⟩
  match a with
  | .ok () => exact fun _ _ _ => trivial
  | .error .duplicateKey => exact safe_claimExpired_tracked
  | .error .other => exact fun _ _ _ => trivial

end

/-! ### The programs of the Redis store -/

/-- The Redis database whose grace transitions are applied in time. -/
def redisInTime (τ : Type) : Sys (Collection τ) (RedisOp τ) RedisOp.Answer :=
  (redis τ).restrict fun e s _ _ => s.InRedisTime e

theorem redisInTime_law : Prog.Law (redisInTime τ) Tracked Tracks where
  refl := .refl
  trans := .trans
  env hs he := by
    obtain ⟨t, ht, rfl⟩ := he
    exact hs.tick ht

theorem visible_eq_some {doc : MongoDoc} :
    s.visible payloadId = some doc ↔ s.docs payloadId = some doc ∧ s.now < doc.expiresAt := by
  simp [visible, Option.filter_eq_some_iff]

section

variable {h : List (Prog.Event (RedisOp τ) RedisOp.Answer)} {owner : τ} {ttl grace : ℚ}

theorem safe_redis_saveIfAbsent {record : MappingRecord} :
    Prog.Safe (redisInTime τ) Tracked Tracks (fun _ _ _ => True) h
      (RedisStore.saveIfAbsent owner payloadId record ttl) s := by
  intro s₁ _ hI₁ a s₂ hstep
  obtain ⟨⟨-, rfl⟩, -⟩ := hstep
  have hkept : (s₁.applyRedis (.setNx owner payloadId record ttl)).2.Tracked ∧
      s₁.Tracks (s₁.applyRedis (.setNx owner payloadId record ttl)).2 := by
    cases hvisible : s₁.visible payloadId with
    | some doc =>
      simp only [applyRedis, hvisible]
      exact ⟨hI₁, .refl s₁⟩
    | none =>
      simp only [applyRedis, hvisible]
      refine hI₁.create fun doc hdoc => not_lt.mp fun hlt => ?_
      rw [visible_eq_some.mpr ⟨hdoc, hlt⟩] at hvisible
      cases hvisible
  exact ⟨hkept.1, hkept.2, fun _ _ _ => trivial⟩

/-- `MappingStore.mark_demasked`: if the record that the transition was requested for lives when it
is written back, it was the record that was read again. -/
theorem safe_redis_markDemasked (hmade : s.Made gen payloadId r) :
    Prog.Safe (redisInTime τ) Tracked Tracks (fun _ _ _ => True) h
      (RedisStore.markDemasked payloadId grace gen) s := by
  intro s₁ h₁ hI₁ a s₂ hstep
  obtain ⟨⟨rfl, heq⟩, -⟩ := hstep
  obtain rfl : s₁ = s₂ := heq.symm
  refine ⟨hI₁, .refl _, ?_⟩
  simp only [applyRedis]
  cases hread : s₁.visible payloadId with
  | none => exact fun _ _ _ => trivial
  | some doc =>
    intro s₂ h₂ hI₂ now s₃ hstep
    obtain ⟨⟨rfl, heq⟩, -⟩ := hstep
    obtain rfl : s₂ = s₃ := heq.symm
    refine ⟨hI₂, .refl _, ?_⟩
    intro s₃ h₃ hI₃ a s₄ hstep
    obtain ⟨⟨-, rfl⟩, hlives⟩ := hstep
    have hmade₁ : s₁.Made gen payloadId r := hmade.mono h₁.created
    have h₁₃ : s₁.Tracks s₃ := h₂.trans h₃
    -- the record lived when it was read again, so it is what was read
    have hlives₁ : s₁.Lives gen := h₁₃.dead gen hmade₁.lt hlives
    obtain ⟨doc₁, hdoc₁, hgen₁, hlt₁, -⟩ := hI₁.doc_of_lives hlives₁ hmade₁
    obtain rfl : doc₁ = doc := by
      rw [visible_eq_some.mpr ⟨hdoc₁, hlt₁⟩] at hread
      exact Option.some.inj hread
    have hmade₃ : s₃.Made gen payloadId doc₁.record :=
      hgen₁ ▸ (hI₁.doc payloadId doc₁ hdoc₁).1.mono h₁₃.created
    obtain ⟨doc₃, hdoc₃, hgen₃, hlt₃, -, htracked⟩ :=
      hI₃.grace hlives hmade₃ s₂.now (s₃.now + grace)
    have hvisible₃ : s₃.visible payloadId = some doc₃ := visible_eq_some.mpr ⟨hdoc₃, hlt₃⟩
    simp only [applyRedis, hvisible₃]
    exact ⟨htracked.1, htracked.2, fun _ _ _ => trivial⟩

theorem safe_redis_readAndMark :
    Prog.Safe (redisInTime τ) Tracked Tracks (fun _ _ _ => True) h
      (RedisStore.readAndMark payloadId grace) s := by
  intro s₁ _ hI₁ a s₂ hstep
  obtain ⟨⟨rfl, heq⟩, -⟩ := hstep
  obtain rfl : s₁ = s₂ := heq.symm
  refine ⟨hI₁, .refl _, ?_⟩
  simp only [applyRedis, Prog.bind_ret]
  cases hread : s₁.visible payloadId with
  | none => exact fun _ _ _ => trivial
  | some doc =>
    dsimp only
    split
    · exact fun _ _ _ => trivial
    · exact safe_redis_markDemasked (hI₁.doc payloadId doc (visible_eq_some.mp hread).1).1

theorem safe_redis_get :
    Prog.Safe (redisInTime τ) Tracked Tracks (fun _ _ _ => True) h
      (RedisStore.get payloadId) s := by
  intro s₁ _ hI₁ a s₂ hstep
  obtain ⟨⟨-, heq⟩, -⟩ := hstep
  obtain rfl : s₁ = s₂ := heq.symm
  exact ⟨hI₁, .refl _, fun _ _ _ => trivial⟩

end

end Collection

/-! ### Every interleaving -/

/-- The requests that reach a store: creation, reading, reading with a transition to grace, and the
flush of the batch. -/
inductive StoreRequest where
  | save (payloadId : Text) (record : MappingRecord) (ttl : ℚ)
  | read (payloadId : Text)
  | readAndMark (payloadId : Text) (grace : ℚ)
  | flush

namespace StoreRequest

variable {τ : Type}

/-- A request to the Mongo repository. -/
def mongo (repo : MongoRepository) (owner : τ) : StoreRequest → MongoProg τ Unit
  | .save payloadId record ttl =>
    (MongoRepository.saveIfAbsent owner payloadId record ttl).bind fun _ => .ret ()
  | .read payloadId => (MongoRepository.get payloadId).bind fun _ => .ret ()
  | .readAndMark payloadId grace => (repo.readAndMark payloadId grace).bind fun _ => .ret ()
  | .flush => MongoRepository.flushGraceNow.bind fun _ => .ret ()

/-- A request to the Redis store, which has no batch. -/
def redis (owner : τ) : StoreRequest → RedisProg τ Unit
  | .save payloadId record ttl =>
    (RedisStore.saveIfAbsent owner payloadId record ttl).bind fun _ => .ret ()
  | .read payloadId => (RedisStore.get payloadId).bind fun _ => .ret ()
  | .readAndMark payloadId grace => RedisStore.readAndMark payloadId grace
  | .flush => .ret ()

theorem safe_mongo (repo : MongoRepository) (owner : τ) (request : StoreRequest)
    {s : Collection τ} (hs : s.Tracked) :
    Prog.Safe (Collection.mongoInTime τ) Collection.Tracked Collection.Tracks (fun _ _ _ => True) []
      (request.mongo repo owner) s := by
  have hL := Collection.mongoInTime_law (τ := τ)
  cases request with
  | save payloadId record ttl =>
    exact Prog.Safe.bind hL hs ((Collection.safe_saveIfAbsent_tracked hs).mono
      fun _ _ _ _ _ _ _ _ => trivial)
  | read payloadId =>
    exact Prog.Safe.bind hL hs (Collection.safe_get.mono fun _ _ _ _ _ _ _ _ => trivial)
  | readAndMark payloadId grace =>
    exact Prog.Safe.bind hL hs ((Collection.safe_readAndMark repo hs).mono
      fun _ _ _ _ _ _ _ _ => trivial)
  | flush =>
    exact Prog.Safe.bind hL hs (Collection.safe_flushGraceNow.mono
      fun _ _ _ _ _ _ _ _ => trivial)

theorem safe_redis (owner : τ) (request : StoreRequest) {s : Collection τ} (hs : s.Tracked) :
    Prog.Safe (Collection.redisInTime τ) Collection.Tracked Collection.Tracks (fun _ _ _ => True) []
      (request.redis owner) s := by
  have hL := Collection.redisInTime_law (τ := τ)
  cases request with
  | save payloadId record ttl =>
    exact Prog.Safe.bind hL hs (Collection.safe_redis_saveIfAbsent.mono
      fun _ _ _ _ _ _ _ _ => trivial)
  | read payloadId =>
    exact Prog.Safe.bind hL hs (Collection.safe_redis_get.mono fun _ _ _ _ _ _ _ _ => trivial)
  | readAndMark payloadId grace => exact Collection.safe_redis_readAndMark
  | flush => exact fun _ _ _ => trivial

end StoreRequest

/-- **Grace transitions in time are harmless.** Concurrent requests to a Mongo repository, with or
without a batch, and to a Redis store, both empty at first: if every grace transition is applied
before the expiry of the record it was requested for (or, on Mongo, when the id has no document),
then each has changed nothing but that record. -/
theorem graceTransition_harmless {ι : Type} [DecidableEq ι] (repo : MongoRepository)
    (requests : ι → StoreRequest) (now : ℚ) :
    (∀ c, Prog.Steps ((collection ι).restrict fun e s _ _ => s.InGraceTime e)
        ({ now, docs := fun _ => none }, fun i => Prog.start ((requests i).mongo repo i)) c →
      ∀ e ∈ c.1.graced, e.Harmless) ∧
    ∀ c, Prog.Steps ((redis ι).restrict fun e s _ _ => s.InRedisTime e)
        ({ now, docs := fun _ => none }, fun i => Prog.start ((requests i).redis i)) c →
      ∀ e ∈ c.1.graced, e.Harmless := by
  have hempty : Collection.Tracked ({ now, docs := fun _ => none } : Collection ι) :=
    ⟨fun _ _ => (nomatch ·), fun _ ⟨_, h, _⟩ => (nomatch h), fun _ _ => (nomatch ·),
      fun _ h => absurd h List.not_mem_nil, fun _ h => absurd h List.not_mem_nil⟩
  constructor
  · intro c hc
    exact (hc.safe Collection.mongoInTime_law hempty fun i =>
      (requests i).safe_mongo repo i hempty).1.graced
  · intro c hc
    exact (hc.safe Collection.redisInTime_law hempty fun i =>
      (requests i).safe_redis i hempty).1.graced

/-- A record that lives for ten seconds is created and demasked, and the batch is flushed. After it
has expired, the next record of the id is created. -/
def demaskOnce : Fin 4 → StoreRequest
  | 0 => .save "p".toList plainRecord 10
  | 1 => .readAndMark "p".toList 5
  | 2 => .flush
  | 3 => .save "p".toList plainRecord 10

/-- Nothing is stored. -/
def nothingStored : Collection (Fin 4) := { now := 0, docs := fun _ => none }

/-- The requests to the Mongo repository with a batch. -/
def mongoThreads (i : Fin 4) : Prog.Thread (MongoOp (Fin 4)) MongoOp.Answer Unit :=
  Prog.start ((demaskOnce i).mongo {} i)

/-- The requests to the Redis store. -/
def redisThreads (i : Fin 4) : Prog.Thread (RedisOp (Fin 4)) RedisOp.Answer Unit :=
  Prog.start ((demaskOnce i).redis i)

private theorem handle_inGraceTime (e : MongoOp (Fin 4)) (s : Collection (Fin 4))
    (h : decide (s.InGraceTime e) = true) :
    ((collection (Fin 4)).restrict fun e s _ _ => s.InGraceTime e).handle e s
      (Collection.respond e s).1 (Collection.respond e s).2 :=
  ⟨Collection.handle_respond e s, of_decide_eq_true h⟩

private theorem handle_applyRedis (e : RedisOp (Fin 4)) (s : Collection (Fin 4)) :
    (redis (Fin 4)).handle e s (s.applyRedis e).1 (s.applyRedis e).2 := ⟨rfl, rfl⟩

private theorem handle_inRedisTime (e : RedisOp (Fin 4)) (s : Collection (Fin 4))
    (h : decide (s.InRedisTime e) = true) :
    ((redis (Fin 4)).restrict fun e s _ _ => s.InRedisTime e).handle e s
      (s.applyRedis e).1 (s.applyRedis e).2 :=
  ⟨handle_applyRedis e s, of_decide_eq_true h⟩

/-- The record is demasked at once, on both stores. -/
theorem graceTransition_harmless_at_once :
    (∃ c, Prog.Steps ((collection (Fin 4)).restrict fun e s _ _ => s.InGraceTime e)
        (nothingStored, mongoThreads) c ∧ c.1.graced.length = 1 ∧ ∀ e ∈ c.1.graced, e.Harmless) ∧
    ∃ c, Prog.Steps ((redis (Fin 4)).restrict fun e s _ _ => s.InRedisTime e)
        (nothingStored, redisThreads) c ∧ c.1.graced.length = 1 ∧
      ∀ e ∈ c.1.graced, e.Harmless := by
  obtain ⟨hmongo, hredis⟩ := graceTransition_harmless {} demaskOnce 0
  constructor
  · let c := Prog.advances Collection.respond
      (List.replicate 3 0 ++ List.replicate 3 1 ++ List.replicate 4 2) (nothingStored, mongoThreads)
    have hrun : Prog.Steps ((collection (Fin 4)).restrict fun e s _ _ => s.InGraceTime e)
        (nothingStored, mongoThreads) c :=
      Prog.steps_of_checks handle_inGraceTime _ _ (by decide +kernel)
    exact ⟨c, hrun, by decide +kernel, hmongo c hrun⟩
  · let c := Prog.advances (fun e s => s.applyRedis e)
      (0 :: List.replicate 4 1) (nothingStored, redisThreads)
    have hrun : Prog.Steps ((redis (Fin 4)).restrict fun e s _ _ => s.InRedisTime e)
        (nothingStored, redisThreads) c :=
      Prog.steps_of_checks handle_inRedisTime _ _ (by decide +kernel)
    exact ⟨c, hrun, by decide +kernel, hredis c hrun⟩

/-- The transition has changed a record that it was not requested for, or has stored one where
there was none. -/
def GraceEffect.harmful (e : GraceEffect) : Bool :=
  match e.before with
  | none => e.after.isSome
  | some doc => decide (doc.gen ≠ e.gen) && decide (e.after ≠ some doc)

theorem GraceEffect.not_harmless {e : GraceEffect} (h : e.harmful = true) : ¬ e.Harmless := by
  rw [harmful] at h
  rintro (heq | ⟨doc, t, x, hbefore, hgen, -, -⟩)
  · cases hbefore : e.before with
    | none => simp [hbefore, heq] at h
    | some doc => simp [hbefore, heq] at h
  · simp [hbefore, hgen] at h

/-- **Late transitions.** On the Mongo repository the batch is flushed after the record has expired
and the next one has been created: the next record is moved to grace. On the Redis store the record
expires between the second read and the write: it is stored again. -/
theorem graceTransition_late :
    (∃ c, Prog.Steps (collection (Fin 4)) (nothingStored, mongoThreads) c ∧
      ∃ e ∈ c.1.graced, ¬ e.Harmless) ∧
    ∃ c, Prog.Steps (redis (Fin 4)) (nothingStored, redisThreads) c ∧
      ∃ e ∈ c.1.graced, ¬ e.Harmless := by
  constructor
  · let c₁ := Prog.advances Collection.respond (List.replicate 3 0 ++ List.replicate 3 1)
      (nothingStored, mongoThreads)
    let c₂ := ({ c₁.1 with now := 20 }.noted, c₁.2)
    let c₃ := Prog.advances Collection.respond (List.replicate 5 3 ++ List.replicate 4 2) c₂
    have h₁ : Prog.Steps (collection (Fin 4)) (nothingStored, mongoThreads) c₁ :=
      Prog.steps_advances Collection.handle_respond _ _
    have h₂ : Prog.Step (collection (Fin 4)) c₁ c₂ := .env (.inl ⟨20, by decide +kernel, rfl⟩)
    have h₃ : Prog.Steps (collection (Fin 4)) c₂ c₃ :=
      Prog.steps_advances Collection.handle_respond _ _
    have hharm : c₃.1.graced.any GraceEffect.harmful = true := by decide +kernel
    obtain ⟨e, he, heharm⟩ := List.any_eq_true.mp hharm
    exact ⟨c₃, (h₁.tail h₂).trans h₃, e, he, GraceEffect.not_harmless heharm⟩
  · let c₁ := Prog.advances (fun e s => s.applyRedis e) (0 :: List.replicate 3 1)
      (nothingStored, redisThreads)
    let c₂ := ({ c₁.1 with now := 20 }, c₁.2)
    let c₃ := Prog.advances (fun e s => s.applyRedis e) [1] c₂
    have h₁ : Prog.Steps (redis (Fin 4)) (nothingStored, redisThreads) c₁ :=
      Prog.steps_advances handle_applyRedis _ _
    have h₂ : Prog.Step (redis (Fin 4)) c₁ c₂ := .env ⟨20, by decide +kernel, rfl⟩
    have h₃ : Prog.Steps (redis (Fin 4)) c₂ c₃ :=
      Prog.steps_advances handle_applyRedis _ _
    have hharm : c₃.1.graced.any GraceEffect.harmful = true := by decide +kernel
    obtain ⟨e, he, heharm⟩ := List.any_eq_true.mp hharm
    exact ⟨c₃, (h₁.tail h₂).trans h₃, e, he, GraceEffect.not_harmless heharm⟩

end PiiProxy
