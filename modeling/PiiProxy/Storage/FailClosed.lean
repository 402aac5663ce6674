import PiiProxy.Core.Concurrency
import PiiProxy.Storage.Backends

/-!
# Fail-closed storage

The service over the resilient store, with backends whose every call may fail, applied or not, with
records that may expire or be evicted at any time, and with breakers that may be in any state. The
invariant is that a record held by the authority or by the cache was created by the authority, up to
its grace fields; every operation of the store keeps it, under every pattern of failures.

## Main definitions

* `faultyBackends`: the two backends under every pattern of failures.
* `Backends.Sound`: the invariant. `Backends.Grows`: what may happen to the log.
* `authFault`: the authority refused or failed in a call.
* `Backends.Backed`: a masked text that was handed out has a record.

## Main results

* `ResilientStore.absent_of_get`, `ResilientStore.created_of_saveIfAbsent`,
  `ResilientStore.authFault_of_get`, `ResilientStore.authFault_of_saveIfAbsent`,
  `ResilientStore.markDemasked_ok`: what the answers of the store mean.
* `ResilientStore.safe_run`: every operation of the store keeps the invariant.
* `ProcessService.implement_safe`: a request over the store is safe.
* `ProcessService.fail_closed`: fail-closed storage semantics end to end.
-/

namespace PiiProxy

/-! ### The answers of the store -/

/-- The authority refused or failed. -/
def authFault : Prog.Event BackendOp BackendOp.Answer → Bool
  | ⟨.allow .auth, false⟩ => true
  | ⟨.backend .auth _, .error _⟩ => true
  | _ => false

namespace ResilientStore

variable {store : ResilientStore} {h : List (Prog.Event BackendOp BackendOp.Answer)}
  {payloadId : Text} {record : MappingRecord} {ttl grace : ℚ}

/-- A call of the authority that returns was answered by the authority, and one that raises met a
fault of the authority. -/
private theorem authCall_trace {op : StoreOp} {a : Except StoreFault op.Result}
    (ht : (store.authCall op).Trace h a) :
    (∀ r, a = .ok r → ⟨.backend .auth op, .ok r⟩ ∈ h) ∧
      (∀ fault, a = .error fault → h.any authFault = true) := by
  cases ht with
  | @call _ _ allowed h₁ _ ht =>
    cases allowed with
    | false =>
      cases ht
      exact ⟨fun r hr => (by cases hr), fun _ _ => rfl⟩
    | true =>
      cases ht with
      | @call _ _ r h₂ _ ht =>
        cases r with
        | error fault =>
          cases ht with
          | call ht =>
            cases ht
            exact ⟨fun r hr => (by cases hr), fun _ _ => rfl⟩
        | ok r =>
          cases ht with
          | call ht =>
            cases ht
            refine ⟨fun r' hr' => ?_, fun fault hf => (by cases hf)⟩
            cases hr'
            exact List.mem_cons_of_mem _ List.mem_cons_self

private theorem readThrough_trace {backfill : Bool}
    {a : Except StoreFault (Option MappingRecord)}
    (ht : (store.readThrough payloadId backfill).Trace h a) :
    (a = .ok none → ⟨.backend .auth (.get payloadId), .ok none⟩ ∈ h) ∧
      (∀ fault, a = .error fault → h.any authFault = true) := by
  obtain ⟨h₁, h₂, b, rfl, hauth, ht⟩ := ht.bind_inv
  obtain ⟨hok, herror⟩ := authCall_trace hauth
  match b, ht with
  | .error fault, ht =>
    cases ht
    refine ⟨fun ha => (by cases ha), fun _ _ => ?_⟩
    rw [List.any_append, herror fault rfl, Bool.true_or]
  | .ok none, ht =>
    cases ht
    exact ⟨fun _ => List.mem_append_left _ (hok none rfl), fun _ ha => (by cases ha)⟩
  | .ok (some record), ht =>
    simp only [afterAuthGet] at ht
    split_ifs at ht
    · obtain ⟨h₃, h₄, c, rfl, -, ht⟩ := ht.bind_inv
      cases ht
      exact ⟨fun ha => (by cases ha), fun _ ha => (by cases ha)⟩
    · cases ht
      exact ⟨fun ha => (by cases ha), fun _ ha => (by cases ha)⟩

private theorem get_trace {a : Except StoreFault (Option MappingRecord)}
    (ht : (store.get payloadId).Trace h a) :
    (a = .ok none → ⟨.backend .auth (.get payloadId), .ok none⟩ ∈ h) ∧
      (∀ fault, a = .error fault → h.any authFault = true) := by
  obtain ⟨h₁, h₂, cached, rfl, -, ht⟩ := ht.bind_inv
  have hmiss (backfill : Bool) (ht : (store.readThrough payloadId backfill).Trace h₂ a) :
      (a = .ok none → ⟨.backend .auth (.get payloadId), .ok none⟩ ∈ h₁ ++ h₂) ∧
        (∀ fault, a = .error fault → (h₁ ++ h₂).any authFault = true) := by
    obtain ⟨hok, herror⟩ := readThrough_trace ht
    refine ⟨fun ha => List.mem_append_right _ (hok ha), fun fault ha => ?_⟩
    rw [List.any_append, herror fault ha, Bool.or_true]
  match cached, ht with
  | some (some cached), ht =>
    cases ht
    exact ⟨fun ha => (by cases ha), fun _ ha => (by cases ha)⟩
  | some none, ht => exact hmiss true ht
  | none, ht => exact hmiss false ht

/-- `get` returns nothing only if the authority was asked in the same call and has no record. -/
theorem absent_of_get (ht : (store.get payloadId).Trace h (.ok none)) :
    ⟨.backend .auth (.get payloadId), .ok none⟩ ∈ h :=
  (get_trace ht).1 rfl

/-- `get` raises only on a fault of the authority. -/
theorem authFault_of_get {fault : StoreFault} (ht : (store.get payloadId).Trace h (.error fault)) :
    h.any authFault = true :=
  (get_trace ht).2 fault rfl

private theorem saveIfAbsent_trace {a : Except StoreFault Bool}
    (ht : (store.saveIfAbsent payloadId record ttl).Trace h a) :
    (a = .ok true → ⟨.backend .auth (.saveIfAbsent payloadId record ttl), .ok true⟩ ∈ h) ∧
      (∀ fault, a = .error fault → h.any authFault = true) := by
  obtain ⟨h₁, h₂, b, rfl, hauth, ht⟩ := ht.bind_inv
  obtain ⟨hok, herror⟩ := authCall_trace hauth
  match b, ht with
  | .error fault, ht =>
    cases ht
    refine ⟨fun ha => (by cases ha), fun _ _ => ?_⟩
    rw [List.any_append, herror fault rfl, Bool.true_or]
  | .ok false, ht =>
    cases ht
    exact ⟨fun ha => (by cases ha), fun _ ha => (by cases ha)⟩
  | .ok true, ht =>
    obtain ⟨h₃, h₄, c, rfl, -, ht⟩ := ht.bind_inv
    cases ht
    exact ⟨fun _ => List.mem_append_left _ (hok true rfl), fun _ ha => (by cases ha)⟩

/-- `save_if_absent` returns `True` only if the authority created the record in the same call. -/
theorem created_of_saveIfAbsent
    (ht : (store.saveIfAbsent payloadId record ttl).Trace h (.ok true)) :
    ⟨.backend .auth (.saveIfAbsent payloadId record ttl), .ok true⟩ ∈ h :=
  (saveIfAbsent_trace ht).1 rfl

/-- `save_if_absent` raises only on a fault of the authority. -/
theorem authFault_of_saveIfAbsent {fault : StoreFault}
    (ht : (store.saveIfAbsent payloadId record ttl).Trace h (.error fault)) :
    h.any authFault = true :=
  (saveIfAbsent_trace ht).2 fault rfl

/-- `mark_demasked` never raises. -/
theorem markDemasked_ok {a : Except StoreFault Unit}
    (ht : (store.markDemasked payloadId grace).Trace h a) : a = .ok () := by
  obtain ⟨h₁, h₂, -, rfl, -, ht⟩ := ht.bind_inv
  obtain ⟨h₃, h₄, cached, rfl, -, ht⟩ := ht.bind_inv
  match cached, ht with
  | some (some cached), ht =>
    cases ht with
    | call ht =>
      obtain ⟨h₅, h₆, -, rfl, -, ht⟩ := ht.bind_inv
      cases ht
      rfl
  | some none, ht =>
    cases ht
    rfl
  | none, ht =>
    cases ht
    rfl

end ResilientStore

/-! ### Backends that fail -/

namespace Backends

variable (s : Backends)

/-- A record created under the payload id, up to the grace fields. -/
def Known (payloadId : Text) (record : MappingRecord) : Prop :=
  ∃ r₀ ∈ s.created payloadId, record.core = r₀.core

/-- Every record that a backend holds was created by the authority under its payload id. -/
def Sound : Prop := ∀ tier payloadId record, s.held tier payloadId = some record →
  s.Known payloadId record

/-- No creation is forgotten. -/
def Grows (s s' : Backends) : Prop :=
  ∀ payloadId record, record ∈ s.created payloadId → record ∈ s'.created payloadId

/-- A record with the fingerprint of the payload that masks it to `masked` was created under the
payload id. -/
def Backed (svc : ProcessService) (payload payloadId masked : Text) : Prop :=
  ∃ r₀ ∈ s.created payloadId, r₀.originalFingerprint = svc.fingerprint payload ∧
    applyMaskFromRecord payload r₀ = masked

end Backends

/-- The operation is a grace transition. -/
def StoreOp.isGrace : StoreOp → Bool
  | .markDemasked .. => true
  | _ => false

/-- The backends under every pattern of failures. A call is applied and answered, or applied and
reported as failed, or it fails; a grace transition may be answered and left for later. Between
calls any entry may expire or be evicted, and the grace transition of a record created earlier may
be written to the authority. -/
def faultyBackends : Sys Backends BackendOp BackendOp.Answer :=
  Backends.system
    (fun tier op s r s' =>
      (∃ a, (s.apply tier op a s' ∨ op.isGrace = true ∧ s' = s) ∧
        (r = .ok a ∨ ∃ fault, r = .error fault)) ∨
        (s' = s ∧ ∃ fault, r = .error fault))
    fun s s' =>
      (∃ tier payloadId, s' = s.put tier payloadId none) ∨
        ∃ payloadId record now, record ∈ s.created payloadId ∧
          s' = s.put .auth payloadId (some (record.demasked now))

namespace Backends

variable {s s' : Backends} {tier : Tier} {payloadId : Text} {record : MappingRecord}

theorem Grows.trans {s₁ s₂ s₃ : Backends} (h₁ : s₁.Grows s₂) (h₂ : s₂.Grows s₃) : s₁.Grows s₃ :=
  fun payloadId record hmem => h₂ payloadId record (h₁ payloadId record hmem)

theorem Known.mono (h : s.Known payloadId record) (hs : s.Grows s') :
    s'.Known payloadId record := by
  obtain ⟨r₀, hr₀, hcore⟩ := h
  exact ⟨r₀, hs _ _ hr₀, hcore⟩

/-- Writing a known record, or none, keeps the invariant. -/
theorem Sound.put {entry : Option MappingRecord} (hs : s.Sound)
    (hentry : ∀ record, entry = some record → s.Known payloadId record) :
    (s.put tier payloadId entry).Sound := by
  intro tier' payloadId' record' hheld
  simp only [Backends.put] at hheld
  split_ifs at hheld with hid
  · obtain ⟨-, rfl⟩ := hid
    exact hentry record' hheld
  · exact hs tier' payloadId' record' hheld

theorem grows_log : s.Grows (s.log tier payloadId record) := by
  intro payloadId' record' hmem
  cases tier with
  | cache => exact hmem
  | auth =>
    simp only [log, Function.update_apply]
    split_ifs with hid
    · subst hid
      exact List.mem_append_left _ hmem
    · exact hmem

/-- The authority holds a record as soon as it has created it. -/
theorem Sound.create (hs : s.Sound) :
    ((s.put .auth payloadId (some record)).log .auth payloadId record).Sound := by
  intro tier' payloadId' record' hheld
  simp only [log, Backends.put] at hheld
  split_ifs at hheld with hid
  · obtain ⟨-, rfl⟩ := hid
    cases hheld
    exact ⟨record, by simp [log], rfl⟩
  · exact (hs tier' payloadId' record' hheld).mono (grows_log (s := s.put .auth _ _))

/-- The calls that the store may make in the state `s`: only known records are written, and only
the authority creates. -/
def Permits (s : Backends) (tier : Tier) : StoreOp → Prop
  | .saveIfAbsent .. => tier = .auth
  | .update payloadId record _ => s.Known payloadId record
  | _ => True

/-- What an answer says about the log. -/
def Explains (s : Backends) : (op : StoreOp) → op.Result → Prop
  | .get payloadId, r => ∀ record, r = some record → s.Known payloadId record
  | .saveIfAbsent payloadId record _, r => r = true → record ∈ s.created payloadId
  | _, _ => True

theorem Permits.mono {op : StoreOp} (h : s.Permits tier op) (hs : s.Grows s') :
    s'.Permits tier op := by
  cases op with
  | saveIfAbsent payloadId record ttl => exact h
  | update payloadId record ttl => exact Known.mono h hs
  | get _ | delete _ | markDemasked _ _ => trivial

theorem Explains.mono {op : StoreOp} {a : op.Result} (h : s.Explains op a) (hs : s.Grows s') :
    s'.Explains op a := by
  cases op with
  | get payloadId => exact fun record hr => (h record hr).mono hs
  | saveIfAbsent payloadId record ttl => exact fun ha => hs _ _ (h ha)
  | update _ _ _ | delete _ | markDemasked _ _ => trivial

/-- **One call of a backend.** A permitted call keeps the invariant, and its answer is explained by
the log. -/
theorem Sound.apply {op : StoreOp} {a : op.Result} (hs : s.Sound) (hop : s.Permits tier op)
    (happly : s.apply tier op a s') : s'.Sound ∧ s.Grows s' ∧ s'.Explains op a := by
  cases op with
  | get payloadId =>
    obtain ⟨rfl, rfl⟩ := happly
    exact ⟨hs, fun _ _ => id, fun record hr => hs tier payloadId record hr⟩
  | saveIfAbsent payloadId record ttl =>
    obtain rfl : tier = .auth := hop
    rcases happly with ⟨-, rfl, rfl⟩ | ⟨-, rfl, rfl⟩
    · exact ⟨hs.create, grows_log (s := s.put .auth _ _), fun _ => by simp [log]⟩
    · exact ⟨hs, fun _ _ => id, fun ha => (by cases ha)⟩
  | update payloadId record ttl =>
    obtain rfl := happly
    refine ⟨hs.put fun record' hr => ?_, fun _ _ => id, trivial⟩
    cases hr
    exact hop
  | delete payloadId =>
    obtain rfl := happly
    exact ⟨hs.put fun _ hr => (by cases hr), fun _ _ => id, trivial⟩
  | markDemasked payloadId grace =>
    obtain ⟨now, rfl⟩ := happly
    refine ⟨hs.put fun record' hr => ?_, fun _ _ => id, trivial⟩
    obtain ⟨record, hheld, rfl⟩ := Option.map_eq_some_iff.mp hr
    exact hs tier payloadId record hheld

/-- The same when a grace transition is left for later. -/
theorem Sound.applyOrDefer {op : StoreOp} {a : op.Result} (hs : s.Sound) (hop : s.Permits tier op)
    (happly : s.apply tier op a s' ∨ op.isGrace = true ∧ s' = s) :
    s'.Sound ∧ s.Grows s' ∧ s'.Explains op a := by
  rcases happly with happly | ⟨hgrace, rfl⟩
  · exact hs.apply hop happly
  · cases op with
    | markDemasked payloadId grace => exact ⟨hs, fun _ _ => id, trivial⟩
    | get _ | saveIfAbsent _ _ _ | update _ _ _ | delete _ => cases hgrace

/-- The invariant and the growth of the log are a law of the backends. -/
theorem law_backends : Prog.Law faultyBackends Sound Grows where
  refl _ _ _ := id
  trans h₁ h₂ := h₁.trans h₂
  env := by
    rintro s s' hs (⟨tier, payloadId, rfl⟩ | ⟨payloadId, record, now, hmem, rfl⟩)
    · exact ⟨hs.put fun _ hr => (by cases hr), fun _ _ => id⟩
    · refine ⟨hs.put fun record' hr => ?_, fun _ _ => id⟩
      cases hr
      exact ⟨record, hmem, rfl⟩

end Backends

/-! ### The store over backends that fail -/

/-- Safety of a program over the backends. -/
abbrev BackendSafe {α : Type} (Q : α → Backends → Prop)
    (h : List (Prog.Event BackendOp BackendOp.Answer)) (p : BackendProg α) (s : Backends) : Prop :=
  Prog.Safe faultyBackends Backends.Sound Backends.Grows (fun _ a s' => Q a s') h p s

namespace ResilientStore

open Backends

variable {α : Type} {Q : α → Backends → Prop} {store : ResilientStore} {s : Backends}
  {h : List (Prog.Event BackendOp BackendOp.Answer)} {op : StoreOp} {tier : Tier}

/-- A call of a breaker or of the clock changes neither the contents nor the log. -/
private theorem safe_silent {e : BackendOp} {k : e.Answer → BackendProg α}
    (he : ∀ tier op, e ≠ .backend tier op)
    (hk : ∀ r s', s.Grows s' → BackendSafe Q (h ++ [⟨e, r⟩]) (k r) s') :
    BackendSafe Q h (.call e k) s := by
  intro s₁ hs₁ hI₁ r s₂ hr
  cases e with
  | allow tier =>
    obtain ⟨-, rfl⟩ := hr
    exact ⟨hI₁, fun _ _ => id, hk r s₂ hs₁⟩
  | recordSuccess tier =>
    obtain rfl := hr
    exact ⟨hI₁, fun _ _ => id, hk r _ hs₁⟩
  | recordFailure tier =>
    obtain ⟨now, rfl⟩ := hr
    exact ⟨hI₁, fun _ _ => id, hk r _ hs₁⟩
  | backend tier op => exact absurd rfl (he tier op)
  | time =>
    obtain rfl := hr
    exact ⟨hI₁, fun _ _ => id, hk r s₂ hs₁⟩

/-- A permitted call of a backend: it may fail whether or not it was applied. -/
private theorem safe_backend
    {k : Except StoreFault op.Result → BackendProg α} (hop : s.Permits tier op)
    (hok : ∀ a s', s.Grows s' → s'.Explains op a →
      BackendSafe Q (h ++ [⟨.backend tier op, .ok a⟩]) (k (.ok a)) s')
    (herror : ∀ fault s', s.Grows s' →
      BackendSafe Q (h ++ [⟨.backend tier op, .error fault⟩]) (k (.error fault)) s') :
    BackendSafe Q h (.call (.backend tier op) k) s := by
  intro s₁ hs₁ hI₁ r s₂ hr
  rcases hr with ⟨a, happly, rfl | ⟨fault, rfl⟩⟩ | ⟨rfl, fault, rfl⟩
  · obtain ⟨hI₂, hs₂, ha⟩ := hI₁.applyOrDefer (hop.mono hs₁) happly
    exact ⟨hI₂, hs₂, hok a s₂ (hs₁.trans hs₂) ha⟩
  · obtain ⟨hI₂, hs₂, -⟩ := hI₁.applyOrDefer (hop.mono hs₁) happly
    exact ⟨hI₂, hs₂, herror fault s₂ (hs₁.trans hs₂)⟩
  · exact ⟨hI₁, fun _ _ => id, herror fault s₂ hs₁⟩

/-- A returned value is safe when its postcondition holds and is kept by the growth of the log. -/
private theorem safe_ret {a : α} (hQ : ∀ s', s.Grows s' → Q a s') : BackendSafe Q h (.ret a) s :=
  fun s' hs' _ => hQ s' hs'

/-- A guarded call that is permitted: an answer of the backend is explained by the log. -/
private theorem safe_guardedCall {refused failed : α} {answered : op.Result → α}
    (hop : s.Permits tier op) (hrefused : ∀ s', s.Grows s' → Q refused s')
    (hfailed : ∀ s', s.Grows s' → Q failed s')
    (hanswered : ∀ a s', s.Grows s' → s'.Explains op a → Q (answered a) s') :
    BackendSafe Q h (guardedCall tier op refused failed answered) s := by
  refine safe_silent (fun _ _ he => by cases he) fun allowed s₁ hs₁ => ?_
  cases allowed with
  | false => exact safe_ret fun s' hs' => hrefused s' (hs₁.trans hs')
  | true =>
    refine safe_backend (hop.mono hs₁) (fun a s₂ hs₂ ha => ?_) fun fault s₂ hs₂ => ?_
    · refine safe_silent (fun _ _ he => by cases he) fun _ s₃ hs₃ => safe_ret fun s' hs' => ?_
      have hgrows := hs₃.trans hs'
      exact hanswered a s' (hs₁.trans (hs₂.trans hgrows)) (ha.mono hgrows)
    · refine safe_silent (fun _ _ he => by cases he) fun _ s₃ hs₃ => safe_ret fun s' hs' => ?_
      exact hfailed s' (hs₁.trans (hs₂.trans (hs₃.trans hs')))

/-- A call of the authority, followed by the rest of an operation. -/
private theorem safe_authCall_bind {f : Except StoreFault op.Result → BackendProg α}
    (hs : s.Sound) (hop : s.Permits .auth op)
    (hok : ∀ h' a s', s'.Sound → s.Grows s' → s'.Explains op a → BackendSafe Q h' (f (.ok a)) s')
    (herror : ∀ h' fault s', s'.Sound → s.Grows s' → BackendSafe Q h' (f (.error fault)) s') :
    BackendSafe Q h ((store.authCall op).bind f) s := by
  have hcall : BackendSafe
      (fun r s' => s.Grows s' ∧ ∀ a, r = .ok a → s'.Explains op a) h (store.authCall op) s :=
    safe_guardedCall hop (fun _ hs' => ⟨hs', fun a ha => (by cases ha)⟩)
      (fun _ hs' => ⟨hs', fun a ha => (by cases ha)⟩)
      (fun a _ hs' ha => ⟨hs', fun a' ha' => by cases ha'; exact ha⟩)
  refine Prog.Safe.bind law_backends hs (hcall.mono fun h' r s' hI' hr => ?_)
  cases r with
  | error fault => exact herror h' fault s' hI' hr.1
  | ok a => exact hok h' a s' hI' hr.1 (hr.2 a rfl)

/-- A call of the cache, followed by the rest of an operation. -/
private theorem safe_cacheCall_bind {f : Option op.Result → BackendProg α}
    (hs : s.Sound) (hop : s.Permits .cache op)
    (hsome : ∀ h' a s', s'.Sound → s.Grows s' → s'.Explains op a →
      BackendSafe Q h' (f (some a)) s')
    (hnone : ∀ h' s', s'.Sound → s.Grows s' → BackendSafe Q h' (f none) s') :
    BackendSafe Q h ((store.cacheCall op).bind f) s := by
  have hcall : BackendSafe
      (fun r s' => s.Grows s' ∧ ∀ a, r = some a → s'.Explains op a) h (store.cacheCall op) s := by
    unfold cacheCall
    split_ifs
    · exact safe_ret fun s' hs' => ⟨hs', fun a ha => (by cases ha)⟩
    · exact safe_guardedCall hop (fun _ hs' => ⟨hs', fun a ha => (by cases ha)⟩)
        (fun _ hs' => ⟨hs', fun a ha => (by cases ha)⟩)
        (fun a _ hs' ha => ⟨hs', fun a' ha' => by cases ha'; exact ha⟩)
  refine Prog.Safe.bind law_backends hs (hcall.mono fun h' r s' hI' hr => ?_)
  cases r with
  | none => exact hnone h' s' hI' hr.1
  | some a => exact hsome h' a s' hI' hr.1 (hr.2 a rfl)

/-- A write to the cache after which nothing is asked of its outcome. -/
private theorem safe_writeCache {payloadId : Text} {record : MappingRecord} {ttl : ℚ} {a : α}
    (hs : s.Sound) (hrecord : s.Known payloadId record) (hQ : ∀ s', s.Grows s' → Q a s') :
    BackendSafe Q h
      ((store.cacheCall (.update payloadId record ttl)).bind fun _ => .ret a) s := by
  refine safe_cacheCall_bind hs hrecord (fun _ _ s₁ _ hs₁ _ => ?_) fun _ s₁ _ hs₁ => ?_
  · exact safe_ret fun s' hs' => hQ s' (hs₁.trans hs')
  · exact safe_ret fun s' hs' => hQ s' (hs₁.trans hs')

/-- What an operation of the store establishes: its answer is explained by the log. -/
def Accounted (op : StoreOp) (r : Except StoreFault op.Result) (s : Backends) : Prop :=
  ∀ a, r = .ok a → s.Explains op a

private theorem accounted_error {fault : StoreFault} : Accounted op (.error fault) s :=
  fun _ ha => (by cases ha)

private theorem accounted_ok {a : op.Result} (ha : s.Explains op a) : Accounted op (.ok a) s := by
  intro a' ha'
  cases ha'
  exact ha

private theorem safe_saveIfAbsent {payloadId : Text} {record : MappingRecord} {ttl : ℚ}
    (hs : s.Sound) : BackendSafe (Accounted (.saveIfAbsent payloadId record ttl)) h
      (store.saveIfAbsent payloadId record ttl) s := by
  refine safe_authCall_bind hs rfl (fun h₁ created s₁ hI₁ _ hcreated => ?_) fun _ _ s₁ _ _ => ?_
  · cases created with
    | false => exact safe_ret fun s' hs' => accounted_ok fun ha => (by cases ha)
    | true =>
      have hmem := hcreated rfl
      exact safe_writeCache hI₁ ⟨record, hmem, rfl⟩
        fun s' hs' => accounted_ok fun _ => hs' _ _ hmem
  · exact safe_ret fun _ _ => accounted_error

private theorem safe_readThrough {payloadId : Text} {backfill : Bool} (hs : s.Sound) :
    BackendSafe (Accounted (.get payloadId)) h (store.readThrough payloadId backfill) s := by
  refine safe_authCall_bind hs trivial (fun h₁ found s₁ hI₁ _ hfound => ?_) fun _ _ s₁ _ _ => ?_
  · cases found with
    | none => exact safe_ret fun s' _ => accounted_ok fun record hr => (by cases hr)
    | some record =>
      have hknown := hfound record rfl
      have hanswered (s' : Backends) (hs' : s₁.Grows s') :
          Accounted (.get payloadId) (.ok (some record)) s' :=
        @accounted_ok s' (.get payloadId) _ (Explains.mono hfound hs')
      simp only [afterAuthGet]
      split_ifs
      · exact safe_writeCache hI₁ hknown hanswered
      · exact safe_ret hanswered
  · exact safe_ret fun _ _ => accounted_error

private theorem safe_read {payloadId : Text} (hs : s.Sound) :
    BackendSafe (Accounted (.get payloadId)) h (store.get payloadId) s := by
  refine safe_cacheCall_bind hs trivial (fun h₁ cached s₁ hI₁ _ hcached => ?_) fun _ s₁ hI₁ _ => ?_
  · cases cached with
    | none => exact safe_readThrough hI₁
    | some record =>
      exact safe_ret fun s' hs' => @accounted_ok s' (.get payloadId) _ (Explains.mono hcached hs')
  · exact safe_readThrough hI₁

private theorem safe_markDemasked {payloadId : Text} {grace : ℚ} (hs : s.Sound) :
    BackendSafe (Accounted (.markDemasked payloadId grace)) h
      (store.markDemasked payloadId grace) s := by
  have hrefresh (h' : List (Prog.Event BackendOp BackendOp.Answer)) (s₁ : Backends)
      (hI₁ : s₁.Sound) : BackendSafe (Accounted (.markDemasked payloadId grace)) h'
        (store.refreshCache payloadId grace) s₁ := by
    refine safe_cacheCall_bind hI₁ trivial (fun _ cached s₂ hI₂ _ hcached => ?_) fun _ _ _ _ => ?_
    · cases cached with
      | none => exact safe_ret fun _ _ => accounted_ok trivial
      | some record =>
        intro s₃ hs₃ hI₃ now s₄ hr
        obtain rfl : s₄ = s₃ := hr
        have hknown : s₄.Known payloadId (record.demasked now) :=
          (hcached record rfl).mono hs₃
        exact ⟨hI₃, fun _ _ => id, safe_writeCache hI₃ hknown fun _ _ => accounted_ok trivial⟩
    · exact safe_ret fun _ _ => accounted_ok trivial
  exact safe_authCall_bind hs trivial (fun h₁ _ s₁ hI₁ _ _ => hrefresh h₁ s₁ hI₁)
    fun h₁ _ s₁ hI₁ _ => hrefresh h₁ s₁ hI₁

/-- **Every operation of the store keeps the invariant**, under every pattern of failures, and its
answer is explained by the log of creations. -/
theorem safe_run (hs : s.Sound) (hop : s.Permits .auth op) :
    BackendSafe (Accounted op) h (store.run op) s := by
  cases op with
  | get payloadId => exact safe_read hs
  | saveIfAbsent payloadId record ttl => exact safe_saveIfAbsent hs
  | update payloadId record ttl =>
    refine safe_authCall_bind hs hop (fun _ _ s₁ hI₁ hs₁ _ => ?_) fun _ _ _ _ _ => ?_
    · exact safe_writeCache hI₁ (Known.mono hop hs₁) fun _ _ => accounted_ok trivial
    · exact safe_ret fun _ _ => accounted_error
  | delete payloadId =>
    have hauth (h' : List (Prog.Event BackendOp BackendOp.Answer)) (s₁ : Backends) :
        BackendSafe (Accounted (.delete payloadId)) h' (store.authCall (.delete payloadId)) s₁ :=
      safe_guardedCall trivial (fun _ _ => accounted_error) (fun _ _ => accounted_error)
        fun _ _ _ _ => accounted_ok trivial
    exact safe_cacheCall_bind hs trivial (fun h₁ _ s₁ _ _ _ => hauth h₁ s₁)
      fun h₁ s₁ _ _ => hauth h₁ s₁
  | markDemasked payloadId grace => exact safe_markDemasked hs

end ResilientStore

/-! ### The service over the store -/

namespace ProcessService

open Backends ResilientStore

variable {svc : ProcessService} {store : ResilientStore} {s : Backends}
  {h : List (Prog.Event BackendOp BackendOp.Answer)} {payload payloadId : Text}
  {consumerId : Option Text} {consumer : ConsumerConfig}

/-- A masked text that a request hands out is backed by a record. -/
def HandsOutBacked (svc : ProcessService) (payload payloadId : Text)
    (a : Except ServiceError ProcessOutcome) (s : Backends) : Prop :=
  ∀ out, a = .ok out → out.direction = .mask ∨ out.direction = .retryMask →
    out.result ≠ payload → s.Backed svc payload payloadId out.result

private theorem handsOut_error {e : ServiceError} :
    svc.HandsOutBacked payload payloadId (.error e) s :=
  fun _ hout => (by cases hout)

private theorem handsOut_ok {out : ProcessOutcome}
    (h : out.direction = .mask ∨ out.direction = .retryMask →
      out.result ≠ payload → s.Backed svc payload payloadId out.result) :
    svc.HandsOutBacked payload payloadId (.ok out) s := by
  intro out' hout'
  cases hout'
  exact h

/-- A known record that has the fingerprint of the payload backs the text it masks it to. -/
private theorem backed_of_known {record : MappingRecord} (hknown : s.Known payloadId record)
    (hfp : record.originalFingerprint = svc.fingerprint payload) :
    s.Backed svc payload payloadId (applyMaskFromRecord payload record) := by
  obtain ⟨r₀, hr₀, hcore⟩ := hknown
  simp only [MappingRecord.core, MappingRecord.mk.injEq] at hcore
  obtain ⟨-, -, -, horiginal, -, -, -, -, hoccurrences, -⟩ := hcore
  refine ⟨r₀, hr₀, horiginal.symm.trans hfp, ?_⟩
  rw [applyMaskFromRecord, applyMaskFromRecord, hoccurrences]

private theorem answerWithoutStorage_handsOut :
    svc.HandsOutBacked payload payloadId (svc.answerWithoutStorage payload consumer) s := by
  unfold answerWithoutStorage
  split_ifs
  · exact handsOut_error
  · split
    · exact handsOut_error
    · split_ifs
      · exact handsOut_error
      · exact handsOut_ok fun _ hne => absurd rfl hne

/-- A call of the store, followed by the rest of a request. -/
private theorem safe_store {op : StoreOp}
    {k : Except StoreFault op.Result → StoreProg (Except ServiceError ProcessOutcome)}
    (hs : s.Sound) (hop : s.Permits .auth op)
    (hk : ∀ h' r s', s'.Sound → Accounted op r s' →
      BackendSafe (svc.HandsOutBacked payload payloadId) h' (store.implement (k r)) s') :
    BackendSafe (svc.HandsOutBacked payload payloadId) h
      (store.implement (.call (.store op) k)) s :=
  Prog.Safe.translate_call law_backends hs (safe_run hs hop) hk

private theorem implement_firstRequest_safe :
    BackendSafe (svc.HandsOutBacked payload payloadId) h
      (store.implement (svc.firstRequest payload payloadId consumer)) s := by
  cases htransform : svc.pipeline.process payload consumer.maskingMode consumer payloadId with
  | error e =>
    simp only [firstRequest, htransform]
    exact fun _ _ _ => handsOut_error
  | ok transform =>
    rw [svc.firstRequest_eq_call htransform]
    intro s₁ _ hI₁ now s₂ hr
    obtain rfl : s₂ = s₁ := hr
    refine ⟨hI₁, fun _ _ => id, ?_⟩
    have hmine := svc.isRecordOf_buildRecord htransform consumer.demask now
    refine safe_store hI₁ rfl fun h₃ r s₃ hI₃ hr => ?_
    rcases r with (message | _) | _ | _
    · simp only [afterSave]
      split_ifs with hnoPii
      · -- without a mapping the text is returned as it came
        have hnil : transform.mappings = [] := List.isEmpty_iff.mp hnoPii
        have htext := text_eq_of_mappings_eq_nil svc.pipeline.runtime htransform hnil
        exact fun _ _ _ => handsOut_ok fun _ hne => absurd htext hne
      · exact fun _ _ _ => handsOut_error
    · exact fun _ _ _ => handsOut_error
    · refine safe_store hI₃ trivial fun h₄ r s₄ hI₄ hr => ?_
      rcases r with fault | _ | winner
      · exact fun _ _ _ => handsOut_error
      · exact fun _ _ _ => handsOut_error
      · have hknown := hr _ rfl winner rfl
        simp only [answerFromWinner]
        split_ifs with hfp
        · exact fun _ _ _ => handsOut_error
        · exact fun s' hs' _ => handsOut_ok fun _ _ =>
            backed_of_known (hknown.mono hs') ((not_not.mp hfp).trans hmine.original)
    · have hmem := hr true rfl rfl
      exact fun s' hs' _ => handsOut_ok fun _ _ =>
        ⟨_, hs' _ _ hmem, hmine.original, hmine.mask⟩

/-- The grace transition of a request does not concern what it hands out. -/
private theorem safe_transition {record : MappingRecord} {a : Except ServiceError ProcessOutcome}
    (hs : s.Sound) (ha : ∀ s, svc.HandsOutBacked payload payloadId a s) :
    BackendSafe (svc.HandsOutBacked payload payloadId) h
      (store.implement ((svc.transitionToGrace payloadId record).bind fun _ => .ret a)) s := by
  unfold transitionToGrace
  split_ifs
  · exact fun s' _ _ => ha s'
  · exact safe_store hs trivial fun _ _ _ _ _ s' _ _ => ha s'

private theorem implement_answerFromRecord_safe {record : MappingRecord} (hs : s.Sound)
    (hknown : s.Known payloadId record) :
    BackendSafe (svc.HandsOutBacked payload payloadId) h
      (store.implement (svc.answerFromRecord payload payloadId consumer record)) s := by
  have hdemask (result : Text) (s' : Backends) : svc.HandsOutBacked payload payloadId
      (.ok { result := result, direction := .demask }) s' := by
    refine handsOut_ok ?_
    rintro (hdir | hdir) <;> cases hdir
  unfold answerFromRecord
  split_ifs with hfp
  · exact fun s' hs' _ => handsOut_ok fun _ _ => backed_of_known (hknown.mono hs') hfp.symm
  · exact fun s' _ _ => hdemask payload s'
  · exact safe_transition hs (hdemask _)
  · cases svc.demask payload record.mappings record.mode with
    | error e => exact fun _ _ _ => handsOut_error
    | ok result => exact safe_transition hs (hdemask result)

/-- **A request over the store is safe**: it keeps the invariant, and a masked text that it hands
out is backed by a record. -/
theorem implement_safe (hs : s.Sound) :
    BackendSafe (svc.HandsOutBacked payload payloadId) h
      (store.implement (svc.process payload payloadId consumerId)) s := by
  unfold process
  cases svc.consumers.resolve consumerId with
  | none => exact fun _ _ _ => handsOut_error
  | some consumer =>
    simp only
    split_ifs
    · exact fun _ _ _ => handsOut_error
    · refine safe_store hs trivial fun h₁ r s₁ hI₁ hr => ?_
      match r, hr with
      | .error (.unavailable message), _ => exact fun _ _ _ => answerWithoutStorage_handsOut
      | .error .other, _ => exact fun _ _ _ => handsOut_error
      | .ok none, _ => exact implement_firstRequest_safe
      | .ok (some record), hr => exact implement_answerFromRecord_safe hI₁ (hr _ rfl record rfl)

/-- A request to the service. -/
structure Request where
  payload : Text
  payloadId : Text
  consumerId : Option Text

/-- Requests over the store, none of which has started yet. -/
def requests {ι : Type*} (svc : ProcessService) (store : ResilientStore) (request : ι → Request) :
    ι → Prog.Thread BackendOp BackendOp.Answer (Except ServiceError ProcessOutcome) :=
  fun i => Prog.start
    (store.implement (svc.process (request i).payload (request i).payloadId (request i).consumerId))

/-- **Fail-closed storage.** Whatever calls fail: `get` returns nothing only if the authority was
asked in the same call and has no record; `save_if_absent` returns `True` only if the authority
created the record in the same call; `get` and `save_if_absent` raise only on a fault of the
authority and `mark_demasked` never raises. So in every run of requests over the store, a masked
text that was handed out is backed by a record that the authority created before. -/
theorem fail_closed {ι : Type*} [DecidableEq ι] (svc : ProcessService) (store : ResilientStore)
    (request : ι → Request) (breaker : Tier → CircuitBreaker)
    {c : Backends × (ι → Prog.Thread BackendOp BackendOp.Answer
      (Except ServiceError ProcessOutcome))}
    (hrun : Prog.Steps faultyBackends (.empty breaker, svc.requests store request) c) :
    (∀ payloadId h, (store.get payloadId).Trace h (.ok none) →
      ⟨.backend .auth (.get payloadId), .ok none⟩ ∈ h) ∧
    (∀ payloadId record ttl h, (store.saveIfAbsent payloadId record ttl).Trace h (.ok true) →
      ⟨.backend .auth (.saveIfAbsent payloadId record ttl), .ok true⟩ ∈ h) ∧
    ((∀ payloadId h fault, (store.get payloadId).Trace h (.error fault) →
        h.any authFault = true) ∧
      (∀ payloadId record ttl h fault,
        (store.saveIfAbsent payloadId record ttl).Trace h (.error fault) →
          h.any authFault = true) ∧
      ∀ payloadId grace h fault, ¬ (store.markDemasked payloadId grace).Trace h (.error fault)) ∧
    ∀ i out, (c.2 i).prog = .ret (.ok out) →
      out.direction = .mask ∨ out.direction = .retryMask → out.result ≠ (request i).payload →
      c.1.Backed svc (request i).payload (request i).payloadId out.result := by
  have hempty : (Backends.empty breaker).Sound := fun _ _ _ hheld => (by cases hheld)
  refine ⟨fun _ _ => absent_of_get, fun _ _ _ _ => created_of_saveIfAbsent,
    ⟨fun _ _ _ => authFault_of_get, fun _ _ _ _ _ => authFault_of_saveIfAbsent,
      fun _ _ _ _ ht => (by cases markDemasked_ok ht)⟩, ?_⟩
  intro i out hi hdirection hne
  exact hrun.post law_backends hempty (fun i => implement_safe hempty) hi out rfl hdirection hne

/-- The case of a first request while the cache is down. -/
theorem fail_closed_mail :
    ∃ c, Prog.Steps faultyBackends (.empty fun _ => {}, tokenService.requests {}
        fun _ : Unit => ⟨mailPair false, "p1".toList, none⟩) c ∧
      c.1.Backed tokenService (mailPair false) "p1".toList (mailPair true) := by
  have hrespond (e : BackendOp) (s : Backends) : faultyBackends.handle e s
      (Backends.respond (· == .cache) e s).1 (Backends.respond (· == .cache) e s).2 :=
    Backends.handle_respond (fun _ _ _ a _ _ happly => .inl ⟨a, .inl happly, .inl rfl⟩)
      (fun _ _ _ _ => .inr ⟨rfl, _, rfl⟩) e s
  have hrun := Prog.steps_advances hrespond (List.replicate 14 ())
    (Backends.empty fun _ => {}, tokenService.requests {}
      fun _ : Unit => ⟨mailPair false, "p1".toList, none⟩)
  have hresult : ((Prog.advances (Backends.respond (· == .cache)) (List.replicate 14 ())
      (Backends.empty fun _ => {}, tokenService.requests {}
        fun _ : Unit => ⟨mailPair false, "p1".toList, none⟩)).2 ()).prog.result? =
      some (.ok {
        result := mailPair true
        direction := .mask
        entitiesDetected := 1
        entitiesMasked := 1 }) := by
    decide +kernel
  refine ⟨_, hrun, ?_⟩
  exact (fail_closed tokenService {} _ _ hrun).2.2.2 () _
    (Prog.eq_ret_of_result? hresult) (.inl rfl)
    (by decide)

end ProcessService

end PiiProxy
