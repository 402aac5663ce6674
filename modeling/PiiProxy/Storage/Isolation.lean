import PiiProxy.Lib.Isolation
import PiiProxy.Storage.Revocation

/-!
# Payload ids are isolated

Requests for different payload ids share a Redis database, but no request touches the key of another
id. So whatever is requested for other ids, by whomever and in whatever order, with whatever
failures of the client, the requests for one id are answered as if they were alone with their key.
Redis hands out copies of its records, and the grace transition is a read and a write of its own: a
request is taken apart into commands, and the commands of all requests are interleaved.

## Main definitions

* `RedisCommand`, `RedisData.apply`: the commands of the Redis store, and what they do.
* `redisProgram`, `ServiceCall.redisProgram`: the commands of a call of the store, and of a request.
* `Turn.respondRedis`, `runRedis`: the run of requests under a schedule of turns.

## Main results

* `separate_respondRedis`: what a call answers and changes is a matter of its id.
* `keeps_redisProgram`, `ProcessService.keeps_process`: a request touches the key of its id only.
* `requests_isolated`: requests for other ids may be left out.
-/

namespace PiiProxy

/-! ### Redis -/

/-- The commands of the Redis store. -/
inductive RedisCommand where
  /-- `SET key value NX EX ttl`. -/
  | setNx (payloadId : Text) (record : MappingRecord) (ttl : ℚ)
  /-- `SET key value EX ttl`. -/
  | setEx (payloadId : Text) (record : MappingRecord) (ttl : ℚ)
  | get (payloadId : Text)
  | del (payloadId : Text)

/-- What a command returns when the client does not raise. -/
abbrev RedisCommand.Result : RedisCommand → Type
  | .setNx .. => Bool
  | .setEx .. => Unit
  | .get _ => Option MappingRecord
  | .del _ => Unit

/-- What the Redis store calls: its client, and `time.time()`. -/
inductive RedisCall where
  | command (e : RedisCommand)
  | time

/-- The type of the answers to a call. -/
abbrev RedisCall.Answer : RedisCall → Type
  | .command e => Except StoreFault e.Result
  | .time => ℚ

/-- What a key holds. -/
structure RedisEntry where
  record : MappingRecord
  expiresAt : ℚ

/-- The database, by payload ids. -/
abbrev RedisData : Type := Text → Option RedisEntry

/-- The entry of a key that has not expired. Redis shows no others. -/
def RedisData.visible (now : ℚ) (data : RedisData) (payloadId : Text) : Option RedisEntry :=
  (data payloadId).filter fun entry => decide (now < entry.expiresAt)

/-- A command at the time `now`. -/
def RedisData.apply (now : ℚ) (data : RedisData) : (e : RedisCommand) → e.Result × RedisData
  | .setNx payloadId record ttl =>
    match data.visible now payloadId with
    | some _ => (false, data)
    | none => (true, Function.update data payloadId (some ⟨record, now + ttl⟩))
  | .setEx payloadId record ttl =>
    ((), Function.update data payloadId (some ⟨record, now + ttl⟩))
  | .get payloadId => ((data.visible now payloadId).map RedisEntry.record, data)
  | .del payloadId => ((), Function.update data payloadId none)

/-- The calls of the Redis store for a call of the service. `mark_demasked` is that of
`MappingStore`: it reads the record again and writes a copy back. -/
def redisProgram : (e : ServiceOp) → Prog RedisCall RedisCall.Answer e.Answer
  | .time => .call .time .ret
  | .store (.get payloadId) => .call (.command (.get payloadId)) .ret
  | .store (.saveIfAbsent payloadId record ttl) =>
    .call (.command (.setNx payloadId record ttl)) .ret
  | .store (.update payloadId record ttl) => .call (.command (.setEx payloadId record ttl)) .ret
  | .store (.delete payloadId) => .call (.command (.del payloadId)) .ret
  | .store (.markDemasked payloadId grace) => .call (.command (.get payloadId)) fun
    | .error fault => .ret (.error fault)
    | .ok none => .ret (.ok ())
    | .ok (some record) => .call .time fun now =>
      .call (.command (.setEx payloadId (record.demasked now) grace)) .ret

/-- A request, as the calls of the Redis store. -/
def ServiceCall.redisProgram (q : ServiceCall) :
    Prog RedisCall RedisCall.Answer (Except ServiceError ProcessOutcome) :=
  q.program.translate PiiProxy.redisProgram

/-- The answer to the call of a turn, and the database after it. The client may raise before or
after the command is performed. -/
def Turn.respondRedis {ι : Type*} (t : Turn ι) : (e : RedisCall) → RedisData → e.Answer × RedisData
  | .time, data => (t.now, data)
  | .command e, data =>
    match t.fault with
    | none => (.ok (data.apply t.now e).1, (data.apply t.now e).2)
    | some (fault, performed) =>
      (.error fault, if performed then (data.apply t.now e).2 else data)

/-! ### Calls of one id -/

/-- The id whose key a command touches. -/
def RedisCommand.payloadId : RedisCommand → Text
  | .setNx payloadId _ _ => payloadId
  | .setEx payloadId _ _ => payloadId
  | .get payloadId => payloadId
  | .del payloadId => payloadId

/-- The id whose key a call touches, if any. -/
def RedisCall.key : RedisCall → Option Text
  | .command e => some e.payloadId
  | .time => none

namespace RedisData

variable {now : ℚ} {data data' : RedisData}

/-- What a command answers and leaves for its id depends on the key of the id. -/
theorem apply_own (e : RedisCommand) (h : data e.payloadId = data' e.payloadId) :
    (data.apply now e).1 = (data'.apply now e).1 ∧
      (data.apply now e).2 e.payloadId = (data'.apply now e).2 e.payloadId := by
  have hvisible : data.visible now e.payloadId = data'.visible now e.payloadId := by
    rw [visible, visible, h]
  cases e with
  | setNx payloadId record ttl =>
    simp only [RedisCommand.payloadId] at h hvisible
    simp only [apply, hvisible, RedisCommand.payloadId]
    split
    · exact ⟨rfl, h⟩
    · exact ⟨rfl, by simp only [Function.update_self]⟩
  | setEx payloadId record ttl =>
    exact ⟨rfl, by simp only [apply, RedisCommand.payloadId, Function.update_self]⟩
  | get payloadId => exact ⟨congrArg (Option.map RedisEntry.record) hvisible, h⟩
  | del payloadId =>
    exact ⟨rfl, by simp only [apply, RedisCommand.payloadId, Function.update_self]⟩

/-- A command leaves the keys of other ids. -/
theorem apply_others (e : RedisCommand) {payloadId : Text} (hne : payloadId ≠ e.payloadId) :
    (data.apply now e).2 payloadId = data payloadId := by
  cases e with
  | setNx id record ttl =>
    simp only [apply]
    split
    · rfl
    · exact Function.update_of_ne hne _ _
  | setEx id record ttl => exact Function.update_of_ne hne _ _
  | get id => rfl
  | del id => exact Function.update_of_ne hne _ _

end RedisData

variable {ι : Type*}

/-- What a call answers and changes is a matter of its id. -/
theorem separate_respondRedis (t : Turn ι) : Prog.Separate RedisCall.key t.respondRedis where
  own e s s' h := by
    cases e with
    | time => exact ⟨rfl, fun k hk => by cases hk⟩
    | command e =>
      obtain ⟨hanswer, hpart⟩ := @RedisData.apply_own t.now s s' e (h _ rfl)
      have hpart' : ∀ k, some e.payloadId = some k →
          (RedisData.apply t.now s e).2 k = (RedisData.apply t.now s' e).2 k := by
        rintro k hk
        obtain rfl := Option.some.inj hk
        exact hpart
      unfold Turn.respondRedis
      rcases t.fault with _ | ⟨fault, _ | _⟩
      · exact ⟨congrArg Except.ok hanswer, hpart'⟩
      · exact ⟨rfl, h⟩
      · exact ⟨rfl, hpart'⟩
  others e s k hk := by
    cases e with
    | time => rfl
    | command e =>
      have hne : k ≠ e.payloadId := fun heq => hk (congrArg some heq.symm)
      unfold Turn.respondRedis
      rcases t.fault with _ | ⟨fault, _ | _⟩
      · exact RedisData.apply_others e hne
      · rfl
      · exact RedisData.apply_others e hne

/-! ### Requests -/

/-- The id that a call of the service is about, if any. -/
def ServiceOp.key : ServiceOp → Option Text
  | .store (.get payloadId) => some payloadId
  | .store (.saveIfAbsent payloadId _ _) => some payloadId
  | .store (.update payloadId _ _) => some payloadId
  | .store (.delete payloadId) => some payloadId
  | .store (.markDemasked payloadId _) => some payloadId
  | .time => none

/-- The commands for a call touch the key of its id only. -/
theorem keeps_redisProgram {e : ServiceOp} {payloadId : Text}
    (he : e.key = none ∨ e.key = some payloadId) :
    Prog.Keeps RedisCall.key payloadId (redisProgram e) := by
  cases e with
  | time => exact ⟨.inl rfl, fun _ => trivial⟩
  | store op =>
    cases op with
    | get id =>
      obtain rfl := Option.some.inj (he.resolve_left (by simp [ServiceOp.key]))
      exact ⟨.inr rfl, fun _ => trivial⟩
    | saveIfAbsent id record ttl =>
      obtain rfl := Option.some.inj (he.resolve_left (by simp [ServiceOp.key]))
      exact ⟨.inr rfl, fun _ => trivial⟩
    | update id record ttl =>
      obtain rfl := Option.some.inj (he.resolve_left (by simp [ServiceOp.key]))
      exact ⟨.inr rfl, fun _ => trivial⟩
    | delete id =>
      obtain rfl := Option.some.inj (he.resolve_left (by simp [ServiceOp.key]))
      exact ⟨.inr rfl, fun _ => trivial⟩
    | markDemasked id grace =>
      obtain rfl := Option.some.inj (he.resolve_left (by simp [ServiceOp.key]))
      refine ⟨.inr rfl, fun r => ?_⟩
      rcases r with fault | _ | record
      · trivial
      · trivial
      · exact ⟨.inl rfl, fun _ => ⟨.inr rfl, fun _ => trivial⟩⟩

namespace ProcessService

variable (svc : ProcessService) {payload payloadId : Text} {consumer : ConsumerConfig}

theorem keeps_transitionToGrace (record : MappingRecord) :
    Prog.Keeps ServiceOp.key payloadId (svc.transitionToGrace payloadId record) := by
  rw [transitionToGrace]
  split_ifs
  · trivial
  · exact ⟨.inr rfl, fun _ => trivial⟩

theorem keeps_firstRequest :
    Prog.Keeps ServiceOp.key payloadId (svc.firstRequest payload payloadId consumer) := by
  rw [firstRequest]
  split
  · trivial
  · refine ⟨.inl rfl, fun now => ⟨.inr rfl, fun r => ?_⟩⟩
    cases r with
    | error fault =>
      cases fault with
      | unavailable message =>
        rw [afterSave]
        split_ifs
        · trivial
        · trivial
      | other => trivial
    | ok created =>
      cases created with
      | false => exact ⟨.inr rfl, fun _ => trivial⟩
      | true => trivial

theorem keeps_answerFromRecord (record : MappingRecord) :
    Prog.Keeps ServiceOp.key payloadId
      (svc.answerFromRecord payload payloadId consumer record) := by
  rw [answerFromRecord]
  split_ifs
  · trivial
  · trivial
  · exact (svc.keeps_transitionToGrace record).bind fun _ => trivial
  · split
    · trivial
    · exact (svc.keeps_transitionToGrace record).bind fun _ => trivial

/-- A request asks for its id only. -/
theorem keeps_process (consumerId : Option Text) :
    Prog.Keeps ServiceOp.key payloadId (svc.process payload payloadId consumerId) := by
  rw [process]
  split
  · trivial
  · split_ifs
    · trivial
    · refine ⟨.inr rfl, fun r => ?_⟩
      cases r with
      | error fault =>
        cases fault with
        | unavailable message => trivial
        | other => trivial
      | ok found =>
        cases found with
        | none => exact svc.keeps_firstRequest
        | some record => exact svc.keeps_answerFromRecord record

end ProcessService

/-- The database with the key of one id and no other. -/
def RedisData.only (data : RedisData) (payloadId : Text) : RedisData :=
  Function.update (fun _ => none) payloadId (data payloadId)

/-- The database with the requests in their present state. -/
abbrev RedisRun (ι : Type*) : Type _ :=
  RedisData × (ι → Prog.Thread RedisCall RedisCall.Answer (Except ServiceError ProcessOutcome))

/-- The requests before their first call. -/
def RedisRun.init (data : RedisData) (requests : ι → ServiceCall) : RedisRun ι :=
  (data, fun i => Prog.start (requests i).redisProgram)

variable [DecidableEq ι]

/-- The run under a schedule of turns. -/
def runRedis (schedule : List (Turn ι)) (c : RedisRun ι) : RedisRun ι :=
  schedule.foldl (fun c t => Prog.advance t.respondRedis c t.thread) c

/-- **Payload ids are isolated.** In every run of requests, whoever makes them and however their
commands are interleaved and fail, the requests for one id do what they do in the run that is left
when all turns of other requests are removed, over a database that holds the key of this id only. -/
theorem requests_isolated (requests : ι → ServiceCall) (data : RedisData)
    (schedule : List (Turn ι)) (payloadId : Text) :
    let run := runRedis schedule (RedisRun.init data requests)
    let alone := runRedis (schedule.filter fun t => (requests t.thread).payloadId = payloadId)
      (RedisRun.init (data.only payloadId) requests)
    run.1 payloadId = alone.1 payloadId ∧
      ∀ i, (requests i).payloadId = payloadId → run.2 i = alone.2 i := by
  have hkeeps (i : ι) : Prog.Keeps RedisCall.key (requests i).payloadId
      ((RedisRun.init data requests).2 i).prog :=
    ((requests i).service.keeps_process _).translate fun _ => keeps_redisProgram
  have hagree : Prog.AgreeOn (fun i => (requests i).payloadId) payloadId
      (RedisRun.init data requests) (RedisRun.init (data.only payloadId) requests) :=
    ⟨(Function.update_self payloadId (data payloadId) fun _ => none).symm, fun _ _ => rfl⟩
  obtain ⟨hpart, hthreads⟩ :=
    Prog.isolated Turn.thread Turn.respondRedis separate_respondRedis schedule hkeeps hagree
  exact ⟨hpart, hthreads⟩

end PiiProxy
