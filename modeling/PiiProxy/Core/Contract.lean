import PiiProxy.Lib.Reactive

/-!
# The contract of `/process`

What the one endpoint owes to a payload id, in terms of documents. The first request under an id
opens a session, which keeps the document and its masking until the session expires. A repetition of
the document is answered by the masked document, the masked document by the document, and any other
document by what the masking restores in it; the first of the latter two moves the session to grace.
The contract keeps both documents. A service keeps neither: that its records and spans serve as well
is the refinement that is proved where the services are.

## Main definitions

* `Contract.Masking`, `Contract.Session`: what is owed.
* `Contract.Terms`, `Contract.Terms.serve`: the contract as a reactive machine.
* `Contract.Represents`: entries of a store stand for sessions.

## Main results

* `Contract.Represents.mono`, `Contract.Represents.update`: entries stand for sessions as time goes
  on, and after a step at one id.
* `Contract.Terms.guaranteed`: what a session answers for as long as nobody can have ended it.
-/

namespace PiiProxy.Contract

/-- In which direction a request is answered. -/
inductive Direction where
  | mask | retryMask | demask
  deriving DecidableEq, Repr

/-- The masking of a document: the masked document, and how another document is demasked. -/
structure Masking (Doc Err : Type*) where
  masked : Doc
  restore : Doc → Except Err Doc

/-- What the service owes to a payload id until it expires. -/
structure Session (Doc Err Time : Type*) where
  document : Doc
  masking : Masking Doc Err
  mayDemask : Bool
  inGrace : Bool := false
  expiresAt : Time

/-- A request for a payload id, at one moment. -/
structure Request (Doc Id Caller Time : Type*) where
  document : Doc
  payloadId : Id
  caller : Caller
  time : Time

/-- The terms of a contract: which callers are admitted and under which policy, how documents are
masked, and how long a session lives. -/
structure Terms (Doc Id Caller Policy Err Time : Type*) [LE Time] where
  grant : Caller → Except Err Policy
  demasks : Policy → Bool
  mask : Policy → Id → Doc → Except Err (Masking Doc Err)
  /-- Something that expires at the second time is alive at the first one. -/
  lives : Time → Time → Prop
  decidableLives : ∀ now expiresAt, Decidable (lives now expiresAt)
  /-- What is alive was alive earlier, and so is what expires later. -/
  lives_mono : ∀ {now now' expiresAt expiresAt'}, now ≤ now' → expiresAt' ≤ expiresAt →
    lives now' expiresAt' → lives now expiresAt
  ttl : Time
  grace : Time

variable {Doc Id Caller Policy Err Time : Type*} [LinearOrder Time]

attribute [instance] Terms.decidableLives

namespace Session

variable (s : Session Doc Err Time)

/-- What a document is demasked to. -/
def demask [DecidableEq Doc] (document : Doc) : Except Err Doc :=
  if document = s.masking.masked then .ok s.document else s.masking.restore document

/-- The session after it has been demasked, with the given end of the grace. -/
def demasked (graceEnd : Time) : Session Doc Err Time :=
  if s.inGrace then s else { s with inGrace := true, expiresAt := graceEnd }

end Session

/-! ### The machine -/

/-- The sessions of the payload ids. -/
abbrev Sessions (Doc Id Err Time : Type*) : Type _ := Id → Option (Session Doc Err Time)

/-- The answer to a request. -/
abbrev Answer (Doc Err : Type*) : Type _ := Except Err (Doc × Direction)

namespace Terms

variable (terms : Terms Doc Id Caller Policy Err Time)

/-- The session, if it is alive. -/
def alive (now : Time) (s : Option (Session Doc Err Time)) : Option (Session Doc Err Time) :=
  s.filter fun s => terms.lives now s.expiresAt

variable [Add Time]

/-- The first request opens a session. -/
def opening (policy : Policy) (q : Request Doc Id Caller Time) :
    Answer Doc Err × Option (Session Doc Err Time) :=
  match terms.mask policy q.payloadId q.document with
  | .error e => (.error e, none)
  | .ok masking =>
    (.ok (masking.masked, .mask), some {
      document := q.document
      masking := masking
      mayDemask := terms.demasks policy
      expiresAt := q.time + terms.ttl })

variable [DecidableEq Doc]

/-- A request to a session. -/
def continuing (policy : Policy) (q : Request Doc Id Caller Time) (s : Session Doc Err Time) :
    Answer Doc Err × Option (Session Doc Err Time) :=
  if q.document = s.document then (.ok (s.masking.masked, .retryMask), some s)
  else if !s.mayDemask || !terms.demasks policy then (.ok (q.document, .demask), some s)
  else
    match s.demask q.document with
    | .error e => (.error e, some s)
    | .ok document => (.ok (document, .demask), some (s.demasked (q.time + terms.grace)))

/-- A request to the live session of its id, if there is one. -/
def turn (policy : Policy) (q : Request Doc Id Caller Time) :
    Option (Session Doc Err Time) → Answer Doc Err × Option (Session Doc Err Time)
  | none => terms.opening policy q
  | some s => terms.continuing policy q s

variable [DecidableEq Id]

/-- A request of an admitted caller. -/
def serveAdmitted (policy : Policy) (q : Request Doc Id Caller Time)
    (sessions : Sessions Doc Id Err Time) : Answer Doc Err × Sessions Doc Id Err Time :=
  let turn := terms.turn policy q (terms.alive q.time (sessions q.payloadId))
  (turn.1, Function.update sessions q.payloadId turn.2)

/-- The answer to a request, and the sessions after it. -/
def serve (q : Request Doc Id Caller Time) (sessions : Sessions Doc Id Err Time) :
    Answer Doc Err × Sessions Doc Id Err Time :=
  match terms.grant q.caller with
  | .error e => (.error e, sessions)
  | .ok policy => terms.serveAdmitted policy q sessions

end Terms

/-! ### Entries that stand for sessions -/

section Represents

variable {Entry : Type*} (terms : Terms Doc Id Caller Policy Err Time) (expiry : Entry → Time)
  (stands : Entry → Session Doc Err Time → Prop)

/-- The entry, if it is alive. -/
def aliveEntry (now : Time) (e : Option Entry) : Option Entry :=
  e.filter fun e => terms.lives now (expiry e)

/-- At the time `now` the live entries stand for the live sessions, and expire with them. -/
def Represents (now : Time) (entries : Id → Option Entry) (sessions : Sessions Doc Id Err Time) :
    Prop :=
  ∀ id, Option.Rel (fun e s => expiry e = s.expiresAt ∧ stands e s)
    (aliveEntry terms expiry now (entries id)) (terms.alive now (sessions id))

variable {terms} {expiry} {stands} {now now' : Time} {entries : Id → Option Entry}
  {sessions : Sessions Doc Id Err Time}

theorem aliveEntry_of_lives {e : Entry} (h : terms.lives now (expiry e)) :
    aliveEntry terms expiry now (some e) = some e :=
  Option.filter_some_pos (decide_eq_true h)

theorem aliveEntry_of_not_lives {e : Entry} (h : ¬terms.lives now (expiry e)) :
    aliveEntry terms expiry now (some e) = none :=
  Option.filter_some_neg (by simpa using h)

/-- What is alive now was alive before. -/
theorem aliveEntry_aliveEntry (hnow : now ≤ now') (e : Option Entry) :
    aliveEntry terms expiry now' (aliveEntry terms expiry now e) =
      aliveEntry terms expiry now' e := by
  rw [aliveEntry, aliveEntry, aliveEntry, Option.filter_filter]
  congr 1
  funext e
  by_cases hlives : terms.lives now' (expiry e)
  · simp [hlives, terms.lives_mono hnow le_rfl hlives]
  · simp [hlives]

theorem alive_alive (hnow : now ≤ now') (s : Option (Session Doc Err Time)) :
    terms.alive now' (terms.alive now s) = terms.alive now' s := by
  change aliveEntry terms Session.expiresAt now' (aliveEntry terms Session.expiresAt now s) =
    aliveEntry terms Session.expiresAt now' s
  exact aliveEntry_aliveEntry hnow s

/-- What stands for a session stands for it as long as it is alive. -/
theorem rel_alive {e : Option Entry} {s : Option (Session Doc Err Time)}
    (h : Option.Rel (fun e s => expiry e = s.expiresAt ∧ stands e s) e s) :
    Option.Rel (fun e s => expiry e = s.expiresAt ∧ stands e s)
      (aliveEntry terms expiry now e) (terms.alive now s) := by
  obtain ⟨hexpiry, hstands⟩ | - := h
  · simp only [aliveEntry, Terms.alive, Option.filter, hexpiry]
    split
    · exact .some ⟨hexpiry, hstands⟩
    · exact .none
  · exact .none

/-- Entries stand for sessions as time goes on. -/
theorem Represents.mono (h : Represents terms expiry stands now entries sessions)
    (hnow : now ≤ now') : Represents terms expiry stands now' entries sessions := by
  intro id
  rw [← aliveEntry_aliveEntry hnow, ← alive_alive hnow]
  exact rel_alive (h id)

/-- Entries stand for sessions after a step at one id. -/
theorem Represents.update [DecidableEq Id]
    (h : Represents terms expiry stands now entries sessions) (hnow : now ≤ now') {id : Id}
    {e : Option Entry} {s : Option (Session Doc Err Time)}
    (hid : Option.Rel (fun e s => expiry e = s.expiresAt ∧ stands e s) e s) :
    Represents terms expiry stands now' (Function.update entries id e)
      (Function.update sessions id s) := by
  intro id'
  by_cases heq : id' = id
  · subst heq
    rw [Function.update_self, Function.update_self]
    exact rel_alive hid
  · rw [Function.update_of_ne heq, Function.update_of_ne heq]
    exact h.mono hnow id'

end Represents

/-! ### What is guaranteed -/

namespace Terms

variable {terms : Terms Doc Id Caller Policy Err Time}

theorem alive_eq_self {now : Time} {s : Session Doc Err Time} (h : terms.lives now s.expiresAt) :
    terms.alive now (some s) = some s := by
  change aliveEntry terms Session.expiresAt now (some s) = some s
  exact aliveEntry_of_lives h

variable [Add Time] [DecidableEq Doc]

/-- The session is one that was opened with the masking of the document, and it is alive at the
time `deadline`. -/
structure Owes (document : Doc) (masking : Masking Doc Err) (mayDemask : Bool) (deadline : Time)
    (terms : Terms Doc Id Caller Policy Err Time) (s : Session Doc Err Time) : Prop where
  document : s.document = document
  masking : s.masking = masking
  mayDemask : s.mayDemask = mayDemask
  alive : terms.lives deadline s.expiresAt

variable {document : Doc} {masking : Masking Doc Err} {mayDemask : Bool} {deadline : Time}

/-- A request to a session leaves one that owes the same. -/
theorem Owes.continuing {s : Session Doc Err Time}
    (h : Owes document masking mayDemask deadline terms s) (policy : Policy)
    {q : Request Doc Id Caller Time} (hgrace : terms.lives deadline (q.time + terms.grace)) :
    ∃ s', (terms.continuing policy q s).2 = some s' ∧
      Owes document masking mayDemask deadline terms s' := by
  unfold Terms.continuing
  split_ifs
  · exact ⟨s, rfl, h⟩
  · exact ⟨s, rfl, h⟩
  · split
    · exact ⟨s, rfl, h⟩
    · refine ⟨_, rfl, ?_⟩
      rw [Session.demasked]
      split_ifs
      · exact h
      · exact ⟨h.document, h.masking, h.mayDemask, hgrace⟩

variable [DecidableEq Id]

/-- A request that finds a live session. -/
theorem serve_of_alive {policy : Policy} {q : Request Doc Id Caller Time}
    {sessions : Sessions Doc Id Err Time} {s : Session Doc Err Time}
    (hgrant : terms.grant q.caller = .ok policy) (hs : sessions q.payloadId = some s)
    (halive : terms.lives q.time s.expiresAt) :
    terms.serve q sessions = ((terms.continuing policy q s).1,
      Function.update sessions q.payloadId (terms.continuing policy q s).2) := by
  rw [serve, hgrant]
  simp only [serveAdmitted, hs, alive_eq_self halive, turn]

/-- A request that finds no live session. -/
theorem serve_of_not_alive {policy : Policy} {q : Request Doc Id Caller Time}
    {sessions : Sessions Doc Id Err Time} (hgrant : terms.grant q.caller = .ok policy)
    (hdead : terms.alive q.time (sessions q.payloadId) = none) :
    terms.serve q sessions = ((terms.opening policy q).1,
      Function.update sessions q.payloadId (terms.opening policy q).2) := by
  rw [serve, hgrant]
  simp only [serveAdmitted, hdead, turn]

/-- A request for another id leaves a session alone. -/
theorem serve_of_ne {q : Request Doc Id Caller Time} {sessions : Sessions Doc Id Err Time} {id : Id}
    (hne : id ≠ q.payloadId) : (terms.serve q sessions).2 id = sessions id := by
  rw [serve]
  split
  · rfl
  · exact Function.update_of_ne hne _ _

variable [AddRightMono Time]

/-- Requests between its opening and the time `deadline` leave what a session owes. -/
theorem owes_final {id : Id} {opened : Time}
    (hgrace : terms.lives deadline (opened + terms.grace)) (qs : List (Request Doc Id Caller Time))
    (hclock : ∀ q ∈ qs, opened ≤ q.time ∧ q.time ≤ deadline) {sessions : Sessions Doc Id Err Time}
    (h : ∃ s, sessions id = some s ∧ Owes document masking mayDemask deadline terms s) :
    ∃ s, Reactive.final terms.serve qs sessions id = some s ∧
      Owes document masking mayDemask deadline terms s := by
  induction qs generalizing sessions with
  | nil => exact h
  | cons q qs ih =>
    obtain ⟨hopened, huntil⟩ := hclock q List.mem_cons_self
    obtain ⟨s, hs, howes⟩ := h
    have hnext : ∃ s, (terms.serve q sessions).2 id = some s ∧
        Owes document masking mayDemask deadline terms s := by
      by_cases hid : id = q.payloadId
      · subst hid
        cases hgrant : terms.grant q.caller with
        | error e =>
          simp only [serve, hgrant]
          exact ⟨s, hs, howes⟩
        | ok policy =>
          rw [serve_of_alive hgrant hs (terms.lives_mono huntil le_rfl howes.alive)]
          simp only [Function.update_self]
          exact howes.continuing policy
            (terms.lives_mono le_rfl (add_le_add_left hopened terms.grace) hgrace)
      · exact ⟨s, (serve_of_ne hid).trans hs, howes⟩
    exact ih (fun q' hq' => hclock q' (.tail _ hq')) hnext

/-- **What is guaranteed.** After a first request, and after whatever other requests, a request for
the same id is answered from the masking that the first one made, as long as neither the time to
live nor the grace has passed since the first request. -/
theorem guaranteed {first q : Request Doc Id Caller Time}
    {between : List (Request Doc Id Caller Time)} {sessions : Sessions Doc Id Err Time}
    {policy policy' : Policy} (hgrant : terms.grant first.caller = .ok policy)
    (hdead : terms.alive first.time (sessions first.payloadId) = none)
    (hmask : terms.mask policy first.payloadId first.document = .ok masking)
    (hclock : (first :: between ++ [q]).Pairwise (·.time ≤ ·.time))
    (hid : q.payloadId = first.payloadId) (hgrant' : terms.grant q.caller = .ok policy')
    (httl : terms.lives q.time (first.time + terms.ttl))
    (hgrace : terms.lives q.time (first.time + terms.grace)) :
    ∃ s : Session Doc Err Time, s.document = first.document ∧ s.masking = masking ∧
      s.mayDemask = terms.demasks policy ∧
      (terms.serve q (Reactive.final terms.serve (first :: between) sessions)).1 =
        (terms.continuing policy' q s).1 := by
  rw [List.cons_append, List.pairwise_cons, List.pairwise_append] at hclock
  obtain ⟨hfirst, -, -, hlast⟩ := hclock
  have hopen : ∃ s, (terms.serve first sessions).2 first.payloadId = some s ∧
      Owes first.document masking (terms.demasks policy) q.time terms s := by
    rw [serve_of_not_alive hgrant hdead]
    simp only [Function.update_self, opening, hmask]
    exact ⟨_, rfl, rfl, rfl, rfl, httl⟩
  obtain ⟨s, hs, howes⟩ := owes_final hgrace between (fun q' hq' =>
    ⟨hfirst q' (List.mem_append_left _ hq'), hlast q' hq' q List.mem_cons_self⟩) hopen
  refine ⟨s, howes.document, howes.masking, howes.mayDemask, ?_⟩
  rw [serve_of_alive hgrant' (hid ▸ hs) howes.alive]

omit [AddRightMono Time] in
/-- Only a first request is answered in the direction of masking. -/
theorem opened_of_serve_eq_mask {q : Request Doc Id Caller Time}
    {sessions : Sessions Doc Id Err Time} {masked : Doc}
    (h : (terms.serve q sessions).1 = .ok (masked, .mask)) :
    ∃ policy masking, terms.grant q.caller = .ok policy ∧
      terms.alive q.time (sessions q.payloadId) = none ∧
      terms.mask policy q.payloadId q.document = .ok masking ∧ masking.masked = masked := by
  rw [serve] at h
  cases hgrant : terms.grant q.caller with
  | error e =>
    rw [hgrant] at h
    cases h
  | ok policy =>
    simp only [hgrant, serveAdmitted] at h
    cases halive : terms.alive q.time (sessions q.payloadId) with
    | none =>
      simp only [halive, turn, opening] at h
      cases hmask : terms.mask policy q.payloadId q.document with
      | error e =>
        rw [hmask] at h
        cases h
      | ok masking =>
        simp only [hmask, Except.ok.injEq, Prod.mk.injEq, and_true] at h
        exact ⟨policy, masking, rfl, rfl, hmask, h⟩
    | some s =>
      simp only [halive, turn, continuing] at h
      split_ifs at h
      · simp at h
      · simp at h
      · split at h
        · cases h
        · simp at h

/-- **Round trips are guaranteed.** When a first request was answered by a masked document, the
document is answered by the masked document again and the masked document by the document, whatever
was requested in between, as long as neither the time to live nor the grace has passed. -/
theorem roundTrip {first q : Request Doc Id Caller Time}
    {between : List (Request Doc Id Caller Time)} {sessions : Sessions Doc Id Err Time}
    {masked : Doc} (hmasked : (terms.serve first sessions).1 = .ok (masked, .mask))
    (hclock : (first :: between ++ [q]).Pairwise (·.time ≤ ·.time))
    (hid : q.payloadId = first.payloadId) {policy : Policy}
    (hgrant : terms.grant q.caller = .ok policy)
    (httl : terms.lives q.time (first.time + terms.ttl))
    (hgrace : terms.lives q.time (first.time + terms.grace)) :
    let answer := (terms.serve q (Reactive.final terms.serve (first :: between) sessions)).1
    (q.document = first.document → answer = .ok (masked, .retryMask)) ∧
      (q.document = masked → terms.demasks policy = true →
        (∀ policy', terms.grant first.caller = .ok policy' → terms.demasks policy' = true) →
        ∃ direction, answer = .ok (first.document, direction)) := by
  obtain ⟨policy', masking, hgrant', hdead, hmask, rfl⟩ := opened_of_serve_eq_mask hmasked
  obtain ⟨s, hdocument, rfl, hmay, hanswer⟩ :=
    guaranteed hgrant' hdead hmask hclock hid hgrant httl hgrace
  rw [hanswer, continuing, hdocument, hmay]
  constructor
  · intro hdoc
    rw [if_pos hdoc]
  · intro hdoc hdemasks hdemasks'
    by_cases hsame : q.document = first.document
    · rw [if_pos hsame]
      exact ⟨.retryMask, by rw [← hdoc, hsame]⟩
    · rw [if_neg hsame]
      simp only [hdemasks, hdemasks' policy' hgrant', Bool.not_true, Bool.or_self,
        Bool.false_eq_true, if_false, Session.demask, hdoc, if_true, hdocument]
      exact ⟨.demask, rfl⟩

end Terms

end PiiProxy.Contract
