import PiiProxy.GoService.Reversibility
import PiiProxy.Lib.Raising

/-!
# Fresh synthetic values in the Go service

`BuildTransform` draws a synthetic value at most twenty times for each entity and rejects a draw
that is the original or that an earlier entity of the type has got. When the twenty draws are spent,
it uses the last of them all the same. So the values of a document are unambiguous exactly when no
entity spends its draws, and the pool of some types is so small that a document can exhaust it.

## Main definitions

* `GoService.Transform.Unambiguous`: the synthetic values of a transformation tell its entities
  apart.
* `GoService.FreshAt`, `GoService.DrawsFresh`: no entity spends its draws.

## Main results

* `GoService.unambiguous_iff_drawsFresh`: the values are unambiguous when no entity spends its
  draws.
* `GoService.not_unambiguous_of_countries`: more citizenships than countries are always ambiguous.
-/

namespace PiiProxy.GoService

variable (rt : GoRuntime)

/-- The synthetic values differ between entities of one type, and each of them from its original. -/
structure Transform.Unambiguous (tr : Transform) : Prop where
  different : tr.mappings.Pairwise fun m m' => m.type = m'.type → m.synthetic ≠ m'.synthetic
  changed : ∀ m ∈ tr.mappings, m.synthetic ≠ m.original

/-! ### The draws of one entity -/

/-- Draw number `k` is the first that is neither used nor the original. -/
structure FreshAt (seed : ℤ) (d : Candidate) (used : List GoString) (k : ℕ) (syn : GoString) :
    Prop where
  drawn : attemptSynthetic rt seed d k = some syn
  unused : syn ∉ used
  ne_original : syn ≠ d.value
  rejected : ∀ j < k, ∃ syn', attemptSynthetic rt seed d j = some syn' ∧
    (syn' ∈ used ∨ syn' = d.value)

variable {rt} in
/-- The first fresh draw is not among the draws that were rejected. -/
theorem FreshAt.le_of_rejected {seed : ℤ} {d : Candidate} {used : List GoString} {k n : ℕ}
    {syn : GoString} (h : FreshAt rt seed d used k syn)
    (hrejected : ∀ j < n, ∃ syn', attemptSynthetic rt seed d j = some syn' ∧
      (syn' ∈ used ∨ syn' = d.value)) : n ≤ k := by
  by_contra hlt
  obtain ⟨syn', hdrawn, hbad⟩ := hrejected k (Nat.lt_of_not_le hlt)
  obtain rfl := Option.some.inj (h.drawn.symm.trans hdrawn)
  exact hbad.elim h.unused h.ne_original

/-- The draws from number `attempt` on give a fresh value when one of them is the first fresh
one. -/
theorem drawSynthetic_fresh_iff {seed : ℤ} {d : Candidate} {used : List GoString} {syn : GoString}
    (remaining attempt : ℕ)
    (hrejected : ∀ j < attempt, ∃ syn', attemptSynthetic rt seed d j = some syn' ∧
      (syn' ∈ used ∨ syn' = d.value)) :
    (drawSynthetic rt seed d used remaining attempt = some syn ∧ syn ∉ used ∧ syn ≠ d.value) ↔
      ∃ k ≤ attempt + remaining, FreshAt rt seed d used k syn := by
  induction remaining generalizing attempt with
  | zero =>
    rw [drawSynthetic]
    constructor
    · rintro ⟨hdrawn, hunused, hne⟩
      exact ⟨attempt, le_rfl, hdrawn, hunused, hne, hrejected⟩
    · rintro ⟨k, hle, hfresh⟩
      obtain rfl := le_antisymm hle (hfresh.le_of_rejected hrejected)
      exact ⟨hfresh.drawn, hfresh.unused, hfresh.ne_original⟩
  | succ remaining ih =>
    rw [drawSynthetic]
    cases hattempt : attemptSynthetic rt seed d attempt with
    | none =>
      refine iff_of_false (fun h => nomatch h.1) ?_
      rintro ⟨k, -, hfresh⟩
      rcases (hfresh.le_of_rejected hrejected).eq_or_lt with rfl | hlt
      · exact nomatch hattempt.symm.trans hfresh.drawn
      · obtain ⟨syn', hdrawn, -⟩ := hfresh.rejected attempt hlt
        exact nomatch hattempt.symm.trans hdrawn
    | some first =>
      by_cases htest : (!used.contains first && first != d.value) = true
      · have hfirst : first ∉ used ∧ first ≠ d.value := by simpa using htest
        have hdraw : ((some first : Option GoString) >>= fun syn =>
            if !used.contains syn && syn != d.value then pure syn
            else drawSynthetic rt seed d used remaining (attempt + 1)) = some first := if_pos htest
        rw [hdraw]
        constructor
        · rintro ⟨heq, -⟩
          obtain rfl := Option.some.inj heq
          exact ⟨attempt, by omega, hattempt, hfirst.1, hfirst.2, hrejected⟩
        · rintro ⟨k, -, hfresh⟩
          rcases (hfresh.le_of_rejected hrejected).eq_or_lt with rfl | hlt
          · exact ⟨hattempt.symm.trans hfresh.drawn, hfresh.unused, hfresh.ne_original⟩
          · obtain ⟨syn', hdrawn, hbad⟩ := hfresh.rejected attempt hlt
            obtain rfl := Option.some.inj (hattempt.symm.trans hdrawn)
            exact (hbad.elim hfirst.1 hfirst.2).elim
      · have hfirst : first ∈ used ∨ first = d.value := by
          by_contra hnot
          rw [not_or] at hnot
          exact htest (by simpa using hnot)
        have hdraw : ((some first : Option GoString) >>= fun syn =>
            if !used.contains syn && syn != d.value then pure syn
            else drawSynthetic rt seed d used remaining (attempt + 1)) =
              drawSynthetic rt seed d used remaining (attempt + 1) := if_neg htest
        rw [hdraw, ih (attempt + 1), Nat.add_right_comm, Nat.add_assoc]
        intro j hj
        rcases Nat.lt_succ_iff_lt_or_eq.1 hj with hlt | rfl
        · exact hrejected j hlt
        · exact ⟨first, hattempt, hfirst⟩

/-! ### The draws of a document -/

/-- Each group finds a fresh value within twenty draws; `used` holds the values of each type so
far. -/
def DrawsFresh (sessionSeed : GoString) : (PIIType → List GoString) → List Group → Prop
  | _, [] => True
  | used, g :: gs =>
    let d := g.first.candidate
    ∃ k < 20, ∃ syn, FreshAt rt (entitySeed rt sessionSeed g.key) d (used d.type) k syn ∧
      DrawsFresh sessionSeed (Function.update used d.type (syn :: used d.type)) gs

/-- The mappings are unambiguous, and so is each with the values `used` before. -/
private structure FreshIn (used : PIIType → List GoString) (ms : List Mapping) : Prop where
  different : ms.Pairwise fun m m' => m.type = m'.type → m.synthetic ≠ m'.synthetic
  changed : ∀ m ∈ ms, m.synthetic ≠ m.original
  unused : ∀ m ∈ ms, m.synthetic ∉ used m.type

private theorem freshIn_cons (used : PIIType → List GoString) (m : Mapping) (ms : List Mapping) :
    FreshIn used (m :: ms) ↔ (m.synthetic ∉ used m.type ∧ m.synthetic ≠ m.original) ∧
      FreshIn (Function.update used m.type (m.synthetic :: used m.type)) ms := by
  constructor
  · rintro ⟨hdifferent, hchanged, hunused⟩
    obtain ⟨hfirst, hdifferent⟩ := List.pairwise_cons.1 hdifferent
    obtain ⟨hm, hchanged⟩ := List.forall_mem_cons.1 hchanged
    obtain ⟨hmUnused, hunused⟩ := List.forall_mem_cons.1 hunused
    refine ⟨⟨hmUnused, hm⟩, hdifferent, hchanged, fun m' hm' => ?_⟩
    by_cases htype : m'.type = m.type
    · rw [htype, Function.update_self, List.mem_cons, not_or, ← htype]
      exact ⟨(hfirst m' hm' htype.symm).symm, hunused m' hm'⟩
    · rw [Function.update_of_ne htype]
      exact hunused m' hm'
  · rintro ⟨⟨hmUnused, hm⟩, hdifferent, hchanged, hunused⟩
    have hrest (m' : Mapping) (hm' : m' ∈ ms) : (m.type = m'.type → m.synthetic ≠ m'.synthetic) ∧
        m'.synthetic ∉ used m'.type := by
      have hunused := hunused m' hm'
      by_cases htype : m'.type = m.type
      · rw [htype, Function.update_self, List.mem_cons, not_or, ← htype] at hunused
        exact ⟨fun _ => Ne.symm hunused.1, hunused.2⟩
      · rw [Function.update_of_ne htype] at hunused
        exact ⟨fun h => absurd h.symm htype, hunused⟩
    exact ⟨List.pairwise_cons.2 ⟨fun m' hm' => (hrest m' hm').1, hdifferent⟩,
      List.forall_mem_cons.2 ⟨hm, hchanged⟩,
      List.forall_mem_cons.2 ⟨hmUnused, fun m' hm' => (hrest m' hm').2⟩⟩

/-- What the mapping of a group takes from the group and from its draws. -/
private theorem buildMapping_eq_some_iff {sessionSeed : GoString} {used : List GoString} {g : Group}
    {p : GoString → PIIType → GoString → Prop} :
    (∃ m, buildMapping rt sessionSeed used g = some m ∧ p m.synthetic m.type m.original) ↔
      ∃ syn, drawSynthetic rt (entitySeed rt sessionSeed g.key) g.first.candidate used 19 0 =
        some syn ∧ p syn g.first.candidate.type g.first.candidate.value := by
  constructor
  · rintro ⟨m, hm, hp⟩
    obtain ⟨syn, hdraw, hm⟩ := Option.bind_eq_some_iff.1 hm
    cases hm
    exact ⟨syn, hdraw, hp⟩
  · rintro ⟨syn, hdraw, hp⟩
    exact ⟨_, Option.bind_eq_some_iff.2 ⟨syn, hdraw, rfl⟩, hp⟩

/-- One pass over the groups: the mappings are fresh when no group spends its draws. -/
private theorem buildMappings_freshIn_iff (sessionSeed : GoString) (groups : List Group)
    (used : PIIType → List GoString) :
    (∃ ms, buildMappings rt sessionSeed used groups = some ms ∧ FreshIn used (ms.map Prod.snd)) ↔
      DrawsFresh rt sessionSeed used groups := by
  induction groups generalizing used with
  | nil => exact iff_of_true ⟨[], rfl, .nil, by simp, by simp⟩ trivial
  | cons g groups ih =>
    set type := g.first.candidate.type with htype
    have hstep : (∃ ms, buildMappings rt sessionSeed used (g :: groups) = some ms ∧
        FreshIn used (ms.map Prod.snd)) ↔
        ∃ m, buildMapping rt sessionSeed (used type) g = some m ∧
          (m.synthetic ∉ used m.type ∧ m.synthetic ≠ m.original) ∧ m.type = type ∧
            DrawsFresh rt sessionSeed
              (Function.update used type (m.synthetic :: used type)) groups := by
      constructor
      · rintro ⟨ms, hms, hfresh⟩
        obtain ⟨m, hm, hms⟩ := Option.bind_eq_some_iff.1 hms
        obtain ⟨rest, hrest, hms⟩ := Option.bind_eq_some_iff.1 hms
        cases hms
        have hmType : m.type = type := by
          obtain ⟨syn, -, hm⟩ := Option.bind_eq_some_iff.1 hm
          cases hm
          rfl
        obtain ⟨hmFresh, hrestFresh⟩ := (freshIn_cons used m _).1 hfresh
        rw [hmType] at hrestFresh
        exact ⟨m, hm, hmFresh, hmType, (ih _).1 ⟨rest, hrest, hrestFresh⟩⟩
      · rintro ⟨m, hm, hmFresh, hmType, hdraws⟩
        obtain ⟨rest, hrest, hrestFresh⟩ := (ih _).2 hdraws
        refine ⟨(g, m) :: rest, ?_, (freshIn_cons used m _).2 ⟨hmFresh, by rwa [hmType]⟩⟩
        exact Option.bind_eq_some_iff.2 ⟨m, hm, Option.bind_eq_some_iff.2 ⟨rest, hrest, rfl⟩⟩
    rw [hstep, buildMapping_eq_some_iff rt (p := fun syn type' original =>
      (syn ∉ used type' ∧ syn ≠ original) ∧ type' = type ∧
        DrawsFresh rt sessionSeed (Function.update used type (syn :: used type)) groups)]
    constructor
    · rintro ⟨syn, hdraw, hsyn, -, hrest⟩
      obtain ⟨k, hk, hfresh⟩ := (drawSynthetic_fresh_iff rt 19 0 (by omega)).1 ⟨hdraw, hsyn⟩
      exact ⟨k, by omega, syn, hfresh, hrest⟩
    · rintro ⟨k, hk, syn, hfresh, hrest⟩
      obtain ⟨hdraw, hsyn⟩ := (drawSynthetic_fresh_iff rt 19 0 (by omega)).2 ⟨k, by omega, hfresh⟩
      exact ⟨syn, hdraw, hsyn, rfl, hrest⟩

/-- The mappings of a transformation are those of its groups. -/
theorem mappings_of_buildTransform {text : GoString} {decided : List Decided} {mode : Mode}
    {sessionSeed : GoString} {tr : Transform}
    (h : buildTransform rt text decided mode sessionSeed = .ok tr) :
    ∃ ms, buildMappings rt sessionSeed (fun _ => []) (groupDecisions rt decided) = some ms ∧
      tr.mappings = ms.map Prod.snd := by
  unfold buildTransform at h
  split at h
  · exact nomatch h
  · rename_i ms hms
    obtain ⟨out, -, h⟩ := Except.bind_eq_ok.1 h
    cases h
    exact ⟨ms, hms, rfl⟩

/-- **Synthetic values are unambiguous when no entity spends its draws**, and only then. In that
case the transformation is made, when the candidates are disjoint pieces of the text. -/
theorem unambiguous_iff_drawsFresh (text : GoString) (decided : List Decided) (mode : Mode)
    (sessionSeed : GoString) :
    (∀ tr, buildTransform rt text decided mode sessionSeed = .ok tr →
      (tr.Unambiguous ↔ DrawsFresh rt sessionSeed (fun _ => []) (groupDecisions rt decided))) ∧
    (DrawsFresh rt sessionSeed (fun _ => []) (groupDecisions rt decided) →
      (∀ d ∈ decided, d.candidate.WellFormed text) →
      decided.Pairwise (fun a b =>
        a.candidate.stop ≤ b.candidate.start ∨ b.candidate.stop ≤ a.candidate.start) →
      ∃ tr, buildTransform rt text decided mode sessionSeed = .ok tr ∧ tr.Unambiguous) := by
  have hdraws (tr : Transform) (h : buildTransform rt text decided mode sessionSeed = .ok tr) :
      tr.Unambiguous ↔ DrawsFresh rt sessionSeed (fun _ => []) (groupDecisions rt decided) := by
    obtain ⟨ms, hms, htr⟩ := mappings_of_buildTransform rt h
    rw [← buildMappings_freshIn_iff]
    constructor
    · intro hunambiguous
      refine ⟨ms, hms, ?_⟩
      rw [← htr]
      exact ⟨hunambiguous.different, hunambiguous.changed, fun m _ => List.not_mem_nil⟩
    · rintro ⟨ms', hms', hfresh⟩
      obtain rfl := Option.some.inj (hms.symm.trans hms')
      rw [← htr] at hfresh
      exact ⟨hfresh.different, hfresh.changed⟩
  refine ⟨hdraws, fun hfresh hwf hdisjoint => ?_⟩
  obtain ⟨ms, hms, -⟩ := (buildMappings_freshIn_iff rt sessionSeed _ _).2 hfresh
  obtain ⟨hin, hpairwise⟩ := mentionSpans_spec rt hwf hdisjoint mode hms
  obtain ⟨tr, happly, -⟩ := applyMappings_reversible rt hin hpairwise
  have hbuild : buildTransform rt text decided mode sessionSeed = .ok tr := by
    rw [buildTransform, hms]
    exact happly
  exact ⟨tr, hbuild, (hdraws tr hbuild).2 hfresh⟩

/-- Two e-mail addresses in one text. -/
def mailPair : List Decided :=
  [⟨candidateAt .email (str "a@b.ru c@d.ru") (0, 6), .mask, []⟩,
    ⟨candidateAt .email (str "a@b.ru c@d.ru") (7, 13), .mask, []⟩]

/-- The case of two e-mail addresses. -/
theorem unambiguous_iff_drawsFresh_mailPair :
    ∃ tr, buildTransform summingGoRuntime (str "a@b.ru c@d.ru") mailPair .syntheticMode
      (str "seed") = .ok tr ∧ tr.Unambiguous := by
  refine (unambiguous_iff_drawsFresh summingGoRuntime _ _ _ _).2 ?_ ?_ ?_
  · have hgroups : groupDecisions summingGoRuntime mailPair =
        [⟨str "EMAIL_1", str "EMAIL:a@b.ru",
            ⟨candidateAt .email (str "a@b.ru c@d.ru") (0, 6), .mask, []⟩, []⟩,
          ⟨str "EMAIL_2", str "EMAIL:c@d.ru",
            ⟨candidateAt .email (str "a@b.ru c@d.ru") (7, 13), .mask, []⟩, []⟩] := by rfl
    rw [hgroups, DrawsFresh]
    exact ⟨0, by decide, str "user00314@example.com", ⟨by decide +kernel, by decide,
      by decide +kernel, fun j hj => absurd hj (Nat.not_lt_zero j)⟩, 0, by decide,
      str "user00309@example.com", ⟨by decide +kernel, by decide +kernel, by decide +kernel,
        fun j hj => absurd hj (Nat.not_lt_zero j)⟩, trivial⟩
  · intro d hd
    rcases List.mem_cons.1 hd with rfl | hd
    · exact wellFormed_candidateAt .email ⟨by decide, by decide +kernel⟩
    · rw [List.mem_singleton.1 hd]
      exact wellFormed_candidateAt .email ⟨by decide, by decide +kernel⟩
  · exact List.pairwise_pair.2 (.inl (by decide))

/-! ### Pools -/

/-- The 8-byte value of the draw with the given counter. -/
def hashDraw (seed : ℤ) (counter : ℕ) : ℕ := rt.sha64 (showInt seed ++ str ":" ++ showInt counter)

theorem intnLoop_succ_run (seed : ℤ) (n fuel c : ℕ) :
    (intnLoop rt seed n (fuel + 1)).run c =
      if hashDraw rt seed c < (2 ^ 64 - 1) / n * n then some (hashDraw rt seed c % n, c + 1)
      else (intnLoop rt seed n fuel).run (c + 1) := by
  have hround : (intnLoop rt seed n (fuel + 1)).run c =
      (if hashDraw rt seed c < (2 ^ 64 - 1) / n * n then pure (hashDraw rt seed c % n)
      else intnLoop rt seed n fuel).run (c + 1) := rfl
  rw [hround]
  split_ifs
  · rfl
  · rfl

/-- A number drawn by rejection sampling is below its bound. -/
theorem lt_of_intnLoop {seed : ℤ} {n : ℕ} (hn : 0 < n) (fuel : ℕ) {counter : ℕ} {drawn : ℕ × ℕ}
    (h : (intnLoop rt seed n fuel).run counter = some drawn) : drawn.1 < n := by
  induction fuel generalizing counter with
  | zero => exact nomatch h
  | succ fuel ih =>
    rw [intnLoop_succ_run] at h
    split_ifs at h
    · cases h
      exact Nat.mod_lt _ hn
    · exact ih h

/-- A value picked from a table is in the table. -/
theorem mem_of_pick {seed : ℤ} {table : List String} (htable : table ≠ []) {counter : ℕ}
    {drawn : GoString × ℕ} (h : (pick rt seed table).run counter = some drawn) :
    drawn.1 ∈ table.map str := by
  obtain ⟨i, hi, h⟩ := Option.bind_eq_some_iff.1 h
  cases h
  have hlt := lt_of_intnLoop rt (List.length_pos_of_ne_nil htable) rt.fuel hi
  refine List.mem_map_of_mem ?_
  rw [List.getD_eq_getElem?_getD, List.getElem?_eq_getElem hlt]
  exact List.getElem_mem hlt

/-- Every draw counts among the attempts. -/
theorem exists_attempt_of_drawSynthetic {seed : ℤ} {d : Candidate} {used : List GoString}
    {remaining attempt : ℕ} {syn : GoString}
    (h : drawSynthetic rt seed d used remaining attempt = some syn) :
    ∃ k, attemptSynthetic rt seed d k = some syn := by
  induction remaining generalizing attempt with
  | zero => exact ⟨attempt, h⟩
  | succ remaining ih =>
    obtain ⟨first, hfirst, h⟩ := Option.bind_eq_some_iff.1 h
    split_ifs at h
    · cases h
      exact ⟨attempt, hfirst⟩
    · exact ih h

/-- The synthetic value of a citizenship is one of the countries. -/
theorem mem_synCountries_of_buildMapping {sessionSeed : GoString} {used : List GoString} {g : Group}
    {m : Mapping} (h : buildMapping rt sessionSeed used g = some m) :
    m.type = g.first.candidate.type ∧
      (m.type = .citizenship → m.synthetic ∈ synCountries.map str) := by
  obtain ⟨syn, hdraw, h⟩ := Option.bind_eq_some_iff.1 h
  cases h
  refine ⟨rfl, fun htype => ?_⟩
  obtain ⟨k, hk⟩ := exists_attempt_of_drawSynthetic rt hdraw
  have htype : g.first.candidate.type = .citizenship := htype
  rw [attemptSynthetic, syntheticFor.eq_def, htype] at hk
  obtain ⟨drawn, hdrawn, rfl⟩ := Option.map_eq_some_iff.1 hk
  exact mem_of_pick rt (List.cons_ne_nil _ _) hdrawn

theorem mem_synCountries_of_buildMappings {sessionSeed : GoString} {groups : List Group}
    {used : PIIType → List GoString} {ms : List (Group × Mapping)}
    (h : buildMappings rt sessionSeed used groups = some ms) :
    ∀ gm ∈ ms, gm.2.type = gm.1.first.candidate.type ∧
      (gm.2.type = .citizenship → gm.2.synthetic ∈ synCountries.map str) := by
  induction groups generalizing used ms with
  | nil =>
    cases h
    exact fun gm hgm => nomatch hgm
  | cons g groups ih =>
    obtain ⟨m, hm, h⟩ := Option.bind_eq_some_iff.1 h
    obtain ⟨rest, hrest, h⟩ := Option.bind_eq_some_iff.1 h
    cases h
    exact List.forall_mem_cons.2 ⟨mem_synCountries_of_buildMapping rt hm, ih hrest⟩

/-- **More citizenships than countries are always ambiguous**, whatever the hash. -/
theorem not_unambiguous_of_countries {text : GoString} {decided : List Decided} {mode : Mode}
    {sessionSeed : GoString} {tr : Transform}
    (h : buildTransform rt text decided mode sessionSeed = .ok tr)
    (hmany : synCountries.length <
      (groupDecisions rt decided).countP fun g => g.first.candidate.type = .citizenship) :
    ¬tr.Unambiguous := by
  intro hunambiguous
  obtain ⟨ms, hms, htr⟩ := mappings_of_buildTransform rt h
  have hspec := mem_synCountries_of_buildMappings rt hms
  set citizens := tr.mappings.filter fun m => m.type = .citizenship with hcitizens
  have hcount : (groupDecisions rt decided).countP (fun g =>
    g.first.candidate.type = .citizenship) =
      citizens.length := by
    rw [hcitizens, htr, ← fst_buildMappings rt hms, List.countP_map, ← List.countP_eq_length_filter,
      List.countP_map]
    refine List.countP_congr fun gm hgm => ?_
    simp only [Function.comp_apply, (hspec gm hgm).1]
  have hnodup : (citizens.map Mapping.synthetic).Nodup := by
    refine List.pairwise_map.2 ((hunambiguous.different.filter _).imp_of_mem ?_)
    intro m m' hm hm' hne
    have hm : m.type = .citizenship := by simpa using (List.mem_filter.1 hm).2
    have hm' : m'.type = .citizenship := by simpa using (List.mem_filter.1 hm').2
    exact hne (hm.trans hm'.symm)
  have hsubset : citizens.map Mapping.synthetic ⊆ synCountries.map str := by
    intro syn hsyn
    obtain ⟨m, hm, rfl⟩ := List.mem_map.1 hsyn
    obtain ⟨hm, htype⟩ := List.mem_filter.1 hm
    rw [htr] at hm
    obtain ⟨gm, hgm, rfl⟩ := List.mem_map.1 hm
    exact (hspec gm hgm).2 (by simpa using htype)
  have hle := (List.subperm_of_subset hnodup hsubset).length_le
  rw [List.length_map, List.length_map, ← hcount] at hle
  exact absurd hmany (not_lt.2 hle)

/-- The test that the values of a transformation are unambiguous. -/
instance (tr : Transform) : Decidable tr.Unambiguous :=
  decidable_of_iff (tr.mappings.Pairwise (fun m m' => m.type = m'.type →
    m.synthetic ≠ m'.synthetic) ∧
    ∀ m ∈ tr.mappings, m.synthetic ≠ m.original)
    ⟨fun h => ⟨h.1, h.2⟩, fun h => ⟨h.different, h.changed⟩⟩

/-- Seven citizenships get at most six countries. -/
theorem not_unambiguous_citizenships :
    let text := str "США, Канада, Куба, Китай, Индия, Япония, Перу"
    let decided := [(0, 6), (8, 20), (22, 30), (32, 42), (44, 54), (56, 68), (70, 78)].map
      fun span => (⟨candidateAt .citizenship text span, .mask, []⟩ : Decided)
    ∃ tr, buildTransform summingGoRuntime text decided .syntheticMode (str "seed") = .ok tr ∧
      tr.mappings.length = 7 ∧ ¬tr.Unambiguous := by
  intro text decided
  have hrun : (buildTransform summingGoRuntime text decided .syntheticMode
    (str "seed")).toOption.any
      (fun tr => decide (tr.mappings.length = 7 ∧ ¬tr.Unambiguous)) = true := by decide +kernel
  obtain ⟨tr, htr, htest⟩ := Except.exists_of_any hrun
  exact ⟨tr, htr, of_decide_eq_true htest⟩

end PiiProxy.GoService
