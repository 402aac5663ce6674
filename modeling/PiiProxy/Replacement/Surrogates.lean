import PiiProxy.Replacement.Tokens

/-!
# The surrogates of a result

The mappings of a result are those that the engine built for the groups, except that the main loop
may have downgraded some of them to their tokens. A surrogate that was drawn has passed the
acceptance test of the engine, and one that was not is the token.

## Main definitions

* `EntityMapping.IsDowngradeOf`: the mapping, perhaps downgraded to its token.

## Main results

* `acceptSurrogate_iff`: what is accepted.
* `chooseSurrogate_eq_some`: a chosen surrogate was drawn and accepted.
* `mapping_of_buildTransformResult`: where a mapping of a result comes from.
-/

namespace PiiProxy

variable (rt : Runtime)

variable {rt} in
/-- What `_build_mapping` accepts. -/
theorem acceptSurrogate_iff {used : List Text} {text : Text} {drawn : Text × Option Identity} :
    acceptSurrogate rt used text drawn = true ↔ drawn.1 ≠ [] ∧ drawn.1 ∉ used ∧
      ¬drawn.1 <:+: text ∧ aliasShapeCollides rt drawn.2 text = false := by
  rw [acceptSurrogate, Bool.and_eq_true, Bool.and_eq_true, Bool.and_eq_true, Bool.not_eq_true',
    Bool.not_eq_true', Bool.not_eq_true', Bool.not_eq_true', List.isEmpty_eq_false_iff,
    List.contains_eq_mem, decide_eq_false_iff_not, ← Bool.not_eq_true (PySeq.hasSub _ _),
    PySeq.hasSub_iff, and_assoc, and_assoc]

/-- **A chosen surrogate was drawn and accepted.** -/
theorem chooseSurrogate_eq_some {group : EntityGroup} {seed : ℕ} {used : List Text} {text : Text}
    {budget : ℕ} {drawn : Text × Option Identity}
    (h : chooseSurrogate rt group seed used text budget = .ok (some drawn)) :
    acceptSurrogate rt used text drawn = true ∧ ∃ seed',
    drawSurrogate rt group seed' = .ok drawn := by
  induction budget generalizing seed with
  | zero => cases h
  | succ budget ih =>
    obtain ⟨drawn', hdrawn, h⟩ := Except.bind_eq_ok.mp h
    split_ifs at h with haccept
    · cases h
      exact ⟨haccept, seed, hdrawn⟩
    · exact ih h

/-- The mapping, perhaps downgraded to its token. -/
def EntityMapping.IsDowngradeOf (m built : EntityMapping) : Prop :=
  ∃ fallback, m = { built with metadata := { built.metadata with syntheticFallback := fallback } }

theorem EntityMapping.IsDowngradeOf.refl (m : EntityMapping) : m.IsDowngradeOf m :=
  ⟨m.metadata.syntheticFallback, rfl⟩

theorem isDowngradeOf_occurrenceReplacement (mode : MaskingMode) (d : PrivacyDecision)
    {m built : EntityMapping} (h : m.IsDowngradeOf built) :
    (occurrenceReplacement rt mode d m).2.IsDowngradeOf built := by
  obtain ⟨fallback, rfl⟩ := h
  unfold occurrenceReplacement
  split
  · exact ⟨fallback, rfl⟩
  · exact ⟨fallback, rfl⟩
  · split
    · exact ⟨true, rfl⟩
    · split_ifs <;> exact ⟨fallback, rfl⟩

/-- The main loop keeps the groups and downgrades mappings only. -/
theorem foldlM_placeDecision_downgrades {mode : MaskingMode} {ds : List DecisionObject}
    {entries : List (EntityGroup × EntityMapping)} {placed : Placement}
    (h : ds.foldlM (placeDecision rt mode) { entries := entries } = .ok placed) :
    List.Forall₂ (fun e built => e.1 = built.1 ∧
      e.2.IsDowngradeOf built.2) placed.entries entries := by
  refine Except.foldlM_invariant (P := fun st : Placement =>
    List.Forall₂ (fun e built => e.1 = built.1 ∧ e.2.IsDowngradeOf built.2) st.entries entries) ?_
    (List.forall₂_same.mpr fun e _ => ⟨rfl, .refl e.2⟩) h
  intro st d st' hst hstep
  obtain ⟨-, hentries, -⟩ | ⟨-, i, group, mapping, object, hfind, hentries, -⟩ :=
    placeDecision_eq_ok rt hstep
  · rw [hentries]
    exact hst
  · obtain ⟨hget, -⟩ := findEntry_eq_some hfind
    rw [hentries]
    rw [List.forall₂_iff_get] at hst ⊢
    obtain ⟨hlen, hst⟩ := hst
    refine ⟨by rw [List.length_set, hlen], fun k hk hk' => ?_⟩
    rw [List.length_set] at hk
    have hk_built := hst k hk hk'
    simp only [List.get_eq_getElem, List.getElem_set] at hk_built ⊢
    split_ifs with hik
    · subst hik
      rw [List.getElem?_eq_getElem hk, Option.some.injEq] at hget
      rw [hget] at hk_built
      exact ⟨hk_built.1, isDowngradeOf_occurrenceReplacement rt mode object hk_built.2⟩
    · exact hk_built

/-- **Where a mapping of a result comes from.** It was built for a group, and perhaps downgraded. -/
theorem mapping_of_buildTransformResult {text : Text} {decisions : List PrivacyDecision}
    {mode : MaskingMode} {sessionSeed : Text} {R : TransformResult}
    (h : buildTransformResult rt text decisions mode sessionSeed = .ok R) {m : EntityMapping}
    (hm : m ∈ R.mappings) :
    ∃ group ∈ groupPersonalDecisions rt.unicode (decisionObjects decisions), ∃ built used used',
      buildMapping rt group sessionSeed used text = .ok (built, used') ∧ m.IsDowngradeOf built := by
  obtain ⟨entries, placed, hentries, hplaced, hmappings, -⟩ := buildTransformResult_eq_ok rt h
  obtain ⟨hgroups, hbuilt⟩ := buildMappings_eq_ok rt hentries
  rw [hmappings] at hm
  obtain ⟨e, he, rfl⟩ := List.mem_map.mp hm
  obtain ⟨b, hb, -, hdown⟩ :=
    PySeq.exists_of_forall₂ (foldlM_placeDecision_downgrades rt hplaced) he
  obtain ⟨used, used', hbuilt⟩ := hbuilt b hb
  exact ⟨b.1, hgroups ▸ List.mem_map_of_mem hb, b.2, used, used', hbuilt, hdown⟩

end PiiProxy
