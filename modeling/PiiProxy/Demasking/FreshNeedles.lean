import PiiProxy.Demasking.AliasShapes
import PiiProxy.EntityResolution.Soundness
import PiiProxy.Replacement.Persons

/-!
# Needles and the source text

Before it accepts a surrogate the engine looks for it in the source text, and for the two-word
shapes of a person in every case. The demasker looks for more: for the tokens, for three-word shapes
and for shapes with initials. A three-word shape begins with a two-word shape, so it is not in the
source text either. Tokens and shapes with initials are not compared with the text.

## Main definitions

* `searchStrings`: the strings that the demasker looks for.
* `EntityMapping.IsInitialsNeedle`: a shape with initials of the person of a mapping.
* `Fresh`: no string that is looked for stands outside the masked spans.

## Main results

* `searchString_in_text`: what the demasker looks for and the source text has is a token or a shape
  with initials.
* `not_fresh`: both occur.
-/

namespace PiiProxy

variable (rt : Runtime)

/-- The strings that the demasker looks for on behalf of the mappings. -/
def searchStrings (mappings : List EntityMapping) : MaskingMode → List Text
  | .tokenMode => (tokenReplacements mappings).map Prod.fst
  | .syntheticMode => (needleReplacements rt mappings).map Prod.fst
  | .partialMode => []

/-- The string is a shape with initials of the person of the mapping. -/
def EntityMapping.IsInitialsNeedle (m : EntityMapping) (needle : Text) : Prop :=
  ∃ identity, m.metadata.syntheticIdentity = some identity ∧ ∃ shape ∈ initialShapes,
    ∃ case ∈ cases, ∃ compact,
      renderShape rt shape identity.part case identity.gender compact = some needle

variable {rt}

/-! ### Two-word shapes -/

/-- What `_alias_shape_collides` looks for: two names in the order of a two-word shape. -/
theorem not_in_text_of_not_collides {identity : Identity} {text : Text}
    (h : aliasShapeCollides rt (some identity) text = false) {role role' : Role}
    (hpair : (role, role') ∈
      [(Role.first, Role.patronymic), (Role.first, Role.surname), (Role.surname, Role.first)])
    (hpart : identity.part role ≠ []) (hpart' : identity.part role' ≠ []) {case : GramCase}
    (hcase : case ∈ cases) :
    ¬(inflectWord rt (identity.part role) case (some identity.gender) ++ ([' '] ++
      inflectWord rt (identity.part role') case (some identity.gender))) <:+: text := by
  rw [← PySeq.hasSub_iff, ← List.append_assoc]
  have hmem : (identity.part role, identity.part role') ∈
      [(identity.first, identity.patronymic), (identity.first, identity.surname),
        (identity.surname, identity.first)].filter fun p => !p.1.isEmpty && !p.2.isEmpty := by
    refine List.mem_filter.2 ⟨?_, by simp [hpart, hpart']⟩
    exact List.mem_map_of_mem
      (f := fun p : Role × Role => (identity.part p.1, identity.part p.2)) hpair
  have hnone := List.any_eq_false.1 h _ hmem
  rw [List.any_eq_true] at hnone
  exact fun hsub => hnone ⟨case, hcase, hsub⟩

/-- No shape of full words is in the text when the two-word shapes are not. -/
theorem words_not_in_text {identity : Identity} {text : Text}
    (h : aliasShapeCollides rt (some identity) text = false)
    (hparts : ∀ role, identity.part role ≠ []) {shape : List ShapeSymbol}
    (hshape : shape ∈ wordShapes) {case : GramCase} (hcase : case ∈ cases) :
    ¬joinWords (shape.map fun s =>
      inflectWord rt (identity.part s.role) case (some identity.gender)) <:+: text := by
  -- the first two words are a two-word shape
  have hbegins : ∃ role role' rest, shape = .word role :: .word role' :: rest ∧
      (role, role') ∈
        [(Role.first, .patronymic), (Role.first, .surname), (Role.surname, .first)] := by
    have hshapes : ∀ shape ∈ wordShapes, ∃ pair ∈
        [(Role.first, Role.patronymic), (Role.first, Role.surname), (Role.surname, Role.first)],
        shape.take 2 = [.word pair.1, .word pair.2] := by decide
    obtain ⟨⟨role, role'⟩, hpair, htake⟩ := hshapes shape hshape
    exact ⟨role, role', shape.drop 2, by rw [← List.take_append_drop 2 shape, htake]; rfl, hpair⟩
  obtain ⟨role, role', rest, rfl, hpair⟩ := hbegins
  intro hinside
  refine not_in_text_of_not_collides h hpair (hparts role) (hparts role') hcase
    (List.IsInfix.trans ?_ hinside)
  rw [List.map_cons, List.map_cons, joinWords_cons_cons]
  obtain ⟨t, ht⟩ := prefix_joinWords (inflectWord rt (identity.part role') case
    (some identity.gender)) (rest.map fun s =>
      inflectWord rt (identity.part s.role) case (some identity.gender))
  refine ⟨[], t, ?_⟩
  rw [List.nil_append, List.append_assoc, List.append_assoc, ht]
  rfl

/-! ### Needles of a mapping -/

/-- A full name in a case is a shape of full words. -/
private theorem inflectFullName_eq (identity : Identity) (case : GramCase)
    (hparts : ∀ role, identity.part role ≠ []) :
    inflectFullName rt identity.surname identity.first identity.patronymic case identity.gender =
      joinWords ([ShapeSymbol.word .surname, .word .first, .word .patronymic].map fun s =>
        inflectWord rt (identity.part s.role) case (some identity.gender)) := by
  have hkept : ([identity.surname, identity.first, identity.patronymic].filter fun w =>
      !w.isEmpty) = [identity.surname, identity.first, identity.patronymic] := by
    have hsurname : identity.surname ≠ [] := hparts .surname
    have hfirst : identity.first ≠ [] := hparts .first
    have hpatronymic : identity.patronymic ≠ [] := hparts .patronymic
    simp [hsurname, hfirst, hpatronymic]
  rw [inflectFullName, inflectNameWords, hkept]
  rfl

/-- A needle of a person that the text has is a shape with initials. -/
private theorem isInitialsNeedle_of_mem {m : EntityMapping} {identity : Identity} {text : Text}
    (hidentity : m.metadata.syntheticIdentity = some identity) (hdrawn : identity.Drawn)
    (hcollides : aliasShapeCollides rt (some identity) text = false) {needle : Text}
    (hneedle : needle ∈ (nameNeedleReplacements rt m).map Prod.fst) (hinside : needle <:+: text) :
    m.IsInitialsNeedle rt needle := by
  have hwords {shape : List ShapeSymbol} (hshape : shape ∈ wordShapes) {case : GramCase}
      (hcase : case ∈ cases) {needle : Text} (heq : needle = joinWords (shape.map fun s =>
        inflectWord rt (identity.part s.role) case (some identity.gender)))
      (hinside : needle <:+: text) : False :=
    words_not_in_text hcollides hdrawn.ne_nil hshape hcase (heq ▸ hinside)
  rw [nameNeedleReplacements, hidentity] at hneedle
  cases horiginal : m.metadata.originalIdentity with
  | none =>
    rw [horiginal] at hneedle
    obtain ⟨pair, hpair, rfl⟩ := List.mem_map.1 hneedle
    obtain ⟨case, hcase, hsome⟩ := List.mem_filterMap.1 hpair
    dsimp only at hsome
    split_ifs at hsome
    cases hsome
    exact (hwords (by decide) hcase (inflectFullName_eq identity case hdrawn.ne_nil) hinside).elim
  | some original =>
    rw [horiginal] at hneedle
    obtain ⟨⟨case, compact, shape⟩, hr, hrender, -⟩ := mem_keys_aliasShapePairs.1 hneedle
    obtain ⟨hcase, ⟨hshape, -⟩ | hshape⟩ := mem_shapeRenderings.1 hr
    · rw [renderShape_words (words_of_mem_wordShapes hshape).1 fun s _ => hdrawn.ne_nil s.role]
        at hrender
      exact (hwords hshape hcase (Option.some.inj hrender).symm hinside).elim
    · exact ⟨identity, hidentity, shape, hshape, case, hcase, compact, hrender⟩

variable {text sessionSeed : Text} {decisions : List PrivacyDecision} {mode : MaskingMode}
  {R : TransformResult}

/-- The needles of a mapping: its token, its value, and those of its person. -/
private theorem mem_mappingNeedles {m : EntityMapping}
    (hnominal : m.syntheticNominal = some m.synthetic) {needle : Text}
    (hneedle : needle ∈ (mappingNeedles rt m).map Prod.fst) :
    needle = m.token ∨ needle = m.synthetic ∨
      ∃ identity, m.metadata.syntheticIdentity = some identity ∧
        needle ∈ (nameNeedleReplacements rt m).map Prod.fst := by
  rw [mappingNeedles, List.map_append, List.mem_append] at hneedle
  rcases hneedle with hneedle | hneedle
  · split_ifs at hneedle
    · cases hneedle
    · exact .inl (List.mem_singleton.1 hneedle)
  · split_ifs at hneedle
    · cases hidentity : m.metadata.syntheticIdentity with
      | some identity => exact .inr (.inr ⟨identity, rfl, hneedle⟩)
      | none =>
        rw [nameNeedleReplacements, hidentity, hnominal] at hneedle
        dsimp only at hneedle
        split at hneedle
        · next nominal hkept =>
          rw [List.mem_singleton.1 hneedle]
          exact .inr (.inl (Option.some.inj (Option.filter_eq_some_iff.1 hkept).1).symm)
        · cases hneedle
    · cases hneedle
    · exact .inr (.inl (List.mem_singleton.1 hneedle))

/-- The engine compares the value of a mapping that is no token, and its person, with the text. -/
private theorem value_not_in_text
    (h : buildTransformResult rt text decisions mode sessionSeed = .ok R) {m : EntityMapping}
    (hm : m ∈ R.mappings) :
    (m.synthetic ≠ m.token → ¬m.synthetic <:+: text) ∧
      ∀ identity, m.metadata.syntheticIdentity = some identity →
        aliasShapeCollides rt (some identity) text = false := by
  obtain ⟨group, -, built, used, used', hbuilt, fallback, rfl⟩ :=
    mapping_of_buildTransformResult rt h hm
  obtain ⟨-, -, hsurrogate⟩ := surrogate_of_buildMapping hbuilt
  rcases hsurrogate with ⟨htoken, hnone⟩ | ⟨drawn, seed, -, haccept, hsynthetic, hidentity⟩
  · exact ⟨fun hne => absurd htoken hne, fun identity hsome => by cases hnone.symm.trans hsome⟩
  · obtain ⟨-, -, habsent, hcollides⟩ := acceptSurrogate_iff.1 haccept
    refine ⟨fun _ hinside => habsent (hsynthetic ▸ hinside), fun identity hsome => ?_⟩
    rwa [← hsome, hidentity]

private theorem needle_in_text
    (h : buildTransformResult rt text decisions mode sessionSeed = .ok R) {m : EntityMapping}
    (hm : m ∈ R.mappings) {needle : Text} (hneedle : needle ∈ (mappingNeedles rt m).map Prod.fst)
    (hinside : needle <:+: text) : needle = m.token ∨ m.IsInitialsNeedle rt needle := by
  have hnominal : m.syntheticNominal = some m.synthetic := by
    obtain ⟨group, -, built, used, used', hbuilt, fallback, rfl⟩ :=
      mapping_of_buildTransformResult rt h hm
    exact (surrogate_of_buildMapping hbuilt).1
  obtain ⟨hvalue, hperson⟩ := value_not_in_text h hm
  rcases mem_mappingNeedles hnominal hneedle with htok | hsyn | ⟨identity, hsome, hneedle⟩
  · exact .inl htok
  · exact .inl (hsyn.trans (not_ne_iff.1 fun hne => hvalue hne (hsyn ▸ hinside)))
  · exact .inr (isInitialsNeedle_of_mem hsome (drawn_of_mem_mappings h hm hsome).1
      (hperson identity hsome) hneedle hinside)

/-- **What the demasker looks for and the source text has** is the token of a mapping, or a shape
with initials of a synthetic person. No synthetic value, no full name and no shape of full words,
in any case, is in the source text. -/
theorem searchString_in_text (h : buildTransformResult rt text decisions mode sessionSeed = .ok R) :
    (∀ search, ∀ needle ∈ searchStrings rt R.mappings search, needle <:+: text →
      ∃ m ∈ R.mappings, needle = m.token ∨ m.IsInitialsNeedle rt needle) ∧
    ∀ m ∈ R.mappings, (m.synthetic ≠ m.token → ¬m.synthetic <:+: text) ∧
      ∀ identity, m.metadata.syntheticIdentity = some identity → ∀ case ∈ cases,
        ¬inflectFullName rt identity.surname identity.first identity.patronymic case
            identity.gender <:+: text ∧
          ∀ shape ∈ wordShapes, ∀ compact words,
            renderShape rt shape identity.part case identity.gender compact = some words →
              ¬words <:+: text := by
  refine ⟨fun search needle hneedle hinside => ?_, fun m hm => ?_⟩
  · cases search with
    | tokenMode =>
      obtain ⟨pair, hpair, rfl⟩ := List.mem_map.1 hneedle
      obtain ⟨m, hm, rfl⟩ := List.mem_map.1 (PyDict.mem_of_mem_ofPairs hpair)
      exact ⟨m, List.mem_of_mem_filter hm, .inl rfl⟩
    | syntheticMode =>
      obtain ⟨pair, hpair, rfl⟩ := List.mem_map.1 hneedle
      obtain ⟨m, hm, hpair⟩ := List.mem_flatMap.1 hpair
      exact ⟨m, hm, needle_in_text h hm (List.mem_map_of_mem hpair) hinside⟩
    | partialMode => cases hneedle
  · obtain ⟨hvalue, hperson⟩ := value_not_in_text h hm
    refine ⟨hvalue, fun identity hidentity case hcase => ?_⟩
    have hcollides := hperson identity hidentity
    have hparts := (drawn_of_mem_mappings h hm hidentity).1.ne_nil
    constructor
    · rw [inflectFullName_eq identity case hparts]
      exact words_not_in_text hcollides hparts (by decide) hcase
    · intro shape hshape compact words hrender
      rw [renderShape_words (words_of_mem_wordShapes hshape).1 fun s _ => hparts s.role] at hrender
      rw [← Option.some.inj hrender]
      exact words_not_in_text hcollides hparts hshape hcase

/-- "Петров Пётр" at the beginning of a text. -/
def petrovDecisions : List PrivacyDecision :=
  [(nameMention 0 0 "Петров Пётр".toList
    [⟨.word "петров".toList, "Петров".toList, 0, 6, some .surname⟩,
     ⟨.word "пётр".toList, "Пётр".toList, 7, 11, some .first⟩]).2]

/-- The text has a token and the initial of the synthetic person with the surname. -/
def petrovText : Text := "Петров Пётр, И. Иванов и <PERSON_1>".toList

/-- Runs on the text, with a hash of one value. -/
def petrovRun (mode : MaskingMode) : Except PyError TransformResult :=
  buildTransformResult (basicRuntime 0 zero_lt_two_pow_64) petrovText petrovDecisions mode
    "p1".toList

/-- The initial of the synthetic person with the surname is looked for, and the text has it. -/
theorem searchString_in_text_petrov :
    ∃ R, petrovRun .syntheticMode = .ok R ∧
      (∃ m ∈ R.mappings, "И. Иванов".toList = m.token ∨
        m.IsInitialsNeedle (basicRuntime 0 zero_lt_two_pow_64) "И. Иванов".toList) ∧
      ∀ m ∈ R.mappings, m.synthetic ≠ m.token → ¬m.synthetic <:+: petrovText := by
  have hrun : (petrovRun .syntheticMode).toOption.any (fun R => decide ("И. Иванов".toList ∈
      searchStrings (basicRuntime 0 zero_lt_two_pow_64) R.mappings .syntheticMode)) = true := by
    decide +kernel
  obtain ⟨R, hR, hneedle⟩ := Except.exists_of_any hrun
  obtain ⟨hsearch, hvalues⟩ := searchString_in_text hR
  exact ⟨R, hR, hsearch .syntheticMode _ (of_decide_eq_true hneedle)
    ((PySeq.hasSub_iff _ _).1 (by decide)), fun m hm => (hvalues m hm).1⟩

/-! ### What the text may have -/

/-- Wherever the demasker finds one of its strings in the source text, a masked span is touched. -/
def Fresh (rt : Runtime) (mode : MaskingMode) (text : Text) (decisions : List PrivacyDecision)
    (R : TransformResult) : Prop :=
  ∀ needle ∈ searchStrings rt R.mappings mode, needle ≠ [] → ∀ start,
    needle <+: text.drop start →
      (mode = .syntheticMode → boundaryOk rt.unicode text start (start + needle.length) = true) →
        ∃ d ∈ decisions, d.isPersonal = true ∧ d.candidate.start < start + needle.length ∧
          start < d.candidate.stop

private theorem not_fresh_of_found {mode : MaskingMode} (needle : Text) (start : ℕ)
    (h : (petrovRun mode).toOption.any (fun R =>
      decide (needle ∈ searchStrings (basicRuntime 0 zero_lt_two_pow_64) R.mappings mode)) = true)
    (hne : needle ≠ []) (hfound : needle <+: petrovText.drop start)
    (hboundary : boundaryOk basicUnicode petrovText start (start + needle.length) = true)
    (hafter : 11 ≤ start) :
    ∃ R, petrovRun mode = .ok R ∧
      ¬Fresh (basicRuntime 0 zero_lt_two_pow_64) mode petrovText petrovDecisions R := by
  obtain ⟨R, hR, hneedle⟩ := Except.exists_of_any h
  refine ⟨R, hR, fun hfresh => ?_⟩
  obtain ⟨d, hd, -, -, hlt⟩ := hfresh needle (of_decide_eq_true hneedle) hne start hfound
    fun _ => hboundary
  rw [List.mem_singleton.1 hd] at hlt
  exact absurd (hlt : start < 11) (Nat.not_lt.2 hafter)

/-- Neither the token nor the shape with an initial is fresh. -/
theorem not_fresh :
    (∃ R, petrovRun .tokenMode = .ok R ∧
      ¬Fresh (basicRuntime 0 zero_lt_two_pow_64) .tokenMode petrovText petrovDecisions R) ∧
    ∃ R, petrovRun .syntheticMode = .ok R ∧
      ¬Fresh (basicRuntime 0 zero_lt_two_pow_64) .syntheticMode petrovText petrovDecisions R := by
  constructor
  · exact not_fresh_of_found "<PERSON_1>".toList 25 (by decide +kernel) (by decide) (by decide)
      (by decide) (by decide)
  · exact not_fresh_of_found "И. Иванов".toList 13 (by decide +kernel) (by decide) (by decide)
      (by decide) (by decide)

end PiiProxy
