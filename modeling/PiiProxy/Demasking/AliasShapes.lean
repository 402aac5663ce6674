import PiiProxy.Demasking.Demasker

/-!
# The needles of a person

Which needles `_alias_shape_pairs` makes for a synthetic identity: a rendering of an alias shape in
a case, when the original identity has something to restore. A shape of full words is written as
the inflected words, joined by blanks.

## Main definitions

* `Collects`: a rendering gives a needle.

## Main results

* `mem_keys_aliasShapePairs`: the needles of a person.
* `mem_shapeRenderings`: which shapes are rendered.
* `renderShape_words`: the shapes of full words.
-/

namespace PiiProxy

/-! ### Needles -/

section Needles

variable {rt : Runtime} {identity : Identity} {original : OriginalIdentity}

/-- A rendering gives the needle: `_collect_shape_pair` adds it. -/
def Collects (rt : Runtime) (identity : Identity) (original : OriginalIdentity)
    (r : GramCase × Bool × List ShapeSymbol) (needle : Text) : Prop :=
  renderShape rt r.2.2 identity.part r.1 identity.gender r.2.1 = some needle ∧ needle ≠ [] ∧
    ∃ restored ≠ [], renderOriginalLike rt r.2.2 original r.1
      (original.gender.getD identity.gender) = some restored

private theorem mem_keys_collectShapePair {r : GramCase × Bool × List ShapeSymbol}
    {pairs : List (Text × Text)} {needle : Text} :
    needle ∈ (collectShapePair rt identity original r.1 r.2.1 pairs r.2.2).map Prod.fst ↔
      needle ∈ pairs.map Prod.fst ∨ Collects rt identity original r needle := by
  rw [collectShapePair, Collects]
  cases hneedle : renderShape rt r.2.2 identity.part r.1 identity.gender r.2.1 with
  | none => simp
  | some needle' =>
    dsimp only
    cases horiginal : renderOriginalLike rt r.2.2 original r.1
        (original.gender.getD identity.gender) with
    | none => split_ifs <;> simp
    | some restored =>
      dsimp only
      split_ifs with hempty hempty'
      · rw [List.isEmpty_iff] at hempty
        subst hempty
        refine ⟨.inl, fun h => h.elim id ?_⟩
        rintro ⟨heq, hne, -⟩
        exact absurd (Option.some.inj heq).symm hne
      · rw [List.isEmpty_iff] at hempty'
        subst hempty'
        refine ⟨.inl, fun h => h.elim id ?_⟩
        rintro ⟨-, -, restored, hne, heq⟩
        exact absurd (Option.some.inj heq).symm hne
      · rw [PyDict.mem_keys_setDefault]
        refine or_congr_right ⟨?_, fun h => (Option.some.inj h.1).symm⟩
        rintro rfl
        rw [List.isEmpty_iff] at hempty hempty'
        exact ⟨rfl, hempty, restored, hempty', rfl⟩

/-- **The needles of `_alias_shape_pairs`** are those that some rendering gives. -/
theorem mem_keys_aliasShapePairs {needle : Text} :
    needle ∈ (aliasShapePairs rt identity original).map Prod.fst ↔
      ∃ r ∈ shapeRenderings, Collects rt identity original r needle := by
  have hfold (rs : List (GramCase × Bool × List ShapeSymbol)) (pairs : List (Text × Text)) :
      needle ∈ (rs.foldl (fun pairs r =>
        collectShapePair rt identity original r.1 r.2.1 pairs r.2.2) pairs).map Prod.fst ↔
      needle ∈ pairs.map Prod.fst ∨ ∃ r ∈ rs, Collects rt identity original r needle := by
    induction rs generalizing pairs with
    | nil => simp
    | cons r rs ih =>
      rw [List.foldl_cons, ih, mem_keys_collectShapePair, or_assoc, List.exists_mem_cons_iff]
  rw [aliasShapePairs, hfold, List.map_nil, or_iff_right List.not_mem_nil]

/-- The renderings write each alias shape in each case, those with initials in two ways. -/
theorem mem_shapeRenderings {r : GramCase × Bool × List ShapeSymbol} :
    r ∈ shapeRenderings ↔ r.1 ∈ cases ∧
      (r.2.2 ∈ wordShapes ∧ r.2.1 = false ∨ r.2.2 ∈ initialShapes) := by
  obtain ⟨case, compact, shape⟩ := r
  rw [shapeRenderings, List.mem_flatMap]
  constructor
  · rintro ⟨case', hcase, hr⟩
    rcases List.mem_append.1 hr with hr | hr
    · obtain ⟨shape', hshape, heq⟩ := List.mem_map.1 hr
      cases heq
      exact ⟨hcase, .inl ⟨hshape, rfl⟩⟩
    · obtain ⟨shape', hshape, heq⟩ := List.mem_flatMap.1 hr
      rcases List.mem_pair.1 heq with heq | heq
      · cases heq
        exact ⟨hcase, .inr hshape⟩
      · cases heq
        exact ⟨hcase, .inr hshape⟩
  · rintro ⟨hcase, ⟨hshape, hcompact⟩ | hshape⟩
    · obtain rfl : compact = false := hcompact
      exact ⟨case, hcase, List.mem_append_left _ (List.mem_map_of_mem hshape)⟩
    · refine ⟨case, hcase, List.mem_append_right _ (List.mem_flatMap.2 ⟨shape, hshape, ?_⟩)⟩
      rw [List.mem_pair]
      cases compact with
      | false => exact .inl rfl
      | true => exact .inr rfl

end Needles

/-! ### Full words -/

theorem joinWords_cons_cons (w w' : Text) (words : List Text) :
    joinWords (w :: w' :: words) = w ++ ([' '] ++ joinWords (w' :: words)) := by
  rw [joinWords, List.intercalate_cons_cons, List.append_assoc]
  rfl

/-- Joined words begin with the first word. -/
theorem prefix_joinWords (w : Text) (words : List Text) : w <+: joinWords (w :: words) := by
  cases words with
  | nil => simp [joinWords]
  | cons w' words =>
    rw [joinWords_cons_cons]
    exact List.prefix_append _ _

section Words

variable {rt : Runtime} {parts : Role → Text} {case : GramCase} {gender : Gender} {compact : Bool}

/-- A word shape has full words only, two or three of them. -/
theorem words_of_mem_wordShapes {shape : List ShapeSymbol} (hshape : shape ∈ wordShapes) :
    (∀ s ∈ shape, s = .word s.role) ∧ (shape.length = 2 ∨ shape.length = 3) := by
  have hshapes : ∀ shape ∈ wordShapes, (∀ s ∈ shape, s = .word s.role) ∧
      (shape.length = 2 ∨ shape.length = 3) := by decide
  exact hshapes shape hshape

private theorem renderSymbols_words {shape : List ShapeSymbol}
    (hwords : ∀ s ∈ shape, s = .word s.role) (hparts : ∀ s ∈ shape, parts s.role ≠ [])
    (out : List Text) (pending : Bool) :
    renderSymbols rt parts case gender compact shape out pending =
      some (out ++ shape.map fun s => inflectWord rt (parts s.role) case (some gender)) := by
  induction shape generalizing out pending with
  | nil => rw [renderSymbols, List.map_nil, List.append_nil]
  | cons symbol shape ih =>
    obtain ⟨hword, hrest⟩ := List.forall_mem_cons.1 hwords
    obtain ⟨hpart, hrest_parts⟩ := List.forall_mem_cons.1 hparts
    have hempty : (parts symbol.role).isEmpty = false := List.isEmpty_eq_false_iff.2 hpart
    rw [List.map_cons, List.append_cons]
    cases symbol with
    | word role =>
      rw [renderSymbols, hempty]
      exact ih hrest hrest_parts _ false
    | initial role => cases hword

/-- A shape of full words is written as its words, joined by blanks. -/
theorem renderShape_words {shape : List ShapeSymbol} (hwords : ∀ s ∈ shape, s = .word s.role)
    (hparts : ∀ s ∈ shape, parts s.role ≠ []) :
    renderShape rt shape parts case gender compact =
      some (joinWords (shape.map fun s => inflectWord rt (parts s.role) case (some gender))) := by
  rw [renderShape, renderSymbols_words hwords hparts]
  rfl

end Words

end PiiProxy
