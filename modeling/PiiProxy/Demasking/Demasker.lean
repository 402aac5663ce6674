import PiiProxy.Lib.Greedy
import PiiProxy.Lib.PyDict
import PiiProxy.Lib.Substitution
import PiiProxy.Replacement.Morphology

/-!
# The demasker

`ModeDemasker` of `app/demasking/demasker.py`: it restores originals from tokens and synthetic
values that it finds anywhere in a text. In token mode one regular expression, the alternation of
all tokens, is substituted. In synthetic mode every needle is searched by itself, with word
boundaries, and the longest of the spans that overlap are replaced; a person contributes a needle
for each alias shape in each grammatical case.

A span with its replacement is a `Splice.Edit`.

## Main definitions

* `resolveAndApply`, `Demasker.isWordChar`, `findAllSpans`.
* `ShapeSymbol`, `wordShapes`, `initialShapes`, `renderShape`, `aliasShapePairs`.
* `nameNeedleReplacements`, `demaskToken`, `demaskSynthetic`, `demask`.
-/

namespace PiiProxy

/-! ### Spans -/

/-- Two spans share a position. -/
def spansOverlap (a b : Splice.Edit Char) : Bool :=
  decide (a.start < b.stop) && decide (b.start < a.stop)

/-- The spans that `_resolve_and_apply` chooses: longer ones first, then those further left. -/
def chooseSpans (spans : List (Splice.Edit Char)) : List (Splice.Edit Char) :=
  Greedy.select spansOverlap []
    (PySeq.sortedBy (fun s => toLex (-((s.stop : ℤ) - s.start), (s.start : ℤ))) spans)

/-- `result[:start] + replacement + result[end:]`. -/
def replaceSpan (result : Text) (s : Splice.Edit Char) : Text :=
  PySeq.slice result 0 s.start ++ s.insert ++ PySeq.slice result s.stop result.length

/-- `_resolve_and_apply`. -/
def resolveAndApply (text : Text) (spans : List (Splice.Edit Char)) : Text :=
  (PySeq.sortedBy (fun s => -(s.start : ℤ)) (chooseSpans spans)).foldl replaceSpan text

variable (u : Unicode)

/-- `_is_word_char`. -/
def Demasker.isWordChar (ch : Char) : Bool := u.isAlnum ch || ch == '_'

/-- The positions from `pos` on that `str.find` reports when each search starts after the position
found last. -/
def findAll (needle : Text) : ℕ → Text → List ℕ
  | pos, [] => if needle.isPrefixOf [] then [pos] else []
  | pos, a :: s =>
    if needle.isPrefixOf (a :: s) then pos :: findAll needle (pos + 1) s
    else findAll needle (pos + 1) s

/-- `before_ok and after_ok`. -/
def boundaryOk (text : Text) (idx stop : ℕ) : Bool :=
  (idx == 0 || !((text[idx - 1]?).any (Demasker.isWordChar u))) &&
    (stop == text.length || !((text[stop]?).any (Demasker.isWordChar u)))

/-- The spans of one needle. -/
def findSpans (text needle replacement : Text) : List (Splice.Edit Char) :=
  ((findAll needle 0 text).filter fun idx => boundaryOk u text idx (idx + needle.length)).map
    fun idx => ⟨idx, idx + needle.length, replacement⟩

/-- `_find_all_spans`. -/
def findAllSpans (text : Text) (needleReplacements : List (Text × Text)) :
    List (Splice.Edit Char) :=
  (needleReplacements.filter fun p => !p.1.isEmpty).flatMap fun p => findSpans u text p.1 p.2

/-! ### Alias shapes -/

/-- A symbol of an alias shape: a full word or the initial of a component. -/
inductive ShapeSymbol where
  | word (role : Role)
  | initial (role : Role)
  deriving DecidableEq, Repr

/-- `_ROLE_BY_SYMBOL`. -/
def ShapeSymbol.role : ShapeSymbol → Role
  | .word role => role
  | .initial role => role

/-- `_WORD_SHAPES`. -/
def wordShapes : List (List ShapeSymbol) :=
  [[.word .surname, .word .first, .word .patronymic],
   [.word .first, .word .patronymic, .word .surname],
   [.word .first, .word .surname],
   [.word .surname, .word .first],
   [.word .first, .word .patronymic]]

/-- `_INITIAL_SHAPES`. -/
def initialShapes : List (List ShapeSymbol) :=
  [[.initial .first, .initial .patronymic, .word .surname],
   [.word .surname, .initial .first, .initial .patronymic],
   [.initial .first, .word .surname]]

variable (rt : Runtime)

/-- The loop of `_render_shape`: `out` is rendered, and its last element is an initial when
`pendingInitial`. A part that is missing is the empty text. -/
def renderSymbols (parts : Role → Text) (case : GramCase) (gender : Gender)
    (compactInitials : Bool) : List ShapeSymbol → List Text → Bool → Option (List Text)
  | [], out, _ => some out
  | symbol :: shape, out, pendingInitial =>
    let word := parts symbol.role
    if word.isEmpty then none
    else match symbol with
      | .initial _ =>
        let token := word.take 1 ++ ['.']
        let out := if pendingInitial && compactInitials then
          out.dropLast ++ [out.getLastD [] ++ token] else out ++ [token]
        renderSymbols parts case gender compactInitials shape out true
      | .word _ =>
        renderSymbols parts case gender compactInitials shape
          (out ++ [inflectWord rt word case (some gender)]) false

/-- `_render_shape`. -/
def renderShape (shape : List ShapeSymbol) (parts : Role → Text) (case : GramCase)
    (gender : Gender) (compactInitials : Bool) : Option Text :=
  (renderSymbols rt parts case gender compactInitials shape [] false).map joinWords

/-- `parts.get(role)` of an original identity, with the empty text for a part that is missing. -/
def OriginalIdentity.part (o : OriginalIdentity) : Role → Text
  | .surname => o.surname.getD []
  | .first => o.first.getD []
  | .patronymic => o.patronymic.getD []

/-- `_render_original_like`. -/
def renderOriginalLike (shape : List ShapeSymbol) (original : OriginalIdentity) (case : GramCase)
    (gender : Gender) : Option Text :=
  let reduced := shape.filter fun s => !(original.part s.role).isEmpty
  if reduced.isEmpty then none
  else renderShape rt reduced original.part case gender false

/-- `_collect_shape_pair`. -/
def collectShapePair (identity : Identity) (original : OriginalIdentity) (case : GramCase)
    (compact : Bool) (pairs : List (Text × Text)) (shape : List ShapeSymbol) :
    List (Text × Text) :=
  match renderShape rt shape identity.part case identity.gender compact with
  | none => pairs
  | some needle =>
    if needle.isEmpty then pairs
    else
      match renderOriginalLike rt shape original case (original.gender.getD identity.gender) with
      | none => pairs
      | some restored =>
        if restored.isEmpty then pairs else PyDict.setDefault needle restored pairs

/-- The renderings of `_alias_shape_pairs`, in order. -/
def shapeRenderings : List (GramCase × Bool × List ShapeSymbol) :=
  cases.flatMap fun case =>
    wordShapes.map (fun shape => (case, false, shape)) ++
      initialShapes.flatMap fun shape => [(case, false, shape), (case, true, shape)]

/-- `_alias_shape_pairs`. -/
def aliasShapePairs (identity : Identity) (original : OriginalIdentity) : List (Text × Text) :=
  shapeRenderings.foldl
    (fun pairs r => collectShapePair rt identity original r.1 r.2.1 pairs r.2.2) []

/-! ### Needles -/

/-- `mapping.original_nominal or mapping.original`. -/
def EntityMapping.nominalOrOriginal (m : EntityMapping) : Text :=
  (m.originalNominal.filter fun n => !n.isEmpty).getD m.original

/-- `_legacy_name_pairs`. -/
def legacyNamePairs (mapping : EntityMapping) (identity : Identity) : List (Text × Text) :=
  let originalWords := splitNameWords rt mapping.nominalOrOriginal
  cases.filterMap fun case =>
    let surface := inflectFullName rt identity.surname identity.first identity.patronymic case
      identity.gender
    if surface.isEmpty then none
    else some (surface, inflectNameWords rt originalWords case (mapping.gender.getD .masc))

/-- `_name_needle_replacements`. -/
def nameNeedleReplacements (mapping : EntityMapping) : List (Text × Text) :=
  match mapping.metadata.syntheticIdentity, mapping.metadata.originalIdentity with
  | none, _ =>
    match mapping.syntheticNominal.filter fun n => !n.isEmpty with
    | some nominal => [(nominal, mapping.nominalOrOriginal)]
    | none => []
  | some identity, none => legacyNamePairs rt mapping identity
  | some identity, some original => aliasShapePairs rt identity original

/-- The needles of one mapping in synthetic mode. -/
def mappingNeedles (mapping : EntityMapping) : List (Text × Text) :=
  (if mapping.token.isEmpty then [] else [(mapping.token, mapping.original)]) ++
    if mapping.type == .fullName || mapping.type == .cardholder then
      nameNeedleReplacements rt mapping
    else if mapping.synthetic.isEmpty then []
    else [(mapping.synthetic, mapping.original)]

/-- The needles of `_demask_synthetic`. -/
def needleReplacements (mappings : List EntityMapping) : List (Text × Text) :=
  mappings.flatMap (mappingNeedles rt)

/-! ### Demasking -/

/-- The dictionary of `_demask_token`. -/
def tokenReplacements (mappings : List EntityMapping) : List (Text × Text) :=
  PyDict.ofPairs
    ((mappings.filter fun m => !m.token.isEmpty).map fun m => (m.token, m.original))

/-- `_demask_token`: the alternation has the longest tokens first. -/
def demaskToken (text : Text) (mappings : List EntityMapping) : Text :=
  Subst.subst (PySeq.sortedBy (fun r => -(r.1.length : ℤ)) (tokenReplacements mappings)) 0 text

/-- `_demask_synthetic`. -/
def demaskSynthetic (text : Text) (mappings : List EntityMapping) : Text :=
  resolveAndApply text (findAllSpans rt.unicode text (needleReplacements rt mappings))

/-- `ModeDemasker.demask`. -/
def demask (text : Text) (mappings : List EntityMapping) : MaskingMode → Text
  | .tokenMode => demaskToken text mappings
  | .syntheticMode => demaskSynthetic rt text mappings
  | .partialMode => text

end PiiProxy
