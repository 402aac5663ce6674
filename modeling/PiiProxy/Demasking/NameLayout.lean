import PiiProxy.Demasking.AliasShapes
import PiiProxy.Detectors.MentionLayout
import PiiProxy.EntityResolution.Rendering
import PiiProxy.Lib.Layout

/-!
# Which rendered names the demasker can find

A name is rendered in the layout of its mention: whatever white space stands between the words and
the initials is kept, and so is their order. The demasker looks for eight alias shapes with single
blanks between their parts. So it can find the surrogate of a mention, whatever identity was drawn,
exactly when the mention is laid out like one of these shapes.

## Main definitions

* `layoutFrom`: the layout of a mention, and `shapeLayout` that of an alias shape.
* `ShapedLikeAlias`: a mention laid out like an alias shape.
* `Recognisable`: every surrogate of the mention is among the needles of its identity.

## Main results

* `renderShape_eq`, `renderLikeMention_eq`: both sides write a layout out.
* `recognisable_iff`: which mentions are recognisable.
-/

namespace PiiProxy

/-! ### Layouts -/

/-- What a component is in a layout. -/
def NameComponent.symbol (comp : NameComponent) : Option ShapeSymbol :=
  comp.role.map fun role => if comp.isInitial then .initial role else .word role

/-- The layout of a mention from the offset `cursor` on: the components, each with the text in front
of it, and the text behind the last. -/
def layoutFrom (value : Text) : ℕ → List NameComponent → List (Text × Option ShapeSymbol) × Text
  | cursor, [] => ([], value.drop cursor)
  | cursor, comp :: comps =>
    let further := layoutFrom value comp.offsetEnd comps
    ((PySeq.slice value cursor comp.offsetStart, comp.symbol) :: further.1, further.2)

/-- The symbol of an alias shape is an initial. -/
def ShapeSymbol.isInitial : ShapeSymbol → Bool
  | .word _ => false
  | .initial _ => true

/-- What `_render_shape` writes between two symbols: a blank, or nothing between two initials that
are written compactly. -/
def shapeGap (compact : Bool) : Option ShapeSymbol → ShapeSymbol → Text
  | none, _ => []
  | some previous, symbol =>
    if previous.isInitial && symbol.isInitial && compact then [] else [' ']

/-- The layout of an alias shape behind the symbol `previous`. -/
def shapeLayout (compact : Bool) : Option ShapeSymbol → List ShapeSymbol →
    List (Text × ShapeSymbol)
  | _, [] => []
  | previous, symbol :: shape =>
    (shapeGap compact previous symbol, symbol) :: shapeLayout compact (some symbol) shape

/-- The mention is laid out like one of the alias shapes. -/
def ShapedLikeAlias (value : Text) (comps : List NameComponent) : Prop :=
  ∃ shape ∈ wordShapes ++ initialShapes, ∃ compact,
    layoutFrom value 0 comps = ((shapeLayout compact none shape).map fun p => (p.1, some p.2), [])

/-- How a symbol is written for a person with the given parts. -/
def ShapeSymbol.render (rt : Runtime) (parts : Role → Text) (case : GramCase) (gender : Gender) :
    ShapeSymbol → Text
  | .word role => inflectWord rt (parts role) case (some gender)
  | .initial role => (parts role).take 1 ++ ['.']

/-- The mention spells each word that the original identity must have. -/
def SpelledBy (comps : List NameComponent) (original : OriginalIdentity) : Prop :=
  ∀ comp ∈ comps, comp.isInitial = false → ∀ role, comp.role = some role → original.part role ≠ []

/-- Whatever complete identity was drawn, and in every case, the rendered mention is one of the
needles for an original identity that has the words of the mention. -/
def Recognisable (rt : Runtime) (value : Text) (comps : List NameComponent) : Prop :=
  ∀ (identity : Identity) (original : OriginalIdentity), (∀ role, identity.part role ≠ []) →
    SpelledBy comps original → ∀ case ∈ cases,
      ∃ surface, renderLikeMention rt value comps identity case (some identity.gender) =
          .ok surface ∧
        surface ∈ (aliasShapePairs rt identity original).map Prod.fst

/-! ### Alias shapes -/

section Shapes

variable {rt : Runtime} {parts : Role → Text} {case : GramCase} {gender : Gender} {compact : Bool}

private theorem joinWords_append_singleton {out : List Text} (hout : out ≠ []) (t : Text) :
    joinWords (out ++ [t]) = joinWords out ++ ([' '] ++ t) := by
  induction out with
  | nil => exact absurd rfl hout
  | cons a out ih =>
    cases out with
    | nil =>
      rw [List.singleton_append, joinWords_cons_cons]
      simp [joinWords]
    | cons b out =>
      rw [List.cons_append, List.cons_append, joinWords_cons_cons, joinWords_cons_cons,
        ← List.cons_append, ih (List.cons_ne_nil b out), List.append_assoc, List.append_assoc]

/-- Text that is glued to the last word. -/
private theorem joinWords_glue {out : List Text} (hout : out ≠ []) (t : Text) :
    joinWords (out.dropLast ++ [out.getLastD [] ++ t]) = joinWords out ++ t := by
  obtain ⟨front, last, rfl⟩ := (List.eq_nil_or_concat' out).resolve_left hout
  rw [List.dropLast_concat, List.getLastD_concat]
  cases front with
  | nil => simp [joinWords]
  | cons a front =>
    rw [joinWords_append_singleton (List.cons_ne_nil a front),
      joinWords_append_singleton (List.cons_ne_nil a front), List.append_assoc, List.append_assoc]

variable (rt case gender compact) in
/-- The symbols behind those that are rendered. -/
private theorem renderSymbols_eq {shape : List ShapeSymbol}
    (hshape : ∀ s ∈ shape, parts s.role ≠ []) (out : List Text) (hout : out ≠ [])
    (previous : ShapeSymbol) :
    ∃ out', renderSymbols rt parts case gender compact shape out previous.isInitial = some out' ∧
      joinWords out' = joinWords out ++
        Layout.spell (ShapeSymbol.render rt parts case gender)
          (shapeLayout compact (some previous) shape) := by
  induction shape generalizing out previous with
  | nil => exact ⟨out, rfl, (List.append_nil _).symm⟩
  | cons symbol shape ih =>
    obtain ⟨hsymbol, hrest⟩ := List.forall_mem_cons.1 hshape
    have hpart : (parts symbol.role).isEmpty = false := List.isEmpty_eq_false_iff.2 hsymbol
    rw [shapeLayout, Layout.spell_cons, ← List.append_assoc, ← List.append_assoc]
    cases symbol with
    | word role =>
      obtain ⟨out', hout', hjoin⟩ := ih hrest
        (out ++ [inflectWord rt (parts role) case (some gender)]) (by simp) (.word role)
      refine ⟨out', ?_, ?_⟩
      · rw [renderSymbols, hpart]
        exact hout'
      · rw [hjoin, joinWords_append_singleton hout, shapeGap, ShapeSymbol.isInitial,
          Bool.and_false, Bool.false_and, if_neg Bool.false_ne_true, ← List.append_assoc]
        rfl
    | initial role =>
      by_cases hglue : (previous.isInitial && compact) = true
      · obtain ⟨out', hout', hjoin⟩ := ih hrest
          (out.dropLast ++ [out.getLastD [] ++ ((parts role).take 1 ++ ['.'])]) (by simp)
          (.initial role)
        refine ⟨out', ?_, ?_⟩
        · rw [renderSymbols, hpart]
          simp only [hglue]
          exact hout'
        · have hgap : shapeGap compact (some previous) (.initial role) = [] := by
            rw [shapeGap, ShapeSymbol.isInitial, Bool.and_true, if_pos hglue]
          rw [hjoin, joinWords_glue hout, hgap, List.append_nil]
          rfl
      · obtain ⟨out', hout', hjoin⟩ := ih hrest
          (out ++ [(parts role).take 1 ++ ['.']]) (by simp) (.initial role)
        refine ⟨out', ?_, ?_⟩
        · rw [renderSymbols, hpart]
          simp only [hglue]
          exact hout'
        · have hgap : shapeGap compact (some previous) (.initial role) = [' '] := by
            rw [shapeGap, ShapeSymbol.isInitial, Bool.and_true, if_neg hglue]
          rw [hjoin, joinWords_append_singleton hout, hgap, ← List.append_assoc]
          rfl

/-- A shape whose parts are known is written out. -/
theorem renderShape_eq {shape : List ShapeSymbol} (hshape : ∀ s ∈ shape, parts s.role ≠ []) :
    renderShape rt shape parts case gender compact =
      some (Layout.spell (ShapeSymbol.render rt parts case gender)
        (shapeLayout compact none shape)) := by
  cases shape with
  | nil => rfl
  | cons symbol shape =>
    obtain ⟨hsymbol, hshape⟩ := List.forall_mem_cons.1 hshape
    have hpart : (parts symbol.role).isEmpty = false := List.isEmpty_eq_false_iff.2 hsymbol
    have hsingle (t : Text) : joinWords [t] = t := by simp [joinWords]
    obtain ⟨out', hout', hjoin⟩ := renderSymbols_eq rt case gender compact hshape
      [symbol.render rt parts case gender] (List.cons_ne_nil _ _) symbol
    rw [hsingle] at hjoin
    rw [renderShape, shapeLayout, Layout.spell_cons, shapeGap, List.nil_append, ← hjoin]
    cases symbol with
    | word role =>
      rw [renderSymbols, hpart]
      exact congrArg (Option.map joinWords) hout'
    | initial role =>
      rw [renderSymbols, hpart]
      exact congrArg (Option.map joinWords) hout'

/-- The layout of a shape has its symbols. -/
theorem map_snd_shapeLayout (compact : Bool) (shape : List ShapeSymbol)
    (previous : Option ShapeSymbol) :
    (shapeLayout compact previous shape).map Prod.snd = shape := by
  induction shape generalizing previous with
  | nil => rfl
  | cons symbol shape ih => rw [shapeLayout, List.map_cons, ih]

/-- Between the symbols of a shape there is a blank, or nothing. -/
theorem shapeGap_subset {compact : Bool} {previous : Option ShapeSymbol} {symbol : ShapeSymbol} :
    ∀ a ∈ shapeGap compact previous symbol, a = ' ' := by
  rcases previous with - | previous
  · simp [shapeGap]
  · rw [shapeGap]
    split_ifs
    · simp
    · simp

theorem gap_shapeLayout (compact : Bool) (shape : List ShapeSymbol)
    (previous : Option ShapeSymbol) :
    ∀ p ∈ shapeLayout compact previous shape, ∀ a ∈ p.1, a = ' ' := by
  induction shape generalizing previous with
  | nil => simp [shapeLayout]
  | cons symbol shape ih => exact List.forall_mem_cons.2 ⟨shapeGap_subset, ih _⟩

/-- A shape with a word is not written as the empty text. -/
theorem spell_shapeLayout_ne_nil (hrt : rt.Inflects) {shape : List ShapeSymbol} {role : Role}
    (hword : .word role ∈ shape) (hpart : parts role ≠ []) :
    Layout.spell (ShapeSymbol.render rt parts case gender) (shapeLayout compact none shape) ≠
      [] := by
  rw [← map_snd_shapeLayout compact shape none] at hword
  obtain ⟨p, hp, hsymbol⟩ := List.mem_map.1 hword
  intro hnil
  have hempty := List.flatMap_eq_nil_iff.1 hnil p hp
  rw [hsymbol] at hempty
  exact inflectWord_ne_nil hrt hpart case (some gender) (List.append_eq_nil_iff.1 hempty).2

end Shapes

/-! ### Rendered mentions -/

section Mentions

variable {u : Unicode} {rt : Runtime} {identity : Identity} {case : GramCase} {gender : Gender}

/-- The layout of a mention has the symbols of its components. -/
theorem map_snd_layoutFrom (value : Text) (cursor : ℕ) (comps : List NameComponent) :
    (layoutFrom value cursor comps).1.map Prod.snd = comps.map NameComponent.symbol := by
  induction comps generalizing cursor with
  | nil => rfl
  | cons comp comps ih => rw [layoutFrom, List.map_cons, List.map_cons, ih]

/-- A mention that is laid out has a layout of symbols with gaps of white space. -/
theorem LaidOut.layoutFrom_eq {cursor : ℕ} {value text : Text} {comps : List NameComponent}
    (h : LaidOut u cursor text comps) (hvalue : value.drop cursor = text) :
    ∃ (row : List (Text × ShapeSymbol)) (rest : Text),
      layoutFrom value cursor comps = (row.map fun p => (p.1, some p.2), rest) ∧
      (∀ p ∈ row, p.1.all u.isSpace = true) ∧ rest.all u.isSpace = true := by
  induction h with
  | nil hgap => exact ⟨[], _, by rw [layoutFrom, hvalue]; rfl, by simp, hgap⟩
  | @cons cursor gap word rest comp comps hgap hword hstart hstop hrole hrest ih =>
    have hcursor : value.drop comp.offsetEnd = rest := by
      rw [hstop, hstart, ← List.drop_drop, ← List.drop_drop, hvalue, List.drop_left,
        List.drop_left]
    obtain ⟨row, behind, hlayout, hrow, hbehind⟩ := ih hcursor
    obtain ⟨role, hrole⟩ := Option.isSome_iff_exists.1 hrole
    have hslice : PySeq.slice value cursor comp.offsetStart = gap := by
      rw [PySeq.slice_natCast, List.drop_take, hvalue, hstart, Nat.add_sub_cancel_left,
        List.take_left]
    refine ⟨(gap, if comp.isInitial then .initial role else .word role) :: row, behind, ?_,
      List.forall_mem_cons.2 ⟨hgap, hrow⟩, hbehind⟩
    rw [layoutFrom, hlayout, hslice, NameComponent.symbol, hrole]
    rfl

/-- A component is written as its symbol. -/
private theorem ownPart_eq (hidentity : ∀ role, identity.part role ≠ []) {comp : NameComponent}
    {symbol : ShapeSymbol} (h : comp.symbol = some symbol) :
    comp.ownPart rt identity case (some gender) = symbol.render rt identity.part case gender := by
  obtain ⟨role, hrole, rfl⟩ := Option.map_eq_some_iff.1 h
  rw [NameComponent.ownPart, NameComponent.isInitial, hrole]
  cases comp.kind with
  | word normalized => rfl
  | initial letter =>
    obtain ⟨first, rest, hcons⟩ := List.exists_cons_of_ne_nil (hidentity role)
    simp only [hcons]
    show _ = (identity.part role).take 1 ++ ['.']
    rw [hcons]
    rfl

variable (rt case gender) in
/-- Rendering writes the layout of the mention out. -/
theorem renderLikeMention_eq {value : Text} {comps : List NameComponent}
    (h : LaidOut u 0 value comps) (hidentity : ∀ role, identity.part role ≠ [])
    {row : List (Text × ShapeSymbol)} {rest : Text}
    (hlayout : layoutFrom value 0 comps = (row.map fun p => (p.1, some p.2), rest)) :
    renderLikeMention rt value comps identity case (some gender) =
      .ok (Layout.spell (ShapeSymbol.render rt identity.part case gender) row ++ rest) := by
  have hcomps : ComponentsIn value comps := by
    refine ⟨fun comp hcomp => ?_, h.pairwise.imp .inl⟩
    obtain ⟨-, hlt, hle⟩ := h.inside comp hcomp
    exact ⟨hlt, by omega⟩
  have hresolved : ∀ comp ∈ comps, comp.ResolvedBy identity := by
    intro comp hcomp
    obtain ⟨role, hrole⟩ := Option.isSome_iff_exists.1 (h.isSome_role comp hcomp)
    exact ⟨role, hrole, hidentity role⟩
  have hsplice (comps : List NameComponent) (cursor : ℕ) (row : List (Text × ShapeSymbol))
      (hlayout : layoutFrom value cursor comps = (row.map fun p => (p.1, some p.2), rest)) :
      Splice.apply value cursor (comps.map (componentEdit rt identity case (some gender))) =
        Layout.spell (ShapeSymbol.render rt identity.part case gender) row ++ rest := by
    induction comps generalizing cursor row with
    | nil =>
      rw [layoutFrom, Prod.mk.injEq] at hlayout
      obtain ⟨hrow, rfl⟩ := hlayout
      rw [List.map_eq_nil_iff.1 hrow.symm]
      rfl
    | cons comp comps ih =>
      rw [layoutFrom, Prod.mk.injEq] at hlayout
      obtain ⟨hrow, hrest⟩ := hlayout
      obtain ⟨p, row, rfl, hp, hfurther⟩ := List.map_eq_cons_iff.1 hrow.symm
      obtain ⟨hgap, hsymbol⟩ := Prod.mk.inj hp
      rw [List.map_cons, Splice.apply, Layout.spell_cons, List.append_assoc, List.append_assoc,
        List.append_assoc]
      refine congrArg₂ _ hgap.symm (congrArg₂ _ (ownPart_eq hidentity hsymbol.symm) ?_)
      exact ih comp.offsetEnd row (Prod.ext hfurther.symm hrest)
  rw [((renderLikeMention_splice rt identity case (some gender) hcomps).2.1 hresolved),
    renderEdits, h.sortedBy_eq (List.Perm.refl _), hsplice comps 0 row hlayout]

end Mentions

/-! ### Recognisable mentions -/

section Recognisable

variable {rt : Runtime} {text value : Text} {comps : List NameComponent}

/-- A person whose names are numbers, which can be told apart in every form. -/
private def numbered : Identity where
  surname := "11".toList
  first := "22".toList
  patronymic := "33".toList
  gender := .masc
  nominal := "11 22 33".toList

/-- The numbers of the person are not inflected. -/
private theorem render_numbered (hrt : rt.Inflects) (case : GramCase) (gender : Gender) :
    ShapeSymbol.render rt numbered.part case gender =
      ShapeSymbol.render (basicRuntime 0 zero_lt_two_pow_64) numbered.part .nomn .masc := by
  have hdigits (role : Role) : (numbered.part role).all Char.isDigit = true := by
    cases role <;> rfl
  funext symbol
  cases symbol with
  | word role => exact inflectWord_of_digits hrt (hdigits role) case (some gender)
  | initial role => rfl

private theorem legible_numbered : Layout.Legible Char.isDigit 2
    (ShapeSymbol.render (basicRuntime 0 zero_lt_two_pow_64) numbered.part .nomn .masc) := by
  refine ⟨fun s => ?_, fun s => ?_, fun s s' h => ?_⟩
  · rcases s with role | role <;> cases role <;> rfl
  · rcases s with role | role <;> cases role <;> rfl
  · rcases s with role | role <;> rcases s' with role' | role' <;> cases role <;> cases role' <;>
      first | rfl | exact absurd h (by decide)

/-- White space has no digits. -/
private theorem isDigit_of_isSpace {u : Unicode} {a : Char} (h : u.isSpace a = true) :
    a.isDigit = false := by
  by_contra hdigit
  rw [Bool.not_eq_false] at hdigit
  have halnum := u.isAlnum_of_isDigit a (u.isDigit_of_isDecimal a (u.isDecimal_of_ascii a hdigit))
  rw [u.not_isSpace_of_isAlnum a halnum] at h
  exact Bool.false_ne_true h

private theorem shapedLikeAlias_of_recognisable (hrt : rt.Inflects)
    (hlaid : LaidOut rt.unicode 0 value comps) (h : Recognisable rt value comps) :
    ShapedLikeAlias value comps := by
  have hparts (role : Role) : numbered.part role ≠ [] := by
    cases role <;> exact List.cons_ne_nil _ _
  obtain ⟨row, rest, hlayout, hrow, hrest⟩ := hlaid.layoutFrom_eq rfl
  -- the original has some word in each part
  obtain ⟨surface, hsurface, hneedle⟩ := h numbered ⟨some ['1'], some ['1'], some ['1'], none⟩
    hparts (fun _ _ _ role _ => by cases role <;> exact List.cons_ne_nil _ _) .nomn (by decide)
  rw [renderLikeMention_eq _ _ _ hlaid hparts hlayout, Except.ok.injEq] at hsurface
  obtain ⟨⟨case, compact, shape⟩, hr, hrender, -⟩ := mem_keys_aliasShapePairs.1 hneedle
  rw [renderShape_eq fun s _ => hparts s.role, Option.some.injEq, ← hsurface, render_numbered hrt,
    render_numbered hrt, ← List.append_nil (Layout.spell _ (shapeLayout _ _ _))] at hrender
  obtain ⟨hrow', hrest'⟩ := Layout.spell_append_injective legible_numbered
    (fun p hp a ha => by rw [gap_shapeLayout compact shape none p hp a ha]; rfl)
    (fun p hp a ha => isDigit_of_isSpace (List.all_eq_true.1 (hrow p hp) a ha))
    (fun a ha => absurd ha List.not_mem_nil)
    (fun a ha => isDigit_of_isSpace (List.all_eq_true.1 hrest a ha)) hrender
  refine ⟨shape, ?_, compact, by rw [hlayout, hrow', hrest']⟩
  rcases (mem_shapeRenderings.1 hr).2 with ⟨hshape, -⟩ | hshape
  · exact List.mem_append_left _ hshape
  · exact List.mem_append_right _ hshape

private theorem recognisable_of_shapedLikeAlias (hrt : rt.Inflects)
    (hlaid : LaidOut rt.unicode 0 value comps) (h : ShapedLikeAlias value comps) :
    Recognisable rt value comps := by
  intro identity original hidentity hspelled case hcase
  obtain ⟨shape, hshape, compact, hlayout⟩ := h
  have hsurface := renderLikeMention_eq rt case identity.gender hlaid hidentity hlayout
  rw [List.append_nil] at hsurface
  refine ⟨_, hsurface, mem_keys_aliasShapePairs.2 ?_⟩
  -- the mention spells some word of the shape, and the original has it
  have hword : ∀ shape ∈ wordShapes ++ initialShapes, ∃ role, .word role ∈ shape := by
    have hsurname : ∀ shape ∈ wordShapes ++ initialShapes,
        .word .surname ∈ shape ∨ .word .first ∈ shape := by decide
    exact fun shape hshape => (hsurname shape hshape).elim (fun h => ⟨_, h⟩) fun h => ⟨_, h⟩
  obtain ⟨role, hrole⟩ := hword shape hshape
  have hpart : original.part role ≠ [] := by
    have hsymbols := map_snd_layoutFrom value 0 comps
    rw [hlayout, List.map_map] at hsymbols
    have hmem : some (ShapeSymbol.word role) ∈ comps.map NameComponent.symbol := by
      rw [← map_snd_shapeLayout compact shape none] at hrole
      obtain ⟨p, hp, hsymbol⟩ := List.mem_map.1 hrole
      exact hsymbols ▸ List.mem_map.2 ⟨p, hp, congrArg some hsymbol⟩
    obtain ⟨comp, hcomp, hsymbol⟩ := List.mem_map.1 hmem
    obtain ⟨role', hrole', hsymbol⟩ := Option.map_eq_some_iff.1 hsymbol
    split_ifs at hsymbol with hinitial
    cases hsymbol
    exact hspelled comp hcomp (Bool.not_eq_true _ ▸ hinitial) role hrole'
  have hrestored (gender : Gender) : ∃ restored ≠ [],
      renderOriginalLike rt shape original case gender = some restored := by
    have hreduced : .word role ∈ shape.filter fun s => !(original.part s.role).isEmpty :=
      List.mem_filter.2 ⟨hrole, by simpa [ShapeSymbol.role] using hpart⟩
    have hparts : ∀ s ∈ shape.filter fun s => !(original.part s.role).isEmpty,
        original.part s.role ≠ [] := fun s hs => by simpa using (List.mem_filter.1 hs).2
    have hrender : renderOriginalLike rt shape original case gender =
        some (Layout.spell (ShapeSymbol.render rt original.part case gender)
          (shapeLayout false none (shape.filter fun s => !(original.part s.role).isEmpty))) := by
      rw [renderOriginalLike, if_neg (by simpa using List.ne_nil_of_mem hreduced),
        renderShape_eq hparts]
    exact ⟨_, spell_shapeLayout_ne_nil hrt hreduced hpart, hrender⟩
  have hcompact : ∃ compact', (shape ∈ wordShapes ∧ compact' = false ∨ shape ∈ initialShapes) ∧
      shapeLayout compact' none shape = shapeLayout compact none shape := by
    rcases List.mem_append.1 hshape with hshape | hshape
    · have hsame : ∀ shape ∈ wordShapes, ∀ compact,
          shapeLayout false none shape = shapeLayout compact none shape := by decide
      exact ⟨false, .inl ⟨hshape, rfl⟩, hsame shape hshape compact⟩
    · exact ⟨compact, .inr hshape, rfl⟩
  obtain ⟨compact', hlisted, hsame⟩ := hcompact
  refine ⟨(case, compact', shape), mem_shapeRenderings.2 ⟨hcase, hlisted⟩, ?_,
    spell_shapeLayout_ne_nil hrt hrole (hidentity role), hrestored _⟩
  rw [renderShape_eq fun s _ => hidentity s.role, hsame]

/-- **Which mentions are recognisable.** Exactly those that are laid out like an alias shape: with
its order of words and initials, one blank between the parts, none in front and none behind; only
between two initials the blank may be missing. -/
theorem recognisable_iff (hrt : rt.Inflects) {c : Candidate} (hc : c ∈ detectFullNames rt text) :
    Recognisable rt c.value (c.metadata.nameParts.getD []) ↔
      ShapedLikeAlias c.value (c.metadata.nameParts.getD []) :=
  have hlaid := laidOut_of_mem_detectFullNames hc
  ⟨shapedLikeAlias_of_recognisable hrt hlaid, recognisable_of_shapedLikeAlias hrt hlaid⟩

/-- In ASCII digits have no case. -/
private theorem basicCase_of_isDigit {a : Char} (h : a.isDigit = true) :
    basicLower a = a ∧ basicUpper a = a := by
  simp only [Char.isDigit, Bool.and_eq_true, decide_eq_true_eq, ge_iff_le,
    UInt32.le_iff_toNat_le] at h
  have hlow : 48 ≤ a.toNat := h.1
  have hhigh : a.toNat ≤ 57 := h.2
  rw [← Char.ofNat_toNat a]
  generalize a.toNat = k at hlow hhigh
  interval_cases k <;> decide

theorem inflects_surnamesRuntime : surnamesRuntime.Inflects where
  inflect_ne_nil word hword p hp case t ht := by
    rw [List.mem_singleton.1 hp] at ht
    exact Option.some.inj ht ▸ hword
  inflect_digits word _ p hp case t ht := by
    rw [List.mem_singleton.1 hp] at ht
    exact (Option.some.inj ht).symm
  capitalize_ne_nil t ht := by
    cases t with
    | nil => exact absurd rfl ht
    | cons a t => exact List.cons_ne_nil _ _
  capitalize_digits t ht := by
    cases t with
    | nil => rfl
    | cons a t =>
      rw [List.all_cons, Bool.and_eq_true, List.all_eq_true] at ht
      refine congrArg₂ _ (basicCase_of_isDigit ht.1).2 ?_
      rw [List.map_congr_left (g := id) fun b hb => (basicCase_of_isDigit (ht.2 b hb)).1,
        List.map_id]

/-- A mention with one blank. -/
theorem recognisable_iff_oneBlank :
    ∃ c ∈ detectFullNames surnamesRuntime "Иван Иванов".toList, c.value = "Иван Иванов".toList ∧
      Recognisable surnamesRuntime c.value (c.metadata.nameParts.getD []) := by
  have hshaped : ∃ c ∈ detectFullNames surnamesRuntime "Иван Иванов".toList,
      c.value = "Иван Иванов".toList ∧
        layoutFrom c.value 0 (c.metadata.nameParts.getD []) =
          (((shapeLayout false none [.word .first, .word .surname]).map
            fun p => (p.1, some p.2)), []) := by decide +kernel
  obtain ⟨c, hc, hvalue, hlayout⟩ := hshaped
  exact ⟨c, hc, hvalue, (recognisable_iff inflects_surnamesRuntime hc).2
    ⟨_, by decide, false, hlayout⟩⟩

/-- A complete synthetic identity. -/
def syntheticOrlov : Identity where
  surname := "Орлов".toList
  first := "Лев".toList
  patronymic := "Ильич".toList
  gender := .masc
  nominal := "Орлов Лев Ильич".toList

/-- An original identity with every part. -/
def originalIvanov : OriginalIdentity where
  surname := "Иванов".toList
  first := "Иван".toList
  patronymic := "Иванович".toList
  gender := some .masc

/-- With two blanks in the mention the surrogate is not among the needles. -/
theorem two_blanks_not_needle :
    ¬∀ (rt : Runtime) (text : Text), rt.Inflects → ∀ c ∈ detectFullNames rt text,
      Recognisable rt c.value (c.metadata.nameParts.getD []) := by
  intro h
  have hmention : ∃ c ∈ detectFullNames surnamesRuntime "Иван  Иванов".toList,
      (renderLikeMention surnamesRuntime c.value (c.metadata.nameParts.getD []) syntheticOrlov .nomn
        (some syntheticOrlov.gender)).toOption = some "Лев  Орлов".toList := by decide +kernel
  have hneedles : "Лев  Орлов".toList ∉
      (aliasShapePairs surnamesRuntime syntheticOrlov originalIvanov).map Prod.fst := by
    decide +kernel
  have hcomplete (role : Role) : syntheticOrlov.part role ≠ [] := by
    cases role <;> exact List.cons_ne_nil _ _
  have hspelled (comps : List NameComponent) : SpelledBy comps originalIvanov :=
    fun _ _ _ role _ => by cases role <;> exact List.cons_ne_nil _ _
  obtain ⟨c, hc, hrender⟩ := hmention
  obtain ⟨surface, hsurface, hneedle⟩ := h surnamesRuntime _ inflects_surnamesRuntime c hc
    syntheticOrlov originalIvanov hcomplete (hspelled _) .nomn (by decide)
  rw [hsurface] at hrender
  exact hneedles (Option.some.inj hrender ▸ hneedle)

end Recognisable

end PiiProxy
