import PiiProxy.EntityResolution.Naming
import PiiProxy.Lib.Splice

/-!
# Rendering in the shape of a mention

Rendering splices the parts of an identity over the components of a mention from right to left. What
stands left of the component at work is still that of the mention, so the offsets are valid,
whatever the lengths of the parts; and the components are sorted first, so the order in which they
are listed makes no difference.

## Main definitions

* `ComponentsIn`: the components have disjoint spans in the mention.
* `NameComponent.ResolvedBy`: the component has a role, and the identity has that part.
* `NameComponent.ownPart`: the first letter of this part with a dot, or the inflected part.
* `renderEdits`: the parts that replace the components, in the order of the mention.

## Main results

* `renderLikeMention_splice`: rendering is one splice, or raises when a component is not resolved.
-/

namespace PiiProxy

/-- The components have spans in the mention that are not empty and share no position. -/
structure ComponentsIn (mention : Text) (components : List NameComponent) : Prop where
  inside : ∀ comp ∈ components, comp.offsetStart < comp.offsetEnd ∧ comp.offsetEnd ≤ mention.length
  disjoint : components.Pairwise fun comp comp' =>
    comp.offsetEnd ≤ comp'.offsetStart ∨ comp'.offsetEnd ≤ comp.offsetStart

/-- The component has a role, and the identity has the part in that role. -/
def NameComponent.ResolvedBy (identity : Identity) (comp : NameComponent) : Prop :=
  ∃ role, comp.role = some role ∧ identity.part role ≠ []

variable (rt : Runtime) (identity : Identity) (case : GramCase) (gender : Option Gender)

/-- What stands for a component: for an initial the first letter of its part with a dot, for a word
its part in the case and the gender of the mention. -/
def NameComponent.ownPart (comp : NameComponent) : Text :=
  match comp.role, comp.kind with
  | none, _ => []
  | some role, .initial _ =>
    match identity.part role with
    | [] => []
    | letter :: _ => [letter, '.']
  | some role, .word _ => inflectWord rt (identity.part role) case gender

/-- The part of the identity that replaces a component. -/
def componentEdit (comp : NameComponent) : Splice.Edit Char :=
  ⟨comp.offsetStart, comp.offsetEnd, comp.ownPart rt identity case gender⟩

/-- The parts that replace the components, in the order of the mention. -/
def renderEdits (components : List NameComponent) : List (Splice.Edit Char) :=
  (PySeq.sortedBy NameComponent.offsetStart components).map
    (componentEdit rt identity case gender)

variable {rt identity case gender}

/-- The loop writes the own part of a component. -/
private theorem renderComponent_eq_ownPart {comp : NameComponent} {role : Role}
    (hrole : comp.role = some role) (hpart : identity.part role ≠ []) :
    renderComponent rt comp (identity.part role) case gender =
      comp.ownPart rt identity case gender := by
  rw [renderComponent, NameComponent.ownPart, hrole]
  cases comp.kind with
  | word normalized => rfl
  | initial letter =>
    obtain ⟨first, rest, hcons⟩ := List.exists_cons_of_ne_nil hpart
    simp only [hcons]
    rfl

private theorem renderComponents_cons {comp : NameComponent} (hcomp : comp.ResolvedBy identity)
    (comps : List NameComponent) (result : Text) :
    renderComponents rt identity case gender (comp :: comps) result =
      renderComponents rt identity case gender comps
        (Splice.replace result (componentEdit rt identity case gender comp)) := by
  obtain ⟨role, hrole, hpart⟩ := hcomp
  have hslice : PySeq.slice result 0 comp.offsetStart = result.take comp.offsetStart :=
    PySeq.slice_natCast result 0 comp.offsetStart
  rw [renderComponents]
  simp only [hrole, List.isEmpty_eq_false_iff.2 hpart, Bool.false_eq_true, ↓reduceIte, hslice,
    componentEdit, Splice.replace, renderComponent_eq_ownPart hrole hpart]

private theorem renderComponents_of_resolved {comps : List NameComponent}
    (hcomps : ∀ comp ∈ comps, comp.ResolvedBy identity) (result : Text) :
    renderComponents rt identity case gender comps result =
      .ok ((comps.map (componentEdit rt identity case gender)).foldl Splice.replace result) := by
  induction comps generalizing result with
  | nil => rfl
  | cons comp comps ih =>
    rw [renderComponents_cons (hcomps comp List.mem_cons_self),
      ih (List.forall_mem_cons.1 hcomps).2]
    rfl

private theorem renderComponents_of_not_resolved {comps : List NameComponent}
    (hcomps : ∃ comp ∈ comps, ¬comp.ResolvedBy identity) (result : Text) :
    ∃ message, renderComponents rt identity case gender comps result =
      .error (.valueError message) := by
  induction comps generalizing result with
  | nil =>
    obtain ⟨comp, hcomp, -⟩ := hcomps
    cases hcomp
  | cons comp comps ih =>
    by_cases hcomp : comp.ResolvedBy identity
    · rw [renderComponents_cons hcomp]
      refine ih ?_ _
      obtain ⟨comp', hmem, hnot⟩ := hcomps
      rcases List.mem_cons.1 hmem with rfl | hmem
      · exact absurd hcomp hnot
      · exact ⟨comp', hmem, hnot⟩
    · rw [renderComponents]
      cases hrole : comp.role with
      | none => exact ⟨_, rfl⟩
      | some role =>
        have hpart : identity.part role = [] := by
          by_contra hpart
          exact hcomp ⟨role, hrole, hpart⟩
        simp only [hpart, List.isEmpty_nil, ↓reduceIte]
        exact ⟨_, rfl⟩

variable {mention : Text} {components : List NameComponent}

private theorem ComponentsIn.pairwise (h : ComponentsIn mention components) :
    (PySeq.sortedBy NameComponent.offsetStart components).Pairwise fun comp comp' =>
      comp.offsetEnd ≤ comp'.offsetStart :=
  PySeq.pairwise_sortedBy_of_disjoint (fun comp hcomp => (h.inside comp hcomp).1) h.disjoint

/-- The components are rendered from the last one in the mention to the first, in whatever order
they are listed. -/
private theorem ComponentsIn.sortedBy_toDual (h : ComponentsIn mention components)
    {components' : List NameComponent} (hperm : components'.Perm components) :
    PySeq.sortedBy (fun comp => OrderDual.toDual comp.offsetStart) components' =
      (PySeq.sortedBy NameComponent.offsetStart components).reverse := by
  refine PySeq.sortedBy_eq_of_perm
    ((List.reverse_perm _).trans ((PySeq.sortedBy_perm _ _).trans hperm.symm))
    (List.pairwise_reverse.2 (h.pairwise.imp_of_mem fun {comp comp'} hcomp _ hle => ?_))
  rw [PySeq.mem_sortedBy] at hcomp
  exact OrderDual.toDual_lt_toDual.2 ((h.inside comp hcomp).1.trans_le hle)

/-- The parts are written over spans of the mention that follow each other. -/
theorem ComponentsIn.ordered_renderEdits (h : ComponentsIn mention components) :
    Splice.Ordered mention.length 0 (renderEdits rt identity case gender components) := by
  refine Splice.ordered_of_pairwise 0 _ (Nat.zero_le _) (fun e he => ?_)
    (List.pairwise_map.2 h.pairwise)
  obtain ⟨comp, hcomp, rfl⟩ := List.mem_map.1 he
  obtain ⟨hlt, hle⟩ := h.inside comp (PySeq.mem_sortedBy.1 hcomp)
  exact ⟨Nat.zero_le _, hlt.le, hle⟩

/-- **Rendering in the shape of a mention.** It raises exactly when some component has no role or
the identity lacks the part in that role. Otherwise the result is the mention with each component
replaced by its own part and all between the components unchanged. The order in which the
components are listed makes no difference. -/
theorem renderLikeMention_splice (rt : Runtime) (identity : Identity) (case : GramCase)
    (gender : Option Gender) (h : ComponentsIn mention components) :
    ((∃ e, renderLikeMention rt mention components identity case gender = .error e) ↔
      ∃ comp ∈ components, ¬comp.ResolvedBy identity) ∧
    ((∀ comp ∈ components, comp.ResolvedBy identity) →
      renderLikeMention rt mention components identity case gender =
        .ok (Splice.apply mention 0 (renderEdits rt identity case gender components))) ∧
    Splice.Ordered mention.length 0 (renderEdits rt identity case gender components) ∧
    ∀ components', components'.Perm components →
      renderLikeMention rt mention components' identity case gender =
        renderLikeMention rt mention components identity case gender := by
  have hrender {components' : List NameComponent} (hperm : components'.Perm components) :
      renderLikeMention rt mention components' identity case gender =
        renderComponents rt identity case gender
          (PySeq.sortedBy NameComponent.offsetStart components).reverse mention := by
    rw [renderLikeMention, h.sortedBy_toDual hperm]
  have hmem (comp : NameComponent) :
      comp ∈ (PySeq.sortedBy NameComponent.offsetStart components).reverse ↔ comp ∈ components := by
    rw [List.mem_reverse, PySeq.mem_sortedBy]
  have hok (hresolved : ∀ comp ∈ components, comp.ResolvedBy identity) :
      renderLikeMention rt mention components identity case gender =
        .ok (Splice.apply mention 0 (renderEdits rt identity case gender components)) := by
    rw [hrender (List.Perm.refl _),
      renderComponents_of_resolved fun comp hcomp => hresolved comp ((hmem comp).1 hcomp),
      List.map_reverse, List.foldl_reverse]
    exact congrArg _ (Splice.foldr_replace h.ordered_renderEdits)
  refine ⟨⟨fun ⟨e, he⟩ => ?_, fun ⟨comp, hcomp, hnot⟩ => ?_⟩, hok, h.ordered_renderEdits,
    fun components' hperm => (hrender hperm).trans (hrender (List.Perm.refl _)).symm⟩
  · by_contra hresolved
    push Not at hresolved
    rw [hok hresolved] at he
    cases he
  · rw [hrender (List.Perm.refl _)]
    obtain ⟨message, hmessage⟩ :=
      renderComponents_of_not_resolved ⟨comp, (hmem comp).2 hcomp, hnot⟩ mention
    exact ⟨_, hmessage⟩

/-- An initial and a surname: "И. Иванов". -/
def initialAndSurname : List NameComponent :=
  [{ kind := .initial 'и', surface := "И.".toList, offsetStart := 0, offsetEnd := 2,
     role := some .first },
   { kind := .word "иванов".toList, surface := "Иванов".toList, offsetStart := 3, offsetEnd := 9,
     role := some .surname }]

/-- A synthetic identity without a patronymic. -/
def petrov : Identity where
  surname := "Петров".toList
  first := "Лев".toList
  patronymic := []
  gender := .masc
  nominal := "Петров Лев".toList

/-- The case of an initial and a surname, listed in either order. -/
theorem renderLikeMention_splice_initialAndSurname :
    renderLikeMention (basicRuntime 0 zero_lt_two_pow_64) "И. Иванов".toList
        initialAndSurname.reverse petrov .nomn (some .masc) = .ok "Л. Петров".toList := by
  obtain ⟨-, hok, -, hperm⟩ := renderLikeMention_splice (basicRuntime 0 zero_lt_two_pow_64) petrov
    .nomn (some .masc)
    (⟨by decide, by decide⟩ : ComponentsIn "И. Иванов".toList initialAndSurname)
  have hresolved : ∀ comp ∈ initialAndSurname, comp.ResolvedBy petrov := by
    intro comp hcomp
    fin_cases hcomp
    · exact ⟨.first, rfl, by decide⟩
    · exact ⟨.surname, rfl, by decide⟩
  rw [hperm _ (List.reverse_perm _), hok hresolved]
  decide +kernel

end PiiProxy
