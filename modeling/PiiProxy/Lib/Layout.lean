import Mathlib.Data.List.Basic
import Mathlib.Data.List.Infix

/-!
# Rows of marks with gaps

A row of marks is written with a gap in front of each. When all marks are written with the same
number of letters, and begin with a letter that no gap contains, the written row can be read back.

## Main definitions

* `Layout.spell`: the row with its marks written out.

## Main results

* `Layout.spell_append_injective`: reading back.
-/

namespace Layout

variable {α σ τ : Type*}

/-- The row of marks, each behind its gap, with the marks written out. -/
def spell (render : σ → List α) (row : List (List α × σ)) : List α :=
  row.flatMap fun p => p.1 ++ render p.2

@[simp] theorem spell_nil (render : σ → List α) : spell render [] = [] := rfl

@[simp] theorem spell_cons (render : σ → List α) (p : List α × σ) (row : List (List α × σ)) :
    spell render (p :: row) = p.1 ++ (render p.2 ++ spell render row) := by
  rw [spell, List.flatMap_cons, List.append_assoc]
  rfl

/-- Marks that are written with `n` letters, the first of which stands in no gap. -/
structure Legible (mark : α → Bool) (n : ℕ) (render : σ → List α) : Prop where
  length_eq : ∀ s, (render s).length = n
  head_mark : ∀ s, (render s).head?.any mark = true
  injective : Function.Injective render

/-- Two texts with gaps in front are equal only when the gaps are. -/
theorem gap_append_inj {mark : α → Bool} {gap gap' t t' : List α} (hgap : ∀ a ∈ gap, mark a = false)
    (hgap' : ∀ a ∈ gap', mark a = false) (ht : t.head?.any mark = true)
    (ht' : t'.head?.any mark = true) (h : gap ++ t = gap' ++ t') : gap = gap' ∧ t = t' := by
  have htake {g s : List α} (hg : ∀ a ∈ g, mark a = false) (hs : s.head?.any mark = true) :
      (g ++ s).takeWhile (fun a => !mark a) = g := by
    rw [List.takeWhile_append_of_pos fun a ha => by rw [hg a ha]; rfl]
    cases s with
    | nil => cases hs
    | cons a s =>
      rw [List.head?_cons, Option.any_some] at hs
      rw [List.takeWhile_cons_of_neg (by rw [hs]; exact Bool.false_ne_true), List.append_nil]
  have heq : gap = gap' := by rw [← htake hgap ht, h, htake hgap' ht']
  exact ⟨heq, List.append_cancel_left (heq ▸ h)⟩

/-- **Reading back a row of marks.** -/
theorem spell_append_injective {mark : α → Bool} {n : ℕ} {render : σ → List α}
    (hrender : Legible mark n render) {row row' : List (List α × σ)} {rest rest' : List α}
    (hgaps : ∀ p ∈ row, ∀ a ∈ p.1, mark a = false) (hgaps' : ∀ p ∈ row', ∀ a ∈ p.1, mark a = false)
    (hrest : ∀ a ∈ rest, mark a = false) (hrest' : ∀ a ∈ rest', mark a = false)
    (h : spell render row ++ rest = spell render row' ++ rest') : row = row' ∧ rest = rest' := by
  have hhead (s : σ) (t : List α) : (render s ++ t).head?.any mark = true := by
    have hmark := hrender.head_mark s
    cases hs : render s with
    | nil =>
      rw [hs] at hmark
      cases hmark
    | cons a s => rwa [hs] at hmark
  -- a text without marks is no row with one
  have hnone {g t : List α} {s : σ} {gap : List α} (hg : ∀ a ∈ g, mark a = false)
      (heq : g = gap ++ (render s ++ t)) : False := by
    have hmark := hhead s t
    cases hs : render s ++ t with
    | nil =>
      rw [hs] at hmark
      cases hmark
    | cons a t' =>
      rw [hs, List.head?_cons, Option.any_some] at hmark
      rw [hg a (heq ▸ List.mem_append_right _ (hs ▸ List.mem_cons_self))] at hmark
      cases hmark
  induction row generalizing row' with
  | nil =>
    cases row' with
    | nil => exact ⟨rfl, h⟩
    | cons p row' =>
      rw [spell_nil, List.nil_append, spell_cons, List.append_assoc, List.append_assoc] at h
      exact (hnone hrest h).elim
  | cons p row ih =>
    cases row' with
    | nil =>
      rw [spell_nil, List.nil_append, spell_cons, List.append_assoc, List.append_assoc] at h
      exact (hnone hrest' h.symm).elim
    | cons p' row' =>
      obtain ⟨hgap, hgaps⟩ := List.forall_mem_cons.1 hgaps
      obtain ⟨hgap', hgaps'⟩ := List.forall_mem_cons.1 hgaps'
      rw [spell_cons, spell_cons, List.append_assoc, List.append_assoc, List.append_assoc,
        List.append_assoc] at h
      obtain ⟨hfst, h⟩ := gap_append_inj hgap hgap' (hhead _ _) (hhead _ _) h
      obtain ⟨hsnd, h⟩ := List.append_inj h
        ((hrender.length_eq p.2).trans (hrender.length_eq p'.2).symm)
      obtain ⟨rfl, rfl⟩ := ih hgaps hgaps' h
      exact ⟨by rw [Prod.ext hfst (hrender.injective hsnd)], rfl⟩

end Layout
