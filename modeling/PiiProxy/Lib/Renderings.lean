import Mathlib.Data.List.Basic
import Mathlib.Data.List.Infix

/-!
# Texts read off cells

A row of cells is read cell by cell, and what each cell reads as is some text, not always the same.
A symbol that fills the reading of its cell whenever it occurs in it divides the row wherever it
divides the text: what stands between two such symbols is read off the cells between theirs.

## Main definitions

* `Renderings.Renders`: a text that is read off a row of cells.

## Main results

* `Renders.append`, `renders_append_iff`, `Renders.exists_infix`: rows and texts that are put
  together.
* `Renders.between`: what is read between two symbols that fill their cells.
-/

namespace Renderings

variable {κ α : Type*}

/-- A text that is read off a row of cells. -/
inductive Renders (Reads : κ → List α → Prop) : List κ → List α → Prop
  | nil : Renders Reads [] []
  | cons {k : κ} {ks : List κ} {s t : List α} (hs : Reads k s) (ht : Renders Reads ks t) :
      Renders Reads (k :: ks) (s ++ t)

variable {Reads : κ → List α → Prop} {ks ls : List κ} {s t : List α}

theorem renders_nil_iff : Renders Reads [] t ↔ t = [] := by
  constructor
  · rintro ⟨⟩
    rfl
  · rintro rfl
    exact .nil

theorem renders_cons_iff {k : κ} :
    Renders Reads (k :: ks) t ↔ ∃ s t', t = s ++ t' ∧ Reads k s ∧ Renders Reads ks t' := by
  constructor
  · rintro (_ | ⟨hs, ht⟩)
    exact ⟨_, _, rfl, hs, ht⟩
  · rintro ⟨s, t', rfl, hs, ht⟩
    exact .cons hs ht

theorem Renders.append (hs : Renders Reads ks s) (ht : Renders Reads ls t) :
    Renders Reads (ks ++ ls) (s ++ t) := by
  induction hs with
  | nil => exact ht
  | cons hk _ ih =>
    rw [List.cons_append, List.append_assoc]
    exact .cons hk ih

theorem renders_append_iff :
    Renders Reads (ks ++ ls) t ↔
      ∃ s s', t = s ++ s' ∧ Renders Reads ks s ∧ Renders Reads ls s' := by
  constructor
  · intro h
    induction ks generalizing t with
    | nil => exact ⟨[], t, rfl, .nil, h⟩
    | cons k ks ih =>
      obtain ⟨r, t', rfl, hr, ht'⟩ := renders_cons_iff.1 h
      obtain ⟨s, s', rfl, hs, hs'⟩ := ih ht'
      exact ⟨r ++ s, s', (List.append_assoc ..).symm, .cons hr hs, hs'⟩
  · rintro ⟨s, s', rfl, hs, hs'⟩
    exact hs.append hs'

theorem renders_singleton_iff {k : κ} : Renders Reads [k] t ↔ Reads k t := by
  rw [renders_cons_iff]
  constructor
  · rintro ⟨s, t', rfl, hs, ht'⟩
    rw [renders_nil_iff.1 ht', List.append_nil]
    exact hs
  · exact fun h => ⟨t, [], (List.append_nil t).symm, h, .nil⟩

/-- A part of the row is read as a part of the text. -/
theorem Renders.exists_infix (h : Renders Reads ks t) (hls : ls <:+: ks) :
    ∃ s, Renders Reads ls s ∧ s <:+: t := by
  obtain ⟨before, behind, rfl⟩ := hls
  obtain ⟨front, back, rfl, hfront, -⟩ := renders_append_iff.1 h
  obtain ⟨left, middle, rfl, -, hmiddle⟩ := renders_append_iff.1 hfront
  exact ⟨middle, hmiddle, List.infix_append _ _ _⟩

/-- Cells that read as one symbol each. -/
theorem Renders.of_map {β : Type*} {f : β → κ} {g : β → α} {l : List β}
    (h : ∀ b ∈ l, Reads (f b) [g b]) : Renders Reads (l.map f) (l.map g) := by
  induction l with
  | nil => exact .nil
  | cons b l ih =>
    obtain ⟨hb, hl⟩ := List.forall_mem_cons.1 h
    exact .cons hb (ih hl)

theorem Renders.of_forall₂ (h : List.Forall₂ (fun k a => Reads k [a]) ks t) :
    Renders Reads ks t := by
  induction h with
  | nil => exact .nil
  | cons hk _ ih => exact .cons hk ih

/-- Rows with a row between them. -/
theorem Renders.intercalate {sep : List κ} {a : List α} (hsep : Renders Reads sep a)
    {rows : List (List κ)} {ts : List (List α)} (h : List.Forall₂ (Renders Reads) rows ts) :
    Renders Reads (sep.intercalate rows) (a.intercalate ts) := by
  induction h with
  | nil => exact .nil
  | cons hrow hrows ih =>
    cases hrows with
    | nil =>
      rw [List.intercalate_singleton, List.intercalate_singleton]
      exact hrow
    | cons _ _ =>
      rw [List.intercalate_cons_cons, List.intercalate_cons_cons]
      exact (hrow.append hsep).append ih

/-- Cells that can only read as one symbol each. -/
theorem Renders.eq_map {β : Type*} {f : β → κ} {g : β → α} {l : List β}
    (h : Renders Reads (l.map f) t) (hf : ∀ b t, Reads (f b) t → t = [g b]) : t = l.map g := by
  induction l generalizing t with
  | nil => exact renders_nil_iff.1 h
  | cons b l ih =>
    obtain ⟨s, t', rfl, hs, ht'⟩ := renders_cons_iff.1 h
    rw [hf b s hs, ih ht']
    rfl

/-- The symbols of the text are those of the readings. -/
theorem Renders.forall_mem {P : α → Prop} (h : Renders Reads ks t)
    (hP : ∀ k ∈ ks, ∀ s, Reads k s → ∀ a ∈ s, P a) : ∀ a ∈ t, P a := by
  induction h with
  | nil => simp
  | cons hk _ ih =>
    obtain ⟨hhead, htail⟩ := List.forall_mem_cons.1 hP
    exact List.forall_mem_append.2 ⟨hhead _ hk, ih htail⟩

/-- The row of cells that are read as the parts of a text. -/
theorem Renders.flatMap {β : Type*} {f : β → List κ} {g : β → List α} {l : List β}
    (h : ∀ b ∈ l, Renders Reads (f b) (g b)) : Renders Reads (l.flatMap f) (l.flatMap g) := by
  induction l with
  | nil => exact .nil
  | cons b l ih =>
    obtain ⟨hb, hl⟩ := List.forall_mem_cons.1 h
    exact hb.append (ih hl)

/-- The cell that is read where a symbol stands. -/
theorem Renders.exists_cell {before behind : List α} {a : α}
    (h : Renders Reads ks (before ++ a :: behind)) :
    ∃ ls k ls' s l r s', ks = ls ++ k :: ls' ∧ before = s ++ l ∧ behind = r ++ s' ∧
      Renders Reads ls s ∧ Reads k (l ++ a :: r) ∧ Renders Reads ls' s' := by
  induction ks generalizing before with
  | nil => exact absurd (renders_nil_iff.1 h) (by simp)
  | cons k ks ih =>
    obtain ⟨s, t, heq, hs, ht⟩ := renders_cons_iff.1 h
    -- the symbol stands behind the first cell, or in it
    rcases List.append_eq_append_iff.1 heq with ⟨d, rfl, hd⟩ | ⟨d, rfl, rfl⟩
    · cases d with
      | nil =>
        rw [List.nil_append] at hd
        have hbehind : Renders Reads ks ([] ++ a :: behind) := hd ▸ ht
        obtain ⟨ls, k', ls', s', l, r, s'', rfl, hl, hr, hls, hk', hls'⟩ := ih hbehind
        refine ⟨k :: ls, k', ls', before ++ s', l, r, s'', rfl, ?_, hr, ?_, hk', hls'⟩
        · rw [List.append_assoc, ← hl, List.append_nil]
        · rw [List.append_nil] at hs
          exact .cons hs hls
      | cons x d =>
        obtain ⟨rfl, rfl⟩ := List.cons.inj hd
        exact ⟨[], k, ks, [], before, d, t, rfl, rfl, rfl, .nil, hs, ht⟩
    · obtain ⟨ls, k', ls', s', l, r, s'', rfl, rfl, rfl, hls, hk', hls'⟩ := ih ht
      exact ⟨k :: ls, k', ls', s ++ s', l, r, s'', rfl, (List.append_assoc ..).symm, rfl,
        .cons hs hls, hk', hls'⟩

/-- A symbol that fills the reading of a cell whenever it occurs in it. -/
def Fills (Reads : κ → List α → Prop) (a : α) : Prop := ∀ k t, Reads k t → a ∈ t → t = [a]

/-- A symbol that fills its cell divides the row where it divides the text. -/
theorem Renders.split {before behind : List α} {a : α} (ha : Fills Reads a)
    (h : Renders Reads ks (before ++ a :: behind)) :
    ∃ ls k ls', ks = ls ++ k :: ls' ∧ Renders Reads ls before ∧ Reads k [a] ∧
      Renders Reads ls' behind := by
  obtain ⟨ls, k, ls', s, l, r, s', rfl, rfl, rfl, hls, hk, hls'⟩ := h.exists_cell
  have hfill := ha k _ hk (List.mem_append_right _ List.mem_cons_self)
  obtain ⟨rfl, rfl⟩ : l = [] ∧ r = [] := by
    have hlen := congrArg List.length hfill
    simp only [List.length_append, List.length_cons, List.length_nil] at hlen
    exact ⟨List.eq_nil_of_length_eq_zero (by omega), List.eq_nil_of_length_eq_zero (by omega)⟩
  rw [List.append_nil]
  exact ⟨ls, k, ls', rfl, hls, hk, hls'⟩

/-- **What stands between two symbols that fill their cells** is read off the cells between. -/
theorem Renders.between {a b : α} (ha : Fills Reads a) (hb : Fills Reads b)
    (h : Renders Reads ks t) (hin : a :: (s ++ [b]) <:+: t) :
    ∃ k ls k', k :: (ls ++ [k']) <:+: ks ∧ Reads k [a] ∧ Renders Reads ls s ∧ Reads k' [b] := by
  obtain ⟨before, behind, rfl⟩ := hin
  have htext : before ++ a :: (s ++ [b]) ++ behind = before ++ a :: (s ++ b :: behind) := by simp
  rw [htext] at h
  obtain ⟨front, k, back, rfl, -, hk, hback⟩ := h.split ha
  obtain ⟨ls, k', rest, rfl, hls, hk', -⟩ := hback.split hb
  exact ⟨k, ls, k', ⟨front, rest, by simp⟩, hk, hls, hk'⟩

/-- Where no cell is read as nothing, nothing is read off no cell only. -/
theorem Renders.eq_nil (hne : ∀ k t, Reads k t → t ≠ []) (h : Renders Reads ks []) : ks = [] := by
  cases ks with
  | nil => rfl
  | cons k ks =>
    obtain ⟨s, t, heq, hs, -⟩ := renders_cons_iff.1 h
    exact absurd (List.append_eq_nil_iff.1 heq.symm).1 (hne k s hs)

/-- Every cell of the row is read as a part of the text. -/
theorem Renders.exists_reads (h : Renders Reads ks t) {k : κ} (hk : k ∈ ks) :
    ∃ s, Reads k s ∧ s ⊆ t := by
  obtain ⟨before, behind, rfl⟩ := List.append_of_mem hk
  have hin : [k] <:+: before ++ k :: behind := ⟨before, behind, by simp⟩
  obtain ⟨s, hs, hst⟩ := h.exists_infix hin
  exact ⟨s, renders_singleton_iff.1 hs, hst.subset⟩

end Renderings
