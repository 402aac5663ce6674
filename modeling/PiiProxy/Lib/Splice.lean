import PiiProxy.Lib.PySeq

/-!
# Splicing replacements into a sequence

A list of edits replaces disjoint spans of a sequence from left to right. Applying ordered edits
is undone by the edits that put the replaced pieces back at the shifted positions, and both
sequences have the same pieces outside the replaced spans. Replacements may have any length,
including zero, so spans of the result may be empty and may start at the same position.

## Main definitions

* `Splice.Edit`: a span with the piece that replaces it.
* `Splice.apply`: the left-to-right splice from a cursor on.
* `Splice.replace`: the replacement of one span.
* `Splice.Ordered`: consecutive spans inside the sequence.
* `Splice.invert`: the edits of the result that put the original pieces back.
* `Splice.kept`: the pieces outside the spans.

## Main results

* `Splice.foldr_replace`: replacing the spans from right to left is the splice.
* `Splice.apply_invert`: the inverted edits undo the splice.
* `Splice.kept_invert`: the pieces outside the spans are the same in both sequences.
* `Splice.ordered_invert`: the inverted edits are ordered in the result.
* `Splice.ordered_of_pairwise`: pairwise disjoint spans sorted by their start are ordered.
-/

namespace Splice

open PySeq

variable {α : Type*}

/-- Replace the elements from `start` up to `stop` by `insert`. -/
structure Edit (α : Type*) where
  start : ℕ
  stop : ℕ
  insert : List α

/-- Apply edits from left to right, copying from `cursor` on what lies between them. -/
def apply (s : List α) : ℕ → List (Edit α) → List α
  | cursor, [] => s.drop cursor
  | cursor, e :: es => slice s cursor e.start ++ e.insert ++ apply s e.stop es

/-- The spans follow each other from `cursor` on and end before `n`. -/
def Ordered (n : ℕ) : ℕ → List (Edit α) → Prop
  | cursor, [] => cursor ≤ n
  | cursor, e :: es => cursor ≤ e.start ∧ e.start ≤ e.stop ∧ Ordered n e.stop es

theorem Ordered.cursor_le {n : ℕ} : {cursor : ℕ} → {es : List (Edit α)} →
    Ordered n cursor es → cursor ≤ n
  | _, [], h => h
  | _, _ :: _, ⟨h₁, h₂, h⟩ => h₁.trans (h₂.trans h.cursor_le)

theorem Ordered.mono {n : ℕ} {c c' : ℕ} (hc : c ≤ c') :
    {es : List (Edit α)} → Ordered n c' es → Ordered n c es
  | [], h => le_trans hc h
  | _ :: _, ⟨h₁, h₂, h⟩ => ⟨hc.trans h₁, h₂, h⟩

theorem Ordered.cursor_le_start {n : ℕ} : {cursor : ℕ} → {es : List (Edit α)} →
    Ordered n cursor es → ∀ e ∈ es, cursor ≤ e.start
  | _, [], _, _, he => by cases he
  | _, _ :: _, ⟨h₁, h₂, h⟩, _, he => by
      rcases List.mem_cons.mp he with rfl | he
      · exact h₁
      · exact h₁.trans (h₂.trans (h.cursor_le_start _ he))

/-- Ordered spans are sorted by their start. -/
theorem Ordered.pairwise_start {n : ℕ} : {cursor : ℕ} → {es : List (Edit α)} →
    Ordered n cursor es → es.Pairwise fun e e' => e.start ≤ e'.start
  | _, [], _ => List.Pairwise.nil
  | _, _ :: _, ⟨_, h₂, h⟩ =>
      List.pairwise_cons.mpr ⟨fun e' he' => h₂.trans (h.cursor_le_start e' he'), h.pairwise_start⟩

/-- Ordered spans that are not empty have increasing starts. -/
theorem Ordered.pairwise_start_lt {n cursor : ℕ} {es : List (Edit α)} (h : Ordered n cursor es)
    (hpos : ∀ e ∈ es, e.start < e.stop) : es.Pairwise fun e e' => e.start < e'.start := by
  induction es generalizing cursor with
  | nil => exact List.Pairwise.nil
  | cons e es ih =>
    obtain ⟨-, -, h⟩ := h
    refine List.pairwise_cons.mpr ⟨fun e' he' => ?_, ih h fun e' he' => hpos e' (.tail _ he')⟩
    exact (hpos e List.mem_cons_self).trans_le (h.cursor_le_start e' he')

/-- Disjoint spans in range, sorted by their start, are ordered. -/
theorem ordered_of_pairwise {n : ℕ} : (c : ℕ) → (es : List (Edit α)) → c ≤ n →
    (∀ e ∈ es, c ≤ e.start ∧ e.start ≤ e.stop ∧ e.stop ≤ n) →
    es.Pairwise (fun e e' => e.stop ≤ e'.start) → Ordered n c es
  | _, [], hc, _, _ => hc
  | _, e :: es, _, hr, hp => by
      obtain ⟨h₁, h₂, h₃⟩ := hr e List.mem_cons_self
      obtain ⟨hhead, htail⟩ := List.pairwise_cons.mp hp
      refine ⟨h₁, h₂, ordered_of_pairwise e.stop es h₃ (fun e' he' => ?_) htail⟩
      obtain ⟨-, h₂', h₃'⟩ := hr e' (List.mem_cons_of_mem _ he')
      exact ⟨hhead e' he', h₂', h₃'⟩

/-- Before the first span the cursor may be moved. -/
theorem apply_of_le (s : List α) {n c c' : ℕ} (hc : c ≤ c') :
    {es : List (Edit α)} → Ordered n c' es → apply s c es = slice s c c' ++ apply s c' es
  | [], _ => (slice_append_drop s hc).symm
  | e :: es, ⟨h₁, _, _⟩ => by
      rw [apply, apply, ← slice_append_slice s hc h₁]
      simp only [List.append_assoc]

/-! ### Replacing from right to left -/

/-- The sequence with one span replaced. -/
def replace (s : List α) (e : Edit α) : List α := s.take e.start ++ e.insert ++ s.drop e.stop

/-- **Replacing ordered spans from right to left is the splice of them**: all that lies before the
spans replaced so far is untouched, so their positions are still those of the sequence. -/
theorem foldr_replace {s : List α} {cursor : ℕ} {es : List (Edit α)}
    (hes : Ordered s.length cursor es) :
    es.foldr (fun e result => replace result e) s = s.take cursor ++ apply s cursor es := by
  induction es generalizing cursor with
  | nil => exact (List.take_append_drop cursor s).symm
  | cons e es ih =>
    obtain ⟨hstart, hstop, hes⟩ := hes
    have hlen : (s.take e.stop).length = e.stop := List.length_take_of_le hes.cursor_le
    have htake : (s.take e.stop ++ apply s e.stop es).take e.start = s.take e.start := by
      rw [List.take_append_of_le_length (by omega), List.take_take, min_eq_left hstop]
    have hdrop : (s.take e.stop ++ apply s e.stop es).drop e.stop = apply s e.stop es := by
      rw [List.drop_append_of_le_length (by omega), List.drop_of_length_le hlen.le, List.nil_append]
    rw [List.foldr_cons, ih hes, replace, hdrop, htake, ← take_append_slice s hstart, apply,
      List.append_assoc, List.append_assoc, List.append_assoc]

/-! ### The inverse edits -/

/-- The edits that undo `es`: `m` elements of the result are written when the cursor stands at
`cursor`, so the piece of `e` starts in the result at `m + (e.start - cursor)`. -/
def invert (s : List α) : ℕ → ℕ → List (Edit α) → List (Edit α)
  | _, _, [] => []
  | cursor, m, e :: es =>
      ⟨m + (e.start - cursor), m + (e.start - cursor) + e.insert.length, slice s e.start e.stop⟩ ::
        invert s e.stop (m + (e.start - cursor) + e.insert.length) es

private theorem ordered_invert_aux (s : List α) : (cursor : ℕ) → (es : List (Edit α)) → (m : ℕ) →
    Ordered s.length cursor es → Ordered (m + (apply s cursor es).length) m (invert s cursor m es)
  | cursor, [], m, _ => Nat.le_add_right _ _
  | cursor, e :: es, m, ⟨h₁, h₂, h⟩ => by
      have hstart : e.start ≤ s.length := h₂.trans h.cursor_le
      have hlen : m + (apply s cursor (e :: es)).length =
          m + (e.start - cursor) + e.insert.length + (apply s e.stop es).length := by
        rw [apply, List.length_append, List.length_append, length_slice_natCast s hstart]
        omega
      refine ⟨Nat.le_add_right _ _, Nat.le_add_right _ _, ?_⟩
      rw [hlen]
      exact ordered_invert_aux s e.stop es _ h

/-- The inverted edits are ordered in the result. -/
theorem ordered_invert (s : List α) (es : List (Edit α)) (h : Ordered s.length 0 es) :
    Ordered (apply s 0 es).length 0 (invert s 0 0 es) := by
  simpa only [Nat.zero_add] using ordered_invert_aux s 0 es 0 h

/-- The slice of a sequence `pre ++ t` that starts at the end of `pre`. -/
private theorem slice_append_right (pre t : List α) (k : ℕ) :
    slice (pre ++ t) (pre.length : ℤ) ((pre.length + k : ℕ) : ℤ) = t.take k := by
  rw [slice_natCast, List.take_length_add_append, List.drop_left]

private theorem apply_invert_aux (s : List α) : (cursor : ℕ) → (es : List (Edit α)) →
    Ordered s.length cursor es → (pre : List α) →
      apply (pre ++ apply s cursor es) pre.length (invert s cursor pre.length es) = s.drop cursor
  | cursor, [], _, pre => by
      simp only [apply, invert, List.drop_left]
  | cursor, e :: es, ⟨h₁, h₂, h⟩, pre => by
      have hgap : (slice s cursor e.start).length = e.start - cursor :=
        length_slice_natCast s (h₂.trans h.cursor_le)
      have hpre : (pre ++ (slice s cursor e.start ++ e.insert)).length =
          pre.length + (e.start - cursor) + e.insert.length := by
        rw [List.length_append, List.length_append, hgap, Nat.add_assoc]
      have ih := apply_invert_aux s e.stop es h (pre ++ (slice s cursor e.start ++ e.insert))
      rw [hpre, List.append_assoc pre] at ih
      simp only [apply, invert]
      rw [ih, slice_append_right, List.append_assoc (slice s cursor e.start), ← hgap,
        List.take_left, List.append_assoc, slice_append_drop s h₂, slice_append_drop s h₁]

/-- **The inverted edits undo the splice.** -/
theorem apply_invert (s : List α) (es : List (Edit α)) (h : Ordered s.length 0 es) :
    apply (apply s 0 es) 0 (invert s 0 0 es) = s := by
  simpa only [List.nil_append, List.length_nil, List.drop_zero] using apply_invert_aux s 0 es h []

/-! ### The pieces outside the spans -/

/-- The pieces of `s` from `cursor` on that lie outside the spans. -/
def kept (s : List α) : ℕ → List (Edit α) → List (List α)
  | cursor, [] => [s.drop cursor]
  | cursor, e :: es => slice s cursor e.start :: kept s e.stop es

private theorem kept_invert_aux (s : List α) : (cursor : ℕ) → (es : List (Edit α)) →
    Ordered s.length cursor es → (pre : List α) →
      kept (pre ++ apply s cursor es) pre.length (invert s cursor pre.length es) =
        kept s cursor es
  | cursor, [], _, pre => by
      simp only [apply, invert, kept, List.drop_left]
  | cursor, e :: es, ⟨h₁, h₂, h⟩, pre => by
      have hgap : (slice s cursor e.start).length = e.start - cursor :=
        length_slice_natCast s (h₂.trans h.cursor_le)
      have hpre : (pre ++ (slice s cursor e.start ++ e.insert)).length =
          pre.length + (e.start - cursor) + e.insert.length := by
        rw [List.length_append, List.length_append, hgap, Nat.add_assoc]
      have ih := kept_invert_aux s e.stop es h (pre ++ (slice s cursor e.start ++ e.insert))
      rw [hpre, List.append_assoc pre] at ih
      simp only [apply, invert, kept]
      rw [ih, slice_append_right, List.append_assoc (slice s cursor e.start), ← hgap,
        List.take_left]

/-- **The splice changes nothing outside the spans.** The pieces between the spans are the same
in the sequence and in the result. -/
theorem kept_invert (s : List α) (es : List (Edit α)) (h : Ordered s.length 0 es) :
    kept (apply s 0 es) 0 (invert s 0 0 es) = kept s 0 es := by
  simpa only [List.nil_append, List.length_nil] using kept_invert_aux s 0 es h []

end Splice
