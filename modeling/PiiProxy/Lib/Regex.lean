import Mathlib

/-!
# Backtracking regular expressions

Regular expressions over an arbitrary alphabet with the leftmost-first semantics of backtracking
matchers: alternatives and repetitions are ordered, so matching lists all the ways to match in the
order in which a matcher would try them. There are numbered groups, back references, and look-around
at a single neighbour.

A repetition discards iterations that consume nothing, and a scan goes on after the end of each
match, so the semantics is that of the usual matchers for expressions whose repeated bodies, and
which themselves, consume something.

## Main definitions

* `Regex`, `Regex.run`: expressions, and the cursors a match from a cursor may end at.
* `Regex.finditer`, `Regex.search`: the successive matches in a sequence, and whether there is one.
* `Regex.minLen`, `Regex.respects`: the least length of a match and of its groups.
* `Regex.StartsIn`: every match starts with an element that satisfies a predicate.
* `Regex.Accepts`: the expression matches a sequence wherever it comes next.

## Main results

* `Regex.isPiece_of_mem_finditer`: a match is a piece of the sequence of at least the least length.
* `Regex.group_of_mem_finditer`: so is a group of a match.
* `Regex.pairwise_finditer`: each match ends before the next one starts.
* `Regex.head_of_mem_finditer`: a match starts with an element that the expression starts with.
* `Regex.Accepts.search`: a sequence that holds something accepted has a match.
-/

/-- Expressions over the alphabet `α`. -/
inductive Regex (α : Type*) where
  | eps
  | chr (p : α → Bool)
  | seq (r₁ r₂ : Regex α)
  | alt (r₁ r₂ : Regex α)
  /-- At least `min` and, when `max` is given, at most `max` iterations, as many as possible. -/
  | rep (r : Regex α) (min : ℕ) (max : Option ℕ)
  | group (n : ℕ) (r : Regex α)
  | backref (n : ℕ)
  /-- The previous element, if any, does not satisfy `p`. -/
  | notBehind (p : α → Bool)
  /-- The next element, if any, does not satisfy `p`. -/
  | notAhead (p : α → Bool)

namespace Regex

variable {α : Type*}

/-- A position in a sequence with its neighbours and the groups captured so far: the number of
the group, its start and its text. -/
structure Cursor (α : Type*) where
  pos : ℕ
  prev : Option α
  rest : List α
  groups : List (ℕ × ℕ × List α)

/-- A match with its groups. -/
structure Match (α : Type*) where
  start : ℕ
  stop : ℕ
  text : List α
  groups : List (ℕ × ℕ × List α)

/-- The start and the text of group `n`, when it took part in the match. -/
def Match.group? (m : Match α) (n : ℕ) : Option (ℕ × List α) := m.groups.lookup n

/-! ### Matching -/

/-- Between `min` and `max` iterations of `step`, the longest runs first. -/
def iterate (step : Cursor α → List (Cursor α)) : ℕ → ℕ → Cursor α → List (Cursor α)
  | min, 0, c => if min = 0 then [c] else []
  | min, max + 1, c =>
    ((step c).flatMap fun c' => if c'.pos ≤ c.pos then [] else iterate step (min - 1) max c') ++
      if min = 0 then [c] else []

/-- The cursors at which a match of the expression from a cursor may end, preferred ones first. -/
def run [BEq α] : Regex α → Cursor α → List (Cursor α)
  | .eps, c => [c]
  | .chr p, c =>
    match c.rest with
    | [] => []
    | a :: rest => if p a then [⟨c.pos + 1, some a, rest, c.groups⟩] else []
  | .seq r₁ r₂, c => (run r₁ c).flatMap (run r₂)
  | .alt r₁ r₂, c => run r₁ c ++ run r₂ c
  | .rep r min max, c => iterate (run r) min (max.getD c.rest.length) c
  | .group n r, c => (run r c).map fun c' =>
    { c' with groups := (n, c.pos, c.rest.take (c'.pos - c.pos)) :: c'.groups }
  | .backref n, c =>
    match c.groups.lookup n with
    | none => []
    | some (_, t) =>
      if t.isPrefixOf c.rest then
        [⟨c.pos + t.length, t.getLast?.or c.prev, c.rest.drop t.length, c.groups⟩]
      else []
  | .notBehind p, c => if c.prev.any p then [] else [c]
  | .notAhead p, c => if c.rest.head?.any p then [] else [c]

/-- The successive matches from a cursor on, in at most `fuel` steps. -/
def scan [BEq α] (r : Regex α) : ℕ → Cursor α → List (Match α)
  | 0, _ => []
  | fuel + 1, c =>
    match (run r c).head? with
    | some c' =>
      ⟨c.pos, c'.pos, c.rest.take (c'.pos - c.pos), c'.groups⟩ ::
        scan r fuel { c' with groups := [] }
    | none =>
      match c.rest with
      | [] => []
      | a :: rest => scan r fuel ⟨c.pos + 1, some a, rest, []⟩

/-- The successive matches in a sequence. -/
def finditer [BEq α] (r : Regex α) (s : List α) : List (Match α) :=
  scan r (s.length + 1) ⟨0, none, s, []⟩

/-- The sequence holds a match. -/
def search [BEq α] (r : Regex α) (s : List α) : Bool := !(finditer r s).isEmpty

/-! ### Building expressions -/

/-- One expression after the other. -/
def concat (rs : List (Regex α)) : Regex α := rs.foldr .seq .eps

/-- The first alternative that matches. -/
def oneOf : List (Regex α) → Regex α
  | [] => .chr fun _ => false
  | [r] => r
  | r :: rs => .alt r (oneOf rs)

/-- The given elements in order. -/
def literal [BEq α] (s : List α) : Regex α := concat (s.map fun a => .chr (· == a))

/-- Optionally the expression. -/
def opt (r : Regex α) : Regex α := .rep r 0 (some 1)

/-- Any number of times the expression. -/
def star (r : Regex α) : Regex α := .rep r 0 none

/-- At least once the expression. -/
def plus (r : Regex α) : Regex α := .rep r 1 none

/-- Exactly `n` times the expression. -/
def times (n : ℕ) (r : Regex α) : Regex α := .rep r n (some n)

/-! ### Matches are pieces of the sequence -/

/-- `t` is the piece of `s` that starts at `start`. -/
def IsPiece (s : List α) (start : ℕ) (t : List α) : Prop :=
  start + t.length ≤ s.length ∧ t = (s.take (start + t.length)).drop start

/-- The least length of a match. -/
def minLen : Regex α → ℕ
  | .eps => 0
  | .chr _ => 1
  | .seq r₁ r₂ => minLen r₁ + minLen r₂
  | .alt r₁ r₂ => min (minLen r₁) (minLen r₂)
  | .rep r min _ => min * minLen r
  | .group _ r => minLen r
  | .backref _ => 0
  | .notBehind _ => 0
  | .notAhead _ => 0

/-- Every group `n` of the expression matches at least `b n` elements. -/
def respects (b : ℕ → ℕ) : Regex α → Bool
  | .eps => true
  | .chr _ => true
  | .seq r₁ r₂ => respects b r₁ && respects b r₂
  | .alt r₁ r₂ => respects b r₁ && respects b r₂
  | .rep r _ _ => respects b r
  | .group n r => decide (b n ≤ minLen r) && respects b r
  | .backref _ => true
  | .notBehind _ => true
  | .notAhead _ => true

/-- A sequence of expressions consumes something as soon as one of them does. -/
theorem minLen_concat_pos {r : Regex α} : {rs : List (Regex α)} → r ∈ rs → 0 < r.minLen →
    0 < (concat rs).minLen
  | r' :: rs, hr, h => by
      change 0 < r'.minLen + (concat rs).minLen
      rcases List.mem_cons.mp hr with rfl | hr
      · omega
      · have := minLen_concat_pos hr h
        omega

/-- The cursor stands in `s`, and its groups are pieces of `s` within the bounds `b`. -/
structure Cursor.Valid (s : List α) (b : ℕ → ℕ) (c : Cursor α) : Prop where
  pos_le : c.pos ≤ s.length
  rest_eq : c.rest = s.drop c.pos
  groups : ∀ g ∈ c.groups, IsPiece s g.2.1 g.2.2 ∧ b g.1 ≤ g.2.2.length

/-- From `c` the cursor moved on by at least `n` elements and is still valid. -/
def Reaches (s : List α) (b : ℕ → ℕ) (n : ℕ) (c c' : Cursor α) : Prop :=
  c'.Valid s b ∧ c.pos + n ≤ c'.pos

variable {s : List α} {b : ℕ → ℕ}

theorem IsPiece.shorten {start : ℕ} {t t' : List α} (h : IsPiece s start t) (ht : t' <+: t) :
    IsPiece s start t' := by
  obtain ⟨hle, heq⟩ := h
  have hlen := ht.length_le
  refine ⟨by omega, ?_⟩
  rw [List.drop_take, Nat.add_sub_cancel_left] at heq ⊢
  rw [List.prefix_iff_eq_take.mp ht]
  conv_lhs => rw [heq]
  rw [List.take_take, List.length_take]

/-- What lies between two positions is a piece. -/
private theorem isPiece_take {c c' : Cursor α} (hc : c.Valid s b) (hc' : c'.Valid s b)
    (hle : c.pos ≤ c'.pos) :
    IsPiece s c.pos (c.rest.take (c'.pos - c.pos)) ∧
      (c.rest.take (c'.pos - c.pos)).length = c'.pos - c.pos := by
  have hstop := hc'.pos_le
  have hlen : (c.rest.take (c'.pos - c.pos)).length = c'.pos - c.pos := by
    rw [hc.rest_eq, List.length_take, List.length_drop]
    omega
  refine ⟨⟨?_, ?_⟩, hlen⟩
  · omega
  · rw [hlen, hc.rest_eq, List.drop_take, Nat.add_sub_cancel_left]

private theorem iterate_reaches {step : Cursor α → List (Cursor α)} {n : ℕ}
    (hstep : ∀ c c', c.Valid s b → c' ∈ step c → Reaches s b n c c') :
    (min max : ℕ) → (c c' : Cursor α) → c.Valid s b → c' ∈ iterate step min max c →
      Reaches s b (min * n) c c'
  | min, 0, c, c', hc, h => by
      rw [iterate] at h
      split_ifs at h with hmin
      · rw [List.mem_singleton.mp h, hmin]
        exact ⟨hc, by omega⟩
      · cases h
  | min, max + 1, c, c', hc, h => by
      rw [iterate, List.mem_append] at h
      rcases h with h | h
      · obtain ⟨c₁, hc₁, h⟩ := List.mem_flatMap.mp h
        obtain ⟨hv₁, hp₁⟩ := hstep c c₁ hc hc₁
        split_ifs at h with hpos
        · cases h
        · obtain ⟨hv', hp'⟩ := iterate_reaches hstep (min - 1) max c₁ c' hv₁ h
          refine ⟨hv', ?_⟩
          cases min with
          | zero => omega
          | succ k =>
            rw [Nat.add_sub_cancel] at hp'
            rw [Nat.succ_mul]
            omega
      · split_ifs at h with hmin
        · rw [List.mem_singleton.mp h, hmin]
          exact ⟨hc, by omega⟩
        · cases h

/-- Stepping over the next element keeps a cursor valid. -/
private theorem Cursor.Valid.next {c : Cursor α} (hc : c.Valid s b) {a : α} {rest : List α}
    (hrest : c.rest = a :: rest) : Cursor.Valid s b ⟨c.pos + 1, some a, rest, []⟩ := by
  have hlen : (s.drop c.pos).length = rest.length + 1 := by
    rw [← hc.rest_eq, hrest, List.length_cons]
  rw [List.length_drop] at hlen
  refine ⟨?_, ?_, fun g hg => by cases hg⟩
  · simp only
    omega
  · rw [← List.drop_drop, ← hc.rest_eq, hrest]
    rfl

/-- Forgetting the groups keeps a cursor valid. -/
private theorem Cursor.Valid.noGroups {c : Cursor α} (hc : c.Valid s b) :
    Cursor.Valid s b { c with groups := [] } :=
  ⟨hc.pos_le, hc.rest_eq, fun g hg => by cases hg⟩

private theorem valid_start (s : List α) (b : ℕ → ℕ) : Cursor.Valid s b ⟨0, none, s, []⟩ :=
  ⟨Nat.zero_le _, rfl, fun g hg => by cases hg⟩

variable [BEq α]

private theorem length_le_of_isPrefixOf : (t rest : List α) → t.isPrefixOf rest = true →
    t.length ≤ rest.length
  | [], _, _ => Nat.zero_le _
  | _ :: _, [], h => by cases h
  | _ :: t, _ :: rest, h => by
      rw [List.isPrefixOf_cons_cons, Bool.and_eq_true] at h
      exact Nat.succ_le_succ (length_le_of_isPrefixOf t rest h.2)

/-- A match ends at a valid cursor, at least the least length further on. -/
theorem run_reaches : (r : Regex α) → r.respects b = true → (c c' : Cursor α) → c.Valid s b →
    c' ∈ run r c → Reaches s b r.minLen c c'
  | .eps, _, c, c', hc, h => by
      rw [List.mem_singleton.mp h]
      exact ⟨hc, Nat.le_refl _⟩
  | .chr p, _, c, c', hc, h => by
      rw [run] at h
      split at h
      · cases h
      · rename_i a rest hrest
        split_ifs at h
        · rw [List.mem_singleton.mp h]
          have hdrop : s.drop c.pos = a :: rest := hc.rest_eq.symm.trans hrest
          have hlt : c.pos < s.length := by
            by_contra hge
            rw [List.drop_eq_nil_of_le (Nat.not_lt.mp hge)] at hdrop
            cases hdrop
          refine ⟨⟨hlt, ?_, hc.groups⟩, Nat.le_refl _⟩
          rw [← List.drop_drop, hdrop]
          rfl
        · cases h
  | .seq r₁ r₂, hb, c, c', hc, h => by
      rw [respects, Bool.and_eq_true] at hb
      rw [run] at h
      obtain ⟨c₁, h₁, h₂⟩ := List.mem_flatMap.mp h
      obtain ⟨hv₁, hp₁⟩ := run_reaches r₁ hb.1 c c₁ hc h₁
      obtain ⟨hv', hp'⟩ := run_reaches r₂ hb.2 c₁ c' hv₁ h₂
      refine ⟨hv', ?_⟩
      rw [minLen]
      omega
  | .alt r₁ r₂, hb, c, c', hc, h => by
      rw [respects, Bool.and_eq_true] at hb
      rw [run, List.mem_append] at h
      rw [minLen]
      rcases h with h | h
      · obtain ⟨hv', hp'⟩ := run_reaches r₁ hb.1 c c' hc h
        exact ⟨hv', by omega⟩
      · obtain ⟨hv', hp'⟩ := run_reaches r₂ hb.2 c c' hc h
        exact ⟨hv', by omega⟩
  | .rep r min max, hb, c, c', hc, h =>
      iterate_reaches (fun c c' hc hc' => run_reaches r hb c c' hc hc') min _ c c' hc h
  | .group n r, hb, c, c', hc, h => by
      rw [respects, Bool.and_eq_true, decide_eq_true_eq] at hb
      rw [run] at h
      obtain ⟨c₁, h₁, rfl⟩ := List.mem_map.mp h
      obtain ⟨hv₁, hp₁⟩ := run_reaches r hb.2 c c₁ hc h₁
      obtain ⟨hpiece, hlen⟩ := isPiece_take hc hv₁ (by omega)
      refine ⟨⟨hv₁.pos_le, hv₁.rest_eq, fun g hg => ?_⟩, hp₁⟩
      rcases List.mem_cons.mp hg with rfl | hg
      · refine ⟨hpiece, ?_⟩
        have := hb.1
        simp only [hlen]
        omega
      · exact hv₁.groups g hg
  | .backref n, _, c, c', hc, h => by
      rw [run] at h
      split at h
      · cases h
      · rename_i t hlookup
        split_ifs at h with hpre
        · rw [List.mem_singleton.mp h]
          have hlen := length_le_of_isPrefixOf t c.rest hpre
          have hle := hc.pos_le
          rw [hc.rest_eq, List.length_drop] at hlen
          refine ⟨⟨?_, ?_, hc.groups⟩, Nat.le_add_right _ _⟩
          · simp only
            omega
          · rw [hc.rest_eq, List.drop_drop]
        · cases h
  | .notBehind p, _, c, c', hc, h => by
      rw [run] at h
      split_ifs at h
      · cases h
      · rw [List.mem_singleton.mp h]
        exact ⟨hc, Nat.le_refl _⟩
  | .notAhead p, _, c, c', hc, h => by
      rw [run] at h
      split_ifs at h
      · cases h
      · rw [List.mem_singleton.mp h]
        exact ⟨hc, Nat.le_refl _⟩

/-- What a scan promises about a match. -/
private def Match.Good (s : List α) (b : ℕ → ℕ) (n : ℕ) (m : Match α) : Prop :=
  IsPiece s m.start m.text ∧ m.stop = m.start + m.text.length ∧ n ≤ m.text.length ∧
    ∀ g ∈ m.groups, IsPiece s g.2.1 g.2.2 ∧ b g.1 ≤ g.2.2.length

private theorem scan_good (r : Regex α) (hb : r.respects b = true) : (fuel : ℕ) →
    (c : Cursor α) → c.Valid s b → ∀ m ∈ scan r fuel c, m.Good s b r.minLen
  | 0, _, _, m, hm => by cases hm
  | fuel + 1, c, hc, m, hm => by
      rw [scan] at hm
      split at hm
      · rename_i c' hhead
        obtain ⟨hv', hp'⟩ := run_reaches r hb c c' hc (List.mem_of_mem_head? hhead)
        obtain ⟨hpiece, hlen⟩ := isPiece_take hc hv' (by omega)
        rcases List.mem_cons.mp hm with rfl | hm
        · refine ⟨hpiece, ?_, ?_, hv'.groups⟩
          · simp only [hlen]
            omega
          · simp only [hlen]
            omega
        · exact scan_good r hb fuel _ hv'.noGroups m hm
      · split at hm
        · cases hm
        · rename_i a rest hrest
          exact scan_good r hb fuel _ (hc.next hrest) m hm

private theorem finditer_good {r : Regex α} (hb : r.respects b = true) {m : Match α}
    (hm : m ∈ finditer r s) : m.Good s b r.minLen :=
  scan_good r hb _ _ (valid_start s b) m hm

omit [BEq α] in
private theorem respects_zero : (r : Regex α) → r.respects (fun _ => 0) = true
  | .eps | .chr _ | .backref _ | .notBehind _ | .notAhead _ => rfl
  | .seq r₁ r₂ | .alt r₁ r₂ => by
      rw [respects, respects_zero r₁, respects_zero r₂]
      rfl
  | .rep r _ _ => by rw [respects, respects_zero r]
  | .group _ r => by
      rw [respects, respects_zero r, Bool.and_true]
      exact decide_eq_true (Nat.zero_le _)

/-- **A match is a piece of the sequence** of at least the least length of the expression. -/
theorem isPiece_of_mem_finditer {r : Regex α} {m : Match α} (hm : m ∈ finditer r s) :
    IsPiece s m.start m.text ∧ m.stop = m.start + m.text.length ∧ r.minLen ≤ m.text.length := by
  obtain ⟨h₁, h₂, h₃, -⟩ := finditer_good (respects_zero r) hm
  exact ⟨h₁, h₂, h₃⟩

private theorem start_le_of_mem_scan (r : Regex α) : (fuel : ℕ) → (c : Cursor α) →
    c.Valid s (fun _ => 0) → ∀ m ∈ scan r fuel c, c.pos ≤ m.start
  | 0, _, _, m, hm => by cases hm
  | fuel + 1, c, hc, m, hm => by
      rw [scan] at hm
      split at hm
      · rename_i c' hhead
        obtain ⟨hv', hp'⟩ := run_reaches r (respects_zero r) c c' hc (List.mem_of_mem_head? hhead)
        rcases List.mem_cons.mp hm with rfl | hm
        · exact Nat.le_refl _
        · have h := start_le_of_mem_scan r fuel _ hv'.noGroups m hm
          simp only at h
          omega
      · split at hm
        · cases hm
        · rename_i a rest hrest
          have h := start_le_of_mem_scan r fuel _ (hc.next hrest) m hm
          simp only at h
          omega

private theorem pairwise_scan (r : Regex α) : (fuel : ℕ) → (c : Cursor α) →
    c.Valid s (fun _ => 0) → (scan r fuel c).Pairwise fun m m' => m.stop ≤ m'.start
  | 0, _, _ => List.Pairwise.nil
  | fuel + 1, c, hc => by
      rw [scan]
      split
      · rename_i c' hhead
        obtain ⟨hv', -⟩ := run_reaches r (respects_zero r) c c' hc (List.mem_of_mem_head? hhead)
        exact List.pairwise_cons.mpr ⟨start_le_of_mem_scan r fuel _ hv'.noGroups,
          pairwise_scan r fuel _ hv'.noGroups⟩
      · split
        · exact List.Pairwise.nil
        · rename_i a rest hrest
          exact pairwise_scan r fuel _ (hc.next hrest)

/-- Each match ends before the next one starts. -/
theorem pairwise_finditer (r : Regex α) (s : List α) :
    (finditer r s).Pairwise fun m m' => m.stop ≤ m'.start :=
  pairwise_scan r _ _ (valid_start s _)

omit [BEq α] in
private theorem mem_of_lookup {n : ℕ} {v : ℕ × List α} :
    (l : List (ℕ × ℕ × List α)) → l.lookup n = some v → (n, v) ∈ l
  | [], h => by cases h
  | (k, w) :: l, h => by
      rw [List.lookup_cons] at h
      split at h
      · rename_i hk
        rw [beq_iff_eq.mp hk]
        cases h
        exact List.mem_cons_self
      · exact List.mem_cons_of_mem _ (mem_of_lookup l h)

/-- **A group of a match is a piece of the sequence** of at least the length that the expression
respects. -/
theorem group_of_mem_finditer {r : Regex α} (hb : r.respects b = true) {m : Match α}
    (hm : m ∈ finditer r s) {n start : ℕ} {t : List α} (hg : m.group? n = some (start, t)) :
    IsPiece s start t ∧ b n ≤ t.length := by
  obtain ⟨-, -, -, h⟩ := finditer_good hb hm
  exact h (n, start, t) (mem_of_lookup m.groups hg)

/-! ### The first element of a match -/

/-- The expression matches only the empty piece and leaves the cursor where it is. -/
def isTest : Regex α → Bool
  | .eps | .notBehind _ | .notAhead _ => true
  | _ => false

/-- Every match starts with an element that satisfies `p`. -/
def StartsIn (p : α → Prop) : Regex α → Prop
  | .chr q => ∀ a, q a = true → p a
  | .seq r₁ r₂ => StartsIn p r₁ ∨ (isTest r₁ = true ∧ StartsIn p r₂)
  | .alt r₁ r₂ => StartsIn p r₁ ∧ StartsIn p r₂
  | .rep r min _ => 1 ≤ min ∧ StartsIn p r
  | .group _ r => StartsIn p r
  | _ => False

/-- A test leaves the cursor where it is. -/
theorem run_test_sublist : {r : Regex α} → isTest r = true → (c : Cursor α) → (run r c).Sublist [c]
  | .eps, _, c => .refl [c]
  | .notBehind p, _, c => by
      rw [run]
      split_ifs
      · exact List.nil_sublist _
      · exact .refl _
  | .notAhead p, _, c => by
      rw [run]
      split_ifs
      · exact List.nil_sublist _
      · exact .refl _
  | .chr _, ht, _ | .seq _ _, ht, _ | .alt _ _, ht, _ | .rep _ _ _, ht, _ | .group _ _, ht, _
  | .backref _, ht, _ => by cases ht

theorem eq_of_mem_run_test {r : Regex α} (hr : isTest r = true) {c c' : Cursor α}
    (h : c' ∈ run r c) : c' = c :=
  List.mem_singleton.1 ((run_test_sublist hr c).subset h)

private theorem run_startsIn {p : α → Prop} : (r : Regex α) → StartsIn p r →
    (c c' : Cursor α) → c' ∈ run r c → ∃ a, c.rest.head? = some a ∧ p a
  | .chr q, hq, c, c', h => by
      rw [run] at h
      split at h
      · cases h
      · rename_i a rest hrest
        split_ifs at h with hqa
        · exact ⟨a, by rw [hrest]; rfl, hq a hqa⟩
        · cases h
  | .seq r₁ r₂, hp, c, c', h => by
      rw [run] at h
      obtain ⟨c₁, h₁, h₂⟩ := List.mem_flatMap.mp h
      rcases hp with hp | ⟨ht, hp⟩
      · exact run_startsIn r₁ hp c c₁ h₁
      · rw [eq_of_mem_run_test ht h₁] at h₂
        exact run_startsIn r₂ hp c c' h₂
  | .alt r₁ r₂, hp, c, c', h => by
      rw [run, List.mem_append] at h
      rcases h with h | h
      · exact run_startsIn r₁ hp.1 c c' h
      · exact run_startsIn r₂ hp.2 c c' h
  | .rep r min max, hp, c, c', h => by
      have hmin : min ≠ 0 := Nat.one_le_iff_ne_zero.mp hp.1
      rw [run] at h
      cases hmax : max.getD c.rest.length with
      | zero =>
        rw [hmax, iterate, if_neg hmin] at h
        cases h
      | succ n =>
        rw [hmax, iterate, if_neg hmin, List.append_nil] at h
        obtain ⟨c₁, h₁, -⟩ := List.mem_flatMap.mp h
        exact run_startsIn r hp.2 c c₁ h₁
  | .group _ r, hp, c, c', h => by
      rw [run] at h
      obtain ⟨c₁, h₁, -⟩ := List.mem_map.mp h
      exact run_startsIn r hp c c₁ h₁
  | .eps, hp, _, _, _ | .backref _, hp, _, _, _ | .notBehind _, hp, _, _, _
  | .notAhead _, hp, _, _, _ => hp.elim

private theorem scan_startsIn {p : α → Prop} (r : Regex α) (hp : StartsIn p r) (hr : 0 < r.minLen) :
    (fuel : ℕ) → (c : Cursor α) → c.Valid s (fun _ => 0) → ∀ m ∈ scan r fuel c,
      ∃ a, m.text.head? = some a ∧ p a
  | 0, _, _, m, hm => by cases hm
  | fuel + 1, c, hc, m, hm => by
      rw [scan] at hm
      split at hm
      · rename_i c' hhead
        have hrun := List.mem_of_mem_head? hhead
        obtain ⟨hv', hp'⟩ := run_reaches r (respects_zero r) c c' hc hrun
        rcases List.mem_cons.mp hm with rfl | hm
        · obtain ⟨a, ha, hpa⟩ := run_startsIn r hp c c' hrun
          refine ⟨a, ?_, hpa⟩
          rw [List.head?_take, if_neg (by omega), ha]
        · exact scan_startsIn r hp hr fuel _ hv'.noGroups m hm
      · split at hm
        · cases hm
        · rename_i a rest hrest
          exact scan_startsIn r hp hr fuel _ (hc.next hrest) m hm

/-- A match starts with an element that the expression starts with. -/
theorem head_of_mem_finditer {p : α → Prop} {r : Regex α} (hp : StartsIn p r)
    (hr : 0 < r.minLen) {m : Match α} (hm : m ∈ finditer r s) :
    ∃ a, m.text.head? = some a ∧ p a :=
  scan_startsIn r hp hr _ _ (valid_start s _) m hm

/-! ### Completeness -/

/-- Wherever `t` comes next, matching may end right after it, with no group added. -/
def Accepts (r : Regex α) (t : List α) : Prop :=
  ∀ (c : Cursor α) (rest : List α), c.rest = t ++ rest →
    ⟨c.pos + t.length, t.getLast?.or c.prev, rest, c.groups⟩ ∈ run r c

theorem accepts_eps : Accepts (.eps : Regex α) [] := by
  rintro ⟨pos, prev, _, groups⟩ rest rfl
  exact List.mem_singleton_self _

theorem accepts_chr {p : α → Bool} {a : α} (ha : p a = true) : Accepts (.chr p) [a] := by
  rintro ⟨pos, prev, _, groups⟩ rest rfl
  simp [run, ha]

theorem Accepts.seq {r₁ r₂ : Regex α} {t₁ t₂ : List α} (h₁ : Accepts r₁ t₁)
    (h₂ : Accepts r₂ t₂) : Accepts (.seq r₁ r₂) (t₁ ++ t₂) := by
  intro c rest hrest
  rw [List.append_assoc] at hrest
  have h := h₂ ⟨c.pos + t₁.length, t₁.getLast?.or c.prev, t₂ ++ rest, c.groups⟩ rest rfl
  refine List.mem_flatMap.mpr ⟨_, h₁ c (t₂ ++ rest) hrest, ?_⟩
  rw [List.length_append, List.getLast?_append, Option.or_assoc, ← Nat.add_assoc]
  exact h

/-- A scan with enough fuel that finds nothing has tried every position. -/
private theorem run_eq_nil_of_scan (r : Regex α) : (fuel : ℕ) → (c : Cursor α) →
    c.rest.length < fuel → c.groups = [] → scan r fuel c = [] → ∀ before after,
      c.rest = before ++ after →
        run r ⟨c.pos + before.length, before.getLast?.or c.prev, after, []⟩ = []
  | fuel + 1, ⟨pos, prev, rest, groups⟩, hfuel, hgroups, hscan, before, after, hrest => by
      simp only at hfuel hgroups hrest
      subst hgroups
      rw [scan] at hscan
      split at hscan
      · cases hscan
      · next hrun =>
        rw [List.head?_eq_none_iff] at hrun
        cases before with
        | nil =>
          rw [List.nil_append] at hrest
          subst hrest
          exact hrun
        | cons a before =>
          subst hrest
          simp only [List.cons_append] at hscan
          have hlen : (before ++ after).length < fuel := by
            simpa using hfuel
          have h := run_eq_nil_of_scan r fuel ⟨pos + 1, some a, before ++ after, []⟩ hlen rfl hscan
            before after rfl
          have hprev : before.getLast?.or (some a) = (a :: before).getLast?.or prev := by
            rw [List.getLast?_cons]
            cases before.getLast? <;> rfl
          have hpos : pos + (a :: before).length = pos + 1 + before.length := by
            rw [List.length_cons]
            omega
          rw [hpos, ← hprev]
          exact h

/-- **Completeness of the search.** A sequence that holds something accepted by the expression has
a match. -/
theorem Accepts.search {r : Regex α} {t s : List α} (h : Accepts r t) (ht : t <:+: s) :
    search r s = true := by
  obtain ⟨before, after, rfl⟩ := ht
  rw [List.append_assoc]
  by_contra hsearch
  have hscan : finditer r (before ++ (t ++ after)) = [] := by
    simpa [Regex.search] using hsearch
  have hnil := run_eq_nil_of_scan r _ _ (Nat.lt_succ_self _) rfl hscan before _ rfl
  have hmem := h ⟨0 + before.length, before.getLast?.or none, t ++ after, []⟩ after rfl
  rw [hnil] at hmem
  cases hmem

end Regex
