import PiiProxy.Lib.WordBounded

/-!
# One replacement after another

Rules that replace a needle are applied to a sequence one after another, each to the result of the
ones before. A reading of the sequence lists its pieces: single elements and the needles found in
it. When each rule finds exactly its own pieces, whatever was restored before it, the passes
together restore the needles of the reading all at once.

## Main definitions

* `Passes.Rule`, `Passes.Rule.pass`, `Passes.run`: rules and their passes over a sequence.
* `Passes.Piece`, `Passes.read`, `Passes.restore`: a reading, and the sequence with the pieces of
  some rules restored.
* `Passes.FindsOwn`: a rule finds exactly its own pieces.

## Main results

* `Passes.restore_read`: the pieces of a reading make up the sequence.
* `Passes.pass_restore`: the pass of a rule that finds its own pieces restores them.
* `Passes.run_restore`: so do passes that all find their own pieces.
-/

namespace Passes

variable {α : Type*} [DecidableEq α]

/-- Replace the needle by the replacement, wherever it stands or, when `bounded`, only where it
stands with no word element on either side. -/
structure Rule (α : Type*) where
  needle : List α
  replacement : List α
  bounded : Bool
  deriving DecidableEq

variable (isWord : α → Bool)

/-- What the needle must not touch. -/
def Rule.shuns (r : Rule α) (a : α) : Bool := r.bounded && isWord a

/-- The rule applies at the beginning of `s`, after the element `before`. -/
def Rule.takes (r : Rule α) (before : Option α) (s : List α) : Bool :=
  WordBounded.takes (r.shuns isWord) r.needle before s

/-- One pass over a sequence. -/
def Rule.pass (r : Rule α) (s : List α) : List α :=
  WordBounded.scan (r.shuns isWord) r.needle r.replacement none 0 s

/-- The passes of the rules, each over the result of the ones before. -/
def run (rules : List (Rule α)) (s : List α) : List α :=
  rules.foldl (fun s r => r.pass isWord s) s

/-! ### Readings -/

/-- A piece of a sequence: one element, or the needle of a rule. -/
inductive Piece (α : Type*) where
  | raw (a : α)
  | found (r : Rule α)
  deriving DecidableEq

/-- The pieces of a sequence after the element `before`: the needles found from the left, the first
rule counting. The next `skip` elements belong to the needle found last. -/
def read (rules : List (Rule α)) : Option α → ℕ → List α → List (Piece α)
  | _, _, [] => []
  | _, skip + 1, a :: s => read rules (some a) skip s
  | before, 0, a :: s =>
    match rules.find? fun r => r.takes isWord before (a :: s) with
    | none => .raw a :: read rules (some a) 0 s
    | some r => .found r :: read rules (some a) (r.needle.length - 1) s

/-- A piece, restored when its rule is done. -/
def Piece.text (done : List (Rule α)) : Piece α → List α
  | .raw a => [a]
  | .found r => if r ∈ done then r.replacement else r.needle

/-- The sequence of the pieces, with those of the rules that are done restored. -/
def restore (done : List (Rule α)) (ps : List (Piece α)) : List α := ps.flatMap (Piece.text done)

/-- In the sequence of the pieces after the element `before` the rule applies to its own pieces, as
long as they are not restored, and nowhere inside another piece. -/
def FindsOwn (done : List (Rule α)) (r : Rule α) : Option α → List (Piece α) → Prop
  | _, [] => True
  | before, p :: ps =>
    (if p = .found r ∧ r ∉ done then r.takes isWord before (p.text done ++ restore done ps) = true
      else ∀ j < (p.text done).length, r.takes isWord (((p.text done).take j).getLast?.or before)
        ((p.text done).drop j ++ restore done ps) = false) ∧
      FindsOwn done r ((p.text done).getLast?.or before) ps

instance decidableFindsOwn (done : List (Rule α)) (r : Rule α) :
    (before : Option α) → (ps : List (Piece α)) → Decidable (FindsOwn isWord done r before ps)
  | _, [] => inferInstanceAs (Decidable True)
  | before, p :: ps =>
    have := decidableFindsOwn done r ((p.text done).getLast?.or before) ps
    inferInstanceAs (Decidable (_ ∧ _))

variable {isWord} {rules done : List (Rule α)} {r : Rule α} {s t : List α} {before : Option α}
  {ps : List (Piece α)}

/-! ### The pieces make up the sequence -/

private theorem restore_read_skip (hrules : ∀ r ∈ rules, r.needle ≠ []) (skip : ℕ)
    (hskip : skip ≤ s.length) : restore [] (read isWord rules before skip s) = s.drop skip := by
  induction s generalizing before skip with
  | nil => rw [read, List.drop_nil]; rfl
  | cons a s ih =>
    cases skip with
    | succ skip =>
      rw [read, List.drop_succ_cons]
      exact ih skip (Nat.le_of_succ_le_succ hskip)
    | zero =>
      rw [read, List.drop_zero]
      cases hfind : rules.find? fun r => r.takes isWord before (a :: s) with
      | none =>
        show [a] ++ restore [] _ = _
        rw [ih 0 (Nat.zero_le _), List.drop_zero, List.singleton_append]
      | some r =>
        have hneedle := hrules r (List.mem_of_find?_eq_some hfind)
        have htakes :=
          List.find?_some (p := fun r : Rule α => r.takes isWord before (a :: s)) hfind
        obtain ⟨b, n, hn⟩ := List.exists_cons_of_ne_nil hneedle
        obtain ⟨t, ht⟩ := (WordBounded.takes_iff.1 htakes).1
        rw [hn, List.cons_append, List.cons.injEq] at ht
        obtain ⟨rfl, rfl⟩ := ht
        show (if r ∈ [] then r.replacement else r.needle) ++ restore [] _ = _
        rw [if_neg List.not_mem_nil, hn, List.length_cons, Nat.add_sub_cancel,
          ih n.length (by rw [List.length_append]; omega), List.drop_left, List.cons_append]

/-- **The pieces of a reading make up the sequence.** -/
theorem restore_read (hrules : ∀ r ∈ rules, r.needle ≠ []) (s : List α) :
    restore [] (read isWord rules none 0 s) = s :=
  (restore_read_skip hrules 0 (Nat.zero_le _)).trans s.drop_zero

/-! ### Passes -/

/-- A piece inside which the rule applies nowhere is copied. -/
private theorem scan_copy (h : ∀ j < t.length,
      r.takes isWord ((t.take j).getLast?.or before) (t.drop j ++ s) = false) :
    WordBounded.scan (r.shuns isWord) r.needle r.replacement before 0 (t ++ s) =
      t ++ WordBounded.scan (r.shuns isWord) r.needle r.replacement (t.getLast?.or before) 0 s := by
  induction t generalizing before with
  | nil => rfl
  | cons a t ih =>
    have hno : ¬WordBounded.takes (r.shuns isWord) r.needle before (a :: (t ++ s)) = true :=
      Bool.eq_false_iff.1 (h 0 (Nat.succ_pos _))
    have hrest : WordBounded.scan (r.shuns isWord) r.needle r.replacement (some a) 0 (t ++ s) =
        t ++ WordBounded.scan (r.shuns isWord) r.needle r.replacement
          (t.getLast?.or (some a)) 0 s := by
      refine ih fun j hj => ?_
      have := h (j + 1) (by simpa using hj)
      rwa [List.take_succ_cons, WordBounded.getLast?_cons_or, List.drop_succ_cons] at this
    rw [List.cons_append, WordBounded.scan, if_neg hno, hrest, WordBounded.getLast?_cons_or,
      List.cons_append]

private theorem scan_restore (hneedle : r.needle ≠ []) (h : FindsOwn isWord done r before ps) :
    WordBounded.scan (r.shuns isWord) r.needle r.replacement before 0 (restore done ps) =
      restore (done ++ [r]) ps := by
  induction ps generalizing before with
  | nil => rfl
  | cons p ps ih =>
    obtain ⟨hp, hps⟩ := h
    have hrest := ih hps
    show WordBounded.scan _ _ _ _ _ (p.text done ++ restore done ps) =
      p.text (done ++ [r]) ++ restore (done ++ [r]) ps
    by_cases hfound : p = .found r ∧ r ∉ done
    · rw [if_pos hfound] at hp
      obtain ⟨rfl, hdone⟩ := hfound
      have htext : (Piece.found r).text done = r.needle := if_neg hdone
      have htext' : (Piece.found r).text (done ++ [r]) = r.replacement := if_pos (by simp)
      rw [htext] at hp hrest ⊢
      rw [htext', WordBounded.scan_needle hneedle hp, ← hrest,
        Option.or_of_isSome (by simpa using hneedle)]
    · rw [if_neg hfound] at hp
      have htext : p.text (done ++ [r]) = p.text done := by
        cases p with
        | raw a => rfl
        | found r' =>
          have hmem : r' ∈ done ++ [r] ↔ r' ∈ done := by
            rw [List.mem_append, List.mem_singleton, or_iff_left_iff_imp]
            rintro rfl
            exact not_not.1 fun hdone => hfound ⟨rfl, hdone⟩
          simp only [Piece.text, hmem]
      rw [scan_copy hp, hrest, htext]

/-- **The pass of a rule that finds exactly its own pieces restores them.** -/
theorem pass_restore (hneedle : r.needle ≠ []) (h : FindsOwn isWord done r none ps) :
    r.pass isWord (restore done ps) = restore (done ++ [r]) ps :=
  scan_restore hneedle h

/-- **Passes that all find their own pieces restore them together.** -/
theorem run_restore (done : List (Rule α)) (hrules : ∀ r ∈ rules, r.needle ≠ [])
    (h : ∀ before r after, rules = before ++ r :: after →
      FindsOwn isWord (done ++ before) r none ps) :
    run isWord rules (restore done ps) = restore (done ++ rules) ps := by
  induction rules generalizing done with
  | nil => rw [List.append_nil]; rfl
  | cons r rules ih =>
    have hfirst := h [] r rules rfl
    rw [List.append_nil] at hfirst
    show run isWord rules (r.pass isWord (restore done ps)) = _
    rw [pass_restore (hrules r List.mem_cons_self) hfirst, List.append_cons done r rules]
    refine ih _ (fun r hr => hrules r (.tail _ hr)) ?_
    rintro before r' after rfl
    have := h (r :: before) r' after rfl
    rwa [List.append_cons] at this

end Passes
