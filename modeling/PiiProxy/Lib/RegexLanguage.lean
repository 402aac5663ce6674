import PiiProxy.Lib.Regex

/-!
# The language of a regular expression

What an expression without groups, back references and look-around matches, as a set of sequences,
and how matching by backtracking relates to it. A scan takes the leftmost match and goes on behind
it, so it need not report a sequence of the language. But where a match could start, the scan
reports some match that starts there or that has begun before and covers the place.

## Main definitions

* `Regex.Lang`, `Regex.isPlain`: the language, and the expressions that are described by it.
* `Regex.Over`, `Regex.CountsTo`, `Regex.EndsIn`: what all sequences of a language have in common.
* `Regex.Single`, `Regex.LongestFirst`: at most one way to match, and the longest match preferred.
* `Regex.cursorAt`: the cursor at a position of a sequence.
* `Regex.Prefers`: what an expression prefers to consume.

## Main results

* `Regex.mem_run_iff`: what matching a plain expression may consume.
* `Regex.mem_lang_iff`: matching decides the language.
* `Regex.run_moves`: a match of any expression consumes what comes next.
* `Regex.exists_covering`: the scan covers every place where a match could start.
* `Regex.head_run_of_mem_finditer`: a reported match is the preferred one at its start.
* `Regex.search_iff`: where a plain expression has a match.
* `Regex.capture_of_mem_run`: what a group captures.
* `Regex.map_rest_run`: what a plain expression consumes depends on what comes next alone.
-/

namespace Regex

variable {α : Type*}

/-! ### Languages -/

/-- The sequences that the expression matches. -/
def Lang : Regex α → Set (List α)
  | .eps => {[]}
  | .chr p => {t | ∃ a, p a = true ∧ t = [a]}
  | .seq r₁ r₂ => {t | ∃ t₁ ∈ Lang r₁, ∃ t₂ ∈ Lang r₂, t = t₁ ++ t₂}
  | .alt r₁ r₂ => Lang r₁ ∪ Lang r₂
  | .rep r min max => {t | ∃ ts : List (List α), (∀ t' ∈ ts, t' ∈ Lang r) ∧ min ≤ ts.length ∧
      (∀ n, max = some n → ts.length ≤ n) ∧ t = ts.flatten}
  | .group _ r => Lang r
  | .backref _ | .notBehind _ | .notAhead _ => ∅

/-- There are no groups, back references and look-around, and what is repeated consumes
something. -/
def isPlain : Regex α → Bool
  | .eps | .chr _ => true
  | .seq r₁ r₂ | .alt r₁ r₂ => isPlain r₁ && isPlain r₂
  | .rep r _ _ => isPlain r && decide (0 < r.minLen)
  | .group _ _ | .backref _ | .notBehind _ | .notAhead _ => false

theorem mem_lang_literal [BEq α] [LawfulBEq α] {s t : List α} (ht : t ∈ Lang (literal s)) :
    t = s := by
  induction s generalizing t with
  | nil => exact ht
  | cons a s ih =>
    obtain ⟨_, ⟨b, hb, rfl⟩, t', ht', rfl⟩ := ht
    rw [ih ht', beq_iff_eq.1 hb, List.singleton_append]

/-- Repeating a character class gives the sequences over it. -/
theorem mem_lang_plus_chr {p : α → Bool} {t : List α} :
    t ∈ Lang (plus (.chr p)) ↔ t ≠ [] ∧ ∀ a ∈ t, p a = true := by
  constructor
  · rintro ⟨ts, hts, hmin, -, rfl⟩
    refine ⟨fun hnil => ?_, fun a ha => ?_⟩
    · obtain ⟨t, ht⟩ := List.exists_mem_of_length_pos hmin
      obtain ⟨a, -, rfl⟩ := hts t ht
      exact absurd (List.flatten_eq_nil_iff.1 hnil _ ht) (List.cons_ne_nil a [])
    · obtain ⟨t, ht, hat⟩ := List.mem_flatten.1 ha
      obtain ⟨b, hb, rfl⟩ := hts t ht
      rw [List.mem_singleton.1 hat]
      exact hb
  · rintro ⟨hne, ht⟩
    refine ⟨t.map ([·]), fun t' ht' => ?_, ?_, fun n hn => ?_, ?_⟩
    · obtain ⟨a, ha, rfl⟩ := List.mem_map.1 ht'
      exact ⟨a, ht a ha, rfl⟩
    · rw [List.length_map]
      exact List.length_pos_of_ne_nil hne
    · cases hn
    · simp [List.flatten_eq_flatMap, List.flatMap_map]

theorem minLen_le_of_mem_lang : {r : Regex α} → {t : List α} → t ∈ Lang r → r.minLen ≤ t.length
  | .eps, _, ht => by
      rw [Set.mem_singleton_iff.1 ht]
      exact le_rfl
  | .chr _, _, ⟨_, _, ht⟩ => by
      rw [ht]
      exact le_rfl
  | .seq r₁ r₂, _, ⟨t₁, h₁, t₂, h₂, ht⟩ => by
      rw [ht, List.length_append, minLen]
      exact Nat.add_le_add (minLen_le_of_mem_lang h₁) (minLen_le_of_mem_lang h₂)
  | .alt r₁ r₂, _, ht => by
      rw [minLen]
      rcases ht with ht | ht
      · exact (min_le_left _ _).trans (minLen_le_of_mem_lang ht)
      · exact (min_le_right _ _).trans (minLen_le_of_mem_lang ht)
  | .rep r min _, _, ⟨ts, hts, hmin, _, ht⟩ => by
      have hsum : ts.length * r.minLen ≤ ts.flatten.length := by
        rw [List.length_flatten, ← smul_eq_mul, ← List.length_map (f := List.length)]
        refine List.card_nsmul_le_sum _ _ fun n hn => ?_
        obtain ⟨t', ht', rfl⟩ := List.mem_map.1 hn
        exact minLen_le_of_mem_lang (hts t' ht')
      rw [ht, minLen]
      exact (Nat.mul_le_mul_right _ hmin).trans hsum
  | .group _ r, _, ht => minLen_le_of_mem_lang (r := r) ht

/-! ### What the sequences of a language have in common -/

/-- Every class of the expression is in the class of `P`. -/
def Over (P : α → Prop) : Regex α → Prop
  | .chr p => ∀ a, p a = true → P a
  | .seq r₁ r₂ | .alt r₁ r₂ => Over P r₁ ∧ Over P r₂
  | .rep r _ _ | .group _ r => Over P r
  | .eps | .backref _ | .notBehind _ | .notAhead _ => True

theorem over_concat {P : α → Prop} {rs : List (Regex α)} (h : ∀ r ∈ rs, Over P r) :
    Over P (concat rs) := by
  induction rs with
  | nil => exact trivial
  | cons r rs ih =>
    obtain ⟨hr, hrs⟩ := List.forall_mem_cons.1 h
    exact ⟨hr, ih hrs⟩

theorem over_literal [BEq α] [LawfulBEq α] {P : α → Prop} {s : List α} (h : ∀ a ∈ s, P a) :
    Over P (literal s) := by
  refine over_concat fun r hr => ?_
  obtain ⟨a, ha, rfl⟩ := List.mem_map.1 hr
  exact fun b hb => eq_of_beq hb ▸ h a ha

theorem forall_of_mem_lang {P : α → Prop} : {r : Regex α} → Over P r → {t : List α} → t ∈ Lang r →
    ∀ a ∈ t, P a
  | .eps, _, t, ht, a, ha => by
      rw [Set.mem_singleton_iff.1 ht] at ha
      cases ha
  | .chr p, hover, t, ⟨b, hb, ht⟩, a, ha => by
      rw [ht, List.mem_singleton] at ha
      exact hover a (ha ▸ hb)
  | .seq r₁ r₂, hover, t, ⟨t₁, h₁, t₂, h₂, ht⟩, a, ha => by
      rw [ht, List.mem_append] at ha
      exact ha.elim (forall_of_mem_lang hover.1 h₁ a) (forall_of_mem_lang hover.2 h₂ a)
  | .alt r₁ r₂, hover, t, ht, a, ha =>
      ht.elim (fun h => forall_of_mem_lang hover.1 h a ha) fun h =>
        forall_of_mem_lang hover.2 h a ha
  | .rep r min max, hover, t, ⟨ts, hts, _, _, ht⟩, a, ha => by
      rw [ht] at ha
      obtain ⟨t', ht', ha⟩ := List.mem_flatten.1 ha
      exact forall_of_mem_lang (r := r) hover (hts t' ht') a ha
  | .group _ r, hover, t, ht, a, ha => forall_of_mem_lang (r := r) hover ht a ha

/-- Every sequence of the language has `n` elements of the class. -/
def CountsTo (p : α → Bool) (r : Regex α) (n : ℕ) : Prop := ∀ t ∈ Lang r, t.countP p = n

theorem countsTo_concat {p : α → Bool} {rs : List (Regex α)} {ns : List ℕ}
    (h : List.Forall₂ (CountsTo p) rs ns) : CountsTo p (concat rs) ns.sum := by
  induction h with
  | nil =>
    intro t ht
    rw [Set.mem_singleton_iff.1 ht]
    rfl
  | cons hr _ ih =>
    rintro t ⟨t₁, h₁, t₂, h₂, rfl⟩
    rw [List.countP_append, hr t₁ h₁, ih t₂ h₂, List.sum_cons]

theorem CountsTo.alt {p : α → Bool} {r₁ r₂ : Regex α} {n : ℕ} (h₁ : CountsTo p r₁ n)
    (h₂ : CountsTo p r₂ n) : CountsTo p (.alt r₁ r₂) n :=
  fun t ht => ht.elim (h₁ t) (h₂ t)

/-- A class within the class is counted. -/
theorem countsTo_chr {p q : α → Bool} (h : ∀ a, q a = true → p a = true) :
    CountsTo p (.chr q) 1 := by
  rintro t ⟨a, ha, rfl⟩
  rw [List.countP_singleton, h a ha]
  rfl

/-- A class apart from the class is not counted. -/
theorem countsTo_chr_zero {p q : α → Bool} (h : ∀ a, q a = true → p a = false) :
    CountsTo p (.chr q) 0 := by
  rintro t ⟨a, ha, rfl⟩
  rw [List.countP_singleton, h a ha]
  rfl

theorem countsTo_literal [BEq α] [LawfulBEq α] (p : α → Bool) (s : List α) :
    CountsTo p (literal s) (s.countP p) := by
  induction s with
  | nil =>
    intro t ht
    rw [Set.mem_singleton_iff.1 ht]
  | cons a s ih =>
    rintro t ⟨t₁, ⟨b, hb, rfl⟩, t₂, h₂, rfl⟩
    rw [eq_of_beq hb, List.singleton_append, List.countP_cons, List.countP_cons, ih t₂ h₂]

theorem CountsTo.rep {p : α → Bool} {r : Regex α} {n min : ℕ} {max : Option ℕ} (h : CountsTo p r n)
    (hcount : n = 0 ∨ max = some min) : CountsTo p (.rep r min max) (min * n) := by
  rintro t ⟨ts, hts, hmin, hmax, rfl⟩
  have hsum : ts.flatten.countP p = ts.length * n := by
    clear hmin hmax
    induction ts with
    | nil => rw [List.length_nil, Nat.zero_mul]; rfl
    | cons t ts ih =>
      obtain ⟨ht, hts⟩ := List.forall_mem_cons.1 hts
      rw [List.flatten_cons, List.countP_append, h t ht, ih hts, List.length_cons, Nat.succ_mul,
        Nat.add_comm]
  rw [hsum]
  rcases hcount with rfl | hmax'
  · rw [Nat.mul_zero, Nat.mul_zero]
  · rw [le_antisymm (hmax min hmax') hmin]

/-- Every sequence of the language ends with an element of the class. -/
def EndsIn (p : α → Bool) (r : Regex α) : Prop :=
  ∀ t ∈ Lang r, ∃ a, t.getLast? = some a ∧ p a = true

theorem endsIn_chr {p q : α → Bool} (h : ∀ a, q a = true → p a = true) : EndsIn p (.chr q) := by
  rintro t ⟨a, ha, rfl⟩
  exact ⟨a, rfl, h a ha⟩

theorem EndsIn.seq {p : α → Bool} {r₁ r₂ : Regex α} (h : EndsIn p r₂) : EndsIn p (.seq r₁ r₂) := by
  rintro t ⟨t₁, -, t₂, h₂, rfl⟩
  obtain ⟨a, ha, hp⟩ := h t₂ h₂
  exact ⟨a, by rw [List.getLast?_append, ha]; rfl, hp⟩

theorem EndsIn.rep {p : α → Bool} {r : Regex α} {min : ℕ} {max : Option ℕ} (h : EndsIn p r)
    (hmin : 0 < min) : EndsIn p (.rep r min max) := by
  rintro t ⟨ts, hts, hlen, -, rfl⟩
  have hne : ts ≠ [] := List.ne_nil_of_length_pos (hmin.trans_le hlen)
  obtain ⟨a, ha, hp⟩ := h _ (hts _ (List.getLast_mem hne))
  refine ⟨a, ?_, hp⟩
  conv_lhs => rw [← List.dropLast_append_getLast hne]
  rw [List.flatten_append, List.getLast?_append, List.flatten_singleton, ha]
  rfl

/-- An expression in front of others is not the end. -/
theorem endsIn_concat {p : α → Bool} {r : Regex α} (h : EndsIn p r) (rs : List (Regex α)) :
    EndsIn p (concat (rs ++ [r])) := by
  induction rs with
  | nil =>
    rintro t ⟨t₁, h₁, t₂, h₂, rfl⟩
    rw [Set.mem_singleton_iff.1 h₂, List.append_nil]
    exact h t₁ h₁
  | cons r' rs ih => exact ih.seq

/-- Of the prefixes of a sequence at most one ends with an element of the class and has a given
number of them. -/
theorem eq_of_prefix_of_countP {p : α → Bool} {t t' s : List α} (ht : t <+: s) (ht' : t' <+: s)
    (hcount : t.countP p = t'.countP p) (hend : ∃ a, t.getLast? = some a ∧ p a = true)
    (hend' : ∃ a, t'.getLast? = some a ∧ p a = true) : t = t' := by
  have key {t u : List α} (hcount : t.countP p = (t ++ u).countP p)
      (hend : ∃ a, (t ++ u).getLast? = some a ∧ p a = true) : u = [] := by
    by_contra hne
    obtain ⟨a, ha, hp⟩ := hend
    rw [List.getLast?_append_of_ne_nil _ hne] at ha
    have hpos : 0 < u.countP p := List.countP_pos_iff.2 ⟨a, List.mem_of_getLast? ha, hp⟩
    rw [List.countP_append] at hcount
    omega
  rcases List.prefix_or_prefix_of_prefix ht ht' with ⟨u, rfl⟩ | ⟨u, rfl⟩
  · rw [key hcount hend', List.append_nil]
  · rw [key hcount.symm hend, List.append_nil]

/-- Behind elements of one class the first other element is of the second class, when a stretch of
the two classes that is not all of the first comes next. -/
theorem any_head_dropWhile {p q : α → Bool} {t : List α} (rest : List α)
    (hover : ∀ a ∈ t, p a = true ∨ q a = true) (hother : ∃ a ∈ t, p a = false) :
    ((t ++ rest).dropWhile p).head?.any q = true := by
  induction t with
  | nil =>
    obtain ⟨a, ha, -⟩ := hother
    cases ha
  | cons a t ih =>
    obtain ⟨ha, ht⟩ := List.forall_mem_cons.1 hover
    rw [List.cons_append, List.dropWhile_cons]
    split_ifs with hp
    · refine ih ht ?_
      obtain ⟨b, hb, hpb⟩ := hother
      rcases List.mem_cons.1 hb with rfl | hb
      · rw [hp] at hpb
        cases hpb
      · exact ⟨b, hb, hpb⟩
    · exact ha.resolve_left hp

/-! ### What matching consumes -/

/-- From `c` to `c'` the sequence `t` is consumed. -/
def Moves (t : List α) (c c' : Cursor α) : Prop :=
  c.rest = t ++ c'.rest ∧ c'.pos = c.pos + t.length ∧ c'.prev = t.getLast?.or c.prev

theorem Moves.refl (c : Cursor α) : Moves [] c c := ⟨rfl, rfl, rfl⟩

theorem Moves.trans {t t' : List α} {c₁ c₂ c₃ : Cursor α} (h : Moves t c₁ c₂)
    (h' : Moves t' c₂ c₃) :
    Moves (t ++ t') c₁ c₃ := by
  obtain ⟨hrest, hpos, hprev⟩ := h
  obtain ⟨hrest', hpos', hprev'⟩ := h'
  refine ⟨by rw [hrest, hrest', List.append_assoc], ?_, ?_⟩
  · rw [hpos', hpos, List.length_append, Nat.add_assoc]
  · rw [hprev', hprev, List.getLast?_append, Option.or_assoc]

private theorem iterate_moves {step : Cursor α → List (Cursor α)} {n : ℕ}
    (hstep : ∀ c c', c' ∈ step c → ∃ t, Moves t c c' ∧ n ≤ t.length) : (min max : ℕ) →
      (c c' : Cursor α) → c' ∈ iterate step min max c → ∃ t, Moves t c c' ∧ min * n ≤ t.length
  | min, 0, c, c', h => by
      rw [iterate] at h
      split_ifs at h with hmin
      · rw [List.mem_singleton.1 h, hmin]
        exact ⟨[], .refl c, by omega⟩
      · cases h
  | min, max + 1, c, c', h => by
      rw [iterate, List.mem_append] at h
      rcases h with h | h
      · obtain ⟨c₁, hc₁, h⟩ := List.mem_flatMap.1 h
        split_ifs at h
        · cases h
        · obtain ⟨t, ht, hn⟩ := hstep c c₁ hc₁
          obtain ⟨t', ht', hn'⟩ := iterate_moves hstep (min - 1) max c₁ c' h
          refine ⟨_, ht.trans ht', ?_⟩
          rw [List.length_append]
          cases min with
          | zero => omega
          | succ k =>
            rw [Nat.add_sub_cancel] at hn'
            rw [Nat.succ_mul]
            omega
      · split_ifs at h with hmin
        · rw [List.mem_singleton.1 h, hmin]
          exact ⟨[], .refl c, by omega⟩
        · cases h

variable [BEq α]

/-- **A match of an expression consumes what comes next**, at least the least length. -/
theorem run_moves [LawfulBEq α] : (r : Regex α) → (c c' : Cursor α) → c' ∈ run r c →
    ∃ t, Moves t c c' ∧ r.minLen ≤ t.length
  | .eps, c, c', h => by
      rw [List.mem_singleton.1 h]
      exact ⟨[], .refl c, le_rfl⟩
  | .chr p, c, c', h => by
      rw [run] at h
      split at h
      · cases h
      · rename_i a rest hrest
        split_ifs at h
        · rw [List.mem_singleton.1 h]
          exact ⟨[a], ⟨hrest, rfl, rfl⟩, le_rfl⟩
        · cases h
  | .seq r₁ r₂, c, c', h => by
      obtain ⟨c₁, h₁, h₂⟩ := List.mem_flatMap.1 h
      obtain ⟨t₁, ht₁, hn₁⟩ := run_moves r₁ c c₁ h₁
      obtain ⟨t₂, ht₂, hn₂⟩ := run_moves r₂ c₁ c' h₂
      refine ⟨_, ht₁.trans ht₂, ?_⟩
      rw [List.length_append, minLen]
      exact Nat.add_le_add hn₁ hn₂
  | .alt r₁ r₂, c, c', h => by
      rw [minLen]
      rcases List.mem_append.1 h with h | h
      · obtain ⟨t, ht, hn⟩ := run_moves r₁ c c' h
        exact ⟨t, ht, (min_le_left _ _).trans hn⟩
      · obtain ⟨t, ht, hn⟩ := run_moves r₂ c c' h
        exact ⟨t, ht, (min_le_right _ _).trans hn⟩
  | .rep r min max, c, c', h => iterate_moves (run_moves r) min _ c c' h
  | .group n r, c, c', h => by
      obtain ⟨c₁, h₁, rfl⟩ := List.mem_map.1 h
      exact run_moves r c c₁ h₁
  | .backref n, c, c', h => by
      rw [run] at h
      split at h
      · cases h
      · rename_i t hlookup
        split_ifs at h with hprefix
        · rw [List.mem_singleton.1 h]
          obtain ⟨rest, hrest⟩ := List.isPrefixOf_iff_prefix.1 hprefix
          refine ⟨t, ⟨?_, rfl, rfl⟩, Nat.zero_le _⟩
          rw [← hrest, List.drop_left]
        · cases h
  | .notBehind p, c, c', h => by
      rw [run] at h
      split_ifs at h
      · cases h
      · rw [List.mem_singleton.1 h]
        exact ⟨[], .refl c, le_rfl⟩
  | .notAhead p, c, c', h => by
      rw [run] at h
      split_ifs at h
      · cases h
      · rw [List.mem_singleton.1 h]
        exact ⟨[], .refl c, le_rfl⟩

/-! ### Plain expressions -/

omit [BEq α] in
private theorem iterate_sound {step : Cursor α → List (Cursor α)} {L : Set (List α)}
    (hstep : ∀ c c', c' ∈ step c → ∃ t ∈ L, Moves t c c' ∧ c'.groups = c.groups) :
    (min max : ℕ) → (c c' : Cursor α) → c' ∈ iterate step min max c →
      ∃ ts : List (List α), (∀ t ∈ ts, t ∈ L) ∧ min ≤ ts.length ∧ ts.length ≤ max ∧
        Moves ts.flatten c c' ∧ c'.groups = c.groups
  | min, 0, c, c', h => by
      rw [iterate] at h
      split_ifs at h with hmin
      · rw [List.mem_singleton.1 h]
        exact ⟨[], by simp, by omega, le_rfl, .refl c, rfl⟩
      · cases h
  | min, max + 1, c, c', h => by
      rw [iterate, List.mem_append] at h
      rcases h with h | h
      · obtain ⟨c₁, hc₁, h⟩ := List.mem_flatMap.1 h
        split_ifs at h
        · cases h
        · obtain ⟨t, ht, hmoves, hgroups⟩ := hstep c c₁ hc₁
          obtain ⟨ts, hts, hmin, hmax, hmoves', hgroups'⟩ :=
            iterate_sound hstep (min - 1) max c₁ c' h
          refine ⟨t :: ts, List.forall_mem_cons.2 ⟨ht, hts⟩, ?_, ?_, hmoves.trans hmoves',
            hgroups'.trans hgroups⟩
          · rw [List.length_cons]
            omega
          · rw [List.length_cons]
            omega
      · split_ifs at h with hmin
        · rw [List.mem_singleton.1 h]
          exact ⟨[], by simp, by omega, Nat.zero_le _, .refl c, rfl⟩
        · cases h

/-- Matching a plain expression consumes a sequence of its language. -/
private theorem run_sound : (r : Regex α) → r.isPlain = true → (c c' : Cursor α) → c' ∈ run r c →
    ∃ t ∈ Lang r, Moves t c c' ∧ c'.groups = c.groups
  | .eps, _, c, c', h => by
      rw [List.mem_singleton.1 h]
      exact ⟨[], rfl, .refl c, rfl⟩
  | .chr p, _, c, c', h => by
      rw [run] at h
      split at h
      · cases h
      · rename_i a rest hrest
        split_ifs at h with ha
        · rw [List.mem_singleton.1 h]
          exact ⟨[a], ⟨a, ha, rfl⟩, ⟨hrest, rfl, rfl⟩, rfl⟩
        · cases h
  | .seq r₁ r₂, hplain, c, c', h => by
      rw [isPlain, Bool.and_eq_true] at hplain
      obtain ⟨c₁, h₁, h₂⟩ := List.mem_flatMap.1 h
      obtain ⟨t₁, ht₁, hmoves₁, hgroups₁⟩ := run_sound r₁ hplain.1 c c₁ h₁
      obtain ⟨t₂, ht₂, hmoves₂, hgroups₂⟩ := run_sound r₂ hplain.2 c₁ c' h₂
      exact ⟨_, ⟨t₁, ht₁, t₂, ht₂, rfl⟩, hmoves₁.trans hmoves₂, hgroups₂.trans hgroups₁⟩
  | .alt r₁ r₂, hplain, c, c', h => by
      rw [isPlain, Bool.and_eq_true] at hplain
      rcases List.mem_append.1 h with h | h
      · obtain ⟨t, ht, hmoves⟩ := run_sound r₁ hplain.1 c c' h
        exact ⟨t, .inl ht, hmoves⟩
      · obtain ⟨t, ht, hmoves⟩ := run_sound r₂ hplain.2 c c' h
        exact ⟨t, .inr ht, hmoves⟩
  | .rep r min max, hplain, c, c', h => by
      rw [isPlain, Bool.and_eq_true] at hplain
      obtain ⟨ts, hts, hmin, hmax, hmoves⟩ :=
        iterate_sound (run_sound r hplain.1) min _ c c' h
      refine ⟨ts.flatten, ⟨ts, hts, hmin, fun n hn => ?_, rfl⟩, hmoves⟩
      rwa [hn] at hmax

/-- Sequences that a step accepts, one after the other, match its repetition. -/
private theorem mem_iterate {r : Regex α} (hr : ∀ t ∈ Lang r, Accepts r t ∧ 0 < t.length) :
    (ts : List (List α)) → (rest : List α) → (min max : ℕ) → (c : Cursor α) →
      c.rest = ts.flatten ++ rest → (∀ t ∈ ts, t ∈ Lang r) → min ≤ ts.length → ts.length ≤ max →
        ⟨c.pos + ts.flatten.length, ts.flatten.getLast?.or c.prev, rest, c.groups⟩ ∈
          iterate (run r) min max c
  | [], rest, min, max, ⟨pos, prev, _, groups⟩, hrest, _, hmin, _ => by
      obtain rfl : min = 0 := Nat.le_zero.mp hmin
      simp only [List.flatten_nil, List.nil_append] at hrest
      subst hrest
      cases max with
      | zero => simp [iterate]
      | succ max => simp [iterate]
  | t :: ts, rest, min, max + 1, c, hrest, hts, hmin, hmax => by
      obtain ⟨ht, hts⟩ := List.forall_mem_cons.1 hts
      obtain ⟨haccepts, hpos⟩ := hr t ht
      rw [List.flatten_cons, List.append_assoc] at hrest
      have hfirst := haccepts c (ts.flatten ++ rest) hrest
      have ih := mem_iterate hr ts rest (min - 1) max
        ⟨c.pos + t.length, t.getLast?.or c.prev, ts.flatten ++ rest, c.groups⟩ rfl hts
        (by rw [List.length_cons] at hmin; omega) (by rw [List.length_cons] at hmax; omega)
      rw [iterate, List.mem_append]
      refine .inl (List.mem_flatMap.2 ⟨_, hfirst, ?_⟩)
      rw [if_neg (Nat.not_le.2 (Nat.lt_add_of_pos_right hpos)), List.flatten_cons,
        List.length_append, List.getLast?_append,
        Option.or_assoc, ← Nat.add_assoc]
      exact ih

/-- A plain expression accepts its language. -/
theorem accepts_of_mem_lang : {r : Regex α} → r.isPlain = true → {t : List α} → t ∈ Lang r →
    Accepts r t
  | .eps, _, t, ht => by
      rw [Set.mem_singleton_iff.1 ht]
      exact accepts_eps
  | .chr p, _, t, ⟨a, ha, ht⟩ => by
      rw [ht]
      exact accepts_chr ha
  | .seq r₁ r₂, hplain, t, ⟨t₁, h₁, t₂, h₂, ht⟩ => by
      rw [isPlain, Bool.and_eq_true] at hplain
      rw [ht]
      exact (accepts_of_mem_lang hplain.1 h₁).seq (accepts_of_mem_lang hplain.2 h₂)
  | .alt r₁ r₂, hplain, t, ht => by
      rw [isPlain, Bool.and_eq_true] at hplain
      intro c rest hrest
      rcases ht with ht | ht
      · exact List.mem_append_left _ (accepts_of_mem_lang hplain.1 ht c rest hrest)
      · exact List.mem_append_right _ (accepts_of_mem_lang hplain.2 ht c rest hrest)
  | .rep r min max, hplain, t, ⟨ts, hts, hmin, hmax, ht⟩ => by
      rw [isPlain, Bool.and_eq_true, decide_eq_true_eq] at hplain
      have hr : ∀ t ∈ Lang r, Accepts r t ∧ 0 < t.length := fun t ht =>
        ⟨accepts_of_mem_lang hplain.1 ht, hplain.2.trans_le (minLen_le_of_mem_lang ht)⟩
      intro c rest hrest
      rw [ht] at hrest ⊢
      refine mem_iterate hr ts rest min _ c hrest hts hmin ?_
      cases hm : max with
      | some n => exact hmax n hm
      | none =>
        -- every piece consumes something, so there are at most as many as elements
        have hlength : ts.length ≤ ts.flatten.length := by
          rw [List.length_flatten, ← Nat.mul_one ts.length, ← smul_eq_mul,
            ← List.length_map (f := List.length)]
          refine List.card_nsmul_le_sum _ _ fun n hn => ?_
          obtain ⟨t', ht', rfl⟩ := List.mem_map.1 hn
          exact (hr t' (hts t' ht')).2
        rw [Option.getD_none, hrest, List.length_append]
        omega

/-- **What matching a plain expression may consume**: the sequences of its language that come
next. -/
theorem mem_run_iff {r : Regex α} (hplain : r.isPlain = true) {c c' : Cursor α} :
    c' ∈ run r c ↔ ∃ t ∈ Lang r, Moves t c c' ∧ c'.groups = c.groups := by
  refine ⟨run_sound r hplain c c', ?_⟩
  rintro ⟨t, ht, ⟨hrest, hpos, hprev⟩, hgroups⟩
  have hmem := accepts_of_mem_lang hplain ht c c'.rest hrest
  rw [← hpos, ← hprev, ← hgroups] at hmem
  exact hmem

/-- The cursor at the start of a sequence. -/
def start (s : List α) : Cursor α := ⟨0, none, s, []⟩

/-- A sequence is in the language of a plain expression when a match from its start consumes it. -/
theorem mem_lang_iff {r : Regex α} (hplain : r.isPlain = true) (t : List α) :
    t ∈ Lang r ↔ ((run r (start t)).any fun c => c.rest.isEmpty) = true := by
  rw [List.any_eq_true]
  constructor
  · intro ht
    exact ⟨_, accepts_of_mem_lang hplain ht (start t) [] (List.append_nil t).symm, rfl⟩
  · rintro ⟨c, hc, hrest⟩
    obtain ⟨t', ht', hmoves, -⟩ := (mem_run_iff hplain).1 hc
    have heq : t = t' := by
      rw [← List.append_nil t', ← List.isEmpty_iff.1 hrest]
      exact hmoves.1
    exact heq ▸ ht'

/-! ### The longest match first -/

/-- There is at most one way to match. -/
def Single (r : Regex α) : Prop := ∀ c, (run r c).length ≤ 1

/-- Of the ways to match a longer one comes first. -/
def LongestFirst (r : Regex α) : Prop := ∀ c, (run r c).Pairwise fun c₁ c₂ => c₂.pos < c₁.pos

theorem single_chr (p : α → Bool) : Single (.chr p) := by
  intro c
  rw [run]
  split
  · exact Nat.zero_le _
  · split_ifs
    · exact le_rfl
    · exact Nat.zero_le _

theorem single_test {r : Regex α} (hr : isTest r = true) : Single r :=
  fun c => (run_test_sublist hr c).length_le

/-- An optional element, and then an element that it cannot be. -/
theorem single_opt_chr {p q : α → Bool} (hpq : ∀ a, p a = true → q a = false) :
    Single (concat [opt (.chr p), .chr q]) := by
  intro c
  have hq (c : Cursor α) : (run (concat [.chr q]) c).length ≤ 1 := by
    rw [concat, List.foldr_cons, List.foldr_nil, run]
    simp only [run, List.flatMap_singleton']
    exact single_chr q c
  change ((iterate (run (.chr p)) 0 1 c).flatMap (run (concat [.chr q]))).length ≤ 1
  simp only [iterate, run, if_true]
  cases hrest : c.rest with
  | nil => simpa using hq c
  | cons a rest =>
    dsimp only
    split_ifs with hp
    · -- the element behind the optional one cannot be this one
      have hnone : run (concat [.chr q]) c = [] := by
        rw [concat, List.foldr_cons, run]
        simp only [run, hrest, hpq a hp]
        rfl
      simpa [hnone] using hq _
    · simpa using hq c

omit [BEq α] in
private theorem eq_nil_or_singleton {l : List α} (h : l.length ≤ 1) : l = [] ∨ ∃ x, l = [x] := by
  rcases Nat.le_one_iff_eq_zero_or_eq_one.1 h with h | h
  · exact .inl (List.length_eq_zero_iff.1 h)
  · exact .inr (List.length_eq_one_iff.1 h)

omit [BEq α] in
/-- Of the runs of a step that goes on in one way the longer ones come first. -/
private theorem pairwise_iterate {step : Cursor α → List (Cursor α)}
    (hstep : ∀ c, (step c).length ≤ 1) : (min max : ℕ) → (c : Cursor α) →
      ((iterate step min max c).Pairwise fun c₁ c₂ => c₂.pos < c₁.pos) ∧
        ∀ c' ∈ iterate step min max c, c.pos ≤ c'.pos
  | min, 0, c => by
      rw [iterate]
      split_ifs
      · exact ⟨List.pairwise_singleton _ _, fun c' hc' => (List.mem_singleton.1 hc') ▸ le_rfl⟩
      · exact ⟨List.Pairwise.nil, fun c' hc' => absurd hc' List.not_mem_nil⟩
  | min, max + 1, c => by
      have hlast : ∀ c' ∈ (if min = 0 then [c] else []), c' = c := fun c' hc' => by
        split_ifs at hc'
        · exact List.mem_singleton.1 hc'
        · cases hc'
      have hsingle : (if min = 0 then [c] else []).Pairwise fun c₁ c₂ => c₂.pos < c₁.pos := by
        split_ifs
        · exact List.pairwise_singleton _ _
        · exact List.Pairwise.nil
      rw [iterate]
      rcases eq_nil_or_singleton (hstep c) with hnil | ⟨c₁, hone⟩
      · rw [hnil]
        exact ⟨hsingle, fun c' hc' => (hlast c' hc') ▸ le_rfl⟩
      · rw [hone, List.flatMap_singleton]
        by_cases hpos : c₁.pos ≤ c.pos
        · rw [if_pos hpos, List.nil_append]
          exact ⟨hsingle, fun c' hc' => (hlast c' hc') ▸ le_rfl⟩
        · rw [if_neg hpos]
          obtain ⟨hpairs, hle⟩ := pairwise_iterate hstep (min - 1) max c₁
          refine ⟨List.pairwise_append.2 ⟨hpairs, hsingle, fun a ha b hb => ?_⟩, fun c' hc' => ?_⟩
          · rw [hlast b hb]
            exact (Nat.lt_of_not_le hpos).trans_le (hle a ha)
          · rcases List.mem_append.1 hc' with hc' | hc'
            · exact (Nat.lt_of_not_le hpos).le.trans (hle c' hc')
            · rw [hlast c' hc']

theorem Single.rep {r : Regex α} (h : Single r) (min : ℕ) (max : Option ℕ) :
    LongestFirst (.rep r min max) :=
  fun c => (pairwise_iterate h min _ c).1

theorem Single.seq {r₁ r₂ : Regex α} (h₁ : Single r₁) (h₂ : LongestFirst r₂) :
    LongestFirst (.seq r₁ r₂) := by
  intro c
  rw [run]
  rcases eq_nil_or_singleton (h₁ c) with hnil | ⟨c₁, hone⟩
  · rw [hnil]
    exact List.Pairwise.nil
  · rw [hone, List.flatMap_singleton]
    exact h₂ c₁

/-- What only tests removes some of the ways to match. -/
theorem LongestFirst.seq {r₁ r₂ : Regex α} (h₁ : LongestFirst r₁)
    (h₂ : ∀ c, (run r₂ c).Sublist [c]) : LongestFirst (.seq r₁ r₂) := by
  intro c
  have hsublist (l : List (Cursor α)) : (l.flatMap (run r₂)).Sublist l := by
    induction l with
    | nil => exact .refl _
    | cons c l ih => exact (h₂ c).append ih
  exact (h₁ c).sublist (hsublist _)

/-- The preferred match is the longest one. -/
theorem LongestFirst.pos_le {r : Regex α} (h : LongestFirst r) {c c₁ c₂ : Cursor α}
    (hhead : (run r c).head? = some c₁) (hmem : c₂ ∈ run r c) : c₂.pos ≤ c₁.pos := by
  obtain ⟨l, hl⟩ := List.head?_eq_some_iff.1 hhead
  have hpairs := h c
  rw [hl] at hpairs hmem
  rcases List.mem_cons.1 hmem with rfl | hmem
  · exact le_rfl
  · exact (List.rel_of_pairwise_cons hpairs hmem).le

/-! ### Scans -/

/-- The cursor behind `before` and in front of `after`. -/
def cursorAt (c : Cursor α) (before after : List α) : Cursor α :=
  ⟨c.pos + before.length, before.getLast?.or c.prev, after, []⟩

omit [BEq α] in
/-- A cursor that was moved along stands behind what it consumed. -/
theorem Moves.cursorAt_eq {t : List α} {c c' : Cursor α} (h : Moves t c c') :
    { c' with groups := [] } = cursorAt c t c'.rest := by
  obtain ⟨-, hpos, hprev⟩ := h
  rw [cursorAt, ← hpos, ← hprev]

omit [BEq α] in
theorem cursorAt_cursorAt (c : Cursor α) (before before' middle after : List α) :
    cursorAt (cursorAt c before middle) before' after = cursorAt c (before ++ before') after := by
  rw [cursorAt, cursorAt, cursorAt, List.length_append, List.getLast?_append, Option.or_assoc,
    Nat.add_assoc]

variable [LawfulBEq α]

/-- One step of a scan: the match that comes next and the scan behind it, or the scan behind the
next element. -/
theorem scan_cases (r : Regex α) (fuel : ℕ) (c : Cursor α) :
    (∃ c' t, (run r c).head? = some c' ∧ Moves t c c' ∧ r.minLen ≤ t.length ∧
      scan r (fuel + 1) c =
        ⟨c.pos, c'.pos, t, c'.groups⟩ :: scan r fuel (cursorAt c t c'.rest)) ∨
    (run r c = [] ∧ ∃ a rest, c.rest = a :: rest ∧
      scan r (fuel + 1) c = scan r fuel (cursorAt c [a] rest)) ∨
    (run r c = [] ∧ c.rest = [] ∧ scan r (fuel + 1) c = []) := by
  rw [scan]
  cases hhead : (run r c).head? with
  | some c' =>
    obtain ⟨t, ht, hlength⟩ := run_moves r c c' (List.mem_of_mem_head? hhead)
    have htext : c.rest.take (c'.pos - c.pos) = t := by
      rw [ht.1, ht.2.1, Nat.add_sub_cancel_left, List.take_left]
    refine .inl ⟨c', t, rfl, ht, hlength, ?_⟩
    dsimp only
    rw [htext, ht.cursorAt_eq]
  | none =>
    rw [List.head?_eq_none_iff] at hhead
    dsimp only
    cases hrest : c.rest with
    | nil => exact .inr (.inr ⟨hhead, rfl, rfl⟩)
    | cons a rest => exact .inr (.inl ⟨hhead, a, rest, rfl, rfl⟩)

/-- Where a match could start, the scan has one that starts there or covers the place. -/
private theorem scan_covers {r : Regex α} (hr : 0 < r.minLen)
    (fuel : ℕ) (c : Cursor α) (hfuel : c.rest.length < fuel) {before after : List α}
    (hrest : c.rest = before ++ after) (hgroups : c.groups = [])
    (hrun : run r (cursorAt c before after) ≠ []) :
    ∃ m ∈ scan r fuel c, m.start = c.pos + before.length ∨
      (m.start < c.pos + before.length ∧ c.pos + before.length < m.stop) := by
  induction fuel generalizing c before with
  | zero => exact absurd hfuel (Nat.not_lt_zero _)
  | succ fuel ih =>
    have hself (hbefore : before = []) : cursorAt c before after = c := by
      subst hbefore
      rw [cursorAt, ← hgroups]
      simp only [List.nil_append] at hrest
      rw [← hrest]
      rfl
    rcases scan_cases r fuel c with ⟨c', t, -, ht, hlength, hscan⟩ | ⟨hnil, a, rest, ha, hscan⟩ |
      ⟨hnil, hempty, -⟩
    · rw [hscan]
      have hpos := hr.trans_le hlength
      by_cases hlt : before.length < t.length
      · refine ⟨_, List.mem_cons_self, ?_⟩
        rcases Nat.eq_zero_or_pos before.length with hzero | hpos'
        · exact .inl (by rw [hzero]; rfl)
        · refine .inr ⟨Nat.lt_add_of_pos_right hpos', ?_⟩
          change _ < c'.pos
          rw [ht.2.1]
          omega
      · -- the match ends before the place
        have hprefix : t <+: before := by
          have hbegins : t <+: c.rest := ⟨c'.rest, ht.1.symm⟩
          exact List.prefix_of_prefix_length_le hbegins ⟨after, hrest.symm⟩ (Nat.le_of_not_lt hlt)
        obtain ⟨before', rfl⟩ := hprefix
        have hrest' : c'.rest = before' ++ after := by
          rw [ht.1, List.append_assoc] at hrest
          exact List.append_cancel_left hrest
        have hlen : c'.rest.length < fuel := by
          rw [ht.1, List.length_append] at hfuel
          omega
        obtain ⟨m, hm, hcovers⟩ := ih (cursorAt c t c'.rest) hlen hrest' rfl
          (by rwa [cursorAt_cursorAt])
        refine ⟨m, List.mem_cons_of_mem _ hm, ?_⟩
        rw [List.length_append, ← Nat.add_assoc]
        exact hcovers
    · rw [hscan]
      cases before with
      | nil => exact absurd hnil (hself rfl ▸ hrun)
      | cons b before =>
        obtain ⟨rfl, hrest'⟩ := List.cons.inj (ha.symm.trans hrest)
        have hlen : rest.length < fuel := by
          rw [ha, List.length_cons] at hfuel
          omega
        obtain ⟨m, hm, hcovers⟩ := ih (cursorAt c [a] rest) hlen hrest' rfl
          (by rwa [cursorAt_cursorAt])
        refine ⟨m, hm, ?_⟩
        have hplace : c.pos + (a :: before).length = (cursorAt c [a] rest).pos + before.length := by
          simp only [cursorAt, List.length_cons, List.length_nil]
          omega
        rw [hplace]
        exact hcovers
    · rw [hempty] at hrest
      have hbefore := (List.append_eq_nil_iff.1 hrest.symm).1
      exact absurd hnil (hself hbefore ▸ hrun)

/-- A match of the scan is the preferred one at its start. -/
private theorem head_run_of_mem_scan {r : Regex α} (fuel : ℕ) (c : Cursor α)
    (hgroups : c.groups = [])
    {m : Match α} (hm : m ∈ scan r fuel c) :
    ∃ before after c', c.rest = before ++ after ∧ m.start = c.pos + before.length ∧
      (run r (cursorAt c before after)).head? = some c' ∧
      Moves m.text (cursorAt c before after) c' ∧ m.stop = c'.pos ∧ m.groups = c'.groups := by
  induction fuel generalizing c with
  | zero => cases hm
  | succ fuel ih =>
    rcases scan_cases r fuel c with ⟨c', t, hhead, ht, -, hscan⟩ | ⟨-, a, rest, ha, hscan⟩ |
      ⟨-, -, hscan⟩
    · rw [hscan] at hm
      rcases List.mem_cons.1 hm with rfl | hm
      · have hself : cursorAt c [] c.rest = c := by
          rw [cursorAt, ← hgroups]
          rfl
        exact ⟨[], c.rest, c', rfl, rfl, by rwa [hself], by rwa [hself], rfl, rfl⟩
      · obtain ⟨before, after, c'', hrest, hstart, hrun, hmoves, hend⟩ :=
          ih (cursorAt c t c'.rest) rfl hm
        rw [cursorAt_cursorAt] at hrun hmoves
        refine ⟨t ++ before, after, c'', ?_, ?_, hrun, hmoves, hend⟩
        · rw [ht.1, List.append_assoc]
          exact congrArg _ hrest
        · rw [hstart, List.length_append, ← Nat.add_assoc]
          rfl
    · rw [hscan] at hm
      obtain ⟨before, after, c'', hrest, hstart, hrun, hmoves, hend⟩ :=
        ih (cursorAt c [a] rest) rfl hm
      rw [cursorAt_cursorAt] at hrun hmoves
      refine ⟨[a] ++ before, after, c'', ?_, ?_, hrun, hmoves, hend⟩
      · rw [ha, List.append_assoc]
        exact congrArg _ hrest
      · rw [hstart, List.length_append, ← Nat.add_assoc]
        rfl
    · rw [hscan] at hm
      cases hm

/-- **The scan covers every place where a match could start**, when the expression consumes
something: a match starts there, or one that has begun before goes on there. -/
theorem exists_covering {r : Regex α} (hr : 0 < r.minLen) {before after : List α}
    (hrun : run r (cursorAt (start (before ++ after)) before after) ≠ []) :
    ∃ m ∈ finditer r (before ++ after), m.start = before.length ∨
      (m.start < before.length ∧ before.length < m.stop) := by
  have hcovers := scan_covers hr ((before ++ after).length + 1) (start (before ++ after))
    (Nat.lt_succ_self _) rfl rfl hrun
  rwa [start, Nat.zero_add] at hcovers

/-- **A reported match is the preferred one at its start.** -/
theorem head_run_of_mem_finditer {r : Regex α} {s : List α} {m : Match α} (hm : m ∈ finditer r s) :
    ∃ before after c', s = before ++ after ∧ m.start = before.length ∧
      (run r (cursorAt (start s) before after)).head? = some c' ∧
      Moves m.text (cursorAt (start s) before after) c' ∧ m.stop = c'.pos ∧
      m.groups = c'.groups := by
  obtain ⟨before, after, c', hrest, hstart, hrun⟩ :=
    head_run_of_mem_scan (s.length + 1) (start s) rfl hm
  rw [start, Nat.zero_add] at hstart
  exact ⟨before, after, c', hrest, hstart, hrun⟩

omit [LawfulBEq α] in
/-- **What a group captures**: when its expression is plain, a sequence of the language that comes
next. -/
theorem capture_of_mem_run {r : Regex α} (hplain : r.isPlain = true) {n : ℕ} {c c' : Cursor α}
    (h : c' ∈ run (.group n r) c) :
    ∃ t ∈ Lang r, Moves t c c' ∧ c'.groups = (n, c.pos, t) :: c.groups := by
  rw [run] at h
  obtain ⟨c₁, hc₁, rfl⟩ := List.mem_map.1 h
  obtain ⟨t, ht, hmoves, hgroups⟩ := (mem_run_iff hplain).1 hc₁
  have htake : c.rest.take (c₁.pos - c.pos) = t := by
    rw [hmoves.1, hmoves.2.1, Nat.add_sub_cancel_left, List.take_left]
  exact ⟨t, ht, hmoves, by rw [htake, hgroups]⟩

/-- What a match of a plain expression covers is in its language. -/
theorem text_mem_lang {r : Regex α} (hplain : r.isPlain = true) {s : List α} {m : Match α}
    (hm : m ∈ finditer r s) : m.text ∈ Lang r := by
  obtain ⟨before, after, c', -, -, hhead, hmoves, -⟩ := head_run_of_mem_finditer hm
  obtain ⟨t, ht, hmoves', -⟩ := (mem_run_iff hplain).1 (List.mem_of_mem_head? hhead)
  rwa [List.append_cancel_right (hmoves.1.symm.trans hmoves'.1)]

/-- **A plain expression has a match** in a sequence that holds one of its language, and in no
other. -/
theorem search_iff {r : Regex α} (hplain : r.isPlain = true) {s : List α} :
    search r s = true ↔ ∃ t ∈ Lang r, t <:+: s := by
  constructor
  · intro h
    have hne : finditer r s ≠ [] := by simpa [search] using h
    obtain ⟨m, hm⟩ := List.exists_mem_of_ne_nil _ hne
    obtain ⟨before, after, c', rfl, -, -, hmoves, -⟩ := head_run_of_mem_finditer hm
    have hafter : after = m.text ++ c'.rest := hmoves.1
    refine ⟨m.text, text_mem_lang hplain hm, before, c'.rest, ?_⟩
    rw [hafter, List.append_assoc]
  · rintro ⟨t, ht, hin⟩
    exact (accepts_of_mem_lang hplain ht).search hin

/-! ### What is preferred -/

omit [BEq α] [LawfulBEq α] in
private theorem map_rest_flatMap {l l' : List (Cursor α)} {f g : Cursor α → List (Cursor α)}
    (h : l.map Cursor.rest = l'.map Cursor.rest)
    (hfg : ∀ c ∈ l, ∀ d ∈ l', c.rest = d.rest → (f c).map Cursor.rest = (g d).map Cursor.rest) :
    (l.flatMap f).map Cursor.rest = (l'.flatMap g).map Cursor.rest := by
  induction l generalizing l' with
  | nil =>
    rw [List.map_eq_nil_iff.1 h.symm]
    rfl
  | cons c l ih =>
    obtain ⟨d, l', rfl, hd, hl⟩ := List.map_eq_cons_iff.1 h.symm
    rw [List.flatMap_cons, List.flatMap_cons, List.map_append, List.map_append,
      hfg c List.mem_cons_self d List.mem_cons_self hd.symm,
      ih hl.symm fun c hc d hd => hfg c (List.mem_cons_of_mem _ hc) d (List.mem_cons_of_mem _ hd)]

/-- A run that consumes nothing has the same rest. -/
private theorem pos_le_iff {r : Regex α} {c c' : Cursor α} (h : c' ∈ run r c) :
    c'.pos ≤ c.pos ↔ c.rest.length ≤ c'.rest.length := by
  obtain ⟨t, ⟨hrest, hpos, -⟩, -⟩ := run_moves r c c' h
  rw [hpos, hrest, List.length_append]
  omega

private theorem map_rest_iterate {r : Regex α}
    (hr : ∀ c d, c.rest = d.rest → (run r c).map Cursor.rest = (run r d).map Cursor.rest)
    (min max : ℕ) (c d : Cursor α) (h : c.rest = d.rest) :
    (iterate (run r) min max c).map Cursor.rest = (iterate (run r) min max d).map Cursor.rest := by
  have hlast : (if min = 0 then [c] else []).map Cursor.rest =
      (if min = 0 then [d] else []).map Cursor.rest := by
    split_ifs
    · rw [List.map_singleton, List.map_singleton, h]
    · rfl
  induction max generalizing min c d with
  | zero => exact hlast
  | succ max ih =>
    rw [iterate, iterate, List.map_append, List.map_append, hlast]
    refine congrArg (· ++ _) (map_rest_flatMap (hr c d h) fun c' hc' d' hd' hrest => ?_)
    have hiff : c'.pos ≤ c.pos ↔ d'.pos ≤ d.pos := by
      rw [pos_le_iff hc', pos_le_iff hd', h, hrest]
    by_cases hpos : c'.pos ≤ c.pos
    · rw [if_pos hpos, if_pos (hiff.1 hpos)]
    · rw [if_neg hpos, if_neg (mt hiff.2 hpos)]
      refine ih (min - 1) c' d' hrest ?_
      split_ifs
      · rw [List.map_singleton, List.map_singleton, hrest]
      · rfl

/-- **What a plain expression consumes depends on what comes next alone.** -/
theorem map_rest_run : (r : Regex α) → r.isPlain = true → (c d : Cursor α) → c.rest = d.rest →
    (run r c).map Cursor.rest = (run r d).map Cursor.rest
  | .eps, _, c, d, h => congrArg (fun t => [t]) h
  | .chr p, _, c, d, h => by
      rw [run, run, h]
      cases d.rest with
      | nil => rfl
      | cons a rest =>
        dsimp only
        split_ifs <;> rfl
  | .seq r₁ r₂, hplain, c, d, h => by
      obtain ⟨h₁, h₂⟩ := Bool.and_eq_true_iff.1 hplain
      exact map_rest_flatMap (map_rest_run r₁ h₁ c d h) fun c' _ d' _ => map_rest_run r₂ h₂ c' d'
  | .alt r₁ r₂, hplain, c, d, h => by
      obtain ⟨h₁, h₂⟩ := Bool.and_eq_true_iff.1 hplain
      rw [run, run, List.map_append, List.map_append, map_rest_run r₁ h₁ c d h,
        map_rest_run r₂ h₂ c d h]
  | .rep r min max, hplain, c, d, h => by
      rw [run, run, h]
      exact map_rest_iterate (map_rest_run r (Bool.and_eq_true_iff.1 hplain).1) min _ c d h

omit [LawfulBEq α] in
/-- The preferred match of a sequence: the first way to match the one part for which the other part
matches, and what that prefers. -/
theorem head_run_seq {r₁ r₂ : Regex α} {c c' : Cursor α}
    (h : (run (.seq r₁ r₂) c).head? = some c') :
    ∃ c₁ ∈ run r₁ c, (run r₂ c₁).head? = some c' := by
  rw [run, List.head?_flatMap] at h
  exact List.exists_of_findSome?_eq_some h

/-- At the beginning of `s` the expression matches, and prefers to consume `t`. -/
def Prefers (r : Regex α) (s t : List α) : Prop := ∃ c ∈ (run r (start s)).head?, s = t ++ c.rest

omit [LawfulBEq α] in
theorem Prefers.unique {r : Regex α} {s t t' : List α} (h : Prefers r s t) (h' : Prefers r s t') :
    t = t' := by
  obtain ⟨c, hc, ht⟩ := h
  obtain ⟨c', hc', ht'⟩ := h'
  obtain rfl := Option.some.inj (hc.symm.trans hc')
  exact List.append_cancel_right (ht.symm.trans ht')

/-- The preferred match of a plain expression, wherever its cursor comes from. -/
theorem prefers_of_head {r : Regex α} (hplain : r.isPlain = true) {c c' : Cursor α} {t : List α}
    (hhead : (run r c).head? = some c') (hmoves : Moves t c c') : Prefers r c.rest t := by
  have hrests := congrArg List.head? (map_rest_run r hplain c (start c.rest) rfl)
  rw [List.head?_map, List.head?_map, hhead] at hrests
  obtain ⟨d, hd, hrest⟩ := Option.map_eq_some_iff.1 hrests.symm
  exact ⟨d, hd, hrest ▸ hmoves.1⟩

omit [LawfulBEq α] in
/-- What a plain expression prefers is in its language. -/
theorem Prefers.mem_lang {r : Regex α} (hplain : r.isPlain = true) {s t : List α}
    (h : Prefers r s t) : t ∈ Lang r := by
  obtain ⟨c, hc, ht⟩ := h
  obtain ⟨t', ht', hmoves, -⟩ := (mem_run_iff hplain).1 (List.mem_of_mem_head? hc)
  rwa [List.append_cancel_right (ht.symm.trans hmoves.1)]

/-- A reported match of a plain expression is the preferred one. -/
theorem prefers_of_mem_finditer {r : Regex α} (hplain : r.isPlain = true) {s : List α} {m : Match α}
    (hm : m ∈ finditer r s) : Prefers r (s.drop m.start) m.text := by
  obtain ⟨before, after, c', rfl, hstart, hhead, hmoves, -⟩ := head_run_of_mem_finditer hm
  rw [hstart, List.drop_left]
  exact prefers_of_head hplain hhead hmoves

end Regex
