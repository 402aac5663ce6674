import PiiProxy.Detectors.MentionLayout

/-!
# Which words of a name are found

A word of a name is found in a run of words, unless it is left over by the cutting of its row, or
with initials. The scans for initials take the leftmost matches, and an earlier match can run over a
later one. Character by character, though, a capitalized word and initials cannot be mistaken for
each other: behind each capital letter of a word stands a small one, and behind each capital letter
of initials a full stop. So initials before a word are always read together with it, and initials
behind a word together with the longest word that ends there.

## Main definitions

* `BeginsWord`: a capital letter and a small one stand at a position.
* `InitialsBefore`, `InitialsBehind`: initials stand before a position or behind it.
* `WithInitials`: a word of a name has initials.
* `InitialsFirst`, `InitialsLast`: the parts of a match of the two patterns.

## Main results

* `not_beginsWord_of_initials`: among initials no word begins.
* `read_initialsFirst`, `read_initialsLast`: what the scans for initials read.
* `name_covered_iff`: when a word lies in a candidate.
-/

namespace PiiProxy

open Regex (concat)
open Pat

/-! ### Words and initials, character by character -/

/-- The characters of a capitalized word. -/
def isWordLetter (c : Char) : Bool := isRuUpper c || isRuLower c || c == '-'

theorem not_isRuUpper_of_isRuLower {c : Char} (h : isRuLower c = true) : isRuUpper c = false := by
  have hlow : 'а'.val ≤ c.val := by
    rw [isRuLower, Bool.or_eq_true, Bool.and_eq_true, decide_eq_true_eq, beq_iff_eq] at h
    rcases h with ⟨h, -⟩ | rfl
    · exact h
    · decide
  rw [← Bool.not_eq_true]
  intro hu
  have hup : c.val ≤ 'Я'.val := by
    rw [isRuUpper, Bool.or_eq_true, Bool.and_eq_true, decide_eq_true_eq, decide_eq_true_eq,
      beq_iff_eq] at hu
    rcases hu with ⟨-, h⟩ | rfl
    · exact h
    · decide
  exact absurd (UInt32.le_trans hlow hup) (by decide)

theorem isRuLower_ne_dot {c : Char} (h : isRuLower c = true) : c ≠ '.' := by
  rintro rfl
  revert h
  decide

/-- A piece in which capital letters are followed so, at each place. -/
theorem getElem?_succ_of_append {p q : Char → Prop} {w : Text}
    (h : ∀ pre x post, w = pre ++ x :: post → p x → ∃ y ∈ post.head?, q y) {n : ℕ} {x : Char}
    (hx : w[n]? = some x) (hp : p x) : ∃ y, w[n + 1]? = some y ∧ q y := by
  obtain ⟨hn, rfl⟩ := List.getElem?_eq_some_iff.1 hx
  have hsplit : w = w.take n ++ w[n] :: w.drop (n + 1) := by
    rw [← List.drop_eq_getElem_cons hn, List.take_append_drop]
  obtain ⟨y, hy, hq⟩ := h _ _ _ hsplit hp
  rw [List.head?_drop] at hy
  exact ⟨y, hy, hq⟩

/-- Capital letters stand behind what holds none. -/
theorem append_eq_append_cons {gap rest pre post : Text} {x : Char} (hx : isRuUpper x = true)
    (hgap : ∀ c ∈ gap, isRuUpper c = false) (h : gap ++ rest = pre ++ x :: post) :
    ∃ pre', rest = pre' ++ x :: post := by
  rcases List.append_eq_append_iff.1 h with ⟨pre', -, hrest⟩ | ⟨t, hgap', hpost⟩
  · exact ⟨pre', hrest⟩
  · cases t with
    | nil => exact ⟨[], hpost.symm⟩
    | cons a t =>
      obtain ⟨rfl, -⟩ := List.cons.inj hpost
      have hupper := hgap x (hgap' ▸ List.mem_append_right _ List.mem_cons_self)
      rw [hx] at hupper
      cases hupper

/-- A part of a capitalized word: a capital letter and at least one small one. -/
structure IsPart (w : Text) : Prop where
  eq_cons : ∃ x y v, w = x :: y :: v ∧ isRuUpper x = true
  isRuLower : ∀ c ∈ w.tail, isRuLower c = true

private theorem isPart_of_mem_lang {x w : Text} (hx : x ∈ ruUpper.Lang)
    (hw : w ∈ (Regex.plus ruLower).Lang) : IsPart (x ++ w) := by
  obtain ⟨a, ha, rfl⟩ := hx
  have hlower : Regex.Over (fun c => Pat.isRuLower c = true) (Regex.plus ruLower) := fun _ h => h
  have hall := Regex.forall_of_mem_lang hlower hw
  have hlen : 0 < w.length := (of_decide_eq_true rfl : 0 < (Regex.plus ruLower).minLen).trans_le
    (Regex.minLen_le_of_mem_lang hw)
  obtain ⟨y, v, rfl⟩ := List.exists_cons_of_length_pos hlen
  exact ⟨⟨a, y, v, rfl, ha⟩, hall⟩

/-- A capitalized word is one part, or two with a hyphen between them. -/
theorem parts_of_mem_lang {w : Text} (hw : w ∈ capitalizedWord.Lang) :
    IsPart w ∨ ∃ w₁ w₂, w = w₁ ++ '-' :: w₂ ∧ IsPart w₁ ∧ IsPart w₂ := by
  obtain ⟨x, hx, _, ⟨v, hv, _, ⟨_, ⟨ts, hts, -, hmax, rfl⟩, _, rfl, rfl⟩, rfl⟩, rfl⟩ := hw
  have hpart := isPart_of_mem_lang hx hv
  have hlen := hmax 1 rfl
  rcases ts with - | ⟨t, - | ⟨t', ts⟩⟩
  · left
    simpa using hpart
  · right
    obtain ⟨_, hhyphen, _, ⟨x', hx', _, ⟨v', hv', _, rfl, rfl⟩, rfl⟩, rfl⟩ :=
      hts t List.mem_cons_self
    obtain rfl := Regex.mem_lang_literal hhyphen
    refine ⟨x ++ v, x' ++ v', ?_, hpart, isPart_of_mem_lang hx' hv'⟩
    simp
  · simp at hlen

theorem IsPart.isWordLetter {w : Text} (h : IsPart w) : ∀ c ∈ w, isWordLetter c = true := by
  obtain ⟨⟨x, y, v, rfl, hx⟩, hlower⟩ := h
  refine List.forall_mem_cons.2 ⟨?_, fun c hc => ?_⟩
  · rw [PiiProxy.isWordLetter, hx]
    rfl
  · rw [PiiProxy.isWordLetter, hlower c hc, Bool.or_true]
    rfl

/-- The characters of a capitalized word. -/
theorem isWordLetter_of_mem_lang {w : Text} (hw : w ∈ capitalizedWord.Lang) :
    ∀ c ∈ w, isWordLetter c = true := by
  rcases parts_of_mem_lang hw with h | ⟨w₁, w₂, rfl, h₁, h₂⟩
  · exact h.isWordLetter
  · intro c hc
    rcases List.mem_append.1 hc with hc | hc
    · exact h₁.isWordLetter c hc
    · rcases List.mem_cons.1 hc with rfl | hc
      · decide
      · exact h₂.isWordLetter c hc

/-- The only capital letter of a part is the first. -/
private theorem IsPart.eq_nil {w pre post : Text} {x : Char} (h : IsPart w)
    (hw : w = pre ++ x :: post) (hx : isRuUpper x = true) : pre = [] := by
  cases pre with
  | nil => rfl
  | cons a pre =>
    have hlower := h.isRuLower x (by rw [hw]; simp)
    rw [not_isRuUpper_of_isRuLower hlower] at hx
    cases hx

private theorem IsPart.lower_behind {w pre post : Text} {x : Char} (h : IsPart w)
    (hw : w = pre ++ x :: post) (hx : isRuUpper x = true) :
    ∃ y ∈ post.head?, Pat.isRuLower y = true := by
  obtain rfl := h.eq_nil hw hx
  obtain ⟨⟨a, y, v, rfl, -⟩, hlower⟩ := h
  obtain ⟨rfl, rfl⟩ := List.cons.inj hw
  exact ⟨y, rfl, hlower y List.mem_cons_self⟩

/-- In a capitalized word a small letter stands behind each capital one. -/
theorem lower_behind_of_mem_lang {w : Text} (hw : w ∈ capitalizedWord.Lang) {n : ℕ} {x : Char}
    (hn : w[n]? = some x) (hx : isRuUpper x = true) :
    ∃ y, w[n + 1]? = some y ∧ Pat.isRuLower y = true := by
  refine getElem?_succ_of_append (p := fun x => isRuUpper x = true) ?_ hn hx
  intro pre x post hsplit hx
  rcases parts_of_mem_lang hw with h | ⟨w₁, w₂, rfl, h₁, h₂⟩
  · exact h.lower_behind hsplit hx
  · rcases List.append_eq_append_iff.1 hsplit with ⟨pre', -, hrest⟩ | ⟨t, hpre, hpost⟩
    · cases pre' with
      | nil =>
        obtain ⟨rfl, -⟩ := List.cons.inj hrest
        exact absurd hx (by decide)
      | cons a pre' => exact h₂.lower_behind (List.cons.inj hrest).2 hx
    · cases t with
      | nil =>
        obtain ⟨rfl, -⟩ := List.cons.inj hpost
        exact absurd hx (by decide)
      | cons a t =>
        obtain ⟨rfl, rfl⟩ := List.cons.inj hpost
        obtain ⟨y, hy, hlower⟩ := h₁.lower_behind hpre hx
        exact ⟨y, List.mem_head?_append_of_mem_head? hy, hlower⟩

/-- A capitalized word begins with a capital letter and a small one. -/
theorem starts_of_mem_lang {w : Text} (hw : w ∈ capitalizedWord.Lang) :
    ∃ x y v, w = x :: y :: v ∧ isRuUpper x = true ∧ Pat.isRuLower y = true := by
  rcases parts_of_mem_lang hw with ⟨⟨x, y, v, rfl, hx⟩, hlower⟩ |
    ⟨_, w₂, rfl, ⟨⟨x, y, v, rfl, hx⟩, hlower⟩, -⟩
  · exact ⟨x, y, v, rfl, hx, hlower y List.mem_cons_self⟩
  · exact ⟨x, y, _, rfl, hx, hlower y List.mem_cons_self⟩

section Initials

variable {u : Unicode} {n : ℕ} {max : Option ℕ}

/-- Behind each capital letter of initials stands a full stop. -/
theorem dot_behind_of_mem_lang (hspace : ∀ c, isWordLetter c = true → u.isSpace c = false)
    {g : Text} (hg : g ∈ (Regex.rep (initialPattern u) n max).Lang) {k : ℕ} {x : Char}
    (hk : g[k]? = some x) (hx : isRuUpper x = true) : g[k + 1]? = some '.' := by
  obtain ⟨ts, hts, -, -, rfl⟩ := hg
  have hinitial : ∀ t ∈ ts, IsInitial u t := fun t ht => isInitial_of_mem_lang (hts t ht)
  clear hts
  obtain ⟨y, hy, rfl⟩ : ∃ y, ts.flatten[k + 1]? = some y ∧ y = '.' := by
    refine getElem?_succ_of_append (p := fun x => isRuUpper x = true) ?_ hk hx
    clear hk hx x
    induction ts with
    | nil =>
      intro pre x post h
      simp at h
    | cons t ts ih =>
      intro pre x post hsplit hx
      obtain ⟨ht, hts⟩ := List.forall_mem_cons.1 hinitial
      obtain ⟨⟨a, heq, -⟩, -, hgap⟩ := ht
      rw [List.flatten_cons, heq] at hsplit
      rcases pre with - | ⟨b, - | ⟨b', pre⟩⟩
      · obtain ⟨rfl, rfl⟩ := List.cons.inj hsplit
        exact ⟨'.', rfl, rfl⟩
      · have hdot := (List.cons.inj (List.cons.inj hsplit).2).1
        exact absurd hdot.symm (isRuUpper_ne_dot hx)
      · have hrest := (List.cons.inj (List.cons.inj hsplit).2).2
        have hfree : ∀ c ∈ t.drop 2, isRuUpper c = false := by
          intro c hc
          rw [← Bool.not_eq_true]
          intro hupper
          have h := hspace c (by rw [isWordLetter, hupper]; rfl)
          rw [List.all_eq_true.1 hgap c hc] at h
          cases h
        obtain ⟨pre', hpre'⟩ := append_eq_append_cons hx hfree hrest
        exact ih hts pre' x post hpre' hx
  exact hy

/-- Initials begin with a capital letter. -/
theorem starts_of_mem_initials {g : Text} (hn : 0 < n)
    (hg : g ∈ (Regex.rep (initialPattern u) n max).Lang) :
    ∃ x, g[0]? = some x ∧ isRuUpper x = true := by
  obtain ⟨ts, hts, hmin, -, rfl⟩ := hg
  obtain ⟨t, ts, rfl⟩ := List.exists_cons_of_length_pos (hn.trans_le hmin)
  obtain ⟨x, heq, hx⟩ := (isInitial_of_mem_lang (hts t List.mem_cons_self)).eq_cons
  exact ⟨x, by rw [List.flatten_cons, heq]; rfl, hx⟩

end Initials

/-! ### Words and initials in a text -/

/-- The analyzer takes the word for a surname. -/
def IsSurname (rt : Runtime) (word : Text) : Prop :=
  (classifyNameWord rt word).map Prod.fst = some .surname

/-- One or two initials stand before the position, behind no letter and no full stop. -/
def InitialsBefore (u : Unicode) (text : Text) (p : ℕ) : Prop :=
  ∃ i, ((text.take i).getLast?.any fun c => isRuUpper c || isRuLower c || c == '.') = false ∧
    PySeq.slice text i p ∈ (Regex.rep (initialPattern u) 1 (some 2)).Lang

/-- White space and two initials stand behind the position. -/
def InitialsBehind (u : Unicode) (text : Text) (q : ℕ) : Prop :=
  ∃ j, j ≤ text.length ∧
    PySeq.slice text q j ∈ (concat [space u, .rep (initialPattern u) 2 (some 2)]).Lang

/-- The word is a surname that has initials before it, or belongs to a surname that has initials
behind it: the longest word that ends there. -/
def WithInitials (rt : Runtime) (text : Text) (t : NameToken) : Prop :=
  (t.role = .surname ∧ InitialsBefore rt.unicode text t.start) ∨
    ∃ p q, p ≤ t.start ∧ t.stop ≤ q ∧ PySeq.slice text p q ∈ capitalizedWord.Lang ∧
      (∀ p' < p, PySeq.slice text p' q ∉ capitalizedWord.Lang) ∧
      IsSurname rt (PySeq.slice text p q) ∧ InitialsBehind rt.unicode text q

/-- A capital letter and a small one stand at the position. -/
def BeginsWord (text : Text) (k : ℕ) : Prop :=
  ∃ x y, text[k]? = some x ∧ isRuUpper x = true ∧ text[k + 1]? = some y ∧ Pat.isRuLower y = true

section Text

variable {u : Unicode} {text : Text} {p q i k n : ℕ} {max : Option ℕ}

theorem beginsWord_of_word (hw : PySeq.slice text p q ∈ capitalizedWord.Lang) :
    BeginsWord text p ∧ p + 1 < q := by
  obtain ⟨x, y, v, hslice, hx, hy⟩ := starts_of_mem_lang hw
  have hlen := PySeq.length_slice_le text p q
  rw [hslice, List.length_cons, List.length_cons] at hlen
  refine ⟨⟨x, y, ?_, hx, ?_, hy⟩, by omega⟩
  · rw [← Nat.add_zero p, ← PySeq.getElem?_slice text (j := q) (by omega), hslice]
    rfl
  · rw [← PySeq.getElem?_slice text (j := q) (by omega), hslice]
    rfl

/-- In a word of the text a small letter stands behind each capital one. -/
theorem lower_behind_of_word (hw : PySeq.slice text p q ∈ capitalizedWord.Lang) (hp : p ≤ k)
    (hq : k < q) {x : Char} (hk : text[k]? = some x) (hx : isRuUpper x = true) :
    BeginsWord text k := by
  obtain ⟨n, rfl⟩ := Nat.exists_eq_add_of_le hp
  rw [← PySeq.getElem?_slice text hq] at hk
  obtain ⟨y, hy, hlower⟩ := lower_behind_of_mem_lang hw hk hx
  have hlen := PySeq.length_slice_le text p q
  have hn := (List.getElem?_eq_some_iff.1 hy).1
  rw [PySeq.getElem?_slice text hq] at hk
  rw [PySeq.getElem?_slice text (by omega)] at hy
  exact ⟨x, y, hk, hx, hy, hlower⟩

/-- The characters of a word of the text. -/
theorem isWordLetter_of_word (hw : PySeq.slice text p q ∈ capitalizedWord.Lang) (hp : p ≤ k)
    (hq : k < q) {c : Char} (hk : text[k]? = some c) : isWordLetter c = true := by
  obtain ⟨n, rfl⟩ := Nat.exists_eq_add_of_le hp
  rw [← PySeq.getElem?_slice text hq] at hk
  exact isWordLetter_of_mem_lang hw c (List.mem_of_getElem? hk)

/-- Among initials no word begins. -/
theorem not_beginsWord_of_initials (hspace : ∀ c, isWordLetter c = true → u.isSpace c = false)
    (hg : PySeq.slice text i p ∈ (Regex.rep (initialPattern u) n max).Lang) (hi : i ≤ k)
    (hp : k < p) : ¬BeginsWord text k := by
  rintro ⟨x, y, hk, hx, hy, hlower⟩
  obtain ⟨l, rfl⟩ := Nat.exists_eq_add_of_le hi
  rw [← PySeq.getElem?_slice text hp] at hk
  have hdot := dot_behind_of_mem_lang hspace hg hk hx
  have hlen := PySeq.length_slice_le text i p
  have hl := (List.getElem?_eq_some_iff.1 hdot).1
  rw [PySeq.getElem?_slice text (by omega), ← Nat.add_assoc, hy] at hdot
  exact isRuLower_ne_dot hlower (Option.some.inj hdot)

/-- Initials begin with a capital letter, and are not empty. -/
theorem starts_of_initials (hn : 0 < n)
    (hg : PySeq.slice text i p ∈ (Regex.rep (initialPattern u) n max).Lang) :
    i < p ∧ ∃ x, text[i]? = some x ∧ isRuUpper x = true := by
  obtain ⟨x, hx, hupper⟩ := starts_of_mem_initials hn hg
  have hlen := PySeq.length_slice_le text i p
  have hpos := (List.getElem?_eq_some_iff.1 hx).1
  rw [PySeq.getElem?_slice text (by omega)] at hx
  exact ⟨by omega, x, hx, hupper⟩

end Text

/-! ### What the patterns report -/

section Matches

variable {u : Unicode} {text : Text} {m : Regex.Match Char}

/-- Two pieces of a slice. -/
theorem slice_of_eq_append {i j : ℕ} {g w : Text} (h : PySeq.slice text i j = g ++ w)
    (hg : i + g.length ≤ j) (hj : j ≤ text.length) :
    PySeq.slice text i ((i + g.length : ℕ) : ℤ) = g ∧
      PySeq.slice text ((i + g.length : ℕ) : ℤ) j = w := by
  rw [← PySeq.slice_append_slice text (Nat.le_add_right i g.length) hg] at h
  refine List.append_inj h ?_
  rw [PySeq.length_slice_natCast text (hg.trans hj), Nat.add_sub_cancel_left]

/-- A match is a piece of the text. -/
theorem slice_of_match {r : Regex Char} (hm : m ∈ r.finditer text) :
    m.text = PySeq.slice text m.start m.stop ∧ m.stop = m.start + m.text.length ∧
      m.stop ≤ text.length := by
  obtain ⟨⟨hlen, hpiece⟩, hstop, -⟩ := Regex.isPiece_of_mem_finditer hm
  refine ⟨?_, hstop, by omega⟩
  rw [hpiece, ← hstop, PySeq.slice_natCast]

/-- A match of the first pattern: initials from its start to a place, and the surname from there to
its end. -/
structure InitialsFirst (u : Unicode) (text : Text) (m : Regex.Match Char) (p : ℕ) : Prop where
  apart : ((text.take m.start).getLast?.any fun c => isRuUpper c || isRuLower c || c == '.') = false
  initials : PySeq.slice text m.start p ∈ (Regex.rep (initialPattern u) 1 (some 2)).Lang
  prefers : Regex.Prefers capitalizedWord (text.drop p) (PySeq.slice text p m.stop)
  group_one : m.group? 1 = some (m.start, PySeq.slice text m.start p)
  group_two : m.group? 2 = some (p, PySeq.slice text p m.stop)

theorem InitialsFirst.word {p : ℕ} (h : InitialsFirst u text m p) :
    PySeq.slice text p m.stop ∈ capitalizedWord.Lang := h.prefers.mem_lang rfl

theorem exists_initialsFirst (hm : m ∈ (initialsThenSurnamePattern u).finditer text) :
    ∃ p, InitialsFirst u text m p := by
  obtain ⟨g, w, hapart, hg, hprefers, htext, hone, htwo⟩ := captures_initialsThenSurname hm
  obtain ⟨hslice, hstop, hle⟩ := slice_of_match hm
  rw [htext, List.length_append] at hstop
  obtain ⟨hinitials, hword⟩ := slice_of_eq_append (hslice ▸ htext) (by omega) hle
  exact ⟨m.start + g.length, hapart, by rwa [hinitials], by rwa [hword], by rw [hinitials, hone],
    by rw [hword, htwo]⟩

/-- A match of the second pattern: a word from its start to a place, and white space and initials
from there to its end. -/
structure InitialsLast (u : Unicode) (text : Text) (m : Regex.Match Char) (q : ℕ) : Prop where
  word : PySeq.slice text m.start q ∈ capitalizedWord.Lang
  space : ∃ a, text[q]? = some a ∧ u.isSpace a = true
  initials : PySeq.slice text (q + 1 : ℕ) m.stop ∈ (Regex.rep (initialPattern u) 2 (some 2)).Lang
  group_one : m.group? 1 = some (m.start, PySeq.slice text m.start q)
  group_two : m.group? 2 = some (q + 1, PySeq.slice text (q + 1 : ℕ) m.stop)

theorem exists_initialsLast (hm : m ∈ (surnameThenInitialsPattern u).finditer text) :
    ∃ q, InitialsLast u text m q := by
  obtain ⟨w, a, g, hw, ha, hg, htext, hone, htwo⟩ := captures_surnameThenInitials hm
  obtain ⟨hslice, hstop, hle⟩ := slice_of_match hm
  rw [htext, List.length_append, List.length_append, List.length_singleton] at hstop
  obtain ⟨hword, hrest⟩ := slice_of_eq_append (hslice ▸ htext) (by omega) hle
  obtain ⟨hspace, hinitials⟩ := slice_of_eq_append hrest (by simp; omega) hle
  rw [List.length_singleton] at hspace hinitials
  refine ⟨m.start + w.length, by rwa [hword], ⟨a, ?_, ha⟩, by rwa [hinitials], by rw [hword, hone],
    by rw [hinitials, htwo]; rfl⟩
  rw [← Nat.add_zero (m.start + w.length),
    ← PySeq.getElem?_slice text (j := m.start + w.length + 1) (by omega), hspace]
  rfl

/-- Where initials stand before a word the first pattern matches. -/
theorem run_initialsThenSurname {i p q : ℕ}
    (hapart : ((text.take i).getLast?.any fun c => isRuUpper c || isRuLower c || c == '.') = false)
    (hinitials : PySeq.slice text i p ∈ (Regex.rep (initialPattern u) 1 (some 2)).Lang)
    (hword : PySeq.slice text p q ∈ capitalizedWord.Lang) :
    (initialsThenSurnamePattern u).run
      (Regex.cursorAt (Regex.start text) (text.take i) (text.drop i)) ≠ [] := by
  have hip := (starts_of_initials Nat.one_pos hinitials).1
  have hpq := (beginsWord_of_word hword).2
  generalize hc : Regex.cursorAt (Regex.start text) (text.take i) (text.drop i) = c
  have hrest : c.rest = PySeq.slice text i p ++ text.drop p := by
    rw [PySeq.slice_append_drop text hip.le, ← hc]
    rfl
  have hprev : c.prev = (text.take i).getLast? := by
    rw [← hc]
    exact Option.or_none
  have hbehind : c ∈ (Regex.notBehind fun c => isRuUpper c || isRuLower c || c == '.').run c := by
    rw [Regex.run, hprev, hapart]
    exact List.mem_singleton_self c
  obtain ⟨c₁, hc₁, hrest₁⟩ : ∃ c₁ ∈ (Regex.group 1 (.rep (initialPattern u) 1 (some 2))).run c,
      c₁.rest = text.drop p := by
    refine ⟨_, List.mem_map.2 ⟨_, Regex.accepts_of_mem_lang rfl hinitials c _ hrest, rfl⟩, rfl⟩
  obtain ⟨c₂, hc₂⟩ : ∃ c₂, c₂ ∈ (Regex.group 2 capitalizedWord).run c₁ := by
    refine ⟨_, List.mem_map.2 ⟨_, Regex.accepts_of_mem_lang rfl hword c₁ (text.drop q) ?_, rfl⟩⟩
    rw [hrest₁, PySeq.slice_append_drop text (by omega)]
  exact List.ne_nil_of_mem (List.mem_flatMap.2 ⟨c, hbehind, List.mem_flatMap.2 ⟨c₁, hc₁,
    List.mem_flatMap.2 ⟨c₂, hc₂, List.mem_singleton_self c₂⟩⟩⟩)

/-- Where initials stand behind a word the second pattern matches. -/
theorem run_surnameThenInitials {p q : ℕ} (hword : PySeq.slice text p q ∈ capitalizedWord.Lang)
    (hinitials : InitialsBehind u text q) :
    (surnameThenInitialsPattern u).run
      (Regex.cursorAt (Regex.start text) (text.take p) (text.drop p)) ≠ [] := by
  have hpq := (beginsWord_of_word hword).2
  obtain ⟨j, -, a, ha, _, ⟨g, hg, _, rfl, rfl⟩, hslice⟩ := hinitials
  generalize hc : Regex.cursorAt (Regex.start text) (text.take p) (text.drop p) = c
  have hrest : c.rest = PySeq.slice text p q ++ text.drop q := by
    rw [PySeq.slice_append_drop text (by omega), ← hc]
    rfl
  have hdrop : text.drop q = a ++ (g ++ text.drop j) := by
    have hqj : q ≤ j := by
      have hlen := PySeq.length_slice_le text q j
      have hpos := Regex.minLen_le_of_mem_lang ha
      rw [hslice, List.length_append] at hlen
      change 1 ≤ _ at hpos
      omega
    rw [← PySeq.slice_append_drop text hqj, hslice, List.append_nil, List.append_assoc]
  obtain ⟨c₁, hc₁, hrest₁⟩ : ∃ c₁ ∈ (Regex.group 1 capitalizedWord).run c,
      c₁.rest = a ++ (g ++ text.drop j) :=
    ⟨_, List.mem_map.2 ⟨_, Regex.accepts_of_mem_lang rfl hword c _ hrest, rfl⟩, hdrop⟩
  have hc₂ := Regex.accepts_of_mem_lang rfl ha c₁ _ hrest₁
  obtain ⟨c₃, hc₃⟩ : ∃ c₃, c₃ ∈ (Regex.group 2 (.rep (initialPattern u) 2 (some 2))).run
      ⟨c₁.pos + a.length, a.getLast?.or c₁.prev, g ++ text.drop j, c₁.groups⟩ :=
    ⟨_, List.mem_map.2 ⟨_, Regex.accepts_of_mem_lang rfl hg _ (text.drop j) rfl, rfl⟩⟩
  exact List.ne_nil_of_mem (List.mem_flatMap.2 ⟨c₁, hc₁, List.mem_flatMap.2 ⟨_, hc₂,
    List.mem_flatMap.2 ⟨c₃, hc₃, List.mem_singleton_self c₃⟩⟩⟩)

/-- The scan covers each place where the expression matches. -/
theorem covered {r : Regex Char} (hr : 0 < r.minLen) {i : ℕ} (hi : i ≤ text.length)
    (hrun : r.run (Regex.cursorAt (Regex.start text) (text.take i) (text.drop i)) ≠ []) :
    ∃ m ∈ r.finditer text, m.start ≤ i ∧ i < m.stop := by
  have hcover := @Regex.exists_covering _ _ _ r hr (text.take i) (text.drop i)
  rw [List.take_append_drop, List.length_take, min_eq_left hi] at hcover
  obtain ⟨m, hm, hcovers⟩ := hcover hrun
  have hmin := (Regex.isPiece_of_mem_finditer hm).2
  exact ⟨m, hm, by omega, by omega⟩

/-- **Initials before a word are read together with it**, whatever stands before them. -/
theorem read_initialsFirst (hspace : ∀ c, isWordLetter c = true → u.isSpace c = false) {p q : ℕ}
    (hq : q ≤ text.length) (hword : PySeq.slice text p q ∈ capitalizedWord.Lang)
    (hinitials : InitialsBefore u text p) :
    ∃ m ∈ (initialsThenSurnamePattern u).finditer text, InitialsFirst u text m p := by
  obtain ⟨i, hapart, hform⟩ := hinitials
  obtain ⟨hip, x, hx, hupper⟩ := starts_of_initials Nat.one_pos hform
  obtain ⟨hbegins, hpq⟩ := beginsWord_of_word hword
  obtain ⟨m, hm, hle, hlt⟩ := covered (of_decide_eq_true rfl) (by omega)
    (run_initialsThenSurname hapart hform hword)
  obtain ⟨p₀, hfirst⟩ := exists_initialsFirst hm
  have hbegins₀ := (beginsWord_of_word hfirst.word).1
  refine ⟨m, hm, ?_⟩
  rcases lt_trichotomy p₀ p with hlt₀ | rfl | hlt₀
  · rcases le_or_gt i p₀ with hi | hi
    · exact absurd hbegins₀ (not_beginsWord_of_initials hspace hform hi hlt₀)
    · -- the first initial would stand inside of the word
      exact absurd (lower_behind_of_word hfirst.word hi.le hlt hx hupper)
        (not_beginsWord_of_initials hspace hform le_rfl hip)
  · exact hfirst
  · exact absurd hbegins
      (not_beginsWord_of_initials hspace hfirst.initials (by omega) hlt₀)

/-- Where a word begins inside a match of the second pattern it begins in the surname. -/
theorem InitialsLast.lt_of_beginsWord (hspace : ∀ c, isWordLetter c = true → u.isSpace c = false)
    {k q : ℕ} (h : InitialsLast u text m q) (hk : BeginsWord text k) (hlt : k < m.stop) :
    k < q := by
  by_contra hle
  rcases (Nat.not_lt.1 hle).lt_or_eq with hbehind | rfl
  · exact not_beginsWord_of_initials hspace h.initials hbehind hlt hk
  · obtain ⟨a, ha, hblank⟩ := h.space
    obtain ⟨x, y, hx, hupper, -⟩ := hk
    obtain rfl := Option.some.inj (ha.symm.trans hx)
    rw [hspace a (by rw [isWordLetter, hupper]; rfl)] at hblank
    cases hblank

/-- Two words that overlap, and behind which white space stands, end at one place. -/
theorem stop_eq_of_space (hspace : ∀ c, isWordLetter c = true → u.isSpace c = false)
    {p q p' q' : ℕ} (hword : PySeq.slice text p q ∈ capitalizedWord.Lang)
    (hword' : PySeq.slice text p' q' ∈ capitalizedWord.Lang)
    (hq : ∃ a, text[q]? = some a ∧ u.isSpace a = true)
    (hq' : ∃ a, text[q']? = some a ∧ u.isSpace a = true) (hpq : p' ≤ q) (hpq' : p ≤ q') :
    q = q' := by
  have hnone {p q q' : ℕ} (hword : PySeq.slice text p q ∈ capitalizedWord.Lang)
      (hq' : ∃ a, text[q']? = some a ∧ u.isSpace a = true) (hp : p ≤ q') : ¬q' < q := by
    intro hlt
    obtain ⟨a, ha, hblank⟩ := hq'
    rw [hspace a (isWordLetter_of_word hword hp hlt ha)] at hblank
    cases hblank
  exact le_antisymm (Nat.not_lt.1 (hnone hword hq' hpq')) (Nat.not_lt.1 (hnone hword' hq hpq))

/-- White space stands in front of the initials. -/
theorem InitialsBehind.space {q : ℕ} (h : InitialsBehind u text q) :
    ∃ a, text[q]? = some a ∧ u.isSpace a = true := by
  obtain ⟨j, -, _, ⟨a, ha, rfl⟩, g, hg, hslice⟩ := h
  have hlen := PySeq.length_slice_le text q j
  rw [hslice, List.length_append, List.length_singleton] at hlen
  refine ⟨a, ?_, ha⟩
  rw [← Nat.add_zero q, ← PySeq.getElem?_slice text (j := j) (by omega), hslice]
  rfl

/-- The second pattern reads initials behind the surname. -/
theorem InitialsLast.behind {q : ℕ} (h : InitialsLast u text m q) (hle : m.stop ≤ text.length) :
    InitialsBehind u text q := by
  obtain ⟨a, ha, hblank⟩ := h.space
  have hlt := (starts_of_initials Nat.two_pos h.initials).1
  have hone : PySeq.slice text q (q + 1 : ℕ) = [a] := by
    obtain ⟨hq, rfl⟩ := List.getElem?_eq_some_iff.1 ha
    rw [PySeq.slice_natCast, List.take_succ_eq_append_getElem hq, List.drop_left' (by simp; omega)]
  refine ⟨m.stop, hle, [a], ⟨a, hblank, rfl⟩, _, ⟨_, h.initials, _, rfl, rfl⟩, ?_⟩
  rw [← PySeq.slice_append_slice text (Nat.le_succ q) hlt.le, hone, List.append_nil]

/-- **Initials behind a word are read together with the longest word that ends there.** -/
theorem read_initialsLast (hspace : ∀ c, isWordLetter c = true → u.isSpace c = false) {p q : ℕ}
    (hword : PySeq.slice text p q ∈ capitalizedWord.Lang)
    (hlongest : ∀ p' < p, PySeq.slice text p' q ∉ capitalizedWord.Lang) (hq : q ≤ text.length)
    (hinitials : InitialsBehind u text q) :
    ∃ m ∈ (surnameThenInitialsPattern u).finditer text, m.start = p ∧ InitialsLast u text m q := by
  obtain ⟨hbegins, hpq⟩ := beginsWord_of_word hword
  obtain ⟨m, hm, hle, hlt⟩ := covered (of_decide_eq_true rfl) (by omega)
    (run_surnameThenInitials hword hinitials)
  obtain ⟨q₀, hlast⟩ := exists_initialsLast hm
  have hpq₀ := hlast.lt_of_beginsWord hspace hbegins hlt
  have hq₀ := (beginsWord_of_word hlast.word).2
  obtain rfl : q = q₀ := stop_eq_of_space hspace hword hlast.word hinitials.space hlast.space
    (by omega) (by omega)
  refine ⟨m, hm, hle.eq_or_lt.resolve_right fun hbefore => hlongest m.start hbefore hlast.word,
    hlast⟩

/-- The second pattern reads the longest word that ends at its white space. -/
theorem InitialsLast.longest (hspace : ∀ c, isWordLetter c = true → u.isSpace c = false) {q : ℕ}
    (hm : m ∈ (surnameThenInitialsPattern u).finditer text) (h : InitialsLast u text m q)
    (hinitials : InitialsBehind u text q) {p' : ℕ} (hp' : p' < m.start) :
    PySeq.slice text p' q ∉ capitalizedWord.Lang := by
  intro hword
  obtain ⟨hbegins, hpq⟩ := beginsWord_of_word hword
  have hq := (beginsWord_of_word h.word).2
  have hle := (slice_of_match hm).2.2
  have hlt := (List.getElem?_eq_some_iff.1 h.space.choose_spec.1).1
  obtain ⟨m₁, hm₁, hle₁, hlt₁⟩ := covered (of_decide_eq_true rfl) (by omega)
    (run_surnameThenInitials hword hinitials)
  obtain ⟨q₁, hlast₁⟩ := exists_initialsLast hm₁
  have hpq₁ := hlast₁.lt_of_beginsWord hspace hbegins hlt₁
  have hq₁ := (beginsWord_of_word hlast₁.word).2
  obtain rfl : q = q₁ := stop_eq_of_space hspace hword hlast₁.word h.space hlast₁.space
    (by omega) (by omega)
  have hpos : q + 1 < m₁.stop := (starts_of_initials Nat.two_pos hlast₁.initials).1
  have hpos' : q + 1 < m.stop := (starts_of_initials Nat.two_pos h.initials).1
  rcases PySeq.eq_or_rel_of_pairwise (Regex.pairwise_finditer _ text) hm hm₁ with rfl | hle | hle
  · omega
  · omega
  · omega

end Matches

/-! ### When a word is found -/

section Found

variable {rt : Runtime} {text : Text} {m : Regex.Match Char} {t : NameToken}

/-- The candidate of a match is about a surname, and covers the match up to the blanks at its
end. -/
theorem initialsCandidate_spec {surname initials : ℕ × Text} {c : Candidate}
    (hc : initialsCandidate rt m surname initials = some c) :
    IsSurname rt surname.2 ∧ c.start = m.start ∧ c.type = .fullName ∧
      c.stop = m.start + (m.text.rdropWhile (· == ' ')).length := by
  unfold initialsCandidate at hc
  split at hc
  · next parse hclass =>
    obtain rfl := Option.some.inj hc
    exact ⟨by rw [IsSurname, hclass]; rfl, rfl, rfl, rfl⟩
  · cases hc

/-- A match about a surname has a candidate. -/
theorem exists_initialsCandidate (m : Regex.Match Char) (surname initials : ℕ × Text)
    (h : IsSurname rt surname.2) : ∃ c, initialsCandidate rt m surname initials = some c := by
  obtain ⟨⟨_, parse⟩, hclass, rfl⟩ := Option.map_eq_some_iff.1 h
  unfold initialsCandidate
  rw [hclass]
  exact ⟨_, rfl⟩

/-- Blanks at the end of a text do not reach into a word. -/
theorem length_le_rdropWhile {w : Text} (hw : w ∈ capitalizedWord.Lang) (pre rest : Text) :
    (pre ++ w).length ≤ ((pre ++ w ++ rest).rdropWhile (· == ' ')).length := by
  induction rest using List.reverseRecOn with
  | nil =>
    obtain ⟨hne, hblank⟩ := capitalizedWord_spec hw
    rw [List.append_nil, List.rdropWhile_eq_self_iff.2]
    intro hne'
    rw [List.getLast_append_of_ne_nil _ hne, beq_iff_eq]
    exact hblank _ (List.getLast_mem hne)
  | append_singleton rest a ih =>
    rw [← List.append_assoc, List.rdropWhile_concat]
    split_ifs
    · exact ih
    · simp only [List.length_append]
      omega

/-- A word of a name is a match of the scan for words. -/
theorem match_of_mem_nameTokens (ht : t ∈ nameTokens rt text) :
    ∃ m ∈ capitalizedWord.finditer text, t.start = m.start ∧ t.stop = m.stop ∧
      t.word = PySeq.slice text t.start t.stop ∧
      (classifyNameWord rt t.word).map Prod.fst = some t.role := by
  obtain ⟨m, hm, hmt⟩ := List.mem_filterMap.1 ht
  obtain ⟨⟨role, parse⟩, hclass, rfl⟩ := Option.map_eq_some_iff.1 hmt
  exact ⟨m, hm, rfl, rfl, (slice_of_match hm).1, by rw [hclass]; rfl⟩

/-- The piece of the text that is a word of a name, and its role. -/
theorem word_of_mem_nameTokens (ht : t ∈ nameTokens rt text) :
    BeginsWord text t.start ∧ t.start + 1 < t.stop ∧
      PySeq.slice text t.start t.stop ∈ capitalizedWord.Lang ∧
      (classifyNameWord rt (PySeq.slice text t.start t.stop)).map Prod.fst = some t.role := by
  obtain ⟨mt, hmt, htstart, htstop, hword, hrole⟩ := match_of_mem_nameTokens ht
  have hlang := Regex.text_mem_lang (by rfl) hmt
  rw [(slice_of_match hmt).1, ← htstart, ← htstop] at hlang
  obtain ⟨hbegins, hlt⟩ := beginsWord_of_word hlang
  exact ⟨hbegins, hlt, hlang, hword ▸ hrole⟩

/-- What is read behind initials that stand before a word of a name is that word. -/
theorem InitialsFirst.word_eq (h : InitialsFirst rt.unicode text m t.start)
    (ht : t ∈ nameTokens rt text) :
    PySeq.slice text t.start m.stop = PySeq.slice text t.start t.stop := by
  obtain ⟨mt, hmt, htstart, htstop, -⟩ := match_of_mem_nameTokens ht
  have hprefers := Regex.prefers_of_mem_finditer (by rfl) hmt
  rw [(slice_of_match hmt).1, ← htstart, ← htstop] at hprefers
  exact h.prefers.unique hprefers

/-- **The first pattern reads words of names**: the surname of a match that covers a word is that
word. -/
theorem InitialsFirst.eq_start (hspace : ∀ c, isWordLetter c = true → rt.unicode.isSpace c = false)
    {p : ℕ} (h : InitialsFirst rt.unicode text m p) (hle : m.stop ≤ text.length)
    (ht : t ∈ nameTokens rt text) (hstart : m.start ≤ t.start) (hstop : t.stop ≤ m.stop) :
    p = t.start ∧ PySeq.slice text p m.stop = PySeq.slice text t.start t.stop := by
  obtain ⟨mt, hmt, htstart, htstop, -⟩ := match_of_mem_nameTokens ht
  obtain ⟨hbegins, hlt, -, -⟩ := word_of_mem_nameTokens ht
  have hpt : p ≤ t.start := by
    by_contra hlt'
    exact not_beginsWord_of_initials hspace h.initials hstart (Nat.not_le.1 hlt') hbegins
  -- the scan for words reads the surname
  have hpq := (beginsWord_of_word h.word).2
  have hrun : capitalizedWord.run (Regex.cursorAt (Regex.start text) (text.take p) (text.drop p)) ≠
      [] := List.ne_nil_of_mem (Regex.accepts_of_mem_lang rfl h.word _ (text.drop m.stop)
        (PySeq.slice_append_drop text (by omega)).symm)
  obtain ⟨m₁, hm₁, hle₁, hlt₁⟩ := covered (of_decide_eq_true rfl) (by omega) hrun
  have hat : m₁.start = p := by
    have hword₁ := Regex.text_mem_lang (by rfl) hm₁
    rw [(slice_of_match hm₁).1] at hword₁
    obtain ⟨hip, x, hx, hupper⟩ := starts_of_initials Nat.one_pos h.initials
    refine hle₁.eq_or_lt.resolve_right fun hbefore => ?_
    -- a word that begins before the surname would begin among the initials, or hold the first one
    rcases le_or_gt m₁.start m.start with hi | hi
    · exact not_beginsWord_of_initials hspace h.initials le_rfl hip
        (lower_behind_of_word hword₁ hi (by omega) hx hupper)
    · exact not_beginsWord_of_initials hspace h.initials hi.le hbefore
        (beginsWord_of_word hword₁).1
  have htext : m₁.text = PySeq.slice text p m.stop := by
    have hprefers := Regex.prefers_of_mem_finditer (by rfl) hm₁
    rw [hat] at hprefers
    exact hprefers.unique h.prefers
  have hstop₁ : m₁.stop = m.stop := by
    rw [(slice_of_match hm₁).2.1, htext, PySeq.length_slice_natCast text hle, hat]
    omega
  rcases PySeq.eq_or_rel_of_pairwise (Regex.pairwise_finditer _ text) hm₁ hmt with rfl | hle' | hle'
  · exact ⟨by omega, by rw [htstart, htstop, hat, hstop₁]⟩
  · omega
  · omega

/-- The candidates of the two patterns. -/
theorem mem_detectInitialsForms {c : Candidate} :
    c ∈ detectInitialsForms rt text ↔
      (∃ m ∈ (initialsThenSurnamePattern rt.unicode).finditer text, ∃ p,
        InitialsFirst rt.unicode text m p ∧
          initialsCandidate rt m (p, PySeq.slice text p m.stop)
            (m.start, PySeq.slice text m.start p) = some c) ∨
        ∃ m ∈ (surnameThenInitialsPattern rt.unicode).finditer text, ∃ q,
          InitialsLast rt.unicode text m q ∧
            initialsCandidate rt m (m.start, PySeq.slice text m.start q)
              (q + 1, PySeq.slice text (q + 1 : ℕ) m.stop) = some c := by
  rw [detectInitialsForms, List.mem_append, List.mem_filterMap, List.mem_filterMap]
  refine or_congr (exists_congr fun m => ⟨?_, ?_⟩) (exists_congr fun m => ⟨?_, ?_⟩)
  · rintro ⟨hm, hc⟩
    obtain ⟨p, hfirst⟩ := exists_initialsFirst hm
    simp only [hfirst.group_one, hfirst.group_two] at hc
    exact ⟨hm, p, hfirst, hc⟩
  · rintro ⟨hm, p, hfirst, hc⟩
    refine ⟨hm, ?_⟩
    simp only [hfirst.group_one, hfirst.group_two]
    exact hc
  · rintro ⟨hm, hc⟩
    obtain ⟨q, hlast⟩ := exists_initialsLast hm
    simp only [hlast.group_one, hlast.group_two] at hc
    exact ⟨hm, q, hlast, hc⟩
  · rintro ⟨hm, q, hlast, hc⟩
    refine ⟨hm, ?_⟩
    simp only [hlast.group_one, hlast.group_two]
    exact hc

/-- A word that a candidate of the initials forms covers has initials. -/
theorem withInitials_of_covers
    (hspace : ∀ c, isWordLetter c = true → rt.unicode.isSpace c = false)
    (ht : t ∈ nameTokens rt text) {c : Candidate} (hc : c ∈ detectInitialsForms rt text)
    (hcovers : Covers c t) : WithInitials rt text t := by
  obtain ⟨hbegins, hlt, hlang, hrole⟩ := word_of_mem_nameTokens ht
  obtain ⟨-, hstart, hstop⟩ := hcovers
  rcases mem_detectInitialsForms.1 hc with ⟨m, hm, p, hfirst, hc⟩ | ⟨m, hm, q, hlast, hc⟩
  · obtain ⟨hsurname, hcstart, -, hcstop⟩ := initialsCandidate_spec hc
    obtain ⟨-, hmstop, hmle⟩ := slice_of_match hm
    have hblanks := (List.rdropWhile_prefix (· == ' ') m.text).length_le
    obtain ⟨rfl, heq⟩ := hfirst.eq_start hspace hmle ht (by omega) (by omega)
    rw [heq, IsSurname, hrole] at hsurname
    exact .inl ⟨Option.some.inj hsurname, m.start, hfirst.apart, hfirst.initials⟩
  · obtain ⟨hsurname, hcstart, -, hcstop⟩ := initialsCandidate_spec hc
    obtain ⟨-, hmstop, hmle⟩ := slice_of_match hm
    have hblanks := (List.rdropWhile_prefix (· == ' ') m.text).length_le
    have hbehind : InitialsBehind rt.unicode text q := hlast.behind hmle
    have hlt' := hlast.lt_of_beginsWord hspace hbegins (by omega)
    refine .inr ⟨m.start, q, by omega, ?_, hlast.word, fun p' hp' =>
      hlast.longest hspace hm hbehind hp', hsurname, hbehind⟩
    by_contra hle
    obtain ⟨a, ha, hblank⟩ := hlast.space
    rw [hspace a (isWordLetter_of_word hlang hlt'.le (Nat.not_le.1 hle) ha)] at hblank
    cases hblank

/-- A word that has initials is covered by a candidate of the initials forms. -/
theorem exists_covers_of_withInitials
    (hspace : ∀ c, isWordLetter c = true → rt.unicode.isSpace c = false)
    (ht : t ∈ nameTokens rt text) (h : WithInitials rt text t) :
    ∃ c ∈ detectInitialsForms rt text, Covers c t := by
  obtain ⟨-, hlt, hlang, hrole⟩ := word_of_mem_nameTokens ht
  have htle : t.stop ≤ text.length := (nameTokens_range rt ht).2
  rcases h with ⟨hsurname, hinitials⟩ | ⟨p, q, hpt, htq, hlangq, hlongest, hsurname, hinitials⟩
  · obtain ⟨m, hm, hfirst⟩ := read_initialsFirst hspace htle hlang hinitials
    obtain ⟨hmtext, hmstop, hmle⟩ := slice_of_match hm
    have hip := (starts_of_initials Nat.one_pos hfirst.initials).1
    have hpq := (beginsWord_of_word hfirst.word).2
    have heq := hfirst.word_eq ht
    have hstop : t.stop = m.stop := by
      have hlen := congrArg List.length heq
      rw [PySeq.length_slice_natCast text hmle, PySeq.length_slice_natCast text htle] at hlen
      omega
    obtain ⟨c, hc⟩ := exists_initialsCandidate m (t.start, PySeq.slice text t.start m.stop)
      (m.start, PySeq.slice text m.start t.start)
      (show IsSurname rt _ by rw [heq, IsSurname, hrole, hsurname])
    obtain ⟨-, hcstart, htype, hcstop⟩ := initialsCandidate_spec hc
    have hblanks := length_le_rdropWhile hfirst.word (PySeq.slice text m.start t.start) []
    rw [List.append_nil, PySeq.slice_append_slice text hip.le (by omega), ← hmtext] at hblanks
    exact ⟨c, mem_detectInitialsForms.2 (.inl ⟨m, hm, _, hfirst, hc⟩), htype, by omega, by omega⟩
  · have hq : q ≤ text.length := by
      obtain ⟨a, ha, -⟩ := hinitials.space
      exact (List.getElem?_eq_some_iff.1 ha).1.le
    obtain ⟨m, hm, rfl, hlast⟩ := read_initialsLast hspace hlangq hlongest hq hinitials
    obtain ⟨hmtext, hmstop, hmle⟩ := slice_of_match hm
    obtain ⟨c, hc⟩ := exists_initialsCandidate m (m.start, PySeq.slice text m.start q)
      (q + 1, PySeq.slice text (q + 1 : ℕ) m.stop) hsurname
    obtain ⟨-, hcstart, htype, hcstop⟩ := initialsCandidate_spec hc
    have hlt' := (starts_of_initials Nat.two_pos hlast.initials).1
    have hblanks := length_le_rdropWhile hlangq [] (PySeq.slice text q m.stop)
    rw [List.nil_append, PySeq.slice_append_slice text (by omega) (by omega), ← hmtext,
      PySeq.length_slice_natCast text hq] at hblanks
    exact ⟨c, mem_detectInitialsForms.2 (.inr ⟨m, hm, q, hlast, hc⟩), htype, by omega, by omega⟩

end Found

variable (rt : Runtime) (text : Text) in
/-- **When a word of a name is found**: it lies in a candidate exactly when it is not left over by
the cutting of its row into runs of three, or has initials. -/
theorem name_covered_iff (hspace : ∀ c, isWordLetter c = true → rt.unicode.isSpace c = false)
    (before after : List NameToken) (t : NameToken)
    (htokens : nameTokens rt text = before ++ t :: after) :
    ∃ cs, (fullNameDetector rt).detect text = .ok cs ∧
      ((∃ c ∈ cs, Covers c t) ↔
        ¬LeftOver rt.unicode text before t after ∨ WithInitials rt text t) := by
  refine ⟨_, rfl, ?_⟩
  have hmem : t ∈ nameTokens rt text := htokens ▸ List.mem_append_right _ List.mem_cons_self
  rw [← run_covers_iff rt htokens]
  constructor
  · rintro ⟨c, hc, hcovers⟩
    rcases List.mem_append.1 hc with hc | hc
    · obtain ⟨run, hrun, rfl⟩ := List.mem_map.1 hc
      exact .inl ⟨run, hrun, hcovers⟩
    · exact .inr (withInitials_of_covers hspace hmem hc hcovers)
  · rintro (⟨run, hrun, hcovers⟩ | hinitials)
    · exact ⟨_, List.mem_append_left _ (List.mem_map.2 ⟨run, hrun, rfl⟩), hcovers⟩
    · obtain ⟨c, hc, hcovers⟩ := exists_covers_of_withInitials hspace hmem hinitials
      exact ⟨c, List.mem_append_right _ hc, hcovers⟩

/-- The words of a text with its words of names cut at the word with the given number. -/
theorem nameTokens_split {text : Text} {n : ℕ} (i : Fin n)
    (hn : (nameTokens surnamesRuntime text).length = n) :
    nameTokens surnamesRuntime text = (nameTokens surnamesRuntime text).take i ++
      (nameTokens surnamesRuntime text).get (i.cast hn.symm) ::
        (nameTokens surnamesRuntime text).drop (i + 1) := by
  conv_lhs => rw [← List.take_append_drop i (nameTokens surnamesRuntime text)]
  rw [List.drop_eq_getElem_cons (i.isLt.trans_eq hn.symm)]
  rfl

/-- A surname with an initial before it. -/
def aliasText : Text := "Анна И. Ким".toList

theorem length_aliasText : (nameTokens surnamesRuntime aliasText).length = 2 := by decide +kernel

/-- The surname is left over, and is found by its initial. -/
theorem name_covered_iff_alias :
    ∃ cs, (fullNameDetector surnamesRuntime).detect aliasText = .ok cs ∧
      ∃ c ∈ cs, Covers c
        ((nameTokens surnamesRuntime aliasText).get (Fin.cast length_aliasText.symm 1)) := by
  have hspace (c : Char) (hc : isWordLetter c = true) :
      surnamesRuntime.unicode.isSpace c = false := by
    rw [← Bool.not_eq_true]
    intro hblank
    have hall : (" \t\n\r\x0b\x0c".toList.all fun c => !isWordLetter c) = true := by decide
    have hmem : c ∈ " \t\n\r\x0b\x0c".toList := by
      have hblank : isBasicSpace c = true := hblank
      simpa [isBasicSpace, or_assoc] using hblank
    have h := List.all_eq_true.1 hall c hmem
    rw [hc] at h
    cases h
  obtain ⟨cs, hcs, hfound⟩ := name_covered_iff surnamesRuntime aliasText hspace _ _ _
    (nameTokens_split 1 length_aliasText)
  refine ⟨cs, hcs, hfound.2 (.inr (.inl ⟨by decide +kernel, 5, by decide +kernel, ?_⟩))⟩
  exact (Regex.mem_lang_iff (by rfl) _).2 (by decide +kernel)

/-- Four words in a row. -/
def row : Text := "Анна Ким Анна Ким".toList

theorem length_row : (nameTokens surnamesRuntime row).length = 4 := by decide +kernel

/-- The fourth word of a row is left over. -/
theorem fourth_word_left_over :
    ¬∀ (rt : Runtime) (text : Text) (before after : List NameToken) (t : NameToken),
      nameTokens rt text = before ++ t :: after → HasNeighbour rt.unicode text before t after →
        ∃ cs, (fullNameDetector rt).detect text = .ok cs ∧ ∃ c ∈ cs, Covers c t := by
  intro h
  have hjoined : ((nameTokens surnamesRuntime row).take 3).getLast?.any (joins basicUnicode row ·
      ((nameTokens surnamesRuntime row).get (Fin.cast length_row.symm 3))) = true := by
    decide +kernel
  obtain ⟨cs, hcs, c, hc, hcovers⟩ :=
    h surnamesRuntime row _ _ _ (nameTokens_split 3 length_row) (.inl hjoined)
  have hnone : ∀ c ∈ detectFullNames surnamesRuntime row,
      ¬Covers c ((nameTokens surnamesRuntime row).get (Fin.cast length_row.symm 3)) := by
    decide +kernel
  exact hnone c (Except.ok.inj hcs ▸ hc) hcovers

end PiiProxy
