import PiiProxy.Context.Engine

/-!
# What the letters of a name contribute to its context

The window in which the engine looks for keywords contains the name itself. It is made of a piece of
the text before the name, the name, and a piece of the text behind it; the two pieces depend on the
length of the name only. So a name with letters that are a keyword, as "Роман", is judged by its own
letters: it is kept as that of a public figure where another name in the same place is masked.

A keyword is found where it stands at the start of a word and the word goes on for two characters at
most. So it stands before the name with all of its word, or behind the name and another character,
or else the letters of the name have a part in it.

## Main definitions

* `leftPart`, `rightPart`: the pieces of the window before and behind a name.
* `FoundBefore`, `FoundBehind`, `FoundAt`: where a keyword stands.
* `LowersParts`: lower case is that of the parts of a text.
* `Voice`, `voice`: the kind of keywords that a window holds.
* `NameAt`: a candidate for a name behind a text.
* `Outside`, `OwnLetters`: the keywords outside of a name and those of its own letters.
* `LettersAlike`: the letters of two names are alike as far as they matter.

## Main results

* `attributedWindow_append`: the window around a name.
* `keywordHit_append_iff`: where a keyword of a window stands.
* `decideFullName_decision`: the decision follows the voice of the window.
* `ContextualPrivacyEngine.same_decision_iff`: when two names in one place are decided alike.
-/

namespace PiiProxy

/-! ### The window around a name -/

/-- Where the sentence begins, for a span behind `p`. -/
def sentenceLeft (p : Text) (radius : ℕ) : ℕ :=
  let before := p.drop (p.length - radius)
  p.length - radius + (before.length - (before.reverse.takeWhile fun c => !isTerminator c).length)

/-- How far the sentence goes on in the text `q` behind a span. -/
def sentenceRight (q : Text) (radius : ℕ) : ℕ :=
  match (q.take radius).findIdx? isTerminator with
  | some i => i + 1
  | none => (q.take radius).length

theorem sentenceLeft_le (p : Text) (radius : ℕ) : sentenceLeft p radius ≤ p.length := by
  simp only [sentenceLeft, List.length_drop]
  omega

/-- The bounds of the sentence around a name. -/
theorem sentenceBounds_append (p n q : Text) (radius : ℕ) :
    sentenceBounds (p ++ n ++ q) p.length (p.length + n.length) radius =
      (sentenceLeft p radius, p.length + n.length + sentenceRight q radius) := by
  have hleft : p.length - radius ≤ p.length := Nat.sub_le _ _
  have hdrop : (p.drop (p.length - radius)).length = p.length - (p.length - radius) :=
    List.length_drop
  have hhere : PySeq.slice (p ++ n ++ q) (p.length - radius : ℕ)
      (min (p ++ n ++ q).length (p.length + n.length + radius) : ℕ) =
        p.drop (p.length - radius) ++ (n ++ q.take radius) := by
    have hmin : min (p ++ n ++ q).length (p.length + n.length + radius) =
        p.length + (n.length + min q.length radius) := by
      simp only [List.length_append]
      omega
    rw [PySeq.slice_natCast, hmin, List.append_assoc, List.take_length_add_append,
      List.take_length_add_append, Nat.min_comm, ← List.take_eq_take_min,
      List.drop_append_of_le_length hleft]
  have hbefore : PySeq.slice (p.drop (p.length - radius) ++ (n ++ q.take radius)) (0 : ℕ)
      (p.length - (p.length - radius) : ℕ) = p.drop (p.length - radius) := by
    rw [PySeq.slice_natCast, ← hdrop, List.take_left, List.drop_zero]
  have hafter : (p.drop (p.length - radius) ++ (n ++ q.take radius)).drop
      (p.length + n.length - (p.length - radius)) = q.take radius := by
    have hrel : p.length + n.length - (p.length - radius) =
        (p.drop (p.length - radius)).length + n.length := by
      rw [hdrop]
      omega
    rw [hrel, List.drop_length_add_append, List.drop_left]
  simp only [sentenceBounds, hhere, hafter]
  rw [show ((0 : ℤ)) = ((0 : ℕ) : ℤ) from rfl, hbefore]
  refine Prod.ext rfl ?_
  rw [sentenceRight]
  cases (q.take radius).findIdx? isTerminator with
  | some i =>
    have hle : p.length - radius ≤ p.length + n.length := hleft.trans (Nat.le_add_right _ _)
    dsimp only
    rw [Nat.add_assoc _ i 1, ← Nat.add_assoc, Nat.add_sub_cancel' hle]
  | none =>
    dsimp only
    rw [List.length_append, List.length_append, hdrop]
    omega

/-- Clipping the bounds of a window for the span of another candidate. -/
def clip (start stop : ℕ) (b other : ℕ × ℕ) : ℕ × ℕ :=
  if other.2 ≤ start then (max b.1 other.2, b.2)
  else if stop ≤ other.1 then (b.1, min b.2 other.1)
  else b

/-- The bounds stay around the span. -/
theorem foldl_clip_bounds {start stop : ℕ} (spans : List (ℕ × ℕ)) {b : ℕ × ℕ}
    (hb : b.1 ≤ start ∧ stop ≤ b.2) :
    (spans.foldl (clip start stop) b).1 ≤ start ∧ stop ≤ (spans.foldl (clip start stop) b).2 := by
  induction spans generalizing b with
  | nil => exact hb
  | cons other spans ih =>
    refine ih ?_
    rw [clip]
    split_ifs with hleft hright
    · exact ⟨max_le hb.1 hleft, hb.2⟩
    · exact ⟨hb.1, le_min hb.2 hright⟩
    · exact hb

/-- The span itself clips nothing. -/
theorem foldl_clip_filter {start stop : ℕ} (hlt : start < stop) {c : Candidate}
    (hspan : (c.start, c.stop) = (start, stop)) (cs : List Candidate) (b : ℕ × ℕ) :
    ((cs.filter (· ≠ c)).map fun o => (o.start, o.stop)).foldl (clip start stop) b =
      (cs.map fun o => (o.start, o.stop)).foldl (clip start stop) b := by
  induction cs generalizing b with
  | nil => rfl
  | cons o cs ih =>
    rw [List.filter_cons]
    by_cases ho : o = c
    · subst ho
      have hsame : clip start stop b (start, stop) = b := by
        rw [clip, if_neg (Nat.not_le.2 hlt), if_neg (Nat.not_le.2 hlt)]
      rw [if_neg (by simp), ih, List.map_cons, List.foldl_cons, hspan, hsame]
    · rw [if_pos (by simpa using ho), List.map_cons, List.foldl_cons, ih, List.map_cons,
        List.foldl_cons]

/-- The bounds of the window around a name of `k` characters behind `p`. -/
def contextBounds (p q : Text) (k : ℕ) (spans : List (ℕ × ℕ)) (radius : ℕ) : ℕ × ℕ :=
  spans.foldl (clip p.length (p.length + k))
    (sentenceLeft p radius, p.length + k + sentenceRight q radius)

theorem contextBounds_spec (p q : Text) (k : ℕ) (spans : List (ℕ × ℕ)) (radius : ℕ) :
    (contextBounds p q k spans radius).1 ≤ p.length ∧
      p.length + k ≤ (contextBounds p q k spans radius).2 :=
  foldl_clip_bounds spans ⟨sentenceLeft_le p radius, Nat.le_add_right _ _⟩

/-- The piece of the window before a name of `k` characters. -/
def leftPart (p q : Text) (k : ℕ) (spans : List (ℕ × ℕ)) (radius : ℕ) : Text :=
  p.drop (contextBounds p q k spans radius).1

/-- The piece of the window behind a name of `k` characters. -/
def rightPart (p q : Text) (k : ℕ) (spans : List (ℕ × ℕ)) (radius : ℕ) : Text :=
  q.take ((contextBounds p q k spans radius).2 - (p.length + k))

/-- **The window around a name** is the name between two pieces that depend on its length only. -/
theorem attributedWindow_append (p n q : Text) (spans : List (ℕ × ℕ)) (radius : ℕ) :
    attributedWindow (p ++ n ++ q) p.length (p.length + n.length) spans radius =
      leftPart p q n.length spans radius ++ n ++ rightPart p q n.length spans radius := by
  obtain ⟨hleft, hright⟩ := contextBounds_spec p q n.length spans radius
  have hwindow : attributedWindow (p ++ n ++ q) p.length (p.length + n.length) spans radius =
      PySeq.slice (p ++ n ++ q) (contextBounds p q n.length spans radius).1
        (contextBounds p q n.length spans radius).2 := by
    rw [attributedWindow, sentenceBounds_append]
    rfl
  obtain ⟨k, hk⟩ := Nat.exists_eq_add_of_le hright
  rw [hwindow, PySeq.slice_natCast, leftPart, rightPart, hk, Nat.add_sub_cancel_left,
    List.append_assoc, Nat.add_assoc, List.take_length_add_append, List.take_length_add_append,
    List.drop_append_of_le_length hleft, List.append_assoc]

/-! ### Keywords beside a name -/

section Parts

variable (u : Unicode)

/-- The keyword stands in the text, and so does all of the word around it. -/
def FoundBefore (text kw : Text) : Prop :=
  ∃ pre post, text = pre ++ (kw ++ post) ∧ PyAccepts u pre.getLast? post ∧
    post.takeWhile (isWordChar u) ≠ post

/-- The keyword stands in the text behind another character. -/
def FoundBehind (text kw : Text) : Prop :=
  ∃ pre post, text = pre ++ (kw ++ post) ∧ PyAccepts u pre.getLast? post ∧ pre ≠ []

/-- Between `left` and `right` the keyword stands so that it reaches into the middle part or borders
on it, with the ending of its word counted in. -/
def FoundAt (left middle right kw : Text) : Prop :=
  ∃ pre post, left ++ middle ++ right = pre ++ (kw ++ post) ∧ PyAccepts u pre.getLast? post ∧
    left.length ≤ pre.length + kw.length + (post.takeWhile (isWordChar u)).length ∧
    pre.length ≤ left.length + middle.length

variable {u}

/-- What stops inside of a text stops there, whatever stands behind the text. -/
private theorem takeWhile_append_of_ne {f : Char → Bool} {s : Text} (hs : s.takeWhile f ≠ s)
    (rest : Text) : (s ++ rest).takeWhile f = s.takeWhile f := by
  rw [List.takeWhile_append, if_neg]
  intro hlen
  exact hs ((List.takeWhile_prefix f).eq_of_length hlen)

/-- **A keyword stands before the name, behind it, or reaches into it.** -/
theorem keywordHit_append_iff {kw : Text} (hkw : kw ≠ []) (left middle right : Text) :
    keywordHit u (left ++ middle ++ right) kw = true ↔
      (FoundBefore u left kw ∨ FoundBehind u right kw) ∨ FoundAt u left middle right kw := by
  rw [keywordHit_iff u hkw]
  constructor
  · rintro ⟨pre, post, hsplit, haccepts⟩
    by_cases hreach : left.length ≤
        pre.length + kw.length + (post.takeWhile (isWordChar u)).length
    · by_cases hborder : pre.length ≤ left.length + middle.length
      · exact .inr ⟨pre, post, hsplit, haccepts, hreach, hborder⟩
      · -- the character before the keyword stands behind the name
        obtain ⟨pre', rfl⟩ : left ++ middle <+: pre := by
          refine List.prefix_of_prefix_length_le ⟨right, hsplit⟩ ⟨kw ++ post, rfl⟩ ?_
          rw [List.length_append]
          omega
        have hne : pre' ≠ [] := by
          rintro rfl
          rw [List.append_nil, List.length_append] at hborder
          exact hborder le_rfl
        rw [List.append_assoc (left ++ middle)] at hsplit
        rw [List.getLast?_append_of_ne_nil _ hne] at haccepts
        exact .inl (.inr ⟨pre', post, List.append_cancel_left hsplit, haccepts, hne⟩)
    · -- the word around the keyword ends before the name
      obtain ⟨post', hpost⟩ : pre ++ kw <+: left := by
        refine List.prefix_of_prefix_length_le ⟨post, ?_⟩ ⟨middle ++ right, rfl⟩ ?_
        · rw [List.append_assoc, ← hsplit, List.append_assoc]
        · rw [List.length_append]
          omega
      have hbehind : post = post' ++ (middle ++ right) := by
        rw [← hpost] at hsplit
        simp only [List.append_assoc] at hsplit
        exact (List.append_cancel_left (List.append_cancel_left hsplit)).symm
      have hstop : post'.takeWhile (isWordChar u) ≠ post' := by
        intro hall
        rw [hbehind, List.takeWhile_append, if_pos (by rw [hall]), List.length_append, ← hpost,
          List.length_append, List.length_append] at hreach
        omega
      rw [hbehind] at haccepts
      refine .inl (.inl ⟨pre, post', ?_, ⟨haccepts.1, ?_⟩, hstop⟩)
      · rw [← hpost, List.append_assoc]
      · have hshort := haccepts.2
        rwa [takeWhile_append_of_ne hstop] at hshort
  · rintro ((⟨pre, post, rfl, ⟨hbefore, hshort⟩, hstop⟩ | ⟨pre, post, rfl, haccepts, hne⟩) |
      ⟨pre, post, hsplit, haccepts, -⟩)
    · refine ⟨pre, post ++ (middle ++ right), by simp only [List.append_assoc], hbefore, ?_⟩
      rwa [takeWhile_append_of_ne hstop]
    · refine ⟨left ++ middle ++ pre, post, by simp only [List.append_assoc], ?_⟩
      rwa [List.getLast?_append_of_ne_nil _ hne]
    · exact ⟨pre, post, hsplit, haccepts⟩

end Parts

/-! ### Lower case -/

/-- The two forms of the small sigma, of which the second stands at the end of words. -/
def foldSigma (text : Text) : Text := text.map fun c => if c == 'ς' then 'σ' else c

/-- `str.lower` lowers the parts of a text one by one, but for the form of a small sigma, and both
forms are letters. -/
structure LowersParts (u : Unicode) : Prop where
  append : ∀ s t, foldSigma (u.lower (s ++ t)) = foldSigma (u.lower s) ++ foldSigma (u.lower t)
  isAlnum : u.isAlnum 'ς' = u.isAlnum 'σ'

/-- A keyword without a sigma is found whatever the form of the sigmas around it is. -/
theorem keywordHit_foldSigma {u : Unicode} (hu : LowersParts u) {kw : Text} (hkw : 'ς' ∉ kw)
    (hkw' : 'σ' ∉ kw) (text : Text) : keywordHit u (foldSigma text) kw = keywordHit u text kw := by
  have hword (c : Char) : isWordChar u (if c == 'ς' then 'σ' else c) = isWordChar u c := by
    split_ifs with hc
    · rw [eq_of_beq hc, isWordChar, isWordChar, hu.isAlnum]
      rfl
    · rfl
  have hbegins (kw s : Text) (hkw : 'ς' ∉ kw) (hkw' : 'σ' ∉ kw) :
      kw.isPrefixOf (foldSigma s) = kw.isPrefixOf s := by
    induction kw generalizing s with
    | nil => rfl
    | cons a kw ih =>
      cases s with
      | nil => rfl
      | cons c s =>
        rw [List.mem_cons, not_or] at hkw hkw'
        have hsame : (a == if c == 'ς' then 'σ' else c) = (a == c) := by
          split_ifs with hc
          · rw [eq_of_beq hc, beq_false_of_ne (Ne.symm hkw'.1), beq_false_of_ne (Ne.symm hkw.1)]
          · rfl
        rw [foldSigma, List.map_cons, List.isPrefixOf, List.isPrefixOf, hsame]
        exact congrArg _ (ih s hkw.2 hkw'.2)
  have htail (s : Text) : tailIsShort u (foldSigma s) = tailIsShort u s := by
    rw [tailIsShort, tailIsShort, foldSigma, List.takeWhile_map, List.length_map]
    have hcomp : (isWordChar u ∘ fun c => if c == 'ς' then 'σ' else c) = isWordChar u :=
      funext hword
    rw [hcomp]
  have hfrom (prev : Option Char) : keywordHitFrom u kw
      (prev.map fun c => if c == 'ς' then 'σ' else c) (foldSigma text) =
        keywordHitFrom u kw prev text := by
    induction text generalizing prev with
    | nil => rfl
    | cons c text ih =>
      have hdrop : (foldSigma (c :: text)).drop kw.length =
          foldSigma ((c :: text).drop kw.length) := List.map_drop.symm
      have hprev : (prev.map fun c => if c == 'ς' then 'σ' else c).any (isWordChar u) =
          prev.any (isWordChar u) := by
        cases prev with
        | none => rfl
        | some b => exact hword b
      change keywordHitFrom u kw _ ((if c == 'ς' then 'σ' else c) :: foldSigma text) = _
      rw [keywordHitFrom, keywordHitFrom, hprev]
      change (kw.isPrefixOf (foldSigma (c :: text)) && _ &&
        tailIsShort u ((foldSigma (c :: text)).drop kw.length) || _) = _
      rw [hbegins _ _ hkw hkw', hdrop, htail]
      exact congrArg _ (ih (some c))
  exact hfrom none

/-! ### The voice of a window -/

/-- The kind of the keywords that decide about a name. -/
inductive Voice where
  | priv | publ | silent
  deriving DecidableEq, Repr

/-- The keywords whose presence masks a name. -/
def privateKeywords : List String :=
  personalRoles ++ privateActions ++ bankPrivateConcepts ++ strongRelatedPiiKeywords

/-- A window holds one of the keywords. -/
def hears (u : Unicode) (windowLower : Text) (keywords : List String) : Bool :=
  keywords.any fun kw => keywordHit u windowLower kw.toList

/-- The kind of keywords that the window holds; a known public figure counts as a public keyword. -/
def voice (u : Unicode) (known : Bool) (windowLower : Text) : Voice :=
  if hears u windowLower privateKeywords then .priv
  else if known || hears u windowLower publicMarkers then .publ
  else .silent

theorem length_countHits_pos_iff (u : Unicode) (windowLower : Text) (keywords : List String) :
    0 < (countHits u windowLower keywords).length ↔ hears u windowLower keywords = true := by
  rw [countHits, List.length_pos_iff_exists_mem, hears, List.any_eq_true]
  simp only [List.mem_filter]

namespace ContextualPrivacyEngine

variable (e : ContextualPrivacyEngine)

/-- The decision for a voice. -/
def decisionOf : Voice → Decision
  | .priv => .mask
  | .publ => .keep
  | .silent => if e.emitUncertain then .uncertain else .mask

/-- **The decision follows the voice of the window.** -/
theorem decideFullName_decision (c : Candidate) (windowLower : Text) :
    (e.decideFullName c windowLower).decision =
      e.decisionOf (voice e.unicode c.metadata.knownPublicFigure windowLower) := by
  have hpriv (a b c d : ℕ) : 0 < a * 2 + b * 2 + c + d * 3 ↔ (0 < a ∨ 0 < b) ∨ (0 < c ∨ 0 < d) := by
    omega
  have hpubl (a : ℕ) (known : Bool) :
      0 < a * 2 + (if known = true then 2 else 0) ↔ known = true ∨ 0 < a := by
    split_ifs with hknown
    · simp [hknown]
    · simp [hknown]
  have hprivate : hears e.unicode windowLower privateKeywords = true ↔
      (0 < (countHits e.unicode windowLower personalRoles).length ∨
        0 < (countHits e.unicode windowLower privateActions).length) ∨
      (0 < (countHits e.unicode windowLower bankPrivateConcepts).length ∨
        0 < (countHits e.unicode windowLower strongRelatedPiiKeywords).length) := by
    simp only [length_countHits_pos_iff, hears, privateKeywords, List.any_append, Bool.or_eq_true,
      or_assoc]
  have hpublic : (c.metadata.knownPublicFigure ||
    hears e.unicode windowLower publicMarkers) = true ↔
      c.metadata.knownPublicFigure = true ∨
        0 < (countHits e.unicode windowLower publicMarkers).length := by
    rw [Bool.or_eq_true, length_countHits_pos_iff]
  simp only [decideFullName, hpriv, hpubl, ← hprivate, ← hpublic]
  by_cases hpriv : hears e.unicode windowLower privateKeywords = true
  · rw [if_pos hpriv, voice, if_pos hpriv]
    rfl
  · rw [if_neg hpriv, voice, if_neg hpriv]
    by_cases hpubl : (c.metadata.knownPublicFigure ||
      hears e.unicode windowLower publicMarkers) = true
    · rw [if_pos hpubl, if_pos hpubl]
      rfl
    · rw [if_neg hpubl, if_neg hpubl]
      exact e.noSignal_decision c

/-! ### Two names in one place -/

/-- The candidate is one for the name `n` behind the text `p`. -/
structure NameAt (p n : Text) (c : Candidate) : Prop where
  type_eq : c.type = .fullName
  start_eq : c.start = p.length
  stop_eq : c.stop = p.length + n.length

variable (p q : Text) (spans : List (ℕ × ℕ))

/-- What the engine searches for keywords around the name `n`, between `p` and `q`. -/
def windowLower (n : Text) : Text :=
  e.unicode.lower (leftPart p q n.length spans e.windowChars ++ n ++
    rightPart p q n.length spans e.windowChars)

/-- The text as keywords are looked for in it. -/
def lowered (text : Text) : Text := foldSigma (e.unicode.lower text)

/-- One of the keywords stands in the window outside of a name of `k` characters. -/
def Outside (k : ℕ) (keywords : List String) : Prop :=
  ∃ kw ∈ keywords,
    FoundBefore e.unicode (e.lowered (leftPart p q k spans e.windowChars)) kw.toList ∨
      FoundBehind e.unicode (e.lowered (rightPart p q k spans e.windowChars)) kw.toList

/-- The letters of the name belong to one of the keywords, or to the word around it. -/
def OwnLetters (n : Text) (keywords : List String) : Prop :=
  ∃ kw ∈ keywords, FoundAt e.unicode (e.lowered (leftPart p q n.length spans e.windowChars))
    (e.lowered n) (e.lowered (rightPart p q n.length spans e.windowChars)) kw.toList

/-- The letters of the name belong to a public keyword, and to no private one. -/
def OnlyPublic (n : Text) : Prop :=
  e.OwnLetters p q spans n publicMarkers ∧ ¬e.OwnLetters p q spans n privateKeywords

/-- The letters of two names of `k` characters are alike as far as they matter: beside something
public, whether they are a private keyword; beside nothing, whether they are a public keyword
only, and for the hand-over of names without context also whether they are a private one. -/
structure LettersAlike (known : Bool) (k : ℕ) (n n' : Text) : Prop where
  beside_public : known = true ∨ e.Outside p q spans k publicMarkers →
    (e.OwnLetters p q spans n privateKeywords ↔ e.OwnLetters p q spans n' privateKeywords)
  beside_nothing : known = false → ¬e.Outside p q spans k publicMarkers →
    (e.OnlyPublic p q spans n ↔ e.OnlyPublic p q spans n')
  hand_over : known = false → ¬e.Outside p q spans k publicMarkers → e.emitUncertain = true →
    (e.OwnLetters p q spans n privateKeywords ↔ e.OwnLetters p q spans n' privateKeywords)

variable {p q spans}

/-- The decision about a name follows the voice of the window around it. -/
theorem decide_name {n : Text} (hn : n ≠ []) {c : Candidate} (hc : NameAt p n c)
    {cs : List Candidate} (hspans : (cs.map fun o => (o.start, o.stop)) = spans) :
    (e.decide (p ++ n ++ q) c cs).decision =
      e.decisionOf (voice e.unicode c.metadata.knownPublicFigure (e.windowLower p q spans n)) := by
  have hlt : p.length < p.length + n.length :=
    Nat.lt_add_of_pos_right (List.length_pos_of_ne_nil hn)
  have hwindow : attributedWindow (p ++ n ++ q) c.start c.stop
      ((cs.filter (· ≠ c)).map fun o => (o.start, o.stop)) e.windowChars =
        attributedWindow (p ++ n ++ q) p.length (p.length + n.length) spans e.windowChars := by
    rw [hc.start_eq, hc.stop_eq, ← hspans]
    unfold attributedWindow
    have hfold := foldl_clip_filter hlt (c := c) (by rw [hc.start_eq, hc.stop_eq]) cs
      (sentenceBounds (p ++ n ++ q) p.length (p.length + n.length) e.windowChars)
    exact congrArg (fun b : ℕ × ℕ => PySeq.slice (p ++ n ++ q) b.1 b.2) hfold
  rw [decide, hwindow, attributedWindow_append, hc.type_eq]
  exact e.decideFullName_decision c _

/-- **The window of a name holds a keyword** outside of the name or with its letters. -/
theorem hears_iff (hu : LowersParts e.unicode) {keywords : List String}
    (hsub : ∀ kw ∈ keywords, kw ∈ privateKeywords ++ publicMarkers) (n : Text) :
    hears e.unicode (e.windowLower p q spans n) keywords = true ↔
      e.Outside p q spans n.length keywords ∨ e.OwnLetters p q spans n keywords := by
  have hall : ((privateKeywords ++ publicMarkers).all fun kw => !kw.toList.isEmpty &&
      !kw.toList.contains 'ς' && !kw.toList.contains 'σ') = true := by decide +kernel
  rw [hears, List.any_eq_true, Outside, OwnLetters, ← exists_or]
  refine exists_congr fun kw => ?_
  rw [← and_or_left]
  refine and_congr_right fun hkw => ?_
  have hspec := List.all_eq_true.1 hall kw (hsub kw hkw)
  rw [Bool.and_eq_true, Bool.and_eq_true, Bool.not_eq_true', Bool.not_eq_true', Bool.not_eq_true',
    List.isEmpty_eq_false_iff] at hspec
  obtain ⟨⟨hne, hfinal⟩, hsmall⟩ := hspec
  rw [← keywordHit_foldSigma hu (by simpa using hfinal) (by simpa using hsmall), windowLower,
    hu.append, hu.append]
  exact keywordHit_append_iff hne _ _ _

/-- What a voice leads to, keyword by keyword. -/
theorem decisionOf_voice (known : Bool) (windowLower : Text) :
    e.decisionOf (voice e.unicode known windowLower) =
      if hears e.unicode windowLower privateKeywords = true then .mask
      else if (known || hears e.unicode windowLower publicMarkers) = true then .keep
      else if e.emitUncertain then .uncertain else .mask := by
  rw [voice]
  split_ifs <;> simp_all [decisionOf]

/-- Whether two names lead to one decision, when no private keyword stands outside of them. -/
private theorem decisionOf_eq_iff_of_letters {known : Bool} {n n' : Text}
    {priv publ priv' publ' : Bool}
    (hpriv : priv = true ↔ e.OwnLetters p q spans n privateKeywords)
    (hpriv' : priv' = true ↔ e.OwnLetters p q spans n' privateKeywords)
    (hpubl : publ = true ↔
      e.Outside p q spans n.length publicMarkers ∨ e.OwnLetters p q spans n publicMarkers)
    (hpubl' : publ' = true ↔
      e.Outside p q spans n.length publicMarkers ∨ e.OwnLetters p q spans n' publicMarkers) :
    (if priv = true then Decision.mask else if (known || publ) = true then .keep
      else if e.emitUncertain then .uncertain else .mask) =
        (if priv' = true then Decision.mask else if (known || publ') = true then .keep
          else if e.emitUncertain then .uncertain else .mask) ↔
      e.LettersAlike p q spans known n.length n n' := by
  by_cases hpublic : known = true ∨ e.Outside p q spans n.length publicMarkers
  · -- both names are kept, but for a private keyword
    have hkeep {b : Bool} {m : Text} (hb : b = true ↔
        e.Outside p q spans n.length publicMarkers ∨ e.OwnLetters p q spans m publicMarkers) :
        (known || b) = true := by
      rw [Bool.or_eq_true, hb]
      exact hpublic.imp_right .inl
    rw [if_pos (hkeep hpubl), if_pos (hkeep hpubl')]
    have halike : e.LettersAlike p q spans known n.length n n' ↔ (priv = true ↔ priv' = true) := by
      rw [hpriv, hpriv']
      refine ⟨fun h => h.beside_public hpublic, fun h => ⟨fun _ => h, fun hknown hno => ?_,
        fun hknown hno => ?_⟩⟩
      · exact absurd hpublic (not_or.2 ⟨Bool.not_eq_true _ ▸ hknown, hno⟩)
      · exact absurd hpublic (not_or.2 ⟨Bool.not_eq_true _ ▸ hknown, hno⟩)
    rw [halike]
    cases priv <;> cases priv' <;> simp
  · obtain ⟨hknown, hno⟩ := not_or.1 hpublic
    rw [Bool.not_eq_true] at hknown
    rw [or_iff_right hno] at hpubl hpubl'
    have halike : e.LettersAlike p q spans known n.length n n' ↔
        ((publ = true ∧ ¬priv = true) ↔ (publ' = true ∧ ¬priv' = true)) ∧
          (e.emitUncertain = true → (priv = true ↔ priv' = true)) := by
      rw [hpriv, hpriv', hpubl, hpubl']
      exact ⟨fun h => ⟨h.beside_nothing hknown hno, h.hand_over hknown hno⟩,
        fun h => ⟨fun h' => absurd h' hpublic, fun _ _ => h.1, fun _ _ => h.2⟩⟩
    rw [halike, hknown, Bool.false_or, Bool.false_or]
    cases priv <;> cases priv' <;> cases publ <;> cases publ' <;> cases e.emitUncertain <;> simp

/-- When the voices of the windows around two names lead to one decision. -/
theorem decisionOf_voice_eq_iff (hu : LowersParts e.unicode) {n n' : Text}
    (hlen : n'.length = n.length) (known : Bool) :
    e.decisionOf (voice e.unicode known (e.windowLower p q spans n)) =
        e.decisionOf (voice e.unicode known (e.windowLower p q spans n')) ↔
      e.Outside p q spans n.length privateKeywords ∨
        e.LettersAlike p q spans known n.length n n' := by
  have hpriv (m : Text) := @hears_iff e p q spans hu _
    (fun _ => List.mem_append_left publicMarkers) m
  have hpubl (m : Text) := @hears_iff e p q spans hu _
    (fun _ => List.mem_append_right privateKeywords) m
  have hpriv' := hpriv n'
  have hpubl' := hpubl n'
  rw [hlen] at hpriv' hpubl'
  rw [decisionOf_voice, decisionOf_voice]
  by_cases houtside : e.Outside p q spans n.length privateKeywords
  · rw [if_pos ((hpriv n).2 (.inl houtside)), if_pos (hpriv'.2 (.inl houtside))]
    exact iff_of_true rfl (.inl houtside)
  · rw [or_iff_right houtside]
    exact e.decisionOf_eq_iff_of_letters ((hpriv n).trans (or_iff_right houtside))
      (hpriv'.trans (or_iff_right houtside)) (hpubl n) hpubl'

/-- When a name without a keyword outside of it is masked. -/
theorem decisionOf_voice_mask_iff (hu : LowersParts e.unicode) (n : Text) {known : Bool} :
    e.emitUncertain = false → known = false →
      ¬e.Outside p q spans n.length privateKeywords →
        ¬e.Outside p q spans n.length publicMarkers →
          (e.decisionOf (voice e.unicode known (e.windowLower p q spans n)) = .mask ↔
            ¬e.OnlyPublic p q spans n) := by
  intro hemit hflag hpriv hpubl
  have hears_priv := (@hears_iff e p q spans hu _
    (fun _ => List.mem_append_left publicMarkers) n).trans (or_iff_right hpriv)
  have hears_publ := (@hears_iff e p q spans hu _
    (fun _ => List.mem_append_right privateKeywords) n).trans (or_iff_right hpubl)
  rw [decisionOf_voice, hflag, Bool.false_or, hemit, OnlyPublic, ← hears_priv, ← hears_publ]
  cases hears e.unicode (e.windowLower p q spans n) privateKeywords <;>
    cases hears e.unicode (e.windowLower p q spans n) publicMarkers <;> simp

/-- **When two names in one place are decided alike**: a private keyword stands outside of the
name, or the letters of the names are alike as far as they matter. A name without a keyword outside
of it and without the flag of a public figure is masked exactly when its own letters are not a
public keyword only. -/
theorem same_decision_iff (hu : LowersParts e.unicode) (p n n' q : Text)
    (before after : List Candidate) (c c' : Candidate) (hn : n ≠ []) (hlen : n'.length = n.length)
    (hc : NameAt p n c) (hc' : NameAt p n' c')
    (hknown : c'.metadata.knownPublicFigure = c.metadata.knownPublicFigure) (spans : List (ℕ × ℕ))
    (hspans : ((before ++ c :: after).map fun o => (o.start, o.stop)) = spans) :
    ((e.decide (p ++ n ++ q) c (before ++ c :: after)).decision =
        (e.decide (p ++ n' ++ q) c' (before ++ c' :: after)).decision ↔
      e.Outside p q spans n.length privateKeywords ∨
        e.LettersAlike p q spans c.metadata.knownPublicFigure n.length n n') ∧
    (e.emitUncertain = false → c.metadata.knownPublicFigure = false →
      ¬e.Outside p q spans n.length privateKeywords →
        ¬e.Outside p q spans n.length publicMarkers →
          ((e.decide (p ++ n ++ q) c (before ++ c :: after)).decision = .mask ↔
            ¬e.OnlyPublic p q spans n)) := by
  have hn' : n' ≠ [] := by
    refine List.ne_nil_of_length_pos ?_
    rw [hlen]
    exact List.length_pos_of_ne_nil hn
  have hspans' : ((before ++ c' :: after).map fun o => (o.start, o.stop)) = spans := by
    rw [← hspans, List.map_append, List.map_append, List.map_cons, List.map_cons, hc.start_eq,
      hc.stop_eq, hc'.start_eq, hc'.stop_eq, hlen]
  rw [e.decide_name (q := q) hn hc hspans, e.decide_name (q := q) hn' hc' hspans', hknown]
  exact ⟨e.decisionOf_voice_eq_iff hu hlen _, e.decisionOf_voice_mask_iff hu n⟩

/-- The candidate for the name between `p` and `q`. -/
def nameBehind (p n : Text) : Candidate where
  type := .fullName
  value := n
  start := p.length
  stop := p.length + n.length
  detector := "fio".toList

theorem nameAt_nameBehind (p n : Text) : NameAt p n (nameBehind p n) := ⟨rfl, rfl, rfl⟩

/-- A name that is a public keyword. -/
def roman : Text := ['Р', 'о', 'м', 'а', 'н', ' ', 'К', 'и', 'м']

/-- A name of the same length that is no keyword. -/
def anton : Text := ['А', 'н', 'т', 'о', 'н', ' ', 'К', 'и', 'м']

/-- What stands behind the name. -/
def came : Text := [' ', 'п', 'р', 'и', 'ш', 'ё', 'л', '.']

/-- What stands before the name. -/
def client : Text := ['К', 'л', 'и', 'е', 'н', 'т', ' ']

/-- Behind a private keyword the two names are decided alike. -/
theorem same_decision_iff_roman :
    let e : ContextualPrivacyEngine := { unicode := basicUnicode }
    (e.decide (client ++ roman ++ came) (nameBehind client roman)
      ([] ++ nameBehind client roman :: [])).decision =
        (e.decide (client ++ anton ++ came) (nameBehind client anton)
          ([] ++ nameBehind client anton :: [])).decision := by
  intro e
  have hu : LowersParts basicUnicode := by
    refine ⟨fun s t => ?_, rfl⟩
    simp only [foldSigma, basicUnicode, List.map_append]
  have houtside : e.Outside client came [(7, 16)] 9 privateKeywords := by
    refine ⟨"клиент", by decide, .inl ⟨[], [' '], ?_, ⟨rfl, by decide⟩, by decide⟩⟩
    decide +kernel
  exact (same_decision_iff e hu client roman anton came [] [] (nameBehind client roman)
    (nameBehind client anton) (by decide) rfl (nameAt_nameBehind _ _) (nameAt_nameBehind _ _) rfl
    [(7, 16)] rfl).1.2 (.inl houtside)

/-- The characters of a name: letters, spaces, dots and hyphens. -/
def isNameText (u : Unicode) (n : Text) : Bool :=
  n.all fun c => u.isAlpha c || c == ' ' || c == '.' || c == '-'

/-- "Роман" is a public keyword: the name is kept where "Антон" is masked. -/
theorem roman_kept :
    ¬∀ (e : ContextualPrivacyEngine) (p n n' q : Text) (before after : List Candidate)
      (c c' : Candidate), n ≠ [] → n'.length = n.length → isNameText e.unicode n = true →
        isNameText e.unicode n' = true → NameAt p n c → NameAt p n' c' →
          c'.metadata.knownPublicFigure = c.metadata.knownPublicFigure →
            (e.decide (p ++ n ++ q) c (before ++ c :: after)).decision =
              (e.decide (p ++ n' ++ q) c' (before ++ c' :: after)).decision := by
  intro h
  have hsame := h { unicode := basicUnicode } [] roman anton came [] [] (nameBehind [] roman)
    (nameBehind [] anton) (by decide) rfl (by decide +kernel) (by decide +kernel)
    (nameAt_nameBehind _ _) (nameAt_nameBehind _ _) rfl
  exact absurd hsame (by decide +kernel)

end ContextualPrivacyEngine

end PiiProxy
