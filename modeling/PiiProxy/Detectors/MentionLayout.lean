import PiiProxy.Detectors.NameRuns
import PiiProxy.Lib.RegexLanguage

/-!
# How a detected name is laid out

A name that `FullNameDetector` finds is a row of components, the words and the initials, in the
order of their offsets. Each has a role, and nothing but white space stands between two of them, or
behind the last.

## Main definitions

* `LaidOut`: a text made of components with gaps of white space.
* `IsInitial`: an initial with its full stop and the white space behind it.

## Main results

* `laidOut_runCandidate`, `laidOut_of_mem_detectInitialsForms`: the two kinds of names.
* `laidOut_of_mem_detectFullNames`: every name that is detected.
-/

namespace PiiProxy

open Pat

/-- The text, which begins at the offset `cursor` of a mention, is made of the components and of
gaps of white space. -/
inductive LaidOut (u : Unicode) : ℕ → Text → List NameComponent → Prop
  | nil {cursor : ℕ} {gap : Text} (hgap : gap.all u.isSpace = true) : LaidOut u cursor gap []
  | cons {cursor : ℕ} {gap word rest : Text} {comp : NameComponent} {comps : List NameComponent}
      (hgap : gap.all u.isSpace = true) (hword : word ≠ [])
      (hstart : comp.offsetStart = cursor + gap.length)
      (hstop : comp.offsetEnd = comp.offsetStart + word.length) (hrole : comp.role.isSome = true)
      (hrest : LaidOut u comp.offsetEnd rest comps) :
      LaidOut u cursor (gap ++ (word ++ rest)) (comp :: comps)

section LaidOut

variable {u : Unicode} {cursor : ℕ} {text : Text} {comps : List NameComponent}

/-- The components stand inside the text. -/
theorem LaidOut.inside (h : LaidOut u cursor text comps) : ∀ comp ∈ comps,
    cursor ≤ comp.offsetStart ∧ comp.offsetStart < comp.offsetEnd ∧
      comp.offsetEnd ≤ cursor + text.length := by
  induction h with
  | nil => simp
  | cons hgap hword hstart hstop hrole hrest ih =>
    have hpos := List.length_pos_of_ne_nil hword
    refine List.forall_mem_cons.2 ⟨?_, fun comp hcomp => ?_⟩
    · simp only [List.length_append]
      omega
    · have hle := ih comp hcomp
      simp only [List.length_append]
      omega

/-- The components follow one another. -/
theorem LaidOut.pairwise (h : LaidOut u cursor text comps) :
    comps.Pairwise fun comp comp' => comp.offsetEnd ≤ comp'.offsetStart := by
  induction h with
  | nil => exact .nil
  | cons _ _ _ _ _ hrest ih => exact .cons (fun comp hcomp => (hrest.inside comp hcomp).1) ih

theorem LaidOut.isSome_role (h : LaidOut u cursor text comps) :
    ∀ comp ∈ comps, comp.role.isSome = true := by
  induction h with
  | nil => simp
  | cons _ _ _ _ hrole _ ih => exact List.forall_mem_cons.2 ⟨hrole, ih⟩

/-- The components of a text that is laid out are sorted. -/
theorem LaidOut.sortedBy_eq (h : LaidOut u cursor text comps) {comps' : List NameComponent}
    (hperm : comps.Perm comps') : PySeq.sortedBy NameComponent.offsetStart comps' = comps := by
  refine PySeq.sortedBy_eq_of_perm hperm (h.pairwise.imp_of_mem fun {comp comp'} hcomp _ hle => ?_)
  exact (h.inside comp hcomp).2.1.trans_le hle

end LaidOut

/-! ### Runs -/

section Runs

variable {rt : Runtime} {text : Text}

/-- The roles of the words of a run are all known. -/
private theorem isSome_assignRoles (roles : List Role) (h : roles.length = 2 ∨ roles.length = 3) :
    (assignRoles (roles.map some) roles.length).length = roles.length ∧
      ∀ r ∈ assignRoles (roles.map some) roles.length, r.isSome = true := by
  have hall : (assignRoles (roles.map some) roles.length).length = roles.length ∧
      (assignRoles (roles.map some) roles.length).all Option.isSome = true := by
    rcases h with h | h
    · obtain ⟨a, b, rfl⟩ := List.length_eq_two.1 h
      cases a <;> cases b <;> exact ⟨rfl, rfl⟩
    · obtain ⟨a, b, c, rfl⟩ := List.length_eq_three.1 h
      cases a <;> cases b <;> cases c <;> exact ⟨rfl, rfl⟩
  exact ⟨hall.1, List.all_eq_true.1 hall.2⟩

/-- The component stands where the word stands, in a mention that begins at `start`. -/
private structure StandsAt (start : ℕ) (comp : NameComponent) (t : NameToken) : Prop where
  start_eq : comp.offsetStart = t.start - start
  stop_eq : comp.offsetEnd = t.stop - start
  isSome_role : comp.role.isSome = true

variable (rt) in
private theorem standsAt_runComponents (start : ℕ) {run : List NameToken}
    (hrun : run.length = 2 ∨ run.length = 3) (words : List Text)
    (hwords : words.length = run.length) :
    List.Forall₂ (StandsAt start) (runComponents rt start run words) run := by
  have hlabels : (run.map fun t => some t.role) = (run.map NameToken.role).map some := by
    rw [List.map_map]
    rfl
  obtain ⟨hlen, hsome⟩ := isSome_assignRoles (run.map NameToken.role)
    (by rwa [List.length_map])
  rw [← hlabels, List.length_map] at hlen hsome
  rw [List.forall₂_iff_get]
  refine ⟨by simp [runComponents, hwords], fun k hk hk' => ?_⟩
  rw [← hlen] at hk'
  refine ⟨?_, ?_, ?_⟩
  · simp [runComponents]
  · simp [runComponents]
  · have hrole := hsome _ (List.getElem_mem hk')
    simp [runComponents, List.getElem?_eq_getElem hk', hrole]

/-- The words of a run are joined, and there are two or three. -/
theorem joined_of_mem_nameRuns {u : Unicode} (fuel : ℕ) (tokens : List NameToken) :
    ∀ run ∈ nameRuns u text fuel tokens,
      (run.1 :: run.2).IsChain (fun t t' => joins u text t t' = true) ∧
        ((run.1 :: run.2).length = 2 ∨ (run.1 :: run.2).length = 3) := by
  induction fuel generalizing tokens with
  | zero =>
    intro run hrun
    cases hrun
  | succ fuel ih =>
    cases tokens with
    | nil =>
      intro run hrun
      cases hrun
    | cons t ts =>
      rcases @nameRuns_cases u text fuel t ts with ⟨-, heq⟩ |
        ⟨t₁, ts₁, -, hjoin, -, heq⟩ | ⟨t₁, t₂, ts₂, -, hjoin, hjoin', heq⟩
      · rw [heq]
        exact ih ts
      · rw [heq]
        refine List.forall_mem_cons.2 ⟨⟨?_, .inl rfl⟩, ih ts₁⟩
        exact .cons_cons hjoin (.singleton t₁)
      · rw [heq]
        refine List.forall_mem_cons.2 ⟨⟨?_, .inr rfl⟩, ih ts₂⟩
        exact .cons_cons hjoin (.cons_cons hjoin' (.singleton t₂))

/-- Between joined words there is white space, or nothing. -/
private theorem isSpace_of_joins {u : Unicode} {t t' : NameToken} (h : joins u text t t' = true) :
    (PySeq.slice text t.stop t'.start).all u.isSpace = true := by
  rw [joins, Bool.or_eq_true, decide_eq_true_eq] at h
  rcases h with heq | hgap
  · rw [heq, PySeq.slice_natCast, List.drop_eq_nil_of_le (List.length_take_le _ _)]
    rfl
  · exact (Bool.and_eq_true_iff.1 hgap).2

/-- The last word of a run does not end before the first. -/
private theorem stop_le_getLast {t : NameToken} {ts : List NameToken}
    (hpairs : (t :: ts).Pairwise fun t t' => t.stop ≤ t'.start)
    (hrange : ∀ t' ∈ ts, t'.start < t'.stop ∧ t'.stop ≤ text.length) :
    t.stop ≤ (ts.getLast?.getD t).stop := by
  cases hts : ts.getLast? with
  | none => exact le_rfl
  | some t' =>
    have hmem := List.mem_of_getLast? hts
    exact ((List.pairwise_cons.1 hpairs).1 t' hmem).trans (hrange t' hmem).1.le

/-- The words that continue a run. -/
private theorem laidOut_further {u : Unicode} {start : ℕ} {ts : List NameToken} {t : NameToken}
    {comps : List NameComponent} (hcomps : List.Forall₂ (StandsAt start) comps ts)
    (hstart : start ≤ t.stop)
    (hjoins : (t :: ts).IsChain fun t t' => joins u text t t' = true)
    (hpairs : (t :: ts).Pairwise fun t t' => t.stop ≤ t'.start)
    (hrange : ∀ t' ∈ ts, t'.start < t'.stop ∧ t'.stop ≤ text.length) :
    LaidOut u (t.stop - start) (PySeq.slice text t.stop (ts.getLast?.getD t).stop) comps := by
  induction hcomps generalizing t with
  | nil =>
    rw [List.getLast?_nil, Option.getD_none, PySeq.slice_natCast,
      List.drop_eq_nil_of_le (List.length_take_le _ _)]
    exact .nil rfl
  | @cons comp t' comps ts hcomp hcomps ih =>
    obtain ⟨hjoin, hjoins⟩ := List.isChain_cons_cons.1 hjoins
    obtain ⟨hbefore, hpairs⟩ := List.pairwise_cons.1 hpairs
    obtain ⟨⟨hlt, hle⟩, hrange⟩ := List.forall_mem_cons.1 hrange
    have hgap := hbefore t' List.mem_cons_self
    have hlast : (t' :: ts).getLast?.getD t = ts.getLast?.getD t' := by
      rw [List.getLast?_cons, Option.getD_some]
    have hend := stop_le_getLast hpairs hrange
    rw [hlast, ← PySeq.slice_append_slice text hgap (hlt.le.trans hend),
      ← PySeq.slice_append_slice text hlt.le hend]
    have hgap_length := PySeq.length_slice_natCast text (i := t.stop) (hlt.le.trans hle)
    have hword_length := PySeq.length_slice_natCast text (i := t'.start) hle
    have hcursor : comp.offsetEnd = t'.stop - start := hcomp.stop_eq
    refine .cons (isSpace_of_joins hjoin) (List.ne_nil_of_length_pos (by omega)) ?_ ?_
      hcomp.isSome_role (hcursor ▸ ih (by omega) hjoins hpairs hrange)
    · rw [hcomp.start_eq]
      omega
    · rw [hcomp.start_eq, hcomp.stop_eq]
      omega

/-- **A run of words is laid out.** -/
theorem laidOut_runCandidate {run : NameToken × List NameToken}
    (hrun : run ∈ nameRuns rt.unicode text (nameTokens rt text).length (nameTokens rt text)) :
    LaidOut rt.unicode 0 (runCandidate rt text run.1 run.2).value
      ((runCandidate rt text run.1 run.2).metadata.nameParts.getD []) := by
  obtain ⟨t, ts⟩ := run
  obtain ⟨hjoins, hlength⟩ := joined_of_mem_nameRuns _ _ _ hrun
  have hsub := (infix_of_mem_nameRuns rt.unicode text _ _ _ hrun).sublist
  have hrange : ∀ t' ∈ t :: ts, t'.start < t'.stop ∧ t'.stop ≤ text.length :=
    fun t' ht' => nameTokens_range rt (hsub.subset ht')
  have hpairs := (pairwise_nameTokens rt text).sublist hsub
  obtain ⟨⟨hlt, hle⟩, hfurther⟩ := List.forall_mem_cons.1 hrange
  have hcomps := standsAt_runComponents rt t.start hlength
    ((t :: ts).map fun w => normalizeToNominative rt w.word (some (runGender (t :: ts))))
    (List.length_map _)
  obtain ⟨comp, comps, hcomp, hcomps, hparts⟩ := List.forall₂_cons_right_iff.1 hcomps
  have hend := stop_le_getLast hpairs hfurther
  have hrest := laidOut_further (u := rt.unicode) hcomps hlt.le hjoins hpairs hfurther
  have hword_length := PySeq.length_slice_natCast text (i := t.start) hle
  change LaidOut rt.unicode 0 (PySeq.slice text t.start (ts.getLast?.getD t).stop)
    (runComponents rt t.start (t :: ts) _)
  rw [hparts, ← PySeq.slice_append_slice text hlt.le hend, ← List.nil_append (_ ++ _)]
  refine .cons rfl (List.ne_nil_of_length_pos (by omega)) ?_ ?_ hcomp.isSome_role
    (hcomp.stop_eq ▸ hrest)
  · rw [hcomp.start_eq]
    simp
  · rw [hcomp.start_eq, hcomp.stop_eq, hword_length]
    dsimp only
    omega

end Runs

/-! ### Initials -/

section Initials

variable {u : Unicode}

/-- An initial: a capital letter, a full stop, and perhaps one character of white space. -/
structure IsInitial (u : Unicode) (t : Text) : Prop where
  eq_cons : ∃ x, t = x :: '.' :: t.drop 2 ∧ isRuUpper x = true
  length_le : t.length ≤ 3
  isSpace : (t.drop 2).all u.isSpace = true

theorem isInitial_of_mem_lang {t : Text} (ht : t ∈ (initialPattern u).Lang) :
    IsInitial u t := by
  obtain ⟨_, ⟨x, hx, rfl⟩, dot, hmem, rfl⟩ := ht
  obtain ⟨dot, hdot, _, ⟨_, ⟨ts, hts, -, hle, rfl⟩, _, rfl, rfl⟩, rfl⟩ := hmem
  obtain rfl : dot = ['.'] := Regex.mem_lang_literal hdot
  have hlength := hle 1 rfl
  rcases ts with - | ⟨t, - | ⟨t', ts⟩⟩
  · exact ⟨⟨x, rfl, hx⟩, by simp, by simp⟩
  · obtain ⟨w, hw, rfl⟩ := hts t List.mem_cons_self
    exact ⟨⟨x, rfl, hx⟩, by simp, by simpa using hw⟩
  · rw [List.length_cons, List.length_cons] at hlength
    omega

theorem isRuUpper_ne_dot {x : Char} (h : isRuUpper x = true) : x ≠ '.' := by
  rintro rfl
  revert h
  decide

/-- The matches of `_INITIAL_RE` in a text of initials that begins at `pos`. -/
private def initialMatches : ℕ → List Text → List (Regex.Match Char)
  | _, [] => []
  | pos, t :: ts => ⟨pos, pos + 2, t.take 2, []⟩ :: initialMatches (pos + t.length) ts

private theorem run_initialRe {pos : ℕ} {prev : Option Char} {x : Char} {rest : Text}
    (hx : isRuUpper x = true) :
    initialRe.run ⟨pos, prev, x :: '.' :: rest, []⟩ = [⟨pos + 2, some '.', rest, []⟩] := by
  simp [initialRe, Regex.concat, ruUpper, lit, Regex.literal, Regex.run, hx]

private theorem run_initialRe_eq_nil {pos : ℕ} {prev : Option Char} {x : Char} {rest : Text}
    (hrest : rest.head? ≠ some '.') : initialRe.run ⟨pos, prev, x :: rest, []⟩ = [] := by
  cases rest with
  | nil => simp [initialRe, Regex.concat, ruUpper, lit, Regex.literal, Regex.run]
  | cons a rest =>
    have ha : a ≠ '.' := by simpa using hrest
    simp [initialRe, Regex.concat, ruUpper, lit, Regex.literal, Regex.run, ha]

private theorem head_flatten_ne_dot {ts : List Text} (hts : ∀ t ∈ ts, IsInitial u t) :
    ts.flatten.head? ≠ some '.' := by
  cases ts with
  | nil => simp
  | cons t ts =>
    obtain ⟨x, ht, hx⟩ := (hts t List.mem_cons_self).eq_cons
    rw [List.flatten_cons, ht]
    simpa using isRuUpper_ne_dot hx

private theorem scan_initial {fuel pos : ℕ} {prev : Option Char} {x : Char} {rest : Text}
    (hx : isRuUpper x = true) :
    initialRe.scan (fuel + 1) ⟨pos, prev, x :: '.' :: rest, []⟩ =
      ⟨pos, pos + 2, [x, '.'], []⟩ :: initialRe.scan fuel ⟨pos + 2, some '.', rest, []⟩ := by
  rw [Regex.scan, run_initialRe hx]
  simp

private theorem scan_skip {fuel pos : ℕ} {prev : Option Char} {x : Char} {rest : Text}
    (hrest : rest.head? ≠ some '.') :
    initialRe.scan (fuel + 1) ⟨pos, prev, x :: rest, []⟩ =
      initialRe.scan fuel ⟨pos + 1, some x, rest, []⟩ := by
  rw [Regex.scan, run_initialRe_eq_nil hrest]
  rfl

/-- The scan finds the initials, whatever white space stands behind them. -/
private theorem scan_initialRe {ts : List Text} (hts : ∀ t ∈ ts, IsInitial u t) {fuel pos : ℕ}
    {prev : Option Char} (hfuel : ts.flatten.length ≤ fuel) :
    initialRe.scan (fuel + 1) ⟨pos, prev, ts.flatten, []⟩ = initialMatches pos ts := by
  induction ts generalizing fuel pos prev with
  | nil => simp [Regex.scan, initialRe, Regex.concat, ruUpper, Regex.run, initialMatches]
  | cons t ts ih =>
    obtain ⟨hinitial, hts⟩ := List.forall_mem_cons.1 hts
    obtain ⟨⟨x, ht, hx⟩, hlength, -⟩ := hinitial
    have hdot := head_flatten_ne_dot hts
    rw [ht, List.length_cons, List.length_cons] at hlength
    rw [List.flatten_cons, List.length_append, ht, List.length_cons, List.length_cons] at hfuel
    rw [List.flatten_cons, initialMatches, ht]
    obtain ⟨k, rfl⟩ : ∃ k, fuel = k + 2 := ⟨fuel - 2, by omega⟩
    rcases hs : t.drop 2 with - | ⟨w, - | ⟨w', s⟩⟩
    · have hrest : ts.flatten.length ≤ k + 1 := by
        rw [hs, List.length_nil] at hfuel
        omega
      rw [List.cons_append, List.cons_append, List.nil_append, scan_initial hx, ih hts hrest]
      rfl
    · have hrest : ts.flatten.length ≤ k := by
        rw [hs, List.length_singleton] at hfuel
        omega
      rw [List.cons_append, List.cons_append, List.singleton_append, scan_initial hx,
        scan_skip hdot, ih hts hrest]
      rfl
    · rw [hs, List.length_cons, List.length_cons] at hlength
      omega

private theorem finditer_initialRe {ts : List Text} (hts : ∀ t ∈ ts, IsInitial u t) :
    initialRe.finditer ts.flatten = initialMatches 0 ts := scan_initialRe hts le_rfl

/-- The components of the initials `ts` at `offset`, of which the first is number `k`. -/
private def initialsAt : ℕ → ℕ → List Text → List NameComponent
  | _, _, [] => []
  | k, offset, t :: ts =>
    { kind := .initial ((t.take 2).headD '.')
      surface := t.take 2
      offsetStart := offset
      offsetEnd := offset + 2
      role := [Role.first, Role.patronymic][k]? } :: initialsAt (k + 1) (offset + t.length) ts

private theorem length_take_two {t : Text} (ht : IsInitial u t) : (t.take 2).length = 2 := by
  obtain ⟨x, hx, -⟩ := ht.eq_cons
  rw [hx]
  rfl

private theorem filterMap_initialMatches {ts : List Text} (hts : ∀ t ∈ ts, IsInitial u t)
    {length offset pos k : ℕ} (hlength : offset + pos + ts.flatten.length ≤ length) :
    ((initialMatches pos ts).zipIdx k).filterMap (fun (m, k) =>
      if length < offset + m.start + m.text.length then none
      else some
        { kind := .initial (m.text.headD '.')
          surface := m.text
          offsetStart := offset + m.start
          offsetEnd := offset + m.start + m.text.length
          role := [Role.first, Role.patronymic][k]? : NameComponent }) =
      initialsAt k (offset + pos) ts := by
  induction ts generalizing pos k with
  | nil => rfl
  | cons t ts ih =>
    obtain ⟨ht, hts⟩ := List.forall_mem_cons.1 hts
    have htake := length_take_two ht
    have hle : (t.take 2).length ≤ t.length := List.length_take_le' 2 t
    rw [List.flatten_cons, List.length_append] at hlength
    rw [initialMatches, List.zipIdx_cons, List.filterMap_cons, ih hts (by omega), initialsAt]
    simp only [htake]
    rw [if_neg (by omega), Nat.add_assoc offset pos, Nat.add_assoc offset pos]

/-- The components of initials, of which the last may have lost the blank behind it. -/
private theorem initialComponents_eq {ts ts' : List Text} (hts : ∀ t ∈ ts, IsInitial u t)
    (hts' : ∀ t ∈ ts', IsInitial u t) (hmatches : initialMatches 0 ts = initialMatches 0 ts')
    {length offset : ℕ} (hlength : offset + ts'.flatten.length ≤ length) :
    initialComponents length offset ts.flatten = initialsAt 0 offset ts' := by
  rw [initialComponents, finditer_initialRe hts, hmatches]
  exact filterMap_initialMatches hts' hlength

/-- White space in front of a text that is laid out. -/
theorem LaidOut.gap_append {cursor : ℕ} {gap text : Text} {comps : List NameComponent}
    (hgap : gap.all u.isSpace = true) (h : LaidOut u (cursor + gap.length) text comps) :
    LaidOut u cursor (gap ++ text) comps := by
  cases h with
  | nil hgap' => exact .nil (by rw [List.all_append, hgap, hgap']; rfl)
  | @cons _ gap' word rest comp comps hgap' hword hstart hstop hrole hrest =>
    rw [← List.append_assoc]
    refine .cons (by rw [List.all_append, hgap, hgap']; rfl) hword ?_ hstop hrole hrest
    rw [hstart, List.length_append, Nat.add_assoc]

/-- Initials in front of a text that is laid out. -/
private theorem LaidOut.initials_append {ts : List Text} (hts : ∀ t ∈ ts, IsInitial u t)
    (k offset : ℕ) (hk : k + ts.length ≤ 2) {text : Text} {comps : List NameComponent}
    (h : LaidOut u (offset + ts.flatten.length) text comps) :
    LaidOut u offset (ts.flatten ++ text) (initialsAt k offset ts ++ comps) := by
  induction ts generalizing k offset with
  | nil => exact h
  | cons t ts ih =>
    obtain ⟨ht, hts⟩ := List.forall_mem_cons.1 hts
    have htake := length_take_two ht
    rw [List.length_cons] at hk
    rw [List.flatten_cons, List.length_append, ← Nat.add_assoc] at h
    have hdrop : t.length = 2 + (t.drop 2).length := by
      have hlength := congrArg List.length (List.take_append_drop 2 t)
      rw [List.length_append, htake] at hlength
      exact hlength.symm
    have hrest := ih hts (k + 1) (offset + t.length) (by omega) h
    have hsplit : (t :: ts).flatten ++ text =
        [] ++ (t.take 2 ++ (t.drop 2 ++ (ts.flatten ++ text))) := by
      rw [List.flatten_cons, List.nil_append, ← List.append_assoc (t.take 2),
        List.take_append_drop, List.append_assoc]
    rw [hsplit, initialsAt, List.cons_append]
    refine .cons rfl (List.ne_nil_of_length_pos (by omega)) rfl (by rw [htake]) ?_ ?_
    · dsimp only
      rw [List.getElem?_eq_getElem (by simp; omega)]
      rfl
    · refine .gap_append ht.isSpace ?_
      dsimp only
      rwa [Nat.add_assoc, ← hdrop]

end Initials

/-! ### Surnames with initials -/

section Surnames

variable {rt : Runtime} {text : Text} {m : Regex.Match Char}

/-- What a match of the first pattern captures: initials, behind no letter and no full stop, and the
word that is preferred behind them. -/
theorem captures_initialsThenSurname {u : Unicode}
    (hm : m ∈ (initialsThenSurnamePattern u).finditer text) :
    ∃ g w : Text, ((text.take m.start).getLast?.any fun c =>
        isRuUpper c || isRuLower c || c == '.') = false ∧
      g ∈ (Regex.rep (initialPattern u) 1 (some 2)).Lang ∧
      Regex.Prefers capitalizedWord (text.drop (m.start + g.length)) w ∧ m.text = g ++ w ∧
      m.group? 1 = some (m.start, g) ∧ m.group? 2 = some (m.start + g.length, w) := by
  obtain ⟨before, after, c', rfl, hstart, hhead, hmoves, -, hgroups⟩ :=
    Regex.head_run_of_mem_finditer hm
  generalize hc : Regex.cursorAt (Regex.start (before ++ after)) before after = c at hhead hmoves
  have hpos : c.pos = m.start := by
    rw [hstart, ← hc]
    exact Nat.zero_add _
  have hprev : c.prev = before.getLast? := by
    rw [← hc]
    exact Option.or_none
  obtain ⟨c₀, hc₀, hinitials⟩ := Regex.head_run_seq hhead
  obtain rfl : c = c₀ := (Regex.eq_of_mem_run_test rfl hc₀).symm
  obtain ⟨c₁, hc₁, hsurname⟩ := Regex.head_run_seq hinitials
  have hlast : ((Regex.group 2 capitalizedWord).run c₁).head? = some c' := by
    rw [← hsurname]
    exact congrArg List.head? (List.flatMap_singleton' _).symm
  obtain ⟨g, hg, hmoves₁, hgroups₁⟩ := Regex.capture_of_mem_run rfl hc₁
  obtain ⟨w, -, hmoves₂, hgroups₂⟩ := Regex.capture_of_mem_run rfl (List.mem_of_mem_head? hlast)
  obtain ⟨c₂, hword, hmoves₃⟩ : ∃ c₂, (capitalizedWord.run c₁).head? = some c₂ ∧
      Regex.Moves w c₁ c₂ := by
    rw [Regex.run, List.head?_map] at hlast
    obtain ⟨c₂, hword, rfl⟩ := Option.map_eq_some_iff.1 hlast
    exact ⟨c₂, hword, hmoves₂⟩
  have htext : m.text = g ++ w :=
    List.append_cancel_right (hmoves.1.symm.trans (hmoves₁.trans hmoves₂).1)
  have hrest : (before ++ after).drop (m.start + g.length) = c₁.rest := by
    have hafter : after = g ++ c₁.rest := by
      rw [← hmoves₁.1, ← hc]
      rfl
    rw [hstart, hafter, ← List.append_assoc, ← List.length_append, List.drop_left]
  refine ⟨g, w, ?_, hg, ?_, htext, ?_, ?_⟩
  · rw [hstart, List.take_left, ← hprev, ← Bool.not_eq_true]
    intro hbehind
    rw [Regex.run, if_pos hbehind] at hc₀
    cases hc₀
  · rw [hrest]
    exact Regex.prefers_of_head rfl hword hmoves₃
  · rw [Regex.Match.group?, hgroups, hgroups₂, hgroups₁, hpos]
    rfl
  · rw [Regex.Match.group?, hgroups, hgroups₂, hmoves₁.2.1, hpos]
    rfl

/-- What a match of the second pattern captures. -/
theorem captures_surnameThenInitials {u : Unicode}
    (hm : m ∈ (surnameThenInitialsPattern u).finditer text) :
    ∃ (w : Text) (a : Char) (g : Text), w ∈ capitalizedWord.Lang ∧ u.isSpace a = true ∧
      g ∈ (Regex.rep (initialPattern u) 2 (some 2)).Lang ∧ m.text = w ++ ([a] ++ g) ∧
      m.group? 1 = some (m.start, w) ∧ m.group? 2 = some (m.start + (w.length + 1), g) := by
  obtain ⟨before, after, c', -, hstart, hhead, hmoves, -, hgroups⟩ :=
    Regex.head_run_of_mem_finditer hm
  obtain ⟨c₁, hc₁, hrun⟩ := List.mem_flatMap.1 (List.mem_of_mem_head? hhead)
  obtain ⟨c₂, hc₂, hrun⟩ := List.mem_flatMap.1 hrun
  obtain ⟨c₃, hc₃, hrun⟩ := List.mem_flatMap.1 hrun
  obtain rfl : c' = c₃ := List.mem_singleton.1 hrun
  obtain ⟨w, hw, hmoves₁, hgroups₁⟩ := Regex.capture_of_mem_run rfl hc₁
  obtain ⟨_, ⟨a, ha, rfl⟩, hmoves₂, hgroups₂⟩ := (Regex.mem_run_iff rfl).1 hc₂
  obtain ⟨g, hg, hmoves₃, hgroups₃⟩ := Regex.capture_of_mem_run rfl hc₃
  have hpos : (Regex.cursorAt (Regex.start text) before after).pos = m.start := by
    rw [hstart]
    exact Nat.zero_add _
  have htext : m.text = w ++ ([a] ++ g) :=
    List.append_cancel_right (hmoves.1.symm.trans (hmoves₁.trans (hmoves₂.trans hmoves₃)).1)
  refine ⟨w, a, g, hw, ha, hg, htext, ?_, ?_⟩
  · rw [Regex.Match.group?, hgroups, hgroups₃, hgroups₂, hgroups₁, hpos]
    rfl
  · rw [Regex.Match.group?, hgroups, hgroups₃, hmoves₂.2.1, hmoves₁.2.1, hpos, Nat.add_assoc]
    rfl

/-- A capitalized word is not empty and has no blanks. -/
theorem capitalizedWord_spec {w : Text} (hw : w ∈ capitalizedWord.Lang) :
    w ≠ [] ∧ ∀ c ∈ w, c ≠ ' ' := by
  have hover : Regex.Over (· ≠ ' ') capitalizedWord := by
    have hupper : Regex.Over (· ≠ ' ') ruUpper := fun c hc heq => by
      rw [heq] at hc
      revert hc
      decide
    have hlower : Regex.Over (· ≠ ' ') (.plus ruLower) := fun c hc heq => by
      rw [heq] at hc
      revert hc
      decide
    have hhyphen : Regex.Over (· ≠ ' ') (lit "-") := Regex.over_literal fun c hc => by
      obtain rfl : c = '-' := List.mem_singleton.1 hc
      decide
    exact ⟨hupper, hlower, ⟨hhyphen, hupper, hlower, trivial⟩, trivial⟩
  have hlength : 0 < w.length := (of_decide_eq_true rfl : 0 < capitalizedWord.minLen).trans_le
    (Regex.minLen_le_of_mem_lang hw)
  exact ⟨List.ne_nil_of_length_pos hlength, Regex.forall_of_mem_lang hover hw⟩

/-- The component of the surname. -/
private abbrev surnameAt (offset : ℕ) (kind : NameKind) (w : Text) : NameComponent :=
  { kind := kind, surface := w, offsetStart := offset, offsetEnd := offset + w.length,
    role := some .surname }

private theorem laidOut_surname {u : Unicode} {offset : ℕ} {kind : NameKind} {w rest : Text}
    {comps : List NameComponent} (hw : w ≠ []) (h : LaidOut u (offset + w.length) rest comps) :
    LaidOut u offset (w ++ rest) (surnameAt offset kind w :: comps) := by
  rw [← List.nil_append (w ++ rest)]
  exact .cons rfl hw rfl rfl rfl h

private theorem parts_initialsCandidate {surname initials : ℕ × Text} {c : Candidate}
    (hc : initialsCandidate rt m surname initials = some c) :
    c.value = m.text.rdropWhile (· == ' ') ∧ ∃ kind, c.metadata.nameParts.getD [] =
      PySeq.sortedBy NameComponent.offsetStart
        (surnameAt (surname.1 - m.start) kind surname.2 ::
          initialComponents c.value.length (initials.1 - m.start) initials.2) := by
  unfold initialsCandidate at hc
  split at hc
  · cases hc
    exact ⟨rfl, _, rfl⟩
  · cases hc

/-- Initials in front of a surname. -/
private theorem laidOut_initialsThenSurname
    (hm : m ∈ (initialsThenSurnamePattern rt.unicode).finditer text) {surname initials : ℕ × Text}
    (hsurname : m.group? 2 = some surname) (hinitials : m.group? 1 = some initials)
    {c : Candidate} (hc : initialsCandidate rt m surname initials = some c) :
    LaidOut rt.unicode 0 c.value (c.metadata.nameParts.getD []) := by
  obtain ⟨_, w, -, ⟨ts, hinitial, -, hmax, rfl⟩, hprefers, htext, hg₁, hg₂⟩ :=
    captures_initialsThenSurname hm
  have hts : ∀ t ∈ ts, IsInitial rt.unicode t := fun t ht => isInitial_of_mem_lang (hinitial t ht)
  have hlength : ts.length ≤ 2 := hmax 2 rfl
  have hw := hprefers.mem_lang rfl
  obtain rfl := Option.some.inj (hg₂.symm.trans hsurname)
  obtain rfl := Option.some.inj (hg₁.symm.trans hinitials)
  obtain ⟨hne, hblank⟩ := capitalizedWord_spec hw
  obtain ⟨hvalue, kind, hparts⟩ := parts_initialsCandidate hc
  have hkeep : m.text.rdropWhile (· == ' ') = ts.flatten ++ w := by
    rw [htext, List.rdropWhile_eq_self_iff]
    intro hne'
    rw [List.getLast_append_of_ne_nil _ hne, beq_iff_eq]
    exact hblank _ (List.getLast_mem hne)
  have hlaid : LaidOut rt.unicode 0 (ts.flatten ++ (w ++ []))
      (initialsAt 0 0 ts ++ [surnameAt ts.flatten.length kind w]) := by
    refine .initials_append hts 0 0 (by omega) ?_
    rw [Nat.zero_add]
    exact laidOut_surname hne (.nil rfl)
  rw [List.append_nil, ← hkeep, ← hvalue] at hlaid
  rw [hparts, Nat.sub_self, initialComponents_eq hts hts rfl (by rw [hvalue, hkeep]; simp),
    Nat.add_sub_cancel_left, hlaid.sortedBy_eq (List.perm_append_singleton _ _)]
  exact hlaid

/-- Blanks at the end of an initial are no part of it. -/
private theorem rdropWhile_initial {u : Unicode} {t : Text} (ht : IsInitial u t) (pre : Text) :
    ∃ t', IsInitial u t' ∧ (pre ++ t).rdropWhile (· == ' ') = pre ++ t' ∧
      t'.take 2 = t.take 2 := by
  obtain ⟨⟨x, heq, hx⟩, hlength, hspace⟩ := ht
  have hkeep : (pre ++ [x, '.']).rdropWhile (· == ' ') = pre ++ [x, '.'] := by
    rw [List.append_cons, List.rdropWhile_concat_neg _ _ _ (by decide)]
  rcases hs : t.drop 2 with - | ⟨w, - | ⟨w', s⟩⟩
  · rw [hs] at heq
    exact ⟨t, ⟨⟨x, by rw [hs]; exact heq, hx⟩, hlength, hspace⟩, by rw [heq, hkeep], rfl⟩
  · rw [hs] at heq
    have hconcat : pre ++ t = (pre ++ [x, '.']) ++ [w] := by
      rw [heq, List.append_assoc]
      rfl
    by_cases hw : w = ' '
    · refine ⟨[x, '.'], ⟨⟨x, rfl, hx⟩, by simp, by simp⟩, ?_, by rw [heq]; rfl⟩
      rw [hconcat, List.rdropWhile_concat_pos _ _ _ (by rw [hw]; rfl), hkeep]
    · refine ⟨t, ⟨⟨x, by rw [hs]; exact heq, hx⟩, hlength, hspace⟩, ?_, rfl⟩
      rw [hconcat, List.rdropWhile_concat_neg _ _ _ (by simpa using hw)]
  · rw [heq, hs] at hlength
    simp only [List.length_cons] at hlength
    omega

/-- A surname in front of two initials. -/
private theorem laidOut_surnameThenInitials
    (hm : m ∈ (surnameThenInitialsPattern rt.unicode).finditer text) {surname initials : ℕ × Text}
    (hsurname : m.group? 1 = some surname) (hinitials : m.group? 2 = some initials)
    {c : Candidate} (hc : initialsCandidate rt m surname initials = some c) :
    LaidOut rt.unicode 0 c.value (c.metadata.nameParts.getD []) := by
  obtain ⟨w, a, _, hw, ha, ⟨ts, hinitial, hmin, hmax, rfl⟩, htext, hg₁, hg₂⟩ :=
    captures_surnameThenInitials hm
  have hts : ∀ t ∈ ts, IsInitial rt.unicode t := fun t ht => isInitial_of_mem_lang (hinitial t ht)
  have hlength : ts.length = 2 := (hmax 2 rfl).antisymm hmin
  obtain rfl := Option.some.inj (hg₁.symm.trans hsurname)
  obtain rfl := Option.some.inj (hg₂.symm.trans hinitials)
  obtain ⟨hne, -⟩ := capitalizedWord_spec hw
  obtain ⟨hvalue, kind, hparts⟩ := parts_initialsCandidate hc
  obtain ⟨t₁, t₂, rfl⟩ := List.length_eq_two.1 hlength
  have ht₁ := hts t₁ List.mem_cons_self
  have ht₂ := hts t₂ (List.mem_cons_of_mem _ List.mem_cons_self)
  obtain ⟨t₂', ht₂', hdrop, htake⟩ := rdropWhile_initial ht₂ (w ++ ([a] ++ t₁))
  have hts' : ∀ t ∈ [t₁, t₂'], IsInitial rt.unicode t :=
    List.forall_mem_cons.2 ⟨ht₁, List.forall_mem_singleton.2 ht₂'⟩
  have hmatches : initialMatches 0 [t₁, t₂] = initialMatches 0 [t₁, t₂'] := by
    simp only [initialMatches, htake]
  have hkeep : m.text.rdropWhile (· == ' ') = w ++ ([a] ++ ([t₁, t₂'].flatten ++ [])) := by
    have hsplit : m.text = w ++ ([a] ++ t₁) ++ t₂ := by simp [htext]
    rw [hsplit, hdrop]
    simp
  have hlaid : LaidOut rt.unicode 0 (w ++ ([a] ++ ([t₁, t₂'].flatten ++ [])))
      (surnameAt 0 kind w :: (initialsAt 0 (w.length + 1) [t₁, t₂'] ++ [])) := by
    refine laidOut_surname hne ?_
    rw [Nat.zero_add]
    exact .gap_append (by simpa using ha) (.initials_append hts' 0 _ le_rfl (.nil rfl))
  rw [← hkeep, ← hvalue, List.append_nil] at hlaid
  rw [hparts, Nat.sub_self, Nat.add_sub_cancel_left,
    initialComponents_eq hts hts' hmatches (by rw [hvalue, hkeep]; simp; omega),
    hlaid.sortedBy_eq (List.Perm.refl _)]
  exact hlaid

/-- **A surname with initials is laid out.** -/
theorem laidOut_of_mem_detectInitialsForms {c : Candidate} (hc : c ∈ detectInitialsForms rt text) :
    LaidOut rt.unicode 0 c.value (c.metadata.nameParts.getD []) := by
  rcases List.mem_append.1 hc with hc | hc
  · obtain ⟨m, hm, hmc⟩ := List.mem_filterMap.1 hc
    split at hmc
    · next hinitials hsurname => exact laidOut_initialsThenSurname hm hsurname hinitials hmc
    · cases hmc
  · obtain ⟨m, hm, hmc⟩ := List.mem_filterMap.1 hc
    split at hmc
    · next hsurname hinitials => exact laidOut_surnameThenInitials hm hsurname hinitials hmc
    · cases hmc

/-- **Every name that is detected is laid out.** -/
theorem laidOut_of_mem_detectFullNames {c : Candidate} (hc : c ∈ detectFullNames rt text) :
    LaidOut rt.unicode 0 c.value (c.metadata.nameParts.getD []) := by
  rcases List.mem_append.1 hc with hc | hc
  · obtain ⟨run, hrun, rfl⟩ := List.mem_map.1 hc
    exact laidOut_runCandidate hrun
  · exact laidOut_of_mem_detectInitialsForms hc

end Surnames

end PiiProxy
