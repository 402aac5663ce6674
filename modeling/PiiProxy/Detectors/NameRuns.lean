import PiiProxy.Detectors.FullName

/-!
# How rows of words are cut into runs

`FullNameDetector` goes through the words of names from left to right and cuts each row of joined
words into runs of three. When the row is one word longer than a multiple of three, its last word is
left over: a run of one word is no candidate.

## Main definitions

* `joins`: nothing but white space separates two words.
* `joinedBefore`, `LeftOver`: the number of words that a word is joined to on the left, and the
  words that the cutting leaves over.
* `Covers`: a word of a name lies in a candidate.

## Main results

* `mem_nameRuns_iff`: the words of the runs are those that are not left over.
* `run_covers_iff`: when a word lies in the candidate of a run.
-/

namespace PiiProxy

variable (rt : Runtime) (u : Unicode) (text : Text)

/-! ### Rows of words -/

/-- Nothing but white space stands between the words. -/
def joins (t t' : NameToken) : Bool := decide (t.stop = t'.start) || isGap u text t.stop t'.start

/-- The number of words that `t` is joined to on the left, of the words before it, nearest first. -/
def joinedBefore : List NameToken → NameToken → ℕ
  | [], _ => 0
  | p :: ps, t => if joins u text p t then joinedBefore ps p + 1 else 0

/-- The word is the last of its row, and the words of the row before it make up whole runs of
three. -/
def LeftOver (before : List NameToken) (t : NameToken) (after : List NameToken) : Prop :=
  joinedBefore u text before.reverse t % 3 = 0 ∧ ∀ t' ∈ after.head?, joins u text t t' = false

/-- The word is joined to the word before or behind it. -/
def HasNeighbour (before : List NameToken) (t : NameToken) (after : List NameToken) : Prop :=
  before.getLast?.any (joins u text · t) = true ∨ after.head?.any (joins u text t ·) = true

variable {u text}

/-! ### Cutting a row into runs -/

theorem continueRun_cons {n : ℕ} (hn : n < 3) (t t' : NameToken) (ts : List NameToken) :
    continueRun u text n t.stop (t' :: ts) =
      if joins u text t t' then
        (t' :: (continueRun u text (n + 1) t'.stop ts).1, (continueRun u text (n + 1) t'.stop ts).2)
      else ([], t' :: ts) := by
  have hcond : (n < 3 ∧ (t.stop = t'.start ∨ isGap u text t.stop t'.start = true)) ↔
      joins u text t t' = true := by
    rw [joins, Bool.or_eq_true, decide_eq_true_eq]
    exact and_iff_right hn
  rw [continueRun]
  simp only [hcond]

theorem continueRun_full (stop : ℕ) (ts : List NameToken) :
    continueRun u text 3 stop ts = ([], ts) := by
  cases ts with
  | nil => rfl
  | cons t ts => rw [continueRun, if_neg fun h => absurd h.1 (lt_irrefl 3)]

/-- **One step of the detector**: a word that is not joined to the next one is skipped; otherwise it
begins a run of two words, when the third is not joined, or of three. -/
theorem nameRuns_cases (fuel : ℕ) (t : NameToken) (ts : List NameToken) :
    ((∀ t' ∈ ts.head?, joins u text t t' = false) ∧
      nameRuns u text (fuel + 1) (t :: ts) = nameRuns u text fuel ts) ∨
    (∃ t₁ ts₁, ts = t₁ :: ts₁ ∧ joins u text t t₁ = true ∧
      (∀ t' ∈ ts₁.head?, joins u text t₁ t' = false) ∧
      nameRuns u text (fuel + 1) (t :: ts) = (t, [t₁]) :: nameRuns u text fuel ts₁) ∨
    (∃ t₁ t₂ ts₂, ts = t₁ :: t₂ :: ts₂ ∧ joins u text t t₁ = true ∧ joins u text t₁ t₂ = true ∧
      nameRuns u text (fuel + 1) (t :: ts) = (t, [t₁, t₂]) :: nameRuns u text fuel ts₂) := by
  rw [nameRuns]
  cases ts with
  | nil => exact .inl ⟨by simp, rfl⟩
  | cons t₁ ts₁ =>
    rw [continueRun_cons (by decide)]
    by_cases h₁ : joins u text t t₁ = true
    · rw [if_pos h₁]
      cases ts₁ with
      | nil => exact .inr (.inl ⟨t₁, [], rfl, h₁, by simp, rfl⟩)
      | cons t₂ ts₂ =>
        rw [continueRun_cons (by decide)]
        by_cases h₂ : joins u text t₁ t₂ = true
        · rw [if_pos h₂, continueRun_full]
          exact .inr (.inr ⟨t₁, t₂, ts₂, rfl, h₁, h₂, rfl⟩)
        · rw [if_neg h₂]
          refine .inr (.inl ⟨t₁, _, rfl, h₁, fun t' ht' => ?_, rfl⟩)
          rw [List.head?_cons, Option.mem_some_iff] at ht'
          exact ht' ▸ Bool.not_eq_true _ ▸ h₂
    · rw [if_neg h₁]
      refine .inl ⟨fun t' ht' => ?_, rfl⟩
      rw [List.head?_cons, Option.mem_some_iff] at ht'
      exact ht' ▸ Bool.not_eq_true _ ▸ h₁

theorem joinedBefore_cons {p t : NameToken} (h : joins u text p t = true) (ps : List NameToken) :
    joinedBefore u text (p :: ps) t = joinedBefore u text ps p + 1 := by
  rw [joinedBefore, if_pos h]

/-- A word is not joined on the left to a word that does not go on. -/
theorem joinedBefore_of_not_joins {t : NameToken} {ts : List NameToken}
    (h : ∀ t' ∈ ts.head?, joins u text t t' = false) (prev : List NameToken) :
    ∀ t' ∈ ts.head?, joinedBefore u text (t :: prev) t' % 3 = 0 := by
  intro t' ht'
  rw [joinedBefore, h t' ht']
  rfl

/-- An element of a list without repetitions stands behind a front part of the list, or in it. -/
private theorem mem_taken_or_behind {α : Type*} {taken rest mid after : List α} {t : α}
    (hnodup : (taken ++ rest).Nodup) (hsplit : taken ++ rest = mid ++ t :: after) :
    (∃ mid', mid = taken ++ mid' ∧ rest = mid' ++ t :: after ∧ t ∉ taken) ∨
      ∃ bs, taken = mid ++ t :: bs ∧ after = bs ++ rest ∧ t ∉ rest := by
  have hdisjoint : ∀ a ∈ taken, ∀ b ∈ rest, a ≠ b := (List.nodup_append.1 hnodup).2.2
  have hbehind (mid' : List α) (hrest : rest = mid' ++ t :: after) : t ∉ taken := fun hmem =>
    hdisjoint t hmem t (hrest ▸ List.mem_append_right _ List.mem_cons_self) rfl
  rcases List.append_eq_append_iff.1 hsplit with ⟨mid', hmid, hrest⟩ | ⟨bs, htaken, hrest⟩
  · exact .inl ⟨mid', hmid, hrest, hbehind mid' hrest⟩
  · cases bs with
    | nil =>
      rw [List.append_nil] at htaken
      exact .inl ⟨[], by rw [htaken, List.append_nil], hrest.symm, hbehind [] hrest.symm⟩
    | cons b bs =>
      obtain ⟨rfl, hafter⟩ := List.cons.inj hrest
      have htmem : t ∈ taken := htaken ▸ List.mem_append_right _ List.mem_cons_self
      exact .inr ⟨bs, htaken, hafter, fun hmem => hdisjoint t htmem t hmem rfl⟩

/-- **The words of the runs are those that are not left over.** The words in front of the rest `ts`,
the nearest first, are `prev`, and `ts` begins with a new run. -/
theorem mem_nameRuns_iff (fuel : ℕ) (prev ts : List NameToken) (hfuel : ts.length ≤ fuel)
    (hnodup : ts.Nodup) (hnew : ∀ t ∈ ts.head?, joinedBefore u text prev t % 3 = 0)
    {mid after : List NameToken} {t : NameToken} (hts : ts = mid ++ t :: after) :
    (∃ run ∈ nameRuns u text fuel ts, t ∈ run.1 :: run.2) ↔
      ¬(joinedBefore u text (mid.reverse ++ prev) t % 3 = 0 ∧
        ∀ t' ∈ after.head?, joins u text t t' = false) := by
  induction fuel generalizing prev ts mid with
  | zero =>
    rw [hts, List.length_append, List.length_cons] at hfuel
    omega
  | succ fuel ih =>
    -- the word is among those that the step takes, or among those behind it
    have hplace (taken rest : List NameToken) (hsplit : ts = taken ++ rest) :=
      mem_taken_or_behind (hsplit ▸ hnodup) (hsplit.symm.trans hts)
    -- behind the step a new run begins
    have hrest (taken rest mid' : List NameToken) (hsplit : ts = taken ++ rest) (hpos : taken ≠ [])
        (hmid : mid = taken ++ mid') (hrest : rest = mid' ++ t :: after)
        (hnew' : ∀ t ∈ rest.head?, joinedBefore u text (taken.reverse ++ prev) t % 3 = 0) :
        (∃ run ∈ nameRuns u text fuel rest, t ∈ run.1 :: run.2) ↔
          ¬(joinedBefore u text (mid.reverse ++ prev) t % 3 = 0 ∧
            ∀ t' ∈ after.head?, joins u text t t' = false) := by
      have hlen : rest.length ≤ fuel := by
        have hpos := List.length_pos_of_ne_nil hpos
        rw [hsplit, List.length_append] at hfuel
        omega
      rw [hmid, List.reverse_append, List.append_assoc]
      exact ih _ rest hlen (List.nodup_append.1 (hsplit ▸ hnodup)).2.1 hnew' hrest
    have hfirst (run : NameToken × List NameToken) (runs : List (NameToken × List NameToken)) :
        (∃ r ∈ run :: runs, t ∈ r.1 :: r.2) ↔ t ∈ run.1 :: run.2 ∨ ∃ r ∈ runs, t ∈ r.1 :: r.2 := by
      simp only [List.mem_cons, exists_eq_or_imp]
    obtain ⟨t₀, ts₀, hcons⟩ : ∃ t₀ ts₀, ts = t₀ :: ts₀ := by
      rw [hts]
      cases mid with
      | nil => exact ⟨t, after, rfl⟩
      | cons a mid => exact ⟨a, _, rfl⟩
    have hnew₀ : joinedBefore u text prev t₀ % 3 = 0 := hnew t₀ (by rw [hcons]; rfl)
    rcases @nameRuns_cases u text fuel t₀ ts₀ with ⟨hstop, hruns⟩ |
      ⟨t₁, ts₁, rfl, h₁, hstop, hruns⟩ | ⟨t₁, t₂, ts₂, rfl, h₁, h₂, hruns⟩
    · rw [hcons, hruns]
      rcases hplace [t₀] ts₀ hcons with ⟨mid', hmid, hmid', -⟩ | ⟨bs, htaken, hafter, hno⟩
      · exact hrest [t₀] ts₀ mid' hcons (List.cons_ne_nil _ _) hmid hmid'
          (joinedBefore_of_not_joins hstop prev)
      · obtain ⟨rfl, rfl, rfl⟩ : mid = [] ∧ t = t₀ ∧ bs = [] := by
          simpa [List.cons_eq_append_iff] using htaken
        refine iff_of_false ?_ (not_not.2 ⟨hnew₀, hafter ▸ hstop⟩)
        rintro ⟨run, hrun, hmem⟩
        exact hno ((infix_of_mem_nameRuns u text fuel ts₀ run hrun).subset hmem)
    · rw [hcons, hruns, hfirst]
      rcases hplace [t₀, t₁] ts₁ hcons with ⟨mid', hmid, hmid', hnot⟩ | ⟨bs, htaken, hafter, -⟩
      · rw [or_iff_right hnot]
        exact hrest [t₀, t₁] ts₁ mid' hcons (List.cons_ne_nil _ _) hmid hmid'
          (joinedBefore_of_not_joins hstop _)
      · refine iff_of_true (.inl (htaken ▸ List.mem_append_right _ List.mem_cons_self)) ?_
        rintro ⟨hthird, hlast⟩
        have hcases : (mid = [] ∧ t = t₀ ∧ bs = [t₁]) ∨ (mid = [t₀] ∧ t = t₁ ∧ bs = []) := by
          simpa [List.cons_eq_append_iff] using htaken
        rcases hcases with ⟨rfl, rfl, rfl⟩ | ⟨rfl, rfl, rfl⟩
        · rw [hafter] at hlast
          exact absurd (hlast t₁ rfl) (by rw [h₁]; decide)
        · change joinedBefore u text (t₀ :: prev) t % 3 = 0 at hthird
          rw [joinedBefore_cons h₁] at hthird
          omega
    · rw [hcons, hruns, hfirst]
      rcases hplace [t₀, t₁, t₂] ts₂ hcons with ⟨mid', hmid, hmid', hnot⟩ | ⟨bs, htaken, hafter, -⟩
      · rw [or_iff_right hnot]
        refine hrest [t₀, t₁, t₂] ts₂ mid' hcons (List.cons_ne_nil _ _) hmid hmid' fun t' ht' => ?_
        change joinedBefore u text (t₂ :: t₁ :: t₀ :: prev) t' % 3 = 0
        by_cases h₃ : joins u text t₂ t' = true
        · rw [joinedBefore_cons h₃, joinedBefore_cons h₂, joinedBefore_cons h₁]
          omega
        · rw [joinedBefore, if_neg h₃]
      · refine iff_of_true (.inl (htaken ▸ List.mem_append_right _ List.mem_cons_self)) ?_
        rintro ⟨hthird, hlast⟩
        have hcases : (mid = [] ∧ t = t₀ ∧ bs = [t₁, t₂]) ∨ ∃ mid', mid = t₀ :: mid' ∧
            (mid' = [] ∧ t = t₁ ∧ bs = [t₂] ∨ mid' = [t₁] ∧ t = t₂ ∧ bs = []) := by
          simpa [List.cons_eq_append_iff] using htaken
        rcases hcases with ⟨rfl, rfl, rfl⟩ | ⟨_, rfl, ⟨rfl, rfl, rfl⟩ | ⟨rfl, rfl, rfl⟩⟩
        · rw [hafter] at hlast
          exact absurd (hlast t₁ rfl) (by rw [h₁]; decide)
        · rw [hafter] at hlast
          exact absurd (hlast t₂ rfl) (by rw [h₂]; decide)
        · change joinedBefore u text (t₁ :: t₀ :: prev) t % 3 = 0 at hthird
          rw [joinedBefore_cons h₂, joinedBefore_cons h₁] at hthird
          omega

/-! ### Candidates -/

/-- The word lies in the candidate. -/
def Covers (c : Candidate) (t : NameToken) : Prop :=
  c.type = .fullName ∧ c.start ≤ t.start ∧ t.stop ≤ c.stop

instance (c : Candidate) (t : NameToken) : Decidable (Covers c t) :=
    inferInstanceAs (Decidable (_ ∧ _))

theorem nodup_nameTokens (text : Text) : (nameTokens rt text).Nodup := by
  refine (pairwise_nameTokens rt text).imp_of_mem fun {t t'} ht _ hle heq => ?_
  have hrange := nameTokens_range rt ht
  rw [← heq] at hle
  exact absurd (hrange.1.trans_le hle) (lt_irrefl _)

/-- A run covers its words and no others. -/
theorem covers_runCandidate_iff {t t' : NameToken} {ts : List NameToken}
    (hrun : t :: ts <:+: nameTokens rt text) (ht' : t' ∈ nameTokens rt text) :
    Covers (runCandidate rt text t ts) t' ↔ t' ∈ t :: ts := by
  obtain ⟨a, b, hsplit⟩ := hrun
  have hpairs := pairwise_nameTokens rt text
  rw [← hsplit, List.append_assoc, List.pairwise_append, List.pairwise_append] at hpairs
  obtain ⟨-, ⟨hwords, -, hbehind⟩, hbefore⟩ := hpairs
  have hrange := nameTokens_range rt ht'
  have hlast : t :: ts = (t :: ts).dropLast ++ [ts.getLast?.getD t] :=
    (List.dropLast_append_getLast? _ (List.getLast?_cons.trans rfl)).symm
  have hlastmem : ts.getLast?.getD t ∈ t :: ts :=
    hlast ▸ List.mem_append_right _ (List.mem_singleton_self _)
  constructor
  · rintro ⟨-, hstart, hstop⟩
    have hstart : t.start ≤ t'.start := hstart
    have hstop : t'.stop ≤ (ts.getLast?.getD t).stop := hstop
    rw [← hsplit, List.append_assoc, List.mem_append, List.mem_append] at ht'
    rcases ht' with h | h | h
    · have hle := hbefore t' h t (List.mem_append_left _ List.mem_cons_self)
      omega
    · exact h
    · have hle := hbehind _ hlastmem t' h
      omega
  · intro h
    refine ⟨rfl, ?_, ?_⟩
    · change t.start ≤ t'.start
      rcases List.mem_cons.1 h with rfl | h
      · exact le_rfl
      · have hle := (List.pairwise_cons.1 hwords).1 t' h
        have hfirst := nameTokens_range rt (t := t)
          (hsplit ▸ List.mem_append_left _ (List.mem_append_right _ List.mem_cons_self))
        omega
    · change t'.stop ≤ (ts.getLast?.getD t).stop
      have hlastrange := nameTokens_range rt (t := ts.getLast?.getD t)
        (hsplit ▸ List.mem_append_left _ (List.mem_append_right _ hlastmem))
      rw [hlast] at hwords h
      rcases List.mem_append.1 h with h | h
      · have hle := (List.pairwise_append.1 hwords).2.2 t' h _ (List.mem_singleton_self _)
        omega
      · rw [List.mem_singleton.1 h]

/-- **A run covers a word** exactly when the word is not left over by the cutting of its row. -/
theorem run_covers_iff {before after : List NameToken} {t : NameToken}
    (htokens : nameTokens rt text = before ++ t :: after) :
    (∃ run ∈ nameRuns rt.unicode text (nameTokens rt text).length (nameTokens rt text),
      Covers (runCandidate rt text run.1 run.2) t) ↔ ¬LeftOver rt.unicode text before t after := by
  have hmem : t ∈ nameTokens rt text := htokens ▸ List.mem_append_right _ List.mem_cons_self
  have h := @mem_nameRuns_iff rt.unicode text _ [] _ le_rfl
    (nodup_nameTokens rt text) (fun _ _ => rfl) _ _ _ htokens
  rw [List.append_nil] at h
  refine Iff.trans ?_ h
  refine exists_congr fun run => and_congr_right fun hrun => ?_
  exact covers_runCandidate_iff rt (infix_of_mem_nameRuns _ _ _ _ run hrun) hmem

/-- An analyzer that takes every word for a surname. -/
def surnamesRuntime : Runtime where
  __ := basicRuntime 0 zero_lt_two_pow_64
  parse word := [{
    gender := none, case := none, hasRole := (· == .surname), inflect := fun _ => word }]

end PiiProxy
