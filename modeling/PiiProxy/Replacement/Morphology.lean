import PiiProxy.Core.Runtime

/-!
# Morphology

The functions of `app/replacement/morphology.py` over an arbitrary analyzer: choosing among the
parses of a word, inflecting it and normalizing it to the nominative. The caches of the source
memoize pure functions and are left out.

## Main definitions

* `cases`: the six cases the program inflects to.
* `guessGender`, `detectCase`, `inflectWord`, `inflectNameWords`, `inflectFullName`.
* `classifyNameWord`, `normalizeToNominative`.
* `Runtime.Inflects`: no inflected word is empty, and numbers have one form.
-/

namespace PiiProxy

variable (rt : Runtime)

/-- `CASES`. -/
def cases : List GramCase := [.nomn, .gent, .datv, .accs, .ablt, .loct]

private def isMascOrFemn (p : Parse) : Bool := p.gender == some .masc || p.gender == some .femn

/-- `guess_gender`: the gender of the first parse as a name, else of any parse, else `masc`. -/
def guessGender (firstName : Text) : Gender :=
  let parses := rt.parse firstName
  match parses.find? fun p => p.hasRole .first && isMascOrFemn p with
  | some p => p.gender.getD .masc
  | none =>
    match parses.find? isMascOrFemn with
    | some p => p.gender.getD .masc
    | none => .masc

/-- `detect_case`. -/
def detectCase (word : Text) : Option GramCase :=
  (rt.parse word).findSome? fun p => p.case.filter (cases.contains ·)

/-- The parses of `word` with the given gender, or all of them when there is none. -/
private def genderedParses (word : Text) (gender : Option Gender) : List Parse :=
  let parses := rt.parse word
  match gender with
  | none => parses
  | some g =>
    let gendered := parses.filter fun p => p.gender == some g
    if gendered.isEmpty then parses else gendered

/-- The first inflection to `case` among the parses of `word`, capitalized like `word`. -/
private def inflectFirst (word : Text) (case : GramCase) (gender : Option Gender) : Text :=
  match (genderedParses rt word gender).findSome? fun p => p.inflect case with
  | some result =>
    if rt.unicode.isUpper (word.take 1) then rt.unicode.capitalize result else result
  | none => word

/-- `inflect_word`: best-effort inflection of a single word, keeping capitalization. -/
def inflectWord (word : Text) (case : GramCase) (gender : Option Gender) : Text :=
  if case = .nomn ∨ case ∉ cases then word else inflectFirst rt word case gender

/-- The analyzer and the interpreter make no word empty, and leave numbers as they are. -/
structure Runtime.Inflects : Prop where
  inflect_ne_nil : ∀ word, word ≠ [] → ∀ p ∈ rt.parse word, ∀ case t,
    p.inflect case = some t → t ≠ []
  inflect_digits : ∀ word, word.all Char.isDigit = true → ∀ p ∈ rt.parse word, ∀ case t,
    p.inflect case = some t → t = word
  capitalize_ne_nil : ∀ t, t ≠ [] → rt.unicode.capitalize t ≠ []
  capitalize_digits : ∀ t, t.all Char.isDigit = true → rt.unicode.capitalize t = t

/-- An inflected word is the word, or an inflection of one of its parses, perhaps capitalized. -/
private theorem inflectWord_cases (word : Text) (case : GramCase) (gender : Option Gender) :
    inflectWord rt word case gender = word ∨
      ∃ p ∈ rt.parse word, ∃ result, p.inflect case = some result ∧
        (inflectWord rt word case gender = result ∨
          inflectWord rt word case gender = rt.unicode.capitalize result) := by
  have hparses : ∀ p ∈ genderedParses rt word gender, p ∈ rt.parse word := by
    intro p hp
    unfold genderedParses at hp
    dsimp only at hp
    split at hp
    · exact hp
    · split_ifs at hp
      · exact hp
      · exact List.mem_of_mem_filter hp
  rw [inflectWord]
  split_ifs
  · exact .inl rfl
  · unfold inflectFirst
    split
    · next result hfind =>
      obtain ⟨p, hp, hresult⟩ := List.exists_of_findSome?_eq_some hfind
      refine .inr ⟨p, hparses p hp, result, hresult, ?_⟩
      split_ifs
      · exact .inr rfl
      · exact .inl rfl
    · exact .inl rfl

variable {rt}

theorem inflectWord_ne_nil (h : rt.Inflects) {word : Text} (hword : word ≠ []) (case : GramCase)
    (gender : Option Gender) : inflectWord rt word case gender ≠ [] := by
  obtain heq | ⟨p, hp, result, hresult, heq | heq⟩ := inflectWord_cases rt word case gender
  · rwa [heq]
  · rw [heq]
    exact h.inflect_ne_nil word hword p hp case result hresult
  · rw [heq]
    exact h.capitalize_ne_nil result (h.inflect_ne_nil word hword p hp case result hresult)

/-- A number stays as it is. -/
theorem inflectWord_of_digits (h : rt.Inflects) {word : Text} (hword : word.all Char.isDigit = true)
    (case : GramCase) (gender : Option Gender) : inflectWord rt word case gender = word := by
  obtain heq | ⟨p, hp, result, hresult, heq⟩ := inflectWord_cases rt word case gender
  · exact heq
  · obtain rfl := h.inflect_digits word hword p hp case result hresult
    obtain heq | heq := heq
    · exact heq
    · rw [heq, h.capitalize_digits result hword]

variable (rt)

/-- `inflect_name_words`. -/
def inflectNameWords (words : List Text) (case : GramCase) (gender : Gender) : Text :=
  joinWords ((words.filter fun w => !w.isEmpty).map fun w => inflectWord rt w case (some gender))

/-- `inflect_full_name`. -/
def inflectFullName (surname first patronymic : Text) (case : GramCase) (gender : Gender) : Text :=
  inflectNameWords rt [surname, first, patronymic] case gender

/-- `split_name_words`. -/
def splitNameWords (nominal : Text) : List Text :=
  rt.unicode.splitWords (rt.unicode.strip nominal)

/-- `classify_name_word`: the best role among the two top-ranked parses of `word`. -/
def classifyNameWord (word : Text) : Option (Role × Parse) :=
  ((rt.parse word).take 2).findSome? fun p =>
    ([.patronymic, .surname, .first].find? p.hasRole).map (·, p)

/-- `normalize_to_nominative`. -/
def normalizeToNominative (word : Text) (gender : Option Gender) : Text :=
  inflectFirst rt word .nomn gender

end PiiProxy
