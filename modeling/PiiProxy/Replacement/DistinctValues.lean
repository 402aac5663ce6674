import PiiProxy.Replacement.DigitsLike
import PiiProxy.Replacement.GroupPartition
import PiiProxy.Replacement.Persons

/-!
# Synthetic values are distinct

The mappings of a document share the set of the values used so far, and a surrogate that is drawn is
none of these. When the draws run out, the token of the entity is taken without a test. It is unused
all the same: the ids of the entities are different, and no surrogate that is drawn is a token. For
most types no character of a surrogate is an angle bracket; where the digits of a value are redrawn,
a surrogate can be a token only if the value was written like one.

## Main definitions

* `TokenLike`: a text that is written like a token.
* `PrivacyDecision.PlainValue`: the value of a decision is not.

## Main results

* `always_generic_unmarked`, `always_generic`: which values a generator draws.
* `originalNominal_of_mem_groups`: which value they are drawn for.
* `nodup_synthetic_buildMappings`: the values of the mappings are different.
* `synthetic_distinct`: so they are in every result, and no replacement is the surface it replaces.
-/

namespace PiiProxy

/-! ### Texts written like tokens -/

/-- A text written like a token: a prefix of tokens and decimal digits in angle brackets. -/
def TokenLike (u : Unicode) (value : Text) : Prop :=
  ∃ (type : PIIType) (digits : Text),
    value = tokenFor (tokenPrefix type ++ ['_'] ++ digits) ∧ digits ≠ [] ∧
      ∀ c ∈ digits, u.isDecimal c = true

/-- The value of the decision is not written like a token, nor is its nominative form, which stands
for the value where there is one: a surrogate is drawn for it. -/
structure PrivacyDecision.PlainValue (u : Unicode) (d : PrivacyDecision) : Prop where
  value : ¬TokenLike u d.candidate.value
  nominal : ∀ nominal, d.candidate.metadata.nominalForm = some nominal → ¬TokenLike u nominal

variable {u : Unicode}

private theorem isDigit_of_mem_showNat {n : ℕ} {c : Char} (hc : c ∈ showNat n) :
    c.isDigit = true :=
  Nat.isDigit_of_mem_toDigits (by decide) (by decide) hc

theorem IsToken.tokenLike {token : Text} (h : IsToken token) : TokenLike u token := by
  obtain ⟨-, ⟨type, n, rfl⟩, rfl⟩ := h
  exact ⟨type, showNat n, rfl, Nat.toDigits_ne_nil,
    fun c hc => u.isDecimal_of_ascii c (isDigit_of_mem_showNat hc)⟩

/-- A text without angle brackets is no token. -/
theorem not_isToken_of_notMem {t : Text} (ht : '<' ∉ t) : ¬IsToken t := by
  rintro ⟨id, -, rfl⟩
  exact ht List.mem_cons_self

/-! ### Redrawn digits -/

section Digits

variable {rt : Runtime} {seed : ℕ}

/-- Characters are kept, but for decimal digits, which may be redrawn. -/
def Kept (u : Unicode) (a b : Char) : Prop :=
  b = a ∨ (u.isDecimal a = true ∧ b.isDigit = true)

private theorem always_redrawDigits_kept (keep : ℤ) (value : Text) (seen : ℕ) :
    (redrawDigits rt seed keep seen value).Always (List.Forall₂ (Kept rt.unicode) value) := by
  induction value generalizing seen with
  | nil =>
    rw [redrawDigits]
    exact Gen.always_pure .nil
  | cons a value ih =>
    rw [redrawDigits]
    split_ifs with ha
    · exact Gen.always_bind (ih _) fun tail htail => Gen.always_pure (.cons (.inl rfl) htail)
    · refine Gen.always_bind always_digit fun d hd =>
        Gen.always_bind (ih _) fun tail htail => Gen.always_pure ?_
      rw [showNat_digit hd]
      exact .cons (.inr ⟨ha, isDigit_of_mem_showNat (n := d) (by simp [showNat_digit hd])⟩) htail
    · exact Gen.always_bind (ih _) fun tail htail => Gen.always_pure (.cons (.inl rfl) htail)

/-- `digits_like` keeps all characters but decimal digits. -/
theorem always_digitsLike_kept (value : Text) (keep : ℤ) :
    (digitsLike rt seed value keep).Always (List.Forall₂ (Kept rt.unicode) value) := by
  refine Gen.always_bind (always_redrawDigits_kept keep value 0) fun redrawn hredrawn => ?_
  split_ifs with hne
  · exact Gen.always_pure hredrawn
  · have heq : redrawn = value := by simpa using hne
    rw [heq]
    cases hlast : ((decimalPositions rt value).drop keep.toNat).getLast? with
    | none => exact Gen.always_throw _
    | some index =>
      obtain ⟨c, hc, hdecimal, -⟩ :=
        mem_mutablePositions.1 (List.mem_of_getLast? hlast : index ∈ mutablePositions rt value keep)
      obtain ⟨hlt, hget⟩ := List.getElem?_eq_some_iff.1 hc
      have hsplit : value = value.take index ++ ([c] ++ value.drop (index + 1)) := by
        rw [List.singleton_append, ← hget, List.cons_getElem_drop_succ, List.take_append_drop]
      have hself (t : Text) : List.Forall₂ (Kept rt.unicode) t t :=
        List.forall₂_same.2 fun _ _ => .inl rfl
      have hdigit : List.Forall₂ (Kept rt.unicode) [c]
          (showNat ((rt.unicode.digitValue (value.getD index '0') + 1) % 10)) := by
        have hlt : (rt.unicode.digitValue (value.getD index '0') + 1) % 10 < 10 :=
          Nat.mod_lt _ (by decide)
        rw [showNat_digit hlt]
        refine .cons (.inr ⟨hdecimal, ?_⟩) .nil
        exact isDigit_of_mem_showNat (by rw [showNat_digit hlt]; exact List.mem_singleton_self _)
      refine Gen.always_pure ?_
      rw [List.append_assoc]
      conv => arg 2; rw [hsplit]
      exact List.rel_append (hself _) (List.rel_append hdigit (hself _))

private theorem eq_of_kept {a b : Text} (h : List.Forall₂ (Kept u) a b)
    (hb : ∀ c ∈ b, c.isDigit = false) : a = b := by
  induction h with
  | nil => rfl
  | cons hkept _ ih =>
    obtain ⟨hhead, htail⟩ := List.forall_mem_cons.1 hb
    rcases hkept with rfl | ⟨-, hdigit⟩
    · rw [ih htail]
    · rw [hdigit] at hhead
      cases hhead

private theorem isDecimal_of_kept {a b : Text} (h : List.Forall₂ (Kept u) a b)
    (hb : ∀ c ∈ b, c.isDigit = true) : ∀ c ∈ a, u.isDecimal c = true := by
  induction h with
  | nil => simp
  | cons hkept _ ih =>
    obtain ⟨hhead, htail⟩ := List.forall_mem_cons.1 hb
    refine List.forall_mem_cons.2 ⟨?_, ih htail⟩
    rcases hkept with rfl | ⟨hdecimal, -⟩
    · exact u.isDecimal_of_ascii _ hhead
    · exact hdecimal

private theorem exists_append_of_forall₂ {R : Char → Char → Prop} {a b b' : Text}
    (h : List.Forall₂ R a (b ++ b')) :
    ∃ c c', a = c ++ c' ∧ List.Forall₂ R c b ∧ List.Forall₂ R c' b' :=
  ⟨_, _, (List.take_append_drop b.length a).symm, List.forall₂_take_append a b b' h,
    List.forall₂_drop_append a b b' h⟩

/-- **Redrawn digits make a token only of a value that is written like one.** -/
private theorem tokenLike_of_kept {value token : Text} (h : List.Forall₂ (Kept u) value token)
    (htoken : IsToken token) : TokenLike u value := by
  obtain ⟨-, ⟨type, n, rfl⟩, rfl⟩ := htoken
  obtain ⟨front, back, rfl, hfront, hback⟩ := exists_append_of_forall₂ h
  obtain ⟨left, middle, rfl, hleft, hmiddle⟩ := exists_append_of_forall₂ hfront
  obtain ⟨name, digits, rfl, hname, hdigits⟩ := exists_append_of_forall₂ hmiddle
  have htype : ∀ c ∈ tokenPrefix type ++ ['_'], c.isDigit = false := by
    have hall : (tokenPrefix type ++ ['_']).all (!·.isDigit) = true := by
      cases type <;> rfl
    exact fun c hc => by simpa using List.all_eq_true.1 hall c hc
  refine ⟨type, digits, ?_, fun hnil => ?_, isDecimal_of_kept hdigits fun c =>
    isDigit_of_mem_showNat⟩
  · rw [eq_of_kept hleft (List.forall_mem_singleton.2 rfl), eq_of_kept hname htype,
      eq_of_kept hback (List.forall_mem_singleton.2 rfl)]
    rfl
  · rw [hnil] at hdigits
    exact Nat.toDigits_ne_nil (List.forall₂_nil_left_iff.1 hdigits)

end Digits

/-! ### What the generators draw -/

section Generators

variable {rt : Runtime} {seed : ℕ}

/-- The characters that masks and tokens are recognised by: stars and angle brackets. -/
def isMark (c : Char) : Bool := c == '*' || c == '<' || c == '>'

/-- A text without stars and angle brackets. -/
abbrev Unmarked (t : Text) : Prop := t.any isMark = false

private theorem Unmarked.append {a b : Text} (ha : Unmarked a) (hb : Unmarked b) :
    Unmarked (a ++ b) := by
  rw [Unmarked, List.any_append, ha, hb, Bool.or_false]

private theorem unmarked_of_isDigit {t : Text} (h : ∀ c ∈ t, c.isDigit = true) : Unmarked t := by
  refine List.any_eq_false.2 fun c hc hmark => ?_
  have hdigit := h c hc
  simp only [isMark, Bool.or_eq_true, beq_iff_eq] at hmark
  rcases hmark with (rfl | rfl) | rfl <;> cases hdigit

private theorem unmarked_showNat (n : ℕ) : Unmarked (showNat n) :=
  unmarked_of_isDigit fun _ => isDigit_of_mem_showNat

private theorem unmarked_showNatPadded (k n : ℕ) : Unmarked (showNatPadded k n) :=
  .append (unmarked_of_isDigit fun c hc => by rw [List.eq_of_mem_replicate hc]; rfl)
    (unmarked_showNat n)

/-- Shown digits are digits. -/
theorem isDigit_of_mem_showDigits {ds : List ℕ} {c : Char} (hc : c ∈ showDigits ds) :
    c.isDigit = true := by
  obtain ⟨d, -, hd⟩ := List.mem_flatMap.1 hc
  exact isDigit_of_mem_showNat hd

private theorem unmarked_showDigits (ds : List ℕ) : Unmarked (showDigits ds) :=
  unmarked_of_isDigit fun _ => isDigit_of_mem_showDigits

private theorem unmarked_getD {pool : List Text} (hpool : ∀ w ∈ pool, Unmarked w) (i : ℕ) :
    Unmarked (pool.getD i []) := by
  rw [List.getD_eq_getElem?_getD]
  cases hget : pool[i]? with
  | none => rfl
  | some w => exact hpool w (List.mem_of_getElem? hget)

private theorem unmarked_joinWords {words : List Text} (h : ∀ w ∈ words, Unmarked w) :
    Unmarked (joinWords words) := PySeq.any_intercalate (by decide) h

private theorem unmarked_groupsOfFour {s : Text} (hs : Unmarked s) :
    ∀ w ∈ groupsOfFour s, Unmarked w := by
  have hsub {t : Text} (ht : t ⊆ s) : Unmarked t :=
    List.any_eq_false.2 fun c hc => List.any_eq_false.1 hs c (ht hc)
  have hpart (k : ℕ) : Unmarked ((s.drop k).take 4) :=
    hsub fun _ hc => List.mem_of_mem_drop (List.mem_of_mem_take hc)
  simp only [groupsOfFour, List.forall_mem_cons]
  exact ⟨hsub fun _ => List.mem_of_mem_take, hpart 4, hpart 8, hpart 12, by simp⟩

private theorem always_choice {pool : List Text} (hpool : ∀ w ∈ pool, Unmarked w) :
    (choice rt seed pool).Always Unmarked :=
  Gen.always_bind_any fun i => Gen.always_pure (unmarked_getD hpool i)

/-- A choice from the part of a pool that is wanted, or else from the whole pool, is in the pool. -/
private theorem always_mem_preferred {pool : List Text} (hpool : pool ≠ []) (wanted : Text → Bool) :
    (choice rt seed
      (if (pool.filter wanted).isEmpty then pool else pool.filter wanted)).Always (· ∈ pool) := by
  by_cases hempty : (pool.filter wanted).isEmpty
  · rw [if_pos hempty]
    exact always_choice_mem hpool
  · rw [if_neg hempty]
    exact (always_choice_mem fun hnil => hempty (by rw [hnil]; rfl)).mono fun w hw =>
      List.mem_of_mem_filter hw

/-- A citizenship is one of the countries. -/
theorem always_citizenshipLike (value : Text) :
    (citizenshipLike rt seed value).Always (· ∈ countries) :=
  always_mem_preferred (by decide) _

/-- A place of birth is one of the cities, with what the value has around it. -/
theorem always_birthPlaceLike (value : Text) :
    (birthPlaceLike rt seed value).Always fun drawn => ∃ city ∈ cities,
      drawn ∈ ["г. ".toList ++ city, "город ".toList ++ city, city ++ ", Россия".toList, city] := by
  refine Gen.always_bind (always_mem_preferred (by decide) _) fun city hcity => ?_
  dsimp only
  split_ifs
  all_goals exact Gen.always_pure ⟨city, hcity, by simp⟩

/-- The words of a pool have no marks. -/
private theorem forall_unmarked {pool : List Text} (h : pool.all (!·.any isMark) = true) :
    ∀ w ∈ pool, Unmarked w := by
  intro w hw
  have hword := List.all_eq_true.1 h w hw
  simpa [Unmarked] using hword

private theorem unmarked_formatDate (d : Date) (fmt : DateFormat) :
    Unmarked (formatDate d fmt) := by
  have hpad (k n : ℕ) : Unmarked (showNatPadded k n) := unmarked_showNatPadded k n
  have hdot : Unmarked ['.'] := by decide
  have hslash : Unmarked ['/'] := by decide
  have hdash : Unmarked ['-'] := by decide
  cases fmt with
  | text =>
    refine unmarked_joinWords fun w hw => ?_
    rcases List.mem_cons.1 hw with rfl | hw
    · exact unmarked_showNat _
    · rcases List.mem_cons.1 hw with rfl | hw
      · exact unmarked_getD (forall_unmarked (by decide +kernel)) _
      · rw [List.mem_singleton.1 hw]
        exact unmarked_showNat _
  | dayMonthYearDot =>
    exact ((((hpad 2 _).append hdot).append (hpad 2 _)).append hdot).append (hpad 4 _)
  | dayMonthYearSlash =>
    exact ((((hpad 2 _).append hslash).append (hpad 2 _)).append hslash).append (hpad 4 _)
  | dayMonthYearDash =>
    exact ((((hpad 2 _).append hdash).append (hpad 2 _)).append hdash).append (hpad 4 _)
  | yearMonthDay =>
    exact ((((hpad 4 _).append hdash).append (hpad 2 _)).append hdash).append (hpad 2 _)

/-- The types whose surrogates are the value with its digits redrawn. -/
def PIIType.redrawsDigits (t : PIIType) : Bool :=
  t == .passport || t == .driverLicense || t == .phone

/-- **No generator draws marks**, but where the digits of a value are redrawn. -/
theorem always_generic_unmarked {type : PIIType} {value : Text}
    (htype : type.redrawsDigits = false) : (generic rt seed type value).Always Unmarked := by
  have hdigits (ds : List ℕ) : Unmarked (showDigits ds) := unmarked_showDigits ds
  have hpad (k n : ℕ) : Unmarked (showNatPadded k n) := unmarked_showNatPadded k n
  have hcountries : ∀ w ∈ countries, Unmarked w := forall_unmarked (by decide +kernel)
  have hissuers : ∀ w ∈ issuerPrefixes, Unmarked w := forall_unmarked (by decide +kernel)
  have hcities : ∀ w ∈ cities, Unmarked w := forall_unmarked (by decide +kernel)
  have hstreets : ∀ w ∈ streets, Unmarked w := forall_unmarked (by decide +kernel)
  have hlocals : ∀ w ∈ emailLocalPool, Unmarked w := forall_unmarked (by decide +kernel)
  have hdomains : ∀ w ∈ emailDomainPool, Unmarked w := forall_unmarked (by decide +kernel)
  have hdate : (dateLike rt seed value).Always Unmarked :=
    Gen.always_retryDraw (Gen.always_bind_any fun days =>
      Gen.always_pure (unmarked_formatDate _ _)) _ 9
  have hshort (length : ℕ) : (shortCode rt seed value length).Always Unmarked :=
    Gen.always_retryDraw (Gen.always_bind_any fun ds => Gen.always_pure (hdigits ds)) _ 9
  cases type
  case birthDate => exact hdate
  case passportIssueDate => exact hdate
  case passport => cases htype
  case driverLicense => cases htype
  case phone => cases htype
  case cvv => exact hshort 3
  case pin => exact hshort 4
  case fullName => exact Gen.always_throw _
  case cardholder => exact Gen.always_throw _
  case departmentCode =>
    refine Gen.always_retryDraw (Gen.always_bind_any fun a =>
      Gen.always_bind_any fun b => Gen.always_pure ?_) _ 9
    exact ((hpad 3 a).append (by decide)).append (hpad 3 b)
  case citizenship =>
    exact (always_citizenshipLike value).mono hcountries
  case passportIssuer =>
    refine Gen.always_retryDraw
      (Gen.always_bind (always_choice hissuers) fun issuer hissuer =>
      Gen.always_bind (always_choice hcities) fun city hcity => Gen.always_pure ?_) _ 9
    exact (hissuer.append (by decide)).append hcity
  case birthPlace =>
    refine (always_birthPlaceLike value).mono ?_
    rintro drawn ⟨city, hcity, hdrawn⟩
    have hcity := hcities city hcity
    fin_cases hdrawn
    · exact .append (by decide) hcity
    · exact .append (by decide) hcity
    · exact hcity.append (by decide)
    · exact hcity
  case address =>
    refine Gen.always_bind (always_choice hcities) fun city hcity =>
      Gen.always_bind (always_choice hstreets) fun street hstreet =>
        Gen.always_bind_any fun house => Gen.always_bind_any fun flat =>
          Gen.always_bind_any fun index => Gen.always_pure ?_
    have hfront := ((unmarked_showNat index).append
      (by decide : Unmarked ", г. ".toList)).append hcity
    have hstreet := (hfront.append (by decide : Unmarked ", ул. ".toList)).append hstreet
    have hhouse := (hstreet.append (by decide : Unmarked ", д. ".toList)).append
      (unmarked_showNat house)
    exact (hhouse.append (by decide)).append (unmarked_showNat flat)
  case email =>
    refine Gen.always_retryDraw (Gen.always_bind (always_choice hlocals) fun name hname =>
      Gen.always_bind_any fun number => Gen.always_bind (always_choice hdomains)
        fun domain hdomain => Gen.always_pure ?_) _ 9
    exact ((hname.append (unmarked_showNat number)).append (by decide)).append hdomain
  case inn =>
    refine Gen.always_bind_any fun ds => ?_
    split_ifs
    · exact Gen.always_pure (hdigits _)
    · exact Gen.always_pure (hdigits _)
    · exact Gen.always_pure (hdigits _)
  case cardNumber =>
    refine Gen.always_bind_any fun first => Gen.always_bind_any fun rest => ?_
    split_ifs
    · exact Gen.always_pure (PySeq.any_intercalate (by decide) (unmarked_groupsOfFour (hdigits _)))
    · exact Gen.always_pure (unmarked_joinWords (unmarked_groupsOfFour (hdigits _)))
    · exact Gen.always_pure (hdigits _)

/-- **Which values a generator draws.** Where digits are redrawn a value written like a token is
possible, if the original is one; everywhere else there are no angle brackets. -/
theorem always_generic {type : PIIType} {value : Text} (hvalue : ¬TokenLike rt.unicode value) :
    (generic rt seed type value).Always fun drawn => ¬IsToken drawn := by
  have hlike (keep : ℤ) : (digitsLike rt seed value keep).Always fun drawn => ¬IsToken drawn :=
    (always_digitsLike_kept value keep).mono fun _ hkept htoken =>
      hvalue (tokenLike_of_kept hkept htoken)
  cases htype : type.redrawsDigits with
  | false =>
    refine (always_generic_unmarked htype).mono fun drawn hdrawn =>
      not_isToken_of_notMem fun hmem => ?_
    exact absurd rfl (List.any_eq_false.1 hdrawn '<' hmem)
  | true =>
    simp only [PIIType.redrawsDigits, Bool.or_eq_true, beq_iff_eq] at htype
    rcases htype with (rfl | rfl) | rfl
    · exact hlike 0
    · exact hlike 0
    · exact hlike 1

/-- A surrogate that is drawn for a group is no token. -/
theorem not_isToken_of_drawSurrogate {group : EntityGroup} {drawn : Text × Option Identity}
    (hnominal : group.type.isNameType = false → ¬TokenLike rt.unicode group.originalNominal)
    (h : drawSurrogate rt group seed = .ok drawn) : ¬IsToken drawn.1 := by
  rcases drawSurrogate_cases h with ⟨-, identity, hdrawn, rfl⟩ | ⟨hname, -, c, hrun⟩
  · refine not_isToken_of_notMem fun hmem => ?_
    have hany : (joinWords identity.words).any (· == '<') = false :=
      PySeq.any_intercalate (by decide) fun w hw => List.any_eq_false.2 fun c hc heq =>
        (hdrawn.words_spec w hw).2.2 (eq_of_beq heq ▸ hc)
    exact absurd rfl (List.any_eq_false.1 hany '<' hmem)
  · exact always_generic (hnominal hname) _ _ _ hrun

end Generators

/-! ### What they are drawn for -/

section Groups

variable {u : Unicode} {ds : List DecisionObject}

/-- What a group holds is a decision to mask, its components perhaps with roles. -/
theorem annotatedFrom_of_mem_groups (hids : DistinctIds ds) {g : EntityGroup}
    (hg : g ∈ groupPersonalDecisions u ds) {o : DecisionObject} (ho : o ∈ g.decisions) :
    ∃ d ∈ personalDecisions ds, AnnotatedFrom d o := by
  obtain ⟨os, hos, hperm⟩ := perm_groupPersonalDecisions u hids
  have hmem := hperm.mem_iff.1 (List.mem_flatMap.2 ⟨g, hg, ho⟩)
  exact PySeq.exists_of_forall₂ hos.flip hmem

/-- A resolved group is one of full names. -/
private theorem groupDecision_resolved (hids : DistinctIds ds) {st : Grouping} {d : DecisionObject}
    (hd : d ∈ personalDecisions ds)
    (hst : ∀ g ∈ st.groups, g.resolved.isSome = true → g.type = .fullName) :
    ∀ g ∈ (groupDecision u (personsOf u ds) st d).groups, g.resolved.isSome = true →
      g.type = .fullName := by
  intro g hg hresolved
  rw [groupDecision_eq] at hg
  split at hg
  · obtain ⟨k, hk, rfl⟩ := List.mem_iff_getElem.1 hg
    have hlt : k < st.groups.length := by simpa using hk
    rw [List.getElem_modify] at hresolved ⊢
    split_ifs at hresolved ⊢
    · exact hst st.groups[k] (List.getElem_mem hlt) hresolved
    · exact hst st.groups[k] (List.getElem_mem hlt) hresolved
  · rcases List.mem_append.1 hg with hg | hg
    · exact hst g hg hresolved
    · rw [List.mem_singleton.1 hg, EntityGroup.type, type_groupObject u hids hd]
      rw [List.mem_singleton.1 hg, Option.isSome_map] at hresolved
      obtain ⟨found, hfound⟩ := Option.isSome_iff_exists.1 hresolved
      obtain ⟨hp, hx⟩ := mem_of_resolvedBy hfound
      have hid : d.1 ∈ (personsOf u ds).flatMap ResolvedPerson.ids :=
        List.mem_flatMap.2 ⟨found.1, hp, List.mem_map.2 ⟨_, hx, rfl⟩⟩
      obtain ⟨d', hd', heq⟩ :=
        List.mem_map.1 ((resolved_personsOf u ds).perm_ids.mem_iff.1 hid)
      obtain ⟨hpersonal, hmention⟩ := List.mem_filter.1 hd'
      obtain rfl := (hids.filter _).eq hpersonal hd heq
      exact (of_decide_eq_true hmention).1

theorem type_of_resolved (hids : DistinctIds ds) {g : EntityGroup}
    (hg : g ∈ groupPersonalDecisions u ds) (hresolved : g.resolved.isSome = true) :
    g.type = .fullName := by
  have hrun : ∀ g ∈ ((inTextOrder ds).foldl (groupDecision u (personsOf u ds)) {}).groups,
      g.resolved.isSome = true → g.type = .fullName :=
    List.foldlRecOn (motive := fun st : Grouping => ∀ g ∈ st.groups, g.resolved.isSome = true →
      g.type = .fullName) _ _ (fun g hg => by cases hg) fun st hst d hd =>
        groupDecision_resolved hids (mem_inTextOrder.1 hd) hst
  exact hrun g hg hresolved

/-- **Which value a surrogate is drawn for**: unless the group is one of full names, the value of a
decision to mask or its nominative form. -/
theorem originalNominal_of_mem_groups (hids : DistinctIds ds) {g : EntityGroup}
    (hg : g ∈ groupPersonalDecisions u ds) (htype : g.type ≠ .fullName) :
    ∃ d ∈ personalDecisions ds, g.originalNominal = d.2.candidate.value ∨
      d.2.candidate.metadata.nominalForm = some g.originalNominal := by
  have hnone : g.resolved = none := by
    cases hresolved : g.resolved with
    | none => rfl
    | some p => exact absurd (type_of_resolved hids hg (by rw [hresolved]; rfl)) htype
  have hnominal : g.originalNominal = (g.decisions.findSome? fun d =>
      d.2.candidate.metadata.nominalForm.filter fun n =>
        !n.isEmpty).getD g.representativeValue := by
    rw [EntityGroup.originalNominal, EntityGroup.resolvedNominal, hnone]
    rfl
  cases hfind : g.decisions.findSome? fun d =>
      d.2.candidate.metadata.nominalForm.filter fun n => !n.isEmpty with
  | none =>
    obtain ⟨d, hd, hfrom⟩ := annotatedFrom_of_mem_groups hids hg List.mem_cons_self
    refine ⟨d, hd, .inl ?_⟩
    rw [hnominal, hfind]
    exact congrArg (fun o => o.candidate.value) hfrom.rest_eq
  | some nominal =>
    obtain ⟨o, ho, hform⟩ := List.exists_of_findSome?_eq_some hfind
    obtain ⟨d, hd, hfrom⟩ := annotatedFrom_of_mem_groups hids hg ho
    refine ⟨d, hd, .inr ?_⟩
    have hsame : d.2.candidate.metadata.nominalForm = o.2.candidate.metadata.nominalForm :=
      (congrArg (fun o => o.candidate.metadata.nominalForm) hfrom.rest_eq).symm
    rw [hnominal, hfind, hsame]
    exact (Option.filter_eq_some_iff.1 hform).1

end Groups

/-! ### The mappings -/

section Mappings

variable {rt : Runtime}

/-- **The values of the mappings are different**, and none of them was used before. -/
theorem nodup_synthetic_buildMappings {sessionSeed text : Text} {groups : List EntityGroup}
    {used : List Text} {entries : List (EntityGroup × EntityMapping)}
    (hids : ∀ g ∈ groups, IsEntityId g.entityId) (hnodup : (groups.map EntityGroup.entityId).Nodup)
    (hdrawn : ∀ g ∈ groups, ∀ seed drawn, drawSurrogate rt g seed = .ok drawn → ¬IsToken drawn.1)
    (hunused : ∀ g ∈ groups, tokenFor g.entityId ∉ used)
    (h : buildMappings rt sessionSeed text groups used = .ok entries) :
    (entries.map fun e => e.2.synthetic).Nodup ∧ ∀ e ∈ entries, e.2.synthetic ∉ used := by
  induction groups generalizing used entries with
  | nil =>
    cases h
    exact ⟨List.nodup_nil, fun e he => by cases he⟩
  | cons g gs ih =>
    obtain ⟨⟨mapping, used'⟩, hbuilt, h⟩ := Except.bind_eq_ok.1 h
    obtain ⟨rest, hrest, h⟩ := Except.bind_eq_ok.1 h
    cases h
    obtain ⟨hid, hids⟩ := List.forall_mem_cons.1 hids
    obtain ⟨hdrawn, hdrawn_rest⟩ := List.forall_mem_cons.1 hdrawn
    obtain ⟨htoken, hunused⟩ := List.forall_mem_cons.1 hunused
    obtain ⟨hother, hnodup⟩ := List.nodup_cons.1 hnodup
    obtain ⟨chosen, hchosen, -, -, -, -, hsynthetic, -, -, -, rfl⟩ := buildMapping_eq_ok rt hbuilt
    -- the value is unused, and not the token of a later group
    have hfresh : mapping.synthetic ∉ used ∧
        ∀ g' ∈ gs, tokenFor g'.entityId ≠ mapping.synthetic := by
      cases chosen with
      | none =>
        rw [hsynthetic]
        refine ⟨htoken, fun g' hg' heq => hother ?_⟩
        have hsame : g'.entityId = g.entityId := tokenFor_injective heq
        exact hsame ▸ List.mem_map_of_mem hg'
      | some drawn =>
        obtain ⟨haccept, seed, hdraw⟩ := chooseSurrogate_eq_some rt hchosen
        rw [hsynthetic]
        refine ⟨?_, fun g' hg' heq => hdrawn seed drawn hdraw ⟨g'.entityId, hids g' hg', heq.symm⟩⟩
        exact (acceptSurrogate_iff.1 haccept).2.1
    have hunused' : ∀ g' ∈ gs, tokenFor g'.entityId ∉ mapping.synthetic :: used :=
      fun g' hg' hmem => (List.mem_cons.1 hmem).elim (hfresh.2 g' hg') (hunused g' hg')
    obtain ⟨hrest_nodup, hrest_fresh⟩ := ih hids hnodup hdrawn_rest hunused' hrest
    refine ⟨List.nodup_cons.2 ⟨fun hmem => ?_, hrest_nodup⟩, List.forall_mem_cons.2
      ⟨hfresh.1, fun e he hmem => hrest_fresh e he (List.mem_cons_of_mem _ hmem)⟩⟩
    obtain ⟨e, he, heq⟩ := List.mem_map.1 hmem
    exact hrest_fresh e he (heq ▸ List.mem_cons_self)

end Mappings

/-! ### The result -/

section Result

variable {rt : Runtime}

/-- A replacement in synthetic mode is the token of the entity, or not the value it replaces. -/
theorem occurrenceReplacement_synthetic (d : PrivacyDecision) (mapping : EntityMapping) :
    (occurrenceReplacement rt .syntheticMode d mapping).1 = mapping.token ∨
      (occurrenceReplacement rt .syntheticMode d mapping).1 ≠ d.candidate.value := by
  unfold occurrenceReplacement
  dsimp only
  split
  · exact .inl rfl
  · split_ifs with heq
    · exact .inl rfl
    · exact .inr heq

/-- What the main loop keeps in synthetic mode: the entries belong to the groups and carry tokens,
and no span is replaced by the value of its decision. -/
private structure Placement.Changed (ds : List DecisionObject) (groups : List EntityGroup)
    (st : Placement) : Prop where
  groups_eq : st.entries.map Prod.fst = groups
  tokens : ∀ e ∈ st.entries, IsToken e.2.token
  spans : ∀ sp ∈ st.spans, ∃ d ∈ personalDecisions ds,
    sp.IsFor d.2 ∧ sp.replacement ≠ d.2.candidate.value

private theorem placeDecision_changed {ds : List DecisionObject} (hids : DistinctIds ds)
    (hplain : ∀ d ∈ personalDecisions ds, ¬TokenLike rt.unicode d.2.candidate.value)
    {st st' : Placement} {d : DecisionObject} (hd : d ∈ ds)
    (hst : st.Changed ds (groupPersonalDecisions rt.unicode ds))
    (h : placeDecision rt .syntheticMode st d = .ok st') :
    st'.Changed ds (groupPersonalDecisions rt.unicode ds) := by
  obtain ⟨-, hentries, hspans⟩ | ⟨hpersonal, i, group, mapping, object, hfind, hentries, hspans⟩ :=
    placeDecision_eq_ok rt h
  · exact ⟨by rw [hentries]; exact hst.groups_eq, by rw [hentries]; exact hst.tokens,
      by rw [hspans]; exact hst.spans⟩
  · obtain ⟨hget, hobject⟩ := findEntry_eq_some hfind
    have hmem := List.mem_of_getElem? hget
    have htoken : IsToken mapping.token := hst.tokens _ hmem
    have hd' : d ∈ personalDecisions ds := List.mem_filter.2 ⟨hd, hpersonal⟩
    -- the object that the entry holds is the decision, its components perhaps with roles
    have hvalue : object.candidate.value = d.2.candidate.value := by
      have hgroup : group ∈ groupPersonalDecisions rt.unicode ds :=
        hst.groups_eq ▸ List.mem_map_of_mem hmem
      obtain ⟨source, hsource, hfrom⟩ := annotatedFrom_of_mem_groups hids hgroup hobject
      obtain rfl : source = d := (hids.filter _).eq hsource hd' hfrom.id_eq.symm
      exact congrArg (fun o => o.candidate.value) hfrom.rest_eq
    refine ⟨?_, fun e he => ?_, fun sp hsp => ?_⟩
    · rw [hentries, List.map_set, ← hst.groups_eq]
      refine List.ext_getElem? fun k => ?_
      rw [List.getElem?_set]
      split_ifs with hik hlt
      · rw [← hik, List.getElem?_map, hget]
        rfl
      · rw [← hik]
        exact (List.getElem?_eq_none (not_lt.1 hlt)).symm
      · rfl
    · rw [hentries] at he
      rcases List.mem_or_eq_of_mem_set he with he | rfl
      · exact hst.tokens e he
      · obtain ⟨_, hdown⟩ := isDowngradeOf_occurrenceReplacement rt .syntheticMode object
          (.refl mapping)
        rw [hdown]
        exact htoken
    · rw [hspans] at hsp
      rcases List.mem_append.1 hsp with hsp | hsp
      · exact hst.spans sp hsp
      · rw [List.mem_singleton.1 hsp]
        refine ⟨d, hd', ⟨rfl, rfl⟩, fun heq => ?_⟩
        rcases occurrenceReplacement_synthetic object mapping with htokened | hne
        · have hsame : d.2.candidate.value = mapping.token := heq.symm.trans htokened
          exact hplain d hd' (hsame ▸ htoken.tokenLike)
        · exact hne (heq.trans hvalue.symm)

/-- **Synthetic values are distinct and never the identity.** When no value, and no nominative form
that stands for one, is written like a token, the values of the mappings are different, and every
occurrence replaces the value of a decision to mask by another text. The surface of a decision about
a piece of the text is that piece. -/
theorem synthetic_distinct (rt : Runtime) {text : Text} {decisions : List PrivacyDecision}
    {sessionSeed : Text} {R : TransformResult}
    (h : buildTransformResult rt text decisions .syntheticMode sessionSeed = .ok R)
    (hvalues : ∀ d ∈ decisions, d.isPersonal = true → d.PlainValue rt.unicode) :
    (R.mappings.map EntityMapping.synthetic).Nodup ∧
    (∀ o ∈ R.occurrences, ∃ d ∈ decisions, d.isPersonal = true ∧
      o.originalStart = d.candidate.start ∧ o.originalEnd = d.candidate.stop ∧
        o.masked ≠ d.candidate.value) ∧
    ((∀ d ∈ decisions, d.isPersonal = true → d.candidate.WellFormed text) →
      ∀ o ∈ R.occurrences, o.masked ≠ o.original) := by
  have hids := distinctIds_decisionObjects decisions
  have hsource {d : DecisionObject} (hd : d ∈ personalDecisions (decisionObjects decisions)) :
      d.2 ∈ decisions ∧ d.2.isPersonal = true := by
    obtain ⟨hmem, hpersonal⟩ := List.mem_filter.1 hd
    exact ⟨map_snd_decisionObjects decisions ▸ List.mem_map_of_mem hmem, hpersonal⟩
  have hplain {d : DecisionObject} (hd : d ∈ personalDecisions (decisionObjects decisions)) :
      d.2.PlainValue rt.unicode := hvalues _ (hsource hd).1 (hsource hd).2
  obtain ⟨entries, placed, hentries, hplaced, hmappings, hR⟩ := buildTransformResult_eq_ok rt h
  have hchanged : placed.Changed (decisionObjects decisions)
      (groupPersonalDecisions rt.unicode (decisionObjects decisions)) :=
    Except.foldlM_invariant_of_mem
      (fun st d st' hd hst => placeDecision_changed hids (fun d' hd' => (hplain hd').value) hd hst)
      ⟨(buildMappings_eq_ok rt hentries).1,
        buildMappings_isToken rt isEntityId_of_mem_groups hentries, fun sp hsp => by cases hsp⟩
      hplaced
  have hoccurrence {o : Occurrence} (ho : o ∈ R.occurrences) :
      ∃ d ∈ decisions, d.isPersonal = true ∧ o.originalStart = d.candidate.start ∧
        o.originalEnd = d.candidate.stop ∧ o.masked ≠ d.candidate.value ∧
          o.original = PySeq.slice text d.candidate.start d.candidate.stop := by
    have hrecords := spliceFrom_records text 0 0 (PySeq.sortedBy Span.start placed.spans)
    rw [← spliceSpans, ← hR] at hrecords
    obtain ⟨sp, hsp, hrec⟩ := PySeq.exists_of_forall₂ hrecords ho
    obtain ⟨d, hd, ⟨hstart, hstop⟩, hne⟩ := hchanged.spans sp (PySeq.mem_sortedBy.1 hsp)
    obtain ⟨hmem, hpersonal⟩ := hsource hd
    refine ⟨d.2, hmem, hpersonal, ?_, ?_, ?_, ?_⟩
    · rw [hrec.start_eq, hstart]
    · rw [hrec.stop_eq, hstop]
    · rw [hrec.masked_eq]
      exact hne
    · rw [hrec.original_eq, hstart, hstop]
  refine ⟨?_, fun o ho => ?_, fun hwell o ho => ?_⟩
  · have hsame : R.mappings.map EntityMapping.synthetic = entries.map fun e => e.2.synthetic := by
      rw [hmappings, List.map_map]
      refine List.forall₂_eq_eq_eq ▸ List.forall₂_map_left_iff.2 (List.forall₂_map_right_iff.2
        ((foldlM_placeDecision_downgrades rt hplaced).imp fun e built hentry => ?_))
      obtain ⟨_, _, hdown⟩ := hentry
      rw [Function.comp_apply, hdown]
    rw [hsame]
    refine (nodup_synthetic_buildMappings isEntityId_of_mem_groups (nodup_entityId_groups _ _)
      (fun g hg seed drawn hdrawn => not_isToken_of_drawSurrogate (fun hname => ?_) hdrawn)
      (fun g _ => List.not_mem_nil) hentries).1
    obtain ⟨d, hd, hvalue | hnominal⟩ := originalNominal_of_mem_groups hids hg fun htype => by
      rw [htype] at hname
      cases hname
    · exact hvalue ▸ (hplain hd).value
    · exact (hplain hd).nominal _ hnominal
  · obtain ⟨d, hd, hpersonal, hstart, hstop, hne, -⟩ := hoccurrence ho
    exact ⟨d, hd, hpersonal, hstart, hstop, hne⟩
  · obtain ⟨d, hd, hpersonal, -, -, hne, horiginal⟩ := hoccurrence ho
    rw [horiginal, PySeq.slice_natCast, ← (hwell d hd hpersonal).value_eq]
    exact hne

/-- Two addresses in one document, for the case below. -/
def twoMails : List PrivacyDecision :=
  [⟨{ mailCandidate with start := 0, stop := 6 }, .mask, 1, []⟩,
    ⟨{ mailCandidate with value := "c@d.ru".toList, start := 7, stop := 13 }, .mask, 1, []⟩]

/-- The case of two addresses for which the same surrogate is drawn each time. -/
theorem synthetic_distinct_twoMails :
    ∃ R, buildTransformResult (basicRuntime 0 (by decide)) "a@b.ru c@d.ru".toList twoMails
        .syntheticMode "p1".toList = .ok R ∧
      (R.mappings.map EntityMapping.synthetic).drop 1 = ["<EMAIL_2>".toList] ∧
      (R.mappings.map EntityMapping.synthetic).Nodup ∧
      ∀ o ∈ R.occurrences, o.masked ≠ o.original := by
  have hrun : ∃ R, buildTransformResult (basicRuntime 0 (by decide)) "a@b.ru c@d.ru".toList twoMails
      .syntheticMode "p1".toList = .ok R ∧
        (R.mappings.map EntityMapping.synthetic).drop 1 = ["<EMAIL_2>".toList] :=
        ⟨_, rfl, by decide⟩
  obtain ⟨R, hR, hsecond⟩ := hrun
  have hplain : ∀ d ∈ twoMails, d.isPersonal = true → d.PlainValue basicUnicode := by
    have hopen {value : Text} (hvalue : value.head? ≠ some '<') :
      ¬TokenLike basicUnicode value := by
      rintro ⟨type, digits, rfl, -⟩
      exact hvalue rfl
    intro d hd _
    rcases List.mem_cons.1 hd with rfl | hd
    · exact ⟨hopen (by decide), fun _ hnominal => by cases hnominal⟩
    · rw [List.mem_singleton.1 hd]
      exact ⟨hopen (by decide), fun _ hnominal => by cases hnominal⟩
  have hwell : ∀ d ∈ twoMails, d.isPersonal = true →
      d.candidate.WellFormed "a@b.ru c@d.ru".toList := by
    intro d hd _
    rcases List.mem_cons.1 hd with rfl | hd
    · exact ⟨by decide, by decide, rfl⟩
    · rw [List.mem_singleton.1 hd]
      exact ⟨by decide, by decide, rfl⟩
  obtain ⟨hnodup, -, hchanged⟩ := synthetic_distinct (basicRuntime 0 (by decide)) hR hplain
  exact ⟨R, hR, hsecond, hnodup, hchanged hwell⟩

end Result

end PiiProxy
