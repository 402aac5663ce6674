import PiiProxy.GoService.Reversibility
import PiiProxy.Lib.Passes

/-!
# Value-based demasking as one substitution

`FuzzyDemask` replaces one surrogate after another, first all tokens and then all synthetic values,
each in the text that the replacements before have left. The surrogates of a payload are restored
all at once when each search finds exactly the occurrences that the payload has, whichever of the
others were restored before. An original that holds the token of another entity makes the two
differ.

## Main definitions

* `GoService.passes`: the replacements of `FuzzyDemask`, in order.
* `GoService.restoredOnce`: the payload with the surrogates that it holds restored, each once.
* `GoService.Undisturbed`: no restored original disturbs the search for another surrogate.

## Main results

* `GoService.fuzzyDemask_eq_run`: demasking runs the passes.
* `GoService.fuzzyDemask_eq_restoredOnce`: undisturbed, it restores each surrogate of the payload
  once, in whatever order the mappings stand.
-/

namespace PiiProxy.GoService

open Passes

/-! ### The passes -/

/-- `strings.ReplaceAll(result, m.Token, m.Original)`. -/
def tokenRule (m : Mapping) : Rule UInt8 := ⟨m.token, m.original, false⟩

/-- `replaceWordBounded(result, m.Synthetic, m.Original)`. -/
def syntheticRule (m : Mapping) : Rule UInt8 := ⟨m.synthetic, m.original, true⟩

/-- The replacements, in the order of `FuzzyDemask`. Empty surrogates are left out. -/
def passes (ms : List Mapping) : Mode → List (Rule UInt8)
  | .partialMode => []
  | .syntheticMode => (ms.map tokenRule ++ ms.map syntheticRule).filter fun r => !r.needle.isEmpty
  | _ => (ms.map tokenRule).filter fun r => !r.needle.isEmpty

/-- The payload as pieces: single bytes and the surrogates that it holds. -/
def pieces (payload : GoString) (ms : List Mapping) (mode : Mode) : List (Piece UInt8) :=
  read isWordChar (passes ms mode) none 0 payload

/-- The payload with the surrogates that it holds restored, each once. -/
def restoredOnce (payload : GoString) (ms : List Mapping) (mode : Mode) : GoString :=
  restore (passes ms mode) (pieces payload ms mode)

/-- In every order of the mappings, each surrogate is found exactly where the payload holds it when
those before it are restored. -/
def Undisturbed (payload : GoString) (ms : List Mapping) (mode : Mode) : Prop :=
  ∀ ms' : List Mapping, ms'.Perm ms → ∀ before r after, passes ms' mode = before ++ r :: after →
    FindsOwn isWordChar before r none (pieces payload ms mode)

/-- `FuzzyDemask` restores each surrogate of the payload once, in every order of the mappings. -/
def RestoresOnce (payload : GoString) (ms : List Mapping) (mode : Mode) : Prop :=
  ∀ ms' : List Mapping, ms'.Perm ms →
    fuzzyDemask payload ms' mode = .ok (restoredOnce payload ms mode)

theorem needle_ne_nil_of_mem_passes {ms : List Mapping} {mode : Mode} :
    ∀ r ∈ passes ms mode, r.needle ≠ [] := by
  intro r hr
  unfold passes at hr
  split at hr
  · cases hr
  all_goals
    have hne := (List.mem_filter.1 hr).2
    rw [Bool.not_eq_true', List.isEmpty_eq_false_iff] at hne
    exact hne

theorem passes_perm {ms ms' : List Mapping} (h : ms'.Perm ms) (mode : Mode) :
    (passes ms' mode).Perm (passes ms mode) := by
  unfold passes
  split
  · exact List.Perm.refl _
  · exact ((h.map _).append (h.map _)).filter _
  · exact (h.map _).filter _

/-! ### Demasking runs the passes -/

theorem replaceAll_eq_scan {isWord : UInt8 → Bool} (hword : ∀ b, isWord b = false)
    (needle replacement : GoString) (before : Option UInt8) (skip : ℕ) (s : GoString) :
    replaceAll needle replacement skip s =
      WordBounded.scan isWord needle replacement before skip s := by
  have hany (o : Option UInt8) : o.any isWord = false := by
    cases o with
    | none => rfl
    | some b => exact hword b
  induction s generalizing before skip with
  | nil =>
    cases skip <;> rw [replaceAll, WordBounded.scan]
  | cons b s ih =>
    cases skip with
    | succ skip => exact ih (some b) skip
    | zero =>
      have htakes : WordBounded.takes isWord needle before (b :: s) = needle.isPrefixOf
        (b :: s) := by
        simp only [WordBounded.takes, WordBounded.free, hany, Bool.not_false, Bool.and_self,
          Bool.and_true]
      rw [replaceAll, WordBounded.scan, htakes, ih (some b) (needle.length - 1), ih (some b) 0]

theorem replaceTokens_eq_run (ms : List Mapping) (payload : GoString) :
    replaceTokens ms payload =
      run isWordChar ((ms.map tokenRule).filter fun r => !r.needle.isEmpty) payload := by
  induction ms generalizing payload with
  | nil => rfl
  | cons m ms ih =>
    by_cases htoken : m.token = []
    · have hskip : (!(tokenRule m).needle.isEmpty) = false := by rw [tokenRule, htoken]; rfl
      rw [List.map_cons, List.filter_cons, hskip, if_neg Bool.false_ne_true, ← ih]
      simp only [replaceTokens, List.foldl_cons, if_pos htoken]
    · have hkeep : (!(tokenRule m).needle.isEmpty) = true := by
        rw [Bool.not_eq_true', List.isEmpty_eq_false_iff]
        exact htoken
      rw [List.map_cons, List.filter_cons, hkeep, if_pos rfl]
      show _ = run isWordChar _ ((tokenRule m).pass isWordChar payload)
      have hpass : (tokenRule m).pass isWordChar payload =
          replaceAll m.token m.original 0 payload :=
        (replaceAll_eq_scan (fun b => Bool.false_and _) m.token m.original none 0 payload).symm
      rw [hpass, ← ih]
      simp only [replaceTokens, List.foldl_cons, if_neg htoken]

theorem replaceSynthetic_eq_run (ms : List Mapping) (payload : GoString) :
    replaceSynthetic ms payload =
      .ok (run isWordChar ((ms.map syntheticRule).filter fun r => !r.needle.isEmpty) payload) := by
  induction ms generalizing payload with
  | nil => rfl
  | cons m ms ih =>
    by_cases hsyn : m.synthetic = []
    · have hskip : (!(syntheticRule m).needle.isEmpty) = false := by rw [syntheticRule, hsyn]; rfl
      rw [List.map_cons, List.filter_cons, hskip, if_neg Bool.false_ne_true, ← ih]
      simp only [replaceSynthetic, List.foldlM_cons, if_pos hsyn]
      rfl
    · have hkeep : (!(syntheticRule m).needle.isEmpty) = true := by
        rw [Bool.not_eq_true', List.isEmpty_eq_false_iff]
        exact hsyn
      rw [List.map_cons, List.filter_cons, hkeep, if_pos rfl]
      show _ = Except.ok (run isWordChar _ ((syntheticRule m).pass isWordChar payload))
      rw [← ih]
      simp only [replaceSynthetic, List.foldlM_cons, if_neg hsyn,
        replaceWordBounded_eq_scan hsyn payload m.original]
      rfl

/-- **Demasking runs the passes, one after another.** -/
theorem fuzzyDemask_eq_run (payload : GoString) (ms : List Mapping) (mode : Mode) :
    fuzzyDemask payload ms mode = .ok (run isWordChar (passes ms mode) payload) := by
  cases mode with
  | partialMode => rfl
  | tokenMode => rw [fuzzyDemask, passes, replaceTokens_eq_run] <;> simp
  | syntheticMode =>
    rw [fuzzyDemask, passes, replaceSynthetic_eq_run, replaceTokens_eq_run, List.filter_append, run,
      run, run, List.foldl_append]
  | other name => rw [fuzzyDemask, passes, replaceTokens_eq_run] <;> simp

/-! ### Undisturbed passes -/

/-- **Undisturbed, each surrogate of the payload is restored once, in every order.** -/
theorem fuzzyDemask_eq_restoredOnce (payload : GoString) (ms : List Mapping) (mode : Mode)
    (h : Undisturbed payload ms mode) : RestoresOnce payload ms mode := by
  intro ms' hperm
  have hrun := run_restore [] needle_ne_nil_of_mem_passes (h ms' hperm)
  rw [pieces, restore_read needle_ne_nil_of_mem_passes, List.nil_append] at hrun
  have hmem (r : Rule UInt8) : r ∈ passes ms' mode ↔ r ∈ passes ms mode :=
    (passes_perm hperm mode).mem_iff
  have hrestore : restore (passes ms' mode) (pieces payload ms mode) =
      restore (passes ms mode) (pieces payload ms mode) := by
    refine congrArg (fun f => List.flatMap f _) (funext fun p => ?_)
    cases p with
    | raw b => rfl
    | found r => simp only [Piece.text, hmem]
  rw [fuzzyDemask_eq_run, hrun, ← pieces, hrestore, restoredOnce]

/-- The condition, rule by rule. -/
theorem undisturbed_of_getElem {payload : GoString} {ms : List Mapping} {mode : Mode}
    (h : ∀ ms' : List Mapping, ms'.Perm ms → ∀ i, ∀ hi : i < (passes ms' mode).length,
      FindsOwn isWordChar ((passes ms' mode).take i) (passes ms' mode)[i] none
        (pieces payload ms mode)) : Undisturbed payload ms mode := by
  intro ms' hperm before r after hsplit
  have hi : before.length < (passes ms' mode).length := by simp [hsplit]
  have hown := h ms' hperm before.length hi
  simpa [hsplit, List.getElem_append_right] using hown

/-- The text "a@b.ru c@d.ru". -/
def mailPairText : GoString := str "a@b.ru c@d.ru"

/-- The mappings of the text, with the sum of the bytes for a hash. -/
def mailPairMappings : List Mapping :=
  [⟨str "EMAIL_1", .email, str "a@b.ru", str "<EMAIL_1>", str "user00314@example.com",
      str "*@*.**"⟩,
    ⟨str "EMAIL_2", .email, str "c@d.ru", str "<EMAIL_2>", str "user00309@example.com",
      str "*@*.**"⟩]

/-- The payload "user00309@example.com, <EMAIL_1>" with the mappings of the text in either order. -/
theorem fuzzyDemask_eq_restoredOnce_mailPair :
    (buildTransform summingGoRuntime mailPairText
        (decideAll basicGoUnicode mailPairText [candidateAt .email mailPairText (0, 6),
          candidateAt .email mailPairText (7, 13)]) .syntheticMode (str "seed")).map
            Transform.mappings = .ok mailPairMappings ∧
      restoredOnce (str "user00309@example.com, <EMAIL_1>") mailPairMappings .syntheticMode =
        str "c@d.ru, a@b.ru" ∧
      RestoresOnce (str "user00309@example.com, <EMAIL_1>") mailPairMappings .syntheticMode := by
  refine ⟨by decide +kernel, by decide +kernel, fuzzyDemask_eq_restoredOnce _ _ _
    (undisturbed_of_getElem fun ms' hperm => ?_)⟩
  rcases List.perm_pair.1 hperm with rfl | rfl
  · decide +kernel
  · decide +kernel

/-! ### An original that holds a token -/

/-- "УМВД России по <EMAIL_1>, a@b.ru": the first entity holds the token of the second. -/
def issuerText : GoString := str "УМВД России по <EMAIL_1>, a@b.ru"

/-- The mappings of the text, with a hash of one value. -/
def issuerMappings : List Mapping :=
  [⟨str "PASSPORT_ISSUER_1", .passportIssuer, str "УМВД России по <EMAIL_1>",
      str "<PASSPORT_ISSUER_1>", str "ГУ МВД России по г. Самара", str "**** ****** ** <*****_*>"⟩,
    ⟨str "EMAIL_1", .email, str "a@b.ru", str "<EMAIL_1>", str "user00005@example.com",
      str "*@*.**"⟩]

/-- **Restored text is searched again.** The token of the first entity alone restores to an original
in which the token of the second entity is then replaced; in the other order it is not. -/
theorem not_restoresOnce_issuer :
    (buildTransform (basicGoRuntime 5 (by decide)) issuerText
        (decideAll basicGoUnicode issuerText (detect (basicGoRuntime 5 (by decide)) issuerText))
        .tokenMode (str "seed")).map Transform.mappings = .ok issuerMappings ∧
      fuzzyDemask (str "<PASSPORT_ISSUER_1>") issuerMappings .tokenMode =
        .ok (str "УМВД России по a@b.ru") ∧
      fuzzyDemask (str "<PASSPORT_ISSUER_1>") issuerMappings.reverse .tokenMode =
        .ok (str "УМВД России по <EMAIL_1>") ∧
      ¬RestoresOnce (str "<PASSPORT_ISSUER_1>") issuerMappings .tokenMode := by
  refine ⟨by decide +kernel, by decide +kernel, by decide +kernel, fun h => ?_⟩
  have hsame := (h issuerMappings (List.Perm.refl _)).trans
    (h issuerMappings.reverse (List.reverse_perm _)).symm
  revert hsame
  decide +kernel

end PiiProxy.GoService
