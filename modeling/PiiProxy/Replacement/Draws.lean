import PiiProxy.Lib.Raising
import PiiProxy.Lib.Rejection
import PiiProxy.Replacement.SyntheticValues

/-!
# What a generator returns

A generator draws from a stream whose draws below a limit are accepted. What it returns satisfies a
condition whatever is drawn, when its steps do; and it returns at all when the stream goes on to
have accepted draws and the rejection loop is followed far enough.

## Main definitions

* `randbelowRound`: what one round of `_randbelow` returns for a drawn value.
* `Gen.Always`, `Gen.OnlyRaises`: what a generator returns, and what it raises, satisfies a
  condition.
* `Accepts`: after any number of draws there is one that is accepted.
* `Returns`: a generator returns when its rejection loops are followed far enough.

## Main results

* `randbelow_eq_ok_iff`: a run of `_randbelow` returns by its first accepted draw.
* `Gen.always_bind`, `Gen.always_bind_any`, `Gen.always_retryDraw`: the rules of `Gen.Always`.
* `always_randbelow`, `always_randint`, `always_drawDigits`: what the draws are.
* `returns_bind`, `returns_randint`: the rules of `Returns`.
-/

namespace PiiProxy

open Rejection

variable {α β : Type}

/-! ### What is returned -/

namespace Gen

/-- What the generator returns, whatever the counter of its stream, satisfies the condition. -/
def Always (x : Gen α) (P : α → Prop) : Prop := ∀ c a c', x c = .ok (a, c') → P a

theorem bind_eq_ok {x : Gen α} {f : α → Gen β} {c c' : ℕ} {b : β} :
    (x >>= f) c = .ok (b, c') ↔ ∃ a c₁, x c = .ok (a, c₁) ∧ f a c₁ = .ok (b, c') := by
  constructor
  · intro h
    obtain ⟨⟨a, c₁⟩, hx, hf⟩ := Except.bind_eq_ok.1 h
    exact ⟨a, c₁, hx, hf⟩
  · rintro ⟨a, c₁, hx, hf⟩
    exact Except.bind_eq_ok.2 ⟨(a, c₁), hx, hf⟩

theorem pure_eq_ok {a a' : α} {c c' : ℕ} :
    (pure a : Gen α) c = .ok (a', c') ↔ a = a' ∧ c = c' := by
  rw [show (pure a : Gen α) c = .ok (a, c) from rfl, Except.ok.injEq, Prod.mk.injEq]

theorem always_pure {P : α → Prop} {a : α} (h : P a) : Always (pure a) P := by
  intro c a' c' hrun
  obtain ⟨rfl, -⟩ := pure_eq_ok.1 hrun
  exact h

theorem always_throw {P : α → Prop} (e : PyError) : Always (throw e) P := by
  intro c a c' hrun
  cases hrun

theorem always_bind {x : Gen α} {f : α → Gen β} {P : α → Prop} {Q : β → Prop} (hx : x.Always P)
    (hf : ∀ a, P a → (f a).Always Q) : (x >>= f).Always Q := by
  intro c b c' hrun
  obtain ⟨a, c₁, hrunx, hrunf⟩ := bind_eq_ok.1 hrun
  exact hf a (hx c a c₁ hrunx) c₁ b c' hrunf

/-- Where every continuation satisfies the condition, the first step may return anything. -/
theorem always_bind_any {x : Gen α} {f : α → Gen β} {Q : β → Prop} (hf : ∀ a, (f a).Always Q) :
    (x >>= f).Always Q :=
  always_bind (P := fun _ => True) (fun _ _ _ _ => trivial) fun a _ => hf a

theorem Always.mono {x : Gen α} {P Q : α → Prop} (hx : x.Always P) (h : ∀ a, P a → Q a) :
    x.Always Q :=
  fun c a c' hrun => h a (hx c a c' hrun)

theorem always_retryDraw {gen : Gen α} {P : α → Prop} (hgen : gen.Always P) (good : α → Bool) :
    (k : ℕ) → (retryDraw gen good k).Always P
  | 0 => hgen
  | k + 1 => by
      refine always_bind hgen fun a ha => ?_
      split_ifs
      · exact always_pure ha
      · exact always_retryDraw hgen good k

end Gen

variable {rt : Runtime} {seed : ℕ}

/-! ### The first accepted draw -/

/-- What a round of `_randbelow` returns for a drawn value. -/
def randbelowRound (n value : ℕ) : Option ℕ :=
  if value < acceptLimit n then some (value % n) else none

variable (rt seed) in
private theorem randbelowLoop_eq_ok_iff {n r c' : ℕ} (fuel c : ℕ) :
    randbelowLoop rt seed n fuel c = .ok (r, c') ↔
      Yields (draw rt seed) (randbelowRound n) c r c' ∧ c' ≤ c + fuel := by
  induction fuel generalizing c with
  | zero =>
    rw [randbelowLoop]
    refine iff_of_false (fun h => by cases h) ?_
    rintro ⟨hyields, hle⟩
    exact absurd hyields.lt (Nat.not_lt.2 hle)
  | succ fuel ih =>
    rw [randbelowLoop]
    split_ifs with haccepted
    · have hround : randbelowRound n (draw rt seed c) = some (draw rt seed c % n) :=
        if_pos haccepted
      rw [Except.ok.injEq, Prod.mk.injEq, yields_of_accepted hround]
      constructor
      · rintro ⟨hr, rfl⟩
        exact ⟨⟨hr, rfl⟩, by omega⟩
      · rintro ⟨⟨hr, rfl⟩, -⟩
        exact ⟨hr, rfl⟩
    · have hround : randbelowRound n (draw rt seed c) = none := if_neg haccepted
      rw [ih, yields_of_rejected hround, Nat.add_assoc, Nat.add_comm 1 fuel]

variable (rt seed) in
/-- **A run of `_randbelow`** returns what its first accepted draw gives. -/
theorem randbelow_eq_ok_iff {n r c c' : ℕ} :
    randbelow rt seed n c = .ok (r, c') ↔
      Yields (draw rt seed) (randbelowRound n) c r c' ∧ c' ≤ c + rt.fuel :=
  randbelowLoop_eq_ok_iff rt seed rt.fuel c

/-- A draw is below its bound. -/
theorem always_randbelow {n : ℕ} (hn : 0 < n) : (randbelow rt seed n).Always (· < n) := by
  intro c v c' hrun
  obtain ⟨⟨k, -, -, haccepted⟩, -⟩ := (randbelow_eq_ok_iff rt seed).1 hrun
  rw [randbelowRound] at haccepted
  split_ifs at haccepted
  cases haccepted
  exact Nat.mod_lt _ hn

theorem always_randint (low high : ℕ) :
    (randint rt seed low high).Always fun v => low ≤ v ∧ v ≤ low + (high - low) :=
  Gen.always_bind (always_randbelow (Nat.succ_pos _)) fun _ hv =>
    Gen.always_pure ⟨Nat.le_add_right _ _, Nat.add_le_add_left (Nat.le_of_lt_succ hv) low⟩

theorem always_digit : (randint rt seed 0 9).Always (· < 10) :=
  (always_randint 0 9).mono fun _ hv => by omega

theorem always_drawDigits : (n : ℕ) →
    (drawDigits rt seed n).Always fun ds => ds.length = n ∧ ∀ d ∈ ds, d < 10
  | 0 => Gen.always_pure ⟨rfl, by simp⟩
  | n + 1 =>
      Gen.always_bind always_digit fun d hd =>
        Gen.always_bind (always_drawDigits n) fun ds ⟨hlen, hds⟩ =>
          Gen.always_pure ⟨congrArg (· + 1) hlen, List.forall_mem_cons.2 ⟨hd, hds⟩⟩

/-! ### What is raised -/

namespace Gen

/-- What the generator raises, whatever the counter of its stream, satisfies the condition. -/
def OnlyRaises (x : Gen α) (E : PyError → Prop) : Prop := ∀ c e, x c = .error e → E e

theorem onlyRaises_pure {E : PyError → Prop} (a : α) : OnlyRaises (pure a) E := by
  intro c e hrun
  cases hrun

theorem onlyRaises_bind {x : Gen α} {f : α → Gen β} {E : PyError → Prop} (hx : x.OnlyRaises E)
    (hf : ∀ a, (f a).OnlyRaises E) : (x >>= f).OnlyRaises E := by
  intro c e hrun
  change x c >>= (fun p => f p.1 p.2) = .error e at hrun
  cases hxc : x c with
  | error e' =>
    rw [hxc] at hrun
    cases hrun
    exact hx c e hxc
  | ok p =>
    rw [hxc] at hrun
    exact hf p.1 p.2 e hrun

end Gen

theorem onlyRaises_randbelow (n : ℕ) :
    (randbelow rt seed n).OnlyRaises (· = .exhausted) := by
  have hloop (fuel c : ℕ) (e : PyError) (h : randbelowLoop rt seed n fuel c = .error e) :
      e = .exhausted := by
    induction fuel generalizing c with
    | zero =>
      cases h
      rfl
    | succ fuel ih =>
      rw [randbelowLoop] at h
      split_ifs at h
      exact ih _ h
  exact fun c e => hloop rt.fuel c e

theorem onlyRaises_digit : (randint rt seed 0 9).OnlyRaises (· = .exhausted) :=
  Gen.onlyRaises_bind (onlyRaises_randbelow _) fun _ => Gen.onlyRaises_pure _

/-! ### That it is returned -/

/-- The runtime whose rejection loops are followed for `fuel` draws. -/
def Runtime.withFuel (rt : Runtime) (fuel : ℕ) : Runtime := { rt with fuel := fuel }

variable (rt seed) in
/-- After any number of draws there is one that `randbelow n` accepts. -/
def Accepts (n : ℕ) : Prop := ∀ c, ∃ k, draw rt seed (c + k) < acceptLimit n

example : Accepts (basicRuntime 0 zero_lt_two_pow_64) 5 10 := fun _ =>
  ⟨0, (by decide : 0 < acceptLimit 10)⟩

variable (rt) in
/-- The generator, read over the runtime, returns from every counter when its rejection loops are
followed far enough. -/
def Returns (gen : Runtime → Gen α) : Prop :=
  ∀ c, ∃ N a c', ∀ fuel, N ≤ fuel → gen (rt.withFuel fuel) c = .ok (a, c')

theorem returns_congr {gen gen' : Runtime → Gen α}
    (h : ∀ fuel, gen (rt.withFuel fuel) = gen' (rt.withFuel fuel)) (hgen : Returns rt gen') :
    Returns rt gen := by
  intro c
  obtain ⟨N, a, c', hrun⟩ := hgen c
  exact ⟨N, a, c', fun fuel hfuel => (congrFun (h fuel) c).trans (hrun fuel hfuel)⟩

theorem returns_pure (a : α) : Returns rt fun _ => pure a :=
  fun c => ⟨0, a, c, fun _ _ => rfl⟩

theorem returns_bind {x : Runtime → Gen α} {f : Runtime → α → Gen β} (hx : Returns rt x)
    (hf : ∀ a, Returns rt fun rt' => f rt' a) : Returns rt fun rt' => x rt' >>= f rt' := by
  intro c
  obtain ⟨N₁, a, c₁, hx⟩ := hx c
  obtain ⟨N₂, b, c₂, hf⟩ := hf a c₁
  refine ⟨max N₁ N₂, b, c₂, fun fuel hfuel => Gen.bind_eq_ok.2 ⟨a, c₁, ?_, ?_⟩⟩
  · exact hx fuel ((le_max_left N₁ N₂).trans hfuel)
  · exact hf fuel ((le_max_right N₁ N₂).trans hfuel)

private theorem returns_randbelowLoop {n c k : ℕ} (h : draw rt seed (c + k) < acceptLimit n) :
    ∃ v c', ∀ rt', draw rt' seed = draw rt seed → ∀ fuel, k + 1 ≤ fuel →
      randbelowLoop rt' seed n fuel c = .ok (v, c') := by
  induction k generalizing c with
  | zero =>
    rw [Nat.add_zero] at h
    refine ⟨draw rt seed c % n, c + 1, fun rt' hdraw fuel hfuel => ?_⟩
    obtain ⟨fuel, rfl⟩ := Nat.exists_eq_add_of_le' hfuel
    rw [randbelowLoop, hdraw, if_pos h]
  | succ k ih =>
    by_cases hnow : draw rt seed c < acceptLimit n
    · refine ⟨draw rt seed c % n, c + 1, fun rt' hdraw fuel hfuel => ?_⟩
      obtain ⟨fuel, rfl⟩ := Nat.exists_eq_add_of_le' (Nat.le_of_succ_le hfuel)
      rw [← Nat.add_assoc, randbelowLoop, hdraw, if_pos hnow]
    · rw [Nat.add_comm k 1, ← Nat.add_assoc] at h
      obtain ⟨v, c', hloop⟩ := ih h
      refine ⟨v, c', fun rt' hdraw fuel hfuel => ?_⟩
      obtain ⟨fuel, rfl⟩ := Nat.exists_eq_add_of_le' (Nat.le_of_succ_le hfuel)
      rw [← Nat.add_assoc, randbelowLoop, hdraw, if_neg hnow]
      exact hloop rt' hdraw _ (by omega)

theorem returns_randbelow {n : ℕ} (h : Accepts rt seed n) :
    Returns rt fun rt' => randbelow rt' seed n := by
  intro c
  obtain ⟨k, hk⟩ := h c
  obtain ⟨v, c', hloop⟩ := returns_randbelowLoop hk
  exact ⟨k + 1, v, c', fun fuel hfuel => hloop (rt.withFuel fuel) rfl fuel hfuel⟩

theorem returns_digit (h : Accepts rt seed 10) : Returns rt fun rt' => randint rt' seed 0 9 :=
  returns_bind (returns_randbelow h) fun _ => returns_pure _

end PiiProxy
