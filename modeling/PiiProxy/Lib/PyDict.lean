import Mathlib

/-!
# Dictionaries with insertion order

A Python dictionary as the list of its items in insertion order.

## Main definitions

* `PyDict.set`, `PyDict.setDefault`: `d[k] = v` and `d.setdefault(k, v)`.
* `PyDict.ofPairs`: the dictionary of a list of pairs, in which later pairs win.

## Main results

* `PyDict.ofPairs_eq_self`: pairs with different keys are the items of their dictionary.
* `PyDict.mem_of_mem_ofPairs`: where the items come from.
-/

namespace PyDict

variable {κ ν : Type*} [DecidableEq κ]

/-- `d[k] = v`: a known key keeps its place. -/
def set (k : κ) (v : ν) : List (κ × ν) → List (κ × ν)
  | [] => [(k, v)]
  | p :: d => if p.1 = k then (k, v) :: d else p :: set k v d

/-- `d.setdefault(k, v)`. -/
def setDefault (k : κ) (v : ν) (d : List (κ × ν)) : List (κ × ν) :=
  if k ∈ d.map Prod.fst then d else d ++ [(k, v)]

/-- `{k: v for k, v in pairs}`. -/
def ofPairs (pairs : List (κ × ν)) : List (κ × ν) :=
  pairs.foldl (fun d p => set p.1 p.2 d) []

theorem set_of_notMem {k : κ} {v : ν} {d : List (κ × ν)} (h : k ∉ d.map Prod.fst) :
    set k v d = d ++ [(k, v)] := by
  induction d with
  | nil => rfl
  | cons p d ih =>
    rw [List.map_cons, List.mem_cons, not_or] at h
    rw [set, if_neg (Ne.symm h.1), ih h.2, List.cons_append]

private theorem foldl_set_eq_append {pairs d : List (κ × ν)}
    (h : ((d ++ pairs).map Prod.fst).Nodup) :
    pairs.foldl (fun d p => set p.1 p.2 d) d = d ++ pairs := by
  induction pairs generalizing d with
  | nil => rw [List.foldl_nil, List.append_nil]
  | cons p pairs ih =>
    have hnew : p.1 ∉ d.map Prod.fst := by
      rw [List.map_append, List.nodup_append] at h
      intro hp
      exact h.2.2 p.1 hp p.1 (by simp) rfl
    rw [List.foldl_cons, set_of_notMem hnew, ih (by simpa using h), List.append_assoc]
    rfl

/-- Pairs with different keys are the items of their dictionary. -/
theorem ofPairs_eq_self {pairs : List (κ × ν)} (h : (pairs.map Prod.fst).Nodup) :
    ofPairs pairs = pairs :=
  foldl_set_eq_append h

theorem mem_set {k : κ} {v : ν} {d : List (κ × ν)} {p : κ × ν} (h : p ∈ set k v d) :
    p ∈ d ∨ p = (k, v) := by
  induction d with
  | nil => exact .inr (List.mem_singleton.1 h)
  | cons q d ih =>
    rw [set] at h
    split_ifs at h
    · exact (List.mem_cons.1 h).elim .inr fun hd => .inl (List.mem_cons_of_mem q hd)
    · rcases List.mem_cons.1 h with rfl | hd
      · exact .inl List.mem_cons_self
      · exact (ih hd).imp_left (List.mem_cons_of_mem q)

private theorem mem_foldl_set {pairs d : List (κ × ν)} {p : κ × ν}
    (h : p ∈ pairs.foldl (fun d p => set p.1 p.2 d) d) : p ∈ d ∨ p ∈ pairs := by
  induction pairs generalizing d with
  | nil => exact .inl h
  | cons q pairs ih =>
    rcases ih h with hd | hp
    · rcases mem_set hd with hd | rfl
      · exact .inl hd
      · exact .inr List.mem_cons_self
    · exact .inr (List.mem_cons_of_mem q hp)

/-- The items of a dictionary are among the pairs that it was made of. -/
theorem mem_of_mem_ofPairs {pairs : List (κ × ν)} {p : κ × ν} (h : p ∈ ofPairs pairs) :
    p ∈ pairs :=
  (mem_foldl_set h).resolve_left List.not_mem_nil

/-- After `setdefault` the key is known. -/
theorem mem_keys_setDefault {k k' : κ} {v : ν} {d : List (κ × ν)} :
    k' ∈ (setDefault k v d).map Prod.fst ↔ k' ∈ d.map Prod.fst ∨ k' = k := by
  rw [setDefault]
  split
  · next h => exact ⟨.inl, fun h' => h'.elim id fun heq => heq ▸ h⟩
  · simp

end PyDict
