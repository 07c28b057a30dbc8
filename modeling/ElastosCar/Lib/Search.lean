import Mathlib

/-!
# Searches

A search for a place with a property, downwards (`IsLast`) or upwards (`IsFirst`), answers the place
or `-1`. The lemmas are the steps of a loop that goes from place to place: it stops `here`, or it
`skip`s places that do not have the property.
-/

namespace ElastosCar.Search

variable {P Q : ℕ → Prop} {m n : ℕ} {r r' : ℤ}

/-- The greatest place below `n` with the property, or `-1`. -/
def IsLast (P : ℕ → Prop) (n : ℕ) (r : ℤ) : Prop :=
  (r = -1 ∧ ∀ i < n, ¬P i) ∨ ∃ i < n, r = i ∧ P i ∧ ∀ j, i < j → j < n → ¬P j

/-- The least place from `n` on with the property, or `-1`. -/
def IsFirst (P : ℕ → Prop) (n : ℕ) (r : ℤ) : Prop :=
  (r = -1 ∧ ∀ i, n ≤ i → ¬P i) ∨ ∃ i, n ≤ i ∧ r = i ∧ P i ∧ ∀ j, n ≤ j → j < i → ¬P j

/-! ### Downwards -/

theorem IsLast.none (h : ∀ i < n, ¬P i) : IsLast P n (-1) := .inl ⟨rfl, h⟩

theorem IsLast.here (h : P n) : IsLast P (n + 1) n :=
  .inr ⟨n, n.lt_succ_self, rfl, h, fun _ hj hlt => absurd hlt (Nat.not_lt.mpr hj)⟩

/-- The places from `m` on do not have the property. -/
theorem IsLast.skip (hle : m ≤ n) (hnot : ∀ i, m ≤ i → i < n → ¬P i) (h : IsLast P m r) :
    IsLast P n r := by
  rcases h with ⟨hr, hnone⟩ | ⟨i, hi, hr, hP, hlast⟩
  · refine .inl ⟨hr, fun i hi => ?_⟩
    rcases Nat.lt_or_ge i m with him | him
    · exact hnone i him
    · exact hnot i him hi
  · refine .inr ⟨i, lt_of_lt_of_le hi hle, hr, hP, fun j hij hj => ?_⟩
    rcases Nat.lt_or_ge j m with hjm | hjm
    · exact hlast j hij hjm
    · exact hnot j hjm hj

theorem IsLast.unique (h : IsLast P n r) (h' : IsLast P n r') : r = r' := by
  rcases h with ⟨rfl, hnone⟩ | ⟨i, hi, rfl, hP, hlast⟩ <;>
    rcases h' with ⟨rfl, hnone'⟩ | ⟨i', hi', rfl, hP', hlast'⟩
  · rfl
  · exact absurd hP' (hnone i' hi')
  · exact absurd hP (hnone' i hi)
  · rcases Nat.lt_trichotomy i i' with hlt | rfl | hlt
    · exact absurd hP' (hlast i' hlt hi')
    · rfl
    · exact absurd hP (hlast' i hlt hi)

/-- Only the places below `m` count. -/
theorem IsLast.min (hlt : ∀ i, P i → i < m) (h : IsLast P (min m n) r) : IsLast P n r :=
  h.skip (min_le_right m n) fun i hi hin hP => by
    have him := hlt i hP
    omega

/-- The search over a range. -/
theorem isLast_find? (p : ℕ → Bool) (n : ℕ) :
    IsLast (fun i => p i = true) n
      (((List.range n).reverse.find? p).elim (-1) fun i => (i : ℤ)) := by
  induction n with
  | zero => exact .none nofun
  | succ n ih =>
    rw [List.range_succ, List.reverse_append, List.reverse_singleton, List.singleton_append]
    by_cases hp : p n = true
    · rw [List.find?_cons_of_pos hp]
      exact .here hp
    · rw [List.find?_cons_of_neg hp]
      refine ih.skip n.le_succ fun i hi hlt => ?_
      rwa [Nat.le_antisymm (Nat.le_of_lt_succ hlt) hi]

/-! ### Upwards -/

theorem IsFirst.none (h : ∀ i, n ≤ i → ¬P i) : IsFirst P n (-1) := .inl ⟨rfl, h⟩

theorem IsFirst.here (h : P n) : IsFirst P n n :=
  .inr ⟨n, le_rfl, rfl, h, fun _ hj hlt => absurd hlt (Nat.not_lt.mpr hj)⟩

/-- The places below `m` do not have the property. -/
theorem IsFirst.skip (hle : n ≤ m) (hnot : ∀ i, n ≤ i → i < m → ¬P i) (h : IsFirst P m r) :
    IsFirst P n r := by
  rcases h with ⟨hr, hnone⟩ | ⟨i, hi, hr, hP, hfirst⟩
  · refine .inl ⟨hr, fun i hi => ?_⟩
    rcases Nat.lt_or_ge i m with him | him
    · exact hnot i hi him
    · exact hnone i him
  · refine .inr ⟨i, hle.trans hi, hr, hP, fun j hj hji => ?_⟩
    rcases Nat.lt_or_ge j m with hjm | hjm
    · exact hnot j hj hjm
    · exact hfirst j hjm hji

end ElastosCar.Search
