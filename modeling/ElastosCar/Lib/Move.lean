import Mathlib

/-!
# Moving elements

Some elements of a list are copied over those of another list, or of the same one, one at a time.
`Moved` compares the lists on the way with those at the beginning: the copies of the elements from
`lo` up to `hi` have been made, and nothing else has changed. A copy in one direction extends the
range at its upper end, one in the other direction at its lower end; and an element that is copied
next is still what it was at the beginning, if its place is not among those written
(`Moved.source`).
-/

namespace ElastosCar.Move

variable {A V : Type} [DecidableEq A] {old new : A → List V} {d s : A} {i j lo hi : ℕ} {v : V}

/-- From `old` to `new`, the elements of `s` from `j + lo` up to `j + hi` have been copied to `d`
from `i + lo` on. -/
structure Moved (old new : A → List V) (d : A) (i : ℕ) (s : A) (j lo hi : ℕ) : Prop where
  length : ∀ a, (new a).length = (old a).length
  elements : ∀ a k, (new a)[k]? =
    if a = d ∧ i + lo ≤ k ∧ k < i + hi then (old s)[j + (k - i)]? else (old a)[k]?

theorem Moved.refl (old : A → List V) (d : A) (i : ℕ) (s : A) (j lo : ℕ) :
    Moved old old d i s j lo lo where
  length _ := rfl
  elements _ _ := (if_neg fun h => absurd h.2.2 (Nat.not_lt.mpr h.2.1)).symm

/-- Elements that are copied to where they are. -/
theorem Moved.self (old : A → List V) (d : A) (i lo hi : ℕ) : Moved old old d i d i lo hi where
  length _ := rfl
  elements a k := by
    split_ifs with h
    · rw [h.1, Nat.add_sub_cancel' (Nat.le_of_add_right_le h.2.1)]
    · rfl

/-- **What is copied next** is not yet written over. -/
theorem Moved.source (h : Moved old new d i s j lo hi) {k : ℕ}
    (hout : s = d → i + lo ≤ j + k → i + hi ≤ j + k) : (new s)[j + k]? = (old s)[j + k]? := by
  rw [h.elements]
  exact if_neg fun ⟨hs, hlo, hhi⟩ => absurd hhi (Nat.not_lt.mpr (hout hs hlo))

theorem getElem?_update_set (new : A → List V) (d : A) (n : ℕ) (v : V) (hn : n < (new d).length)
    (a : A) (k : ℕ) : (Function.update new d ((new d).set n v) a)[k]? =
      if a = d ∧ n = k then some v else (new a)[k]? := by
  rcases eq_or_ne a d with rfl | ha
  · rw [Function.update_self, List.getElem?_set, if_pos hn]
    exact if_congr (and_iff_right rfl).symm rfl rfl
  · rw [Function.update_of_ne ha, if_neg fun h => ha h.1]

theorem length_update_set (new : A → List V) (d : A) (n : ℕ) (v : V) (a : A) :
    (Function.update new d ((new d).set n v) a).length = (new a).length := by
  rcases eq_or_ne a d with rfl | ha
  · rw [Function.update_self, List.length_set]
  · rw [Function.update_of_ne ha]

/-- **One element upwards.** -/
theorem Moved.up (h : Moved old new d i s j lo hi) (hle : lo ≤ hi)
    (hv : (old s)[j + hi]? = some v) (hd : i + hi < (old d).length) :
    Moved old (Function.update new d ((new d).set (i + hi) v)) d i s j lo (hi + 1) where
  length a := (length_update_set new d _ v a).trans (h.length a)
  elements a k := by
    rw [getElem?_update_set new d _ v (by rw [h.length]; exact hd), h.elements]
    by_cases hk : i + hi = k
    · subst hk
      by_cases ha : a = d
      · rw [if_pos ⟨ha, rfl⟩, if_pos ⟨ha, by omega, by omega⟩, Nat.add_sub_cancel_left, hv]
      · rw [if_neg fun h => ha h.1, if_neg fun h => ha h.1, if_neg fun h => ha h.1]
    · rw [if_neg fun h => hk h.2]
      exact if_congr (and_congr_right fun _ => by omega) rfl rfl

/-- **One element downwards.** -/
theorem Moved.down (h : Moved old new d i s j (lo + 1) hi) (hlt : lo < hi)
    (hv : (old s)[j + lo]? = some v) (hd : i + lo < (old d).length) :
    Moved old (Function.update new d ((new d).set (i + lo) v)) d i s j lo hi where
  length a := (length_update_set new d _ v a).trans (h.length a)
  elements a k := by
    rw [getElem?_update_set new d _ v (by rw [h.length]; exact hd), h.elements]
    by_cases hk : i + lo = k
    · subst hk
      by_cases ha : a = d
      · rw [if_pos ⟨ha, rfl⟩, if_pos ⟨ha, by omega, by omega⟩, Nat.add_sub_cancel_left, hv]
      · rw [if_neg fun h => ha h.1, if_neg fun h => ha h.1, if_neg fun h => ha h.1]
    · rw [if_neg fun h => hk h.2]
      exact if_congr (and_congr_right fun _ => by omega) rfl rfl

end ElastosCar.Move
