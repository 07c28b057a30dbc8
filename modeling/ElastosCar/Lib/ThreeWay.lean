import Mathlib

/-!
# Three-way comparisons

A comparison answers a number whose sign tells an order. `Agrees r a b` says that it is the order of
two keys. Answers that agree with keys of a linear order are sign-antisymmetric and transitive
(`Agrees.sign`, `Agrees.nonpos_trans`); a loop that answers at the first difference of two lists
agrees with the lexicographic order (`Agrees.cons`, `Agrees.head`).
-/

namespace ElastosCar.ThreeWay

/-- The sign of the answer is the order of the keys. -/
structure Agrees {κ : Type} [LinearOrder κ] (r : ℤ) (a b : κ) : Prop where
  neg : r < 0 ↔ a < b
  zero : r = 0 ↔ a = b

section Keys

variable {κ : Type} [LinearOrder κ] {a b c : κ} {r r' r'' : ℤ}

theorem Agrees.pos (h : Agrees r a b) : 0 < r ↔ b < a := by
  have hneg := h.neg
  have hzero := h.zero
  rw [← not_le, ← not_le, not_iff_not, le_iff_lt_or_eq, le_iff_lt_or_eq, hneg, hzero]

theorem Agrees.nonpos (h : Agrees r a b) : r ≤ 0 ↔ a ≤ b := by
  rw [le_iff_lt_or_eq, le_iff_lt_or_eq, h.neg, h.zero]

/-- The comparison the other way around has the other sign. -/
theorem Agrees.sign (h : Agrees r a b) (h' : Agrees r' b a) : r.sign = -r'.sign := by
  rcases lt_trichotomy a b with hlt | heq | hlt
  · rw [Int.sign_eq_neg_one_of_neg (h.neg.mpr hlt), Int.sign_eq_one_of_pos (h'.pos.mpr hlt)]
  · rw [h.zero.mpr heq, h'.zero.mpr heq.symm]
    rfl
  · rw [Int.sign_eq_one_of_pos (h.pos.mpr hlt), Int.sign_eq_neg_one_of_neg (h'.neg.mpr hlt)]
    rfl

theorem Agrees.nonpos_trans (h : Agrees r a b) (h' : Agrees r' b c) (h'' : Agrees r'' a c)
    (hr : r ≤ 0) (hr' : r' ≤ 0) : r'' ≤ 0 :=
  h''.nonpos.mpr ((h.nonpos.mp hr).trans (h'.nonpos.mp hr'))

end Keys

/-! ### Lists -/

section Lists

variable {κ : Type} [LinearOrder κ] {a b : κ} {l l' : List κ} {r : ℤ}

/-- The loop goes on behind keys that are equal. -/
theorem Agrees.cons (h : Agrees r l l') (a : κ) : Agrees r (a :: l) (a :: l') where
  neg := by
    rw [List.cons_lt_cons_iff, h.neg]
    simp
  zero := by rw [h.zero, List.cons_inj_right]

/-- It answers where they differ. -/
theorem Agrees.head (h : Agrees r a b) (hne : a ≠ b) (l l' : List κ) :
    Agrees r (a :: l) (b :: l') where
  neg := by
    rw [List.cons_lt_cons_iff, h.neg]
    simp [hne]
  zero := iff_of_false (fun hzero => hne (h.zero.mp hzero)) fun heq => hne (List.cons.inj heq).1

end Lists

end ElastosCar.ThreeWay
