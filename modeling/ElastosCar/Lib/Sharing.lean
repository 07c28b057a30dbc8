import Mathlib

/-!
# Cells that are shared and counted

Variables point to cells, several of them perhaps to one. `weight` is the number of references that
a cell has: the variables that point to it, and what is held besides. `weight_point` and
`weight_drop` say what the weights are after a variable has been turned to a cell or away from it.
-/

namespace ElastosCar.Sharing

/-! ### Weights -/

section Weights

variable {ι κ : Type} [Fintype ι] [DecidableEq κ]

/-- The number of the variables that point to a cell. -/
def holders (ptr : ι → Option κ) (a : κ) : ℕ := (Finset.univ.filter fun v => ptr v = some a).card

/-- The references to a cell, of which `base` are not held by variables. -/
def weight (base : κ → ℕ) (ptr : ι → Option κ) (a : κ) : ℕ := holders ptr a + base a

variable {base : κ → ℕ} {ptr : ι → Option κ} {v u : ι} {a b : κ}

theorem holders_pos (h : ptr v = some a) : 0 < holders ptr a :=
  Finset.card_pos.mpr ⟨v, Finset.mem_filter.mpr ⟨Finset.mem_univ v, h⟩⟩

theorem weight_pos (base : κ → ℕ) (h : ptr v = some a) : 0 < weight base ptr a :=
  Nat.add_pos_left (holders_pos h) _

/-- A cell that two variables point to. -/
theorem one_lt_weight (hv : ptr v = some a) (hu : ptr u = some a) (hne : u ≠ v) :
    1 < weight base ptr a := by
  have hcard : 1 < holders ptr a := by
    refine Finset.one_lt_card.mpr ⟨u, ?_, v, ?_, hne⟩
    · exact Finset.mem_filter.mpr ⟨Finset.mem_univ u, hu⟩
    · exact Finset.mem_filter.mpr ⟨Finset.mem_univ v, hv⟩
  exact lt_of_lt_of_le hcard (Nat.le_add_right _ _)

/-- A cell that is held besides. -/
theorem one_lt_weight_of_base (hv : ptr v = some a) (hbase : 0 < base a) : 1 < weight base ptr a :=
  Nat.add_lt_add_of_le_of_lt (holders_pos hv) hbase

variable [DecidableEq ι]

theorem holders_update (ptr : ι → Option κ) (v : ι) (t : Option κ) (a : κ) :
    holders (Function.update ptr v t) a + (if ptr v = some a then 1 else 0) =
      holders ptr a + if t = some a then 1 else 0 := by
  have hsplit : ∀ ptr : ι → Option κ, holders ptr a =
      ((Finset.univ.erase v).filter fun u => ptr u = some a).card +
        if ptr v = some a then 1 else 0 := by
    intro ptr
    rw [holders, ← Finset.insert_erase (Finset.mem_univ v), Finset.filter_insert,
      Finset.erase_insert (Finset.notMem_erase v _)]
    split_ifs
    · exact Finset.card_insert_of_notMem fun h => Finset.notMem_erase v _ (Finset.mem_filter.mp h).1
    · rfl
  have hrest : ((Finset.univ.erase v).filter fun u => Function.update ptr v t u = some a) =
      (Finset.univ.erase v).filter fun u => ptr u = some a := by
    refine Finset.filter_congr fun u hu => ?_
    rw [Function.update_of_ne (Finset.ne_of_mem_erase hu)]
  rw [hsplit ptr, hsplit (Function.update ptr v t), hrest, Function.update_self]
  omega

theorem weight_update (base : κ → ℕ) (ptr : ι → Option κ) (v : ι) (t : Option κ) (c : κ) :
    weight base (Function.update ptr v t) c + (if ptr v = some c then 1 else 0) =
      weight base ptr c + if t = some c then 1 else 0 := by
  have hc := holders_update ptr v t c
  rw [weight, weight]
  omega

/-- A variable that has pointed nowhere. -/
theorem weight_point (h : ptr v = none) (b : κ) :
    weight base (Function.update ptr v (some b)) =
      Function.update (weight base ptr) b (weight base ptr b + 1) := by
  funext c
  have hc := weight_update base ptr v (some b) c
  simp only [h, reduceCtorEq, if_false, Option.some.injEq] at hc
  rw [Function.update_apply]
  split_ifs at hc ⊢ <;> subst_vars <;> first | omega | contradiction

/-- A variable that points nowhere any more. -/
theorem weight_drop (h : ptr v = some a) :
    weight base (Function.update ptr v none) =
      Function.update (weight base ptr) a (weight base ptr a - 1) := by
  funext c
  have hc := weight_update base ptr v none c
  simp only [h, reduceCtorEq, if_false, Option.some.injEq] at hc
  rw [Function.update_apply]
  split_ifs at hc ⊢ <;> subst_vars <;> first | omega | contradiction

/-- A variable that is turned to a cell, which is counted before the other is given up. -/
theorem weight_move (h : ptr v = some a) (b : κ) :
    weight base (Function.update ptr v (some b)) =
      Function.update (Function.update (weight base ptr) b (weight base ptr b + 1)) a
        (Function.update (weight base ptr) b (weight base ptr b + 1) a - 1) := by
  funext c
  have hc := weight_update base ptr v (some b) c
  have hpos := weight_pos base h
  simp only [h, Option.some.injEq] at hc
  simp only [Function.update_apply]
  split_ifs at hc ⊢ <;> subst_vars <;> first | omega | contradiction

/-- A variable that is turned to a cell of its own. -/
theorem weight_own (h : ptr v = some a)
    (hb : b = a ∧ weight base ptr a = 1 ∨ weight base ptr b = 0) :
    weight base (Function.update ptr v (some b)) =
      Function.update (Function.update (weight base ptr) a (weight base ptr a - 1)) b 1 := by
  funext c
  have hc := weight_update base ptr v (some b) c
  have hpos := weight_pos base h
  simp only [h, Option.some.injEq] at hc
  simp only [Function.update_apply]
  rcases hb with ⟨rfl, hone⟩ | hzero
  · split_ifs at hc ⊢ <;> subst_vars <;> omega
  · split_ifs at hc ⊢ <;> subst_vars <;> first | omega | contradiction

end Weights

/-! ### Counts -/

variable {κ γ : Type}

/-- A cell with the number of its references, or no cell and none. -/
def Fits (refs : γ → ℤ) (n : ℕ) : Option γ → Prop
  | none => n = 0
  | some c => refs c = n ∧ 0 < n

/-- Each cell keeps the number of its references, and is there while there are any. -/
def Counted (refs : γ → ℤ) (w : κ → ℕ) (cells : κ → Option γ) : Prop :=
  ∀ a, Fits refs (w a) (cells a)

variable {refs : γ → ℤ} {w : κ → ℕ} {cells : κ → Option γ} {a : κ} {c : γ}

theorem Counted.update [DecidableEq κ] (h : Counted refs w cells) (a : κ) {n : ℕ} {x : Option γ}
    (hx : Fits refs n x) : Counted refs (Function.update w a n) (Function.update cells a x) := by
  intro b
  rw [Function.update_apply, Function.update_apply]
  split_ifs
  · exact hx
  · exact h b

theorem Counted.eq (h : Counted refs w cells) (hc : cells a = some c) :
    refs c = w a ∧ 0 < w a := by
  have hfits := h a
  rwa [hc] at hfits

theorem Counted.eq_zero (h : Counted refs w cells) (ha : cells a = none) : w a = 0 := by
  have hfits := h a
  rwa [ha] at hfits

theorem Counted.exists_of_pos (h : Counted refs w cells) (ha : 0 < w a) :
    ∃ c, cells a = some c := by
  rcases hc : cells a with _ | c
  · rw [h.eq_zero hc] at ha
    exact absurd ha (Nat.lt_irrefl 0)
  · exact ⟨c, rfl⟩

/-- **A cell is there exactly while there are references to it.** -/
theorem Counted.isSome_iff (h : Counted refs w cells) : (cells a).isSome ↔ 0 < w a := by
  constructor
  · intro hsome
    obtain ⟨c, hc⟩ := Option.isSome_iff_exists.mp hsome
    exact (h.eq hc).2
  · intro ha
    obtain ⟨c, hc⟩ := h.exists_of_pos ha
    rw [hc]
    rfl

end ElastosCar.Sharing
