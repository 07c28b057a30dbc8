import Mathlib.Data.List.Pairwise
import Mathlib.Tactic.Common

/-!
# Slots one after another

A slot is an offset and a size. `InOrder first last slots` says that the slots lie between two
offsets, each behind the ones before it; it is proved slot by slot (`InOrder.nil`, `InOrder.cons`).

Where every part has a size and a unit, it can be put at the next multiple of its unit behind the part
before it: `endOf` is where the last one ends.
-/

namespace ElastosCar.Layout

/-- Slots one after the other between two offsets. -/
structure InOrder (first last : ℕ) (slots : List (ℕ × ℕ)) : Prop where
  apart : slots.Pairwise fun a b => a.1 + a.2 ≤ b.1
  inside : ∀ s ∈ slots, first ≤ s.1 ∧ s.1 + s.2 ≤ last
  le : first ≤ last

namespace InOrder

variable {first last pos size : ℕ} {slots : List (ℕ × ℕ)}

theorem nil (h : first ≤ last) : InOrder first last [] :=
  ⟨.nil, fun _ hs => (List.not_mem_nil hs).elim, h⟩

theorem cons (hpos : first ≤ pos) (h : InOrder (pos + size) last slots) :
    InOrder first last ((pos, size) :: slots) := by
  have hle := h.le
  refine ⟨List.pairwise_cons.mpr ⟨fun s hs => (h.inside s hs).1, h.apart⟩, ?_, by omega⟩
  intro s hs
  rcases List.mem_cons.mp hs with rfl | hs
  · exact ⟨hpos, hle⟩
  · have hin := h.inside s hs
    exact ⟨by omega, hin.2⟩

/-- The same offsets with smaller sizes, between wider bounds. -/
theorem mono {α : Type*} {slots : List α} {f g : α → ℕ × ℕ} {first' last' : ℕ}
    (h : InOrder first last (slots.map f)) (hfirst : first' ≤ first) (hlast : last ≤ last')
    (hfg : ∀ a ∈ slots, (g a).1 = (f a).1 ∧ (g a).2 ≤ (f a).2) :
    InOrder first' last' (slots.map g) := by
  obtain ⟨hapart, hinside, hle⟩ := h
  rw [List.pairwise_map] at hapart
  refine ⟨List.pairwise_map.mpr ?_, ?_, by omega⟩
  · refine hapart.imp_of_mem fun {a b} ha hb hab => ?_
    have hfa := hfg a ha
    have hfb := hfg b hb
    omega
  · intro s hs
    obtain ⟨a, ha, rfl⟩ := List.mem_map.mp hs
    have hfa := hfg a ha
    have hin := hinside _ (List.mem_map_of_mem ha)
    omega

end InOrder

/-! ### Multiples -/

/-- The next multiple of a unit. -/
def roundUp (o unit : ℕ) : ℕ := if o % unit = 0 then o else o - o % unit + unit

section RoundUp

variable {o unit : ℕ}

theorem le_roundUp (hunit : 0 < unit) (o : ℕ) : o ≤ roundUp o unit := by
  have hlt := Nat.mod_lt o hunit
  unfold roundUp
  split_ifs <;> omega

theorem dvd_roundUp (o unit : ℕ) : unit ∣ roundUp o unit := by
  unfold roundUp
  split_ifs with h
  · exact Nat.dvd_of_mod_eq_zero h
  · exact Nat.dvd_add (Nat.dvd_sub_mod o) (Nat.dvd_refl unit)

end RoundUp

/-- The end of parts of the given sizes and units, put one behind the other from an offset on. -/
def endOf : ℕ → List (ℕ × ℕ) → ℕ
  | o, [] => o
  | o, part :: parts => endOf (roundUp o part.2 + part.1) parts

theorem le_endOf {parts : List (ℕ × ℕ)} (h : ∀ part ∈ parts, 0 < part.2) (o : ℕ) :
    o ≤ endOf o parts := by
  induction parts generalizing o with
  | nil => exact Nat.le_refl o
  | cons part parts ih =>
    obtain ⟨hpart, hparts⟩ := List.forall_mem_cons.mp h
    have hround := le_roundUp hpart o
    exact Nat.le_trans (Nat.le_trans hround (Nat.le_add_right _ _)) (ih hparts _)

end ElastosCar.Layout
