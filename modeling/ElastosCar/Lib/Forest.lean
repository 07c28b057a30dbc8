import Mathlib

/-!
# Forests given by parent pointers

`up a` is the parent of `a`, or `none` at a root. `Path up a l` says that following the pointers from
`a` goes through `l`, root last. In a finite forest without cycles every node has such a path
(`Path.exists`), it lists the ancestors of the node, each once (`Path.mem_iff`, `Path.nodup`), and
the weight above a node is the weight above its parent and the parent's own (`weightAbove_of_up`).
-/

namespace ElastosCar.Forest

open Relation

variable {α : Type} (up : α → Option α)

/-- `b` is the parent of `a`. -/
def Parent (b a : α) : Prop := up a = some b

/-- `b` is `a`, or above it. -/
def Ancestor : α → α → Prop := ReflTransGen (Parent up)

def ProperAncestor : α → α → Prop := TransGen (Parent up)

/-- No node is above itself. -/
def Acyclic : Prop := ∀ a, ¬ProperAncestor up a a

/-- The nodes above some node of a set, with the set itself. -/
def upClosure (s : Set α) : Set α := {b | ∃ a ∈ s, Ancestor up b a}

/-- What following the pointers from a node goes through. -/
inductive Path : α → List α → Prop
  | root {a : α} : up a = none → Path a [a]
  | step {a b : α} {l : List α} : up a = some b → Path b l → Path a (a :: l)

variable {up} {a b c : α} {l : List α}

theorem properAncestor_iff_of_up (h : up a = some b) :
    ProperAncestor up c a ↔ Ancestor up c b := by
  refine TransGen.tail'_iff.trans ⟨?_, fun hc => ⟨b, hc, h⟩⟩
  rintro ⟨d, hd, hda : up a = some d⟩
  exact Option.some.inj (hda.symm.trans h) ▸ hd

theorem not_properAncestor_of_root (h : up a = none) : ¬ProperAncestor up c a := by
  intro hc
  obtain ⟨d, -, hda : up a = some d⟩ := TransGen.tail'_iff.mp hc
  exact Option.some_ne_none d (hda.symm.trans h)

theorem ancestor_iff : Ancestor up b a ↔ b = a ∨ ProperAncestor up b a :=
  reflTransGen_iff_eq_or_transGen.trans (or_congr_left eq_comm)

namespace Path

theorem mem_iff (h : Path up a l) : b ∈ l ↔ Ancestor up b a := by
  induction h with
  | root h =>
    rw [List.mem_singleton, ancestor_iff]
    exact (or_iff_left (not_properAncestor_of_root h)).symm
  | step h _ ih => rw [List.mem_cons, ih, ← properAncestor_iff_of_up h, ancestor_iff]

theorem nodup (hacyclic : Acyclic up) (h : Path up a l) : l.Nodup := by
  induction h with
  | root => exact List.nodup_singleton _
  | step h hl ih =>
    refine List.nodup_cons.mpr ⟨fun ha => ?_, ih⟩
    exact hacyclic _ ((properAncestor_iff_of_up h).mpr (hl.mem_iff.mp ha))

theorem exists_root (h : Path up a l) : ∃ r ∈ l, up r = none := by
  induction h with
  | @root a h => exact ⟨a, List.mem_singleton_self a, h⟩
  | step _ _ ih =>
    obtain ⟨r, hr, hroot⟩ := ih
    exact ⟨r, List.mem_cons_of_mem _ hr, hroot⟩

/-- In a finite forest every node has a path. -/
theorem «exists» [Finite α] (hacyclic : Acyclic up) (a : α) : ∃ l, Path up a l := by
  have : Std.Irrefl (ProperAncestor up) := ⟨hacyclic⟩
  have : IsTrans α (ProperAncestor up) := ⟨fun _ _ _ => TransGen.trans⟩
  have hwf : WellFounded (ProperAncestor up) := Finite.wellFounded_of_trans_of_irrefl _
  induction a using hwf.induction with
  | _ a ih =>
    rcases hup : up a with _ | b
    · exact ⟨_, .root hup⟩
    · obtain ⟨l, hl⟩ := ih b (.single hup)
      exact ⟨_, .step hup hl⟩

end Path

/-! ### The weight above a node -/

section Weight

open scoped Classical in
variable (up) in
/-- The weights of the proper ancestors of a node together. -/
noncomputable def weightAbove [Fintype α] (w : α → ℕ) (a : α) : ℕ :=
  ∑ b with ProperAncestor up b a, w b

variable [Fintype α] {w : α → ℕ}

theorem weightAbove_of_root (h : up a = none) : weightAbove up w a = 0 := by
  classical
  rw [weightAbove, Finset.filter_false_of_mem fun b _ => not_properAncestor_of_root h,
    Finset.sum_empty]

theorem weightAbove_of_up (hacyclic : Acyclic up) (h : up a = some b) :
    weightAbove up w a = weightAbove up w b + w b := by
  classical
  have hinsert : (Finset.univ.filter fun c => ProperAncestor up c a) =
      insert b (Finset.univ.filter fun c => ProperAncestor up c b) := by
    ext c
    simp only [Finset.mem_filter_univ, Finset.mem_insert, properAncestor_iff_of_up h, ancestor_iff]
  have hnot : b ∉ Finset.univ.filter fun c => ProperAncestor up c b := fun hb =>
    hacyclic b (Finset.mem_filter.mp hb).2
  rw [weightAbove, weightAbove, hinsert, Finset.sum_insert hnot, add_comm]

end Weight

end ElastosCar.Forest
