import Mathlib.Order.WellFounded

/-!
# Things that stand for others

Some things stand for another, which may stand for a third, and no chain goes on for ever. `last` is
what a thing stands for in the end, and `total` what the members of its chain come to together, the
last one included. The facts about both are proved along the chain (`Delegation.rec_chain`). -/

namespace ElastosCar

/-- What things stand for. -/
structure Delegation (α : Type) where
  next : α → Option α
  wf : WellFounded fun b a => next a = some b

namespace Delegation

variable {α W : Type} (d : Delegation α)

/-- Induction along the chain of a thing. -/
theorem rec_chain {motive : α → Prop} (ends : ∀ a, d.next a = none → motive a)
    (delegates : ∀ a b, d.next a = some b → motive b → motive a) (a : α) : motive a :=
  d.wf.induction a fun a ih =>
    match h : d.next a with
    | none => ends a h
    | some b => delegates a b h (ih b h)

/-- What a thing stands for in the end. -/
def last (a : α) : α :=
  match _h : d.next a with
  | none => a
  | some b => last b
termination_by d.wf.wrap a
decreasing_by exact _h

/-- What the members of a chain come to. -/
def total (op : W → W → W) (weight : α → W) (a : α) : W :=
  match _h : d.next a with
  | none => weight a
  | some b => op (weight a) (total op weight b)
termination_by d.wf.wrap a
decreasing_by exact _h

variable {d} {a b : α}

theorem last_of_none (h : d.next a = none) : d.last a = a := by
  rw [last]
  split
  · rfl
  · next h' => exact nomatch h.symm.trans h'

theorem last_of_some (h : d.next a = some b) : d.last a = d.last b := by
  rw [last]
  split
  · next h' => exact nomatch h.symm.trans h'
  · next h' => rw [Option.some.inj (h.symm.trans h')]

theorem total_of_none (op : W → W → W) (weight : α → W) (h : d.next a = none) :
    d.total op weight a = weight a := by
  rw [total]
  split
  · rfl
  · next h' => exact nomatch h.symm.trans h'

theorem total_of_some (op : W → W → W) (weight : α → W) (h : d.next a = some b) :
    d.total op weight a = op (weight a) (d.total op weight b) := by
  rw [total]
  split
  · next h' => exact nomatch h.symm.trans h'
  · next h' => rw [Option.some.inj (h.symm.trans h')]

/-- The last of a chain stands for nothing else. -/
theorem next_last (a : α) : d.next (d.last a) = none := by
  induction a using d.rec_chain with
  | ends a h => rwa [last_of_none h]
  | delegates a b h ih => rwa [last_of_some h]

end Delegation

end ElastosCar
