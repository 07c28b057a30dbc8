import ElastosCar.Lib.Buckets

/-!
# Singly linked chains in memory

`next` says where each node points. `Linked next it l` says that the nodes from the pointer `it` on
are those of `l`, the last of which points nowhere. A node is put behind another one (`insertNext`),
or taken out with the help of the one before it (`detach`); a search keeps that one in a trailing
pointer (`seek`), and finds what `walk` finds in the list.

Each of these needs only that the nodes are distinct, and leaves every other chain as it is
(`linked_congr`).
-/

namespace ElastosCar

variable {κ : Type} {next next' : κ → Option κ} {it : Option κ} {a prev new : κ} {l : List κ}

/-- The nodes from a pointer on. -/
def Linked (next : κ → Option κ) : Option κ → List κ → Prop
  | it, [] => it = none
  | it, a :: l => it = some a ∧ Linked next (next a) l

/-- Only the nodes of the chain matter. -/
theorem linked_congr (h : Linked next it l) (hsame : ∀ a ∈ l, next' a = next a) :
    Linked next' it l := by
  induction l generalizing it with
  | nil => exact h
  | cons a l ih =>
    refine ⟨h.1, ?_⟩
    rw [hsame a List.mem_cons_self]
    exact ih h.2 fun b hb => hsame b (List.mem_cons_of_mem a hb)

/-! ### Searching -/

/-- Go through a chain with a trailing pointer, for at most so many nodes: the node that is found
and the one before it, or that there is none. -/
def seek (next : κ → Option κ) (found : κ → Bool) :
    ℕ → Option κ → Option κ → Option (Option (Option κ × κ))
  | _, _, none => some none
  | 0, _, some _ => none
  | fuel + 1, prev, some it =>
    if found it then some (some (prev, it)) else seek next found fuel (some it) (next it)

/-- The search ends, with the first node that is found in the list. -/
theorem seek_of_linked {found : κ → Bool} {fuel : ℕ} (h : Linked next it l)
    (hfuel : l.length ≤ fuel) (trailing : Option κ) :
    seek next found fuel trailing it =
      some ((walk found l).map fun r => (r.1.getLast?.or trailing, r.2.1)) := by
  induction l generalizing it fuel trailing with
  | nil =>
    obtain rfl : it = none := h
    rw [seek.eq_def, walk]
    rfl
  | cons a l ih =>
    obtain ⟨rfl, hl⟩ := h
    obtain ⟨fuel, rfl⟩ : ∃ n, fuel = n + 1 := Nat.exists_eq_succ_of_ne_zero (by
      rw [List.length_cons] at hfuel
      omega)
    rw [seek, walk]
    split
    · rfl
    · rw [ih hl (Nat.le_of_succ_le_succ hfuel), Option.map_map]
      refine congrArg some (Option.map_congr fun r _ => ?_)
      -- the trailing pointer is the node before, or this one
      change (r.1.getLast?.or (some a), r.2.1) = ((a :: r.1).getLast?.or trailing, r.2.1)
      rw [List.getLast?_cons]
      cases r.1.getLast? <;> rfl

/-! ### Putting in and taking out -/

section Links

variable [DecidableEq κ]

/-- Put a new node behind a node. -/
def insertNext (next : κ → Option κ) (a new : κ) : κ → Option κ :=
  Function.update (Function.update next new (next a)) a (some new)

/-- Take out the node behind `prev`. -/
def detach (next : κ → Option κ) (prev a : κ) : κ → Option κ :=
  Function.update (Function.update next prev (next a)) a none

theorem insertNext_of_ne {b : κ} (ha : b ≠ a) (hnew : b ≠ new) :
    insertNext next a new b = next b := by
  rw [insertNext, Function.update_of_ne ha, Function.update_of_ne hnew]

theorem detach_of_ne {b : κ} (hprev : b ≠ prev) (ha : b ≠ a) : detach next prev a b = next b := by
  rw [detach, Function.update_of_ne ha, Function.update_of_ne hprev]

theorem Linked.insertNext (h : Linked next (some a) (a :: l)) (hnodup : (a :: l).Nodup)
    (hnew : new ∉ a :: l) : Linked (insertNext next a new) (some a) (a :: new :: l) := by
  have hne : new ≠ a := fun heq => hnew (heq ▸ List.mem_cons_self)
  refine ⟨rfl, ?_, ?_⟩
  · rw [ElastosCar.insertNext, Function.update_self]
  · rw [ElastosCar.insertNext, Function.update_of_ne hne, Function.update_self]
    refine linked_congr h.2 fun b hb => ?_
    have hba : b ≠ a := fun heq => (List.nodup_cons.mp hnodup).1 (heq ▸ hb)
    have hbnew : b ≠ new := fun heq => hnew (heq ▸ List.mem_cons_of_mem a hb)
    exact insertNext_of_ne hba hbnew

theorem Linked.detach {before after : List κ} (h : Linked next it (before ++ prev :: a :: after))
    (hnodup : (before ++ prev :: a :: after).Nodup) :
    Linked (detach next prev a) it (before ++ prev :: after) := by
  induction before generalizing it with
  | nil =>
    obtain ⟨rfl, hprev, hafter⟩ := h
    obtain ⟨hprevnot, hrest⟩ := List.nodup_cons.mp hnodup
    obtain ⟨hanot, -⟩ := List.nodup_cons.mp hrest
    have hne : prev ≠ a := fun heq => hprevnot (heq ▸ List.mem_cons_self)
    refine ⟨rfl, ?_⟩
    rw [ElastosCar.detach, Function.update_of_ne hne, Function.update_self]
    refine linked_congr hafter fun b hb => ?_
    have hbprev : b ≠ prev := fun heq => hprevnot (heq ▸ List.mem_cons_of_mem a hb)
    have hba : b ≠ a := fun heq => hanot (heq ▸ hb)
    exact detach_of_ne hbprev hba
  | cons b before ih =>
    obtain ⟨rfl, hl⟩ := h
    obtain ⟨hnot, hrest⟩ := List.nodup_cons.mp hnodup
    have hbprev : b ≠ prev := fun heq => hnot (heq ▸ by simp)
    have hba : b ≠ a := fun heq => hnot (heq ▸ by simp)
    refine ⟨rfl, ?_⟩
    rw [detach_of_ne hbprev hba]
    exact ih hl hrest

end Links

end ElastosCar
