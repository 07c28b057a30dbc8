import Mathlib

/-!
# Insertion from the end of a list

A doubly linked list is searched from its end for the place of a new element: `insertBack` goes
backwards past the elements that do not come before the new one. The part not yet visited is given in
the order of the visit, last element first.

On a list in order the result is in order (`pairwise_insertBack`), and it has the old elements and the
new one (`perm_insertBack`).
-/

namespace ElastosCar

variable {α : Type}

/-- Put `x` right after the last element that comes before it. -/
def insertBack (before : α → Bool) (x : α) : (rev after : List α) → List α
  | [], after => x :: after
  | y :: rev, after =>
    if before y then rev.reverse ++ y :: x :: after else insertBack before x rev (y :: after)

variable {before : α → Bool} {x : α}

theorem perm_insertBack (rev after : List α) :
    (insertBack before x rev after).Perm (x :: (rev.reverse ++ after)) := by
  induction rev generalizing after with
  | nil => rfl
  | cons y rev ih =>
    rw [insertBack, List.reverse_cons, List.append_assoc, List.singleton_append]
    split
    · have hswap : (rev.reverse ++ y :: x :: after).Perm (rev.reverse ++ x :: y :: after) :=
        (List.Perm.swap x y after).append_left _
      exact hswap.trans List.perm_middle
    · exact ih (y :: after)

/-- The old elements stay in their order. -/
theorem exists_insertBack (before : α → Bool) (x : α) (rev after : List α) :
    ∃ l r, insertBack before x rev after = l ++ x :: r ∧ rev.reverse ++ after = l ++ r := by
  induction rev generalizing after with
  | nil => exact ⟨[], after, rfl, rfl⟩
  | cons y rev ih =>
    rw [insertBack, List.reverse_cons, List.append_assoc, List.singleton_append]
    split
    · refine ⟨rev.reverse ++ [y], after, ?_, ?_⟩
      · rw [List.append_assoc, List.singleton_append]
      · rw [List.append_assoc, List.singleton_append]
    · exact ih (y :: after)

/-- If what comes before `x` is related to it, and it to everything else, the order is kept. -/
theorem pairwise_insertBack {R : α → α → Prop} (htrans : ∀ {a b c}, R a b → R b c → R a c)
    {rev after : List α} (hbefore : ∀ y ∈ rev, before y = true → R y x)
    (hnot : ∀ y ∈ rev, before y = false → R x y) (hafter : ∀ y ∈ after, R x y)
    (h : (rev.reverse ++ after).Pairwise R) : (insertBack before x rev after).Pairwise R := by
  induction rev generalizing after with
  | nil =>
    rw [List.reverse_nil, List.nil_append] at h
    exact List.pairwise_cons.mpr ⟨hafter, h⟩
  | cons y rev ih =>
    rw [List.reverse_cons, List.append_assoc, List.singleton_append] at h
    rw [insertBack]
    split
    · next hy =>
      have hyx : R y x := hbefore y List.mem_cons_self hy
      obtain ⟨hrev, htail, hcross⟩ := List.pairwise_append.mp h
      have hyafter := (List.pairwise_cons.mp htail).1
      refine List.pairwise_append.mpr ⟨hrev, ?_, fun a ha b hb => ?_⟩
      · refine List.pairwise_cons.mpr ⟨fun b hb => ?_, List.pairwise_cons.mpr
          ⟨hafter, (List.pairwise_cons.mp htail).2⟩⟩
        rcases List.mem_cons.mp hb with rfl | hb
        · exact hyx
        · exact hyafter b hb
      · have hay : R a y := hcross a ha y List.mem_cons_self
        rcases List.mem_cons.mp hb with rfl | hb
        · exact hay
        rcases List.mem_cons.mp hb with rfl | hb
        · exact htrans hay hyx
        · exact hcross a ha b (List.mem_cons_of_mem y hb)
    · next hy =>
      have hxy : R x y := hnot y List.mem_cons_self (by simpa using hy)
      refine ih (fun z hz => hbefore z (List.mem_cons_of_mem y hz))
        (fun z hz => hnot z (List.mem_cons_of_mem y hz)) ?_ h
      exact List.forall_mem_cons.mpr ⟨hxy, hafter⟩

end ElastosCar
