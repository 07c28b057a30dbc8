import Mathlib

/-!
# Chains in buckets

A hash table with chaining keeps every element in the bucket that its place names. Here are the walk
along one chain (`walk`), the elements of all buckets as one list (`elements`), the change of one bucket
(`exists_rest`), and the move of all elements into a larger set of buckets (`relink`).

`elements` is read as the entries of a finite map, so a change of one element is an `insert` or an
`erase` (`eq_insert_of_entries`).
-/

namespace ElastosCar

/-! ### One chain -/

section Walk

variable {α : Type} {p : α → Bool}

/-- The first element that `p` finds, with what stands before and after it. -/
def walk (p : α → Bool) : List α → Option (List α × α × List α)
  | [] => none
  | x :: l => if p x then some ([], x, l) else (walk p l).map fun r => (x :: r.1, r.2)

theorem walk_eq_none {l : List α} : walk p l = none ↔ ∀ x ∈ l, p x = false := by
  induction l with
  | nil => exact iff_of_true rfl (List.forall_mem_nil _)
  | cons x l ih =>
    rw [walk, List.forall_mem_cons]
    by_cases hx : p x = true
    · simp [hx]
    · simp [hx, ih]

theorem eq_append_of_walk {l before after : List α} {x : α} (h : walk p l = some (before, x, after)) :
    l = before ++ x :: after ∧ p x = true := by
  induction l generalizing before with
  | nil => cases h
  | cons y l ih =>
    rw [walk] at h
    split at h
    · next hy =>
      cases h
      exact ⟨rfl, hy⟩
    · obtain ⟨⟨before, x, after⟩, hwalk, heq⟩ := Option.map_eq_some_iff.mp h
      cases heq
      obtain ⟨rfl, hx⟩ := ih hwalk
      exact ⟨rfl, hx⟩

/-- Nothing before it is found. -/
theorem not_of_walk {l before after : List α} {x : α} (h : walk p l = some (before, x, after)) :
    ∀ y ∈ before, p y = false := by
  induction l generalizing before with
  | nil => cases h
  | cons y l ih =>
    rw [walk] at h
    split at h
    · cases h
      exact List.forall_mem_nil _
    · next hy =>
      obtain ⟨⟨before, x, after⟩, hwalk, heq⟩ := Option.map_eq_some_iff.mp h
      cases heq
      exact List.forall_mem_cons.mpr ⟨Bool.eq_false_iff.mpr hy, ih hwalk⟩

end Walk

/-! ### All buckets -/

section Buckets

variable {α : Type} {place : α → ℕ} {f g old : ℕ → List α} {n i : ℕ} {l : List α} {x : α}

/-- The elements of the first `n` buckets. -/
def elements (n : ℕ) (f : ℕ → List α) : List α := (List.range n).flatMap f

theorem elements_succ (n : ℕ) (f : ℕ → List α) : elements (n + 1) f = elements n f ++ f n := by
  rw [elements, List.range_succ, List.flatMap_append, List.flatMap_singleton, elements]

theorem mem_elements : x ∈ elements n f ↔ ∃ i < n, x ∈ f i := by
  simp [elements]

theorem elements_congr (h : ∀ i < n, f i = g i) : elements n f = elements n g :=
  List.flatMap_congr fun i hi => h i (List.mem_range.mp hi)

theorem elements_nil (n : ℕ) : elements n (fun _ => ([] : List α)) = [] := by
  simp [elements]

/-- What the other buckets hold does not depend on bucket `i`. -/
theorem exists_rest (f : ℕ → List α) (hi : i < n) :
    ∃ rest, ∀ l, (elements n (Function.update f i l)).Perm (l ++ rest) := by
  induction n with
  | zero => exact absurd hi (Nat.not_lt_zero i)
  | succ n ih =>
    rcases Nat.lt_succ_iff_lt_or_eq.mp hi with hlt | rfl
    · obtain ⟨rest, hrest⟩ := ih hlt
      refine ⟨rest ++ f n, fun l => ?_⟩
      rw [elements_succ, Function.update_of_ne hlt.ne', ← List.append_assoc]
      exact (hrest l).append_right _
    · refine ⟨elements i f, fun l => ?_⟩
      have hother : elements i (Function.update f i l) = elements i f :=
        elements_congr fun j hj => Function.update_of_ne hj.ne _ _
      rw [elements_succ, Function.update_self, hother]
      exact List.perm_append_comm

/-- The element that a walk has found can be exchanged or taken out. -/
theorem exists_others (hi : i < n) {before after : List α} (hf : f i = before ++ x :: after) :
    ∃ others, (elements n f).Perm (x :: others) ∧
      (∀ y, (elements n (Function.update f i (before ++ y :: after))).Perm (y :: others)) ∧
      (elements n (Function.update f i (before ++ after))).Perm others := by
  obtain ⟨rest, hrest⟩ := exists_rest f hi
  have hchange (y : α) :
      (elements n (Function.update f i (before ++ y :: after))).Perm (y :: (before ++ after ++ rest)) :=
    (hrest _).trans (List.perm_middle.append_right rest)
  refine ⟨before ++ after ++ rest, ?_, hchange, hrest _⟩
  have hsame := hchange x
  rwa [← hf, Function.update_eq_self] at hsame

theorem perm_update_cons (hi : i < n) :
    (elements n (Function.update f i (x :: f i))).Perm (x :: elements n f) := by
  obtain ⟨rest, hrest⟩ := exists_rest f hi
  have hsame := hrest (f i)
  rw [Function.update_eq_self] at hsame
  exact (hrest (x :: f i)).trans (hsame.symm.cons x)

/-- Every element is in the bucket that its place names. -/
def Placed (place : α → ℕ) (n : ℕ) (f : ℕ → List α) : Prop := ∀ i < n, ∀ x ∈ f i, place x = i

theorem placed_update (h : Placed place n f) (hl : ∀ x ∈ l, place x = i) :
    Placed place n (Function.update f i l) := by
  intro j hj x hx
  rcases eq_or_ne j i with rfl | hne
  · rw [Function.update_self] at hx
    exact hl x hx
  · rw [Function.update_of_ne hne] at hx
    exact h j hj x hx

/-! ### Moving into other buckets -/

/-- Put an element at the head of its bucket. -/
def push (place : α → ℕ) (f : ℕ → List α) (x : α) : ℕ → List α :=
  Function.update f (place x) (x :: f (place x))

theorem perm_push (hx : place x < n) : (elements n (push place f x)).Perm (x :: elements n f) :=
  perm_update_cons hx

theorem placed_push (h : Placed place n f) (hx : place x < n) : Placed place n (push place f x) :=
  placed_update h (List.forall_mem_cons.mpr ⟨rfl, h _ hx⟩)

theorem perm_foldl_push (hl : ∀ x ∈ l, place x < n) :
    (elements n (l.foldl (push place) f)).Perm (l ++ elements n f) := by
  induction l generalizing f with
  | nil => rfl
  | cons x l ih =>
    rw [List.forall_mem_cons] at hl
    have hpush : (l ++ elements n (push place f x)).Perm (x :: (l ++ elements n f)) :=
      ((perm_push hl.1).append_left l).trans List.perm_middle
    exact (ih hl.2).trans hpush

theorem placed_foldl_push (h : Placed place n f) (hl : ∀ x ∈ l, place x < n) :
    Placed place n (l.foldl (push place) f) := by
  induction l generalizing f with
  | nil => exact h
  | cons x l ih =>
    rw [List.forall_mem_cons] at hl
    exact ih (placed_push h hl.1) hl.2

/-- Move the chains of the first `i` buckets, the last bucket first. -/
def relink (place : α → ℕ) (old : ℕ → List α) : ℕ → (ℕ → List α) → ℕ → List α
  | 0, f => f
  | i + 1, f => relink place old i ((old i).foldl (push place) f)

theorem perm_relink (hold : ∀ x ∈ elements i old, place x < n) :
    (elements n (relink place old i f)).Perm (elements i old ++ elements n f) := by
  induction i generalizing f with
  | zero => rfl
  | succ i ih =>
    rw [elements_succ, List.forall_mem_append] at hold
    rw [relink, elements_succ, List.append_assoc]
    exact (ih hold.1).trans ((perm_foldl_push hold.2).append_left _)

theorem placed_relink (h : Placed place n f) (hold : ∀ x ∈ elements i old, place x < n) :
    Placed place n (relink place old i f) := by
  induction i generalizing f with
  | zero => exact h
  | succ i ih =>
    rw [elements_succ, List.forall_mem_append] at hold
    exact ih (placed_foldl_push h hold.2) hold.1

end Buckets

/-! ### The entries of a finite map -/

section Entries

variable {κ : Type} [DecidableEq κ] {β : κ → Type} {m : Finmap β} {k : κ} {v : β k}
  {s : Multiset (Sigma β)}

/-- A map with an entry for `k` is another one without, and that entry. -/
theorem eq_insert_of_entries (h : m.entries = ⟨k, v⟩ ::ₘ s) :
    ∃ m' : Finmap β, m'.entries = s ∧ k ∉ m' ∧ m = m'.insert k v := by
  have hnodup := m.nodupKeys.nodup_keys
  rw [h, Multiset.keys_cons, Multiset.nodup_cons] at hnodup
  obtain ⟨hk, hs⟩ := hnodup
  refine ⟨⟨s, Multiset.nodup_keys.mp hs⟩, rfl, hk, Finmap.ext ?_⟩
  rw [Finmap.entries_insert_of_notMem hk, h]

theorem erase_of_notMem (hk : k ∉ m) : m.erase k = m := by
  refine Finmap.ext_lookup fun a => ?_
  rcases eq_or_ne a k with rfl | hne
  · rw [Finmap.lookup_erase, Finmap.lookup_eq_none.mpr hk]
  · rw [Finmap.lookup_erase_ne hne]

theorem erase_insert_of_notMem (hk : k ∉ m) : (m.insert k v).erase k = m := by
  refine Finmap.ext_lookup fun a => ?_
  rcases eq_or_ne a k with rfl | hne
  · rw [Finmap.lookup_erase, Finmap.lookup_eq_none.mpr hk]
  · rw [Finmap.lookup_erase_ne hne, Finmap.lookup_insert_of_ne _ hne]

end Entries

end ElastosCar
