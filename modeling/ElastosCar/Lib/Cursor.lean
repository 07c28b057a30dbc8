import Mathlib

/-!
# Lists under a cursor

An iteration over a list of nodes keeps a cursor: before the first node, at a node, or nowhere when
it has left the last. The nodes are known by a key, as by an address, and `rest` is what the
iteration has still to reach.

Nodes may be added and removed on the way. `rest_append` and `rest_back` say what then becomes of
`rest`: a node removed under the cursor leaves it as it is, if the cursor goes back to the node
before. A cursor left at a node that is gone is not `Valid`.
-/

namespace ElastosCar

/-- A place in a list of nodes with keys in `ι`. -/
inductive Cursor (ι : Type)
  | null
  | head
  | node (i : ι)
deriving DecidableEq, Repr

namespace Cursor

variable {α ι : Type} [DecidableEq ι] (f : α → ι)

/-- The place of the last node, the head of a list that has none. -/
def last (l : List α) : Cursor ι := l.getLast?.elim head fun a => node (f a)

/-- The list without the node of a key. -/
def remove (l : List α) (i : ι) : List α := l.eraseP fun a => f a = i

/-- The place before a node. -/
def prev (l : List α) (i : ι) : Cursor ι := last f (l.takeWhile fun a => f a ≠ i)

/-- The nodes behind the cursor. -/
def rest (l : List α) : Cursor ι → List α
  | null => []
  | head => l
  | node i => (l.dropWhile fun a => f a ≠ i).tail

/-- The place behind the cursor; behind the last node there is the head. -/
def next (l : List α) (c : Cursor ι) : Cursor ι := (rest f l c).head?.elim head fun a => node (f a)

/-- The cursor is not at a node that the list does not have. -/
def Valid (l : List α) : Cursor ι → Prop
  | null | head => True
  | node i => i ∈ l.map f

instance (l : List α) : (c : Cursor ι) → Decidable (c.Valid f l)
  | null | head => isTrue trivial
  | node i => inferInstanceAs (Decidable (i ∈ l.map f))

/-- The cursor for the list without a node. -/
def back (l : List α) (i : ι) (c : Cursor ι) : Cursor ι := if c = node i then prev f l i else c

variable {f} {l : List α} {i : ι} {c : Cursor ι}

/-! ### The list around a node -/

theorem exists_split (h : i ∈ l.map f) :
    ∃ l₁ a l₂, l = l₁ ++ a :: l₂ ∧ f a = i ∧ i ∉ l₁.map f := by
  induction l with
  | nil => exact absurd h List.not_mem_nil
  | cons b l ih =>
    by_cases hb : f b = i
    · exact ⟨[], b, l, rfl, hb, List.not_mem_nil⟩
    · obtain ⟨l₁, a, l₂, rfl, ha, hi⟩ := ih ((List.mem_cons.mp h).resolve_left (Ne.symm hb))
      refine ⟨b :: l₁, a, l₂, rfl, ha, fun hmem => ?_⟩
      exact (List.mem_cons.mp hmem).elim (fun h => hb h.symm) hi

omit [DecidableEq ι] in
/-- No node of the list in front has the key. -/
theorem key_ne {l₁ : List α} (hi : i ∉ l₁.map f) : ∀ a ∈ l₁, f a ≠ i :=
  fun _ ha h => hi (h ▸ List.mem_map_of_mem ha)

omit [DecidableEq ι] in
theorem notMem_of_nodup {l₁ l₂ : List α} {a : α} (h : ((l₁ ++ a :: l₂).map f).Nodup) :
    f a ∉ l₁.map f := by
  rw [List.map_append, List.map_cons] at h
  exact fun hmem => (List.nodup_append.mp h).2.2 _ hmem _ List.mem_cons_self rfl

theorem rest_split {l₁ l₂ : List α} {a : α} (ha : f a = i) (hi : i ∉ l₁.map f) :
    rest f (l₁ ++ a :: l₂) (node i) = l₂ := by
  have hpre : ∀ b ∈ l₁, decide (f b ≠ i) = true := fun b hb => decide_eq_true (key_ne hi b hb)
  rw [rest, List.dropWhile_append_of_pos hpre, List.dropWhile_cons_of_neg (by simpa using ha),
    List.tail_cons]

theorem prev_split {l₁ l₂ : List α} {a : α} (ha : f a = i) (hi : i ∉ l₁.map f) :
    prev f (l₁ ++ a :: l₂) i = last f l₁ := by
  have hpre : ∀ b ∈ l₁, decide (f b ≠ i) = true := fun b hb => decide_eq_true (key_ne hi b hb)
  rw [prev, List.takeWhile_append_of_pos hpre, List.takeWhile_cons_of_neg (by simpa using ha),
    List.append_nil]

theorem remove_split {l₁ l₂ : List α} {a : α} (ha : f a = i) (hi : i ∉ l₁.map f) :
    remove f (l₁ ++ a :: l₂) i = l₁ ++ l₂ := by
  have hpre : ∀ b ∈ l₁, ¬ decide (f b = i) = true := fun b hb => by simpa using key_ne hi b hb
  rw [remove, List.eraseP_append_right _ hpre, List.eraseP_cons_of_pos (by simpa using ha)]

theorem remove_of_notMem (h : i ∉ l.map f) : remove f l i = l :=
  List.eraseP_of_forall_not fun a ha => by simpa using key_ne h a ha

theorem map_remove : (remove f l i).map f = (l.map f).erase i := by
  by_cases h : i ∈ l.map f
  · obtain ⟨l₁, a, l₂, rfl, ha, hi⟩ := exists_split h
    rw [remove_split ha hi, List.map_append, List.map_append, List.map_cons, ha,
      List.erase_append_right _ hi, List.erase_cons_head]
  · rw [remove_of_notMem h, List.erase_of_not_mem h]

theorem mem_of_mem_remove {a : α} (h : a ∈ remove f l i) : a ∈ l := List.mem_of_mem_eraseP h

theorem mem_remove_iff (hl : (l.map f).Nodup) {a : α} : a ∈ remove f l i ↔ a ∈ l ∧ f a ≠ i := by
  constructor
  · intro h
    refine ⟨mem_of_mem_remove h, fun ha => ?_⟩
    have hmem : f a ∈ (remove f l i).map f := List.mem_map_of_mem h
    rw [map_remove, ha] at hmem
    exact hl.not_mem_erase hmem
  · intro ⟨hmem, ha⟩
    exact (List.mem_eraseP_of_neg (by simpa using ha)).mpr hmem

theorem remove_eq_filter (hl : (l.map f).Nodup) : remove f l i = l.filter fun a => f a ≠ i := by
  have hkeep : ∀ {l' : List α}, i ∉ l'.map f → (l'.filter fun a => f a ≠ i) = l' :=
    fun hi => List.filter_eq_self.mpr fun a ha => decide_eq_true (key_ne hi a ha)
  by_cases h : i ∈ l.map f
  · obtain ⟨l₁, a, l₂, rfl, rfl, hi⟩ := exists_split h
    rw [List.map_append, List.map_cons] at hl
    have hi₂ : f a ∉ l₂.map f := (List.nodup_cons.mp (List.nodup_append.mp hl).2.1).1
    rw [remove_split rfl hi, List.filter_append, hkeep hi,
      List.filter_cons_of_neg (by simp), hkeep hi₂]
  · rw [remove_of_notMem h, hkeep h]

/-- A change of nothing but the node that is removed. -/
theorem remove_map (hl : (l.map f).Nodup) {u : α → α} (hu : ∀ a, f (u a) = f a)
    (hid : ∀ a, f a ≠ i → u a = a) : remove f (l.map u) i = remove f l i := by
  have hkeep : ∀ {l' : List α}, i ∉ l'.map f → l'.map u = l' := by
    intro l' hi
    exact (List.map_congr_left fun a ha => hid a (key_ne hi a ha)).trans (List.map_id _)
  by_cases h : i ∈ l.map f
  · obtain ⟨l₁, a, l₂, rfl, ha, hi⟩ := exists_split h
    rw [List.map_append, List.map_cons] at hl
    have hi₂ : i ∉ l₂.map f := ha ▸ (List.nodup_cons.mp (List.nodup_append.mp hl).2.1).1
    rw [List.map_append, List.map_cons, hkeep hi, hkeep hi₂, remove_split ha hi,
      remove_split ((hu a).trans ha) hi]
  · rw [hkeep h]

/-- A node that is removed counts nowhere else. -/
theorem count_map_remove {κ : Type} [DecidableEq κ] {g : α → κ} {k : κ}
    (h : ∀ a ∈ l, f a = i → g a ≠ k) :
    ((remove f l i).map g).count k = (l.map g).count k := by
  by_cases hi : i ∈ l.map f
  · obtain ⟨l₁, a, l₂, rfl, ha, hi⟩ := exists_split hi
    have hne := h a (List.mem_append_right _ List.mem_cons_self) ha
    rw [remove_split ha hi, List.map_append, List.map_append, List.map_cons, List.count_append,
      List.count_append, List.count_cons_of_ne hne]
  · rw [remove_of_notMem hi]

/-- What is filtered out does not matter. -/
theorem filter_remove {p : α → Bool} (h : ∀ a ∈ l, f a = i → p a = false) :
    (remove f l i).filter p = l.filter p := by
  by_cases hi : i ∈ l.map f
  · obtain ⟨l₁, a, l₂, rfl, ha, hi⟩ := exists_split hi
    have hp := h a (List.mem_append_right _ List.mem_cons_self) ha
    rw [remove_split ha hi, List.filter_append, List.filter_append,
      List.filter_cons_of_neg (ne_true_of_eq_false hp)]
  · rw [remove_of_notMem hi]

theorem find?_eq_some_iff (hl : (l.map f).Nodup) {a : α} :
    (l.find? fun b => f b = i) = some a ↔ a ∈ l ∧ f a = i := by
  constructor
  · intro h
    exact ⟨List.mem_of_find?_eq_some h, by simpa using List.find?_some h⟩
  · intro ⟨hmem, ha⟩
    obtain ⟨b, hb⟩ : ∃ b, (l.find? fun b => f b = i) = some b :=
      Option.isSome_iff_exists.mp (List.find?_isSome.mpr ⟨a, hmem, decide_eq_true ha⟩)
    have hkey : f b = i := by simpa using List.find?_some hb
    rw [hb, List.inj_on_of_nodup_map hl (List.mem_of_find?_eq_some hb) hmem (hkey.trans ha.symm)]

theorem find?_eq_none_iff : (l.find? fun b => f b = i) = none ↔ i ∉ l.map f := by
  rw [List.find?_eq_none, List.mem_map]
  constructor
  · rintro h ⟨a, hmem, ha⟩
    exact h a hmem (decide_eq_true ha)
  · intro h a hmem ha
    exact h ⟨a, hmem, of_decide_eq_true ha⟩

/-! ### What is left to reach -/

theorem rest_subset : rest f l c ⊆ l := by
  intro a ha
  cases c with
  | null => exact absurd ha List.not_mem_nil
  | head => exact ha
  | node i => exact (List.dropWhile_sublist _).subset (List.mem_of_mem_tail ha)

theorem rest_eq_nil_iff (hl : (l.map f).Nodup) (hc : c.Valid f l) (hnull : c ≠ null) :
    rest f l c = [] ↔ c = last f l := by
  cases c with
  | null => exact absurd rfl hnull
  | head =>
    rw [rest, last]
    cases hlast : l.getLast? with
    | none => simpa using hlast
    | some a =>
      constructor
      · rintro rfl
        simp at hlast
      · intro h
        exact nomatch h
  | node i =>
    obtain ⟨l₁, a, l₂, rfl, ha, hi⟩ := exists_split hc
    rw [rest_split ha hi, last, List.getLast?_append_cons]
    constructor
    · rintro rfl
      rw [List.getLast?_singleton, Option.elim_some, ha]
    · intro h
      by_contra hne
      -- the last node stands behind `a` and has its key
      obtain ⟨b, hb⟩ := Option.ne_none_iff_exists'.mp (mt List.getLast?_eq_none_iff.mp hne)
      rw [List.getLast?_cons, hb, Option.getD_some, Option.elim_some, node.injEq] at h
      rw [List.map_append, List.map_cons] at hl
      refine (List.nodup_cons.mp (List.nodup_append.mp hl).2.1).1 ?_
      rw [ha, h]
      exact List.mem_map_of_mem (List.mem_of_getLast? hb)

/-- The step of an iteration. -/
theorem rest_next (hl : (l.map f).Nodup) (hc : c.Valid f l) {a : α} {r : List α}
    (h : rest f l c = a :: r) : next f l c = node (f a) ∧ rest f l (node (f a)) = r := by
  refine ⟨by rw [next, h, List.head?_cons, Option.elim_some], ?_⟩
  cases c with
  | null => cases h
  | head =>
    have hsplit : l = [] ++ a :: r := h
    rw [hsplit]
    exact rest_split rfl List.not_mem_nil
  | node i =>
    obtain ⟨l₁, b, l₂, rfl, hb, hi⟩ := exists_split hc
    rw [rest_split hb hi] at h
    subst h
    have hsplit : l₁ ++ b :: a :: r = (l₁ ++ [b]) ++ a :: r := by simp
    rw [hsplit] at hl ⊢
    exact rest_split rfl (notMem_of_nodup hl)

theorem rest_append (hc : c.Valid f l) (hnull : c ≠ null) (a : α) :
    rest f (l ++ [a]) c = rest f l c ++ [a] := by
  cases c with
  | null => exact absurd rfl hnull
  | head => rfl
  | node i =>
    obtain ⟨l₁, b, l₂, rfl, hb, hi⟩ := exists_split hc
    rw [rest_split hb hi, List.append_assoc, List.cons_append, rest_split hb hi]

theorem rest_map {u : α → α} (hu : ∀ a, f (u a) = f a) :
    rest f (l.map u) c = (rest f l c).map u := by
  cases c with
  | null => rfl
  | head => rfl
  | node i =>
    have hcomp : (fun a => decide (f a ≠ i)) ∘ u = fun a => decide (f a ≠ i) :=
      funext fun a => by rw [Function.comp, hu]
    rw [rest, rest, List.dropWhile_map, hcomp, List.map_tail]

/-- A node that is not under the cursor is removed. -/
theorem rest_remove (hl : (l.map f).Nodup) (hc : c.Valid f l) (hne : c ≠ node i) :
    rest f (remove f l i) c = remove f (rest f l c) i := by
  cases c with
  | null => rfl
  | head => rfl
  | node j =>
    obtain ⟨l₁, b, l₂, rfl, hb, hj⟩ := exists_split hc
    have hji : j ≠ i := fun h => hne (h ▸ rfl)
    rw [rest_split hb hj]
    by_cases hi : i ∈ l₁.map f
    · -- in front of the cursor
      have hi₂ : i ∉ l₂.map f := fun hmem => by
        rw [List.map_append, List.map_cons] at hl
        exact (List.nodup_append.mp hl).2.2 _ hi _ (List.mem_cons_of_mem _ hmem) rfl
      obtain ⟨l₀, a, l₃, rfl, ha, hi₀⟩ := exists_split hi
      rw [List.append_assoc, List.cons_append, remove_split ha hi₀, ← List.append_assoc,
        remove_of_notMem hi₂]
      refine rest_split hb fun hmem => hj ?_
      rw [List.map_append] at hmem ⊢
      rw [List.map_cons]
      exact (List.mem_append.mp hmem).elim (List.mem_append_left _)
        fun h => List.mem_append_right _ (List.mem_cons_of_mem _ h)
    · have hpre : ∀ a ∈ l₁, ¬ decide (f a = i) = true := fun a ha => by simpa using key_ne hi a ha
      rw [remove, List.eraseP_append_right _ hpre,
        List.eraseP_cons_of_neg (by simpa using fun h => hji (hb.symm.trans h))]
      exact rest_split hb hj

theorem rest_last_append {l₁ l₂ : List α} (hl : ((l₁ ++ l₂).map f).Nodup) :
    rest f (l₁ ++ l₂) (last f l₁) = l₂ := by
  induction l₁ using List.reverseRecOn with
  | nil => rfl
  | append_singleton l₁ a _ =>
    rw [last, List.getLast?_append_cons, List.getLast?_singleton, Option.elim_some,
      List.append_assoc, List.singleton_append]
    rw [List.append_assoc, List.singleton_append] at hl
    exact rest_split rfl (notMem_of_nodup hl)

/-- **The removal of a node**, with the cursor moved back where it stands there, takes it from what
is left to reach and nothing else. -/
theorem rest_back (hl : (l.map f).Nodup) (hc : c.Valid f l) :
    rest f (remove f l i) (back f l i c) = remove f (rest f l c) i := by
  rw [back]
  split_ifs with h
  · obtain rfl := h
    obtain ⟨l₁, a, l₂, rfl, ha, hi⟩ := exists_split hc
    rw [remove_split ha hi, prev_split ha hi, rest_split ha hi]
    rw [List.map_append, List.map_cons, ha] at hl
    have hi₂ : i ∉ l₂.map f := (List.nodup_cons.mp (List.nodup_append.mp hl).2.1).1
    rw [remove_of_notMem hi₂]
    refine rest_last_append ?_
    rw [List.map_append]
    exact hl.sublist ((List.sublist_cons_self _ _).append_left _)
  · exact rest_remove hl hc h

theorem back_ne_null (hc : c ≠ null) : back f l i c ≠ null := by
  rw [back]
  split_ifs
  · rw [prev, last]
    cases (l.takeWhile fun a => f a ≠ i).getLast? with
    | none => exact nofun
    | some a => exact nofun
  · exact hc

/-! ### Valid cursors -/

omit [DecidableEq ι] in
theorem Valid.append (hc : c.Valid f l) (a : α) : c.Valid f (l ++ [a]) := by
  cases c with
  | null => trivial
  | head => trivial
  | node i =>
    rw [Valid, List.map_append]
    exact List.mem_append_left _ hc

omit [DecidableEq ι] in
theorem valid_map {u : α → α} (hu : ∀ a, f (u a) = f a) : c.Valid f (l.map u) ↔ c.Valid f l := by
  cases c with
  | null => exact Iff.rfl
  | head => exact Iff.rfl
  | node i =>
    have hcomp : f ∘ u = f := funext hu
    rw [Valid, Valid, List.map_map, hcomp]

theorem valid_remove_iff (hl : (l.map f).Nodup) (hc : c.Valid f l) :
    c.Valid f (remove f l i) ↔ c ≠ node i := by
  cases c with
  | null => exact iff_of_true trivial (nofun)
  | head => exact iff_of_true trivial (nofun)
  | node j =>
    have hmem : j ∈ l.map f := hc
    rw [Valid, map_remove, hl.mem_erase_iff, and_iff_left hmem, Ne, Ne, node.injEq]

omit [DecidableEq ι] in
theorem valid_last : (last f l).Valid f l := by
  rw [last]
  cases h : l.getLast? with
  | none => trivial
  | some a => exact List.mem_map_of_mem (List.mem_of_getLast? h)

theorem valid_back (hl : (l.map f).Nodup) (hc : c.Valid f l) :
    (back f l i c).Valid f (remove f l i) := by
  rw [back]
  split_ifs with h
  · obtain rfl := h
    obtain ⟨l₁, a, l₂, rfl, ha, hi⟩ := exists_split hc
    rw [remove_split ha hi, prev_split ha hi]
    have hlast : (last f l₁).Valid f l₁ := valid_last
    generalize last f l₁ = c at hlast
    cases c with
    | null => trivial
    | head => trivial
    | node j =>
      rw [Valid, List.map_append]
      exact List.mem_append_left _ hlast
  · exact (valid_remove_iff hl hc).mpr h

end Cursor

end ElastosCar
