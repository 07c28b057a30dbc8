import ElastosCar.Lib.Scan

/-!
# Code words one behind the other

A list of code words whose first elements tell their lengths: where each of them begins (`offset`),
which elements lie between two of these places, and that a list of words begins with another only
where the words do (`flatMap_prefix_iff`), since no word is the beginning of another one.
-/

namespace ElastosCar.Code

open Scan

variable {α β : Type} (encode : α → List β)

/-- Where the word with a number begins. -/
def offset (as : List α) (k : ℕ) : ℕ := ((as.take k).flatMap encode).length

variable {encode} {as bs : List α} {t : List β}

/-! ### Places -/

@[simp]
theorem offset_zero (as : List α) : offset encode as 0 = 0 := rfl

theorem flatMap_split (encode : α → List β) (as : List α) (k : ℕ) :
    as.flatMap encode = (as.take k).flatMap encode ++ (as.drop k).flatMap encode := by
  rw [← List.flatMap_append, List.take_append_drop]

theorem offset_add (as : List α) (i n : ℕ) :
    offset encode as (i + n) = offset encode as i + offset encode (as.drop i) n := by
  rw [offset, List.take_add, List.flatMap_append, List.length_append, offset, offset]

theorem offset_succ {k : ℕ} (hk : k < as.length) :
    offset encode as (k + 1) = offset encode as k + (encode as[k]).length := by
  rw [offset, List.take_succ_eq_append_getElem hk, List.flatMap_append, List.length_append,
    List.flatMap_singleton, offset]

theorem offset_mono (encode : α → List β) (as : List α) {i j : ℕ} (h : i ≤ j) :
    offset encode as i ≤ offset encode as j := by
  obtain ⟨n, rfl⟩ := Nat.exists_eq_add_of_le h
  rw [offset_add]
  exact Nat.le_add_right _ _

theorem offset_of_length_le {k : ℕ} (h : as.length ≤ k) :
    offset encode as k = (as.flatMap encode).length := by
  rw [offset, List.take_of_length_le h]

theorem offset_le (encode : α → List β) (as : List α) (k : ℕ) :
    offset encode as k ≤ (as.flatMap encode).length := by
  rw [flatMap_split encode as k, List.length_append]
  exact Nat.le_add_right _ _

/-- A word takes a place at least. -/
theorem le_offset (encode : α → List β) (hne : ∀ a ∈ as, encode a ≠ []) {k : ℕ}
    (hk : k ≤ as.length) : k ≤ offset encode as k := by
  induction k with
  | zero => exact Nat.zero_le _
  | succ k ih =>
    have hpos := List.length_pos_iff.mpr (hne as[k] (List.getElem_mem hk))
    have hle := ih (Nat.le_of_succ_le hk)
    rw [offset_succ hk]
    omega

/-- A word behind another has another place. -/
theorem offset_lt (hne : ∀ a ∈ as, encode a ≠ []) {i j : ℕ} (h : i < j) (hj : j ≤ as.length) :
    offset encode as i < offset encode as j := by
  obtain ⟨n, rfl⟩ := Nat.exists_eq_add_of_lt h
  have hle := le_offset encode (fun a ha => hne a (List.mem_of_mem_drop (i := i) ha))
    (k := n + 1) (by rw [List.length_drop]; omega)
  rw [Nat.add_assoc, offset_add]
  omega

/-- What is left of the list at a word. -/
theorem drop_offset (encode : α → List β) (as : List α) (t : List β) (k : ℕ) :
    (as.flatMap encode ++ t).drop (offset encode as k) = (as.drop k).flatMap encode ++ t := by
  rw [flatMap_split encode as k, List.append_assoc, offset, List.drop_left]

/-- The place is told by what is left. -/
theorem length_sub_length (encode : α → List β) (as : List α) (t : List β) (k : ℕ) :
    (as.flatMap encode ++ t).length - ((as.drop k).flatMap encode ++ t).length =
      offset encode as k := by
  rw [flatMap_split encode as k, List.append_assoc, List.length_append, Nat.add_sub_cancel, offset]

/-- What lies between two words. -/
theorem take_offset_sub (as : List α) (t : List β) {i j : ℕ} (h : i ≤ j) :
    ((as.flatMap encode ++ t).drop (offset encode as i)).take
        (offset encode as j - offset encode as i) =
      ((as.drop i).take (j - i)).flatMap encode := by
  obtain ⟨n, rfl⟩ := Nat.exists_eq_add_of_le h
  rw [drop_offset, offset_add, Nat.add_sub_cancel_left, Nat.add_sub_cancel_left,
    flatMap_split encode (as.drop i) n, List.append_assoc, offset, List.take_left]

/-- Every place is within a word. -/
theorem exists_place {n : ℕ} (hn : n < (as.flatMap encode).length) :
    ∃ k j, ∃ hk : k < as.length, j < (encode as[k]).length ∧ n = offset encode as k + j := by
  induction as generalizing n with
  | nil => exact absurd hn (Nat.not_lt_zero n)
  | cons a as ih =>
    rw [List.flatMap_cons, List.length_append] at hn
    rcases Nat.lt_or_ge n (encode a).length with hlt | hle
    · exact ⟨0, n, Nat.succ_pos _, hlt, (Nat.zero_add n).symm⟩
    · obtain ⟨k, j, hk, hj, hplace⟩ := ih (n := n - (encode a).length) (by omega)
      have hoffset : offset encode (a :: as) (k + 1) = (encode a).length + offset encode as k := by
        rw [offset, offset, List.take_succ_cons, List.flatMap_cons, List.length_append]
      exact ⟨k + 1, j, Nat.succ_lt_succ hk, hj, by omega⟩

theorem drop_offset_add (encode : α → List β) (t : List β) {k j : ℕ} (hk : k < as.length)
    (hj : j ≤ (encode as[k]).length) :
    (as.flatMap encode ++ t).drop (offset encode as k + j) =
      (encode as[k]).drop j ++ ((as.drop (k + 1)).flatMap encode ++ t) := by
  rw [← List.drop_drop, drop_offset, List.drop_eq_getElem_cons hk, List.flatMap_cons,
    List.append_assoc, List.drop_append_of_le_length hj]

/-! ### Beginnings -/

variable {len : β → ℕ}

/-- No word is the beginning of another. -/
theorem append_prefix_iff {v w r r' : List β} (hv : IsWord len v) (hw : IsWord len w) :
    v ++ r <+: w ++ r' ↔ v = w ∧ r <+: r' := by
  constructor
  · intro h
    obtain ⟨b, v', rfl, hlen⟩ := hv
    obtain ⟨b', w', rfl, hlen'⟩ := hw
    obtain rfl : b = b' := (List.cons_prefix_cons.mp h).1
    obtain ⟨s, hs⟩ := h
    rw [List.append_assoc] at hs
    obtain ⟨heq, hrest⟩ := List.append_inj hs (hlen.symm.trans hlen')
    exact ⟨heq, s, hrest⟩
  · rintro ⟨rfl, h⟩
    exact List.prefix_append_right_inj v |>.mpr h

/-- What begins no word is no beginning of a list of words. -/
theorem not_prefix_tail {w r : List β} (hw : IsWord len w) (ht : ∀ b ∈ t.head?, len b = 0) :
    ¬w ++ r <+: t := by
  obtain ⟨b, w', rfl, hlen⟩ := hw
  intro h
  obtain ⟨s, rfl⟩ := h
  have hzero : len b = 0 := ht b rfl
  rw [hlen] at hzero
  exact absurd hzero (Nat.succ_ne_zero _)

/-- **Words begin with words.** -/
theorem flatMap_prefix_iff (has : ∀ a ∈ as, IsWord len (encode a))
    (hbs : ∀ b ∈ bs, IsWord len (encode b)) (ht : ∀ b ∈ t.head?, len b = 0)
    (hinj : ∀ a ∈ as, ∀ b ∈ bs, encode a = encode b → a = b) :
    as.flatMap encode <+: bs.flatMap encode ++ t ↔ as <+: bs := by
  induction as generalizing bs with
  | nil => exact iff_of_true List.nil_prefix List.nil_prefix
  | cons a as ih =>
    have ha := has a List.mem_cons_self
    rw [List.flatMap_cons]
    cases bs with
    | nil =>
      rw [List.flatMap_nil, List.nil_append]
      refine iff_of_false (not_prefix_tail ha ht) fun h => ?_
      exact absurd (List.prefix_nil.mp h) (List.cons_ne_nil a as)
    | cons b bs =>
      have hrest := ih (fun a ha => has a (List.mem_cons_of_mem _ ha))
        (fun b hb => hbs b (List.mem_cons_of_mem _ hb)) fun a ha b hb =>
        hinj a (List.mem_cons_of_mem _ ha) b (List.mem_cons_of_mem _ hb)
      have heq : encode a = encode b ↔ a = b :=
        ⟨hinj a List.mem_cons_self b List.mem_cons_self, congrArg encode⟩
      rw [List.flatMap_cons, List.append_assoc,
        append_prefix_iff ha (hbs b List.mem_cons_self), hrest, heq, List.cons_prefix_cons]

/-- Words one behind the other are read in one way. -/
theorem flatMap_inj (has : ∀ a ∈ as, IsWord len (encode a)) (hbs : ∀ b ∈ bs, IsWord len (encode b))
    (hinj : ∀ a ∈ as, ∀ b ∈ bs, encode a = encode b → a = b)
    (h : as.flatMap encode = bs.flatMap encode) : as = bs := by
  have hle : as <+: bs := by
    rw [← flatMap_prefix_iff (t := []) has hbs nofun hinj, List.append_nil, h]
  have hge : bs <+: as := by
    rw [← flatMap_prefix_iff (t := []) hbs has nofun fun b hb a ha heq =>
      (hinj a ha b hb heq.symm).symm, List.append_nil, h]
  exact hle.eq_of_length (le_antisymm hle.length_le hge.length_le)

end ElastosCar.Code
