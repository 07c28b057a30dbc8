import Mathlib

/-!
# Scanning a code of variable length

A scan over a list goes from each element that begins a word to the element behind the word; the
first element says how long the word is. It stops at an element that begins no word, one of length
zero, and at a word that does not end before the list does. `passes` is what is left of the list at
each of the words, and `stop` where the scan stops.

A list of code words one behind the other, with an element behind them that begins none, is scanned
word by word (`map_passes_flatMap`).
-/

namespace ElastosCar.Scan

variable {α β : Type} (len : β → ℕ)

/-- The scan over a list that begins with `k` elements of a word, or else at a word. -/
def passesFrom : ℕ → List β → List (List β)
  | _, [] => []
  | k + 1, _ :: l => passesFrom k l
  | 0, b :: l =>
    if len b ≠ 0 ∧ len b ≤ l.length then (b :: l) :: passesFrom (len b - 1) l else []

/-- The list from each of the words on. -/
def passes (l : List β) : List (List β) := passesFrom len 0 l

def stopFrom : ℕ → List β → List β
  | _, [] => []
  | k + 1, _ :: l => stopFrom k l
  | 0, b :: l => if len b ≠ 0 ∧ len b ≤ l.length then stopFrom (len b - 1) l else b :: l

/-- The list from where the scan stops. -/
def stop (l : List β) : List β := stopFrom len 0 l

variable {len} {l t : List β} {b : β}

theorem passesFrom_eq (k : ℕ) (l : List β) : passesFrom len k l = passes len (l.drop k) := by
  induction l generalizing k with
  | nil =>
    rw [List.drop_nil]
    cases k <;> rfl
  | cons b l ih =>
    cases k with
    | zero => rfl
    | succ k => exact ih k

theorem stopFrom_eq (k : ℕ) (l : List β) : stopFrom len k l = stop len (l.drop k) := by
  induction l generalizing k with
  | nil =>
    rw [List.drop_nil]
    cases k <;> rfl
  | cons b l ih =>
    cases k with
    | zero => rfl
    | succ k => exact ih k

theorem drop_pred {k : ℕ} (h : k ≠ 0) : (b :: l).drop k = l.drop (k - 1) := by
  obtain ⟨k, rfl⟩ := Nat.exists_eq_succ_of_ne_zero h
  rfl

/-- The scan goes on behind the word. -/
theorem passes_cons (h : len b ≠ 0 ∧ len b ≤ l.length) :
    passes len (b :: l) = (b :: l) :: passes len ((b :: l).drop (len b)) := by
  rw [passes, passesFrom, if_pos h, passesFrom_eq, drop_pred h.1]

theorem passes_cons_of_not (h : ¬ (len b ≠ 0 ∧ len b ≤ l.length)) : passes len (b :: l) = [] := by
  rw [passes, passesFrom, if_neg h]

theorem stop_cons (h : len b ≠ 0 ∧ len b ≤ l.length) :
    stop len (b :: l) = stop len ((b :: l).drop (len b)) := by
  rw [stop, stopFrom, if_pos h, stopFrom_eq, drop_pred h.1]

/-- **Induction along a scan.** -/
theorem scan_induction (len : β → ℕ) {P : List β → Prop} (nil : P [])
    (word : ∀ b l, len b ≠ 0 ∧ len b ≤ l.length → P ((b :: l).drop (len b)) → P (b :: l))
    (last : ∀ b l, ¬ (len b ≠ 0 ∧ len b ≤ l.length) → P (b :: l)) (l : List β) : P l := by
  induction hn : l.length using Nat.strong_induction_on generalizing l with
  | h n ih =>
    cases l with
    | nil => exact nil
    | cons b l =>
      by_cases h : len b ≠ 0 ∧ len b ≤ l.length
      · refine word b l h (ih _ ?_ _ rfl)
        rw [← hn, List.length_drop, List.length_cons]
        omega
      · exact last b l h

theorem length_passes_lt (h : l ≠ []) : (passes len l).length < l.length := by
  induction l using scan_induction len with
  | nil => exact absurd rfl h
  | word b l hb ih =>
    have hne : (b :: l).drop (len b) ≠ [] := by
      intro hnil
      have hlength := congrArg List.length hnil
      rw [List.length_drop, List.length_cons, List.length_nil] at hlength
      omega
    have hlt := ih hne
    rw [List.length_drop] at hlt
    rw [passes_cons hb, List.length_cons]
    omega
  | last b l hb =>
    rw [passes_cons_of_not hb]
    exact Nat.succ_pos _

/-- The scan comes to words. -/
theorem exists_of_mem_passes {r : List β} (h : r ∈ passes len l) :
    ∃ b r', r = b :: r' ∧ len b ≠ 0 ∧ len b ≤ r'.length := by
  induction l using scan_induction len with
  | nil => exact absurd h List.not_mem_nil
  | word b l hb ih =>
    rw [passes_cons hb] at h
    rcases List.mem_cons.mp h with rfl | h
    · exact ⟨b, l, rfl, hb⟩
    · exact ih h
  | last b l hb =>
    rw [passes_cons_of_not hb] at h
    exact absurd h List.not_mem_nil

/-- The last element belongs to no word. -/
theorem length_passes_concat (l : List β) (b b' : β) :
    (passes len (l ++ [b])).length = (passes len (l ++ [b'])).length := by
  induction hn : l.length using Nat.strong_induction_on generalizing l with
  | h n ih =>
    have hnil : ∀ b, passes len ([] ++ [b]) = [] := by
      intro b
      refine passes_cons_of_not fun h => ?_
      exact h.1 (Nat.le_zero.mp h.2)
    cases l with
    | nil => rw [hnil, hnil]
    | cons c l =>
      have hlength : ∀ b, (l ++ [b]).length = l.length + 1 := fun b => List.length_append
      by_cases h : len c ≠ 0 ∧ len c ≤ l.length + 1
      · have hdrop : ∀ b, passes len (c :: l ++ [b]) =
            (c :: l ++ [b]) :: passes len ((c :: l).drop (len c) ++ [b]) := by
          intro b
          rw [List.cons_append, passes_cons (by rwa [hlength]), ← List.cons_append,
            List.drop_append_of_le_length h.2]
        rw [hdrop, hdrop, List.length_cons, List.length_cons]
        refine congrArg (· + 1) (ih _ ?_ _ rfl)
        rw [← hn, List.length_drop, List.length_cons]
        omega
      · rw [List.cons_append, List.cons_append, passes_cons_of_not (by rwa [hlength]),
          passes_cons_of_not (by rwa [hlength])]

/-- The scan takes as many steps as it can only over words of one element. -/
theorem length_passes_concat_eq_iff (l : List β) (b : β) :
    (passes len (l ++ [b])).length = l.length ↔ ∀ c ∈ l, len c = 1 := by
  induction l with
  | nil =>
    refine iff_of_true ?_ (fun c hc => absurd hc List.not_mem_nil)
    rw [List.nil_append, passes_cons_of_not (by simp only [List.length_nil]; omega)]
    rfl
  | cons c l ih =>
    have hlength : (l ++ [b]).length = l.length + 1 := List.length_append
    rw [List.cons_append, List.length_cons, List.forall_mem_cons]
    by_cases h : len c ≠ 0 ∧ len c ≤ (l ++ [b]).length
    · rw [passes_cons h, List.length_cons, Nat.add_right_cancel_iff]
      by_cases hone : len c = 1
      · rw [hone, List.drop_one, List.tail_cons, ih]
        exact ⟨fun h => ⟨rfl, h⟩, And.right⟩
      · refine iff_of_false ?_ fun h => hone h.1
        -- a longer word leaves too little for the steps behind it
        have hdrop : ((c :: (l ++ [b])).drop (len c)).length = l.length + 2 - len c := by
          rw [List.length_drop, List.length_cons, hlength]
        have hlt : (passes len ((c :: (l ++ [b])).drop (len c))).length < _ :=
          length_passes_lt (List.ne_nil_of_length_pos (by omega))
        omega
    · rw [passes_cons_of_not h]
      exact iff_of_false (Nat.succ_ne_zero _).symm fun hone => h (by omega)

/-! ### Code words -/

/-- A code word: its first element tells its length. -/
def IsWord (len : β → ℕ) (w : List β) : Prop := ∃ b r, w = b :: r ∧ len b = w.length

variable {encode : α → List β} {as : List α}

/-- The scan over a word and what is behind it. -/
theorem passes_word {w : List β} (h : IsWord len w) (ht : t ≠ []) :
    passes len (w ++ t) = (w ++ t) :: passes len t ∧ stop len (w ++ t) = stop len t := by
  obtain ⟨b, r, rfl, hlen⟩ := h
  have hpos := List.length_pos_iff.mpr ht
  have hb : len b ≠ 0 ∧ len b ≤ (r ++ t).length := by
    rw [hlen, List.length_cons, List.length_append]
    omega
  have hdrop : (b :: (r ++ t)).drop (len b) = t := by
    rw [hlen, ← List.cons_append]
    exact List.drop_left
  rw [List.cons_append, passes_cons hb, stop_cons hb, hdrop]
  exact ⟨rfl, rfl⟩

theorem flatMap_append_ne_nil (ht : t ≠ []) : as.flatMap encode ++ t ≠ [] :=
  List.append_ne_nil_of_right_ne_nil _ ht

/-- **A list of code words** is scanned word by word, up to what begins none. -/
theorem map_passes_flatMap {γ : Type} {decode : List β → γ} {value : α → γ} (ht : t ≠ [])
    (hpass : passes len t = []) (hword : ∀ a ∈ as, IsWord len (encode a))
    (hdecode : ∀ a ∈ as, ∀ r, decode (encode a ++ r) = value a) :
    (passes len (as.flatMap encode ++ t)).map decode = as.map value := by
  induction as with
  | nil => rw [List.flatMap_nil, List.nil_append, hpass, List.map_nil, List.map_nil]
  | cons a as ih =>
    have hrest := ih (fun a ha => hword a (List.mem_cons_of_mem _ ha))
      fun a ha => hdecode a (List.mem_cons_of_mem _ ha)
    rw [List.flatMap_cons, List.append_assoc,
      (passes_word (hword a List.mem_cons_self) (flatMap_append_ne_nil ht)).1, List.map_cons,
      hdecode a List.mem_cons_self, hrest, List.map_cons]

/-- Where a scan over code words has passed `k` of them. -/
theorem getElem?_passes_flatMap (ht : t ≠ []) (hpass : passes len t = []) (hstop : stop len t = t)
    (hword : ∀ a ∈ as, IsWord len (encode a)) {k : ℕ} (hk : k ≤ as.length) :
    (passes len (as.flatMap encode ++ t) ++ [stop len (as.flatMap encode ++ t)])[k]? =
      some ((as.drop k).flatMap encode ++ t) := by
  induction as generalizing k with
  | nil =>
    obtain rfl := Nat.le_zero.mp hk
    rw [List.flatMap_nil, List.nil_append, hpass, hstop]
    rfl
  | cons a as ih =>
    have hne : as.flatMap encode ++ t ≠ [] := flatMap_append_ne_nil ht
    obtain ⟨hpasses, hends⟩ := passes_word (hword a List.mem_cons_self) hne
    rw [List.flatMap_cons, List.append_assoc, hpasses, hends, List.cons_append]
    cases k with
    | zero => rw [List.getElem?_cons_zero, List.drop_zero, List.flatMap_cons, List.append_assoc]
    | succ k =>
      rw [List.getElem?_cons_succ, List.drop_succ_cons]
      exact ih (fun a ha => hword a (List.mem_cons_of_mem _ ha)) (Nat.le_of_succ_le_succ hk)

theorem length_passes_flatMap (ht : t ≠ []) (hpass : passes len t = [])
    (hword : ∀ a ∈ as, IsWord len (encode a)) :
    (passes len (as.flatMap encode ++ t)).length = as.length := by
  have hmap : (passes len (as.flatMap encode ++ t)).map (fun _ => ()) = as.map fun _ => () :=
    map_passes_flatMap ht hpass hword fun _ _ _ => rfl
  simpa using congrArg List.length hmap

end ElastosCar.Scan
