import ElastosCar.Lib.Bytes

/-!
# Patching words of an image in place

An image is a block of bytes that has 32-bit words at some offsets, its slots. `patch f slots` replaces
the word in each slot by its value under `f`, one after the other, as a relocation does.

* If the slots are apart, `word_patch_of_mem` and `patch_apply_of_clear` say what each byte is
  afterwards, and `patch_patch` that patching with an inverse gives the image back.
* A relocation finds its slots by following the words it has just replaced. `Patches f ro d act slots` says
  that the program `act` patches these slots when others were patched before it; it may read what is
  in `ro`, the bytes that no slot touches. The rules `Patches.seq`, `Patches.follow`, `Patches.ite` and
  `Patches.countUp` go through such a program.
-/

namespace ElastosCar

namespace Block

/-! ### Words of a block -/

/-- The little-endian 32-bit word at an offset. -/
def word (d : Block) (o : ℕ) : UInt32 := UInt32.ofNat (ofLE (load d o 4))

/-- The little-endian 16-bit word at an offset. -/
def half (d : Block) (o : ℕ) : UInt16 := UInt16.ofNat (ofLE (load d o 2))

/-- Write a 32-bit word. -/
def setWord (d : Block) (o : ℕ) (v : UInt32) : Block := store d o (toLE 4 v.toNat)

variable {d e : Block} {o p i : ℕ} {v : UInt32}

@[simp]
theorem word_setWord_self (d : Block) (o : ℕ) (v : UInt32) : (d.setWord o v).word o = v := by
  have hload := load_store_self d o (toLE 4 v.toNat)
  rw [length_toLE] at hload
  rw [word, setWord, hload, ofLE_toLE_of_lt (by simpa using v.toNat_lt), UInt32.ofNat_toNat]

theorem load_setWord_of_disjoint {n : ℕ} (h : o + n ≤ p ∨ p + 4 ≤ o) (v : UInt32) :
    load (d.setWord p v) o n = load d o n := by
  refine load_store_of_disjoint d ?_
  rwa [length_toLE]

theorem setWord_apply_of_clear (h : i < o ∨ o + 4 ≤ i) : d.setWord o v i = d i := by
  rw [setWord, store, length_toLE, if_neg (by omega)]

/-- The bytes of a word are those of its value. -/
theorem load_eq_toLE_word (d : Block) (o : ℕ) : load d o 4 = toLE 4 (d.word o).toNat := by
  have hlt : ofLE (load d o 4) < 4294967296 := by simpa using ofLE_lt (load d o 4)
  rw [word, UInt32.toNat_ofNat_of_lt' hlt]
  have h := toLE_ofLE (load d o 4)
  rw [length_load] at h
  exact h.symm

theorem apply_eq_of_word_eq (h : d.word o = e.word o) (hle : o ≤ i) (hlt : i < o + 4) : d i = e i := by
  have hload : load d o 4 = load e o 4 := by rw [load_eq_toLE_word, load_eq_toLE_word, h]
  obtain ⟨k, rfl⟩ := Nat.exists_eq_add_of_le hle
  have hk : k < 4 := by omega
  have hget := congrArg (fun bs => bs.getD k 0) hload
  simpa [load, hk] using hget

end Block

/-! ### Patching -/

/-- Two ranges of bytes have none in common. -/
def Apart (p a q b : ℕ) : Prop := p + a ≤ q ∨ q + b ≤ p

theorem Apart.symm {p a q b : ℕ} (h : Apart p a q b) : Apart q b p a := Or.symm h

/-- Slots that have no byte in common. -/
def SlotsApart (slots : List ℕ) : Prop := slots.Pairwise fun p q => Apart p 4 q 4

/-- Replace the word in each slot. -/
def patch (f : UInt32 → UInt32) (slots : List ℕ) (d : Block) : Block :=
  slots.foldl (fun d p => d.setWord p (f (d.word p))) d

section Patch

variable {f g : UInt32 → UInt32} {d : Block} {slots before after : List ℕ} {p o n i : ℕ}

@[simp]
theorem patch_nil (f : UInt32 → UInt32) (d : Block) : patch f [] d = d := rfl

theorem patch_append (f : UInt32 → UInt32) (before after : List ℕ) (d : Block) :
    patch f (before ++ after) d = patch f after (patch f before d) :=
  List.foldl_append

theorem patch_concat (f : UInt32 → UInt32) (slots : List ℕ) (p : ℕ) (d : Block) :
    patch f (slots ++ [p]) d = (patch f slots d).setWord p (f ((patch f slots d).word p)) :=
  patch_append f slots [p] d

/-- What no slot touches stays. -/
theorem load_patch_of_apart (h : ∀ p ∈ slots, Apart p 4 o n) :
    load (patch f slots d) o n = load d o n := by
  induction slots generalizing d with
  | nil => rfl
  | cons p slots ih =>
    obtain ⟨hp, hslots⟩ := List.forall_mem_cons.mp h
    exact (ih hslots).trans (Block.load_setWord_of_disjoint hp.symm _)

theorem word_patch_of_apart (h : ∀ p ∈ slots, Apart p 4 o 4) : (patch f slots d).word o = d.word o := by
  rw [Block.word, load_patch_of_apart h, ← Block.word]

theorem patch_apply_of_clear (h : ∀ p ∈ slots, i < p ∨ p + 4 ≤ i) : patch f slots d i = d i := by
  induction slots generalizing d with
  | nil => rfl
  | cons p slots ih =>
    obtain ⟨hp, hslots⟩ := List.forall_mem_cons.mp h
    exact (ih hslots).trans (Block.setWord_apply_of_clear hp)

/-- A slot is patched once. -/
theorem word_patch_of_mem (h : SlotsApart slots) (hp : p ∈ slots) :
    (patch f slots d).word p = f (d.word p) := by
  obtain ⟨before, after, rfl⟩ := List.append_of_mem hp
  obtain ⟨-, hcons, hbefore⟩ := List.pairwise_append.mp h
  have hafter := (List.pairwise_cons.mp hcons).1
  have hrest : ∀ q ∈ after, Apart q 4 p 4 := fun q hq => (hafter q hq).symm
  have hfirst : ∀ q ∈ before, Apart q 4 p 4 := fun q hq => hbefore q hq p List.mem_cons_self
  rw [patch_append]
  change (patch f after ((patch f before d).setWord p (f ((patch f before d).word p)))).word p = _
  rw [word_patch_of_apart hrest, Block.word_setWord_self, word_patch_of_apart hfirst]

/-- Blocks with the same words in the slots and the same bytes beside them. -/
theorem block_ext {e : Block} (slots : List ℕ) (hword : ∀ p ∈ slots, d.word p = e.word p)
    (hclear : ∀ i, (∀ p ∈ slots, i < p ∨ p + 4 ≤ i) → d i = e i) : d = e := by
  funext i
  by_cases h : ∃ p ∈ slots, p ≤ i ∧ i < p + 4
  · obtain ⟨p, hp, hle, hlt⟩ := h
    exact Block.apply_eq_of_word_eq (hword p hp) hle hlt
  · refine hclear i fun p hp => ?_
    by_contra hin
    exact h ⟨p, hp, by omega, by omega⟩

/-- **Patching back.** -/
theorem patch_patch (h : SlotsApart slots) (hinv : ∀ v, g (f v) = v) (d : Block) :
    patch g slots (patch f slots d) = d := by
  refine block_ext slots (fun p hp => ?_) fun i hi => ?_
  · rw [word_patch_of_mem h hp, word_patch_of_mem h hp, hinv]
  · rw [patch_apply_of_clear hi, patch_apply_of_clear hi]

end Patch

/-! ### Images at an address -/

/-- The offset of an address in an image that is loaded at `base`. -/
def offsetAt (base a : UInt32) : ℕ := (a - base).toNat

/-- `k` bytes behind the address of a pointer's value. -/
theorem offsetAt_add {v : UInt32} {k : ℕ} (base : UInt32) (h : v.toNat + k < 4294967296) :
    offsetAt base (base + v + UInt32.ofNat k) = v.toNat + k := by
  have hlt : k < UInt32.size := Nat.lt_of_le_of_lt (Nat.le_add_left _ _) h
  have hk : (UInt32.ofNat k).toNat = k := UInt32.toNat_ofNat_of_lt' hlt
  rw [offsetAt, UInt32.add_assoc, UInt32.add_comm base, UInt32.add_sub_cancel, UInt32.toNat_add, hk,
    Nat.mod_eq_of_lt h]

theorem offsetAt_base_add (base v : UInt32) : offsetAt base (base + v) = v.toNat := by
  rw [offsetAt, UInt32.add_comm, UInt32.add_sub_cancel]

/-- The bytes of an image as a block. -/
def image (bs : List UInt8) : Block := fun i => bs.getD i 0

theorem load_image (bs : List UInt8) : load (image bs) 0 bs.length = bs := by
  refine List.ext_getElem (by simp) fun i h h' => ?_
  simp only [load, image, List.getElem_map, List.getElem_range, Nat.zero_add]
  exact List.getD_eq_getElem _ _ h'

theorem image_load {d : Block} {n : ℕ} (h : ∀ i, n ≤ i → d i = 0) : image (load d 0 n) = d := by
  funext i
  by_cases hi : i < n
  · rw [image, List.getD_eq_getElem _ _ (by simpa using hi)]
    simp [load]
  · rw [image, List.getD_eq_default _ _ (by simpa using hi), h i (by omega)]

theorem image_of_le {bs : List UInt8} {i : ℕ} (h : bs.length ≤ i) : image bs i = 0 :=
  List.getD_eq_default _ _ h

/-! ### Counted loops -/

section CountUp

variable {σ : Type}

/-- The rounds of `for (; i < bound; i++)`, the bound read again in each. -/
def rounds (bound : σ → UInt16) (body : ℕ → σ → σ) : ℕ → ℕ → σ → σ
  | 0, _, s => s
  | fuel + 1, i, s => if i < (bound s).toNat then rounds bound body fuel (i + 1) (body i s) else s

/-- `for (i = 0; i < bound; i++)` with a bound of 16 bits, which is reached in fewer than `2^16` rounds. -/
def countUp (bound : σ → UInt16) (body : ℕ → σ → σ) : σ → σ := rounds bound body 65536 0

theorem rounds_spec {bound : σ → UInt16} {body : ℕ → σ → σ} {n : ℕ} {I : ℕ → σ → Prop}
    (hbound : ∀ i s, I i s → (bound s).toNat = n)
    (hbody : ∀ i s, i < n → I i s → I (i + 1) (body i s)) {fuel i : ℕ} {s : σ}
    (hi : i ≤ n) (hfuel : n ≤ i + fuel) (h : I i s) : I n (rounds bound body fuel i s) := by
  induction fuel generalizing i s with
  | zero =>
    obtain rfl : i = n := by omega
    exact h
  | succ fuel ih =>
    rw [rounds, hbound i s h]
    by_cases hlt : i < n
    · rw [if_pos hlt]
      exact ih hlt (by omega) (hbody i s hlt h)
    · rw [if_neg hlt]
      obtain rfl : i = n := by omega
      exact h

/-- **The rule of the loop**: an invariant that fixes the bound. -/
theorem countUp_spec {bound : σ → UInt16} {body : ℕ → σ → σ} {n : UInt16} {I : ℕ → σ → Prop}
    (hbound : ∀ i s, I i s → bound s = n)
    (hbody : ∀ i s, i < n.toNat → I i s → I (i + 1) (body i s)) {s : σ} (h : I 0 s) :
    I n.toNat (countUp bound body s) := by
  have hlt := n.toNat_lt
  exact rounds_spec (fun i s hs => congrArg UInt16.toNat (hbound i s hs)) hbody (Nat.zero_le _)
    (by omega) h

end CountUp

/-! ### Programs that patch -/

/-- The slots can be patched: they are apart from one another and from what is only read. -/
structure Fits (ro : Set ℕ) (slots : List ℕ) : Prop where
  apart : SlotsApart slots
  clear : ∀ p ∈ slots, ∀ i ∈ ro, i < p ∨ p + 4 ≤ i

section Fits

variable {ro : Set ℕ} {slots slots' : List ℕ} {f : UInt32 → UInt32} {d : Block} {o n : ℕ}

theorem Fits.sublist (h : Fits ro slots) (hsub : slots'.Sublist slots) : Fits ro slots' :=
  ⟨h.apart.sublist hsub, fun p hp => h.clear p (hsub.subset hp)⟩

theorem Fits.perm (h : Fits ro slots) (hperm : slots.Perm slots') : Fits ro slots' :=
  ⟨(hperm.pairwise_iff fun hab => hab.symm).mp h.apart,
    fun p hp => h.clear p (hperm.mem_iff.mpr hp)⟩

theorem Fits.left {l l' : List ℕ} (h : Fits ro (l ++ l')) : Fits ro l :=
  h.sublist (List.sublist_append_left l l')

/-- What is only read stays. -/
theorem Fits.load_patch (h : Fits ro slots) (hro : ∀ i, o ≤ i → i < o + n → i ∈ ro) :
    load (patch f slots d) o n = load d o n :=
  load_congr fun i hle hlt => patch_apply_of_clear fun p hp => h.clear p hp i (hro i hle hlt)

theorem Fits.half_patch (h : Fits ro slots) (hro : ∀ i, o ≤ i → i < o + 2 → i ∈ ro) :
    (patch f slots d).half o = d.half o := by
  rw [Block.half, h.load_patch hro, ← Block.half]

end Fits

/-- The program patches these slots of the image, whatever others were patched before. -/
def Patches (f : UInt32 → UInt32) (ro : Set ℕ) (d : Block) (act : Block → Block)
    (slots : List ℕ) : Prop :=
  ∀ done, Fits ro (done ++ slots) → act (patch f done d) = patch f (done ++ slots) d

namespace Patches

variable {f : UInt32 → UInt32} {ro : Set ℕ} {d : Block} {act act' : Block → Block}
  {slots slots' : List ℕ} {p : ℕ}

theorem eq_patch (h : Patches f ro d act slots) (hfits : Fits ro slots) : act d = patch f slots d :=
  h [] hfits

theorem skip : Patches f ro d id [] := by
  intro done _
  rw [List.append_nil]
  rfl

theorem seq (h : Patches f ro d act slots) (h' : Patches f ro d act' slots') :
    Patches f ro d (fun d => act' (act d)) (slots ++ slots') := by
  intro done hfits
  rw [← List.append_assoc] at hfits ⊢
  change act' (act (patch f done d)) = _
  rw [h done hfits.left, h' _ hfits]

theorem slot (p : ℕ) : Patches f ro d (fun d => d.setWord p (f (d.word p))) [p] := by
  intro done _
  exact (patch_concat f done p d).symm

/-- Patch a slot and go on with its new value. -/
theorem follow {k : UInt32 → Block → Block} (h : Patches f ro d (k (f (d.word p))) slots) :
    Patches f ro d (fun d => k ((d.setWord p (f (d.word p))).word p) (d.setWord p (f (d.word p))))
      (p :: slots) := by
  intro done hfits
  have heq : done ++ p :: slots = done ++ [p] ++ slots := by rw [List.append_assoc]; rfl
  rw [heq] at hfits ⊢
  have hword : (patch f (done ++ [p]) d).word p = f (d.word p) :=
    word_patch_of_mem hfits.left.apart (List.mem_append_right _ List.mem_cons_self)
  rw [patch_concat] at hword
  change k (((patch f done d).setWord p (f ((patch f done d).word p))).word p)
    ((patch f done d).setWord p (f ((patch f done d).word p))) = _
  rw [hword, ← patch_concat]
  exact h _ hfits

/-- A branch on something that the patches made so far leave alone. -/
theorem ite {c : Block → Bool} (h : ∀ done, Fits ro (done ++ slots) → c (patch f done d) = c d)
    (hact : c d = true → Patches f ro d act slots) (hskip : c d = false → slots = []) :
    Patches f ro d (fun d => if c d then act d else d) slots := by
  intro done hfits
  change (if c (patch f done d) then act (patch f done d) else patch f done d) = _
  rw [h done hfits]
  cases hc : c d with
  | true => exact hact hc done hfits
  | false =>
    rw [hskip hc, List.append_nil]
    rfl

/-- A loop whose bound is only read. -/
theorem countUp {o : ℕ} {body : ℕ → Block → Block} {part : ℕ → List ℕ}
    (ho : ∀ i, o ≤ i → i < o + 2 → i ∈ ro)
    (h : ∀ i < (d.half o).toNat, Patches f ro d (body i) (part i)) :
    Patches f ro d (ElastosCar.countUp (fun d => d.half o) body)
      ((List.range (d.half o).toNat).flatMap part) := by
  intro done hfits
  let upTo : ℕ → List ℕ := fun i => done ++ (List.range i).flatMap part
  have hsub : ∀ i ≤ (d.half o).toNat, Fits ro (upTo i) := fun i hi =>
    hfits.sublist ((List.Sublist.refl done).append ((List.range_sublist.mpr hi).flatMap part))
  let I : ℕ → Block → Prop := fun i s => i ≤ (d.half o).toNat ∧ s = patch f (upTo i) d
  have key : I (d.half o).toNat (ElastosCar.countUp (fun d => d.half o) body (patch f done d)) := by
    refine countUp_spec (I := I) (fun i s ⟨hi, hs⟩ => hs ▸ (hsub i hi).half_patch ho)
      (fun i s hlt ⟨_, hs⟩ => ⟨hlt, ?_⟩) ⟨Nat.zero_le _, by simp [upTo]⟩
    have hnext : upTo (i + 1) = upTo i ++ part i := by
      simp only [upTo, List.range_succ, List.flatMap_append, List.flatMap_singleton,
        List.append_assoc]
    rw [hs, hnext]
    exact h i hlt _ (hnext ▸ hsub (i + 1) hlt)
  exact key.2

end Patches

/-! ### Arrays of an image -/

/-- The layout of the elements of an array: the size, where the pointers are, and the ranges of data. -/
structure Elem where
  size : ℕ
  ptrs : List ℕ := []
  data : List (ℕ × ℕ) := []
deriving DecidableEq, Repr

/-- Pointers and data are inside the element, the pointers apart from one another and from the data. -/
def Elem.Ok (e : Elem) : Prop :=
  (∀ k ∈ e.ptrs, k + 4 ≤ e.size) ∧ (∀ c ∈ e.data, c.1 + c.2 ≤ e.size) ∧
    (e.ptrs.Pairwise fun k l => k + 4 ≤ l ∨ l + 4 ≤ k) ∧
    ∀ k ∈ e.ptrs, ∀ c ∈ e.data, k + 4 ≤ c.1 ∨ c.1 + c.2 ≤ k

instance (e : Elem) : Decidable e.Ok := by unfold Elem.Ok; infer_instance

/-- An array in an image. -/
structure ArrayAt where
  elem : Elem
  start : ℕ
  count : ℕ
deriving DecidableEq, Repr

namespace ArrayAt

def bytes (a : ArrayAt) : ℕ := a.elem.size * a.count

/-- The slots of its pointers. -/
def slots (a : ArrayAt) : List ℕ :=
  (List.range a.count).flatMap fun i => a.elem.ptrs.map fun k => a.start + a.elem.size * i + k

/-- The bytes of its data. -/
def data (a : ArrayAt) : Set ℕ :=
  { b | ∃ i < a.count, ∃ c ∈ a.elem.data,
    a.start + a.elem.size * i + c.1 ≤ b ∧ b < a.start + a.elem.size * i + c.1 + c.2 }

/-- Two arrays share no byte. -/
def Disjoint (a b : ArrayAt) : Prop :=
  a.bytes = 0 ∨ b.bytes = 0 ∨ Apart a.start a.bytes b.start b.bytes

instance (a b : ArrayAt) : Decidable (a.Disjoint b) := by unfold Disjoint Apart; infer_instance

variable {a b : ArrayAt} {p q i j : ℕ}

theorem Disjoint.symm (h : a.Disjoint b) : b.Disjoint a := by
  rcases h with h | h | h
  · exact .inr (.inl h)
  · exact .inl h
  · exact .inr (.inr h.symm)

instance : Std.Symm Disjoint := ⟨fun _ _ h => h.symm⟩

theorem size_mul_succ_le (a : ArrayAt) (h : i < j) : a.elem.size * i + a.elem.size ≤ a.elem.size * j := by
  rw [← Nat.mul_succ]
  exact Nat.mul_le_mul_left _ h

theorem mem_slots : p ∈ a.slots ↔
    ∃ i < a.count, ∃ k ∈ a.elem.ptrs, a.start + a.elem.size * i + k = p := by
  simp only [slots, List.mem_flatMap, List.mem_range, List.mem_map]

theorem inside_of_mem_slots (hok : a.elem.Ok) (h : p ∈ a.slots) :
    a.start ≤ p ∧ p + 4 ≤ a.start + a.bytes := by
  obtain ⟨i, hi, k, hk, rfl⟩ := mem_slots.mp h
  have hsize := hok.1 k hk
  have hle := a.size_mul_succ_le hi
  rw [bytes]
  exact ⟨by omega, by omega⟩

theorem inside_of_mem_data (hok : a.elem.Ok) (h : p ∈ a.data) :
    a.start ≤ p ∧ p < a.start + a.bytes := by
  obtain ⟨i, hi, c, hc, hle, hlt⟩ := h
  have hsize := hok.2.1 c hc
  have hnext := a.size_mul_succ_le hi
  rw [bytes]
  exact ⟨by omega, by omega⟩

/-- Ranges inside two disjoint arrays. -/
theorem Disjoint.apart {n m : ℕ} (h : a.Disjoint b) (hn : 0 < n) (hm : 0 < m)
    (hp : a.start ≤ p ∧ p + n ≤ a.start + a.bytes) (hq : b.start ≤ q ∧ q + m ≤ b.start + b.bytes) :
    Apart p n q m := by
  rcases h with h | h | h | h
  · omega
  · omega
  · exact .inl (by omega)
  · exact .inr (by omega)

theorem slotsApart (hok : a.elem.Ok) : SlotsApart a.slots := by
  refine List.pairwise_flatMap.mpr ⟨fun i _ => ?_, ?_⟩
  · refine List.pairwise_map.mpr (hok.2.2.1.imp fun {k l} h => ?_)
    exact h.imp (fun h => by omega) fun h => by omega
  · refine (List.pairwise_lt_range (n := a.count)).imp fun {i j} hlt => ?_
    intro p hp q hq
    obtain ⟨k, hk, rfl⟩ := List.mem_map.mp hp
    obtain ⟨l, hl, rfl⟩ := List.mem_map.mp hq
    have hsize := hok.1 k hk
    have hle := a.size_mul_succ_le hlt
    exact .inl (by omega)

theorem clear (hok : a.elem.Ok) (hp : p ∈ a.slots) (hi : i ∈ a.data) : i < p ∨ p + 4 ≤ i := by
  obtain ⟨m, hm, k, hk, rfl⟩ := mem_slots.mp hp
  obtain ⟨n, hn, c, hc, hle, hlt⟩ := hi
  have hsize := hok.1 k hk
  have hsize' := hok.2.1 c hc
  rcases Nat.lt_trichotomy m n with hmn | rfl | hmn
  · have h := a.size_mul_succ_le hmn
    exact .inr (by omega)
  · have h := hok.2.2.2 k hk c hc
    omega
  · have h := a.size_mul_succ_le hmn
    exact .inl (by omega)

/-- **The slots of disjoint arrays** can be patched while their data is read. -/
theorem fits {as : List ArrayAt} (hok : ∀ a ∈ as, a.elem.Ok) (hdisj : as.Pairwise Disjoint) :
    Fits { i | ∃ a ∈ as, i ∈ a.data } (as.flatMap slots) := by
  constructor
  · refine List.pairwise_flatMap.mpr ⟨fun a ha => slotsApart (hok a ha), ?_⟩
    refine hdisj.imp_of_mem fun {a b} ha hb h p hp q hq => ?_
    exact h.apart (by decide) (by decide) (inside_of_mem_slots (hok a ha) hp)
      (inside_of_mem_slots (hok b hb) hq)
  · rintro p hp i ⟨b, hb, hi⟩
    obtain ⟨a, ha, hp⟩ := List.mem_flatMap.mp hp
    by_cases hab : a = b
    · exact clear (hok a ha) hp (hab ▸ hi)
    · have h : a.Disjoint b := hdisj.forall ha hb hab
      have hin := inside_of_mem_data (hok b hb) hi
      have h' := h.apart (q := i) (by decide) Nat.one_pos (inside_of_mem_slots (hok a ha) hp) hin
      exact h'.symm.imp (fun h => by omega) fun h => by omega

end ArrayAt

end ElastosCar
