import ElastosCar.Lib.Patch

/-!
# Relocating an image in a buffer

A relocation walks over a copy of an image: it adds the address of the copy to the pointers it
finds, and goes on where they lead. `RelocM` are the programs that do this, as trees of their
accesses, so that one program has two readings.

* `RelocM.run` runs it on a buffer at an address. It fails when an access leaves the buffer or reads
  a byte that was never written.
* `RelocM.Sound` looks at the image alone, whose pointers are offsets still: every access is inside,
  and none meets a pointer that was changed before, except to follow it.

`RelocM.run_of_sound`: on a copy of a sound image the program runs to its end at every address, and
adds the address to the pointers that it finds in the image, to each once. `RelocM.cell_run`: behind
the header, a byte that was never written stays so.
-/

namespace ElastosCar

/-! ### Buffers -/

/-- A buffer on the heap; a byte that was never written is indeterminate. -/
@[ext]
structure HeapBuffer where
  size : ℕ
  cell : ℕ → Option UInt8

namespace HeapBuffer

/-- `new char[n]` -/
def new (n : ℕ) : HeapBuffer := ⟨n, fun _ => none⟩

/-- A buffer that holds the first `n` bytes of a block. -/
def ofBlock (n : ℕ) (d : Block) : HeapBuffer := ⟨n, fun i => if i < n then some (d i) else none⟩

variable (b : HeapBuffer) (o : ℕ)

/-- The range is inside, and each of its bytes was written. -/
def Readable (n : ℕ) : Prop := o + n ≤ b.size ∧ ∀ i < n, (b.cell (o + i)).isSome = true

instance (n : ℕ) : Decidable (b.Readable o n) := inferInstanceAs (Decidable (_ ∧ _))

def read (n : ℕ) : Option (List UInt8) :=
  if b.Readable o n then some (load (fun i => (b.cell i).getD 0) o n) else none

def byte : Option UInt8 := (b.read o 1).map fun bs => UInt8.ofNat (ofLE bs)

def half : Option UInt16 := (b.read o 2).map fun bs => UInt16.ofNat (ofLE bs)

def word : Option UInt32 := (b.read o 4).map fun bs => UInt32.ofNat (ofLE bs)

/-- Write bytes, all of them inside the buffer. -/
def write (bs : List UInt8) : Option HeapBuffer :=
  if o + bs.length ≤ b.size then
    some { b with
      cell := fun i => if o ≤ i ∧ i < o + bs.length then some (bs.getD (i - o) 0) else b.cell i }
  else none

def setWord (v : UInt32) : Option HeapBuffer := b.write o (toLE 4 v.toNat)

variable {b b' : HeapBuffer} {o : ℕ} {n k i : ℕ} {d e : Block} {bs : List UInt8} {v : UInt32}

theorem read_ofBlock (h : o + k ≤ n) : (ofBlock n d).read o k = some (load d o k) := by
  have hcell : ∀ i, o ≤ i → i < o + k → (ofBlock n d).cell i = some (d i) := fun i _ hi =>
    if_pos (by omega)
  have hread : (ofBlock n d).Readable o k :=
    ⟨h, fun i hi => by rw [hcell _ (by omega) (by omega)]; rfl⟩
  rw [read, if_pos hread]
  refine congrArg some (load_congr fun i hle hlt => ?_)
  rw [hcell i hle hlt]
  rfl

theorem word_ofBlock (h : o + 4 ≤ n) : (ofBlock n d).word o = some (d.word o) := by
  rw [word, read_ofBlock h]
  rfl

theorem half_ofBlock (h : o + 2 ≤ n) : (ofBlock n d).half o = some (d.half o) := by
  rw [half, read_ofBlock h]
  rfl

theorem byte_ofBlock (h : o + 1 ≤ n) : (ofBlock n d).byte o = some (d o) := by
  rw [byte, read_ofBlock h]
  simp [load, ofLE]

theorem write_ofBlock (h : o + bs.length ≤ n) :
    (ofBlock n d).write o bs = some (ofBlock n (store d o bs)) := by
  have hin : o + bs.length ≤ (ofBlock n d).size := h
  rw [write, if_pos hin]
  refine congrArg some (HeapBuffer.ext rfl (funext fun i => ?_))
  simp only [ofBlock, store]
  split_ifs <;> first | rfl | omega

theorem setWord_ofBlock (h : o + 4 ≤ n) :
    (ofBlock n d).setWord o v = some (ofBlock n (d.setWord o v)) :=
  write_ofBlock (by rwa [length_toLE])

theorem exists_write (h : o + bs.length ≤ b.size) :
    ∃ b', b.write o bs = some b' ∧ b'.size = b.size :=
  ⟨_, if_pos h, rfl⟩

/-- A write leaves the bytes beside it. -/
theorem cell_of_write (h : b.write o bs = some b') (hi : i < o ∨ o + bs.length ≤ i) :
    b'.cell i = b.cell i := by
  obtain ⟨-, h⟩ := Option.ite_none_right_eq_some.mp h
  rw [← Option.some.inj h]
  exact if_neg (by omega)

/-- What is copied from a block, to the same offsets. -/
theorem cell_of_write_load (h : b.write o (load d o k) = some b') (hle : o ≤ i) (hlt : i < o + k) :
    b'.cell i = some (d i) := by
  obtain ⟨-, h⟩ := Option.ite_none_right_eq_some.mp h
  have hin : o ≤ i ∧ i < o + (load d o k).length := ⟨hle, by rwa [length_load]⟩
  have hget : i - o < (load d o k).length := by omega
  rw [← Option.some.inj h]
  refine (if_pos hin).trans (congrArg some ?_)
  rw [List.getD_eq_getElem _ _ hget]
  simp only [load, List.getElem_map, List.getElem_range]
  rw [Nat.add_sub_cancel' hle]

/-- The copy of a block. -/
theorem write_new (n : ℕ) (d : Block) : (new n).write 0 (load d 0 n) = some (ofBlock n d) := by
  have hin : 0 + (load d 0 n).length ≤ (new n).size := by
    rw [length_load, Nat.zero_add]
    exact Nat.le_refl n
  obtain ⟨b, hb, hsize⟩ := exists_write hin
  rw [hb]
  refine congrArg some (HeapBuffer.ext hsize (funext fun i => ?_))
  by_cases hi : i < n
  · exact (cell_of_write_load hb (Nat.zero_le i) (by omega)).trans (if_pos hi).symm
  · exact (cell_of_write hb (.inr (by rw [length_load]; omega))).trans (if_neg hi).symm

theorem cell_of_setWord (h : b.setWord o v = some b') (hi : i < o ∨ o + 4 ≤ i) :
    b'.cell i = b.cell i :=
  cell_of_write h (by rwa [length_toLE])

/-- A word that can be read has no byte that was never written. -/
theorem beside_of_word (h : b.word o = some v) (hi : b.cell i = none) : i < o ∨ o + 4 ≤ i := by
  obtain ⟨bs, hread, -⟩ := Option.map_eq_some_iff.mp h
  obtain ⟨⟨-, hsome⟩, -⟩ := Option.ite_none_right_eq_some.mp hread
  by_contra hin
  have hcell := hsome (i - o) (by omega)
  rw [Nat.add_sub_cancel' (by omega), hi] at hcell
  exact nomatch hcell

end HeapBuffer

/-! ### Programs that relocate -/

/-- A program that walks over an image with a header of `hdr` bytes, as the tree of its accesses.
Where the program holds a pointer into the image, the tree has its offset. -/
inductive RelocM (hdr : ℕ) (α : Type) : Type
  | ret (a : α)
  /-- read a byte that is no pointer -/
  | byte (o : ℕ) (k : UInt8 → RelocM hdr α)
  | half (o : ℕ) (k : UInt16 → RelocM hdr α)
  /-- compare a pointer with `NULL` -/
  | isNull (o : ℕ) (k : Bool → RelocM hdr α)
  /-- go where a relocated pointer leads -/
  | follow (o : ℕ) (k : ℕ → RelocM hdr α)
  /-- `*p += base` -/
  | add (o : ℕ) (k : RelocM hdr α)
  /-- `*p = NULL`, for a pointer in the header -/
  | clear (o : ℕ) (h : o + 4 ≤ hdr) (k : RelocM hdr α)

namespace RelocM

variable {hdr : ℕ} {α β : Type}

protected def bind : RelocM hdr α → (α → RelocM hdr β) → RelocM hdr β
  | .ret a, f => f a
  | .byte o k, f => .byte o fun v => (k v).bind f
  | .half o k, f => .half o fun v => (k v).bind f
  | .isNull o k, f => .isNull o fun v => (k v).bind f
  | .follow o k, f => .follow o fun v => (k v).bind f
  | .add o k, f => .add o (k.bind f)
  | .clear o h k, f => .clear o h (k.bind f)

instance : Monad (RelocM hdr) where
  pure := .ret
  bind := RelocM.bind

/-- `*p += base` for the pointer at an offset. -/
def relocate (o : ℕ) : RelocM hdr Unit := .add o (.ret ())

/-- `if (*p) *p += base` -/
def relocateIfSet (o : ℕ) : RelocM hdr Unit :=
  .isNull o fun null => if null then .ret () else relocate o

def getByte (o : ℕ) : RelocM hdr UInt8 := .byte o .ret

def getHalf (o : ℕ) : RelocM hdr UInt16 := .half o .ret

def goto (o : ℕ) : RelocM hdr ℕ := .follow o .ret

/-- The rounds of a loop with a bound of 16 bits at an offset, which is read again in each. -/
def rounds (bound : ℕ) (body : ℕ → RelocM hdr Unit) : ℕ → ℕ → RelocM hdr Unit
  | 0, _ => .ret ()
  | fuel + 1, n => .half bound fun v =>
      if n < v.toNat then (body n).bind fun _ => rounds bound body fuel (n + 1) else .ret ()

/-- `for (n = 0; n < bound; n++)` -/
def forUp (bound : ℕ) (body : ℕ → RelocM hdr Unit) : RelocM hdr Unit := rounds bound body 65536 0

/-! ### Running a program on a buffer -/

section Run

-- the address of the buffer
variable (base : UInt32)

def run : RelocM hdr α → HeapBuffer → Option (α × HeapBuffer)
  | .ret a, b => some (a, b)
  | .byte o k, b => (b.byte o).bind fun v => run (k v) b
  | .half o k, b => (b.half o).bind fun v => run (k v) b
  | .isNull o k, b => (b.word o).bind fun v => run (k (v == 0)) b
  | .follow o k, b => (b.word o).bind fun v => run (k (offsetAt base v)) b
  | .add o k, b => (b.word o).bind fun v => (b.setWord o (base + v)).bind (run k)
  | .clear o _ k, b => (b.setWord o 0).bind (run k)

variable {base} {w : RelocM hdr α} {b b' : HeapBuffer} {a : α} {i : ℕ}

/-- **What was never written** stays so behind the header: no pointer there is changed that was not
read. -/
theorem cell_run (h : w.run base b = some (a, b')) (hi : hdr ≤ i) (hcell : b.cell i = none) :
    b'.cell i = none := by
  induction w generalizing b with
  | ret a =>
    cases h
    exact hcell
  | byte o k ih | half o k ih | isNull o k ih | follow o k ih =>
    obtain ⟨v, -, h⟩ := Option.bind_eq_some_iff.mp h
    exact ih _ h hcell
  | add o k ih =>
    -- the word was read first, so the byte is not in it
    obtain ⟨v, hv, h⟩ := Option.bind_eq_some_iff.mp h
    obtain ⟨c, hc, h⟩ := Option.bind_eq_some_iff.mp h
    refine ih h ?_
    rw [HeapBuffer.cell_of_setWord hc (HeapBuffer.beside_of_word hv hcell), hcell]
  | clear o ho k ih =>
    obtain ⟨c, hc, h⟩ := Option.bind_eq_some_iff.mp h
    refine ih h ?_
    rw [HeapBuffer.cell_of_setWord hc (by omega), hcell]

end Run

/-! ### Looking at the image -/

section Sound

-- the image and its size
variable (img : Block) (n : ℕ)

/-- The range is inside, and no pointer in it was changed. -/
def Untouched (added cleared : List ℕ) (o m : ℕ) : Prop :=
  o + m ≤ n ∧ (∀ p ∈ added, Apart p 4 o m) ∧ ∀ p ∈ cleared, Apart p 4 o m

instance (added cleared : List ℕ) (o m : ℕ) : Decidable (Untouched n added cleared o m) := by
  unfold Untouched Apart
  infer_instance

/-- The program finds what it needs in the image, when these pointers were changed before. -/
def Sound : RelocM hdr α → List ℕ → List ℕ → Prop
  | .ret _, _, _ => True
  | .byte o k, added, cleared => Untouched n added cleared o 1 ∧ (k (img o)).Sound added cleared
  | .half o k, added, cleared =>
    Untouched n added cleared o 2 ∧ (k (img.half o)).Sound added cleared
  | .isNull o k, added, cleared =>
    Untouched n added cleared o 4 ∧ (k (img.word o == 0)).Sound added cleared
  | .follow o k, added, cleared =>
    (o + 4 ≤ n ∧ o ∈ added) ∧ (k (img.word o).toNat).Sound added cleared
  | .add o k, added, cleared => Untouched n added cleared o 4 ∧ k.Sound (added ++ [o]) cleared
  | .clear o _ k, added, cleared => Untouched n added cleared o 4 ∧ k.Sound added (cleared ++ [o])

instance decidableSound : (w : RelocM hdr α) → (added cleared : List ℕ) →
    Decidable (w.Sound img n added cleared)
  | .ret _, _, _ => isTrue trivial
  | .byte o k, added, cleared => @instDecidableAnd _ _ _ (decidableSound (k (img o)) added cleared)
  | .half o k, added, cleared =>
    @instDecidableAnd _ _ _ (decidableSound (k (img.half o)) added cleared)
  | .isNull o k, added, cleared =>
    @instDecidableAnd _ _ _ (decidableSound (k (img.word o == 0)) added cleared)
  | .follow o k, added, cleared =>
    @instDecidableAnd _ _ _ (decidableSound (k (img.word o).toNat) added cleared)
  | .add o k, added, cleared => @instDecidableAnd _ _ _ (decidableSound k (added ++ [o]) cleared)
  | .clear o _ k, added, cleared =>
    @instDecidableAnd _ _ _ (decidableSound k added (cleared ++ [o]))

/-- The pointers that the program relocates, in its order. -/
def pointers : RelocM hdr α → List ℕ
  | .ret _ => []
  | .byte o k => (k (img o)).pointers
  | .half o k => (k (img.half o)).pointers
  | .isNull o k => (k (img.word o == 0)).pointers
  | .follow o k => (k (img.word o).toNat).pointers
  | .add o k => o :: k.pointers
  | .clear _ _ k => k.pointers

/-- The pointers that it sets to `NULL`. -/
def nulls : RelocM hdr α → List ℕ
  | .ret _ => []
  | .byte o k => (k (img o)).nulls
  | .half o k => (k (img.half o)).nulls
  | .isNull o k => (k (img.word o == 0)).nulls
  | .follow o k => (k (img.word o).toNat).nulls
  | .add _ k => k.nulls
  | .clear o _ k => o :: k.nulls

/-- The image with some pointers relocated and some set to `NULL`. -/
def changed (base : UInt32) (added cleared : List ℕ) : Block :=
  patch (fun v => base + v) added (patch (fun _ => 0) cleared img)

end Sound

section RunSound

variable {img : Block} {n o m : ℕ} {base : UInt32} {added cleared : List ℕ}

theorem load_changed (h : Untouched n added cleared o m) :
    load (changed img base added cleared) o m = load img o m := by
  rw [changed, load_patch_of_apart h.2.1, load_patch_of_apart h.2.2]

theorem word_changed (h : Untouched n added cleared o 4) :
    (changed img base added cleared).word o = img.word o := by
  rw [Block.word, load_changed h, ← Block.word]

theorem half_changed (h : Untouched n added cleared o 2) :
    (changed img base added cleared).half o = img.half o := by
  rw [Block.half, load_changed h, ← Block.half]

theorem byte_changed (h : Untouched n added cleared o 1) :
    changed img base added cleared o = img o := by
  have hload : load (changed img base added cleared) o 1 = load img o 1 := load_changed h
  simpa [load] using hload

/-- Where a relocated pointer leads. -/
theorem offsetAt_word_changed (ho : o ∈ added) (hadded : SlotsApart added)
    (happart : ∀ p ∈ added, ∀ q ∈ cleared, Apart q 4 p 4) :
    offsetAt base ((changed img base added cleared).word o) = (img.word o).toNat := by
  rw [changed, word_patch_of_mem hadded ho, word_patch_of_apart (happart o ho), offsetAt_base_add]

theorem setWord_comm {d : Block} {p : ℕ} {u v : UInt32} (h : Apart o 4 p 4) :
    (d.setWord p u).setWord o v = (d.setWord o v).setWord p u := by
  funext i
  simp only [Block.setWord, store, length_toLE]
  unfold Apart at h
  split_ifs <;> first | rfl | omega

/-- A word beside the slots may be written first. -/
theorem setWord_patch {f : UInt32 → UInt32} {slots : List ℕ} (h : ∀ p ∈ slots, Apart p 4 o 4)
    (d : Block) (v : UInt32) : (patch f slots d).setWord o v = patch f slots (d.setWord o v) := by
  induction slots generalizing d with
  | nil => rfl
  | cons p slots ih =>
    obtain ⟨hp, hslots⟩ := List.forall_mem_cons.mp h
    have hword : (d.setWord o v).word p = d.word p := by
      rw [Block.word, Block.load_setWord_of_disjoint hp, ← Block.word]
    have hcomm : (d.setWord p (f (d.word p))).setWord o v =
        (d.setWord o v).setWord p (f ((d.setWord o v).word p)) := by
      rw [hword]
      exact setWord_comm hp.symm
    exact (ih hslots _).trans (congrArg (patch f slots) hcomm)

theorem changed_concat (base : UInt32) (o : ℕ) :
    (changed img base added cleared).setWord o
        (base + (changed img base added cleared).word o) =
      changed img base (added ++ [o]) cleared :=
  (patch_concat _ added o _).symm

theorem changed_clear (base : UInt32) (h : ∀ p ∈ added, Apart p 4 o 4) :
    (changed img base added cleared).setWord o 0 = changed img base added (cleared ++ [o]) := by
  rw [changed, setWord_patch h, changed, patch_concat]

theorem slotsApart_concat (h : SlotsApart added) (ho : ∀ p ∈ added, Apart p 4 o 4) :
    SlotsApart (added ++ [o]) :=
  List.pairwise_append.mpr ⟨h, List.pairwise_singleton _ _, fun p hp _ hq =>
    List.mem_singleton.mp hq ▸ ho p hp⟩

/-- **A copy of a sound image** is relocated at every address: the program runs to its end inside
the buffer, and relocates the pointers of the image. -/
theorem run_of_sound (base : UInt32) {w : RelocM hdr α} (h : w.Sound img n added cleared)
    (hadded : SlotsApart added) (happart : ∀ p ∈ added, ∀ q ∈ cleared, Apart q 4 p 4) :
    ∃ a, w.run base (.ofBlock n (changed img base added cleared)) =
      some (a, .ofBlock n
        (changed img base (added ++ w.pointers img) (cleared ++ w.nulls img))) := by
  induction w generalizing added cleared with
  | ret a =>
    refine ⟨a, ?_⟩
    simp only [run, pointers, nulls, List.append_nil]
  | byte o k ih =>
    obtain ⟨ho, hk⟩ := h
    obtain ⟨a, ha⟩ := ih _ hk hadded happart
    refine ⟨a, ?_⟩
    rw [run, HeapBuffer.byte_ofBlock ho.1, byte_changed ho]
    exact ha
  | half o k ih =>
    obtain ⟨ho, hk⟩ := h
    obtain ⟨a, ha⟩ := ih _ hk hadded happart
    refine ⟨a, ?_⟩
    rw [run, HeapBuffer.half_ofBlock ho.1, half_changed ho]
    exact ha
  | isNull o k ih =>
    obtain ⟨ho, hk⟩ := h
    obtain ⟨a, ha⟩ := ih _ hk hadded happart
    refine ⟨a, ?_⟩
    rw [run, HeapBuffer.word_ofBlock ho.1, word_changed ho]
    exact ha
  | follow o k ih =>
    -- the pointer was relocated before: it leads to the offset that the image has there
    obtain ⟨⟨hle, ho⟩, hk⟩ := h
    obtain ⟨a, ha⟩ := ih _ hk hadded happart
    refine ⟨a, ?_⟩
    rw [run, HeapBuffer.word_ofBlock hle, Option.bind_some,
      offsetAt_word_changed ho hadded happart]
    exact ha
  | add o k ih =>
    obtain ⟨ho, hk⟩ := h
    have hapart : ∀ p ∈ added ++ [o], ∀ q ∈ cleared, Apart q 4 p 4 := by
      intro p hp q hq
      rcases List.mem_append.mp hp with hp | hp
      · exact happart p hp q hq
      · exact List.mem_singleton.mp hp ▸ ho.2.2 q hq
    obtain ⟨a, ha⟩ := ih hk (slotsApart_concat hadded ho.2.1) hapart
    refine ⟨a, ?_⟩
    rw [run, HeapBuffer.word_ofBlock ho.1, Option.bind_some, HeapBuffer.setWord_ofBlock ho.1,
      Option.bind_some, changed_concat, ha, List.append_assoc]
    rfl
  | clear o _ k ih =>
    obtain ⟨ho, hk⟩ := h
    have hapart : ∀ p ∈ added, ∀ q ∈ cleared ++ [o], Apart q 4 p 4 := by
      intro p hp q hq
      rcases List.mem_append.mp hq with hq | hq
      · exact happart p hp q hq
      · exact List.mem_singleton.mp hq ▸ (ho.2.1 p hp).symm
    obtain ⟨a, ha⟩ := ih hk hadded hapart
    refine ⟨a, ?_⟩
    rw [run, HeapBuffer.setWord_ofBlock ho.1, Option.bind_some, changed_clear base ho.2.1, ha,
      List.append_assoc]
    rfl

/-- The pointers that a sound program changes are apart. -/
theorem apart_of_sound {w : RelocM hdr α} (h : w.Sound img n added cleared)
    (hadded : SlotsApart added) (happart : ∀ p ∈ added, ∀ q ∈ cleared, Apart q 4 p 4) :
    SlotsApart (added ++ w.pointers img) ∧
      ∀ p ∈ added ++ w.pointers img, ∀ q ∈ cleared ++ w.nulls img, Apart q 4 p 4 := by
  induction w generalizing added cleared with
  | ret a =>
    simp only [pointers, nulls, List.append_nil]
    exact ⟨hadded, happart⟩
  | byte o k ih | half o k ih | isNull o k ih | follow o k ih => exact ih _ h.2 hadded happart
  | add o k ih =>
    obtain ⟨ho, hk⟩ := h
    have hnext := ih hk (slotsApart_concat hadded ho.2.1) fun p hp q hq => by
      rcases List.mem_append.mp hp with hp | hp
      · exact happart p hp q hq
      · exact List.mem_singleton.mp hp ▸ ho.2.2 q hq
    rwa [List.append_assoc] at hnext
  | clear o _ k ih =>
    obtain ⟨ho, hk⟩ := h
    have hnext := ih hk hadded fun p hp q hq => by
      rcases List.mem_append.mp hq with hq | hq
      · exact happart p hp q hq
      · exact List.mem_singleton.mp hq ▸ (ho.2.1 p hp).symm
    rwa [List.append_assoc] at hnext

theorem word_changed_of_mem (ho : o ∈ added) (hadded : SlotsApart added)
    (happart : ∀ p ∈ added, ∀ q ∈ cleared, Apart q 4 p 4) :
    (changed img base added cleared).word o = base + img.word o := by
  rw [changed, word_patch_of_mem hadded ho, word_patch_of_apart (happart o ho)]

/-- Aligned words are apart. -/
theorem apart_of_dvd {p : ℕ} (hp : 4 ∣ p) (ho : 4 ∣ o) (hne : p ≠ o) : Apart p 4 o 4 := by
  unfold Apart
  omega

theorem word_clear_or (ho : 4 ∣ o) (hcleared : ∀ q ∈ cleared, 4 ∣ q) (d : Block) :
    (patch (fun _ => 0) cleared d).word o = d.word o ∨
      (patch (fun _ => 0) cleared d).word o = 0 := by
  induction cleared generalizing d with
  | nil => exact .inl rfl
  | cons q cleared ih =>
    obtain ⟨hq, hcleared⟩ := List.forall_mem_cons.mp hcleared
    change (patch (fun _ => 0) cleared (d.setWord q 0)).word o = d.word o ∨
      (patch (fun _ => 0) cleared (d.setWord q 0)).word o = 0
    rcases ih hcleared (d.setWord q 0) with heq | heq
    · rcases eq_or_ne q o with rfl | hne
      · exact .inr (heq.trans (Block.word_setWord_self d q 0))
      · refine .inl (heq.trans ?_)
        rw [Block.word, Block.load_setWord_of_disjoint (apart_of_dvd hq ho hne).symm, ← Block.word]
    · exact .inr heq

/-- Another aligned word stays, unless it is set to `NULL`. -/
theorem word_changed_of_notMem (ho : o ∉ added) (h4 : 4 ∣ o) (hadded : ∀ p ∈ added, 4 ∣ p)
    (hcleared : ∀ q ∈ cleared, 4 ∣ q) :
    (changed img base added cleared).word o = img.word o ∨
      (changed img base added cleared).word o = 0 := by
  have hapart : ∀ p ∈ added, Apart p 4 o 4 := fun p hp =>
    apart_of_dvd (hadded p hp) h4 fun heq => ho (heq ▸ hp)
  rw [changed, word_patch_of_apart hapart]
  exact word_clear_or h4 hcleared img

end RunSound

/-! ### Which pointers it can change -/

section Within

variable (img : Block)

/-- What the program returns on the image. -/
def value : RelocM hdr α → α
  | .ret a => a
  | .byte o k => (k (img o)).value
  | .half o k => (k (img.half o)).value
  | .isNull o k => (k (img.word o == 0)).value
  | .follow o k => (k (img.word o).toNat).value
  | .add _ k => k.value
  | .clear _ _ k => k.value

/-- The program relocates these pointers only, and sets only those to `NULL`. -/
def Within (added cleared : Set ℕ) (w : RelocM hdr α) : Prop :=
  (∀ o ∈ w.pointers img, o ∈ added) ∧ ∀ o ∈ w.nulls img, o ∈ cleared

variable {img} {added cleared : Set ℕ} {o n fuel : ℕ}

theorem pointers_bind (w : RelocM hdr α) (f : α → RelocM hdr β) :
    (w >>= f).pointers img = w.pointers img ++ (f (w.value img)).pointers img := by
  change (w.bind f).pointers img = _
  induction w with
  | ret a => rfl
  | byte o k ih | half o k ih | isNull o k ih | follow o k ih => exact ih _
  | add o k ih => exact congrArg (o :: ·) ih
  | clear o h k ih => exact ih

theorem nulls_bind (w : RelocM hdr α) (f : α → RelocM hdr β) :
    (w >>= f).nulls img = w.nulls img ++ (f (w.value img)).nulls img := by
  change (w.bind f).nulls img = _
  induction w with
  | ret a => rfl
  | byte o k ih | half o k ih | isNull o k ih | follow o k ih => exact ih _
  | add o k ih => exact ih
  | clear o h k ih => exact congrArg (o :: ·) ih

@[simp]
theorem value_goto : (goto o : RelocM hdr ℕ).value img = (img.word o).toNat := by
  rw [goto, value, value]

@[simp]
theorem value_getHalf : (getHalf o : RelocM hdr UInt16).value img = img.half o := by
  rw [getHalf, value, value]

@[simp]
theorem value_getByte : (getByte o : RelocM hdr UInt8).value img = img o := by
  rw [getByte, value, value]

@[simp]
theorem value_pure (a : α) : (pure a : RelocM hdr α).value img = a := rfl

@[simp]
theorem value_bind (w : RelocM hdr α) (f : α → RelocM hdr β) :
    (w >>= f).value img = (f (w.value img)).value img := by
  change (w.bind f).value img = _
  induction w with
  | ret a => rfl
  | byte o k ih | half o k ih | isNull o k ih | follow o k ih => exact ih _
  | add o k ih | clear o h k ih => exact ih

@[simp]
theorem within_bind {w : RelocM hdr α} {f : α → RelocM hdr β} :
    (w >>= f).Within img added cleared ↔
      w.Within img added cleared ∧ (f (w.value img)).Within img added cleared := by
  simp only [Within, pointers_bind, nulls_bind, List.forall_mem_append]
  tauto

@[simp]
theorem within_pure (a : α) : (pure a : RelocM hdr α).Within img added cleared :=
  ⟨List.forall_mem_nil _, List.forall_mem_nil _⟩

@[simp]
theorem within_goto : (goto o : RelocM hdr ℕ).Within img added cleared :=
  ⟨List.forall_mem_nil _, List.forall_mem_nil _⟩

@[simp]
theorem within_getHalf : (getHalf o : RelocM hdr UInt16).Within img added cleared :=
  ⟨List.forall_mem_nil _, List.forall_mem_nil _⟩

@[simp]
theorem within_getByte : (getByte o : RelocM hdr UInt8).Within img added cleared :=
  ⟨List.forall_mem_nil _, List.forall_mem_nil _⟩

@[simp]
theorem within_relocate : (relocate o : RelocM hdr Unit).Within img added cleared ↔ o ∈ added := by
  simp [Within, relocate, pointers, nulls]

@[simp]
theorem within_clear {h : o + 4 ≤ hdr} :
    (clear o h (.ret ()) : RelocM hdr Unit).Within img added cleared ↔ o ∈ cleared := by
  simp [Within, pointers, nulls]

@[simp]
theorem within_relocateIfSet :
    (relocateIfSet o : RelocM hdr Unit).Within img added cleared ↔
      (img.word o ≠ 0 → o ∈ added) := by
  by_cases h : img.word o = 0 <;>
    simp [Within, relocateIfSet, relocate, pointers, nulls, h]

theorem within_ite {c : Prop} [Decidable c] {w w' : RelocM hdr α} :
    (if c then w else w').Within img added cleared ↔
      (c → w.Within img added cleared) ∧ (¬ c → w'.Within img added cleared) := by
  by_cases h : c <;> simp [h]

theorem within_when {c : Prop} [Decidable c] {w : RelocM hdr Unit} :
    (if c then w else pure ()).Within img added cleared ↔ (c → w.Within img added cleared) := by
  rw [within_ite]
  exact and_iff_left fun _ => within_pure ()

/-- A step that is made on a condition, in front of others. -/
theorem within_guard {c : Prop} [Decidable c] {w : RelocM hdr Unit} {f : Unit → RelocM hdr α} :
    (if c then w >>= f else f ()).Within img added cleared ↔
      (c → w.Within img added cleared) ∧ (f ()).Within img added cleared := by
  rw [within_ite, within_bind]
  constructor
  · rintro ⟨hc, hskip⟩
    refine ⟨fun h => (hc h).1, ?_⟩
    by_cases h : c
    · exact (hc h).2
    · exact hskip h
  · rintro ⟨hc, hrest⟩
    exact ⟨fun h => ⟨hc h, hrest⟩, fun _ => hrest⟩

/-- The rounds from the `n`-th on, with enough of them. -/
theorem within_rounds {body : ℕ → RelocM hdr Unit} (h : (img.half o).toNat ≤ n + fuel) :
    (rounds o body fuel n).Within img added cleared ↔
      ∀ i, n ≤ i → i < (img.half o).toNat → (body i).Within img added cleared := by
  induction fuel generalizing n with
  | zero =>
    refine iff_of_true (within_pure ()) fun i hle hlt => ?_
    omega
  | succ fuel ih =>
    change (if n < (img.half o).toNat then (body n >>= fun _ => rounds o body fuel (n + 1))
      else RelocM.ret ()).Within img added cleared ↔ _
    split_ifs with hn
    · rw [within_bind, ih (by omega)]
      constructor
      · rintro ⟨hfirst, hrest⟩ i hle hlt
        rcases Nat.eq_or_lt_of_le hle with rfl | hlt'
        · exact hfirst
        · exact hrest i hlt' hlt
      · intro hall
        exact ⟨hall n (Nat.le_refl n) hn, fun i hle hlt => hall i (by omega) hlt⟩
    · refine iff_of_true (within_pure ()) fun i hle hlt => ?_
      omega

@[simp]
theorem within_forUp {body : ℕ → RelocM hdr Unit} :
    (forUp o body).Within img added cleared ↔
      ∀ i < (img.half o).toNat, (body i).Within img added cleared := by
  have hlt := (img.half o).toNat_lt
  rw [forUp, within_rounds (by omega)]
  exact ⟨fun h i hi => h i (Nat.zero_le i) hi, fun h i _ hi => h i hi⟩

end Within

end RelocM

end ElastosCar
