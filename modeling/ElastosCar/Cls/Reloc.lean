import ElastosCar.Cls.Compress

/-!
# Loading class images

`DoRelocCLS` and `RelocFlattedCLS` of `reloc.cpp`. A flat image has offsets where a loaded one has
pointers. `RelocFlattedCLS` allocates `mSize` bytes, fills them from the resource, uncompressing it
or copying as many bytes as its argument says, and relocates what it has then.

* `run_DoRelocCLS`: on a copy of a flat image `DoRelocCLS` stays in the copy and relocates the
  pointers that it finds in the image.
* `images_right`: loading is right for compressed images and for those whose size is given exactly,
  compressing where zlib succeeds or has written nothing new.
-/

namespace ElastosCar

namespace Cls

def CARAttrib_compress : UInt32 := 0x00100000

def CARAttrib_inheap : UInt32 := 0x00200000

def TYPE_STRING : UInt8 := 8

/-! ### The walk over the image -/

/-- The walk sets pointers to `NULL` only in the header, in front of `mR`. -/
abbrev MapM := RelocM 128

section Map

open RelocM

/-- `p->mItems += sBase`, and the same for each of its pointers before something is done with it. -/
def mapItems (mCount mItems : ℕ) (item : MapM ℕ → MapM Unit) : MapM Unit := do
  relocate mItems
  forUp mCount fun n => do
    relocate ((← goto mItems) + 4 * n)
    item do goto ((← goto mItems) + 4 * n)

def MapFileDirEntry (p : ℕ) : MapM Unit := relocateIfSet p

def MapClassDescriptor (p : ℕ) : MapM Unit := do
  if (← getHalf (p + 22)) ≠ 0 then relocate (p + 36)
  if (← getHalf (p + 26)) ≠ 0 then relocate (p + 40)
  if (← getHalf (p + 24)) ≠ 0 then relocate (p + 44)
  if (← getHalf (p + 20)) ≠ 0 then mapItems (p + 20) (p + 32) fun _ => pure ()

/-- The directory entries with a descriptor. -/
def mapDirEntry (mapDescriptor : ℕ → MapM Unit) (p : ℕ) : MapM Unit := do
  relocate p
  relocateIfSet (p + 4)
  relocate (p + 12)
  mapDescriptor (← goto (p + 12))

def MapClassDirEntry : ℕ → MapM Unit := mapDirEntry MapClassDescriptor

def MapInterfaceConstDescriptor (p : ℕ) : MapM Unit := do
  relocate p
  if (← getByte (p + 4)) = TYPE_STRING then relocateIfSet (p + 8)

/-- A name and, behind it, a type whose nested type may be set. -/
def mapNamedType (p : MapM ℕ) : MapM Unit := do
  relocate (← p)
  relocateIfSet ((← p) + 20)

def MapMethodDescriptor (p : ℕ) : MapM Unit := do
  relocate p
  relocate (p + 4)
  relocateIfSet (p + 8)
  if (← getHalf (p + 32)) ≠ 0 then mapItems (p + 32) (p + 36) mapNamedType

def MapInterfaceDescriptor (p : ℕ) : MapM Unit := do
  if (← getHalf (p + 16)) ≠ 0 then
    mapItems (p + 16) (p + 28) fun const => do MapInterfaceConstDescriptor (← const)
  if (← getHalf (p + 18)) ≠ 0 then
    mapItems (p + 18) (p + 32) fun method => do MapMethodDescriptor (← method)

def MapInterfaceDirEntry : ℕ → MapM Unit := mapDirEntry MapInterfaceDescriptor

def MapArrayDirEntry (p : ℕ) : MapM Unit := do
  relocateIfSet p
  relocateIfSet (p + 24)

def MapStructDescriptor (p : ℕ) : MapM Unit := do
  if (← getHalf p) ≠ 0 then mapItems p (p + 4) mapNamedType

def MapStructDirEntry : ℕ → MapM Unit := mapDirEntry MapStructDescriptor

def MapEnumDescriptor (p : ℕ) : MapM Unit := do
  if (← getHalf p) ≠ 0 then mapItems p (p + 4) fun element => do relocate (← element)

def MapEnumDirEntry : ℕ → MapM Unit := mapDirEntry MapEnumDescriptor

def MapConstDirEntry (p : ℕ) : MapM Unit := do
  relocate p
  relocateIfSet (p + 4)
  if (← getByte (p + 8)) = TYPE_STRING then relocateIfSet (p + 12)

def MapAliasDirEntry (p : ℕ) : MapM Unit := do
  relocate p
  relocateIfSet (p + 4)
  relocateIfSet (p + 24)

/-- A directory of the module, which is `NULL` when it has no entry. -/
def mapDirs (mCount mDirs : ℕ) (h : mDirs + 4 ≤ 128) (entry : MapM ℕ → MapM Unit) : MapM Unit := do
  if (← getHalf mCount) ≠ 0 then mapItems mCount mDirs entry else clear mDirs h (.ret ())

def DoRelocCLS : MapM Unit := do
  relocate 60
  relocateIfSet 36
  relocateIfSet 64
  if (← getHalf 74) > 0 then relocate 100
  mapDirs 68 88 (by decide) fun dir => do MapFileDirEntry (← dir)
  mapDirs 70 92 (by decide) fun dir => do MapClassDirEntry (← dir)
  mapDirs 72 96 (by decide) fun dir => do MapInterfaceDirEntry (← dir)
  mapDirs 84 120 (by decide) fun dir => do MapArrayDirEntry (← dir)
  mapDirs 76 104 (by decide) fun dir => do MapStructDirEntry (← dir)
  mapDirs 78 108 (by decide) fun dir => do MapEnumDirEntry (← dir)
  mapDirs 86 124 (by decide) fun dir => do MapConstDirEntry (← dir)
  mapDirs 80 112 (by decide) fun dir => do MapAliasDirEntry (← dir)
  mapDirs 82 116 (by decide) fun _ => pure ()

end Map

/-- Relocate the module at `dest` and mark it. -/
def relocateModule (dest : UInt32) (destModule : HeapBuffer) : Option HeapBuffer :=
  (DoRelocCLS.run dest destModule).bind fun r =>
    (r.2.word 56).bind fun mAttribs => r.2.setWord 56 (mAttribs ||| CARAttrib_inheap)

/-- `RelocFlattedCLS`, with the address of the new module: an error, the module, or undefined. -/
def RelocFlattedCLS (z : Zlib) (dest : UInt32) (src : Block) (size : Int32) :
    Option (Except Int32 HeapBuffer) :=
  let mSize := src.word 24
  let destModule := HeapBuffer.new mSize.toNat
  if src.word 56 &&& CARAttrib_compress ≠ 0 then
    (UncompressCLS z src size destModule).bind fun r =>
      if r.1 ≠ mSize.toInt32 then some (.error CLSError_FormatSize)
      else (relocateModule dest r.2).map .ok
  else
    (destModule.write 0 (load src 0 size.toUInt32.toNat)).bind fun destModule =>
      (relocateModule dest destModule).map .ok

/-! ### Flat images and their resources -/

/-- An image in which the offsets lead to what they should, with nothing shared. -/
structure FlatImage extends CLSImage where
  sound : DoRelocCLS.Sound toCLSImage.block toCLSImage.size [] []

namespace FlatImage

variable (img : FlatImage)

def compressed : Bool := img.block.word 56 &&& CARAttrib_compress ≠ 0

/-- The image with the address `dest` added to its pointers, marked as a copy on the heap. -/
def relocated (dest : UInt32) : HeapBuffer :=
  let module := RelocM.changed img.block dest (DoRelocCLS.pointers img.block)
    (DoRelocCLS.nulls img.block)
  .ofBlock img.size (module.setWord 56 (module.word 56 ||| CARAttrib_inheap))

end FlatImage

/-- The memory from which an image is loaded: the image, or its header and the stream of its data.
-/
structure Resource (z : Zlib) where
  image : FlatImage
  src : Block
  stored : if image.compressed then
      ∃ out, z.compress (image.size - 132) image.data = .ok out ∧
        load src 0 (132 + out.length) = load image.block 0 132 ++ out
    else load src 0 image.size = load image.block 0 image.size

/-- `RelocFlattedCLS` stays inside what it has allocated, and reports an error or returns the image,
relocated. -/
def LoadsRight {z : Zlib} (r : Resource z) (dest : UInt32) (size : Int32) : Prop :=
  match RelocFlattedCLS z dest r.src size with
  | none => False
  | some (.error _) => True
  | some (.ok module) => module = r.image.relocated dest

/-! ### Loading -/

namespace FlatImage

variable (img : FlatImage)

theorem run_DoRelocCLS (dest : UInt32) :
    ∃ a, DoRelocCLS.run dest (.ofBlock img.size img.block) =
      some (a, .ofBlock img.size (RelocM.changed img.block dest (DoRelocCLS.pointers img.block)
        (DoRelocCLS.nulls img.block))) :=
  RelocM.run_of_sound dest img.sound List.Pairwise.nil nofun

theorem relocateModule_eq (dest : UInt32) :
    relocateModule dest (.ofBlock img.size img.block) = some (img.relocated dest) := by
  obtain ⟨a, ha⟩ := img.run_DoRelocCLS dest
  have hle : 56 + 4 ≤ img.size := Nat.le_trans (by decide) img.header_le
  rw [relocateModule, ha, Option.bind_some, HeapBuffer.word_ofBlock hle, Option.bind_some,
    HeapBuffer.setWord_ofBlock hle]
  rfl

end FlatImage

/-- What was never written is not in the result. -/
theorem cell_relocateModule {dest : UInt32} {b b' : HeapBuffer} {i : ℕ}
    (h : relocateModule dest b = some b') (hi : 128 ≤ i) (hcell : b.cell i = none) :
    b'.cell i = none := by
  obtain ⟨r, hrun, h⟩ := Option.bind_eq_some_iff.mp h
  obtain ⟨v, -, h⟩ := Option.bind_eq_some_iff.mp h
  rw [HeapBuffer.cell_of_setWord h (by omega)]
  exact RelocM.cell_run hrun hi hcell

namespace Resource

variable {z : Zlib} (r : Resource z)

theorem load_header : load r.src 0 132 = load r.image.block 0 132 := by
  have hstored := r.stored
  split_ifs at hstored
  · obtain ⟨out, -, hload⟩ := hstored
    rw [load_append] at hload
    exact (List.append_inj hload (by simp)).1
  · obtain ⟨k, hk⟩ := Nat.exists_eq_add_of_le r.image.header_le
    rw [hk, load_append, load_append] at hstored
    exact (List.append_inj hstored (by simp)).1

theorem word_src {o : ℕ} (ho : o + 4 ≤ 132) : r.src.word o = r.image.block.word o :=
  CLSImage.word_of_header r.load_header ho

theorem mSize_src : (r.src.word 24).toNat = r.image.size := by
  rw [r.word_src (by decide)]
  exact r.image.mSize

theorem toInt32_mSize : (r.src.word 24).toInt32 = Int32.ofNat r.image.size := by
  rw [← r.mSize_src]
  exact congrArg UInt32.toInt32 UInt32.ofNat_toNat.symm

/-- A compressed image is loaded, whatever size is given. -/
theorem loadsRight_of_compressed (h : r.image.compressed = true) (dest : UInt32) (size : Int32) :
    LoadsRight r dest size := by
  have hstored := r.stored
  rw [if_pos h] at hstored
  obtain ⟨out, hout, hload⟩ := hstored
  rw [load_append] at hload
  have hstream := (List.append_inj hload (by simp)).2
  rw [Nat.zero_add] at hstream
  have hprefix : out <+: load r.src 132 (size.toUInt32 - 132).toNat ∨
      load r.src 132 (size.toUInt32 - 132).toNat <+: out := by
    rcases Nat.le_total out.length (size.toUInt32 - 132).toNat with hle | hle
    · obtain ⟨k, hk⟩ := Nat.exists_eq_add_of_le hle
      rw [hk, load_append, hstream]
      exact .inl (List.prefix_append _ _)
    · obtain ⟨k, hk⟩ := Nat.exists_eq_add_of_le hle
      rw [hk, load_append] at hstream
      exact .inr ⟨_, hstream⟩
  have hflag : r.src.word 56 &&& CARAttrib_compress ≠ 0 := by
    rw [r.word_src (by decide)]
    exact of_decide_eq_true h
  unfold LoadsRight RelocFlattedCLS
  simp only [if_pos hflag, r.mSize_src, r.toInt32_mSize]
  rcases UncompressCLS_eq r.load_header fun result hr => z.uncompress_of_prefix hout hprefix hr
    with hun | ⟨b, hun⟩
  · rw [hun, Option.bind_some, if_neg (not_not_intro rfl), r.image.relocateModule_eq]
    exact rfl
  · have hcode : CLSError_Uncompress ≠ Int32.ofNat r.image.size := fun heq =>
      absurd (heq ▸ zero_le_ofNat r.image.size_lt) (by decide)
    rw [hun, Option.bind_some, if_pos hcode]
    trivial

/-- The number of bytes that are copied. -/
theorem toInt_eq_iff (size : Int32) {n : ℕ} (h : n < 2147483648) :
    size.toInt = n ↔ size.toUInt32.toNat = n := by
  have hint : size.toInt = if 2 * size.toUInt32.toNat < 4294967296 then (size.toUInt32.toNat : ℤ)
      else size.toUInt32.toNat - 4294967296 :=
    BitVec.toInt_eq_toNat_cond size.toBitVec
  have hlt := size.toUInt32.toNat_lt
  rw [hint]
  split_ifs <;> omega

/-- An image that is not compressed is copied, with as many bytes as the argument says. -/
theorem loadsRight_iff_of_plain (h : ¬ r.image.compressed = true) (dest : UInt32) (size : Int32) :
    LoadsRight r dest size ↔ size.toInt = r.image.size := by
  have hle := r.image.header_le
  have hstored := r.stored
  rw [if_neg h] at hstored
  have hflag : ¬ r.src.word 56 &&& CARAttrib_compress ≠ 0 := by
    rw [r.word_src (by decide)]
    exact fun hne => h (decide_eq_true hne)
  rw [toInt_eq_iff size r.image.size_lt]
  unfold LoadsRight RelocFlattedCLS
  simp only [if_neg hflag, r.mSize_src]
  generalize size.toUInt32.toNat = k
  rcases Nat.lt_trichotomy k r.image.size with hlt | rfl | hlt
  · -- the last byte was never written
    refine iff_of_false ?_ hlt.ne
    have hin : 0 + (load r.src 0 k).length ≤ (HeapBuffer.new r.image.size).size := by
      rw [length_load, Nat.zero_add]
      exact hlt.le
    obtain ⟨b, hb⟩ : ∃ b, (HeapBuffer.new r.image.size).write 0 (load r.src 0 k) = some b :=
      ⟨_, if_pos hin⟩
    have hcell : b.cell (r.image.size - 1) = none :=
      HeapBuffer.cell_of_write hb (.inr (by rw [length_load]; omega))
    rw [hb, Option.bind_some]
    rcases hrun : relocateModule dest b with _ | b'
    · exact id
    · intro heq
      have hlast := cell_relocateModule hrun (by omega) hcell
      have heq : b' = r.image.relocated dest := heq
      rw [heq] at hlast
      have hsome : (r.image.relocated dest).cell (r.image.size - 1) ≠ none := by
        change (if r.image.size - 1 < r.image.size then _ else none) ≠ none
        rw [if_pos (by omega)]
        exact Option.some_ne_none _
      exact hsome hlast
  · refine iff_of_true ?_ rfl
    have hcopy : (HeapBuffer.new r.image.size).write 0 (load r.src 0 r.image.size) =
        some (.ofBlock r.image.size r.image.block) := by
      rw [hstored, HeapBuffer.write_new]
    rw [hcopy, Option.bind_some, r.image.relocateModule_eq]
    exact rfl
  · refine iff_of_false ?_ hlt.ne'
    have hout : ¬ 0 + (load r.src 0 k).length ≤ (HeapBuffer.new r.image.size).size := by
      rw [length_load, Nat.zero_add]
      exact not_le.mpr hlt
    rw [HeapBuffer.write, if_neg hout]
    exact id

end Resource

/-- **Class images** are loaded right from a compressed resource, and else exactly when the size
that is given is that of the image; they are compressed right when zlib compresses them or leaves
them. -/
theorem images_right (z : Zlib) :
    (∀ (r : Resource z) (dest : UInt32) (size : Int32),
      LoadsRight r dest size ↔ r.image.compressed = true ∨ size.toInt = r.image.size) ∧
    ∀ img : CLSImage, CompressesRight z img ↔ CompressLeaves z img := by
  refine ⟨fun r dest size => ?_, compressesRight_iff z⟩
  by_cases h : r.image.compressed = true
  · exact iff_of_true (r.loadsRight_of_compressed h dest size) (.inl h)
  · exact (r.loadsRight_iff_of_plain h dest size).trans (or_iff_right h).symm

/-- An image that has only names: no directory, and four bytes behind the header. -/
def plainImage : FlatImage where
  bytes := List.replicate 24 0 ++ toLE 4 136 ++ List.replicate 108 0
  header := by decide +kernel
  lt := by decide +kernel
  mSize := by decide +kernel
  sound := by decide +kernel

def plainResource : Resource zeroZlib where
  image := plainImage
  src := plainImage.block
  stored := rfl

/-- With 200 for the size of the 136 bytes the copy leaves the new module, with 132 its end is never
written; and of the four zeros zlib makes a longer stream, whose beginning has overwritten them. -/
theorem not_images_right :
    ¬ LoadsRight plainResource 0x1000 200 ∧ ¬ LoadsRight plainResource 0x1000 132 ∧
      ¬ CompressesRight zeroZlib plainImage.toCLSImage := by
  have hplain : ¬ plainResource.image.compressed = true := by decide +kernel
  refine ⟨?_, ?_, ?_⟩
  · rw [plainResource.loadsRight_iff_of_plain hplain]
    decide +kernel
  · rw [plainResource.loadsRight_iff_of_plain hplain]
    decide +kernel
  · rw [compressesRight_iff]
    decide +kernel

end Cls

end ElastosCar
