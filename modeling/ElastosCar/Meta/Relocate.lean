import ElastosCar.Lib.Patch
import ElastosCar.Meta.ClsInfo

/-!
# Relocating and flattening module infos

`RelocateModuleInfo` of `relocate.cpp` turns the offsets of a flat module info into addresses, and
`FlatModuleInfo` turns them back. Both copy the image and patch its pointers in place, in the same
order, while they follow the pointers they have just patched: `RelocateModuleInfo` adds the address of
the copy, `FlatModuleInfo` subtracts that of the source and adds the address of the copy where it goes
on. `patchModule` is this walk.

* `patches_patchModule`: the walk patches exactly the pointers of the image, each once.
* `flat_relocate`: flattening gives the image back, and what the image describes does not depend on the
  address it is relocated to.
-/

namespace ElastosCar.ClsInfo

/-! ### The walk -/

section Walk

-- what becomes of a pointer, how to go on from its new value, and the address of the copy
variable (f enter : UInt32 → UInt32) (dest : UInt32)

/-- `RelocateUnalignedPtr` and `FlatUnalignedPtr`: the four bytes of a word that need not be aligned. -/
def patchUnalignedPtr (o : ℕ) (d : Block) : Block := d.setWord o (f (d.word o))

/-- The `mParams` of the methods of the interface at an offset. -/
def patchMethods (methodInfo : UInt32) (p : ℕ) : Block → Block :=
  countUp (fun d => d.half (p + 16)) fun j d =>
    let q := offsetAt dest (methodInfo + UInt32.ofNat (8 * j))
    d.setWord (q + 4) (f (d.word (q + 4)))

/-- `interfaceInfo[i]`. -/
def patchInterface (interfaceInfo : UInt32) (i : ℕ) (d : Block) : Block :=
  let p := offsetAt dest (interfaceInfo + UInt32.ofNat (24 * i))
  let d := d.setWord (p + 20) (f (d.word (p + 20)))
  patchMethods f dest (enter (d.word (p + 20))) p d

def patchInterfaces (d : Block) : Block :=
  let d := d.setWord 12 (f (d.word 12))
  let interfaceInfo := enter (d.word 12)
  countUp (fun d => d.half 6) (patchInterface f enter dest interfaceInfo) d

/-- The interface pointers of the class at an offset. -/
def patchInterfacePtrs (interfaceInfos : UInt32) (p : ℕ) : Block → Block :=
  countUp (fun d => d.half (p + 20)) fun j d =>
    patchUnalignedPtr f (offsetAt dest (interfaceInfos + UInt32.ofNat (4 * j))) d

/-- `classInfo[i]`. -/
def patchClass (classInfo : UInt32) (i : ℕ) (d : Block) : Block :=
  let p := offsetAt dest (classInfo + UInt32.ofNat (28 * i))
  let d := d.setWord (p + 24) (f (d.word (p + 24)))
  let d := patchInterfacePtrs f dest (enter (d.word (p + 24))) p d
  d.setWord p (f (d.word p))

def patchClasses (d : Block) : Block :=
  let d := d.setWord 8 (f (d.word 8))
  let classInfo := enter (d.word 8)
  countUp (fun d => d.half 4) (patchClass f enter dest classInfo) d

/-- Copy `mTotalSize` bytes and patch the copy: the interfaces first. -/
def patchModule (src : List UInt8) : List UInt8 :=
  let n := ((image src).word 0).toNat
  load (patchClasses f enter dest (patchInterfaces f enter dest (image (src.take n)))) 0 n

end Walk

/-- `RelocateModuleInfo` to the address `destModInfo`. -/
def RelocateModuleInfo (destModInfo : UInt32) (src : List UInt8) : List UInt8 :=
  patchModule (fun v => destModInfo + v) id destModInfo src

/-- `FlatModuleInfo` of the image at `srcModInfo` to the address `destModInfo`. -/
def FlatModuleInfo (srcModInfo destModInfo : UInt32) (src : List UInt8) : List UInt8 :=
  patchModule (fun v => v - srcModInfo) (fun v => v + destModInfo) destModInfo src

/-! ### The layout of a flat image -/

namespace CIModuleInfo

def headerElem : Elem := ⟨16, [8, 12], [(0, 8)]⟩

def interfaceElem : Elem := ⟨24, [20], [(0, 18)]⟩

def methodElem : Elem := ⟨8, [4], [(0, 3)]⟩

def classElem : Elem := ⟨28, [0, 24], [(4, 18)]⟩

def interfacePtrElem : Elem := ⟨4, [0], []⟩

def paramElem : Elem := ⟨4, [], [(0, 4)]⟩

def charElem : Elem := ⟨1, [], [(0, 1)]⟩

variable (img : Block)

def classNum : ℕ := (img.half 4).toNat

def interfaceNum : ℕ := (img.half 6).toNat

/-- The offset of `mInterfaces[i]`. -/
def interfaceAt (i : ℕ) : ℕ := (img.word 12).toNat + 24 * i

def methodNum (i : ℕ) : ℕ := (img.half (interfaceAt img i + 16)).toNat

/-- The offset of `mInterfaces[i].mMethods[j]`. -/
def methodAt (i j : ℕ) : ℕ := (img.word (interfaceAt img i + 20)).toNat + 8 * j

/-- The offset of `mClasses[k]`. -/
def classAt (k : ℕ) : ℕ := (img.word 8).toNat + 28 * k

def interfacePtrNum (k : ℕ) : ℕ := (img.half (classAt img k + 20)).toNat

/-- The offset of `mClasses[k].mInterfaces[j]`. -/
def interfacePtrAt (k j : ℕ) : ℕ := (img.word (classAt img k + 24)).toNat + 4 * j

/-- The string at an offset of an image of `n` bytes. -/
def nameAt (n o : ℕ) : Option CString := cstring (load img o (n - o))

/-- The bytes of the string, with its terminator. -/
def nameSize (n o : ℕ) : ℕ := (nameAt img n o).elim 0 fun s => s.chars.length + 1

/-- The method array of an interface and the parameter arrays of its methods. -/
def methodArrays (i : ℕ) : List ArrayAt :=
  ⟨methodElem, methodAt img i 0, methodNum img i⟩ ::
    (List.range (methodNum img i)).map fun j =>
      ⟨paramElem, (img.word (methodAt img i j + 4)).toNat, (img (methodAt img i j)).toNat⟩

/-- The interface pointers and the name of a class. -/
def classArrays (n k : ℕ) : List ArrayAt :=
  [⟨interfacePtrElem, interfacePtrAt img k 0, interfacePtrNum img k⟩,
    ⟨charElem, (img.word (classAt img k)).toNat, nameSize img n (img.word (classAt img k)).toNat⟩]

/-- All arrays of an image of `n` bytes. -/
def arrays (n : ℕ) : List ArrayAt :=
  [⟨headerElem, 0, 1⟩, ⟨charElem, 16, nameSize img n 16⟩,
      ⟨interfaceElem, interfaceAt img 0, interfaceNum img⟩, ⟨classElem, classAt img 0, classNum img⟩] ++
    (List.range (interfaceNum img)).flatMap (methodArrays img) ++
    (List.range (classNum img)).flatMap (classArrays img n)

/-- A flat image of `n` bytes: its arrays are inside and share no byte, its strings are terminated, and
the interface pointers of the classes lead to interfaces of the module. -/
structure WellFormed (n : ℕ) : Prop where
  total : (img.word 0).toNat = n
  inside : ∀ a ∈ arrays img n, a.start + a.bytes ≤ n
  disjoint : (arrays img n).Pairwise ArrayAt.Disjoint
  uunm : (nameAt img n 16).isSome = true
  named : ∀ k < classNum img, (nameAt img n (img.word (classAt img k)).toNat).isSome = true
  refers : ∀ k < classNum img, ∀ j < interfacePtrNum img k,
    ∃ i < interfaceNum img, (img.word (interfacePtrAt img k j)).toNat = interfaceAt img i

/-! ### What an image says -/

section Describe

-- the address of the image, its size and its bytes
variable (base : UInt32) (n : ℕ) (d : Block)

/-- Where the pointer at an offset leads. -/
def follow (o : ℕ) : ℕ := offsetAt base (d.word o)

def describeMethod (q : ℕ) : CIMethodInfo where
  mAttribs := d (q + 1)
  mReserved1 := d (q + 2)
  mParams := (List.range (d q).toNat).map fun k => d.word (follow base d (q + 4) + 4 * k)

def describeInterface (p : ℕ) : CIInterfaceInfo where
  mIID := EMuid.ofBytes (load d p 16)
  mMethods := (List.range (d.half (p + 16)).toNat).map fun j =>
    describeMethod base d (follow base d (p + 20) + 8 * j)

def describeName (o : ℕ) : CString := (nameAt d n o).getD ⟨[], zero_notMem_nil⟩

def describeClass (c : ℕ) : CIClassInfo where
  mUunm := describeName n d (follow base d c)
  mCLSID := EMuid.ofBytes (load d (c + 4) 16)
  mInterfaces := (List.range (d.half (c + 20)).toNat).map fun j =>
    describeInterface base d (follow base d (follow base d (c + 24) + 4 * j))

/-- The module info in an image that is loaded at `base`. -/
def describe : CIModuleInfo where
  mTotalSize := d.word 0
  mClasses := (List.range (d.half 4).toNat).map fun k =>
    describeClass base n d (follow base d 8 + 28 * k)
  mInterfaces := (List.range (d.half 6).toNat).map fun i =>
    describeInterface base d (follow base d 12 + 24 * i)
  mUunm := describeName n d 16

end Describe

/-! ### The walk patches the pointers of the image -/

section Walk

variable {img d : Block} {n i j k : ℕ} {f enter : UInt32 → UInt32} {dest : UInt32}

/-- The pointers of the interface, in the order of the walk. -/
def interfaceSlots (img : Block) (i : ℕ) : List ℕ :=
  (interfaceAt img i + 20) :: (List.range (methodNum img i)).flatMap fun j => [methodAt img i j + 4]

/-- The pointers of the class. -/
def classSlots (img : Block) (k : ℕ) : List ℕ :=
  (classAt img k + 24) ::
    ((List.range (interfacePtrNum img k)).flatMap (fun j => [interfacePtrAt img k j]) ++
      [classAt img k])

/-- All pointers. -/
def slots (img : Block) : List ℕ :=
  12 :: (List.range (interfaceNum img)).flatMap (interfaceSlots img) ++
    8 :: (List.range (classNum img)).flatMap (classSlots img)

/-- The bytes that are no pointers. -/
def data (img : Block) (n : ℕ) : Set ℕ := { b | ∃ a ∈ arrays img n, b ∈ a.data }

theorem elem_ok : ∀ e ∈ [headerElem, charElem, interfaceElem, classElem, methodElem, paramElem,
    interfacePtrElem], e.Ok := by decide

theorem ok_of_mem_arrays {a : ArrayAt} (h : a ∈ arrays img n) : a.elem.Ok := by
  simp only [arrays, methodArrays, classArrays, List.mem_append, List.mem_flatMap, List.mem_cons,
    List.mem_map, List.not_mem_nil, or_false] at h
  rcases h with ((rfl | rfl | rfl | rfl) | ⟨i, -, rfl | ⟨j, -, rfl⟩⟩) | ⟨k, -, rfl | rfl⟩
  all_goals exact elem_ok _ (by simp)

/-- An array with one pointer in each element. -/
theorem slots_single {e : Elem} {start count k : ℕ} (h : e.ptrs = [k]) :
    (ArrayAt.mk e start count).slots =
      (List.range count).flatMap fun i => [start + e.size * i + k] := by
  simp only [ArrayAt.slots, h, List.map_cons, List.map_nil]

theorem slots_nil {e : Elem} {start count : ℕ} (h : e.ptrs = []) :
    (ArrayAt.mk e start count).slots = [] := by
  simp only [ArrayAt.slots, h, List.map_nil, List.flatMap_eq_nil_iff, implies_true]

theorem slots_methodArrays (img : Block) (i : ℕ) :
    (methodArrays img i).flatMap ArrayAt.slots =
      (List.range (methodNum img i)).flatMap fun j => [methodAt img i j + 4] := by
  have hparams : ((List.range (methodNum img i)).map fun j =>
      (⟨paramElem, (img.word (methodAt img i j + 4)).toNat, (img (methodAt img i j)).toNat⟩ :
        ArrayAt)).flatMap ArrayAt.slots = [] := by
    refine List.flatMap_eq_nil_iff.mpr fun a ha => ?_
    obtain ⟨j, -, rfl⟩ := List.mem_map.mp ha
    exact slots_nil rfl
  rw [methodArrays, List.flatMap_cons, hparams, List.append_nil, slots_single rfl]
  rfl

theorem slots_classArrays (img : Block) (n k : ℕ) :
    (classArrays img n k).flatMap ArrayAt.slots =
      (List.range (interfacePtrNum img k)).flatMap fun j => [interfacePtrAt img k j] := by
  rw [classArrays, List.flatMap_cons, List.flatMap_cons, List.flatMap_nil, List.append_nil,
    slots_single rfl, slots_nil rfl, List.append_nil]
  rfl

/-- The walk visits the pointers of all arrays, in an order of its own. -/
theorem slots_perm (img : Block) (n : ℕ) :
    ((arrays img n).flatMap ArrayAt.slots).Perm (slots img) := by
  have hinterfaces := List.flatMap_append_perm (List.range (interfaceNum img))
    (fun i => [interfaceAt img i + 20]) fun i => (methodArrays img i).flatMap ArrayAt.slots
  have hclasses := List.flatMap_append_perm (List.range (classNum img))
    (fun k => [classAt img k, classAt img k + 24]) fun k => (classArrays img n k).flatMap ArrayAt.slots
  have hclass : ((List.range (classNum img)).flatMap fun k =>
      [classAt img k, classAt img k + 24] ++ (classArrays img n k).flatMap ArrayAt.slots).Perm
      ((List.range (classNum img)).flatMap (classSlots img)) := by
    refine List.Perm.flatMap_left _ fun k _ => ?_
    rw [slots_classArrays, classSlots]
    exact (List.Perm.swap _ _ _).trans (List.Perm.cons _ (List.perm_append_singleton _ _).symm)
  have hinterface : ((List.range (interfaceNum img)).flatMap fun i =>
      [interfaceAt img i + 20] ++ (methodArrays img i).flatMap ArrayAt.slots) =
      (List.range (interfaceNum img)).flatMap (interfaceSlots img) := by
    refine List.flatMap_congr fun i _ => ?_
    rw [slots_methodArrays]
    rfl
  rw [hinterface] at hinterfaces
  have hclasses := hclasses.trans hclass
  have hslots : (arrays img n).flatMap ArrayAt.slots = [8, 12] ++
      (List.range (interfaceNum img)).flatMap (fun i => [interfaceAt img i + 20]) ++
      (List.range (classNum img)).flatMap (fun k => [classAt img k, classAt img k + 24]) ++
      (List.range (interfaceNum img)).flatMap (fun i => (methodArrays img i).flatMap ArrayAt.slots) ++
      (List.range (classNum img)).flatMap fun k => (classArrays img n k).flatMap ArrayAt.slots := by
    simp only [arrays, List.flatMap_append, List.flatMap_cons, List.flatMap_nil, List.append_nil,
      List.flatMap_assoc, slots_nil (e := charElem) rfl, List.nil_append]
    rfl
  refine List.perm_iff_count.mpr fun p => ?_
  have h₁ := hinterfaces.count_eq p
  have h₂ := hclasses.count_eq p
  rw [hslots, slots]
  simp only [List.count_append, List.count_cons, List.count_nil] at h₁ h₂ ⊢
  omega

theorem WellFormed.fits (h : WellFormed img n) : Fits (data img n) (slots img) :=
  (ArrayAt.fits (fun _ => ok_of_mem_arrays) h.disjoint).perm (slots_perm img n)

/-! #### Where the arrays are -/

theorem mem_methods (hi : i < interfaceNum img) :
    ⟨methodElem, methodAt img i 0, methodNum img i⟩ ∈ arrays img n :=
  List.mem_append_left _ (List.mem_append_right _
    (List.mem_flatMap.mpr ⟨i, List.mem_range.mpr hi, List.mem_cons_self⟩))

theorem mem_params (hi : i < interfaceNum img) (hj : j < methodNum img i) :
    ⟨paramElem, (img.word (methodAt img i j + 4)).toNat, (img (methodAt img i j)).toNat⟩ ∈
      arrays img n :=
  List.mem_append_left _ (List.mem_append_right _
    (List.mem_flatMap.mpr ⟨i, List.mem_range.mpr hi, List.mem_cons_of_mem _
      (List.mem_map.mpr ⟨j, List.mem_range.mpr hj, rfl⟩)⟩))

theorem mem_classArrays {a : ArrayAt} (hk : k < classNum img) (ha : a ∈ classArrays img n k) :
    a ∈ arrays img n :=
  List.mem_append_right _ (List.mem_flatMap.mpr ⟨k, List.mem_range.mpr hk, ha⟩)

theorem mem_interfaces : ⟨interfaceElem, interfaceAt img 0, interfaceNum img⟩ ∈ arrays img n := by
  simp [arrays]

theorem mem_classes : ⟨classElem, classAt img 0, classNum img⟩ ∈ arrays img n := by
  simp [arrays]

theorem mem_header : ⟨headerElem, 0, 1⟩ ∈ arrays img n := by
  simp [arrays]

theorem mem_uunm : ⟨charElem, 16, nameSize img n 16⟩ ∈ arrays img n := by
  simp [arrays]

theorem WellFormed.lt (h : WellFormed img n) : n < 4294967296 := by
  have hlt := (img.word 0).toNat_lt
  rwa [h.total] at hlt

/-- The end of an array does not wrap. -/
theorem WellFormed.end_lt {a : ArrayAt} (h : WellFormed img n) (ha : a ∈ arrays img n) :
    a.start + a.elem.size * a.count < 4294967296 :=
  (h.inside a ha).trans_lt h.lt

theorem interface_data {b : ℕ} (hi : i < interfaceNum img) (hle : interfaceAt img i ≤ b)
    (hlt : b < interfaceAt img i + 18) : b ∈ data img n := by
  refine ⟨_, mem_interfaces, i, hi, (0, 18), List.mem_cons_self, ?_, ?_⟩ <;>
    simp only [interfaceElem, interfaceAt] at hle hlt ⊢ <;> omega

theorem method_data {b : ℕ} (hi : i < interfaceNum img) (hj : j < methodNum img i)
    (hle : methodAt img i j ≤ b) (hlt : b < methodAt img i j + 3) : b ∈ data img n := by
  refine ⟨_, mem_methods hi, j, hj, (0, 3), List.mem_cons_self, ?_, ?_⟩ <;>
    simp only [methodElem, methodAt] at hle hlt ⊢ <;> omega

theorem class_data {b : ℕ} (hk : k < classNum img) (hle : classAt img k + 4 ≤ b)
    (hlt : b < classAt img k + 22) : b ∈ data img n := by
  refine ⟨_, mem_classes, k, hk, (4, 18), List.mem_cons_self, ?_, ?_⟩ <;>
    simp only [classElem, classAt] at hle hlt ⊢ <;> omega

theorem name_data {o m b : ℕ} (hmem : ⟨charElem, o, m⟩ ∈ arrays img n) (hle : o ≤ b)
    (hlt : b < o + m) : b ∈ data img n := by
  have hcount : b - o < m := by omega
  refine ⟨_, hmem, b - o, hcount, (0, 1), List.mem_cons_self, ?_, ?_⟩ <;>
    simp only [charElem] <;> omega

theorem header_data {b : ℕ} (hlt : b < 8) : b ∈ data img n := by
  refine ⟨_, mem_header, 0, Nat.one_pos, (0, 8), List.mem_cons_self, ?_, ?_⟩ <;>
    simp only [headerElem] <;> omega

/-! #### The walk -/

/-- The block that is walked over has the data of the flat image, and patching leads from its pointers to
where those of the flat image lead. -/
structure Resolves (f enter : UInt32 → UInt32) (dest : UInt32) (img d : Block) (n : ℕ) : Prop where
  resolve : ∀ p ∈ slots img, enter (f (d.word p)) = dest + img.word p
  same : ∀ b ∈ data img n, d b = img b

theorem Resolves.half {o : ℕ} (hr : Resolves f enter dest img d n)
    (h : ∀ b, o ≤ b → b < o + 2 → b ∈ data img n) : d.half o = img.half o := by
  rw [Block.half, Block.half, load_congr fun b hle hlt => hr.same b (h b hle hlt)]

theorem patches_patchMethods (h : WellFormed img n) (hr : Resolves f enter dest img d n)
    (hi : i < interfaceNum img) :
    Patches f (data img n) d
      (patchMethods f dest (dest + img.word (interfaceAt img i + 20)) (interfaceAt img i))
      ((List.range (methodNum img i)).flatMap fun j => [methodAt img i j + 4]) := by
  have hread : ∀ b, interfaceAt img i + 16 ≤ b → b < interfaceAt img i + 16 + 2 → b ∈ data img n :=
    fun b hle hlt => interface_data hi (by omega) (by omega)
  have hnum : methodNum img i = (d.half (interfaceAt img i + 16)).toNat := by
    rw [hr.half hread, methodNum]
  rw [patchMethods, hnum]
  refine Patches.countUp hread fun j hj => ?_
  have hend := h.end_lt (mem_methods hi)
  have hq : offsetAt dest (dest + img.word (interfaceAt img i + 20) + UInt32.ofNat (8 * j)) =
      methodAt img i j := by
    refine offsetAt_add dest ?_
    rw [← hnum] at hj
    simp only [methodElem, methodAt] at hend
    omega
  simp only [hq]
  exact Patches.slot _

theorem patches_patchInterface (h : WellFormed img n) (hr : Resolves f enter dest img d n)
    (hi : i < interfaceNum img) :
    Patches f (data img n) d (patchInterface f enter dest (dest + img.word 12) i)
      (interfaceSlots img i) := by
  have hend := h.end_lt mem_interfaces
  have hp : offsetAt dest (dest + img.word 12 + UInt32.ofNat (24 * i)) = interfaceAt img i := by
    refine offsetAt_add dest ?_
    simp only [interfaceElem, interfaceAt] at hend
    omega
  have hslot : interfaceAt img i + 20 ∈ slots img :=
    List.mem_append_left _ (List.mem_cons_of_mem _
      (List.mem_flatMap.mpr ⟨i, List.mem_range.mpr hi, List.mem_cons_self⟩))
  unfold patchInterface
  simp only [hp]
  refine Patches.follow (k := fun w => patchMethods f dest (enter w) (interfaceAt img i)) ?_
  rw [hr.resolve _ hslot]
  exact patches_patchMethods h hr hi

theorem patches_patchInterfaces (h : WellFormed img n) (hr : Resolves f enter dest img d n) :
    Patches f (data img n) d (patchInterfaces f enter dest)
      (12 :: (List.range (interfaceNum img)).flatMap (interfaceSlots img)) := by
  have hread : ∀ b, 6 ≤ b → b < 6 + 2 → b ∈ data img n := fun b _ hlt => header_data (by omega)
  have hnum : interfaceNum img = (d.half 6).toNat := by rw [hr.half hread, interfaceNum]
  refine Patches.follow
    (k := fun w => countUp (fun d => d.half 6) (patchInterface f enter dest (enter w))) ?_
  rw [hr.resolve _ (List.mem_append_left _ List.mem_cons_self), hnum]
  exact Patches.countUp hread fun i hi => patches_patchInterface h hr (hnum ▸ hi)

theorem patches_patchInterfacePtrs (h : WellFormed img n) (hr : Resolves f enter dest img d n)
    (hk : k < classNum img) :
    Patches f (data img n) d
      (patchInterfacePtrs f dest (dest + img.word (classAt img k + 24)) (classAt img k))
      ((List.range (interfacePtrNum img k)).flatMap fun j => [interfacePtrAt img k j]) := by
  have hread : ∀ b, classAt img k + 20 ≤ b → b < classAt img k + 20 + 2 → b ∈ data img n :=
    fun b hle hlt => class_data hk (by omega) (by omega)
  have hnum : interfacePtrNum img k = (d.half (classAt img k + 20)).toNat := by
    rw [hr.half hread, interfacePtrNum]
  rw [patchInterfacePtrs, hnum]
  refine Patches.countUp hread fun j hj => ?_
  have hend := h.end_lt (mem_classArrays hk List.mem_cons_self)
  have hq : offsetAt dest (dest + img.word (classAt img k + 24) + UInt32.ofNat (4 * j)) =
      interfacePtrAt img k j := by
    refine offsetAt_add dest ?_
    rw [← hnum] at hj
    simp only [interfacePtrElem, interfacePtrAt] at hend
    omega
  simp only [hq]
  exact Patches.slot _

theorem patches_patchClass (h : WellFormed img n) (hr : Resolves f enter dest img d n)
    (hk : k < classNum img) :
    Patches f (data img n) d (patchClass f enter dest (dest + img.word 8) k) (classSlots img k) := by
  have hend := h.end_lt mem_classes
  have hp : offsetAt dest (dest + img.word 8 + UInt32.ofNat (28 * k)) = classAt img k := by
    refine offsetAt_add dest ?_
    simp only [classElem, classAt] at hend
    omega
  have hslot : classAt img k + 24 ∈ slots img :=
    List.mem_append_right _ (List.mem_cons_of_mem _
      (List.mem_flatMap.mpr ⟨k, List.mem_range.mpr hk, List.mem_cons_self⟩))
  unfold patchClass
  simp only [hp]
  refine Patches.follow (k := fun w d =>
    (patchInterfacePtrs f dest (enter w) (classAt img k) d).setWord (classAt img k)
      (f ((patchInterfacePtrs f dest (enter w) (classAt img k) d).word (classAt img k)))) ?_
  rw [hr.resolve _ hslot]
  exact (patches_patchInterfacePtrs h hr hk).seq (Patches.slot _)

theorem patches_patchClasses (h : WellFormed img n) (hr : Resolves f enter dest img d n) :
    Patches f (data img n) d (patchClasses f enter dest)
      (8 :: (List.range (classNum img)).flatMap (classSlots img)) := by
  have hread : ∀ b, 4 ≤ b → b < 4 + 2 → b ∈ data img n := fun b _ hlt => header_data (by omega)
  have hnum : classNum img = (d.half 4).toNat := by rw [hr.half hread, classNum]
  refine Patches.follow
    (k := fun w => countUp (fun d => d.half 4) (patchClass f enter dest (enter w))) ?_
  rw [hr.resolve _ (List.mem_append_right _ List.mem_cons_self), hnum]
  exact Patches.countUp hread fun k hk => patches_patchClass h hr (hnum ▸ hk)

/-- **The walk** patches the pointers of the image, each once. -/
theorem patchModule_eq {src : List UInt8} (h : WellFormed img n) (hlen : src.length = n)
    (htotal : ((image src).word 0).toNat = n) (hr : Resolves f enter dest img (image src) n) :
    patchModule f enter dest src = load (patch f (slots img) (image src)) 0 n := by
  have hwalk := ((patches_patchInterfaces h hr).seq (patches_patchClasses h hr)).eq_patch h.fits
  rw [patchModule, htotal, List.take_of_length_le hlen.le]
  exact congrArg (fun d => load d 0 n) hwalk

end Walk

/-! ### What the copies say -/

section Agrees

variable {img d : Block} {n i j k : ℕ} {base : UInt32}

/-- The image at `base` is the flat one with its pointers relocated. -/
structure Agrees (base : UInt32) (img d : Block) (n : ℕ) : Prop where
  follow : ∀ p ∈ slots img, offsetAt base (d.word p) = (img.word p).toNat
  same : ∀ b ∈ data img n, d b = img b

theorem mem_slots_interface {p : ℕ} (hi : i < interfaceNum img) (hp : p ∈ interfaceSlots img i) :
    p ∈ slots img :=
  List.mem_append_left _ (List.mem_cons_of_mem _
    (List.mem_flatMap.mpr ⟨i, List.mem_range.mpr hi, hp⟩))

theorem mem_slots_class {p : ℕ} (hk : k < classNum img) (hp : p ∈ classSlots img k) : p ∈ slots img :=
  List.mem_append_right _ (List.mem_cons_of_mem _
    (List.mem_flatMap.mpr ⟨k, List.mem_range.mpr hk, hp⟩))

theorem Agrees.load {o m : ℕ} (ha : Agrees base img d n)
    (h : ∀ b, o ≤ b → b < o + m → b ∈ data img n) : load d o m = load img o m :=
  load_congr fun b hle hlt => ha.same b (h b hle hlt)

theorem Agrees.half {o : ℕ} (ha : Agrees base img d n)
    (h : ∀ b, o ≤ b → b < o + 2 → b ∈ data img n) : d.half o = img.half o := by
  rw [Block.half, Block.half, ha.load h]

theorem follow_zero (img : Block) (p : ℕ) : follow 0 img p = (img.word p).toNat := by
  rw [follow, offsetAt, UInt32.sub_zero]

theorem Agrees.follow_eq {p : ℕ} (ha : Agrees base img d n) (hp : p ∈ slots img) :
    CIModuleInfo.follow base d p = CIModuleInfo.follow 0 img p :=
  (ha.follow p hp).trans (follow_zero img p).symm

theorem describeMethod_eq (ha : Agrees base img d n) (hi : i < interfaceNum img)
    (hj : j < methodNum img i) :
    describeMethod base d (methodAt img i j) = describeMethod 0 img (methodAt img i j) := by
  have hbyte : ∀ b < 3, d (methodAt img i j + b) = img (methodAt img i j + b) := fun b hb =>
    ha.same _ (method_data hi hj (by omega) (by omega))
  have hslot : methodAt img i j + 4 ∈ slots img :=
    mem_slots_interface hi (List.mem_cons_of_mem _
      (List.mem_flatMap.mpr ⟨j, List.mem_range.mpr hj, List.mem_cons_self⟩))
  have h0 : d (methodAt img i j) = img (methodAt img i j) := hbyte 0 (by decide)
  rw [describeMethod, describeMethod, hbyte 1 (by decide), hbyte 2 (by decide), h0,
    ha.follow_eq hslot]
  congr 1
  refine List.map_congr_left fun m hm => ?_
  have hparam : ∀ b, follow 0 img (methodAt img i j + 4) + 4 * m ≤ b →
      b < follow 0 img (methodAt img i j + 4) + 4 * m + 4 → b ∈ data img n := fun b hle hlt => by
    rw [follow_zero] at hle hlt
    exact ⟨_, mem_params hi hj, m, List.mem_range.mp hm, (0, 4), List.mem_cons_self, hle, hlt⟩
  rw [Block.word, Block.word, ha.load hparam]

theorem describeInterface_eq (ha : Agrees base img d n) (hi : i < interfaceNum img) :
    describeInterface base d (interfaceAt img i) = describeInterface 0 img (interfaceAt img i) := by
  have hid := ha.load (o := interfaceAt img i) (m := 16) fun b hle hlt =>
    interface_data hi hle (by omega)
  have hnum := ha.half (o := interfaceAt img i + 16) fun b hle hlt =>
    interface_data hi (by omega) (by omega)
  rw [describeInterface, describeInterface, hid, hnum,
    ha.follow_eq (mem_slots_interface hi List.mem_cons_self)]
  congr 1
  refine List.map_congr_left fun j hj => ?_
  rw [follow_zero]
  exact describeMethod_eq ha hi (List.mem_range.mp hj)

/-- The characters that a scan finds are followed by a zero. -/
theorem load_terminated_of_cstring {o m : ℕ} {s : CString}
    (hs : cstring (ElastosCar.load img o m) = some s) :
    ElastosCar.load img o (s.chars.length + 1) = s.terminated := by
  have hlen := length_cstring_lt hs
  rw [length_load] at hlen
  have hsplit := load_append img o (s.chars.length + 1) (m - (s.chars.length + 1))
  rw [Nat.add_sub_cancel' hlen] at hsplit
  obtain ⟨r, hr⟩ := eq_append_of_cstring hs
  rw [hsplit] at hr
  have happ : s.chars ++ 0 :: r = s.terminated ++ r := by rw [CString.terminated, List.append_assoc]; rfl
  rw [happ] at hr
  exact (List.append_inj hr (by simp)).1

/-- The bytes of a string with its terminator decide what is read. -/
theorem describeName_eq {o : ℕ} (ha : Agrees base img d n) (hsome : (nameAt img n o).isSome = true)
    (hdata : ∀ b, o ≤ b → b < o + nameSize img n o → b ∈ data img n) :
    describeName n d o = describeName n img o := by
  obtain ⟨s, hs⟩ := Option.isSome_iff_exists.mp hsome
  have hlen := length_cstring_lt hs
  rw [length_load] at hlen
  rw [nameSize, hs] at hdata
  change ∀ b, o ≤ b → b < o + (s.chars.length + 1) → b ∈ data img n at hdata
  have hsplit : ∀ e : Block, ElastosCar.load e o (n - o) = ElastosCar.load e o (s.chars.length + 1) ++
      ElastosCar.load e (o + (s.chars.length + 1)) (n - o - (s.chars.length + 1)) := fun e => by
    rw [← load_append]
    congr 1
    omega
  have hterminated : ElastosCar.load img o (s.chars.length + 1) = s.terminated :=
    load_terminated_of_cstring hs
  have hd : nameAt d n o = some s := by
    rw [nameAt, hsplit, ha.load hdata, hterminated, CString.terminated, List.append_assoc]
    exact cstring_append s _
  rw [describeName, describeName, hd, hs]

theorem describeClass_eq (h : WellFormed img n) (ha : Agrees base img d n) (hk : k < classNum img) :
    describeClass base n d (classAt img k) = describeClass 0 n img (classAt img k) := by
  have hslot : classAt img k ∈ slots img :=
    mem_slots_class hk (List.mem_cons_of_mem _ (List.mem_append_right _ List.mem_cons_self))
  have hname := describeName_eq (o := (img.word (classAt img k)).toNat) ha (h.named k hk)
    fun b => name_data (mem_classArrays hk (List.mem_cons_of_mem _ List.mem_cons_self))
  have hid := ha.load (o := classAt img k + 4) (m := 16) fun b hle hlt => class_data hk hle (by omega)
  have hnum := ha.half (o := classAt img k + 20) fun b hle hlt =>
    class_data hk (by omega) (by omega)
  rw [describeClass, describeClass, ha.follow_eq hslot, follow_zero, hname, hid, hnum,
    ha.follow_eq (mem_slots_class hk List.mem_cons_self)]
  congr 1
  refine List.map_congr_left fun j hj => ?_
  have hj := List.mem_range.mp hj
  rw [follow_zero]
  have hptr : interfacePtrAt img k j ∈ slots img :=
    mem_slots_class hk (List.mem_cons_of_mem _ (List.mem_append_left _
      (List.mem_flatMap.mpr ⟨j, List.mem_range.mpr hj, List.mem_cons_self⟩)))
  obtain ⟨i, hi, heq⟩ := h.refers k hk j hj
  change describeInterface base d (follow base d (interfacePtrAt img k j)) =
    describeInterface 0 img (follow 0 img (interfacePtrAt img k j))
  rw [ha.follow_eq hptr, follow_zero, heq]
  exact describeInterface_eq ha hi

/-- **A relocated image says what the flat one says.** -/
theorem describe_eq (h : WellFormed img n) (ha : Agrees base img d n) :
    describe base n d = describe 0 n img := by
  have htotal : d.word 0 = img.word 0 := by
    rw [Block.word, Block.word, ha.load fun b _ hlt => header_data (by omega)]
  have hclasses := ha.half (o := 4) fun b _ hlt => header_data (by omega)
  have hinterfaces := ha.half (o := 6) fun b _ hlt => header_data (by omega)
  have hname := describeName_eq (o := 16) ha h.uunm fun b => name_data mem_uunm
  have hks : (List.range (img.half 4).toNat).map (fun k =>
      describeClass base n d (follow 0 img 8 + 28 * k)) =
      (List.range (img.half 4).toNat).map fun k =>
        describeClass 0 n img (follow 0 img 8 + 28 * k) := by
    refine List.map_congr_left fun k hk => ?_
    rw [follow_zero]
    exact describeClass_eq h ha (List.mem_range.mp hk)
  have his : (List.range (img.half 6).toNat).map (fun i =>
      describeInterface base d (follow 0 img 12 + 24 * i)) =
      (List.range (img.half 6).toNat).map fun i =>
        describeInterface 0 img (follow 0 img 12 + 24 * i) := by
    refine List.map_congr_left fun i hi => ?_
    rw [follow_zero]
    exact describeInterface_eq ha (List.mem_range.mp hi)
  rw [describe, describe, htotal, hclasses, hinterfaces, hname,
    ha.follow_eq (List.mem_append_right _ List.mem_cons_self),
    ha.follow_eq (List.mem_append_left _ List.mem_cons_self), hks, his]

end Agrees

/-! ### There and back -/

section Relocated

variable {bs : List UInt8}

/-- The copy of a flat image at an address. -/
theorem RelocateModuleInfo_eq (h : WellFormed (image bs) bs.length) (dest : UInt32) :
    RelocateModuleInfo dest bs =
      ElastosCar.load (patch (fun v => dest + v) (slots (image bs)) (image bs)) 0 bs.length :=
  patchModule_eq h rfl h.total ⟨fun _ _ => rfl, fun _ _ => rfl⟩

/-- The slots are inside the image, so patching writes nothing behind it. -/
theorem image_load_patch (h : WellFormed (image bs) bs.length) (f : UInt32 → UInt32) :
    image (ElastosCar.load (patch f (slots (image bs)) (image bs)) 0 bs.length) =
      patch f (slots (image bs)) (image bs) := by
  refine image_load fun b hb => ?_
  rw [patch_apply_of_clear, image_of_le hb]
  intro p hp
  obtain ⟨a, ha, hp⟩ := List.mem_flatMap.mp ((slots_perm _ bs.length).mem_iff.mpr hp)
  have hin := ArrayAt.inside_of_mem_slots (ok_of_mem_arrays ha) hp
  have hend := h.inside a ha
  omega

theorem image_RelocateModuleInfo (h : WellFormed (image bs) bs.length) (dest : UInt32) :
    image (RelocateModuleInfo dest bs) =
      patch (fun v => dest + v) (slots (image bs)) (image bs) := by
  rw [RelocateModuleInfo_eq h, image_load_patch h]

/-- The relocated image has the data of the flat one, and its pointers lead where those of the flat one
lead. -/
theorem agrees_RelocateModuleInfo (h : WellFormed (image bs) bs.length) (dest : UInt32) :
    Agrees dest (image bs) (image (RelocateModuleInfo dest bs)) bs.length := by
  rw [image_RelocateModuleInfo h]
  constructor
  · intro p hp
    rw [word_patch_of_mem h.fits.apart hp, offsetAt_base_add]
  · exact fun b hb => patch_apply_of_clear fun p hp => h.fits.clear p hp b hb

/-- **Flattening a relocated image** gives the flat image back. -/
theorem FlatModuleInfo_RelocateModuleInfo (h : WellFormed (image bs) bs.length)
    (dest flatAt : UInt32) : FlatModuleInfo dest flatAt (RelocateModuleInfo dest bs) = bs := by
  have hagrees := agrees_RelocateModuleInfo h dest
  have hlen : (RelocateModuleInfo dest bs).length = bs.length := by
    rw [RelocateModuleInfo_eq h, length_load]
  have htotal : ((image (RelocateModuleInfo dest bs)).word 0).toNat = bs.length := by
    rw [Block.word, hagrees.load fun b _ hlt => header_data (by omega)]
    exact h.total
  have hresolves : Resolves (fun v => v - dest) (fun v => v + flatAt) flatAt (image bs)
      (image (RelocateModuleInfo dest bs)) bs.length := by
    refine ⟨fun p hp => ?_, hagrees.same⟩
    rw [image_RelocateModuleInfo h, word_patch_of_mem h.fits.apart hp, UInt32.add_comm dest,
      UInt32.add_sub_cancel, UInt32.add_comm]
  rw [FlatModuleInfo, patchModule_eq h hlen htotal hresolves, image_RelocateModuleInfo h,
    patch_patch h.fits.apart fun v => by rw [UInt32.add_comm, UInt32.add_sub_cancel], load_image]

/-- **Module infos travel.** Flattening gives the image back byte for byte; relocated to a second
address its pointers lead where they led in the first copy, and the second copy describes the same
classes, interfaces, methods and parameters. -/
theorem flat_relocate (h : WellFormed (image bs) bs.length) (dest flatAt dest' : UInt32) :
    FlatModuleInfo dest flatAt (RelocateModuleInfo dest bs) = bs ∧
    (∀ p ∈ slots (image bs),
      follow dest' (image (RelocateModuleInfo dest'
          (FlatModuleInfo dest flatAt (RelocateModuleInfo dest bs)))) p =
        follow dest (image (RelocateModuleInfo dest bs)) p) ∧
    describe dest' bs.length (image (RelocateModuleInfo dest'
        (FlatModuleInfo dest flatAt (RelocateModuleInfo dest bs)))) =
      describe dest bs.length (image (RelocateModuleInfo dest bs)) := by
  have hagrees := agrees_RelocateModuleInfo h dest
  have hagrees' := agrees_RelocateModuleInfo h dest'
  rw [FlatModuleInfo_RelocateModuleInfo h]
  refine ⟨rfl, fun p hp => ?_, ?_⟩
  · rw [hagrees'.follow_eq hp, hagrees.follow_eq hp]
  · rw [describe_eq h hagrees', describe_eq h hagrees]

/-- A module with one class and one interface of one method; the interface pointer of the class is not
aligned. -/
private def oneClass : List UInt8 :=
  toLE 4 90 ++ toLE 2 1 ++ toLE 2 1 ++ toLE 4 20 ++ toLE 4 48 ++ [0x6D, 0, 0, 0] ++
  (toLE 4 80 ++ toLE 16 7 ++ toLE 2 1 ++ toLE 2 0 ++ toLE 4 82) ++
  (toLE 16 9 ++ toLE 2 1 ++ toLE 2 0 ++ toLE 4 72) ++
  ([1, 0, 0, 0] ++ toLE 4 86) ++ [0x63, 0] ++ toLE 4 48 ++ toLE 4 0x10001

private theorem wellFormed_oneClass : WellFormed (image oneClass) oneClass.length where
  total := by decide +kernel
  inside := by decide +kernel
  disjoint := by decide +kernel
  uunm := by decide +kernel
  named := by decide +kernel
  refers := by decide +kernel

/-- A copy that travels from one address to another. -/
theorem flat_relocate_oneClass :
    FlatModuleInfo 0x1000 0x2000 (RelocateModuleInfo 0x1000 oneClass) = oneClass ∧
      describe 0x3000 90 (image (RelocateModuleInfo 0x3000 oneClass)) =
        describe 0x1000 90 (image (RelocateModuleInfo 0x1000 oneClass)) := by
  obtain ⟨hflat, -, hdescribe⟩ := flat_relocate wellFormed_oneClass 0x1000 0x2000 0x3000
  rw [hflat] at hdescribe
  exact ⟨hflat, hdescribe⟩

end Relocated

end CIModuleInfo

end ElastosCar.ClsInfo
