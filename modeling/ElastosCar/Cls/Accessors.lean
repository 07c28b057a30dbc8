import ElastosCar.Cls.Reloc

/-!
# Reading a class image

The accessors of `adjustaddr.h`, by which the reflection reads a `CLSModule`. A flat image is read
in place: every pointer is an offset, to which the accessors add the address of the image. A copy
that `DoRelocCLS` has relocated is read with a base of 0.

A *path* is a sequence of fields, from the header on. `Path.offsets` says where it leads in the
image; `trail` are the addresses that the accessors pass on it.

* `trail_inPlace`: in place a path leads where it should.
* `accessors_agree_iff`: in the relocated copy it leads to the same descriptors exactly when it
  goes through no nested type that `DoRelocCLS` misses: that of a method's return type, or of a type
  that is nested itself.
-/

namespace ElastosCar

namespace Cls

open RelocM

/-! ### The accessors -/

/-- The module of the reflection: the memory, where the image is in it, and the base. -/
structure CClsModule where
  mem : Block
  mClsMod : UInt32
  mBase : UInt32

namespace CClsModule

/-- `CClsModule::CClsModule` -/
def new (mem : Block) (clsMod : UInt32) (allocedClsMod : Bool) : CClsModule where
  mem := mem
  mClsMod := clsMod
  mBase := if allocedClsMod then 0 else clsMod

variable (m : CClsModule)

/-- The pointer at an offset of the descriptor at an address. -/
def load (p : UInt32) (o : ℕ) : UInt32 := m.mem.word (offsetAt m.mClsMod p + o)

/-- `dir = dir + base; dir[index] + base` -/
def getAddr (dir : UInt32) (index : ℕ) : UInt32 := m.load (dir + m.mBase) (4 * index) + m.mBase

def getClassDirAddr := m.getAddr
def getInterfaceDirAddr := m.getAddr
def getStructDirAddr := m.getAddr
def getEnumDirAddr := m.getAddr
def getAliasDirAddr := m.getAddr
def getArrayDirAddr := m.getAddr
def getConstDirAddr := m.getAddr
def getMethodDescAddr := m.getAddr
def getParamDescAddr := m.getAddr
def getStructElementAddr := m.getAddr
def getEnumElementAddr := m.getAddr
def getCIFAddr := m.getAddr
def getLibNameAddr := m.getAddr

/-- `desc ? desc + base : desc` -/
def adjustAddr (desc : UInt32) : UInt32 := if desc ≠ 0 then desc + m.mBase else desc

def adjustNameAddr := m.adjustAddr
def adjustIndexsAddr := m.adjustAddr
def adjustClassDescAddr := m.adjustAddr
def adjustInterfaceDescAddr := m.adjustAddr
def adjustStructDescAddr := m.adjustAddr
def adjustEnumDescAddr := m.adjustAddr
def adjustNestedTypeAddr := m.adjustAddr

end CClsModule

/-! ### The fields -/

/-- What a pointer of an image leads to. -/
inductive Descriptor
  | clsModule
  | classDirEntry
  | classDescriptor
  | classInterface
  | interfaceDirEntry
  | interfaceDescriptor
  | methodDescriptor
  | paramDescriptor
  | structDirEntry
  | structDescriptor
  | structElement
  | enumDirEntry
  | enumDescriptor
  | enumElement
  | aliasDirEntry
  | arrayDirEntry
  | constDirEntry
  | typeDescriptor
  /-- a string -/
  | chars
  /-- an array of numbers -/
  | indexes
deriving DecidableEq

namespace Descriptor

/-- With a name in front. -/
def named : List Descriptor :=
  [classDirEntry, interfaceDirEntry, structDirEntry, enumDirEntry, aliasDirEntry, constDirEntry,
    methodDescriptor, paramDescriptor, structElement, enumElement]

/-- With a namespace behind the name. -/
def spaced : List Descriptor :=
  [classDirEntry, interfaceDirEntry, structDirEntry, enumDirEntry, aliasDirEntry, constDirEntry]

end Descriptor

open Descriptor

/-- The pointers that are read through the accessors: where they are, and what they lead to. The
nested type of a type that is part of a descriptor is one of its own. -/
inductive Field : Descriptor → Descriptor → Type
  | mUunm : Field clsModule chars
  | mClassDirs : Field clsModule classDirEntry
  | mInterfaceDirs : Field clsModule interfaceDirEntry
  | mStructDirs : Field clsModule structDirEntry
  | mEnumDirs : Field clsModule enumDirEntry
  | mAliasDirs : Field clsModule aliasDirEntry
  | mLibraryNames : Field clsModule chars
  | mArrayDirs : Field clsModule arrayDirEntry
  | mConstDirs : Field clsModule constDirEntry
  | mName {k : Descriptor} (h : k ∈ named) : Field k chars
  | mNameSpace {k : Descriptor} (h : k ∈ spaced) : Field k chars
  | classDesc : Field classDirEntry classDescriptor
  | interfaceDesc : Field interfaceDirEntry interfaceDescriptor
  | structDesc : Field structDirEntry structDescriptor
  | enumDesc : Field enumDirEntry enumDescriptor
  | mInterfaces : Field classDescriptor classInterface
  | mAggrIndexes : Field classDescriptor indexes
  | mAspectIndexes : Field classDescriptor indexes
  | mMethods : Field interfaceDescriptor methodDescriptor
  | mSignature : Field methodDescriptor chars
  | mAnnotation : Field methodDescriptor chars
  | mParams : Field methodDescriptor paramDescriptor
  | structElements : Field structDescriptor structElement
  | enumElements : Field enumDescriptor enumElement
  | returnNestedType : Field methodDescriptor typeDescriptor
  | paramNestedType : Field paramDescriptor typeDescriptor
  | elementNestedType : Field structElement typeDescriptor
  | aliasNestedType : Field aliasDirEntry typeDescriptor
  | arrayNestedType : Field arrayDirEntry typeDescriptor
  | mNestedType : Field typeDescriptor typeDescriptor

/-- How a pointer is read, with the offsets of what is read. -/
inductive Access
  /-- an array of pointers -/
  | table (mCount mItems : ℕ)
  /-- an array of numbers -/
  | indexes (mCount mIndexes : ℕ)
  | pointer (o : ℕ)
  /-- a pointer that the `Map` functions do not look for -/
  | unmapped (o : ℕ)

namespace Field

/-- The pointer in a field of the descriptor at `p`, by the accessor for it; of an array that of the
element `i`. -/
def read (m : CClsModule) (p : UInt32) (i : ℕ) {k k' : Descriptor} : Field k k' → UInt32
  | mUunm => m.adjustNameAddr (m.load p 36)
  | mClassDirs => m.getClassDirAddr (m.load p 92) i
  | mInterfaceDirs => m.getInterfaceDirAddr (m.load p 96) i
  | mStructDirs => m.getStructDirAddr (m.load p 104) i
  | mEnumDirs => m.getEnumDirAddr (m.load p 108) i
  | mAliasDirs => m.getAliasDirAddr (m.load p 112) i
  | mLibraryNames => m.getLibNameAddr (m.load p 116) i
  | mArrayDirs => m.getArrayDirAddr (m.load p 120) i
  | mConstDirs => m.getConstDirAddr (m.load p 124) i
  | mName _ => m.adjustNameAddr (m.load p 0)
  | mNameSpace _ => m.adjustNameAddr (m.load p 4)
  | classDesc => m.adjustClassDescAddr (m.load p 12)
  | interfaceDesc => m.adjustInterfaceDescAddr (m.load p 12)
  | structDesc => m.adjustStructDescAddr (m.load p 12)
  | enumDesc => m.adjustEnumDescAddr (m.load p 12)
  | mInterfaces => m.getCIFAddr (m.load p 32) i
  | mAggrIndexes => m.adjustIndexsAddr (m.load p 36)
  | mAspectIndexes => m.adjustIndexsAddr (m.load p 40)
  | mMethods => m.getMethodDescAddr (m.load p 32) i
  | mSignature => m.adjustNameAddr (m.load p 4)
  | mAnnotation => m.adjustNameAddr (m.load p 8)
  | mParams => m.getParamDescAddr (m.load p 36) i
  | structElements => m.getStructElementAddr (m.load p 4) i
  | enumElements => m.getEnumElementAddr (m.load p 4) i
  | returnNestedType => m.adjustNestedTypeAddr (m.load p 28)
  | paramNestedType => m.adjustNestedTypeAddr (m.load p 20)
  | elementNestedType => m.adjustNestedTypeAddr (m.load p 20)
  | aliasNestedType => m.adjustNestedTypeAddr (m.load p 24)
  | arrayNestedType => m.adjustNestedTypeAddr (m.load p 24)
  | mNestedType => m.adjustNestedTypeAddr (m.load p 16)

def access {k k' : Descriptor} : Field k k' → Access
  | mUunm => .pointer 36
  | mClassDirs => .table 70 92
  | mInterfaceDirs => .table 72 96
  | mStructDirs => .table 76 104
  | mEnumDirs => .table 78 108
  | mAliasDirs => .table 80 112
  | mLibraryNames => .table 82 116
  | mArrayDirs => .table 84 120
  | mConstDirs => .table 86 124
  | mName _ => .pointer 0
  | mNameSpace _ => .pointer 4
  | classDesc | interfaceDesc | structDesc | enumDesc => .pointer 12
  | mInterfaces => .table 20 32
  | mAggrIndexes => .indexes 22 36
  | mAspectIndexes => .indexes 26 40
  | mMethods => .table 18 32
  | mSignature => .pointer 4
  | mAnnotation => .pointer 8
  | mParams => .table 32 36
  | structElements | enumElements => .table 0 4
  | paramNestedType | elementNestedType => .pointer 20
  | aliasNestedType | arrayNestedType => .pointer 24
  | returnNestedType => .unmapped 28
  | mNestedType => .unmapped 16

end Field

/-- The two kinds of accessors, for a field of the descriptor at `p`. -/
def Access.read (m : CClsModule) (p : UInt32) (i : ℕ) : Access → UInt32
  | .table _ o => m.getAddr (m.load p o) i
  | .indexes _ o | .pointer o | .unmapped o => m.adjustAddr (m.load p o)

theorem Field.read_eq (m : CClsModule) (p : UInt32) (i : ℕ) {k k' : Descriptor} (f : Field k k') :
    f.read m p i = f.access.read m p i := by
  cases f <;> rfl

/-! ### Paths -/

/-- Fields to follow one after another, with the number of the element for those that are arrays. -/
inductive Path : Descriptor → Type
  | nil {k : Descriptor} : Path k
  | cons {k k' : Descriptor} (f : Field k k') (i : ℕ) (path : Path k') : Path k

namespace CClsModule

/-- The offset of what a pointer leads to. -/
def offset (m : CClsModule) (q : UInt32) : Option ℕ :=
  if q = 0 then none else some (offsetAt m.mClsMod q)

/-- What the accessors lead to on a path, which ends at a `NULL`. -/
def trail (m : CClsModule) {k : Descriptor} : Path k → UInt32 → List (Option ℕ)
  | .nil, _ => []
  | .cons f i path, p =>
    let q := f.read m p i
    m.offset q :: if q = 0 then [] else m.trail path q

end CClsModule

section Image

variable (img : Block) (size : ℕ) (added : Set ℕ) (p i : ℕ)

namespace Access

/-- Where the pointer is that the access leads to, for a descriptor at the offset `p`. -/
def slot : Access → ℕ
  | .table _ o => (img.word (p + o)).toNat + 4 * i
  | .indexes _ o | .pointer o | .unmapped o => p + o

/-- The element is one of the array; and what `DoRelocCLS` does not look at is in the image. -/
def InRange : Access → Prop
  | .table c _ | .indexes c _ => i < (img.half (p + c)).toNat
  | .pointer _ => True
  | .unmapped o => (img.word (p + o)).toNat < size

/-- The pointers that are followed are relocated, as far as they are set. -/
def Mapped : Access → Prop
  | .table _ o => p + o ∈ added ∧ (img.word (p + o)).toNat + 4 * i ∈ added
  | .indexes _ o => p + o ∈ added
  | .pointer o => img.word (p + o) ≠ 0 → p + o ∈ added
  | .unmapped _ => True

/-- A pointer that is not looked for is `NULL`, or it is one that is relocated for something else. -/
def Kept : Access → Prop
  | .unmapped o => img.word (p + o) ≠ 0 → p + o ∈ added
  | _ => True

end Access

namespace Path

variable {k : Descriptor}

/-- Where a path leads in the image, from the descriptor at the offset `p`. -/
def offsets {k : Descriptor} : Path k → ℕ → List (Option ℕ)
  | .nil, _ => []
  | .cons f i path, p =>
    let w := img.word (f.access.slot img p i)
    if w = 0 then [none] else some w.toNat :: path.offsets w.toNat

/-- A path that stays inside the arrays, over aligned pointers. -/
def InRange {k : Descriptor} : Path k → ℕ → Prop
  | .nil, _ => True
  | .cons f i path, p =>
    let w := img.word (f.access.slot img p i)
    f.access.InRange img size p i ∧ 4 ∣ f.access.slot img p i ∧ (w ≠ 0 → path.InRange w.toNat)

def Kept {k : Descriptor} : Path k → ℕ → Prop
  | .nil, _ => True
  | .cons f i path, p =>
    let w := img.word (f.access.slot img p i)
    f.access.Kept img added p ∧ (w ≠ 0 → path.Kept w.toNat)

end Path

end Image

/-! ### What is mapped -/

namespace Descriptor

/-- What `DoRelocCLS` does for a descriptor at an offset. -/
def map : Descriptor → ℕ → MapM Unit
  | clsModule, _ => DoRelocCLS
  | classDirEntry, p => MapClassDirEntry p
  | classDescriptor, p => MapClassDescriptor p
  | interfaceDirEntry, p => MapInterfaceDirEntry p
  | interfaceDescriptor, p => MapInterfaceDescriptor p
  | methodDescriptor, p => MapMethodDescriptor p
  | paramDescriptor, p | structElement, p => mapNamedType (pure p)
  | structDirEntry, p => MapStructDirEntry p
  | structDescriptor, p => MapStructDescriptor p
  | enumDirEntry, p => MapEnumDirEntry p
  | enumDescriptor, p => MapEnumDescriptor p
  | enumElement, p => relocate p
  | aliasDirEntry, p => MapAliasDirEntry p
  | arrayDirEntry, p => MapArrayDirEntry p
  | constDirEntry, p => MapConstDirEntry p
  | classInterface, _ | typeDescriptor, _ | chars, _ | indexes, _ => pure ()

end Descriptor

section Mapped

variable {img : Block} {added cleared : Set ℕ} {p i size : ℕ} {k k' : Descriptor}

theorem within_mapItems {c d : ℕ} {item : MapM ℕ → MapM Unit} :
    (mapItems c d item).Within img added cleared ↔
      d ∈ added ∧ ∀ n < (img.half c).toNat, (img.word d).toNat + 4 * n ∈ added ∧
        (item do goto ((← goto d) + 4 * n)).Within img added cleared := by
  simp [mapItems]

theorem within_mapDirs {c d : ℕ} {h : d + 4 ≤ 128} {entry : MapM ℕ → MapM Unit} :
    (mapDirs c d h entry).Within img added cleared ↔
      (img.half c = 0 → d ∈ cleared) ∧
        (img.half c ≠ 0 → (mapItems c d entry).Within img added cleared) := by
  simp [mapDirs, within_ite]

/-- The elements of an array are mapped, and the pointers to them. -/
def ItemsMapped (img : Block) (added cleared : Set ℕ) (p c o : ℕ) (entry : ℕ → MapM Unit) : Prop :=
  ∀ i, (Access.table c o).InRange img 0 p i → (Access.table c o).Mapped img added p i ∧
    (entry (img.word ((Access.table c o).slot img p i)).toNat).Within img added cleared

theorem half_ne_zero {o n : ℕ} (h : n < (img.half o).toNat) : img.half o ≠ 0 := by
  intro h0
  rw [h0] at h
  exact Nat.not_lt_zero n h

/-- An array that is looked at when it has elements. -/
theorem itemsMapped_of_mapItems {c o : ℕ} {item : MapM ℕ → MapM Unit} {entry : ℕ → MapM Unit}
    (h : img.half (p + c) ≠ 0 → (mapItems (p + c) (p + o) item).Within img added cleared)
    (hentry : ∀ w : MapM ℕ, (item w).Within img added cleared →
      (entry (w.value img)).Within img added cleared) :
    ItemsMapped img added cleared p c o entry := by
  intro i hi
  obtain ⟨hd, hitems⟩ := within_mapItems.mp (h (half_ne_zero hi))
  obtain ⟨hslot, hitem⟩ := hitems i hi
  have hvalue := hentry _ hitem
  simp only [value_bind, value_goto] at hvalue
  exact ⟨⟨hd, hslot⟩, hvalue⟩

theorem itemsMapped_of_entries {c o : ℕ} {entry : ℕ → MapM Unit}
    (h : img.half (p + c) ≠ 0 →
      (mapItems (p + c) (p + o) fun item => do entry (← item)).Within img added cleared) :
    ItemsMapped img added cleared p c o entry :=
  itemsMapped_of_mapItems h fun _ hw => (within_bind.mp hw).2

/-- An array of strings or of numbers: there is nothing to map in the elements. -/
theorem itemsMapped_of_plain {c o : ℕ}
    (h : img.half (p + c) ≠ 0 →
      (mapItems (p + c) (p + o) fun _ => pure ()).Within img added cleared) :
    ItemsMapped img added cleared p c o fun _ => pure () :=
  itemsMapped_of_mapItems h fun _ _ => within_pure ()

theorem itemsMapped_of_DoRelocCLS (h : DoRelocCLS.Within img added cleared) :
    (img.word 36 ≠ 0 → 36 ∈ added) ∧
      ItemsMapped img added cleared 0 70 92 MapClassDirEntry ∧
      ItemsMapped img added cleared 0 72 96 MapInterfaceDirEntry ∧
      ItemsMapped img added cleared 0 84 120 MapArrayDirEntry ∧
      ItemsMapped img added cleared 0 76 104 MapStructDirEntry ∧
      ItemsMapped img added cleared 0 78 108 MapEnumDirEntry ∧
      ItemsMapped img added cleared 0 86 124 MapConstDirEntry ∧
      ItemsMapped img added cleared 0 80 112 MapAliasDirEntry ∧
      ItemsMapped img added cleared 0 82 116 fun _ => pure () := by
  simp only [DoRelocCLS, within_bind, within_guard, within_relocateIfSet, within_mapDirs] at h
  obtain ⟨-, h36, -, -, -, -, ⟨-, h70⟩, ⟨-, h72⟩, ⟨-, h84⟩, ⟨-, h76⟩, ⟨-, h78⟩, ⟨-, h86⟩,
    ⟨-, h80⟩, ⟨-, h82⟩⟩ := h
  exact ⟨h36, itemsMapped_of_entries h70, itemsMapped_of_entries h72, itemsMapped_of_entries h84,
    itemsMapped_of_entries h76, itemsMapped_of_entries h78, itemsMapped_of_entries h86,
    itemsMapped_of_entries h80, itemsMapped_of_plain h82⟩

theorem within_mapDirEntry {descriptor : ℕ → MapM Unit} :
    (mapDirEntry descriptor p).Within img added cleared ↔
      p ∈ added ∧ (img.word (p + 4) ≠ 0 → p + 4 ∈ added) ∧ p + 12 ∈ added ∧
        (descriptor (img.word (p + 12)).toNat).Within img added cleared := by
  simp [mapDirEntry]

theorem within_mapNamedType {w : MapM ℕ} (h : (mapNamedType w).Within img added cleared) :
    (mapNamedType (pure (w.value img))).Within img added cleared := by
  simp only [mapNamedType, within_bind, value_pure] at h ⊢
  exact ⟨within_pure _, h.2.1, within_pure _, h.2.2.2⟩

theorem itemsMapped_of_MapClassDescriptor (h : (MapClassDescriptor p).Within img added cleared) :
    (img.half (p + 22) ≠ 0 → p + 36 ∈ added) ∧ (img.half (p + 26) ≠ 0 → p + 40 ∈ added) ∧
      ItemsMapped img added cleared p 20 32 fun _ => pure () := by
  simp only [MapClassDescriptor, within_bind, within_guard, within_when, within_relocate,
    value_getHalf] at h
  obtain ⟨-, haggr, -, haspect, -, -, -, hinterfaces⟩ := h
  exact ⟨haggr, haspect, itemsMapped_of_plain hinterfaces⟩

theorem within_MapMethodDescriptor (h : (MapMethodDescriptor p).Within img added cleared) :
    p + 4 ∈ added ∧ (img.word (p + 8) ≠ 0 → p + 8 ∈ added) ∧
      ItemsMapped img added cleared p 32 36 fun q => mapNamedType (pure q) := by
  simp only [MapMethodDescriptor, within_bind, within_when, within_relocate, within_relocateIfSet,
    value_getHalf] at h
  obtain ⟨-, hsignature, hannotation, -, hparams⟩ := h
  exact ⟨hsignature, hannotation, itemsMapped_of_mapItems hparams fun _ => within_mapNamedType⟩

/-- **What is mapped** leads to what is mapped: the pointers of a descriptor are relocated, and the
descriptors that they lead to are mapped in their turn. -/
theorem within_step (hheader : k = clsModule → p = 0) (h : (k.map p).Within img added cleared)
    (f : Field k k') (hr : f.access.InRange img size p i) :
    f.access.Mapped img added p i ∧
      (k'.map (img.word (f.access.slot img p i)).toNat).Within img added cleared := by
  cases f with
  | mUunm =>
    obtain rfl := hheader rfl
    have hmem := (itemsMapped_of_DoRelocCLS h).1
    exact ⟨fun hw => hmem hw, within_pure ()⟩
  | mClassDirs =>
    obtain rfl := hheader rfl
    exact (itemsMapped_of_DoRelocCLS h).2.1 i hr
  | mInterfaceDirs =>
    obtain rfl := hheader rfl
    exact (itemsMapped_of_DoRelocCLS h).2.2.1 i hr
  | mArrayDirs =>
    obtain rfl := hheader rfl
    exact (itemsMapped_of_DoRelocCLS h).2.2.2.1 i hr
  | mStructDirs =>
    obtain rfl := hheader rfl
    exact (itemsMapped_of_DoRelocCLS h).2.2.2.2.1 i hr
  | mEnumDirs =>
    obtain rfl := hheader rfl
    exact (itemsMapped_of_DoRelocCLS h).2.2.2.2.2.1 i hr
  | mConstDirs =>
    obtain rfl := hheader rfl
    exact (itemsMapped_of_DoRelocCLS h).2.2.2.2.2.2.1 i hr
  | mAliasDirs =>
    obtain rfl := hheader rfl
    exact (itemsMapped_of_DoRelocCLS h).2.2.2.2.2.2.2.1 i hr
  | mLibraryNames =>
    obtain rfl := hheader rfl
    exact (itemsMapped_of_DoRelocCLS h).2.2.2.2.2.2.2.2 i hr
  | mName hk =>
    refine ⟨fun _ => ?_, within_pure ()⟩
    simp only [named, List.mem_cons, List.not_mem_nil, or_false] at hk
    rcases hk with rfl | rfl | rfl | rfl | rfl | rfl | rfl | rfl | rfl | rfl
    · exact (within_mapDirEntry.mp h).1
    · exact (within_mapDirEntry.mp h).1
    · exact (within_mapDirEntry.mp h).1
    · exact (within_mapDirEntry.mp h).1
    · exact within_relocate.mp (within_bind.mp h).1
    · exact within_relocate.mp (within_bind.mp h).1
    · exact within_relocate.mp (within_bind.mp h).1
    · exact within_relocate.mp (within_bind.mp (within_bind.mp h).2).1
    · exact within_relocate.mp (within_bind.mp (within_bind.mp h).2).1
    · exact within_relocate.mp h
  | mNameSpace hk =>
    refine ⟨fun hw => ?_, within_pure ()⟩
    simp only [spaced, List.mem_cons, List.not_mem_nil, or_false] at hk
    rcases hk with rfl | rfl | rfl | rfl | rfl | rfl
    · exact (within_mapDirEntry.mp h).2.1 hw
    · exact (within_mapDirEntry.mp h).2.1 hw
    · exact (within_mapDirEntry.mp h).2.1 hw
    · exact (within_mapDirEntry.mp h).2.1 hw
    · exact within_relocateIfSet.mp (within_bind.mp (within_bind.mp h).2).1 hw
    · exact within_relocateIfSet.mp (within_bind.mp (within_bind.mp h).2).1 hw
  | classDesc | interfaceDesc | structDesc | enumDesc =>
    obtain ⟨-, -, hmem, hdesc⟩ := within_mapDirEntry.mp h
    exact ⟨fun _ => hmem, hdesc⟩
  | mInterfaces =>
    exact (itemsMapped_of_MapClassDescriptor h).2.2 i hr
  | mAggrIndexes =>
    exact ⟨(itemsMapped_of_MapClassDescriptor h).1 (half_ne_zero hr), within_pure ()⟩
  | mAspectIndexes =>
    exact ⟨(itemsMapped_of_MapClassDescriptor h).2.1 (half_ne_zero hr), within_pure ()⟩
  | mMethods =>
    simp only [Descriptor.map, MapInterfaceDescriptor, within_bind, within_guard, within_when,
      value_getHalf] at h
    exact (itemsMapped_of_entries h.2.2.2) i hr
  | mSignature =>
    exact ⟨fun _ => (within_MapMethodDescriptor h).1, within_pure ()⟩
  | mAnnotation =>
    exact ⟨(within_MapMethodDescriptor h).2.1, within_pure ()⟩
  | mParams =>
    exact (within_MapMethodDescriptor h).2.2 i hr
  | structElements =>
    simp only [Descriptor.map, MapStructDescriptor, within_bind, within_when, value_getHalf] at h
    exact (itemsMapped_of_mapItems h.2 fun _ => within_mapNamedType) i hr
  | enumElements =>
    simp only [Descriptor.map, MapEnumDescriptor, within_bind, within_when, value_getHalf] at h
    exact (itemsMapped_of_entries h.2) i hr
  | paramNestedType | elementNestedType =>
    simp only [Descriptor.map, mapNamedType, within_bind, value_pure, within_relocateIfSet] at h
    exact ⟨h.2.2.2, within_pure ()⟩
  | aliasNestedType =>
    simp only [Descriptor.map, MapAliasDirEntry, within_bind, within_relocateIfSet] at h
    exact ⟨h.2.2, within_pure ()⟩
  | arrayNestedType =>
    simp only [Descriptor.map, MapArrayDirEntry, within_bind, within_relocateIfSet] at h
    exact ⟨h.2, within_pure ()⟩
  | returnNestedType | mNestedType =>
    exact ⟨trivial, within_pure ()⟩

/-- Only directories are set to `NULL`. -/
theorem within_DoRelocCLS : DoRelocCLS.Within img Set.univ {o | 4 ∣ o} := by
  simp [DoRelocCLS, within_ite, within_mapDirs, within_mapItems, within_mapDirEntry,
    MapFileDirEntry, MapClassDirEntry, MapClassDescriptor, MapInterfaceDirEntry,
    MapInterfaceDescriptor, MapInterfaceConstDescriptor, MapMethodDescriptor, mapNamedType,
    MapArrayDirEntry, MapStructDirEntry, MapStructDescriptor, MapEnumDirEntry, MapEnumDescriptor,
    MapConstDirEntry, MapAliasDirEntry]

end Mapped

/-! ### Both ways of reading -/

/-- An image whose pointers are aligned and set, and lead into it. -/
structure ModuleImage extends FlatImage where
  set : ∀ o ∈ DoRelocCLS.pointers toCLSImage.block, 4 ∣ o ∧ toCLSImage.block.word o ≠ 0 ∧
    (toCLSImage.block.word o).toNat < toCLSImage.size

/-- There can be a block of `n` bytes at the address. -/
def Placed (base : UInt32) (n : ℕ) : Prop := base ≠ 0 ∧ base.toNat + n ≤ 4294967296

namespace ModuleImage

variable (img : ModuleImage) {base : UInt32} {p : UInt32} {r i o : ℕ} {k : Descriptor}

/-- The pointers that `DoRelocCLS` relocates. -/
def added : Set ℕ := {o | o ∈ DoRelocCLS.pointers img.block}

/-- What `DoRelocCLS` leaves at an address. -/
def copy (base : UInt32) : Block :=
  changed img.block base (DoRelocCLS.pointers img.block) (DoRelocCLS.nulls img.block)

theorem word_copy_of_mem (ho : o ∈ img.added) :
    (img.copy base).word o = base + img.block.word o := by
  obtain ⟨hapart, hnulls⟩ := apart_of_sound img.sound List.Pairwise.nil (List.forall_mem_nil _)
  exact word_changed_of_mem ho hapart hnulls

theorem word_copy_of_notMem (ho : o ∉ img.added) (h4 : 4 ∣ o) :
    (img.copy base).word o = img.block.word o ∨ (img.copy base).word o = 0 :=
  word_changed_of_notMem ho h4 (fun q hq => (img.set q hq).1) within_DoRelocCLS.2

/-- The image in place. -/
def inPlace (base : UInt32) : CClsModule := .new img.block base false

/-- The relocated copy. -/
def relocatedAt (base : UInt32) : CClsModule := .new (img.copy base) base true

/-- Where the pointer `w` of the image leads, at an address. -/
def target (base w : UInt32) : UInt32 := if w = 0 then 0 else base + w

theorem word_ne_zero (ho : o ∈ img.added) : img.block.word o ≠ 0 := (img.set o ho).2.1

theorem read_inPlace {a : Access} (hp : offsetAt base p = r)
    (hmapped : a.Mapped img.block img.added r i) :
    a.read (img.inPlace base) p i = target base (img.block.word (a.slot img.block r i)) := by
  have hload (q : UInt32) (o : ℕ) :
      (img.inPlace base).load q o = img.block.word (offsetAt base q + o) := rfl
  have hadjust (w : UInt32) : (img.inPlace base).adjustAddr w = target base w := by
    change (if w ≠ 0 then w + base else w) = if w = 0 then 0 else base + w
    rcases eq_or_ne w 0 with rfl | h0
    · rfl
    · rw [if_pos h0, if_neg h0, UInt32.add_comm]
  cases a with
  | table c o =>
    have hne := img.word_ne_zero hmapped.2
    change (img.inPlace base).load ((img.inPlace base).load p o + base) (4 * i) + base = _
    rw [hload, hload, hp, UInt32.add_comm (img.block.word (r + o)), offsetAt_base_add,
      UInt32.add_comm, target, Access.slot, if_neg hne]
  | indexes c o | pointer o | unmapped o =>
    change (img.inPlace base).adjustAddr ((img.inPlace base).load p o) = _
    rw [hload, hp, hadjust, Access.slot]

theorem load_relocatedAt (q : UInt32) (o : ℕ) :
    (img.relocatedAt base).load q o = (img.copy base).word (offsetAt base q + o) := rfl

theorem adjustAddr_relocatedAt (w : UInt32) : (img.relocatedAt base).adjustAddr w = w := by
  change (if w ≠ 0 then w + 0 else w) = w
  rw [UInt32.add_zero, ite_self]

theorem adjust_copy (h4 : 4 ∣ o) (h : img.block.word o ≠ 0 → o ∈ img.added) :
    (img.relocatedAt base).adjustAddr ((img.copy base).word o) =
      target base (img.block.word o) := by
  rw [img.adjustAddr_relocatedAt, target]
  split_ifs with h0
  · -- a `NULL` is relocated nowhere
    have hnot : o ∉ img.added := fun ho => img.word_ne_zero ho h0
    rcases img.word_copy_of_notMem hnot h4 with hw | hw
    · rw [hw, h0]
    · exact hw
  · exact img.word_copy_of_mem (h h0)

theorem read_relocatedAt {a : Access} (hp : offsetAt base p = r)
    (hmapped : a.Mapped img.block img.added r i) (h4 : 4 ∣ a.slot img.block r i)
    (hkept : a.Kept img.block img.added r) :
    a.read (img.relocatedAt base) p i = target base (img.block.word (a.slot img.block r i)) := by
  cases a with
  | table c o =>
    have hne := img.word_ne_zero hmapped.2
    change (img.relocatedAt base).load ((img.relocatedAt base).load p o + 0) (4 * i) + 0 = _
    rw [UInt32.add_zero, UInt32.add_zero, img.load_relocatedAt, img.load_relocatedAt, hp,
      img.word_copy_of_mem hmapped.1, offsetAt_base_add, img.word_copy_of_mem hmapped.2, target,
      Access.slot, if_neg hne]
  | indexes c o =>
    change (img.relocatedAt base).adjustAddr ((img.relocatedAt base).load p o) = _
    rw [img.load_relocatedAt, hp]
    exact img.adjust_copy h4 (fun _ => hmapped)
  | pointer o =>
    change (img.relocatedAt base).adjustAddr ((img.relocatedAt base).load p o) = _
    rw [img.load_relocatedAt, hp]
    exact img.adjust_copy h4 hmapped
  | unmapped o =>
    change (img.relocatedAt base).adjustAddr ((img.relocatedAt base).load p o) = _
    rw [img.load_relocatedAt, hp]
    exact img.adjust_copy h4 hkept

/-- A pointer that was missed is still an offset, which is no address of the copy. -/
theorem offset_read_of_not_kept {a : Access} (hbase : base ≠ 0) (hp : offsetAt base p = r)
    (h4 : 4 ∣ a.slot img.block r i) (hkept : ¬ a.Kept img.block img.added r) :
    img.block.word (a.slot img.block r i) ≠ 0 ∧
      (img.relocatedAt base).offset (a.read (img.relocatedAt base) p i) ≠
        some (img.block.word (a.slot img.block r i)).toNat := by
  cases a with
  | table c o | indexes c o | pointer o => exact absurd trivial hkept
  | unmapped o =>
    obtain ⟨hne, hnot⟩ := Classical.not_imp.mp hkept
    refine ⟨hne, ?_⟩
    have hread : (Access.unmapped o).read (img.relocatedAt base) p i =
        (img.copy base).word (r + o) := by
      change (img.relocatedAt base).adjustAddr ((img.relocatedAt base).load p o) = _
      rw [img.adjustAddr_relocatedAt, img.load_relocatedAt, hp]
    have hzero : (img.relocatedAt base).offset 0 = none := if_pos rfl
    rw [hread]
    rcases img.word_copy_of_notMem hnot h4 with hw | hw
    · intro heq
      rw [hw, CClsModule.offset, if_neg hne] at heq
      -- an offset is the same from the beginning of the copy only if that is at 0
      have hsub : img.block.word (r + o) - base = img.block.word (r + o) :=
        UInt32.toNat_inj.mp (Option.some.inj heq)
      exact hbase (by simpa using hsub)
    · rw [hw, hzero]
      exact (Option.some_ne_none _).symm

theorem add_ne_zero {w : UInt32} (hbase : Placed base img.size) (hw : w.toNat < img.size) :
    base + w ≠ 0 := by
  intro heq
  have hpos : 0 < base.toNat := Nat.pos_of_ne_zero fun h => hbase.1 (UInt32.toNat_inj.mp h)
  have hlt : base.toNat + w.toNat < 4294967296 := by
    have := hbase.2
    omega
  have hnat : (base + w).toNat = base.toNat + w.toNat := by
    rw [UInt32.toNat_add]
    exact Nat.mod_eq_of_lt hlt
  rw [heq] at hnat
  exact absurd hnat (by simp; omega)

/-- A step of a path, where the pointer is read right. -/
theorem trail_cons {m : CClsModule} {k' : Descriptor} {f : Field k k'} {path : Path k'} {w : UInt32}
    (hbase : Placed m.mClsMod img.size) (hw : w ≠ 0 → w.toNat < img.size)
    (hread : f.access.read m p i = target m.mClsMod w) :
    m.trail (.cons f i path) p =
      if w = 0 then [none] else some w.toNat :: m.trail path (m.mClsMod + w) := by
  rw [← f.read_eq] at hread
  rw [CClsModule.trail, hread]
  rcases eq_or_ne w 0 with rfl | h0
  · rfl
  · have hne := img.add_ne_zero hbase (hw h0)
    have htarget : target m.mClsMod w = m.mClsMod + w := if_neg h0
    rw [htarget]
    rw [if_neg hne, if_neg h0, CClsModule.offset, if_neg hne, offsetAt_base_add]

/-- What a path passes is inside the image. -/
theorem inside {a : Access} (hmapped : a.Mapped img.block img.added r i)
    (hrange : a.InRange img.block img.size r i) :
    img.block.word (a.slot img.block r i) ≠ 0 →
      (img.block.word (a.slot img.block r i)).toNat < img.size := by
  intro h0
  cases a with
  | table c o => exact (img.set _ hmapped.2).2.2
  | indexes c o => exact (img.set _ hmapped).2.2
  | pointer o => exact (img.set _ (hmapped h0)).2.2
  | unmapped o => exact hrange

/-- The copy in which a descriptor of the image is mapped. -/
def Maps (k : Descriptor) (r : ℕ) : Prop :=
  (k = clsModule → r = 0) ∧
    (k.map r).Within img.block img.added {o | o ∈ DoRelocCLS.nulls img.block}

theorem maps_clsModule : img.Maps clsModule 0 := ⟨fun _ => rfl, fun _ ho => ho, fun _ ho => ho⟩

variable {img}

theorem Maps.step {k' : Descriptor} (h : img.Maps k r) (f : Field k k')
    (hr : f.access.InRange img.block img.size r i) :
    f.access.Mapped img.block img.added r i ∧
      img.Maps k' (img.block.word (f.access.slot img.block r i)).toNat := by
  obtain ⟨hmapped, hnext⟩ := within_step h.1 h.2 f hr
  refine ⟨hmapped, ?_, hnext⟩
  rintro rfl
  -- no field leads to the header
  cases f

/-- **In place** a path leads where it should. -/
theorem Maps.trail_inPlace (h : img.Maps k r) (path : Path k) (hp : offsetAt base p = r)
    (hpath : path.InRange img.block img.size r) (hbase : Placed base img.size) :
    (img.inPlace base).trail path p = path.offsets img.block r := by
  induction path generalizing p r with
  | nil => rfl
  | cons f i path ih =>
    obtain ⟨hr, -, hrest⟩ := hpath
    obtain ⟨hmapped, hnext⟩ := h.step f hr
    rw [img.trail_cons (m := img.inPlace base) hbase (img.inside hmapped hr)
      (img.read_inPlace hp hmapped), Path.offsets]
    rcases eq_or_ne (img.block.word (f.access.slot img.block r i)) 0 with h0 | h0
    · rw [if_pos h0]
      exact (if_pos h0).symm
    · rw [if_neg h0]
      refine Eq.trans ?_ (if_neg h0).symm
      exact congrArg _ (ih hnext (offsetAt_base_add base _) (hrest h0))

/-- **In the relocated copy** a path leads there as long as it passes no pointer that was missed. -/
theorem Maps.trail_relocatedAt_iff (h : img.Maps k r) (path : Path k) (hp : offsetAt base p = r)
    (hpath : path.InRange img.block img.size r) (hbase : Placed base img.size) :
    (img.relocatedAt base).trail path p = path.offsets img.block r ↔
      path.Kept img.block img.added r := by
  induction path generalizing p r with
  | nil => exact iff_of_true rfl trivial
  | cons f i path ih =>
    obtain ⟨hr, h4, hrest⟩ := hpath
    obtain ⟨hmapped, hnext⟩ := h.step f hr
    by_cases hkept : f.access.Kept img.block img.added r
    · rw [img.trail_cons (m := img.relocatedAt base) hbase (img.inside hmapped hr)
        (img.read_relocatedAt hp hmapped h4 hkept), Path.offsets, Path.Kept]
      rcases eq_or_ne (img.block.word (f.access.slot img.block r i)) 0 with h0 | h0
      · rw [if_pos h0]
        exact iff_of_true (if_pos h0).symm ⟨hkept, fun hne => absurd h0 hne⟩
      · rw [if_neg h0]
        have hiff := ih hnext (offsetAt_base_add base _) (hrest h0)
        constructor
        · intro heq
          have heq := heq.trans (if_neg h0)
          exact ⟨hkept, fun _ => hiff.mp (List.cons.inj heq).2⟩
        · rintro ⟨-, hpath⟩
          exact (congrArg _ (hiff.mpr (hpath h0))).trans (if_neg h0).symm
    · refine iff_of_false ?_ fun hpath => hkept hpath.1
      obtain ⟨h0, hne⟩ := img.offset_read_of_not_kept hbase.1 hp h4 hkept
      intro heq
      have heq := heq.trans (if_neg h0)
      rw [CClsModule.trail, f.read_eq] at heq
      exact hne (List.cons.inj heq).1

end ModuleImage

end Cls

end ElastosCar
