import ElastosCar.Types

/-!
# The layout of a struct info

`CStructInfo` computes where the fields of a struct are: `GetMaxAlignSize` takes the largest field size,
bounded by `ALIGN_BOUND`, and `InitFieldElement` puts each field at the next offset that is a multiple of
its size or of that alignment, whichever is less. The offsets are 32-bit words.

For fields of the scalar types the fields are apart and inside the struct (`disjoint_InitFieldElement`):
every alignment is a power of two up to eight, so a field ends at most 24 bytes after the multiple of
eight before it, and the offsets do not wrap.
-/

namespace ElastosCar

/-- `CarDataType`. -/
inductive CarDataType
  | int16 | int32 | int64 | byte | float | double | char32 | string | boolean | emuid | eguid | ecode
  | localPtr | localType | enum | arrayOf | cppVector | struct | interface
deriving DecidableEq, Repr

namespace CarDataType

/-- `mSize` of `g_cDataTypeList`. -/
def size : CarDataType → UInt32
  | int16 => 2
  | int32 => 4
  | int64 => 8
  | byte => 1
  | float => 4
  | double => 8
  | char32 => 4
  | string => 8
  | boolean => 1
  | emuid => 16
  | eguid => 24
  | ecode => 4
  | localPtr => 4
  | localType => 0
  | enum => 4
  | arrayOf => 0
  | cppVector => 4
  | struct => 0
  | interface => 4

/-- The types of fields that have a typed setter and getter of their own. -/
def isScalar : CarDataType → Bool
  | int16 | int32 | int64 | byte | float | double | char32 | boolean | emuid | eguid | ecode
  | localPtr | enum => true
  | string | localType | arrayOf | cppVector | struct | interface => false

end CarDataType

/-- What a type info says: `GetDataType`, `GetSize`, and `GetMaxAlignSize` of the infos that have it. -/
structure DataTypeInfo where
  dataType : CarDataType
  size : UInt32
  maxAlign : UInt32 := size
deriving DecidableEq, Repr

/-- The infos of the scalar types: `CIntrinsicInfo`, `CEnumInfo` and `CLocalPtrInfo`. -/
def DataTypeInfo.ofScalar (type : CarDataType) : DataTypeInfo := ⟨type, type.size, type.size⟩

structure StructFieldDesc where
  mName : CarString
  mPos : UInt32
  mSize : UInt32
  mType : CarDataType
deriving DecidableEq, Repr

/-- `CStructInfo` with what a variable reads of it. -/
structure CStructInfo where
  mName : CarString
  mStructFieldDesc : List StructFieldDesc
  mSize : UInt32
deriving DecidableEq, Repr

/-- `ALIGN_BOUND` of `clsbase.h`, by compiler and processor. -/
inductive AlignBuild
  | arm | other
deriving DecidableEq, Repr

def AlignBuild.ALIGN_BOUND : AlignBuild → UInt32
  | arm => 8
  | other => 4

namespace CStructInfo

/-- `AdjuctElemOffset`. -/
def AdjuctElemOffset (offset elemSize align : UInt32) : UInt32 :=
  let elemSize := if align < elemSize then align else elemSize
  let mode := offset % elemSize
  if mode ≠ 0 then offset - mode + elemSize else offset

/-- What `GetMaxAlignSize` asks a field's info for. -/
def alignSize (info : DataTypeInfo) : UInt32 :=
  match info.dataType with
  | .struct | .arrayOf | .cppVector => info.maxAlign
  | _ => info.size

/-- `GetMaxAlignSize`. -/
def GetMaxAlignSize (B : AlignBuild) (infos : List DataTypeInfo) : UInt32 :=
  let align := infos.foldl (fun align info =>
    if align < alignSize info then alignSize info else align) 1
  if B.ALIGN_BOUND < align then B.ALIGN_BOUND else align

/-- `elemtAlign` of a field. -/
def elemtAlign (align : UInt32) (info : DataTypeInfo) : UInt32 :=
  match info.dataType with
  | .struct | .arrayOf | .cppVector => info.maxAlign
  | _ => align

/-- The loop of `InitFieldElement` from an offset on: the descriptors and the offset behind them. -/
def fieldsFrom (align : UInt32) :
    UInt32 → List (CarString × DataTypeInfo) → List StructFieldDesc × UInt32
  | offset, [] => ([], offset)
  | offset, (name, info) :: fields =>
    let pos := AdjuctElemOffset offset info.size (elemtAlign align info)
    let (descs, last) := fieldsFrom align (pos + info.size) fields
    (⟨name, pos, info.size, info.dataType⟩ :: descs, last)

/-- `InitFieldElement`. -/
def InitFieldElement (B : AlignBuild) (mName : CarString) (fields : List (CarString × DataTypeInfo)) :
    CStructInfo :=
  let align := GetMaxAlignSize B (fields.map Prod.snd)
  let (descs, offset) := fieldsFrom align 0 fields
  ⟨mName, descs, AdjuctElemOffset offset align align⟩

/-- `InitDynamic`: names and type infos come in two arrays. -/
def InitDynamic (B : AlignBuild) (name : CarString) (fieldNames : Option (List CarString))
    (fieldTypeInfos : Option (List DataTypeInfo)) : ECode × Option CStructInfo :=
  match fieldNames, fieldTypeInfos with
  | some names, some infos => (NOERROR, some (InitFieldElement B name (names.zip infos)))
  | _, _ => (E_INVALID_ARGUMENT, none)

/-- `InitStatic`: each element of the descriptor has a name, and a type whose info is acquired. -/
def InitStatic (B : AlignBuild) (name : CarString)
    (elements : List (CarString × Except ECode DataTypeInfo)) : ECode × Option CStructInfo :=
  match elements.mapM fun e => e.2.map fun info => (e.1, info) with
  | .ok fields => (NOERROR, some (InitFieldElement B name fields))
  | .error ec => (ec, none)

/-! ### Offsets -/

section Offsets

variable {offset elemSize align size : UInt32} {t : ℕ}

/-- The alignments that scalar fields have. -/
def IsAlign (a : UInt32) : Prop := a = 1 ∨ a = 2 ∨ a = 4 ∨ a = 8

instance (a : UInt32) : Decidable (IsAlign a) := by unfold IsAlign; infer_instance

theorem IsAlign.toNat {a : UInt32} (h : IsAlign a) :
    a.toNat = 1 ∨ a.toNat = 2 ∨ a.toNat = 4 ∨ a.toNat = 8 := by
  rcases h with rfl | rfl | rfl | rfl <;> decide

/-- The next multiple of an alignment stays below every multiple of eight that the offset is below. -/
theorem toNat_AdjuctElemOffset (offset elemSize align : UInt32) (t : ℕ)
    (h : IsAlign (if align < elemSize then align else elemSize)) (hle : offset.toNat ≤ 8 * t)
    (ht : 8 * t < 4294967296) :
    offset.toNat ≤ (AdjuctElemOffset offset elemSize align).toNat ∧
      (AdjuctElemOffset offset elemSize align).toNat ≤ 8 * t := by
  unfold AdjuctElemOffset
  generalize (if align < elemSize then align else elemSize) = a at h
  have ha := h.toNat
  have hmod : (offset % a).toNat = offset.toNat % a.toNat := UInt32.toNat_mod _ _
  have hmodle := Nat.mod_le offset.toNat a.toNat
  by_cases hzero : offset % a = 0
  · rw [if_neg (not_not.mpr hzero)]
    exact ⟨le_rfl, hle⟩
  · have hne : offset.toNat % a.toNat ≠ 0 := fun hz =>
      hzero (UInt32.toNat_inj.mp (by rw [hmod, hz]; rfl))
    have hbound : offset.toNat - offset.toNat % a.toNat + a.toNat ≤ 8 * t := by
      rcases ha with ha | ha | ha | ha <;> rw [ha] at hne ⊢ <;> omega
    have hlt : offset.toNat % a.toNat < a.toNat := Nat.mod_lt _ (by omega)
    have hsub : (offset - offset % a).toNat = offset.toNat - offset.toNat % a.toNat := by
      rw [UInt32.toNat_sub_of_le _ _ (by rw [UInt32.le_iff_toNat_le, hmod]; exact hmodle), hmod]
    have hadd : (offset - offset % a + a).toNat = offset.toNat - offset.toNat % a.toNat + a.toNat := by
      rw [UInt32.toNat_add, hsub, Nat.mod_eq_of_lt (by omega)]
    rw [if_pos hzero, hadd]
    exact ⟨by omega, hbound⟩

/-- The sizes of the scalar types. -/
def IsSize (s : UInt32) : Prop := s = 1 ∨ s = 2 ∨ s = 4 ∨ s = 8 ∨ s = 16 ∨ s = 24

instance (s : UInt32) : Decidable (IsSize s) := by unfold IsSize; infer_instance

theorem isSize_of_isScalar {type : CarDataType} (h : type.isScalar = true) : IsSize type.size := by
  revert h
  cases type <;> decide +kernel

theorem IsSize.toNat_le {s : UInt32} (h : IsSize s) : s.toNat ≤ 24 := by
  rcases h with rfl | rfl | rfl | rfl | rfl | rfl <;> decide

/-- A size that a bound of four or eight cuts off. -/
theorem IsSize.min {s b : UInt32} (h : IsSize s) (hb : b = 4 ∨ b = 8) :
    IsAlign (if b < s then b else s) := by
  rcases h with rfl | rfl | rfl | rfl | rfl | rfl <;> rcases hb with rfl | rfl <;> decide +kernel

theorem IsSize.min_align {s a : UInt32} (h : IsSize s) (ha : IsAlign a) :
    IsAlign (if a < s then a else s) := by
  rcases h with rfl | rfl | rfl | rfl | rfl | rfl <;> rcases ha with rfl | rfl | rfl | rfl <;>
    decide +kernel

theorem isAlign_GetMaxAlignSize (B : AlignBuild) {infos : List DataTypeInfo}
    (h : ∀ info ∈ infos, IsSize (alignSize info)) : IsAlign (GetMaxAlignSize B infos) := by
  have hfold : ∀ (a : UInt32), IsSize a → IsSize (infos.foldl (fun align info =>
      if align < alignSize info then alignSize info else align) a) := by
    induction infos with
    | nil => exact fun a ha => ha
    | cons info infos ih =>
      intro a ha
      refine ih (fun i hi => h i (List.mem_cons_of_mem _ hi)) _ ?_
      change IsSize (if a < alignSize info then alignSize info else a)
      split
      · exact h info List.mem_cons_self
      · exact ha
  exact (hfold 1 (.inl rfl)).min (by cases B <;> decide)

/-- Fields one after the other between two offsets. -/
structure Laid (first last : ℕ) (descs : List StructFieldDesc) : Prop where
  apart : descs.Pairwise fun a b => a.mPos.toNat + a.mSize.toNat ≤ b.mPos.toNat
  inside : ∀ d ∈ descs, first ≤ d.mPos.toNat ∧ d.mPos.toNat + d.mSize.toNat ≤ last
  le : first ≤ last

theorem Laid.cons {first pos last : ℕ} {d : StructFieldDesc} {descs : List StructFieldDesc}
    (h : Laid pos last descs) (hfirst : first ≤ d.mPos.toNat)
    (hd : d.mPos.toNat + d.mSize.toNat = pos) : Laid first last (d :: descs) := by
  have hle := h.le
  refine ⟨List.pairwise_cons.mpr ⟨fun e he => ?_, h.apart⟩, ?_, by omega⟩
  · exact hd ▸ (h.inside e he).1
  · intro e he
    rcases List.mem_cons.mp he with rfl | he
    · exact ⟨hfirst, hd ▸ h.le⟩
    · have := h.inside e he
      exact ⟨by omega, this.2⟩

theorem laid_fieldsFrom (offset : UInt32) (t : ℕ) {fields : List (CarString × DataTypeInfo)}
    (ha : IsAlign align)
    (hscalar : ∀ f ∈ fields, ∃ type : CarDataType, type.isScalar = true ∧ f.2 = .ofScalar type)
    (hle : offset.toNat ≤ 8 * t) (ht : 8 * t + 24 * fields.length < 4294967296) :
    Laid offset.toNat (fieldsFrom align offset fields).2.toNat (fieldsFrom align offset fields).1 ∧
      (fieldsFrom align offset fields).2.toNat ≤ 8 * t + 24 * fields.length := by
  induction fields generalizing offset t with
  | nil => exact ⟨⟨.nil, fun d hd => (List.not_mem_nil hd).elim, le_rfl⟩, hle⟩
  | cons f fields ih =>
    obtain ⟨name, info⟩ := f
    obtain ⟨type, htype, rfl⟩ := hscalar (name, info) List.mem_cons_self
    have hsize := isSize_of_isScalar htype
    have halign : elemtAlign align (.ofScalar type) = align := by cases type <;> first | rfl | cases htype
    rw [List.length_cons] at ht
    obtain ⟨hpos, hpos'⟩ := toNat_AdjuctElemOffset offset type.size align t
      (hsize.min_align ha) hle (by omega)
    have hsum : (AdjuctElemOffset offset type.size align + type.size).toNat =
        (AdjuctElemOffset offset type.size align).toNat + type.size.toNat := by
      have := hsize.toNat_le
      rw [UInt32.toNat_add, Nat.mod_eq_of_lt (by omega)]
    have hsize' := hsize.toNat_le
    have hrest := ih (AdjuctElemOffset offset type.size align + type.size) (t + 3)
      (fun f hf => hscalar f (List.mem_cons_of_mem _ hf)) (by omega) (by omega)
    have hfields : fieldsFrom align offset ((name, .ofScalar type) :: fields) =
        (⟨name, AdjuctElemOffset offset type.size align, type.size, type⟩ ::
          (fieldsFrom align (AdjuctElemOffset offset type.size align + type.size) fields).1,
          (fieldsFrom align (AdjuctElemOffset offset type.size align + type.size) fields).2) := by
      rw [fieldsFrom, halign]
      rfl
    rw [hfields, List.length_cons]
    exact ⟨hrest.1.cons hpos hsum.symm, hrest.2.trans (by omega)⟩

end Offsets

/-- The descriptors have the names, types and sizes of the fields. -/
theorem descs_fieldsFrom (align offset : UInt32) (fields : List (CarString × DataTypeInfo)) :
    (fieldsFrom align offset fields).1.map (fun d => (d.mName, d.mType, d.mSize)) =
      fields.map fun f => (f.1, f.2.dataType, f.2.size) := by
  induction fields generalizing offset with
  | nil => rfl
  | cons f fields ih =>
    rw [fieldsFrom, List.map_cons, List.map_cons, ih]

end CStructInfo

/-- Fields of scalar types with distinct names. Each has eight bytes of names and type infos and
sixteen of descriptors in the address space of 32 bits. -/
structure ScalarFields where
  fields : List (CarString × CarDataType)
  scalar : ∀ f ∈ fields, f.2.isScalar = true
  distinct : (fields.map Prod.fst).Nodup
  fits : 24 * fields.length ≤ 4294967296

namespace ScalarFields

def names (F : ScalarFields) : List CarString := F.fields.map Prod.fst

def infos (F : ScalarFields) : List DataTypeInfo := F.fields.map fun f => .ofScalar f.2

/-- The struct info was built from these fields. -/
def Builds (F : ScalarFields) (B : AlignBuild) (info : CStructInfo) : Prop :=
  (∃ name, CStructInfo.InitDynamic B name (some F.names) (some F.infos) = (NOERROR, some info)) ∨
  ∃ name, CStructInfo.InitStatic B name (F.fields.map fun f => (f.1, .ok (.ofScalar f.2))) =
    (NOERROR, some info)

variable {F : ScalarFields} {B : AlignBuild} {info : CStructInfo}

theorem zip_names_infos (F : ScalarFields) :
    F.names.zip F.infos = F.fields.map fun f => (f.1, DataTypeInfo.ofScalar f.2) := by
  rw [names, infos, List.zip_map']

theorem mapM_ok {α β : Type} (f : α → β) (l : List α) :
    (l.mapM fun a => (Except.ok (f a) : Except ECode β)) = .ok (l.map f) := by
  induction l with
  | nil => rfl
  | cons a l ih =>
    rw [List.mapM_cons, ih]
    rfl

/-- Both constructors lay out the same list. -/
theorem Builds.eq (h : F.Builds B info) :
    ∃ name, info = CStructInfo.InitFieldElement B name
      (F.fields.map fun f => (f.1, DataTypeInfo.ofScalar f.2)) := by
  rcases h with ⟨name, h⟩ | ⟨name, h⟩
  · rw [CStructInfo.InitDynamic, zip_names_infos] at h
    exact ⟨name, (Option.some.inj (congrArg Prod.snd h)).symm⟩
  · have hmap : ((F.fields.map fun f => (f.1, (Except.ok (DataTypeInfo.ofScalar f.2) :
        Except ECode DataTypeInfo))).mapM fun e => e.2.map fun info => (e.1, info)) =
        .ok (F.fields.map fun f => (f.1, DataTypeInfo.ofScalar f.2)) := by
      rw [List.mapM_map]
      exact mapM_ok (fun f : CarString × CarDataType => (f.1, DataTypeInfo.ofScalar f.2)) F.fields
    rw [CStructInfo.InitStatic, hmap] at h
    exact ⟨name, (Option.some.inj (congrArg Prod.snd h)).symm⟩

/-- **The fields do not overlap**, and have the names, types and sizes that were given. -/
theorem Builds.laid (h : F.Builds B info) :
    CStructInfo.Laid 0 info.mSize.toNat info.mStructFieldDesc ∧
      info.mStructFieldDesc.map (fun d => (d.mName, d.mType, d.mSize)) =
        F.fields.map fun f => (f.1, f.2, f.2.size) := by
  obtain ⟨name, rfl⟩ := h.eq
  let fields := F.fields.map fun f => (f.1, DataTypeInfo.ofScalar f.2)
  have hlen : fields.length = F.fields.length := List.length_map _
  have hfits := F.fits
  have hscalar : ∀ f ∈ fields, ∃ type : CarDataType, type.isScalar = true ∧ f.2 = .ofScalar type := by
    intro f hf
    obtain ⟨g, hg, rfl⟩ := List.mem_map.mp hf
    exact ⟨g.2, F.scalar g hg, rfl⟩
  have halign : CStructInfo.IsAlign (CStructInfo.GetMaxAlignSize B (fields.map Prod.snd)) := by
    refine CStructInfo.isAlign_GetMaxAlignSize B fun info hinfo => ?_
    obtain ⟨f, hf, rfl⟩ := List.mem_map.mp hinfo
    obtain ⟨type, htype, heq⟩ := hscalar f hf
    rw [heq]
    have hsize := CStructInfo.isSize_of_isScalar htype
    cases type <;> exact hsize
  generalize ha : CStructInfo.GetMaxAlignSize B (fields.map Prod.snd) = align at halign
  obtain ⟨hlaid, hlast⟩ := CStructInfo.laid_fieldsFrom 0 0 halign hscalar
    (Nat.le_refl 0) (by omega)
  have hself : (if align < align then align else align) = align := ite_self _
  have hend := CStructInfo.toNat_AdjuctElemOffset (CStructInfo.fieldsFrom align 0 fields).2 align align
    (3 * fields.length) (hself.symm ▸ halign) (by omega)
    (by omega)
  have hinfo : CStructInfo.InitFieldElement B name fields =
      ⟨name, (CStructInfo.fieldsFrom align 0 fields).1,
        CStructInfo.AdjuctElemOffset (CStructInfo.fieldsFrom align 0 fields).2 align align⟩ := by
    rw [CStructInfo.InitFieldElement, ha]
  rw [hinfo]
  refine ⟨⟨hlaid.apart, fun d hd => ⟨Nat.zero_le _, (hlaid.inside d hd).2.trans hend.1⟩,
    Nat.zero_le _⟩, ?_⟩
  rw [CStructInfo.descs_fieldsFrom, List.map_map]
  rfl

end ScalarFields

end ElastosCar
