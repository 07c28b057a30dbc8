import ElastosCar.Lib.Layout
import ElastosCar.Lib.Run
import ElastosCar.Reflect.StructInfo

/-!
# Struct infos with fields of every type

`CStructInfo::InitFieldElement` asks the info of each field for its size and its alignment, and
these infos ask those of their elements. Here the infos are trees. Two things can go wrong on the
way: an alignment of zero is divided by, and `GetSize` of an array info sets nothing, so that what
the variable had before is used.

* `fieldsFrom_of_fits`: when all sizes are set and not zero, and the last field ends below `2^32`,
  the loop places the fields as in unbounded arithmetic.
* `fits_of_fieldsFrom`: fields in order do not come about otherwise.
* `InitFieldElement_scalars`: for scalar fields this is the computation of `CStructInfo`.
* `layout_right`: a layout is right exactly when the fields fit, at every depth.
-/

namespace ElastosCar

/-- The types of which `CIntrinsicInfo`, `CEnumInfo`, `CLocalPtrInfo` and `CInterfaceInfo` know the
size. -/
def CarDataType.isPlain : CarDataType → Bool
  | localType | arrayOf | cppVector | struct => false
  | _ => true

namespace StructLayout

/-- What must not happen. -/
inductive Fault
  | divisionByZero
  | sizeNotSet
deriving DecidableEq, Repr

/-- What an info answers: `GetDataType`, what `GetSize` stores, if anything, and `GetMaxAlignSize`
of the infos that have it. -/
structure Info where
  dataType : CarDataType
  size : Option UInt32
  maxAlign : UInt32
deriving DecidableEq, Repr

variable (B : AlignBuild)

/-! ### The functions of the source -/

/-- `if (size > align) align = size`, as `Int32`. -/
def largest (align size : UInt32) : UInt32 := if align.toInt32 < size.toInt32 then size else align

/-- `if (size > ALIGN_BOUND) size = ALIGN_BOUND`, as `Int32`. -/
def bounded (size : UInt32) : UInt32 :=
  if B.ALIGN_BOUND.toInt32 < size.toInt32 then B.ALIGN_BOUND else size

/-- `GetMaxAlignSize` of `CCarArrayInfo` and `CCppVectorInfo`. -/
def elementAlign (element : Info) : UInt32 :=
  bounded B (if element.dataType = .struct then element.maxAlign else element.size.getD 1)

/-- What `CStructInfo::GetMaxAlignSize` asks a field's info for; the infos of plain types set the
size. -/
def alignSize (info : Info) : UInt32 :=
  match info.dataType with
  | .struct | .arrayOf | .cppVector => info.maxAlign
  | _ => info.size.getD 0

/-- `CStructInfo::GetMaxAlignSize`. -/
def GetMaxAlignSize (infos : List Info) : UInt32 :=
  bounded B (infos.foldl (fun align info => largest align (alignSize info)) 1)

/-- What `AdjuctElemOffset` divides by. -/
def unit (elemSize align : UInt32) : UInt32 := if align < elemSize then align else elemSize

/-- `AdjuctElemOffset`. -/
def AdjuctElemOffset (offset elemSize align : UInt32) : Except Fault UInt32 :=
  if unit elemSize align = 0 then .error .divisionByZero
  else .ok (CStructInfo.AdjuctElemOffset offset elemSize align)

/-- `elemtAlign` of a field. -/
def elemtAlign (align : UInt32) (info : Info) : UInt32 :=
  match info.dataType with
  | .struct | .arrayOf | .cppVector => info.maxAlign
  | _ => align

/-- The loop of `InitFieldElement` from an offset on. -/
def fieldsFrom (align : UInt32) :
    UInt32 → List (CarString × Info) → Except Fault (List StructFieldDesc × UInt32)
  | offset, [] => .ok ([], offset)
  | offset, (name, info) :: fields =>
    match info.size with
    | none => .error .sizeNotSet
    | some elemtSize =>
      (AdjuctElemOffset offset elemtSize (elemtAlign align info)).bind fun pos =>
        (fieldsFrom align (pos + elemtSize) fields).map fun r =>
          (⟨name, pos, elemtSize, info.dataType⟩ :: r.1, r.2)

/-- `InitFieldElement`. -/
def InitFieldElement (mName : CarString) (fields : List (CarString × Info)) :
    Except Fault CStructInfo :=
  let align := GetMaxAlignSize B (fields.map Prod.snd)
  (fieldsFrom align 0 fields).bind fun r =>
    (AdjuctElemOffset r.2 align align).map fun mSize => ⟨mName, r.1, mSize⟩

/-! ### Types -/

mutual

/-- The infos of data types. -/
inductive TypeInfo
  | plain (type : CarDataType) (h : type.isPlain = true)
  | struct (mName : CarString) (fields : FieldList)
  | cppVector (element : TypeInfo) (length : Int32)
  | arrayOf (element : TypeInfo)

/-- The names and type infos of the fields of a struct. -/
inductive FieldList
  | nil
  | cons (name : CarString) (type : TypeInfo) (fields : FieldList)

end

mutual

/-- The construction of an info, after those that it refers to. -/
def TypeInfo.build : TypeInfo → Except Fault Info
  | .plain type _ => .ok ⟨type, some type.size, type.size⟩
  | .struct mName fields => fields.build.bind fun infos =>
    (InitFieldElement B mName infos).map fun s =>
      ⟨.struct, some s.mSize, GetMaxAlignSize B (infos.map Prod.snd)⟩
  | .cppVector element length => element.build.bind fun info =>
    match info.size with
    -- the constructor of `CCppVectorInfo` multiplies what `GetSize` has stored
    | none => .error .sizeNotSet
    | some size => .ok ⟨.cppVector, some (size * length.toUInt32), elementAlign B info⟩
  | .arrayOf element => element.build.map fun info => ⟨.arrayOf, none, elementAlign B info⟩

def FieldList.build : FieldList → Except Fault (List (CarString × Info))
  | .nil => .ok []
  | .cons name type fields => type.build.bind fun info =>
    fields.build.map fun infos => (name, info) :: infos

end

/-! ### What is claimed, and when it holds -/

/-- A field has the type and the size of its info and is aligned. -/
def Placed (info : Info) (d : StructFieldDesc) : Prop :=
  d.mType = info.dataType ∧ info.size = some d.mSize ∧
    match info.dataType with
    | .struct => info.maxAlign.toNat ∣ d.mPos.toNat
    | .arrayOf | .cppVector => True
    | _ => min d.mSize.toNat B.ALIGN_BOUND.toNat ∣ d.mPos.toNat

/-- The fields are apart, inside the struct and aligned, and so is the end of the struct. -/
structure LaidOut (infos : List Info) (s : CStructInfo) : Prop where
  laid : CStructInfo.Laid 0 s.mSize.toNat s.mStructFieldDesc
  placed : List.Forall₂ (Placed B) infos s.mStructFieldDesc
  aligned : (GetMaxAlignSize B infos).toNat ∣ s.mSize.toNat

/-- `InitFieldElement` goes through and lays out the fields. -/
def StructRight (mName : CarString) (fields : FieldList) : Prop :=
  ∃ infos s, fields.build B = .ok infos ∧ InitFieldElement B mName infos = .ok s ∧
    LaidOut B (infos.map Prod.snd) s

/-- Size and unit of a field. -/
def part (align : UInt32) (info : Info) : ℕ × ℕ :=
  ((info.size.getD 0).toNat, (unit (info.size.getD 0) (elemtAlign align info)).toNat)

/-- The size of a struct with these fields in unbounded arithmetic. -/
def extent (infos : List Info) : ℕ :=
  Layout.roundUp (Layout.endOf 0 (infos.map (part (GetMaxAlignSize B infos))))
    (GetMaxAlignSize B infos).toNat

/-- `GetSize` sets a size that is not zero. -/
def Sized (info : Info) : Prop := ∃ size, info.size = some size ∧ size ≠ 0

/-- All fields have a size, and with them the struct is smaller than `2^32`. -/
def StructFits (fields : FieldList) : Prop :=
  ∀ infos, fields.build B = .ok infos →
    (∀ info ∈ infos.map Prod.snd, Sized info) ∧ extent B (infos.map Prod.snd) < 4294967296

def TypeInfo.isArrayOf : TypeInfo → Bool
  | .arrayOf _ => true
  | _ => false

mutual

/-- The layouts of all structs in the type are right, and all its infos can be made. -/
def TypeInfo.Right : TypeInfo → Prop
  | .plain _ _ => True
  | .struct mName fields => fields.Right ∧ StructRight B mName fields
  | .cppVector element length => element.Right ∧
    ∃ info, (TypeInfo.cppVector element length).build B = .ok info
  | .arrayOf element => element.Right

def FieldList.Right : FieldList → Prop
  | .nil => True
  | .cons _ type fields => type.Right ∧ fields.Right

end

mutual

/-- All structs in the type fit, and no vector is one of arrays. -/
def TypeInfo.Fits : TypeInfo → Prop
  | .plain _ _ => True
  | .struct _ fields => fields.Fits ∧ StructFits B fields
  | .cppVector element _ => element.Fits ∧ element.isArrayOf = false
  | .arrayOf element => element.Fits

def FieldList.Fits : FieldList → Prop
  | .nil => True
  | .cons _ type fields => type.Fits ∧ fields.Fits

end

/-! ### Offsets -/

section Offsets

variable {offset size align : UInt32} {infos : List Info} {fields : List (CarString × Info)}

theorem toNat_unit_pos (h : unit size align ≠ 0) : 0 < (unit size align).toNat :=
  Nat.pos_of_ne_zero fun hz => h (UInt32.toNat_inj.mp hz)

/-- The next multiple, if it is below `2^32`; where it is not, the offset goes back. -/
theorem toNat_AdjuctElemOffset (offset : UInt32) (hunit : unit size align ≠ 0) :
    (Layout.roundUp offset.toNat (unit size align).toNat < 4294967296 →
        (CStructInfo.AdjuctElemOffset offset size align).toNat =
          Layout.roundUp offset.toNat (unit size align).toNat) ∧
      (offset.toNat ≤ (CStructInfo.AdjuctElemOffset offset size align).toNat →
        Layout.roundUp offset.toNat (unit size align).toNat < 4294967296) := by
  have hpos := toNat_unit_pos hunit
  have hdef : CStructInfo.AdjuctElemOffset offset size align =
      if offset % unit size align ≠ 0 then offset - offset % unit size align + unit size align
      else offset := rfl
  rw [hdef, Layout.roundUp]
  generalize unit size align = m at hpos
  have hmod : (offset % m).toNat = offset.toNat % m.toNat := UInt32.toNat_mod _ _
  have hle := Nat.mod_le offset.toNat m.toNat
  have hlt := offset.toNat_lt
  have hmlt := m.toNat_lt
  by_cases hzero : offset % m = 0
  · have hz : offset.toNat % m.toNat = 0 := by rw [← hmod, hzero]; rfl
    rw [if_neg (not_not_intro hzero), if_pos hz]
    exact ⟨fun _ => rfl, fun _ => hlt⟩
  · have hz : offset.toNat % m.toNat ≠ 0 := fun hz =>
      hzero (UInt32.toNat_inj.mp (hmod.trans hz))
    have hsub : (offset - offset % m).toNat = offset.toNat - offset.toNat % m.toNat := by
      rw [UInt32.toNat_sub_of_le _ _ (by rw [UInt32.le_iff_toNat_le, hmod]; exact hle), hmod]
    rw [if_pos hzero, if_neg hz, UInt32.toNat_add, hsub]
    constructor <;> intro h <;> omega

/-- A description that has the type and size of its info, at a multiple of its unit. -/
def At (align : UInt32) (info : Info) (d : StructFieldDesc) : Prop :=
  d.mType = info.dataType ∧ info.size = some d.mSize ∧
    (unit d.mSize (elemtAlign align info)).toNat ∣ d.mPos.toNat

/-- No field divides by zero. -/
def Divides (align : UInt32) (info : Info) : Prop :=
  ∃ size, info.size = some size ∧ unit size (elemtAlign align info) ≠ 0

theorem Divides.pos {info : Info} (h : Divides align info) : 0 < (part align info).2 := by
  obtain ⟨size, hsize, hunit⟩ := h
  rw [part, hsize]
  exact toNat_unit_pos hunit

/-- **Fields that fit** are placed as in unbounded arithmetic. -/
theorem fieldsFrom_of_fits (offset : UInt32) (hdiv : ∀ f ∈ fields, Divides align f.2)
    (hend : Layout.endOf offset.toNat (fields.map fun f => part align f.2) < 4294967296) :
    ∃ descs last, fieldsFrom align offset fields = .ok (descs, last) ∧
      last.toNat = Layout.endOf offset.toNat (fields.map fun f => part align f.2) ∧
      CStructInfo.Laid offset.toNat last.toNat descs ∧
      List.Forall₂ (At align) (fields.map Prod.snd) descs := by
  induction fields generalizing offset with
  | nil =>
    exact ⟨[], offset, rfl, rfl,
      ⟨.nil, fun d hd => (List.not_mem_nil hd).elim, Nat.le_refl _⟩, .nil⟩
  | cons f fields ih =>
    obtain ⟨name, info⟩ := f
    obtain ⟨hf, hfields⟩ := List.forall_mem_cons.mp hdiv
    obtain ⟨size, hsize, hunit⟩ := hf
    change info.size = some size at hsize
    change unit size (elemtAlign align info) ≠ 0 at hunit
    have hpart : part align info = (size.toNat, (unit size (elemtAlign align info)).toNat) := by
      rw [part, hsize]
      rfl
    have hparts : ∀ p ∈ fields.map fun f => part align f.2, 0 < p.2 := by
      intro p hp
      obtain ⟨f, hf, rfl⟩ := List.mem_map.mp hp
      exact (hfields f hf).pos
    rw [List.map_cons, hpart, Layout.endOf] at hend
    change Layout.endOf (Layout.roundUp offset.toNat (unit size (elemtAlign align info)).toNat +
      size.toNat) _ < _ at hend
    have hrest := Layout.le_endOf hparts
      (Layout.roundUp offset.toNat (unit size (elemtAlign align info)).toNat + size.toNat)
    have hround := Layout.le_roundUp (toNat_unit_pos hunit) offset.toNat
    have hpos := (toNat_AdjuctElemOffset offset hunit).1 (by omega)
    have hsum : (CStructInfo.AdjuctElemOffset offset size (elemtAlign align info) + size).toNat =
        Layout.roundUp offset.toNat (unit size (elemtAlign align info)).toNat + size.toNat := by
      rw [UInt32.toNat_add, hpos, Nat.mod_eq_of_lt (by omega)]
    obtain ⟨descs, last, hok, hlast, hlaid, hat⟩ := ih _ hfields (hsum.symm ▸ hend)
    rw [hsum] at hlast hlaid
    refine ⟨⟨name, CStructInfo.AdjuctElemOffset offset size (elemtAlign align info), size,
      info.dataType⟩ :: descs, last, ?_, ?_, ?_, ?_⟩
    · rw [fieldsFrom, hsize]
      change (AdjuctElemOffset offset size (elemtAlign align info)).bind _ = _
      rw [AdjuctElemOffset, if_neg hunit]
      change (fieldsFrom align _ fields).map _ = _
      rw [hok]
      rfl
    · rw [List.map_cons, hpart, Layout.endOf]
      exact hlast
    · refine hlaid.cons ?_ ?_
      · change offset.toNat ≤ (CStructInfo.AdjuctElemOffset offset size _).toNat
        rw [hpos]
        exact hround
      · change (CStructInfo.AdjuctElemOffset offset size _).toNat + size.toNat = _
        rw [hpos]
    · refine .cons ⟨rfl, hsize, ?_⟩ hat
      change _ ∣ (CStructInfo.AdjuctElemOffset offset size _).toNat
      rw [hpos]
      exact Layout.dvd_roundUp _ _

/-- **Fields in order** have not wrapped around. -/
theorem fits_of_fieldsFrom (offset : UInt32) {descs : List StructFieldDesc} {last : UInt32} {S : ℕ}
    (h : fieldsFrom align offset fields = .ok (descs, last))
    (hlaid : CStructInfo.Laid offset.toNat S descs) (hS : S < 4294967296) :
    (∀ f ∈ fields, Divides align f.2) ∧ last.toNat ≤ S ∧
      last.toNat = Layout.endOf offset.toNat (fields.map fun f => part align f.2) := by
  induction fields generalizing offset descs with
  | nil =>
    cases h
    exact ⟨fun f hf => (List.not_mem_nil hf).elim, hlaid.le, rfl⟩
  | cons f fields ih =>
    obtain ⟨name, info⟩ := f
    rw [fieldsFrom] at h
    rcases hsize : info.size with _ | size
    · rw [hsize] at h
      exact nomatch h
    · rw [hsize] at h
      change (AdjuctElemOffset offset size (elemtAlign align info)).bind _ = _ at h
      by_cases hunit : unit size (elemtAlign align info) = 0
      · rw [AdjuctElemOffset, if_pos hunit] at h
        exact nomatch h
      · rw [AdjuctElemOffset, if_neg hunit] at h
        change (fieldsFrom align _ fields).map _ = _ at h
        rcases hrest : fieldsFrom align
            (CStructInfo.AdjuctElemOffset offset size (elemtAlign align info) + size) fields
          with e | ⟨descs', last'⟩
        · rw [hrest] at h
          exact nomatch h
        · rw [hrest] at h
          obtain ⟨rfl, rfl⟩ := Prod.mk.inj (Except.ok.inj h)
          obtain ⟨happart, hinside, hle⟩ := hlaid
          obtain ⟨hfirst, hin⟩ := hinside _ List.mem_cons_self
          obtain ⟨hhead, hapart'⟩ := List.pairwise_cons.mp happart
          change offset.toNat ≤ (CStructInfo.AdjuctElemOffset offset size _).toNat at hfirst
          change (CStructInfo.AdjuctElemOffset offset size _).toNat + size.toNat ≤ S at hin
          have hfits := (toNat_AdjuctElemOffset _ hunit).2 hfirst
          have hpos := (toNat_AdjuctElemOffset _ hunit).1 hfits
          have hsum : (CStructInfo.AdjuctElemOffset offset size (elemtAlign align info) +
              size).toNat = (CStructInfo.AdjuctElemOffset offset size
                (elemtAlign align info)).toNat + size.toNat := by
            rw [UInt32.toNat_add, Nat.mod_eq_of_lt (by omega)]
          have hlaid' : CStructInfo.Laid (CStructInfo.AdjuctElemOffset offset size
              (elemtAlign align info) + size).toNat S descs' := by
            refine ⟨hapart', fun d hd => ?_, by omega⟩
            have hd' := hhead d hd
            exact ⟨by rw [hsum]; exact hd', (hinside d (List.mem_cons_of_mem _ hd)).2⟩
          obtain ⟨hdiv, hlast, hend⟩ := ih _ hrest hlaid'
          refine ⟨List.forall_mem_cons.mpr ⟨⟨size, hsize, hunit⟩, hdiv⟩, hlast, ?_⟩
          rw [hend, hsum, hpos, List.map_cons, part, hsize]
          rfl

end Offsets

/-! ### Alignments -/

section Aligned

variable {B} {size align : UInt32} {info : Info} {infos : List Info}

theorem unit_ne_zero_iff : unit size align ≠ 0 ↔ size ≠ 0 ∧ align ≠ 0 := by
  unfold unit
  split_ifs with h
  · refine ⟨fun ha => ⟨fun hs => ?_, ha⟩, And.right⟩
    rw [hs, UInt32.lt_iff_toNat_lt] at h
    exact Nat.not_lt_zero _ h
  · refine ⟨fun hs => ⟨hs, fun ha => hs ?_⟩, And.left⟩
    rw [ha, UInt32.not_lt, UInt32.le_iff_toNat_le] at h
    exact UInt32.toNat_inj.mp (Nat.le_zero.mp h)

theorem toNat_unit (size align : UInt32) :
    (unit size align).toNat = min size.toNat align.toNat := by
  unfold unit
  split_ifs with h
  · rw [UInt32.lt_iff_toNat_lt] at h
    omega
  · rw [UInt32.lt_iff_toNat_lt] at h
    omega

/-- What the infos of the four kinds answer when they were made from right ones. -/
inductive Good : Info → Prop
  | plain {type : CarDataType} (h : type.isPlain = true) (maxAlign : UInt32) :
    Good ⟨type, some type.size, maxAlign⟩
  | struct {size maxAlign : UInt32} (hpos : maxAlign ≠ 0) (hdvd : maxAlign.toNat ∣ size.toNat) :
    Good ⟨.struct, some size, maxAlign⟩
  | cppVector {size maxAlign : UInt32} (h : size ≠ 0 → maxAlign ≠ 0) :
    Good ⟨.cppVector, some size, maxAlign⟩
  | arrayOf (maxAlign : UInt32) : Good ⟨.arrayOf, none, maxAlign⟩

theorem elemtAlign_plain {type : CarDataType} (h : type.isPlain = true) (s : Option UInt32)
    (a : UInt32) : elemtAlign align ⟨type, s, a⟩ = align := by
  cases type <;> first | rfl | cases h

theorem alignSize_plain {type : CarDataType} (h : type.isPlain = true) (a : UInt32) :
    alignSize ⟨type, some type.size, a⟩ = type.size := by
  cases type <;> first | rfl | cases h

theorem placed_plain {type : CarDataType} (h : type.isPlain = true) {s : Option UInt32} {a : UInt32}
    {d : StructFieldDesc} : Placed B ⟨type, s, a⟩ d ↔
      d.mType = type ∧ s = some d.mSize ∧ min d.mSize.toNat B.ALIGN_BOUND.toNat ∣ d.mPos.toNat := by
  cases type <;> first | exact Iff.rfl | cases h

/-- With an alignment that is not zero, only a size of zero is divided by. -/
theorem Good.divides_iff (h : Good info) (halign : align ≠ 0) :
    Divides align info ↔ Sized info := by
  cases h with
  | plain htype a =>
    refine exists_congr fun s => and_congr_right fun _ => ?_
    rw [elemtAlign_plain htype, unit_ne_zero_iff]
    exact and_iff_left halign
  | struct hpos hdvd =>
    exact exists_congr fun s => and_congr_right fun _ =>
      unit_ne_zero_iff.trans (and_iff_left hpos)
  | cppVector ha =>
    refine exists_congr fun s => and_congr_right fun hs => unit_ne_zero_iff.trans ?_
    rw [← Option.some.inj hs]
    exact and_iff_left_of_imp ha
  | arrayOf a => exact ⟨fun ⟨_, hs, _⟩ => (nomatch hs), fun ⟨_, hs, _⟩ => (nomatch hs)⟩

/-! #### The alignment of a struct -/

theorem toNat_ALIGN_BOUND : B.ALIGN_BOUND.toNat = 4 ∨ B.ALIGN_BOUND.toNat = 8 := by
  cases B
  · exact .inr rfl
  · exact .inl rfl

/-- A word that is not negative as `Int32`. -/
theorem toInt_toInt32 (v : UInt32) :
    v.toInt32.toInt = if 2 * v.toNat < 4294967296 then (v.toNat : ℤ) else v.toNat - 4294967296 :=
  BitVec.toInt_eq_toNat_cond v.toBitVec

/-- The largest of the sizes, as `Int32`. -/
theorem foldl_largest (infos : List Info) (a : UInt32) :
    a.toInt32.toInt ≤
        (infos.foldl (fun align info => largest align (alignSize info)) a).toInt32.toInt ∧
      ∀ info ∈ infos, (alignSize info).toInt32.toInt ≤
        (infos.foldl (fun align info => largest align (alignSize info)) a).toInt32.toInt := by
  induction infos generalizing a with
  | nil => exact ⟨le_rfl, fun info h => (List.not_mem_nil h).elim⟩
  | cons info infos ih =>
    obtain ⟨hfirst, hrest⟩ := ih (largest a (alignSize info))
    have hlargest : a.toInt32.toInt ≤ (largest a (alignSize info)).toInt32.toInt ∧
        (alignSize info).toInt32.toInt ≤ (largest a (alignSize info)).toInt32.toInt := by
      unfold largest
      split_ifs with h
      · exact ⟨(Int32.lt_iff_toInt_lt.mp h).le, le_rfl⟩
      · exact ⟨le_rfl, Int32.le_iff_toInt_le.mp (Int32.not_lt.mp h)⟩
    refine ⟨hlargest.1.trans hfirst, List.forall_mem_cons.mpr ⟨hlargest.2.trans hfirst, hrest⟩⟩

/-- The alignment is at least one and at most the bound, and no size of a field is cut off below it.
-/
theorem GetMaxAlignSize_spec (B : AlignBuild) (infos : List Info) :
    0 < (GetMaxAlignSize B infos).toNat ∧
      (GetMaxAlignSize B infos).toNat ≤ B.ALIGN_BOUND.toNat ∧
      ∀ info ∈ infos, (alignSize info).toNat < 2147483648 →
        min (alignSize info).toNat B.ALIGN_BOUND.toNat ≤ (GetMaxAlignSize B infos).toNat := by
  obtain ⟨hone, hall⟩ := foldl_largest infos 1
  unfold GetMaxAlignSize bounded
  generalize infos.foldl (fun align info => largest align (alignSize info)) 1 = a at hone hall
  have hbound := toNat_ALIGN_BOUND (B := B)
  have hone' : (1 : UInt32).toInt32.toInt = 1 := rfl
  rw [hone', toInt_toInt32] at hone
  have hboundInt : B.ALIGN_BOUND.toInt32.toInt = B.ALIGN_BOUND.toNat := by
    rw [toInt_toInt32, if_pos (by omega)]
  have hlt := a.toNat_lt
  split_ifs with h
  · refine ⟨by omega, le_rfl, fun info _ _ => Nat.min_le_right _ _⟩
  · rw [Int32.not_lt, Int32.le_iff_toInt_le, hboundInt, toInt_toInt32] at h
    have ha : a.toNat < 2147483648 := by
      by_contra hge
      rw [if_neg (by omega)] at hone
      omega
    rw [if_pos (by omega)] at h hone
    refine ⟨by omega, by omega, fun info hinfo hsmall => ?_⟩
    have hle := hall info hinfo
    rw [toInt_toInt32, toInt_toInt32, if_pos (by omega), if_pos (by omega)] at hle
    omega

theorem GetMaxAlignSize_ne_zero (B : AlignBuild) (infos : List Info) :
    GetMaxAlignSize B infos ≠ 0 :=
  fun hzero => absurd (GetMaxAlignSize_spec B infos).1 (by rw [hzero]; decide)

theorem toNat_size_lt (type : CarDataType) : type.size.toNat < 2147483648 := by
  cases type <;> decide

/-- A field at a multiple of its unit is aligned as is claimed. -/
theorem Good.placed (h : Good info) (hinfo : info ∈ infos) (hsized : Sized info)
    {d : StructFieldDesc} (hat : At (GetMaxAlignSize B infos) info d) : Placed B info d := by
  obtain ⟨hpos, hle, hmin⟩ := GetMaxAlignSize_spec B infos
  obtain ⟨htype, hsize, hdvd⟩ := hat
  rw [toNat_unit] at hdvd
  cases h with
  | plain hplain a =>
    have hcut := hmin _ hinfo (by rw [alignSize_plain hplain]; exact toNat_size_lt _)
    rw [alignSize_plain hplain, Option.some.inj hsize] at hcut
    rw [elemtAlign_plain hplain] at hdvd
    refine (placed_plain hplain).mpr ⟨htype, hsize, ?_⟩
    have hunit : min d.mSize.toNat B.ALIGN_BOUND.toNat =
        min d.mSize.toNat (GetMaxAlignSize B infos).toNat := by omega
    rwa [hunit]
  | @struct size maxAlign ha hmul =>
    obtain ⟨s, hs, hne⟩ := hsized
    have hnat : 0 < size.toNat := Nat.pos_of_ne_zero fun hz =>
      hne ((Option.some.inj hs).symm.trans (UInt32.toNat_inj.mp hz))
    have hmax := Nat.le_of_dvd hnat hmul
    change min d.mSize.toNat maxAlign.toNat ∣ _ at hdvd
    rw [← Option.some.inj hsize, Nat.min_eq_right hmax] at hdvd
    exact ⟨htype, hsize, hdvd⟩
  | cppVector ha => exact ⟨htype, hsize, trivial⟩
  | arrayOf a => exact ⟨htype, hsize, trivial⟩

end Aligned

/-! ### One struct -/

variable {B} {mName : CarString} {fields : List (CarString × Info)}

/-- **One struct** whose fields have good infos. -/
theorem laidOut_iff (mName : CarString) (hgood : ∀ f ∈ fields, Good f.2) :
    (∃ s, InitFieldElement B mName fields = .ok s ∧ LaidOut B (fields.map Prod.snd) s) ↔
      (∀ info ∈ fields.map Prod.snd, Sized info) ∧ extent B (fields.map Prod.snd) < 4294967296 := by
  have halign := GetMaxAlignSize_ne_zero B (fields.map Prod.snd)
  have hparts : (fields.map Prod.snd).map (part (GetMaxAlignSize B (fields.map Prod.snd))) =
      fields.map fun f => part (GetMaxAlignSize B (fields.map Prod.snd)) f.2 := List.map_map
  unfold InitFieldElement extent
  rw [hparts]
  have hplaced : ∀ info ∈ fields.map Prod.snd, Sized info → ∀ d,
      At (GetMaxAlignSize B (fields.map Prod.snd)) info d → Placed B info d := by
    intro info hinfo hsized d hat
    obtain ⟨f, hf, rfl⟩ := List.mem_map.mp hinfo
    exact (hgood f hf).placed hinfo hsized hat
  have hdvd : ∀ s : CStructInfo, LaidOut B (fields.map Prod.snd) s ↔
      CStructInfo.Laid 0 s.mSize.toNat s.mStructFieldDesc ∧
        List.Forall₂ (Placed B) (fields.map Prod.snd) s.mStructFieldDesc ∧
        (GetMaxAlignSize B (fields.map Prod.snd)).toNat ∣ s.mSize.toNat :=
    fun s => ⟨fun h => ⟨h.laid, h.placed, h.aligned⟩, fun ⟨h, h', h''⟩ => ⟨h, h', h''⟩⟩
  have hself : unit (GetMaxAlignSize B (fields.map Prod.snd))
      (GetMaxAlignSize B (fields.map Prod.snd)) = GetMaxAlignSize B (fields.map Prod.snd) :=
    ite_self _
  generalize GetMaxAlignSize B (fields.map Prod.snd) = align at *
  have hunit : unit align align ≠ 0 := by rwa [hself]
  constructor
  · rintro ⟨s, hs, hlaid⟩
    obtain ⟨hlaid, -, -⟩ := (hdvd s).mp hlaid
    obtain ⟨⟨descs, last⟩, hfields, hs⟩ := Except.bind_eq_ok hs
    rw [AdjuctElemOffset, if_neg hunit] at hs
    obtain rfl := Except.ok.inj hs
    obtain ⟨hdiv, hle, hlast⟩ := fits_of_fieldsFrom 0 hfields hlaid (UInt32.toNat_lt _)
    refine ⟨fun info hinfo => ?_, ?_⟩
    · obtain ⟨f, hf, rfl⟩ := List.mem_map.mp hinfo
      exact ((hgood f hf).divides_iff halign).mp (hdiv f hf)
    · have hfits := (toNat_AdjuctElemOffset _ hunit).2 hle
      rwa [hself, hlast] at hfits
  · rintro ⟨hsized, hext⟩
    have hpos : 0 < align.toNat := Nat.pos_of_ne_zero fun hz => halign (UInt32.toNat_inj.mp hz)
    have hdiv : ∀ f ∈ fields, Divides align f.2 := fun f hf =>
      ((hgood f hf).divides_iff halign).mpr (hsized f.2 (List.mem_map_of_mem hf))
    have hround := Layout.le_roundUp hpos
      (Layout.endOf 0 (fields.map fun f => part align f.2))
    obtain ⟨descs, last, hok, hlast, hlaid, hat⟩ := fieldsFrom_of_fits 0 hdiv
      (hround.trans_lt hext)
    have hlast' : last.toNat = Layout.endOf 0 (fields.map fun f => part align f.2) := hlast
    have hend := (toNat_AdjuctElemOffset last hunit).1 (by rwa [hself, hlast'])
    rw [hself, hlast'] at hend
    refine ⟨⟨mName, descs, CStructInfo.AdjuctElemOffset last align align⟩, ?_,
      (hdvd _).mpr ⟨?_, ?_, ?_⟩⟩
    · change (fieldsFrom align 0 fields).bind _ = _
      rw [hok]
      change (AdjuctElemOffset last align align).map _ = _
      rw [AdjuctElemOffset, if_neg hunit]
      rfl
    · refine ⟨hlaid.apart, fun d hd => ⟨Nat.zero_le _, (hlaid.inside d hd).2.trans ?_⟩,
        Nat.zero_le _⟩
      rw [hlast', hend]
      exact hround
    · have hmem : ∀ info ∈ fields.map Prod.snd, info ∈ fields.map Prod.snd ∧ Sized info :=
        fun info hinfo => ⟨hinfo, hsized info hinfo⟩
      exact ((List.forall₂_and_left _ _).mpr ⟨hmem, hat⟩).imp fun {info d} h =>
        hplaced info h.1.1 h.1.2 d h.2
    · change _ ∣ (CStructInfo.AdjuctElemOffset last align align).toNat
      rw [hend]
      exact Layout.dvd_roundUp _ _

/-! ### Structs of scalars -/

/-- The info of a scalar type. -/
def Info.ofScalar (type : CarDataType) : Info := ⟨type, some type.size, type.size⟩

section Scalars

variable {types : List (CarString × CarDataType)} {align : UInt32}

theorem isPlain_of_isScalar {type : CarDataType} (h : type.isScalar = true) :
    type.isPlain = true := by
  cases type <;> first | rfl | cases h

theorem size_ne_zero_of_isScalar {type : CarDataType} (h : type.isScalar = true) :
    type.size ≠ 0 := by
  cases type <;> first | decide | cases h

/-- Below `2^31` it does not matter that sizes are compared as `Int32`. -/
theorem toInt32_lt_iff {a b : UInt32} (ha : a.toNat < 2147483648) (hb : b.toNat < 2147483648) :
    a.toInt32 < b.toInt32 ↔ a < b := by
  rw [Int32.lt_iff_toInt_lt, toInt_toInt32, toInt_toInt32, if_pos (by omega), if_pos (by omega),
    UInt32.lt_iff_toNat_lt]
  omega

theorem GetMaxAlignSize_scalars (h : ∀ f ∈ types, f.2.isScalar = true) :
    GetMaxAlignSize B (types.map fun f => Info.ofScalar f.2) =
      CStructInfo.GetMaxAlignSize B (types.map fun f => DataTypeInfo.ofScalar f.2) := by
  have hfold : ∀ a : UInt32, a.toNat < 2147483648 →
      (types.map fun f => Info.ofScalar f.2).foldl
          (fun align info => largest align (alignSize info)) a =
        (types.map fun f => DataTypeInfo.ofScalar f.2).foldl (fun align info =>
          if align < CStructInfo.alignSize info then CStructInfo.alignSize info else align) a ∧
      ((types.map fun f => Info.ofScalar f.2).foldl
          (fun align info => largest align (alignSize info)) a).toNat < 2147483648 := by
    induction types with
    | nil => exact fun a ha => ⟨rfl, ha⟩
    | cons f types ih =>
      obtain ⟨hf, htypes⟩ := List.forall_mem_cons.mp h
      intro a ha
      have hsize : alignSize (Info.ofScalar f.2) = f.2.size :=
        alignSize_plain (isPlain_of_isScalar hf) _
      have hsize' : CStructInfo.alignSize (DataTypeInfo.ofScalar f.2) = f.2.size := by
        unfold CStructInfo.alignSize DataTypeInfo.ofScalar
        split <;> rfl
      have hlt := toNat_size_lt f.2
      have hlargest : largest a f.2.size = if a < f.2.size then f.2.size else a :=
        if_congr (toInt32_lt_iff ha hlt) rfl rfl
      rw [List.map_cons, List.map_cons, List.foldl_cons, List.foldl_cons, hsize, hsize', hlargest]
      refine ih htypes _ ?_
      split_ifs
      · exact hlt
      · exact ha
  obtain ⟨heq, hlt⟩ := hfold 1 (by decide)
  have hbound := toNat_ALIGN_BOUND (B := B)
  have hiff := toInt32_lt_iff (a := B.ALIGN_BOUND) (by omega) hlt
  rw [heq] at hiff
  unfold GetMaxAlignSize bounded
  rw [heq]
  exact if_congr hiff rfl rfl

theorem fieldsFrom_scalars (h : ∀ f ∈ types, f.2.isScalar = true) (halign : align ≠ 0)
    (offset : UInt32) :
    fieldsFrom align offset (types.map fun f => (f.1, Info.ofScalar f.2)) =
      .ok (CStructInfo.fieldsFrom align offset
        (types.map fun f => (f.1, DataTypeInfo.ofScalar f.2))) := by
  induction types generalizing offset with
  | nil => rfl
  | cons f types ih =>
    obtain ⟨hf, htypes⟩ := List.forall_mem_cons.mp h
    have helemt : elemtAlign align (Info.ofScalar f.2) = align :=
      elemtAlign_plain (isPlain_of_isScalar hf) _ _
    have helemt' : CStructInfo.elemtAlign align (DataTypeInfo.ofScalar f.2) = align := by
      revert hf
      cases f.2 <;> first | exact fun _ => rfl | exact nofun
    have hunit : unit f.2.size align ≠ 0 :=
      unit_ne_zero_iff.mpr ⟨size_ne_zero_of_isScalar hf, halign⟩
    rw [List.map_cons, List.map_cons, CStructInfo.fieldsFrom, helemt']
    change (AdjuctElemOffset offset f.2.size (elemtAlign align (Info.ofScalar f.2))).bind _ = _
    rw [helemt, AdjuctElemOffset, if_neg hunit]
    change (fieldsFrom align _ _).map _ = _
    rw [ih htypes]
    rfl

/-- **Scalar fields** are laid out as if nothing could go wrong. -/
theorem InitFieldElement_scalars (h : ∀ f ∈ types, f.2.isScalar = true) (mName : CarString) :
    InitFieldElement B mName (types.map fun f => (f.1, Info.ofScalar f.2)) =
      .ok (CStructInfo.InitFieldElement B mName
        (types.map fun f => (f.1, DataTypeInfo.ofScalar f.2))) := by
  have hinfos : (types.map fun f => (f.1, Info.ofScalar f.2)).map Prod.snd =
      types.map fun f => Info.ofScalar f.2 := List.map_map
  have hinfos' : (types.map fun f => (f.1, DataTypeInfo.ofScalar f.2)).map Prod.snd =
      types.map fun f => DataTypeInfo.ofScalar f.2 := List.map_map
  have halign := GetMaxAlignSize_ne_zero B (types.map fun f => Info.ofScalar f.2)
  unfold InitFieldElement CStructInfo.InitFieldElement
  rw [hinfos, hinfos', ← GetMaxAlignSize_scalars h]
  change (fieldsFrom _ 0 _).bind _ = _
  rw [fieldsFrom_scalars h halign]
  change (AdjuctElemOffset _ _ _).map _ = _
  rw [AdjuctElemOffset, if_neg (unit_ne_zero_iff.mpr ⟨halign, halign⟩)]
  rfl

end Scalars

/-! ### Structs in structs -/

theorem bounded_ne_zero {v : UInt32} (h : v ≠ 0) : bounded B v ≠ 0 := by
  unfold bounded
  split_ifs
  · cases B <;> decide
  · exact h

/-- The elements of a vector of some size have an alignment. -/
theorem Good.elementAlign_ne_zero {info : Info} (h : Good info) {size : UInt32}
    (hsize : info.size = some size) (hne : size ≠ 0) : elementAlign B info ≠ 0 := by
  refine bounded_ne_zero ?_
  cases h with
  | @plain type htype a =>
    have hstruct : type ≠ .struct := fun heq => by rw [heq] at htype; exact nomatch htype
    rw [if_neg hstruct, hsize]
    exact hne
  | struct hpos hdvd => exact hpos
  | cppVector ha =>
    rw [if_neg (show ¬CarDataType.cppVector = .struct by decide), hsize]
    exact hne
  | arrayOf a => exact nomatch hsize

/-- The info of a vector whose elements have a size. -/
theorem Good.cppVector_of_element {info : Info} (h : Good info) {size : UInt32}
    (hsize : info.size = some size) (length : Int32) :
    Good ⟨.cppVector, some (size * length.toUInt32), elementAlign B info⟩ := by
  refine .cppVector fun hne => h.elementAlign_ne_zero hsize fun hzero => hne ?_
  rw [hzero, UInt32.zero_mul]

theorem build_cppVector {element : TypeInfo} {info : Info} (h : element.build B = .ok info)
    (length : Int32) : (TypeInfo.cppVector element length).build B =
      match info.size with
      | none => .error .sizeNotSet
      | some size => .ok ⟨.cppVector, some (size * length.toUInt32), elementAlign B info⟩ := by
  rw [TypeInfo.build, h]
  rfl

mutual

/-- The infos of a right type can be made, and answer as they should. -/
theorem TypeInfo.good_of_right : (t : TypeInfo) → t.Right B →
    ∃ info, t.build B = .ok info ∧ Good info ∧ (info.size = none ↔ t.isArrayOf = true)
  | .plain type h, _ => ⟨_, rfl, .plain h _, by simp [TypeInfo.isArrayOf]⟩
  | .struct mName fields, ⟨_, infos, s, hbuild, hinit, hlaid⟩ => by
    refine ⟨⟨.struct, some s.mSize, GetMaxAlignSize B (infos.map Prod.snd)⟩, ?_,
      .struct (GetMaxAlignSize_ne_zero B _) hlaid.aligned, by simp [TypeInfo.isArrayOf]⟩
    rw [TypeInfo.build, hbuild]
    change (InitFieldElement B mName infos).map _ = _
    rw [hinit]
    rfl
  | .cppVector element length, ⟨helement, info, hbuild⟩ => by
    obtain ⟨einfo, hebuild, hgood, -⟩ := element.good_of_right helement
    refine ⟨info, hbuild, ?_⟩
    rw [build_cppVector hebuild] at hbuild
    rcases hsize : einfo.size with _ | size
    · rw [hsize] at hbuild
      exact nomatch hbuild
    · rw [hsize] at hbuild
      obtain rfl := Except.ok.inj hbuild
      exact ⟨hgood.cppVector_of_element hsize length, by simp [TypeInfo.isArrayOf]⟩
  | .arrayOf element, helement => by
    obtain ⟨einfo, hebuild, -, -⟩ := element.good_of_right helement
    refine ⟨⟨.arrayOf, none, elementAlign B einfo⟩, ?_, .arrayOf _, by simp [TypeInfo.isArrayOf]⟩
    rw [TypeInfo.build, hebuild]
    rfl

theorem FieldList.good_of_right : (fields : FieldList) → fields.Right B →
    ∃ infos, fields.build B = .ok infos ∧ ∀ f ∈ infos, Good f.2
  | .nil, _ => ⟨[], rfl, fun f hf => (List.not_mem_nil hf).elim⟩
  | .cons name type fields, ⟨htype, hfields⟩ => by
    obtain ⟨info, hbuild, hgood, -⟩ := type.good_of_right htype
    obtain ⟨infos, hbuilds, hgoods⟩ := fields.good_of_right hfields
    refine ⟨(name, info) :: infos, ?_, List.forall_mem_cons.mpr ⟨hgood, hgoods⟩⟩
    rw [FieldList.build, hbuild]
    change (fields.build B).map _ = _
    rw [hbuilds]
    rfl

end

/-- A vector of elements whose infos are right can be made unless they are arrays. -/
theorem exists_build_cppVector_iff {element : TypeInfo} (h : element.Right B) (length : Int32) :
    (∃ info, (TypeInfo.cppVector element length).build B = .ok info) ↔
      element.isArrayOf = false := by
  obtain ⟨einfo, hbuild, -, hnone⟩ := element.good_of_right h
  rw [build_cppVector hbuild, ← Bool.not_eq_true, ← hnone]
  rcases einfo.size with _ | size
  · exact ⟨fun ⟨_, h⟩ => (nomatch h), fun h => absurd rfl h⟩
  · exact ⟨fun _ => nofun, fun _ => ⟨_, rfl⟩⟩

/-- A struct of fields whose infos are right is right when these fit. -/
theorem structRight_iff {fields : FieldList} (h : fields.Right B) :
    StructRight B mName fields ↔ StructFits B fields := by
  obtain ⟨infos, hbuild, hgood⟩ := fields.good_of_right h
  constructor
  · rintro ⟨infos', s, hbuild', hinit, hlaid⟩ infos'' hbuild''
    obtain rfl := Except.ok.inj (hbuild.symm.trans hbuild')
    obtain rfl := Except.ok.inj (hbuild.symm.trans hbuild'')
    exact (laidOut_iff _ hgood).mp ⟨s, hinit, hlaid⟩
  · intro hfits
    obtain ⟨s, hinit, hlaid⟩ := (laidOut_iff mName hgood).mpr (hfits infos hbuild)
    exact ⟨infos, s, hbuild, hinit, hlaid⟩

mutual

theorem TypeInfo.right_iff_fits : (t : TypeInfo) → (t.Right B ↔ t.Fits B)
  | .plain _ _ => Iff.rfl
  | .struct _ fields =>
    (and_congr_right fun h => structRight_iff h).trans (and_congr_left' fields.right_iff_fits)
  | .cppVector element length =>
    (and_congr_right fun h => exists_build_cppVector_iff h length).trans
      (and_congr_left' element.right_iff_fits)
  | .arrayOf element => element.right_iff_fits

theorem FieldList.right_iff_fits : (fields : FieldList) → (fields.Right B ↔ fields.Fits B)
  | .nil => Iff.rfl
  | .cons _ type fields => and_congr type.right_iff_fits fields.right_iff_fits

end

/-- **Layouts are right** exactly when the fields fit. -/
theorem layout_right (B : AlignBuild) (mName : CarString) (fields : FieldList) :
    (TypeInfo.struct mName fields).Right B ↔ (TypeInfo.struct mName fields).Fits B :=
  TypeInfo.right_iff_fits _

/-- The struct `A { B f; }`. -/
private def wrapped (f : TypeInfo) : TypeInfo :=
  .struct (some ⟨[65], by decide⟩) (.cons (some ⟨[102], by decide⟩) f .nil)

theorem build_of_right {t : TypeInfo} (h : t.Right B) : ∃ info, t.build B = .ok info := by
  obtain ⟨info, hbuild, -⟩ := t.good_of_right h
  exact ⟨info, hbuild⟩

/-- A struct without fields, or a vector of length zero, as a field is divided by, and the size of
an array as a field is not set. -/
theorem not_layout_right :
    ¬(wrapped (.struct (some ⟨[66], by decide⟩) .nil)).Right .other ∧
      ¬(wrapped (.cppVector (.plain .int32 rfl) 0)).Right .other ∧
      ¬(wrapped (.arrayOf (.plain .int32 rfl))).Right .other := by
  have hempty : (wrapped (.struct (some ⟨[66], by decide⟩) .nil)).build .other =
      .error .divisionByZero := by decide +kernel
  have hvector : (wrapped (.cppVector (.plain .int32 rfl) 0)).build .other =
      .error .divisionByZero := by decide +kernel
  have harray : (wrapped (.arrayOf (.plain .int32 rfl))).build .other =
      .error .sizeNotSet := by decide +kernel
  refine ⟨fun h => ?_, fun h => ?_, fun h => ?_⟩
  · obtain ⟨info, hbuild⟩ := build_of_right h
    exact nomatch hempty.symm.trans hbuild
  · obtain ⟨info, hbuild⟩ := build_of_right h
    exact nomatch hvector.symm.trans hbuild
  · obtain ⟨info, hbuild⟩ := build_of_right h
    exact nomatch harray.symm.trans hbuild

end StructLayout

end ElastosCar
