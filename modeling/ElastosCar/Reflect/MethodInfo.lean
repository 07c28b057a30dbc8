import ElastosCar.Cls.DataType
import ElastosCar.Lib.Layout
import ElastosCar.Lib.Run
import ElastosCar.Reflect.StructInfo

/-!
# The arguments of a method

`CMethodInfo::InitParmElement` gives each parameter of a method a slot in the argument buffer,
behind the `this` pointer. The type of a parameter may be an alias: `AliasToOriginal` has the
original type with the levels of pointers that the alias adds, and the levels of the parameter
itself are counted besides.

The size of a slot is asked for with the original type alone. A pointer to an alias of a type that
is passed by value gets the slot of the value (`initParmElement_iff`).

A method has fewer than 2^16 parameters, so the offsets do not wrap, and are natural numbers here.
-/

namespace ElastosCar

namespace CMethodInfo

open Cls (CARDataType TypeDescriptor CLSModule)

/-- `ParamIOAttribute`. -/
inductive ParamIOAttribute
  | In | CalleeAllocOut | CallerAllocOut
deriving DecidableEq, Repr

structure ParamDescriptor where
  mType : TypeDescriptor
  mAttribs : UInt32
deriving DecidableEq, Repr

def ParamAttrib_in : UInt32 := 1

def ParamAttrib_callee : UInt32 := 4

def ParamDescriptor.isIn (p : ParamDescriptor) : Bool := p.mAttribs &&& ParamAttrib_in ≠ 0

/-- `mParamCount` is an `unsigned short`. -/
structure MethodDescriptor where
  mParams : List ParamDescriptor
  mParamCount : mParams.length < 65536

/-- `ParmElement`. -/
structure ParmElement where
  mPos : ℕ
  mSize : ℕ
  mType : CarDataType
  mAttrib : ParamIOAttribute
  mPointer : ℕ
deriving DecidableEq, Repr

def ROUND4 (n : ℕ) : ℕ := (n + 3) / 4 * 4

def ROUND8 (n : ℕ) : ℕ := (n + 7) / 8 * 8

/-- `GetCarDataType`. -/
def GetCarDataType : CARDataType → CarDataType
  | .int16 => .int16
  | .int32 => .int32
  | .int64 => .int64
  | .byte => .byte
  | .boolean => .boolean
  | .float => .float
  | .double => .double
  | .char32 => .char32
  | .string => .string
  | .emuid => .emuid
  | .eguid => .eguid
  | .ecode => .ecode
  | .enum => .enum
  | .array => .cppVector
  | .struct => .struct
  | .interface => .interface
  | .arrayOf => .arrayOf
  | .int8 | .uint16 | .uint32 | .uint64 | .pvoid | .eventHandler | .alias | .char16 | .const =>
    .localType

/-- `GetDataTypeSize` of a type that is no alias. `composite` is the size of a struct or an array,
which is in the module. -/
def GetDataTypeSize (composite : TypeDescriptor → ℕ) (typeDesc : TypeDescriptor) : ℕ :=
  if typeDesc.mPointer ≠ 0 then 4
  else
    match typeDesc.mType with
    | .char16 | .int16 | .uint16 => 2
    | .int8 | .byte | .boolean => 1
    | .char32 | .int32 | .uint32 | .float | .ecode | .enum | .pvoid | .string | .interface => 4
    | .int64 | .uint64 | .double | .eventHandler => 8
    | .emuid => 16
    | .eguid => 24
    | .struct | .array | .arrayOf => composite typeDesc
    | .alias | .const => 0

/-- The types that are passed by their address. -/
def isReference : CARDataType → Bool
  | .struct | .emuid | .eguid | .arrayOf | .array => true
  | _ => false

section

variable (B : AlignBuild) (m : CLSModule) (mAliasCount : UInt16) (composite : TypeDescriptor → ℕ)

/-- `CClsModule::AliasToOriginal`: what `InitOrgType` has made of each alias. -/
def AliasToOriginal (typeDype : TypeDescriptor) : Except ECode TypeDescriptor :=
  if mAliasCount = 0 then throw E_INVALID_OPERATION
  else if typeDype.mType ≠ .alias then throw E_INVALID_ARGUMENT
  else if mAliasCount ≤ typeDype.mIndex then throw E_INVALID_ARGUMENT
  -- a new record is filled, and what is not filled is not looked at
  else pure (m.GetOriginalType (m.mAliasDirs typeDype.mIndex) { mType := .const })

/-- `typeDesc` of `SetParamElem`. -/
def originalType (typeDesc : TypeDescriptor) : Except ECode TypeDescriptor :=
  if typeDesc.mType = .alias then AliasToOriginal m mAliasCount typeDesc else pure typeDesc

/-- The type, the attribute and the levels of pointers of a parameter. -/
def ioAttrib (mAttribs : UInt32) (type : CarDataType) (mPointer : ℕ) :
    CarDataType × ParamIOAttribute × ℕ :=
  if mAttribs &&& ParamAttrib_in ≠ 0 then
    if type = .interface then (if 1 < mPointer then .localPtr else type, .In, mPointer)
    else (if 0 < mPointer then .localPtr else type, .In, mPointer)
  else if 2 < mPointer then (.localPtr, .CallerAllocOut, mPointer - 1)
  else if mPointer = 2 ∧ type ≠ .interface then
    if type = .string then (type, .CalleeAllocOut, mPointer)
    else (.localPtr, .CallerAllocOut, 1)
  else if mAttribs &&& ParamAttrib_callee ≠ 0 then (type, .CalleeAllocOut, 2)
  else (type, .CallerAllocOut, mPointer)

/-- `mSize` of a parameter. -/
def elementSize (typeDesc : TypeDescriptor) : ℕ :=
  if isReference typeDesc.mType then 4 else GetDataTypeSize composite typeDesc

/-- The size of the buffer so far, rounded up for a parameter that is aligned. -/
def alignFor (type : CARDataType) (mAttrib : ParamIOAttribute) (mParamBufSize : ℕ) : ℕ :=
  if B = .arm ∧ (type = .double ∨ type = .int64) ∧ mAttrib ≠ .CallerAllocOut then
    ROUND8 mParamBufSize
  else mParamBufSize

/-- `SetParamElem`: the element, and the size of the buffer behind it. -/
def SetParamElem (paramDescriptor : ParamDescriptor) (mParamBufSize : ℕ) :
    Except ECode (ParmElement × ℕ) := do
  let typeDesc ← originalType m mAliasCount paramDescriptor.mType
  let mPointer := paramDescriptor.mType.mPointer.toNat +
    if paramDescriptor.mType.mType = .alias then typeDesc.mPointer.toNat else 0
  let (mType, mAttrib, mPointer) := ioAttrib paramDescriptor.mAttribs
    (GetCarDataType typeDesc.mType) mPointer
  let mSize := elementSize composite typeDesc
  let mPos := alignFor B typeDesc.mType mAttrib mParamBufSize
  pure (⟨mPos, mSize, mType, mAttrib, mPointer⟩, mPos + ROUND4 mSize)

/-- The loop of `InitParmElement`. -/
def setParamElems : List ParamDescriptor → ℕ → Except ECode (List ParmElement × ℕ)
  | [], mParamBufSize => pure ([], mParamBufSize)
  | p :: ps, mParamBufSize => do
    let (e, mParamBufSize) ← SetParamElem B m mAliasCount composite p mParamBufSize
    let (es, mParamBufSize) ← setParamElems ps mParamBufSize
    pure (e :: es, mParamBufSize)

/-- `InitParmElement`: `mParamElem` and `mParamBufSize`, which starts behind the `this` pointer. -/
def InitParmElement (mMethodDescriptor : MethodDescriptor) : Except ECode (List ParmElement × ℕ) :=
  setParamElems B m mAliasCount composite mMethodDescriptor.mParams 4

end

/-! ### What the layout should be -/

/-- The bytes of the buffer that an argument takes. -/
def ParmElement.slot (e : ParmElement) : ℕ × ℕ := (e.mPos, ROUND4 e.mSize)

/-- The scalars of 64 bits. -/
def isScalar64 : CARDataType → Bool
  | .int64 | .uint64 | .double => true
  | _ => false

section

variable (m : CLSModule)

/-- The type of a parameter behind its aliases. -/
def base (p : ParamDescriptor) : CARDataType := (m.original p.mType).mType

/-- Two words for a scalar of 64 bits that goes in by value, one for everything else. -/
def HasWidth (p : ParamDescriptor) (e : ParmElement) : Prop :=
  ROUND4 e.mSize = if p.isIn ∧ m.levels p.mType = 0 ∧ isScalar64 (base m p) then 8 else 4

/-- The first parameter has an alias, or several, for the type of the second. -/
def AliasFor (p' p : ParamDescriptor) : Prop :=
  p.mType.mType ≠ .alias ∧ p'.mAttribs = p.mAttribs ∧ m.expand p'.mType = m.expand p.mType

/-- The descriptor that `SetParamElem` asks for the size. -/
def resolved (p : ParamDescriptor) : TypeDescriptor :=
  if p.mType.mType = .alias then m.GetOriginalType (m.mAliasDirs p.mType.mIndex) { mType := .const }
  else p.mType

/-- What a value of a type takes. -/
def valueSize (type : CARDataType) : ℕ := GetDataTypeSize (fun _ => 0) { mType := type }

/-- The width of the slot is right: the type is passed by its address, or is a pointer also without
the levels of a parameter that has an alias; else it is no event handler, and a scalar of 64 bits
goes in by value. -/
def WidthOk (p : ParamDescriptor) : Prop :=
  isReference (base m p) ∨ (resolved m p).mPointer ≠ 0 ∨
    base m p ≠ .const ∧ base m p ≠ .eventHandler ∧
      (isScalar64 (base m p) → p.isIn ∧ m.levels p.mType = 0)

/-- The size does not depend on the aliases: the type is passed by its address, or is a pointer also
without the levels of the parameter, or no pointer at all; else a value takes what a pointer takes.
-/
def AliasOk (p : ParamDescriptor) : Prop :=
  isReference (base m p) ∨ (resolved m p).mPointer ≠ 0 ∨ m.levels p.mType = 0 ∨
    valueSize (base m p) = 4

end

/-! ### One parameter -/

section

variable {B : AlignBuild} {m : CLSModule} {mAliasCount : UInt16} {composite : TypeDescriptor → ℕ}
  {p p' : ParamDescriptor} {e : ParmElement} {lo hi : ℕ}

theorem aliases_next_eq_none {t : TypeDescriptor} (h : t.mType ≠ .alias) :
    m.aliases.next t = none :=
  if_neg h

theorem aliases_next_eq_some {t : TypeDescriptor} (h : t.mType = .alias) :
    m.aliases.next t = some (m.mAliasDirs t.mIndex) := if_pos h

theorem base_ne_alias (p : ParamDescriptor) : base m p ≠ .alias := by
  intro h
  have hnext := m.aliases.next_last p.mType
  exact nomatch (aliases_next_eq_some h).symm.trans hnext

theorem mType_resolved (p : ParamDescriptor) : (resolved m p).mType = base m p := by
  rw [resolved, base, CLSModule.original]
  split_ifs with h
  · rw [CLSModule.GetOriginalType_eq, CLSModule.original,
      Delegation.last_of_some (aliases_next_eq_some h)]
  · rw [Delegation.last_of_none (aliases_next_eq_none h)]

/-- The levels of a parameter: its own, and those of the alias that it has. -/
theorem levels_eq (p : ParamDescriptor) : m.levels p.mType = p.mType.mPointer.toNat +
    if p.mType.mType = .alias then m.levels (m.mAliasDirs p.mType.mIndex) else 0 := by
  rw [CLSModule.levels]
  split_ifs with h
  · rw [Delegation.total_of_some _ _ (aliases_next_eq_some h)]
    rfl
  · rw [Delegation.total_of_none _ _ (aliases_next_eq_none h), Nat.add_zero]

/-- The levels that `AliasToOriginal` gives, counted in a byte. -/
theorem toNat_mPointer_resolved (h : p.mType.mType = .alias) : (resolved m p).mPointer.toNat =
    m.levels (m.mAliasDirs p.mType.mIndex) % 256 := by
  rw [resolved, if_pos h, CLSModule.GetOriginalType_eq]
  exact CLSModule.toNat_pointer _

theorem elementSize_eq (composite : TypeDescriptor → ℕ) (t : TypeDescriptor) :
    elementSize composite t =
      if isReference t.mType ∨ t.mPointer ≠ 0 then 4 else valueSize t.mType := by
  rw [elementSize, GetDataTypeSize, valueSize, GetDataTypeSize]
  by_cases hpointer : t.mPointer = 0
  · cases ht : t.mType <;> simp [isReference, hpointer]
  · simp [hpointer]

theorem originalType_eq_ok {typeDesc : TypeDescriptor}
    (h : originalType m mAliasCount p.mType = .ok typeDesc) : typeDesc = resolved m p := by
  rw [originalType] at h
  rw [resolved]
  split_ifs at h ⊢ with halias
  · rw [AliasToOriginal] at h
    split_ifs at h
    exact (Except.ok.inj h).symm
  · exact (Except.ok.inj h).symm

/-- **What `SetParamElem` does**, if it does not fail. -/
theorem SetParamElem_eq_ok (h : SetParamElem B m mAliasCount composite p lo = .ok (e, hi)) :
    e.mSize = elementSize composite (resolved m p) ∧
      (e.mType, e.mAttrib, e.mPointer) = ioAttrib p.mAttribs (GetCarDataType (base m p))
        (p.mType.mPointer.toNat +
          if p.mType.mType = .alias then (resolved m p).mPointer.toNat else 0) ∧
      e.mPos = alignFor B (base m p) e.mAttrib lo ∧ hi = e.mPos + ROUND4 e.mSize := by
  rw [← mType_resolved]
  obtain ⟨typeDesc, htype, h⟩ := Except.bind_eq_ok h
  obtain rfl := originalType_eq_ok htype
  cases h
  exact ⟨rfl, rfl, rfl, rfl⟩

theorem le_ROUND8 (n : ℕ) : n ≤ ROUND8 n := by
  rw [ROUND8]
  omega

theorem le_alignFor (type : CARDataType) (mAttrib : ParamIOAttribute) (n : ℕ) :
    n ≤ alignFor B type mAttrib n := by
  rw [alignFor]
  split_ifs
  · exact le_ROUND8 n
  · exact Nat.le_refl n

/-- What is looked at with no levels left has levels that the parameter has not. -/
theorem levels_ne_zero (h : (resolved m p).mPointer ≠ 0) : m.levels p.mType ≠ 0 := by
  intro hzero
  rw [levels_eq] at hzero
  refine h (UInt8.toNat_inj.mp ?_)
  by_cases halias : p.mType.mType = .alias
  · rw [if_pos halias] at hzero
    rw [toNat_mPointer_resolved halias, Nat.eq_zero_of_add_eq_zero_left hzero]
    rfl
  · rw [resolved, if_neg halias, Nat.eq_zero_of_add_eq_zero_right hzero]
    rfl

theorem not_scalar64_of_isReference {type : CARDataType} (h : isReference type = true) :
    isScalar64 type = false := by
  cases type <;> first | rfl | cases h

/-- **The width of a slot.** -/
theorem hasWidth_iff (h : SetParamElem B m mAliasCount composite p lo = .ok (e, hi)) :
    HasWidth m p e ↔ WidthOk m p := by
  rw [HasWidth, WidthOk, (SetParamElem_eq_ok h).1, elementSize_eq, mType_resolved]
  by_cases href : isReference (base m p) = true
  · simp [href, not_scalar64_of_isReference href, ROUND4]
  · by_cases hpointer : (resolved m p).mPointer = 0
    · have halias := base_ne_alias (m := m) p
      cases hbase : base m p <;>
        simp_all [isReference, isScalar64, valueSize, GetDataTypeSize, ROUND4]
    · simp [hpointer, levels_ne_zero hpointer, ROUND4]

/-- The slots of the parameters, from an offset on. -/
theorem setParamElems_inOrder {ps : List ParamDescriptor} {es : List ParmElement}
    (h : setParamElems B m mAliasCount composite ps lo = .ok (es, hi)) :
    Layout.InOrder lo hi (es.map ParmElement.slot) ∧
      (List.Forall₂ (HasWidth m) ps es ↔ ∀ p ∈ ps, WidthOk m p) := by
  induction ps generalizing lo es with
  | nil =>
    cases h
    exact ⟨.nil (Nat.le_refl _), iff_of_true .nil (List.forall_mem_nil _)⟩
  | cons p ps ih =>
    obtain ⟨⟨e, mid⟩, hp, h⟩ := Except.bind_eq_ok h
    obtain ⟨⟨es, hi⟩, hps, h⟩ := Except.bind_eq_ok h
    cases h
    obtain ⟨horder, hwidth⟩ := ih hps
    obtain ⟨-, -, hpos, hmid⟩ := SetParamElem_eq_ok hp
    refine ⟨.cons (hpos ▸ le_alignFor _ _ _) (hmid ▸ horder), ?_⟩
    rw [List.forall₂_cons, List.forall_mem_cons, hasWidth_iff hp, hwidth]

end

/-- Each element is that of its parameter. -/
theorem setParamElems_getElem? {B : AlignBuild} {m : CLSModule} {mAliasCount : UInt16}
    {composite : TypeDescriptor → ℕ} {ps : List ParamDescriptor} {es : List ParmElement} {lo hi : ℕ}
    (h : setParamElems B m mAliasCount composite ps lo = .ok (es, hi)) (i : ℕ) {e : ParmElement}
    (he : es[i]? = some e) : ∃ p pos next, ps[i]? = some p ∧
      SetParamElem B m mAliasCount composite p pos = .ok (e, next) := by
  induction ps generalizing lo es i with
  | nil =>
    cases h
    exact nomatch he
  | cons p ps ih =>
    obtain ⟨⟨e', mid⟩, hp, h⟩ := Except.bind_eq_ok h
    obtain ⟨⟨es, hi⟩, hps, h⟩ := Except.bind_eq_ok h
    cases h
    rcases i with _ | i
    · obtain rfl := Option.some.inj he
      exact ⟨p, lo, mid, rfl, hp⟩
    · exact ih hps i he

/-! ### Aliases -/

section

variable {B : AlignBuild} {m : CLSModule} {mAliasCount : UInt16} {composite : TypeDescriptor → ℕ}
  {p p' : ParamDescriptor}

theorem AliasFor.base_eq (h : AliasFor m p' p) : base m p' = base m p := by
  have hexpand := h.2.2
  rw [CLSModule.expand_eq, CLSModule.expand_eq p.mType] at hexpand
  split_ifs at hexpand
  · exact (Cls.TypeExpr.plain.inj hexpand).1
  · exact (Cls.TypeExpr.nested.inj hexpand).1

theorem AliasFor.levels_eq (h : AliasFor m p' p) : m.levels p'.mType = p.mType.mPointer.toNat := by
  have hlevels : m.levels p'.mType = m.levels p.mType := by
    rw [← CLSModule.pointer_expand, h.2.2, CLSModule.pointer_expand]
  rw [hlevels, CMethodInfo.levels_eq, if_neg h.1, Nat.add_zero]

/-- The size is the same just when it does not depend on the aliases. -/
theorem AliasFor.elementSize_iff (composite : TypeDescriptor → ℕ) (h : AliasFor m p' p) :
    elementSize composite (resolved m p') = elementSize composite (resolved m p) ↔
      AliasOk m p' := by
  have hlevels := h.levels_eq
  have hresolved : resolved m p = p.mType := if_neg h.1
  have hown : p.mType.mPointer = 0 ↔ m.levels p'.mType = 0 := by
    rw [hlevels, ← UInt8.toNat_inj]
    rfl
  rw [elementSize_eq, elementSize_eq, mType_resolved, mType_resolved, ← h.base_eq, AliasOk,
    hresolved]
  by_cases href : isReference (base m p') = true
  · simp only [href, true_or, if_true]
  by_cases hpointer : (resolved m p').mPointer = 0
  · by_cases hzero : m.levels p'.mType = 0
    · simp [hpointer, hown.mpr hzero, hzero]
    · simp [href, hpointer, mt hown.mp hzero, hzero]
  · have hne : p.mType.mPointer ≠ 0 := mt hown.mp (levels_ne_zero hpointer)
    simp [hpointer, hne]

/-- The parameter without the alias never fails. -/
theorem AliasFor.exists_ok (B : AlignBuild) (mAliasCount : UInt16)
    (composite : TypeDescriptor → ℕ) (h : AliasFor m p' p) (lo : ℕ) :
    ∃ e hi, SetParamElem B m mAliasCount composite p lo = .ok (e, hi) := by
  rw [SetParamElem, originalType, if_neg h.1]
  exact ⟨_, _, rfl⟩

/-- The levels of pointers are counted the same. -/
theorem AliasFor.pointers_eq (h : AliasFor m p' p) : p'.mType.mPointer.toNat +
    (if p'.mType.mType = .alias then (resolved m p').mPointer.toNat else 0) =
      p.mType.mPointer.toNat := by
  have hlevels := h.levels_eq
  rw [CMethodInfo.levels_eq] at hlevels
  split_ifs at hlevels ⊢ with halias
  · have hlt := p.mType.mPointer.toNat_lt
    rw [toNat_mPointer_resolved halias]
    omega
  · exact hlevels

/-- **One parameter and an alias for its type.** -/
theorem AliasFor.element_iff (h : AliasFor m p' p) {lo hi hi' : ℕ} {e e' : ParmElement}
    (h' : SetParamElem B m mAliasCount composite p' lo = .ok (e', hi'))
    (hp : SetParamElem B m mAliasCount composite p lo = .ok (e, hi)) :
    e' = e ↔ AliasOk m p' := by
  rw [← h.elementSize_iff composite]
  obtain ⟨hsize', hio', hpos', -⟩ := SetParamElem_eq_ok h'
  obtain ⟨hsize, hio, hpos, -⟩ := SetParamElem_eq_ok hp
  rw [h.pointers_eq, h.2.1, h.base_eq] at hio'
  rw [if_neg h.1, Nat.add_zero, ← hio'] at hio
  constructor
  · rintro rfl
    exact hsize'.symm.trans hsize
  · intro heq
    obtain ⟨pos, size, type, attrib, pointer⟩ := e
    obtain ⟨pos', size', type', attrib', pointer'⟩ := e'
    obtain ⟨rfl, rfl, rfl⟩ : type = type' ∧ attrib = attrib' ∧ pointer = pointer' := by
      simpa only [Prod.mk.injEq] using hio
    rw [ParmElement.mk.injEq]
    exact ⟨hpos'.trans (h.base_eq ▸ hpos.symm), hsize'.trans (heq.trans hsize.symm), rfl, rfl, rfl⟩

theorem setParamElems_alias_iff {ps ps' : List ParamDescriptor}
    (h : List.Forall₂ (AliasFor m) ps' ps) {lo hi : ℕ} {es : List ParmElement}
    (hrun : setParamElems B m mAliasCount composite ps' lo = .ok (es, hi)) :
    setParamElems B m mAliasCount composite ps lo = .ok (es, hi) ↔ ∀ p' ∈ ps', AliasOk m p' := by
  induction h generalizing lo es with
  | nil => exact iff_of_true hrun (List.forall_mem_nil _)
  | @cons p' p ps' ps h _ ih =>
    obtain ⟨⟨e', mid'⟩, hp', hrun⟩ := Except.bind_eq_ok hrun
    obtain ⟨⟨es', hi'⟩, hps', hrun⟩ := Except.bind_eq_ok hrun
    cases hrun
    obtain ⟨e, mid, hp⟩ := h.exists_ok B mAliasCount composite lo
    rw [List.forall_mem_cons, ← h.element_iff hp' hp, setParamElems, Except.bind_ok hp]
    -- the elements behind start at one offset if the first ones are equal
    have hmid : e' = e → mid' = mid := by
      rintro rfl
      exact (SetParamElem_eq_ok hp').2.2.2.trans (SetParamElem_eq_ok hp).2.2.2.symm
    constructor
    · intro hall
      obtain ⟨⟨es, hi⟩, hps, hend⟩ := Except.bind_eq_ok hall
      cases hend
      exact ⟨rfl, (ih hps').mp (hmid rfl ▸ hps)⟩
    · rintro ⟨heq, hrest⟩
      have hps := hmid heq ▸ (ih hps').mpr hrest
      rw [heq]
      exact Except.bind_ok hps

/-- The parameter without its aliases. -/
def direct (m : CLSModule) (p : ParamDescriptor) : ParamDescriptor where
  mType := { m.original p.mType with
    mPointer := UInt8.ofNat (m.levels p.mType)
    mUnsigned := m.isUnsigned p.mType }
  mAttribs := p.mAttribs

theorem aliasFor_direct (h : m.levels p.mType < 256) : AliasFor m p (direct m p) := by
  have hnext : m.aliases.next (direct m p).mType = none := aliases_next_eq_none (base_ne_alias p)
  refine ⟨base_ne_alias p, rfl, ?_⟩
  have horiginal : m.original (direct m p).mType = (direct m p).mType :=
    Delegation.last_of_none hnext
  have hlevels : m.levels (direct m p).mType = m.levels p.mType :=
    (Delegation.total_of_none _ _ hnext).trans (UInt8.toNat_ofNat_of_lt' h)
  have hunsigned : m.isUnsigned (direct m p).mType = m.isUnsigned p.mType :=
    Delegation.total_of_none _ _ hnext
  rw [CLSModule.expand_eq, CLSModule.expand_eq (direct m p).mType, horiginal, hlevels, hunsigned]
  rfl

/-- A descriptor without aliases counts the levels in a byte. -/
theorem levels_lt {ps ps' : List ParamDescriptor} (h : List.Forall₂ (AliasFor m) ps' ps) :
    ∀ p' ∈ ps', m.levels p'.mType < 256 := by
  induction h with
  | nil => exact List.forall_mem_nil _
  | cons h _ ih => exact List.forall_mem_cons.mpr ⟨h.levels_eq ▸ UInt8.toNat_lt _, ih⟩

/-- A method with one parameter, that goes in. -/
def takes (type : TypeDescriptor) : MethodDescriptor where
  mParams := [⟨type, ParamAttrib_in⟩]
  mParamCount := Nat.le_of_ble_eq_true rfl

/-- A module whose aliases are for a scalar of 64 bits. -/
def scalarModule : CLSModule := .ofType { mType := .int64 } (by decide) rfl

end

end CMethodInfo

end ElastosCar
