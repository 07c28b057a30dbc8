import ElastosCar.Reflect.CallbackArguments

/-!
# Argument lists

`CArgumentList` has a setter for each type of an argument, and `CCallbackArgumentList` a getter. All
but one give the address of the argument, its type, its direction and its levels of pointers to
`SetParamValue` or `GetParamValue`, which compare these with the element of the parameter and copy
as many bytes as it has. A `LocalPtr` may have any number of levels, and a getter asks for the type
alone.

The functions for a `CarArray` and `SetInputArgumentOfObjectPtr` look at the element before the
index is tested; `access_right` leaves out what they do with an index that is out of range.
-/

namespace ElastosCar

namespace CMethodInfo

open Cls (TypeDescriptor CLSModule)

/-! ### The elements -/

/-- The type that a setter or getter names. `CarDataType_CarArray` is no enumerator of
`CarDataType`. -/
inductive ArgType
  | type (t : CarDataType)
  | carArray
deriving DecidableEq, Repr

/-- `mParamElem[index]`; `none` if the index is out of range. -/
def elemAt (mParamElem : List ParmElement) (index : ℤ) : Option ParmElement :=
  if index < 0 then none else mParamElem[index.toNat]?

/-- The first lines of `SetParamValue` and `GetParamValue`: an `ArrayOf` is a `CarArray`. -/
def adjustType (mParamElem : List ParmElement) (index : ℤ) : ArgType → Option ArgType
  | .carArray => (elemAt mParamElem index).map fun e =>
    if e.mType = .arrayOf then .type .arrayOf else .carArray
  | type => some type

/-- What the parameter `param` leads to: an address, and the eight bytes from there on. -/
structure Param where
  address : UInt32
  bytes : UInt64
deriving DecidableEq, Repr

/-! ### Setters -/

/-- `CArgumentList`. -/
structure CArgumentList where
  mParamElem : List ParmElement
  mParamBufSize : ℕ
  mParamBuf : Block

/-- The object representation of what is stored in the slot of an element. -/
def Param.value (param : Param) (e : ParmElement) : List UInt8 :=
  if e.mSize = 4 ∧ e.mType = .string then wordBytes param.address
  else toLE e.mSize param.bytes.toNat

/-- The sizes that `SetParamValue` and `GetParamValue` can copy. -/
def isCopied (mSize : ℕ) : Bool := mSize = 1 ∨ mSize = 2 ∨ mSize = 4 ∨ mSize = 8

/-- `SetParamValue`: the result, and the buffer. -/
def SetParamValue (L : CArgumentList) (index : Int32) (param : Param) (type : ArgType)
    (attrib : ParamIOAttribute) (pointer : ℕ) : Option (ECode × Block) :=
  (adjustType L.mParamElem index.toInt type).bind fun type =>
    if index.toInt < 0 ∨ (L.mParamElem.length : ℤ) ≤ index.toInt then
      some (E_INVALID_ARGUMENT, L.mParamBuf)
    else
      (elemAt L.mParamElem index.toInt).bind fun e =>
        if e.mAttrib ≠ attrib ∨ type ≠ .type e.mType ∨
            (type ≠ .type .localPtr ∧ e.mPointer ≠ pointer) then
          some (E_INVALID_ARGUMENT, L.mParamBuf)
        else if L.mParamBufSize < e.mPos + e.mSize then some (E_INVALID_OPERATION, L.mParamBuf)
        else if isCopied e.mSize then
          some (NOERROR, store L.mParamBuf e.mPos (param.value e))
        else some (E_INVALID_OPERATION, L.mParamBuf)

/-- The setters. -/
inductive Setter
  | SetInputArgumentOfInt16 | SetInputArgumentOfInt32 | SetInputArgumentOfInt64
  | SetInputArgumentOfByte | SetInputArgumentOfFloat | SetInputArgumentOfDouble
  | SetInputArgumentOfChar | SetInputArgumentOfString | SetInputArgumentOfBoolean
  | SetInputArgumentOfEMuid | SetInputArgumentOfEGuid | SetInputArgumentOfECode
  | SetInputArgumentOfLocalPtr | SetInputArgumentOfLocalType | SetInputArgumentOfEnum
  | SetInputArgumentOfCarArray | SetInputArgumentOfStructPtr | SetInputArgumentOfObjectPtr
  | SetOutputArgumentOfInt16Ptr | SetOutputArgumentOfInt32Ptr | SetOutputArgumentOfInt64Ptr
  | SetOutputArgumentOfBytePtr | SetOutputArgumentOfFloatPtr | SetOutputArgumentOfDoublePtr
  | SetOutputArgumentOfCharPtr | SetOutputArgumentOfStringPtr | SetOutputArgumentOfBooleanPtr
  | SetOutputArgumentOfEMuidPtr | SetOutputArgumentOfEGuidPtr | SetOutputArgumentOfECodePtr
  | SetOutputArgumentOfLocalPtrPtr | SetOutputArgumentOfLocalTypePtr | SetOutputArgumentOfEnumPtr
  | SetOutputArgumentOfCarArrayPtr | SetOutputArgumentOfCarArrayPtrPtr
  | SetOutputArgumentOfStructPtr | SetOutputArgumentOfStructPtrPtr
  | SetOutputArgumentOfObjectPtrPtr
deriving DecidableEq, Repr

/-- What a setter gives to `SetParamValue`. -/
def Setter.key : Setter → ArgType × ParamIOAttribute × ℕ
  | SetInputArgumentOfInt16 => (.type .int16, .In, 0)
  | SetInputArgumentOfInt32 => (.type .int32, .In, 0)
  | SetInputArgumentOfInt64 => (.type .int64, .In, 0)
  | SetInputArgumentOfByte => (.type .byte, .In, 0)
  | SetInputArgumentOfFloat => (.type .float, .In, 0)
  | SetInputArgumentOfDouble => (.type .double, .In, 0)
  | SetInputArgumentOfChar => (.type .char32, .In, 0)
  | SetInputArgumentOfString => (.type .string, .In, 0)
  | SetInputArgumentOfBoolean => (.type .boolean, .In, 0)
  | SetInputArgumentOfEMuid => (.type .emuid, .In, 0)
  | SetInputArgumentOfEGuid => (.type .eguid, .In, 0)
  | SetInputArgumentOfECode => (.type .ecode, .In, 0)
  | SetInputArgumentOfLocalPtr => (.type .localPtr, .In, 0)
  | SetInputArgumentOfLocalType => (.type .localType, .In, 0)
  | SetInputArgumentOfEnum => (.type .enum, .In, 0)
  | SetInputArgumentOfCarArray => (.carArray, .In, 0)
  | SetInputArgumentOfStructPtr => (.type .struct, .In, 0)
  | SetInputArgumentOfObjectPtr => (.type .interface, .In, 1)
  | SetOutputArgumentOfInt16Ptr => (.type .int16, .CallerAllocOut, 1)
  | SetOutputArgumentOfInt32Ptr => (.type .int32, .CallerAllocOut, 1)
  | SetOutputArgumentOfInt64Ptr => (.type .int64, .CallerAllocOut, 1)
  | SetOutputArgumentOfBytePtr => (.type .byte, .CallerAllocOut, 1)
  | SetOutputArgumentOfFloatPtr => (.type .float, .CallerAllocOut, 1)
  | SetOutputArgumentOfDoublePtr => (.type .double, .CallerAllocOut, 1)
  | SetOutputArgumentOfCharPtr => (.type .char32, .CallerAllocOut, 1)
  | SetOutputArgumentOfStringPtr => (.type .string, .CallerAllocOut, 1)
  | SetOutputArgumentOfBooleanPtr => (.type .boolean, .CallerAllocOut, 1)
  | SetOutputArgumentOfEMuidPtr => (.type .emuid, .CallerAllocOut, 1)
  | SetOutputArgumentOfEGuidPtr => (.type .eguid, .CallerAllocOut, 1)
  | SetOutputArgumentOfECodePtr => (.type .ecode, .CallerAllocOut, 1)
  | SetOutputArgumentOfLocalPtrPtr => (.type .localPtr, .CallerAllocOut, 1)
  | SetOutputArgumentOfLocalTypePtr => (.type .localType, .CallerAllocOut, 1)
  | SetOutputArgumentOfEnumPtr => (.type .enum, .CallerAllocOut, 1)
  | SetOutputArgumentOfCarArrayPtr => (.carArray, .CallerAllocOut, 0)
  | SetOutputArgumentOfCarArrayPtrPtr => (.carArray, .CalleeAllocOut, 2)
  | SetOutputArgumentOfStructPtr => (.type .struct, .CallerAllocOut, 1)
  | SetOutputArgumentOfStructPtrPtr => (.type .struct, .CalleeAllocOut, 2)
  | SetOutputArgumentOfObjectPtrPtr => (.type .interface, .CallerAllocOut, 2)

/-- What `SetInputArgumentOfObjectPtr` asks for: the method, the identities of the interfaces of the
module, and `Probe` of an object for one of them, which is 0 if the object does not have it. -/
structure Objects where
  m : CLSModule
  mAliasCount : UInt16
  mMethodDescriptor : MethodDescriptor
  iid : UInt16 → EMuid
  Probe : UInt32 → EMuid → UInt32

/-- The object that is passed: the one that `Probe` gives. -/
def Objects.probe (O : Objects) (index : ℤ) (value : UInt32) : Option (Except ECode UInt32) :=
  if value = 0 then some (.ok 0)
  else
    (if index < 0 then none else O.mMethodDescriptor.mParams[index.toNat]?).map fun p => do
      let typeDesc ← originalType O.m O.mAliasCount p.mType
      let value := O.Probe value (O.iid typeDesc.mIndex)
      if value = 0 then throw E_NO_INTERFACE
      pure value

/-- `SetInputArgumentOfObjectPtr`. -/
def SetInputArgumentOfObjectPtr (O : Objects) (L : CArgumentList) (index : Int32) (param : Param) :
    Option (ECode × Block) :=
  (elemAt L.mParamElem index.toInt).bind fun e =>
    if e.mType ≠ .interface then some (E_INVALID_ARGUMENT, L.mParamBuf)
    else
      (O.probe index.toInt param.bytes.toUInt32).bind fun
        | .error ec => some (ec, L.mParamBuf)
        | .ok value =>
          SetParamValue L index ⟨param.address, value.toUInt64⟩ (.type .interface) .In 1

/-- A call of a setter. -/
def Setter.perform (O : Objects) (L : CArgumentList) (index : Int32) (param : Param) :
    Setter → Option (ECode × Block)
  | SetInputArgumentOfObjectPtr => CMethodInfo.SetInputArgumentOfObjectPtr O L index param
  | setter => SetParamValue L index param setter.key.1 setter.key.2.1 setter.key.2.2

/-! ### Getters -/

/-- The getters. -/
inductive Getter
  | GetInt16Argument | GetInt32Argument | GetInt64Argument | GetByteArgument | GetFloatArgument
  | GetDoubleArgument | GetCharArgument | GetStringArgument | GetBooleanArgument | GetEMuidArgument
  | GetEGuidArgument | GetECodeArgument | GetLocalPtrArgument | GetEnumArgument
  | GetCarArrayArgument | GetStructPtrArgument | GetObjectPtrArgument
deriving DecidableEq, Repr

def Getter.type : Getter → ArgType
  | GetInt16Argument => .type .int16
  | GetInt32Argument => .type .int32
  | GetInt64Argument => .type .int64
  | GetByteArgument => .type .byte
  | GetFloatArgument => .type .float
  | GetDoubleArgument => .type .double
  | GetCharArgument => .type .char32
  | GetStringArgument => .type .string
  | GetBooleanArgument => .type .boolean
  | GetEMuidArgument => .type .emuid
  | GetEGuidArgument => .type .eguid
  | GetECodeArgument => .type .ecode
  | GetLocalPtrArgument => .type .localPtr
  | GetEnumArgument => .type .enum
  | GetCarArrayArgument => .carArray
  | GetStructPtrArgument => .type .struct
  | GetObjectPtrArgument => .type .interface

/-- `GetParamValue`; `param`: the pointer is not null. The bytes are those that are copied to it. -/
def GetParamValue (L : CArgumentList) (index : Int32) (param : Bool) (type : ArgType) :
    Option (ECode × List UInt8) :=
  (adjustType L.mParamElem index.toInt type).bind fun type =>
    if index.toInt < 0 ∨ (L.mParamElem.length : ℤ) ≤ index.toInt ∨ param = false then
      some (E_INVALID_ARGUMENT, [])
    else
      (elemAt L.mParamElem index.toInt).bind fun e =>
        if type ≠ .type e.mType then some (E_INVALID_ARGUMENT, [])
        else if isCopied e.mSize then some (NOERROR, load L.mParamBuf e.mPos e.mSize)
        else some (E_INVALID_OPERATION, [])

/-- A call of a getter. -/
def Getter.perform (L : CArgumentList) (index : Int32) (param : Bool) (getter : Getter) :
    Option (ECode × List UInt8) :=
  GetParamValue L index param getter.type

/-! ### What a call should do -/

/-- The type of the elements that a setter or getter is for. -/
def ArgType.target : ArgType → CarDataType
  | type t => t
  | carArray => .arrayOf

/-- The element has the type and the direction of the setter, and its levels of pointers. -/
def Setter.Matches (setter : Setter) (e : ParmElement) : Prop :=
  e.mType = setter.key.1.target ∧ e.mAttrib = setter.key.2.1 ∧
    (setter.key.1 = .type .localPtr ∨ e.mPointer = setter.key.2.2)

/-- An object is null, or has the interface of the parameter. -/
def Objects.Has (O : Objects) (index : ℤ) (value : UInt32) : Prop :=
  value = 0 ∨ ∀ p, O.mMethodDescriptor.mParams[index.toNat]? = some p →
    O.Probe value (O.iid (resolved O.m p).mIndex) ≠ 0

/-- The functions that look at the element first. -/
def Setter.looksFirst (setter : Setter) : Bool :=
  setter.key.1 = .carArray ∨ setter = SetInputArgumentOfObjectPtr

/-- **A setter**: no element is looked at out of range, the call succeeds for the right parameters,
and changes nothing but the bytes of the slot, or nothing at all. -/
def Setter.Right (O : Objects) (L : CArgumentList) (index : Int32) (param : Param)
    (setter : Setter) : Prop :=
  ∃ ec buf, setter.perform O L index param = some (ec, buf) ∧
    (ec = NOERROR ↔ ∃ e, elemAt L.mParamElem index.toInt = some e ∧ setter.Matches e ∧
      e.mSize ≠ 0 ∧
      (setter = SetInputArgumentOfObjectPtr → O.Has index.toInt param.bytes.toUInt32)) ∧
    (ec = NOERROR → ∃ e, elemAt L.mParamElem index.toInt = some e ∧
      ∀ k, k < e.mPos ∨ e.mPos + e.mSize ≤ k → buf k = L.mParamBuf k) ∧
    (ec ≠ NOERROR → buf = L.mParamBuf)

/-- **A getter**: no element is looked at out of range, the call succeeds for the parameters of the
type, and copies the bytes of the slot, or nothing. -/
def Getter.Right (L : CArgumentList) (index : Int32) (param : Bool) (getter : Getter) : Prop :=
  ∃ ec bytes, getter.perform L index param = some (ec, bytes) ∧
    (ec = NOERROR ↔ param = true ∧ ∃ e, elemAt L.mParamElem index.toInt = some e ∧
      e.mType = getter.type.target ∧ e.mSize ≠ 0) ∧
    (ec = NOERROR → ∃ e, elemAt L.mParamElem index.toInt = some e ∧
      bytes = load L.mParamBuf e.mPos e.mSize) ∧
    (ec ≠ NOERROR → bytes = [])

/-! ### The elements of a method -/

section

variable {es : List ParmElement} {e : ParmElement} {i : ℤ}

theorem elemAt_eq_some : elemAt es i = some e ↔ 0 ≤ i ∧ es[i.toNat]? = some e := by
  rw [elemAt]
  split_ifs with h
  · exact iff_of_false nofun fun hin => absurd hin.1 (by omega)
  · exact (and_iff_right (by omega)).symm

/-- The test of the index. -/
theorem inRange_of_elemAt (h : elemAt es i = some e) : ¬(i < 0 ∨ (es.length : ℤ) ≤ i) := by
  obtain ⟨hle, hget⟩ := elemAt_eq_some.mp h
  have hlt := (List.getElem?_eq_some_iff.mp hget).1
  omega

theorem outOfRange_of_elemAt (h : elemAt es i = none) : i < 0 ∨ (es.length : ℤ) ≤ i := by
  rw [elemAt] at h
  split_ifs at h with hneg
  · exact .inl hneg
  · have hle := List.getElem?_eq_none_iff.mp h
    omega

theorem adjustType_of_elemAt (h : elemAt es i = some e) (t : ArgType) :
    ∃ t', adjustType es i t = some t' ∧ (t' = .type e.mType ↔ e.mType = t.target) ∧
      (t' = .type .localPtr ↔ t = .type .localPtr) := by
  rcases t with t | _
  · exact ⟨.type t, rfl, by rw [ArgType.type.injEq]; exact eq_comm, Iff.rfl⟩
  · by_cases harray : e.mType = .arrayOf
    · refine ⟨.type .arrayOf, ?_, ?_, by decide⟩
      · rw [adjustType, h, Option.map_some, if_pos harray]
      · rw [harray]
        exact iff_of_true rfl rfl
    · refine ⟨.carArray, ?_, iff_of_false nofun harray, Iff.rfl⟩
      rw [adjustType, h, Option.map_some, if_neg harray]

theorem adjustType_of_ne (t : ArgType) (h : t ≠ .carArray) : adjustType es i t = some t := by
  rcases t with t | _
  · rfl
  · exact absurd rfl h

/-- What holds of the elements of a method. -/
structure Table (es : List ParmElement) (size : ℕ) : Prop where
  copied : ∀ e ∈ es, isCopied e.mSize = true ∨ e.mSize = 0
  fits : ∀ e ∈ es, e.mPos + e.mSize ≤ size

theorem Param.length_value (param : Param) (e : ParmElement) :
    (param.value e).length = e.mSize := by
  rw [Param.value]
  split_ifs with h
  · rw [length_wordBytes, h.1]
  · exact length_toLE e.mSize _

/-- **`SetParamValue`** of an index in range. -/
theorem SetParamValue_spec {L : CArgumentList} {size : ℕ} (htable : Table L.mParamElem size)
    (hsize : size ≤ L.mParamBufSize) {index : Int32}
    (he : elemAt L.mParamElem index.toInt = some e) (param : Param) (t : ArgType)
    (attrib : ParamIOAttribute) (pointer : ℕ) :
    ∃ ec buf, SetParamValue L index param t attrib pointer = some (ec, buf) ∧
      (ec = NOERROR ↔ (e.mType = t.target ∧ e.mAttrib = attrib ∧
        (t = .type .localPtr ∨ e.mPointer = pointer)) ∧ e.mSize ≠ 0) ∧
      (∀ k, k < e.mPos ∨ e.mPos + e.mSize ≤ k → buf k = L.mParamBuf k) ∧
      (ec ≠ NOERROR → buf = L.mParamBuf) := by
  obtain ⟨t', hadjust, htype, hlocal⟩ := adjustType_of_elemAt he t
  have hmem : e ∈ L.mParamElem := List.mem_of_getElem? (elemAt_eq_some.mp he).2
  have hfits := htable.fits e hmem
  rw [SetParamValue, hadjust, Option.bind_some, if_neg (inRange_of_elemAt he), he,
    Option.bind_some]
  by_cases hmatch : e.mAttrib ≠ attrib ∨ t' ≠ .type e.mType ∨
      (t' ≠ .type .localPtr ∧ e.mPointer ≠ pointer)
  · rw [if_pos hmatch]
    refine ⟨_, _, rfl, iff_of_false (by decide) ?_, fun _ _ => rfl, fun _ => rfl⟩
    rintro ⟨⟨htarget, hattrib, hpointer⟩, -⟩
    rcases hmatch with hne | hne | ⟨hne, hne'⟩
    · exact hne hattrib
    · exact hne (htype.mpr htarget)
    · exact hpointer.elim (fun h => hne (hlocal.mpr h)) hne'
  · rw [if_neg hmatch, if_neg (by omega)]
    simp only [not_or, not_and, not_not] at hmatch
    obtain ⟨hattrib, ht', hpointer⟩ := hmatch
    have hpointer' : t = .type .localPtr ∨ e.mPointer = pointer :=
      (Classical.em _).imp_right fun hne => hpointer (mt hlocal.mp hne)
    rcases htable.copied e hmem with hcopied | hzero
    · rw [if_pos hcopied]
      have hne : e.mSize ≠ 0 := by
        intro hzero
        rw [hzero] at hcopied
        exact absurd hcopied (by decide)
      refine ⟨_, _, rfl, iff_of_true rfl ⟨⟨htype.mp ht', hattrib, hpointer'⟩, hne⟩, ?_,
        fun h => absurd rfl h⟩
      intro k hk
      rw [store, param.length_value, if_neg (by omega)]
    · rw [hzero, if_neg (by decide)]
      exact ⟨_, _, rfl, iff_of_false (by decide) fun h => h.2 rfl, fun _ _ => rfl, fun _ => rfl⟩

/-- **`SetParamValue`** of an index out of range, for a type that is not looked up first. -/
theorem SetParamValue_outOfRange {L : CArgumentList} {index : Int32}
    (he : elemAt L.mParamElem index.toInt = none) (param : Param) {t : ArgType}
    (ht : t ≠ .carArray) (attrib : ParamIOAttribute) (pointer : ℕ) :
    SetParamValue L index param t attrib pointer = some (E_INVALID_ARGUMENT, L.mParamBuf) := by
  rw [SetParamValue, adjustType_of_ne t ht, Option.bind_some, if_pos (outOfRange_of_elemAt he)]

theorem isCopied_or_zero (composite : TypeDescriptor → ℕ) (t : TypeDescriptor) :
    isCopied (elementSize composite t) = true ∨ elementSize composite t = 0 := by
  rw [elementSize_eq]
  split_ifs with h
  · exact .inl rfl
  · have href := (not_or.mp h).1
    generalize t.mType = type at href ⊢
    rcases type <;> first | decide | exact absurd rfl href

variable {B : AlignBuild} {m : CLSModule} {mAliasCount : UInt16} {composite : TypeDescriptor → ℕ}
  {method : MethodDescriptor} {size : ℕ}

/-- The elements of a method fit into the buffer. -/
theorem table_of_initParmElement
    (h : InitParmElement B m mAliasCount composite method = .ok (es, size)) : Table es size where
  copied e he := by
    obtain ⟨i, hi⟩ := List.mem_iff_getElem?.mp he
    obtain ⟨p, pos, next, -, hp⟩ := setParamElems_getElem? h i hi
    rw [(SetParamElem_eq_ok hp).1]
    exact isCopied_or_zero composite _
  fits e he := by
    have hinside := (setParamElems_inOrder h).1.inside e.slot (List.mem_map_of_mem he)
    exact Nat.le_trans (Nat.add_le_add_left (le_ROUND4 e.mSize) e.mPos) hinside.2

/-- The types and the sizes are not computed anew. -/
theorem exists_of_mem_recompute {position : ℕ} (h : e ∈ recompute es position) :
    ∃ e' ∈ es, e.mSize = e'.mSize := by
  induction es generalizing position with
  | nil => exact nomatch h
  | cons e' es ih =>
    rw [recompute_cons] at h
    rcases List.mem_cons.mp h with rfl | h
    · exact ⟨e', List.mem_cons_self, rfl⟩
    · obtain ⟨e'', hmem, hsize⟩ := ih h
      exact ⟨e'', List.mem_cons_of_mem _ hmem, hsize⟩

/-! ### The calls -/

/-- `CreateFunctionArgumentList`: the list for an ordinary call, with what its buffer holds. -/
def argumentList (B : AlignBuild) (mParamElem : List ParmElement) (mParamBufSize : ℕ)
    (mParamBuf : Block) : CArgumentList where
  mParamElem := mParamElem
  mParamBufSize := if B = .arm then ROUND8 mParamBufSize else mParamBufSize
  mParamBuf := mParamBuf

/-- `CreateCBArgumentList`. -/
def cbArgumentList (B : AlignBuild) (mParamElem : List ParmElement) (mParamBufSize : ℕ)
    (mParamBuf : Block) : CArgumentList where
  mParamElem := if B = .arm then recompute mParamElem 4 else mParamElem
  mParamBufSize := mParamBufSize
  mParamBuf := mParamBuf

variable {O : Objects} {L : CArgumentList} {index : Int32} {param : Param}

/-- The setters that call `SetParamValue` at once. -/
theorem Setter.right_of_ne {setter : Setter} (htable : Table L.mParamElem size)
    (hsize : size ≤ L.mParamBufSize) (hne : setter ≠ .SetInputArgumentOfObjectPtr)
    (hfirst : setter.looksFirst = true → elemAt L.mParamElem index.toInt ≠ none) :
    setter.Right O L index param := by
  have hperform : setter.perform O L index param =
      SetParamValue L index param setter.key.1 setter.key.2.1 setter.key.2.2 := by
    rcases setter <;> first | rfl | exact absurd rfl hne
  rw [Setter.Right, hperform]
  rcases he : elemAt L.mParamElem index.toInt with _ | e
  · have htype : setter.key.1 ≠ .carArray := by
      intro htype
      refine hfirst ?_ he
      rw [Setter.looksFirst, decide_eq_true_iff]
      exact .inl htype
    refine ⟨_, _, SetParamValue_outOfRange he param htype _ _, iff_of_false (by decide) ?_,
      fun h => absurd h (by decide), fun _ => rfl⟩
    rintro ⟨e, hnone, -⟩
    exact nomatch hnone
  · obtain ⟨ec, buf, hcall, hok, hframe, hsame⟩ := SetParamValue_spec htable hsize he param
      setter.key.1 setter.key.2.1 setter.key.2.2
    refine ⟨ec, buf, hcall, ?_, fun _ => ⟨e, rfl, hframe⟩, hsame⟩
    rw [hok]
    constructor
    · rintro ⟨hmatch, hzero⟩
      exact ⟨e, rfl, hmatch, hzero, fun h => absurd h hne⟩
    · rintro ⟨e', he', hmatch, hzero, -⟩
      obtain rfl := Option.some.inj he'
      exact ⟨hmatch, hzero⟩

/-- What the object is found to be. -/
theorem Objects.probe_cases (h : InitParmElement B O.m O.mAliasCount composite O.mMethodDescriptor =
      .ok (es, size)) (he : elemAt es i = some e) (value : UInt32) :
    (∃ value', O.probe i value = some (.ok value') ∧ O.Has i value) ∨
      (O.probe i value = some (.error E_NO_INTERFACE) ∧ ¬O.Has i value) := by
  rw [Objects.probe, Objects.Has]
  by_cases hzero : value = 0
  · exact .inl ⟨0, if_pos hzero, .inl hzero⟩
  · obtain ⟨hle, hget⟩ := elemAt_eq_some.mp he
    obtain ⟨p, pos, next, hp, hset⟩ := setParamElems_getElem? h i.toNat hget
    obtain ⟨typeDesc, htype, -⟩ := Except.bind_eq_ok hset
    obtain rfl := originalType_eq_ok htype
    rw [if_neg hzero, if_neg (by omega), hp, Option.map_some, htype]
    by_cases hprobe : O.Probe value (O.iid (resolved O.m p).mIndex) = 0
    · right
      refine ⟨?_, ?_⟩
      · change some (if _ then _ else _) = _
        rw [if_pos hprobe]
        rfl
      · rintro (h | h)
        · exact hzero h
        · exact h p rfl hprobe
    · left
      refine ⟨O.Probe value (O.iid (resolved O.m p).mIndex), ?_, .inr ?_⟩
      · change some (if _ then _ else _) = _
        rw [if_neg hprobe]
        rfl
      · intro p' hp'
        obtain rfl := Option.some.inj hp'
        exact hprobe

/-- `SetInputArgumentOfObjectPtr`. -/
theorem right_setInputArgumentOfObjectPtr (h : InitParmElement B O.m O.mAliasCount composite
      O.mMethodDescriptor = .ok (L.mParamElem, size)) (hsize : size ≤ L.mParamBufSize)
    (hin : elemAt L.mParamElem index.toInt ≠ none) :
    Setter.Right O L index param .SetInputArgumentOfObjectPtr := by
  obtain ⟨e, he⟩ := Option.ne_none_iff_exists'.mp hin
  change ∃ ec buf, SetInputArgumentOfObjectPtr O L index param = _ ∧ _
  rw [SetInputArgumentOfObjectPtr, he, Option.bind_some]
  by_cases htype : e.mType = .interface
  · rw [if_neg (not_not.mpr htype)]
    rcases Objects.probe_cases h he param.bytes.toUInt32 with ⟨value, hprobe, hhas⟩ | ⟨hprobe, hno⟩
    · obtain ⟨ec, buf, hcall, hok, hframe, hsame⟩ := SetParamValue_spec
        (table_of_initParmElement h) hsize he ⟨param.address, value.toUInt64⟩ (.type .interface)
        .In 1
      rw [hprobe]
      refine ⟨ec, buf, hcall, ?_, fun _ => ⟨e, rfl, hframe⟩, hsame⟩
      rw [hok]
      constructor
      · rintro ⟨hmatch, hzero⟩
        exact ⟨e, rfl, hmatch, hzero, fun _ => hhas⟩
      · rintro ⟨e', he', hmatch, hzero, -⟩
        obtain rfl := Option.some.inj he'
        exact ⟨hmatch, hzero⟩
    · rw [hprobe]
      refine ⟨_, _, rfl, iff_of_false (by decide) ?_, fun h => absurd h (by decide), fun _ => rfl⟩
      rintro ⟨-, -, -, -, hhas⟩
      exact hno (hhas rfl)
  · rw [if_pos htype]
    refine ⟨_, _, rfl, iff_of_false (by decide) ?_, fun h => absurd h (by decide), fun _ => rfl⟩
    rintro ⟨e', he', hmatch, -⟩
    obtain rfl := Option.some.inj he'
    exact htype hmatch.1

theorem Getter.right (hcopied : ∀ e ∈ L.mParamElem, isCopied e.mSize = true ∨ e.mSize = 0)
    {getter : Getter} {param : Bool}
    (hfirst : getter.type = .carArray → elemAt L.mParamElem index.toInt ≠ none) :
    getter.Right L index param := by
  rw [Getter.Right, Getter.perform, GetParamValue]
  rcases he : elemAt L.mParamElem index.toInt with _ | e
  · have htype : getter.type ≠ .carArray := fun htype => hfirst htype he
    have hout := outOfRange_of_elemAt he
    rw [adjustType_of_ne _ htype, Option.bind_some, if_pos (by tauto)]
    refine ⟨_, _, rfl, iff_of_false (by decide) ?_, fun h => absurd h (by decide), fun _ => rfl⟩
    rintro ⟨-, e, hnone, -⟩
    exact nomatch hnone
  · obtain ⟨t', hadjust, htype, -⟩ := adjustType_of_elemAt he getter.type
    have hin := not_or.mp (inRange_of_elemAt he)
    rw [hadjust, Option.bind_some]
    rcases param with _ | _
    · rw [if_pos (.inr (.inr rfl))]
      exact ⟨_, _, rfl, iff_of_false (by decide) nofun, fun h => absurd h (by decide), fun _ => rfl⟩
    · rw [if_neg (by rintro (h | h | h); exacts [hin.1 h, hin.2 h, nomatch h]), Option.bind_some]
      by_cases hne : t' ≠ .type e.mType
      · rw [if_pos hne]
        refine ⟨_, _, rfl, iff_of_false (by decide) ?_, fun h => absurd h (by decide),
          fun _ => rfl⟩
        rintro ⟨-, e', he', htarget, -⟩
        obtain rfl := Option.some.inj he'
        exact hne (htype.mpr htarget)
      · rw [if_neg hne]
        have htarget := htype.mp (not_not.mp hne)
        rcases hcopied e (List.mem_of_getElem? (elemAt_eq_some.mp he).2) with hcopied | hzero
        · rw [if_pos hcopied]
          have hzero : e.mSize ≠ 0 := by
            intro hzero
            rw [hzero] at hcopied
            exact absurd hcopied (by decide)
          exact ⟨_, _, rfl, iff_of_true rfl ⟨rfl, e, rfl, htarget, hzero⟩, fun _ => ⟨e, rfl, rfl⟩,
            fun h => absurd rfl h⟩
        · rw [hzero, if_neg (by decide)]
          refine ⟨_, _, rfl, iff_of_false (by decide) ?_, fun h => absurd h (by decide),
            fun _ => rfl⟩
          rintro ⟨-, e', he', -, hne'⟩
          obtain rfl := Option.some.inj he'
          exact hne' hzero

end

/-- The objects of a method of the module of scalars. No object has any interface. -/
def strangers (method : MethodDescriptor) : Objects where
  m := scalarModule
  mAliasCount := 1
  mMethodDescriptor := method
  iid := fun _ => ⟨0, 0, 0, 0⟩
  Probe := fun _ _ => 0

end CMethodInfo

end ElastosCar
