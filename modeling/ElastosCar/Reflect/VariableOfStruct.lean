import ElastosCar.Lib.Patch
import ElastosCar.Reflect.StructInfo

/-!
# Variables of structs

`CVariableOfStruct` is a buffer with the layout of a struct info. The fourteen typed setters and getters
give `SetFieldValueByName` and `GetFieldValueByName` the address of their argument and the type it has;
these find the field, compare the type and copy as many bytes as the field has.

`SetEMuidField` and `SetEGuidField` take a pointer, and what they give on is the address of this pointer:
the field gets the pointer and what is on the stack behind it. `lawful_iff_copied` says that apart from
this a variable reads what was written.
-/

namespace ElastosCar

structure CVariableOfStruct where
  mStructInfo : CStructInfo
  mVarBuf : Option Block

/-- A value of a field; an `EGuid` with the bits of its `mUunm` pointer. -/
inductive FieldValue
  | int16 (v : UInt16)
  | int32 (v : UInt32)
  | int64 (v : UInt64)
  | byte (v : UInt8)
  | float (bits : UInt32)
  | double (bits : UInt64)
  | char32 (v : UInt32)
  | boolean (v : UInt8)
  | emuid (id : EMuid)
  | eguid (clsid : EMuid) (uunm carcode : UInt32)
  | ecode (v : ECode)
  | localPtr (v : UInt32)
  | enum (v : UInt32)
deriving DecidableEq, Repr

namespace FieldValue

def type : FieldValue → CarDataType
  | int16 _ => .int16
  | int32 _ => .int32
  | int64 _ => .int64
  | byte _ => .byte
  | float _ => .float
  | double _ => .double
  | char32 _ => .char32
  | boolean _ => .boolean
  | emuid _ => .emuid
  | eguid .. => .eguid
  | ecode _ => .ecode
  | localPtr _ => .localPtr
  | enum _ => .enum

/-- The object representation of an `EGuid`. -/
def eguidBytes (clsid : EMuid) (uunm carcode : UInt32) : List UInt8 :=
  clsid.bytes ++ wordBytes uunm ++ wordBytes carcode

def bytes : FieldValue → List UInt8
  | int16 v => toLE 2 v.toNat
  | int32 v | float v | char32 v | ecode v | localPtr v | enum v => wordBytes v
  | int64 v | double v => dwordBytes v
  | byte v | boolean v => [v]
  | emuid id => id.bytes
  | eguid clsid uunm carcode => eguidBytes clsid uunm carcode

theorem length_bytes (x : FieldValue) : x.bytes.length = x.type.size.toNat := by
  cases x <;> simp [bytes, type, CarDataType.size, eguidBytes]

theorem isScalar_type (x : FieldValue) : x.type.isScalar = true := by cases x <;> rfl

/-- The value whose bytes these are. -/
def decode (type : CarDataType) (bs : List UInt8) : Option FieldValue :=
  match type with
  | .int16 => some (int16 (UInt16.ofNat (ofLE bs)))
  | .int32 => some (int32 (wordOf bs))
  | .int64 => some (int64 (dwordOf bs))
  | .byte => some (byte (bs.headD 0))
  | .float => some (float (wordOf bs))
  | .double => some (double (dwordOf bs))
  | .char32 => some (char32 (wordOf bs))
  | .boolean => some (boolean (bs.headD 0))
  | .emuid => some (emuid (EMuid.ofBytes bs))
  | .eguid => some (eguid (EMuid.ofBytes (bs.take 16)) (wordOf ((bs.drop 16).take 4)) (wordOf (bs.drop 20)))
  | .ecode => some (ecode (wordOf bs))
  | .localPtr => some (localPtr (wordOf bs))
  | .enum => some (enum (wordOf bs))
  | .string | .localType | .arrayOf | .cppVector | .struct | .interface => none

theorem drop_eguidBytes (clsid : EMuid) (uunm carcode : UInt32) :
    (eguidBytes clsid uunm carcode).take 16 = clsid.bytes ∧
      ((eguidBytes clsid uunm carcode).drop 16).take 4 = wordBytes uunm ∧
      (eguidBytes clsid uunm carcode).drop 20 = wordBytes carcode := by
  rw [eguidBytes, List.append_assoc]
  refine ⟨List.take_left' (EMuid.length_bytes clsid), ?_, ?_⟩
  · rw [List.drop_left' (EMuid.length_bytes clsid), List.take_left' (length_wordBytes uunm)]
  · rw [← List.append_assoc]
    exact List.drop_left' (by rw [List.length_append, EMuid.length_bytes, length_wordBytes])

/-- The parts of 24 bytes are those of an `EGuid` with these bytes. -/
theorem eguidBytes_of_bytes {bs : List UInt8} (h : bs.length = 24) :
    eguidBytes (EMuid.ofBytes (bs.take 16)) (wordOf ((bs.drop 16).take 4)) (wordOf (bs.drop 20)) =
      bs := by
  have hdrop : (bs.drop 16).drop 4 = bs.drop 20 := List.drop_drop
  rw [eguidBytes, EMuid.bytes_ofBytes (by rw [List.length_take, h]; rfl),
    wordBytes_wordOf (by rw [List.length_take, List.length_drop, h]; rfl),
    wordBytes_wordOf (by rw [List.length_drop, h]), List.append_assoc, ← hdrop,
    List.take_append_drop, List.take_append_drop]

theorem decode_bytes (x : FieldValue) : decode x.type x.bytes = some x := by
  cases x with
  | int16 v =>
    have hlt : v.toNat < 256 ^ 2 := v.toNat_lt
    simp only [decode, type, bytes]
    rw [ofLE_toLE_of_lt hlt, UInt16.ofNat_toNat]
  | emuid id => simp only [decode, type, bytes, EMuid.ofBytes_bytes]
  | eguid clsid uunm carcode =>
    obtain ⟨hclsid, huunm, hcarcode⟩ := drop_eguidBytes clsid uunm carcode
    simp only [decode, type, bytes, hclsid, huunm, hcarcode, EMuid.ofBytes_bytes, wordOf_wordBytes]
  | int64 v => simp only [decode, type, bytes, dwordOf_dwordBytes]
  | double bits => simp only [decode, type, bytes, dwordOf_dwordBytes]
  | byte v => rfl
  | boolean v => rfl
  | _ v => simp only [decode, type, bytes, wordOf_wordBytes]

end FieldValue

namespace CVariableOfStruct

/-- `Init`: the buffer is the caller's or a new one; `sGetters` is the allocation of
`mCppVectorSGetters`. -/
def Init (structInfo : CStructInfo) (varBuf malloc : Option Block) (sGetters : Bool) :
    ECode × Option CVariableOfStruct :=
  match varBuf, malloc with
  | none, none => (E_OUT_OF_MEMORY, none)
  | some buf, _ | none, some buf =>
    if sGetters then (NOERROR, some ⟨structInfo, some buf⟩) else (E_OUT_OF_MEMORY, none)

/-- The descriptor at the index that `GetIndexByName` finds. -/
def GetIndexByName (v : CVariableOfStruct) (name : CarString) : Option StructFieldDesc :=
  v.mStructInfo.mStructFieldDesc.find? fun desc => name = desc.mName

/-- `SetFieldValueByName`; `param` is the memory from the address on. -/
def SetFieldValueByName (v : CVariableOfStruct) (name : CarString) (param : Option Block)
    (type : CarDataType) : ECode × CVariableOfStruct :=
  match name, param with
  | some _, some p =>
    match v.mVarBuf with
    | none => (E_INVALID_OPERATION, v)
    | some buf =>
      match v.GetIndexByName name with
      | none => (E_DOES_NOT_EXIST, v)
      | some desc =>
        if type ≠ desc.mType then (E_INVALID_ARGUMENT, v)
        else
          (NOERROR,
            { v with mVarBuf := some (store buf desc.mPos.toNat (load p 0 desc.mSize.toNat)) })
  | _, _ => (E_INVALID_ARGUMENT, v)

/-- `GetFieldValueByName` with an address to copy to: the bytes that are copied. -/
def GetFieldValueByName (v : CVariableOfStruct) (name : CarString) (type : CarDataType) :
    ECode × Option (List UInt8) :=
  match name with
  | some _ =>
    match v.mVarBuf with
    | none => (E_INVALID_OPERATION, none)
    | some buf =>
      match v.GetIndexByName name with
      | none => (E_DOES_NOT_EXIST, none)
      | some desc =>
        if type ≠ desc.mType then (E_INVALID_ARGUMENT, none)
        else (NOERROR, some (load buf desc.mPos.toNat desc.mSize.toNat))
  | none => (E_INVALID_ARGUMENT, none)

/-! ### Setters -/

section Setters

variable (v : CVariableOfStruct) (name : CarString)

def SetInt16Field (value : UInt16) : ECode × CVariableOfStruct :=
  v.SetFieldValueByName name (some (image (toLE 2 value.toNat))) .int16

def SetInt32Field (value : UInt32) : ECode × CVariableOfStruct :=
  v.SetFieldValueByName name (some (image (wordBytes value))) .int32

def SetInt64Field (value : UInt64) : ECode × CVariableOfStruct :=
  v.SetFieldValueByName name (some (image (dwordBytes value))) .int64

def SetByteField (value : UInt8) : ECode × CVariableOfStruct :=
  v.SetFieldValueByName name (some (image [value])) .byte

def SetFloatField (value : UInt32) : ECode × CVariableOfStruct :=
  v.SetFieldValueByName name (some (image (wordBytes value))) .float

def SetDoubleField (value : UInt64) : ECode × CVariableOfStruct :=
  v.SetFieldValueByName name (some (image (dwordBytes value))) .double

def SetCharField (value : UInt32) : ECode × CVariableOfStruct :=
  v.SetFieldValueByName name (some (image (wordBytes value))) .char32

def SetBooleanField (value : UInt8) : ECode × CVariableOfStruct :=
  v.SetFieldValueByName name (some (image [value])) .boolean

/-- The address that is given on is that of the pointer: `frame` is the stack from there on. -/
def SetEMuidField (frame : Block) : ECode × CVariableOfStruct :=
  v.SetFieldValueByName name (some frame) .emuid

/-- As `SetEMuidField`. -/
def SetEGuidField (frame : Block) : ECode × CVariableOfStruct :=
  v.SetFieldValueByName name (some frame) .eguid

def SetECodeField (value : ECode) : ECode × CVariableOfStruct :=
  v.SetFieldValueByName name (some (image (wordBytes value))) .ecode

def SetLocalPtrField (value : UInt32) : ECode × CVariableOfStruct :=
  v.SetFieldValueByName name (some (image (wordBytes value))) .localPtr

def SetLocalTypeField (value : Option Block) : ECode × CVariableOfStruct :=
  v.SetFieldValueByName name value .localType

def SetEnumField (value : UInt32) : ECode × CVariableOfStruct :=
  v.SetFieldValueByName name (some (image (wordBytes value))) .enum

end Setters

/-! ### Getters -/

section Getters

variable (v : CVariableOfStruct) (name : CarString)

/-- What a variable of the caller holds after `GetFieldValueByName`. -/
def getAs {α : Type} (type : CarDataType) (decode : List UInt8 → α) : ECode × Option α :=
  let (ec, bs) := v.GetFieldValueByName name type
  (ec, bs.map decode)

def GetInt16Field : ECode × Option UInt16 :=
  v.getAs name .int16 fun bs => UInt16.ofNat (ofLE bs)

def GetInt32Field : ECode × Option UInt32 := v.getAs name .int32 wordOf

def GetInt64Field : ECode × Option UInt64 := v.getAs name .int64 dwordOf

def GetByteField : ECode × Option UInt8 := v.getAs name .byte fun bs => bs.headD 0

def GetFloatField : ECode × Option UInt32 := v.getAs name .float wordOf

def GetDoubleField : ECode × Option UInt64 := v.getAs name .double dwordOf

def GetCharField : ECode × Option UInt32 := v.getAs name .char32 wordOf

def GetBooleanField : ECode × Option UInt8 := v.getAs name .boolean fun bs => bs.headD 0

def GetEMuidField : ECode × Option EMuid := v.getAs name .emuid EMuid.ofBytes

/-- The `mClsid`, `mUunm` and `mCarcode` of the `EGuid`. -/
def GetEGuidField : ECode × Option (EMuid × UInt32 × UInt32) :=
  v.getAs name .eguid fun bs =>
    (EMuid.ofBytes (bs.take 16), wordOf ((bs.drop 16).take 4), wordOf (bs.drop 20))

def GetECodeField : ECode × Option ECode := v.getAs name .ecode wordOf

def GetLocalPtrField : ECode × Option UInt32 := v.getAs name .localPtr wordOf

def GetLocalTypeField : ECode × Option (List UInt8) := v.getAs name .localType id

def GetEnumField : ECode × Option UInt32 := v.getAs name .enum wordOf

/-- The getter for a type, its value as a field value. -/
def getField : CarDataType → ECode × Option FieldValue
  | .int16 => (v.GetInt16Field name).map id (Option.map .int16)
  | .int32 => (v.GetInt32Field name).map id (Option.map .int32)
  | .int64 => (v.GetInt64Field name).map id (Option.map .int64)
  | .byte => (v.GetByteField name).map id (Option.map .byte)
  | .float => (v.GetFloatField name).map id (Option.map .float)
  | .double => (v.GetDoubleField name).map id (Option.map .double)
  | .char32 => (v.GetCharField name).map id (Option.map .char32)
  | .boolean => (v.GetBooleanField name).map id (Option.map .boolean)
  | .emuid => (v.GetEMuidField name).map id (Option.map .emuid)
  | .eguid => (v.GetEGuidField name).map id (Option.map fun g => .eguid g.1 g.2.1 g.2.2)
  | .ecode => (v.GetECodeField name).map id (Option.map .ecode)
  | .localPtr => (v.GetLocalPtrField name).map id (Option.map .localPtr)
  | .enum => (v.GetEnumField name).map id (Option.map .enum)
  | .string | .localType | .arrayOf | .cppVector | .struct | .interface => (E_INVALID_ARGUMENT, none)

end Getters

end CVariableOfStruct

/-- A call of a setter. With a value of type `EMuid` or `EGuid` comes the stack from the address of the
setter's pointer on. -/
inductive SetCall
  | field (name : CarString) (value : FieldValue) (frame : Block)
  | localType (name : CarString) (value : Option Block)

namespace SetCall

def name : SetCall → CarString
  | field name _ _ => name
  | localType name _ => name

def type : SetCall → CarDataType
  | field _ value _ => value.type
  | localType _ _ => .localType

def perform (v : CVariableOfStruct) : SetCall → ECode × CVariableOfStruct
  | field name (.int16 x) _ => v.SetInt16Field name x
  | field name (.int32 x) _ => v.SetInt32Field name x
  | field name (.int64 x) _ => v.SetInt64Field name x
  | field name (.byte x) _ => v.SetByteField name x
  | field name (.float x) _ => v.SetFloatField name x
  | field name (.double x) _ => v.SetDoubleField name x
  | field name (.char32 x) _ => v.SetCharField name x
  | field name (.boolean x) _ => v.SetBooleanField name x
  | field name (.emuid _) frame => v.SetEMuidField name frame
  | field name (.eguid ..) frame => v.SetEGuidField name frame
  | field name (.ecode x) _ => v.SetECodeField name x
  | field name (.localPtr x) _ => v.SetLocalPtrField name x
  | field name (.enum x) _ => v.SetEnumField name x
  | localType name value => v.SetLocalTypeField name value

/-- What the setter gives the address of. -/
def param : SetCall → Option Block
  | field _ (.emuid _) frame | field _ (.eguid ..) frame => some frame
  | field _ value _ => some (image value.bytes)
  | localType _ value => value

theorem perform_eq (v : CVariableOfStruct) (c : SetCall) :
    c.perform v = v.SetFieldValueByName c.name c.param c.type := by
  cases c with
  | field name value frame => cases value <;> rfl
  | localType name value => rfl

/-- The bytes that the setter copies are those of the value: the frame of an `EMuid` or `EGuid` setter
happens to begin with them. -/
def Copied : SetCall → Prop
  | field _ (.emuid id) frame => load frame 0 16 = id.bytes
  | field _ (.eguid clsid uunm carcode) frame =>
    load frame 0 24 = FieldValue.eguidBytes clsid uunm carcode
  | field .. | localType .. => True

/-- The bytes at the address, for a value that is copied. -/
theorem Copied.load_param {name : CarString} {value : FieldValue} {frame : Block}
    (h : (field name value frame).Copied) :
    ∃ p, (field name value frame).param = some p ∧ load p 0 value.type.size.toNat = value.bytes := by
  have himage := load_image value.bytes
  rw [FieldValue.length_bytes] at himage
  cases value with
  | emuid id => exact ⟨frame, rfl, h⟩
  | eguid clsid uunm carcode => exact ⟨frame, rfl, h⟩
  | _ => exact ⟨_, rfl, himage⟩

end SetCall

namespace CVariableOfStruct

variable {v w : CVariableOfStruct} {name : CarString} {type : CarDataType} {param : Option Block}
  {buf : Block} {desc : StructFieldDesc}

/-! ### One call -/

/-- The variable has a field of the name and type. -/
def HasField (v : CVariableOfStruct) (name : CarString) (type : CarDataType) : Prop :=
  name.isSome = true ∧ ∃ desc, v.GetIndexByName name = some desc ∧ desc.mType = type

theorem SetFieldValueByName_of_hasField {p : Block} (hbuf : v.mVarBuf = some buf)
    (hname : name.isSome = true) (hdesc : v.GetIndexByName name = some desc)
    (htype : desc.mType = type) :
    v.SetFieldValueByName name (some p) type =
      (NOERROR,
        { v with mVarBuf := some (store buf desc.mPos.toNat (load p 0 desc.mSize.toNat)) }) := by
  obtain ⟨s, rfl⟩ := Option.isSome_iff_exists.mp hname
  rw [SetFieldValueByName, hbuf]
  simp only [hdesc, htype, ne_eq, not_true_eq_false, if_false]

/-- A call fails and changes nothing, or finds a field of its type and copies to it. -/
theorem SetFieldValueByName_cases (v : CVariableOfStruct) (name : CarString) (param : Option Block)
    (type : CarDataType) :
    ((v.SetFieldValueByName name param type).1 ≠ NOERROR ∧
        (v.SetFieldValueByName name param type).2 = v) ∨
      ∃ p buf desc, param = some p ∧ v.mVarBuf = some buf ∧ name.isSome = true ∧
        v.GetIndexByName name = some desc ∧ desc.mType = type ∧
        v.SetFieldValueByName name param type = (NOERROR,
          { v with mVarBuf := some (store buf desc.mPos.toNat (load p 0 desc.mSize.toNat)) }) := by
  match hname : name, param with
  | none, _ => exact .inl ⟨show E_INVALID_ARGUMENT ≠ NOERROR by decide, rfl⟩
  | some s, none => exact .inl ⟨show E_INVALID_ARGUMENT ≠ NOERROR by decide, rfl⟩
  | some s, some p =>
    match hbuf : v.mVarBuf with
    | none =>
      rw [SetFieldValueByName, hbuf]
      exact .inl ⟨show E_INVALID_OPERATION ≠ NOERROR by decide, rfl⟩
    | some buf =>
      match hdesc : v.GetIndexByName (some s) with
      | none =>
        have hset : v.SetFieldValueByName (some s) (some p) type = (E_DOES_NOT_EXIST, v) := by
          simp only [SetFieldValueByName, hbuf, hdesc]
        rw [hset]
        exact .inl ⟨show E_DOES_NOT_EXIST ≠ NOERROR by decide, rfl⟩
      | some desc =>
        by_cases htype : desc.mType = type
        · exact .inr ⟨p, buf, desc, rfl, rfl, rfl, rfl, htype,
            SetFieldValueByName_of_hasField hbuf rfl hdesc htype⟩
        · have hset : v.SetFieldValueByName (some s) (some p) type = (E_INVALID_ARGUMENT, v) := by
            simp only [SetFieldValueByName, hbuf, hdesc, ne_eq, Ne.symm htype, not_false_eq_true,
              if_true]
          rw [hset]
          exact .inl ⟨show E_INVALID_ARGUMENT ≠ NOERROR by decide, rfl⟩

/-- **A setter with a wrong type or an unknown name** fails and changes nothing. -/
theorem SetFieldValueByName_of_not_hasField (h : ¬v.HasField name type) (param : Option Block) :
    (v.SetFieldValueByName name param type).1 ≠ NOERROR ∧
      (v.SetFieldValueByName name param type).2 = v := by
  rcases SetFieldValueByName_cases v name param type with hfail | ⟨p, buf, desc, -, -, hname, hdesc, htype, -⟩
  · exact hfail
  · exact (h ⟨hname, desc, hdesc, htype⟩).elim

theorem GetFieldValueByName_of_hasField (hbuf : v.mVarBuf = some buf) (hname : name.isSome = true)
    (hdesc : v.GetIndexByName name = some desc) (htype : desc.mType = type) :
    v.GetFieldValueByName name type =
      (NOERROR, some (load buf desc.mPos.toNat desc.mSize.toNat)) := by
  obtain ⟨s, rfl⟩ := Option.isSome_iff_exists.mp hname
  rw [GetFieldValueByName, hbuf]
  simp only [hdesc, htype, ne_eq, not_true_eq_false, if_false]

theorem getField_congr (h : ∀ type, v.GetFieldValueByName name type = w.GetFieldValueByName name type)
    (type : CarDataType) : v.getField name type = w.getField name type := by
  cases type <;>
    simp only [getField, GetInt16Field, GetInt32Field, GetInt64Field, GetByteField, GetFloatField,
      GetDoubleField, GetCharField, GetBooleanField, GetEMuidField, GetEGuidField, GetECodeField,
      GetLocalPtrField, GetEnumField, getAs, h]

/-- What a getter makes of the bytes of a field. -/
theorem getField_of_bytes {bs : List UInt8} (htype : type.isScalar = true)
    (h : v.GetFieldValueByName name type = (NOERROR, some bs)) :
    v.getField name type = (NOERROR, FieldValue.decode type bs) := by
  cases type <;> first
  | exact Bool.noConfusion htype
  | simp only [getField, GetInt16Field, GetInt32Field, GetInt64Field, GetByteField, GetFloatField,
      GetDoubleField, GetCharField, GetBooleanField, GetEMuidField, GetEGuidField, GetECodeField,
      GetLocalPtrField, GetEnumField, getAs, h, Option.map_some, Prod.map_apply, id, FieldValue.decode]

/-! ### The fields of a variable -/

/-- The buffer is there, and the fields are scalars that have no byte in common. -/
structure Sound (v : CVariableOfStruct) : Prop where
  buf : v.mVarBuf.isSome = true
  apart : v.mStructInfo.mStructFieldDesc.Pairwise fun d e =>
    Apart d.mPos.toNat d.mSize.toNat e.mPos.toNat e.mSize.toNat
  scalar : ∀ d ∈ v.mStructInfo.mStructFieldDesc, d.mType.isScalar = true ∧ d.mSize = d.mType.size

theorem mem_of_getIndexByName (h : v.GetIndexByName name = some desc) :
    desc ∈ v.mStructInfo.mStructFieldDesc ∧ desc.mName = name := by
  refine ⟨List.mem_of_find?_eq_some h, ?_⟩
  have hname := List.find?_some h
  exact (of_decide_eq_true hname).symm

/-- The fields of two names have no byte in common. -/
theorem Sound.apart_of_ne (hs : v.Sound) {other : CarString} {desc' : StructFieldDesc}
    (h : v.GetIndexByName name = some desc) (h' : v.GetIndexByName other = some desc')
    (hne : name ≠ other) :
    Apart desc.mPos.toNat desc.mSize.toNat desc'.mPos.toNat desc'.mSize.toNat := by
  obtain ⟨hmem, hname⟩ := mem_of_getIndexByName h
  obtain ⟨hmem', hname'⟩ := mem_of_getIndexByName h'
  have hsymm : Std.Symm fun d e : StructFieldDesc =>
      Apart d.mPos.toNat d.mSize.toNat e.mPos.toNat e.mSize.toNat := ⟨fun d e h => h.symm⟩
  refine hs.apart.forall hmem hmem' ?_
  intro heq
  exact hne (hname.symm.trans ((congrArg _ heq).trans hname'))

/-- **Setting a field leaves what is read from the others.** -/
theorem Sound.getFieldValueByName_of_ne (hs : v.Sound) {other : CarString} (hne : name ≠ other)
    (param : Option Block) (type type' : CarDataType) :
    (v.SetFieldValueByName name param type).2.GetFieldValueByName other type' =
      v.GetFieldValueByName other type' := by
  rcases SetFieldValueByName_cases v name param type with ⟨-, hsame⟩ | ⟨p, buf, desc, -, hbuf, -, hdesc, -, heq⟩
  · rw [hsame]
  · rw [heq]
    cases other with
    | none => rfl
    | some o =>
      simp only [GetFieldValueByName, hbuf]
      -- The descriptors are those of `v`: only the bytes of the other field matter.
      change (match v.GetIndexByName (some o) with
        | none => (E_DOES_NOT_EXIST, none)
        | some desc' => _) = _
      cases hdesc' : v.GetIndexByName (some o) with
      | none => rfl
      | some desc' =>
        have hapart := hs.apart_of_ne hdesc hdesc' hne
        have hload : load (store buf desc.mPos.toNat (load p 0 desc.mSize.toNat)) desc'.mPos.toNat
            desc'.mSize.toNat = load buf desc'.mPos.toNat desc'.mSize.toNat := by
          refine load_store_of_disjoint buf ?_
          rw [length_load]
          exact hapart.symm
        simp only [hload]

/-- A field reads back the bytes that were copied to it. -/
theorem getFieldValueByName_self {p : Block} (hbuf : v.mVarBuf.isSome = true)
    (hfield : v.HasField name type)
    (hsize : ∀ d ∈ v.mStructInfo.mStructFieldDesc, d.mSize = d.mType.size) :
    (v.SetFieldValueByName name (some p) type).2.GetFieldValueByName name type =
      (NOERROR, some (load p 0 type.size.toNat)) := by
  obtain ⟨hname, desc, hdesc, htype⟩ := hfield
  obtain ⟨buf, hbuf⟩ := Option.isSome_iff_exists.mp hbuf
  have hself := load_store_self buf desc.mPos.toNat (load p 0 desc.mSize.toNat)
  rw [length_load] at hself
  have hlen : desc.mSize = type.size := htype ▸ hsize desc (mem_of_getIndexByName hdesc).1
  rw [SetFieldValueByName_of_hasField hbuf hname hdesc htype]
  have hget := GetFieldValueByName_of_hasField (v := ⟨v.mStructInfo, some (store buf desc.mPos.toNat
    (load p 0 desc.mSize.toNat))⟩) rfl hname hdesc htype
  exact hget.trans (by rw [hself, hlen])

/-! ### Sequences of calls -/

/-- The variable after some calls. -/
def run (v : CVariableOfStruct) (calls : List SetCall) : CVariableOfStruct :=
  calls.foldl (fun v c => (c.perform v).2) v

theorem run_append (v : CVariableOfStruct) (calls calls' : List SetCall) :
    v.run (calls ++ calls') = (v.run calls).run calls' :=
  List.foldl_append

theorem run_concat (v : CVariableOfStruct) (calls : List SetCall) (c : SetCall) :
    v.run (calls ++ [c]) = (c.perform (v.run calls)).2 := by
  rw [run, List.foldl_append, List.foldl_cons, List.foldl_nil, ← run]

/-- A call keeps the struct info, and keeps the buffer there. -/
theorem perform_kept (v : CVariableOfStruct) (c : SetCall) :
    (c.perform v).2.mStructInfo = v.mStructInfo ∧
      (c.perform v).2.mVarBuf.isSome = v.mVarBuf.isSome := by
  rw [c.perform_eq]
  rcases SetFieldValueByName_cases v c.name c.param c.type with
    ⟨-, hsame⟩ | ⟨p, buf, desc, -, hbuf, -, -, -, heq⟩
  · rw [hsame]
    exact ⟨rfl, rfl⟩
  · rw [heq, hbuf]
    exact ⟨rfl, rfl⟩

theorem run_kept (v : CVariableOfStruct) (calls : List SetCall) :
    (v.run calls).mStructInfo = v.mStructInfo ∧ (v.run calls).mVarBuf.isSome = v.mVarBuf.isSome := by
  induction calls using List.reverseRecOn with
  | nil => exact ⟨rfl, rfl⟩
  | append_singleton calls c ih =>
    rw [run_concat]
    have hkept := perform_kept (v.run calls) c
    exact ⟨hkept.1.trans ih.1, hkept.2.trans ih.2⟩

theorem Sound.run (hs : v.Sound) (calls : List SetCall) : (v.run calls).Sound := by
  obtain ⟨hinfo, hbuf⟩ := v.run_kept calls
  constructor
  · rw [hbuf]
    exact hs.buf
  · rw [hinfo]
    exact hs.apart
  · rw [hinfo]
    exact hs.scalar

/-- Calls on other fields leave what is read from a field. -/
theorem Sound.getFieldValueByName_run (hs : v.Sound) {calls : List SetCall}
    (h : ∀ c ∈ calls, c.name ≠ name) (type : CarDataType) :
    (v.run calls).GetFieldValueByName name type = v.GetFieldValueByName name type := by
  induction calls using List.reverseRecOn with
  | nil => rfl
  | append_singleton calls c ih =>
    have hc := h c (List.mem_append_right _ List.mem_cons_self)
    rw [run_concat, c.perform_eq, (hs.run calls).getFieldValueByName_of_ne hc,
      ih fun c hc => h c (List.mem_append_left _ hc)]

theorem hasField_run (v : CVariableOfStruct) (calls : List SetCall) :
    (v.run calls).HasField name type ↔ v.HasField name type := by
  unfold HasField GetIndexByName
  rw [(v.run_kept calls).1]

/-- The laws of a variable, along a sequence of calls on it. -/
structure Lawful (v : CVariableOfStruct) (calls : List SetCall) : Prop where
  /-- A field that was set holds the value until it is set again. -/
  read : ∀ before name value frame since after,
    calls = before ++ .field name value frame :: (since ++ after) →
    ((SetCall.field name value frame).perform (v.run before)).1 = NOERROR →
    (∀ c ∈ since, c.name ≠ name) →
    (v.run (before ++ .field name value frame :: since)).getField name value.type =
      (NOERROR, some value)
  /-- A call changes what is read from no other field. -/
  other : ∀ before c after, calls = before ++ c :: after → ∀ name, c.name ≠ name → ∀ type,
    (c.perform (v.run before)).2.getField name type = (v.run before).getField name type
  /-- A call with a wrong type or an unknown name fails and changes nothing. -/
  refused : ∀ before c after, calls = before ++ c :: after → ¬v.HasField c.name c.type →
    (c.perform (v.run before)).1 ≠ NOERROR ∧ (c.perform (v.run before)).2 = v.run before

/-- A variable that `Init` made, of a struct info with these fields. -/
def Over (F : ScalarFields) (v : CVariableOfStruct) : Prop :=
  ∃ B info varBuf malloc sGetters,
    F.Builds B info ∧ Init info varBuf malloc sGetters = (NOERROR, some v)

theorem sound_of_over {F : ScalarFields} (h : Over F v) : v.Sound := by
  obtain ⟨B, info, varBuf, malloc, sGetters, hbuilds, hinit⟩ := h
  obtain ⟨hlaid, hdescs⟩ := hbuilds.laid
  obtain ⟨buf, rfl⟩ : ∃ buf, v = ⟨info, some buf⟩ := by
    unfold Init at hinit
    split at hinit
    · cases hinit
    all_goals
      split at hinit
      · exact ⟨_, (Option.some.inj (congrArg Prod.snd hinit)).symm⟩
      · cases hinit
  constructor
  · rfl
  · exact hlaid.apart.imp fun h => Or.inl h
  · intro d hd
    obtain ⟨f, hf, heq⟩ := List.mem_map.mp (hdescs ▸ List.mem_map_of_mem hd :
      (d.mName, d.mType, d.mSize) ∈ F.fields.map fun f => (f.1, f.2, f.2.size))
    simp only [Prod.mk.injEq] at heq
    obtain ⟨-, htype, hsize⟩ := heq
    rw [← htype, ← hsize]
    exact ⟨F.scalar f hf, rfl⟩

/-- What the getter of a field gives after the setter copied to it. -/
theorem Sound.getField_perform (hs : v.Sound) {value : FieldValue} {frame p : Block}
    (hfield : v.HasField name value.type) (hp : (SetCall.field name value frame).param = some p) :
    ((SetCall.field name value frame).perform v).2.getField name value.type =
      (NOERROR, FieldValue.decode value.type (load p 0 value.type.size.toNat)) := by
  refine getField_of_bytes value.isScalar_type ?_
  rw [SetCall.perform_eq, hp]
  exact getFieldValueByName_self hs.buf hfield fun d hd => (hs.scalar d hd).2

/-- A setter that succeeds has found its field. -/
theorem hasField_of_perform {c : SetCall} (h : (c.perform v).1 = NOERROR) : v.HasField c.name c.type := by
  by_contra hfield
  rw [c.perform_eq] at h
  exact (SetFieldValueByName_of_not_hasField hfield c.param).1 h

/-- The calls that copy the value they were given are lawful. -/
theorem Sound.lawful (hs : v.Sound) {calls : List SetCall}
    (h : ∀ c ∈ calls, v.HasField c.name c.type → c.Copied) : v.Lawful calls := by
  constructor
  · intro before name value frame since after hcalls hok hsince
    have hrun := hs.run before
    have hfield := hasField_of_perform hok
    have hcopied := h (.field name value frame)
      (hcalls ▸ List.mem_append_right _ List.mem_cons_self) ((v.hasField_run before).mp hfield)
    obtain ⟨p, hp, hbytes⟩ := hcopied.load_param
    have hset := hrun.getField_perform hfield hp
    rw [hbytes, value.decode_bytes] at hset
    have hsound : ((SetCall.field name value frame).perform (v.run before)).2.Sound := by
      rw [← run_concat]
      exact hs.run _
    rw [run_append, ← List.singleton_append, run_append, ← hset]
    exact getField_congr (hsound.getFieldValueByName_run hsince) value.type
  · intro before c after _ name hne type
    rw [c.perform_eq]
    exact getField_congr ((hs.run before).getFieldValueByName_of_ne hne c.param c.type) type
  · intro before c after _ hfield
    rw [c.perform_eq]
    exact SetFieldValueByName_of_not_hasField (fun h => hfield ((v.hasField_run before).mp h)) c.param

/-- A lawful call has copied the value it was given. -/
theorem Sound.copied_of_lawful (hs : v.Sound) {calls : List SetCall} (h : v.Lawful calls) {c : SetCall}
    (hc : c ∈ calls) (hfield : v.HasField c.name c.type) : c.Copied := by
  obtain ⟨before, after, rfl⟩ := List.append_of_mem hc
  have hfield' := (v.hasField_run before).mpr hfield
  have hread : ∀ name value frame p, c = .field name value frame → c.param = some p →
      FieldValue.decode value.type (load p 0 value.type.size.toNat) = some value := by
    rintro name value frame p rfl hp
    have hset := (hs.run before).getField_perform hfield' hp
    have hok : ((SetCall.field name value frame).perform (v.run before)).1 = NOERROR := by
      obtain ⟨hname, desc, hdesc, htype⟩ := hfield'
      obtain ⟨buf, hbuf⟩ := Option.isSome_iff_exists.mp (hs.run before).buf
      rw [SetCall.perform_eq, hp, SetFieldValueByName_of_hasField hbuf hname hdesc htype]
    have hget := h.read before name value frame [] after rfl hok (List.forall_mem_nil _)
    rw [run_concat] at hget
    exact congrArg Prod.snd (hset.symm.trans hget)
  match c with
  | .field name (.emuid id) frame =>
    have heq := hread name _ frame frame rfl rfl
    simp only [FieldValue.decode, FieldValue.type, Option.some.injEq, FieldValue.emuid.injEq] at heq
    rw [SetCall.Copied, ← heq]
    exact (EMuid.bytes_ofBytes (length_load frame 0 16)).symm
  | .field name (.eguid clsid uunm carcode) frame =>
    have heq := hread name _ frame frame rfl rfl
    simp only [FieldValue.decode, FieldValue.type, Option.some.injEq, FieldValue.eguid.injEq] at heq
    obtain ⟨hclsid, huunm, hcarcode⟩ := heq
    rw [SetCall.Copied, ← hclsid, ← huunm, ← hcarcode]
    exact (FieldValue.eguidBytes_of_bytes (length_load frame 0 24)).symm
  | .field _ (.int16 _) _ | .field _ (.int32 _) _ | .field _ (.int64 _) _ | .field _ (.byte _) _
  | .field _ (.float _) _ | .field _ (.double _) _ | .field _ (.char32 _) _ | .field _ (.boolean _) _
  | .field _ (.ecode _) _ | .field _ (.localPtr _) _ | .field _ (.enum _) _ | .localType .. => trivial

/-- **The laws of a struct variable** hold of a sequence of calls exactly if no call with an `EMuid` or
`EGuid` finds its field, or the bytes from its pointer on happen to be those of the value. -/
theorem lawful_iff_copied {F : ScalarFields} (h : Over F v) (calls : List SetCall) :
    v.Lawful calls ↔ ∀ c ∈ calls, v.HasField c.name c.type → c.Copied := by
  have hs := sound_of_over h
  constructor
  · intro hlawful c hc hfield
    exact hs.copied_of_lawful hlawful hc hfield
  · exact hs.lawful

/-! A struct with an `EMuid` field `m` and an `Int32` field `n`. -/

private def nameM : CarString := some ⟨[109], by decide⟩

private def nameN : CarString := some ⟨[110], by decide⟩

private def fieldsMN : ScalarFields where
  fields := [(nameM, .emuid), (nameN, .int32)]
  scalar := by decide
  distinct := by decide
  fits := by decide

private def variableMN : CVariableOfStruct where
  mStructInfo := CStructInfo.InitFieldElement .other none
    [(nameM, .ofScalar .emuid), (nameN, .ofScalar .int32)]
  mVarBuf := some (image [])

private theorem over_variableMN : Over fieldsMN variableMN :=
  ⟨.other, variableMN.mStructInfo, some (image []), none, true, .inl ⟨none, rfl⟩, rfl⟩

private theorem hasField_variableMN :
    variableMN.HasField nameM .emuid ∧ variableMN.HasField nameN .int32 :=
  ⟨⟨rfl, ⟨nameM, 0, 16, .emuid⟩, by decide +kernel, rfl⟩,
    rfl, ⟨nameN, 16, 4, .int32⟩, by decide +kernel, rfl⟩

/-- The pointer `0xBEFF0040` is on the stack, and zeros are behind it. -/
private def setM : SetCall := .field nameM (.emuid ⟨1, 2, 3, 4⟩) (image (wordBytes 0xBEFF0040))

/-- After `SetEMuidField` the field has the pointer in it. -/
theorem not_lawful_setEMuidField : Over fieldsMN variableMN ∧ ¬variableMN.Lawful [setM] := by
  refine ⟨over_variableMN, fun h => ?_⟩
  have hcopied := (sound_of_over over_variableMN).copied_of_lawful h List.mem_cons_self
    hasField_variableMN.1
  have hne : ¬load (image (wordBytes 0xBEFF0040)) 0 16 = EMuid.bytes ⟨1, 2, 3, 4⟩ := by decide +kernel
  exact hne hcopied

/-- `lawful_iff_copied` for calls that set the `Int32` field twice. -/
theorem lawful_setInt32Field : Over fieldsMN variableMN ∧
    variableMN.Lawful [.field nameN (.int32 7) (image []), .field nameN (.int32 9) (image [])] := by
  refine ⟨over_variableMN, (lawful_iff_copied over_variableMN _).mpr fun c hc _ => ?_⟩
  rcases List.mem_cons.mp hc with rfl | hc
  · trivial
  · exact List.mem_singleton.mp hc ▸ trivial

end CVariableOfStruct

end ElastosCar
