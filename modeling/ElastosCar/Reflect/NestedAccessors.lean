import ElastosCar.Lib.Trace
import ElastosCar.Reflect.StructLayout

/-!
# Accessors to members of structs and vectors

A `CVariableOfStruct` hands out accessors to its members. For a member that is a struct it creates a
new variable over the member's part of its buffer. For one that is a vector it creates a
`CVariableOfCppVector` once and keeps it in `mCppVectorSGetters`; a vector of vectors does the same
with its elements.

What is kept has the address of the buffer in it. `Rebox` of a struct passes the new address on, but
through a pointer that is off by the size of the first base class, so that it is stored over
`mElementTypeInfo`; `Rebox` of a vector does not pass it on. The vector of vectors keeps the
interface that was asked for first and hands it out whichever is asked for.

* `ask_sound`: as long as what is kept is coherent, and asked for as it was first, all accessors
  along a path are where the members are.
* `accessors_right`: so they are in runs in which no variable is reboxed that has kept an accessor.
-/

namespace ElastosCar.NestedAccessors

/-! ### Types -/

/-- Type infos, with what the variables ask them for. Of infos that are neither of structs nor of
vectors that is what `GetSize` leaves of a zero. -/
inductive TypeInfo
  | other (size : UInt32)
  | struct (mSize : UInt32) (fields : List (CarString × UInt32 × TypeInfo))
  | cppVector (mSize : UInt32) (mLength : Int32) (mElementTypeInfo : TypeInfo)

namespace TypeInfo

/-- `GetSize`. -/
def size : TypeInfo → UInt32
  | other size => size
  | struct mSize _ => mSize
  | cppVector mSize _ _ => mSize

def isStruct : TypeInfo → Bool
  | struct .. => true
  | _ => false

def isCppVector : TypeInfo → Bool
  | cppVector .. => true
  | _ => false

end TypeInfo

/-- A name, `mPos` of the descriptor and the type. -/
abbrev Field := CarString × UInt32 × TypeInfo

/-- The interface that an accessor is handed out as: `IStructSetter` or `IStructGetter`, and
`ICppVectorSetter` or `ICppVectorGetter`. -/
inductive SGetter
  | setter | getter
deriving DecidableEq, Repr

/-! ### Variables -/

/-- `mDataType` and `mElementSize` are those of `element`, the info that the constructor was given.
What has been stored over the pointer `mElementTypeInfo` since is in `overwritten`. -/
structure CVariableOfCppVector where
  element : TypeInfo
  overwritten : Option UInt32
  mVarPtr : UInt32
  mLength : Int32
  mCppVectorSGetters : Int32 → Option (SGetter × CVariableOfCppVector)

structure CVariableOfStruct where
  mStructInfo : List Field
  mVarBuf : UInt32
  mIsAlloc : Bool
  mCppVectorSGetters : ℕ → Option CVariableOfCppVector

/-- Why a request hands out no accessor: an error is returned, the interface has no such method, or
a method is called through a pointer to something else. -/
inductive Failure
  | ecode (ec : ECode)
  | noMethod
  | wild
deriving DecidableEq, Repr

inductive Accessor
  | struct (v : CVariableOfStruct)
  | cppVector (v : CVariableOfCppVector)

/-- The constructor, and `Init`. -/
def CVariableOfCppVector.create (elementTypeInfo : TypeInfo) (length : Int32) (varPtr : UInt32) :
    CVariableOfCppVector :=
  ⟨elementTypeInfo, none, varPtr, length, fun _ => none⟩

/-- `Init`: the buffer is one that was handed in or allocated. -/
def CVariableOfStruct.create (fields : List Field) (varBuf : UInt32) (isAlloc : Bool) :
    CVariableOfStruct :=
  ⟨fields, varBuf, isAlloc, fun _ => none⟩

/-- `CStructInfo::CreateVariableBox`, and `GetSetter` or `GetGetter` of the variable. -/
def CreateVariableBox (fields : List Field) (variableDescriptor : UInt32) (sGetter : SGetter) :
    Except Failure (SGetter × Accessor) :=
  if variableDescriptor = 0 then .error (.ecode E_INVALID_ARGUMENT)
  else .ok (sGetter, .struct (.create fields variableDescriptor false))

namespace CVariableOfStruct

/-- `GetIndexByName`, with the field. -/
def GetIndexByName (fields : List Field) (name : CarString) : Option (ℕ × UInt32 × TypeInfo) :=
  (fields.zipIdx.find? fun f => f.1.1 = name).map fun f => (f.2, f.1.2)

/-- `GetStructFieldSetter` and `GetStructFieldGetter`. -/
def GetStructFieldSGetter (v : CVariableOfStruct) (name : CarString) (sGetter : SGetter) :
    Except Failure (SGetter × Accessor) :=
  if name = none then .error (.ecode E_INVALID_ARGUMENT)
  else match GetIndexByName v.mStructInfo name with
    | none => .error (.ecode E_DOES_NOT_EXIST)
    | some (_, mPos, .struct _ fields) => CreateVariableBox fields (v.mVarBuf + mPos) sGetter
    | some _ => .error (.ecode E_INVALID_ARGUMENT)

/-- `AcquireCppVectorFieldSGetter`. -/
def AcquireCppVectorFieldSGetter (v : CVariableOfStruct) (name : CarString) (sGetter : SGetter) :
    CVariableOfStruct × Except Failure (SGetter × Accessor) :=
  if name = none then (v, .error (.ecode E_INVALID_ARGUMENT))
  else match GetIndexByName v.mStructInfo name with
    | none => (v, .error (.ecode E_DOES_NOT_EXIST))
    | some (index, mPos, .cppVector _ length element) =>
      match v.mCppVectorSGetters index with
      | some sGetterObj => (v, .ok (sGetter, .cppVector sGetterObj))
      | none =>
        let sGetterObj := CVariableOfCppVector.create element length (v.mVarBuf + mPos)
        ({ v with
            mCppVectorSGetters := Function.update v.mCppVectorSGetters index (some sGetterObj) },
          .ok (sGetter, .cppVector sGetterObj))
    | some _ => (v, .error (.ecode E_INVALID_ARGUMENT))

/-- `Rebox` of a vector variable, through a pointer to what is the size of its first base class in
front of it: where `mVarPtr` would be, there is `mElementTypeInfo`. -/
def reboxBeside (varPtr : UInt32) (c : CVariableOfCppVector) : CVariableOfCppVector :=
  if varPtr = 0 then c else { c with overwritten := some varPtr }

/-- `Rebox`. -/
def Rebox (v : CVariableOfStruct) (localVariablePtr : UInt32) : CVariableOfStruct :=
  if localVariablePtr = 0 then v
  else { v with
    mIsAlloc := if v.mIsAlloc ∧ v.mVarBuf ≠ 0 then false else v.mIsAlloc
    mVarBuf := localVariablePtr
    mCppVectorSGetters := fun i => (v.mCppVectorSGetters i).bind fun c =>
      (v.mStructInfo[i]?).map fun f => reboxBeside (localVariablePtr + f.2.1) c }

end CVariableOfStruct

namespace CVariableOfCppVector

/-- The tests in front of the accessors to elements. -/
def check (v : CVariableOfCppVector) (index : Int32) (isType : Bool) : Option ECode :=
  if index < 0 ∨ v.mLength ≤ index then some E_INVALID_ARGUMENT
  else if isType = false ∨ v.mVarPtr = 0 then some E_INVALID_OPERATION
  else none

/-- `mVarPtr + mElementSize * index`. -/
def elementPtr (v : CVariableOfCppVector) (index : Int32) : UInt32 :=
  v.mVarPtr + v.element.size * index.toUInt32

/-- `GetStructElementSetter` and `GetStructElementGetter`. -/
def GetStructElementSGetter (v : CVariableOfCppVector) (index : Int32) (sGetter : SGetter) :
    Except Failure (SGetter × Accessor) :=
  match v.check index v.element.isStruct with
  | some ec => .error (.ecode ec)
  | none =>
    match v.overwritten, v.element with
    | none, .struct _ fields => CreateVariableBox fields (v.elementPtr index) sGetter
    | _, _ => .error .wild

/-- `AcquireCppVectorSGetter`. -/
def AcquireCppVectorSGetter (v : CVariableOfCppVector) (index : Int32) (sGetter : SGetter) :
    CVariableOfCppVector × Except Failure (SGetter × Accessor) :=
  match v.check index v.element.isCppVector with
  | some ec => (v, .error (.ecode ec))
  | none =>
    match v.mCppVectorSGetters index with
    -- whichever interface was asked for when it was made
    | some (first, sGetterObj) => (v, .ok (first, .cppVector sGetterObj))
    | none =>
      match v.overwritten, v.element with
      | none, .cppVector _ length element =>
        let sGetterObj := create element length (v.elementPtr index)
        ({ v with
            mCppVectorSGetters :=
              Function.update v.mCppVectorSGetters index (some (sGetter, sGetterObj)) },
          .ok (sGetter, .cppVector sGetterObj))
      | _, _ => (v, .error .wild)

/-- `Rebox`. -/
def Rebox (v : CVariableOfCppVector) (varPtr : UInt32) : CVariableOfCppVector :=
  if varPtr = 0 then v else { v with mVarPtr := varPtr }

end CVariableOfCppVector

/-! ### Requests -/

inductive Member
  | field (name : CarString)
  | element (index : Int32)

/-- The type of the member as the name of the method has it. -/
inductive MemberType
  | struct | cppVector
deriving DecidableEq, Repr

structure Request where
  member : Member
  type : MemberType
  sGetter : SGetter

namespace Accessor

/-- A request for an accessor to a member, and what becomes of the variable that is asked. -/
def request (a : Accessor) (r : Request) : Accessor × Except Failure (SGetter × Accessor) :=
  match a, r.member, r.type with
  | .struct v, .field name, .struct => (a, v.GetStructFieldSGetter name r.sGetter)
  | .struct v, .field name, .cppVector =>
    let p := v.AcquireCppVectorFieldSGetter name r.sGetter
    (.struct p.1, p.2)
  | .cppVector v, .element index, .struct => (a, v.GetStructElementSGetter index r.sGetter)
  | .cppVector v, .element index, .cppVector =>
    let p := v.AcquireCppVectorSGetter index r.sGetter
    (.cppVector p.1, p.2)
  | _, _, _ => (a, .error .noMethod)

/-- The variable when the accessor that it has kept for a member has become `c`. -/
def put (a : Accessor) (r : Request) (c : Accessor) : Accessor :=
  match a, r.member, c with
  | .struct v, .field name, .cppVector c =>
    .struct { v with
      mCppVectorSGetters := fun i =>
        if (CVariableOfStruct.GetIndexByName v.mStructInfo name).map Prod.fst = some i then some c
        else v.mCppVectorSGetters i }
  | .cppVector v, .element index, .cppVector c =>
    .cppVector { v with
      mCppVectorSGetters := Function.update v.mCppVectorSGetters index
        ((v.mCppVectorSGetters index).map fun e => (e.1, c)) }
  | _, _, _ => a

/-- Requests one after the other, each to the accessor that the one before it has got. An accessor
that is not the interface that was asked for is used as that interface. -/
def ask (a : Accessor) (r : Request) : List Request → Accessor × Except Failure (SGetter × Accessor)
  | [] => a.request r
  | r' :: rs =>
    match a.request r with
    | (a', .error e) => (a', .error e)
    | (a', .ok (sGetter, c)) =>
      if sGetter = r.sGetter then
        let p := ask c r' rs
        (a'.put r p.1, p.2)
      else (a', .error .wild)

def Rebox : Accessor → UInt32 → Accessor
  | .struct v, p => .struct (v.Rebox p)
  | .cppVector v, p => .cppVector (v.Rebox p)

/-- A new variable of the type over a buffer. -/
def create (t : TypeInfo) (buf : UInt32) (isAlloc : Bool) : Option Accessor :=
  match t with
  | .other _ => none
  | .struct _ fields => some (.struct (.create fields buf isAlloc))
  | .cppVector _ length element => some (.cppVector (.create element length buf))

end Accessor

/-- A call of `Rebox`, or requests for an accessor to a member of a member and so on. -/
inductive Op
  | Rebox (localVariablePtr : UInt32)
  | ask (r : Request) (rs : List Request)

/-- One call; undefined when a method is called through a wrong pointer. -/
def step (s : Accessor) : Op → Option Accessor
  | .Rebox p => some (s.Rebox p)
  | .ask r rs =>
    match (s.ask r rs).2 with
    | .error .wild => none
    | _ => some (s.ask r rs).1

/-! ### What is claimed -/

/-- The offset and the type of a member. -/
def TypeInfo.memberAt : TypeInfo → Member → Option (ℕ × TypeInfo)
  | .struct _ fields, .field name =>
    (CVariableOfStruct.GetIndexByName fields name).map fun f => (f.2.1.toNat, f.2.2)
  | .cppVector _ length element, .element index =>
    if 0 ≤ index ∧ index < length then some (element.size.toNat * index.toInt.toNat, element)
    else none
  | _, _ => none

/-- The offset and the type of a member of a member and so on. -/
def TypeInfo.path : TypeInfo → List Member → Option (ℕ × TypeInfo)
  | t, [] => some (0, t)
  | t, m :: ms => (t.memberAt m).bind fun p => (p.2.path ms).map fun q => (p.1 + q.1, q.2)

/-- Fields are inside their structs and elements inside their vectors. -/
inductive TypeInfo.Inside : TypeInfo → Prop
  | other (size : UInt32) : Inside (.other size)
  | struct {mSize : UInt32} {fields : List Field}
    (h : ∀ f ∈ fields, f.2.1.toNat + f.2.2.size.toNat ≤ mSize.toNat)
    (hfields : ∀ f ∈ fields, f.2.2.Inside) : Inside (.struct mSize fields)
  | cppVector {mSize : UInt32} {length : Int32} {element : TypeInfo}
    (h : element.size.toNat * length.toInt.toNat ≤ mSize.toNat) (helement : element.Inside) :
    Inside (.cppVector mSize length element)

/-- The accessor is one for the type, and reads and writes from the address on. -/
def Accessor.IsOver : Accessor → TypeInfo → UInt32 → Prop
  | .struct v, .struct _ fields, a => v.mStructInfo = fields ∧ v.mVarBuf = a
  | .cppVector v, .cppVector _ length element, a =>
    v.element = element ∧ v.mLength = length ∧ v.mVarPtr = a
  | _, _, _ => False

/-- The buffer that was given to `Rebox` last. -/
def lastBuffer : UInt32 → List Op → UInt32
  | buf, [] => buf
  | buf, .Rebox p :: ops => lastBuffer (if p = 0 then buf else p) ops
  | buf, .ask _ _ :: ops => lastBuffer buf ops

/-- What a request hands out is the interface that was asked for, of an accessor in the buffer at
the offset of the member; and that is inside where the layout of the type is right. -/
def AnswersRight (t : TypeInfo) (buf : UInt32) (s : Accessor) (r : Request) (rs : List Request) :
    Prop :=
  (s.ask r rs).2 ≠ .error .wild ∧
    ∀ sGetter c, (s.ask r rs).2 = .ok (sGetter, c) →
      sGetter = ((r :: rs).getLast (List.cons_ne_nil r rs)).sGetter ∧
        ∃ off m, t.path ((r :: rs).map Request.member) = some (off, m) ∧
          c.IsOver m (buf + UInt32.ofNat off) ∧ (t.Inside → off + m.size.toNat ≤ t.size.toNat)

/-! ### When it holds -/

/-- The elements that have been asked for before are asked for as they were the first time. -/
def CVariableOfCppVector.AskedAlike : CVariableOfCppVector → List Request → Prop
  | _, [] => True
  | v, r :: rs =>
    match r.member, r.type with
    | .element index, .cppVector => ∀ first c, v.mCppVectorSGetters index = some (first, c) →
        first = r.sGetter ∧ c.AskedAlike rs
    | _, _ => True

def Accessor.AskedAlike : Accessor → List Request → Prop
  | .cppVector v, rs => v.AskedAlike rs
  | .struct _, [] => True
  | .struct v, r :: rs =>
    match r.member, r.type with
    | .field name, .cppVector => ∀ f c,
        CVariableOfStruct.GetIndexByName v.mStructInfo name = some f →
          v.mCppVectorSGetters f.1 = some c → c.AskedAlike rs
    | _, _ => True

/-- No accessor has been kept. -/
def Accessor.KeepsNone : Accessor → Prop
  | .struct v => ∀ i, v.mCppVectorSGetters i = none
  | .cppVector v => ∀ i, v.mCppVectorSGetters i = none

/-- The variable is one of a vector at the address. -/
def Accessor.IsVectorAt : Accessor → UInt32 → Prop
  | .struct _, _ => False
  | .cppVector v, p => v.mVarPtr = p

/-- The condition: where accessors are kept there is no `Rebox`, except of a vector to where it is,
and what is kept is asked for as it was the first time. -/
def Careful (s : Accessor) : Op → Prop
  | .Rebox p => p = 0 ∨ s.KeepsNone ∨ s.IsVectorAt p
  | .ask r rs => s.AskedAlike (r :: rs)

/-! ### What is kept -/

/-- A vector variable over an address whose kept accessors are over the addresses of the elements.
-/
inductive VectorSound : TypeInfo → UInt32 → CVariableOfCppVector → Prop
  | mk {mSize : UInt32} {length : Int32} {element : TypeInfo} {a : UInt32}
      {kept : Int32 → Option (SGetter × CVariableOfCppVector)}
      (hindex : ∀ i first c, kept i = some (first, c) → 0 ≤ i ∧ i < length)
      (hkept : ∀ i first c, kept i = some (first, c) →
        VectorSound element (a + element.size * i.toUInt32) c) :
      VectorSound (.cppVector mSize length element) a ⟨element, none, a, length, kept⟩

/-- The same of either variable. -/
def Accessor.Sound : Accessor → TypeInfo → UInt32 → Prop
  | .struct v, .struct _ fields, a => v.mStructInfo = fields ∧ v.mVarBuf = a ∧
      ∀ i c, v.mCppVectorSGetters i = some c →
        ∃ f, fields[i]? = some f ∧ VectorSound f.2.2 (a + f.2.1) c
  | .cppVector v, t, a => VectorSound t a v
  | _, _, _ => False

section Steps

variable {t m : TypeInfo} {a a' : Accessor} {buf : UInt32} {r : Request} {rs : List Request}
  {fields : List Field} {name : CarString} {sGetter : SGetter}

theorem Accessor.Sound.isOver (h : a.Sound t buf) : a.IsOver t buf := by
  rcases a with v | v
  · rcases t with size | ⟨mSize, fields⟩ | ⟨mSize, length, element⟩
    · exact h.elim
    · exact ⟨h.1, h.2.1⟩
    · exact h.elim
  · obtain ⟨-, -⟩ := h
    exact ⟨rfl, rfl, rfl⟩

theorem vectorSound_create (mSize : UInt32) (length : Int32) (element : TypeInfo) (a : UInt32) :
    VectorSound (.cppVector mSize length element) a (.create element length a) :=
  ⟨nofun, nofun⟩

/-- What is over a vector is no struct variable. -/
theorem VectorSound.not_sound_struct {c : CVariableOfCppVector} {v : CVariableOfStruct}
    {b : UInt32} (h : VectorSound t buf c) : ¬(Accessor.struct v).Sound t b := by
  obtain ⟨-, -⟩ := h
  exact id

theorem sound_create (mSize : UInt32) (fields : List Field) (a : UInt32) (isAlloc : Bool) :
    (Accessor.struct (.create fields a isAlloc)).Sound (.struct mSize fields) a :=
  ⟨rfl, rfl, nofun⟩

theorem askedAlike_create_cppVector (element : TypeInfo) (length : Int32) (a : UInt32)
    (rs : List Request) : (CVariableOfCppVector.create element length a).AskedAlike rs := by
  rcases rs with _ | ⟨⟨_ | _, _ | _, sGetter⟩, rs⟩
  · trivial
  · trivial
  · trivial
  · trivial
  · exact nofun

theorem askedAlike_create_struct (fields : List Field) (a : UInt32) (isAlloc : Bool)
    (rs : List Request) : (Accessor.struct (.create fields a isAlloc)).AskedAlike rs := by
  rcases rs with _ | ⟨⟨_ | _, _ | _, sGetter⟩, rs⟩
  · trivial
  · trivial
  · exact fun _ _ _ => nofun
  · trivial
  · trivial

theorem getElem?_of_GetIndexByName {f : ℕ × UInt32 × TypeInfo}
    (h : CVariableOfStruct.GetIndexByName fields name = some f) :
    fields[f.1]? = some (name, f.2) := by
  obtain ⟨⟨field, i⟩, hfind, rfl⟩ := Option.map_eq_some_iff.mp h
  have htest : decide (field.1 = name) = true := List.find?_some
    (p := fun f : Field × ℕ => decide (f.1.1 = name)) hfind
  have hname := of_decide_eq_true htest
  have hmem := List.mem_of_find?_eq_some hfind
  rw [← hname]
  exact List.mem_zipIdx_iff_getElem?.mp hmem

/-- What is right of the answer to one request: a failure that the caller gets to know, or the
accessor to the member, as the interface that was asked for. -/
def Served (t : TypeInfo) (buf : UInt32) (a' : Accessor) (r : Request) (rs : List Request)
    (x : Except Failure (SGetter × Accessor)) : Prop :=
  (∃ e, x = .error e ∧ e ≠ .wild) ∨
    ∃ c off m, x = .ok (r.sGetter, c) ∧ t.memberAt r.member = some (off, m) ∧
      c.Sound m (buf + UInt32.ofNat off) ∧ c.AskedAlike rs ∧
      ∀ c', c'.Sound m (buf + UInt32.ofNat off) → (a'.put r c').Sound t buf

theorem Served.ecode (ec : ECode) : Served t buf a' r rs (.error (.ecode ec)) :=
  .inl ⟨_, rfl, nofun⟩

/-- A struct that is a member. -/
theorem served_CreateVariableBox {mSize : UInt32} {off : ℕ} {addr : UInt32} (h : a.Sound t buf)
    (hmember : t.memberAt r.member = some (off, .struct mSize fields))
    (haddr : addr = buf + UInt32.ofNat off)
    (hput : ∀ v, a.put r (.struct v) = a) :
    Served t buf a r rs (CreateVariableBox fields addr r.sGetter) := by
  unfold CreateVariableBox
  split_ifs with hzero
  · exact .ecode _
  · refine .inr ⟨_, off, _, rfl, hmember, ?_, askedAlike_create_struct _ _ _ _, ?_⟩
    · rw [haddr]
      exact sound_create _ _ _ _
    · intro c' hc'
      rcases c' with v | v
      · rw [hput]
        exact h
      · exact nomatch hc'

theorem memberAt_field (mSize : UInt32) {f : ℕ × UInt32 × TypeInfo}
    (h : CVariableOfStruct.GetIndexByName fields name = some f) :
    (TypeInfo.struct mSize fields).memberAt (.field name) = some (f.2.1.toNat, f.2.2) := by
  rw [TypeInfo.memberAt, h]
  rfl

theorem served_structField {v : CVariableOfStruct} (h : (Accessor.struct v).Sound t buf) :
    Served t buf (.struct v) ⟨.field name, .struct, sGetter⟩ rs
      (v.GetStructFieldSGetter name sGetter) := by
  rcases t with size | ⟨mSize, fields⟩ | ⟨mSize, length, element⟩
  · exact h.elim
  · obtain ⟨rfl, rfl, -⟩ := id h
    unfold CVariableOfStruct.GetStructFieldSGetter
    split_ifs with hname
    · exact .ecode _
    · rcases hfind : CVariableOfStruct.GetIndexByName v.mStructInfo name with _ | ⟨i, mPos, m⟩
      · exact .ecode _
      · have hmember := memberAt_field mSize hfind
        rcases m with size | ⟨size, fields⟩ | ⟨size, length, element⟩
        · exact .ecode _
        · refine served_CreateVariableBox (r := ⟨.field name, .struct, sGetter⟩) h hmember ?_
            fun _ => rfl
          rw [UInt32.ofNat_toNat]
        · exact .ecode _
  · exact h.elim

/-- A variable in which an accessor has been put that is over the field. -/
theorem sound_keep {v : CVariableOfStruct} {mSize : UInt32} {f : ℕ × UInt32 × TypeInfo}
    (h : (Accessor.struct v).Sound (.struct mSize fields) buf)
    (hfind : CVariableOfStruct.GetIndexByName fields name = some f)
    {kept : ℕ → Option CVariableOfCppVector}
    (hkept : ∀ i c, kept i = some c → i = f.1 ∧ VectorSound f.2.2 (buf + f.2.1) c ∨
      v.mCppVectorSGetters i = some c) :
    (Accessor.struct { v with mCppVectorSGetters := kept }).Sound (.struct mSize fields) buf := by
  refine ⟨h.1, h.2.1, fun i c hc => ?_⟩
  rcases hkept i c hc with ⟨rfl, hsound⟩ | hold
  · exact ⟨_, getElem?_of_GetIndexByName hfind, hsound⟩
  · exact h.2.2 i c hold

/-- `AcquireCppVectorFieldSGetter` of a field that is a vector. -/
theorem AcquireCppVectorFieldSGetter_eq {v : CVariableOfStruct} {i : ℕ} {mPos size : UInt32}
    {length : Int32} {element : TypeInfo} (hname : name ≠ none)
    (hfind : CVariableOfStruct.GetIndexByName v.mStructInfo name =
      some (i, mPos, .cppVector size length element)) :
    v.AcquireCppVectorFieldSGetter name sGetter =
      match v.mCppVectorSGetters i with
      | some c => (v, .ok (sGetter, .cppVector c))
      | none =>
        let c := CVariableOfCppVector.create element length (v.mVarBuf + mPos)
        ({ v with mCppVectorSGetters := Function.update v.mCppVectorSGetters i (some c) },
          .ok (sGetter, .cppVector c)) := by
  rw [CVariableOfStruct.AcquireCppVectorFieldSGetter, if_neg hname, hfind]

/-- A vector that is handed out, and kept, for a field. -/
theorem served_kept {v : CVariableOfStruct} {mSize : UInt32} {f : ℕ × UInt32 × TypeInfo}
    {c : CVariableOfCppVector} {kept : ℕ → Option CVariableOfCppVector}
    (h : (Accessor.struct v).Sound (.struct mSize fields) buf)
    (hfind : CVariableOfStruct.GetIndexByName fields name = some f)
    (hkept : kept = Function.update v.mCppVectorSGetters f.1 (some c))
    (hc : VectorSound f.2.2 (buf + f.2.1) c) (hlike : c.AskedAlike rs) :
    (Accessor.struct { v with mCppVectorSGetters := kept }).Sound (.struct mSize fields) buf ∧
      Served (.struct mSize fields) buf (.struct { v with mCppVectorSGetters := kept })
        ⟨.field name, .cppVector, sGetter⟩ rs (.ok (sGetter, .cppVector c)) := by
  have hnat : UInt32.ofNat f.2.1.toNat = f.2.1 := UInt32.ofNat_toNat
  refine ⟨sound_keep h hfind fun i c' hc' => ?_, .inr ⟨_, _, _, rfl, memberAt_field _ hfind, ?_,
    hlike, ?_⟩⟩
  · rw [hkept, Function.update_apply] at hc'
    split_ifs at hc' with hi
    · exact .inl ⟨hi, Option.some.inj hc' ▸ hc⟩
    · exact .inr hc'
  · rw [hnat]
    exact hc
  · intro c' hc'
    rw [hnat] at hc'
    rcases c' with v' | v'
    · exact absurd hc' hc.not_sound_struct
    · refine sound_keep h hfind fun i c'' hc'' => ?_
      split_ifs at hc'' with hi
      · rw [h.1, hfind] at hi
        exact .inl ⟨(Option.some.inj hi).symm, Option.some.inj hc'' ▸ hc'⟩
      · rw [h.1, hfind] at hi
        have hne : i ≠ f.1 := fun heq => hi (congrArg some heq.symm)
        change kept i = some c'' at hc''
        rw [hkept, Function.update_of_ne hne] at hc''
        exact .inr hc''

theorem served_cppVectorField {v : CVariableOfStruct} (h : (Accessor.struct v).Sound t buf)
    (hlike : (Accessor.struct v).AskedAlike (⟨.field name, .cppVector, sGetter⟩ :: rs)) :
    let p := v.AcquireCppVectorFieldSGetter name sGetter
    (Accessor.struct p.1).Sound t buf ∧
      Served t buf (.struct p.1) ⟨.field name, .cppVector, sGetter⟩ rs p.2 := by
  rcases t with size | ⟨mSize, fields⟩ | ⟨mSize, length, element⟩
  · exact h.elim
  · obtain ⟨rfl, rfl, hall⟩ := id h
    by_cases hname : name = none
    · rw [CVariableOfStruct.AcquireCppVectorFieldSGetter, if_pos hname]
      exact ⟨h, .ecode _⟩
    rcases hfind : CVariableOfStruct.GetIndexByName v.mStructInfo name with
      _ | ⟨i, mPos, size | ⟨size, fields⟩ | ⟨size, length, element⟩⟩
    · rw [CVariableOfStruct.AcquireCppVectorFieldSGetter, if_neg hname, hfind]
      exact ⟨h, .ecode _⟩
    · rw [CVariableOfStruct.AcquireCppVectorFieldSGetter, if_neg hname, hfind]
      exact ⟨h, .ecode _⟩
    · rw [CVariableOfStruct.AcquireCppVectorFieldSGetter, if_neg hname, hfind]
      exact ⟨h, .ecode _⟩
    rw [AcquireCppVectorFieldSGetter_eq hname hfind]
    rcases hkept : v.mCppVectorSGetters i with _ | c
    · exact served_kept h hfind rfl (vectorSound_create _ _ _ _)
        (askedAlike_create_cppVector _ _ _ _)
    · obtain ⟨f, hf, hc⟩ := hall i c hkept
      obtain rfl := Option.some.inj (hf.symm.trans (getElem?_of_GetIndexByName hfind))
      refine served_kept h hfind ?_ hc (hlike _ c hfind hkept)
      rw [← hkept]
      exact (Function.update_eq_self _ _).symm
  · exact h.elim

theorem toUInt32_of_nonneg {i : Int32} (h : 0 ≤ i) : i.toUInt32 = UInt32.ofNat i.toInt.toNat := by
  have hnat : i.toUInt32.toNat = i.toInt.toNat := Int32.toNat_toUInt32_of_le h
  rw [← hnat, UInt32.ofNat_toNat]

/-- What the tests in front of an accessor to an element let through. -/
theorem memberAt_of_check {v : CVariableOfCppVector} {index : Int32} {isType : Bool}
    (h : VectorSound t buf v) (hcheck : v.check index isType = none) :
    t.memberAt (.element index) =
        some (v.element.size.toNat * index.toInt.toNat, v.element) ∧
      v.elementPtr index =
        buf + UInt32.ofNat (v.element.size.toNat * index.toInt.toNat) ∧ isType = true := by
  obtain ⟨hindex, hkept⟩ := h
  unfold CVariableOfCppVector.check at hcheck
  split_ifs at hcheck with hrange htype
  rw [not_or, Int32.not_lt, Int32.not_le] at hrange
  rw [not_or] at htype
  refine ⟨if_pos hrange, ?_, Bool.eq_true_of_not_eq_false htype.1⟩
  rw [CVariableOfCppVector.elementPtr, toUInt32_of_nonneg hrange.1, UInt32.ofNat_mul,
    UInt32.ofNat_toNat]

theorem served_structElement {v : CVariableOfCppVector} {index : Int32}
    (h : (Accessor.cppVector v).Sound t buf) :
    Served t buf (.cppVector v) ⟨.element index, .struct, sGetter⟩ rs
      (v.GetStructElementSGetter index sGetter) := by
  unfold CVariableOfCppVector.GetStructElementSGetter
  rcases hcheck : v.check index v.element.isStruct with _ | ec
  · obtain ⟨hmember, hptr, htype⟩ := memberAt_of_check h hcheck
    have hover : v.overwritten = none := by
      obtain ⟨-, -⟩ := h
      rfl
    rcases helement : v.element with size | ⟨mSize, fields⟩ | ⟨mSize, length, element⟩
    · rw [helement] at htype
      exact nomatch htype
    · rw [hover]
      rw [helement] at hmember hptr
      exact served_CreateVariableBox (r := ⟨.element index, .struct, sGetter⟩) h hmember hptr
        fun _ => rfl
    · rw [helement] at htype
      exact nomatch htype
  · exact .ecode _

/-- A variable in which an accessor has been put that is over the element. -/
theorem vectorSound_keep {v : CVariableOfCppVector} {index : Int32} (first : SGetter)
    {c : CVariableOfCppVector} (h : VectorSound t buf v)
    (hcheck : v.check index v.element.isCppVector = none)
    (hc : VectorSound v.element (v.elementPtr index) c) :
    VectorSound t buf { v with
      mCppVectorSGetters := Function.update v.mCppVectorSGetters index (some (first, c)) } := by
  obtain ⟨hindex, hkept⟩ := h
  refine ⟨fun i first' c' hc' => ?_, fun i first' c' hc' => ?_⟩
  · rw [Function.update_apply] at hc'
    split_ifs at hc' with hi
    · unfold CVariableOfCppVector.check at hcheck
      split_ifs at hcheck with hrange
      rw [not_or, Int32.not_lt, Int32.not_le] at hrange
      exact hi ▸ hrange
    · exact hindex i first' c' hc'
  · rw [Function.update_apply] at hc'
    split_ifs at hc' with hi
    · obtain ⟨-, rfl⟩ := Prod.mk.inj (Option.some.inj hc')
      rw [hi]
      exact hc
    · exact hkept i first' c' hc'

/-- A vector that is handed out, and kept, for an element. -/
theorem served_kept_element {v : CVariableOfCppVector} {index : Int32} {c : CVariableOfCppVector}
    {kept : Int32 → Option (SGetter × CVariableOfCppVector)} (h : VectorSound t buf v)
    (hcheck : v.check index v.element.isCppVector = none)
    (hkept : kept = Function.update v.mCppVectorSGetters index (some (sGetter, c)))
    (hc : VectorSound v.element (v.elementPtr index) c) (hlike : c.AskedAlike rs) :
    (Accessor.cppVector { v with mCppVectorSGetters := kept }).Sound t buf ∧
      Served t buf (.cppVector { v with mCppVectorSGetters := kept })
        ⟨.element index, .cppVector, sGetter⟩ rs (.ok (sGetter, .cppVector c)) := by
  obtain ⟨hmember, hptr, -⟩ := memberAt_of_check h hcheck
  have hsound := vectorSound_keep sGetter h hcheck hc
  rw [← hkept] at hsound
  refine ⟨hsound, .inr ⟨_, _, _, rfl, hmember, ?_, hlike, ?_⟩⟩
  · rw [← hptr]
    exact hc
  · intro c' hc'
    rw [← hptr] at hc'
    rcases c' with v' | v'
    · exact absurd hc' hc.not_sound_struct
    · change VectorSound t buf { v with
        mCppVectorSGetters := Function.update kept index ((kept index).map fun e => (e.1, v')) }
      rw [hkept, Function.update_idem, Function.update_self]
      exact vectorSound_keep _ h hcheck hc'

/-- `AcquireCppVectorSGetter` of an element that has not been asked for before. -/
theorem AcquireCppVectorSGetter_of_none {v : CVariableOfCppVector} {index : Int32} {mSize : UInt32}
    {length : Int32} {element : TypeInfo} (hcheck : v.check index v.element.isCppVector = none)
    (hover : v.overwritten = none) (helement : v.element = .cppVector mSize length element)
    (hkept : v.mCppVectorSGetters index = none) :
    v.AcquireCppVectorSGetter index sGetter =
      let c := CVariableOfCppVector.create element length (v.elementPtr index)
      ({ v with
          mCppVectorSGetters := Function.update v.mCppVectorSGetters index (some (sGetter, c)) },
        .ok (sGetter, .cppVector c)) := by
  rw [CVariableOfCppVector.AcquireCppVectorSGetter, hcheck, hkept, hover, helement]

theorem served_cppVectorElement {v : CVariableOfCppVector} {index : Int32}
    (h : (Accessor.cppVector v).Sound t buf)
    (hlike : v.AskedAlike (⟨.element index, .cppVector, sGetter⟩ :: rs)) :
    let p := v.AcquireCppVectorSGetter index sGetter
    (Accessor.cppVector p.1).Sound t buf ∧
      Served t buf (.cppVector p.1) ⟨.element index, .cppVector, sGetter⟩ rs p.2 := by
  rcases hcheck : v.check index v.element.isCppVector with _ | ec
  · have hover : v.overwritten = none := by
      obtain ⟨-, -⟩ := h
      rfl
    rcases hkept : v.mCppVectorSGetters index with _ | ⟨first, c⟩
    · obtain ⟨-, -, htype⟩ := memberAt_of_check h hcheck
      rcases helement : v.element with size | ⟨mSize, fields⟩ | ⟨mSize, length, element⟩
      · rw [helement] at htype
        exact nomatch htype
      · rw [helement] at htype
        exact nomatch htype
      · have hnew := vectorSound_create mSize length element (v.elementPtr index)
        rw [← helement] at hnew
        rw [AcquireCppVectorSGetter_of_none hcheck hover helement hkept]
        exact served_kept_element h hcheck rfl hnew (askedAlike_create_cppVector _ _ _ _)
    · obtain ⟨rfl, hrest⟩ := hlike first c hkept
      have hsame : v.mCppVectorSGetters =
          Function.update v.mCppVectorSGetters index (some (first, c)) := by
        rw [← hkept, Function.update_eq_self]
      have hc : VectorSound v.element (v.elementPtr index) c := by
        obtain ⟨-, hall⟩ := h
        exact hall index first c hkept
      have hserved := served_kept_element h hcheck hsame hc hrest
      rw [CVariableOfCppVector.AcquireCppVectorSGetter, hcheck, hkept]
      cases v
      exact hserved
  · rw [CVariableOfCppVector.AcquireCppVectorSGetter, hcheck]
    exact ⟨h, .ecode _⟩

/-- **One request** to a variable that has kept what it should. -/
theorem served_request (h : a.Sound t buf) (hlike : a.AskedAlike (r :: rs)) :
    (a.request r).1.Sound t buf ∧ Served t buf (a.request r).1 r rs (a.request r).2 := by
  have hno : Served t buf a r rs (.error .noMethod) := .inl ⟨_, rfl, nofun⟩
  rcases a with v | v
  · rcases r with ⟨name | index, _ | _, sGetter⟩
    · exact ⟨h, served_structField h⟩
    · exact served_cppVectorField h hlike
    · exact ⟨h, hno⟩
    · exact ⟨h, hno⟩
  · rcases r with ⟨name | index, _ | _, sGetter⟩
    · exact ⟨h, hno⟩
    · exact ⟨h, hno⟩
    · exact ⟨h, served_structElement h⟩
    · exact served_cppVectorElement h hlike

/-! ### Paths -/

/-- **Requests along a path.** -/
theorem ask_sound (h : a.Sound t buf) (hlike : a.AskedAlike (r :: rs)) :
    (a.ask r rs).1.Sound t buf ∧ (a.ask r rs).2 ≠ .error .wild ∧
      ∀ sGetter c, (a.ask r rs).2 = .ok (sGetter, c) →
        sGetter = ((r :: rs).getLast (List.cons_ne_nil r rs)).sGetter ∧
          ∃ off m, t.path ((r :: rs).map Request.member) = some (off, m) ∧
            c.Sound m (buf + UInt32.ofNat off) := by
  induction rs generalizing a r t buf with
  | nil =>
    obtain ⟨hsound, ⟨e, he, hwild⟩ | ⟨c, off, m, hok, hmember, hc, -, -⟩⟩ := served_request h hlike
    · change _ ∧ (a.request r).2 ≠ _ ∧ ∀ sGetter c, (a.request r).2 = _ → _
      rw [he]
      exact ⟨hsound, fun heq => hwild (Except.error.inj heq), fun _ _ h => nomatch h⟩
    · change _ ∧ (a.request r).2 ≠ _ ∧ ∀ sGetter c, (a.request r).2 = _ → _
      rw [hok]
      refine ⟨hsound, nofun, fun sGetter c' hc' => ?_⟩
      obtain ⟨rfl, rfl⟩ := Prod.mk.inj (Except.ok.inj hc')
      refine ⟨rfl, off, m, ?_, hc⟩
      rw [List.map_cons, TypeInfo.path, hmember]
      rfl
  | cons r' rs ih =>
    obtain ⟨hsound, ⟨e, he, hwild⟩ | ⟨c, off, m, hok, hmember, hc, hrest, hput⟩⟩ :=
      served_request h hlike
    · have hask : a.ask r (r' :: rs) = ((a.request r).1, .error e) := by
        rw [Accessor.ask, ← Prod.mk.eta (p := a.request r), he]
      rw [hask]
      exact ⟨hsound, fun heq => hwild (Except.error.inj heq), fun _ _ h => nomatch h⟩
    · have hask : a.ask r (r' :: rs) =
          ((a.request r).1.put r (c.ask r' rs).1, (c.ask r' rs).2) := by
        rw [Accessor.ask, ← Prod.mk.eta (p := a.request r), hok]
        exact if_pos rfl
      rw [hask]
      obtain ⟨hsound', hwild, hall⟩ := ih hc hrest
      refine ⟨hput _ hsound', hwild, fun sGetter c' hc' => ?_⟩
      obtain ⟨hsGetter, off', m', hpath, hc''⟩ := hall sGetter c' hc'
      refine ⟨hsGetter, off + off', m', ?_, ?_⟩
      · rw [List.map_cons, TypeInfo.path, hmember]
        change ((m.path _).map _) = _
        rw [hpath]
        rfl
      · rw [UInt32.ofNat_add, ← UInt32.add_assoc]
        exact hc''

/-! ### Layouts -/

theorem inside_memberAt (h : t.Inside) {member : Member} {off : ℕ}
    (hmember : t.memberAt member = some (off, m)) :
    m.Inside ∧ off + m.size.toNat ≤ t.size.toNat := by
  cases h with
  | other size => exact nomatch hmember
  | @struct mSize fields hfit hfields =>
    rcases member with name | index
    · obtain ⟨f, hfind, heq⟩ := Option.map_eq_some_iff.mp hmember
      obtain ⟨rfl, rfl⟩ := Prod.mk.inj heq
      have hmem := List.mem_of_getElem? (getElem?_of_GetIndexByName hfind)
      exact ⟨hfields _ hmem, hfit _ hmem⟩
    · exact nomatch hmember
  | @cppVector mSize length element hfit helement =>
    rcases member with name | index
    · exact nomatch hmember
    · rw [TypeInfo.memberAt] at hmember
      split_ifs at hmember with hindex
      obtain ⟨rfl, rfl⟩ := Prod.mk.inj (Option.some.inj hmember)
      refine ⟨helement, ?_⟩
      have h0 := Int32.le_iff_toInt_le.mp hindex.1
      have hlt := Int32.lt_iff_toInt_lt.mp hindex.2
      change 0 ≤ index.toInt at h0
      have hnext : index.toInt.toNat + 1 ≤ length.toInt.toNat := by omega
      have hmul := Nat.mul_le_mul_left element.size.toNat hnext
      rw [Nat.mul_succ] at hmul
      exact hmul.trans hfit

/-- Members of members are inside. -/
theorem inside_path (h : t.Inside) {members : List Member} {off : ℕ}
    (hpath : t.path members = some (off, m)) : off + m.size.toNat ≤ t.size.toNat := by
  induction members generalizing t off with
  | nil =>
    obtain ⟨rfl, rfl⟩ := Prod.mk.inj (Option.some.inj hpath)
    rw [Nat.zero_add]
  | cons member members ih =>
    obtain ⟨⟨off₁, m₁⟩, hmember, hrest⟩ := Option.bind_eq_some_iff.mp hpath
    obtain ⟨⟨off₂, m₂⟩, hpath', heq⟩ := Option.map_eq_some_iff.mp hrest
    obtain ⟨rfl, rfl⟩ := Prod.mk.inj heq
    obtain ⟨hin, hle⟩ := inside_memberAt h hmember
    have hle' := ih hin hpath'
    change off₁ + off₂ + _ ≤ _
    change off₂ + _ ≤ m₁.size.toNat at hle'
    omega

/-! ### Types whose structs have been laid out -/

mutual

/-- What variables see of a type, when its infos can be made. -/
def TypeInfo.ofLayout (B : AlignBuild) : StructLayout.TypeInfo → TypeInfo
  | .plain type _ => .other type.size
  | .struct mName fields =>
    match (fields.build B).bind (StructLayout.InitFieldElement B mName) with
    | .ok s => .struct s.mSize
        (List.zipWith (fun d t => (d.mName, d.mPos, t)) s.mStructFieldDesc (ofFields B fields))
    | .error _ => .other 0
  | .cppVector element length =>
    match (StructLayout.TypeInfo.cppVector element length).build B with
    | .ok info => .cppVector (info.size.getD 0) length (ofLayout B element)
    | .error _ => .other 0
  | .arrayOf _ => .other 0

def TypeInfo.ofFields (B : AlignBuild) : StructLayout.FieldList → List TypeInfo
  | .nil => []
  | .cons _ type fields => ofLayout B type :: ofFields B fields

end

mutual

/-- The sizes of the vectors in the type are below `2^32`. -/
def VectorsFit (B : AlignBuild) : StructLayout.TypeInfo → Prop
  | .plain _ _ => True
  | .struct _ fields => FieldVectorsFit B fields
  | .cppVector element length => VectorsFit B element ∧
    (TypeInfo.ofLayout B element).size.toNat * length.toInt.toNat < 4294967296
  | .arrayOf _ => True

def FieldVectorsFit (B : AlignBuild) : StructLayout.FieldList → Prop
  | .nil => True
  | .cons _ type fields => VectorsFit B type ∧ FieldVectorsFit B fields

end

/-- A product that does not wrap; of a negative length the elements take no room. -/
theorem le_toNat_mul_toUInt32 {size : UInt32} {length : Int32}
    (h : size.toNat * length.toInt.toNat < 4294967296) :
    size.toNat * length.toInt.toNat ≤ (size * length.toUInt32).toNat := by
  by_cases hlength : 0 ≤ length
  · have hlt := length.toInt_lt
    have hnat : (UInt32.ofNat length.toInt.toNat).toNat = length.toInt.toNat :=
      UInt32.toNat_ofNat_of_lt' (by change length.toInt.toNat < 4294967296; omega)
    rw [toUInt32_of_nonneg hlength, UInt32.toNat_mul, hnat, Nat.mod_eq_of_lt h]
  · have hneg : length.toInt < 0 := Int32.lt_iff_toInt_lt.mp (Int32.not_le.mp hlength)
    rw [Int.toNat_of_nonpos hneg.le, Nat.mul_zero]
    exact Nat.zero_le _

/-- Fields that have the types and sizes of their descriptors are where these say. -/
theorem inside_zipWith {types : List TypeInfo} {infos : List StructLayout.Info}
    {descs : List StructFieldDesc} {B : AlignBuild} {S : ℕ}
    (htypes : List.Forall₂ (fun t info => t.Inside ∧ t.size = info.size.getD 0) types infos)
    (hplaced : List.Forall₂ (StructLayout.Placed B) infos descs)
    (hinside : ∀ d ∈ descs, d.mPos.toNat + d.mSize.toNat ≤ S) :
    ∀ f ∈ List.zipWith (fun d t => (d.mName, d.mPos, t)) descs types,
      f.2.1.toNat + f.2.2.size.toNat ≤ S ∧ f.2.2.Inside := by
  induction htypes generalizing descs with
  | nil =>
    cases hplaced
    exact fun f hf => (List.not_mem_nil hf).elim
  | @cons t info types infos ht htypes ih =>
    obtain - | ⟨hd, hplaced⟩ := hplaced
    obtain ⟨hfirst, hrest⟩ := List.forall_mem_cons.mp hinside
    refine List.forall_mem_cons.mpr ⟨⟨?_, ht.1⟩, ih hplaced hrest⟩
    rw [ht.2, hd.2.1]
    exact hfirst

mutual

/-- **Layouts that are right** have their members inside. -/
theorem inside_ofLayout {B : AlignBuild} : (t : StructLayout.TypeInfo) → t.Right B →
    VectorsFit B t → (TypeInfo.ofLayout B t).Inside ∧
      ∀ info, t.build B = .ok info → (TypeInfo.ofLayout B t).size = info.size.getD 0
  | .plain type h, _, _ => by
    refine ⟨.other _, fun info hinfo => ?_⟩
    obtain rfl := Except.ok.inj hinfo
    rfl
  | .struct mName fields, ⟨hfields, infos, s, hbuild, hinit, hlaid⟩, hfit => by
    have hof : TypeInfo.ofLayout B (.struct mName fields) = .struct s.mSize
        (List.zipWith (fun d t => (d.mName, d.mPos, t)) s.mStructFieldDesc
          (TypeInfo.ofFields B fields)) := by
      have hs : (fields.build B).bind (StructLayout.InitFieldElement B mName) = .ok s := by
        rw [hbuild]
        exact hinit
      rw [TypeInfo.ofLayout, hs]
    have hall := inside_zipWith (inside_ofFields fields hfields hfit infos hbuild) hlaid.placed
      fun d hd => (hlaid.laid.inside d hd).2
    rw [hof]
    refine ⟨.struct (fun f hf => (hall f hf).1) fun f hf => (hall f hf).2, fun info hinfo => ?_⟩
    rw [StructLayout.TypeInfo.build, hbuild] at hinfo
    change (StructLayout.InitFieldElement B mName infos).map _ = _ at hinfo
    rw [hinit] at hinfo
    obtain rfl := Except.ok.inj hinfo
    rfl
  | .cppVector element length, ⟨helement, info, hbuild⟩, ⟨hvectors, hfit⟩ => by
    obtain ⟨hinside, hsize⟩ := inside_ofLayout element helement hvectors
    obtain ⟨einfo, hebuild, -, -⟩ := element.good_of_right helement
    rw [hsize einfo hebuild] at hfit
    have hof : TypeInfo.ofLayout B (.cppVector element length) =
        .cppVector (info.size.getD 0) length (TypeInfo.ofLayout B element) := by
      rw [TypeInfo.ofLayout, hbuild]
    rw [hof]
    refine ⟨.cppVector ?_ hinside, fun info' hinfo' => ?_⟩
    · rw [StructLayout.build_cppVector hebuild] at hbuild
      rw [hsize einfo hebuild]
      rcases hesize : einfo.size with _ | size
      · exact (Nat.zero_mul _).trans_le (Nat.zero_le _)
      · rw [hesize] at hbuild hfit
        obtain rfl := Except.ok.inj hbuild
        exact le_toNat_mul_toUInt32 hfit
    · rw [hbuild] at hinfo'
      rw [Except.ok.inj hinfo']
      rfl
  | .arrayOf element, _, _ => by
    refine ⟨.other _, fun info hinfo => ?_⟩
    rw [StructLayout.TypeInfo.build] at hinfo
    rcases hbuild : element.build B with e | einfo
    · rw [hbuild] at hinfo
      exact nomatch hinfo
    · rw [hbuild] at hinfo
      obtain rfl := Except.ok.inj hinfo
      rfl

theorem inside_ofFields {B : AlignBuild} : (fields : StructLayout.FieldList) → fields.Right B →
    FieldVectorsFit B fields → ∀ infos, fields.build B = .ok infos →
      List.Forall₂ (fun t info => t.Inside ∧ t.size = info.size.getD 0) (TypeInfo.ofFields B fields)
        (infos.map Prod.snd)
  | .nil, _, _ => by
    intro infos hinfos
    obtain rfl := Except.ok.inj hinfos
    exact .nil
  | .cons name type fields, ⟨htype, hfields⟩, ⟨hvectors, hfit⟩ => by
    intro infos hinfos
    obtain ⟨info, hbuild, -, -⟩ := type.good_of_right htype
    obtain ⟨rest, hrest, -⟩ := fields.good_of_right hfields
    rw [StructLayout.FieldList.build, hbuild] at hinfos
    change (fields.build B).map _ = _ at hinfos
    rw [hrest] at hinfos
    obtain rfl := Except.ok.inj hinfos
    obtain ⟨hinside, hsize⟩ := inside_ofLayout type htype hvectors
    exact .cons ⟨hinside, hsize info hbuild⟩ (inside_ofFields fields hfields hfit rest hrest)

end

/-! ### Runs -/

theorem answersRight_of_sound (h : a.Sound t buf) (hlike : a.AskedAlike (r :: rs)) :
    AnswersRight t buf a r rs := by
  obtain ⟨-, hwild, hall⟩ := ask_sound h hlike
  refine ⟨hwild, fun sGetter c hc => ?_⟩
  obtain ⟨hsGetter, off, m, hpath, hsound⟩ := hall sGetter c hc
  exact ⟨hsGetter, off, m, hpath, hsound.isOver, fun hin => inside_path hin hpath⟩

theorem sound_Rebox (h : a.Sound t buf) {p : UInt32} (hcareful : Careful a (.Rebox p)) :
    (a.Rebox p).Sound t (if p = 0 then buf else p) := by
  by_cases hp : p = 0
  · rw [if_pos hp]
    rcases a with v | v
    · rw [Accessor.Rebox, CVariableOfStruct.Rebox, if_pos hp]
      exact h
    · rw [Accessor.Rebox, CVariableOfCppVector.Rebox, if_pos hp]
      exact h
  · rw [if_neg hp]
    rcases a with v | v
    · have hnone := (hcareful.resolve_left hp).resolve_right id
      rw [Accessor.Rebox, CVariableOfStruct.Rebox, if_neg hp]
      rcases t with size | ⟨mSize, fields⟩ | ⟨mSize, length, element⟩
      · exact h.elim
      · refine ⟨h.1, rfl, fun i c hc => ?_⟩
        change (v.mCppVectorSGetters i).bind _ = some c at hc
        rw [hnone i] at hc
        exact nomatch hc
      · exact h.elim
    · rw [Accessor.Rebox, CVariableOfCppVector.Rebox, if_neg hp]
      obtain ⟨hindex, hkept⟩ := h
      rcases hcareful.resolve_left hp with hnone | rfl
      · refine ⟨fun i first c hc => ?_, fun i first c hc => ?_⟩
        · exact nomatch (hnone i).symm.trans hc
        · exact nomatch (hnone i).symm.trans hc
      · exact ⟨hindex, hkept⟩

/-- A run of careful calls goes through, and keeps what it should. -/
theorem exists_run_sound {ops : List Op} (h : a.Sound t buf)
    (hcareful : Trace.Meets step Careful a ops) :
    ∃ s, Trace.run step a ops = some s ∧ s.Sound t (lastBuffer buf ops) := by
  induction ops generalizing a buf with
  | nil => exact ⟨a, rfl, h⟩
  | cons op ops ih =>
    obtain ⟨hop, hrest⟩ := hcareful
    rcases op with p | ⟨r, rs⟩
    · obtain ⟨s, hrun, hs⟩ := ih (sound_Rebox h hop) (hrest _ rfl)
      exact ⟨s, (Trace.run_cons rfl).trans hrun, hs⟩
    · obtain ⟨hsound, hwild, -⟩ := ask_sound h hop
      have hstep : step a (.ask r rs) = some (a.ask r rs).1 := by
        rw [step]
        split
        · exact absurd ‹_› hwild
        · rfl
      obtain ⟨s, hrun, hs⟩ := ih hsound (hrest _ hstep)
      exact ⟨s, (Trace.run_cons hstep).trans hrun, hs⟩

end Steps

/-- **Accessors to members** in runs of careful calls. -/
theorem accessors_right {t : TypeInfo} {buf : UInt32} {isAlloc : Bool} {a : Accessor}
    (h : Accessor.create t buf isAlloc = some a) {ops : List Op}
    (hcareful : Trace.Meets step Careful a ops) :
    ∃ s, Trace.run step a ops = some s ∧
      ∀ r rs, Careful s (.ask r rs) → AnswersRight t (lastBuffer buf ops) s r rs := by
  have hsound : a.Sound t buf := by
    rcases t with size | ⟨mSize, fields⟩ | ⟨mSize, length, element⟩
    · exact nomatch h
    · obtain rfl := Option.some.inj h
      exact sound_create _ _ _ _
    · obtain rfl := Option.some.inj h
      exact vectorSound_create _ _ _ _
  obtain ⟨s, hrun, hs⟩ := exists_run_sound hsound hcareful
  exact ⟨s, hrun, fun r rs hlike => answersRight_of_sound hs hlike⟩

/-! ### Members of structs and vectors -/

/-- The name `v`. -/
private def nameV : CarString := some ⟨[118], by decide⟩

/-- `struct { Int32 v[2]; }`. -/
private def oneVector : TypeInfo := .struct 8 [(nameV, 0, .cppVector 8 2 (.other 4))]

/-- `Int32[2][3]`. -/
private def vectors : TypeInfo := .cppVector 24 2 (.cppVector 12 3 (.other 4))

private def askField (sGetter : SGetter) : Request := ⟨.field nameV, .cppVector, sGetter⟩

private def askElement (sGetter : SGetter) : Request := ⟨.element 0, .cppVector, sGetter⟩

theorem accessors_right_oneVector :
    ∃ s, Trace.run step (.struct (.create [(nameV, 0, .cppVector 8 2 (.other 4))] 0x1000 false))
        [.Rebox 0x2000, .ask (askField .setter) []] = some s ∧
      ∀ r rs, Careful s (.ask r rs) → AnswersRight oneVector 0x2000 s r rs :=
  accessors_right (rfl : Accessor.create oneVector 0x1000 false = some _)
    (.cons (.inr (.inl fun _ => rfl)) rfl (.cons (fun _ _ _ => nofun) rfl trivial))

/-- After `Rebox` of a struct or a vector, the accessors that it has kept are over the buffer
before; and the setter of an element of vectors is handed out as its getter. -/
theorem not_accessors_right :
    (∃ s, Trace.run step (.struct (.create [(nameV, 0, .cppVector 8 2 (.other 4))] 0x1000 false))
        [.ask (askField .setter) [], .Rebox 0x2000] = some s ∧
      ¬AnswersRight oneVector 0x2000 s (askField .setter) []) ∧
    (∃ s, Trace.run step (.cppVector (.create (.cppVector 12 3 (.other 4)) 2 0x1000))
        [.ask (askElement .setter) [], .Rebox 0x2000] = some s ∧
      ¬AnswersRight vectors 0x2000 s (askElement .setter) []) ∧
    ∃ s, Trace.run step (.cppVector (.create (.cppVector 12 3 (.other 4)) 2 0x1000))
        [.ask (askElement .setter) []] = some s ∧
      ¬AnswersRight vectors 0x1000 s (askElement .getter) [] := by
  refine ⟨⟨_, rfl, ?_⟩, ⟨_, rfl, ?_⟩, ⟨_, rfl, ?_⟩⟩
  · rintro ⟨-, h⟩
    obtain ⟨-, off, m, hpath, hover, -⟩ := h _ _ rfl
    obtain ⟨rfl, rfl⟩ := Prod.mk.inj (Option.some.inj hpath)
    exact absurd hover.2.2 (by decide)
  · rintro ⟨-, h⟩
    obtain ⟨-, off, m, hpath, hover, -⟩ := h _ _ rfl
    obtain ⟨rfl, rfl⟩ := Prod.mk.inj (Option.some.inj hpath)
    exact absurd hover.2.2 (by decide)
  · rintro ⟨-, h⟩
    exact absurd (h _ _ rfl).1 (by decide)

end ElastosCar.NestedAccessors
