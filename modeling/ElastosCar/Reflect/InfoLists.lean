import ElastosCar.Lib.Trace
import ElastosCar.Reflect.StructInfo

/-!
# The lists of dynamic type infos

`CObjInfoList` keeps the infos that were made for a request, each kind with a notion of its own of when
an info fits a later request:

* a `CCppVectorInfo` by its length and element info, and a `CCarArrayInfo` of structs by its element info;
* any other `CCarArrayInfo` by the *data type* of its elements alone;
* a `CStructInfo` by its name, and if its fields are others the request is refused;
* a `CEnumInfo` by its name and namespace, and if its items are others the request is refused, unless the
  name is empty: then the loop over the items goes on, and the info is taken as it is.

The namespace of an enum is what `Substring(0, index - 1)` leaves before the last dot; the end of
`Substring` is exclusive, so the last character is lost.

`identical_of_clean` says when every request of a history gets what it asked for.
-/

namespace ElastosCar

def E_DATAINFO_EXIST : ECode := 0x801E0000

/-- The characters of a `String`, or null. -/
abbrev CarText := Option (List Char)

/-- `LastIndexOf`, of a character or of a string of one. -/
def LastIndexOf (target : Char) : List Char → Option ℕ
  | [] => none
  | c :: s =>
    match LastIndexOf target s with
    | some index => some (index + 1)
    | none => if c = target then some 0 else none

/-- `Substring`; the end is exclusive. -/
def Substring (s : List Char) (start stop : ℕ) : List Char := (s.take stop).drop start

theorem lt_length_of_LastIndexOf {target : Char} {s : List Char} {index : ℕ}
    (h : LastIndexOf target s = some index) : index < s.length := by
  induction s generalizing index with
  | nil => cases h
  | cons c s ih =>
    rw [LastIndexOf] at h
    rw [List.length_cons]
    split at h
    · rename_i i hi
      have hlt := ih hi
      have heq := Option.some.inj h
      omega
    · have heq : 0 = index := by
        split at h
        · exact Option.some.inj h
        · cases h
      omega

namespace CObjInfoList

/-- An `IDataTypeInfo *`: one of the infos below, by its address, or another. -/
inductive InfoRef
  | dynamic (dataType : CarDataType) (addr : ℕ)
  | other (dataType : CarDataType) (number : ℕ)
deriving DecidableEq, Repr

/-- `GetDataType`. -/
def InfoRef.dataType : InfoRef → CarDataType
  | dynamic dataType _ | other dataType _ => dataType

structure CCarArrayInfo where
  mElementTypeInfo : InfoRef
  mElementDataType : CarDataType
  mQuintetType : CarDataType
deriving DecidableEq, Repr

structure CCppVectorInfo where
  mElementTypeInfo : InfoRef
  mLength : UInt32
deriving DecidableEq, Repr

structure CStructInfo where
  mName : List Char
  mFieldNames : List CarText
  mFieldTypeInfos : List InfoRef
deriving DecidableEq, Repr

structure CEnumInfo where
  mName : List Char
  mNamespace : List Char
  mItemNames : List CarText
  mItemValues : List UInt32
deriving DecidableEq, Repr

/-- An info object: its address, and what it was made with. -/
structure InfoObj (α : Type) where
  addr : ℕ
  info : α
deriving DecidableEq, Repr

def InfoObj.map {α β : Type} (f : α → β) (obj : InfoObj α) : InfoObj β := ⟨obj.addr, f obj.info⟩

/-- The info objects of the four kinds. -/
inductive Info
  | carArray (info : CCarArrayInfo)
  | cppVector (info : CCppVectorInfo)
  | struct (info : CStructInfo)
  | enum (info : CEnumInfo)
deriving DecidableEq, Repr

end CObjInfoList

open CObjInfoList in
/-- The lists of `CObjInfoList` that the four functions use. An address stands for one object: memory that
was freed and is used again counts as another address. -/
structure CObjInfoList where
  mCarArrayInfos : CarDataType → Option (InfoObj CCarArrayInfo) := fun _ => none
  mCarArrayInfoHead : List (InfoObj CCarArrayInfo) := []
  mCCppVectorHead : List (InfoObj CCppVectorInfo) := []
  mStructInfoHead : List (InfoObj CObjInfoList.CStructInfo) := []
  mEnumInfoHead : List (InfoObj CEnumInfo) := []
  /-- The address of the next object. -/
  heap : ℕ := 0

namespace CObjInfoList

/-! ### The four functions -/

section Acquire

variable (s : CObjInfoList) (oom : Bool)

/-- `AcquireCarArrayInfo`; `oom` says that the allocation fails. -/
def AcquireCarArrayInfo (quintetType : CarDataType) (elementTypeInfo : Option InfoRef) :
    ECode × Option (InfoObj CCarArrayInfo) × CObjInfoList :=
  match elementTypeInfo with
  | none => (E_INVALID_ARGUMENT, none, s)
  | some element =>
    let dataType := element.dataType
    if quintetType ≠ .arrayOf then (E_INVALID_ARGUMENT, none, s)
    else if dataType ≠ .struct then
      match s.mCarArrayInfos dataType with
      | some obj => (NOERROR, some obj, s)
      | none =>
        if oom then (E_OUT_OF_MEMORY, none, s)
        else
          let obj := ⟨s.heap, element, dataType, quintetType⟩
          (NOERROR, some obj,
            { s with
              mCarArrayInfos := Function.update s.mCarArrayInfos dataType (some obj)
              heap := s.heap + 1 })
    else
      match s.mCarArrayInfoHead.find? fun node => node.info.mElementTypeInfo = element with
      | some obj => (NOERROR, some obj, s)
      | none =>
        if oom then (E_OUT_OF_MEMORY, none, s)
        else
          -- The data type is the default of the constructor's last parameter.
          let obj := ⟨s.heap, element, .struct, quintetType⟩
          (NOERROR, some obj,
            { s with mCarArrayInfoHead := obj :: s.mCarArrayInfoHead, heap := s.heap + 1 })

/-- `AcquireCppVectorInfo`. -/
def AcquireCppVectorInfo (elementTypeInfo : Option InfoRef) (length : UInt32) :
    ECode × Option (InfoObj CCppVectorInfo) × CObjInfoList :=
  match elementTypeInfo with
  | none => (E_INVALID_ARGUMENT, none, s)
  | some element =>
    match s.mCCppVectorHead.find? fun node =>
      node.info.mLength = length ∧ node.info.mElementTypeInfo = element with
    | some obj => (NOERROR, some obj, s)
    | none =>
      if oom then (E_OUT_OF_MEMORY, none, s)
      else
        let obj := ⟨s.heap, element, length⟩
        (NOERROR, some obj, { s with mCCppVectorHead := obj :: s.mCCppVectorHead, heap := s.heap + 1 })

/-- The loops over two lists of pairs of the same length. -/
def sameItems {α β : Type} [DecidableEq α] [DecidableEq β] (as as' : List α) (bs bs' : List β) : Bool :=
  ((as.zip bs).zip (as'.zip bs')).all fun p => p.1.1 = p.2.1 ∧ p.1.2 = p.2.2

/-- `AcquireDynamicStructInfo`. -/
def AcquireDynamicStructInfo (name : CarText) (fieldNames : Option (List CarText))
    (fieldTypeInfos : Option (List InfoRef)) :
    ECode × Option (InfoObj CObjInfoList.CStructInfo) × CObjInfoList :=
  match name, fieldNames, fieldTypeInfos with
  | some name, some fieldNames, some fieldTypeInfos =>
    if name = [] ∨ fieldNames.length ≠ fieldTypeInfos.length then (E_INVALID_ARGUMENT, none, s)
    else
      match s.mStructInfoHead.find? fun node => name = node.info.mName with
      | some obj =>
        if obj.info.mFieldNames.length ≠ fieldNames.length then (E_DATAINFO_EXIST, none, s)
        else if sameItems fieldNames obj.info.mFieldNames fieldTypeInfos obj.info.mFieldTypeInfos then
          (NOERROR, some obj, s)
        else (E_DATAINFO_EXIST, none, s)
      | none =>
        if oom then (E_OUT_OF_MEMORY, none, s)
        else
          let obj := ⟨s.heap, name, fieldNames, fieldTypeInfos⟩
          (NOERROR, some obj, { s with mStructInfoHead := obj :: s.mStructInfoHead, heap := s.heap + 1 })
  | _, _, _ => (E_INVALID_ARGUMENT, none, s)

/-- The name and the namespace that `AcquireDynamicEnumInfo` looks for and `InitDynamic` sets. -/
def splitName (fullName : List Char) : List Char × List Char :=
  match LastIndexOf '.' fullName with
  | some (index + 1) => (Substring fullName (index + 2) fullName.length, Substring fullName 0 index)
  | some 0 | none => (fullName, [])

/-- The loop of `AcquireDynamicEnumInfo`: the info that is taken, or the error. -/
def findEnum (name nameSpace : List Char) (itemNames : List CarText) (itemValues : List UInt32) :
    List (InfoObj CEnumInfo) → Option (Except ECode (InfoObj CEnumInfo))
  | [] => none
  | node :: nodes =>
    if name = node.info.mName ∧ nameSpace = node.info.mNamespace then
      if node.info.mItemValues.length ≠ itemNames.length then
        if name ≠ [] then some (.error E_DATAINFO_EXIST)
        else findEnum name nameSpace itemNames itemValues nodes
      else if name ≠ [] ∧
          ¬sameItems itemNames node.info.mItemNames itemValues node.info.mItemValues then
        some (.error E_DATAINFO_EXIST)
      -- For an empty name the comparison goes on with the next item, whatever it finds.
      else some (.ok node)
    else findEnum name nameSpace itemNames itemValues nodes

/-- `AcquireDynamicEnumInfo`. -/
def AcquireDynamicEnumInfo (fullName : CarText) (itemNames : Option (List CarText))
    (itemValues : Option (List UInt32)) : ECode × Option (InfoObj CEnumInfo) × CObjInfoList :=
  match fullName, itemNames, itemValues with
  | some fullName, some itemNames, some itemValues =>
    if itemNames.length ≠ itemValues.length then (E_INVALID_ARGUMENT, none, s)
    else
      let (name, nameSpace) := splitName fullName
      match findEnum name nameSpace itemNames itemValues s.mEnumInfoHead with
      | some (.ok obj) => (NOERROR, some obj, s)
      | some (.error ec) => (ec, none, s)
      | none =>
        if oom then (E_OUT_OF_MEMORY, none, s)
        else
          let obj := ⟨s.heap, name, nameSpace, itemNames, itemValues⟩
          (NOERROR, some obj, { s with mEnumInfoHead := obj :: s.mEnumInfoHead, heap := s.heap + 1 })
  | _, _, _ => (E_INVALID_ARGUMENT, none, s)

end Acquire

/-- `DeleteInfoNode`. -/
def DeleteInfoNode {α : Type} (addr : ℕ) (head : List (InfoObj α)) : List (InfoObj α) :=
  head.eraseP fun node => node.addr = addr

/-- The last reference to an info is released: it takes itself out of the list of its kind
(`DetachStructInfo` and its siblings). The infos of `mCarArrayInfos` have a reference of the list's. -/
def detach (s : CObjInfoList) (addr : ℕ) : CObjInfoList :=
  { s with
    mCarArrayInfoHead := DeleteInfoNode addr s.mCarArrayInfoHead
    mCCppVectorHead := DeleteInfoNode addr s.mCCppVectorHead
    mStructInfoHead := DeleteInfoNode addr s.mStructInfoHead
    mEnumInfoHead := DeleteInfoNode addr s.mEnumInfoHead }

/-! ### Histories of requests -/

inductive Request
  | carArray (quintetType : CarDataType) (elementTypeInfo : Option InfoRef)
  | cppVector (elementTypeInfo : Option InfoRef) (length : UInt32)
  | struct (name : CarText) (fieldNames : Option (List CarText)) (fieldTypeInfos : Option (List InfoRef))
  | enum (fullName : CarText) (itemNames : Option (List CarText)) (itemValues : Option (List UInt32))
deriving DecidableEq, Repr

/-- The result of a request as an info of its kind. -/
def toInfo {α : Type} (kind : α → Info) (r : ECode × Option (InfoObj α) × CObjInfoList) :
    ECode × Option (InfoObj Info) × CObjInfoList :=
  (r.1, r.2.1.map (InfoObj.map kind), r.2.2)

def acquire (s : CObjInfoList) (oom : Bool) : Request → ECode × Option (InfoObj Info) × CObjInfoList
  | .carArray quintetType elementTypeInfo =>
    toInfo .carArray (s.AcquireCarArrayInfo oom quintetType elementTypeInfo)
  | .cppVector elementTypeInfo length =>
    toInfo .cppVector (s.AcquireCppVectorInfo oom elementTypeInfo length)
  | .struct name fieldNames fieldTypeInfos =>
    toInfo .struct (s.AcquireDynamicStructInfo oom name fieldNames fieldTypeInfos)
  | .enum fullName itemNames itemValues =>
    toInfo .enum (s.AcquireDynamicEnumInfo oom fullName itemNames itemValues)

inductive Call
  | acquire (request : Request) (oom : Bool)
  | released (addr : ℕ)
deriving DecidableEq, Repr

/-- The lists, and the requests that succeeded with what they got. -/
structure History where
  list : CObjInfoList := {}
  given : List (Request × InfoObj Info) := []

def History.step (h : History) : Call → Option History
  | .acquire request oom =>
    match h.list.acquire oom request with
    | (_, some obj, s) => some ⟨s, h.given ++ [(request, obj)]⟩
    | (_, none, s) => some ⟨s, h.given⟩
  | .released addr => some ⟨h.list.detach addr, h.given⟩

/-- The name and the namespace of an enum by its full name: what is behind the last dot and what is
before it. -/
def qualified (fullName : List Char) : List Char × List Char :=
  match LastIndexOf '.' fullName with
  | some (index + 1) => (fullName.drop (index + 2), fullName.take (index + 1))
  | some 0 | none => (fullName, [])

/-- The info that a request asks for. -/
def asked : Request → Option Info
  | .carArray quintetType (some element) => some (.carArray ⟨element, element.dataType, quintetType⟩)
  | .cppVector (some element) length => some (.cppVector ⟨element, length⟩)
  | .struct (some name) (some fieldNames) (some fieldTypeInfos) =>
    some (.struct ⟨name, fieldNames, fieldTypeInfos⟩)
  | .enum (some fullName) (some itemNames) (some itemValues) =>
    some (.enum ⟨(qualified fullName).1, (qualified fullName).2, itemNames, itemValues⟩)
  | _ => none

/-- What a history of requests is to give. -/
structure Identical (given : List (Request × InfoObj Info)) : Prop where
  /-- An info describes what was asked for. -/
  described : ∀ g ∈ given, asked g.1 = some g.2.info
  /-- Requests for different infos get different objects. -/
  apart : ∀ g ∈ given, ∀ g' ∈ given, asked g.1 ≠ asked g'.1 → g.2.addr ≠ g'.2.addr

/-- The lists have what the request asks for, or nothing that they would give for it. -/
def Serves (s : CObjInfoList) : Request → Prop
  | .carArray _ (some element) =>
    element.dataType ≠ .struct →
      ∀ obj, s.mCarArrayInfos element.dataType = some obj → obj.info.mElementTypeInfo = element
  | .enum (some fullName) (some itemNames) (some itemValues) =>
    (∀ index, LastIndexOf '.' fullName ≠ some (index + 1)) ∧
    (fullName = [] → ∀ obj, (s.mEnumInfoHead.find? fun node => [] = node.info.mName ∧
        [] = node.info.mNamespace ∧ node.info.mItemValues.length = itemNames.length) = some obj →
      obj.info.mItemNames = itemNames ∧ obj.info.mItemValues = itemValues)
  | _ => True

/-- The calls that get what they ask for. -/
def Clean (h : History) : Call → Prop
  | .acquire request _ => h.list.Serves request
  | .released _ => True

/-! ### Names and items -/

theorem splitName_eq_qualified_iff (fullName : List Char) :
    splitName fullName = qualified fullName ↔
      ∀ index, LastIndexOf '.' fullName ≠ some (index + 1) := by
  unfold splitName qualified
  split
  · rename_i index hindex
    have hlt := lt_length_of_LastIndexOf hindex
    constructor
    · intro heq
      -- The namespace has one character less.
      have hlen := congrArg (fun p => p.2.length) heq
      simp only [Substring, List.drop_zero, List.length_take] at hlen
      omega
    · intro hdot
      exact (hdot index hindex).elim
  · rename_i hindex
    rw [hindex]
    exact ⟨fun _ index h => (Nat.succ_ne_zero index (Option.some.inj h).symm).elim, fun _ => rfl⟩
  · rename_i hindex
    rw [hindex]
    exact ⟨fun _ index h => (Option.some_ne_none _ h.symm).elim, fun _ => rfl⟩

theorem splitName_of_no_dot {fullName : List Char}
    (h : ∀ index, LastIndexOf '.' fullName ≠ some (index + 1)) :
    splitName fullName = (fullName, []) ∧ qualified fullName = (fullName, []) := by
  unfold splitName qualified
  split
  · rename_i index hindex
    exact (h index hindex).elim
  all_goals exact ⟨rfl, rfl⟩

theorem sameItems_iff {α β : Type} [DecidableEq α] [DecidableEq β] {as as' : List α} {bs bs' : List β}
    (hlen : as.length = bs.length) (hlen' : as'.length = bs'.length) (hcount : as'.length = as.length) :
    sameItems as as' bs bs' = true ↔ as' = as ∧ bs' = bs := by
  unfold sameItems
  induction as generalizing as' bs bs' with
  | nil =>
    obtain rfl := List.eq_nil_of_length_eq_zero hcount
    obtain rfl := List.eq_nil_of_length_eq_zero hlen.symm
    obtain rfl := List.eq_nil_of_length_eq_zero hlen'.symm
    exact ⟨fun _ => ⟨rfl, rfl⟩, fun _ => rfl⟩
  | cons a as ih =>
    obtain ⟨b, bs, rfl⟩ := List.exists_cons_of_length_eq_add_one hlen.symm
    obtain ⟨a', as', rfl⟩ := List.exists_cons_of_length_eq_add_one hcount
    obtain ⟨b', bs', rfl⟩ := List.exists_cons_of_length_eq_add_one hlen'.symm
    simp only [List.length_cons, Nat.add_right_cancel_iff] at hlen hlen' hcount
    have hih := ih hlen hlen' hcount
    simp only [List.zip_cons_cons, List.all_cons, Bool.and_eq_true, decide_eq_true_eq, hih,
      List.cons.injEq]
    constructor
    · rintro ⟨⟨rfl, rfl⟩, rfl, rfl⟩
      exact ⟨⟨rfl, rfl⟩, rfl, rfl⟩
    · rintro ⟨⟨rfl, rfl⟩, rfl, rfl⟩
      exact ⟨⟨rfl, rfl⟩, rfl, rfl⟩

/-! ### The loop over the enums -/

section FindEnum

variable {name nameSpace : List Char} {itemNames : List CarText} {itemValues : List UInt32}
  {nodes : List (InfoObj CEnumInfo)} {obj : InfoObj CEnumInfo}

theorem findEnum_ok (h : findEnum name nameSpace itemNames itemValues nodes = some (.ok obj)) :
    obj ∈ nodes ∧ name = obj.info.mName ∧ nameSpace = obj.info.mNamespace ∧
      obj.info.mItemValues.length = itemNames.length ∧
      (name ≠ [] → sameItems itemNames obj.info.mItemNames itemValues obj.info.mItemValues = true) := by
  induction nodes with
  | nil => cases h
  | cons node nodes ih =>
    have hrest : findEnum name nameSpace itemNames itemValues nodes = some (.ok obj) →
        obj ∈ node :: nodes ∧ name = obj.info.mName ∧ nameSpace = obj.info.mNamespace ∧
          obj.info.mItemValues.length = itemNames.length ∧ (name ≠ [] →
            sameItems itemNames obj.info.mItemNames itemValues obj.info.mItemValues = true) := by
      intro h
      obtain ⟨hmem, hfound⟩ := ih h
      exact ⟨List.mem_cons_of_mem _ hmem, hfound⟩
    rw [findEnum] at h
    split at h
    · rename_i hname
      split at h
      · split at h
        · cases h
        · exact hrest h
      · rename_i hcount
        split at h
        · cases h
        · rename_i hitems
          obtain rfl := Except.ok.inj (Option.some.inj h)
          refine ⟨List.mem_cons_self, hname.1, hname.2, not_not.mp hcount, fun hne => ?_⟩
          by_contra hdiffer
          exact hitems ⟨hne, hdiffer⟩
    · exact hrest h

/-- Without a name the first enum with as many items is taken. -/
theorem findEnum_nil (nameSpace : List Char) (itemNames : List CarText) (itemValues : List UInt32)
    (nodes : List (InfoObj CEnumInfo)) :
    findEnum [] nameSpace itemNames itemValues nodes =
      (nodes.find? fun node => [] = node.info.mName ∧ nameSpace = node.info.mNamespace ∧
        node.info.mItemValues.length = itemNames.length).map .ok := by
  induction nodes with
  | nil => rfl
  | cons node nodes ih =>
    rw [findEnum, List.find?_cons]
    by_cases hname : [] = node.info.mName ∧ nameSpace = node.info.mNamespace
    · by_cases hcount : node.info.mItemValues.length = itemNames.length
      · have hp : [] = node.info.mName ∧ nameSpace = node.info.mNamespace ∧
            node.info.mItemValues.length = itemNames.length := ⟨hname.1, hname.2, hcount⟩
        rw [if_pos hname, if_neg (not_not.mpr hcount), if_neg fun h => h.1 rfl, decide_eq_true hp]
        rfl
      · rw [if_pos hname, if_pos hcount, if_neg (not_not.mpr rfl), ih,
          decide_eq_false fun hp => hcount hp.2.2]
    · rw [if_neg hname, ih, decide_eq_false fun hp => hname ⟨hp.1, hp.2.1⟩]

end FindEnum

/-! ### One request -/

/-- The infos of the lists are what the functions make. -/
structure Sound (s : CObjInfoList) : Prop where
  cached : ∀ dataType obj, s.mCarArrayInfos dataType = some obj →
    obj.info.mElementDataType = dataType ∧ obj.info.mQuintetType = .arrayOf
  arrays : ∀ obj ∈ s.mCarArrayInfoHead,
    obj.info.mElementDataType = .struct ∧ obj.info.mQuintetType = .arrayOf
  fields : ∀ obj ∈ s.mStructInfoHead, obj.info.mFieldNames.length = obj.info.mFieldTypeInfos.length
  items : ∀ obj ∈ s.mEnumInfoHead, obj.info.mItemNames.length = obj.info.mItemValues.length

/-- The info objects in the lists. -/
inductive Holds (s : CObjInfoList) : InfoObj Info → Prop
  | cached {dataType obj} (h : s.mCarArrayInfos dataType = some obj) : Holds s (obj.map .carArray)
  | carArray {obj} (h : obj ∈ s.mCarArrayInfoHead) : Holds s (obj.map .carArray)
  | cppVector {obj} (h : obj ∈ s.mCCppVectorHead) : Holds s (obj.map .cppVector)
  | struct {obj} (h : obj ∈ s.mStructInfoHead) : Holds s (obj.map .struct)
  | enum {obj} (h : obj ∈ s.mEnumInfoHead) : Holds s (obj.map .enum)

/-- The object is a new one, and the only one that the lists have more. -/
structure Adds (s : CObjInfoList) (x : InfoObj Info) (s' : CObjInfoList) : Prop where
  addr : x.addr = s.heap
  heap : s'.heap = s.heap + 1
  holds : ∀ y, s'.Holds y → y = x ∨ s.Holds y

/-- What a request does that succeeds. -/
structure Gives (s : CObjInfoList) (request : Request) (x : InfoObj Info) (s' : CObjInfoList) : Prop where
  sound : s'.Sound
  origin : s' = s ∧ s.Holds x ∨ s.Adds x s'
  described : asked request = some x.info ↔ s.Serves request

section Gives

variable {s s' : CObjInfoList} {oom : Bool} {ec : ECode}

theorem adds_cached (s : CObjInfoList) (dataType : CarDataType) (info : CCarArrayInfo) :
    s.Adds ⟨s.heap, .carArray info⟩
      { s with
        mCarArrayInfos := Function.update s.mCarArrayInfos dataType (some ⟨s.heap, info⟩)
        heap := s.heap + 1 } := by
  refine ⟨rfl, rfl, ?_⟩
  rintro y (hobj | hobj | hobj | hobj | hobj)
  · simp only [Function.update_apply] at hobj
    split at hobj
    · exact .inl (Option.some.inj hobj ▸ rfl)
    · exact .inr (.cached hobj)
  · exact .inr (.carArray hobj)
  · exact .inr (.cppVector hobj)
  · exact .inr (.struct hobj)
  · exact .inr (.enum hobj)

theorem adds_carArray (s : CObjInfoList) (info : CCarArrayInfo) :
    s.Adds ⟨s.heap, .carArray info⟩
      { s with mCarArrayInfoHead := ⟨s.heap, info⟩ :: s.mCarArrayInfoHead, heap := s.heap + 1 } := by
  refine ⟨rfl, rfl, ?_⟩
  rintro y (hobj | hobj | hobj | hobj | hobj)
  · exact .inr (.cached hobj)
  · rcases List.mem_cons.mp hobj with rfl | hobj
    · exact .inl rfl
    · exact .inr (.carArray hobj)
  · exact .inr (.cppVector hobj)
  · exact .inr (.struct hobj)
  · exact .inr (.enum hobj)

theorem adds_cppVector (s : CObjInfoList) (info : CCppVectorInfo) :
    s.Adds ⟨s.heap, .cppVector info⟩
      { s with mCCppVectorHead := ⟨s.heap, info⟩ :: s.mCCppVectorHead, heap := s.heap + 1 } := by
  refine ⟨rfl, rfl, ?_⟩
  rintro y (hobj | hobj | hobj | hobj | hobj)
  · exact .inr (.cached hobj)
  · exact .inr (.carArray hobj)
  · rcases List.mem_cons.mp hobj with rfl | hobj
    · exact .inl rfl
    · exact .inr (.cppVector hobj)
  · exact .inr (.struct hobj)
  · exact .inr (.enum hobj)

theorem adds_struct (s : CObjInfoList) (info : CObjInfoList.CStructInfo) :
    s.Adds ⟨s.heap, .struct info⟩
      { s with mStructInfoHead := ⟨s.heap, info⟩ :: s.mStructInfoHead, heap := s.heap + 1 } := by
  refine ⟨rfl, rfl, ?_⟩
  rintro y (hobj | hobj | hobj | hobj | hobj)
  · exact .inr (.cached hobj)
  · exact .inr (.carArray hobj)
  · exact .inr (.cppVector hobj)
  · rcases List.mem_cons.mp hobj with rfl | hobj
    · exact .inl rfl
    · exact .inr (.struct hobj)
  · exact .inr (.enum hobj)

theorem adds_enum (s : CObjInfoList) (info : CEnumInfo) :
    s.Adds ⟨s.heap, .enum info⟩
      { s with mEnumInfoHead := ⟨s.heap, info⟩ :: s.mEnumInfoHead, heap := s.heap + 1 } := by
  refine ⟨rfl, rfl, ?_⟩
  rintro y (hobj | hobj | hobj | hobj | hobj)
  · exact .inr (.cached hobj)
  · exact .inr (.carArray hobj)
  · exact .inr (.cppVector hobj)
  · exact .inr (.struct hobj)
  · rcases List.mem_cons.mp hobj with rfl | hobj
    · exact .inl rfl
    · exact .inr (.enum hobj)

theorem gives_carArray (hs : s.Sound) {quintetType : CarDataType} {elementTypeInfo : Option InfoRef}
    {obj : InfoObj CCarArrayInfo}
    (h : s.AcquireCarArrayInfo oom quintetType elementTypeInfo = (ec, some obj, s')) :
    s.Gives (.carArray quintetType elementTypeInfo) (obj.map .carArray) s' := by
  obtain _ | element := elementTypeInfo
  · cases h
  simp only [AcquireCarArrayInfo] at h
  split at h
  · cases h
  rename_i hquintet
  obtain rfl := not_not.mp hquintet
  split at h
  · rename_i htype
    split at h
    · -- Cached by its data type: the element info may be another one.
      rename_i found hfound
      obtain ⟨-, rfl, rfl⟩ := h
      refine ⟨hs, .inl ⟨rfl, .cached hfound⟩, ?_⟩
      obtain ⟨hdata, hquint⟩ := hs.cached _ _ hfound
      obtain ⟨addr, elem, data, quint⟩ := obj
      simp only at hdata hquint
      subst hdata hquint
      simp only [asked, Serves, InfoObj.map, Option.some.injEq, Info.carArray.injEq, CCarArrayInfo.mk.injEq,
        and_true]
      constructor
      · rintro rfl _ obj hobj
        exact Option.some.inj (hfound.symm.trans hobj) ▸ rfl
      · intro hserves
        exact (hserves htype _ hfound).symm
    · rename_i hnone
      split at h
      · cases h
      · obtain ⟨-, rfl, rfl⟩ := h
        refine ⟨⟨?_, hs.arrays, hs.fields, hs.items⟩, .inr (s.adds_cached _ _), ?_⟩
        · intro dataType obj hobj
          simp only [Function.update_apply] at hobj
          split at hobj
          · rename_i heq
            obtain rfl := Option.some.inj hobj
            exact ⟨heq.symm, rfl⟩
          · exact hs.cached dataType obj hobj
        · refine ⟨fun _ _ obj hobj => ?_, fun _ => rfl⟩
          rw [hnone] at hobj
          cases hobj
  · rename_i htype
    obtain htype := not_not.mp htype
    have hserves : s.Serves (.carArray .arrayOf (some element)) := fun h => (h htype).elim
    split at h
    · rename_i found hfound
      obtain ⟨-, rfl, rfl⟩ := h
      have hmem := List.mem_of_find?_eq_some hfound
      have helem := List.find?_some hfound
      obtain ⟨hdata, hquint⟩ := hs.arrays _ hmem
      refine ⟨hs, .inl ⟨rfl, .carArray hmem⟩, fun _ => hserves, fun _ => ?_⟩
      obtain ⟨addr, elem, data, quint⟩ := obj
      simp only [decide_eq_true_eq] at hdata hquint helem
      simp only [asked, InfoObj.map, hdata, hquint, helem, htype]
    · split at h
      · cases h
      · obtain ⟨-, rfl, rfl⟩ := h
        refine ⟨⟨hs.cached, ?_, hs.fields, hs.items⟩, .inr (s.adds_carArray _), fun _ => hserves,
          fun _ => ?_⟩
        · exact List.forall_mem_cons.mpr ⟨⟨rfl, rfl⟩, hs.arrays⟩
        · simp only [asked, InfoObj.map, htype]

theorem gives_cppVector (hs : s.Sound) {elementTypeInfo : Option InfoRef} {length : UInt32}
    {obj : InfoObj CCppVectorInfo}
    (h : s.AcquireCppVectorInfo oom elementTypeInfo length = (ec, some obj, s')) :
    s.Gives (.cppVector elementTypeInfo length) (obj.map .cppVector) s' := by
  obtain _ | element := elementTypeInfo
  · cases h
  simp only [AcquireCppVectorInfo] at h
  split at h
  · rename_i found hfound
    obtain ⟨-, rfl, rfl⟩ := h
    have hmem := List.mem_of_find?_eq_some hfound
    have hp := List.find?_some hfound
    obtain ⟨addr, elem, len⟩ := obj
    simp only [decide_eq_true_eq] at hp
    obtain ⟨rfl, rfl⟩ := hp
    exact ⟨hs, .inl ⟨rfl, .cppVector hmem⟩, fun _ => trivial, fun _ => rfl⟩
  · split at h
    · cases h
    · obtain ⟨-, rfl, rfl⟩ := h
      exact ⟨⟨hs.cached, hs.arrays, hs.fields, hs.items⟩, .inr (s.adds_cppVector _), fun _ => trivial,
        fun _ => rfl⟩

theorem gives_struct (hs : s.Sound) {name : CarText} {fieldNames : Option (List CarText)}
    {fieldTypeInfos : Option (List InfoRef)} {obj : InfoObj CObjInfoList.CStructInfo}
    (h : s.AcquireDynamicStructInfo oom name fieldNames fieldTypeInfos = (ec, some obj, s')) :
    s.Gives (.struct name fieldNames fieldTypeInfos) (obj.map .struct) s' := by
  unfold AcquireDynamicStructInfo at h
  split at h
  · rename_i name names types
    split at h
    · cases h
    rename_i hargs
    obtain ⟨-, hlen⟩ := not_or.mp hargs
    have hlen := not_not.mp hlen
    split at h
    · rename_i found hfound
      have hmem := List.mem_of_find?_eq_some hfound
      have hname := List.find?_some hfound
      split at h
      · cases h
      rename_i hcount
      split at h
      · rename_i hitems
        obtain ⟨-, rfl, rfl⟩ := h
        obtain ⟨hnames, htypes⟩ := (sameItems_iff hlen (hs.fields _ hmem) (not_not.mp hcount)).mp hitems
        refine ⟨hs, .inl ⟨rfl, .struct hmem⟩, fun _ => trivial, fun _ => ?_⟩
        obtain ⟨addr, name', names', types'⟩ := obj
        simp only [decide_eq_true_eq] at hname hnames htypes
        simp only [asked, InfoObj.map, hname, hnames, htypes]
      · cases h
    · split at h
      · cases h
      · obtain ⟨-, rfl, rfl⟩ := h
        refine ⟨⟨hs.cached, hs.arrays, ?_, hs.items⟩, .inr (s.adds_struct _), fun _ => trivial,
          fun _ => rfl⟩
        exact List.forall_mem_cons.mpr ⟨hlen, hs.fields⟩
  · cases h

theorem gives_enum (hs : s.Sound) {fullName : CarText} {itemNames : Option (List CarText)}
    {itemValues : Option (List UInt32)} {obj : InfoObj CEnumInfo}
    (h : s.AcquireDynamicEnumInfo oom fullName itemNames itemValues = (ec, some obj, s')) :
    s.Gives (.enum fullName itemNames itemValues) (obj.map .enum) s' := by
  unfold AcquireDynamicEnumInfo at h
  split at h
  · rename_i fullName names values
    split at h
    · cases h
    rename_i hlen
    have hlen := not_not.mp hlen
    dsimp only at h
    split at h
    · rename_i found hfound
      obtain ⟨-, rfl, rfl⟩ := h
      obtain ⟨hmem, hname, hspace, hcount, hitems⟩ := findEnum_ok hfound
      have hlen' := hs.items _ hmem
      refine ⟨hs, .inl ⟨rfl, .enum hmem⟩, ?_⟩
      have hasked : asked (.enum (some fullName) (some names) (some values)) =
          some (obj.map .enum).info ↔ splitName fullName = qualified fullName ∧
            obj.info.mItemNames = names ∧ obj.info.mItemValues = values := by
        obtain ⟨addr, name', space', names', values'⟩ := obj
        simp only at hname hspace
        simp only [asked, InfoObj.map, Option.some.injEq, Info.enum.injEq, CEnumInfo.mk.injEq, ← hname,
          ← hspace, Prod.ext_iff]
        constructor
        · rintro ⟨h1, h2, rfl, rfl⟩
          exact ⟨⟨h1.symm, h2.symm⟩, rfl, rfl⟩
        · rintro ⟨⟨h1, h2⟩, rfl, rfl⟩
          exact ⟨h1.symm, h2.symm, rfl, rfl⟩
      rw [hasked, splitName_eq_qualified_iff]
      refine and_congr_right fun hdot => ?_
      have hsplit := (splitName_of_no_dot hdot).1
      by_cases hempty : fullName = []
      · subst hempty
        rw [hsplit, findEnum_nil, Option.map_eq_some_iff] at hfound
        obtain ⟨found, hfind, hok⟩ := hfound
        obtain rfl := Except.ok.inj hok
        constructor
        · rintro hsame - obj hobj
          exact Option.some.inj (hfind.symm.trans hobj) ▸ hsame
        · intro hserves
          exact hserves rfl _ hfind
      · rw [hsplit] at hitems
        exact iff_of_true ((sameItems_iff hlen hlen' (hlen'.trans hcount)).mp (hitems hempty))
          fun h => (hempty h).elim
    · cases h
    · rename_i hnone
      split at h
      · cases h
      · obtain ⟨-, rfl, rfl⟩ := h
        refine ⟨⟨hs.cached, hs.arrays, hs.fields, ?_⟩, .inr (s.adds_enum _), ?_⟩
        · exact List.forall_mem_cons.mpr ⟨hlen, hs.items⟩
        · have hasked : asked (.enum (some fullName) (some names) (some values)) =
              some (.enum ⟨(splitName fullName).1, (splitName fullName).2, names, values⟩) ↔
                splitName fullName = qualified fullName := by
            simp only [asked, Option.some.injEq, Info.enum.injEq, CEnumInfo.mk.injEq, and_true,
              Prod.ext_iff]
            exact and_congr eq_comm eq_comm
          refine hasked.trans ((splitName_eq_qualified_iff fullName).trans ?_)
          refine (and_iff_left_of_imp fun hdot hempty obj hobj => ?_).symm
          subst hempty
          rw [(splitName_of_no_dot hdot).1, findEnum_nil, Option.map_eq_none_iff] at hnone
          rw [hnone] at hobj
          cases hobj
  · cases h

/-- **What a request that succeeds does.** -/
theorem gives_of_acquire (hs : s.Sound) {request : Request} {x : InfoObj Info}
    (h : s.acquire oom request = (ec, some x, s')) : s.Gives request x s' := by
  have hinfo : ∀ {α : Type} (kind : α → Info) (r : ECode × Option (InfoObj α) × CObjInfoList),
      toInfo kind r = (ec, some x, s') → ∃ obj, r = (ec, some obj, s') ∧ obj.map kind = x := by
    rintro α kind ⟨ec', o, t⟩ hr
    simp only [toInfo, Prod.mk.injEq, Option.map_eq_some_iff] at hr
    obtain ⟨rfl, ⟨obj, rfl, rfl⟩, rfl⟩ := hr
    exact ⟨obj, rfl, rfl⟩
  match request with
  | .carArray quintetType elementTypeInfo =>
    obtain ⟨obj, hobj, rfl⟩ := hinfo _ _ h
    exact gives_carArray hs hobj
  | .cppVector elementTypeInfo length =>
    obtain ⟨obj, hobj, rfl⟩ := hinfo _ _ h
    exact gives_cppVector hs hobj
  | .struct name fieldNames fieldTypeInfos =>
    obtain ⟨obj, hobj, rfl⟩ := hinfo _ _ h
    exact gives_struct hs hobj
  | .enum fullName itemNames itemValues =>
    obtain ⟨obj, hobj, rfl⟩ := hinfo _ _ h
    exact gives_enum hs hobj

/-- A request that fails changes nothing. -/
theorem eq_of_refused {request : Request} (h : s.acquire oom request = (ec, none, s')) : s' = s := by
  cases request <;>
    simp only [acquire, toInfo, AcquireCarArrayInfo, AcquireCppVectorInfo, AcquireDynamicStructInfo,
      AcquireDynamicEnumInfo, Prod.mk.injEq, Option.map_eq_none_iff] at h <;>
    obtain ⟨-, hnone, rfl⟩ := h
  all_goals
    revert hnone
    repeat' split
    all_goals first | exact fun _ => rfl | exact fun h => (Option.some_ne_none _ h).elim

theorem Sound.detach (hs : s.Sound) (addr : ℕ) : (s.detach addr).Sound where
  cached := hs.cached
  arrays obj hobj := hs.arrays obj (List.mem_of_mem_eraseP hobj)
  fields obj hobj := hs.fields obj (List.mem_of_mem_eraseP hobj)
  items obj hobj := hs.items obj (List.mem_of_mem_eraseP hobj)

theorem holds_of_holds_detach {addr : ℕ} {x : InfoObj Info} (h : (s.detach addr).Holds x) : s.Holds x := by
  rcases h with hobj | hobj | hobj | hobj | hobj
  · exact .cached hobj
  · exact .carArray (List.mem_of_mem_eraseP hobj)
  · exact .cppVector (List.mem_of_mem_eraseP hobj)
  · exact .struct (List.mem_of_mem_eraseP hobj)
  · exact .enum (List.mem_of_mem_eraseP hobj)

end Gives

/-! ### All histories -/

/-- `made` has the infos of all objects that were ever made, by address. -/
structure Booked (h : History) (made : List Info) : Prop where
  length : made.length = h.list.heap
  list : ∀ x, h.list.Holds x → made[x.addr]? = some x.info
  given : ∀ g ∈ h.given, made[g.2.addr]? = some g.2.info

/-- What holds along the histories whose calls are clean. -/
structure Inv (h : History) : Prop where
  sound : h.list.Sound
  booked : ∃ made, Booked h made
  described : ∀ g ∈ h.given, asked g.1 = some g.2.info

variable {h h' : History} {made : List Info}

/-- An object that is given is in the book, which has at most this object more. -/
theorem Booked.give (hb : Booked h made) {request : Request} {x : InfoObj Info} {s : CObjInfoList}
    (hx : h.list.Gives request x s) :
    ∃ made', Booked ⟨s, h.given ++ [(request, x)]⟩ made' := by
  rcases hx.origin with ⟨rfl, hholds⟩ | hadds
  · refine ⟨made, hb.length, hb.list, ?_⟩
    intro g hg
    rcases List.mem_append.mp hg with hg | hg
    · exact hb.given g hg
    · obtain rfl := List.mem_singleton.mp hg
      exact hb.list x hholds
  · have hold : ∀ {n : ℕ} {info : Info}, made[n]? = some info → (made ++ [x.info])[n]? = some info := by
      intro n info hn
      rwa [List.getElem?_append_left (List.getElem?_eq_some_iff.mp hn).1]
    have hnew : (made ++ [x.info])[x.addr]? = some x.info := by
      rw [hadds.addr, ← hb.length, List.getElem?_concat_length]
    refine ⟨made ++ [x.info], ?_, ?_, ?_⟩
    · rw [List.length_append, List.length_singleton, hb.length, hadds.heap]
    · intro y hy
      rcases hadds.holds y hy with rfl | hy
      · exact hnew
      · exact hold (hb.list y hy)
    · intro g hg
      rcases List.mem_append.mp hg with hg | hg
      · exact hold (hb.given g hg)
      · obtain rfl := List.mem_singleton.mp hg
        exact hnew

/-- A clean call keeps the invariant. -/
theorem Inv.step (hi : Inv h) {call : Call} (hclean : Clean h call) (hstep : h.step call = some h') :
    Inv h' := by
  obtain ⟨made, hb⟩ := hi.booked
  match call with
  | .acquire request oom =>
    rw [History.step] at hstep
    split at hstep
    · rename_i ec x s hacquire
      obtain rfl := Option.some.inj hstep
      have hx := gives_of_acquire hi.sound hacquire
      refine ⟨hx.sound, hb.give hx, ?_⟩
      intro g hg
      rcases List.mem_append.mp hg with hg | hg
      · exact hi.described g hg
      · obtain rfl := List.mem_singleton.mp hg
        exact hx.described.mpr hclean
    · rename_i ec s hacquire
      obtain rfl := eq_of_refused hacquire
      exact Option.some.inj hstep ▸ hi
  | .released addr =>
    obtain rfl := Option.some.inj hstep
    refine ⟨hi.sound.detach addr, ⟨made, hb.length, ?_, hb.given⟩, hi.described⟩
    intro x hx
    exact hb.list x (holds_of_holds_detach hx)

theorem inv_empty : Inv {} where
  sound := by
    refine ⟨?_, List.forall_mem_nil _, List.forall_mem_nil _, List.forall_mem_nil _⟩
    intro dataType obj hobj
    cases hobj
  booked := by
    refine ⟨[], rfl, ?_, List.forall_mem_nil _⟩
    rintro x (hobj | hobj | hobj | hobj | hobj)
    · cases hobj
    all_goals exact (List.not_mem_nil hobj).elim
  described := List.forall_mem_nil _

theorem Inv.identical (hi : Inv h) : Identical h.given := by
  refine ⟨hi.described, ?_⟩
  intro g hg g' hg' hne haddr
  obtain ⟨made, hb⟩ := hi.booked
  have hinfo : some g.2.info = some g'.2.info := by rw [← hb.given g hg, haddr, hb.given g' hg']
  exact hne ((hi.described g hg).trans (hinfo.trans (hi.described g' hg').symm))

/-- Arrays of two enums. -/
private def twoEnumArrays : List Call :=
  [.acquire (.carArray .arrayOf (some (.other .enum 1))) false,
    .acquire (.carArray .arrayOf (some (.other .enum 2))) false]

/-- An enum, an array and a vector of it, and the enum again. -/
private def enumAndArrays : List Call :=
  [.acquire (.enum (some ['E']) (some [some ['a']]) (some [1])) false,
    .acquire (.carArray .arrayOf (some (.dynamic .enum 0))) false,
    .acquire (.cppVector (some (.dynamic .enum 0)) 3) false,
    .acquire (.enum (some ['E']) (some [some ['a']]) (some [1])) false]

end CObjInfoList

end ElastosCar
