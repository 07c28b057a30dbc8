import ElastosCar.Lib.Trace
import ElastosCar.Reflect.IFList
import ElastosCar.Reflect.TableLocks

/-!
# Entry lists

A `CEntryList` has the entries of one kind of a module, a class or an interface. The first lookup
makes an array with one element for each entry and a hash table from the keys to the places in the
array; an object is made when its entry is first asked for, and is kept in the element.

`Right` says what an answer should be, `Clear` which requests are answered so: those that do not
run out of memory between two elements, and that do not ask for a method by an index whose number is
not below the number of entries (`run_right`).
-/

namespace ElastosCar.EntryList

open TableLocks (EntryType)
open IFList (MK_METHOD_INDEX)

/-! ### What is listed -/

/-- The characters of a name. -/
abbrev Name := List UInt8

/-- The names of a directory entry. -/
structure DirEntry where
  mName : Name
  mNameSpace : Option Name

structure MethodDescriptor where
  mName : Name
  mSignature : Name
deriving DecidableEq, Repr

structure IFIndexEntry where
  mIndex : UInt32
  /-- The count of the interfaces is an `unsigned short`. -/
  mIndex_lt : mIndex.toNat < 65535
  mBeginNo : UInt32
  mName : Name
  mNameSpace : Option Name
  mMethods : List MethodDescriptor

structure CLSModule where
  mClassDirs : ℕ → DirEntry
  mInterfaceDirs : ℕ → DirEntry
  mStructDirs : ℕ → DirEntry
  mEnumDirs : ℕ → DirEntry
  mAliasDirs : ℕ → DirEntry
  mConstDirs : ℕ → DirEntry
  mAliasCount : ℕ

/-- The class descriptor that a list of aspects or aggregatees is for. -/
structure ClassDescriptor where
  mAspectIndexes : ℕ → ℕ
  mAggrIndexes : ℕ → ℕ

/-- `mObject` is a reference to the object. -/
structure ObjElement where
  mIndex : UInt32 := 0
  mDesc : Option MethodDescriptor := none
  mName : Option Name := none
  mNamespaceOrSignature : Option Name := none
  mObject : Option ℕ := none
deriving DecidableEq, Repr

/-- The string `"systypes"`. -/
def systypes : Name := [115, 121, 115, 116, 121, 112, 101, 115]

def IsSysAlaisType (clsMod : CLSModule) (index : ℕ) : Bool :=
  (clsMod.mAliasDirs index).mNameSpace = some systypes

/-- The lists whose entries are methods. -/
def isMethods : EntryType → Bool
  | .Method | .Constructor | .CBMethod => true
  | _ => false

/-- What the constructor of a list is given. -/
structure Source where
  mType : EntryType
  mDesc : ClassDescriptor
  mTotalCount : ℕ
  mClsMod : CLSModule
  mIFList : List IFIndexEntry

/-- An element and its key, of an entry of a directory. -/
def dirRow (i : ℕ) (mName : Name) (mNameSpace : Option Name) : ObjElement × Name :=
  ({ mIndex := UInt32.ofNat i, mName := mName, mNamespaceOrSignature := mNameSpace },
    match mNameSpace with
    | some ns => ns ++ [46] ++ mName
    | none => mName)

/-- The element and the key of an interface of a class. -/
def interfaceRow (e : IFIndexEntry) : ObjElement × Name :=
  ({ mIndex := e.mIndex, mName := e.mName, mNamespaceOrSignature := e.mNameSpace },
    match e.mNameSpace with
    | some (c :: ns) => c :: ns ++ [46] ++ e.mName
    | _ => e.mName)

/-- The element and the key of the method `j` of an interface. -/
def methodRow (e : IFIndexEntry) (j : ℕ) (d : MethodDescriptor) : ObjElement × Name :=
  ({ mIndex := MK_METHOD_INDEX e.mIndex (e.mBeginNo + UInt32.ofNat j), mDesc := d, mName := d.mName,
     mNamespaceOrSignature := d.mSignature }, d.mName ++ d.mSignature)

namespace Source

variable (L : Source)

/-- What the iterations of the loops of `InitElemList` fill in, in order. -/
def rows : List (ObjElement × Name) :=
  match L.mType with
  | .TypeAliase =>
    ((List.range L.mClsMod.mAliasCount).filter fun i => !IsSysAlaisType L.mClsMod i).map fun i =>
      dirRow i (L.mClsMod.mAliasDirs i).mName none
  | .ClassInterface => L.mIFList.map interfaceRow
  | .Method | .Constructor | .CBMethod =>
    L.mIFList.flatMap fun e => e.mMethods.mapIdx (methodRow e)
  | .Aspect => (List.range L.mTotalCount).map fun i =>
    dirRow i (L.mClsMod.mClassDirs (L.mDesc.mAspectIndexes i)).mName none
  | .Aggregatee => (List.range L.mTotalCount).map fun i =>
    dirRow i (L.mClsMod.mClassDirs (L.mDesc.mAggrIndexes i)).mName none
  | .Class => (List.range L.mTotalCount).map fun i =>
    dirRow i (L.mClsMod.mClassDirs i).mName (L.mClsMod.mClassDirs i).mNameSpace
  | .Interface => (List.range L.mTotalCount).map fun i =>
    dirRow i (L.mClsMod.mInterfaceDirs i).mName (L.mClsMod.mInterfaceDirs i).mNameSpace
  | .Struct => (List.range L.mTotalCount).map fun i =>
    dirRow i (L.mClsMod.mStructDirs i).mName none
  | .Enum => (List.range L.mTotalCount).map fun i =>
    dirRow i (L.mClsMod.mEnumDirs i).mName (L.mClsMod.mEnumDirs i).mNameSpace
  | .Constant => (List.range L.mTotalCount).map fun i =>
    dirRow i (L.mClsMod.mConstDirs i).mName none
  | .Module | .DataType | .Local | .ClsModule => []

/-- Whether the `switch` of `InitElemList` knows the type. -/
def isKnown : Bool :=
  match L.mType with
  | .Module | .DataType | .Local | .ClsModule => false
  | _ => true

/-- `mCBMethodDesc`: the number of the event, the descriptor and the index of each callback method.
The numbers of an interface start two behind those of the one before it. -/
def mCBMethodDesc : List IFIndexEntry → UInt32 → List (UInt32 × MethodDescriptor × UInt32)
  | [], _ => []
  | e :: es, eventNum =>
    e.mMethods.mapIdx (fun j d => (eventNum + UInt32.ofNat j, d,
      MK_METHOD_INDEX e.mIndex (e.mBeginNo + UInt32.ofNat j))) ++
      mCBMethodDesc es (eventNum + UInt32.ofNat e.mMethods.length + 2)

end Source

/-- An entry list. It is made with the number of its entries. -/
structure CEntryList extends Source where
  counted : toSource.rows.length = mTotalCount
  mTotalCount_lt : mTotalCount < 4294967296

/-! ### Lookups -/

/-- What an object is made for. -/
inductive Descriptor
  | classDir (index : ℕ)
  | interface (index : UInt32)
  | structDir (index : ℕ)
  | enumDir (index : ℕ)
  | aliasDir (index : UInt32)
  | constDir (index : ℕ)
  | method (desc : Option MethodDescriptor) (index : UInt32)
  | constructor (desc : Option MethodDescriptor) (index : UInt32)
  | cbMethod (eventNum : UInt32) (desc : Option MethodDescriptor) (index : UInt32)
  | unknown
deriving DecidableEq, Repr

/-- A descriptor of the method with a descriptor and an index. -/
def Descriptor.IsMethod (d : Descriptor) (desc : Option MethodDescriptor) (index : UInt32) : Prop :=
  d = .method desc index ∨ d = .constructor desc index ∨
    ∃ eventNum, d = .cbMethod eventNum desc index

/-- Why a lookup fails. -/
inductive Failure
  | ec (ec : ECode)
  | outOfBounds
deriving DecidableEq, Repr

/-- What the memory allows during a call: the array, the entry of the hash table for each element,
and the objects, or the error that making one ends with. -/
structure Env where
  array : Bool
  granted : ℕ → Bool
  acquire : Descriptor → Except ECode ℕ

/-- The array and the hash table, which is a finite map from keys. -/
structure State where
  mObjElement : Option (ℕ → ObjElement) := none
  mHTIndexs : Name → Option ℕ := fun _ => none

/-- The object that is kept in an element. -/
def State.object (s : State) (i : ℕ) : Option ℕ :=
  s.mObjElement.bind fun elems => (elems i).mObject

inductive Request
  | byName (name : Option Name)
  | byIndex (index : UInt32)
  | all (capacity : ℕ)
deriving DecidableEq, Repr

/-- The result of a request: one object, or those stored in the array of the caller. -/
abbrev Answer := Except Failure (List ℕ)

namespace CEntryList

variable (L : CEntryList) (env : Env)

/-- The loops of `InitElemList`, from the element `n` on. -/
def fill : List (ObjElement × Name) → ℕ → (ℕ → ObjElement) → (Name → Option ℕ) →
    ECode × (ℕ → ObjElement) × (Name → Option ℕ)
  | [], _, elems, names => (NOERROR, elems, names)
  | row :: rows, n, elems, names =>
    if isMethods L.mType ∧ n = L.mTotalCount then (E_INVALID_ARGUMENT, elems, names)
    else if env.granted n then
      fill rows (n + 1) (Function.update elems n row.1) (Function.update names row.2 (some n))
    else (E_OUT_OF_MEMORY, Function.update elems n row.1, names)

def InitElemList (s : State) : ECode × State :=
  if L.mTotalCount = 0 then (E_DOES_NOT_EXIST, s)
  else if s.mObjElement.isSome then (NOERROR, s)
  else if !env.array then (E_OUT_OF_MEMORY, s)
  else if !L.isKnown then (E_INVALID_OPERATION, { s with mObjElement := some fun _ => {} })
  else
    let (ec, elems, names) := L.fill env L.rows 0 (fun _ => {}) s.mHTIndexs
    (ec, ⟨some elems, names⟩)

/-- What the object of an element is made for. -/
def descriptor (elem : ObjElement) (index : ℕ) : Descriptor :=
  match L.mType with
  | .Aspect => .classDir (L.mDesc.mAspectIndexes index)
  | .Aggregatee => .classDir (L.mDesc.mAggrIndexes index)
  | .Class => .classDir index
  | .ClassInterface => .interface elem.mIndex
  | .Interface => .interface (UInt32.ofNat index)
  | .Struct => .structDir index
  | .Enum => .enumDir index
  | .TypeAliase => .aliasDir elem.mIndex
  | .Constant => .constDir index
  | .Method => .method elem.mDesc elem.mIndex
  | .Constructor => .constructor elem.mDesc elem.mIndex
  | .CBMethod =>
    match (Source.mCBMethodDesc L.mIFList 1)[index]? with
    | some (eventNum, desc, index) => .cbMethod eventNum desc index
    | none => .unknown
  | .Module | .DataType | .Local | .ClsModule => .unknown

/-- `g_objInfoList` asked for an object. -/
def acquire : Descriptor → Except ECode ℕ
  | .method none _ | .constructor none _ | .cbMethod _ none _ => .error E_INVALID_ARGUMENT
  | .unknown => .error E_INVALID_OPERATION
  | d => env.acquire d

/-- The place in the array that an index means. -/
def position (elems : ℕ → ObjElement) (index : UInt32) : Option ℕ :=
  if isMethods L.mType ∧ index &&& 0xFFFF0000 ≠ 0 then
    match (List.range L.mTotalCount).find? fun i => (elems i).mIndex = index with
    | some i => some i
    -- `i` is the number of elements behind the loop
    | none => if index.toNat = L.mTotalCount then some L.mTotalCount else none
  else some index.toNat

/-- The `switch` of `AcquireObjByIndex`. -/
def acquireAt (elems : ℕ → ObjElement) (s : State) (i : ℕ) : Except Failure ℕ × State :=
  if L.mTotalCount ≤ i then (.error .outOfBounds, s)
  else
    match (elems i).mObject with
    | some object => (.ok object, s)
    | none =>
      match acquire env (L.descriptor (elems i) i) with
      | .error ec => (.error (.ec ec), s)
      | .ok object =>
        (.ok object, { s with
          mObjElement := some (Function.update elems i { elems i with mObject := object }) })

def AcquireObjByIndex (index : UInt32) (s : State) : Except Failure ℕ × State :=
  if L.mTotalCount = 0 ∨ L.mTotalCount ≤ (index &&& 0xFFFF).toNat then
    (.error (.ec E_DOES_NOT_EXIST), s)
  else
    let (ec, s) := L.InitElemList env s
    if ec ≠ NOERROR then (.error (.ec ec), s)
    else
      let elems := s.mObjElement.getD fun _ => {}
      match L.position elems index with
      | none => (.error (.ec E_INVALID_ARGUMENT), s)
      | some i => L.acquireAt env elems s i

def AcquireObjByName (name : Option Name) (s : State) : Except Failure ℕ × State :=
  match name with
  | none => (.error (.ec E_INVALID_ARGUMENT), s)
  | some name =>
    let (ec, s) := L.InitElemList env s
    if ec ≠ NOERROR then (.error (.ec ec), s)
    else
      match s.mHTIndexs name with
      | none => (.error (.ec E_DOES_NOT_EXIST), s)
      | some i => L.AcquireObjByIndex env (UInt32.ofNat i) s

/-- The loop of `GetAllObjInfos`: `count` elements from `i` on. -/
def acquireAll : ℕ → ℕ → State → Answer × State
  | 0, _, s => (.ok [], s)
  | count + 1, i, s =>
    match L.AcquireObjByIndex env (UInt32.ofNat i) s with
    | (.error e, s) => (.error e, s)
    | (.ok object, s) =>
      match acquireAll count (i + 1) s with
      | (.error e, s) => (.error e, s)
      | (.ok objects, s) => (.ok (object :: objects), s)

def GetAllObjInfos (capacity : ℕ) (s : State) : Answer × State :=
  if capacity = 0 then (.error (.ec E_INVALID_ARGUMENT), s)
  else if L.mTotalCount = 0 then (.ok [], s)
  else L.acquireAll env (min capacity L.mTotalCount) 0 s

/-- A result of one object. -/
def single (r : Except Failure ℕ × State) : Answer × State := (r.1.map fun o => [o], r.2)

def perform : Request → State → Answer × State
  | .byName name, s => single (L.AcquireObjByName env name s)
  | .byIndex index, s => single (L.AcquireObjByIndex env index s)
  | .all capacity, s => L.GetAllObjInfos env capacity s

/-- One request. -/
def step (s : State) (a : Request × Env) : Option State := some (L.perform a.2 a.1 s).2

/-! ### What the answers should be -/

/-- What the entry `i` is for. -/
def entry (i : ℕ) : Descriptor := L.descriptor (L.rows[i]?.elim {} Prod.fst) i

/-- The object of the entry `i`: the one that is kept, or else a new one. -/
def objectOf (s : State) (i : ℕ) : Except Failure ℕ :=
  match s.object i with
  | some object => .ok object
  | none => (acquire env (L.entry i)).mapError .ec

/-- The key of the entry `i`. -/
def HasKey (i : ℕ) (name : Name) : Prop := ∃ elem, L.rows[i]? = some (elem, name)

/-- The index of the method `i`. -/
def HasIndex (i : ℕ) (index : UInt32) : Prop :=
  isMethods L.mType ∧ ∃ elem key, L.rows[i]? = some (elem, key) ∧ elem.mIndex = index

/-- Every element has been filled in, and every key leads to an entry. -/
structure Complete (s : State) : Prop where
  elems : ∃ elems, s.mObjElement = some elems ∧
    ∀ i row, L.rows[i]? = some row → elems i = { row.1 with mObject := (elems i).mObject }
  found : ∀ i name, L.HasKey i name → (∀ j, L.HasKey j name → j = i) → s.mHTIndexs name = some i
  missing : ∀ name, (∀ i, ¬L.HasKey i name) → s.mHTIndexs name = none

/-- **The right answer** to a request, if the list could be made. -/
def Answers (s : State) : Request → Answer → Prop
  | .byName none, _ => True
  | .byName (some name), a =>
    (∀ i, L.HasKey i name → (∀ j, L.HasKey j name → j = i) →
      a = (L.AcquireObjByIndex env (UInt32.ofNat i) s).1.map fun o => [o]) ∧
    ((∀ i, ¬L.HasKey i name) → a = .error (.ec E_DOES_NOT_EXIST))
  | .byIndex index, a =>
    -- in a list of methods an integer of more than 16 bits is the index of a method
    (index.toNat < L.mTotalCount → (isMethods L.mType → index.toNat < 65536) →
      a = (L.objectOf env s index.toNat).map fun o => [o]) ∧
    ∀ i, L.HasIndex i index → a = (L.objectOf env s i).map fun o => [o]
  | .all capacity, a =>
    capacity ≠ 0 → a = (List.range (min capacity L.mTotalCount)).mapM (L.objectOf env s)

/-- A request is served right: the objects of the entries stay the same ones, a list is taken as
complete only if it is, and the answer is right, unless there was no memory for the list. -/
def Right (s : State) (a : Request × Env) : Prop :=
  (∀ i o, s.object i = some o → (L.perform a.2 a.1 s).2.object i = some o) ∧
    ((L.perform a.2 a.1 s).2.mObjElement ≠ none → L.Complete (L.perform a.2 a.1 s).2) ∧
    ((L.perform a.2 a.1 s = (.error (.ec E_OUT_OF_MEMORY), s) ∧ s.mObjElement = none) ∨
      L.Answers a.2 s a.1 (L.perform a.2 a.1 s).1)

/-- The hash table has memory for each key when the list is made; a method that is asked for by its
index is the only one with it, and the number in the index is below the number of entries; no more
than 65536 methods are asked for at once. -/
def Clear (s : State) (a : Request × Env) : Prop :=
  (s.mObjElement = none → a.2.array = true → ∀ i < L.mTotalCount, a.2.granted i = true) ∧
    match a.1 with
    | .byName _ => True
    | .byIndex index => ∀ i, L.HasIndex i index →
      (index &&& 0xFFFF).toNat < L.mTotalCount ∧ ∀ j, L.HasIndex j index → j = i
    | .all capacity => isMethods L.mType → min capacity L.mTotalCount ≤ 65536

/-! ### Indexes -/

theorem toNat_low (index : UInt32) : (index &&& 0xFFFF).toNat = index.toNat % 65536 := by
  rw [UInt32.toNat_and]
  exact Nat.and_two_pow_sub_one_eq_mod index.toNat 16

theorem high_eq_zero_iff (index : UInt32) : index &&& 0xFFFF0000 = 0 ↔ index.toNat < 65536 := by
  constructor
  · intro h
    have hmask : index.toNat &&& (0xFFFF0000 ||| 0xFFFF) = index.toNat :=
      (Nat.and_two_pow_sub_one_eq_mod index.toNat 32).trans (Nat.mod_eq_of_lt index.toNat_lt)
    have hhigh : index.toNat &&& 0xFFFF0000 = 0 := congrArg UInt32.toNat h
    have hlow : index.toNat &&& 0xFFFF = index.toNat % 65536 :=
      Nat.and_two_pow_sub_one_eq_mod index.toNat 16
    rw [Nat.and_or_distrib_left, hhigh, hlow, Nat.zero_or] at hmask
    omega
  · intro h
    rw [← UInt32.toNat_inj, UInt32.toNat_and]
    refine Nat.eq_of_testBit_eq fun k => ?_
    rw [Nat.testBit_and]
    rcases Nat.lt_or_ge k 16 with hk | hk
    · have hmask : (0xFFFF0000 : UInt32).toNat = 0xFFFF <<< 16 := rfl
      rw [hmask, Nat.testBit_shiftLeft]
      simp [Nat.not_le.mpr hk]
    · have hpow : 2 ^ 16 ≤ 2 ^ k := Nat.pow_le_pow_right (by omega) hk
      have hlow : index.toNat.testBit k = false :=
        Nat.testBit_lt_two_pow (Nat.lt_of_lt_of_le h hpow)
      simp [hlow]

theorem le_mk_method_index (i m : UInt32) (h : i.toNat < 65535) :
    65536 ≤ (MK_METHOD_INDEX i m).toNat := by
  have hone : (i + 1).toNat = i.toNat + 1 := by
    rw [UInt32.toNat_add]
    exact Nat.mod_eq_of_lt (by change i.toNat + 1 < _; omega)
  have hshift : ((i + 1) <<< 16).toNat = (i.toNat + 1) * 65536 := by
    rw [UInt32.toNat_shiftLeft, hone, Nat.shiftLeft_eq]
    exact Nat.mod_eq_of_lt (by change (i.toNat + 1) * 65536 < _; omega)
  rw [MK_METHOD_INDEX, UInt32.toNat_or, hshift]
  exact Nat.le_trans (by omega) Nat.left_le_or

/-! ### Making the list -/

section

variable {L : CEntryList} {env : Env} {s s' : State} {i : ℕ} {index : UInt32} {name : Name}

theorem lt_of_getElem? {row : ObjElement × Name} (h : L.rows[i]? = some row) :
    i < L.mTotalCount := by
  rw [← L.counted]
  exact (List.getElem?_eq_some_iff.mp h).1

theorem exists_row (h : i < L.mTotalCount) : ∃ row, L.rows[i]? = some row :=
  ⟨_, List.getElem?_eq_getElem (L.counted.symm ▸ h)⟩

theorem isKnown_of_ne_zero (h : L.mTotalCount ≠ 0) : L.isKnown = true := by
  have hrows := L.counted
  rw [Source.rows] at hrows
  rw [Source.isKnown]
  split <;> simp_all

theorem mObject_of_mem_rows {row : ObjElement × Name} (h : row ∈ L.rows) :
    row.1.mObject = none := by
  rw [Source.rows] at h
  split at h
  all_goals first
    | obtain ⟨i, -, rfl⟩ := List.mem_map.mp h
      rfl
    | obtain ⟨e, -, h⟩ := List.mem_flatMap.mp h
      obtain ⟨j, hj, rfl⟩ := List.mem_mapIdx.mp h
      rfl
    | exact absurd h List.not_mem_nil

/-- What the loop fills in, if the hash table takes every key: the elements from `n` on, and for a
key that no other element has its place. -/
theorem fill_spec (rows : List (ObjElement × Name)) (n : ℕ) (elems : ℕ → ObjElement)
    (names : Name → Option ℕ) (hgranted : ∀ k < n + rows.length, env.granted k = true)
    (htotal : n + rows.length ≤ L.mTotalCount) :
    ∃ elems' names', L.fill env rows n elems names = (NOERROR, elems', names') ∧
      (∀ k, k < n ∨ n + rows.length ≤ k → elems' k = elems k) ∧
      (∀ i row, rows[i]? = some row → elems' (n + i) = row.1) ∧
      (∀ i elem name, rows[i]? = some (elem, name) →
        (∀ (j : ℕ) (elem' : ObjElement), rows[j]? = some (elem', name) → j = i) →
        names' name = some (n + i)) ∧
      ∀ name, (∀ (i : ℕ) (elem : ObjElement), rows[i]? ≠ some (elem, name)) →
        names' name = names name := by
  induction rows generalizing n elems names with
  | nil => exact ⟨elems, names, rfl, fun _ _ => rfl, nofun, nofun, fun _ _ => rfl⟩
  | cons row rows ih =>
    rw [List.length_cons] at hgranted htotal
    obtain ⟨elems', names', hfill, hout, helems, hfound, hmissing⟩ :=
      ih (n + 1) (Function.update elems n row.1) (Function.update names row.2 (some n))
        (fun k hk => hgranted k (by omega)) (by omega)
    refine ⟨elems', names', ?_, ?_, ?_, ?_, ?_⟩
    · rw [fill, if_neg (by omega), if_pos (hgranted n (by omega)), hfill]
    · intro k hk
      rw [List.length_cons] at hk
      rw [hout k (by omega), Function.update_of_ne (by omega)]
    · rintro (_ | i) row' hrow
      · obtain rfl := Option.some.inj hrow
        rw [Nat.add_zero, hout n (by omega), Function.update_self]
      · rw [← Nat.add_assoc, Nat.add_right_comm]
        exact helems i row' hrow
    · rintro (_ | i) elem name hrow honly
      · -- the first element: no later one has the key
        obtain rfl := Option.some.inj hrow
        have hlater : ∀ (i : ℕ) (elem' : ObjElement), rows[i]? ≠ some (elem', name) := by
          intro i elem' h
          exact absurd (honly (i + 1) elem' h) (Nat.succ_ne_zero i)
        rw [hmissing name hlater, Function.update_self, Nat.add_zero]
      · have h := hfound i elem name hrow fun j elem' hj =>
          Nat.succ_inj.mp (honly (j + 1) elem' hj)
        rw [h, Nat.add_right_comm, Nat.add_assoc]
    · intro name hnone
      have hne : name ≠ row.2 := by
        rintro rfl
        exact hnone 0 row.1 rfl
      rw [hmissing name fun i elem h => hnone (i + 1) elem h, Function.update_of_ne hne]

/-- A list that has not been made, or that is complete. -/
def Ok (L : CEntryList) (s : State) : Prop :=
  s = {} ∨ L.Complete s

/-- The hash table has memory if the list is made now. -/
def Granted (L : CEntryList) (env : Env) (s : State) : Prop :=
  s.mObjElement = none → env.array = true → ∀ i < L.mTotalCount, env.granted i = true

theorem Complete.initElemList (h : L.Complete s) (htotal : L.mTotalCount ≠ 0) :
    L.InitElemList env s = (NOERROR, s) := by
  obtain ⟨elems, helems, -⟩ := h.elems
  rw [InitElemList, if_neg htotal, helems, Option.isSome_some, if_pos rfl]

/-- **What `InitElemList` does**, if the hash table has memory. -/
theorem Ok.initElemList (h : L.Ok s) (hgranted : L.Granted env s) (htotal : L.mTotalCount ≠ 0) :
    (s = {} ∧ L.InitElemList env s = (E_OUT_OF_MEMORY, s)) ∨
      ∃ s', L.InitElemList env s = (NOERROR, s') ∧ L.Complete s' ∧
        ∀ i, s'.object i = s.object i := by
  rcases h with rfl | h
  · rw [InitElemList, if_neg htotal]
    rcases harray : env.array with _ | _
    · exact .inl ⟨rfl, rfl⟩
    · have hall := hgranted rfl harray
      obtain ⟨elems, names, hfill, hout, helems, hfound, hmissing⟩ :=
        fill_spec L.rows 0 (fun _ => {}) (fun _ => none)
          (fun k hk => hall k (by rw [← L.counted]; omega)) (by rw [← L.counted]; omega)
      simp only [Nat.zero_add] at helems hfound
      have hobject : ∀ i, (elems i).mObject = none := by
        intro i
        rcases hrow : L.rows[i]? with _ | row
        · rw [hout i (.inr (by have := List.getElem?_eq_none_iff.mp hrow; omega))]
        · rw [helems i row hrow, mObject_of_mem_rows (List.mem_of_getElem? hrow)]
      right
      refine ⟨⟨some elems, names⟩, ?_, ⟨⟨elems, rfl, ?_⟩, ?_, ?_⟩, ?_⟩
      · rw [isKnown_of_ne_zero htotal]
        simp only [Option.isSome_none, Bool.false_eq_true, if_false, Bool.not_true, hfill]
      · intro i row hrow
        rw [hobject i, helems i row hrow, ← mObject_of_mem_rows (List.mem_of_getElem? hrow)]
      · rintro i name ⟨elem, hrow⟩ honly
        exact hfound i elem name hrow fun j elem' hj => honly j ⟨elem', hj⟩
      · intro name hnone
        exact hmissing name fun i elem h => hnone i ⟨elem, h⟩
      · exact hobject
  · exact .inr ⟨s, h.initElemList htotal, h, fun _ => rfl⟩

/-! ### Asking for an object -/

/-- What a call leaves: a list that is complete if it has been made, with the objects it had. -/
structure Kept (L : CEntryList) (s s' : State) : Prop where
  ok : L.Ok s'
  made : s'.mObjElement = none → s.mObjElement = none
  object : ∀ i object, s.object i = some object → s'.object i = some object

theorem Ok.kept (h : L.Ok s) : L.Kept s s := ⟨h, id, fun _ _ => id⟩

theorem Kept.trans {s'' : State} (h : L.Kept s s') (h' : L.Kept s' s'') : L.Kept s s'' :=
  ⟨h'.ok, fun hnone => h.made (h'.made hnone),
    fun i object hobject => h'.object i object (h.object i object hobject)⟩

theorem Complete.ne_none (h : L.Complete s) : s.mObjElement ≠ none := by
  obtain ⟨elems, helems, -⟩ := h.elems
  rw [helems]
  exact Option.some_ne_none elems

theorem Complete.kept (h : L.Complete s')
    (hobject : ∀ i object, s.object i = some object → s'.object i = some object) :
    L.Kept s s' :=
  ⟨.inr h, fun hnone => absurd hnone h.ne_none, hobject⟩

theorem Granted.of_kept (h : L.Granted env s) (hkept : L.Kept s s') : L.Granted env s' :=
  fun hnone => h (hkept.made hnone)

theorem Complete.descriptor_eq (h : L.Complete s) {elems : ℕ → ObjElement}
    (helems : s.mObjElement = some elems) (hi : i < L.mTotalCount) :
    L.descriptor (elems i) i = L.entry i := by
  obtain ⟨elems', helems', hrows⟩ := h.elems
  obtain rfl := Option.some.inj (helems.symm.trans helems')
  obtain ⟨row, hrow⟩ := exists_row hi
  rw [entry, hrow, hrows i row hrow]
  rfl

/-- The object of an entry is the one that is kept, or is made and kept. -/
theorem Complete.acquireAt (env : Env) (h : L.Complete s) {elems : ℕ → ObjElement}
    (helems : s.mObjElement = some elems) (hi : i < L.mTotalCount) :
    ∃ s', L.acquireAt env elems s i = (L.objectOf env s i, s') ∧ L.Complete s' ∧
      (∀ j, j ≠ i → s'.object j = s.object j) ∧
      ∀ object, s.object i = some object → s'.object i = some object := by
  have hobject : s.object i = (elems i).mObject := by rw [State.object, helems, Option.bind_some]
  rw [CEntryList.acquireAt, if_neg (Nat.not_le.mpr hi), h.descriptor_eq helems hi, objectOf,
    hobject]
  rcases hkept : (elems i).mObject with _ | object
  · rcases hacquire : acquire env (L.entry i) with ec | object
    · exact ⟨s, rfl, h, fun _ _ => rfl, nofun⟩
    · refine ⟨_, rfl, ⟨⟨_, rfl, ?_⟩, h.found, h.missing⟩, ?_, nofun⟩
      · intro j row hrow
        obtain ⟨elems', helems', hrows⟩ := h.elems
        obtain rfl := Option.some.inj (helems.symm.trans helems')
        rw [Function.update_apply]
        split_ifs with hj
        · subst hj
          rw [hrows j row hrow]
        · exact hrows j row hrow
      · intro j hj
        rw [State.object, State.object, helems, Option.bind_some, Option.bind_some,
          Function.update_of_ne hj]
  · exact ⟨s, rfl, h, fun _ _ => rfl, fun object' hobject' => hobject.trans hkept ▸ hobject'⟩

/-- An index that is no index of a method. -/
theorem position_plain (elems : ℕ → ObjElement)
    (hplain : isMethods L.mType → index.toNat < 65536) :
    L.position elems index = some index.toNat := by
  rw [position, if_neg]
  rintro ⟨hmethods, hhigh⟩
  exact hhigh ((high_eq_zero_iff index).mpr (hplain hmethods))

theorem HasIndex.lt (h : L.HasIndex i index) : i < L.mTotalCount := by
  obtain ⟨-, elem, key, hrow, -⟩ := h
  exact lt_of_getElem? hrow

/-- The index of a method has the index of its interface, plus one, in the upper half. -/
theorem HasIndex.high_ne_zero (h : L.HasIndex i index) : index &&& 0xFFFF0000 ≠ 0 := by
  obtain ⟨hmethods, elem, key, hrow, rfl⟩ := h
  have hmem := List.mem_of_getElem? hrow
  have hmethod : (elem, key) ∈ L.mIFList.flatMap fun e => e.mMethods.mapIdx (methodRow e) := by
    rw [Source.rows] at hmem
    split at hmem <;> simp_all [isMethods]
  obtain ⟨e, -, hmem⟩ := List.mem_flatMap.mp hmethod
  obtain ⟨j, hj, heq⟩ := List.mem_mapIdx.mp hmem
  intro hzero
  have hlt := (high_eq_zero_iff _).mp hzero
  rw [← congrArg (fun row => row.1.mIndex) heq] at hlt
  exact absurd hlt (Nat.not_lt.mpr (le_mk_method_index _ _ e.mIndex_lt))

/-- The index of a method that no other method has. -/
theorem Complete.position_method (h : L.Complete s) {elems : ℕ → ObjElement}
    (helems : s.mObjElement = some elems) (hi : L.HasIndex i index)
    (honly : ∀ j, L.HasIndex j index → j = i) : L.position elems index = some i := by
  obtain ⟨elems', helems', hrows⟩ := h.elems
  obtain rfl := Option.some.inj (helems.symm.trans helems')
  have hfind : (List.range L.mTotalCount).find? (fun j => (elems j).mIndex = index) = some i := by
    rw [List.find?_range_eq_some]
    obtain ⟨hmethods, elem, key, hrow, rfl⟩ := hi
    refine ⟨?_, List.mem_range.mpr (lt_of_getElem? hrow), ?_⟩
    · rw [hrows i _ hrow, decide_eq_true_iff]
    · intro j hj
      obtain ⟨row, hrowj⟩ := exists_row (L := L) (Nat.lt_trans hj (lt_of_getElem? hrow))
      rw [hrows j row hrowj, Bool.not_eq_true', decide_eq_false_iff_not]
      intro heq
      exact absurd (honly j ⟨hmethods, row.1, row.2, hrowj, heq⟩) (Nat.ne_of_lt hj)
  rw [position, if_pos ⟨hi.1, hi.high_ne_zero⟩, hfind]

/-- The list has been made, and the element is looked up. -/
theorem acquireObjByIndex_of_init (hlow : (index &&& 0xFFFF).toNat < L.mTotalCount)
    (hinit : L.InitElemList env s = (NOERROR, s')) {elems : ℕ → ObjElement}
    (helems : s'.mObjElement = some elems) :
    L.AcquireObjByIndex env index s =
      match L.position elems index with
      | none => (.error (.ec E_INVALID_ARGUMENT), s')
      | some i => L.acquireAt env elems s' i := by
  have hguard : ¬(L.mTotalCount = 0 ∨ L.mTotalCount ≤ (index &&& 0xFFFF).toNat) := by omega
  rw [AcquireObjByIndex, if_neg hguard, hinit]
  simp only [ne_eq, not_true_eq_false, if_false, helems, Option.getD_some]

/-- **`AcquireObjByIndex`** keeps the list. -/
theorem Ok.acquireObjByIndex_kept (h : L.Ok s) (hgranted : L.Granted env s) (index : UInt32) :
    L.Kept s (L.AcquireObjByIndex env index s).2 := by
  by_cases hguard : L.mTotalCount = 0 ∨ L.mTotalCount ≤ (index &&& 0xFFFF).toNat
  · rw [AcquireObjByIndex, if_pos hguard]
    exact h.kept
  · rw [not_or, Nat.not_le] at hguard
    rcases h.initElemList hgranted hguard.1 with ⟨rfl, hinit⟩ | ⟨s', hinit, hs', hobjects⟩
    · rw [AcquireObjByIndex, if_neg (by omega), hinit]
      exact h.kept
    · have hkept : L.Kept s s' := hs'.kept fun i object ho => (hobjects i).trans ho
      obtain ⟨elems, helems, -⟩ := hs'.elems
      rw [acquireObjByIndex_of_init hguard.2 hinit helems]
      rcases hpos : L.position elems index with _ | i
      · exact hkept
      · by_cases hi : i < L.mTotalCount
        · obtain ⟨s'', hacquire, hs'', hothers, hsame⟩ := hs'.acquireAt env helems hi
          simp only [hacquire]
          refine hkept.trans (hs''.kept fun j object ho => ?_)
          by_cases hj : j = i
          · subst hj
            exact hsame object ho
          · exact (hothers j hj).trans ho
        · simp only [CEntryList.acquireAt, if_pos (Nat.not_lt.mp hi)]
          exact hkept

/-- **What `AcquireObjByIndex` returns** for an index that means an entry. -/
theorem Ok.acquireObjByIndex (h : L.Ok s) (hgranted : L.Granted env s)
    (hlow : (index &&& 0xFFFF).toNat < L.mTotalCount) (hi : i < L.mTotalCount)
    (hpos : ∀ s', L.Complete s' → ∀ elems, s'.mObjElement = some elems →
      L.position elems index = some i) :
    (s = {} ∧ L.AcquireObjByIndex env index s = (.error (.ec E_OUT_OF_MEMORY), s)) ∨
      ∃ s', L.AcquireObjByIndex env index s = (L.objectOf env s i, s') ∧ L.Complete s' ∧
        ∀ j, j ≠ i → s'.object j = s.object j := by
  have htotal : L.mTotalCount ≠ 0 := Nat.ne_of_gt (Nat.zero_lt_of_lt hi)
  rcases h.initElemList hgranted htotal with ⟨rfl, hinit⟩ | ⟨s', hinit, hs', hobjects⟩
  · rw [AcquireObjByIndex, if_neg (by omega), hinit]
    exact .inl ⟨rfl, rfl⟩
  · obtain ⟨elems, helems, -⟩ := hs'.elems
    obtain ⟨s'', hacquire, hs'', hothers, -⟩ := hs'.acquireAt env helems hi
    have hobject : L.objectOf env s' i = L.objectOf env s i := by
      rw [objectOf, objectOf, hobjects]
    right
    refine ⟨s'', ?_, hs'', fun j hj => (hothers j hj).trans (hobjects j)⟩
    rw [acquireObjByIndex_of_init hlow hinit helems, hpos s' hs' elems helems, ← hobject]
    exact hacquire

/-- **`AcquireObjByName`** keeps the list. -/
theorem Ok.acquireObjByName_kept (h : L.Ok s) (hgranted : L.Granted env s) (name : Option Name) :
    L.Kept s (L.AcquireObjByName env name s).2 := by
  rcases name with _ | name
  · exact h.kept
  rw [AcquireObjByName]
  by_cases htotal : L.mTotalCount = 0
  · rw [InitElemList, if_pos htotal]
    exact h.kept
  · rcases h.initElemList hgranted htotal with ⟨rfl, hinit⟩ | ⟨s', hinit, hs', hobjects⟩
    · rw [hinit]
      exact h.kept
    · have hkept : L.Kept s s' := hs'.kept fun i object ho => (hobjects i).trans ho
      rw [hinit]
      simp only [ne_eq, not_true_eq_false, if_false]
      split
      · exact hkept
      · exact hkept.trans (hkept.ok.acquireObjByIndex_kept (hgranted.of_kept hkept) _)

theorem toNat_ofNat (h : i < L.mTotalCount) : (UInt32.ofNat i).toNat = i :=
  UInt32.toNat_ofNat_of_lt' (Nat.lt_trans h L.mTotalCount_lt)

theorem low_ofNat_lt (h : i < L.mTotalCount) :
    (UInt32.ofNat i &&& 0xFFFF).toNat < L.mTotalCount := by
  rw [toNat_low, toNat_ofNat h]
  exact Nat.lt_of_le_of_lt (Nat.mod_le i 65536) h

/-- **What `AcquireObjByName` returns.** -/
theorem Ok.acquireObjByName (h : L.Ok s) (hgranted : L.Granted env s) (name : Name) :
    (s = {} ∧ L.AcquireObjByName env name s = (.error (.ec E_OUT_OF_MEMORY), s)) ∨
      (∀ i, L.HasKey i name → (∀ j, L.HasKey j name → j = i) →
        (L.AcquireObjByName env name s).1 = (L.AcquireObjByIndex env (UInt32.ofNat i) s).1) ∧
      ((∀ i, ¬L.HasKey i name) →
        (L.AcquireObjByName env name s).1 = .error (.ec E_DOES_NOT_EXIST)) := by
  by_cases htotal : L.mTotalCount = 0
  · right
    rw [AcquireObjByName, InitElemList, if_pos htotal]
    refine ⟨fun i hkey _ => ?_, fun _ => rfl⟩
    obtain ⟨elem, hrow⟩ := hkey
    have hlt := lt_of_getElem? hrow
    omega
  · rcases h.initElemList hgranted htotal with ⟨rfl, hinit⟩ | ⟨s', hinit, hs', -⟩
    · rw [AcquireObjByName, hinit]
      exact .inl ⟨rfl, rfl⟩
    · right
      rw [AcquireObjByName, hinit]
      simp only [ne_eq, not_true_eq_false, if_false]
      refine ⟨fun i hkey honly => ?_, fun hnone => ?_⟩
      · obtain ⟨elem, hrow⟩ := hkey
        obtain ⟨elems, helems, -⟩ := hs'.elems
        have hlow := low_ofNat_lt (lt_of_getElem? hrow)
        rw [hs'.found i name ⟨elem, hrow⟩ honly, acquireObjByIndex_of_init hlow hinit helems]
        simp only [acquireObjByIndex_of_init hlow (hs'.initElemList htotal) helems]
      · rw [hs'.missing name hnone]

/-- **`GetAllObjInfos`** keeps the list. -/
theorem Ok.acquireAll_kept (h : L.Ok s) (hgranted : L.Granted env s) (count i : ℕ) :
    L.Kept s (L.acquireAll env count i s).2 := by
  induction count generalizing s i with
  | zero => exact h.kept
  | succ count ih =>
    have hkept := h.acquireObjByIndex_kept hgranted (UInt32.ofNat i)
    rw [acquireAll]
    rcases hacquire : L.AcquireObjByIndex env (UInt32.ofNat i) s with ⟨e | object, s'⟩
    · rw [hacquire] at hkept
      exact hkept
    · rw [hacquire] at hkept
      have hrest := hkept.trans (ih hkept.ok (hgranted.of_kept hkept) (i + 1))
      rcases hall : L.acquireAll env count (i + 1) s' with ⟨e | objects, s''⟩ <;>
        simpa only [hall] using hrest

/-- **What the loop of `GetAllObjInfos` returns**: making one object does not change the others. -/
theorem Ok.acquireAll (h : L.Ok s) (hgranted : L.Granted env s) {f : ℕ → Except Failure ℕ}
    (count i : ℕ) (hf : ∀ j, i ≤ j → L.objectOf env s j = f j) (hbound : i + count ≤ L.mTotalCount)
    (hplain : isMethods L.mType → i + count ≤ 65536) :
    (s = {} ∧ L.acquireAll env count i s = (.error (.ec E_OUT_OF_MEMORY), s)) ∨
      (L.acquireAll env count i s).1 = (List.range' i count).mapM f := by
  induction count generalizing s i with
  | zero => exact .inr rfl
  | succ count ih =>
    have hi : i < L.mTotalCount := by omega
    have hpos : ∀ s', L.Complete s' → ∀ elems, s'.mObjElement = some elems →
        L.position elems (UInt32.ofNat i) = some i := by
      intro _ _ elems _
      rw [position_plain elems fun hmethods => ?_, toNat_ofNat hi]
      have hle := hplain hmethods
      rw [toNat_ofNat hi]
      omega
    rw [CEntryList.acquireAll]
    rcases h.acquireObjByIndex hgranted (low_ofNat_lt hi) hi hpos with
      ⟨rfl, hacquire⟩ | ⟨s', hacquire, hs', hothers⟩
    · rw [hacquire]
      exact .inl ⟨rfl, rfl⟩
    · right
      rw [hacquire, List.range'_succ, List.mapM_cons, hf i (Nat.le_refl i)]
      rcases f i with e | object
      · rfl
      · have hrest : ∀ j, i + 1 ≤ j → L.objectOf env s' j = f j := by
          intro j hj
          rw [← hf j (by omega), objectOf, objectOf, hothers j (by omega)]
        have hgranted' : L.Granted env s' := fun hnone => absurd hnone hs'.ne_none
        rcases ih (.inr hs') hgranted' (i + 1) hrest (by omega)
          (fun hmethods => by have hle := hplain hmethods; omega) with ⟨rfl, -⟩ | hall
        · exact absurd rfl hs'.ne_none
        · simp only
          rcases hrun : L.acquireAll env count (i + 1) s' with ⟨e | objects, s''⟩ <;>
            rw [hrun] at hall <;> rw [← hall] <;> rfl

/-! ### Requests -/

theorem Ok.perform_kept (h : L.Ok s) (hgranted : L.Granted env s) (r : Request) :
    L.Kept s (L.perform env r s).2 := by
  rcases r with name | index | capacity
  · exact h.acquireObjByName_kept hgranted name
  · exact h.acquireObjByIndex_kept hgranted index
  · rw [perform, GetAllObjInfos]
    split_ifs
    · exact h.kept
    · exact h.kept
    · exact h.acquireAll_kept hgranted _ _

theorem Ok.answers (h : L.Ok s) {r : Request} (hclear : L.Clear s (r, env)) :
    (s = {} ∧ L.perform env r s = (.error (.ec E_OUT_OF_MEMORY), s)) ∨
      L.Answers env s r (L.perform env r s).1 := by
  obtain ⟨hgranted, hr⟩ := hclear
  rcases r with name | index | capacity
  · rcases name with _ | name
    · exact .inr trivial
    · rcases h.acquireObjByName hgranted name with ⟨hs, hout⟩ | ⟨hfound, hmissing⟩
      · rw [perform, single, hout]
        exact .inl ⟨hs, rfl⟩
      · right
        rw [perform, single]
        refine ⟨fun i hkey honly => ?_, fun hnone => ?_⟩
        · rw [← hfound i hkey honly]
        · rw [hmissing hnone]
          rfl
  · have hentry (i : ℕ) (hlow : (index &&& 0xFFFF).toNat < L.mTotalCount)
        (hi : i < L.mTotalCount) (hpos : ∀ s', L.Complete s' → ∀ elems,
          s'.mObjElement = some elems → L.position elems index = some i) :
        (s = {} ∧ L.perform env (.byIndex index) s = (.error (.ec E_OUT_OF_MEMORY), s)) ∨
          (L.perform env (.byIndex index) s).1 = (L.objectOf env s i).map fun o => [o] := by
      rcases h.acquireObjByIndex hgranted hlow hi hpos with ⟨hs, hout⟩ | ⟨s', hout, -⟩
      · rw [perform, single, hout]
        exact .inl ⟨hs, rfl⟩
      · rw [perform, single, hout]
        exact .inr rfl
    by_cases hoom : s = {} ∧ L.perform env (.byIndex index) s = (.error (.ec E_OUT_OF_MEMORY), s)
    · exact .inl hoom
    · right
      refine ⟨fun hlt hplain => ?_, fun i hindex => ?_⟩
      · have hlow : (index &&& 0xFFFF).toNat < L.mTotalCount := by
          rw [toNat_low]
          exact Nat.lt_of_le_of_lt (Nat.mod_le _ _) hlt
        exact (hentry index.toNat hlow hlt fun _ _ elems _ =>
          position_plain elems hplain).resolve_left hoom
      · obtain ⟨hlow, honly⟩ := hr i hindex
        exact (hentry i hlow hindex.lt fun s' hs' elems helems =>
          hs'.position_method helems hindex honly).resolve_left hoom
  · rw [perform, GetAllObjInfos, Answers]
    by_cases hcapacity : capacity = 0
    · exact .inr fun hne => absurd hcapacity hne
    · by_cases htotal : L.mTotalCount = 0
      · right
        intro _
        rw [if_neg hcapacity, if_pos htotal, htotal, Nat.min_zero]
        rfl
      · rw [if_neg hcapacity, if_neg htotal, List.range_eq_range']
        rcases h.acquireAll hgranted (min capacity L.mTotalCount) 0 (fun _ _ => rfl)
          (by omega) (fun hmethods => by have hle := hr hmethods; omega) with hoom | hall
        · exact .inl hoom
        · exact .inr fun _ => hall

/-- **One request** that is clear, to a list that is complete or has not been made. -/
theorem Ok.right (h : L.Ok s) {a : Request × Env} (hclear : L.Clear s a) : L.Right s a := by
  have hkept := h.perform_kept hclear.1 a.1
  refine ⟨hkept.object, fun hmade => ?_, ?_⟩
  · refine hkept.ok.resolve_left fun hempty => hmade ?_
    rw [hempty]
  · rcases h.answers hclear with ⟨rfl, hout⟩ | hanswers
    · exact .inl ⟨hout, rfl⟩
    · exact .inr hanswers

/-! ### Runs -/

/-- The table of the callback methods has the methods of the list, in order. -/
theorem map_mCBMethodDesc (es : List IFIndexEntry) (eventNum : UInt32) :
    (Source.mCBMethodDesc es eventNum).map (fun c => (some c.2.1, c.2.2)) =
      (es.flatMap fun e => e.mMethods.mapIdx (methodRow e)).map fun row =>
        (row.1.mDesc, row.1.mIndex) := by
  induction es generalizing eventNum with
  | nil => rfl
  | cons e es ih =>
    rw [Source.mCBMethodDesc, List.map_append, ih, List.flatMap_cons, List.map_append,
      List.mapIdx_eq_zipIdx_map, List.mapIdx_eq_zipIdx_map, List.map_map, List.map_map]
    rfl

/-- A listed method is found with its descriptor and its index. -/
theorem entry_method (hmethods : isMethods L.mType) {elem : ObjElement} {key : Name}
    (hrow : L.rows[i]? = some (elem, key)) : (L.entry i).IsMethod elem.mDesc elem.mIndex := by
  rw [entry, hrow, descriptor]
  have hrows := hrow
  rw [Source.rows] at hrows
  rcases htype : L.mType <;> rw [htype] at hmethods hrows <;>
    try exact absurd hmethods (by decide)
  · exact .inr (.inl rfl)
  · have hmap := congrArg (·[i]?) (map_mCBMethodDesc L.mIFList 1)
    simp only [List.getElem?_map, hrows, Option.map_some] at hmap
    obtain ⟨⟨eventNum, desc, index⟩, hdesc, heq⟩ := Option.map_eq_some_iff.mp hmap
    rw [hdesc]
    exact .inr (.inr ⟨eventNum, by rw [← (Prod.mk.inj heq).1, ← (Prod.mk.inj heq).2]⟩)
  · exact .inl rfl

end

/-- **Entry lists.** The objects are made for the listed methods, and in every run of requests that
are clear each one is served right. -/
theorem requests_right (L : CEntryList) (requests : List (Request × Env))
    (h : Trace.Meets L.step L.Clear {} requests) :
    (∀ (i : ℕ) (elem : ObjElement) (key : Name), isMethods L.mType →
      L.rows[i]? = some (elem, key) → (L.entry i).IsMethod elem.mDesc elem.mIndex) ∧
      Trace.Meets L.step L.Right {} requests := by
  refine ⟨fun i elem key hmethods hrow => entry_method hmethods hrow, ?_⟩
  refine Trace.Meets.imp_of_invariant (I := L.Ok) (fun s a hs hclear => hs.right hclear)
    (fun s a s' hs hclear hstep => ?_) (.inl rfl) h
  rw [← Option.some.inj hstep]
  exact (hs.perform_kept hclear.1 a.1).ok

/-- The list of an interface with one method, that has no bases with methods. -/
def oneMethod : CEntryList where
  mType := .Method
  mDesc := ⟨id, id⟩
  mTotalCount := 1
  mClsMod := ⟨fun _ => ⟨[], none⟩, fun _ => ⟨[], none⟩, fun _ => ⟨[], none⟩, fun _ => ⟨[], none⟩,
    fun _ => ⟨[], none⟩, fun _ => ⟨[], none⟩, 0⟩
  mIFList := [⟨1, by decide, 4, [73], none, [⟨[102], [40, 41]⟩]⟩]
  counted := rfl
  mTotalCount_lt := by decide

/-- Everything is granted. -/
def plenty : Env := ⟨true, fun _ => true, fun _ => .ok 7⟩

/-- The array is granted, and nothing in the hash table. -/
def scarce : Env := ⟨true, fun _ => false, fun _ => .ok 7⟩

/-- Requests by the key of the method, by its place and for all methods. -/
theorem requests_right_oneMethod :
    (oneMethod.entry 0).IsMethod (some ⟨[102], [40, 41]⟩) 0x20004 ∧
      Trace.Meets oneMethod.step oneMethod.Right {}
        [(.byName (some [102, 40, 41]), plenty), (.byIndex 0, plenty), (.all 3, plenty)] := by
  have hright := requests_right oneMethod
    [(.byName (some [102, 40, 41]), plenty), (.byIndex 0, plenty), (.all 3, plenty)] ?_
  · exact ⟨hright.1 0 _ _ rfl rfl, hright.2⟩
  · refine .cons ⟨fun _ _ _ _ => rfl, trivial⟩ rfl (.cons ⟨fun _ _ _ _ => rfl, ?_⟩ rfl
      (.cons ⟨fun _ _ _ _ => rfl, fun _ => by decide⟩ rfl trivial))
    rintro i ⟨-, elem, key, hrow, hindex⟩
    obtain rfl : i = 0 := Nat.lt_one_iff.mp (lt_of_getElem? hrow)
    obtain ⟨rfl, -⟩ := Prod.mk.inj (Option.some.inj hrow)
    exact absurd hindex (by decide)

/-- **The index of the only method** has the number 4, and is not found. And after the hash table
had no memory for the key, the key is not found although the list is taken as complete. -/
theorem not_requests_right :
    ¬Trace.Meets oneMethod.step oneMethod.Right {} [(.byIndex (MK_METHOD_INDEX 1 4), plenty)] ∧
      ¬Trace.Meets oneMethod.step oneMethod.Right {}
        [(.byName (some [102, 40, 41]), scarce), (.byName (some [102, 40, 41]), plenty)] ∧
      (oneMethod.perform plenty (.byName (some [102, 40, 41]))
        (oneMethod.perform scarce (.byName (some [102, 40, 41])) {}).2).1 =
          .error (.ec E_DOES_NOT_EXIST) := by
  refine ⟨fun h => ?_, fun h => ?_, rfl⟩
  · obtain ⟨⟨-, -, ⟨hout, -⟩ | hanswers⟩, -⟩ := h
    · exact absurd (congrArg Prod.fst hout) (by decide)
    · have hzero := hanswers.2 0 ⟨rfl, _, _, rfl, rfl⟩
      exact absurd hzero (by decide)
  · obtain ⟨⟨-, hcomplete, -⟩, -⟩ := h
    have hfound := (hcomplete (Option.some_ne_none _)).found 0 [102, 40, 41] ⟨_, rfl⟩ fun j hj => by
      obtain ⟨elem, hrow⟩ := hj
      exact Nat.lt_one_iff.mp (lt_of_getElem? hrow)
    exact absurd hfound (by decide)

end CEntryList

end ElastosCar.EntryList
