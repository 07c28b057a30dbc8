import ElastosCar.Lib.Forest
import ElastosCar.Lib.Trace
import ElastosCar.Types

/-!
# The interface lists of classes and interfaces

`CreateIFList` of `CClassInfo.cpp` and of `CInterfaceInfo.cpp`. An interface info lists the
inheritance chain of its interface, root first, and numbers the methods of the chain one after the
other from `METHOD_START_NO` on. A class info merges the chains of all interfaces of its class in one
list, marks each entry as reached through a normal interface, a callback interface or both, and
splits the list by these marks.

The parents form a forest with the one root 0 (`CLSModule.acyclic`), so an interface has one place in
the numbering: above it stand the methods of its proper ancestors, `beginNo`. Here are the two
functions and what they compute: `Tally` is the state of the class's scan with the numbers left out.
-/

namespace ElastosCar.IFList

open Forest

/-! ### Class metadata -/

variable {n : ℕ}

structure InterfaceDescriptor (n : ℕ) where
  mMethodCount : UInt16
  mParentIndex : Fin n
  /-- The `j`-th pointer of the array `mMethods`. -/
  mMethods : ℕ → UInt32

structure InterfaceDirEntry (n : ℕ) where
  mName : UInt32
  mNameSpace : UInt32
  mDesc : InterfaceDescriptor n

/-- The parent of an interface. The walks end at index 0 and do not read its `mParentIndex`. -/
def parent (mInterfaceDirs : Fin n → InterfaceDirEntry n) (index : Fin n) : Option (Fin n) :=
  if index.val = 0 then none else some (mInterfaceDirs index).mDesc.mParentIndex

/-- What `CreateIFList` reads of a `CClsModule` with `n` interfaces. -/
structure CLSModule (n : ℕ) where
  mBase : UInt32
  mInterfaceDirs : Fin n → InterfaceDirEntry n
  /-- `mInterfaceCount` is an `unsigned short`. -/
  mInterfaceCount_lt : n < 65536
  acyclic : Acyclic (parent mInterfaceDirs)

structure ClassInterface (n : ℕ) where
  mIndex : Fin n
  mAttribs : UInt16

def ClassInterfaceAttrib_callback : UInt16 := 0x0002

def ClassInterface.isCallBack (cifDir : ClassInterface n) : Bool :=
  cifDir.mAttribs &&& ClassInterfaceAttrib_callback != 0

structure ClassDescriptor (n : ℕ) where
  mInterfaces : List (ClassInterface n)

def METHOD_START_NO : UInt32 := 4

/-- `MK_METHOD_INDEX(i, m)`. -/
def MK_METHOD_INDEX (i m : UInt32) : UInt32 := (i + 1) <<< 16 ||| m

def adjustNameAddr (base name : UInt32) : UInt32 := if name ≠ 0 then name + base else name

def getMethodDescAddr (base : UInt32) (desc : ℕ → UInt32) (index : ℕ) : UInt32 := desc index + base

namespace CLSModule

variable (m : CLSModule n)

abbrev desc (index : Fin n) : InterfaceDescriptor n := (m.mInterfaceDirs index).mDesc

abbrev up : Fin n → Option (Fin n) := parent m.mInterfaceDirs

/-- The loop `while (index != 0)` of both functions, with the closing 0. `indexList` has one slot for
each interface of the module; `none` is a store behind them. -/
def climb : ℕ → Fin n → Option (List (Fin n))
  | 0, _ => none
  | slots + 1, index =>
    if index.val = 0 then some [index]
    else (climb slots (m.desc index).mParentIndex).map (index :: ·)

end CLSModule

structure IFIndexEntry (n : ℕ) where
  mIndex : Fin n
  mBeginNo : UInt32
  mName : UInt32
  mNameSpace : UInt32
  mDesc : InterfaceDescriptor n
  mAttribs : UInt32

/-- The attribute an interface of a class gives its ancestors: `IFAttrib_normal`, or
`IFAttrib_callback`. -/
def ifAttrib (isCallBack : Bool) : UInt32 := if isCallBack then 0x02 else 0x01

namespace IFIndexEntry

def has (isCallBack : Bool) (e : IFIndexEntry n) : Bool := e.mAttribs &&& ifAttrib isCallBack != 0

/-- The number behind the methods of an entry. -/
def endNo (e : IFIndexEntry n) : UInt32 := e.mBeginNo + e.mDesc.mMethodCount.toUInt32

/-- What `CEntryList::InitElemList` and the callback table store for the methods of an entry: the
method's descriptor and its method index. -/
def methods (m : CLSModule n) (e : IFIndexEntry n) : List (UInt32 × UInt32) :=
  (List.range e.mDesc.mMethodCount.toNat).map fun j =>
    (getMethodDescAddr m.mBase e.mDesc.mMethods j,
      MK_METHOD_INDEX (UInt32.ofNat e.mIndex) (e.mBeginNo + UInt32.ofNat j))

end IFIndexEntry

/-- The entry of an interface, filled from its directory entry. -/
def CLSModule.newEntry (m : CLSModule n) (index : Fin n) (beginNo attribs : UInt32) :
    IFIndexEntry n where
  mIndex := index
  mBeginNo := beginNo
  mName := adjustNameAddr m.mBase (m.mInterfaceDirs index).mName
  mNameSpace := adjustNameAddr m.mBase (m.mInterfaceDirs index).mNameSpace
  mDesc := m.desc index
  mAttribs := attribs

/-- The method counts of a list, added up in a `UInt32`. -/
def methodSum (l : List (IFIndexEntry n)) : UInt32 :=
  l.foldl (fun sum e => sum + e.mDesc.mMethodCount.toUInt32) 0

/-! ### The interface info -/

structure CInterfaceInfo (n : ℕ) where
  mIndex : Fin n
  mIFList : Option (List (IFIndexEntry n)) := none
  mIFCount : UInt32 := 0
  mMethodCount : UInt32 := 0

namespace CInterfaceInfo

/-- The loop that fills `mIFList`, root first. `new` leaves `mAttribs` unset, and nothing reads it. -/
def number (m : CLSModule n) : UInt32 → List (Fin n) → List (IFIndexEntry n)
  | _, [] => []
  | beginNo, index :: l =>
    let e := m.newEntry index beginNo 0
    e :: number m e.endNo l

/-- `CInterfaceInfo::CreateIFList`; `new` is whether `new` finds memory. -/
def CreateIFList (m : CLSModule n) (s : CInterfaceInfo n) (new : Bool) :
    Option (ECode × CInterfaceInfo n) :=
  if s.mIFList.isSome then some (NOERROR, s)
  else
    (m.climb n s.mIndex).map fun indexList =>
      let s := { s with mIFCount := UInt32.ofNat indexList.length }
      if !new then (E_OUT_OF_MEMORY, s)
      else
        let l := number m METHOD_START_NO indexList.reverse
        (NOERROR, { s with mIFList := some l, mMethodCount := methodSum l })

end CInterfaceInfo

/-! ### The class info -/

structure CBMethodDesc where
  mDesc : UInt32
  mIndex : UInt32
  mEventNum : UInt32

structure CClassInfo (n : ℕ) where
  mIFList : Option (List (IFIndexEntry n)) := none
  mCBIFList : Option (List (IFIndexEntry n)) := none
  mCBMethodDesc : Option (List CBMethodDesc) := none
  mIFCount : UInt32 := 0
  mCBIFCount : UInt32 := 0
  mMethodCount : UInt32 := 0
  mCBMethodCount : UInt32 := 0

/-- The local variables of `CClassInfo::CreateIFList` and the two counts it keeps. -/
structure Scan (n : ℕ) where
  beginNo : UInt32 := METHOD_START_NO
  allIFList : List (IFIndexEntry n) := []
  mIFCount : UInt32 := 0
  mCBIFCount : UInt32 := 0

/-- The loop over `allIFList` that looks for an index: the entry as it was, and the list with the
attribute added to it. -/
def findEntry (index : Fin n) (attrib : UInt32) :
    List (IFIndexEntry n) → Option (IFIndexEntry n × List (IFIndexEntry n))
  | [] => none
  | e :: l =>
    if e.mIndex = index then some (e, { e with mAttribs := e.mAttribs ||| attrib } :: l)
    else (findEntry index attrib l).map fun (e', l') => (e', e :: l')

namespace Scan

def count (isCallBack : Bool) (s : Scan n) : Scan n :=
  if !isCallBack then { s with mIFCount := s.mIFCount + 1 }
  else { s with mCBIFCount := s.mCBIFCount + 1 }

/-- One pass of the loop over `indexList`. `allIFList` has one slot for each interface of the module;
`none` is a store behind them. -/
def visit (m : CLSModule n) (isCallBack : Bool) (s : Scan n) (index : Fin n) : Option (Scan n) :=
  match findEntry index (ifAttrib isCallBack) s.allIFList with
  | some (e, l) =>
    let s := if e.has isCallBack then s else s.count isCallBack
    some { s with beginNo := e.endNo, allIFList := l }
  | none =>
    if s.allIFList.length < n then
      let e := m.newEntry index s.beginNo (ifAttrib isCallBack)
      let s := s.count isCallBack
      some { s with beginNo := e.endNo, allIFList := s.allIFList ++ [e] }
    else none

/-- One pass of the loop over the interfaces of the class: the chain is walked from its root on. -/
def visitChain (m : CLSModule n) (s : Scan n) (cifDir : ClassInterface n) : Option (Scan n) :=
  (m.climb n cifDir.mIndex).bind fun indexList =>
    indexList.reverse.foldlM (visit m cifDir.isCallBack) s

end Scan

/-- Which of the three `new`s of `CClassInfo::CreateIFList` find memory. -/
structure News where
  mIFList : Bool
  mCBIFList : Bool
  mCBMethodDesc : Bool

namespace CClassInfo

/-- The callback method table: the event numbers run on, with a gap of two behind each interface. -/
def callbackMethods (m : CLSModule n) : UInt32 → List (IFIndexEntry n) → List CBMethodDesc
  | _, [] => []
  | eventNum, e :: l =>
    (e.methods m).mapIdx (fun j d => ⟨d.1, d.2, eventNum + UInt32.ofNat j⟩) ++
      callbackMethods m (eventNum + e.mDesc.mMethodCount.toUInt32 + 2) l

/-- The part of `CreateIFList` behind the scan. The label `EExit` clears what the constructor clears.
`none` is a store behind one of the three arrays. -/
def fill (m : CLSModule n) (new : News) (s : Scan n) : Option (ECode × CClassInfo n) :=
  let mCBIFCount := if s.mCBIFCount ≠ 0 then s.mCBIFCount - 1 else 0
  let ifs := s.allIFList.filter (·.has false)
  -- i && mCBIFCount && ...
  let cbifs := if mCBIFCount ≠ 0 then s.allIFList.tail.filter (·.has true) else []
  let cbMethods := callbackMethods m 1 cbifs
  if !new.mIFList || (s.mCBIFCount ≠ 0 && !new.mCBIFList) then some (E_OUT_OF_MEMORY, {})
  else if s.mIFCount.toNat < ifs.length ∨ mCBIFCount.toNat < cbifs.length then none
  else if !new.mCBMethodDesc then some (E_OUT_OF_MEMORY, {})
  else if (methodSum cbifs).toNat < cbMethods.length then none
  else some (NOERROR, {
    mIFList := some ifs
    mCBIFList := if s.mCBIFCount ≠ 0 then some cbifs else none
    mCBMethodDesc := some cbMethods
    mIFCount := s.mIFCount
    mCBIFCount := mCBIFCount
    mMethodCount := methodSum ifs
    mCBMethodCount := methodSum cbifs })

/-- `CClassInfo::CreateIFList`. -/
def CreateIFList (m : CLSModule n) (c : ClassDescriptor n) (s : CClassInfo n) (new : News) :
    Option (ECode × CClassInfo n) :=
  if s.mIFList.isSome then some (NOERROR, s)
  else (c.mInterfaces.foldlM (Scan.visitChain m) {}).bind (fill m new)

end CClassInfo

/-! ### The place of an interface -/

namespace CLSModule

variable (m : CLSModule n) {x y : Fin n} {l : List (Fin n)} {slots : ℕ}

/-- The method count of an interface. -/
def methodCount (x : Fin n) : ℕ := (m.desc x).mMethodCount.toNat

/-- The place of an interface in the numbering: behind the methods of its proper ancestors. -/
noncomputable def beginNo (x : Fin n) : ℕ :=
  METHOD_START_NO.toNat + weightAbove m.up m.methodCount x

/-- The interface at its place. -/
noncomputable def entry (attribs : UInt32) (x : Fin n) : IFIndexEntry n :=
  m.newEntry x (UInt32.ofNat (m.beginNo x)) attribs

variable {m}

theorem up_eq_none : m.up x = none ↔ x.val = 0 := by
  rw [up, parent]
  split <;> simp_all

theorem beginNo_of_root (h : m.up x = none) : m.beginNo x = METHOD_START_NO.toNat := by
  rw [beginNo, weightAbove_of_root h, add_zero]

theorem beginNo_of_up (h : m.up x = some y) : m.beginNo x = m.beginNo y + m.methodCount y := by
  rw [beginNo, beginNo, weightAbove_of_up m.acyclic h, add_assoc]

/-- No number passes the range of a `UInt32`: an `unsigned short` of interfaces with an
`unsigned short` of methods each. -/
theorem sum_methodCount_lt (s : Finset (Fin n)) : 4 + ∑ x ∈ s, m.methodCount x < 4294967296 := by
  have hle : ∑ x ∈ s, m.methodCount x ≤ s.card * 65535 :=
    Finset.sum_le_card_nsmul s _ _ fun x _ => Nat.le_of_lt_succ (m.desc x).mMethodCount.toNat_lt
  have hcard : s.card ≤ n := by simpa using s.card_le_univ
  have hn := m.mInterfaceCount_lt
  omega

theorem beginNo_lt (x : Fin n) : m.beginNo x < 4294967296 := sum_methodCount_lt _

@[simp]
theorem entry_mIndex (attribs : UInt32) (x : Fin n) : (m.entry attribs x).mIndex = x := rfl

theorem entry_endNo (attribs : UInt32) (x : Fin n) :
    (m.entry attribs x).endNo = UInt32.ofNat (m.beginNo x + m.methodCount x) := by
  rw [UInt32.ofNat_add, methodCount, UInt32.ofNat_uInt16ToNat]
  rfl

/-- The chain of an interface fits the slots, whatever the interface. -/
theorem climb_of_path (h : Path m.up x l) (hslots : l.length ≤ slots) :
    m.climb slots x = some l := by
  induction h generalizing slots with
  | root h =>
    obtain ⟨slots, rfl⟩ : ∃ k, slots = k + 1 := Nat.exists_eq_add_one.mpr hslots
    rw [climb, if_pos (up_eq_none.mp h)]
  | @step x y l h _ ih =>
    obtain ⟨slots, rfl⟩ : ∃ k, slots = k + 1 := Nat.exists_eq_add_one.mpr (by simp at hslots; omega)
    have hx : x.val ≠ 0 := fun h0 => by simp [up_eq_none.mpr h0] at h
    obtain rfl : (m.desc x).mParentIndex = y := by
      rw [up, parent, if_neg hx] at h
      exact Option.some.inj h
    rw [climb, if_neg hx, ih (Nat.le_of_succ_le_succ hslots), Option.map_some]

theorem exists_climb (m : CLSModule n) (x : Fin n) :
    ∃ l, Path m.up x l ∧ m.climb n x = some l := by
  obtain ⟨l, hl⟩ := Path.exists m.acyclic x
  have hlength : l.length ≤ n := by simpa using (hl.nodup m.acyclic).length_le_card
  exact ⟨l, hl, climb_of_path hl hlength⟩

end CLSModule

/-! ### What the interface info computes -/

namespace CInterfaceInfo

variable {m : CLSModule n} {x : Fin n} {l : List (Fin n)}

theorem number_append (beginNo : UInt32) (l : List (Fin n)) (x : Fin n) :
    number m beginNo (l ++ [x]) =
      number m beginNo l ++
        [m.newEntry x (l.foldl (fun no x => no + (m.desc x).mMethodCount.toUInt32) beginNo) 0] := by
  induction l generalizing beginNo with
  | nil => rfl
  | cons y l ih => exact congrArg (_ :: ·) (ih _)

/-- Every interface of the chain gets its place, and the next number is the one behind them. -/
theorem number_of_path (h : Path m.up x l) :
    number m METHOD_START_NO l.reverse = l.reverse.map (m.entry 0) ∧
      l.reverse.foldl (fun no x => no + (m.desc x).mMethodCount.toUInt32) METHOD_START_NO =
        UInt32.ofNat (m.beginNo x + m.methodCount x) := by
  induction h with
  | @root x h =>
    have hbegin : UInt32.ofNat (m.beginNo x) = METHOD_START_NO := by
      rw [CLSModule.beginNo_of_root h, UInt32.ofNat_toNat]
    refine ⟨?_, ?_⟩
    · simp [number, CLSModule.entry, hbegin]
    · simp [UInt32.ofNat_add, hbegin, CLSModule.methodCount]
  | @step x y l h _ ih =>
    have hbegin : UInt32.ofNat (m.beginNo x) = UInt32.ofNat (m.beginNo y + m.methodCount y) := by
      rw [CLSModule.beginNo_of_up h]
    refine ⟨?_, ?_⟩
    · rw [List.reverse_cons, number_append, ih.1, ih.2, ← hbegin, List.map_append]
      rfl
    · rw [List.reverse_cons, List.foldl_append, ih.2, ← hbegin, UInt32.ofNat_add]
      simp [CLSModule.methodCount]

end CInterfaceInfo

end ElastosCar.IFList
