import ElastosCar.Lib.LockOrder
import ElastosCar.Reflect.StructInfo

/-!
# The table locks of reflection

`CObjInfoList` guards its tables and lists by ten recursive locks. Every `Release` of an info takes the
lock of its kind, and if it was the last reference the destructor releases what the info holds under
this lock; an `Acquire*` takes a lock and may make infos of other kinds under it.

An operation is described by what it meets: which `Release` is the last one, what an `Acquire*` finds,
and how far it gets. Its `events` are the locks it takes and gives back. Only these are modelled here;
the tables themselves are in `InfoCache` and `InfoLists`. An `Acquire*` with a null argument takes no
lock, and is left out.

The locks are taken in the order of `rank`, but for two paths. The data type lock is held while an
element info is released, and if that is a struct info its lock is taken there, although the fields of a
struct are acquired the other way round. And `AcquireDynamicEnumInfo` returns an enum that it finds
without giving its lock back.
-/

namespace ElastosCar.TableLocks

open LockEvent

/-- What `LockHashTable` is called with. -/
inductive EntryType
  | Module | Aspect | Aggregatee | Class | ClassInterface | Interface | Struct | Constant | Enum | TypeAliase
  | Constructor | CBMethod | Method | DataType | Local | ClsModule
deriving DecidableEq, Repr

inductive TableLock
  | mLockTypeAlias | mLockEnum | mLockClass | mLockStruct | mLockMethod | mLockInterface | mLockModule
  | mLockDataType | mLockLocal | mLockClsModule
deriving DecidableEq, Repr

/-- The `switch` of `LockHashTable` and `UnlockHashTable`. -/
def EntryType.table : EntryType → TableLock
  | Module => .mLockModule
  | Aspect | Aggregatee | Class => .mLockClass
  | ClassInterface | Interface => .mLockInterface
  | Struct => .mLockStruct
  | Constant | Enum => .mLockEnum
  | TypeAliase => .mLockTypeAlias
  | Constructor | CBMethod | Method => .mLockMethod
  | DataType => .mLockDataType
  | Local => .mLockLocal
  | ClsModule => .mLockClsModule

abbrev Events := List (LockEvent TableLock)

/-- What runs between `LockHashTable` and `UnlockHashTable`. -/
def locked (type : EntryType) (body : Events) : Events := crit type.table body

/-! ### Releases -/

/-- The destructor of `CClsModule` takes no lock. -/
def CClsModule.Release : Events := locked .ClsModule []

/-- `last`: the reference was the last one. -/
def CMethodInfo.Release (last : Bool) : Events :=
  locked .Method (if last then CClsModule.Release else [])

def CTypeAliasInfo.Release (last : Bool) : Events :=
  locked .TypeAliase (if last then CClsModule.Release else [])

def CLocalPtrInfo.Release (last : Bool) : Events :=
  locked .Local (if last then CClsModule.Release else [])

/-- `ElLightRefBase::Release`, as those of `CConstructorInfo` and `CCallbackMethodInfo`. -/
def CConstantInfo.Release (last : Bool) : Events := if last then CClsModule.Release else []

/-- An info that has a method info, with the `Release` of this one if it was the last reference. -/
abbrev FunctionRelease := Option (Option Bool)

def releaseFunction : FunctionRelease → Events
  | some (some method) => CMethodInfo.Release method
  | some none | none => []

def CConstructorInfo.Release (r : FunctionRelease) : Events := releaseFunction r

def CCallbackMethodInfo.Release (r : FunctionRelease) : Events := releaseFunction r

inductive EnumRelease
  | shared
  /-- The last reference; a dynamic enum has no module. -/
  | last (isStatic : Bool)
deriving DecidableEq, Repr

def CEnumInfo.Release : EnumRelease → Events
  | .shared => locked .Enum []
  | .last isStatic => locked .Enum (if isStatic then CClsModule.Release else [])

/-- The destructor of `CEntryList`: the objects of the elements, and the module. -/
def CEntryList.destroy {α : Type} (release : α → Events) : Option (List α) → Events
  | none => []
  | some objects => objects.flatMap release ++ CClsModule.Release

inductive InterfaceRelease
  | shared
  | last (methodList : Option (List Bool))
deriving DecidableEq, Repr

/-- The members of a class are destroyed in the reverse order of their declaration. -/
def CInterfaceInfo.Release : InterfaceRelease → Events
  | .shared => locked .Interface []
  | .last methodList =>
    locked .Interface (CEntryList.destroy CMethodInfo.Release methodList ++ CClsModule.Release)

inductive ClassRelease
  | shared
  | last (genericInfo ctorClassInfo : Option ClassRelease)
      (cbMethodList ctorList : Option (List FunctionRelease))
      (interfaceList cbInterfaceList : Option (List InterfaceRelease)) (methodList : Option (List Bool))
      (aggregateeList aspectList : Option (List ClassRelease))

mutual

def CClassInfo.Release : ClassRelease → Events
  | .shared => locked .Class []
  | .last genericInfo ctorClassInfo cbMethodList ctorList interfaceList cbInterfaceList methodList
      aggregateeList aspectList =>
    locked .Class
      (CClassInfo.releaseMember genericInfo ++ CClassInfo.releaseMember ctorClassInfo ++
        CEntryList.destroy CCallbackMethodInfo.Release cbMethodList ++
        CEntryList.destroy CConstructorInfo.Release ctorList ++
        CEntryList.destroy CInterfaceInfo.Release interfaceList ++
        CEntryList.destroy CInterfaceInfo.Release cbInterfaceList ++
        CEntryList.destroy CMethodInfo.Release methodList ++
        CClassInfo.destroyList aggregateeList ++ CClassInfo.destroyList aspectList ++
        CClsModule.Release)

def CClassInfo.releaseMember : Option ClassRelease → Events
  | none => []
  | some r => CClassInfo.Release r

/-- `CEntryList.destroy` for a list of class infos. -/
def CClassInfo.destroyList : Option (List ClassRelease) → Events
  | none => []
  | some objects => CClassInfo.releaseAll objects ++ CClsModule.Release

def CClassInfo.releaseAll : List ClassRelease → Events
  | [] => []
  | r :: rs => CClassInfo.Release r ++ CClassInfo.releaseAll rs

end

/-- A `Release` of an `IDataTypeInfo`. -/
inductive TypeRelease
  /-- A `CIntrinsicInfo` or `CLocalTypeInfo`: no lock, and the object list has a reference. -/
  | unlocked
  | localPtr (last : Bool)
  | interface (r : InterfaceRelease)
  | enum (r : EnumRelease)
  | struct
  /-- The last reference to a struct info, with the releases of its field type infos if it has the last
  reference to their array. -/
  | structLast (fieldTypeInfos : List TypeRelease) (isStatic : Bool)
  | cppVector
  | cppVectorLast (element : TypeRelease)
  | carArray
  | carArrayLast (element : TypeRelease)

mutual

/-- The `Release` of an `IDataTypeInfo`, by its kind. -/
def TypeRelease.events : TypeRelease → Events
  | .unlocked => []
  | .localPtr last => CLocalPtrInfo.Release last
  | .interface r => CInterfaceInfo.Release r
  | .enum r => CEnumInfo.Release r
  | .struct => locked .Struct []
  | .structLast fieldTypeInfos isStatic =>
    locked .Struct ((if isStatic then CClsModule.Release else []) ++ TypeRelease.eventsAll fieldTypeInfos)
  | .cppVector | .carArray => locked .DataType []
  | .cppVectorLast element | .carArrayLast element => locked .DataType element.events

def TypeRelease.eventsAll : List TypeRelease → Events
  | [] => []
  | r :: rs => r.events ++ TypeRelease.eventsAll rs

end

inductive ModuleRelease
  | shared
  | last (constantList aliasList : Option (List Bool)) (enumList : Option (List EnumRelease))
      (structList : Option (List TypeRelease)) (interfaceList : Option (List InterfaceRelease))
      (classList : Option (List ClassRelease))

def CModuleInfo.Release : ModuleRelease → Events
  | .shared => locked .Module []
  | .last constantList aliasList enumList structList interfaceList classList =>
    locked .Module
      (CEntryList.destroy CConstantInfo.Release constantList ++
        CEntryList.destroy CTypeAliasInfo.Release aliasList ++
        CEntryList.destroy CEnumInfo.Release enumList ++
        CEntryList.destroy TypeRelease.events structList ++
        CEntryList.destroy CInterfaceInfo.Release interfaceList ++
        CEntryList.destroy CClassInfo.Release classList ++ CClsModule.Release)

/-! ### Acquires -/

/-- How an `Acquire*` that fills a table ends. -/
inductive Outcome
  /-- `*object` was not null, the table has the info, or `new` fails. -/
  | given
  /-- A new info is in the table; the smart pointer goes before the lock does. -/
  | made
  /-- `Init` or `Put` fails; the smart pointer goes after the lock. -/
  | failed
deriving DecidableEq, Repr

/-- An `Acquire*` of a table: what `Init` does, and the release of the smart pointer when another
reference is left and when none is. -/
def acquire (type : EntryType) (init release destroy : Events) : Outcome → Events
  | .given => locked type []
  | .made => locked type (init ++ release)
  | .failed => locked type init ++ destroy

def AcquireClassInfo (o : Outcome) : Events :=
  acquire .Class [] (CClassInfo.Release .shared)
    (CClassInfo.Release (.last none none none none none none none none none)) o

def AcquireStaticEnumInfo (o : Outcome) : Events :=
  acquire .Enum [] (CEnumInfo.Release .shared) (CEnumInfo.Release (.last true)) o

def AcquireTypeAliasInfo (o : Outcome) : Events :=
  acquire .TypeAliase [] (CTypeAliasInfo.Release false) (CTypeAliasInfo.Release true) o

def AcquireInterfaceInfo (o : Outcome) : Events :=
  acquire .Interface [] (CInterfaceInfo.Release .shared) (CInterfaceInfo.Release (.last none)) o

def AcquireMethodInfo (o : Outcome) : Events :=
  acquire .Method [] (CMethodInfo.Release false) (CMethodInfo.Release true) o

def AcquireLocalPtrInfo (o : Outcome) : Events :=
  acquire .Local [] (CLocalPtrInfo.Release false) (CLocalPtrInfo.Release true) o

/-- No smart pointer is used. -/
def AcquireConstantInfo : Events := locked .Constant []

def AcquireIntrinsicInfo : Events := locked .DataType []

def AcquireLocalTypeInfo : Events := locked .Local []

/-- `AcquireConstructorInfo`, when `Init` is called: this acquires the method info, and releases the
reference of its own. -/
def AcquireConstructorInfo : Option Outcome → Events
  | none => locked .Constructor []
  | some .failed => locked .Constructor (AcquireMethodInfo .failed)
  | some o => locked .Constructor (AcquireMethodInfo o ++ CMethodInfo.Release false)

/-- `AcquireCBMethodInfoInfo`, when `Init` is called. -/
def AcquireCBMethodInfoInfo : Option Outcome → Events
  | none => locked .CBMethod []
  | some o => locked .CBMethod (AcquireMethodInfo o)

/-- How `AcquireModuleInfo` ends. -/
inductive ModuleOutcome
  | refused
  | found
  /-- It fails before the module info is made. -/
  | unmade
  | made
  | failed
deriving DecidableEq, Repr

def AcquireModuleInfo : ModuleOutcome → Events
  | .refused => []
  | .found => locked .Module []
  | .unmade => locked .Module (locked .ClsModule [])
  | .made => locked .Module (locked .ClsModule []) ++ CModuleInfo.Release .shared
  | .failed =>
    locked .Module (locked .ClsModule []) ++ CModuleInfo.Release (.last none none none none none none)

/-- `AcquireDynamicStructInfo`: how many nodes of the list the smart pointer gives up in the loop, and
what it has at the end. -/
def AcquireDynamicStructInfo (visited : ℕ) (temp : Option TypeRelease) : Events :=
  locked .Struct ((List.replicate visited (TypeRelease.events .struct)).flatten) ++
    (temp.elim [] TypeRelease.events)

/-- `AcquireDynamicEnumInfo`, as `AcquireDynamicStructInfo`. An enum that is `found` is returned without
`UnlockHashTable`. -/
def AcquireDynamicEnumInfo (visited : ℕ) (temp : Option EnumRelease) (found : Bool) : Events :=
  let loop := (List.replicate visited (CEnumInfo.Release .shared)).flatten
  if found then lock EntryType.Enum.table :: (loop ++ temp.elim [] CEnumInfo.Release)
  else locked .Enum loop ++ temp.elim [] CEnumInfo.Release

/-- `AcquireCppVectorInfo`. -/
structure VectorAcquire where
  /-- The nodes that are passed over, with the element info that is asked for if the length is right. -/
  visited : List (Option TypeRelease)
  /-- The smart pointers that go after the lock. -/
  temps : List TypeRelease

/-- Behind each node the smart pointer takes the next one, or the new info. -/
def VectorAcquire.events (a : VectorAcquire) : Events :=
  locked .DataType (a.visited.flatMap fun element =>
    element.elim [] TypeRelease.events ++ TypeRelease.events .cppVector) ++
    a.temps.flatMap TypeRelease.events

/-- `AcquireCppVectorInfo`; `none` if its element info could not be acquired. -/
def AcquireCppVectorInfo (a : Option VectorAcquire) : Events := a.elim [] VectorAcquire.events

/-- `AcquireCarArrayInfo`. -/
inductive ArrayAcquire
  /-- Its element info could not be acquired. -/
  | refused
  /-- The elements are no structs. -/
  | cached
  /-- The elements are structs: the element infos of the nodes that are passed over, whether the smart
  pointer gives up one more node, and the smart pointers that go after the lock. -/
  | listed (visited : List TypeRelease) (more : Bool) (temps : List TypeRelease)

def AcquireCarArrayInfo : ArrayAcquire → Events
  | .refused => []
  | .cached => locked .DataType []
  | .listed visited more temps =>
    locked .DataType ((visited.flatMap fun element => TypeRelease.events .carArray ++ element.events) ++
      if more then TypeRelease.events .carArray else []) ++ temps.flatMap TypeRelease.events

mutual

/-- `AcquireDataTypeInfo`, by the type it is called for and what it meets. -/
inductive TypeAcquire
  | refused
  | localPtr (o : Outcome)
  | localType
  | intrinsic
  | interface (o : Outcome)
  | enum (o : Outcome)
  | struct (a : StructAcquire)
  /-- The element info is acquired before, and released after. -/
  | cppVector (element : TypeAcquire) (a : Option VectorAcquire) (temp : Option TypeRelease)
  | carArray (element : TypeAcquire) (a : ArrayAcquire) (temp : Option TypeRelease)

/-- `AcquireStaticStructInfo`. -/
inductive StructAcquire
  | given
  | made (fields : FieldAcquires)
  /-- `InitStatic` or `Put` fails: the releases of the fields by `InitStatic`, and that of the smart
  pointer after the lock. -/
  | failed (fields : FieldAcquires) (exit : List TypeRelease) (temp : TypeRelease)

/-- The loop of `InitStatic`: each type info has a smart pointer for one turn. -/
inductive FieldAcquires
  | nil
  | cons (field : TypeAcquire) (temp : Option TypeRelease) (fields : FieldAcquires)

end

mutual

def TypeAcquire.events : TypeAcquire → Events
  | .refused => []
  | .localPtr o => AcquireLocalPtrInfo o
  | .localType => AcquireLocalTypeInfo
  | .intrinsic => AcquireIntrinsicInfo
  | .interface o => AcquireInterfaceInfo o
  | .enum o => AcquireStaticEnumInfo o
  | .struct a => a.events
  | .cppVector element a temp =>
    element.events ++ AcquireCppVectorInfo a ++ temp.elim [] TypeRelease.events
  | .carArray element a temp =>
    element.events ++ AcquireCarArrayInfo a ++ temp.elim [] TypeRelease.events

def StructAcquire.events : StructAcquire → Events
  | .given => locked .Struct []
  | .made fields => locked .Struct (fields.events ++ TypeRelease.events .struct)
  | .failed fields exit temp => locked .Struct (fields.events ++ TypeRelease.eventsAll exit) ++ temp.events

def FieldAcquires.events : FieldAcquires → Events
  | .nil => []
  | .cons field temp fields => field.events ++ temp.elim [] TypeRelease.events ++ fields.events

end

/-! ### Operations -/

/-- An operation of a thread on the infos. -/
inductive Op
  | releaseModule (r : ModuleRelease)
  | releaseClass (r : ClassRelease)
  | releaseMethod (last : Bool)
  | releaseTypeAlias (last : Bool)
  | releaseConstant (last : Bool)
  | releaseConstructor (r : FunctionRelease)
  | releaseCallbackMethod (r : FunctionRelease)
  | releaseType (r : TypeRelease)
  | releaseClsModule
  | acquireModuleInfo (o : ModuleOutcome)
  | acquireClassInfo (o : Outcome)
  | acquireStaticStructInfo (a : StructAcquire)
  | acquireDynamicStructInfo (a : Option (ℕ × Option TypeRelease))
  | acquireStaticEnumInfo (o : Outcome)
  | acquireDynamicEnumInfo (a : Option (ℕ × Option EnumRelease × Bool))
  | acquireTypeAliasInfo (o : Outcome)
  | acquireInterfaceInfo (o : Outcome)
  | acquireMethodInfo (o : Outcome)
  | acquireDataTypeInfo (a : TypeAcquire)
  | acquireIntrinsicInfo
  | acquireLocalTypeInfo
  | acquireLocalPtrInfo (o : Outcome)
  | acquireCppVectorInfo (a : Option VectorAcquire)
  | acquireCarArrayInfo (a : ArrayAcquire)
  | acquireConstantInfo
  | acquireConstructorInfo (o : Option Outcome)
  | acquireCBMethodInfoInfo (o : Option Outcome)

def Op.events : Op → Events
  | releaseModule r => CModuleInfo.Release r
  | releaseClass r => CClassInfo.Release r
  | releaseMethod last => CMethodInfo.Release last
  | releaseTypeAlias last => CTypeAliasInfo.Release last
  | releaseConstant last => CConstantInfo.Release last
  | releaseConstructor r => CConstructorInfo.Release r
  | releaseCallbackMethod r => CCallbackMethodInfo.Release r
  | releaseType r => r.events
  | releaseClsModule => CClsModule.Release
  | acquireModuleInfo o => AcquireModuleInfo o
  | acquireClassInfo o => AcquireClassInfo o
  | acquireStaticStructInfo a => a.events
  | acquireDynamicStructInfo a => a.elim [] fun a => AcquireDynamicStructInfo a.1 a.2
  | acquireStaticEnumInfo o => AcquireStaticEnumInfo o
  | acquireDynamicEnumInfo a => a.elim [] fun a => AcquireDynamicEnumInfo a.1 a.2.1 a.2.2
  | acquireTypeAliasInfo o => AcquireTypeAliasInfo o
  | acquireInterfaceInfo o => AcquireInterfaceInfo o
  | acquireMethodInfo o => AcquireMethodInfo o
  | acquireDataTypeInfo a => a.events
  | acquireIntrinsicInfo => AcquireIntrinsicInfo
  | acquireLocalTypeInfo => AcquireLocalTypeInfo
  | acquireLocalPtrInfo o => AcquireLocalPtrInfo o
  | acquireCppVectorInfo a => AcquireCppVectorInfo a
  | acquireCarArrayInfo a => AcquireCarArrayInfo a
  | acquireConstantInfo => AcquireConstantInfo
  | acquireConstructorInfo o => AcquireConstructorInfo o
  | acquireCBMethodInfoInfo o => AcquireCBMethodInfoInfo o

/-! ### Operations in order -/

/-- The order of the locks. -/
def rank : TableLock → ℕ
  | .mLockModule => 0
  | .mLockClass => 1
  | .mLockStruct => 2
  | .mLockDataType => 3
  | .mLockInterface => 4
  | .mLockMethod => 5
  | .mLockEnum => 6
  | .mLockTypeAlias => 7
  | .mLockLocal => 8
  | .mLockClsModule => 9

theorem rank_injective : Function.Injective rank := by
  intro a b h
  cases a <;> cases b <;> first
  | rfl
  | cases h

/-- No struct info is released: what may happen under the data type lock. -/
def TypeRelease.NoStruct : TypeRelease → Prop
  | .struct | .structLast .. => False
  | .cppVectorLast element | .carArrayLast element => element.NoStruct
  | .unlocked | .localPtr _ | .interface _ | .enum _ | .cppVector | .carArray => True

mutual

/-- No struct info is released under the data type lock. -/
def TypeRelease.Clean : TypeRelease → Prop
  | .structLast fieldTypeInfos _ => TypeRelease.AllClean fieldTypeInfos
  | .cppVectorLast element | .carArrayLast element => element.NoStruct
  | .unlocked | .localPtr _ | .interface _ | .enum _ | .struct | .cppVector | .carArray => True

def TypeRelease.AllClean : List TypeRelease → Prop
  | [] => True
  | r :: rs => r.Clean ∧ TypeRelease.AllClean rs

end

/-- Nor by a search for a vector, which releases the element infos it compares. -/
def VectorAcquire.Clean (a : VectorAcquire) : Prop :=
  (∀ element, some element ∈ a.visited → element.NoStruct) ∧ ∀ r ∈ a.temps, r.Clean

def ArrayAcquire.Clean : ArrayAcquire → Prop
  | .refused | .cached => True
  | .listed visited _ temps => (∀ element ∈ visited, element.NoStruct) ∧ ∀ r ∈ temps, r.Clean

mutual

def TypeAcquire.Clean : TypeAcquire → Prop
  | .refused | .localPtr _ | .localType | .intrinsic | .interface _ | .enum _ => True
  | .struct a => a.Clean
  | .cppVector element a temp =>
    element.Clean ∧ (∀ v, a = some v → v.Clean) ∧ ∀ r, temp = some r → r.Clean
  | .carArray element a temp => element.Clean ∧ a.Clean ∧ ∀ r, temp = some r → r.Clean

def StructAcquire.Clean : StructAcquire → Prop
  | .given => True
  | .made fields => fields.Clean
  | .failed fields exit temp => fields.Clean ∧ TypeRelease.AllClean exit ∧ temp.Clean

def FieldAcquires.Clean : FieldAcquires → Prop
  | .nil => True
  | .cons field temp fields => field.Clean ∧ (∀ r, temp = some r → r.Clean) ∧ fields.Clean

end

/-- No struct info is released under the data type lock, and no dynamic enum is found. -/
def Op.Clean : Op → Prop
  | releaseModule (.last _ _ _ structList _ _) => ∀ rs, structList = some rs → ∀ r ∈ rs, r.Clean
  | releaseType r => r.Clean
  | acquireStaticStructInfo a => a.Clean
  | acquireDynamicStructInfo a => ∀ visited r, a = some (visited, some r) → r.Clean
  | acquireDynamicEnumInfo a => ∀ visited temp found, a = some (visited, temp, found) → found = false
  | acquireDataTypeInfo a => a.Clean
  | acquireCppVectorInfo a => ∀ v, a = some v → v.Clean
  | acquireCarArrayInfo a => a.Clean
  | _ => True

section Order

variable {n : ℕ} {body : Events} {type : EntryType}

theorem from_locked (h : From rank (rank type.table) body) (hn : n ≤ rank type.table) :
    From rank n (locked type body) :=
  .crit rank_injective h hn

theorem from_clsModule (hn : n ≤ 9) : From rank n CClsModule.Release := from_locked (.nil _ _) hn

theorem from_method (last : Bool) (hn : n ≤ 5) : From rank n (CMethodInfo.Release last) :=
  from_locked (.ite (fun _ => from_clsModule (by decide)) fun _ => .nil _ _) hn

theorem from_typeAlias (last : Bool) (hn : n ≤ 7) : From rank n (CTypeAliasInfo.Release last) :=
  from_locked (.ite (fun _ => from_clsModule (by decide)) fun _ => .nil _ _) hn

theorem from_localPtr (last : Bool) (hn : n ≤ 8) : From rank n (CLocalPtrInfo.Release last) :=
  from_locked (.ite (fun _ => from_clsModule (by decide)) fun _ => .nil _ _) hn

theorem from_constant (last : Bool) (hn : n ≤ 9) : From rank n (CConstantInfo.Release last) :=
  .ite (fun _ => from_clsModule hn) fun _ => .nil _ _

theorem from_function (r : FunctionRelease) (hn : n ≤ 5) : From rank n (releaseFunction r) := by
  unfold releaseFunction
  split
  · exact from_method _ hn
  all_goals exact .nil _ _

theorem from_enum (r : EnumRelease) (hn : n ≤ 6) : From rank n (CEnumInfo.Release r) := by
  cases r with
  | shared => exact from_locked (.nil _ _) hn
  | last isStatic => exact from_locked (.ite (fun _ => from_clsModule (by decide)) fun _ => .nil _ _) hn

/-- The destructor of an entry list, under the lock of its owner. -/
theorem from_entryList {α : Type} {release : α → Events} {list : Option (List α)} (hn : n ≤ 9)
    (h : ∀ objects, list = some objects → ∀ r ∈ objects, From rank n (release r)) :
    From rank n (CEntryList.destroy release list) := by
  cases list with
  | none => exact .nil _ _
  | some objects => exact (From.flatMap (h objects rfl)).append (from_clsModule hn)

theorem from_interface (r : InterfaceRelease) (hn : n ≤ 4) : From rank n (CInterfaceInfo.Release r) := by
  cases r with
  | shared => exact from_locked (.nil _ _) hn
  | last methodList =>
    refine from_locked (.append (from_entryList (by decide) fun _ _ last _ => ?_) ?_) hn
    · exact from_method last (by decide)
    · exact from_clsModule (by decide)

/-- The entry lists of a class info, under its lock. -/
theorem from_functionList (list : Option (List FunctionRelease)) :
    From rank 1 (CEntryList.destroy releaseFunction list) :=
  from_entryList (by decide) fun _ _ r _ => from_function r (by decide)

theorem from_interfaceList (list : Option (List InterfaceRelease)) (hn : n ≤ 4) :
    From rank n (CEntryList.destroy CInterfaceInfo.Release list) :=
  from_entryList (hn.trans (by decide)) fun _ _ r _ => from_interface r hn

mutual

theorem from_class {n : ℕ} (r : ClassRelease) (hn : n ≤ 1) : From rank n (CClassInfo.Release r) := by
  cases r with
  | shared => exact from_locked (.nil _ _) hn
  | last genericInfo ctorClassInfo cbMethodList ctorList interfaceList cbInterfaceList methodList
      aggregateeList aspectList =>
    have hmembers := (from_classMember genericInfo le_rfl).append (from_classMember ctorClassInfo le_rfl)
    have hfunctions := (hmembers.append (from_functionList cbMethodList)).append
      (from_functionList ctorList)
    have hinterfaces := (hfunctions.append (from_interfaceList interfaceList (by decide))).append
      (from_interfaceList cbInterfaceList (by decide))
    have hmethods : From rank 1 (CEntryList.destroy CMethodInfo.Release methodList) :=
      from_entryList (by decide) fun _ _ last _ => from_method last (by decide)
    have hclasses := ((hinterfaces.append hmethods).append (from_classList aggregateeList le_rfl)).append
      (from_classList aspectList le_rfl)
    exact from_locked (hclasses.append (from_clsModule (by decide))) hn

theorem from_classMember {n : ℕ} (r : Option ClassRelease) (hn : n ≤ 1) :
    From rank n (CClassInfo.releaseMember r) := by
  cases r with
  | none => exact .nil _ _
  | some r => exact from_class r hn

theorem from_classList {n : ℕ} (list : Option (List ClassRelease)) (hn : n ≤ 1) :
    From rank n (CClassInfo.destroyList list) := by
  cases list with
  | none => exact .nil _ _
  | some objects => exact (from_classAll objects hn).append (from_clsModule (by omega))

theorem from_classAll {n : ℕ} (rs : List ClassRelease) (hn : n ≤ 1) :
    From rank n (CClassInfo.releaseAll rs) := by
  cases rs with
  | nil => exact .nil _ _
  | cons r rs => exact (from_class r hn).append (from_classAll rs hn)

end

/-- Without a struct info everything comes after the data type lock. -/
theorem from_type_of_noStruct {n : ℕ} (r : TypeRelease) (h : r.NoStruct) (hn : n ≤ 3) :
    From rank n r.events :=
  match r, h with
  | .unlocked, _ => .nil _ _
  | .localPtr last, _ => from_localPtr last (hn.trans (by decide))
  | .interface r, _ => from_interface r (hn.trans (by decide))
  | .enum r, _ => from_enum r (hn.trans (by decide))
  | .cppVector, _ | .carArray, _ => from_locked (.nil _ _) hn
  | .cppVectorLast element, h | .carArrayLast element, h =>
    from_locked (from_type_of_noStruct element h le_rfl) hn

mutual

/-- **The release of a type info**: a struct info releases the infos of its fields under its lock. -/
theorem from_type {n : ℕ} (r : TypeRelease) (h : r.Clean) (hn : n ≤ 2) : From rank n r.events :=
  match r, h with
  | .unlocked, _ => .nil _ _
  | .localPtr last, _ => from_localPtr last (hn.trans (by decide))
  | .interface r, _ => from_interface r (hn.trans (by decide))
  | .enum r, _ => from_enum r (hn.trans (by decide))
  | .struct, _ => from_locked (.nil _ _) hn
  | .structLast fieldTypeInfos _, h =>
    from_locked (.append (.ite (fun _ => from_clsModule (by decide)) fun _ => .nil _ _)
      (from_typeAll fieldTypeInfos h le_rfl)) hn
  | .cppVector, _ | .carArray, _ => from_locked (.nil _ _) (hn.trans (by decide))
  | .cppVectorLast element, h | .carArrayLast element, h =>
    from_locked (from_type_of_noStruct element h le_rfl) (hn.trans (by decide))

theorem from_typeAll {n : ℕ} (rs : List TypeRelease) (h : TypeRelease.AllClean rs) (hn : n ≤ 2) :
    From rank n (TypeRelease.eventsAll rs) :=
  match rs, h with
  | [], _ => .nil _ _
  | r :: rs, h => (from_type r h.1 hn).append (from_typeAll rs h.2 hn)

end

theorem from_module {r : ModuleRelease} (h : (Op.releaseModule r).Clean) (hn : n ≤ 0) :
    From rank n (CModuleInfo.Release r) := by
  cases r with
  | shared => exact from_locked (.nil _ _) hn
  | last constantList aliasList enumList structList interfaceList classList =>
    have hconstants : From rank 0 (CEntryList.destroy CConstantInfo.Release constantList) :=
      from_entryList (by decide) fun _ _ last _ => from_constant last (by decide)
    have haliases : From rank 0 (CEntryList.destroy CTypeAliasInfo.Release aliasList) :=
      from_entryList (by decide) fun _ _ last _ => from_typeAlias last (by decide)
    have henums : From rank 0 (CEntryList.destroy CEnumInfo.Release enumList) :=
      from_entryList (by decide) fun _ _ r _ => from_enum r (by decide)
    have hstructs : From rank 0 (CEntryList.destroy TypeRelease.events structList) :=
      from_entryList (by decide) fun rs hrs r hr => from_type r (h rs hrs r hr) (by decide)
    have hclasses : From rank 0 (CEntryList.destroy CClassInfo.Release classList) :=
      from_entryList (by decide) fun _ _ r _ => from_class r (by decide)
    exact from_locked (((((hconstants.append haliases).append henums).append hstructs).append
      (from_interfaceList interfaceList (by decide))).append hclasses |>.append
      (from_clsModule (by decide))) hn

/-- An `Acquire*` that fills a table, by what it does under the lock of its table. -/
theorem from_acquire (type : EntryType) {init release destroy : Events} (hinit : From rank (rank type.table) init)
    (hrelease : From rank (rank type.table) release) (hdestroy : From rank n destroy)
    (hn : n ≤ rank type.table) (o : Outcome) : From rank n (acquire type init release destroy o) := by
  cases o with
  | given => exact from_locked (.nil _ _) hn
  | made => exact from_locked (hinit.append hrelease) hn
  | failed => exact (from_locked hinit hn).append hdestroy

theorem from_acquireMethod (o : Outcome) (hn : n ≤ 5) : From rank n (AcquireMethodInfo o) :=
  from_acquire .Method (.nil _ _) (from_method _ le_rfl) (from_method _ hn) hn o

theorem from_acquireEnum (o : Outcome) (hn : n ≤ 6) : From rank n (AcquireStaticEnumInfo o) :=
  from_acquire .Enum (.nil _ _) (from_enum _ le_rfl) (from_enum _ hn) hn o

theorem from_acquireInterface (o : Outcome) (hn : n ≤ 4) : From rank n (AcquireInterfaceInfo o) :=
  from_acquire .Interface (.nil _ _) (from_interface _ le_rfl) (from_interface _ hn) hn o

theorem from_acquireLocalPtr (o : Outcome) (hn : n ≤ 8) : From rank n (AcquireLocalPtrInfo o) :=
  from_acquire .Local (.nil _ _) (from_localPtr _ le_rfl) (from_localPtr _ hn) hn o

theorem from_temp {r : Option TypeRelease} (h : ∀ t, r = some t → t.Clean) (hn : n ≤ 2) :
    From rank n (r.elim [] TypeRelease.events) := by
  cases r with
  | none => exact .nil _ _
  | some r => exact from_type r (h r rfl) hn

theorem from_vector {a : Option VectorAcquire} (h : ∀ v, a = some v → v.Clean) (hn : n ≤ 2) :
    From rank n (AcquireCppVectorInfo a) := by
  cases a with
  | none => exact .nil _ _
  | some a =>
    obtain ⟨hvisited, htemps⟩ := h a rfl
    refine .append (from_locked (.flatMap fun element helement => .append ?_ ?_) (hn.trans (by decide)))
      (.flatMap fun r hr => from_type r (htemps r hr) hn)
    · cases element with
      | none => exact .nil _ _
      | some element => exact from_type_of_noStruct element (hvisited element helement) le_rfl
    · exact from_locked (.nil _ _) le_rfl

theorem from_array {a : ArrayAcquire} (h : a.Clean) (hn : n ≤ 2) :
    From rank n (AcquireCarArrayInfo a) := by
  have hnode : From rank 3 (TypeRelease.events .carArray) := from_locked (.nil _ _) le_rfl
  cases a with
  | refused => exact .nil _ _
  | cached => exact from_locked (.nil _ _) (hn.trans (by decide))
  | listed visited more temps =>
    refine .append (from_locked (.append (.flatMap fun element helement => ?_) ?_)
      (hn.trans (by decide))) (.flatMap fun r hr => from_type r (h.2 r hr) hn)
    · exact hnode.append (from_type_of_noStruct element (h.1 element helement) le_rfl)
    · exact .ite (fun _ => hnode) fun _ => .nil _ _

mutual

/-- **The acquisition of a type info**: those of the fields of a struct are acquired under its lock. -/
theorem from_acquireType {n : ℕ} (a : TypeAcquire) (h : a.Clean) (hn : n ≤ 2) :
    From rank n a.events :=
  match a, h with
  | .refused, _ => .nil _ _
  | .localPtr o, _ => from_acquireLocalPtr o (hn.trans (by decide))
  | .localType, _ => from_locked (.nil _ _) (hn.trans (by decide))
  | .intrinsic, _ => from_locked (.nil _ _) (hn.trans (by decide))
  | .interface o, _ => from_acquireInterface o (hn.trans (by decide))
  | .enum o, _ => from_acquireEnum o (hn.trans (by decide))
  | .struct a, h => from_acquireStruct a h hn
  | .cppVector element _ _, h =>
    ((from_acquireType element h.1 hn).append (from_vector h.2.1 hn)).append (from_temp h.2.2 hn)
  | .carArray element _ _, h =>
    ((from_acquireType element h.1 hn).append (from_array h.2.1 hn)).append (from_temp h.2.2 hn)

theorem from_acquireStruct {n : ℕ} (a : StructAcquire) (h : a.Clean) (hn : n ≤ 2) :
    From rank n a.events :=
  match a, h with
  | .given, _ => from_locked (.nil _ _) hn
  | .made fields, h =>
    from_locked ((from_acquireFields fields h le_rfl).append (from_locked (.nil _ _) le_rfl)) hn
  | .failed fields exit temp, h =>
    have hlocked : From rank n (locked .Struct (fields.events ++ TypeRelease.eventsAll exit)) :=
      from_locked ((from_acquireFields fields h.1 le_rfl).append (from_typeAll exit h.2.1 le_rfl)) hn
    hlocked.append (from_type temp h.2.2 hn)

theorem from_acquireFields {n : ℕ} (fields : FieldAcquires) (h : fields.Clean) (hn : n ≤ 2) :
    From rank n fields.events :=
  match fields, h with
  | .nil, _ => .nil _ _
  | .cons field _ fields, h =>
    ((from_acquireType field h.1 hn).append (from_temp h.2.1 hn)).append
      (from_acquireFields fields h.2.2 hn)

end

theorem from_replicate {es : Events} (h : From rank n es) (visited : ℕ) :
    From rank n (List.replicate visited es).flatten := by
  induction visited with
  | zero => exact .nil _ _
  | succ visited ih =>
    rw [List.replicate_succ, List.flatten_cons]
    exact h.append ih

theorem from_dynamicStruct {visited : ℕ} {temp : Option TypeRelease}
    (h : ∀ r, temp = some r → r.Clean) (hn : n ≤ 2) :
    From rank n (AcquireDynamicStructInfo visited temp) := by
  have hloop := from_replicate (from_type .struct trivial (n := 2) le_rfl) visited
  have hlocked : From rank n (locked .Struct (List.replicate visited (TypeRelease.events .struct)).flatten) :=
    from_locked hloop hn
  exact hlocked.append (from_temp h hn)

theorem from_dynamicEnum (visited : ℕ) (temp : Option EnumRelease) (hn : n ≤ 6) :
    From rank n (AcquireDynamicEnumInfo visited temp false) := by
  have hloop := from_replicate (from_enum .shared (n := 6) le_rfl) visited
  have hlocked : From rank n (locked .Enum (List.replicate visited (CEnumInfo.Release .shared)).flatten) :=
    from_locked hloop hn
  refine hlocked.append ?_
  cases temp with
  | none => exact .nil _ _
  | some r => exact from_enum r hn

theorem from_acquireModule (o : ModuleOutcome) : From rank 0 (AcquireModuleInfo o) := by
  have hinner : From rank 0 (locked .Module (locked .ClsModule [])) :=
    from_locked (from_locked (.nil _ _) (by decide)) (by decide)
  cases o with
  | refused => exact .nil _ _
  | found => exact from_locked (.nil _ _) (by decide)
  | unmade => exact hinner
  | made => exact hinner.append (from_module (r := .shared) trivial le_rfl)
  | failed =>
    refine hinner.append (from_module ?_ le_rfl)
    rintro rs ⟨⟩

theorem from_acquireConstructor (o : Option Outcome) : From rank 0 (AcquireConstructorInfo o) := by
  have hmethod : From rank 5 (CMethodInfo.Release false) := from_method false le_rfl
  unfold AcquireConstructorInfo
  split
  · exact from_locked (.nil _ _) (by decide)
  · exact from_locked (from_acquireMethod .failed le_rfl) (by decide)
  · rename_i o _
    exact from_locked ((from_acquireMethod o le_rfl).append hmethod) (by decide)

/-- **A clean operation** takes the locks in the order of their rank and gives them back. -/
theorem from_op {op : Op} (h : op.Clean) : From rank 0 op.events := by
  cases op with
  | releaseModule r => exact from_module h le_rfl
  | releaseClass r => exact from_class r (by decide)
  | releaseMethod last => exact from_method last (by decide)
  | releaseTypeAlias last => exact from_typeAlias last (by decide)
  | releaseConstant last => exact from_constant last (by decide)
  | releaseConstructor r => exact from_function r (by decide)
  | releaseCallbackMethod r => exact from_function r (by decide)
  | releaseType r => exact from_type r h (by decide)
  | releaseClsModule => exact from_clsModule (by decide)
  | acquireModuleInfo o => exact from_acquireModule o
  | acquireClassInfo o =>
    exact from_acquire .Class (.nil _ _) (from_class _ le_rfl) (from_class _ (by decide)) (by decide) o
  | acquireStaticStructInfo a => exact from_acquireStruct a h (by decide)
  | acquireDynamicStructInfo a =>
    cases a with
    | none => exact .nil _ _
    | some a => exact from_dynamicStruct (fun r hr => h a.1 r (by rw [← hr])) (by decide)
  | acquireStaticEnumInfo o => exact from_acquireEnum o (by decide)
  | acquireDynamicEnumInfo a =>
    match a, h with
    | none, _ => exact .nil _ _
    | some (visited, temp, found), h =>
      obtain rfl := h visited temp found rfl
      exact from_dynamicEnum visited temp (by decide)
  | acquireTypeAliasInfo o =>
    exact from_acquire .TypeAliase (.nil _ _) (from_typeAlias _ le_rfl) (from_typeAlias _ (by decide))
      (by decide) o
  | acquireInterfaceInfo o => exact from_acquireInterface o (by decide)
  | acquireMethodInfo o => exact from_acquireMethod o (by decide)
  | acquireDataTypeInfo a => exact from_acquireType a h (by decide)
  | acquireIntrinsicInfo => exact from_locked (.nil _ _) (by decide)
  | acquireLocalTypeInfo => exact from_locked (.nil _ _) (by decide)
  | acquireLocalPtrInfo o => exact from_acquireLocalPtr o (by decide)
  | acquireCppVectorInfo a => exact from_vector h (by decide)
  | acquireCarArrayInfo a => exact from_array h (by decide)
  | acquireConstantInfo => exact from_locked (.nil _ _) (by decide)
  | acquireConstructorInfo o => exact from_acquireConstructor o
  | acquireCBMethodInfoInfo o =>
    cases o with
    | none => exact from_locked (.nil _ _) (by decide)
    | some o => exact from_locked (from_acquireMethod o le_rfl) (by decide)

end Order

/-! ### All threads -/

/-- What a thread does at the locks. -/
def program (ops : List Op) : Events := ops.flatMap Op.events

/-- The strict order of the locks. -/
def Precedes (a b : TableLock) : Prop := rank a < rank b

instance : IsStrictOrder TableLock Precedes where
  irrefl a := Nat.lt_irrefl (rank a)
  trans _ _ _ := Nat.lt_trans

/-- One thread acquires a struct with a field, the other releases a vector of integers. -/
private def cleanThreads (i : Bool) : List Op :=
  cond i [.acquireStaticStructInfo (.made (.cons .intrinsic (some .unlocked) .nil))]
    [.releaseType (.cppVectorLast .unlocked)]

/-- One thread releases the last reference to a vector of structs, the other acquires a struct with an
integer field. -/
private def twoThreads (i : Bool) : List Op :=
  cond i [.acquireStaticStructInfo (.made (.cons .intrinsic (some .unlocked) .nil))]
    [.releaseType (.cppVectorLast .struct)]

end ElastosCar.TableLocks
