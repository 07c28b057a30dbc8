import ElastosCar.Lib.Chain
import ElastosCar.Lib.Trace
import ElastosCar.Rot.Import

/-!
# The running object tables

The operations of `linux_rpc/rot.cpp` on its two hash tables. A table is an array of 24 static
list heads; an entry is a node that is put behind the head of its list, and every search begins at
the head itself, which is compared like an entry. A removal unlinks the node with a trailing pointer
and frees it.

The nodes are in memory: heads and entries have addresses, and an address can be used again once its
node was freed. `Table.Holds` reads a table as the list of its registrations, the newest first.
`run_refines` says that the tables answer as such lists do, in every run.
-/

namespace ElastosCar.Rot

def E_NO_EXPORT_OBJECT : ECode := 0x80200000

/-- `Hash`. A `char` is extended with its sign on one platform and without on another. -/
def Hash (extend : UInt8 → UInt32) (key : CString) : Fin 24 :=
  ⟨(key.chars.foldl (fun h c => 5 * h + extend c) 0 % 24).toNat, by
    rw [UInt32.toNat_mod]
    exact Nat.mod_lt _ (by decide)⟩

/-- `ExportObject`, with the values of a static head. Pointers are numbers, or `none` for `NULL`. -/
structure ExportObject where
  mNetAddress : CarString := none
  mObject : Option ℕ := none
  mIStub : Option ℕ := none
deriving DecidableEq, Repr

/-- `ImportObject`. -/
structure ImportObject where
  mNetAddress : CarString := none
  mIProxy : Option ℕ := none
deriving DecidableEq, Repr

/-! ### A table in memory -/

/-- A table. The address of head `n` is `n`; `live` are the addresses of the entries. -/
structure Table (ε : Type) where
  mNext : ℕ → Option ℕ
  node : ℕ → ε
  live : List ℕ

namespace Table

variable {ε : Type}

/-- What `InitROT_RPC` leaves: heads that point nowhere. -/
def init (head : ε) : Table ε := ⟨fun _ => none, fun _ => head, []⟩

/-- An address that `new` can return. -/
def Free (t : Table ε) (a : ℕ) : Prop := 24 ≤ a ∧ a ∉ t.live

instance (t : Table ε) (a : ℕ) : Decidable (t.Free a) := inferInstanceAs (Decidable (_ ∧ _))

/-- `InsertFirst` of a new node. -/
def insertFirst (t : Table ε) (head : Fin 24) (new : ℕ) (e : ε) : Table ε where
  mNext := insertNext t.mNext head new
  node := Function.update t.node new e
  live := new :: t.live

/-- The loop over a list, from its head on. No list is longer than all entries and a head. -/
def search (t : Table ε) (found : ε → Bool) (head : Fin 24) : Option (Option (Option ℕ × ℕ)) :=
  seek t.mNext (fun a => found (t.node a)) (t.live.length + 1) none (some head)

/-- The loop over these lists. -/
def searchAll (t : Table ε) (found : ε → Bool) : List (Fin 24) → Option (Option (Option ℕ × ℕ))
  | [] => some none
  | head :: heads =>
    match t.search found head with
    | some none => searchAll t found heads
    | r => r

/-- `Detach` and `delete`. -/
def remove (t : Table ε) (prev it : ℕ) : Table ε :=
  { t with mNext := detach t.mNext prev it, live := t.live.erase it }

end Table

/-! ### The operations -/

/-- The tables, and the counts of the stubs, the proxies and the exported objects. -/
structure RotState where
  exports : Table ExportObject := .init {}
  imports : Table ImportObject := .init {}
  stubRef : ℕ → ℤ := fun _ => 0
  proxyRef : ℕ → ℤ := fun _ => 0
  objectRef : ℕ → ℤ := fun _ => 0

/-- What an operation comes to. -/
inductive Reply
  | code (ec : ECode)
  /-- `NOERROR`, and `*expObj`. -/
  | exported (expObj : ExportObject)
  /-- `NOERROR`, and `*impObj`. -/
  | imported (impObj : ImportObject)
  /-- `Hash` asserts that the address is not `NULL`. -/
  | asserted
  /-- A `NULL` pointer is used. -/
  | crashed
  /-- A search goes on for ever. -/
  | endless
deriving DecidableEq, Repr

/-- Raise or lower one count. -/
def count (ref : ℕ → ℤ) (k : ℕ) (n : ℤ) : ℕ → ℤ := Function.update ref k (ref k + n)

namespace RotState

variable (extend : UInt8 → UInt32) (s : RotState)

/-- `RegisterExportObject`. `object` is what `Probe(EIID_IInterface)` returns, and `new` the memory
for the entry. -/
def RegisterExportObject (netAddress : CarString) (object : Option ℕ) (stub : ℕ) (new : Option ℕ) :
    Reply × RotState :=
  match object, new, netAddress with
  | none, _, _ => (.code E_NO_INTERFACE, s)
  | some _, none, _ => (.code E_OUT_OF_MEMORY, s)
  | some _, some _, none => (.asserted, s)
  | some object, some new, some key =>
    (.code NOERROR,
      { s with
        exports := s.exports.insertFirst (Hash extend key) new ⟨some key, some object, some stub⟩ })

/-- The end of both `FindExportObject`. -/
def foundExport : Option (Option (Option ℕ × ℕ)) → Reply × RotState
  | none => (.endless, s)
  | some none => (.code E_NO_EXPORT_OBJECT, s)
  | some (some (_, it)) =>
    match (s.exports.node it).mIStub with
    | none => (.crashed, s)
    | some stub => (.exported (s.exports.node it), { s with stubRef := count s.stubRef stub 1 })

/-- `FindExportObject` of an object. -/
def FindExportObject (object : Option ℕ) : Reply × RotState :=
  match object with
  | none => (.code E_NO_INTERFACE, s)
  | some object =>
    s.foundExport (s.exports.searchAll (fun e => e.mObject = some object) (List.finRange 24))

/-- `FindExportObject` of a connection address. -/
def FindExportAddress (netAddress : CarString) : Reply × RotState :=
  match netAddress with
  | none => (.asserted, s)
  | some key =>
    s.foundExport (s.exports.search (fun e => e.mNetAddress = netAddress) (Hash extend key))

/-- `UnregisterExportObject`. -/
def UnregisterExportObject (netAddress : CarString) : Reply × RotState :=
  match netAddress with
  | none => (.asserted, s)
  | some key =>
    match s.exports.search (fun e => e.mNetAddress = netAddress) (Hash extend key) with
    | none => (.endless, s)
    | some none => (.code E_NO_EXPORT_OBJECT, s)
    | some (some (prev, it)) =>
      match (s.exports.node it).mObject with
      | none => (.crashed, s)
      | some object =>
        let s := { s with objectRef := count s.objectRef object (-1) }
        if it = Hash extend key then (.code NOERROR, s)
        else
          match prev with
          | none => (.crashed, s)
          | some prev => (.code NOERROR, { s with exports := s.exports.remove prev it })

/-- `RegisterImportObject`. -/
def RegisterImportObject (netAddress : CarString) (proxy : ℕ) (new : Option ℕ) :
    Reply × RotState :=
  match new, netAddress with
  | none, _ => (.code E_OUT_OF_MEMORY, s)
  | some _, none => (.asserted, s)
  | some new, some key =>
    (.code NOERROR,
      { s with imports := s.imports.insertFirst (Hash extend key) new ⟨some key, some proxy⟩ })

/-- `FindImportObject`. -/
def FindImportObject (netAddress : CarString) : Reply × RotState :=
  match netAddress with
  | none => (.asserted, s)
  | some key =>
    match s.imports.search (fun e => e.mNetAddress = netAddress) (Hash extend key) with
    | none => (.endless, s)
    | some none => (.code E_NO_IMPORT_OBJECT, s)
    | some (some (_, it)) =>
      match (s.imports.node it).mIProxy with
      | none => (.crashed, s)
      | some proxy =>
        (.imported (s.imports.node it), { s with proxyRef := count s.proxyRef proxy 1 })

/-- `UnregisterImportObject`. -/
def UnregisterImportObject (netAddress : CarString) : Reply × RotState :=
  match netAddress with
  | none => (.asserted, s)
  | some key =>
    match s.imports.search (fun e => e.mNetAddress = netAddress) (Hash extend key) with
    | none => (.endless, s)
    | some none => (.code E_NO_IMPORT_OBJECT, s)
    | some (some (prev, it)) =>
      match (s.imports.node it).mIProxy with
      | none => (.crashed, s)
      | some proxy =>
        if s.proxyRef proxy ≠ 0 then (.code S_FALSE, s)
        else if it = Hash extend key then (.code NOERROR, s)
        else
          match prev with
          | none => (.crashed, s)
          | some prev => (.code NOERROR, { s with imports := s.imports.remove prev it })

end RotState

/-- The operations, with what they get from outside, and what others do to the counts. -/
inductive RotAction
  | registerExport (netAddress : CarString) (object : Option ℕ) (stub : ℕ) (new : Option ℕ)
  | findObject (object : Option ℕ)
  | findExport (netAddress : CarString)
  | unregisterExport (netAddress : CarString)
  | registerImport (netAddress : CarString) (proxy : ℕ) (new : Option ℕ)
  | findImport (netAddress : CarString)
  | unregisterImport (netAddress : CarString)
  | others (stubRef proxyRef objectRef : ℕ → ℤ)

/-- One operation. `new` does not return the address of an entry or a head. -/
def RotState.step (extend : UInt8 → UInt32) (s : RotState) : RotAction → Option (Reply × RotState)
  | .registerExport a o stub new =>
    if ∀ n ∈ new, s.exports.Free n then some (s.RegisterExportObject extend a o stub new) else none
  | .findObject o => some (s.FindExportObject o)
  | .findExport a => some (s.FindExportAddress extend a)
  | .unregisterExport a => some (s.UnregisterExportObject extend a)
  | .registerImport a proxy new =>
    if ∀ n ∈ new, s.imports.Free n then some (s.RegisterImportObject extend a proxy new) else none
  | .findImport a => some (s.FindImportObject extend a)
  | .unregisterImport a => some (s.UnregisterImportObject extend a)
  | .others stubRef proxyRef objectRef =>
    some (.code NOERROR, { s with stubRef, proxyRef, objectRef })

/-- The operations one after the other, and their replies. -/
def RotState.run (extend : UInt8 → UInt32) :
    RotState → List RotAction → Option (List Reply × RotState)
  | s, [] => some ([], s)
  | s, a :: as =>
    (s.step extend a).bind fun r => (RotState.run extend r.2 as).map fun t => (r.1 :: t.1, t.2)

/-! ### What the tables are for -/

/-- A registration of an object. -/
structure Export where
  mNetAddress : CString
  mObject : ℕ
  mIStub : ℕ
deriving DecidableEq, Repr

/-- A registration of a proxy. -/
structure Import where
  mNetAddress : CString
  mIProxy : ℕ
deriving DecidableEq, Repr

/-- What an operation hands out. -/
def Export.entry (e : Export) : ExportObject := ⟨some e.mNetAddress, some e.mObject, some e.mIStub⟩

def Import.entry (e : Import) : ImportObject := ⟨some e.mNetAddress, some e.mIProxy⟩

/-- Two multimaps from net addresses, as the lists of their registrations, the newest first. -/
structure Registry where
  exports : List Export := []
  imports : List Import := []
  stubRef : ℕ → ℤ := fun _ => 0
  proxyRef : ℕ → ℤ := fun _ => 0
  objectRef : ℕ → ℤ := fun _ => 0

namespace Registry

/-- The newest registration of an address. -/
def newestExport (m : Registry) (a : CString) : Option Export :=
  m.exports.find? fun e => e.mNetAddress = a

def newestImport (m : Registry) (a : CString) : Option Import :=
  m.imports.find? fun e => e.mNetAddress = a

/-- Without the newest registration of an address. -/
def withoutExport (m : Registry) (a : CString) : List Export :=
  m.exports.eraseP fun e => e.mNetAddress = a

def withoutImport (m : Registry) (a : CString) : List Import :=
  m.imports.eraseP fun e => e.mNetAddress = a

/-- An operation changes nothing and returns this. -/
def Reports (m : Registry) (r r' : Reply) (m' : Registry) : Prop := r' = r ∧ m' = m

/-- A search raises the count of the stub that it hands out. -/
def HandsOut (m : Registry) (e : Export) (r : Reply) (m' : Registry) : Prop :=
  r = .exported e.entry ∧ m' = { m with stubRef := count m.stubRef e.mIStub 1 }

def RegistersExport (m : Registry) (netAddress : CarString) (object : Option ℕ) (stub : ℕ)
    (new : Option ℕ) (r : Reply) (m' : Registry) : Prop :=
  match object, new, netAddress with
  | none, _, _ => m.Reports (.code E_NO_INTERFACE) r m'
  | some _, none, _ => m.Reports (.code E_OUT_OF_MEMORY) r m'
  | some _, some _, none => m.Reports .asserted r m'
  | some o, some _, some a =>
    r = .code NOERROR ∧ m' = { m with exports := ⟨a, o, stub⟩ :: m.exports }

/-- Some registration of the object. -/
def FindsObject (m : Registry) (object : Option ℕ) (r : Reply) (m' : Registry) : Prop :=
  match object with
  | none => m.Reports (.code E_NO_INTERFACE) r m'
  | some o =>
    (∃ e ∈ m.exports, e.mObject = o ∧ m.HandsOut e r m') ∨
      (∀ e ∈ m.exports, e.mObject ≠ o) ∧ m.Reports (.code E_NO_EXPORT_OBJECT) r m'

def FindsExport (m : Registry) (netAddress : CarString) (r : Reply) (m' : Registry) : Prop :=
  match netAddress with
  | none => m.Reports .asserted r m'
  | some a =>
    match m.newestExport a with
    | some e => m.HandsOut e r m'
    | none => m.Reports (.code E_NO_EXPORT_OBJECT) r m'

/-- The exported object is released once. -/
def UnregistersExport (m : Registry) (netAddress : CarString) (r : Reply) (m' : Registry) : Prop :=
  match netAddress with
  | none => m.Reports .asserted r m'
  | some a =>
    match m.newestExport a with
    | some e => r = .code NOERROR ∧ m' = { m with
      exports := m.withoutExport a, objectRef := count m.objectRef e.mObject (-1) }
    | none => m.Reports (.code E_NO_EXPORT_OBJECT) r m'

def RegistersImport (m : Registry) (netAddress : CarString) (proxy : ℕ) (new : Option ℕ)
    (r : Reply) (m' : Registry) : Prop :=
  match new, netAddress with
  | none, _ => m.Reports (.code E_OUT_OF_MEMORY) r m'
  | some _, none => m.Reports .asserted r m'
  | some _, some a => r = .code NOERROR ∧ m' = { m with imports := ⟨a, proxy⟩ :: m.imports }

def FindsImport (m : Registry) (netAddress : CarString) (r : Reply) (m' : Registry) : Prop :=
  match netAddress with
  | none => m.Reports .asserted r m'
  | some a =>
    match m.newestImport a with
    | some e => r = .imported e.entry ∧ m' = { m with proxyRef := count m.proxyRef e.mIProxy 1 }
    | none => m.Reports (.code E_NO_IMPORT_OBJECT) r m'

/-- Only a proxy without references is taken out. -/
def UnregistersImport (m : Registry) (netAddress : CarString) (r : Reply) (m' : Registry) : Prop :=
  match netAddress with
  | none => m.Reports .asserted r m'
  | some a =>
    match m.newestImport a with
    | some e =>
      if m.proxyRef e.mIProxy = 0 then
        r = .code NOERROR ∧ m' = { m with imports := m.withoutImport a }
      else m.Reports (.code S_FALSE) r m'
    | none => m.Reports (.code E_NO_IMPORT_OBJECT) r m'

/-- What an operation answers and does. -/
def Answers (m : Registry) : RotAction → Reply → Registry → Prop
  | .registerExport a o stub new => m.RegistersExport a o stub new
  | .findObject o => m.FindsObject o
  | .findExport a => m.FindsExport a
  | .unregisterExport a => m.UnregistersExport a
  | .registerImport a proxy new => m.RegistersImport a proxy new
  | .findImport a => m.FindsImport a
  | .unregisterImport a => m.UnregistersImport a
  | .others stubRef proxyRef objectRef => fun r m' =>
    r = .code NOERROR ∧ m' = { m with stubRef, proxyRef, objectRef }

/-- The answers one after the other. -/
def Run : Registry → List RotAction → List Reply → Registry → Prop
  | m, [], [], m' => m' = m
  | m, a :: as, r :: rs, m' => ∃ m₁, m.Answers a r m₁ ∧ Run m₁ as rs m'
  | _, _, _, _ => False

end Registry

/-! ### One table -/

namespace Table

section

-- the entries, the string that a search compares, and where an address belongs
variable {ε β : Type} (key : ε → CarString) (address : β → CString) (entry : β → ε)
  (hash : CString → Fin 24)

/-- A table and its registrations, the newest first: behind head `i` are the nodes of those whose
address belongs there, and the heads are as they were. -/
structure Holds (t : Table ε) (head : ε) (bs : List β) : Prop where
  heads : ∀ i : Fin 24, t.node i = head
  chains : ∃ chain : Fin 24 → List ℕ,
    (∀ i : Fin 24, Linked t.mNext (some (i : ℕ)) (i :: chain i)) ∧
    (∀ i, (chain i).map t.node = (bs.filter fun b => hash (address b) = i).map entry) ∧
    (∀ i, (chain i).Nodup) ∧ (∀ i j, ∀ a ∈ chain i, a ∈ chain j → i = j) ∧
    ∀ i, ∀ a ∈ chain i, 24 ≤ a ∧ a ∈ t.live
  live : t.live.Nodup

end

section

variable {ε β : Type} {key : ε → CarString} {address : β → CString} {entry : β → ε}
  {hash : CString → Fin 24} {t : Table ε} {head : ε} {bs : List β}

theorem holds_init : (init head).Holds address entry hash head ([] : List β) where
  heads := fun _ => rfl
  chains := ⟨fun _ => [], fun _ => ⟨rfl, rfl⟩, fun _ => rfl, fun _ => List.nodup_nil,
    fun _ _ _ h => absurd h List.not_mem_nil, fun _ _ h => absurd h List.not_mem_nil⟩
  live := List.nodup_nil

/-- A head is not an entry. -/
theorem ne_head {a : ℕ} (h : 24 ≤ a) (i : Fin 24) : a ≠ i := by
  have hi := i.isLt
  omega

/-- A new entry becomes the newest registration. -/
theorem Holds.insertFirst (h : t.Holds address entry hash head bs) {new : ℕ} (hnew : t.Free new)
    (b : β) :
    (t.insertFirst (hash (address b)) new (entry b)).Holds address entry hash head (b :: bs) := by
  obtain ⟨hheads, ⟨chain, hlinked, hmap, hnodup, hdisjoint, hlive⟩, hall⟩ := h
  have hnot (i : Fin 24) : new ∉ chain i := fun hmem => hnew.2 (hlive i new hmem).2
  have hnode (i : Fin 24) : ∀ a ∈ chain i, Function.update t.node new (entry b) a = t.node a := by
    intro a ha
    have hne : a ≠ new := fun heq => hnot i (heq ▸ ha)
    exact Function.update_of_ne hne _ _
  have hmem (i : Fin 24) (a : ℕ) :
      a ∈ Function.update chain (hash (address b)) (new :: chain (hash (address b))) i ↔
        a = new ∧ i = hash (address b) ∨ a ∈ chain i := by
    rcases eq_or_ne i (hash (address b)) with rfl | hne
    · rw [Function.update_self, List.mem_cons, and_iff_left rfl]
    · rw [Function.update_of_ne hne]
      exact ⟨.inr, fun h => h.resolve_left fun h => hne h.2⟩
  refine ⟨fun i => ?_, ⟨Function.update chain (hash (address b)) (new :: chain (hash (address b))),
    fun i => ?_, fun i => ?_, fun i => ?_, fun i j a hi hj => ?_, fun i a hi => ?_⟩,
    List.nodup_cons.mpr ⟨hnew.2, hall⟩⟩
  · exact (Function.update_of_ne (ne_head hnew.1 i).symm _ _).trans (hheads i)
  · rcases eq_or_ne i (hash (address b)) with rfl | hne
    · rw [Function.update_self]
      have hnd : ((hash (address b) : ℕ) :: chain (hash (address b))).Nodup :=
        List.nodup_cons.mpr ⟨fun hmem => ne_head (hlive _ _ hmem).1 _ rfl, hnodup _⟩
      refine (hlinked _).insertNext hnd fun hmem => ?_
      rcases List.mem_cons.mp hmem with heq | hmem
      · exact ne_head hnew.1 _ heq
      · exact hnot _ hmem
    · -- the other lists are not touched
      rw [Function.update_of_ne hne]
      refine linked_congr (hlinked i) fun a ha => insertNext_of_ne ?_ ?_
      · rcases List.mem_cons.mp ha with rfl | ha
        · exact fun heq => hne (Fin.val_injective heq)
        · exact ne_head (hlive i a ha).1 _
      · rcases List.mem_cons.mp ha with rfl | ha
        · exact (ne_head hnew.1 i).symm
        · exact fun heq => hnot i (heq ▸ ha)
  · rcases eq_or_ne i (hash (address b)) with rfl | hne
    · rw [Function.update_self, List.map_cons, List.filter_cons_of_pos (by simp), List.map_cons,
        ← hmap]
      exact congrArg₂ _ (Function.update_self _ _ _) (List.map_congr_left (hnode _))
    · rw [Function.update_of_ne hne, List.filter_cons_of_neg (by simpa using hne.symm), ← hmap]
      exact List.map_congr_left (hnode i)
  · rcases eq_or_ne i (hash (address b)) with rfl | hne
    · rw [Function.update_self]
      exact List.nodup_cons.mpr ⟨hnot _, hnodup _⟩
    · rw [Function.update_of_ne hne]
      exact hnodup i
  · rcases (hmem i a).mp hi with ⟨rfl, rfl⟩ | hi'
    · rcases (hmem j a).mp hj with ⟨-, rfl⟩ | hj'
      · rfl
      · exact absurd hj' (hnot j)
    · rcases (hmem j a).mp hj with ⟨rfl, -⟩ | hj'
      · exact absurd hi' (hnot i)
      · exact hdisjoint i j a hi' hj'
  · rcases (hmem i a).mp hi with ⟨rfl, -⟩ | hi
    · exact ⟨hnew.1, List.mem_cons_self⟩
    · exact (hlive i a hi).imp_right (List.mem_cons_of_mem new)

/-- A list and its head are no longer than all entries and one. -/
theorem length_chain_le {chain : List ℕ} (hnodup : chain.Nodup) (hlive : ∀ a ∈ chain, a ∈ t.live) :
    chain.length ≤ t.live.length :=
  (List.subperm_of_subset hnodup hlive).length_le

/-- A search through one list. -/
theorem search_eq (found : ε → Bool) {i : Fin 24} {chain : List ℕ}
    (hlinked : Linked t.mNext (some (i : ℕ)) (i :: chain)) (hnodup : chain.Nodup)
    (hlive : ∀ a ∈ chain, a ∈ t.live) (hhead : found (t.node i) = false) :
    t.search found i = some ((walk (fun a => found (t.node a)) chain).map fun r =>
      (some (((i : ℕ) :: r.1).getLast (List.cons_ne_nil _ _)), r.2.1)) := by
  have hfuel := Nat.succ_le_succ (length_chain_le hnodup hlive)
  rw [search, seek_of_linked hlinked hfuel, walk, hhead, if_neg Bool.false_ne_true, Option.map_map]
  refine congrArg some (Option.map_congr fun r _ => ?_)
  change (((i : ℕ) :: r.1).getLast?.or none, r.2.1) = _
  rw [Option.or_none, List.getLast?_eq_getLast_of_ne_nil]

/-- What is found in a list of nodes is the first of the registrations that they are of. -/
theorem exists_of_walk (found : ε → Bool) {chain : List ℕ} {q : β → Bool} {before after : List ℕ}
    {it : ℕ} (hmap : chain.map t.node = (bs.filter q).map entry)
    (hwalk : walk (fun a => found (t.node a)) chain = some (before, it, after)) :
    ∃ bs₁ b bs₂, bs = bs₁ ++ b :: bs₂ ∧ q b = true ∧ found (entry b) = true ∧
      (∀ x ∈ bs₁, q x = true → found (entry x) = false) ∧ t.node it = entry b ∧
      before.map t.node = (bs₁.filter q).map entry ∧
      after.map t.node = (bs₂.filter q).map entry := by
  obtain ⟨rfl, hfound⟩ := eq_append_of_walk hwalk
  have hbefore := not_of_walk hwalk
  rw [List.map_append, List.map_cons] at hmap
  obtain ⟨fs₁, fs, hfilter, hfs₁, hfs⟩ := List.map_eq_append_iff.mp hmap.symm
  obtain ⟨b, fs₂, rfl, hb, hfs₂⟩ := List.map_eq_cons_iff.mp hfs
  obtain ⟨bs₁, bs', rfl, rfl, hbs'⟩ := List.filter_eq_append_iff.mp hfilter
  obtain ⟨skip, bs₂, rfl, hskip, hq, rfl⟩ := List.filter_eq_cons_iff.mp hbs'
  have hskipnil : skip.filter q = [] := List.filter_eq_nil_iff.mpr hskip
  have hnot : ∀ x ∈ bs₁, q x = true → found (entry x) = false := by
    intro x hx hqx
    have hmem : entry x ∈ before.map t.node := by
      rw [← hfs₁]
      exact List.mem_map_of_mem (List.mem_filter.mpr ⟨hx, hqx⟩)
    obtain ⟨a, ha, heq⟩ := List.mem_map.mp hmem
    exact heq ▸ hbefore a ha
  refine ⟨bs₁ ++ skip, b, bs₂, (List.append_assoc _ _ _).symm, hq, hb ▸ hfound, fun x hx hqx => ?_,
    hb.symm, ?_, hfs₂.symm⟩
  · rcases List.mem_append.mp hx with hx | hx
    · exact hnot x hx hqx
    · exact absurd hqx (hskip x hx)
  · rw [List.filter_append, hskipnil, List.append_nil, hfs₁]

/-- The node behind `prev` is taken out of its list, with its registration. -/
theorem Holds.remove {chain : Fin 24 → List ℕ}
    (hheads : ∀ i : Fin 24, t.node i = head) (hall : t.live.Nodup)
    (hlinked : ∀ i : Fin 24, Linked t.mNext (some (i : ℕ)) (i :: chain i))
    (hnodup : ∀ i, (chain i).Nodup) (hdisjoint : ∀ i j, ∀ a ∈ chain i, a ∈ chain j → i = j)
    (hlive : ∀ i, ∀ a ∈ chain i, 24 ≤ a ∧ a ∈ t.live) {i : Fin 24} {before after : List ℕ} {it : ℕ}
    (hchain : chain i = before ++ it :: after)
    (hmap : ∀ j, (Function.update chain i (before ++ after) j).map t.node =
      (bs.filter fun b => hash (address b) = j).map entry) :
    (t.remove (((i : ℕ) :: before).getLast (List.cons_ne_nil _ _)) it).Holds address entry hash head
      bs := by
  have hit : it ∈ chain i := hchain ▸ List.mem_append_right _ List.mem_cons_self
  have hsub (j : Fin 24) (a : ℕ) (ha : a ∈ Function.update chain i (before ++ after) j) :
      a ∈ chain j ∧ a ≠ it := by
    rcases eq_or_ne j i with rfl | hne
    · rw [Function.update_self] at ha
      have hnd := hnodup j
      rw [hchain] at hnd ⊢
      have hnot := (List.nodup_middle.mp hnd).notMem
      refine ⟨?_, fun heq => hnot (heq ▸ ha)⟩
      exact (List.mem_append.mp ha).elim (List.mem_append_left _)
        fun h => List.mem_append_right _ (List.mem_cons_of_mem _ h)
    · rw [Function.update_of_ne hne] at ha
      refine ⟨ha, fun heq => hne ?_⟩
      exact hdisjoint j i it (heq ▸ ha) hit
  refine ⟨hheads, ⟨Function.update chain i (before ++ after), fun j => ?_, hmap, fun j => ?_,
    fun j k a hj hk => hdisjoint j k a (hsub j a hj).1 (hsub k a hk).1, fun j a ha => ?_⟩,
    hall.erase it⟩
  · -- the node before it is in the same list, or its head
    obtain ⟨pre, hpre⟩ : ∃ pre, (i : ℕ) :: before =
        pre ++ [((i : ℕ) :: before).getLast (List.cons_ne_nil _ _)] :=
      ⟨_, (List.dropLast_append_getLast (List.cons_ne_nil _ _)).symm⟩
    generalize ((i : ℕ) :: before).getLast (List.cons_ne_nil _ _) = prev at hpre ⊢
    rcases eq_or_ne j i with rfl | hne
    · rw [Function.update_self]
      have hl := hlinked j
      have hnd : ((j : ℕ) :: chain j).Nodup :=
        List.nodup_cons.mpr ⟨fun hmem => ne_head (hlive _ _ hmem).1 _ rfl, hnodup j⟩
      have hsplit : (j : ℕ) :: chain j = pre ++ prev :: it :: after := by
        rw [hchain, ← List.cons_append, hpre, List.append_assoc, List.singleton_append]
      have hsplit' : (j : ℕ) :: (before ++ after) = pre ++ prev :: after := by
        rw [← List.cons_append, hpre, List.append_assoc, List.singleton_append]
      rw [hsplit] at hl hnd
      rw [hsplit']
      exact hl.detach hnd
    · rw [Function.update_of_ne hne]
      have hprev : prev = i ∨ prev ∈ chain i := by
        have hmem : prev ∈ (i : ℕ) :: before := by simp [hpre]
        exact (List.mem_cons.mp hmem).imp_right fun h => hchain ▸ List.mem_append_left _ h
      refine linked_congr (hlinked j) fun a ha => detach_of_ne ?_ ?_
      · rintro rfl
        rcases List.mem_cons.mp ha with heq | ha
        · rcases hprev with heq' | hprev
          · exact hne (Fin.val_injective (heq.symm.trans heq'))
          · exact ne_head (hlive _ _ hprev).1 _ heq
        · rcases hprev with heq' | hprev
          · exact ne_head (hlive _ _ ha).1 _ heq'
          · exact hne (hdisjoint j i _ ha hprev)
      · rintro rfl
        rcases List.mem_cons.mp ha with heq | ha
        · exact ne_head (hlive _ _ hit).1 _ heq
        · exact hne (hdisjoint j i _ ha hit)
  · rcases eq_or_ne j i with rfl | hne
    · rw [Function.update_self]
      have hnd := hnodup j
      rw [hchain] at hnd
      exact (List.nodup_middle.mp hnd).of_cons
    · rw [Function.update_of_ne hne]
      exact hnodup j
  · obtain ⟨hmem, hne⟩ := hsub j a ha
    obtain ⟨hge, hin⟩ := hlive j a hmem
    exact ⟨hge, (List.mem_erase_of_ne hne).mpr hin⟩

/-- A search for an address finds nothing, or the node of the newest registration and the one before
it; the removal of this node leaves the other registrations. -/
theorem Holds.search_cases (h : t.Holds address entry hash head bs) (key : ε → CarString)
    (hkey : ∀ b, key (entry b) = some (address b)) (hhead : key head = none) (a : CString) :
    ((∀ b ∈ bs, address b ≠ a) ∧ t.search (fun e => key e = some a) (hash a) = some none) ∨
      ∃ before b after prev it, bs = before ++ b :: after ∧ address b = a ∧
        (∀ x ∈ before, address x ≠ a) ∧
        t.search (fun e => key e = some a) (hash a) = some (some (some prev, it)) ∧
        t.node it = entry b ∧ 24 ≤ it ∧
        (t.remove prev it).Holds address entry hash head (before ++ after) := by
  obtain ⟨hheads, ⟨chain, hlinked, hmap, hnodup, hdisjoint, hlive⟩, hall⟩ := h
  have hsearch := search_eq (fun e => key e = some a) (hlinked (hash a)) (hnodup _)
    (fun b hb => (hlive _ b hb).2) (by rw [hheads, hhead]; rfl)
  rcases hwalk : walk (fun b => decide (key (t.node b) = some a)) (chain (hash a)) with
    _ | ⟨before, it, after⟩
  · -- the registrations of this address would be behind this head
    rw [hwalk] at hsearch
    refine .inl ⟨fun b hb heq => ?_, hsearch⟩
    have hmem : entry b ∈ (chain (hash a)).map t.node := by
      rw [hmap]
      exact List.mem_map_of_mem (List.mem_filter.mpr ⟨hb, by simp [heq]⟩)
    obtain ⟨n, hn, hnode⟩ := List.mem_map.mp hmem
    have hnot := walk_eq_none.mp hwalk n hn
    rw [hnode, hkey, heq] at hnot
    simp at hnot
  · rw [hwalk] at hsearch
    obtain ⟨bs₁, b, bs₂, rfl, hq, hfound, hnot, hnode, hbefore, hafter⟩ :=
      exists_of_walk (fun e => decide (key e = some a)) (hmap (hash a)) hwalk
    have haddress : address b = a := by
      have := of_decide_eq_true hfound
      rw [hkey] at this
      exact Option.some.inj this
    obtain ⟨hchain, -⟩ := eq_append_of_walk hwalk
    refine .inr ⟨bs₁, b, bs₂, _, it, rfl, haddress, fun x hx heq => ?_, hsearch, hnode, ?_, ?_⟩
    · have hx' := hnot x hx (by simp [heq])
      rw [hkey, heq] at hx'
      simp at hx'
    · exact (hlive _ it (hchain ▸ List.mem_append_right _ List.mem_cons_self)).1
    · refine Holds.remove hheads hall hlinked hnodup hdisjoint hlive hchain fun j => ?_
      rcases eq_or_ne j (hash a) with rfl | hne
      · rw [Function.update_self, List.map_append, List.filter_append, List.map_append, hbefore,
          hafter]
      · have hb : ¬ decide (hash (address b) = j) = true := by simpa [haddress] using hne.symm
        rw [Function.update_of_ne hne, hmap, List.filter_append, List.filter_append,
          List.filter_cons_of_neg (p := fun b => decide (hash (address b) = j)) hb]

/-- A search through lists finds nothing, or the node of a registration. -/
theorem Holds.searchAll_cases (h : t.Holds address entry hash head bs) (found : ε → Bool)
    (hhead : found head = false) (is : List (Fin 24)) :
    ((∀ b ∈ bs, hash (address b) ∈ is → found (entry b) = false) ∧
        t.searchAll found is = some none) ∨
      ∃ b ∈ bs, found (entry b) = true ∧
        ∃ prev it, t.searchAll found is = some (some (prev, it)) ∧ t.node it = entry b := by
  obtain ⟨hheads, ⟨chain, hlinked, hmap, hnodup, hdisjoint, hlive⟩, hall⟩ := h
  induction is with
  | nil => exact .inl ⟨fun _ _ hmem => absurd hmem List.not_mem_nil, rfl⟩
  | cons i is ih =>
    have hsearch := search_eq found (hlinked i) (hnodup i)
      (fun b hb => (hlive i b hb).2) (by rw [hheads, hhead])
    rcases hwalk : walk (fun b => found (t.node b)) (chain i) with _ | ⟨before, it, after⟩
    · -- nothing behind this head, so it goes on
      rw [hwalk] at hsearch
      have hnone (b : β) (hb : b ∈ bs) (heq : hash (address b) = i) : found (entry b) = false := by
        have hmem : entry b ∈ (chain i).map t.node := by
          rw [hmap]
          exact List.mem_map_of_mem (List.mem_filter.mpr ⟨hb, by simp [heq]⟩)
        obtain ⟨n, hn, hnode⟩ := List.mem_map.mp hmem
        exact hnode ▸ walk_eq_none.mp hwalk n hn
      have hnext : t.searchAll found (i :: is) = t.searchAll found is := by
        rw [searchAll, hsearch]
        rfl
      rw [hnext]
      refine ih.imp_left fun ⟨hrest, heq⟩ => ⟨fun b hb hmem => ?_, heq⟩
      exact (List.mem_cons.mp hmem).elim (hnone b hb) (hrest b hb)
    · rw [hwalk] at hsearch
      obtain ⟨bs₁, b, bs₂, rfl, -, hfound, -, hnode, -, -⟩ := exists_of_walk found (hmap i) hwalk
      have hall' : t.searchAll found (i :: is) =
          some (some (some (((i : ℕ) :: before).getLast (List.cons_ne_nil _ _)), it)) := by
        rw [searchAll, hsearch]
        rfl
      exact .inr ⟨b, List.mem_append_right _ List.mem_cons_self, hfound, _, it, hall', hnode⟩

end

end Table

/-! ### The operations answer as the multimaps do -/

/-- Both tables hold the registrations of the multimaps, and the counts agree. -/
structure Represents (extend : UInt8 → UInt32) (s : RotState) (m : Registry) : Prop where
  exports : s.exports.Holds Export.mNetAddress Export.entry (Hash extend) {} m.exports
  imports : s.imports.Holds Import.mNetAddress Import.entry (Hash extend) {} m.imports
  stubRef : s.stubRef = m.stubRef
  proxyRef : s.proxyRef = m.proxyRef
  objectRef : s.objectRef = m.objectRef

theorem represents_init (extend : UInt8 → UInt32) : Represents extend {} {} :=
  ⟨Table.holds_init, Table.holds_init, rfl, rfl, rfl⟩

section

variable {extend : UInt8 → UInt32} {s : RotState} {m : Registry}

/-- The first registration of an address is the newest. -/
theorem find_eraseP_append {β : Type} {address : β → CString} {a : CString}
    {bs before after : List β} {b : β} (hbs : bs = before ++ b :: after) (hb : address b = a)
    (hbefore : ∀ x ∈ before, address x ≠ a) :
    bs.find? (fun x => address x = a) = some b ∧
      bs.eraseP (fun x => address x = a) = before ++ after := by
  have hneg : ∀ x ∈ before, ¬ decide (address x = a) = true := by
    intro x hx
    simpa using hbefore x hx
  subst hbs
  constructor
  · rw [List.find?_eq_some_iff_append]
    exact ⟨decide_eq_true hb, before, after, rfl, fun x hx => by simpa using hbefore x hx⟩
  · rw [List.eraseP_append_right _ hneg,
      List.eraseP_cons_of_pos (p := fun x => decide (address x = a)) (decide_eq_true hb)]

/-- No registration of an address. -/
theorem find_eq_none {β : Type} {address : β → CString} {a : CString} {bs : List β}
    (h : ∀ b ∈ bs, address b ≠ a) : bs.find? (fun x => address x = a) = none :=
  List.find?_eq_none.mpr fun b hb => by simpa using h b hb

/-- What an operation returns is answered, and what it leaves is represented. -/
def Simulates (extend : UInt8 → UInt32) (answers : Reply → Registry → Prop) (r : Reply × RotState) :
    Prop :=
  ∃ m', answers r.1 m' ∧ Represents extend r.2 m'

/-- What changes nothing. -/
theorem Represents.reports (h : Represents extend s m) (r : Reply) :
    Simulates extend (m.Reports r) (r, s) :=
  ⟨m, ⟨rfl, rfl⟩, h⟩

theorem Represents.registerExport (h : Represents extend s m) {a : CarString} {o : Option ℕ}
    {stub : ℕ} {new : Option ℕ} (hnew : ∀ n ∈ new, s.exports.Free n) :
    Simulates extend (m.RegistersExport a o stub new)
      (s.RegisterExportObject extend a o stub new) := by
  rcases o with _ | o
  · exact h.reports _
  rcases new with _ | new
  · exact h.reports _
  rcases a with _ | a
  · exact h.reports _
  · refine ⟨_, ⟨rfl, rfl⟩, { h with exports := ?_ }⟩
    exact h.exports.insertFirst (hnew new rfl) ⟨a, o, stub⟩

theorem Represents.registerImport (h : Represents extend s m) {a : CarString} {proxy : ℕ}
    {new : Option ℕ} (hnew : ∀ n ∈ new, s.imports.Free n) :
    Simulates extend (m.RegistersImport a proxy new)
      (s.RegisterImportObject extend a proxy new) := by
  rcases new with _ | new
  · exact h.reports _
  rcases a with _ | a
  · exact h.reports _
  · refine ⟨_, ⟨rfl, rfl⟩, { h with imports := ?_ }⟩
    exact h.imports.insertFirst (hnew new rfl) ⟨a, proxy⟩

/-- A stub is handed out. -/
theorem Represents.foundExport (h : Represents extend s m) {e : Export} {it : ℕ}
    (hnode : s.exports.node it = e.entry) (prev : Option ℕ) :
    Simulates extend (m.HandsOut e) (s.foundExport (some (some (prev, it)))) := by
  have hfound : s.foundExport (some (some (prev, it))) =
      (.exported e.entry, { s with stubRef := count s.stubRef e.mIStub 1 }) := by
    rw [RotState.foundExport, hnode]
    rfl
  rw [hfound]
  exact ⟨_, ⟨rfl, rfl⟩, { h with stubRef := congrArg (count · e.mIStub 1) h.stubRef }⟩

theorem Represents.findObject (h : Represents extend s m) (o : Option ℕ) :
    Simulates extend (m.FindsObject o) (s.FindExportObject o) := by
  rcases o with _ | o
  · exact h.reports _
  rw [RotState.FindExportObject]
  rcases h.exports.searchAll_cases (fun e => e.mObject = some o) (by rfl)
    (List.finRange 24) with ⟨hnone, hsearch⟩ | ⟨e, he, hobject, prev, it, hsearch, hnode⟩
  · rw [hsearch]
    obtain ⟨m', hreports, hrep⟩ := h.reports (.code E_NO_EXPORT_OBJECT)
    refine ⟨m', .inr ⟨fun e he heq => ?_, hreports⟩, hrep⟩
    have hnot := hnone e he (List.mem_finRange _)
    simp [Export.entry, heq] at hnot
  · rw [hsearch]
    obtain ⟨m', hanswers, hrep⟩ := h.foundExport hnode prev
    exact ⟨m', .inl ⟨e, he, Option.some.inj (of_decide_eq_true hobject), hanswers⟩, hrep⟩

theorem Represents.findExport (h : Represents extend s m) (a : CarString) :
    Simulates extend (m.FindsExport a) (s.FindExportAddress extend a) := by
  rcases a with _ | a
  · exact h.reports _
  rw [RotState.FindExportAddress]
  rcases h.exports.search_cases ExportObject.mNetAddress (fun _ => rfl) rfl a with
    ⟨hnone, hsearch⟩ | ⟨before, e, after, prev, it, hm, he, hbefore, hsearch, hnode, -, -⟩
  · have hfinds : m.FindsExport (some a) = m.Reports (.code E_NO_EXPORT_OBJECT) := by
      funext r m'
      simp only [Registry.FindsExport, Registry.newestExport, find_eq_none hnone]
    rw [hsearch, hfinds]
    exact h.reports _
  · have hfinds : m.FindsExport (some a) = m.HandsOut e := by
      funext r m'
      simp only [Registry.FindsExport, Registry.newestExport,
        (find_eraseP_append hm he hbefore).1]
    rw [hsearch, hfinds]
    exact h.foundExport hnode (some prev)

theorem Represents.unregisterExport (h : Represents extend s m) (a : CarString) :
    Simulates extend (m.UnregistersExport a) (s.UnregisterExportObject extend a) := by
  rcases a with _ | a
  · exact h.reports _
  rw [RotState.UnregisterExportObject]
  rcases h.exports.search_cases ExportObject.mNetAddress (fun _ => rfl) rfl a with
    ⟨hnone, hsearch⟩ | ⟨before, e, after, prev, it, hm, he, hbefore, hsearch, hnode, hge, hholds⟩
  · have hout : m.UnregistersExport (some a) = m.Reports (.code E_NO_EXPORT_OBJECT) := by
      funext r m'
      simp only [Registry.UnregistersExport, Registry.newestExport, find_eq_none hnone]
    rw [hsearch, hout]
    exact h.reports _
  · obtain ⟨hfind, herase⟩ := find_eraseP_append hm he hbefore
    have hout : m.UnregistersExport (some a) = fun r m' => r = .code NOERROR ∧ m' = { m with
        exports := before ++ after, objectRef := count m.objectRef e.mObject (-1) } := by
      funext r m'
      simp only [Registry.UnregistersExport, Registry.newestExport, Registry.withoutExport, hfind,
        herase]
    rw [hout]
    simp only [hsearch, hnode, Export.entry, if_neg (Table.ne_head hge _)]
    refine ⟨_, ⟨rfl, rfl⟩, { h with exports := hholds, objectRef := ?_ }⟩
    exact congrArg (count · e.mObject (-1)) h.objectRef

theorem Represents.findImport (h : Represents extend s m) (a : CarString) :
    Simulates extend (m.FindsImport a) (s.FindImportObject extend a) := by
  rcases a with _ | a
  · exact h.reports _
  rw [RotState.FindImportObject]
  rcases h.imports.search_cases ImportObject.mNetAddress (fun _ => rfl) rfl a with
    ⟨hnone, hsearch⟩ | ⟨before, e, after, prev, it, hm, he, hbefore, hsearch, hnode, -, -⟩
  · have hfinds : m.FindsImport (some a) = m.Reports (.code E_NO_IMPORT_OBJECT) := by
      funext r m'
      simp only [Registry.FindsImport, Registry.newestImport, find_eq_none hnone]
    rw [hsearch, hfinds]
    exact h.reports _
  · have hfinds : m.FindsImport (some a) = fun r m' =>
        r = .imported e.entry ∧ m' = { m with proxyRef := count m.proxyRef e.mIProxy 1 } := by
      funext r m'
      simp only [Registry.FindsImport, Registry.newestImport,
        (find_eraseP_append hm he hbefore).1]
    rw [hfinds]
    simp only [hsearch, hnode]
    refine ⟨_, ⟨rfl, rfl⟩, { h with proxyRef := ?_ }⟩
    exact congrArg (count · e.mIProxy 1) h.proxyRef

theorem Represents.unregisterImport (h : Represents extend s m) (a : CarString) :
    Simulates extend (m.UnregistersImport a) (s.UnregisterImportObject extend a) := by
  rcases a with _ | a
  · exact h.reports _
  rw [RotState.UnregisterImportObject]
  rcases h.imports.search_cases ImportObject.mNetAddress (fun _ => rfl) rfl a with
    ⟨hnone, hsearch⟩ | ⟨before, e, after, prev, it, hm, he, hbefore, hsearch, hnode, hge, hholds⟩
  · have hout : m.UnregistersImport (some a) = m.Reports (.code E_NO_IMPORT_OBJECT) := by
      funext r m'
      simp only [Registry.UnregistersImport, Registry.newestImport, find_eq_none hnone]
    rw [hsearch, hout]
    exact h.reports _
  · obtain ⟨hfind, herase⟩ := find_eraseP_append hm he hbefore
    simp only [hsearch, hnode, Import.entry, if_neg (Table.ne_head hge _)]
    by_cases hzero : m.proxyRef e.mIProxy = 0
    · have hout : m.UnregistersImport (some a) = fun r m' =>
          r = .code NOERROR ∧ m' = { m with imports := before ++ after } := by
        funext r m'
        simp only [Registry.UnregistersImport, Registry.newestImport, Registry.withoutImport,
          hfind, herase, if_pos hzero]
      have hfree : ¬ s.proxyRef e.mIProxy ≠ 0 := by rw [h.proxyRef, not_not, hzero]
      rw [hout, if_neg hfree]
      exact ⟨_, ⟨rfl, rfl⟩, { h with imports := hholds }⟩
    · -- the proxy has references
      have hout : m.UnregistersImport (some a) = m.Reports (.code S_FALSE) := by
        funext r m'
        simp only [Registry.UnregistersImport, Registry.newestImport, hfind, if_neg hzero]
      have hheld : s.proxyRef e.mIProxy ≠ 0 := by rwa [h.proxyRef]
      rw [hout, if_pos hheld]
      exact h.reports _

/-- One operation. -/
theorem Represents.step (h : Represents extend s m) {a : RotAction} {r : Reply × RotState}
    (hstep : s.step extend a = some r) : Simulates extend (m.Answers a) r := by
  cases a with
  | registerExport a o stub new =>
    obtain ⟨hnew, heq⟩ := Option.ite_none_right_eq_some.mp hstep
    exact Option.some.inj heq ▸ h.registerExport hnew
  | findObject o => exact Option.some.inj hstep ▸ h.findObject o
  | findExport a => exact Option.some.inj hstep ▸ h.findExport a
  | unregisterExport a => exact Option.some.inj hstep ▸ h.unregisterExport a
  | registerImport a proxy new =>
    obtain ⟨hnew, heq⟩ := Option.ite_none_right_eq_some.mp hstep
    exact Option.some.inj heq ▸ h.registerImport hnew
  | findImport a => exact Option.some.inj hstep ▸ h.findImport a
  | unregisterImport a => exact Option.some.inj hstep ▸ h.unregisterImport a
  | others stubRef proxyRef objectRef =>
    obtain rfl := Option.some.inj hstep
    exact ⟨_, ⟨rfl, rfl⟩, ⟨h.exports, h.imports, rfl, rfl, rfl⟩⟩

end

/-- **The running object tables are multimaps** from net addresses: what the operations of a run
return and do is what two lists of registrations answer, and at the end the tables hold these
registrations behind heads that are as they were. -/
theorem run_refines (extend : UInt8 → UInt32) {as : List RotAction} {rs : List Reply} {s : RotState}
    (hrun : RotState.run extend {} as = some (rs, s)) :
    ∃ m, Registry.Run {} as rs m ∧ Represents extend s m := by
  suffices h : ∀ (s₀ : RotState) (m₀ : Registry) (rs : List Reply), Represents extend s₀ m₀ →
      RotState.run extend s₀ as = some (rs, s) →
        ∃ m, Registry.Run m₀ as rs m ∧ Represents extend s m by
    exact h {} {} rs (represents_init extend) hrun
  clear hrun rs
  induction as with
  | nil =>
    intro s₀ m₀ rs hrep hrun
    obtain ⟨rfl, rfl⟩ := Prod.mk.inj (Option.some.inj hrun)
    exact ⟨m₀, rfl, hrep⟩
  | cons a as ih =>
    intro s₀ m₀ rs hrep hrun
    obtain ⟨⟨r, s₁⟩, hstep, hrest⟩ := Option.bind_eq_some_iff.mp hrun
    obtain ⟨⟨rs', s'⟩, hrest', heq⟩ := Option.map_eq_some_iff.mp hrest
    obtain ⟨rfl, rfl⟩ := Prod.mk.inj heq
    obtain ⟨m₁, hanswers, hrep₁⟩ := hrep.step hstep
    obtain ⟨m, hruns, hrep'⟩ := ih s₁ m₁ rs' hrep₁ hrest'
    exact ⟨m, ⟨m₁, hanswers, hruns⟩, hrep'⟩

/-- Two registrations of one address, found and removed in turn, and an import that is held. -/
private def shadowing : List RotAction :=
  [.registerExport (some ⟨[49], zero_notMem_one⟩) (some 1) 10 (some 30),
    .registerExport (some ⟨[49], zero_notMem_one⟩) (some 2) 20 (some 31),
    .findExport (some ⟨[49], zero_notMem_one⟩), .unregisterExport (some ⟨[49], zero_notMem_one⟩),
    .findExport (some ⟨[49], zero_notMem_one⟩), .findObject (some 2),
    .registerImport (some ⟨[50], zero_notMem_two⟩) 5 (some 31), .findImport (some ⟨[50], zero_notMem_two⟩),
    .unregisterImport (some ⟨[50], zero_notMem_two⟩)]

theorem run_refines_shadowing :
    ∃ rs s, RotState.run UInt8.toUInt32 {} shadowing = some (rs, s) ∧
      rs = [.code NOERROR, .code NOERROR, .exported ⟨some ⟨[49], by decide⟩, some 2, some 20⟩,
        .code NOERROR, .exported ⟨some ⟨[49], by decide⟩, some 1, some 10⟩,
        .code E_NO_EXPORT_OBJECT, .code NOERROR, .imported ⟨some ⟨[50], by decide⟩, some 5⟩,
        .code S_FALSE] ∧
      ∃ m, Registry.Run {} shadowing rs m ∧ Represents UInt8.toUInt32 s m :=
  ⟨_, _, rfl, rfl, run_refines UInt8.toUInt32 rfl⟩

end ElastosCar.Rot
