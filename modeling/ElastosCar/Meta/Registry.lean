import ElastosCar.Lib.Trace
import ElastosCar.Meta.ClsInfo

/-!
# The registry of module infos

The list of `metainfos.cpp`. `RegisterModuleInfo` copies a module info and puts it behind the head of the
list, unless it takes it for one that is there: it compares the first class of each, or the first
interface of each if the module has no classes. The lookups go through all classes of all modules.
Module infos are never freed, so the address of a copy stands for one copy for ever.

`History` keeps beside the list which modules are registered, each with the copy that was made of it or
that it was taken for. `coherent_of_meets` says that the lookups answer for exactly the classes of these
modules, as long as no module is taken for one that lacks a class of it.
-/

namespace ElastosCar.ClsInfo

/-- `CIModuleInfoNode`: the address of the copy and what the copy says. -/
structure CIModuleInfoNode where
  address : ℕ
  mModInfo : CIModuleInfo
deriving DecidableEq, Repr

structure ModuleRegistry where
  sModuleInfoList : List CIModuleInfoNode := []
  /-- The address of the next copy. -/
  fresh : ℕ := 0
deriving DecidableEq, Repr

namespace ModuleRegistry

/-- The comparison of `RegisterModuleInfo`. -/
def sameModule (src cur : CIModuleInfo) : Bool :=
  match src.mClasses, src.mInterfaces with
  | classInfo :: _, _ =>
    match cur.mClasses with
    | c :: _ => classInfo.mCLSID == c.mCLSID
    | [] => false
  | [], interfaceInfo :: _ =>
    match cur.mInterfaces with
    | i :: _ => interfaceInfo.mIID == i.mIID
    | [] => false
  | [], [] => false

/-- Only a module without classes and interfaces is not the same as itself. -/
theorem sameModule_self {src : CIModuleInfo} (h : ¬(src.mClasses = [] ∧ src.mInterfaces = [])) :
    sameModule src src = true := by
  unfold sameModule
  cases hc : src.mClasses with
  | cons c cs => exact beq_self_eq_true c.mCLSID
  | nil =>
    cases hi : src.mInterfaces with
    | cons i is => exact beq_self_eq_true i.mIID
    | nil => exact (h ⟨hc, hi⟩).elim

theorem not_sameModule_of_empty {src : CIModuleInfo} (h : src.mClasses = [] ∧ src.mInterfaces = [])
    (cur : CIModuleInfo) : sameModule src cur = false := by
  rw [sameModule, h.1, h.2]

/-- `curNode` after the search. -/
def curNode (s : ModuleRegistry) (src : CIModuleInfo) : Option CIModuleInfoNode :=
  s.sModuleInfoList.find? fun node => sameModule src node.mModInfo

/-- The new node goes behind the head. -/
def insertNode (node : CIModuleInfoNode) : List CIModuleInfoNode → List CIModuleInfoNode
  | [] => [node]
  | head :: nodes => head :: node :: nodes

theorem mem_insertNode {node n : CIModuleInfoNode} {nodes : List CIModuleInfoNode} :
    n ∈ insertNode node nodes ↔ n = node ∨ n ∈ nodes := by
  cases nodes with
  | nil => exact List.mem_singleton.trans (or_iff_left List.not_mem_nil).symm
  | cons head nodes =>
    rw [insertNode, List.mem_cons, List.mem_cons, List.mem_cons]
    exact or_left_comm

/-- The addresses are distinct: erasing the first node of an address leaves no other one. -/
theorem mem_eraseP_address {nodes : List CIModuleInfoNode} (h : (nodes.map (·.address)).Nodup)
    {a : ℕ} {n : CIModuleInfoNode} :
    (n ∈ nodes.eraseP fun node => node.address == a) ↔ n ∈ nodes ∧ n.address ≠ a := by
  induction nodes with
  | nil => exact ⟨fun h => (List.not_mem_nil h).elim, fun h => h.1⟩
  | cons head nodes ih =>
    obtain ⟨hnot, hrest⟩ := List.nodup_cons.mp h
    by_cases hhead : head.address = a
    · have hbeq : (head.address == a) = true := beq_iff_eq.mpr hhead
      rw [List.eraseP_cons, hbeq, cond_true, List.mem_cons]
      refine ⟨fun hn => ⟨.inr hn, fun heq => hnot ?_⟩, fun ⟨hn, hne⟩ => ?_⟩
      · exact List.mem_map.mpr ⟨n, hn, heq.trans hhead.symm⟩
      · exact hn.resolve_left fun heq => hne (heq ▸ hhead)
    · have hbeq : (head.address == a) = false := beq_eq_false_iff_ne.mpr hhead
      rw [List.eraseP_cons, hbeq, cond_false, List.mem_cons, List.mem_cons, ih hrest]
      refine ⟨?_, fun ⟨hn, hne⟩ => hn.imp_right fun h => ⟨h, hne⟩⟩
      rintro (rfl | ⟨hn, hne⟩)
      · exact ⟨.inl rfl, hhead⟩
      · exact ⟨.inr hn, hne⟩

/-- `RegisterModuleInfo`; `allocated` says whether both `malloc`s succeed. -/
def RegisterModuleInfo (s : ModuleRegistry) (src : CIModuleInfo) (allocated : Bool) :
    ECode × ModuleRegistry :=
  if src.mClasses = [] ∧ src.mInterfaces = [] then (NOERROR, s)
  else
    match s.curNode src with
    | some _ => (NOERROR, s)
    | none =>
      if allocated then
        (NOERROR, ⟨insertNode ⟨s.fresh, src⟩ s.sModuleInfoList, s.fresh + 1⟩)
      else (E_OUT_OF_MEMORY, s)

/-- `UnregisterModuleInfo` of the copy at an address. -/
def UnregisterModuleInfo (s : ModuleRegistry) (moduleInfo : ℕ) : ECode × ModuleRegistry :=
  if s.sModuleInfoList.any fun node => node.address == moduleInfo then
    (NOERROR,
      { s with
        sModuleInfoList := s.sModuleInfoList.eraseP fun node => node.address == moduleInfo })
  else (E_DOES_NOT_EXIST, s)

def LookupClassInfo (s : ModuleRegistry) (rclsid : EMuid) : ECode × Option CIClassInfo :=
  match s.sModuleInfoList.findSome? fun node =>
      node.mModInfo.mClasses.find? fun c => c.mCLSID == rclsid with
  | some classInfo => (NOERROR, some classInfo)
  | none => (E_DOES_NOT_EXIST, none)

def LookupModuleInfo (s : ModuleRegistry) (rclsid : EMuid) : ECode × Option CIModuleInfoNode :=
  match s.sModuleInfoList.find? fun node =>
      node.mModInfo.mClasses.any fun c => c.mCLSID == rclsid with
  | some node => (NOERROR, some node)
  | none => (E_DOES_NOT_EXIST, none)

end ModuleRegistry

/-- The calls that change the registry. -/
inductive RegistryCall
  | register (src : CIModuleInfo) (allocated : Bool)
  | unregister (moduleInfo : ℕ)
deriving DecidableEq, Repr

/-- The registry, and the modules that are registered: for each the address of its copy, or of the copy
it was taken for. -/
structure RegistryHistory where
  code : ModuleRegistry := {}
  registered : List (CIModuleInfo × ℕ) := []
deriving DecidableEq, Repr

namespace RegistryHistory

/-- What a registration came to. A module without classes and interfaces has no copy. -/
def enter (t : RegistryHistory) (src : CIModuleInfo) (r : ECode × ModuleRegistry) : RegistryHistory where
  code := r.2
  registered :=
    match r.2.curNode src with
    | some node => if r.1 = NOERROR then (src, node.address) :: t.registered else t.registered
    | none => t.registered

/-- A module is registered when `RegisterModuleInfo` returns `NOERROR`, until its copy is unregistered. -/
def step (t : RegistryHistory) : RegistryCall → Option RegistryHistory
  | .register src allocated => some (t.enter src (t.code.RegisterModuleInfo src allocated))
  | .unregister moduleInfo =>
    some
      { code := (t.code.UnregisterModuleInfo moduleInfo).2
        registered := t.registered.filter fun r => r.2 ≠ moduleInfo }

/-- What the lookups should answer. -/
structure Coherent (t : RegistryHistory) : Prop where
  found : ∀ src a, (src, a) ∈ t.registered → ∀ c ∈ src.mClasses,
    t.code.LookupClassInfo c.mCLSID = (NOERROR, some c) ∧
      ∃ node, t.code.LookupModuleInfo c.mCLSID = (NOERROR, some node) ∧ c ∈ node.mModInfo.mClasses
  missing : ∀ rclsid, (∀ src a, (src, a) ∈ t.registered → ∀ c ∈ src.mClasses, c.mCLSID ≠ rclsid) →
    t.code.LookupClassInfo rclsid = (E_DOES_NOT_EXIST, none) ∧
      t.code.LookupModuleInfo rclsid = (E_DOES_NOT_EXIST, none)
  again : ∀ src a, (src, a) ∈ t.registered → ∀ allocated rclsid,
    (t.code.RegisterModuleInfo src allocated).2.LookupClassInfo rclsid =
        t.code.LookupClassInfo rclsid ∧
      (t.code.RegisterModuleInfo src allocated).2.LookupModuleInfo rclsid =
        t.code.LookupModuleInfo rclsid

/-- A module that is taken for another has no classes but those of the other; a module that is added
gives its class ids the records that they have already, and one record each. -/
def Consistent (t : RegistryHistory) : RegistryCall → Prop
  | .register src _ =>
    match t.code.curNode src with
    | some node => ∀ c ∈ src.mClasses, c ∈ node.mModInfo.mClasses
    | none => ∀ c ∈ src.mClasses,
      (∀ c' ∈ src.mClasses, c'.mCLSID = c.mCLSID → c' = c) ∧
        ∀ node ∈ t.code.sModuleInfoList, ∀ c' ∈ node.mModInfo.mClasses,
          c'.mCLSID = c.mCLSID → c' = c
  | .unregister _ => True

/-- What holds in every state of a run that is consistent. -/
structure Inv (t : RegistryHistory) : Prop where
  fresh : ∀ node ∈ t.code.sModuleInfoList, node.address < t.code.fresh
  nodup : (t.code.sModuleInfoList.map (·.address)).Nodup
  /-- A module that was copied is registered as long as the copy is listed. -/
  copied : ∀ node ∈ t.code.sModuleInfoList, (node.mModInfo, node.address) ∈ t.registered
  /-- A registered module has a listed copy with all its classes. -/
  listed : ∀ src a, (src, a) ∈ t.registered → ∃ node ∈ t.code.sModuleInfoList, node.address = a ∧
    ModuleRegistry.sameModule src node.mModInfo = true ∧ ∀ c ∈ src.mClasses, c ∈ node.mModInfo.mClasses
  agree : ∀ node ∈ t.code.sModuleInfoList, ∀ node' ∈ t.code.sModuleInfoList,
    ∀ c ∈ node.mModInfo.mClasses, ∀ c' ∈ node'.mModInfo.mClasses, c.mCLSID = c'.mCLSID → c = c'

end RegistryHistory

namespace ModuleRegistry

variable {s : ModuleRegistry} {rclsid : EMuid} {c : CIClassInfo} {node : CIModuleInfoNode}

/-! ### The lookups -/

theorem LookupClassInfo_eq_some (h : (s.LookupClassInfo rclsid).2 = some c) :
    s.LookupClassInfo rclsid = (NOERROR, some c) ∧ c.mCLSID = rclsid ∧
      ∃ node ∈ s.sModuleInfoList, c ∈ node.mModInfo.mClasses := by
  unfold LookupClassInfo at h ⊢
  split at h
  · rename_i c' hfind
    obtain rfl := Option.some.inj h
    obtain ⟨node, hnode, hc⟩ := List.exists_of_findSome?_eq_some hfind
    have hid := List.find?_some hc
    exact ⟨rfl, beq_iff_eq.mp hid, node, hnode, List.mem_of_find?_eq_some hc⟩
  · cases h

theorem LookupClassInfo_eq_none (h : (s.LookupClassInfo rclsid).2 = none) :
    s.LookupClassInfo rclsid = (E_DOES_NOT_EXIST, none) ∧
      ∀ node ∈ s.sModuleInfoList, ∀ c ∈ node.mModInfo.mClasses, c.mCLSID ≠ rclsid := by
  unfold LookupClassInfo at h ⊢
  split at h
  · cases h
  · rename_i hfind
    refine ⟨rfl, fun node hnode c hc heq => ?_⟩
    have hnone := List.findSome?_eq_none_iff.mp hfind node hnode
    exact List.find?_eq_none.mp hnone c hc (beq_iff_eq.mpr heq)

theorem LookupModuleInfo_eq_some (h : (s.LookupModuleInfo rclsid).2 = some node) :
    s.LookupModuleInfo rclsid = (NOERROR, some node) ∧ node ∈ s.sModuleInfoList ∧
      ∃ c ∈ node.mModInfo.mClasses, c.mCLSID = rclsid := by
  unfold LookupModuleInfo at h ⊢
  split at h
  · rename_i node' hfind
    obtain rfl := Option.some.inj h
    have hany := List.find?_some hfind
    obtain ⟨c, hc, hid⟩ := List.any_eq_true.mp hany
    exact ⟨rfl, List.mem_of_find?_eq_some hfind, c, hc, beq_iff_eq.mp hid⟩
  · cases h

theorem LookupModuleInfo_eq_none (h : (s.LookupModuleInfo rclsid).2 = none) :
    s.LookupModuleInfo rclsid = (E_DOES_NOT_EXIST, none) ∧
      ∀ node ∈ s.sModuleInfoList, ∀ c ∈ node.mModInfo.mClasses, c.mCLSID ≠ rclsid := by
  unfold LookupModuleInfo at h ⊢
  split at h
  · cases h
  · rename_i hfind
    refine ⟨rfl, fun node hnode c hc heq => ?_⟩
    exact List.find?_eq_none.mp hfind node hnode
      (List.any_eq_true.mpr ⟨c, hc, beq_iff_eq.mpr heq⟩)

/-! ### Registering -/

variable {src : CIModuleInfo} {allocated : Bool}

/-- What a registration can do. -/
theorem RegisterModuleInfo_cases (s : ModuleRegistry) (src : CIModuleInfo) (allocated : Bool) :
    (src.mClasses = [] ∧ src.mInterfaces = [] ∧
        s.RegisterModuleInfo src allocated = (NOERROR, s) ∧ s.curNode src = none) ∨
    (∃ node, s.curNode src = some node ∧ s.RegisterModuleInfo src allocated = (NOERROR, s)) ∨
    (s.curNode src = none ∧ s.RegisterModuleInfo src allocated = (E_OUT_OF_MEMORY, s)) ∨
    (s.curNode src = none ∧ sameModule src src = true ∧ s.RegisterModuleInfo src allocated =
        (NOERROR, ⟨insertNode ⟨s.fresh, src⟩ s.sModuleInfoList, s.fresh + 1⟩)) := by
  unfold RegisterModuleInfo
  by_cases hempty : src.mClasses = [] ∧ src.mInterfaces = []
  · refine .inl ⟨hempty.1, hempty.2, if_pos hempty, ?_⟩
    exact List.find?_eq_none.mpr fun node _ => by simp [not_sameModule_of_empty hempty]
  · rw [if_neg hempty]
    cases hcur : s.curNode src with
    | some node => exact .inr (.inl ⟨node, rfl, rfl⟩)
    | none =>
      cases allocated with
      | false => exact .inr (.inr (.inl ⟨rfl, rfl⟩))
      | true => exact .inr (.inr (.inr ⟨rfl, sameModule_self hempty, rfl⟩))

theorem curNode_eq_some (h : s.curNode src = some node) :
    node ∈ s.sModuleInfoList ∧ sameModule src node.mModInfo = true := by
  rw [curNode] at h
  have hsame := List.find?_some h
  exact ⟨List.mem_of_find?_eq_some h, hsame⟩

/-- The copy that was just made is found again. -/
theorem curNode_insertNode (hnone : s.curNode src = none) (hself : sameModule src src = true) :
    (⟨insertNode ⟨s.fresh, src⟩ s.sModuleInfoList, s.fresh + 1⟩ : ModuleRegistry).curNode src =
      some ⟨s.fresh, src⟩ := by
  have hnot := List.find?_eq_none.mp hnone
  change (insertNode ⟨s.fresh, src⟩ s.sModuleInfoList).find? (fun n => sameModule src n.mModInfo) = _
  generalize s.sModuleInfoList = nodes at hnot
  cases nodes with
  | nil => simp only [insertNode, List.find?_cons, hself]
  | cons head nodes =>
    have hhead := Bool.eq_false_iff.mpr (hnot head List.mem_cons_self)
    simp only [insertNode, List.find?_cons, hhead, hself]

/-- A module that would be taken for a listed one changes nothing. -/
theorem RegisterModuleInfo_of_same (hnode : node ∈ s.sModuleInfoList)
    (hsame : sameModule src node.mModInfo = true) (allocated : Bool) :
    (s.RegisterModuleInfo src allocated).2 = s := by
  have hnot : s.curNode src ≠ none := fun h => List.find?_eq_none.mp h node hnode hsame
  rcases RegisterModuleInfo_cases s src allocated with ⟨-, -, h, -⟩ | ⟨_, -, h⟩ | ⟨h, -⟩ | ⟨h, -⟩
  · rw [h]
  · rw [h]
  · exact (hnot h).elim
  · exact (hnot h).elim

end ModuleRegistry

namespace RegistryHistory

open ModuleRegistry

variable {t t' : RegistryHistory} {call : RegistryCall} {calls : List RegistryCall}

/-! ### Runs -/

theorem Inv.coherent (hinv : t.Inv) : t.Coherent where
  found := by
    intro src a hmem c hc
    obtain ⟨node, hnode, -, -, hsub⟩ := hinv.listed src a hmem
    have hcn := hsub c hc
    constructor
    · cases h : (t.code.LookupClassInfo c.mCLSID).2 with
      | none => exact absurd rfl ((LookupClassInfo_eq_none h).2 node hnode c hcn)
      | some c' =>
        obtain ⟨heq, hid, node', hnode', hc'⟩ := LookupClassInfo_eq_some h
        rw [heq, hinv.agree node' hnode' node hnode c' hc' c hcn hid]
    · cases h : (t.code.LookupModuleInfo c.mCLSID).2 with
      | none => exact absurd rfl ((LookupModuleInfo_eq_none h).2 node hnode c hcn)
      | some node' =>
        obtain ⟨heq, hnode', c', hc', hid⟩ := LookupModuleInfo_eq_some h
        refine ⟨node', heq, ?_⟩
        rwa [← hinv.agree node' hnode' node hnode c' hc' c hcn hid]
  missing := by
    intro rclsid hno
    have hnone : ∀ node ∈ t.code.sModuleInfoList, ∀ c ∈ node.mModInfo.mClasses, c.mCLSID ≠ rclsid :=
      fun node hnode c hc => hno _ _ (hinv.copied node hnode) c hc
    constructor
    · cases h : (t.code.LookupClassInfo rclsid).2 with
      | none => exact (LookupClassInfo_eq_none h).1
      | some c =>
        obtain ⟨-, hid, node, hnode, hc⟩ := LookupClassInfo_eq_some h
        exact (hnone node hnode c hc hid).elim
    · cases h : (t.code.LookupModuleInfo rclsid).2 with
      | none => exact (LookupModuleInfo_eq_none h).1
      | some node =>
        obtain ⟨-, hnode, c, hc, hid⟩ := LookupModuleInfo_eq_some h
        exact (hnone node hnode c hc hid).elim
  again := by
    intro src a hmem allocated rclsid
    obtain ⟨node, hnode, -, hsame, -⟩ := hinv.listed src a hmem
    rw [RegisterModuleInfo_of_same hnode hsame]
    exact ⟨rfl, rfl⟩

theorem inv_init : ({} : RegistryHistory).Inv where
  fresh := fun _ h => (List.not_mem_nil h).elim
  nodup := List.nodup_nil
  copied := fun _ h => (List.not_mem_nil h).elim
  listed := fun _ _ h => (List.not_mem_nil h).elim
  agree := fun _ h => (List.not_mem_nil h).elim

/-- A registration that adds nothing to the list adds an entry for the copy it found. -/
theorem Inv.taken {src : CIModuleInfo} {node : CIModuleInfoNode} (hinv : t.Inv)
    (hcur : t.code.curNode src = some node) (hsub : ∀ c ∈ src.mClasses, c ∈ node.mModInfo.mClasses) :
    Inv { t with registered := (src, node.address) :: t.registered } := by
  obtain ⟨hnode, hsame⟩ := curNode_eq_some hcur
  refine ⟨hinv.fresh, hinv.nodup, fun n hn => List.mem_cons_of_mem _ (hinv.copied n hn), ?_, hinv.agree⟩
  intro src' a hmem
  rcases List.mem_cons.mp hmem with heq | hmem
  · obtain ⟨rfl, rfl⟩ := Prod.mk.inj heq
    exact ⟨node, hnode, rfl, hsame, hsub⟩
  · exact hinv.listed src' a hmem

theorem nodup_insertNode {node : CIModuleInfoNode} {nodes : List CIModuleInfoNode}
    (h : (nodes.map (·.address)).Nodup) (hnew : ∀ n ∈ nodes, n.address ≠ node.address) :
    ((insertNode node nodes).map (·.address)).Nodup := by
  have hperm : (insertNode node nodes).Perm (node :: nodes) := by
    cases nodes with
    | nil => exact .refl _
    | cons head nodes => exact .swap node head nodes
  rw [(hperm.map _).nodup_iff, List.map_cons, List.nodup_cons]
  refine ⟨fun hmem => ?_, h⟩
  obtain ⟨n, hn, heq⟩ := List.mem_map.mp hmem
  exact hnew n hn heq

/-- A registration that makes a copy. -/
theorem Inv.copy {src : CIModuleInfo} (hinv : t.Inv) (hself : sameModule src src = true)
    (hown : ∀ c ∈ src.mClasses, (∀ c' ∈ src.mClasses, c'.mCLSID = c.mCLSID → c' = c) ∧
      ∀ node ∈ t.code.sModuleInfoList, ∀ c' ∈ node.mModInfo.mClasses, c'.mCLSID = c.mCLSID → c' = c) :
    Inv ⟨⟨insertNode ⟨t.code.fresh, src⟩ t.code.sModuleInfoList, t.code.fresh + 1⟩,
      (src, t.code.fresh) :: t.registered⟩ := by
  constructor
  · intro node hnode
    rcases mem_insertNode.mp hnode with rfl | hnode
    · exact Nat.lt_succ_self _
    · exact Nat.lt_succ_of_lt (hinv.fresh node hnode)
  · exact nodup_insertNode hinv.nodup fun n hn => (hinv.fresh n hn).ne
  · intro node hnode
    rcases mem_insertNode.mp hnode with rfl | hnode
    · exact List.mem_cons_self
    · exact List.mem_cons_of_mem _ (hinv.copied node hnode)
  · intro src' a hmem
    rcases List.mem_cons.mp hmem with heq | hmem
    · obtain ⟨rfl, rfl⟩ := Prod.mk.inj heq
      exact ⟨_, mem_insertNode.mpr (.inl rfl), rfl, hself, fun c hc => hc⟩
    · obtain ⟨node, hnode, h⟩ := hinv.listed src' a hmem
      exact ⟨node, mem_insertNode.mpr (.inr hnode), h⟩
  · intro node hnode node' hnode' c hc c' hc' hid
    rcases mem_insertNode.mp hnode with rfl | hnode
    · rcases mem_insertNode.mp hnode' with rfl | hnode'
      · exact (hown c' hc').1 c hc hid
      · exact ((hown c hc).2 node' hnode' c' hc' hid.symm).symm
    · rcases mem_insertNode.mp hnode' with rfl | hnode'
      · exact (hown c' hc').2 node hnode c hc hid
      · exact hinv.agree node hnode node' hnode' c hc c' hc' hid

/-- Taking a copy off the list and its modules off the registered ones. -/
theorem Inv.unregister (hinv : t.Inv) (moduleInfo : ℕ) :
    Inv ⟨(t.code.UnregisterModuleInfo moduleInfo).2,
      t.registered.filter fun r => r.2 ≠ moduleInfo⟩ := by
  -- the addresses are distinct, so the node that goes is the only one with its address
  have hmem : ∀ node, node ∈ (t.code.UnregisterModuleInfo moduleInfo).2.sModuleInfoList ↔
      node ∈ t.code.sModuleInfoList ∧ node.address ≠ moduleInfo := by
    intro node
    unfold UnregisterModuleInfo
    split
    · change node ∈ t.code.sModuleInfoList.eraseP _ ↔ _
      rw [mem_eraseP_address hinv.nodup]
    · rename_i hany
      refine ⟨fun hnode => ⟨hnode, fun heq => hany ?_⟩, And.left⟩
      exact List.any_eq_true.mpr ⟨node, hnode, beq_iff_eq.mpr heq⟩
  have hfresh : (t.code.UnregisterModuleInfo moduleInfo).2.fresh = t.code.fresh := by
    unfold UnregisterModuleInfo
    split <;> rfl
  constructor
  · intro node hnode
    rw [hfresh]
    exact hinv.fresh node ((hmem node).mp hnode).1
  · have hsub : (t.code.UnregisterModuleInfo moduleInfo).2.sModuleInfoList.Sublist
        t.code.sModuleInfoList := by
      unfold UnregisterModuleInfo
      split
      · exact List.eraseP_sublist
      · exact .refl _
    exact hinv.nodup.sublist (hsub.map _)
  · intro node hnode
    obtain ⟨hnode, hne⟩ := (hmem node).mp hnode
    exact List.mem_filter.mpr ⟨hinv.copied node hnode, decide_eq_true hne⟩
  · intro src a hreg
    obtain ⟨hreg, hne⟩ := List.mem_filter.mp hreg
    obtain ⟨node, hnode, rfl, h⟩ := hinv.listed src a hreg
    exact ⟨node, (hmem node).mpr ⟨hnode, of_decide_eq_true hne⟩, rfl, h⟩
  · intro node hnode node' hnode'
    exact hinv.agree node ((hmem node).mp hnode).1 node' ((hmem node').mp hnode').1

theorem Inv.step (hinv : t.Inv) (hok : t.Consistent call) (h : t.step call = some t') : t'.Inv := by
  cases call with
  | unregister moduleInfo => exact Option.some.inj h ▸ hinv.unregister moduleInfo
  | register src allocated =>
    obtain rfl := Option.some.inj h
    rw [Consistent] at hok
    rcases RegisterModuleInfo_cases t.code src allocated with
      ⟨-, -, hreg, hcur⟩ | ⟨node, hcur, hreg⟩ | ⟨hcur, hreg⟩ | ⟨hcur, hself, hreg⟩
    · rw [hreg, enter, hcur]
      exact hinv
    · rw [hcur] at hok
      rw [hreg, enter, hcur]
      exact hinv.taken hcur hok
    · rw [hreg, enter, hcur]
      exact hinv
    · rw [hcur] at hok
      rw [hreg, enter, curNode_insertNode hcur hself]
      exact hinv.copy hself hok

/-- **The registry answers for the registered modules**, in every run in which no module is taken for
one that lacks a class of it, and no class id gets a second record. -/
theorem coherent_of_meets (hmeets : Trace.Meets step Consistent {} calls)
    (hrun : Trace.run step {} calls = some t) : t.Coherent :=
  Inv.coherent (Trace.run_invariant (fun _ _ _ hinv hok h => hinv.step hok h) inv_init hmeets hrun)

/-- A class without interfaces. -/
private def classOf (n : UInt32) : CIClassInfo := ⟨⟨[], zero_notMem_nil⟩, ⟨n, 0, 0, 0⟩, []⟩

/-- A module with these classes. -/
private def moduleOf (ns : List UInt32) : CIModuleInfo := ⟨0, ns.map classOf, [], ⟨[], zero_notMem_nil⟩⟩

private def comings : List RegistryCall :=
  [.register (moduleOf [1, 2]) true, .register (moduleOf [3]) true, .unregister 0,
    .register (moduleOf [1, 2]) true]

/-- Two modules, the first of which goes and comes again. -/
theorem coherent_of_meets_again :
    ∃ t, Trace.run step {} comings = some t ∧ t.Coherent := by
  have hmeets : Trace.Meets step Consistent {} comings := by
    refine .cons ?_ rfl (.cons ?_ rfl (.cons trivial rfl (.cons ?_ rfl trivial)))
    · change ∀ c ∈ (moduleOf [1, 2]).mClasses, _
      decide
    · change ∀ c ∈ (moduleOf [3]).mClasses, _
      decide
    · change ∀ c ∈ (moduleOf [1, 2]).mClasses, _
      decide
  exact ⟨_, rfl, coherent_of_meets hmeets rfl⟩

/-- **A module that shares its first class** with a registered one is not added: `RegisterModuleInfo`
returns `NOERROR`, and its other classes are not found. -/
theorem not_coherent_sharedFirst :
    ∃ t, Trace.run step {} [.register (moduleOf [1]) true, .register (moduleOf [1, 2]) true] = some t ∧
      (t.code.RegisterModuleInfo (moduleOf [1, 2]) true).1 = NOERROR ∧
      t.code.LookupClassInfo ⟨2, 0, 0, 0⟩ = (E_DOES_NOT_EXIST, none) ∧ ¬t.Coherent := by
  refine ⟨_, rfl, rfl, rfl, fun h => ?_⟩
  have hfound := (h.found (moduleOf [1, 2]) 0 (by decide) (classOf 2) (by decide)).1
  exact absurd (congrArg Prod.fst hfound) (by decide)

end RegistryHistory

end ElastosCar.ClsInfo
