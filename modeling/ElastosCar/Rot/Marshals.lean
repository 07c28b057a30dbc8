import ElastosCar.Rot.Interfaces

/-!
# What marshalling does to a process

`Process.Sound` says that the tables of a process, its stubs and its proxies fit together: every
entry of the export table is of a stub, with one stub for each object and each address, and every
entry of the import table of a proxy, with one for each address. `Sound.marshals` is the
specification of `StdMarshalInterface` under it.
-/

namespace ElastosCar.Rot

open ClsInfo

/-! ### The searches -/

section

variable {extend : UInt8 → UInt32} {s : RotState} {m : Registry}

/-- The counts are no part of the tables. -/
theorem Represents.counts (h : Represents extend s m) (stubRef proxyRef objectRef : ℕ → ℤ) :
    Represents extend { s with stubRef, proxyRef, objectRef }
      { m with stubRef, proxyRef, objectRef } :=
  ⟨h.exports, h.imports, rfl, rfl, rfl⟩

/-- The first registration of an address is one of them. -/
theorem mem_of_find {β : Type} {address : β → CString} {a : CString} {bs : List β} {b : β}
    (h : bs.find? (fun x => address x = a) = some b) : b ∈ bs ∧ address b = a :=
  ⟨List.mem_of_find?_eq_some h,
    of_decide_eq_true (List.find?_some (p := fun x => decide (address x = a)) h)⟩

/-- A search that finds nothing changes nothing. -/
theorem foundExport_code {found : Option (Option (Option ℕ × ℕ))} {ec : ECode} {rot : RotState}
    (h : s.foundExport found = (.code ec, rot)) : rot = s := by
  rw [RotState.foundExport.eq_def] at h
  split at h
  · cases h
  · exact (Prod.mk.inj h).2.symm
  · split at h <;> cases h

theorem FindExportObject_code {object : Option ℕ} {ec : ECode} {rot : RotState}
    (h : s.FindExportObject object = (.code ec, rot)) : rot = s := by
  rw [RotState.FindExportObject.eq_def] at h
  split at h
  · exact (Prod.mk.inj h).2.symm
  · exact foundExport_code h

theorem FindExportAddress_code {a : CarString} {ec : ECode} {rot : RotState}
    (h : s.FindExportAddress extend a = (.code ec, rot)) : rot = s := by
  rw [RotState.FindExportAddress.eq_def] at h
  split at h
  · cases h
  · exact foundExport_code h

/-- The search leaves the import table alone. -/
theorem FindExportAddress_imports (extend : UInt8 → UInt32) (s : RotState) (a : CarString) :
    (s.FindExportAddress extend a).2.imports = s.imports := by
  rw [RotState.FindExportAddress.eq_def]
  split
  · rfl
  rw [RotState.foundExport.eq_def]
  split
  · rfl
  · rfl
  · split <;> rfl

theorem FindImportObject_code {a : CarString} {ec : ECode} {rot : RotState}
    (h : s.FindImportObject extend a = (.code ec, rot)) : rot = s := by
  rw [RotState.FindImportObject.eq_def] at h
  split at h
  · cases h
  split at h
  · cases h
  · exact (Prod.mk.inj h).2.symm
  · split at h <;> cases h

/-- A search for an object finds an entry and raises the count of its stub, or it finds none. -/
theorem Represents.findObject_cases (h : Represents extend s m) (object : Option ℕ) :
    (∃ e ∈ m.exports, object = some e.mObject ∧ ∃ rot,
        s.FindExportObject object = (.exported e.entry, rot) ∧
        Represents extend rot { m with stubRef := count m.stubRef e.mIStub 1 }) ∨
      (∀ e ∈ m.exports, object ≠ some e.mObject) ∧ ∃ ec,
        s.FindExportObject object = (.code ec, s) := by
  obtain ⟨m', hanswer, hrep⟩ := h.findObject object
  rcases hfind : s.FindExportObject object with ⟨r, rot⟩
  rw [hfind] at hanswer hrep
  rcases object with _ | o
  · obtain ⟨rfl, rfl⟩ := hanswer
    obtain rfl := FindExportObject_code hfind
    exact .inr ⟨fun e _ => Option.some_ne_none _ ∘ Eq.symm, _, rfl⟩
  · rcases hanswer with ⟨e, he, rfl, rfl, rfl⟩ | ⟨hnone, rfl, rfl⟩
    · exact .inl ⟨e, he, rfl, rot, rfl, hrep⟩
    · obtain rfl := FindExportObject_code hfind
      refine .inr ⟨fun e he heq => ?_, _, rfl⟩
      exact hnone e he (Option.some.inj heq).symm

/-- The same for an address. -/
theorem Represents.findExport_cases (h : Represents extend s m) (a : CString) :
    (∃ e ∈ m.exports, e.mNetAddress = a ∧ ∃ rot,
        s.FindExportAddress extend (some a) = (.exported e.entry, rot) ∧
        Represents extend rot { m with stubRef := count m.stubRef e.mIStub 1 }) ∨
      (∀ e ∈ m.exports, e.mNetAddress ≠ a) ∧ ∃ ec,
        s.FindExportAddress extend (some a) = (.code ec, s) := by
  obtain ⟨m', hanswer, hrep⟩ := h.findExport (some a)
  rcases hfind : s.FindExportAddress extend (some a) with ⟨r, rot⟩
  rw [hfind] at hanswer hrep
  rw [Registry.FindsExport.eq_def] at hanswer
  dsimp only at hanswer
  rcases hnewest : m.newestExport a with _ | e
  · rw [hnewest] at hanswer
    obtain ⟨rfl, rfl⟩ := hanswer
    obtain rfl := FindExportAddress_code hfind
    refine .inr ⟨fun e he heq => ?_, _, rfl⟩
    exact List.find?_eq_none.mp hnewest e he (decide_eq_true heq)
  · rw [hnewest] at hanswer
    obtain ⟨rfl, rfl⟩ := hanswer
    obtain ⟨he, haddress⟩ := mem_of_find hnewest
    exact .inl ⟨e, he, haddress, rot, rfl, hrep⟩

/-- A search for the proxy of an address. -/
theorem Represents.findImport_cases (h : Represents extend s m) (a : CString) :
    (∃ i ∈ m.imports, i.mNetAddress = a ∧ ∃ rot,
        s.FindImportObject extend (some a) = (.imported i.entry, rot) ∧
        Represents extend rot { m with proxyRef := count m.proxyRef i.mIProxy 1 }) ∨
      (∀ i ∈ m.imports, i.mNetAddress ≠ a) ∧ ∃ ec,
        s.FindImportObject extend (some a) = (.code ec, s) := by
  obtain ⟨m', hanswer, hrep⟩ := h.findImport (some a)
  rcases hfind : s.FindImportObject extend (some a) with ⟨r, rot⟩
  rw [hfind] at hanswer hrep
  rw [Registry.FindsImport.eq_def] at hanswer
  dsimp only at hanswer
  rcases hnewest : m.newestImport a with _ | i
  · rw [hnewest] at hanswer
    obtain ⟨rfl, rfl⟩ := hanswer
    obtain rfl := FindImportObject_code hfind
    refine .inr ⟨fun i hi heq => ?_, _, rfl⟩
    exact List.find?_eq_none.mp hnewest i hi (decide_eq_true heq)
  · rw [hnewest] at hanswer
    obtain ⟨rfl, rfl⟩ := hanswer
    obtain ⟨hi, haddress⟩ := mem_of_find hnewest
    exact .inl ⟨i, hi, haddress, rot, rfl, hrep⟩

/-- The entry of a proxy without references is taken out. -/
theorem Represents.unregisterImport_cases (h : Represents extend s m) {i : Import}
    (hi : i ∈ m.imports) (himports : (m.imports.map Import.mNetAddress).Nodup)
    (hcount : s.proxyRef i.mIProxy = 0) :
    ∃ rot, s.UnregisterImportObject extend (some i.mNetAddress) = (.code NOERROR, rot) ∧
      Represents extend rot { m with imports := m.imports.erase i } := by
  obtain ⟨m', hanswer, hrep⟩ := h.unregisterImport (some i.mNetAddress)
  rcases hfind : s.UnregisterImportObject extend (some i.mNetAddress) with ⟨r, rot⟩
  rw [hfind] at hanswer hrep
  rw [Registry.UnregistersImport.eq_def] at hanswer
  dsimp only at hanswer
  obtain ⟨before, after, hsplit⟩ := List.append_of_mem hi
  have hbefore : ∀ x ∈ before, x.mNetAddress ≠ i.mNetAddress := by
    intro x hx heq
    rw [hsplit, List.map_append, List.map_cons, List.nodup_middle, List.nodup_cons] at himports
    exact himports.1 (heq ▸ List.mem_append_left _ (List.mem_map_of_mem hx))
  have hmem : i ∉ before := fun hmem => hbefore i hmem rfl
  obtain ⟨hnewest, hwithout⟩ := find_eraseP_append hsplit rfl hbefore
  rw [Registry.newestImport, hnewest] at hanswer
  dsimp only at hanswer
  rw [if_pos (h.proxyRef ▸ hcount), Registry.withoutImport, hwithout] at hanswer
  obtain ⟨rfl, rfl⟩ := hanswer
  refine ⟨rot, rfl, ?_⟩
  rwa [hsplit, List.erase_append_right _ hmem, List.erase_cons_head]

end

/-! ### The invariant -/

/-- What a stub for an object can be made of: the object is no proxy, its class id is of one class,
and memory is not handed out twice. -/
structure Process.CanStub (h : Host) (classInfo : EMuid → CIClassInfo) (s : Process) (q : ℕ)
    (c : StubCreation) : Prop where
  isObject : h.Probe q EIID_IObject ≠ none
  notProxy : h.Probe q EIID_IProxy = none
  classes : ∀ info, (c.of h q).classInfo = .ok info → info = classInfo info.mCLSID
  memory : ∀ k ∈ c.stubObj, s.stubs k = none
  entry : ∀ n ∈ c.expObj, s.rot.exports.Free n

/-- The same for a proxy, which is at the address of no object. -/
structure Process.CanProxy (h : Host) (classInfo : EMuid → CIClassInfo) (s : Process)
    (clsid : EMuid) (c : ProxyCreation) : Prop where
  classes : ∀ info, c.classInfo clsid = .ok info → info = classInfo clsid
  memory : ∀ p ∈ c.proxyObj, s.proxies p = none ∧ ∀ q, h.Probe q EIID_IInterface ≠ some p
  entry : ∀ n ∈ c.impObj, s.rot.imports.Free n

/-- A pointer that a process can have. -/
def Process.Has (s : Process) : Pointer → Prop
  | .object _ => True
  | .interface p n => ∃ proxy, s.proxies p = some proxy ∧ n < proxy.mInfo.mInterfaces.length
  | .proxy p => s.proxies p ≠ none

/-- The stub is of the object that the entry has it for. -/
structure StubObject.Stands (h : Host) (classInfo : EMuid → CIClassInfo) (stub : StubObject)
    (e : Export) : Prop where
  address : stub.mNetAddress = some e.mNetAddress
  object : ∃ q, h.Probe q EIID_IInterface = some e.mObject
  identity : ∀ q ∈ stub.mInterfaces, h.Probe q EIID_IInterface = some e.mObject
  length : stub.mInterfaces.length = stub.mInfo.mInterfaces.length
  classes : stub.mInfo = classInfo stub.mInfo.mCLSID

/-- The tables of a process have its stubs and its proxies, one for each object and address. -/
structure Process.Sound (h : Host) (classInfo : EMuid → CIClassInfo) (s : Process) (m : Registry) :
    Prop where
  tables : Represents h.extend s.rot m
  stubbed : ∀ e ∈ m.exports, ∃ stub, s.stubs e.mIStub = some stub ∧ stub.Stands h classInfo e
  exported : ∀ k stub, s.stubs k = some stub → ∃ e ∈ m.exports, e.mIStub = k
  addresses : (m.exports.map Export.mNetAddress).Nodup
  objects : (m.exports.map Export.mObject).Nodup
  proxied : ∀ i ∈ m.imports, ∃ proxy, s.proxies i.mIProxy = some proxy ∧
    proxy.mNetAddress = some i.mNetAddress
  imported : ∀ p proxy, s.proxies p = some proxy → proxy.mInfo.mInterfaces ≠ [] ∧
    ∃ i ∈ m.imports, i.mIProxy = p
  imports : (m.imports.map Import.mNetAddress).Nodup
  apart : ∀ p proxy, s.proxies p = some proxy → ∀ q, h.Probe q EIID_IInterface ≠ some p
  counted : ∀ k stub, s.stubs k = some stub → 0 ≤ s.rot.stubRef k
  referenced : ∀ p proxy, s.proxies p = some proxy → 0 < s.rot.proxyRef p

/-- The stubs of a process stay, and so does a reference to them. -/
structure Process.Keeps (s s' : Process) : Prop where
  stub : ∀ k stub, s.stubs k = some stub → s'.stubs k = some stub
  referenced : ∀ k stub, s.stubs k = some stub → 0 < s.rot.stubRef k → 0 < s'.rot.stubRef k

namespace Process

variable {h : Host} {classInfo : EMuid → CIClassInfo} {s s' t : Process} {m m' : Registry}

theorem sound_init : Process.Sound h classInfo {} {} where
  tables := represents_init _
  stubbed _ he := absurd he List.not_mem_nil
  exported _ _ hstub := by cases hstub
  addresses := List.nodup_nil
  objects := List.nodup_nil
  proxied _ hi := absurd hi List.not_mem_nil
  imported _ _ hproxy := by cases hproxy
  imports := List.nodup_nil
  apart _ _ hproxy := by cases hproxy
  counted _ _ hstub := by cases hstub
  referenced _ _ hproxy := by cases hproxy

/-- The entry of a stub. -/
theorem Sound.exists_export (hs : s.Sound h classInfo m) {k : ℕ} {stub : StubObject}
    (hstub : s.stubs k = some stub) :
    ∃ e ∈ m.exports, e.mIStub = k ∧ stub.Stands h classInfo e := by
  obtain ⟨e, he, rfl⟩ := hs.exported k stub hstub
  obtain ⟨stub', hstub', hstands⟩ := hs.stubbed e he
  obtain rfl := Option.some.inj (hstub.symm.trans hstub')
  exact ⟨e, he, rfl, hstands⟩

/-- Two stubs of a process have two addresses, and are of two objects. -/
theorem Sound.stub_unique (hs : s.Sound h classInfo m) {k k' : ℕ} {stub stub' : StubObject}
    (hstub : s.stubs k = some stub) (hstub' : s.stubs k' = some stub')
    (heq : stub.mNetAddress = stub'.mNetAddress) : k = k' ∧ stub = stub' := by
  obtain ⟨e, he, rfl, hstands⟩ := hs.exists_export hstub
  obtain ⟨e', he', rfl, hstands'⟩ := hs.exists_export hstub'
  obtain rfl := List.inj_on_of_nodup_map hs.addresses he he'
    (Option.some.inj (hstands.address.symm.trans (heq.trans hstands'.address)))
  exact ⟨rfl, Option.some.inj (hstub.symm.trans hstub')⟩

theorem Keeps.refl (s : Process) : s.Keeps s := ⟨fun _ _ h => h, fun _ _ _ h => h⟩

theorem Keeps.trans (h : s.Keeps s') (h' : s'.Keeps t) : s.Keeps t where
  stub k stub hstub := h'.stub k stub (h.stub k stub hstub)
  referenced k stub hstub href :=
    h'.referenced k stub (h.stub k stub hstub) (h.referenced k stub hstub href)

/-- Only counts change. -/
theorem Keeps.of_le (hstubs : s'.stubs = s.stubs) (hle : ∀ k, s.rot.stubRef k ≤ s'.rot.stubRef k) :
    s.Keeps s' where
  stub k stub hstub := by rw [hstubs, hstub]
  referenced k _ _ href := href.trans_le (hle k)

theorem le_count (ref : ℕ → ℤ) (k k' : ℕ) : ref k' ≤ count ref k 1 k' := by
  rw [count]
  rcases eq_or_ne k' k with rfl | hne
  · rw [Function.update_self]
    omega
  · rw [Function.update_of_ne hne]

/-- Tables with the same registrations and higher counts do as well. -/
theorem Sound.withTables (hs : s.Sound h classInfo m) {rot : RotState}
    (hrep : Represents h.extend rot m') (hexports : m'.exports = m.exports)
    (himports : m'.imports = m.imports) (hstubRef : ∀ k, s.rot.stubRef k ≤ rot.stubRef k)
    (hproxyRef : ∀ p, s.rot.proxyRef p ≤ rot.proxyRef p) :
    Process.Sound h classInfo { s with rot } m' where
  tables := hrep
  stubbed := hexports ▸ hs.stubbed
  exported := hexports ▸ hs.exported
  addresses := hexports ▸ hs.addresses
  objects := hexports ▸ hs.objects
  proxied := himports ▸ hs.proxied
  imported := himports ▸ hs.imported
  imports := himports ▸ hs.imports
  apart := hs.apart
  counted k stub hstub := (hs.counted k stub hstub).trans (hstubRef k)
  referenced p proxy hproxy := (hs.referenced p proxy hproxy).trans_le (hproxyRef p)

theorem Sound.addRefStub (hs : s.Sound h classInfo m) (k : ℕ) :
    ∃ m', (s.addRefStub k).Sound h classInfo m' ∧ m'.exports = m.exports :=
  ⟨_, hs.withTables (hs.tables.counts (count s.rot.stubRef k 1) s.rot.proxyRef s.rot.objectRef)
    rfl rfl (le_count _ k) fun _ => le_rfl, rfl⟩

theorem Sound.addRefProxy (hs : s.Sound h classInfo m) (p : ℕ) :
    ∃ m', (s.addRefProxy p).Sound h classInfo m' ∧ m'.exports = m.exports :=
  ⟨_, hs.withTables (hs.tables.counts s.rot.stubRef (count s.rot.proxyRef p 1) s.rot.objectRef)
    rfl rfl (fun _ => le_rfl) (le_count _ p), rfl⟩

theorem keeps_addRefStub (s : Process) (k : ℕ) : s.Keeps (s.addRefStub k) :=
  .of_le rfl (le_count _ k)

/-! ### Marshalling -/

/-- The pack is what the process gives out for the pointer. -/
def Packs (s : Process) (object : Pointer) (pack : InterfacePack) : Prop :=
  match object with
  | .object q => ∃ k stub, s.stubs k = some stub ∧ stub.mNetAddress = pack.mNetAddress ∧
    pack.mClsid = stub.mInfo.mCLSID ∧ stub.mInterfaces[pack.mIndex]? = some q ∧
      0 < s.rot.stubRef k
  | .interface p n => ∃ proxy, s.proxies p = some proxy ∧ n < proxy.mInfo.mInterfaces.length ∧
    pack = ⟨proxy.mInfo.mCLSID, n, proxy.mNetAddress⟩
  | .proxy _ => False

/-- What marshalling does to a process: there is at most one new stub, with a new address. -/
structure Marshals (h : Host) (classInfo : EMuid → CIClassInfo) (s : Process) (object : Pointer)
    (address : CString) (r : Reply × InterfacePack × Process) : Prop where
  code : ∃ ec, r.1 = .code ec
  sound : ∃ m, r.2.2.Sound h classInfo m
  keeps : s.Keeps r.2.2
  proxies : r.2.2.proxies = s.proxies
  stubs : ∀ k stub, r.2.2.stubs k = some stub →
    s.stubs k = some stub ∨ stub.mNetAddress = some address
  packs : r.1 = .code NOERROR → r.2.2.Packs object r.2.1

/-- Before that, something else. -/
theorem Marshals.of_keeps {object : Pointer} {address : CString}
    {r : Reply × InterfacePack × Process} (hr : Marshals h classInfo s' object address r)
    (hkeeps : s.Keeps s') (hproxies : s'.proxies = s.proxies)
    (hstubs : ∀ k stub, s'.stubs k = some stub →
      s.stubs k = some stub ∨ stub.mNetAddress = some address) :
    Marshals h classInfo s object address r where
  code := hr.code
  sound := hr.sound
  keeps := hkeeps.trans hr.keeps
  proxies := hr.proxies.trans hproxies
  stubs k stub hstub := (hr.stubs k stub hstub).elim (hstubs k stub) .inr
  packs := hr.packs

/-- A call that fails and changes nothing. -/
theorem Marshals.of_failed (hs : s.Sound h classInfo m) {object : Pointer} {address : CString}
    {ec : ECode} (hec : failed ec = true) (pack : InterfacePack) :
    Marshals h classInfo s object address (.code ec, pack, s) where
  code := ⟨ec, rfl⟩
  sound := ⟨m, hs⟩
  keeps := .refl s
  proxies := rfl
  stubs _ _ hstub := .inl hstub
  packs hok := by
    obtain rfl := Reply.code.inj hok
    exact absurd (failed_NOERROR.symm.trans hec) Bool.false_ne_true

/-- What `GetInterfaceIndex` finds is at this index. -/
theorem getElem_of_GetInterfaceIndex {stub : StubObject} {q n : ℕ}
    (h : stub.GetInterfaceIndex (.object q) = .ok n) : stub.mInterfaces[n]? = some q := by
  rw [StubObject.GetInterfaceIndex] at h
  split at h
  · next n' hn' =>
    obtain rfl := Except.ok.inj h
    obtain ⟨hlt, hget, -⟩ := List.findIdx?_eq_some_iff_getElem.mp hn'
    rw [List.length_map] at hlt
    rw [List.getElem_map, beq_iff_eq] at hget
    rw [List.getElem?_eq_getElem hlt, Pointer.object.inj hget]
  · cases h

/-- The same for a proxy. -/
theorem interface_of_GetInterfaceIndex {proxy : ProxyObject} {p n : ℕ} {object : Pointer}
    (h : proxy.GetInterfaceIndex p object = .ok n) :
    object = .interface p n ∧ n < proxy.mInfo.mInterfaces.length := by
  rw [ProxyObject.GetInterfaceIndex] at h
  split at h
  · next n' hn' =>
    obtain rfl := Except.ok.inj h
    exact ⟨of_decide_eq_true (List.find?_some (p := fun i => decide (object = .interface p i)) hn'),
      List.mem_range.mp (List.mem_of_find?_eq_some hn')⟩
  · cases h

/-- A pointer to an object is marshalled to its index in the stub. -/
theorem marshals_packStub (hs : s.Sound h classInfo m) {e : Export} (he : e ∈ m.exports)
    (q : ℕ) (address : CString) (pack : InterfacePack) :
    Marshals h classInfo s (.object q) address
      (packStub (.object q) (some e.mNetAddress) (some e.mIStub) pack s) := by
  obtain ⟨stub, hstub, hstands⟩ := hs.stubbed e he
  rw [packStub, hstub]
  dsimp only
  rcases hindex : stub.GetInterfaceIndex (.object q) with ec | n
  · exact .of_failed hs (by decide) _
  have href : 0 < (s.addRefStub e.mIStub).rot.stubRef e.mIStub := by
    have hcounted := hs.counted e.mIStub stub hstub
    have hcount : (s.addRefStub e.mIStub).rot.stubRef e.mIStub = s.rot.stubRef e.mIStub + 1 :=
      Function.update_self _ _ _
    omega
  obtain ⟨m', hsound, -⟩ := hs.addRefStub e.mIStub
  exact {
    code := ⟨NOERROR, rfl⟩
    sound := ⟨m', hsound⟩
    keeps := keeps_addRefStub s e.mIStub
    proxies := rfl
    stubs := fun _ _ hstub => .inl hstub
    packs := fun _ => ⟨e.mIStub, stub, hstub, hstands.address, rfl,
      getElem_of_GetInterfaceIndex hindex, href⟩ }

/-- A pointer of a proxy is marshalled to its index. -/
theorem marshals_packProxy (hs : s.Sound h classInfo m) {object : Pointer} {p : ℕ}
    (hobject : object = .proxy p ∨ ∃ n, object = .interface p n) (hhas : s.Has object)
    (address : CString) (pack : InterfacePack) :
    Marshals h classInfo s object address (packProxy object p pack s) := by
  obtain ⟨proxy, hproxy⟩ : ∃ proxy, s.proxies p = some proxy := by
    rcases hobject with rfl | ⟨n, rfl⟩
    · exact Option.ne_none_iff_exists'.mp hhas
    · exact hhas.imp fun _ h => h.1
  rw [packProxy, hproxy]
  dsimp only
  rw [if_neg (hs.imported p proxy hproxy).1]
  rcases hindex : proxy.GetInterfaceIndex p object with ec | n
  · have hec : failed ec = true := by
      rw [ProxyObject.GetInterfaceIndex] at hindex
      split at hindex
      · cases hindex
      · obtain rfl := Except.error.inj hindex
        decide
    exact .of_failed hs hec _
  · obtain ⟨rfl, hlt⟩ := interface_of_GetInterfaceIndex hindex
    exact {
      code := ⟨NOERROR, rfl⟩
      sound := ⟨m, hs⟩
      keeps := .refl s
      proxies := rfl
      stubs := fun _ _ hstub => .inl hstub
      packs := fun _ => ⟨proxy, hproxy, hlt, rfl⟩ }

end Process

/-! ### New stubs -/

namespace StubCreation

variable {c : StubCreation} {q : ℕ}

/-- After the loop every interface is there. -/
theorem exists_of_probeAll {infos : List CIInterfaceInfo}
    (h : failed (c.probeAll infos) = false) : ∀ i ∈ infos, ∃ r, c.Probe i.mIID = some r := by
  induction infos with
  | nil => exact fun _ hi => absurd hi List.not_mem_nil
  | cons info infos ih =>
    rw [probeAll] at h
    rcases hprobe : c.Probe info.mIID with _ | r
    · rw [hprobe] at h
      have hfails : failed E_NO_INTERFACE ≠ false := by decide
      exact absurd h hfails
    · rw [hprobe] at h
      exact List.forall_mem_cons.mpr ⟨⟨r, hprobe⟩, ih h⟩

/-- `S_CreateObject` fails and leaves everything as it was, or it registers a stub. -/
theorem S_CreateObject_cases (hobject : c.object = some q) (hstub : c.stub = true)
    (hisObject : c.Probe EIID_IObject ≠ none) (extend : UInt8 → UInt32) (s : RotState) :
    (∃ ec, failed ec = true ∧ c.S_CreateObject extend s = (ec, none, s)) ∨
      ∃ k info o new, c.stubObj = some k ∧ c.classInfo = .ok info ∧
        failed (c.probeAll info.mInterfaces) = false ∧ c.Probe EIID_IInterface = some o ∧
        c.expObj = some new ∧ c.S_CreateObject extend s = (NOERROR, some k,
          ((s.addRef q).RegisterExportObject extend c.netAddress (some o) k (some new)).2) := by
  rw [S_CreateObject.eq_def, hobject, hstub]
  dsimp only
  rcases hk : c.stubObj with _ | k
  · exact .inl ⟨_, by decide, rfl⟩
  dsimp only
  rcases hinfo : c.classInfo with ec | info
  · exact .inl ⟨ec, failed_of_classInfo hinfo hisObject, rfl⟩
  dsimp only
  split
  swap
  · exact .inl ⟨_, by decide, rfl⟩
  rcases enter_cases c extend s info with ⟨ec, hec, heq⟩ | ⟨o, new, ho, hnew, heq⟩
  · exact .inl ⟨ec, hec, heq⟩
  refine .inr ⟨k, info, o, new, rfl, rfl, ?_, ho, hnew, heq⟩
  -- had the loop failed, there would be no stub
  by_contra hfailed
  rw [enter, if_pos (Bool.not_eq_false _ ▸ hfailed)] at heq
  cases (Prod.mk.inj (Prod.mk.inj heq).2).1

end StubCreation

namespace Process

variable {h : Host} {classInfo : EMuid → CIClassInfo} {s : Process} {m : Registry}
  {c : StubCreation} {q : ℕ}

/-- The stub that is made for an object. -/
theorem stands_stubObject {info : CIClassInfo} {o : ℕ} (k : ℕ)
    (hclass : info = classInfo info.mCLSID)
    (hprobed : failed ((c.of h q).probeAll info.mInterfaces) = false)
    (ho : h.Probe q EIID_IInterface = some o) :
    ((c.of h q).stubObject info).Stands h classInfo ⟨c.netAddress, o, k⟩ where
  address := rfl
  object := ⟨q, ho⟩
  identity r hr := by
    obtain ⟨i, -, hi⟩ := List.mem_filterMap.mp hr
    exact (h.probe_identity hi).trans ho
  length := by
    refine List.length_filterMap_eq_countP.trans (List.countP_eq_length.mpr fun i hi => ?_)
    obtain ⟨r, hr⟩ := StubCreation.exists_of_probeAll hprobed i hi
    rw [hr]
    rfl
  classes := hclass

/-- **A new stub** for an object that has none: it fails and nothing has changed, or the stub is in
the table and has no references. -/
theorem Sound.createStub_cases (hs : s.Sound h classInfo m) (hc : s.CanStub h classInfo q c)
    (haddress : ∀ k stub, s.stubs k = some stub → stub.mNetAddress ≠ some c.netAddress)
    (hnone : ∀ e ∈ m.exports, h.Probe q EIID_IInterface ≠ some e.mObject) :
    (∃ ec, failed ec = true ∧ s.S_CreateStub h q c = (ec, none, s)) ∨
      ∃ k o s', s.S_CreateStub h q c = (NOERROR, some k, s') ∧ s.Keeps s' ∧
        s'.proxies = s.proxies ∧
        (∀ k' stub, s'.stubs k' = some stub →
          s.stubs k' = some stub ∨ stub.mNetAddress = some c.netAddress) ∧
        ∃ m', s'.Sound h classInfo m' ∧ ⟨c.netAddress, o, k⟩ ∈ m'.exports := by
  rcases StubCreation.S_CreateObject_cases (c := c.of h q) rfl rfl hc.isObject h.extend s.rot with
    ⟨ec, hec, heq⟩ | ⟨k, info, o, new, hk, hinfo, hprobed, ho, hnew, heq⟩
  · refine .inl ⟨ec, hec, ?_⟩
    rw [S_CreateStub, heq]
  have hfree : s.stubs k = none := hc.memory k hk
  have hrep : Represents h.extend (s.rot.addRef q)
      { m with
        stubRef := s.rot.stubRef
        proxyRef := s.rot.proxyRef
        objectRef := count s.rot.objectRef q 1 } :=
    hs.tables.counts s.rot.stubRef s.rot.proxyRef (count s.rot.objectRef q 1)
  have hsim : Simulates h.extend _
      ((s.rot.addRef q).RegisterExportObject h.extend (some c.netAddress) (some o) k (some new)) :=
    hrep.registerExport fun n hn => hc.entry n (hnew ▸ hn)
  obtain ⟨m', hanswer, hrep'⟩ := hsim
  obtain ⟨-, rfl⟩ := hanswer
  obtain ⟨rot, hrot⟩ : ∃ rot, rot = ((s.rot.addRef q).RegisterExportObject h.extend
    (some c.netAddress) (some o) k (some new)).2 := ⟨_, rfl⟩
  rw [← hrot] at hrep'
  obtain ⟨s', hs', hstubs, hproxies, href, hproxyRef, htables⟩ : ∃ s',
      s.S_CreateStub h q c = (NOERROR, some k, s') ∧
      s'.stubs = Function.update s.stubs k (some ((c.of h q).stubObject info)) ∧
      s'.proxies = s.proxies ∧ s'.rot.stubRef = Function.update rot.stubRef k 0 ∧
      s'.rot.proxyRef = rot.proxyRef ∧
      ∃ m', Represents h.extend s'.rot m' ∧ m'.exports = ⟨c.netAddress, o, k⟩ :: m.exports ∧
        m'.imports = m.imports := by
    refine ⟨{ s with
      rot := { rot with stubRef := Function.update rot.stubRef k 0 }
      stubs := Function.update s.stubs k (some ((c.of h q).stubObject info)) },
      ?_, rfl, rfl, rfl, rfl, _, hrep'.counts _ _ _, rfl, rfl⟩
    rw [S_CreateStub, heq, hinfo, hrot]
    rfl
  rw [hrep'.stubRef] at href
  rw [hrep'.proxyRef] at hproxyRef
  obtain ⟨m', htables, hexports, himports⟩ := htables
  have hold {k' : ℕ} {stub : StubObject} (hstub : s.stubs k' = some stub) : k' ≠ k := by
    rintro rfl
    rw [hfree] at hstub
    cases hstub
  have hfresh {e : Export} (he : e ∈ m.exports) :
      e.mIStub ≠ k ∧ e.mNetAddress ≠ c.netAddress ∧ e.mObject ≠ o := by
    obtain ⟨stub, hstub, hstands⟩ := hs.stubbed e he
    refine ⟨hold hstub, fun heq => ?_, fun heq => ?_⟩
    · exact haddress _ stub hstub (hstands.address.trans (congrArg some heq))
    · exact hnone e he (ho.trans (congrArg some heq.symm))
  -- a stub of the new process is the new one or was there before
  have hcases {k' : ℕ} {stub : StubObject} (hstub : s'.stubs k' = some stub) :
      k' = k ∧ stub = (c.of h q).stubObject info ∨ k' ≠ k ∧ s.stubs k' = some stub := by
    rw [hstubs] at hstub
    rcases eq_or_ne k' k with rfl | hne
    · rw [Function.update_self] at hstub
      exact .inl ⟨rfl, (Option.some.inj hstub).symm⟩
    · rw [Function.update_of_ne hne] at hstub
      exact .inr ⟨hne, hstub⟩
  have hstay {k' : ℕ} (hne : k' ≠ k) :
      s'.stubs k' = s.stubs k' ∧ s'.rot.stubRef k' = s.rot.stubRef k' := by
    rw [hstubs, href, Function.update_of_ne hne, Function.update_of_ne hne]
    exact ⟨rfl, rfl⟩
  have hstands : ((c.of h q).stubObject info).Stands h classInfo ⟨c.netAddress, o, k⟩ :=
    stands_stubObject k (hc.classes info hinfo) hprobed ho
  refine .inr ⟨k, o, s', hs', ?_, hproxies, ?_, m', ⟨htables, ?_, ?_, ?_, ?_,
    himports ▸ hproxies ▸ hs.proxied, himports ▸ hproxies ▸ hs.imported, himports ▸ hs.imports,
    hproxies ▸ hs.apart, ?_, hproxyRef ▸ hproxies ▸ hs.referenced⟩, hexports ▸ List.mem_cons_self⟩
  · exact ⟨fun k' stub hstub => (hstay (hold hstub)).1.trans hstub,
      fun k' stub hstub hpos => hpos.trans_eq (hstay (hold hstub)).2.symm⟩
  · intro k' stub hstub
    rcases hcases hstub with ⟨-, rfl⟩ | ⟨-, hstub⟩
    · exact .inr rfl
    · exact .inl hstub
  · intro e he
    rcases List.mem_cons.mp (hexports ▸ he) with rfl | he
    · exact ⟨_, by rw [hstubs, Function.update_self], hstands⟩
    · obtain ⟨stub, hstub, hstands⟩ := hs.stubbed e he
      exact ⟨stub, (hstay (hfresh he).1).1.trans hstub, hstands⟩
  · intro k' stub hstub
    rcases hcases hstub with ⟨rfl, -⟩ | ⟨-, hstub⟩
    · exact ⟨_, hexports ▸ List.mem_cons_self, rfl⟩
    · obtain ⟨e, he, heq⟩ := hs.exported k' stub hstub
      exact ⟨e, hexports ▸ List.mem_cons_of_mem _ he, heq⟩
  · rw [hexports]
    refine List.nodup_cons.mpr ⟨fun hmem => ?_, hs.addresses⟩
    obtain ⟨e, he, heq⟩ := List.mem_map.mp hmem
    exact (hfresh he).2.1 heq
  · rw [hexports]
    refine List.nodup_cons.mpr ⟨fun hmem => ?_, hs.objects⟩
    obtain ⟨e, he, heq⟩ := List.mem_map.mp hmem
    exact (hfresh he).2.2 heq
  · intro k' stub hstub
    rcases hcases hstub with ⟨rfl, -⟩ | ⟨hne, hstub⟩
    · rw [href, Function.update_self]
    · exact (hs.counted k' stub hstub).trans_eq (hstay hne).2.symm

/-- An object that has no stub gets one. -/
theorem marshals_packNew (hs : s.Sound h classInfo m) (hc : s.CanStub h classInfo q c)
    (haddress : ∀ k stub, s.stubs k = some stub → stub.mNetAddress ≠ some c.netAddress)
    (hnone : ∀ e ∈ m.exports, h.Probe q EIID_IInterface ≠ some e.mObject) (pack : InterfacePack) :
    Marshals h classInfo s (.object q) c.netAddress (packNew h q c pack s) := by
  rw [packNew, hc.notProxy, Option.isSome_none, if_neg Bool.false_ne_true]
  rcases hs.createStub_cases hc haddress hnone with
    ⟨ec, hec, heq⟩ | ⟨k, o, s', heq, hkeeps, hproxies, hstubs, m', hs', hnew⟩
  · rw [heq]
    dsimp only
    rw [if_pos hec]
    exact .of_failed hs hec pack
  · obtain ⟨stub, hstub, hstands⟩ := hs'.stubbed _ hnew
    have hpack := (marshals_packStub hs' hnew q c.netAddress pack).of_keeps hkeeps hproxies hstubs
    rw [heq]
    dsimp only
    rw [if_neg (by decide), Option.bind_some, hstub, Option.bind_some, hstands.address]
    exact hpack

/-- A proxy is not the object of an entry. -/
theorem Sound.ne_proxy (hs : s.Sound h classInfo m) {e : Export} (he : e ∈ m.exports) {p : ℕ}
    {proxy : ProxyObject} (hproxy : s.proxies p = some proxy) : e.mObject ≠ p := by
  rintro rfl
  obtain ⟨stub, -, hstands⟩ := hs.stubbed e he
  obtain ⟨q, hq⟩ := hstands.object
  exact hs.apart _ proxy hproxy q hq

/-- A search raises the count of one stub. -/
theorem Sound.le_stubRef (hs : s.Sound h classInfo m) {rot : RotState} {k : ℕ}
    (href : rot.stubRef = count m.stubRef k 1) (k' : ℕ) : s.rot.stubRef k' ≤ rot.stubRef k' := by
  rw [href, ← hs.tables.stubRef]
  exact le_count _ k k'

/-- **Marshalling**, in a process whose tables are sound. -/
theorem Sound.marshals (hs : s.Sound h classInfo m) {object : Pointer} (hhas : s.Has object)
    (hc : ∀ q, object = .object q → s.CanStub h classInfo q c)
    (haddress : ∀ k stub, s.stubs k = some stub → stub.mNetAddress ≠ some c.netAddress)
    (pack : InterfacePack) :
    Marshals h classInfo s object c.netAddress (s.StdMarshalInterface h object c pack) := by
  rw [StdMarshalInterface]
  rcases hs.tables.findObject_cases (h.identity object) with
    ⟨e, he, hobject, rot, heq, hrep⟩ | ⟨hnone, ec, heq⟩
  · rw [heq]
    dsimp only [Export.entry]
    have hs' := hs.withTables hrep rfl rfl (hs.le_stubRef hrep.stubRef)
      fun p => (congrFun (hs.tables.proxyRef.trans hrep.proxyRef.symm) p).le
    cases object with
    | object q =>
      refine (marshals_packStub hs' he q c.netAddress pack).of_keeps ?_ rfl fun _ _ hstub =>
        .inl hstub
      exact .of_le rfl (hs.le_stubRef hrep.stubRef)
    | interface p n =>
      obtain ⟨proxy, hproxy, -⟩ := hhas
      exact absurd (Option.some.inj hobject).symm (hs.ne_proxy he hproxy)
    | proxy p =>
      obtain ⟨proxy, hproxy⟩ := Option.ne_none_iff_exists'.mp hhas
      exact absurd (Option.some.inj hobject).symm (hs.ne_proxy he hproxy)
  · rw [heq]
    cases object with
    | object q => exact marshals_packNew hs (hc q rfl) haddress hnone pack
    | interface p n => exact marshals_packProxy hs (.inr ⟨n, rfl⟩) hhas _ pack
    | proxy p => exact marshals_packProxy hs (.inl rfl) hhas _ pack

end Process

end ElastosCar.Rot
