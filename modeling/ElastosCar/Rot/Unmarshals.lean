import ElastosCar.Rot.Marshals

/-!
# What unmarshalling does to a process

The specification of `StdUnmarshalInterface` in a process whose tables are sound, and before it
those of `CObjectProxy::Release`, of a new proxy, and of a reference to a stub that is given back.
-/

namespace ElastosCar.Rot

open ClsInfo

namespace Process

variable {h : Host} {classInfo : EMuid → CIClassInfo} {s s' : Process} {m : Registry} {p : ℕ}

/-! ### The life of a proxy -/

/-- An address has one entry in the import table. -/
theorem Sound.import_unique (hs : s.Sound h classInfo m) {i i' : Import} (hi : i ∈ m.imports)
    (hi' : i' ∈ m.imports) (haddress : i.mNetAddress = i'.mNetAddress) : i = i' :=
  List.inj_on_of_nodup_map hs.imports hi hi' haddress

/-- The entry of a proxy has its address. -/
theorem Sound.exists_import (hs : s.Sound h classInfo m) {proxy : ProxyObject}
    (hproxy : s.proxies p = some proxy) :
    ∃ a, ⟨a, p⟩ ∈ m.imports ∧ proxy.mNetAddress = some a := by
  obtain ⟨-, i, hi, rfl⟩ := hs.imported p proxy hproxy
  obtain ⟨proxy', hproxy', haddress⟩ := hs.proxied i hi
  obtain rfl := Option.some.inj (hproxy.symm.trans hproxy')
  exact ⟨i.mNetAddress, hi, haddress⟩

/-- What `Release` of a proxy does: the last one deletes it. -/
structure Releases (h : Host) (classInfo : EMuid → CIClassInfo) (s : Process) (p : ℕ)
    (s' : Process) : Prop where
  sound : ∃ m, s'.Sound h classInfo m
  stubs : s'.stubs = s.stubs
  stubRef : s'.rot.stubRef = s.rot.stubRef
  stays : 1 < s.rot.proxyRef p → s'.proxies = s.proxies
  proxies : ∀ p' proxy, s'.proxies p' = some proxy → s.proxies p' = some proxy

/-- **The release of a proxy.** -/
theorem Sound.release (hs : s.Sound h classInfo m) {proxy : ProxyObject}
    (hproxy : s.proxies p = some proxy) :
    ∃ s', s.Release h p = (.code NOERROR, s') ∧ Releases h classInfo s p s' := by
  have hpos := hs.referenced p proxy hproxy
  have hrep := hs.tables.counts s.rot.stubRef (count s.rot.proxyRef p (-1)) s.rot.objectRef
  have hcount : count s.rot.proxyRef p (-1) p = s.rot.proxyRef p + -1 := Function.update_self _ _ _
  have hother {p' : ℕ} (hne : p' ≠ p) : count s.rot.proxyRef p (-1) p' = s.rot.proxyRef p' :=
    Function.update_of_ne hne _ _
  obtain ⟨a, hi, haddress⟩ := hs.exists_import hproxy
  have hgone {p' : ℕ} {proxy' : ProxyObject}
      (h : Function.update s.proxies p none p' = some proxy') :
      p' ≠ p ∧ s.proxies p' = some proxy' := by
    rcases eq_or_ne p' p with rfl | hne
    · rw [Function.update_self] at h
      cases h
    · exact ⟨hne, (Function.update_of_ne hne _ _).symm.trans h⟩
  rw [Release, hproxy]
  dsimp only
  split
  · next hzero =>
    have hnodup : m.imports.Nodup := .of_map _ hs.imports
    obtain ⟨rot, hunregister, hrep'⟩ := hrep.unregisterImport_cases hi hs.imports hzero
    rw [haddress, hunregister]
    dsimp only
    rw [if_neg (by decide)]
    refine ⟨_, rfl, ⟨_, ⟨hrep', hs.stubbed, hs.exported, hs.addresses, hs.objects, ?_, ?_, ?_, ?_,
      ?_, ?_⟩⟩, rfl, hrep'.stubRef, fun hlt => ?_, ?_⟩
    · intro i' hi'
      obtain ⟨hne, hi'⟩ := (List.Nodup.mem_erase_iff hnodup).mp hi'
      obtain ⟨proxy', hproxy', haddress'⟩ := hs.proxied i' hi'
      -- another entry is of another proxy
      have hne' : i'.mIProxy ≠ p := by
        intro heq
        rw [heq] at hproxy'
        obtain rfl := Option.some.inj (hproxy.symm.trans hproxy')
        exact hne (hs.import_unique hi' hi (Option.some.inj (haddress'.symm.trans haddress)))
      exact ⟨proxy', (Function.update_of_ne hne' _ _).trans hproxy', haddress'⟩
    · intro p' proxy' hproxy'
      obtain ⟨hne, hproxy'⟩ := hgone hproxy'
      obtain ⟨hinterfaces, i', hi', hp'⟩ := hs.imported p' proxy' hproxy'
      refine ⟨hinterfaces, i', (List.Nodup.mem_erase_iff hnodup).mpr ⟨?_, hi'⟩, hp'⟩
      rintro rfl
      exact hne hp'.symm
    · exact hs.imports.sublist (List.erase_sublist.map _)
    · exact fun p' proxy' hproxy' => hs.apart p' proxy' (hgone hproxy').2
    · exact fun k stub hstub => (hs.counted k stub hstub).trans_eq (congrFun hrep'.stubRef k).symm
    · intro p' proxy' hproxy'
      obtain ⟨hne, hproxy'⟩ := hgone hproxy'
      rw [hrep'.proxyRef]
      exact (hs.referenced p' proxy' hproxy').trans_eq (hother hne).symm
    · omega
    · exact fun p' proxy' hproxy' => (hgone hproxy').2
  · next hne =>
    refine ⟨_, rfl, ⟨_, ⟨hrep, hs.stubbed, hs.exported, hs.addresses, hs.objects, hs.proxied,
      hs.imported, hs.imports, hs.apart, hs.counted, ?_⟩⟩, rfl, rfl, fun _ => rfl,
      fun _ _ h => h⟩
    intro p' proxy' hproxy'
    rcases eq_or_ne p' p with rfl | hne'
    · dsimp only at hne ⊢
      omega
    · exact (hs.referenced p' proxy' hproxy').trans_eq (hother hne').symm

/-! ### Unmarshalling -/

/-- The pointer is what the process makes of the pack. -/
def Unpacks (s : Process) (pack : InterfacePack) : Pointer → Prop
  | .object q => ∃ k stub, s.stubs k = some stub ∧ stub.mNetAddress = pack.mNetAddress ∧
    stub.mInterfaces[pack.mIndex]? = some q
  | .interface p n => n = pack.mIndex ∧ ∃ proxy, s.proxies p = some proxy ∧
    proxy.mNetAddress = pack.mNetAddress ∧ n < proxy.mInfo.mInterfaces.length
  | .proxy _ => False

/-- A stub of the process has the address of the pack. -/
def IsHome (s : Process) (pack : InterfacePack) : Prop :=
  ∃ k stub, s.stubs k = some stub ∧ stub.mNetAddress = pack.mNetAddress

/-- What unmarshalling does to a process: there is at most one new proxy, for the pack, and only
away from home unless the two may coexist. -/
structure Unmarshals (classInfo : EMuid → CIClassInfo) (h : Host) (s : Process)
    (coexisting : Bool) (pack : InterfacePack) (r : Reply × Unmarshalled × Process) : Prop where
  code : ∃ ec, r.1 = .code ec
  sound : ∃ m, r.2.2.Sound h classInfo m
  keeps : s.Keeps r.2.2
  stubs : r.2.2.stubs = s.stubs
  proxies : ∀ p proxy, r.2.2.proxies p = some proxy → s.proxies p = some proxy ∨
    proxy.mNetAddress = pack.mNetAddress ∧ proxy.mInfo = classInfo pack.mClsid ∧
      (coexisting = false → ¬ s.IsHome pack)
  unpacks : ∀ object, r.1 = .code NOERROR → r.2.1 = .standard (some object) →
    r.2.2.Unpacks pack object
  home : coexisting = false → s.IsHome pack → ∀ object, r.2.1 = .standard (some object) →
    ∃ q, object = .object q

/-- The interface of a proxy, and the release after it. -/
theorem unmarshals_interfaceOf (hs : s.Sound h classInfo m) {proxy : ProxyObject}
    (hproxy : s.proxies p = some proxy) {pack : InterfacePack}
    (haddress : proxy.mNetAddress = pack.mNetAddress) (custom : CustomResult) (coexisting : Bool)
    (haway : coexisting = false → ¬ s.IsHome pack) :
    Unmarshals classInfo h s coexisting pack
      (releaseAfter h p (interfaceOf h p pack custom s)) := by
  have hrelease {t : Process} {r : Reply} {u : Unmarshalled} (ht : ∃ m, t.Sound h classInfo m)
      (hproxies : t.proxies = s.proxies) (hstubs : t.stubs = s.stubs)
      (href : t.rot.stubRef = s.rot.stubRef) (hr : ∃ ec, r = .code ec)
      (hu : ∀ object, r = .code NOERROR → u = .standard (some object) →
        1 < t.rot.proxyRef p ∧ object = .interface p pack.mIndex ∧
          pack.mIndex < proxy.mInfo.mInterfaces.length) :
      Unmarshals classInfo h s coexisting pack (releaseAfter h p (r, u, t)) := by
    obtain ⟨m', ht⟩ := ht
    obtain ⟨t', ht', hreleases⟩ := ht.release (hproxies ▸ hproxy)
    rw [releaseAfter, ht']
    exact {
      code := hr
      sound := hreleases.sound
      keeps := .of_le (hreleases.stubs.trans hstubs) fun k =>
        (congrFun (hreleases.stubRef.trans href) k).ge
      stubs := hreleases.stubs.trans hstubs
      proxies := fun p' proxy' hproxy' => .inl (hproxies ▸ hreleases.proxies p' proxy' hproxy')
      unpacks := by
        intro object hok hobject
        obtain ⟨hlt, rfl, hindex⟩ := hu object hok hobject
        refine ⟨rfl, proxy, ?_, haddress, hindex⟩
        exact (congrFun ((hreleases.stays hlt).trans hproxies) p).trans hproxy
      home := fun hflag hhome => absurd hhome (haway hflag) }
  rw [interfaceOf, hproxy]
  dsimp only
  split
  · exact hrelease ⟨m, hs⟩ rfl rfl rfl ⟨_, rfl⟩ fun _ _ hcustom => by cases hcustom
  by_cases hindex : pack.mIndex < proxy.mInfo.mInterfaces.length
  · rw [ProxyObject.GetInterface, if_pos hindex]
    obtain ⟨m', hs', -⟩ := hs.addRefProxy p
    refine hrelease ⟨m', hs'⟩ rfl rfl rfl ⟨_, rfl⟩ fun object _ hobject => ?_
    have hcount : (s.addRefProxy p).rot.proxyRef p = s.rot.proxyRef p + 1 :=
      Function.update_self _ _ _
    have hpos := hs.referenced p proxy hproxy
    refine ⟨by omega, ?_, hindex⟩
    exact (Option.some.inj (Unmarshalled.standard.inj hobject)).symm
  · rw [ProxyObject.GetInterface, if_neg hindex]
    refine hrelease ⟨m, hs⟩ rfl rfl rfl ⟨_, rfl⟩ fun _ hok => ?_
    exact absurd hok (by decide)

/-- **A new proxy** for an address that has none: it fails and nothing has changed, or the proxy is
in the table with one reference. -/
theorem Sound.createProxy_cases (hs : s.Sound h classInfo m) {clsid : EMuid} {c : ProxyCreation}
    (hc : s.CanProxy h classInfo clsid c) (hinterfaces : (classInfo clsid).mInterfaces ≠ [])
    {a : CString} (hnone : ∀ i ∈ m.imports, i.mNetAddress ≠ a) :
    (∃ ec, s.S_CreateProxy h c clsid (some a) = (.code ec, none, s)) ∨
      ∃ p s', s.S_CreateProxy h c clsid (some a) = (.code NOERROR, some p, s') ∧
        s.proxies p = none ∧
        s'.proxies = Function.update s.proxies p (some ⟨classInfo clsid, some a⟩) ∧
        s'.stubs = s.stubs ∧ s'.rot.stubRef = s.rot.stubRef ∧ ∃ m', s'.Sound h classInfo m' := by
  rw [S_CreateProxy]
  rcases hp : c.proxyObj with _ | p
  · exact .inl ⟨_, rfl⟩
  dsimp only
  rcases hinfo : c.classInfo clsid with ec | info
  · exact .inl ⟨ec, rfl⟩
  obtain rfl := hc.classes info hinfo
  dsimp only
  rcases c.interfaces with _ | _
  · exact .inl ⟨_, rfl⟩
  rw [if_pos rfl]
  rcases hnew : c.impObj with _ | new
  · exact .inl ⟨_, rfl⟩
  obtain ⟨hfree, hapart⟩ := hc.memory p hp
  have hsim : Simulates h.extend (m.RegistersImport (some a) p (some new))
      (s.rot.RegisterImportObject h.extend (some a) p (some new)) :=
    hs.tables.registerImport fun n hn => hc.entry n (hnew ▸ hn)
  obtain ⟨m', hanswer, hrep⟩ := hsim
  obtain ⟨hr, rfl⟩ := hanswer
  rcases hregister : s.rot.RegisterImportObject h.extend (some a) p (some new) with ⟨r, rot⟩
  rw [hregister] at hr hrep
  dsimp only at hr hrep
  subst hr
  dsimp only
  rw [if_neg (by decide)]
  have hold {p' : ℕ} {proxy : ProxyObject} (hproxy : s.proxies p' = some proxy) : p' ≠ p := by
    rintro rfl
    rw [hfree] at hproxy
    cases hproxy
  -- a proxy of the new process is the new one or was there before
  have hcases {p' : ℕ} {proxy : ProxyObject}
      (hproxy : Function.update s.proxies p (some ⟨classInfo clsid, some a⟩) p' = some proxy) :
      p' = p ∧ proxy = ⟨classInfo clsid, some a⟩ ∨ p' ≠ p ∧ s.proxies p' = some proxy := by
    rcases eq_or_ne p' p with rfl | hne
    · rw [Function.update_self] at hproxy
      exact .inl ⟨rfl, (Option.some.inj hproxy).symm⟩
    · rw [Function.update_of_ne hne] at hproxy
      exact .inr ⟨hne, hproxy⟩
  refine .inr ⟨p, _, rfl, hfree, rfl, rfl, hrep.stubRef.trans hs.tables.stubRef.symm, _,
    ⟨hrep.counts rot.stubRef (Function.update rot.proxyRef p 1) rot.objectRef, hs.stubbed,
      hs.exported, hs.addresses, hs.objects, ?_, ?_, ?_, ?_, ?_, ?_⟩⟩
  · intro i hi
    rcases List.mem_cons.mp hi with rfl | hi
    · exact ⟨_, Function.update_self _ _ _, rfl⟩
    · obtain ⟨proxy, hproxy, haddress⟩ := hs.proxied i hi
      exact ⟨proxy, (Function.update_of_ne (hold hproxy) _ _).trans hproxy, haddress⟩
  · intro p' proxy hproxy
    rcases hcases hproxy with ⟨rfl, rfl⟩ | ⟨-, hproxy⟩
    · exact ⟨hinterfaces, _, List.mem_cons_self, rfl⟩
    · obtain ⟨hne, i, hi, hp'⟩ := hs.imported p' proxy hproxy
      exact ⟨hne, i, List.mem_cons_of_mem _ hi, hp'⟩
  · refine List.nodup_cons.mpr ⟨fun hmem => ?_, hs.imports⟩
    obtain ⟨i, hi, heq⟩ := List.mem_map.mp hmem
    exact hnone i hi heq
  · intro p' proxy hproxy
    rcases hcases hproxy with ⟨rfl, -⟩ | ⟨-, hproxy⟩
    · exact hapart
    · exact hs.apart p' proxy hproxy
  · intro k stub hstub
    exact (hs.counted k stub hstub).trans_eq
      (congrFun (hrep.stubRef.trans hs.tables.stubRef.symm) k).symm
  · intro p' proxy hproxy
    rcases hcases hproxy with ⟨rfl, -⟩ | ⟨hne, hproxy⟩
    · exact Int.one_pos.trans_eq (Function.update_self p' (1 : ℤ) rot.proxyRef).symm
    · refine (hs.referenced p' proxy hproxy).trans_eq ?_
      rw [hs.tables.proxyRef]
      exact (congrFun hrep.proxyRef p').symm.trans (Function.update_of_ne hne _ _).symm

/-- Before that, something else. -/
theorem Unmarshals.of_keeps {coexisting : Bool} {pack : InterfacePack}
    {r : Reply × Unmarshalled × Process} (hr : Unmarshals classInfo h s' coexisting pack r)
    (hkeeps : s.Keeps s') (hstubs : s'.stubs = s.stubs)
    (hproxies : ∀ p proxy, s'.proxies p = some proxy → s.proxies p = some proxy ∨
      proxy.mNetAddress = pack.mNetAddress ∧ proxy.mInfo = classInfo pack.mClsid ∧
        (coexisting = false → ¬ s.IsHome pack)) :
    Unmarshals classInfo h s coexisting pack r where
  code := hr.code
  sound := hr.sound
  keeps := hkeeps.trans hr.keeps
  stubs := hr.stubs.trans hstubs
  proxies p proxy hproxy := by
    rcases hr.proxies p proxy hproxy with hproxy | ⟨haddress, hinfo, haway⟩
    · exact hproxies p proxy hproxy
    · rw [IsHome, hstubs] at haway
      exact .inr ⟨haddress, hinfo, haway⟩
  unpacks := hr.unpacks
  home hflag hhome := hr.home hflag (by rwa [IsHome, hstubs])

/-- A call that fails and changes nothing. -/
theorem Unmarshals.of_unchanged (hs : s.Sound h classInfo m) (coexisting : Bool)
    (pack : InterfacePack) (ec : ECode) {u : Unmarshalled}
    (hu : ∀ object, u ≠ .standard (some object)) :
    Unmarshals classInfo h s coexisting pack (.code ec, u, s) where
  code := ⟨ec, rfl⟩
  sound := ⟨m, hs⟩
  keeps := .refl s
  stubs := rfl
  proxies _ _ hproxy := .inl hproxy
  unpacks object _ hobject := absurd hobject (hu object)
  home _ _ object hobject := absurd hobject (hu object)

/-- The pack of a stub of another process. -/
theorem unmarshals_unmarshalProxy (hs : s.Sound h classInfo m) {pack : InterfacePack} {a : CString}
    (haddress : pack.mNetAddress = some a) {c : ProxyCreation}
    (hc : s.CanProxy h classInfo pack.mClsid c)
    (hinterfaces : (classInfo pack.mClsid).mInterfaces ≠ []) (custom : CustomResult)
    (coexisting : Bool) (haway : coexisting = false → ¬ s.IsHome pack) :
    Unmarshals classInfo h s coexisting pack (unmarshalProxy h pack c custom s) := by
  rw [unmarshalProxy, haddress]
  rcases hs.tables.findImport_cases a with ⟨i, hi, rfl, rot, heq, hrep⟩ | ⟨hnone, ec, heq⟩
  · -- it has a proxy
    rw [heq]
    obtain ⟨proxy, hproxy, hproxyaddress⟩ := hs.proxied i hi
    have hs' := hs.withTables hrep rfl rfl
      (fun k => (congrFun (hs.tables.stubRef.trans hrep.stubRef.symm) k).le) fun p => by
        rw [hrep.proxyRef, hs.tables.proxyRef]
        exact le_count _ _ p
    refine (unmarshals_interfaceOf hs' hproxy (hproxyaddress.trans haddress.symm) custom coexisting
      haway).of_keeps (.of_le rfl fun k => ?_) rfl fun _ _ hproxy => .inl hproxy
    exact (congrFun (hs.tables.stubRef.trans hrep.stubRef.symm) k).le
  · rw [heq]
    dsimp only
    rcases hs.createProxy_cases hc hinterfaces hnone with
      ⟨ec, hcreate⟩ | ⟨p, s', hcreate, hfree, hproxies, hstubs, href, m', hs'⟩
    · rw [hcreate]
      exact .of_unchanged hs coexisting pack ec fun object hobject => by cases hobject
    · rw [hcreate]
      have hproxy : s'.proxies p = some ⟨classInfo pack.mClsid, some a⟩ := by
        rw [hproxies, Function.update_self]
      have hhome : coexisting = false → ¬ s'.IsHome pack := by
        rw [IsHome, hstubs]
        exact haway
      refine (unmarshals_interfaceOf hs' hproxy haddress.symm custom coexisting hhome).of_keeps
        (.of_le hstubs fun k => (congrFun href k).ge) hstubs fun p' proxy hproxy' => ?_
      rcases eq_or_ne p' p with rfl | hne
      · obtain rfl := Option.some.inj (hproxy.symm.trans hproxy')
        exact .inr ⟨haddress.symm, rfl, haway⟩
      · rw [hproxies, Function.update_of_ne hne] at hproxy'
        exact .inl hproxy'

/-- A reference to a stub that has others is given back. -/
theorem Sound.releaseStub (hs : s.Sound h classInfo m) {k : ℕ} (hlt : 1 < s.rot.stubRef k) :
    (∃ m', (s.releaseStub k).Sound h classInfo m') ∧ s.Keeps (s.releaseStub k) ∧
      (s.releaseStub k).stubs = s.stubs := by
  have hstubs : (s.releaseStub k).stubs = s.stubs := if_neg (by omega)
  have hcount (k' : ℕ) (hpos : 0 ≤ s.rot.stubRef k') :
      0 ≤ (s.releaseStub k).rot.stubRef k' ∧
        (0 < s.rot.stubRef k' → 0 < (s.releaseStub k).rot.stubRef k') := by
    rcases eq_or_ne k' k with rfl | hne
    · have heq : (s.releaseStub k').rot.stubRef k' = s.rot.stubRef k' + -1 :=
        Function.update_self _ _ _
      omega
    · have heq : (s.releaseStub k).rot.stubRef k' = s.rot.stubRef k' :=
        Function.update_of_ne hne _ _
      omega
  refine ⟨⟨_, ⟨hs.tables.counts (count s.rot.stubRef k (-1)) s.rot.proxyRef s.rot.objectRef,
    hstubs ▸ hs.stubbed, hstubs ▸ hs.exported, hs.addresses, hs.objects, hs.proxied, hs.imported,
    hs.imports, hs.apart, ?_, hs.referenced⟩⟩, ⟨?_, ?_⟩, hstubs⟩
  · intro k' stub hstub
    rw [hstubs] at hstub
    exact (hcount k' (hs.counted k' stub hstub)).1
  · exact fun k' stub hstub => hstubs ▸ hstub
  · exact fun k' stub hstub hpos => (hcount k' hpos.le).2 hpos

/-- The pack of a stub of this process. -/
theorem unmarshals_unmarshalLocal (hs : s.Sound h classInfo m) {e : Export} (he : e ∈ m.exports)
    {pack : InterfacePack} (haddress : pack.mNetAddress = some e.mNetAddress)
    (hindex : ∀ k stub, s.stubs k = some stub → stub.mNetAddress = pack.mNetAddress →
      pack.mIndex < stub.mInterfaces.length)
    (hlt : 1 < s.rot.stubRef e.mIStub) (custom : CustomResult) (coexisting : Bool) :
    Unmarshals classInfo h s coexisting pack (unmarshalLocal h e.entry pack custom s) := by
  obtain ⟨stub, hstub, hstands⟩ := hs.stubbed e he
  have hstubaddress := hstands.address.trans haddress.symm
  obtain ⟨q, hget⟩ : ∃ q, stub.mInterfaces[pack.mIndex]? = some q :=
    ⟨_, List.getElem?_eq_getElem (hindex _ stub hstub hstubaddress)⟩
  rw [unmarshalLocal]
  dsimp only [Export.entry]
  split
  · exact .of_unchanged hs coexisting pack _ fun object hobject => by cases hobject
  rw [hstub]
  dsimp only
  rw [hget]
  dsimp only
  -- the interface gets a reference, and the one of the search goes back
  have hs' : Process.Sound h classInfo { s with rot := s.rot.addRef q } _ :=
    hs.withTables (hs.tables.counts s.rot.stubRef s.rot.proxyRef _) rfl rfl
      (fun _ => le_rfl) fun _ => le_rfl
  have hadded : s.Keeps { s with rot := s.rot.addRef q } := .of_le rfl fun _ => le_rfl
  obtain ⟨hsound, hkeeps, hstubs⟩ := hs'.releaseStub hlt
  exact {
    code := ⟨NOERROR, rfl⟩
    sound := hsound
    keeps := hadded.trans hkeeps
    stubs := hstubs
    proxies := fun _ _ hproxy => .inl hproxy
    unpacks := by
      intro object _ hobject
      obtain rfl := Option.some.inj (Unmarshalled.standard.inj hobject)
      exact ⟨e.mIStub, stub, hkeeps.stub _ stub hstub, hstubaddress, hget⟩
    home := by
      intro _ _ object hobject
      exact ⟨_, (Option.some.inj (Unmarshalled.standard.inj hobject)).symm⟩ }

/-- **Unmarshalling**, in a process whose tables are sound. -/
theorem Sound.unmarshals (hs : s.Sound h classInfo m) {pack : InterfacePack} {a : CString}
    (haddress : pack.mNetAddress = some a) {c : ProxyCreation}
    (hc : s.CanProxy h classInfo pack.mClsid c)
    (hinterfaces : (classInfo pack.mClsid).mInterfaces ≠ [])
    (hindex : ∀ k stub, s.stubs k = some stub → stub.mNetAddress = pack.mNetAddress →
      pack.mIndex < stub.mInterfaces.length ∧ 0 < s.rot.stubRef k)
    (custom : CustomResult) (coexisting : Bool) :
    Unmarshals classInfo h s coexisting pack
      (s.StdUnmarshalInterface h coexisting pack c custom) := by
  rw [StdUnmarshalInterface, haddress]
  rcases hs.tables.findExport_cases a with ⟨e, he, rfl, rot, heq, hrep⟩ | ⟨hnone, ec, heq⟩
  · rw [heq]
    dsimp only
    have hs' := hs.withTables hrep rfl rfl (hs.le_stubRef hrep.stubRef)
      fun p => (congrFun (hs.tables.proxyRef.trans hrep.proxyRef.symm) p).le
    have hkeeps : s.Keeps { s with rot } := .of_le rfl (hs.le_stubRef hrep.stubRef)
    cases coexisting with
    | true =>
      rw [if_pos rfl]
      refine (unmarshals_unmarshalProxy hs' haddress ⟨hc.classes, hc.memory, fun n hn => ?_⟩
        hinterfaces custom true fun hflag => by cases hflag).of_keeps hkeeps rfl fun _ _ hproxy =>
          .inl hproxy
      have himports := FindExportAddress_imports h.extend s.rot (some e.mNetAddress)
      rw [heq] at himports
      dsimp only at himports ⊢
      exact himports ▸ hc.entry n hn
    | false =>
      rw [if_neg Bool.false_ne_true]
      obtain ⟨stub, hstub, hstands⟩ := hs.stubbed e he
      have hpos := (hindex _ stub hstub (hstands.address.trans haddress.symm)).2
      have hcount : count s.rot.stubRef e.mIStub 1 e.mIStub = s.rot.stubRef e.mIStub + 1 :=
        Function.update_self _ _ _
      have hlt : 1 < rot.stubRef e.mIStub := by
        rw [hrep.stubRef]
        dsimp only
        rw [← hs.tables.stubRef, hcount]
        omega
      refine (unmarshals_unmarshalLocal hs' he haddress (fun k stub hstub h => ?_) hlt custom
        false).of_keeps hkeeps rfl fun _ _ hproxy => .inl hproxy
      exact (hindex k stub hstub h).1
  · rw [heq]
    refine unmarshals_unmarshalProxy hs haddress hc hinterfaces custom coexisting fun _ => ?_
    rintro ⟨k, stub, hstub, hstubaddress⟩
    obtain ⟨e, he, rfl⟩ := hs.exported k stub hstub
    obtain ⟨stub', hstub', hstands⟩ := hs.stubbed e he
    obtain rfl := Option.some.inj (hstub.symm.trans hstub')
    exact hnone e he (Option.some.inj (hstands.address.symm.trans (hstubaddress.trans haddress)))

end Process

end ElastosCar.Rot
