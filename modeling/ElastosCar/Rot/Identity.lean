import ElastosCar.Lib.Trace
import ElastosCar.Rot.Unmarshals

/-!
# Identity across processes

Any number of processes marshal and unmarshal interface pointers, and release what they got. A pack
is a value here, which any process may unmarshal once it was handed out; how its bytes get there is
not the matter of the two functions. Each call is one step: a process makes one after another.

A pointer *denotes* an interface of an object in one process: a local one denotes itself, and one of
a proxy the interface that the calls of the proxy reach.

* `denotes_of_marshal`: marshalling and unmarshalling keep what a pointer denotes, whatever happens
  in between, and give an interface back as itself at home.
* `identity_iff`: two pointers of a process are of one object exactly when what they denote is.
* `code_of_run`: on the way nothing that was deleted is used.

This holds as long as no stub loses its last reference: a stub that is destroyed stays in the export
table. And it needs that a new socket has an address of its own, and that a class id means the same
everywhere.
-/

namespace ElastosCar.Rot

open ClsInfo

/-! ### The system -/

variable {Proc : Type} [DecidableEq Proc]

/-- The processes, and the packs that were handed out. -/
structure System (Proc : Type) where
  process : Proc → Process := fun _ => {}
  packs : List InterfacePack := []

inductive SystemAction (Proc : Type)
  | marshal (b : Proc) (object : Pointer) (c : StubCreation)
  | unmarshal (b : Proc) (coexisting : Bool) (interfacePack : InterfacePack) (c : ProxyCreation)
    (custom : CustomResult)
  | addRef (b : Proc) (p : ℕ)
  | release (b : Proc) (p : ℕ)
  /-- A `RELEASE` request reaches a stub. -/
  | releaseStub (b : Proc) (k : ℕ)

namespace System

variable (host : Proc → Host)

/-- One process takes a step. -/
def put (b : Proc) (s : Process) (sys : System Proc) : System Proc :=
  { sys with process := Function.update sys.process b s }

/-- `StdMarshalInterface` in one process, with a pack of zeros. -/
def marshal (b : Proc) (object : Pointer) (c : StubCreation) (sys : System Proc) :
    Reply × InterfacePack × System Proc :=
  let (r, interfacePack, s) := (sys.process b).StdMarshalInterface (host b) object c {}
  (r, interfacePack, { sys.put b s with
    packs := if r = .code NOERROR then interfacePack :: sys.packs else sys.packs })

/-- `StdUnmarshalInterface` in one process. -/
def unmarshal (b : Proc) (coexisting : Bool) (interfacePack : InterfacePack) (c : ProxyCreation)
    (custom : CustomResult) (sys : System Proc) : Reply × Unmarshalled × System Proc :=
  let (r, object, s) :=
    (sys.process b).StdUnmarshalInterface (host b) coexisting interfacePack c custom
  (r, object, sys.put b s)

/-- What the action returns, and the system after it. -/
def act (sys : System Proc) : SystemAction Proc → Reply × System Proc
  | .marshal b object c => ((sys.marshal host b object c).1, (sys.marshal host b object c).2.2)
  | .unmarshal b coexisting interfacePack c custom =>
    let r := sys.unmarshal host b coexisting interfacePack c custom
    (r.1, r.2.2)
  | .addRef b p => (.code NOERROR, sys.put b ((sys.process b).addRefProxy p))
  | .release b p =>
    let (r, s) := (sys.process b).Release (host b) p
    (r, sys.put b s)
  | .releaseStub b k => (.code NOERROR, sys.put b ((sys.process b).releaseStub k))

def step (sys : System Proc) (a : SystemAction Proc) : Option (System Proc) :=
  some (sys.act host a).2

end System

/-! ### What comes from outside -/

section

variable (host : Proc → Host) (classInfo : EMuid → CIClassInfo)

/-- A process marshals a pointer that it has, and the address of a new stub is of no open socket; it
unmarshals a pack that was handed out. The last reference to a stub is not given back. -/
def Allowed (sys : System Proc) : SystemAction Proc → Prop
  | .marshal b object c => (sys.process b).Has object ∧
    (∀ q, object = .object q → (sys.process b).CanStub (host b) classInfo q c) ∧
      ∀ b' k stub, (sys.process b').stubs k = some stub → stub.mNetAddress ≠ some c.netAddress
  | .unmarshal b _ interfacePack c _ => interfacePack ∈ sys.packs ∧
    (sys.process b).CanProxy (host b) classInfo interfacePack.mClsid c
  | .addRef b p | .release b p => (sys.process b).proxies p ≠ none
  | .releaseStub b k => 1 < (sys.process b).rot.stubRef k

end

/-! ### What a pointer denotes -/

/-- In process `b` the pointer is for the interface `q` of process `home`: it is this interface, or
it belongs to a proxy whose calls go to the stub that has it at the same index. -/
def System.Denotes (sys : System Proc) (b : Proc) (object : Pointer) (home : Proc) (q : ℕ) : Prop :=
  match object with
  | .object q' => home = b ∧ q = q'
  | .interface p n => ∃ proxy, (sys.process b).proxies p = some proxy ∧
    ∃ k stub, (sys.process home).stubs k = some stub ∧ stub.mNetAddress = proxy.mNetAddress ∧
      stub.mInterfaces[n]? = some q
  | .proxy _ => False

/-- The same for a pack. -/
def System.PackDenotes (sys : System Proc) (pack : InterfacePack) (home : Proc) (q : ℕ) : Prop :=
  ∃ k stub, (sys.process home).stubs k = some stub ∧ stub.mNetAddress = pack.mNetAddress ∧
    stub.mInterfaces[pack.mIndex]? = some q

/-! ### An object with two interfaces, in a system of two processes -/

private def twoInterfaces : CIClassInfo :=
  ⟨⟨[], zero_notMem_nil⟩, ⟨1, 0, 0, 0⟩, [⟨⟨7, 0, 0, 0⟩, []⟩, ⟨⟨8, 0, 0, 0⟩, []⟩]⟩

/-- The object is at 1, where it has its first interface, and the second is at 2. -/
private def hostOfOne : Host where
  extend := UInt8.toUInt32
  Probe q iid :=
    if q = 1 ∨ q = 2 then
      if iid = EIID_IInterface ∨ iid = EIID_IObject ∨ iid = ⟨7, 0, 0, 0⟩ then some 1
      else if iid = ⟨8, 0, 0, 0⟩ then some 2 else none
    else none
  probe_identity := by
    intro q iid r h
    split_ifs at h with hq hiid hiid'
    · obtain rfl := Option.some.inj h
      rw [if_pos hq]
      rfl
    · obtain rfl := Option.some.inj h
      rw [if_pos hq]
      rfl
  EIID_ICustomMarshal := ⟨9, 0, 0, 0⟩

private def stubOfOne : StubCreation where
  object := some 1
  stub := true
  before := none
  stubObj := some 3
  Probe := hostOfOne.Probe 1
  GetClassID := (NOERROR, ⟨1, 0, 0, 0⟩)
  GetInterfaceID := NOERROR
  modules := {}
  AcquireClassInfo := fun _ => .ok twoInterfaces
  interfaces := true
  socket := true
  bind := true
  listen := true
  ioctl := true
  getsockname := true
  netAddress := ⟨[49], zero_notMem_one⟩
  expObj := some 30

private def proxyOfOne : ProxyCreation where
  proxyObj := some 5
  modules := {}
  GetRemoteClassInfo := fun _ => .ok twoInterfaces
  interfaces := true
  impObj := some 30

/-- The object is marshalled in one process. -/
private def marshalOne : SystemAction Bool := .marshal false (.object 2) stubOfOne

private def packOfOne : InterfacePack := ⟨⟨1, 0, 0, 0⟩, 1, some ⟨[49], zero_notMem_one⟩⟩

/-- The pack is unmarshalled in the other. -/
private def unmarshalOne : SystemAction Bool :=
  .unmarshal true false packOfOne proxyOfOne ⟨E_NO_INTERFACE, none⟩

private def marshalledOne : System Bool := (System.act (fun _ => hostOfOne) {} marshalOne).2

private def unmarshalledOne : System Bool :=
  (marshalledOne.act (fun _ => hostOfOne) unmarshalOne).2

private theorem allowed_marshalOne :
    Allowed (fun _ => hostOfOne) (fun _ => twoInterfaces) {} marshalOne := by
  refine ⟨trivial, fun q hq => ?_, fun b' k stub hstub => by cases hstub⟩
  obtain rfl := Pointer.object.inj hq
  exact {
    isObject := by decide
    notProxy := rfl
    classes := fun info hinfo => (Except.ok.inj hinfo).symm
    memory := fun _ _ => rfl
    entry := by
      rintro n ⟨⟩
      decide }

private theorem allowed_unmarshalOne :
    Allowed (fun _ => hostOfOne) (fun _ => twoInterfaces) marshalledOne unmarshalOne := by
  refine ⟨List.mem_singleton.mpr rfl, ?_⟩
  exact {
    classes := fun info hinfo => (Except.ok.inj hinfo).symm
    memory := by
      rintro p ⟨⟩
      refine ⟨rfl, fun q hq => ?_⟩
      change (if q = 1 ∨ q = 2 then some 1 else none) = some 5 at hq
      split_ifs at hq
      cases hq
    entry := by
      rintro n ⟨⟩
      decide }

private theorem reached_marshalledOne :
    Trace.Meets (System.step fun _ => hostOfOne)
        (Allowed (fun _ => hostOfOne) fun _ => twoInterfaces) {} [marshalOne] ∧
      Trace.run (System.step fun _ => hostOfOne) {} [marshalOne] = some marshalledOne :=
  Trace.meets_run_cons allowed_marshalOne rfl ⟨trivial, rfl⟩

private theorem reached_unmarshalledOne :
    Trace.Meets (System.step fun _ => hostOfOne)
        (Allowed (fun _ => hostOfOne) fun _ => twoInterfaces) {} [marshalOne, unmarshalOne] ∧
      Trace.run (System.step fun _ => hostOfOne) {} [marshalOne, unmarshalOne] =
        some unmarshalledOne :=
  Trace.meets_run_cons allowed_marshalOne rfl
    (Trace.meets_run_cons allowed_unmarshalOne rfl ⟨trivial, rfl⟩)

/-! ### The invariant -/

/-- Besides, every address is of one stub, and every proxy and every pack is of one, which has the
interface and a reference. -/
structure System.Sound (host : Proc → Host) (classInfo : EMuid → CIClassInfo) (sys : System Proc) :
    Prop where
  each : ∀ b, ∃ m, (sys.process b).Sound (host b) classInfo m
  homes : ∀ b b' k k' stub stub', (sys.process b).stubs k = some stub →
    (sys.process b').stubs k' = some stub' → stub.mNetAddress = stub'.mNetAddress → b = b'
  known : ∀ b p proxy, (sys.process b).proxies p = some proxy → ∃ home k stub,
    (sys.process home).stubs k = some stub ∧ stub.mNetAddress = proxy.mNetAddress ∧
      proxy.mInfo = stub.mInfo ∧ 0 < (sys.process home).rot.stubRef k
  packs : ∀ pack ∈ sys.packs, ∃ home k stub, (sys.process home).stubs k = some stub ∧
    stub.mNetAddress = pack.mNetAddress ∧ pack.mIndex < stub.mInterfaces.length ∧
      pack.mClsid = stub.mInfo.mCLSID ∧ 0 < (sys.process home).rot.stubRef k

namespace System

variable {host : Proc → Host} {classInfo : EMuid → CIClassInfo} {sys sys' : System Proc}
  {b : Proc} {s' : Process}

theorem put_self (sys : System Proc) (b : Proc) (s : Process) : (sys.put b s).process b = s :=
  Function.update_self _ _ _

theorem put_of_ne (sys : System Proc) {b b' : Proc} (h : b' ≠ b) (s : Process) :
    (sys.put b s).process b' = sys.process b' :=
  Function.update_of_ne h _ _

omit [DecidableEq Proc] in
theorem sound_init : ({} : System Proc).Sound host classInfo where
  each b := ⟨{}, Process.sound_init⟩
  homes _ _ _ _ _ _ h := by cases h
  known _ _ _ h := by cases h
  packs _ h := by cases h

/-- The stubs of all processes stay. -/
def Keeps (sys sys' : System Proc) : Prop := ∀ b, (sys.process b).Keeps (sys'.process b)

theorem keeps_put (h : (sys.process b).Keeps s') : sys.Keeps (sys.put b s') := by
  intro b'
  rcases eq_or_ne b' b with rfl | hne
  · rwa [put_self]
  · rw [put_of_ne sys hne]
    exact .refl _

/-- **One process takes a step**: its stubs stay, a new stub has a new address, and a new proxy is
of a stub. -/
theorem Sound.put (hs : sys.Sound host classInfo) (hsound : ∃ m, s'.Sound (host b) classInfo m)
    (hkeeps : (sys.process b).Keeps s')
    (hstubs : ∀ k stub, s'.stubs k = some stub → (sys.process b).stubs k = some stub ∨
      ∀ b' k' stub', (sys.process b').stubs k' = some stub' →
        stub'.mNetAddress ≠ stub.mNetAddress)
    (hproxies : ∀ p proxy, s'.proxies p = some proxy → (sys.process b).proxies p = some proxy ∨
      ∃ home k stub, (sys.process home).stubs k = some stub ∧
        stub.mNetAddress = proxy.mNetAddress ∧ proxy.mInfo = stub.mInfo ∧
          0 < (sys.process home).rot.stubRef k) :
    (sys.put b s').Sound host classInfo := by
  have hkept := keeps_put hkeeps
  have hold {b' : Proc} {k : ℕ} {stub : StubObject}
      (hstub : ((sys.put b s').process b').stubs k = some stub) :
      (sys.process b').stubs k = some stub ∨ b' = b ∧ ∀ b' k' stub',
        (sys.process b').stubs k' = some stub' → stub'.mNetAddress ≠ stub.mNetAddress := by
    rcases eq_or_ne b' b with rfl | hne
    · rw [put_self] at hstub
      exact (hstubs k stub hstub).imp_right fun h => ⟨rfl, h⟩
    · rw [put_of_ne sys hne] at hstub
      exact .inl hstub
  constructor
  · intro b'
    rcases eq_or_ne b' b with rfl | hne
    · rwa [put_self]
    · rw [put_of_ne sys hne]
      exact hs.each b'
  · intro b₁ b₂ k₁ k₂ stub₁ stub₂ h₁ h₂ haddress
    rcases hold h₁ with hold₁ | ⟨rfl, hnew₁⟩
    · rcases hold h₂ with hold₂ | ⟨rfl, hnew₂⟩
      · exact hs.homes b₁ b₂ k₁ k₂ stub₁ stub₂ hold₁ hold₂ haddress
      · exact absurd haddress (hnew₂ b₁ k₁ stub₁ hold₁)
    · rcases hold h₂ with hold₂ | ⟨rfl, -⟩
      · exact absurd haddress.symm (hnew₁ b₂ k₂ stub₂ hold₂)
      · rfl
  · intro b' p proxy hproxy
    have hknown : ∃ home k stub, (sys.process home).stubs k = some stub ∧
        stub.mNetAddress = proxy.mNetAddress ∧ proxy.mInfo = stub.mInfo ∧
          0 < (sys.process home).rot.stubRef k := by
      rcases eq_or_ne b' b with rfl | hne
      · rw [put_self] at hproxy
        exact (hproxies p proxy hproxy).elim (hs.known b' p proxy) id
      · rw [put_of_ne sys hne] at hproxy
        exact hs.known b' p proxy hproxy
    obtain ⟨home, k, stub, hstub, haddress, hinfo, href⟩ := hknown
    exact ⟨home, k, stub, (hkept home).stub k stub hstub, haddress, hinfo,
      (hkept home).referenced k stub hstub href⟩
  · intro pack hpack
    obtain ⟨home, k, stub, hstub, haddress, hindex, hclsid, href⟩ := hs.packs pack hpack
    exact ⟨home, k, stub, (hkept home).stub k stub hstub, haddress, hindex, hclsid,
      (hkept home).referenced k stub hstub href⟩

omit [DecidableEq Proc] in
/-- A stub has an address, and as many interfaces as its class. -/
theorem Sound.stub_class (hs : sys.Sound host classInfo) {home : Proc} {k : ℕ}
    {stub : StubObject} (hstub : (sys.process home).stubs k = some stub) :
    (∃ a, stub.mNetAddress = some a) ∧
      stub.mInterfaces.length = stub.mInfo.mInterfaces.length ∧
        stub.mInfo = classInfo stub.mInfo.mCLSID := by
  obtain ⟨m, hm⟩ := hs.each home
  obtain ⟨e, -, -, hstands⟩ := hm.exists_export hstub
  exact ⟨⟨_, hstands.address⟩, hstands.length, hstands.classes⟩

omit [DecidableEq Proc] in
/-- An address is of one stub in all processes. -/
theorem Sound.stub_unique (hs : sys.Sound host classInfo) {b b' : Proc} {k k' : ℕ}
    {stub stub' : StubObject} (hstub : (sys.process b).stubs k = some stub)
    (hstub' : (sys.process b').stubs k' = some stub')
    (heq : stub.mNetAddress = stub'.mNetAddress) : b = b' ∧ k = k' ∧ stub = stub' := by
  obtain rfl := hs.homes b b' k k' stub stub' hstub hstub' heq
  obtain ⟨m, hm⟩ := hs.each b
  exact ⟨rfl, hm.stub_unique hstub hstub' heq⟩

/-- **Marshalling** keeps the system sound. -/
theorem Sound.marshal (hs : sys.Sound host classInfo) {object : Pointer} {c : StubCreation}
    (ha : Allowed host classInfo sys (.marshal b object c)) :
    (sys.marshal host b object c).2.2.Sound host classInfo ∧
      sys.Keeps (sys.marshal host b object c).2.2 ∧
        ∃ ec, (sys.marshal host b object c).1 = .code ec := by
  obtain ⟨hhas, hc, haddress⟩ := ha
  obtain ⟨m, hm⟩ := hs.each b
  have hmarshals := hm.marshals hhas hc (haddress b) {}
  rw [System.marshal]
  rcases hr : (sys.process b).StdMarshalInterface (host b) object c {} with ⟨r, pack, s'⟩
  rw [hr] at hmarshals
  obtain ⟨hcode, hsound, hkeeps, hproxies, hstubs, hpacks⟩ := hmarshals
  dsimp only at *
  have hput : (sys.put b s').Sound host classInfo := by
    refine hs.put hsound hkeeps (fun k stub hstub => ?_) fun p proxy hproxy => ?_
    · refine (hstubs k stub hstub).imp_right fun heq b' k' stub' hstub' => ?_
      rw [heq]
      exact haddress b' k' stub' hstub'
    · exact .inl (hproxies ▸ hproxy)
  refine ⟨⟨hput.each, hput.homes, hput.known, ?_⟩, keeps_put hkeeps, hcode⟩
  split
  swap
  · exact hput.packs
  next hok =>
  refine List.forall_mem_cons.mpr ⟨?_, hput.packs⟩
  -- the new pack is of a stub of this process, or of the stub of the proxy
  have hpack := hpacks hok
  cases object with
  | object q =>
    obtain ⟨k, stub, hstub, haddress, hclsid, hget, href⟩ := hpack
    obtain ⟨hindex, -⟩ := List.getElem?_eq_some_iff.mp hget
    refine ⟨b, k, stub, ?_, haddress, hindex, hclsid, ?_⟩
    · rwa [put_self]
    · rwa [put_self]
  | interface p n =>
    obtain ⟨proxy, hproxy, hindex, rfl⟩ := hpack
    obtain ⟨home, k, stub, hstub, haddress, hinfo, href⟩ := hput.known b p proxy
      (by rwa [put_self])
    refine ⟨home, k, stub, hstub, haddress, ?_, congrArg CIClassInfo.mCLSID hinfo, href⟩
    rw [(hput.stub_class hstub).2.1, ← hinfo]
    exact hindex
  | proxy p => exact hpack.elim

/-- **Unmarshalling** keeps the system sound. -/
theorem Sound.unmarshal (hs : sys.Sound host classInfo) {coexisting : Bool}
    {pack : InterfacePack} {c : ProxyCreation} {custom : CustomResult}
    (ha : Allowed host classInfo sys (.unmarshal b coexisting pack c custom)) :
    Process.Unmarshals classInfo (host b) (sys.process b) coexisting pack
        ((sys.process b).StdUnmarshalInterface (host b) coexisting pack c custom) ∧
      (sys.unmarshal host b coexisting pack c custom).2.2.Sound host classInfo := by
  obtain ⟨hpack, hc⟩ := ha
  obtain ⟨m, hm⟩ := hs.each b
  obtain ⟨home, k, stub, hstub, haddress, hindex, hclsid, href⟩ := hs.packs pack hpack
  obtain ⟨⟨a, ha⟩, hlength, hclass⟩ := hs.stub_class hstub
  have hinfo : classInfo pack.mClsid = stub.mInfo := by rw [hclsid, ← hclass]
  have hunmarshals := hm.unmarshals (haddress.symm.trans ha) hc (fun hnil => ?_)
    (fun k' stub' hstub' haddress' => ?_) custom coexisting
  rotate_left
  · rw [hinfo, ← List.length_eq_zero_iff, ← hlength] at hnil
    omega
  · obtain ⟨rfl, rfl, rfl⟩ := hs.stub_unique hstub' hstub (haddress'.trans haddress.symm)
    exact ⟨hindex, href⟩
  refine ⟨hunmarshals, hs.put hunmarshals.sound hunmarshals.keeps (fun k stub hstub => ?_)
    fun p proxy hproxy => ?_⟩
  · exact .inl (hunmarshals.stubs ▸ hstub)
  · refine (hunmarshals.proxies p proxy hproxy).imp_right fun ⟨haddress', hinfo', _⟩ => ?_
    exact ⟨home, k, stub, hstub, haddress.trans haddress'.symm, hinfo'.trans hinfo, href⟩

/-- **Every action** keeps the system sound and its stubs, and returns a code: nothing that was
deleted is used, and no index is out of bounds. -/
theorem Sound.act (hs : sys.Sound host classInfo) {a : SystemAction Proc}
    (ha : Allowed host classInfo sys a) :
    (sys.act host a).2.Sound host classInfo ∧ sys.Keeps (sys.act host a).2 ∧
      ∃ ec, (sys.act host a).1 = .code ec := by
  cases a with
  | marshal b object c => exact hs.marshal ha
  | unmarshal b coexisting pack c custom =>
    obtain ⟨hunmarshals, hsound⟩ := hs.unmarshal ha
    exact ⟨hsound, keeps_put hunmarshals.keeps, hunmarshals.code⟩
  | addRef b p =>
    obtain ⟨m, hm⟩ := hs.each b
    obtain ⟨m', hm', -⟩ := hm.addRefProxy p
    have hkeeps : (sys.process b).Keeps ((sys.process b).addRefProxy p) :=
      .of_le rfl fun _ => le_rfl
    exact ⟨hs.put ⟨m', hm'⟩ hkeeps (fun _ _ hstub => .inl hstub) fun _ _ hproxy => .inl hproxy,
      keeps_put hkeeps, _, rfl⟩
  | release b p =>
    obtain ⟨m, hm⟩ := hs.each b
    obtain ⟨proxy, hproxy⟩ := Option.ne_none_iff_exists'.mp ha
    obtain ⟨s', hrelease, hreleases⟩ := hm.release hproxy
    have hkeeps : (sys.process b).Keeps s' :=
      .of_le hreleases.stubs fun k => (congrFun hreleases.stubRef k).ge
    rw [System.act, hrelease]
    exact ⟨hs.put hreleases.sound hkeeps (fun _ _ hstub => .inl (hreleases.stubs ▸ hstub))
      fun p' proxy' hproxy' => .inl (hreleases.proxies p' proxy' hproxy'), keeps_put hkeeps, _, rfl⟩
  | releaseStub b k =>
    obtain ⟨m, hm⟩ := hs.each b
    obtain ⟨hsound, hkeeps, hstubs⟩ := hm.releaseStub ha
    exact ⟨hs.put hsound hkeeps (fun _ _ hstub => .inl (hstubs ▸ hstub))
      fun _ _ hproxy => .inl hproxy, keeps_put hkeeps, _, rfl⟩

/-- The stubs stay along a run. -/
theorem Sound.run (hs : sys.Sound host classInfo) {as : List (SystemAction Proc)}
    (hmeets : Trace.Meets (step host) (Allowed host classInfo) sys as)
    (hrun : Trace.run (step host) sys as = some sys') :
    sys'.Sound host classInfo ∧ sys.Keeps sys' := by
  have hinvariant (t : System Proc) (a : SystemAction Proc) (t' : System Proc)
      (ht : t.Sound host classInfo ∧ sys.Keeps t) (ha : Allowed host classInfo t a)
      (hstep : t.step host a = some t') : t'.Sound host classInfo ∧ sys.Keeps t' := by
    obtain rfl := Option.some.inj hstep
    obtain ⟨ht', hkeeps', -⟩ := ht.1.act ha
    exact ⟨ht', fun b => (ht.2 b).trans (hkeeps' b)⟩
  exact Trace.run_invariant hinvariant ⟨hs, fun _ => .refl _⟩ hmeets hrun

/-! ### The denotation is kept -/

omit [DecidableEq Proc] in
theorem PackDenotes.keeps {pack : InterfacePack} {home : Proc} {q : ℕ}
    (h : sys.PackDenotes pack home q) (hkeeps : sys.Keeps sys') :
    sys'.PackDenotes pack home q := by
  obtain ⟨k, stub, hstub, haddress, hget⟩ := h
  exact ⟨k, stub, (hkeeps home).stub k stub hstub, haddress, hget⟩

/-- The pack of a pointer denotes what the pointer does. -/
theorem Sound.denotes_marshal (hs : sys.Sound host classInfo) {object : Pointer}
    {c : StubCreation} (ha : Allowed host classInfo sys (.marshal b object c))
    {pack : InterfacePack}
    (hmarshal : sys.marshal host b object c = (.code NOERROR, pack, sys')) :
    ∃ home q, sys.Denotes b object home q ∧ sys'.PackDenotes pack home q := by
  obtain ⟨-, hkeeps, -⟩ := hs.marshal ha
  obtain ⟨m, hm⟩ := hs.each b
  have hmarshals := hm.marshals ha.1 ha.2.1 (ha.2.2 b) {}
  rw [hmarshal] at hkeeps
  rw [System.marshal] at hmarshal
  rcases hr : (sys.process b).StdMarshalInterface (host b) object c {} with ⟨r, pack', s'⟩
  rw [hr] at hmarshal hmarshals
  obtain ⟨rfl, heq⟩ := Prod.mk.inj hmarshal
  obtain ⟨rfl, rfl⟩ := Prod.mk.inj heq
  have hpack := hmarshals.packs rfl
  cases object with
  | object q =>
    obtain ⟨k, stub, hstub, haddress, -, hget, -⟩ := hpack
    exact ⟨b, q, ⟨rfl, rfl⟩, k, stub, (congrArg (·.stubs k) (put_self sys b s')).trans hstub,
      haddress, hget⟩
  | interface p n =>
    obtain ⟨proxy, hproxy, hindex, rfl⟩ := hpack
    rw [hmarshals.proxies] at hproxy
    obtain ⟨home, k, stub, hstub, haddress, hinfo, -⟩ := hs.known b p proxy hproxy
    have hlt : n < stub.mInterfaces.length := by
      rw [(hs.stub_class hstub).2.1, ← hinfo]
      exact hindex
    have hget := List.getElem?_eq_getElem hlt
    exact ⟨home, _, ⟨proxy, hproxy, k, stub, hstub, haddress, hget⟩, k, stub,
      (hkeeps home).stub k stub hstub, haddress, hget⟩
  | proxy p => exact hpack.elim

/-- The pointer of a pack denotes what the pack does. -/
theorem Sound.denotes_unmarshal (hs : sys.Sound host classInfo) {coexisting : Bool}
    {pack : InterfacePack} {c : ProxyCreation} {custom : CustomResult} {home : Proc} {q : ℕ}
    (hpack : sys.PackDenotes pack home q)
    (ha : Allowed host classInfo sys (.unmarshal b coexisting pack c custom)) {object : Pointer}
    (hunmarshal : sys.unmarshal host b coexisting pack c custom =
      (.code NOERROR, .standard (some object), sys')) :
    sys'.Denotes b object home q ∧ (coexisting = false → b = home → object = .object q) := by
  obtain ⟨hunmarshals, hsound⟩ := hs.unmarshal ha
  have hkeeps := keeps_put hunmarshals.keeps
  rw [System.unmarshal] at hunmarshal hsound
  rcases hr : (sys.process b).StdUnmarshalInterface (host b) coexisting pack c custom with
    ⟨r, u, s'⟩
  rw [hr] at hunmarshal hunmarshals hsound hkeeps
  obtain ⟨rfl, heq⟩ := Prod.mk.inj hunmarshal
  obtain ⟨rfl, rfl⟩ := Prod.mk.inj heq
  have hunpacks := hunmarshals.unpacks object rfl rfl
  obtain ⟨k, stub, hstub, haddress, hget⟩ := hpack
  have hkept := (hkeeps home).stub k stub hstub
  -- an object of this process has the stub of the pack, so the process is its home
  have hlocal {q' : ℕ} (hobject : object = .object q') : home = b ∧ q' = q := by
    rw [hobject] at hunpacks
    obtain ⟨k', stub', hstub', haddress', hget'⟩ := hunpacks
    obtain ⟨hhome, rfl, rfl⟩ := hsound.stub_unique hkept
      ((congrArg (·.stubs k') (put_self sys b s')).trans hstub') (haddress.trans haddress'.symm)
    exact ⟨hhome, Option.some.inj (hget'.symm.trans hget)⟩
  refine ⟨?_, fun hflag hhome => ?_⟩
  · cases object with
    | object q' =>
      obtain ⟨hhome, rfl⟩ := hlocal rfl
      exact ⟨hhome, rfl⟩
    | interface p n =>
      obtain ⟨rfl, proxy, hproxy, haddress', -⟩ := hunpacks
      exact ⟨proxy, (congrArg (·.proxies p) (put_self sys b s')).trans hproxy, k, stub, hkept,
        haddress.trans haddress'.symm, hget⟩
    | proxy p => exact hunpacks.elim
  · obtain ⟨q', rfl⟩ := hunmarshals.home hflag ⟨k, stub, hhome ▸ hstub, haddress⟩ object rfl
    rw [(hlocal rfl).2]

/-- **A pointer denotes the same wherever it goes.** A pointer that is marshalled in a run, and
unmarshalled after any further steps, in any process and by way of any others, denotes the interface
that it denoted before; at home it is this interface again. -/
theorem denotes_of_marshal {before after : List (SystemAction Proc)}
    {sys₀ sys₁ sys₂ sys₃ : System Proc} {b b' : Proc} {object object' : Pointer}
    {c : StubCreation} {c' : ProxyCreation} {custom : CustomResult} {coexisting : Bool}
    {pack : InterfacePack} (hbefore : Trace.Meets (step host) (Allowed host classInfo) {} before)
    (hsys₀ : Trace.run (step host) {} before = some sys₀)
    (hmarshals : Allowed host classInfo sys₀ (.marshal b object c))
    (hmarshal : sys₀.marshal host b object c = (.code NOERROR, pack, sys₁))
    (hafter : Trace.Meets (step host) (Allowed host classInfo) sys₁ after)
    (hsys₂ : Trace.run (step host) sys₁ after = some sys₂)
    (hunmarshals : Allowed host classInfo sys₂ (.unmarshal b' coexisting pack c' custom))
    (hunmarshal : sys₂.unmarshal host b' coexisting pack c' custom =
      (.code NOERROR, .standard (some object'), sys₃)) :
    ∃ home q, sys₀.Denotes b object home q ∧ sys₃.Denotes b' object' home q ∧
      (coexisting = false → b' = home → object' = .object q) := by
  obtain ⟨hs₀, -⟩ := sound_init.run hbefore hsys₀
  obtain ⟨home, q, hdenotes, hpack⟩ := hs₀.denotes_marshal hmarshals hmarshal
  have hs₁ : sys₁.Sound host classInfo := by
    have := (hs₀.marshal hmarshals).1
    rwa [hmarshal] at this
  obtain ⟨hs₂, hkeeps⟩ := hs₁.run hafter hsys₂
  exact ⟨home, q, hdenotes, hs₂.denotes_unmarshal (hpack.keeps hkeeps) hunmarshals hunmarshal⟩

/-- The second interface of an object, in another process. -/
theorem denotes_of_marshal_other : ∃ home q,
    ({} : System Bool).Denotes false (.object 2) home q ∧
      unmarshalledOne.Denotes true (.interface 5 1) home q ∧
        (false = false → true = home → Pointer.interface 5 1 = .object q) := by
  have hnone (sys : System Bool) : Trace.Meets (step fun _ => hostOfOne)
      (Allowed (fun _ => hostOfOne) fun _ => twoInterfaces) sys [] := trivial
  have hend (sys : System Bool) : Trace.run (step fun _ => hostOfOne) sys [] = some sys := rfl
  exact denotes_of_marshal (hnone {}) (hend {}) allowed_marshalOne rfl (hnone marshalledOne)
    (hend marshalledOne) allowed_unmarshalOne rfl

/-- No process has a proxy for a stub of its own. -/
def Apart (sys : System Proc) : Prop :=
  ∀ b p proxy k stub, (sys.process b).proxies p = some proxy →
    (sys.process b).stubs k = some stub → stub.mNetAddress ≠ proxy.mNetAddress

theorem Apart.put (h : sys.Apart) (hs' : ∀ p proxy k stub, s'.proxies p = some proxy →
    s'.stubs k = some stub → stub.mNetAddress ≠ proxy.mNetAddress) : (sys.put b s').Apart := by
  intro b' p proxy k stub hproxy hstub
  rcases eq_or_ne b' b with rfl | hne
  · rw [put_self] at hproxy hstub
    exact hs' p proxy k stub hproxy hstub
  · rw [put_of_ne sys hne] at hproxy hstub
    exact h b' p proxy k stub hproxy hstub

end System

/-- The flag that the marshaller itself uses. -/
def SystemAction.Noncoexisting : SystemAction Proc → Prop
  | .unmarshal _ coexisting _ _ _ => coexisting = false
  | _ => True

namespace System

theorem Apart.act (hapart : sys.Apart) (hs : sys.Sound host classInfo) {a : SystemAction Proc}
    (ha : Allowed host classInfo sys a) (hflag : a.Noncoexisting) : (sys.act host a).2.Apart := by
  cases a with
  | marshal b object c =>
    obtain ⟨m, hm⟩ := hs.each b
    have hmarshals := hm.marshals ha.1 ha.2.1 (ha.2.2 b) {}
    have hput : (sys.put b
        ((sys.process b).StdMarshalInterface (host b) object c {}).2.2).Apart := by
      refine hapart.put fun p proxy k stub hproxy hstub heq => ?_
      rw [hmarshals.proxies] at hproxy
      rcases hmarshals.stubs k stub hstub with hstub | hnew
      · exact hapart b p proxy k stub hproxy hstub heq
      · -- the address of a proxy is not new
        obtain ⟨home, k', stub', hstub', haddress, -⟩ := hs.known b p proxy hproxy
        exact ha.2.2 home k' stub' hstub' (haddress.trans (heq.symm.trans hnew))
    exact hput
  | unmarshal b coexisting pack c custom =>
    obtain ⟨hunmarshals, -⟩ := hs.unmarshal ha
    have hput : (sys.put b ((sys.process b).StdUnmarshalInterface (host b) coexisting pack c
        custom).2.2).Apart := by
      refine hapart.put fun p proxy k stub hproxy hstub heq => ?_
      rw [hunmarshals.stubs] at hstub
      rcases hunmarshals.proxies p proxy hproxy with hproxy | ⟨haddress, -, haway⟩
      · exact hapart b p proxy k stub hproxy hstub heq
      · exact haway hflag ⟨k, stub, hstub, heq.trans haddress⟩
    exact hput
  | addRef b p => exact hapart.put fun p proxy k stub => hapart b p proxy k stub
  | release b p =>
    obtain ⟨m, hm⟩ := hs.each b
    obtain ⟨proxy, hproxy⟩ := Option.ne_none_iff_exists'.mp ha
    obtain ⟨s', hrelease, hreleases⟩ := hm.release hproxy
    rw [System.act, hrelease]
    refine hapart.put fun p' proxy' k stub hproxy' hstub => ?_
    rw [hreleases.stubs] at hstub
    exact hapart b p' proxy' k stub (hreleases.proxies p' proxy' hproxy') hstub
  | releaseStub b k =>
    obtain ⟨m, hm⟩ := hs.each b
    obtain ⟨-, -, hstubs⟩ := hm.releaseStub ha
    refine hapart.put fun p proxy k' stub hproxy hstub => ?_
    rw [hstubs] at hstub
    exact hapart b p proxy k' stub hproxy hstub

/-- **An object has one identity in each process.** Where unmarshalling gives back what is local,
two pointers of a process are of one object, as their `IInterface` tells, exactly when the
interfaces they denote are. -/
theorem identity_iff {as : List (SystemAction Proc)}
    (hmeets : Trace.Meets (step host) (Allowed host classInfo) {} as)
    (hflags : ∀ a ∈ as, a.Noncoexisting) (hrun : Trace.run (step host) {} as = some sys)
    {x y : Pointer} {home home' : Proc} {q q' : ℕ} (hx : sys.Denotes b x home q)
    (hy : sys.Denotes b y home' q') :
    (host b).identity x = (host b).identity y ↔ home = home' ∧
      (host home).Probe q EIID_IInterface = (host home).Probe q' EIID_IInterface := by
  have hinvariant (t : System Proc) (a : SystemAction Proc) (t' : System Proc)
      (ht : t.Sound host classInfo ∧ t.Apart)
      (ha : Allowed host classInfo t a ∧ a.Noncoexisting) (hstep : t.step host a = some t') :
      t'.Sound host classInfo ∧ t'.Apart := by
    obtain rfl := Option.some.inj hstep
    exact ⟨(ht.1.act ha.1).1, ht.2.act ht.1 ha.1 ha.2⟩
  obtain ⟨hs, hapart⟩ := Trace.run_invariant hinvariant
    ⟨sound_init, fun _ _ _ _ _ hproxy => by cases hproxy⟩ (hmeets.and_mem hflags) hrun
  obtain ⟨m, hm⟩ := hs.each b
  -- a proxy is of an object of another process, and at the address of no object of this one
  have hproxied {p n : ℕ} {home : Proc} {q : ℕ} (h : sys.Denotes b (.interface p n) home q) :
      home ≠ b ∧ ∀ x, (host b).Probe x EIID_IInterface ≠ some p := by
    obtain ⟨proxy, hproxy, k, stub, hstub, haddress, -⟩ := h
    refine ⟨?_, hm.apart p proxy hproxy⟩
    rintro rfl
    exact hapart _ p proxy k stub hproxy hstub haddress
  cases x with
  | object x =>
    obtain ⟨rfl, rfl⟩ := hx
    cases y with
    | object y =>
      obtain ⟨rfl, rfl⟩ := hy
      exact ⟨fun heq => ⟨rfl, heq⟩, fun h => h.2⟩
    | interface p n =>
      obtain ⟨haway, hne⟩ := hproxied hy
      exact iff_of_false (hne q) fun h => haway h.1.symm
    | proxy p => exact hy.elim
  | interface p n =>
    cases y with
    | object y =>
      obtain ⟨rfl, rfl⟩ := hy
      obtain ⟨haway, hne⟩ := hproxied hx
      exact iff_of_false (fun h => hne _ h.symm) fun h => haway h.1
    | interface p' n' =>
      obtain ⟨proxy, hproxy, k, stub, hstub, haddress, hget⟩ := hx
      obtain ⟨proxy', hproxy', k', stub', hstub', haddress', hget'⟩ := hy
      constructor
      · intro heq
        obtain rfl := Option.some.inj heq
        obtain rfl := Option.some.inj (hproxy.symm.trans hproxy')
        obtain ⟨rfl, rfl, rfl⟩ := hs.stub_unique hstub hstub' (haddress.trans haddress'.symm)
        obtain ⟨m', hm'⟩ := hs.each home
        obtain ⟨e, -, -, hstands⟩ := hm'.exists_export hstub
        refine ⟨rfl, ?_⟩
        rw [hstands.identity q (List.mem_of_getElem? hget),
          hstands.identity q' (List.mem_of_getElem? hget')]
      · rintro ⟨rfl, heq⟩
        obtain ⟨m', hm'⟩ := hs.each home
        obtain ⟨e, he, -, hstands⟩ := hm'.exists_export hstub
        obtain ⟨e', he', -, hstands'⟩ := hm'.exists_export hstub'
        rw [hstands.identity q (List.mem_of_getElem? hget),
          hstands'.identity q' (List.mem_of_getElem? hget')] at heq
        -- one object, so one entry, one address and one proxy
        obtain rfl := List.inj_on_of_nodup_map hm'.objects he he' (Option.some.inj heq)
        obtain ⟨a, hi, ha⟩ := hm.exists_import hproxy
        obtain ⟨a', hi', ha'⟩ := hm.exists_import hproxy'
        have haa' : some a = some a' := ha.symm.trans (haddress.symm.trans (hstands.address.trans
          (hstands'.address.symm.trans (haddress'.trans ha'))))
        have heq' := hm.import_unique hi hi' (Option.some.inj haa')
        exact congrArg (fun i => some i.mIProxy) heq'
    | proxy p' => exact hy.elim
  | proxy p => exact hx.elim

/-- The two interfaces of the proxy are of one object, as they are at home. -/
theorem identity_iff_interfaces :
    hostOfOne.identity (.interface 5 0) = hostOfOne.identity (.interface 5 1) ↔ false = false ∧
      hostOfOne.Probe 1 EIID_IInterface = hostOfOne.Probe 2 EIID_IInterface := by
  have hflags : ∀ a ∈ [marshalOne, unmarshalOne], a.Noncoexisting :=
    List.forall_mem_cons.mpr ⟨trivial, List.forall_mem_cons.mpr ⟨rfl, fun _ h =>
      absurd h List.not_mem_nil⟩⟩
  exact identity_iff (b := true) reached_unmarshalledOne.1 hflags reached_unmarshalledOne.2
    ⟨_, rfl, 3, _, rfl, rfl, rfl⟩ ⟨_, rfl, 3, _, rfl, rfl, rfl⟩

end System

end ElastosCar.Rot
