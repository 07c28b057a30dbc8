import ElastosCar.Service.Manager
import ElastosCar.Strings.ElString

/-!
# The clients of the service manager

`CServiceManager` of `ServiceManagerClient.cpp`, one for each client process: `AddService`,
`GetService` with the cache of the process, and `ListServices`. Requests are handled one at a time.

`Directory` is what the clients should see. A client that has got an object keeps it and does not
ask again, and the service manager writes the names of the services with `writeCString` while the
client reads them with `readString16`.

* `directed_step`: the caches agree with the directory as long as no name is registered or removed
  that a client has kept another object for.
* `client_agrees`: then `GetService` finds what the directory has, and `ListServices` when that is
  nothing.
-/

namespace ElastosCar.CServiceManager

variable {Client Object Binder : Type}

/-- `_CObject_MarshalInterface` and `_CObject_UnmarshalInterface`: the pack of an object stands for
it. -/
structure Marshalling (Object Binder : Type) where
  marshal : Object → Except ECode (InterfacePack Binder)
  unmarshal : InterfacePack Binder → Except ECode Object
  unmarshal_marshal : ∀ o ip, marshal o = .ok ip → unmarshal ip = .ok o

/-- The `android::Parcel` of the reply to `LIST_SERVICES`, written to and then read from. -/
structure ReplyParcel where
  Out : Type
  In : Type
  new : Out
  writeInt32 : UInt32 → Out → Out
  writeCString : CString → Out → Out
  rewind : Out → In
  readInt32 : In → UInt32 × In
  readString16 : In → List UInt16 × In
  /-- The word at the front comes back, whatever strings are behind it. -/
  readInt32_front : ∀ v (strings : List CString),
    (readInt32 (rewind (strings.foldl (fun p s => writeCString s p) (writeInt32 v new)))).1 = v

/-! ### The calls -/

/-- The service manager and the caches of the clients. -/
structure Network (Client Object Binder : Type) where
  manager : ServiceManager Binder := {}
  /-- The keys of `mServices`. -/
  names : List CString := []
  mServiceCache : Client → CarString → Option Object := fun _ _ => none

/-- `IsNullOrEmpty` of a name. -/
def IsNullOrEmpty (name : CarString) : Bool := name.elim true fun s => s.chars = []

/-- The keys of a hash map after `mServices[name] = ip`. -/
def addName (name : CarString) (names : List CString) : List CString :=
  name.elim names fun s => if s ∈ names then names else names ++ [s]

/-- The keys after `Erase`. -/
def eraseName (name : CarString) (names : List CString) : List CString :=
  name.elim names names.erase

section Calls

variable [DecidableEq Binder] (m : Marshalling Object Binder)

/-- `CServiceManager::AddService`; `allocated` says whether the `malloc` of the service manager
succeeds. -/
def AddService (name : CarString) (service : Option Object) (allocated : Bool)
    (st : Network Client Object Binder) : ECode × Network Client Object Binder :=
  match service with
  | none => (NOERROR, st)
  | some service =>
    if IsNullOrEmpty name then (NOERROR, st)
    else match m.marshal service with
      | .error ec => (ec, st)
      | .ok ip =>
        let r := st.manager.onTransact (.addService name ip allocated)
        (r.1.ec, { st with
          manager := r.2
          names := if allocated then addName name st.names else st.names })

/-- The request `REMOVE_SERVICE`, for which the clients have no function. -/
def RemoveService (name : CarString) (st : Network Client Object Binder) :
    ECode × Network Client Object Binder :=
  let r := st.manager.onTransact (.removeService name)
  (r.1.ec, { st with manager := r.2, names := eraseName name st.names })

variable [DecidableEq Client]

/-- `CServiceManager::GetService`: the code, and what `*service` is. -/
def GetService (c : Client) (name : CarString) (st : Network Client Object Binder) :
    (ECode × Option Object) × Network Client Object Binder :=
  if IsNullOrEmpty name then ((NOERROR, none), st)
  else
    match st.mServiceCache c name with
    | some service => ((NOERROR, some service), st)
    | none =>
      let r := st.manager.onTransact (.getService name)
      match r.1.ip with
      | none => ((r.1.ec, none), { st with manager := r.2 })
      | some ip =>
        match m.unmarshal ip with
        | .error ec => ((ec, none), { st with manager := r.2 })
        | .ok service =>
          ((NOERROR, some service), { st with
            manager := r.2
            mServiceCache := Function.update st.mServiceCache c
              (Function.update (st.mServiceCache c) name (some service)) })

end Calls

section List

variable (P : ReplyParcel)

/-- `LIST_SERVICES` of `onTransact`, with the names in the order of the iteration. -/
def writeNames (names : List CString) : P.Out :=
  names.foldl (fun p s => P.writeCString s p) (P.writeInt32 (UInt32.ofNat names.length) P.new)

/-- `String16ToString`. -/
def String16ToString (str16 : List UInt16) : ElString :=
  ElString.ofArray (str16.map (·.toUInt32)) 0 str16.length

/-- The loop of `ListServices`. -/
def readNames : ℕ → P.In → List ElString
  | 0, _ => []
  | n + 1, p => String16ToString (P.readString16 p).1 :: readNames n (P.readString16 p).2

/-- `CServiceManager::ListServices`. -/
def ListServices (names : List CString) : List ElString :=
  let r := P.readInt32 (P.rewind (writeNames P names))
  readNames P r.1.toInt32.toInt.toNat r.2

end List

/-- What the clients do, and the removals. -/
inductive Call (Client Object : Type)
  | addService (name : CarString) (service : Option Object) (allocated : Bool)
  | removeService (name : CarString)
  | getService (c : Client) (name : CarString)
  /-- With the names in the order in which the hash map has them. -/
  | listServices (c : Client) (names : List CString)
deriving DecidableEq, Repr

section Step

variable [DecidableEq Client] [DecidableEq Binder] (m : Marshalling Object Binder)

def step (st : Network Client Object Binder) :
    Call Client Object → Option (Network Client Object Binder)
  | .addService name service allocated => some (AddService m name service allocated st).2
  | .removeService name => some (RemoveService name st).2
  | .getService c name => some (GetService m c name st).2
  | .listServices _ names => if names.Perm st.names then some st else none

end Step

/-! ### What the clients should see -/

/-- The object of the latest registration of each name that is not removed. -/
abbrev Directory (Object : Type) := CarString → Option Object

variable (m : Marshalling Object Binder)

/-- The name that a call registers or removes. A registration counts if it has a name and an object
that can be marshalled, and the service manager has memory for it. -/
def registers : Call Client Object → Option (CarString × Option Object)
  | .addService name (some service) true =>
    if IsNullOrEmpty name then none
    else match m.marshal service with
      | .error _ => none
      | .ok _ => some (name, some service)
  | .removeService name => some (name, none)
  | _ => none

namespace Directory

def call (d : Directory Object) (a : Call Client Object) : Directory Object :=
  (registers m a).elim d fun r => Function.update d r.1 r.2

def after (calls : List (Call Client Object)) : Directory Object :=
  calls.foldl (call m) fun _ => none

/-- The names in the directory. -/
def Lists (d : Directory Object) (names : List CString) : Prop :=
  names.Nodup ∧ ∀ s, s ∈ names ↔ (d (some s)).isSome = true

end Directory

/-- The call gives what the directory has. -/
def Right [DecidableEq Client] [DecidableEq Binder] (P : ReplyParcel) (d : Directory Object)
    (st : Network Client Object Binder) : Call Client Object → Prop
  | .getService c name => (GetService m c name st).1.2 = d name
  | .listServices _ names => ∃ registered, d.Lists registered ∧
      ((ListServices P names).map ElString.data).Perm (registered.map CString.terminated)
  | _ => True

/-- The condition: no name is registered or removed that a client has kept another object for, and
the services are listed when there are none. -/
def Current (st : Network Client Object Binder) : Call Client Object → Prop
  | .listServices _ _ => st.names = []
  | a => ∀ r, registers m a = some r → ∀ c o, st.mServiceCache c r.1 = some o → r.2 = some o

/-! ### Directories -/

section Directories

variable {d : Directory Object} {names : List CString}

theorem lists_addName (h : d.Lists names) (s : CString) (o : Object) :
    Directory.Lists (Function.update d (some s) (some o)) (addName (some s) names) := by
  obtain ⟨hnodup, hmem⟩ := h
  have hother : ∀ s', s' ≠ s → Function.update d (some s) (some o) (some s') = d (some s') :=
    fun s' hne => Function.update_of_ne (fun heq => hne (Option.some.inj heq)) _ _
  change (if s ∈ names then names else names ++ [s]).Nodup ∧
    ∀ s', s' ∈ (if s ∈ names then names else names ++ [s]) ↔ _
  by_cases hs : s ∈ names
  · rw [if_pos hs]
    refine ⟨hnodup, fun s' => ?_⟩
    by_cases heq : s' = s
    · rw [heq, Function.update_self]
      exact iff_of_true hs rfl
    · rw [hother s' heq]
      exact hmem s'
  · rw [if_neg hs]
    refine ⟨List.nodup_append.mpr ⟨hnodup, List.nodup_singleton s, ?_⟩, fun s' => ?_⟩
    · intro a ha b hb heq
      rw [List.mem_singleton.mp hb] at heq
      exact hs (heq ▸ ha)
    · rw [List.mem_append, List.mem_singleton]
      by_cases heq : s' = s
      · rw [heq, Function.update_self]
        exact iff_of_true (.inr rfl) rfl
      · rw [hother s' heq]
        exact (or_iff_left heq).trans (hmem s')

theorem lists_eraseName (h : d.Lists names) (name : CarString) :
    Directory.Lists (Function.update d name none) (eraseName name names) := by
  obtain ⟨hnodup, hmem⟩ := h
  rcases name with _ | s
  · refine ⟨hnodup, fun s' => ?_⟩
    rw [Function.update_of_ne (by exact nofun)]
    exact hmem s'
  · refine ⟨hnodup.erase s, fun s' => ?_⟩
    change s' ∈ names.erase s ↔ _
    rw [hnodup.mem_erase_iff]
    by_cases heq : s' = s
    · rw [heq, Function.update_self]
      exact iff_of_false (fun hs => hs.1 rfl) nofun
    · rw [Function.update_of_ne fun h => heq (Option.some.inj h)]
      exact (and_iff_right heq).trans (hmem s')

end Directories

/-! ### What a call keeps -/

/-- The table of the service manager has the packs of the objects in the directory, and what clients
have kept are such objects. -/
structure Directed (d : Directory Object) (st : Network Client Object Binder) : Prop where
  table : ∀ name, st.manager.mServices name = (d name).bind fun o => (m.marshal o).toOption
  marshalled : ∀ name o, d name = some o → ∃ ip, m.marshal o = .ok ip
  unnamed : ∀ name, IsNullOrEmpty name = true → d name = none
  names : d.Lists st.names
  kept : ∀ c name o, st.mServiceCache c name = some o → d name = some o

theorem directed_init : Directed m (fun _ => none) ({} : Network Client Object Binder) where
  table := fun _ => rfl
  marshalled := fun _ _ h => nomatch h
  unnamed := fun _ _ => rfl
  names := ⟨List.nodup_nil, fun _ => iff_of_false List.not_mem_nil nofun⟩
  kept := fun _ _ _ h => nomatch h

section Steps

variable {m} {P : ReplyParcel} {d : Directory Object} {st st' : Network Client Object Binder}
  {a : Call Client Object}

/-- A name that is registered or removed. -/
theorem Directed.update {name : CarString} {o : Option Object} {manager : ServiceManager Binder}
    {names : List CString} (h : Directed m d st)
    (hservices : manager.mServices = Function.update st.manager.mServices name
      (o.bind fun o => (m.marshal o).toOption))
    (hobject : ∀ o', o = some o' → IsNullOrEmpty name = false ∧ ∃ ip, m.marshal o' = .ok ip)
    (hnames : Directory.Lists (Function.update d name o) names)
    (hkept : ∀ c o', st.mServiceCache c name = some o' → o = some o') :
    Directed m (Function.update d name o) { st with manager := manager, names := names } where
  table := by
    intro name'
    change manager.mServices name' = _
    rw [hservices, Function.update_apply, Function.update_apply]
    split_ifs
    · rfl
    · exact h.table name'
  marshalled := by
    intro name' o' ho'
    rw [Function.update_apply] at ho'
    split_ifs at ho'
    · exact (hobject o' ho').2
    · exact h.marshalled name' o' ho'
  unnamed := by
    intro name' hname'
    rw [Function.update_apply]
    split_ifs with heq
    · rcases ho : o with _ | o'
      · rfl
      · rw [heq, (hobject o' ho).1] at hname'
        exact nomatch hname'
    · exact h.unnamed name' hname'
  names := hnames
  kept := by
    intro c name' o' ho'
    rw [Function.update_apply]
    split_ifs with heq
    · exact hkept c o' (heq ▸ ho')
    · exact h.kept c name' o' ho'

/-- A call that neither registers nor removes. -/
theorem call_of_registers_eq_none (h : registers m a = none) : Directory.call m d a = d := by
  rw [Directory.call, h]
  rfl

variable [DecidableEq Binder]

theorem directed_addService (h : Directed m d st) {name : CarString} {service : Option Object}
    {allocated : Bool} (hcurrent : Current m st (.addService name service allocated)) :
    Directed m (d.call m (.addService name service allocated : Call Client Object))
      (AddService m name service allocated st).2 := by
  rcases service with _ | service
  · rw [call_of_registers_eq_none rfl]
    exact h
  unfold AddService
  by_cases hname : IsNullOrEmpty name = true
  · have hnone : registers m (.addService name (some service) allocated : Call Client Object) =
        none := by
      cases allocated
      · rfl
      · exact if_pos hname
    rw [call_of_registers_eq_none hnone]
    simp only [hname, if_true]
    exact h
  · simp only [hname]
    rcases hmarshal : m.marshal service with ec | ip
    · have hnone : registers m (.addService name (some service) allocated : Call Client Object) =
          none := by
        cases allocated
        · rfl
        · rw [registers, if_neg hname, hmarshal]
      rw [call_of_registers_eq_none hnone]
      exact h
    · rcases allocated
      · rw [call_of_registers_eq_none rfl]
        exact h
      · have hcall : d.call m (.addService name (some service) true : Call Client Object) =
            Function.update d name (some service) := by
          rw [Directory.call, registers, if_neg hname, hmarshal]
          rfl
        have hregisters : registers m (.addService name (some service) true : Call Client Object) =
            some (name, some service) := by
          rw [registers, if_neg hname, hmarshal]
        rw [hcall]
        refine h.update ?_ ?_ ?_ (hcurrent _ hregisters)
        · rw [Option.bind_some, hmarshal]
          exact ServiceManager.mServices_onTransact st.manager (.addService name ip true)
        · intro o' ho'
          exact ⟨Bool.eq_false_of_not_eq_true hname, ip, Option.some.inj ho' ▸ hmarshal⟩
        · rcases name with _ | s
          · exact absurd rfl hname
          · exact lists_addName h.names s service

variable [DecidableEq Client]

theorem directed_getService (h : Directed m d st) (c : Client) (name : CarString) :
    (GetService m c name st).1.2 = d name ∧ Directed m d (GetService m c name st).2 := by
  unfold GetService
  split_ifs with hname
  · exact ⟨(h.unnamed name hname).symm, h⟩
  rcases hkept : st.mServiceCache c name with _ | service
  · have hip : (st.manager.onTransact (.getService name)).1.ip = st.manager.mServices name := by
      change (st.manager.GetService name).ip = _
      unfold ServiceManager.GetService
      rcases st.manager.mServices name with _ | ip
      · rfl
      · rfl
    have htable := h.table name
    rcases hobject : d name with _ | service
    · rw [hobject] at htable
      simp only [hip, htable]
      exact ⟨rfl, h⟩
    · obtain ⟨ip, hmarshal⟩ := h.marshalled name service hobject
      rw [hobject, Option.bind_some, hmarshal] at htable
      simp only [hip, htable, Except.toOption, m.unmarshal_marshal service ip hmarshal]
      refine ⟨trivial, h.table, h.marshalled, h.unnamed, h.names, fun c' name' o ho => ?_⟩
      change Function.update st.mServiceCache c _ c' name' = some o at ho
      rw [Function.update_apply] at ho
      split_ifs at ho with hc
      · rw [Function.update_apply] at ho
        split_ifs at ho with hname'
        · rw [hname', hobject]
          exact ho
        · exact h.kept c name' o ho
      · exact h.kept c' name' o ho
  · exact ⟨(h.kept c name service hkept).symm, h⟩

/-- **One call**, that is made while the caches are current. -/
theorem directed_step (h : Directed m d st) (hcurrent : Current m st a)
    (hstep : step m st a = some st') : Directed m (d.call m a) st' := by
  rcases a with ⟨name, service, allocated⟩ | name | ⟨c, name⟩ | ⟨c, names⟩
  · obtain rfl := Option.some.inj hstep
    exact directed_addService h hcurrent
  · obtain rfl := Option.some.inj hstep
    refine h.update ?_ nofun (lists_eraseName h.names name) (hcurrent _ rfl)
    exact ServiceManager.mServices_RemoveService st.manager name
  · obtain rfl := Option.some.inj hstep
    exact (directed_getService h c name).2
  · obtain rfl := Option.some.inj (Option.ite_none_right_eq_some.mp hstep).2
    exact h

/-- **A run** of calls that are made while the caches are current. -/
theorem directed_run {calls : List (Call Client Object)} (h : Directed m d st)
    (hmeets : Trace.Meets (step m) (Current m) st calls)
    (hrun : Trace.run (step m) st calls = some st') :
    Directed m (calls.foldl (Directory.call m) d) st' := by
  induction calls generalizing st d with
  | nil => exact Option.some.inj hrun ▸ h
  | cons a calls ih =>
    obtain ⟨t, hstep, hrun⟩ := Trace.run_cons_eq_some.mp hrun
    exact ih (directed_step h hmeets.1 hstep) (hmeets.2 t hstep) hrun

/-- The list of the services when there are none. -/
theorem ListServices_nil : ListServices P [] = [] := by
  have hzero : (P.readInt32 (P.rewind (writeNames P []))).1 = 0 := P.readInt32_front 0 []
  change readNames P (P.readInt32 (P.rewind (writeNames P []))).1.toInt32.toInt.toNat _ = []
  rw [hzero]
  rfl

end Steps

variable [DecidableEq Client] [DecidableEq Binder]

/-- **Clients agree with the directory** in histories in which their caches stay current. -/
theorem client_agrees (m : Marshalling Object Binder) (P : ReplyParcel)
    {calls : List (Call Client Object)} {st : Network Client Object Binder}
    (hmeets : Trace.Meets (step m) (Current m) {} calls)
    (hrun : Trace.run (step m) {} calls = some st) {a : Call Client Object}
    (hcurrent : Current m st a) (hstep : (step m st a).isSome = true) :
    Right m P (Directory.after m calls) st a := by
  have h := directed_run (directed_init m) hmeets hrun
  rcases a with ⟨name, service, allocated⟩ | name | ⟨c, name⟩ | ⟨c, names⟩
  · trivial
  · trivial
  · exact (directed_getService h c name).1
  · obtain ⟨st', hst'⟩ := Option.isSome_iff_exists.mp hstep
    have hperm := (Option.ite_none_right_eq_some.mp hst').1
    rw [hcurrent] at hperm
    obtain rfl := hperm.eq_nil
    refine ⟨st.names, h.names, ?_⟩
    rw [ListServices_nil, hcurrent]
    exact .nil

/-! ### Two clients and their parcels -/

/-- Objects that are known by their binders. -/
private def boxes : Marshalling ℕ ℕ where
  marshal o := .ok ⟨⟨0, 0, 0, 0⟩, 0, o⟩
  unmarshal ip := .ok ip.m_pBinder
  unmarshal_marshal := by
    intro o ip h
    rw [← Except.ok.inj h]

/-- Filled up with zeros to words. -/
private def padded (bs : List UInt8) : List UInt8 :=
  bs ++ List.replicate ((4 - bs.length % 4) % 4) 0

private def readWord (p : List UInt8) : UInt32 × List UInt8 :=
  if 4 ≤ p.length then (wordOf (p.take 4), p.drop 4) else (0, p)

private def units : List UInt8 → List UInt16
  | a :: b :: bs => (a.toUInt16 ||| b.toUInt16 <<< 8) :: units bs
  | _ => []

/-- A parcel of bytes. A `String16` has its length in front and two bytes more behind. -/
private def byteParcel : ReplyParcel where
  Out := List UInt8
  In := List UInt8
  new := []
  writeInt32 v p := p ++ wordBytes v
  writeCString s p := p ++ padded s.terminated
  rewind p := p
  readInt32 := readWord
  readString16 p :=
    let r := readWord p
    let n := r.1.toInt32.toInt
    let size := (2 * (n.toNat + 1) + 3) / 4 * 4
    if 0 ≤ n ∧ size ≤ r.2.length then (units (r.2.take (2 * n.toNat)), r.2.drop size)
    else ([], r.2)
  readInt32_front := by
    intro v strings
    have hfold : ∀ p : List UInt8, ∃ rest,
        strings.foldl (fun p s => p ++ padded s.terminated) p = p ++ rest := by
      induction strings with
      | nil => exact fun p => ⟨[], (List.append_nil p).symm⟩
      | cons s strings ih =>
        intro p
        obtain ⟨rest, hrest⟩ := ih (p ++ padded s.terminated)
        exact ⟨padded s.terminated ++ rest, by rw [List.foldl_cons, hrest, List.append_assoc]⟩
    obtain ⟨rest, hrest⟩ := hfold ([] ++ wordBytes v)
    have hlength := length_wordBytes v
    change (readWord (strings.foldl _ ([] ++ wordBytes v))).1 = v
    rw [hrest, List.nil_append, readWord, if_pos (by rw [List.length_append]; omega),
      List.take_left' hlength, wordOf_wordBytes]

private def media : CarString := some ⟨[0x6D], zero_notMem_m⟩

theorem client_agrees_media :
    ∃ st, Trace.run (step boxes) ({} : Network Bool ℕ ℕ)
        [.addService media (some 1) true, .getService true media] = some st ∧
      Right boxes byteParcel (Directory.after boxes [.addService media (some 1) true,
        .getService true media]) st (.getService false media) := by
  have hmeets : Trace.Meets (step boxes) (Current boxes) ({} : Network Bool ℕ ℕ)
      [.addService media (some 1) true, .getService true media] :=
    .cons (fun _ _ _ _ => nofun) rfl (.cons (fun _ => nofun) rfl trivial)
  exact ⟨_, rfl, client_agrees boxes byteParcel hmeets rfl (fun _ => nofun) rfl⟩

/-- **A name that is registered again** still is the object before to a client that has got it, and
the name of a service is not read as it was written. -/
theorem not_client_agrees :
    (∃ st, Trace.run (step boxes) ({} : Network Bool ℕ ℕ) [.addService media (some 1) true,
        .getService true media, .addService media (some 2) true] = some st ∧
      ¬Right boxes byteParcel (Directory.after boxes [.addService media (some 1) true,
        .getService true media, .addService media (some 2) true]) st (.getService true media)) ∧
    ∃ st, Trace.run (step boxes) ({} : Network Bool ℕ ℕ)
        [.addService media (some 1) true] = some st ∧
      ¬Right boxes byteParcel (Directory.after boxes
        [(.addService media (some 1) true : Call Bool ℕ)]) st (.listServices true st.names) := by
  refine ⟨⟨_, rfl, ?_⟩, ⟨_, rfl, ?_⟩⟩
  · exact fun h => absurd (Option.some.inj h) (by decide)
  · rintro ⟨registered, ⟨-, hmem⟩, hperm⟩
    have hlisted := hperm.mem_iff.mpr (List.mem_map_of_mem
      ((hmem ⟨[0x6D], by decide⟩).mpr rfl))
    exact absurd hlisted (by decide +kernel)

end ElastosCar.CServiceManager
