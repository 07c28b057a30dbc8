import ElastosCar.Rot.Import

/-!
# The export table and the life of a stub

`StdMarshalInterface` of `linux_rpc/imarshal.cpp` makes a stub for a local object, or finds the
one it has in the export table of `linux_rpc/rot.cpp`, and hands out a reference to it in an
`InterfacePack`. A remote proxy gives its reference back with a `RELEASE` request.

* A stub that is found again gains two references: one in `FindExportObject` and one in
  `StdMarshalInterface`. Only one is given back.
* The last `RELEASE` deletes the stub, and nothing takes its entry out of the table: the call of
  `UnregisterExportObject` is commented out.

So the count and the table are right only as long as neither happens, and `exportLifetime_of_meets`
shows that they are then.
-/

namespace ElastosCar

/-- `ExportObject`; the object and the stub are their numbers. -/
structure ExportObject where
  mNetAddress : CString
  mObject : ℕ
  mIStub : ℕ
deriving DecidableEq, Repr

/-- The export table and the stubs. -/
structure ExportState where
  /-- `s_hashExportObjects`, without the heads of the lists. -/
  table : Fin 24 → List ExportObject := fun _ => []
  /-- The stubs created so far are those below this number. -/
  created : ℕ := 0
  mRef : ℕ → ℤ := fun _ => 0
  destroyed : ℕ → Bool := fun _ => false
  /-- The references to a stub that were handed out in an `InterfacePack`. -/
  given : ℕ → ℕ := fun _ => 0
  /-- The `RELEASE` requests that a stub has processed. -/
  released : ℕ → ℕ := fun _ => 0

inductive ExportAction
  /-- `StdMarshalInterface` of a local object. `indexed` is whether `GetInterfaceIndex` finds the
  interface among those of the class, and `netAddress` the address that `S_CreateObject` binds
  to, `none` when it fails. -/
  | marshal (object : ℕ) (indexed : Bool) (netAddress : Option CString)
  /-- `OnTransact` of the stub, with a `RELEASE` request. -/
  | release (stub : ℕ)
  /-- `StdUnmarshalInterface`: the flag, and whether the object supports `ICustomMarshal`. -/
  | unmarshal (netAddress : CString) (coexisting custom : Bool)
deriving DecidableEq, Repr

namespace ExportState

/-- `ElLightRefBase::AddRef`. -/
def addRef (k : ℕ) (s : ExportState) : ExportState :=
  { s with mRef := Function.update s.mRef k (s.mRef k + 1) }

/-- `ElLightRefBase::Release`. -/
def decRef (k : ℕ) (s : ExportState) : ExportState :=
  { s with
    mRef := Function.update s.mRef k (s.mRef k - 1)
    destroyed := if s.mRef k - 1 = 0 then Function.update s.destroyed k true else s.destroyed }

/-- A reference is handed out. -/
def give (k : ℕ) (s : ExportState) : ExportState :=
  { s with given := Function.update s.given k (s.given k + 1) }

/-- `FindExportObject` of an object goes through all lists. -/
def findObject (s : ExportState) (o : ℕ) : Option ExportObject :=
  (List.finRange 24).findSome? fun i => (s.table i).find? fun e => e.mObject = o

/-- `FindExportObject` of an address. -/
def findAddress (s : ExportState) (a : CString) : Option ExportObject :=
  (s.table (rotHash a)).find? fun e => e.mNetAddress = a

/-- `S_CreateObject`: a stub without references, in the table. -/
def createObject (o : ℕ) (a : CString) (s : ExportState) : ExportState :=
  { s with
    table := Function.update s.table (rotHash a) (⟨a, o, s.created⟩ :: s.table (rotHash a))
    created := s.created + 1 }

/-- `StdMarshalInterface` of a local object. -/
def stdMarshalInterface (o : ℕ) (indexed : Bool) (netAddress : Option CString) (s : ExportState) :
    ExportState :=
  match s.findObject o with
  | some e =>
    let s := s.addRef e.mIStub
    if indexed then (s.addRef e.mIStub).give e.mIStub else s
  | none =>
    match netAddress with
    | none => s
    | some a =>
      let k := s.created
      let s := s.createObject o a
      if indexed then (s.addRef k).give k else s

/-- `StdUnmarshalInterface`, as far as the export table goes: the reference of the lookup is given
back in one of three cases. -/
def stdUnmarshalInterface (a : CString) (coexisting custom : Bool) (s : ExportState) :
    ExportState :=
  match s.findAddress a with
  | none => s
  | some e =>
    let s := s.addRef e.mIStub
    if coexisting || custom then s else s.decRef e.mIStub

/-- One operation. A `RELEASE` comes from a proxy that has not sent one. -/
def step (s : ExportState) : ExportAction → Option ExportState
  | .marshal o indexed a => some (s.stdMarshalInterface o indexed a)
  | .release k =>
    if s.released k < s.given k then
      some { s.decRef k with released := Function.update s.released k (s.released k + 1) }
    else none
  | .unmarshal a coexisting custom => some (s.stdUnmarshalInterface a coexisting custom)

/-- Every entry is of a stub that exists, the count of a stub is the number of references that
are out, and a stub is destroyed exactly when the last of them was given back. -/
structure Lifetime (s : ExportState) : Prop where
  table : ∀ i, ∀ e ∈ s.table i, s.destroyed e.mIStub = false
  count : ∀ k, s.destroyed k = false → s.mRef k = s.given k - s.released k
  destroyed : ∀ k, s.destroyed k = true ↔ 0 < s.given k ∧ s.released k = s.given k

/-- An object is not marshalled again, a `RELEASE` is not the last one, and a lookup that finds a
stub with references gives its own back. -/
def Keeps (s : ExportState) : ExportAction → Prop
  | .marshal o _ _ => s.findObject o = none
  | .release k => s.mRef k ≠ 1
  | .unmarshal a coexisting custom => ∀ e, s.findAddress a = some e →
    (coexisting || custom) = false ∧ s.mRef e.mIStub ≠ 0

/-- The invariant of the runs within the condition: no stub is destroyed. -/
structure Sound (s : ExportState) : Prop where
  alive : ∀ k, s.destroyed k = false
  count : ∀ k, s.mRef k = s.given k - s.released k
  out : ∀ k, s.given k = 0 ∨ s.released k < s.given k
  fresh : ∀ k, s.created ≤ k → s.mRef k = 0 ∧ s.given k = 0

theorem Sound.lifetime {s : ExportState} (h : s.Sound) : s.Lifetime where
  table _ _ _ := h.alive _
  count k _ := h.count k
  destroyed k := by
    rw [h.alive k]
    have := h.out k
    constructor
    · intro hf
      cases hf
    · omega

theorem sound_init : Sound {} := ⟨fun _ => rfl, fun _ => rfl, fun _ => .inl rfl, fun _ _ => ⟨rfl, rfl⟩⟩

section

variable {s : ExportState}

theorem Sound.createObject (hs : s.Sound) (o : ℕ) (a : CString) : (s.createObject o a).Sound :=
  ⟨hs.alive, hs.count, hs.out, fun k hk => hs.fresh k ((Nat.le_succ _).trans hk)⟩

/-- A reference that is counted and handed out. -/
theorem Sound.addRef_give (hs : s.Sound) {k : ℕ} (hk : k < s.created)
    (hout : s.released k ≤ s.given k) : ((s.addRef k).give k).Sound where
  alive := hs.alive
  count q := by
    change Function.update s.mRef k _ q
      = (Function.update s.given k (s.given k + 1) q : ℕ) - (s.released q : ℤ)
    have := hs.count q
    rcases eq_or_ne q k with rfl | hq
    · rw [Function.update_self, Function.update_self]
      omega
    · rwa [Function.update_of_ne hq, Function.update_of_ne hq]
  out q := by
    change Function.update s.given k (s.given k + 1) q = 0 ∨
      s.released q < Function.update s.given k (s.given k + 1) q
    rcases eq_or_ne q k with rfl | hq
    · rw [Function.update_self]
      omega
    · rw [Function.update_of_ne hq]
      exact hs.out q
  fresh q hq := by
    have hne : q ≠ k := (hk.trans_le hq).ne'
    change Function.update s.mRef k _ q = 0 ∧ Function.update s.given k _ q = 0
    rw [Function.update_of_ne hne, Function.update_of_ne hne]
    exact hs.fresh q hq

/-- Another reference is left. -/
theorem Sound.release (hs : s.Sound) {k : ℕ} (hlt : s.released k < s.given k)
    (hne : s.mRef k ≠ 1) :
    Sound { s.decRef k with released := Function.update s.released k (s.released k + 1) } where
  alive q := by
    change (if s.mRef k - 1 = 0 then _ else s.destroyed) q = false
    rw [if_neg (by omega)]
    exact hs.alive q
  count q := by
    change Function.update s.mRef k _ q = (s.given q : ℤ) - (Function.update s.released k _ q : ℕ)
    have := hs.count q
    rcases eq_or_ne q k with rfl | hq
    · rw [Function.update_self, Function.update_self]
      omega
    · rwa [Function.update_of_ne hq, Function.update_of_ne hq]
  out q := by
    change s.given q = 0 ∨ Function.update s.released k _ q < s.given q
    rcases eq_or_ne q k with rfl | hq
    · have := hs.count q
      rw [Function.update_self]
      omega
    · rw [Function.update_of_ne hq]
      exact hs.out q
  fresh q hq := by
    have hlt' : k < s.created := by
      by_contra hge
      have := (hs.fresh k (not_lt.mp hge)).2
      omega
    change Function.update s.mRef k _ q = 0 ∧ s.given q = 0
    rw [Function.update_of_ne (hlt'.trans_le hq).ne']
    exact hs.fresh q hq

/-- A lookup that gives its reference back changes nothing. -/
theorem decRef_addRef {k : ℕ} (h : s.mRef k ≠ 0) : (s.addRef k).decRef k = s := by
  have hself : (s.addRef k).mRef k = s.mRef k + 1 := Function.update_self ..
  rw [decRef, hself, if_neg (by omega), addRef]
  simp

/-- **One step** within the condition. -/
theorem Sound.step (hs : s.Sound) {a : ExportAction} {s' : ExportState} (hok : s.Keeps a)
    (h : s.step a = some s') : s'.Sound := by
  cases a with
  | marshal o indexed netAddress =>
    have hnone : s.findObject o = none := hok
    simp only [ExportState.step, stdMarshalInterface, hnone] at h
    cases netAddress with
    | none =>
      cases h
      exact hs
    | some a =>
      have hnew := hs.createObject o a
      have hfresh := hs.fresh s.created le_rfl
      cases indexed with
      | false =>
        cases h
        exact hnew
      | true =>
        cases h
        refine hnew.addRef_give (Nat.lt_succ_self _) ?_
        have := hs.count s.created
        change s.released s.created ≤ s.given s.created
        omega
  | release k =>
    rw [ExportState.step, Option.ite_none_right_eq_some] at h
    obtain ⟨hlt, h⟩ := h
    cases h
    exact hs.release hlt hok
  | unmarshal a coexisting custom =>
    rw [ExportState.step, stdUnmarshalInterface] at h
    cases hfind : s.findAddress a with
    | none =>
      rw [hfind] at h
      cases h
      exact hs
    | some e =>
      obtain ⟨hflag, hne⟩ := hok e hfind
      rw [hfind] at h
      simp only [hflag] at h
      cases h
      exact (decRef_addRef hne).symm ▸ hs

end

/-- **The life of a stub.** In every run in which no exported object is marshalled again, no
`RELEASE` is the last one and lookups give their references back, the table and the counts are
right. -/
theorem exportLifetime_of_meets (as : List ExportAction) (s : ExportState)
    (hok : Trace.Meets step Keeps {} as) (hrun : Trace.run step {} as = some s) : s.Lifetime :=
  (Trace.run_invariant (fun _ _ _ hs hok h => hs.step hok h) sound_init hok hrun).lifetime

/-- An object is marshalled, and its reference is given back. -/
def givenBack : List ExportAction :=
  [.marshal 0 true (some ImportState.anAddress), .release 0]

theorem not_exportLifetime_givenBack :
    ¬ ∀ (as : List ExportAction) (s : ExportState),
      Trace.run step {} as = some s → s.Lifetime := by
  intro h
  have hrun : ∃ s, Trace.run step {} givenBack = some s ∧ s.destroyed 0 = true ∧
      ⟨ImportState.anAddress, 0, 0⟩ ∈ s.table (rotHash ImportState.anAddress) :=
    ⟨_, rfl, rfl, by decide⟩
  obtain ⟨s, hs, hd, he⟩ := hrun
  have halive := (h givenBack s hs).table _ _ he
  rw [hd] at halive
  cases halive

/-- Two objects are marshalled, and one is looked up in the process of its stub. -/
def keptRun : List ExportAction :=
  [.marshal 0 true (some ImportState.anAddress), .marshal 1 true (some ⟨[0x32], by decide⟩),
    .unmarshal ImportState.anAddress false false]

theorem exportLifetime_of_meets_kept :
    ∃ s, Trace.run step {} keptRun = some s ∧ s.mRef 0 = 1 ∧ s.mRef 1 = 1 ∧ s.Lifetime := by
  refine ⟨_, rfl, rfl, rfl, exportLifetime_of_meets keptRun _ ?_ rfl⟩
  refine .cons rfl rfl (.cons rfl rfl (.cons ?_ rfl trivial))
  rintro e ⟨⟩
  exact ⟨rfl, by decide⟩

end ExportState

end ElastosCar
