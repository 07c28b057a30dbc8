import ElastosCar.Lib.Trace
import ElastosCar.Types

/-!
# The handles of loaded modules

`CObjInfoList::AcquireModuleInfo` opens the library of a module before it looks into its two tables.
The handle is closed at once if there is a module info, and is given to a new `CClsModule` if that
uses the metadata in the library. In every other case nobody closes it: if there is a class module
without a module info, if the metadata is compressed, so that the class module has a copy of it, and
if the call fails before the class module is made.

`Owned` says which calls do not lose the handle, and `handles_balanced` what then holds in every
run. -/

namespace ElastosCar.ModuleHandles

/-! ### The tables and the handles of one name -/

/-- `CClsModule`: whether it has a copy of the metadata, and whether it has a handle. -/
structure CClsModule where
  mAllocedClsMode : Bool
  mModule : Bool
  mRef : ℕ := 0
deriving DecidableEq, Repr

/-- What a name leads to in the table `mClsModule`. -/
inductive Slot
  | empty
  | alive (clsModule : CClsModule)
  | deleted
deriving DecidableEq, Repr

/-- All there is for one name: the references to its module info, the class module, the references
that other infos have to that, and how often the library was opened and closed. -/
structure Module where
  mModInfo : Option ℕ := none
  mClsModule : Slot := .empty
  others : ℕ := 0
  opened : ℕ := 0
  closed : ℕ := 0
deriving DecidableEq, Repr

/-- What goes well in a call. -/
structure Outcome where
  dlopen : Bool := true
  dlGetClassInfo : Bool := true
  relocFlattedCLS : Bool := true
  newClsModule : Bool := true
  putClsModule : Bool := true
  newModuleInfo : Bool := true
  putModuleInfo : Bool := true
deriving DecidableEq, Repr

/-- The constructor of `CClsModule`. -/
def CClsModule.new (allocedClsMod : Bool) : CClsModule where
  mAllocedClsMode := allocedClsMod
  mModule := !allocedClsMod

namespace Module

variable (e : Module)

def dlopen : Module := { e with opened := e.opened + 1 }

def dlclose : Module := { e with closed := e.closed + 1 }

/-- The destructor of `CClsModule`. -/
def deleteClsModule (clsModule : CClsModule) : Module :=
  if clsModule.mAllocedClsMode then e else if clsModule.mModule then e.dlclose else e

/-- `CClsModule::Release`. -/
def releaseClsModule : Module :=
  match e.mClsModule with
  | .alive clsModule =>
    if clsModule.mRef = 1 then
      { e.deleteClsModule clsModule with mClsModule := .empty }
    else { e with mClsModule := .alive { clsModule with mRef := clsModule.mRef - 1 } }
  | _ => e

/-- The end of `AcquireModuleInfo`, from `new CModuleInfo` on. -/
def newModuleInfo (o : Outcome) (isNew : Bool) (clsModule : CClsModule) : ECode × Module :=
  if !o.newModuleInfo then
    -- a class module that is new is deleted, and stays in the table
    (E_OUT_OF_MEMORY,
      if isNew then { e.deleteClsModule clsModule with mClsModule := .deleted } else e)
  else
    let e := { e with mClsModule := .alive { clsModule with mRef := clsModule.mRef + 1 } }
    if !o.putModuleInfo then (E_OUT_OF_MEMORY, e.releaseClsModule)
    else (NOERROR, { e with mModInfo := some 1 })

/-- `AcquireModuleInfo`; `none` if a class module is used that was deleted. -/
def AcquireModuleInfo (compress : Bool) (o : Outcome) : Option (ECode × Module) :=
  if !o.dlopen then some (E_FILE_NOT_FOUND, e)
  else
    let e := e.dlopen
    match e.mModInfo with
    | some mRef => some (NOERROR, { e.dlclose with mModInfo := some (mRef + 1) })
    | none =>
      match e.mClsModule with
      | .deleted => none
      | .alive clsModule => some (e.newModuleInfo o false clsModule)
      | .empty =>
        if !o.dlGetClassInfo then some (E_DOES_NOT_EXIST, e)
        else if compress && !o.relocFlattedCLS then some (E_OUT_OF_MEMORY, e)
        else if !o.newClsModule then some (E_OUT_OF_MEMORY, e)
        else
          let clsModule := CClsModule.new compress
          if !o.putClsModule then some (E_OUT_OF_MEMORY, e.deleteClsModule clsModule)
          else some ({ e with mClsModule := .alive clsModule }.newModuleInfo o true clsModule)

/-- `CModuleInfo::Release`. -/
def releaseModuleInfo : Option Module :=
  match e.mModInfo with
  | none => none
  | some mRef =>
    if mRef = 1 then some { e with mModInfo := none }.releaseClsModule
    else some { e with mModInfo := some (mRef - 1) }

/-- Another info of the module is made. -/
def retain : Option Module :=
  match e.mClsModule with
  | .alive clsModule => some { e with
      mClsModule := .alive { clsModule with mRef := clsModule.mRef + 1 }
      others := e.others + 1 }
  | _ => none

/-- Another info of the module is destroyed. -/
def releaseOther : Option Module :=
  if e.others = 0 then none else some { e with others := e.others - 1 }.releaseClsModule

end Module

/-! ### Runs -/

variable {Name : Type}

inductive Call (Name : Type)
  | acquire (name : Name) (o : Outcome)
  | retain (name : Name)
  | releaseModuleInfo (name : Name)
  | releaseOther (name : Name)
deriving Repr

def Call.name : Call Name → Name
  | acquire name _ | retain name | releaseModuleInfo name | releaseOther name => name

variable [DecidableEq Name] (compress : Name → Bool)

def perform (e : Module) : Call Name → Option Module
  | .acquire name o => (e.AcquireModuleInfo (compress name) o).map Prod.snd
  | .retain _ => e.retain
  | .releaseModuleInfo _ => e.releaseModuleInfo
  | .releaseOther _ => e.releaseOther

def step (s : Name → Module) (call : Call Name) : Option (Name → Module) :=
  (perform compress (s call.name) call).map (Function.update s call.name)

/-! ### What should hold -/

/-- No handle is closed twice; without an info each is closed; and while a class module uses the
metadata in the library, one is open. -/
structure Balanced (e : Module) : Prop where
  closed_le : e.closed ≤ e.opened
  idle : e.mModInfo = none → (∀ c, e.mClsModule ≠ .alive c) → e.others = 0 → e.opened = e.closed
  inPlace : ∀ c, e.mClsModule = .alive c → c.mAllocedClsMode = false → e.closed < e.opened

/-- The tables and the number of open handles are the same. -/
structure Same (e e' : Module) : Prop where
  mModInfo : e'.mModInfo = e.mModInfo
  mClsModule : e'.mClsModule = e.mClsModule
  handles : e'.opened + e.closed = e.opened + e'.closed

/-- A call of `AcquireModuleInfo` uses no deleted class module, and leaves no trace if it fails. -/
def FailsClean (s : Name → Module) : Call Name → Prop
  | .acquire name o => ∃ ec e', (s name).AcquireModuleInfo (compress name) o = some (ec, e') ∧
      (ec ≠ NOERROR → Same (s name) e')
  | _ => True

/-- The library is not opened; or there is a module info; or there is no class module either, one
with the metadata in the library is made, and then a module info. -/
def Owned (s : Name → Module) : Call Name → Prop
  | .acquire name o => o.dlopen = false ∨ (s name).mModInfo ≠ none ∨
      ((s name).mClsModule = .empty ∧ compress name = false ∧ o.dlGetClassInfo = true ∧
        o.newClsModule = true ∧ (o.putClsModule = true → o.newModuleInfo = true))
  | _ => True

/-! ### One call -/

/-- The references to the class module: that of the module info, and those of others. -/
def Module.refs (e : Module) : ℕ := (if e.mModInfo.isSome then 1 else 0) + e.others

/-- There is no class module, or one that has the only open handle and is referred to. -/
structure Good (e : Module) : Prop where
  modInfo : e.mModInfo ≠ some 0
  clsModule : (e.mClsModule = .empty ∧ e.refs = 0 ∧ e.opened = e.closed) ∨
    (e.mClsModule = .alive ⟨false, true, e.refs⟩ ∧ 0 < e.refs ∧ e.opened = e.closed + 1)

section

variable {e e' : Module} {o : Outcome} {n : ℕ}

theorem Good.balanced (h : Good e) : Balanced e := by
  rcases h.clsModule with ⟨hempty, hrefs, heq⟩ | ⟨halive, hrefs, heq⟩
  · refine ⟨by omega, fun _ _ _ => heq, fun c hc => ?_⟩
    rw [hempty] at hc
    exact nomatch hc
  · exact ⟨by omega, fun _ hnone _ => absurd halive (hnone _), fun _ _ _ => by omega⟩

theorem good_init : Good {} := ⟨nofun, .inl ⟨rfl, rfl, rfl⟩⟩

/-- The last reference takes the handle with it. -/
theorem good_releaseClsModule (hmodInfo : e.mModInfo ≠ some 0)
    (halive : e.mClsModule = .alive ⟨false, true, e.refs + 1⟩) (heq : e.opened = e.closed + 1) :
    Good e.releaseClsModule := by
  have hrelease : e.releaseClsModule =
      if e.refs + 1 = 1 then { e with closed := e.closed + 1, mClsModule := .empty }
      else { e with mClsModule := .alive ⟨false, true, e.refs⟩ } := by
    rw [Module.releaseClsModule, halive]
    rfl
  rw [hrelease]
  split_ifs with hlast
  · exact ⟨hmodInfo, .inl ⟨rfl, Nat.succ.inj hlast, heq⟩⟩
  · have hpos : 0 < e.refs := Nat.pos_of_ne_zero fun hzero => hlast (congrArg Nat.succ hzero)
    exact ⟨hmodInfo, .inr ⟨rfl, hpos, heq⟩⟩

theorem Good.retain (h : Good e) (hretain : e.retain = some e') : Good e' := by
  rw [Module.retain] at hretain
  rcases h.clsModule with ⟨hempty, -⟩ | ⟨halive, hrefs, heq⟩
  · rw [hempty] at hretain
    exact nomatch hretain
  · rw [halive] at hretain
    rw [← Option.some.inj hretain]
    exact ⟨h.modInfo, .inr ⟨rfl, Nat.succ_pos _, heq⟩⟩

theorem Good.releaseOther (h : Good e) (hrelease : e.releaseOther = some e') : Good e' := by
  rw [Module.releaseOther] at hrelease
  split_ifs at hrelease with hothers
  rw [← Option.some.inj hrelease]
  have hrefs : e.refs = { e with others := e.others - 1 }.refs + 1 := by
    change (if e.mModInfo.isSome then 1 else 0) + e.others =
      (if e.mModInfo.isSome then 1 else 0) + (e.others - 1) + 1
    omega
  rcases h.clsModule with ⟨-, hzero, -⟩ | ⟨halive, -, heq⟩
  · omega
  · exact good_releaseClsModule h.modInfo (hrefs ▸ halive) heq

theorem Good.releaseModuleInfo (h : Good e) (hrelease : e.releaseModuleInfo = some e') :
    Good e' := by
  rw [Module.releaseModuleInfo] at hrelease
  rcases hinfo : e.mModInfo with _ | mRef
  · rw [hinfo] at hrelease
    exact nomatch hrelease
  have hsome : e.refs = 1 + e.others := by rw [Module.refs, hinfo, Option.isSome_some, if_pos rfl]
  rcases h.clsModule with ⟨-, hzero, -⟩ | ⟨halive, hpos, heq⟩
  · omega
  rw [hinfo] at hrelease
  simp only at hrelease
  split_ifs at hrelease with hlast
  · rw [← Option.some.inj hrelease]
    have hrefs : e.refs = { e with mModInfo := none }.refs + 1 := by
      rw [hsome]
      change 1 + e.others = 0 + e.others + 1
      omega
    exact good_releaseClsModule nofun (hrefs ▸ halive) heq
  · rw [← Option.some.inj hrelease]
    have hmodInfo := h.modInfo
    rw [hinfo] at hmodInfo
    refine ⟨fun hzero => ?_, .inr ⟨?_, ?_, heq⟩⟩
    · have hsub := Option.some.inj hzero
      have hne : mRef ≠ 0 := fun hz => hmodInfo (congrArg some hz)
      omega
    · change e.mClsModule = .alive ⟨false, true, 1 + e.others⟩
      rw [halive, hsome]
    · change 0 < 1 + e.others
      omega

/-- **A call that does not lose its handle.** -/
theorem Good.acquireModuleInfo (h : Good e) {compress : Bool}
    (howned : o.dlopen = false ∨ e.mModInfo ≠ none ∨
      (e.mClsModule = .empty ∧ compress = false ∧ o.dlGetClassInfo = true ∧
        o.newClsModule = true ∧ (o.putClsModule = true → o.newModuleInfo = true))) :
    ∃ ec e', e.AcquireModuleInfo compress o = some (ec, e') ∧ Good e' ∧
      (ec ≠ NOERROR → Same e e') := by
  rcases hopen : o.dlopen with _ | _
  · refine ⟨E_FILE_NOT_FOUND, e, ?_, h, fun _ => ⟨rfl, rfl, rfl⟩⟩
    simp only [Module.AcquireModuleInfo, hopen, Bool.not_false, if_true]
  rcases hinfo : e.mModInfo with _ | mRef
  · obtain ⟨hempty, rfl, hclass, hnew, hput⟩ :=
      (howned.resolve_left (by rw [hopen]; decide)).resolve_left fun hne => hne hinfo
    obtain ⟨hrefs, heq⟩ : e.refs = 0 ∧ e.opened = e.closed := by
      rcases h.clsModule with ⟨-, hrefs, heq⟩ | ⟨halive, -⟩
      · exact ⟨hrefs, heq⟩
      · exact nomatch hempty.symm.trans halive
    -- the library is closed again: nothing is left of the call
    have hfails : Good { e with opened := e.opened + 1, closed := e.closed + 1 } ∧
        Same e { e with opened := e.opened + 1, closed := e.closed + 1 } :=
      ⟨⟨h.modInfo, .inl ⟨hempty, hrefs, congrArg Nat.succ heq⟩⟩, rfl, rfl, by
        change e.opened + 1 + e.closed = e.opened + (e.closed + 1)
        omega⟩
    rcases hputCls : o.putClsModule with _ | _
    · refine ⟨E_OUT_OF_MEMORY, _, ?_, hfails.1, fun _ => hfails.2⟩
      simp only [Module.AcquireModuleInfo, Module.dlopen, Module.deleteClsModule, Module.dlclose,
        CClsModule.new, hopen, hinfo, hempty, hclass, hnew, hputCls, Bool.not_true, Bool.not_false,
        Bool.false_and, Bool.false_eq_true, if_false, if_true]
    · have hnewInfo := hput hputCls
      rcases hputInfo : o.putModuleInfo with _ | _
      · refine ⟨E_OUT_OF_MEMORY, _, ?_, hfails.1, fun _ => hfails.2⟩
        simp only [Module.AcquireModuleInfo, Module.newModuleInfo, Module.dlopen,
          Module.releaseClsModule, Module.deleteClsModule, Module.dlclose, CClsModule.new, hopen,
          hinfo, hempty, hclass, hnew, hputCls, hnewInfo, hputInfo, Bool.not_true, Bool.not_false,
          Bool.false_and, Bool.false_eq_true, if_false, if_true, Nat.zero_add]
      · refine ⟨NOERROR, { e with
          mModInfo := some 1, mClsModule := .alive ⟨false, true, 1⟩, opened := e.opened + 1 }, ?_,
          ⟨nofun, .inr ⟨?_, ?_, congrArg Nat.succ heq⟩⟩, fun hne => absurd rfl hne⟩
        · simp only [Module.AcquireModuleInfo, Module.newModuleInfo, Module.dlopen, CClsModule.new,
            hopen, hinfo, hempty, hclass, hnew, hputCls, hnewInfo, hputInfo, Bool.not_true,
            Bool.not_false, Bool.false_and, Bool.false_eq_true, if_false, Nat.zero_add]
        · have hothers : e.others = 0 := by
            rw [Module.refs] at hrefs
            omega
          change Slot.alive ⟨false, true, 1⟩ = .alive ⟨false, true, 1 + e.others⟩
          rw [hothers]
        · change 0 < 1 + e.others
          omega
  · refine ⟨NOERROR, { e with
      mModInfo := some (mRef + 1), opened := e.opened + 1, closed := e.closed + 1 }, ?_,
      ⟨nofun, ?_⟩, fun hne => absurd rfl hne⟩
    · simp only [Module.AcquireModuleInfo, Module.dlopen, Module.dlclose, hopen, hinfo,
        Bool.not_true, Bool.false_eq_true, if_false]
    · have hrefs : Module.refs { e with
          mModInfo := some (mRef + 1), opened := e.opened + 1, closed := e.closed + 1 } =
            e.refs := by
        rw [Module.refs, Module.refs, hinfo]
        rfl
      rw [hrefs]
      rcases h.clsModule with ⟨hempty, hzero, heq⟩ | ⟨halive, hpos, heq⟩
      · exact .inl ⟨hempty, hzero, congrArg Nat.succ heq⟩
      · exact .inr ⟨halive, hpos, congrArg Nat.succ heq⟩

end

/-! ### All runs -/

section

variable {Name : Type} [DecidableEq Name] {compress : Name → Bool} {s s' : Name → Module}

theorem good_step (h : ∀ name, Good (s name)) {call : Call Name} (howned : Owned compress s call)
    (hstep : step compress s call = some s') : ∀ name, Good (s' name) := by
  obtain ⟨e', hperform, rfl⟩ := Option.map_eq_some_iff.mp hstep
  intro name
  rw [Function.update_apply]
  split_ifs with hname
  · have hs := h call.name
    rcases call with ⟨name, o⟩ | name | name | name
    · obtain ⟨ec, e'', hacquire, hgood, -⟩ := hs.acquireModuleInfo howned
      rw [perform, hacquire] at hperform
      exact Option.some.inj hperform ▸ hgood
    · exact hs.retain hperform
    · exact hs.releaseModuleInfo hperform
    · exact hs.releaseOther hperform
  · exact h name

omit [DecidableEq Name] in
theorem Owned.failsClean (h : ∀ name, Good (s name)) {call : Call Name}
    (howned : Owned compress s call) : FailsClean compress s call := by
  rcases call with ⟨name, o⟩ | name | name | name
  · obtain ⟨ec, e', hacquire, -, hsame⟩ := (h name).acquireModuleInfo howned
    exact ⟨ec, e', hacquire, hsame⟩
  all_goals trivial

/-- **The handles of modules.** In every run whose calls do not lose the handle, the handles are
balanced in the state that is reached, and the calls that failed have left no trace. -/
theorem handles_balanced (calls : List (Call Name))
    (h : Trace.Meets (step compress) (Owned compress) (fun _ => {}) calls) :
    (∀ t, Trace.run (step compress) (fun _ => {}) calls = some t → ∀ name, Balanced (t name)) ∧
      Trace.Meets (step compress) (FailsClean compress) (fun _ => {}) calls := by
  have hinit : ∀ name : Name, Good ((fun _ => {} : Name → Module) name) := fun _ => good_init
  constructor
  · intro t hrun name
    have hgood := Trace.run_invariant (I := fun s : Name → Module => ∀ name, Good (s name))
      (fun s call s' hs howned hstep => good_step hs howned hstep) hinit h hrun
    exact (hgood name).balanced
  · exact Trace.Meets.imp_of_invariant (I := fun s : Name → Module => ∀ name, Good (s name))
      (fun s call hs howned => howned.failsClean hs)
      (fun s call s' hs howned hstep => good_step hs howned hstep) hinit h

end

/-- A library whose metadata is used in place: it is opened twice, and closed when the second
reference is released. -/
theorem handles_balanced_inPlace :
    (∀ t, Trace.run (step fun _ : Unit => false) (fun _ => {})
        [.acquire () {}, .acquire () {}, .releaseModuleInfo (), .releaseModuleInfo ()] = some t →
      ∀ name, Balanced (t name)) ∧
      Trace.Meets (step fun _ : Unit => false) (FailsClean fun _ => false) (fun _ => {})
        [.acquire () {}, .acquire () {}, .releaseModuleInfo (), .releaseModuleInfo ()] := by
  refine handles_balanced _ (.cons (.inr (.inr ⟨rfl, rfl, rfl, rfl, fun _ => rfl⟩)) rfl
    (.cons (.inr (.inl nofun)) rfl (.cons trivial rfl (.cons trivial rfl trivial))))

/-- **Compressed metadata**: the module info is released, and the library is still open. And a
library without metadata stays open after the call has failed. -/
theorem not_handles_balanced :
    (∃ t, Trace.run (step fun _ : Unit => true) (fun _ => {})
        [.acquire () {}, .releaseModuleInfo ()] = some t ∧ ¬Balanced (t ())) ∧
      ¬Trace.Meets (step fun _ : Unit => false) (FailsClean fun _ => false) (fun _ => {})
        [.acquire () { dlGetClassInfo := false }] := by
  refine ⟨⟨_, rfl, fun h => ?_⟩, fun h => ?_⟩
  · exact absurd (h.idle rfl (fun _ => nofun) rfl) (by decide)
  · obtain ⟨⟨ec, e', hacquire, hsame⟩, -⟩ := h
    obtain ⟨rfl, rfl⟩ := Prod.mk.inj (Option.some.inj hacquire)
    exact absurd (hsame (by decide)).handles (by decide)

end ElastosCar.ModuleHandles
