import ElastosCar.Lib.Sharing
import ElastosCar.Lib.Trace
import ElastosCar.Strings.ElString

/-!
# The list of local modules

`AcquireClassObjectFromLocalModule` of `locmod.cpp` searches the list of loaded modules, unlocks it,
opens the library, asks it for the class object and locks the list again to insert the module; the
parts in between are steps of their own here, and the two functions that free modules may come
between any of them.

The second lock is not followed by a second search, so that two first uses of a module that overlap
insert it twice; and a module that is listed is always asked for `EIID_IClassObject`.

* `accounted_run`: a library is open as often as modules are listed and calls under way that hold
  it.
* `sound_iff`: the entries have distinct names, and the answers are those of the libraries, exactly
  in the runs that no such call occurs in.
-/

namespace ElastosCar.LocalModules

open Sharing

variable {Thread Object : Type}

/-! ### Libraries -/

/-- `DllGetClassObject`, of a class id and an interface id. -/
abbrev GetClassObject (Object : Type) := EMuid → EMuid → ECode × Option Object

/-- What `dlsym` finds in a library. -/
structure Library (Object : Type) where
  DllGetClassObject : Option (GetClassObject Object)
  DllCanUnloadNow : Bool

def EIID_IClassObject : EMuid := ⟨1, 0, 0x000000C0, 0x46000000⟩

def E_CLASS_NOT_AVAILABLE : ECode := 0x800F0000

def E_COMPONENT_CANNOT_UNLOAD_NOW : ECode := 0x80190000

def E_NOT_CAR_COMPONENT : ECode := 0x801A0000

def E_COMPONENT_NOT_LOADED : ECode := 0x801B0000

/-- The bytes of `"Elastos.Runtime.eco"`. -/
def runtimeUunm : List UInt8 :=
  [0x45, 0x6C, 0x61, 0x73, 0x74, 0x6F, 0x73, 0x2E, 0x52, 0x75, 0x6E, 0x74, 0x69, 0x6D, 0x65, 0x2E,
    0x65, 0x63, 0x6F]

def IsRuntimeUunm (uunm : CString) : Bool := uunm.chars = runtimeUunm

/-- `DllGetClassObject` of the runtime itself. -/
def runtimeGetClassObject : GetClassObject Object := fun _ _ => (E_CLASS_NOT_AVAILABLE, none)

/-! ### The list -/

structure LocalModule (Object : Type) where
  mUunm : CString
  mDllGetClassObjectFunc : GetClassObject Object
  /-- Whether `mDllCanUnloadNowFunc` is not `NULL`. -/
  mDllCanUnloadNowFunc : Bool
  mAskCount : ℕ := 0

/-- `LastIndexOf(const String&)`, of the characters of the two strings. -/
def LastIndexOf (chars subChars : List UInt32) : Option ℕ :=
  if chars.length < subChars.length then none
  else if subChars = [] then some chars.length
  else (List.range (chars.length - subChars.length + 1)).reverse.find? fun index =>
    subChars.isPrefixOf (chars.drop index)

/-- The test of `_CProcess_FreeUnusedModule`: the name occurs in `mUunm`, last at its beginning or
behind a `/`. -/
def IsNamed (env : Platform) (moduleName : ElString) (m : LocalModule Object) : Bool :=
  let mUunm := ElString.ofChars (some m.mUunm)
  match LastIndexOf (mUunm.GetCharsFrom env 0).1 (moduleName.GetCharsFrom env 0).1 with
  | none => false
  | some index => index = 0 ∨ mUunm.GetChar env ((index : ℤ) - 1) = 0x2F

/-- The number of times that each library is open. -/
abbrev Opens := CString → ℕ

def dlopen (uunm : CString) (opens : Opens) : Opens := Function.update opens uunm (opens uunm + 1)

def dlclose (uunm : CString) (opens : Opens) : Opens := Function.update opens uunm (opens uunm - 1)

/-- What `_CProcess_FreeUnusedModules` does with a module whose `DllCanUnloadNow` answers `ec`. -/
def LocalModule.asked (immediate : Bool) (ec : ECode) (m : LocalModule Object) :
    Option (LocalModule Object) :=
  if !m.mDllCanUnloadNowFunc then some m
  else if ec = NOERROR then
    let m := { m with mAskCount := m.mAskCount + 1 }
    if immediate || decide (2 < m.mAskCount) then none else some m
  else some { m with mAskCount := 0 }

/-- The loop of `_CProcess_FreeUnusedModules`; the `i`th module answers `answers i`. -/
def freeLoop (immediate : Bool) : (ℕ → ECode) → List (LocalModule Object) → Opens →
    List (LocalModule Object) × Opens
  | _, [], opens => ([], opens)
  | answers, m :: ms, opens =>
    match m.asked immediate (answers 0) with
    | none => freeLoop immediate (fun i => answers (i + 1)) ms (dlclose m.mUunm opens)
    | some m' =>
      let r := freeLoop immediate (fun i => answers (i + 1)) ms opens
      (m' :: r.1, r.2)

/-! ### The calls -/

/-- The arguments of `AcquireClassObjectFromLocalModule`, the class id in two parts. -/
structure Request where
  mClsid : EMuid
  mUunm : CString
  riid : EMuid
deriving DecidableEq, Repr

/-- Where a call of `AcquireClassObjectFromLocalModule` stands: the list has been searched, the
library is open, the new module is filled, and its `DllGetClassObject` has succeeded. -/
inductive Phase (Object : Type)
  | idle
  | searched (req : Request)
  | opened (req : Request)
  | filled (req : Request) (m : LocalModule Object)
  | made (req : Request) (m : LocalModule Object) (result : ECode × Option Object)

/-- The library that a call holds open. -/
def Phase.held : Phase Object → Option CString
  | .idle | .searched _ => none
  | .opened req | .filled req _ | .made req _ _ => some req.mUunm

/-- What a call returns: an error before a class object has been asked for, or the answer to that.
-/
abbrev Answer (Object : Type) := Except ECode (ECode × Option Object)

structure Process (Thread Object : Type) where
  g_LocModList : List (LocalModule Object) := []
  opens : Opens := fun _ => 0
  calls : Thread → Phase Object := fun _ => .idle
  /-- The calls that have returned. -/
  returned : List (Request × Answer Object) := []

inductive Action (Thread : Type)
  /-- From the call to the end of the search. -/
  | acquire (t : Thread) (req : Request)
  | dlopen (t : Thread) (found : Bool)
  /-- The two calls of `dlsym` and `new LocalModule`. -/
  | fill (t : Thread) (allocated : Bool)
  | getClassObject (t : Thread)
  /-- What is done under the second lock. -/
  | insert (t : Thread)
  | freeUnusedModule (moduleName : ElString) (answer : ECode)
  | freeUnusedModules (immediate : Bool) (answers : ℕ → ECode)

section Step

variable [DecidableEq Thread]

/-- The call of a thread goes on. -/
def goOn (t : Thread) (phase : Phase Object) (s : Process Thread Object) : Process Thread Object :=
  { s with calls := Function.update s.calls t phase }

/-- The call of a thread returns. -/
def finish (t : Thread) (req : Request) (answer : Answer Object) (s : Process Thread Object) :
    Process Thread Object :=
  { s with calls := Function.update s.calls t .idle, returned := (req, answer) :: s.returned }

/-- `ErrorExit`, with a library that is open. -/
def errorExit (t : Thread) (req : Request) (answer : Answer Object) (s : Process Thread Object) :
    Process Thread Object :=
  finish t req answer { s with opens := dlclose req.mUunm s.opens }

/-- The search for a name. -/
def search (uunm : CString) (ms : List (LocalModule Object)) : Option (LocalModule Object) :=
  ms.find? fun m => m.mUunm = uunm

/-- The module that is found is asked anew whether it may be unloaded. -/
def resetAskCount (uunm : CString) : List (LocalModule Object) → List (LocalModule Object)
  | [] => []
  | m :: ms =>
    if m.mUunm = uunm then { m with mAskCount := 0 } :: ms else m :: resetAskCount uunm ms

/-- The first lock of `AcquireClassObjectFromLocalModule`, and what follows if the name is that of
the runtime. -/
def acquire (t : Thread) (req : Request) (s : Process Thread Object) : Process Thread Object :=
  match search req.mUunm s.g_LocModList with
  | some m =>
    finish t req (.ok (m.mDllGetClassObjectFunc req.mClsid EIID_IClassObject))
      { s with g_LocModList := resetAskCount req.mUunm s.g_LocModList }
  | none =>
    if IsRuntimeUunm req.mUunm then
      finish t req (.ok (runtimeGetClassObject req.mClsid EIID_IClassObject)) s
    else goOn t (.searched req) s

variable (lib : CString → Library Object) (env : Platform)

/-- The new module, if its library has a `DllGetClassObject` and there is memory. -/
def fill (t : Thread) (req : Request) (allocated : Bool) (s : Process Thread Object) :
    Process Thread Object :=
  match (lib req.mUunm).DllGetClassObject with
  | none => errorExit t req (.error E_DOES_NOT_EXIST) s
  | some func =>
    if !allocated then errorExit t req (.error E_OUT_OF_MEMORY) s
    else goOn t (.filled req ⟨req.mUunm, func, (lib req.mUunm).DllCanUnloadNow, 0⟩) s

/-- The class object is asked for. -/
def getClassObject (t : Thread) (req : Request) (m : LocalModule Object)
    (s : Process Thread Object) : Process Thread Object :=
  let result := m.mDllGetClassObjectFunc req.mClsid req.riid
  if failed result.1 then errorExit t req (.ok result) s else goOn t (.made req m result) s

/-- `_CProcess_FreeUnusedModule`; the module it finds answers `answer`. -/
def _CProcess_FreeUnusedModule (moduleName : ElString) (answer : ECode)
    (s : Process Thread Object) : ECode × Process Thread Object :=
  if moduleName.IsNullOrEmpty then (E_INVALID_ARGUMENT, s)
  else match s.g_LocModList.find? (IsNamed env moduleName) with
    | none => (E_COMPONENT_NOT_LOADED, s)
    | some m =>
      if !m.mDllCanUnloadNowFunc then (E_NOT_CAR_COMPONENT, s)
      else if answer = NOERROR then
        (NOERROR, { s with
          g_LocModList := s.g_LocModList.eraseP (IsNamed env moduleName)
          opens := dlclose m.mUunm s.opens })
      else (E_COMPONENT_CANNOT_UNLOAD_NOW, s)

/-- `_CProcess_FreeUnusedModules`. -/
def _CProcess_FreeUnusedModules (immediate : Bool) (answers : ℕ → ECode)
    (s : Process Thread Object) : Process Thread Object :=
  let r := freeLoop immediate answers s.g_LocModList s.opens
  { s with g_LocModList := r.1, opens := r.2 }

def step (s : Process Thread Object) : Action Thread → Option (Process Thread Object)
  | .acquire t req =>
    match s.calls t with
    | .idle => some (acquire t req s)
    | _ => none
  | .dlopen t found =>
    match s.calls t with
    | .searched req => some <|
      if found then goOn t (.opened req) { s with opens := dlopen req.mUunm s.opens }
      else finish t req (.error E_FILE_NOT_FOUND) s
    | _ => none
  | .fill t allocated =>
    match s.calls t with
    | .opened req => some (fill lib t req allocated s)
    | _ => none
  | .getClassObject t =>
    match s.calls t with
    | .filled req m => some (getClassObject t req m s)
    | _ => none
  | .insert t =>
    match s.calls t with
    | .made req m result => some <|
      finish t req (.ok result) { s with g_LocModList := m :: s.g_LocModList }
    | _ => none
  | .freeUnusedModule moduleName answer =>
    some (_CProcess_FreeUnusedModule env moduleName answer s).2
  | .freeUnusedModules immediate answers => some (_CProcess_FreeUnusedModules immediate answers s)

end Step

/-! ### What should hold -/

/-- The `DllGetClassObject` of a module. -/
def classObjects (lib : CString → Library Object) (uunm : CString) :
    Option (GetClassObject Object) :=
  if IsRuntimeUunm uunm then some runtimeGetClassObject else (lib uunm).DllGetClassObject

/-- What a call has got from a module is what the module has for the class id and the interface id
of the call. -/
def Answered (lib : CString → Library Object) (req : Request) (answer : Answer Object) : Prop :=
  ∀ result, answer = .ok result →
    ∃ func, classObjects lib req.mUunm = some func ∧ result = func req.mClsid req.riid

/-- The names are distinct, the listed modules are open, and the calls are answered by the modules.
-/
structure Sound (lib : CString → Library Object) (s : Process Thread Object) : Prop where
  distinct : (s.g_LocModList.map LocalModule.mUunm).Nodup
  opened : ∀ m ∈ s.g_LocModList, 0 < s.opens m.mUunm
  answered : ∀ call ∈ s.returned, Answered lib call.1 call.2

/-- A module that is listed already has the same for the interface id as for `EIID_IClassObject`,
and a module is inserted only if none of its name has been inserted since the search. -/
def Spared (s : Process Thread Object) : Action Thread → Prop
  | .acquire t req => s.calls t = .idle → ∀ m, search req.mUunm s.g_LocModList = some m →
      m.mDllGetClassObjectFunc req.mClsid EIID_IClassObject =
        m.mDllGetClassObjectFunc req.mClsid req.riid
  | .insert t => ∀ req m result, s.calls t = .made req m result →
      search req.mUunm s.g_LocModList = none
  | _ => True

/-! ### What every run keeps -/

/-- A listed module, without what the freeing changes. -/
def LocalModule.key (m : LocalModule Object) : CString × GetClassObject Object :=
  (m.mUunm, m.mDllGetClassObjectFunc)

/-- The modules that are known to a call are what their libraries say. -/
def Phase.Good (lib : CString → Library Object) : Phase Object → Prop
  | .idle => True
  | .searched req | .opened req => IsRuntimeUunm req.mUunm = false
  | .filled req m => m.mUunm = req.mUunm ∧ classObjects lib m.mUunm = some m.mDllGetClassObjectFunc
  | .made req m result => m.mUunm = req.mUunm ∧
      classObjects lib m.mUunm = some m.mDllGetClassObjectFunc ∧
      result = m.mDllGetClassObjectFunc req.mClsid req.riid

/-- The number of the modules of a name. -/
def listed (ms : List (LocalModule Object)) (n : CString) : ℕ :=
  (ms.map LocalModule.mUunm).count n

/-- The libraries that the calls hold open. -/
def held (calls : Thread → Phase Object) (t : Thread) : Option CString := (calls t).held

/-- Every library is open once for each module that is listed and for each call that holds it. -/
structure Accounted [Fintype Thread] (lib : CString → Library Object) (s : Process Thread Object) :
    Prop where
  opens : ∀ n, s.opens n = holders (held s.calls) n + listed s.g_LocModList n
  fromLibrary : ∀ k ∈ s.g_LocModList.map LocalModule.key, classObjects lib k.1 = some k.2
  calls : ∀ t, (s.calls t).Good lib

section Lists

variable {ms : List (LocalModule Object)} {m : LocalModule Object} {uunm : CString}

theorem key_of_asked {immediate : Bool} {ec : ECode} {m' : LocalModule Object}
    (h : m.asked immediate ec = some m') : m'.key = m.key := by
  rw [LocalModule.asked] at h
  split_ifs at h
  · rw [Option.some.inj h]
  · dsimp only at h
    split_ifs at h
    rw [← Option.some.inj h]
    rfl
  · rw [← Option.some.inj h]
    rfl

theorem map_key_resetAskCount :
    (resetAskCount uunm ms).map LocalModule.key = ms.map LocalModule.key := by
  induction ms with
  | nil => rfl
  | cons m ms ih =>
    rw [resetAskCount]
    split_ifs
    · rfl
    · rw [List.map_cons, ih, List.map_cons]

theorem names_eq : ms.map LocalModule.mUunm = (ms.map LocalModule.key).map Prod.fst := by
  rw [List.map_map]
  rfl

theorem freeLoop_sublist (immediate : Bool) (answers : ℕ → ECode) (opens : Opens) :
    ((freeLoop immediate answers ms opens).1.map LocalModule.key).Sublist
      (ms.map LocalModule.key) := by
  induction ms generalizing answers opens with
  | nil => exact .slnil
  | cons m ms ih =>
    rw [freeLoop]
    rcases hasked : m.asked immediate (answers 0) with _ | m'
    · exact .cons _ (ih _ _)
    · change (m'.key :: _).Sublist (m.key :: _)
      rw [key_of_asked hasked]
      exact .cons_cons _ (ih _ _)

theorem listed_cons (m : LocalModule Object) (ms : List (LocalModule Object)) (n : CString) :
    listed (m :: ms) n = listed ms n + if m.mUunm = n then 1 else 0 := by
  simp only [listed, List.map_cons, List.count_cons, beq_iff_eq]

theorem listed_pos (h : m ∈ ms) : 0 < listed ms m.mUunm :=
  List.count_pos_iff.mpr (List.mem_map_of_mem h)

/-- The list without the first module that is looked for. -/
theorem listed_of_find? {p : LocalModule Object → Bool} (h : ms.find? p = some m) (n : CString) :
    listed ms n = listed (ms.eraseP p) n + if m.mUunm = n then 1 else 0 := by
  obtain ⟨hm, before, after, rfl, hbefore⟩ := List.find?_eq_some_iff_append.mp h
  have hnone : ∀ m ∈ before, ¬p m = true := fun m hm => by simpa using hbefore m hm
  rw [List.eraseP_append_right _ hnone, List.eraseP_cons_of_pos hm]
  simp only [listed, List.map_append, List.count_append, List.map_cons, List.count_cons, beq_iff_eq]
  omega

theorem dlopen_apply (uunm : CString) (opens : Opens) (n : CString) :
    dlopen uunm opens n = opens n + if uunm = n then 1 else 0 := by
  rw [dlopen, Function.update_apply]
  split_ifs with hn hn' hn'
  · rw [hn]
  · exact absurd hn.symm hn'
  · exact absurd hn'.symm hn
  · rfl

theorem dlclose_apply (uunm : CString) (opens : Opens) (n : CString) :
    dlclose uunm opens n = opens n - if uunm = n then 1 else 0 := by
  rw [dlclose, Function.update_apply]
  split_ifs with hn hn' hn'
  · rw [hn]
  · exact absurd hn.symm hn'
  · exact absurd hn'.symm hn
  · rfl

/-- What is closed is what is not listed any more. -/
theorem freeLoop_opens (immediate : Bool) (answers : ℕ → ECode) (opens : Opens)
    (h : ∀ n, listed ms n ≤ opens n) (n : CString) :
    (freeLoop immediate answers ms opens).2 n + listed ms n =
      opens n + listed (freeLoop immediate answers ms opens).1 n := by
  induction ms generalizing answers opens with
  | nil => rfl
  | cons m ms ih =>
    simp only [listed_cons] at h
    rw [freeLoop, listed_cons]
    rcases hasked : m.asked immediate (answers 0) with _ | m'
    · have hrest := ih (fun i => answers (i + 1)) (dlclose m.mUunm opens) fun n => by
        rw [dlclose_apply]
        exact Nat.le_sub_of_add_le (h n)
      have hn := h n
      rw [dlclose_apply] at hrest
      dsimp only
      omega
    · have hrest := ih (fun i => answers (i + 1)) opens
        fun n => le_trans (Nat.le_add_right _ _) (h n)
      have hname : m'.mUunm = m.mUunm := congrArg Prod.fst (key_of_asked hasked)
      dsimp only
      rw [listed_cons, hname]
      omega

end Lists

/-! ### Steps -/

section Accounted

variable [Fintype Thread] [DecidableEq Thread] {lib : CString → Library Object} {env : Platform}
  {s s' : Process Thread Object} {t : Thread} {req : Request}

omit [Fintype Thread] in
theorem held_update (calls : Thread → Phase Object) (t : Thread) (phase : Phase Object) :
    held (Function.update calls t phase) = Function.update (held calls) t phase.held := by
  funext u
  rw [held, Function.update_apply, Function.update_apply]
  split_ifs <;> rfl

/-- A step of one call. -/
theorem Accounted.call (h : Accounted lib s) {phase : Phase Object}
    {ms : List (LocalModule Object)} {opens : Opens} {returned : List (Request × Answer Object)}
    (hopens : ∀ n,
      opens n + (if (s.calls t).held = some n then 1 else 0) + listed s.g_LocModList n =
        s.opens n + (if phase.held = some n then 1 else 0) + listed ms n)
    (hms : ∀ k ∈ ms.map LocalModule.key, classObjects lib k.1 = some k.2)
    (hphase : phase.Good lib) :
    Accounted lib ⟨ms, opens, Function.update s.calls t phase, returned⟩ where
  opens n := by
    have hn := h.opens n
    have hupdate := holders_update (held s.calls) t phase.held n
    have hopens := hopens n
    dsimp only
    rw [held_update]
    change _ + (if (s.calls t).held = some n then 1 else 0) = _ at hupdate
    omega
  fromLibrary := hms
  calls u := by
    dsimp only
    rw [Function.update_apply]
    split_ifs
    · exact hphase
    · exact h.calls u

omit [DecidableEq Thread] in
/-- A step that leaves the calls as they are. -/
theorem Accounted.free (h : Accounted lib s) {ms : List (LocalModule Object)} {opens : Opens}
    (hopens : ∀ n, opens n + listed s.g_LocModList n = s.opens n + listed ms n)
    (hms : (ms.map LocalModule.key).Sublist (s.g_LocModList.map LocalModule.key)) :
    Accounted lib { s with g_LocModList := ms, opens := opens } where
  opens n := by
    have hn := h.opens n
    have hopens := hopens n
    dsimp only
    omega
  fromLibrary k hk := h.fromLibrary k (hms.subset hk)
  calls := h.calls

/-- A call returns that holds no library. -/
theorem Accounted.finish (h : Accounted lib s) (hheld : (s.calls t).held = none)
    (answer : Answer Object) : Accounted lib (finish t req answer s) := by
  refine h.call (fun n => ?_) h.fromLibrary trivial
  rw [hheld]
  rfl

/-- A call that fails closes the library that it holds. -/
theorem Accounted.errorExit (h : Accounted lib s) (hheld : (s.calls t).held = some req.mUunm)
    (answer : Answer Object) : Accounted lib (errorExit t req answer s) := by
  refine h.call (fun n => ?_) h.fromLibrary trivial
  have hpos : 0 < holders (held s.calls) req.mUunm := holders_pos hheld
  have hopens := h.opens req.mUunm
  dsimp only
  rw [hheld, dlclose_apply]
  simp only [Option.some.injEq, Phase.held, reduceCtorEq, if_false]
  split_ifs with hn
  · rw [← hn]
    omega
  · rfl

/-- A call goes on with the library that it holds. -/
theorem Accounted.goOn (h : Accounted lib s) {phase : Phase Object}
    (hheld : (s.calls t).held = phase.held) (hphase : phase.Good lib) :
    Accounted lib (goOn t phase s) := by
  refine h.call (fun n => ?_) h.fromLibrary hphase
  rw [hheld]

theorem accounted_acquire (req : Request) (h : Accounted lib s) (hidle : s.calls t = .idle) :
    Accounted lib (acquire t req s) := by
  have hheld : (s.calls t).held = none := by
    rw [hidle]
    rfl
  rw [acquire]
  rcases search req.mUunm s.g_LocModList with _ | m
  · dsimp only
    split_ifs with hruntime
    · exact h.finish hheld _
    · exact h.goOn hheld (eq_false_of_ne_true hruntime)
  · refine h.call (fun n => ?_) ?_ trivial
    · rw [hheld, listed, listed, names_eq, names_eq, map_key_resetAskCount]
      rfl
    · rw [map_key_resetAskCount]
      exact h.fromLibrary

theorem accounted_fill (h : Accounted lib s) (hcall : s.calls t = .opened req) (allocated : Bool) :
    Accounted lib (fill lib t req allocated s) := by
  have hheld : (s.calls t).held = some req.mUunm := congrArg Phase.held hcall
  rw [fill]
  rcases hfunc : (lib req.mUunm).DllGetClassObject with _ | func
  · exact h.errorExit hheld _
  dsimp only
  split_ifs
  · exact h.errorExit hheld _
  · have hruntime := h.calls t
    rw [hcall] at hruntime
    refine h.goOn hheld ⟨rfl, ?_⟩
    rw [classObjects, if_neg (Bool.eq_false_iff.mp hruntime), hfunc]

theorem accounted_getClassObject {m : LocalModule Object} (h : Accounted lib s)
    (hcall : s.calls t = .filled req m) : Accounted lib (getClassObject t req m s) := by
  have hheld : (s.calls t).held = some req.mUunm := congrArg Phase.held hcall
  have hgood := h.calls t
  rw [hcall] at hgood
  rw [getClassObject]
  split_ifs
  · exact h.errorExit hheld _
  · exact h.goOn hheld ⟨hgood.1, hgood.2, rfl⟩

/-- The library that the call has held is now that of the listed module. -/
theorem accounted_insert {m : LocalModule Object} {result : ECode × Option Object}
    (h : Accounted lib s) (hcall : s.calls t = .made req m result) :
    Accounted lib
      (finish t req (.ok result) { s with g_LocModList := m :: s.g_LocModList }) := by
  have hgood := h.calls t
  rw [hcall] at hgood
  obtain ⟨hname, hfunc, -⟩ := hgood
  refine h.call (fun n => ?_) ?_ trivial
  · dsimp only
    rw [listed_cons, hcall, hname]
    simp only [Phase.held, Option.some.injEq, reduceCtorEq, if_false]
    omega
  · intro k hk
    rcases List.mem_cons.mp hk with rfl | hk
    · exact hfunc
    · exact h.fromLibrary k hk

omit [DecidableEq Thread] in
theorem accounted_freeUnusedModule (h : Accounted lib s) (moduleName : ElString) (ec : ECode) :
    Accounted lib (_CProcess_FreeUnusedModule env moduleName ec s).2 := by
  rw [_CProcess_FreeUnusedModule]
  by_cases hnull : moduleName.IsNullOrEmpty = true
  · rw [if_pos hnull]
    exact h
  rw [if_neg hnull]
  rcases hfind : s.g_LocModList.find? (IsNamed env moduleName) with _ | m
  · exact h
  dsimp only
  split_ifs
  · exact h
  · refine h.free (fun n => ?_) ((List.eraseP_sublist ..).map _)
    have hpos : 0 < s.opens m.mUunm := by
      rw [h.opens]
      exact Nat.add_pos_right _ (listed_pos (List.mem_of_find?_eq_some hfind))
    rw [dlclose_apply, listed_of_find? hfind]
    split_ifs with hn
    · rw [← hn]
      omega
    · rfl
  · exact h

omit [DecidableEq Thread] in
theorem accounted_freeUnusedModules (h : Accounted lib s) (immediate : Bool)
    (answers : ℕ → ECode) : Accounted lib (_CProcess_FreeUnusedModules immediate answers s) := by
  refine h.free (freeLoop_opens immediate answers _ fun n => ?_) (freeLoop_sublist ..)
  rw [h.opens]
  exact Nat.le_add_left _ _

/-- **Every step keeps the books.** -/
theorem accounted_step {a : Action Thread} (h : Accounted lib s)
    (hstep : step lib env s a = some s') : Accounted lib s' := by
  cases a with
  | acquire t req =>
    rcases hcall : s.calls t <;> simp only [step, hcall, reduceCtorEq, Option.some.injEq] at hstep
    rw [← hstep]
    exact accounted_acquire _ h hcall
  | dlopen t found =>
    rcases hcall : s.calls t with _ | req | _ | _ | _ <;>
      simp only [step, hcall, reduceCtorEq, Option.some.injEq] at hstep
    have hgood := h.calls t
    rw [hcall] at hgood
    rw [← hstep]
    split_ifs
    · refine h.call (fun n => ?_) h.fromLibrary hgood
      dsimp only
      rw [dlopen_apply, hcall]
      simp only [Phase.held, Option.some.injEq, reduceCtorEq, if_false]
      omega
    · exact h.finish (congrArg Phase.held hcall) _
  | fill t allocated =>
    rcases hcall : s.calls t with _ | _ | req | _ | _ <;>
      simp only [step, hcall, reduceCtorEq, Option.some.injEq] at hstep
    have hgood := h.calls t
    rw [hcall] at hgood
    rw [← hstep]
    exact accounted_fill h hcall allocated
  | getClassObject t =>
    rcases hcall : s.calls t with _ | _ | _ | ⟨req, m⟩ | _ <;>
      simp only [step, hcall, reduceCtorEq, Option.some.injEq] at hstep
    rw [← hstep]
    exact accounted_getClassObject h hcall
  | insert t =>
    rcases hcall : s.calls t with _ | _ | _ | _ | ⟨req, m, result⟩ <;>
      simp only [step, hcall, reduceCtorEq, Option.some.injEq] at hstep
    rw [← hstep]
    exact accounted_insert h hcall
  | freeUnusedModule moduleName ec =>
    rw [← Option.some.inj hstep]
    exact accounted_freeUnusedModule h moduleName ec
  | freeUnusedModules immediate answers =>
    rw [← Option.some.inj hstep]
    exact accounted_freeUnusedModules h immediate answers

omit [DecidableEq Thread] in
theorem Accounted.opened (h : Accounted lib s) : ∀ m ∈ s.g_LocModList, 0 < s.opens m.mUunm := by
  intro m hm
  rw [h.opens]
  exact Nat.add_pos_right _ (listed_pos hm)

/-! ### Soundness -/

theorem search_eq_none_iff {ms : List (LocalModule Object)} {uunm : CString} :
    search uunm ms = none ↔ uunm ∉ ms.map LocalModule.mUunm := by
  simp only [search, List.find?_eq_none, decide_eq_true_eq, List.mem_map, not_exists, not_and]

/-- The names stay distinct where nothing is inserted. -/
theorem distinct_of_sublist {ms ms' : List (LocalModule Object)}
    (h : (ms'.map LocalModule.key).Sublist (ms.map LocalModule.key))
    (hms : (ms.map LocalModule.mUunm).Nodup) : (ms'.map LocalModule.mUunm).Nodup := by
  rw [names_eq] at hms ⊢
  exact hms.sublist (h.map Prod.fst)

/-- An error from before the class object is asked for. -/
theorem answered_error (req : Request) (ec : ECode) : Answered lib req (.error ec) := nofun

theorem answered_ok_iff {func : GetClassObject Object} {result : ECode × Option Object}
    (h : classObjects lib req.mUunm = some func) :
    Answered lib req (.ok result) ↔ result = func req.mClsid req.riid := by
  constructor
  · intro hanswered
    obtain ⟨func', hfunc, hresult⟩ := hanswered result rfl
    rwa [Option.some.inj (h.symm.trans hfunc)]
  · rintro rfl result' hresult
    exact ⟨func, h, (Except.ok.inj hresult).symm⟩

omit [DecidableEq Thread] in
/-- A step with a return. -/
theorem Sound.cons {answer : Answer Object} (hs : Sound lib s) (h' : Accounted lib s')
    (hlist : (s'.g_LocModList.map LocalModule.key).Sublist (s.g_LocModList.map LocalModule.key))
    (hreturned : s'.returned = (req, answer) :: s.returned) :
    Sound lib s' ↔ Answered lib req answer := by
  constructor
  · intro hs'
    exact hs'.answered (req, answer) (hreturned ▸ List.mem_cons_self)
  · intro hanswer
    refine ⟨distinct_of_sublist hlist hs.distinct, h'.opened, ?_⟩
    rw [hreturned]
    exact List.forall_mem_cons.mpr ⟨hanswer, hs.answered⟩

omit [DecidableEq Thread] in
/-- A step without a return. -/
theorem Sound.keep (hs : Sound lib s) (h' : Accounted lib s')
    (hlist : (s'.g_LocModList.map LocalModule.key).Sublist (s.g_LocModList.map LocalModule.key))
    (hreturned : s'.returned = s.returned) : Sound lib s' :=
  ⟨distinct_of_sublist hlist hs.distinct, h'.opened, by rw [hreturned]; exact hs.answered⟩

/-- A listed module answers for `EIID_IClassObject`, whatever is asked for. -/
theorem sound_acquire_iff (h : Accounted lib s) (hs : Sound lib s) (hidle : s.calls t = .idle) :
    Sound lib (acquire t req s) ↔ ∀ m, search req.mUunm s.g_LocModList = some m →
      m.mDllGetClassObjectFunc req.mClsid EIID_IClassObject =
        m.mDllGetClassObjectFunc req.mClsid req.riid := by
  have h' := accounted_acquire req h hidle
  rw [acquire] at h' ⊢
  rcases hsearch : search req.mUunm s.g_LocModList with _ | m
  · rw [hsearch] at h'
    refine iff_of_true ?_ nofun
    dsimp only at h' ⊢
    split_ifs at h' ⊢ with hruntime
    · have hfunc : classObjects lib req.mUunm = some runtimeGetClassObject := if_pos hruntime
      exact (hs.cons h' (.refl _) rfl).mpr ((answered_ok_iff hfunc).mpr rfl)
    · exact hs.keep h' (.refl _) rfl
  · rw [hsearch] at h'
    have hname : m.mUunm = req.mUunm := by simpa using List.find?_some hsearch
    have hfunc : classObjects lib req.mUunm = some m.mDllGetClassObjectFunc :=
      hname ▸ h.fromLibrary m.key (List.mem_map_of_mem (List.mem_of_find?_eq_some hsearch))
    have hlist : ((resetAskCount req.mUunm s.g_LocModList).map LocalModule.key).Sublist
        (s.g_LocModList.map LocalModule.key) := by
      rw [map_key_resetAskCount]
    rw [hs.cons h' hlist rfl, answered_ok_iff hfunc]
    exact ⟨fun heq m' hm' => Option.some.inj hm' ▸ heq, fun hall => hall m rfl⟩

/-- A name is listed twice that is inserted once more. -/
theorem sound_insert_iff {m : LocalModule Object} {result : ECode × Option Object}
    (h : Accounted lib s) (hs : Sound lib s) (hcall : s.calls t = .made req m result) :
    Sound lib (finish t req (.ok result) { s with g_LocModList := m :: s.g_LocModList }) ↔
      search req.mUunm s.g_LocModList = none := by
  have h' := accounted_insert h hcall
  have hgood := h.calls t
  rw [hcall] at hgood
  obtain ⟨hname, hfunc, hresult⟩ := hgood
  rw [search_eq_none_iff]
  constructor
  · intro hs'
    exact hname ▸ (List.nodup_cons.mp hs'.distinct).1
  · intro hnew
    refine ⟨List.nodup_cons.mpr ⟨hname ▸ hnew, hs.distinct⟩, h'.opened, ?_⟩
    refine List.forall_mem_cons.mpr ⟨(answered_ok_iff ?_).mpr hresult, hs.answered⟩
    exact hname ▸ hfunc

theorem sound_fill (h : Accounted lib s) (hs : Sound lib s) (hcall : s.calls t = .opened req)
    (allocated : Bool) : Sound lib (fill lib t req allocated s) := by
  have h' := accounted_fill h hcall allocated
  rw [fill] at h' ⊢
  rcases hfunc : (lib req.mUunm).DllGetClassObject with _ | func
  · rw [hfunc] at h'
    exact (hs.cons h' (.refl _) rfl).mpr (answered_error _ _)
  · rw [hfunc] at h'
    dsimp only at h' ⊢
    split_ifs at h' ⊢
    · exact (hs.cons h' (.refl _) rfl).mpr (answered_error _ _)
    · exact hs.keep h' (.refl _) rfl

theorem sound_getClassObject {m : LocalModule Object} (h : Accounted lib s) (hs : Sound lib s)
    (hcall : s.calls t = .filled req m) : Sound lib (getClassObject t req m s) := by
  have h' := accounted_getClassObject h hcall
  have hgood := h.calls t
  rw [hcall] at hgood
  rw [getClassObject] at h' ⊢
  split_ifs at h' ⊢
  · exact (hs.cons h' (.refl _) rfl).mpr ((answered_ok_iff (hgood.1 ▸ hgood.2)).mpr rfl)
  · exact hs.keep h' (.refl _) rfl

omit [Fintype Thread] [DecidableEq Thread] in
theorem freeUnusedModule_keeps (env : Platform) (moduleName : ElString) (ec : ECode)
    (s : Process Thread Object) :
    ((_CProcess_FreeUnusedModule env moduleName ec s).2.g_LocModList.map LocalModule.key).Sublist
      (s.g_LocModList.map LocalModule.key) ∧
    (_CProcess_FreeUnusedModule env moduleName ec s).2.returned = s.returned := by
  rw [_CProcess_FreeUnusedModule]
  by_cases hnull : moduleName.IsNullOrEmpty = true
  · rw [if_pos hnull]
    exact ⟨.refl _, rfl⟩
  rw [if_neg hnull]
  rcases s.g_LocModList.find? (IsNamed env moduleName) with _ | m
  · exact ⟨.refl _, rfl⟩
  dsimp only
  split_ifs
  · exact ⟨.refl _, rfl⟩
  · exact ⟨(List.eraseP_sublist ..).map _, rfl⟩
  · exact ⟨.refl _, rfl⟩

/-- **One step.** -/
theorem sound_step_iff {a : Action Thread} (h : Accounted lib s) (hs : Sound lib s)
    (hstep : step lib env s a = some s') : Sound lib s' ↔ Spared s a := by
  have h' := accounted_step h hstep
  cases a with
  | acquire t req =>
    rcases hcall : s.calls t <;> simp only [step, hcall, reduceCtorEq, Option.some.injEq] at hstep
    rw [← hstep, sound_acquire_iff h hs hcall]
    exact ⟨fun hall _ => hall, fun hspared => hspared hcall⟩
  | dlopen t found =>
    refine iff_of_true ?_ trivial
    rcases hcall : s.calls t with _ | req | _ | _ | _ <;>
      simp only [step, hcall, reduceCtorEq, Option.some.injEq] at hstep
    rw [← hstep] at h' ⊢
    split_ifs at h' ⊢
    · exact hs.keep h' (.refl _) rfl
    · exact (hs.cons h' (.refl _) rfl).mpr (answered_error _ _)
  | fill t allocated =>
    refine iff_of_true ?_ trivial
    rcases hcall : s.calls t with _ | _ | req | _ | _ <;>
      simp only [step, hcall, reduceCtorEq, Option.some.injEq] at hstep
    rw [← hstep]
    exact sound_fill h hs hcall allocated
  | getClassObject t =>
    refine iff_of_true ?_ trivial
    rcases hcall : s.calls t with _ | _ | _ | ⟨req, m⟩ | _ <;>
      simp only [step, hcall, reduceCtorEq, Option.some.injEq] at hstep
    rw [← hstep]
    exact sound_getClassObject h hs hcall
  | insert t =>
    rcases hcall : s.calls t with _ | _ | _ | _ | ⟨req, m, result⟩ <;>
      simp only [step, hcall, reduceCtorEq, Option.some.injEq] at hstep
    rw [← hstep, sound_insert_iff h hs hcall]
    constructor
    · intro hnew req' m' result' hcall'
      rw [hcall] at hcall'
      obtain ⟨rfl, -, -⟩ := Phase.made.inj hcall'
      exact hnew
    · intro hspared
      exact hspared req m result hcall
  | freeUnusedModule moduleName ec =>
    obtain ⟨hlist, hreturned⟩ := freeUnusedModule_keeps env moduleName ec s
    rw [← Option.some.inj hstep] at h' ⊢
    exact iff_of_true (hs.keep h' hlist hreturned) trivial
  | freeUnusedModules immediate answers =>
    rw [← Option.some.inj hstep] at h' ⊢
    exact iff_of_true (hs.keep h' (freeLoop_sublist ..) rfl) trivial

/-! ### Runs -/

omit [DecidableEq Thread] in
theorem accounted_init : Accounted lib ({} : Process Thread Object) where
  opens _ := by
    rw [holders, Finset.filter_false_of_mem (fun _ _ h => by cases h)]
    rfl
  fromLibrary := List.forall_mem_nil _
  calls _ := trivial

omit [Fintype Thread] [DecidableEq Thread] in
theorem sound_init : Sound lib ({} : Process Thread Object) := ⟨.nil, nofun, nofun⟩

/-- **The handles.** In every run, a library is open as often as modules are listed and calls under
way that hold it; so a module that is listed is open. -/
theorem accounted_run {as : List (Action Thread)} (h : Trace.run (step lib env) {} as = some s) :
    Accounted lib s := Trace.run_induction (fun _ _ _ hs => accounted_step hs) accounted_init h

/-- **The list of modules.** Along a run, all that is reached is sound if and only if each module is
asked for its class objects only where it has the same for `EIID_IClassObject`, once it is listed,
and is not inserted while one of its name is listed. -/
theorem sound_iff (lib : CString → Library Object) (env : Platform) (as : List (Action Thread)) :
    Trace.Meets (step lib env) (fun s a => ∀ s', step lib env s a = some s' → Sound lib s') {} as ↔
      Trace.Meets (step lib env) (fun s a => (step lib env s a).isSome → Spared s a) {} as := by
  refine Trace.meets_iff (I := fun s => Accounted lib s ∧ Sound lib s) (fun s a ⟨h, hs⟩ => ?_)
    (fun s a s' ⟨h, _⟩ hok hstep => ⟨accounted_step h hstep, hok s' hstep⟩)
    ⟨accounted_init, sound_init⟩
  constructor
  · intro hok hsome
    obtain ⟨s', hstep⟩ := Option.isSome_iff_exists.mp hsome
    exact (sound_step_iff h hs hstep).mp (hok s' hstep)
  · intro hok s' hstep
    exact (sound_step_iff h hs hstep).mpr (hok (hstep ▸ rfl))

end Accounted

/-! ### Two first uses, and one more -/

/-- A library whose class objects tell what they have been asked for. -/
def telling (_ : CString) : Library EMuid := ⟨some fun _ iid => (NOERROR, some iid), true⟩

def plain : Platform := ⟨true, fun b => b = 32, id, id⟩

/-- `EIID_CALLBACK_CONNECTOR` is asked for, of a module `m`. -/
def connector : Request := ⟨⟨1, 2, 3, 4⟩, ⟨[0x6D], zero_notMem_m⟩, ⟨0x10004, 0, 0x000000C0, 0x66000000⟩⟩

/-- Two threads use the module for the first time, and one uses it again. -/
def overlapping : List (Action (Fin 2)) :=
  [.acquire 0 connector, .acquire 1 connector, .dlopen 0 true, .dlopen 1 true, .fill 0 true,
    .fill 1 true, .getClassObject 0, .getClassObject 1, .insert 0, .insert 1, .acquire 0 connector]

/-- The module is listed twice, and the last call has got what is under `EIID_IClassObject`. -/
theorem not_sound_overlapping : ∃ s, Trace.run (step telling plain) {} overlapping = some s ∧
    ¬(s.g_LocModList.map LocalModule.mUunm).Nodup ∧
    (∃ call ∈ s.returned, ¬Answered telling call.1 call.2) ∧ ¬Sound telling s := by
  refine ⟨_, rfl, ?_⟩
  have htwice : ¬[connector.mUunm, connector.mUunm].Nodup := by decide
  have hanswer : ¬Answered telling connector (.ok (NOERROR, some EIID_IClassObject)) := by
    intro h
    have hfunc : classObjects telling connector.mUunm = some fun _ iid => (NOERROR, some iid) := rfl
    exact absurd ((answered_ok_iff hfunc).mp h) (by decide)
  exact ⟨htwice, ⟨_, List.mem_cons_self, hanswer⟩, fun hs => htwice hs.distinct⟩

end ElastosCar.LocalModules
