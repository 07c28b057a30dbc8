import ElastosCar.Meta.LocalModules
import ElastosCar.Strings.ReverseSearch

/-!
# Modules that are idle

Calls of `AcquireClassObjectFromLocalModule`, `_CProcess_FreeUnusedModules(FALSE)` and
`_CProcess_FreeUnusedModule` one after the other, with what the libraries answer to
`DllCanUnloadNow`. `mAskCount` stands for a number that only the history of these calls tells,
`idleCalls`: in how many calls of `_CProcess_FreeUnusedModules`, up to now, the module has been
found idle with nothing acquired from it in between.

`_CProcess_FreeUnusedModule` looks for a name anywhere in `mUunm`, and tests what stands in front of
it, but not that nothing stands behind.

* `idle_call`: `mAskCount` is `idleCalls`, and below three.
* `unloads_iff`: the modules that are unloaded are the right ones exactly in the runs in which each
  name that is found ends the `mUunm` that it is found in.
-/

namespace ElastosCar.IdleModules

open LocalModules Sharing

variable {Object : Type}

/-! ### Calls -/

inductive Call
  | acquireClassObject (req : Request) (found allocated : Bool)
  /-- `_CProcess_FreeUnusedModules(FALSE)`. -/
  | freeUnusedModules (answers : ℕ → ECode)
  | freeUnusedModule (moduleName : ElString) (answer : ECode)

/-- What a call has to do with whether a module is idle. -/
inductive Event
  | acquired (uunm : CString)
  /-- The modules have been asked, those that have a `DllCanUnloadNow`. -/
  | asked (answered : CString → Option ECode)

structure History (Object : Type) where
  process : Process Unit Object := {}
  /-- The last one first. -/
  events : List Event := []

/-- A call that no other comes in between. -/
def acquireSteps (req : Request) (found allocated : Bool) : List (Action Unit) :=
  [.acquire () req, .dlopen () found, .fill () allocated, .getClassObject (), .insert ()]

/-- What the listed modules answer in the loop of `_CProcess_FreeUnusedModules`. -/
def answered : (ℕ → ECode) → List (LocalModule Object) → CString → Option ECode
  | _, [], _ => none
  | answers, m :: ms, n =>
    if m.mUunm = n then if m.mDllCanUnloadNowFunc then some (answers 0) else none
    else answered (fun i => answers (i + 1)) ms n

section Call

variable (lib : CString → Library Object) (env : Platform)

/-- Steps that are taken as far as the call has not returned. -/
def advance (s : Process Unit Object) (a : Action Unit) : Process Unit Object :=
  (step lib env s a).getD s

def AcquireClassObjectFromLocalModule (req : Request) (found allocated : Bool)
    (s : Process Unit Object) : Process Unit Object :=
  (acquireSteps req found allocated).foldl (advance lib env) s

def call (h : History Object) : Call → History Object
  | .acquireClassObject req found allocated =>
    ⟨AcquireClassObjectFromLocalModule lib env req found allocated h.process,
      .acquired req.mUunm :: h.events⟩
  | .freeUnusedModules answers =>
    ⟨_CProcess_FreeUnusedModules false answers h.process,
      .asked (answered answers h.process.g_LocModList) :: h.events⟩
  | .freeUnusedModule moduleName answer =>
    ⟨(_CProcess_FreeUnusedModule env moduleName answer h.process).2, h.events⟩

end Call

/-! ### What should hold -/

/-- The last calls in which the module has been found idle, with no acquisition in between. -/
def idleCalls (n : CString) : List Event → ℕ
  | [] => 0
  | .acquired uunm :: events => if uunm = n then 0 else idleCalls n events
  | .asked answered :: events => if answered n = some NOERROR then idleCalls n events + 1 else 0

def names (h : History Object) : List CString := h.process.g_LocModList.map LocalModule.mUunm

/-- The characters of a string. -/
def characters (env : Platform) (s : ElString) : List UInt32 := (s.GetCharsFrom env 0).1

/-- A name is that of a module, or what is behind its last `/`. -/
def Named (env : Platform) (moduleName : ElString) (uunm : CString) : Prop :=
  characters env (.ofChars (some uunm)) = characters env moduleName ∨
    ∃ path, characters env (.ofChars (some uunm)) = path ++ 0x2F :: characters env moduleName

/-- What a call unloads. -/
def Unloads (env : Platform) (h h' : History Object) : Call → Prop
  | .acquireClassObject .. => ∀ n ∈ names h, n ∈ names h'
  | .freeUnusedModules _ => ∀ n ∈ names h, n ∉ names h' ↔ 3 ≤ idleCalls n h'.events
  | .freeUnusedModule moduleName _ =>
    ∀ n ∈ names h, n ∉ names h' → Named env moduleName n ∧ ∀ n' ∈ names h, n' ∉ names h' → n' = n

/-- Where a name is found in `mUunm`, it ends it; and `GetChar` and `GetChars` agree on the
character in front, which they need not do on a string that is not well formed. -/
def Ends (env : Platform) (moduleName : ElString) (m : LocalModule Object) : Prop :=
  ∀ index,
    LocalModules.LastIndexOf (characters env (.ofChars (some m.mUunm)))
      (characters env moduleName) = some index →
    index + (characters env moduleName).length =
      (characters env (.ofChars (some m.mUunm))).length ∧
    (0 < index → (characters env (.ofChars (some m.mUunm)))[index - 1]? =
      some ((ElString.ofChars (some m.mUunm)).GetChar env ((index : ℤ) - 1)))

/-- A module that is found by its name, and unloaded. -/
def Spared (env : Platform) (h : History Object) : Call → Prop
  | .freeUnusedModule moduleName answer =>
    ¬moduleName.IsNullOrEmpty → answer = NOERROR → ∀ m,
      h.process.g_LocModList.find? (IsNamed env moduleName) = some m →
      m.mDllCanUnloadNowFunc = true → Ends env moduleName m
  | _ => True

/-- The count of a module is that of the history, and below three. -/
structure CountOf (events : List Event) (m : LocalModule Object) : Prop where
  idle : m.mAskCount = idleCalls m.mUunm events
  few : m.mAskCount ≤ 2
  silent : m.mDllCanUnloadNowFunc = false → m.mAskCount = 0

/-- What holds after every call. -/
structure Idle (lib : CString → Library Object) (h : History Object) : Prop where
  accounted : Accounted lib h.process
  returned : h.process.calls () = .idle
  distinct : (names h).Nodup
  count : ∀ m ∈ h.process.g_LocModList, CountOf h.events m

variable {lib : CString → Library Object} {env : Platform} {s : Process Unit Object}
  {hist : History Object} {ms : List (LocalModule Object)} {m : LocalModule Object} {uunm : CString}

/-! ### An acquisition -/

theorem accounted_advance (h : Accounted lib s) (a : Action Unit) :
    Accounted lib (advance lib env s a) := by
  rcases hstep : step lib env s a with _ | s'
  · rw [advance, hstep, Option.getD_none]
    exact h
  · rw [advance, hstep, Option.getD_some]
    exact accounted_step h hstep

theorem accounted_acquireClassObject (h : Accounted lib s) (req : Request)
    (found allocated : Bool) :
    Accounted lib (AcquireClassObjectFromLocalModule lib env req found allocated s) := by
  rw [AcquireClassObjectFromLocalModule]
  generalize acquireSteps req found allocated = as
  induction as generalizing s with
  | nil => exact h
  | cons a as ih => exact ih (accounted_advance h a)

/-- A call that has returned takes no step. -/
theorem foldl_advance_of_idle {as : List (Action Unit)} (h : ∀ a ∈ as, step lib env s a = none) :
    as.foldl (advance lib env) s = s := by
  induction as with
  | nil => rfl
  | cons a as ih =>
    obtain ⟨ha, has⟩ := List.forall_mem_cons.mp h
    rw [List.foldl_cons, advance, ha, Option.getD_none]
    exact ih has

/-- The call has returned, and at most a new module has been inserted. -/
def Inserted (req : Request) (ms : List (LocalModule Object)) (s : Process Unit Object) : Prop :=
  s.calls () = .idle ∧ (s.g_LocModList = ms ∨
    ∃ m, m.mUunm = req.mUunm ∧ m.mAskCount = 0 ∧ s.g_LocModList = m :: ms)

section Phases

variable {req : Request} {found allocated : Bool}

@[simp]
theorem finish_calls (req : Request) (answer : Answer Object) (s : Process Unit Object) :
    (finish () req answer s).calls () = .idle := by
  simp only [finish, Function.update_self]

@[simp]
theorem errorExit_calls (req : Request) (answer : Answer Object) (s : Process Unit Object) :
    (errorExit () req answer s).calls () = .idle := by
  rw [errorExit, finish_calls]

@[simp]
theorem goOn_calls (phase : Phase Object) (s : Process Unit Object) :
    (goOn () phase s).calls () = phase := by
  simp only [goOn, Function.update_self]

theorem inserted_of_idle (hcall : s.calls () = .idle) {as : List (Action Unit)}
    (h : ∀ a ∈ as, step lib env s a = none) :
    Inserted req s.g_LocModList (as.foldl (advance lib env) s) := by
  rw [foldl_advance_of_idle h]
  exact ⟨hcall, .inl rfl⟩

theorem inserted_of_made {result : ECode × Option Object} (hcall : s.calls () = .made req m result)
    (hname : m.mUunm = req.mUunm) (hcount : m.mAskCount = 0) :
    Inserted req s.g_LocModList ([.insert ()].foldl (advance lib env) s) := by
  rw [List.foldl_cons, List.foldl_nil, advance]
  simp only [step, hcall, Option.getD_some]
  exact ⟨finish_calls .., .inr ⟨m, hname, hcount, rfl⟩⟩

theorem inserted_of_filled (hcall : s.calls () = .filled req m) (hname : m.mUunm = req.mUunm)
    (hcount : m.mAskCount = 0) :
    Inserted req s.g_LocModList ([.getClassObject (), .insert ()].foldl (advance lib env) s) := by
  have hstep : advance lib env s (.getClassObject ()) = getClassObject () req m s := by
    simp only [advance, step, hcall, Option.getD_some]
  rw [List.foldl_cons, hstep, getClassObject]
  split_ifs
  · exact inserted_of_idle (errorExit_calls ..) (by simp [step])
  · exact inserted_of_made (goOn_calls ..) hname hcount

theorem inserted_of_opened (hcall : s.calls () = .opened req) :
    Inserted req s.g_LocModList
      ([.fill () allocated, .getClassObject (), .insert ()].foldl (advance lib env) s) := by
  have hstep : advance lib env s (.fill () allocated) = fill lib () req allocated s := by
    simp only [advance, step, hcall, Option.getD_some]
  rw [List.foldl_cons, hstep, fill]
  rcases (lib req.mUunm).DllGetClassObject with _ | func <;> dsimp only
  · exact inserted_of_idle (errorExit_calls ..) (by simp [step])
  · split_ifs
    · exact inserted_of_idle (errorExit_calls ..) (by simp [step])
    · exact inserted_of_filled (goOn_calls ..) rfl rfl

theorem inserted_of_searched (hcall : s.calls () = .searched req) :
    Inserted req s.g_LocModList ([.dlopen () found, .fill () allocated, .getClassObject (),
      .insert ()].foldl (advance lib env) s) := by
  cases found with
  | true =>
    have hstep : advance lib env s (.dlopen () true) =
        goOn () (.opened req) { s with opens := dlopen req.mUunm s.opens } := by
      simp only [advance, step, hcall, Option.getD_some, if_true]
    rw [List.foldl_cons, hstep]
    exact inserted_of_opened (goOn_calls ..)
  | false =>
    have hstep : advance lib env s (.dlopen () false) =
        finish () req (.error E_FILE_NOT_FOUND) s := by
      simp only [advance, step, hcall, Option.getD_some, Bool.false_eq_true, if_false]
    rw [List.foldl_cons, hstep]
    exact inserted_of_idle (finish_calls ..) (by simp [step])

/-- **What an acquisition does to the list.** The module is found, and its count is reset, or it is
not, and is inserted if the call comes so far. -/
theorem acquire_cases (lib : CString → Library Object) (env : Platform) (req : Request)
    (found allocated : Bool) (hidle : s.calls () = .idle) :
    (AcquireClassObjectFromLocalModule lib env req found allocated s).calls () = .idle ∧
        (AcquireClassObjectFromLocalModule lib env req found allocated s).g_LocModList =
          resetAskCount req.mUunm s.g_LocModList ∨
      req.mUunm ∉ s.g_LocModList.map LocalModule.mUunm ∧
        Inserted req s.g_LocModList
          (AcquireClassObjectFromLocalModule lib env req found allocated s) := by
  have hstep : advance lib env s (.acquire () req) = acquire () req s := by
    simp only [advance, step, hidle, Option.getD_some]
  rw [AcquireClassObjectFromLocalModule, acquireSteps, List.foldl_cons, hstep, acquire]
  rcases hsearch : search req.mUunm s.g_LocModList with _ | m
  · refine .inr ⟨search_eq_none_iff.mp hsearch, ?_⟩
    dsimp only
    split_ifs
    · exact inserted_of_idle (finish_calls ..) (by simp [step])
    · exact inserted_of_searched (s := goOn () (.searched req) s) (goOn_calls ..)
  · refine .inl ?_
    dsimp only
    rw [foldl_advance_of_idle (by simp [step])]
    exact ⟨finish_calls .., rfl⟩

end Phases

/-! ### One call -/

theorem mem_resetAskCount (hnodup : (ms.map LocalModule.mUunm).Nodup)
    (hm : m ∈ resetAskCount uunm ms) :
    m.mUunm = uunm ∧ m.mAskCount = 0 ∨ m.mUunm ≠ uunm ∧ m ∈ ms := by
  induction ms with
  | nil => exact absurd hm nofun
  | cons m' ms ih =>
    obtain ⟨hnew, hnodup⟩ := List.nodup_cons.mp hnodup
    rw [resetAskCount] at hm
    split_ifs at hm with hname
    · rcases List.mem_cons.mp hm with rfl | hm
      · exact .inl ⟨hname, rfl⟩
      · exact .inr ⟨fun h => hnew (by rw [hname, ← h]; exact List.mem_map_of_mem hm),
          List.mem_cons_of_mem _ hm⟩
    · rcases List.mem_cons.mp hm with rfl | hm
      · exact .inr ⟨hname, List.mem_cons_self⟩
      · exact (ih hnodup hm).imp_right fun h => ⟨h.1, List.mem_cons_of_mem _ h.2⟩

/-- The modules that are left, as they have been asked. -/
theorem mem_freeLoop_iff {immediate : Bool} (answers : ℕ → ECode) (opens : Opens)
    {m' : LocalModule Object} : m' ∈ (freeLoop immediate answers ms opens).1 ↔
      ∃ i, ∃ m : LocalModule Object, ms[i]? = some m ∧ m.asked immediate (answers i) = some m' := by
  induction ms generalizing answers opens with
  | nil => exact iff_of_false nofun (by simp)
  | cons m ms ih =>
    rw [freeLoop]
    constructor
    · intro h
      rcases hasked : m.asked immediate (answers 0) with _ | m₀ <;> rw [hasked] at h
      · obtain ⟨i, m₁, hget, hm₁⟩ := (ih _ _).mp h
        exact ⟨i + 1, m₁, hget, hm₁⟩
      · rcases List.mem_cons.mp h with rfl | h
        · exact ⟨0, m, rfl, hasked⟩
        · obtain ⟨i, m₁, hget, hm₁⟩ := (ih _ _).mp h
          exact ⟨i + 1, m₁, hget, hm₁⟩
    · rintro ⟨i | i, m₁, hget, hm₁⟩
      · obtain rfl := Option.some.inj hget
        rw [hm₁]
        exact List.mem_cons_self
      · rcases m.asked immediate (answers 0) with _ | m₀
        · exact (ih _ _).mpr ⟨i, m₁, hget, hm₁⟩
        · exact List.mem_cons_of_mem _ ((ih _ _).mpr ⟨i, m₁, hget, hm₁⟩)

theorem answered_of_getElem? {answers : ℕ → ECode} {i : ℕ}
    (hnodup : (ms.map LocalModule.mUunm).Nodup) (hget : ms[i]? = some m) :
    answered answers ms m.mUunm = if m.mDllCanUnloadNowFunc then some (answers i) else none := by
  induction ms generalizing answers i with
  | nil => exact absurd hget (by simp)
  | cons m' ms ih =>
    obtain ⟨hnew, hnodup⟩ := List.nodup_cons.mp hnodup
    rw [answered]
    cases i with
    | zero =>
      obtain rfl := Option.some.inj hget
      rw [if_pos rfl]
    | succ i =>
      have hmem : m ∈ ms := List.mem_of_getElem? hget
      rw [if_neg fun h : m'.mUunm = m.mUunm => hnew (h ▸ List.mem_map_of_mem hmem)]
      exact ih hnodup hget

/-- The tests of `_CProcess_FreeUnusedModules(FALSE)`. -/
theorem asked_eq (ec : ECode) : m.asked false ec =
    if m.mDllCanUnloadNowFunc = false then some m
    else if ec = NOERROR then
      if 2 ≤ m.mAskCount then none else some { m with mAskCount := m.mAskCount + 1 }
    else some { m with mAskCount := 0 } := by
  obtain ⟨uunm, func, canUnload, askCount⟩ := m
  have hcount : 2 < askCount + 1 ↔ 2 ≤ askCount := Nat.lt_succ_iff
  cases canUnload <;> simp [LocalModule.asked, hcount]

theorem asked_eq_none_iff {ec : ECode} : m.asked false ec = none ↔
    m.mDllCanUnloadNowFunc = true ∧ ec = NOERROR ∧ 2 ≤ m.mAskCount := by
  rw [asked_eq]
  split_ifs with hfunc hec hcount
  · exact iff_of_false nofun fun h => absurd h.1 (hfunc ▸ Bool.false_ne_true)
  · exact iff_of_true rfl ⟨eq_true_of_ne_false hfunc, hec, hcount⟩
  · exact iff_of_false nofun fun h => hcount h.2.2
  · exact iff_of_false nofun fun h => hec h.2.1

/-- A module that is left. -/
theorem asked_cases {ec : ECode} {m' : LocalModule Object} (h : m.asked false ec = some m') :
    m'.mUunm = m.mUunm ∧ m'.mDllCanUnloadNowFunc = m.mDllCanUnloadNowFunc ∧
      (m.mDllCanUnloadNowFunc = false ∧ m'.mAskCount = m.mAskCount ∨
        m.mDllCanUnloadNowFunc = true ∧
          (ec = NOERROR ∧ m.mAskCount < 2 ∧ m'.mAskCount = m.mAskCount + 1 ∨
            ec ≠ NOERROR ∧ m'.mAskCount = 0)) := by
  rw [asked_eq] at h
  split_ifs at h with hfunc hec hcount <;> obtain rfl := Option.some.inj h
  · exact ⟨rfl, rfl, .inl ⟨hfunc, rfl⟩⟩
  · exact ⟨rfl, rfl, .inr ⟨eq_true_of_ne_false hfunc, .inl ⟨hec, Nat.lt_of_not_le hcount, rfl⟩⟩⟩
  · exact ⟨rfl, rfl, .inr ⟨eq_true_of_ne_false hfunc, .inr ⟨hec, rfl⟩⟩⟩

/-- What a module counts, and what the history counts, go on alike. -/
theorem idleCalls_asked (answers : ℕ → ECode) {i : ℕ} (h : Idle lib hist)
    (hget : hist.process.g_LocModList[i]? = some m) :
    idleCalls m.mUunm (.asked (answered answers hist.process.g_LocModList) :: hist.events) =
      if m.mDllCanUnloadNowFunc = true ∧ answers i = NOERROR then m.mAskCount + 1 else 0 := by
  rw [idleCalls, answered_of_getElem? h.distinct hget, (h.count m (List.mem_of_getElem? hget)).idle]
  cases m.mDllCanUnloadNowFunc <;> simp

/-- **A call of `_CProcess_FreeUnusedModules` unloads the modules that have been found idle three
times.** -/
theorem unloads_freeUnusedModules (h : Idle lib hist) (answers : ℕ → ECode) :
    Unloads env hist (call lib env hist (.freeUnusedModules answers))
      (.freeUnusedModules answers) := by
  intro n hn
  obtain ⟨m, hm, rfl⟩ := List.mem_map.mp hn
  obtain ⟨i, hi, hget⟩ := List.getElem_of_mem hm
  have hget : hist.process.g_LocModList[i]? = some m := List.getElem?_eq_some_iff.mpr ⟨hi, hget⟩
  have hgone : m.mUunm ∉ names (call lib env hist (.freeUnusedModules answers)) ↔
      m.asked false (answers i) = none := by
    constructor
    · intro hgone
      rcases hasked : m.asked false (answers i) with _ | m'
      · rfl
      · refine absurd (List.mem_map.mpr ⟨m', ?_, (asked_cases hasked).1⟩) hgone
        exact (mem_freeLoop_iff _ _).mpr ⟨i, m, hget, hasked⟩
    · intro hasked hleft
      obtain ⟨m', hm', hname⟩ := List.mem_map.mp hleft
      obtain ⟨j, m₁, hget₁, hasked₁⟩ := (mem_freeLoop_iff _ _).mp hm'
      -- the names are distinct, so it is the same module
      have hnames : (names hist)[i]? = (names hist)[j]? := by
        rw [names, List.getElem?_map, List.getElem?_map, hget, hget₁, Option.map_some,
          Option.map_some, ← (asked_cases hasked₁).1, hname]
      have hij : i = j :=
        (List.getElem?_inj (by rwa [names, List.length_map]) h.distinct).mp hnames
      rw [← hij, hget] at hget₁
      obtain rfl := Option.some.inj hget₁
      rw [← hij, hasked] at hasked₁
      exact absurd hasked₁ nofun
  rw [hgone, asked_eq_none_iff]
  change _ ↔ 3 ≤ idleCalls m.mUunm (.asked (answered answers _) :: _)
  rw [idleCalls_asked answers h hget]
  split_ifs with hidle
  · exact ⟨fun h => Nat.succ_le_succ h.2.2, fun h => ⟨hidle.1, hidle.2, Nat.le_of_succ_le_succ h⟩⟩
  · exact iff_of_false (fun h => hidle ⟨h.1, h.2.1⟩) (by decide)

/-! ### What every call keeps -/

theorem CountOf.acquired {events : List Event} (h : CountOf events m) (hne : m.mUunm ≠ uunm) :
    CountOf (.acquired uunm :: events) m := by
  refine ⟨?_, h.few, h.silent⟩
  rw [idleCalls, if_neg hne.symm]
  exact h.idle

/-- A module that has just been acquired. -/
theorem countOf_new {events : List Event} (hname : m.mUunm = uunm) (hcount : m.mAskCount = 0) :
    CountOf (.acquired uunm :: events) m := by
  refine ⟨?_, hcount ▸ Nat.zero_le 2, fun _ => hcount⟩
  rw [idleCalls, if_pos hname.symm, hcount]

theorem idle_acquireClassObject (h : Idle lib hist) (req : Request) (found allocated : Bool) :
    Idle lib (call lib env hist (.acquireClassObject req found allocated)) := by
  have haccounted : Accounted lib
      (AcquireClassObjectFromLocalModule lib env req found allocated hist.process) :=
    accounted_acquireClassObject h.accounted req found allocated
  rcases acquire_cases lib env req found allocated h.returned with
    ⟨hreturned, hlist⟩ | ⟨hnew, hreturned, hlist⟩
  · have hnames : names (call lib env hist (.acquireClassObject req found allocated)) =
        names hist := by
      rw [names, call, hlist, names_eq, map_key_resetAskCount, ← names_eq, names]
    refine ⟨haccounted, hreturned, hnames ▸ h.distinct, fun m hm => ?_⟩
    rw [call, hlist] at hm
    rcases mem_resetAskCount h.distinct hm with ⟨hname, hcount⟩ | ⟨hne, hm⟩
    · exact countOf_new hname hcount
    · exact (h.count m hm).acquired hne
  · have hkeep : ∀ m ∈ hist.process.g_LocModList, CountOf (.acquired req.mUunm :: hist.events) m :=
      fun m hm => (h.count m hm).acquired fun hname => hnew (hname ▸ List.mem_map_of_mem hm)
    rcases hlist with hlist | ⟨m, hname, hcount, hlist⟩
    · refine ⟨haccounted, hreturned, ?_, ?_⟩
      · rw [names, call, hlist]
        exact h.distinct
      · rw [call, hlist]
        exact hkeep
    · refine ⟨haccounted, hreturned, ?_, ?_⟩
      · rw [names, call, hlist, List.map_cons, hname]
        exact List.nodup_cons.mpr ⟨hnew, h.distinct⟩
      · rw [call, hlist]
        exact List.forall_mem_cons.mpr ⟨countOf_new hname hcount, hkeep⟩

/-- The names of a list that is a part of another. -/
theorem names_sublist {ms' : List (LocalModule Object)}
    (h : (ms'.map LocalModule.key).Sublist (ms.map LocalModule.key)) :
    (ms'.map LocalModule.mUunm).Sublist (ms.map LocalModule.mUunm) := by
  rw [names_eq, names_eq]
  exact h.map Prod.fst

theorem idle_freeUnusedModules (h : Idle lib hist) (answers : ℕ → ECode) :
    Idle lib (call lib env hist (.freeUnusedModules answers)) := by
  refine ⟨accounted_freeUnusedModules h.accounted false answers, h.returned,
    h.distinct.sublist (names_sublist (freeLoop_sublist ..)), fun m' hm' => ?_⟩
  obtain ⟨i, m, hget, hasked⟩ := (mem_freeLoop_iff _ _).mp hm'
  have hcount := h.count m (List.mem_of_getElem? hget)
  have hidle := idleCalls_asked answers h hget
  obtain ⟨hname, hfunc, hcases⟩ := asked_cases hasked
  change CountOf (.asked (answered answers hist.process.g_LocModList) :: hist.events) m'
  rcases hcases with ⟨hnone, hkeep⟩ | ⟨hsome, ⟨hec, hfew, hnext⟩ | ⟨hec, hzero⟩⟩
  · have hzero : m'.mAskCount = 0 := hkeep.trans (hcount.silent hnone)
    refine ⟨?_, hzero ▸ Nat.zero_le 2, fun _ => hzero⟩
    rw [hname, hidle, hzero, if_neg fun h => absurd h.1 (hnone ▸ Bool.false_ne_true)]
  · refine ⟨?_, hnext ▸ hfew, fun hnone => absurd (hfunc.symm.trans hnone) (hsome ▸ nofun)⟩
    rw [hname, hidle, hnext, if_pos ⟨hsome, hec⟩]
  · refine ⟨?_, hzero ▸ Nat.zero_le 2, fun _ => hzero⟩
    rw [hname, hidle, hzero, if_neg fun h => hec h.2]

/-! ### A module by its name -/

theorem prefix_of_lastIndexOf {cs ds : List UInt32} {i : ℕ}
    (h : LocalModules.LastIndexOf cs ds = some i) : ds <+: cs.drop i := by
  rw [LocalModules.LastIndexOf] at h
  split_ifs at h with hlt hnil
  · rw [hnil]
    exact List.nil_prefix
  · have hfound := List.find?_some h
    exact List.isPrefixOf_iff_prefix.mp hfound

/-- The search for a name is what `LastIndexOf(const String&, Int32)` does from the end. -/
theorem lastIndex_eq (cs ds : List UInt32) :
    ElString.lastIndex (fun c d => c = d)
        (fun index => ElString.matchBehind cs ds ds.length index 0) cs ds cs.length =
      some ((LocalModules.LastIndexOf cs ds).elim (-1) fun index => (index : ℤ)) := by
  have heq : ∀ c d : UInt32, decide (c = d) = true ↔ id c = id d := fun c d => decide_eq_true_iff
  obtain ⟨r, hr, hempty, hlast⟩ := ElString.lastIndex_spec cs ds
    (fun index => ElString.matchBehind cs ds ds.length index 0) heq ElString.matchBehind_spec
    (Int.natCast_nonneg cs.length)
  rw [hr, LocalModules.LastIndexOf]
  by_cases hnil : ds = []
  · rw [hempty hnil, min_self, if_neg (by simp [hnil]), if_pos hnil, Option.elim_some]
  · refine congrArg some ((hlast hnil).unique ?_)
    rw [Int.toNat_natCast]
    split_ifs with hlt
    · refine .none fun i _ hocc => ?_
      have hle := hocc.le hnil
      omega
    · refine Search.IsLast.min (m := cs.length - ds.length + 1) (fun i hocc => ?_) ?_
      · have hle := hocc.le hnil
        omega
      · have hfind := Search.isLast_find? (fun i => ds.isPrefixOf (cs.drop i))
          (cs.length - ds.length + 1)
        rw [Nat.min_eq_left (by omega)]
        convert hfind using 2 with i
        rw [ElString.OccursAt, List.map_id, List.map_id, List.isPrefixOf_iff_prefix]

/-- A string that ends another occurs in it last at the end. -/
theorem lastIndexOf_append (cs ds : List UInt32) :
    LocalModules.LastIndexOf (cs ++ ds) ds = some cs.length := by
  have hlength : (cs ++ ds).length - ds.length = cs.length := by
    rw [List.length_append, Nat.add_sub_cancel]
  rw [LocalModules.LastIndexOf, if_neg (by rw [List.length_append]; omega)]
  split_ifs with hnil
  · rw [hnil, List.append_nil]
  · rw [hlength, List.range_succ, List.reverse_append, List.reverse_singleton,
      List.singleton_append]
    refine List.find?_cons_of_pos ?_
    rw [List.drop_left]
    exact List.isPrefixOf_iff_prefix.mpr (List.prefix_refl ds)

/-- **A module that is found by a name** has that name if and only if the name ends its own. -/
theorem named_iff_ends {moduleName : ElString} (h : IsNamed env moduleName m = true) :
    Named env moduleName m.mUunm ↔ Ends env moduleName m := by
  rw [Named, Ends]
  have hchars : IsNamed env moduleName m =
      (LocalModules.LastIndexOf (characters env (.ofChars (some m.mUunm)))
          (characters env moduleName)).elim false fun index => decide (index = 0 ∨
        (ElString.ofChars (some m.mUunm)).GetChar env ((index : ℤ) - 1) = 0x2F) := by
    rw [IsNamed, characters, characters]
    split <;> next hindex => rw [hindex]; rfl
  rw [hchars] at h
  generalize hcs : characters env (.ofChars (some m.mUunm)) = cs at h ⊢
  generalize characters env moduleName = ds at h ⊢
  constructor
  · rintro (rfl | ⟨path, rfl⟩) index hindex
    · obtain rfl := Option.some.inj ((lastIndexOf_append [] cs).symm.trans hindex)
      exact ⟨Nat.zero_add _, fun hpos => absurd hpos (Nat.lt_irrefl 0)⟩
    · have hlast := lastIndexOf_append (path ++ [0x2F]) ds
      rw [List.append_assoc, List.singleton_append] at hlast
      obtain rfl := Option.some.inj (hlast.symm.trans hindex)
      rw [hlast] at h
      have hslash := (of_decide_eq_true h).resolve_left (by simp)
      rw [hslash]
      refine ⟨by simp; omega, fun _ => ?_⟩
      rw [List.length_append, List.length_singleton, Nat.add_sub_cancel,
        List.getElem?_append_right le_rfl, Nat.sub_self, List.getElem?_cons_zero]
  · intro hends
    rcases hindex : LocalModules.LastIndexOf cs ds with _ | index <;> rw [hindex] at h
    · exact absurd h Bool.false_ne_true
    · obtain ⟨hlength, hslash⟩ := hends index hindex
      have hdrop : cs.drop index = ds := by
        refine ((prefix_of_lastIndexOf hindex).eq_of_length ?_).symm
        rw [List.length_drop]
        omega
      rcases Nat.eq_zero_or_pos index with rfl | hpos
      · exact .inl hdrop
      · have hchar := (of_decide_eq_true h).resolve_left (Nat.pos_iff_ne_zero.mp hpos)
        have hget := hslash hpos
        rw [hchar] at hget
        obtain ⟨hlt, hget⟩ := List.getElem?_eq_some_iff.mp hget
        refine .inr ⟨cs.take (index - 1), ?_⟩
        rw [← hget, ← hdrop]
        have hcons := List.drop_eq_getElem_cons hlt
        rw [Nat.sub_add_cancel hpos] at hcons
        rw [← hcons, List.take_append_drop]

/-- The module that `_CProcess_FreeUnusedModule` unloads. -/
def Finds (env : Platform) (moduleName : ElString) (answer : ECode)
    (ms : List (LocalModule Object)) (m : LocalModule Object) : Prop :=
  ¬moduleName.IsNullOrEmpty ∧ answer = NOERROR ∧ ms.find? (IsNamed env moduleName) = some m ∧
    m.mDllCanUnloadNowFunc = true

theorem freeUnusedModule_of_finds {moduleName : ElString} {answer : ECode}
    (h : Finds env moduleName answer s.g_LocModList m) :
    (_CProcess_FreeUnusedModule env moduleName answer s).2.g_LocModList =
      s.g_LocModList.eraseP (IsNamed env moduleName) := by
  obtain ⟨hnull, hanswer, hfind, hfunc⟩ := h
  rw [_CProcess_FreeUnusedModule, if_neg hnull, hfind]
  dsimp only
  rw [hfunc, Bool.not_true, if_neg Bool.false_ne_true, if_pos hanswer]

theorem freeUnusedModule_of_not {moduleName : ElString} {answer : ECode}
    (h : ∀ m, ¬Finds env moduleName answer s.g_LocModList m) :
    (_CProcess_FreeUnusedModule env moduleName answer s).2.g_LocModList = s.g_LocModList := by
  rw [_CProcess_FreeUnusedModule]
  by_cases hnull : moduleName.IsNullOrEmpty = true
  · rw [if_pos hnull]
  rw [if_neg hnull]
  rcases hfind : s.g_LocModList.find? (IsNamed env moduleName) with _ | m
  · rfl
  dsimp only
  split_ifs with hfunc hanswer
  · rfl
  · exact absurd ⟨hnull, hanswer, hfind, by simpa using hfunc⟩ (h m)
  · rfl

theorem freeUnusedModule_calls (moduleName : ElString) (answer : ECode) (s : Process Unit Object) :
    (_CProcess_FreeUnusedModule env moduleName answer s).2.calls = s.calls := by
  rw [_CProcess_FreeUnusedModule]
  by_cases hnull : moduleName.IsNullOrEmpty = true
  · rw [if_pos hnull]
  rw [if_neg hnull]
  rcases s.g_LocModList.find? (IsNamed env moduleName) with _ | m
  · rfl
  · dsimp only
    split_ifs <;> rfl

theorem freeUnusedModule_sublist (env : Platform) (moduleName : ElString) (answer : ECode)
    (s : Process Unit Object) :
    (_CProcess_FreeUnusedModule env moduleName answer s).2.g_LocModList.Sublist s.g_LocModList := by
  by_cases h : ∃ m, Finds env moduleName answer s.g_LocModList m
  · obtain ⟨m, h⟩ := h
    rw [freeUnusedModule_of_finds h]
    exact List.eraseP_sublist ..
  · rw [freeUnusedModule_of_not fun m hm => h ⟨m, hm⟩]

theorem idle_freeUnusedModule (h : Idle lib hist) (moduleName : ElString) (answer : ECode) :
    Idle lib (call lib env hist (.freeUnusedModule moduleName answer)) := by
  have hsub := freeUnusedModule_sublist env moduleName answer hist.process
  refine ⟨accounted_freeUnusedModule h.accounted moduleName answer, ?_,
    h.distinct.sublist (hsub.map _), fun m hm => h.count m (hsub.subset hm)⟩
  exact (congrFun (freeUnusedModule_calls ..) ()).trans h.returned

/-- **A call of `_CProcess_FreeUnusedModule`** unloads the module of that name, if it is found where
it should be. -/
theorem unloads_freeUnusedModule_iff (h : Idle lib hist) (moduleName : ElString) (answer : ECode) :
    Unloads env hist (call lib env hist (.freeUnusedModule moduleName answer))
        (.freeUnusedModule moduleName answer) ↔
      Spared env hist (.freeUnusedModule moduleName answer) := by
  by_cases hfinds : ∃ m, Finds env moduleName answer hist.process.g_LocModList m
  · obtain ⟨m, hm⟩ := hfinds
    have hgone : ∀ n ∈ names hist,
        n ∉ names (call lib env hist (.freeUnusedModule moduleName answer)) ↔ n = m.mUunm := by
      intro n hn
      have hone : listed hist.process.g_LocModList n = 1 := List.count_eq_one_of_mem h.distinct hn
      rw [listed_of_find? hm.2.2.1 n] at hone
      rw [names, call, freeUnusedModule_of_finds hm, ← List.count_eq_zero, ← listed]
      split_ifs at hone with hname
      · exact iff_of_true (Nat.succ.inj hone) hname.symm
      · exact iff_of_false (by omega) fun heq => hname heq.symm
    obtain ⟨hnull, hanswer, hfind, hfunc⟩ := hm
    have hends := named_iff_ends (List.find?_some hfind)
    have hmem : m.mUunm ∈ names hist := List.mem_map_of_mem (List.mem_of_find?_eq_some hfind)
    constructor
    · intro hunloads _ _ m' hfind' _
      obtain rfl := Option.some.inj (hfind.symm.trans hfind')
      exact hends.mp (hunloads _ hmem ((hgone _ hmem).mpr rfl)).1
    · intro hspared n hn hn'
      obtain rfl := (hgone n hn).mp hn'
      exact ⟨hends.mpr (hspared hnull hanswer m hfind hfunc),
        fun n' hn'' hgone' => (hgone n' hn'').mp hgone'⟩
  · have hnone : ∀ m, ¬Finds env moduleName answer hist.process.g_LocModList m :=
      fun m hm => hfinds ⟨m, hm⟩
    refine iff_of_true (fun n hn hn' => ?_) fun hnull hanswer m hfind hfunc => ?_
    · rw [names, call, freeUnusedModule_of_not hnone] at hn'
      exact absurd hn hn'
    · exact absurd ⟨hnull, hanswer, hfind, hfunc⟩ (hnone m)

/-! ### Runs -/

/-- The libraries that are open are those of the listed modules. -/
theorem Idle.opens (h : Idle lib hist) (n : CString) :
    hist.process.opens n = listed hist.process.g_LocModList n := by
  have hnone : holders (held hist.process.calls) n = 0 := by
    rw [holders, Finset.filter_false_of_mem, Finset.card_empty]
    intro t _
    rw [held, show t = () from rfl, h.returned]
    exact fun h => by cases h
  rw [h.accounted.opens n, hnone, Nat.zero_add]

section Runs

variable (lib : CString → Library Object) (env : Platform)

def step (h : History Object) (c : Call) : Option (History Object) := some (call lib env h c)

/-- The right modules are unloaded, and what is unloaded is closed. -/
structure Right (h h' : History Object) (c : Call) : Prop where
  unloads : Unloads env h h' c
  opens : ∀ n, h'.process.opens n = listed h'.process.g_LocModList n

variable {lib env}

/-- **Every call** keeps the counts. -/
theorem idle_call (env : Platform) (h : Idle lib hist) (c : Call) :
    Idle lib (call lib env hist c) := by
  cases c with
  | acquireClassObject req found allocated => exact idle_acquireClassObject h req found allocated
  | freeUnusedModules answers => exact idle_freeUnusedModules h answers
  | freeUnusedModule moduleName answer => exact idle_freeUnusedModule h moduleName answer

theorem unloads_acquireClassObject (h : Idle lib hist) (req : Request) (found allocated : Bool) :
    Unloads env hist (call lib env hist (.acquireClassObject req found allocated))
      (.acquireClassObject req found allocated) := by
  intro n hn
  rw [names, call]
  rcases acquire_cases lib env req found allocated h.returned with
    ⟨-, hlist⟩ | ⟨-, -, hlist | ⟨m, -, -, hlist⟩⟩
  · rw [hlist, names_eq, map_key_resetAskCount, ← names_eq]
    exact hn
  · rw [hlist]
    exact hn
  · rw [hlist]
    exact List.mem_cons_of_mem _ hn

/-- **One call.** -/
theorem right_call_iff (h : Idle lib hist) (c : Call) :
    Right env hist (call lib env hist c) c ↔ Spared env hist c := by
  have hopens := (idle_call env h c).opens
  have hiff : Right env hist (call lib env hist c) c ↔ Unloads env hist (call lib env hist c) c :=
    ⟨Right.unloads, fun hunloads => ⟨hunloads, hopens⟩⟩
  rw [hiff]
  cases c with
  | acquireClassObject req found allocated =>
    exact iff_of_true (unloads_acquireClassObject h req found allocated) trivial
  | freeUnusedModules answers => exact iff_of_true (unloads_freeUnusedModules h answers) trivial
  | freeUnusedModule moduleName answer => exact unloads_freeUnusedModule_iff h moduleName answer

theorem idle_init : Idle lib ({} : History Object) :=
  ⟨accounted_init, rfl, .nil, fun _ hm => absurd hm List.not_mem_nil⟩

/-- **Idle modules.** Along a sequence of calls, each unloads the modules that it should, and no
others, if and only if each name by which a module is unloaded ends the `mUunm` that it has been
found in. -/
theorem unloads_iff (lib : CString → Library Object) (env : Platform) (cs : List Call) :
    Trace.Meets (step lib env) (fun h c => Right env h (call lib env h c) c) {} cs ↔
      Trace.Meets (step lib env) (Spared env) {} cs :=
  Trace.meets_iff (I := Idle lib) (fun _ c h => right_call_iff h c)
    (fun _ c _ h _ hstep => Option.some.inj hstep ▸ idle_call env h c) idle_init

end Runs

/-! ### A longer name -/

/-- A library that may always be unloaded. -/
def ready (_ : CString) : Library Unit := ⟨some fun _ _ => (NOERROR, some ()), true⟩

/-- `"a.eco.old"`. -/
def old : CString := ⟨[0x61, 0x2E, 0x65, 0x63, 0x6F, 0x2E, 0x6F, 0x6C, 0x64], by decide⟩

/-- `"a.eco"`. -/
def eco : ElString := .ofChars (some ⟨[0x61, 0x2E, 0x65, 0x63, 0x6F], by decide⟩)

/-- The module `a.eco.old` is unloaded as `a.eco`. -/
theorem not_unloads_old : ∃ h, Trace.run (step ready plain) {}
      [.acquireClassObject ⟨⟨1, 2, 3, 4⟩, old, EIID_IClassObject⟩ true true] = some h ∧
    ¬Unloads plain h (call ready plain h (.freeUnusedModule eco NOERROR))
      (.freeUnusedModule eco NOERROR) := by
  refine ⟨_, rfl, fun hunloads => ?_⟩
  obtain ⟨hnamed | ⟨path, hpath⟩, -⟩ := hunloads old (by decide) (by decide)
  · exact absurd hnamed (by decide)
  · have hsuffix : 0x2F :: characters plain eco <:+ characters plain (.ofChars (some old)) :=
      ⟨path, hpath.symm⟩
    exact absurd hsuffix (by decide)

end ElastosCar.IdleModules
