import ElastosCar.Lib.Loop
import ElastosCar.Meta.LocalModules

/-!
# The modules at the end of a process

`FreeCurProcComponents` of `locmod.cpp` goes through the list of local modules until none can be
unloaded any more. It begins anew behind a module that it has unloaded, since another module may be
idle now, and goes on behind one that answers `S_FALSE`.

The test for a new beginning is `S_FALSE != ecCur`, so that it begins anew behind an error code,
too; and then nothing has changed.

* `accounted_freeCurProcComponents`: the libraries that are closed are those of the modules that
  are unlisted.
* `freeCurProcComponents_iff`: the walk comes to an end exactly if it meets no error code.
-/

namespace ElastosCar.LocalModules

open Loop Sharing

variable {Object : Type}

/-! ### The walk -/

/-- What the module at a position of the list answers, while that list is loaded. -/
abbrev Answers (Object : Type) := List (LocalModule Object) → ℕ → ECode

structure Walk (Object : Type) where
  /-- The modules before `curModule`. -/
  passed : List (LocalModule Object) := []
  /-- `curModule` and the modules behind it. -/
  rest : List (LocalModule Object)
  opens : Opens
  /-- The positions of the modules that have been asked since a module was unloaded, and what they
  have answered. -/
  answered : List (ℕ × ECode) := []

def Walk.g_LocModList (w : Walk Object) : List (LocalModule Object) := w.passed ++ w.rest

/-- `curModule` is unlisted, closed and deleted. -/
def Walk.unload (w : Walk Object) (m : LocalModule Object) (rest : List (LocalModule Object)) :
    Walk Object :=
  { rest := w.passed ++ rest, opens := dlclose m.mUunm w.opens }

/-- From the head of the list. -/
def Walk.restart (w : Walk Object) : Walk Object := { w with passed := [], rest := w.g_LocModList }

/-- On to the next module. -/
def Walk.goOn (w : Walk Object) (m : LocalModule Object) (rest : List (LocalModule Object)) :
    Walk Object :=
  { w with passed := w.passed ++ [m], rest := rest }

/-- A module without the function counts as one that answers `S_FALSE`. -/
def Walk.ecCur (answers : Answers Object) (w : Walk Object) (m : LocalModule Object) : ECode :=
  if m.mDllCanUnloadNowFunc then answers w.g_LocModList w.passed.length else S_FALSE

/-- The answer is kept. -/
def Walk.ask (answers : Answers Object) (w : Walk Object) (m : LocalModule Object) : Walk Object :=
  if m.mDllCanUnloadNowFunc then
    { w with answered := (w.passed.length, w.ecCur answers m) :: w.answered }
  else w

/-- One turn of the loop. -/
def Walk.next (answers : Answers Object) (w : Walk Object) : Option (Walk Object) :=
  match w.rest with
  | [] => none
  | m :: rest => some <|
    if w.ecCur answers m = NOERROR then w.unload m rest
    else if w.ecCur answers m ≠ S_FALSE then (w.ask answers m).restart
    else (w.ask answers m).goOn m rest

/-- `FreeCurProcComponents`, of at most `fuel` turns; besides the process, what the modules have
answered since the last of them was unloaded. -/
def FreeCurProcComponents (answers : Answers Object) (fuel : ℕ) {Thread : Type}
    (s : Process Thread Object) : Option (Process Thread Object × List (ℕ × ECode)) :=
  (loop (Walk.next answers) fuel { rest := s.g_LocModList, opens := s.opens }).map fun w =>
    ({ s with g_LocModList := w.g_LocModList, opens := w.opens }, w.answered)

/-! ### What should hold -/

/-- What the loop takes for the answer of the module at a position. -/
def ecCur (answers : Answers Object) (ms : List (LocalModule Object)) (i : ℕ) : ECode :=
  if (ms[i]?.map LocalModule.mDllCanUnloadNowFunc).getD false then answers ms i else S_FALSE

/-- Every module that is left has answered, unless it has no such function, and has not answered
`NOERROR`. -/
def Left (ms : List (LocalModule Object)) (answered : List (ℕ × ECode)) : Prop :=
  ∀ i m, ms[i]? = some m → m.mDllCanUnloadNowFunc = true →
    (∃ ec, (i, ec) ∈ answered) ∧ ∀ ec, (i, ec) ∈ answered → ec ≠ NOERROR

/-- From the head on, all modules answer `S_FALSE`, or the first one that does not answers
`NOERROR`, and the same is so once it is unloaded. -/
inductive Settles (answers : Answers Object) : List (LocalModule Object) → Prop
  | silent {ms : List (LocalModule Object)} (h : ∀ i < ms.length, ecCur answers ms i = S_FALSE) :
      Settles answers ms
  | unload {ms : List (LocalModule Object)} (i : ℕ) (hi : i < ms.length)
      (hsilent : ∀ j < i, ecCur answers ms j = S_FALSE) (h : ecCur answers ms i = NOERROR)
      (hrest : Settles answers (ms.eraseIdx i)) : Settles answers ms

/-! ### One turn -/

section Turns

variable {answers : Answers Object} {w w' t : Walk Object} {m : LocalModule Object}
  {ms rest : List (LocalModule Object)}

theorem list_eq (hrest : w.rest = m :: rest) : w.g_LocModList = w.passed ++ m :: rest := by
  rw [Walk.g_LocModList, hrest]

theorem ecCur_eq (hrest : w.rest = m :: rest) :
    ecCur answers w.g_LocModList w.passed.length = w.ecCur answers m := by
  have hget : w.g_LocModList[w.passed.length]? = some m := by
    rw [list_eq hrest, List.getElem?_append_right le_rfl, Nat.sub_self, List.getElem?_cons_zero]
  rw [ecCur, hget, Option.map_some, Option.getD_some, Walk.ecCur]

@[simp]
theorem ask_passed : (w.ask answers m).passed = w.passed := by
  rw [Walk.ask]
  split_ifs <;> rfl

@[simp]
theorem ask_rest : (w.ask answers m).rest = w.rest := by
  rw [Walk.ask]
  split_ifs <;> rfl

@[simp]
theorem ask_opens : (w.ask answers m).opens = w.opens := by
  rw [Walk.ask]
  split_ifs <;> rfl

@[simp]
theorem ask_list : (w.ask answers m).g_LocModList = w.g_LocModList := by
  rw [Walk.g_LocModList, ask_passed, ask_rest, Walk.g_LocModList]

@[simp]
theorem restart_list : w.restart.g_LocModList = w.g_LocModList := rfl

theorem goOn_list (hrest : w.rest = m :: rest) : (w.goOn m rest).g_LocModList = w.g_LocModList := by
  rw [list_eq hrest, Walk.goOn, Walk.g_LocModList, List.append_assoc, List.singleton_append]

theorem unload_list (hrest : w.rest = m :: rest) :
    (w.unload m rest).g_LocModList = w.g_LocModList.eraseIdx w.passed.length := by
  rw [list_eq hrest, List.eraseIdx_append_of_length_le le_rfl, Nat.sub_self,
    List.eraseIdx_cons_zero]
  rfl

/-- **What one turn does**, by the answer of the module. -/
theorem next_cases (h : w.next answers = some w') : ∃ m rest, w.rest = m :: rest ∧
    (w.ecCur answers m = NOERROR ∧ w' = w.unload m rest ∨
      w.ecCur answers m ≠ NOERROR ∧ w' = (w.ask answers m).restart ∨
      w.ecCur answers m = S_FALSE ∧ w' = (w.ask answers m).goOn m rest) := by
  rw [Walk.next] at h
  rcases hrest : w.rest with _ | ⟨m, rest⟩ <;> rw [hrest] at h
  · exact absurd h nofun
  · refine ⟨m, rest, rfl, ?_⟩
    rw [← Option.some.inj h]
    split_ifs with hok hsilent
    · exact .inl ⟨hok, rfl⟩
    · exact .inr (.inl ⟨hok, rfl⟩)
    · exact .inr (.inr ⟨not_not.mp hsilent, rfl⟩)

theorem rest_eq_nil (h : w.next answers = none) : w.rest = [] := by
  rw [Walk.next] at h
  rcases hrest : w.rest with _ | ⟨m, rest⟩
  · rfl
  · rw [hrest] at h
    exact absurd h nofun

/-! ### On the way to the end -/

/-- **A walk that comes to an end has met no error code.** -/
theorem settles_of_returns (h : Returns (Walk.next answers) w t)
    (hpassed : ∀ j < w.passed.length, ecCur answers w.g_LocModList j = S_FALSE) :
    Settles answers w.g_LocModList := by
  refine h.head_induction (P := fun w =>
    (∀ j < w.passed.length, ecCur answers w.g_LocModList j = S_FALSE) →
      Settles answers w.g_LocModList) (fun hend hpassed => ?_)
    (fun w w' hnext ih hpassed => ?_) hpassed
  · refine .silent fun i hi => hpassed i ?_
    rwa [Walk.g_LocModList, rest_eq_nil hend, List.append_nil] at hi
  · obtain ⟨m, rest, hrest, ⟨hok, rfl⟩ | ⟨-, rfl⟩ | ⟨hsilent, rfl⟩⟩ := next_cases hnext
    · rw [unload_list hrest] at ih
      refine .unload w.passed.length ?_ hpassed ((ecCur_eq hrest).trans hok) (ih nofun)
      rw [list_eq hrest, List.length_append, List.length_cons]
      exact Nat.lt_add_of_pos_right (Nat.succ_pos _)
    · rw [restart_list, ask_list] at ih
      exact ih nofun
    · have hrest' : (w.ask answers m).rest = m :: rest := ask_rest.trans hrest
      rw [goOn_list hrest', ask_list] at ih
      refine ih fun j hj => ?_
      rw [Walk.goOn, ask_passed, List.length_append, List.length_singleton] at hj
      rcases Nat.lt_succ_iff_lt_or_eq.mp hj with hj | rfl
      · exact hpassed j hj
      · exact (ecCur_eq hrest).trans hsilent

/-- The modules that are passed have answered, and no answer is `NOERROR`. -/
def Walk.Left (w : Walk Object) : Prop :=
  (∀ i < w.passed.length, ∀ m, w.g_LocModList[i]? = some m → m.mDllCanUnloadNowFunc = true →
    ∃ ec, (i, ec) ∈ w.answered) ∧
  ∀ a ∈ w.answered, a.2 ≠ NOERROR

theorem left_next (h : w.Left) (hnext : w.next answers = some w') : w'.Left := by
  obtain ⟨m, rest, hrest, hcases⟩ := next_cases hnext
  have hask : w.ecCur answers m ≠ NOERROR → ∀ a ∈ (w.ask answers m).answered, a.2 ≠ NOERROR := by
    intro hec a ha
    rw [Walk.ask] at ha
    split_ifs at ha
    · rcases List.mem_cons.mp ha with rfl | ha
      · exact hec
      · exact h.2 a ha
    · exact h.2 a ha
  rcases hcases with ⟨-, rfl⟩ | ⟨hec, rfl⟩ | ⟨hec, rfl⟩
  · exact ⟨nofun, nofun⟩
  · exact ⟨nofun, hask hec⟩
  · refine ⟨fun i hi m' hm' hfunc => ?_, hask (hec ▸ by decide)⟩
    have hrest' : (w.ask answers m).rest = m :: rest := ask_rest.trans hrest
    rw [goOn_list hrest', ask_list] at hm'
    rw [Walk.goOn, ask_passed, List.length_append, List.length_singleton] at hi
    change ∃ ec, (i, ec) ∈ (w.ask answers m).answered
    rcases Nat.lt_succ_iff_lt_or_eq.mp hi with hi | rfl
    · obtain ⟨ec, hec⟩ := h.1 i hi m' hm' hfunc
      refine ⟨ec, ?_⟩
      rw [Walk.ask]
      split_ifs
      · exact List.mem_cons_of_mem _ hec
      · exact hec
    · rw [list_eq hrest, List.getElem?_append_right le_rfl, Nat.sub_self,
        List.getElem?_cons_zero] at hm'
      rw [← Option.some.inj hm'] at hfunc
      rw [Walk.ask, if_pos hfunc]
      exact ⟨_, List.mem_cons_self⟩

/-- The modules that answer `S_FALSE` are passed. -/
theorem returns_of_passed (ms : List (LocalModule Object)) :
    ∀ w : Walk Object, w.rest = ms ++ rest →
      (∀ j < ms.length, ecCur answers w.g_LocModList (w.passed.length + j) = S_FALSE) →
      ∃ answered, ∀ t, Returns (Walk.next answers) ⟨w.passed ++ ms, rest, w.opens, answered⟩ t →
        Returns (Walk.next answers) w t := by
  induction ms with
  | nil =>
    intro w hrest _
    refine ⟨w.answered, fun t ht => ?_⟩
    rw [List.append_nil] at ht
    rw [List.nil_append] at hrest
    rwa [← hrest] at ht
  | cons m ms ih =>
    intro w hrest hsilent
    have hm : w.ecCur answers m = S_FALSE :=
      (ecCur_eq hrest).symm.trans (hsilent 0 (Nat.succ_pos _))
    have hnext : w.next answers = some ((w.ask answers m).goOn m (ms ++ rest)) := by
      rw [Walk.next, hrest, List.cons_append]
      dsimp only
      rw [hm, if_neg (by decide), if_neg (not_not.mpr rfl)]
    have hrest' : (w.ask answers m).rest = m :: (ms ++ rest) := ask_rest.trans hrest
    obtain ⟨answered, hreturns⟩ := ih ((w.ask answers m).goOn m (ms ++ rest)) rfl fun j hj => by
      rw [goOn_list hrest', ask_list, Walk.goOn, ask_passed, List.length_append,
        List.length_singleton, Nat.add_assoc, Nat.add_comm 1 j]
      exact hsilent (j + 1) (Nat.succ_lt_succ hj)
    refine ⟨answered, fun t ht => (returns_next hnext).mpr (hreturns t ?_)⟩
    simpa [Walk.goOn] using ht

/-- **A walk that meets no error code comes to an end.** -/
theorem returns_of_settles (h : Settles answers ms) (opens : Opens) (answered : List (ℕ × ECode)) :
    ∃ t, Returns (Walk.next answers) ⟨[], ms, opens, answered⟩ t := by
  induction h generalizing opens answered with
  | @silent ms h =>
    obtain ⟨answered', hreturns⟩ := returns_of_passed ms ⟨[], ms, opens, answered⟩
      (List.append_nil ms).symm fun j hj => (congrArg _ (Nat.zero_add j)).trans (h j hj)
    exact ⟨_, hreturns _ (returns_end rfl)⟩
  | @unload ms i hi hsilent h _ ih =>
    obtain ⟨answered', hreturns⟩ := returns_of_passed (ms.take i) ⟨[], ms, opens, answered⟩
      (List.take_append_drop i ms).symm fun j hj => by
        rw [List.length_nil, Nat.zero_add]
        exact hsilent j (lt_of_lt_of_le hj (List.length_take_le i ms))
    -- What is left is `unload` at the head of the rest, and the walk of the shorter list.
    let w : Walk Object := ⟨ms.take i, ms.drop i, opens, answered'⟩
    have hrest : w.rest = ms[i] :: ms.drop (i + 1) := List.drop_eq_getElem_cons hi
    have hlist : w.g_LocModList = ms := List.take_append_drop i ms
    have hlength : w.passed.length = i := List.length_take_of_le hi.le
    have hok : w.ecCur answers ms[i] = NOERROR := by
      rw [← ecCur_eq hrest, hlist, hlength]
      exact h
    have hnext : w.next answers = some (w.unload ms[i] (ms.drop (i + 1))) := by
      rw [Walk.next, hrest]
      dsimp only
      rw [if_pos hok]
    have herase : (w.unload ms[i] (ms.drop (i + 1))).rest = ms.eraseIdx i := by
      have hunload := unload_list hrest
      rwa [hlist, hlength] at hunload
    obtain ⟨t, ht⟩ := ih (dlclose ms[i].mUunm opens) []
    refine ⟨t, hreturns t ((returns_next hnext).mpr ?_)⟩
    rwa [← herase] at ht

end Turns

/-! ### The process -/

section Process

variable {Thread : Type} [Fintype Thread] {lib : CString → Library Object}
  {answers : Answers Object} {w w' : Walk Object} {s s' : Process Thread Object}
  {answered : List (ℕ × ECode)}

theorem listed_append (ms ms' : List (LocalModule Object)) (n : CString) :
    listed (ms ++ ms') n = listed ms n + listed ms' n := by
  rw [listed, List.map_append, List.count_append, listed, listed]

omit [Fintype Thread] in
theorem returns_of_free {fuel : ℕ}
    (h : FreeCurProcComponents answers fuel s = some (s', answered)) :
    ∃ w, Returns (Walk.next answers) { rest := s.g_LocModList, opens := s.opens } w ∧
      s' = { s with g_LocModList := w.g_LocModList, opens := w.opens } ∧ answered = w.answered := by
  obtain ⟨w, hw, heq⟩ := Option.map_eq_some_iff.mp h
  obtain ⟨rfl, rfl⟩ := Prod.mk.inj heq
  exact ⟨w, ⟨fuel, hw⟩, rfl, rfl⟩

/-- A library that is closed is that of a module which is unlisted. -/
structure Walk.Closed (s : Process Thread Object) (w : Walk Object) : Prop where
  opens : ∀ n, w.opens n = holders (held s.calls) n + listed w.g_LocModList n
  sublist : w.g_LocModList.Sublist s.g_LocModList

theorem closed_next (h : w.Closed s) (hnext : w.next answers = some w') : w'.Closed s := by
  obtain ⟨m, rest, hrest, ⟨-, rfl⟩ | ⟨-, rfl⟩ | ⟨-, rfl⟩⟩ := next_cases hnext
  · constructor
    · intro n
      have hn := h.opens n
      rw [list_eq hrest, listed_append, listed_cons] at hn
      change dlclose m.mUunm w.opens n = _ + listed (w.passed ++ rest) n
      rw [dlclose_apply, listed_append]
      omega
    · rw [unload_list hrest]
      exact (List.eraseIdx_sublist _ _).trans h.sublist
  · constructor
    · intro n
      rw [restart_list, ask_list]
      exact (congrFun ask_opens n).trans (h.opens n)
    · rw [restart_list, ask_list]
      exact h.sublist
  · have hlist := goOn_list (ask_rest.trans hrest : (w.ask answers m).rest = m :: rest)
    constructor
    · intro n
      rw [hlist, ask_list]
      exact (congrFun ask_opens n).trans (h.opens n)
    · rw [hlist, ask_list]
      exact h.sublist

/-- **What is closed is what is unlisted.** -/
theorem accounted_freeCurProcComponents {fuel : ℕ} (h : Accounted lib s)
    (hfree : FreeCurProcComponents answers fuel s = some (s', answered)) : Accounted lib s' := by
  obtain ⟨w, hw, rfl, -⟩ := returns_of_free hfree
  obtain ⟨hclosed, -⟩ := hw.invariant (I := Walk.Closed s)
    (fun w w' hw hnext => closed_next hw hnext) ⟨h.opens, .refl _⟩
  refine h.free (fun n => ?_) (hclosed.sublist.map _)
  rw [hclosed.opens, h.opens]
  exact Nat.add_right_comm _ _ _

omit [Fintype Thread] in
/-- **The end of a process.** `FreeCurProcComponents` comes to an end, with every module left having
answered something other than `NOERROR` since the last one was unloaded, if and only if no module
stands first among those that do not answer `S_FALSE` with an error code. -/
theorem freeCurProcComponents_iff (answers : Answers Object) (s : Process Thread Object) :
    ((∃ fuel, (FreeCurProcComponents answers fuel s).isSome) ∧
      ∀ fuel s' answered, FreeCurProcComponents answers fuel s = some (s', answered) →
        Left s'.g_LocModList answered) ↔
    Settles answers s.g_LocModList := by
  constructor
  · intro ⟨⟨fuel, hfuel⟩, _⟩
    obtain ⟨⟨s', answered⟩, hfree⟩ := Option.isSome_iff_exists.mp hfuel
    obtain ⟨w, hw, -, -⟩ := returns_of_free hfree
    exact settles_of_returns hw nofun
  · intro hsettles
    constructor
    · obtain ⟨w, fuel, hw⟩ := returns_of_settles hsettles s.opens []
      refine ⟨fuel, ?_⟩
      rw [FreeCurProcComponents, hw]
      rfl
    · intro fuel s' answered hfree
      obtain ⟨w, hw, rfl, rfl⟩ := returns_of_free hfree
      obtain ⟨⟨hpassed, hanswered⟩, hend⟩ := hw.invariant (I := Walk.Left)
        (fun w w' hw hnext => left_next hw hnext) ⟨nofun, nofun⟩
      intro i m hm hfunc
      refine ⟨hpassed i ?_ m hm hfunc, fun ec hec => hanswered (i, ec) hec⟩
      obtain ⟨hi, -⟩ := List.getElem?_eq_some_iff.mp hm
      rwa [Walk.g_LocModList, rest_eq_nil hend, List.append_nil] at hi

end Process

/-! ### A module in trouble -/

/-- A process with one module. -/
def single : Process Empty Unit where
  g_LocModList := [⟨⟨[0x6D], zero_notMem_m⟩, fun _ _ => (E_CLASS_NOT_AVAILABLE, none), true, 0⟩]
  opens _ := 1

/-- The module is asked again and again that answers an error code. -/
theorem not_returns_single :
    ¬∃ fuel, (FreeCurProcComponents (fun _ _ => E_INVALID_OPERATION) fuel single).isSome := by
  have hloop : ∀ fuel answered, loop (Walk.next fun _ _ => E_INVALID_OPERATION) fuel
      ⟨[], single.g_LocModList, single.opens, answered⟩ = none := by
    intro fuel
    induction fuel with
    | zero => exact fun _ => rfl
    | succ n ih =>
      intro answered
      have hnext : Walk.next (fun _ _ => E_INVALID_OPERATION)
          ⟨[], single.g_LocModList, single.opens, answered⟩ = some
            ⟨[], single.g_LocModList, single.opens, (0, E_INVALID_OPERATION) :: answered⟩ := rfl
      rw [loop_next hnext, ih]
  rintro ⟨fuel, h⟩
  rw [FreeCurProcComponents, hloop] at h
  exact absurd h nofun

end ElastosCar.LocalModules
