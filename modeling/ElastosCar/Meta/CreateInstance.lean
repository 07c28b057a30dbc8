import ElastosCar.Meta.LocalModules

/-!
# Objects with several interfaces

`_CObject_CreateInstanceEx` of `carapi.cpp` acquires the class object, has it make an object with
the first of the interfaces that are asked for, and probes the object for the others. An interface
that is not there sets `ec`, which is what the call returns and what each entry after it gets.

* `refs_probeResults`, `mEC_probeResults`: what the loop does to the references and the codes.
* `answers_iff`: the entries say which of them has an object, exactly if none is supported behind
  one that is not, and if those that a failed call leaves alone said so before.
* `createInstance_spec`: with one interface nothing goes wrong.
-/

namespace ElastosCar.CreateInstance

open LocalModules (EIID_IClassObject E_CLASS_NOT_AVAILABLE)

def E_NOT_IMPLEMENTED : ECode := 0x80090000

/-- The code of a function that fails. -/
abbrev Failure := {ec : ECode // failed ec = true}

/-- The code of a function that does not. -/
abbrev Success := {ec : ECode // failed ec = false}

/-! ### Class objects -/

/-- How objects answer `Probe`: those that are got from an object by it answer as the object. -/
structure Interfaces where
  Probe : ℕ → EMuid → Option ℕ
  alike : ∀ object iid p, Probe object iid = some p → Probe p = Probe object

/-- What a class object has: what its `mCreateObjectFunc` answers, if that is not `NULL`. -/
structure ClassObject where
  mCreateObjectFunc : Option (Except Failure (Success × ℕ))

/-- The references to the object that is made, and to the class object. -/
structure Refs where
  object : ℕ
  classObject : ℕ
deriving DecidableEq, Repr

namespace Refs

/-- `AddRef` and `Release` of the object. -/
def addRef (refs : Refs) : Refs := { refs with object := refs.object + 1 }

def release (refs : Refs) : Refs := { refs with object := refs.object - 1 }

end Refs

/-- `_CBaseClassObject::CreateObject`, and what it leaves at `retObject`. -/
def ClassObject.CreateObject (c : ClassObject) (env : Interfaces) (riid : EMuid)
    (retObject : Option ℕ) (refs : Refs) : ECode × Option ℕ × Refs :=
  match c.mCreateObjectFunc with
  | none => (E_CLASS_NOT_AVAILABLE, retObject, refs)
  | some (.error ec) => (ec, retObject, refs)
  | some (.ok (ec, object)) =>
    -- `mCreateObjectFunc` returns the object with a reference
    let refs := refs.addRef
    match env.Probe object riid with
    | none => (E_NO_INTERFACE, none, refs.release)
    | some p => (ec, some p, refs.addRef.release)

/-! ### Regimes -/

abbrev PRegime := UInt32

def RGM_INVALID_DOMAIN : PRegime := 0

def RGM_SAME_DOMAIN : PRegime := 1

def RGM_DIFF_DOMAIN : PRegime := 2

def RGM_DEFAULT : PRegime := 3

def RGM_DIFF_MACHINE : PRegime := 4

def IS_INVALID_REGIME (regime : PRegime) : Bool := regime = RGM_INVALID_DOMAIN

def IS_RGM_NUMBER (regime : PRegime) : Bool :=
  !IS_INVALID_REGIME regime && (regime = RGM_SAME_DOMAIN || regime = RGM_DIFF_DOMAIN ||
    regime = RGM_DEFAULT || regime = RGM_DIFF_MACHINE)

/-- What `AcquireClassObjectFromLocalModule` answers for the class and an interface id. -/
abbrev LocalModule := EMuid → Except Failure (Success × ClassObject)

def _CObject_AcquireClassFactory (localModule : LocalModule) (regime : PRegime) (riid : EMuid) :
    Except Failure (Success × ClassObject) :=
  if IS_INVALID_REGIME regime then .error ⟨E_INVALID_ARGUMENT, by decide⟩
  else if regime = RGM_SAME_DOMAIN then localModule riid
  else .error ⟨E_NOT_IMPLEMENTED, by decide⟩

/-! ### Instances -/

/-- An entry of `results`. -/
structure CarMultiQI where
  mIID : EMuid
  mObject : Option ℕ
  mEC : ECode
deriving DecidableEq, Repr

/-- What a call returns and leaves. -/
structure Outcome where
  ec : ECode
  results : List CarMultiQI
  refs : Refs
deriving DecidableEq, Repr

/-- The loop of `_CObject_CreateInstanceEx`. -/
def probeResults (env : Interfaces) (object : ℕ) : List CarMultiQI → ECode → Refs → Outcome
  | [], ec, refs => ⟨ec, [], refs⟩
  | r :: results, ec, refs =>
    let mObject := env.Probe object r.mIID
    let ec := if mObject = none then E_NO_INTERFACE else ec
    let refs := if mObject = none then refs else refs.addRef
    let o := probeResults env object results ec refs
    { o with results := { r with mObject := mObject, mEC := ec } :: o.results }

/-- The arguments for a class, with at least one entry, and what the call meets. -/
structure Call where
  env : Interfaces
  localModule : LocalModule
  regime : PRegime
  result : CarMultiQI
  others : List CarMultiQI

def _CObject_CreateInstanceEx (c : Call) (refs : Refs) : Outcome :=
  if IS_INVALID_REGIME c.regime then ⟨E_INVALID_ARGUMENT, c.result :: c.others, refs⟩
  else match _CObject_AcquireClassFactory c.localModule c.regime EIID_IClassObject with
  | .error ec => ⟨ec, c.result :: c.others, refs⟩
  | .ok (ec, clsObject) =>
    let refs := { refs with classObject := refs.classObject + 1 }
    let r := clsObject.CreateObject c.env c.result.mIID c.result.mObject refs
    let result := { c.result with mEC := r.1, mObject := r.2.1 }
    let refs := { r.2.2 with classObject := r.2.2.classObject - 1 }
    if failed result.mEC then ⟨result.mEC, result :: c.others, refs⟩
    else match result.mObject with
    -- not reached: a code that does not fail comes with an object
    | none => ⟨ec, result :: c.others, refs⟩
    | some object =>
      let o := probeResults c.env object c.others ec refs
      { o with results := result :: o.results }

/-- `_CObject_CreateInstance`, and what it leaves at `obj`. `regimeObject` is `CreateObject` of a
regime that is no number. -/
def _CObject_CreateInstance (env : Interfaces) (localModule : LocalModule)
    (regimeObject : EMuid → Option ℕ → Refs → ECode × Option ℕ × Refs) (regime : PRegime)
    (riid : EMuid) (obj : Option ℕ) (refs : Refs) : ECode × Option ℕ × Refs :=
  if IS_INVALID_REGIME regime then (E_INVALID_ARGUMENT, obj, refs)
  else if !IS_RGM_NUMBER regime then regimeObject riid obj refs
  else
    let o := _CObject_CreateInstanceEx ⟨env, localModule, regime, ⟨riid, none, 0⟩, []⟩ refs
    (o.ec, if failed o.ec then obj else o.results.head?.bind CarMultiQI.mObject, o.refs)

/-! ### How far a creation comes -/

/-- Where the creation ends, with what the functions have answered until then. -/
inductive Creation
  | noClass (ec : Failure)
  | noObject (ec : Failure)
  | noInterface
  | made (acquired created : Success) (object p : ℕ)

/-- What comes of the class object. -/
def Call.created (c : Call) (acquired : Success) (clsObject : ClassObject) : Creation :=
  match clsObject.mCreateObjectFunc with
  | none => .noObject ⟨E_CLASS_NOT_AVAILABLE, by decide⟩
  | some (.error ec) => .noObject ec
  | some (.ok (created, object)) =>
    match c.env.Probe object c.result.mIID with
    | none => .noInterface
    | some p => .made acquired created object p

def Call.creation (c : Call) : Creation :=
  match _CObject_AcquireClassFactory c.localModule c.regime EIID_IClassObject with
  | .error ec => .noClass ec
  | .ok (acquired, clsObject) => c.created acquired clsObject

/-- What a call does that has come so far. -/
def Call.outcome (c : Call) (refs : Refs) : Creation → Outcome
  | .noClass ec => ⟨ec, c.result :: c.others, refs⟩
  | .noObject ec => ⟨ec, { c.result with mEC := ec } :: c.others, refs⟩
  | .noInterface =>
    ⟨E_NO_INTERFACE, { c.result with mEC := E_NO_INTERFACE, mObject := none } :: c.others, refs⟩
  | .made acquired created _ p =>
    let o := probeResults c.env p c.others acquired refs.addRef
    { o with results := { c.result with mEC := created, mObject := some p } :: o.results }

theorem _CObject_CreateInstanceEx_eq (c : Call) (refs : Refs) :
    _CObject_CreateInstanceEx c refs = c.outcome refs c.creation := by
  rw [_CObject_CreateInstanceEx, Call.creation]
  by_cases hregime : IS_INVALID_REGIME c.regime = true
  · rw [if_pos hregime, _CObject_AcquireClassFactory, if_pos hregime]
    rfl
  rw [if_neg hregime]
  rcases _CObject_AcquireClassFactory c.localModule c.regime EIID_IClassObject with
    ec | ⟨acquired, clsObject⟩
  · rfl
  dsimp only
  rw [ClassObject.CreateObject, Call.created]
  rcases clsObject.mCreateObjectFunc with _ | ec | ⟨created, object⟩
  · rfl
  · dsimp only
    rw [if_pos ec.2]
    rfl
  · rcases hp : c.env.Probe object c.result.mIID with _ | p
    · simp only [hp]
      rfl
    · simp only [hp, created.2]
      rfl

/-! ### The loop -/

section Loop

variable {env : Interfaces} {object : ℕ} {results : List CarMultiQI} {ec : ECode} {refs : Refs}

theorem map_mIID_probeResults :
    (probeResults env object results ec refs).results.map CarMultiQI.mIID =
      results.map CarMultiQI.mIID := by
  induction results generalizing ec refs with
  | nil => rfl
  | cons r results ih => exact congrArg (r.mIID :: ·) ih

theorem mObject_probeResults :
    ∀ r ∈ (probeResults env object results ec refs).results,
      r.mObject = env.Probe object r.mIID := by
  induction results generalizing ec refs with
  | nil => exact nofun
  | cons r results ih =>
    intro r' hr'
    rcases List.mem_cons.mp hr' with rfl | hr'
    · rfl
    · exact ih r' hr'

/-- Each object comes with a reference. -/
theorem refs_probeResults :
    (probeResults env object results ec refs).refs = { refs with
      object := refs.object +
        (probeResults env object results ec refs).results.countP fun r => r.mObject.isSome } := by
  induction results generalizing ec refs with
  | nil => rfl
  | cons r results ih =>
    rw [probeResults]
    rcases hp : env.Probe object r.mIID with _ | p
    · simp only [if_true]
      rw [ih, List.countP_cons_of_neg (by exact Bool.false_ne_true)]
    · simp only [reduceCtorEq, if_false]
      rw [ih, List.countP_cons_of_pos (by rfl), Refs.addRef]
      simp only [Refs.mk.injEq, and_true]
      omega

/-- The call succeeds if all of the interfaces are there. -/
theorem failed_probeResults :
    failed (probeResults env object results ec refs).ec = false ↔
      failed ec = false ∧ ∀ r ∈ results, env.Probe object r.mIID ≠ none := by
  induction results generalizing ec refs with
  | nil => exact ⟨fun h => ⟨h, nofun⟩, And.left⟩
  | cons r results ih =>
    have hec : failed E_NO_INTERFACE ≠ false := by decide
    rw [probeResults, ih, List.forall_mem_cons]
    split_ifs with hp
    · exact iff_of_false (fun h => hec h.1) fun h => h.2.1 hp
    · exact and_congr_right' (and_iff_right hp).symm

/-- An entry has the code of those before it. -/
theorem mEC_probeResults :
    (∀ r ∈ (probeResults env object results ec refs).results,
      failed r.mEC = false ↔ r.mObject ≠ none) ↔
      (failed ec = true → ∀ r ∈ results, env.Probe object r.mIID = none) ∧
        results.Pairwise fun r r' =>
          env.Probe object r'.mIID ≠ none → env.Probe object r.mIID ≠ none := by
  induction results generalizing ec refs with
  | nil => exact iff_of_true nofun ⟨nofun, .nil⟩
  | cons r results ih =>
    rw [probeResults, List.forall_mem_cons, ih, List.forall_mem_cons, List.pairwise_cons]
    dsimp only
    by_cases hp : env.Probe object r.mIID = none
    · have hec : failed E_NO_INTERFACE = true := by decide
      rw [if_pos hp, hec]
      constructor
      · rintro ⟨-, hnone, hpair⟩
        exact ⟨fun _ => ⟨hp, hnone rfl⟩, fun r' hr' hne => absurd (hnone rfl r' hr') hne, hpair⟩
      · rintro ⟨-, hnone, hpair⟩
        refine ⟨iff_of_false Bool.noConfusion fun h => h hp, fun _ r' hr' => ?_, hpair⟩
        by_contra hne
        exact hnone r' hr' hne hp
    · rw [if_neg hp]
      constructor
      · rintro ⟨hcode, -, hpair⟩
        have hec := hcode.mpr hp
        exact ⟨fun h => absurd (hec.symm.trans h) Bool.false_ne_true, fun _ _ _ => hp, hpair⟩
      · rintro ⟨hnone, -, hpair⟩
        have hec : failed ec = false := by
          by_contra h
          exact hp (hnone (eq_true_of_ne_false h)).1
        exact ⟨iff_of_true hec hp, fun h => absurd (hec.symm.trans h) Bool.false_ne_true, hpair⟩

end Loop

/-! ### What the entries say -/

/-- The object that is made and kept. -/
def Creation.object : Creation → Option ℕ
  | .made _ _ object _ => some object
  | _ => none

/-- The object has an interface, which is at `p`. -/
def Call.Supports (c : Call) (iid : EMuid) (p : ℕ) : Prop :=
  ∃ object, c.creation.object = some object ∧ c.env.Probe object iid = some p

/-- **What a call is to answer.** -/
structure Answers (c : Call) (refs : Refs) (o : Outcome) : Prop where
  ids : o.results.map CarMultiQI.mIID = (c.result :: c.others).map CarMultiQI.mIID
  entries : ∀ r ∈ o.results,
    failed r.mEC = false ↔ ∃ p, r.mObject = some p ∧ c.Supports r.mIID p
  references : o.refs =
    { refs with object := refs.object + o.results.countP fun r => r.mObject.isSome }
  code : failed o.ec = false ↔ ∀ r ∈ o.results, failed r.mEC = false
  nothing : c.creation.object = none → (∀ r ∈ o.results, r.mObject = none) ∧ o.refs = refs

/-- An entry says that it has no object. -/
def CarMultiQI.Empty (r : CarMultiQI) : Prop := r.mObject = none ∧ failed r.mEC = true

/-- No interface is there that stands behind one that is not; and where no object is made, what the
call leaves alone is empty. -/
def Call.Sorted (c : Call) : Prop :=
  match c.creation with
  | .noClass _ => ∀ r ∈ c.result :: c.others, r.Empty
  | .noObject _ => c.result.mObject = none ∧ ∀ r ∈ c.others, r.Empty
  | .noInterface => ∀ r ∈ c.others, r.Empty
  | .made _ _ object _ => c.others.Pairwise fun r r' =>
      c.env.Probe object r'.mIID ≠ none → c.env.Probe object r.mIID ≠ none

variable {c : Call} {refs : Refs} {o : Outcome}

/-- A call that fails before there is an object. -/
theorem answers_iff_of_failed (hobject : c.creation.object = none) (hec : failed o.ec = true)
    (hids : o.results.map CarMultiQI.mIID = (c.result :: c.others).map CarMultiQI.mIID)
    (hrefs : o.refs = refs) : Answers c refs o ↔ ∀ r ∈ o.results, r.Empty := by
  have hsupports : ∀ iid p, ¬c.Supports iid p := by
    rintro iid p ⟨object, h, -⟩
    exact nomatch hobject.symm.trans h
  constructor
  · intro h r hr
    refine ⟨(h.nothing hobject).1 r hr, eq_true_of_ne_false fun hok => ?_⟩
    obtain ⟨p, -, hp⟩ := (h.entries r hr).mp hok
    exact hsupports _ p hp
  · intro h
    refine ⟨hids, fun r hr => iff_of_false ?_ ?_, ?_, iff_of_false ?_ ?_, fun _ => ⟨?_, hrefs⟩⟩
    · exact ne_false_of_eq_true (h r hr).2
    · exact fun ⟨p, _, hp⟩ => hsupports _ p hp
    · have hcount : (o.results.countP fun r => r.mObject.isSome) = 0 :=
        List.countP_eq_zero.mpr fun r hr => by
          rw [(h r hr).1]
          exact Bool.false_ne_true
      rw [hrefs, hcount]
      rfl
    · exact ne_false_of_eq_true hec
    · intro hall
      obtain ⟨r, hr⟩ : ∃ r, r ∈ o.results := by
        refine List.exists_mem_of_ne_nil _ fun hnil => ?_
        rw [hnil] at hids
        exact nomatch hids
      exact nomatch (h r hr).2.symm.trans (hall r hr)
    · exact fun r hr => (h r hr).1

/-- The interface that is asked for first. -/
theorem Call.probe_of_made {acquired created : Success} {object p : ℕ}
    (h : c.creation = .made acquired created object p) :
    c.env.Probe object c.result.mIID = some p := by
  rw [Call.creation] at h
  split at h
  · exact nomatch h
  · rw [Call.created] at h
    split at h
    · exact nomatch h
    · exact nomatch h
    · split at h
      · exact nomatch h
      · next hp =>
        obtain ⟨-, -, rfl, rfl⟩ := Creation.made.inj h
        exact hp

theorem answers_iff_of_made {acquired created : Success} {object p : ℕ}
    (h : c.creation = .made acquired created object p) :
    Answers c refs (c.outcome refs (.made acquired created object p)) ↔
      c.others.Pairwise fun r r' =>
        c.env.Probe object r'.mIID ≠ none → c.env.Probe object r.mIID ≠ none := by
  have hprobe := c.probe_of_made h
  have halike : c.env.Probe p = c.env.Probe object := c.env.alike object _ p hprobe
  have hsupports : ∀ iid q, c.Supports iid q ↔ c.env.Probe object iid = some q := by
    intro iid q
    rw [Call.Supports, h]
    exact ⟨fun ⟨_, heq, hq⟩ => Option.some.inj heq ▸ hq, fun hq => ⟨object, rfl, hq⟩⟩
  have hfirst : ∃ q, some p = some q ∧ c.Supports c.result.mIID q :=
    ⟨p, rfl, (hsupports _ p).mpr hprobe⟩
  rw [Call.outcome]
  generalize ho : probeResults c.env p c.others acquired refs.addRef = o
  have hids : o.results.map CarMultiQI.mIID = c.others.map CarMultiQI.mIID :=
    ho ▸ map_mIID_probeResults
  have hobjects : ∀ r ∈ o.results, r.mObject = c.env.Probe object r.mIID := by
    rw [← ho, ← halike]
    exact mObject_probeResults
  have hgot : ∀ r ∈ o.results, (∃ q, r.mObject = some q ∧ c.Supports r.mIID q) ↔
      r.mObject ≠ none := by
    intro r hr
    rw [Option.ne_none_iff_exists']
    refine ⟨fun ⟨q, hq, _⟩ => ⟨q, hq⟩, fun ⟨q, hq⟩ => ⟨q, hq, ?_⟩⟩
    rw [hsupports, ← hobjects r hr, hq]
  have hcodes : (∀ r ∈ o.results, failed r.mEC = false ↔ r.mObject ≠ none) ↔
      c.others.Pairwise fun r r' =>
        c.env.Probe object r'.mIID ≠ none → c.env.Probe object r.mIID ≠ none := by
    rw [← ho, mEC_probeResults, halike]
    exact and_iff_right fun hfailed => absurd (acquired.2.symm.trans hfailed) Bool.false_ne_true
  constructor
  · intro hright
    refine hcodes.mp fun r hr => ?_
    exact (hright.entries r (List.mem_cons_of_mem _ hr)).trans (hgot r hr)
  · intro hpair
    have hcodes := hcodes.mpr hpair
    refine ⟨congrArg (c.result.mIID :: ·) hids, ?_, ?_, ?_, fun hnone => ?_⟩
    · rw [List.forall_mem_cons]
      exact ⟨iff_of_true created.2 hfirst, fun r hr => (hcodes r hr).trans (hgot r hr).symm⟩
    · dsimp only
      rw [List.countP_cons_of_pos (by rfl), ← ho, refs_probeResults, Refs.addRef]
      simp only [Refs.mk.injEq, and_true]
      omega
    · have hcode : failed o.ec = false ↔ ∀ r ∈ c.others, c.env.Probe object r.mIID ≠ none := by
        rw [← ho, failed_probeResults, halike]
        exact and_iff_right acquired.2
      have hall : (∀ r ∈ c.others, c.env.Probe object r.mIID ≠ none) ↔
          ∀ r ∈ o.results, c.env.Probe object r.mIID ≠ none := by
        have hmap : ∀ l : List CarMultiQI, (∀ r ∈ l, c.env.Probe object r.mIID ≠ none) ↔
            ∀ iid ∈ l.map CarMultiQI.mIID, c.env.Probe object iid ≠ none :=
          fun l => by rw [List.forall_mem_map]
        rw [hmap, hmap, hids]
      rw [List.forall_mem_cons]
      refine (hcode.trans hall).trans ?_
      rw [and_iff_right created.2]
      refine forall₂_congr fun r hr => ?_
      rw [← hobjects r hr]
      exact (hcodes r hr).symm
    · rw [h] at hnone
      exact nomatch hnone

/-- **The entries say which of them has an object**, and hold a reference each, and the call
succeeds if all of them do, exactly if no interface is there that stands behind one that is not, and
what a call that makes no object leaves alone was empty. -/
theorem answers_iff (c : Call) (refs : Refs) :
    Answers c refs (_CObject_CreateInstanceEx c refs) ↔ c.Sorted := by
  have hnone : failed E_NO_INTERFACE = true := by decide
  rw [_CObject_CreateInstanceEx_eq, Call.Sorted]
  rcases hc : c.creation with ec | ec | _ | ⟨acquired, created, object, p⟩
  · exact answers_iff_of_failed (by rw [hc]; rfl) ec.2 rfl rfl
  · refine (answers_iff_of_failed (o := c.outcome refs (.noObject ec)) (by rw [hc]; rfl) ec.2 rfl
      rfl).trans ?_
    exact List.forall_mem_cons.trans (and_congr_left' (and_iff_left ec.2))
  · refine (answers_iff_of_failed (o := c.outcome refs .noInterface) (by rw [hc]; rfl) hnone rfl
      rfl).trans ?_
    exact List.forall_mem_cons.trans (and_iff_right ⟨rfl, hnone⟩)
  · exact answers_iff_of_made hc

/-- An object with the first and the third of three interfaces. The third is got, and has the code
of the second. -/
theorem not_answers_third :
    ∃ c : Call, c.creation.object = some 1 ∧
      (_CObject_CreateInstanceEx c ⟨0, 0⟩).results =
        [⟨⟨1, 0, 0, 0⟩, some 1, NOERROR⟩, ⟨⟨2, 0, 0, 0⟩, none, E_NO_INTERFACE⟩,
          ⟨⟨3, 0, 0, 0⟩, some 1, E_NO_INTERFACE⟩] ∧
      ¬Answers c ⟨0, 0⟩ (_CObject_CreateInstanceEx c ⟨0, 0⟩) := by
  let env : Interfaces :=
    { Probe := fun _ iid => if iid = ⟨2, 0, 0, 0⟩ then none else some 1
      alike := fun _ _ _ _ => rfl }
  let c : Call :=
    { env := env
      localModule := fun _ => .ok (⟨NOERROR, rfl⟩, ⟨some (.ok (⟨NOERROR, rfl⟩, 1))⟩)
      regime := RGM_SAME_DOMAIN
      result := ⟨⟨1, 0, 0, 0⟩, none, NOERROR⟩
      others := [⟨⟨2, 0, 0, 0⟩, none, NOERROR⟩, ⟨⟨3, 0, 0, 0⟩, none, NOERROR⟩] }
  refine ⟨c, rfl, rfl, fun h => ?_⟩
  have hthird := (h.entries ⟨⟨3, 0, 0, 0⟩, some 1, E_NO_INTERFACE⟩ (by decide)).mpr
    ⟨1, rfl, 1, rfl, rfl⟩
  exact absurd hthird (by decide)

/-! ### One interface -/

/-- **`_CObject_CreateInstance`** gives the interface with a reference, or fails and leaves all as
it was. -/
theorem createInstance_spec (env : Interfaces) (localModule : LocalModule)
    (regimeObject : EMuid → Option ℕ → Refs → ECode × Option ℕ × Refs) {regime : PRegime}
    (hregime : IS_RGM_NUMBER regime = true) (riid : EMuid) (obj : Option ℕ) (refs : Refs) :
    (∃ ec p, _CObject_CreateInstance env localModule regimeObject regime riid obj refs =
        (ec, some p, refs.addRef) ∧ failed ec = false ∧
        Call.Supports ⟨env, localModule, regime, ⟨riid, none, 0⟩, []⟩ riid p) ∨
      ∃ ec, _CObject_CreateInstance env localModule regimeObject regime riid obj refs =
        (ec, obj, refs) ∧ failed ec = true := by
  have hvalid : IS_INVALID_REGIME regime = false := by
    rw [IS_RGM_NUMBER, Bool.and_eq_true, Bool.not_eq_true'] at hregime
    exact hregime.1
  rw [_CObject_CreateInstance, hvalid, hregime, if_neg Bool.false_ne_true, Bool.not_true,
    if_neg Bool.false_ne_true]
  dsimp only
  rw [_CObject_CreateInstanceEx_eq]
  generalize hcall : (⟨env, localModule, regime, ⟨riid, none, 0⟩, []⟩ : Call) = c
  have hfail : ∀ {o : Outcome}, failed o.ec = true → o.refs = refs →
      ∃ ec, (o.ec, if failed o.ec = true then obj else o.results.head?.bind CarMultiQI.mObject,
        o.refs) = (ec, obj, refs) ∧ failed ec = true :=
    fun {o} hec hrefs => ⟨o.ec, by rw [if_pos hec, hrefs], hec⟩
  rcases hc : c.creation with ec | ec | _ | ⟨acquired, created, object, p⟩
  · exact .inr (hfail ec.2 rfl)
  · exact .inr (hfail ec.2 rfl)
  · have hnone : failed E_NO_INTERFACE = true := by decide
    exact .inr (hfail hnone rfl)
  · have hprobe := c.probe_of_made hc
    subst hcall
    refine .inl ⟨acquired, p, ?_, acquired.2, object, by rw [hc]; rfl, hprobe⟩
    rw [Call.outcome, probeResults]
    dsimp only
    rw [if_neg (ne_true_of_eq_false acquired.2)]
    rfl

end ElastosCar.CreateInstance
