import ElastosCar.Lib.Trace
import ElastosCar.Types

/-!
# The service manager and the death of binders

The name table of `ServiceManager.cpp`: `ADD_SERVICE` enters a binder under a name and links a
`ServiceDeathRecipient` with that name to the binder; `GET_SERVICE` looks a name up; `REMOVE_SERVICE`
erases it. The recipients are kept alive by `mSdrList` alone, and a recipient acts by its name: when its
binder dies it erases whatever the name stands for then.

Of libbinder the model has what its interface documents: `linkToDeath` on a binder that has died does
nothing, the recipients of a binder are held weakly and are called in the order they were linked, and
the death of a binder is reported once.

`ServiceRegistry` says what the table is for. A death agrees with it exactly when no recipient of the
dead binder has a name that another binder has taken over (`death_precise`).
-/

namespace ElastosCar

variable {Binder : Type}

/-- `InterfacePack` of `marshal_ipc.h`. -/
structure InterfacePack (Binder : Type) where
  m_clsid : EMuid
  m_uIndex : UInt32
  m_pBinder : Binder
deriving DecidableEq, Repr

/-- A `ServiceDeathRecipient`: its address and its `mName`. -/
structure ServiceDeathRecipient where
  address : ℕ
  mName : CarString
deriving DecidableEq, Repr

/-- The `ServiceManager`, and what libbinder knows of the binders. -/
structure ServiceManager (Binder : Type) where
  mServices : CarString → Option (InterfacePack Binder) := fun _ => none
  mSdrList : List ServiceDeathRecipient := []
  /-- The recipients linked to a binder, in the order they were linked. -/
  linked : Binder → List ServiceDeathRecipient := fun _ => []
  /-- The binders whose death has been reported. -/
  died : Binder → Bool := fun _ => false
  /-- The address of the next recipient. -/
  fresh : ℕ := 0

/-- The requests; `allocated` says whether the `malloc` of `ADD_SERVICE` succeeds. -/
inductive ServiceRequest (Binder : Type)
  | addService (name : CarString) (ip : InterfacePack Binder) (allocated : Bool)
  | getService (name : CarString)
  | removeService (name : CarString)
  | checkService (name : CarString)
deriving DecidableEq, Repr

/-- What the reply parcel has: the code and, if it succeeded, the pack with its binder. -/
structure ServiceReply (Binder : Type) where
  ec : ECode
  ip : Option (InterfacePack Binder) := none
deriving DecidableEq, Repr

namespace ServiceManager

def AddService (s : ServiceManager Binder) (name : CarString) (ip : InterfacePack Binder) :
    ECode × ServiceManager Binder :=
  (NOERROR, { s with mServices := Function.update s.mServices name (some ip) })

def GetService (s : ServiceManager Binder) (name : CarString) : ServiceReply Binder :=
  match s.mServices name with
  | none => ⟨E_FAIL, none⟩
  | some ip => ⟨NOERROR, some ip⟩

def RemoveService (s : ServiceManager Binder) (name : CarString) : ECode × ServiceManager Binder :=
  match s.mServices name with
  | some _ => (NOERROR, { s with mServices := Function.update s.mServices name none })
  | none => (NOERROR, s)

theorem mServices_RemoveService (s : ServiceManager Binder) (name : CarString) :
    (s.RemoveService name).2.mServices = Function.update s.mServices name none := by
  unfold RemoveService
  cases h : s.mServices name with
  | some ip => rfl
  | none => exact (Function.update_eq_self_iff.mpr h.symm).symm

def CheckService (s : ServiceManager Binder) (name : CarString) : ServiceReply Binder :=
  match s.mServices name with
  | none => ⟨E_FAIL, none⟩
  | some ip => ⟨NOERROR, some ip⟩

/-- `ServiceDeathRecipient::binderDied`: the list is searched only if the name was found. -/
def binderDied (s : ServiceManager Binder) (sdr : ServiceDeathRecipient) : ServiceManager Binder :=
  match s.mServices sdr.mName with
  | some _ =>
    { s with
      mServices := Function.update s.mServices sdr.mName none
      mSdrList := s.mSdrList.erase sdr }
  | none => s

theorem mServices_binderDied (s : ServiceManager Binder) (sdr : ServiceDeathRecipient) :
    (s.binderDied sdr).mServices = Function.update s.mServices sdr.mName none := by
  unfold binderDied
  cases h : s.mServices sdr.mName with
  | some ip => rfl
  | none => exact (Function.update_eq_self_iff.mpr h.symm).symm

/-- libbinder calls a recipient if it can still be promoted. -/
def reportOneDeath (s : ServiceManager Binder) (sdr : ServiceDeathRecipient) :
    ServiceManager Binder :=
  if sdr ∈ s.mSdrList then s.binderDied sdr else s

/-- What the call of a recipient leaves alone. -/
theorem reportOneDeath_frame (s : ServiceManager Binder) (sdr : ServiceDeathRecipient) :
    (s.reportOneDeath sdr).linked = s.linked ∧ (s.reportOneDeath sdr).died = s.died ∧
      (s.reportOneDeath sdr).fresh = s.fresh := by
  unfold reportOneDeath binderDied
  split
  · split <;> exact ⟨rfl, rfl, rfl⟩
  · exact ⟨rfl, rfl, rfl⟩

variable [DecidableEq Binder]

/-- The obituary of a binder: its recipients are called, one after the other. -/
def sendObituary (s : ServiceManager Binder) (b : Binder) : ServiceManager Binder :=
  (s.linked b).foldl reportOneDeath
    { s with
      died := Function.update s.died b true
      linked := Function.update s.linked b [] }

/-- `linkToDeath`. -/
def linkToDeath (s : ServiceManager Binder) (b : Binder) (sdr : ServiceDeathRecipient) :
    ServiceManager Binder :=
  if s.died b then s
  else { s with linked := Function.update s.linked b (s.linked b ++ [sdr]) }

/-- `ServiceManager::onTransact`. -/
def onTransact (s : ServiceManager Binder) :
    ServiceRequest Binder → ServiceReply Binder × ServiceManager Binder
  | .addService name ip allocated =>
    if allocated then
      let (ec, s) := s.AddService name ip
      let sdr : ServiceDeathRecipient := ⟨s.fresh, name⟩
      let s := { s with fresh := s.fresh + 1 }.linkToDeath ip.m_pBinder sdr
      (⟨ec, none⟩, { s with mSdrList := s.mSdrList ++ [sdr] })
    else (⟨E_OUT_OF_MEMORY, none⟩, s)
  | .getService name => (s.GetService name, s)
  | .removeService name =>
    let (ec, s) := s.RemoveService name
    (⟨ec, none⟩, s)
  | .checkService name => (s.CheckService name, s)

end ServiceManager

/-- What happens to the service manager. -/
inductive ServiceEvent (Binder : Type)
  | request (r : ServiceRequest Binder)
  | death (b : Binder)
deriving DecidableEq, Repr

namespace ServiceManager

variable [DecidableEq Binder]

/-- One event; a death is reported once. -/
def step (s : ServiceManager Binder) : ServiceEvent Binder → Option (ServiceManager Binder)
  | .request r => some (s.onTransact r).2
  | .death b => if s.died b then none else some (s.sendObituary b)

end ServiceManager

/-! ### What the table is for -/

/-- The latest registration of each name that is neither removed nor dead. -/
abbrev ServiceRegistry (Binder : Type) := CarString → Option (InterfacePack Binder)

namespace ServiceRegistry

variable [DecidableEq Binder]

/-- A death removes the registrations of the dead binder and no others. -/
def bury (g : ServiceRegistry Binder) (b : Binder) : ServiceRegistry Binder :=
  fun name => (g name).filter fun ip => ip.m_pBinder ≠ b

def event (g : ServiceRegistry Binder) : ServiceEvent Binder → ServiceRegistry Binder
  | .request (.addService name ip true) => Function.update g name (some ip)
  | .request (.removeService name) => Function.update g name none
  | .request _ => g
  | .death b => g.bury b

/-- The registrations after a history. -/
def after (events : List (ServiceEvent Binder)) : ServiceRegistry Binder :=
  events.foldl event fun _ => none

/-- What a lookup should reply. -/
def reply (g : ServiceRegistry Binder) (name : CarString) : ServiceReply Binder :=
  (g name).elim ⟨E_FAIL, none⟩ fun ip => ⟨NOERROR, some ip⟩

end ServiceRegistry

namespace ServiceManager

theorem GetService_eq (s : ServiceManager Binder) (name : CarString) :
    s.GetService name = ServiceRegistry.reply s.mServices name := by
  unfold GetService ServiceRegistry.reply
  cases s.mServices name <;> rfl

/-- `CheckService` is a copy of `GetService`. -/
theorem CheckService_eq (s : ServiceManager Binder) (name : CarString) :
    s.CheckService name = s.GetService name := rfl

/-! ### The recipients of the live binders -/

/-- What holds in every state: the recipients linked to live binders are alive, belong to one binder
each, and a registration with a live binder has one of its own name. -/
structure Inv (s : ServiceManager Binder) : Prop where
  alive : ∀ b, ∀ sdr ∈ s.linked b, sdr ∈ s.mSdrList
  own : ∀ b b', ∀ sdr ∈ s.linked b, sdr ∈ s.linked b' → b = b'
  fresh : ∀ sdr ∈ s.mSdrList, sdr.address < s.fresh
  watched : ∀ name ip, s.mServices name = some ip → s.died ip.m_pBinder = false →
    ∃ sdr ∈ s.linked ip.m_pBinder, sdr.mName = name

theorem inv_init : ({} : ServiceManager Binder).Inv where
  alive := fun _ _ hsdr => (List.not_mem_nil hsdr).elim
  own := fun _ _ _ hsdr => (List.not_mem_nil hsdr).elim
  fresh := fun _ hsdr => (List.not_mem_nil hsdr).elim
  watched := fun _ _ h => nomatch h

theorem Inv.removeService {s : ServiceManager Binder} (hinv : s.Inv) (name : CarString) : (s.RemoveService name).2.Inv := by
  have hservices := mServices_RemoveService s name
  unfold RemoveService at hservices ⊢
  split at hservices
  · refine ⟨hinv.alive, hinv.own, hinv.fresh, fun n p hp hlive => ?_⟩
    change Function.update s.mServices name none n = some p at hp
    by_cases hn : n = name
    · rw [hn, Function.update_self] at hp
      cases hp
    · rw [Function.update_of_ne hn] at hp
      exact hinv.watched n p hp hlive
  · exact hinv

/-- The names of the recipients of a binder stand for that binder or for nothing. -/
def OwnNames (s : ServiceManager Binder) (b : Binder) : Prop :=
  ∀ sdr ∈ s.linked b, ∀ ip, s.mServices sdr.mName = some ip → ip.m_pBinder = b

section Calls

variable {s : ServiceManager Binder} {sdr : ServiceDeathRecipient} {sdrs : List ServiceDeathRecipient}

theorem mem_mSdrList_reportOneDeath {r : ServiceDeathRecipient} (h : r ∈ s.mSdrList) (hne : r ≠ sdr) :
    r ∈ (s.reportOneDeath sdr).mSdrList := by
  unfold reportOneDeath binderDied
  split
  · split
    · exact (List.mem_erase_of_ne hne).mpr h
    · exact h
  · exact h

theorem mSdrList_reportOneDeath_subset :
    ∀ r ∈ (s.reportOneDeath sdr).mSdrList, r ∈ s.mSdrList := by
  unfold reportOneDeath binderDied
  split
  · split
    · exact fun r hr => List.mem_of_mem_erase hr
    · exact fun r hr => hr
  · exact fun r hr => hr

/-- A recipient that is called takes its name off the table. It is not called again, so a recipient
that was linked twice would find the name gone. -/
theorem mServices_reportOneDeath (h : sdr ∈ s.mSdrList ∨ s.mServices sdr.mName = none) :
    (s.reportOneDeath sdr).mServices = Function.update s.mServices sdr.mName none := by
  unfold reportOneDeath
  split
  · exact mServices_binderDied s sdr
  · rename_i hmem
    exact (Function.update_eq_self_iff.mpr (h.resolve_left hmem).symm).symm

/-- The calls of all recipients of a binder take exactly their names off the table. -/
theorem mServices_foldl_reportOneDeath
    (h : ∀ r ∈ sdrs, r ∈ s.mSdrList ∨ s.mServices r.mName = none) (name : CarString) :
    (sdrs.foldl reportOneDeath s).mServices name =
      if name ∈ sdrs.map (·.mName) then none else s.mServices name := by
  induction sdrs generalizing s with
  | nil => rfl
  | cons sdr sdrs ih =>
    have hcall := mServices_reportOneDeath (h sdr List.mem_cons_self)
    have hrest : ∀ r ∈ sdrs, r ∈ (s.reportOneDeath sdr).mSdrList ∨
        (s.reportOneDeath sdr).mServices r.mName = none := by
      intro r hr
      rw [hcall]
      by_cases hname : r.mName = sdr.mName
      · exact .inr (by rw [hname, Function.update_self])
      · rw [Function.update_of_ne hname]
        exact (h r (List.mem_cons_of_mem _ hr)).imp_left fun hmem =>
          mem_mSdrList_reportOneDeath hmem fun heq => hname (heq ▸ rfl)
    rw [List.foldl_cons, ih hrest, hcall, List.map_cons]
    by_cases hname : name = sdr.mName
    · rw [hname, Function.update_self, ite_self, if_pos List.mem_cons_self]
    · rw [Function.update_of_ne hname]
      simp only [List.mem_cons, hname, false_or]

theorem foldl_reportOneDeath_frame (s : ServiceManager Binder) (sdrs : List ServiceDeathRecipient) :
    (sdrs.foldl reportOneDeath s).linked = s.linked ∧
      (sdrs.foldl reportOneDeath s).died = s.died ∧
      (sdrs.foldl reportOneDeath s).fresh = s.fresh := by
  induction sdrs generalizing s with
  | nil => exact ⟨rfl, rfl, rfl⟩
  | cons sdr sdrs ih =>
    obtain ⟨hlinked, hdied, hfresh⟩ := reportOneDeath_frame s sdr
    obtain ⟨hlinked', hdied', hfresh'⟩ := ih (s.reportOneDeath sdr)
    exact ⟨hlinked'.trans hlinked, hdied'.trans hdied, hfresh'.trans hfresh⟩

theorem mSdrList_foldl_reportOneDeath_subset :
    ∀ r ∈ (sdrs.foldl reportOneDeath s).mSdrList, r ∈ s.mSdrList := by
  induction sdrs generalizing s with
  | nil => exact fun r hr => hr
  | cons sdr sdrs ih => exact fun r hr => mSdrList_reportOneDeath_subset r (ih r hr)

theorem mem_mSdrList_foldl_reportOneDeath {r : ServiceDeathRecipient} (h : r ∈ s.mSdrList)
    (hnot : r ∉ sdrs) : r ∈ (sdrs.foldl reportOneDeath s).mSdrList := by
  induction sdrs generalizing s with
  | nil => exact h
  | cons sdr sdrs ih =>
    obtain ⟨hne, hnot⟩ := not_or.mp (mt List.mem_cons.mpr hnot)
    exact ih (mem_mSdrList_reportOneDeath h hne) hnot

end Calls

variable [DecidableEq Binder] {s t : ServiceManager Binder} {b : Binder} {name : CarString}
  {ip : InterfacePack Binder} {events : List (ServiceEvent Binder)}

theorem mServices_sendObituary (hinv : s.Inv) (b : Binder) (name : CarString) :
    (s.sendObituary b).mServices name =
      if name ∈ (s.linked b).map (·.mName) then none else s.mServices name := by
  rw [sendObituary, mServices_foldl_reportOneDeath]
  exact fun r hr => .inl (hinv.alive b r hr)

theorem linked_sendObituary (s : ServiceManager Binder) (b : Binder) :
    (s.sendObituary b).linked = Function.update s.linked b [] :=
  (foldl_reportOneDeath_frame _ _).1

theorem died_sendObituary (s : ServiceManager Binder) (b : Binder) :
    (s.sendObituary b).died = Function.update s.died b true :=
  (foldl_reportOneDeath_frame _ _).2.1

theorem fresh_sendObituary (s : ServiceManager Binder) (b : Binder) :
    (s.sendObituary b).fresh = s.fresh :=
  (foldl_reportOneDeath_frame _ _).2.2

/-- **The death of a binder.** It removes exactly the registrations that refer to the binder if and
only if the names of its recipients were not taken over. -/
theorem bury_iff_ownNames (hinv : s.Inv) (hlive : s.died b = false) :
    (s.sendObituary b).mServices = ServiceRegistry.bury s.mServices b ↔ s.OwnNames b := by
  constructor
  · intro h sdr hsdr ip hip
    by_contra hne
    have hnone : (s.sendObituary b).mServices sdr.mName = none := by
      rw [mServices_sendObituary hinv, if_pos (List.mem_map_of_mem hsdr)]
    have hsome : ServiceRegistry.bury s.mServices b sdr.mName = some ip := by
      rw [ServiceRegistry.bury, hip, Option.filter_some, if_pos (decide_eq_true hne)]
    rw [← h, hnone] at hsome
    cases hsome
  · intro hown
    funext name
    rw [mServices_sendObituary hinv, ServiceRegistry.bury]
    cases hip : s.mServices name with
    | none => exact ite_self _
    | some ip =>
      rw [Option.filter_some]
      by_cases hb : ip.m_pBinder = b
      · -- a registration with the dead binder has a recipient, since the binder was alive
        obtain ⟨sdr, hsdr, rfl⟩ := hinv.watched name ip hip (hb ▸ hlive)
        rw [if_pos (List.mem_map_of_mem (hb ▸ hsdr)), if_neg (by simpa using hb)]
      · have hnot : name ∉ (s.linked b).map (·.mName) := by
          intro hmem
          obtain ⟨sdr, hsdr, rfl⟩ := List.mem_map.mp hmem
          exact hb (hown sdr hsdr ip hip)
        rw [if_neg hnot, if_pos (decide_eq_true hb)]

/-! ### Runs -/

theorem Inv.sendObituary (hinv : s.Inv) (b : Binder) : (s.sendObituary b).Inv where
  alive := by
    intro b' sdr hsdr
    rw [linked_sendObituary] at hsdr
    by_cases hb : b' = b
    · rw [hb, Function.update_self] at hsdr
      exact (List.not_mem_nil hsdr).elim
    · rw [Function.update_of_ne hb] at hsdr
      exact mem_mSdrList_foldl_reportOneDeath (hinv.alive b' sdr hsdr)
        fun hmem => hb (hinv.own b' b sdr hsdr hmem)
  own := by
    intro b₁ b₂ sdr h₁ h₂
    rw [linked_sendObituary] at h₁ h₂
    have hsub : ∀ b', sdr ∈ Function.update s.linked b [] b' → sdr ∈ s.linked b' := by
      intro b' h
      by_cases hb : b' = b
      · rw [hb, Function.update_self] at h
        exact (List.not_mem_nil h).elim
      · rwa [Function.update_of_ne hb] at h
    exact hinv.own b₁ b₂ sdr (hsub b₁ h₁) (hsub b₂ h₂)
  fresh := by
    intro sdr hsdr
    have hmem := mSdrList_foldl_reportOneDeath_subset sdr hsdr
    rw [fresh_sendObituary]
    exact hinv.fresh sdr hmem
  watched := by
    intro name ip hip hlive
    rw [mServices_sendObituary hinv] at hip
    have hname : name ∉ (s.linked b).map (·.mName) := fun hmem => by
      rw [if_pos hmem] at hip
      cases hip
    rw [if_neg hname] at hip
    rw [died_sendObituary] at hlive
    have hb : ip.m_pBinder ≠ b := fun hb => by
      rw [hb, Function.update_self] at hlive
      cases hlive
    rw [Function.update_of_ne hb] at hlive
    rw [linked_sendObituary, Function.update_of_ne hb]
    exact hinv.watched name ip hip hlive

/-- The state after a successful `ADD_SERVICE`. -/
theorem onTransact_addService (s : ServiceManager Binder) (name : CarString)
    (ip : InterfacePack Binder) :
    (s.onTransact (.addService name ip true)).2 =
      { s with
        mServices := Function.update s.mServices name (some ip)
        mSdrList := s.mSdrList ++ [⟨s.fresh, name⟩]
        linked := if s.died ip.m_pBinder then s.linked
          else Function.update s.linked ip.m_pBinder (s.linked ip.m_pBinder ++ [⟨s.fresh, name⟩])
        fresh := s.fresh + 1 } := by
  by_cases h : s.died ip.m_pBinder = true
  · simp only [onTransact, AddService, linkToDeath, if_true, h]
  · simp only [onTransact, AddService, linkToDeath, if_true, h, Bool.false_eq_true, if_false]

theorem Inv.addService (hinv : s.Inv) (name : CarString) (ip : InterfacePack Binder) :
    (s.onTransact (.addService name ip true)).2.Inv := by
  rw [onTransact_addService]
  have hlink : ∀ b, ∀ sdr ∈ (if s.died ip.m_pBinder then s.linked else
      Function.update s.linked ip.m_pBinder (s.linked ip.m_pBinder ++ [⟨s.fresh, name⟩])) b,
      sdr ∈ s.linked b ∨ sdr = ⟨s.fresh, name⟩ ∧ b = ip.m_pBinder := by
    intro b sdr hsdr
    split at hsdr
    · exact .inl hsdr
    · by_cases hb : b = ip.m_pBinder
      · rw [hb, Function.update_self] at hsdr
        rw [hb]
        exact (List.mem_append.mp hsdr).imp_right fun h => ⟨List.mem_singleton.mp h, rfl⟩
      · rw [Function.update_of_ne hb] at hsdr
        exact .inl hsdr
  -- the new recipient has an address of its own
  have hnew : ∀ b, (⟨s.fresh, name⟩ : ServiceDeathRecipient) ∉ s.linked b := fun b hmem =>
    Nat.lt_irrefl _ (hinv.fresh _ (hinv.alive b _ hmem))
  constructor
  · intro b sdr hsdr
    rcases hlink b sdr hsdr with h | ⟨rfl, -⟩
    · exact List.mem_append_left _ (hinv.alive b sdr h)
    · exact List.mem_append_right _ List.mem_cons_self
  · intro b b' sdr hsdr hsdr'
    rcases hlink b sdr hsdr with h | ⟨rfl, rfl⟩
    · rcases hlink b' sdr hsdr' with h' | ⟨rfl, rfl⟩
      · exact hinv.own b b' sdr h h'
      · exact (hnew b h).elim
    · rcases hlink b' _ hsdr' with h' | ⟨-, hb'⟩
      · exact (hnew b' h').elim
      · exact hb'.symm
  · intro sdr hsdr
    rcases List.mem_append.mp hsdr with h | h
    · exact Nat.lt_succ_of_lt (hinv.fresh sdr h)
    · rw [List.mem_singleton.mp h]
      exact Nat.lt_succ_self _
  · intro n p hp hlive
    change Function.update s.mServices name (some ip) n = some p at hp
    by_cases hn : n = name
    · rw [hn, Function.update_self] at hp
      cases hp
      refine ⟨⟨s.fresh, name⟩, ?_, hn.symm⟩
      change s.died ip.m_pBinder = false at hlive
      simp only [hlive, Bool.false_eq_true, if_false, Function.update_self]
      exact List.mem_append_right _ List.mem_cons_self
    · rw [Function.update_of_ne hn] at hp
      obtain ⟨sdr, hsdr, hname⟩ := hinv.watched n p hp hlive
      refine ⟨sdr, ?_, hname⟩
      change sdr ∈ (if s.died ip.m_pBinder then s.linked else _) p.m_pBinder
      split
      · exact hsdr
      · by_cases hb : p.m_pBinder = ip.m_pBinder
        · rw [hb, Function.update_self]
          exact List.mem_append_left _ (hb ▸ hsdr)
        · rwa [Function.update_of_ne hb]

theorem Inv.onTransact (hinv : s.Inv) (r : ServiceRequest Binder) : (s.onTransact r).2.Inv := by
  cases r with
  | addService name ip allocated =>
    cases allocated with
    | true => exact hinv.addService name ip
    | false => exact hinv
  | getService name => exact hinv
  | removeService name => exact hinv.removeService name
  | checkService name => exact hinv

theorem step_death {t : ServiceManager Binder} :
    s.step (.death b) = some t ↔ s.died b = false ∧ s.sendObituary b = t := by
  simp only [step, Option.ite_none_left_eq_some, Bool.not_eq_true, Option.some.injEq]

theorem Inv.step {e : ServiceEvent Binder} (hinv : s.Inv) (h : s.step e = some t) : t.Inv := by
  cases e with
  | request r => exact Option.some.inj h ▸ hinv.onTransact r
  | death b =>
    obtain ⟨-, rfl⟩ := step_death.mp h
    exact hinv.sendObituary b

theorem inv_of_run (h : Trace.run step ({} : ServiceManager Binder) events = some t) : t.Inv :=
  Trace.run_induction (fun _ _ _ hinv h => hinv.step h) inv_init h

theorem mServices_onTransact (s : ServiceManager Binder) (r : ServiceRequest Binder) :
    (s.onTransact r).2.mServices = ServiceRegistry.event s.mServices (.request r) := by
  cases r with
  | addService name ip allocated =>
    cases allocated with
    | true => rw [onTransact_addService]; rfl
    | false => rfl
  | getService name => rfl
  | removeService name => exact mServices_RemoveService s name
  | checkService name => rfl

/-- A death finds the names of the recipients not taken over. -/
def Unreplaced (s : ServiceManager Binder) : ServiceEvent Binder → Prop
  | .request _ => True
  | .death b => s.OwnNames b

theorem mServices_step {e : ServiceEvent Binder} (hinv : s.Inv) (hok : s.Unreplaced e)
    (h : s.step e = some t) : t.mServices = ServiceRegistry.event s.mServices e := by
  cases e with
  | request r => exact Option.some.inj h ▸ mServices_onTransact s r
  | death b =>
    obtain ⟨hlive, rfl⟩ := step_death.mp h
    exact (bury_iff_ownNames hinv hlive).mpr hok

theorem mServices_run {g : ServiceRegistry Binder} (hinv : s.Inv) (hg : s.mServices = g)
    (hmeets : Trace.Meets step Unreplaced s events) (hrun : Trace.run step s events = some t) :
    t.mServices = events.foldl ServiceRegistry.event g := by
  induction events generalizing s g with
  | nil => exact Option.some.inj hrun ▸ hg
  | cons e events ih =>
    obtain ⟨s', hstep, hrun⟩ := Trace.run_cons_eq_some.mp hrun
    exact ih (hinv.step hstep) (hg ▸ mServices_step hinv hmeets.1 hstep) (hmeets.2 s' hstep) hrun

/-- A service by its name and binder. -/
private def service (name : CarString) (b : ℕ) : ServiceEvent ℕ :=
  .request (.addService name ⟨⟨0, 0, 0, 0⟩, 0, b⟩ true)

private def audio : CarString := some ⟨[0x61], zero_notMem_a⟩

private def media : CarString := some ⟨[0x6D], zero_notMem_m⟩

end ServiceManager

end ElastosCar
