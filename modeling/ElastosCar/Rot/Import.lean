import ElastosCar.Lib.Trace
import ElastosCar.Types

/-!
# The import table and the life of a proxy

`linux_rpc/rot.cpp` keeps the proxies of a process in a hash table by net address, under
`g_importTableLock`. `CObjectProxy::Release` decrements the count, takes the proxy out of the
table when it was the last reference, and deletes it: three steps, between which other threads
run.

`UnregisterImportObject` answers `S_FALSE` when a lookup has revived the proxy in between, and
then nothing is deleted. It answers `E_NO_IMPORT_OBJECT` when another `Release` has been faster,
and then the proxy is deleted a second time. So everything depends on there being only one
`Release` between its decrement to zero and its removal: `lifetime_of_meets` shows that this is
enough.
-/

namespace ElastosCar

def E_NO_IMPORT_OBJECT : ECode := 0x80210000

/-- `Hash`. Net addresses are ASCII, so the sign of `char` does not matter. -/
def rotHash (key : CString) : Fin 24 :=
  ⟨(key.chars.foldl (fun h (c : UInt8) => 5 * h + c.toUInt32) 0 % 24).toNat, by
    rw [UInt32.toNat_mod]
    exact Nat.mod_lt _ (by decide)⟩

/-- `ImportObject`; the proxy is its number. -/
structure ImportObject where
  mNetAddress : CString
  mIProxy : ℕ
deriving DecidableEq, Repr

/-- Where a thread is in `CObjectProxy::Release`. -/
inductive Releasing
  | idle
  /-- The count of this proxy has been decremented to zero. -/
  | zero (p : ℕ)
  /-- `UnregisterImportObject` has returned this code. -/
  | unregistered (p : ℕ) (ec : ECode)
deriving DecidableEq, Repr

/-- The import table, the proxies, and the threads that use them. -/
structure ImportState where
  /-- `s_hashImportObjects`, without the heads of the lists. -/
  table : Fin 24 → List ImportObject := fun _ => []
  /-- The proxies created so far are those below this number. -/
  created : ℕ := 0
  mNetAddress : ℕ → CString := fun _ => ⟨[], by decide⟩
  mRef : ℕ → ℤ := fun _ => 0
  /-- How often the destructor was called. -/
  deletes : ℕ → ℕ := fun _ => 0
  /-- The references that threads hold: thread and proxy. -/
  held : List (ℕ × ℕ) := []
  thread : ℕ → Releasing := fun _ => .idle

/-- The atomic sections. The first argument is the thread. -/
inductive ImportAction
  /-- `CObjectProxy::S_CreateObject`, after a lookup under the same `g_marshalLock` has failed. -/
  | create (t : ℕ) (netAddress : CString)
  /-- `FindImportObject`. -/
  | find (t : ℕ) (netAddress : CString)
  | addRef (t p : ℕ)
  /-- `CObjectProxy::Release` up to its decrement. -/
  | release (t p : ℕ)
  /-- `UnregisterImportObject`. -/
  | unregister (t : ℕ)
  /-- The rest of `CObjectProxy::Release`. -/
  | finish (t : ℕ)
deriving DecidableEq, Repr

namespace ImportState

/-- The entry that a search for an address finds. -/
def lookup (s : ImportState) (a : CString) : Option ImportObject :=
  (s.table (rotHash a)).find? fun e => e.mNetAddress = a

/-- `S_CreateObject`: a new proxy, with one reference for its creator, in the table. -/
def createObject (t : ℕ) (a : CString) (s : ImportState) : ImportState :=
  { s with
    table := Function.update s.table (rotHash a) (⟨a, s.created⟩ :: s.table (rotHash a))
    created := s.created + 1
    mNetAddress := Function.update s.mNetAddress s.created a
    mRef := Function.update s.mRef s.created 1
    held := (t, s.created) :: s.held }

/-- `AddRef`, for a reference of the thread. -/
def addRef (t p : ℕ) (s : ImportState) : ImportState :=
  { s with mRef := Function.update s.mRef p (s.mRef p + 1), held := (t, p) :: s.held }

/-- `Release` up to its decrement. -/
def decrement (t p : ℕ) (s : ImportState) : ImportState :=
  { s with
    mRef := Function.update s.mRef p (s.mRef p - 1)
    held := s.held.erase (t, p)
    thread := Function.update s.thread t (if s.mRef p - 1 = 0 then .zero p else .idle) }

/-- Take the entry for an address out of its list. -/
def detach (a : CString) (s : ImportState) : ImportState :=
  { s with
    table := Function.update s.table (rotHash a)
      ((s.table (rotHash a)).eraseP fun e => e.mNetAddress = a) }

/-- `UnregisterImportObject`. -/
def unregisterImportObject (a : CString) (s : ImportState) : ECode × ImportState :=
  match s.lookup a with
  | none => (E_NO_IMPORT_OBJECT, s)
  | some e => if s.mRef e.mIProxy ≠ 0 then (S_FALSE, s) else (NOERROR, s.detach a)

/-- The thread goes on to another place. -/
def goto (t : ℕ) (r : Releasing) (s : ImportState) : ImportState :=
  { s with thread := Function.update s.thread t r }

/-- `delete this`. -/
def delete (p : ℕ) (s : ImportState) : ImportState :=
  { s with deletes := Function.update s.deletes p (s.deletes p + 1) }

/-- One atomic section. A thread uses only references that it holds, and is in one `Release` at
a time. -/
def step (s : ImportState) : ImportAction → Option ImportState
  | .create t a =>
    if s.thread t = .idle ∧ s.lookup a = none then some (s.createObject t a) else none
  | .find t a =>
    if s.thread t = .idle then (s.lookup a).map fun e => s.addRef t e.mIProxy else none
  | .addRef t p =>
    if s.thread t = .idle ∧ (t, p) ∈ s.held then some (s.addRef t p) else none
  | .release t p =>
    if s.thread t = .idle ∧ (t, p) ∈ s.held then some (s.decrement t p) else none
  | .unregister t =>
    match s.thread t with
    | .zero p =>
      let (ec, s) := s.unregisterImportObject (s.mNetAddress p)
      some (s.goto t (.unregistered p ec))
    | _ => none
  | .finish t =>
    match s.thread t with
    | .unregistered p ec =>
      some ((if ec = S_FALSE then s else s.delete p).goto t .idle)
    | _ => none

/-! ### The claim -/

/-- A proxy is deleted at most once, not while a thread holds a reference, and the table has no
deleted proxy. -/
structure Lifetime (s : ImportState) : Prop where
  once : ∀ p, s.deletes p ≤ 1
  held : ∀ r ∈ s.held, s.deletes r.2 = 0
  table : ∀ i, ∀ e ∈ s.table i, s.deletes e.mIProxy = 0

/-- A `Release` that takes the count to zero does so while no other one of the same proxy is
about to enter `UnregisterImportObject`. -/
def ReleasesAlone (s : ImportState) : ImportAction → Prop
  | .release _ p => s.mRef p = 1 → ∀ t, s.thread t ≠ .zero p
  | _ => True

/-- The proxy is in the table. -/
def Registered (s : ImportState) (p : ℕ) : Prop :=
  ⟨s.mNetAddress p, p⟩ ∈ s.table (rotHash (s.mNetAddress p))

/-- The number of references to a proxy. -/
def references (s : ImportState) (p : ℕ) : ℕ := (s.held.map Prod.snd).count p

/-- The invariant of the runs in which releases to zero do not overlap. -/
structure Sound (s : ImportState) : Prop where
  count : ∀ p, s.mRef p = s.references p
  entry : ∀ i, ∀ e ∈ s.table i,
    rotHash e.mNetAddress = i ∧ s.mNetAddress e.mIProxy = e.mNetAddress ∧ e.mIProxy < s.created
  nodup : ∀ i, ((s.table i).map ImportObject.mNetAddress).Nodup
  held : ∀ r ∈ s.held, s.Registered r.2
  alive : ∀ p, s.Registered p → s.deletes p = 0
  once : ∀ p, s.deletes p ≤ 1
  fresh : ∀ p, s.created ≤ p → s.deletes p = 0
  zero : ∀ t p, s.thread t = .zero p → s.Registered p
  alone : ∀ t t' p, s.thread t = .zero p → s.thread t' = .zero p → t = t'
  removed : ∀ t p ec, s.thread t = .unregistered p ec → ec ≠ S_FALSE →
    ¬ s.Registered p ∧ s.deletes p = 0 ∧ p < s.created
  removedOnce : ∀ t t' p ec ec', s.thread t = .unregistered p ec → ec ≠ S_FALSE →
    s.thread t' = .unregistered p ec' → ec' ≠ S_FALSE → t = t'

theorem Sound.lifetime {s : ImportState} (h : s.Sound) : s.Lifetime where
  once := h.once
  held r hr := h.alive _ (h.held r hr)
  table i e he := by
    obtain ⟨hi, ha, -⟩ := h.entry i e he
    refine h.alive _ ?_
    rw [Registered, ha, hi]
    exact he

theorem sound_init : Sound {} where
  count _ := rfl
  entry _ _ he := absurd he List.not_mem_nil
  nodup _ := List.nodup_nil
  held _ hr := absurd hr List.not_mem_nil
  alive _ _ := rfl
  once _ := Nat.zero_le _
  fresh _ _ := rfl
  zero _ _ h := nomatch h
  alone _ _ _ h := nomatch h
  removed _ _ _ h := nomatch h
  removedOnce _ _ _ _ _ h := nomatch h

section

variable {s : ImportState}

theorem lookup_eq_some {a : CString} {e : ImportObject} (h : s.lookup a = some e) :
    e ∈ s.table (rotHash a) ∧ e.mNetAddress = a :=
  ⟨List.mem_of_find?_eq_some h, by simpa using List.find?_some h⟩

theorem Registered.lt (hs : s.Sound) {p : ℕ} (h : s.Registered p) : p < s.created :=
  (hs.entry _ _ h).2.2

/-- A found entry is that of a proxy in the table. -/
theorem registered_of_lookup (hs : s.Sound) {a : CString} {e : ImportObject}
    (h : s.lookup a = some e) : s.Registered e.mIProxy ∧ s.mNetAddress e.mIProxy = a := by
  obtain ⟨hmem, rfl⟩ := lookup_eq_some h
  obtain ⟨-, ha, -⟩ := hs.entry _ _ hmem
  rw [Registered, ha]
  exact ⟨hmem, rfl⟩

/-- The search for the address of a proxy in the table finds that proxy. -/
theorem lookup_of_registered (hs : s.Sound) {p : ℕ} (h : s.Registered p) :
    s.lookup (s.mNetAddress p) = some ⟨s.mNetAddress p, p⟩ := by
  cases hl : s.lookup (s.mNetAddress p) with
  | none =>
    have := List.find?_eq_none.mp hl _ h
    simp at this
  | some e =>
    obtain ⟨hmem, ha⟩ := lookup_eq_some hl
    have hinj := List.inj_on_of_nodup_map (hs.nodup (rotHash (s.mNetAddress p)))
    exact congrArg some (hinj hmem h ha)

/-! ### The steps -/

theorem references_addRef (t p q : ℕ) :
    (s.addRef t p).references q = s.references q + if q = p then 1 else 0 := by
  rw [references, addRef, List.map_cons, List.count_cons, references]
  rcases eq_or_ne q p with rfl | hq
  · simp
  · simp [hq, hq.symm]

theorem references_decrement {t p : ℕ} (h : (t, p) ∈ s.held) (q : ℕ) :
    (s.decrement t p).references q + (if q = p then 1 else 0) = s.references q := by
  have hperm := List.perm_cons_erase h
  rw [references, references, (hperm.map Prod.snd).count_eq, List.map_cons, List.count_cons]
  rcases eq_or_ne q p with rfl | hq
  · simp [decrement]
  · simp [decrement, hq, hq.symm]

theorem table_createObject (t : ℕ) (a : CString) : (s.createObject t a).table
    = Function.update s.table (rotHash a) (⟨a, s.created⟩ :: s.table (rotHash a)) := rfl

/-- Where a thread is after one of them has moved. -/
theorem thread_goto {t t' : ℕ} {r r' : Releasing} (h : (s.goto t r).thread t' = r') :
    t' = t ∧ r' = r ∨ t' ≠ t ∧ s.thread t' = r' := by
  change Function.update s.thread t r t' = r' at h
  rcases eq_or_ne t' t with rfl | ht'
  · rw [Function.update_self] at h
    exact .inl ⟨rfl, h.symm⟩
  · rw [Function.update_of_ne ht'] at h
    exact .inr ⟨ht', h⟩

theorem thread_decrement (t p : ℕ) : (s.decrement t p).thread
    = Function.update s.thread t (if s.mRef p - 1 = 0 then .zero p else .idle) := rfl

/-- One more reference to a proxy in the table. -/
theorem Sound.addRef (hs : s.Sound) (t : ℕ) {p : ℕ} (hp : s.Registered p) :
    (s.addRef t p).Sound where
  count q := by
    rw [references_addRef]
    rcases eq_or_ne q p with rfl | hq <;> simp [ImportState.addRef, *, hs.count]
  entry := hs.entry
  nodup := hs.nodup
  held r hr := by
    rcases List.mem_cons.mp hr with rfl | hr
    · exact hp
    · exact hs.held r hr
  alive := hs.alive
  once := hs.once
  fresh := hs.fresh
  zero := hs.zero
  alone := hs.alone
  removed := hs.removed
  removedOnce := hs.removedOnce

/-- After a creation the table has one entry more. -/
theorem mem_table_createObject {t : ℕ} {a : CString} {i : Fin 24} {e : ImportObject} :
    e ∈ (s.createObject t a).table i ↔ e ∈ s.table i ∨ i = rotHash a ∧ e = ⟨a, s.created⟩ := by
  rw [table_createObject]
  rcases eq_or_ne i (rotHash a) with rfl | hi
  · simp [or_comm]
  · simp [hi]

theorem registered_createObject {t : ℕ} {a : CString} {p : ℕ} :
    (s.createObject t a).Registered p ↔ p = s.created ∨ p ≠ s.created ∧ s.Registered p := by
  rcases eq_or_ne p s.created with rfl | hp
  · simp [Registered, createObject]
  · have ha : (s.createObject t a).mNetAddress p = s.mNetAddress p := Function.update_of_ne hp ..
    simp [Registered, ha, mem_table_createObject, hp]

theorem Sound.createObject (hs : s.Sound) (t : ℕ) {a : CString} (hnone : s.lookup a = none) :
    (s.createObject t a).Sound where
  count q := by
    have hq := references_addRef (s := s) t s.created q
    have hzero : s.references s.created = 0 := by
      refine List.count_eq_zero.mpr fun hmem => ?_
      obtain ⟨r, hr, hr'⟩ := List.mem_map.mp hmem
      exact ((hs.held r hr).lt hs).ne hr'
    change _ = ((s.addRef t s.created).references q : ℤ)
    rw [hq]
    rcases eq_or_ne q s.created with rfl | hq
    · simp [ImportState.createObject, hzero]
    · simp [ImportState.createObject, hq, hs.count]
  entry i e he := by
    rcases mem_table_createObject.mp he with he | ⟨rfl, rfl⟩
    · obtain ⟨hi, ha, hlt⟩ := hs.entry i e he
      exact ⟨hi, (Function.update_of_ne hlt.ne ..).trans ha, hlt.trans (Nat.lt_succ_self _)⟩
    · exact ⟨rfl, Function.update_self .., Nat.lt_succ_self _⟩
  nodup i := by
    rw [table_createObject]
    rcases eq_or_ne i (rotHash a) with rfl | hi
    · rw [Function.update_self, List.map_cons, List.nodup_cons]
      refine ⟨fun hmem => ?_, hs.nodup _⟩
      obtain ⟨e, he, hea⟩ := List.mem_map.mp hmem
      exact absurd hea (by simpa using List.find?_eq_none.mp hnone e he)
    · rw [Function.update_of_ne hi]
      exact hs.nodup i
  held r hr := by
    rw [registered_createObject]
    rcases List.mem_cons.mp hr with rfl | hr
    · exact .inl rfl
    · exact .inr ⟨((hs.held r hr).lt hs).ne, hs.held r hr⟩
  alive p hp := by
    rcases registered_createObject.mp hp with rfl | ⟨-, hp⟩
    · exact hs.fresh _ le_rfl
    · exact hs.alive p hp
  once := hs.once
  fresh p hp := hs.fresh p ((Nat.le_succ _).trans hp)
  zero t' p ht' := registered_createObject.mpr (.inr ⟨((hs.zero t' p ht').lt hs).ne, hs.zero t' p ht'⟩)
  alone := hs.alone
  removed t' p ec ht' hec := by
    obtain ⟨hp, hd, hlt⟩ := hs.removed t' p ec ht' hec
    refine ⟨fun h => ?_, hd, hlt.trans (Nat.lt_succ_self _)⟩
    rcases registered_createObject.mp h with rfl | ⟨-, h⟩
    · exact hlt.false
    · exact hp h
  removedOnce := hs.removedOnce

/-- A thread that moves to a place where nothing is asked of it. -/
theorem Sound.goto (hs : s.Sound) (t : ℕ) {r : Releasing} (hzero : ∀ p, r ≠ .zero p)
    (hun : ∀ p ec, r = .unregistered p ec → ec = S_FALSE) : (s.goto t r).Sound := by
  -- what a thread is about to do, it was about to do before
  have hback : ∀ t' r', (s.goto t r).thread t' = r' → r' = r ∨ s.thread t' = r' :=
    fun t' r' h => (thread_goto h).imp And.right And.right
  have hz : ∀ t' p, (s.goto t r).thread t' = .zero p → s.thread t' = .zero p :=
    fun t' p h => (hback t' _ h).resolve_left fun h => hzero p h.symm
  have hu : ∀ t' p ec, (s.goto t r).thread t' = .unregistered p ec → ec ≠ S_FALSE →
      s.thread t' = .unregistered p ec :=
    fun t' p ec h hec => (hback t' _ h).resolve_left fun h => hec (hun p ec h.symm)
  exact
    { hs with
      zero := fun t' p h => hs.zero t' p (hz t' p h)
      alone := fun t' t'' p h h' => hs.alone t' t'' p (hz t' p h) (hz t'' p h')
      removed := fun t' p ec h hec => hs.removed t' p ec (hu t' p ec h hec) hec
      removedOnce := fun t' t'' p ec ec' h hec h' hec' =>
        hs.removedOnce t' t'' p ec ec' (hu t' p ec h hec) hec (hu t'' p ec' h' hec') hec' }

theorem Sound.decrement (hs : s.Sound) {t p : ℕ}
    (hmem : (t, p) ∈ s.held) (halone : s.mRef p = 1 → ∀ t', s.thread t' ≠ .zero p) :
    (s.decrement t p).Sound := by
  have hsub : ∀ r ∈ s.held.erase (t, p), s.Registered r.2 :=
    fun r hr => hs.held r (List.mem_of_mem_erase hr)
  have hthread : ∀ t' r, (s.decrement t p).thread t' = r → r ≠ .idle →
      s.thread t' = r ∨ t' = t ∧ r = .zero p ∧ s.mRef p = 1 := by
    intro t' r h hr
    rcases eq_or_ne t' t with rfl | ht'
    · rw [thread_decrement, Function.update_self] at h
      split at h
      · next h1 => exact .inr ⟨rfl, h.symm, by omega⟩
      · exact absurd h.symm hr
    · rw [thread_decrement, Function.update_of_ne ht'] at h
      exact .inl h
  refine ⟨fun q => ?_, hs.entry, hs.nodup, hsub, hs.alive, hs.once, hs.fresh, ?_, ?_, ?_, ?_⟩
  · have hq := references_decrement hmem q
    have hc := hs.count q
    rcases eq_or_ne q p with rfl | hne
    · rw [if_pos rfl] at hq
      change Function.update s.mRef q (s.mRef q - 1) q = _
      rw [Function.update_self]
      omega
    · rw [if_neg hne] at hq
      change Function.update s.mRef p (s.mRef p - 1) q = _
      rw [Function.update_of_ne hne]
      omega
  · intro t' q h
    rcases hthread t' _ h nofun with h | ⟨-, hq, -⟩
    · exact hs.zero t' q h
    · cases hq
      exact hs.held _ hmem
  · intro t' t'' q h h'
    rcases hthread t' _ h nofun with hz | ⟨ht, hq, h1⟩
    · rcases hthread t'' _ h' nofun with hz' | ⟨-, hq, h1⟩
      · exact hs.alone t' t'' q hz hz'
      · cases hq
        exact absurd hz (halone h1 t')
    · cases hq
      rcases hthread t'' _ h' nofun with hz' | ⟨ht', -, -⟩
      · exact absurd hz' (halone h1 t'')
      · exact ht.trans ht'.symm
  · intro t' q ec h hec
    rcases hthread t' _ h nofun with h | ⟨-, hq, -⟩
    · exact hs.removed t' q ec h hec
    · cases hq
  · intro t' t'' q ec ec' h hec h' hec'
    rcases hthread t' _ h nofun with h | ⟨-, hq, -⟩
    · rcases hthread t'' _ h' nofun with h' | ⟨-, hq, -⟩
      · exact hs.removedOnce t' t'' q ec ec' h hec h' hec'
      · cases hq
    · cases hq

/-- With one entry for each address, taking one out leaves the others. -/
theorem mem_eraseP_iff {l : List ImportObject} (h : (l.map ImportObject.mNetAddress).Nodup)
    {a : CString} {e : ImportObject} :
    (e ∈ l.eraseP fun e => e.mNetAddress = a) ↔ e ∈ l ∧ e.mNetAddress ≠ a := by
  induction l with
  | nil => simp
  | cons f l ih =>
    rw [List.map_cons, List.nodup_cons] at h
    rcases eq_or_ne f.mNetAddress a with rfl | hf
    · rw [List.eraseP_cons_of_pos (by simp), List.mem_cons]
      constructor
      · intro he
        exact ⟨.inr he, fun hef => h.1 (hef ▸ List.mem_map_of_mem he)⟩
      · rintro ⟨rfl | he, hne⟩
        · exact absurd rfl hne
        · exact he
    · rw [List.eraseP_cons_of_neg (by simpa using hf), List.mem_cons, ih h.2, List.mem_cons]
      constructor
      · rintro (rfl | ⟨he, hne⟩)
        · exact ⟨.inl rfl, hf⟩
        · exact ⟨.inr he, hne⟩
      · rintro ⟨rfl | he, hne⟩
        · exact .inl rfl
        · exact .inr ⟨he, hne⟩

theorem mem_table_detach (hs : s.Sound) {a : CString} {i : Fin 24} {e : ImportObject} :
    e ∈ (s.detach a).table i ↔ e ∈ s.table i ∧ e.mNetAddress ≠ a := by
  have htable : (s.detach a).table = Function.update s.table (rotHash a)
    ((s.table (rotHash a)).eraseP fun e => e.mNetAddress = a) := rfl
  rw [htable]
  rcases eq_or_ne i (rotHash a) with rfl | hi
  · rw [Function.update_self, mem_eraseP_iff (hs.nodup _)]
  · rw [Function.update_of_ne hi]
    refine ⟨fun he => ⟨he, fun hea => hi ?_⟩, And.left⟩
    rw [← hea, (hs.entry i e he).1]

theorem registered_detach (hs : s.Sound) {p q : ℕ} (hp : s.Registered p) :
    (s.detach (s.mNetAddress p)).Registered q ↔ s.Registered q ∧ q ≠ p := by
  rw [Registered, mem_table_detach hs]
  refine and_congr_right fun hq => not_congr ⟨fun h => ?_, fun h => congrArg _ h⟩
  -- the search for the common address finds both
  have h1 := lookup_of_registered hs hp
  have h2 := lookup_of_registered hs (show s.Registered q from hq)
  rw [show s.mNetAddress q = s.mNetAddress p from h, h1] at h2
  exact (congrArg ImportObject.mIProxy (Option.some.inj h2)).symm

/-- The last reference is gone and no lookup has come in between: the proxy leaves the table, for
this thread to delete. -/
theorem Sound.detach (hs : s.Sound) {t p : ℕ} (ht : s.thread t = .zero p) (hzero : s.mRef p = 0) :
    ((s.detach (s.mNetAddress p)).goto t (.unregistered p NOERROR)).Sound := by
  have hp := hs.zero t p ht
  have hreg : ∀ q, ((s.detach (s.mNetAddress p)).goto t (.unregistered p NOERROR)).Registered q ↔
      s.Registered q ∧ q ≠ p := fun q => registered_detach hs hp
  have hcount : s.references p = 0 := by
    have := hs.count p
    omega
  have hgone : ∀ t' ec, s.thread t' = .unregistered p ec → ec = S_FALSE := by
    intro t' ec h
    by_contra hec
    exact (hs.removed t' p ec h hec).1 hp
  refine ⟨hs.count, ?_, ?_, ?_, ?_, hs.once, hs.fresh, ?_, ?_, ?_, ?_⟩
  · intro i e he
    exact hs.entry i e ((mem_table_detach hs).mp he).1
  · intro i
    change ((Function.update s.table _ _ i).map ImportObject.mNetAddress).Nodup
    rcases eq_or_ne i (rotHash (s.mNetAddress p)) with rfl | hi
    · rw [Function.update_self]
      exact (hs.nodup _).sublist (List.eraseP_sublist.map _)
    · rw [Function.update_of_ne hi]
      exact hs.nodup i
  · intro r hr
    refine (hreg _).mpr ⟨hs.held r hr, fun hrp => ?_⟩
    exact List.count_eq_zero.mp hcount (List.mem_map.mpr ⟨r, hr, hrp⟩)
  · intro q hq
    exact hs.alive q ((hreg q).mp hq).1
  · intro t' q h
    rcases thread_goto h with ⟨-, hr⟩ | ⟨ht', h⟩
    · cases hr
    · refine (hreg q).mpr ⟨hs.zero t' q h, fun hqp => ht' ?_⟩
      exact hs.alone t' t p (hqp ▸ h) ht
  · intro t' t'' q h h'
    rcases thread_goto h with ⟨-, hr⟩ | ⟨-, h⟩
    · cases hr
    rcases thread_goto h' with ⟨-, hr⟩ | ⟨-, h'⟩
    · cases hr
    exact hs.alone t' t'' q h h'
  · intro t' q ec h hec
    rcases thread_goto h with ⟨-, hr⟩ | ⟨-, h⟩
    · cases hr
      exact ⟨fun hq => ((hreg p).mp hq).2 rfl, hs.alive p hp, hp.lt hs⟩
    · obtain ⟨hq, hd, hlt⟩ := hs.removed t' q ec h hec
      exact ⟨fun h => hq ((hreg q).mp h).1, hd, hlt⟩
  · intro t' t'' q ec ec' h hec h' hec'
    rcases thread_goto h with ⟨rfl, hr⟩ | ⟨-, hu⟩
    · cases hr
      rcases thread_goto h' with ⟨rfl, -⟩ | ⟨-, hu'⟩
      · rfl
      · exact absurd (hgone t'' ec' hu') hec'
    · rcases thread_goto h' with ⟨-, hr⟩ | ⟨-, hu'⟩
      · cases hr
        exact absurd (hgone t' ec hu) hec
      · exact hs.removedOnce t' t'' q ec ec' hu hec hu' hec'

/-- Deleting the proxy that this thread has taken out of the table. -/
theorem Sound.delete (hs : s.Sound) {t p : ℕ} {ec : ECode} (ht : s.thread t = .unregistered p ec)
    (hec : ec ≠ S_FALSE) : ((s.delete p).goto t .idle).Sound := by
  obtain ⟨hp, hd, hlt⟩ := hs.removed t p ec ht hec
  have hdel : ∀ q, q ≠ p → ((s.delete p).goto t .idle).deletes q = s.deletes q :=
    fun q hq => Function.update_of_ne hq ..
  have hself : ((s.delete p).goto t .idle).deletes p = 1 := by
    change Function.update s.deletes p (s.deletes p + 1) p = 1
    rw [Function.update_self, hd]
  refine ⟨hs.count, hs.entry, hs.nodup, hs.held, ?_, ?_, ?_, ?_, ?_, ?_, ?_⟩
  · intro q hq
    have hne : q ≠ p := fun h => hp (h ▸ hq)
    rw [hdel q hne]
    exact hs.alive q hq
  · intro q
    rcases eq_or_ne q p with rfl | hq
    · exact hself.le
    · exact (hdel q hq).trans_le (hs.once q)
  · intro q hq
    have hne : q ≠ p := fun h => absurd hlt (not_lt.mpr (h ▸ hq))
    exact (hdel q hne).trans (hs.fresh q hq)
  · intro t' q h
    rcases thread_goto h with ⟨-, hr⟩ | ⟨-, h⟩
    · cases hr
    · exact hs.zero t' q h
  · intro t' t'' q h h'
    rcases thread_goto h with ⟨-, hr⟩ | ⟨-, h⟩
    · cases hr
    rcases thread_goto h' with ⟨-, hr⟩ | ⟨-, h'⟩
    · cases hr
    exact hs.alone t' t'' q h h'
  · intro t' q ec' h hec'
    rcases thread_goto h with ⟨-, hr⟩ | ⟨ht', h⟩
    · cases hr
    · obtain ⟨hq, hqd, hqlt⟩ := hs.removed t' q ec' h hec'
      have hne : q ≠ p := fun hqp => ht' (hs.removedOnce t' t p ec' ec (hqp ▸ h) hec' ht hec)
      exact ⟨hq, (hdel q hne).trans hqd, hqlt⟩
  · intro t' t'' q ec' ec'' h hec' h' hec''
    rcases thread_goto h with ⟨-, hr⟩ | ⟨-, h⟩
    · cases hr
    rcases thread_goto h' with ⟨-, hr⟩ | ⟨-, h'⟩
    · cases hr
    exact hs.removedOnce t' t'' q ec' ec'' h hec' h' hec''

/-- **One step** in which a release to zero is alone. -/
theorem Sound.step (hs : s.Sound) {a : ImportAction} {s' : ImportState} (hok : s.ReleasesAlone a)
    (h : s.step a = some s') : s'.Sound := by
  cases a with
  | create t a =>
    rw [ImportState.step, Option.ite_none_right_eq_some] at h
    obtain ⟨⟨-, hnone⟩, h⟩ := h
    cases h
    exact hs.createObject t hnone
  | find t a =>
    rw [ImportState.step, Option.ite_none_right_eq_some, Option.map_eq_some_iff] at h
    obtain ⟨-, e, he, rfl⟩ := h
    exact hs.addRef t (registered_of_lookup hs he).1
  | addRef t p =>
    rw [ImportState.step, Option.ite_none_right_eq_some] at h
    obtain ⟨⟨-, hmem⟩, h⟩ := h
    cases h
    exact hs.addRef t (hs.held _ hmem)
  | release t p =>
    rw [ImportState.step, Option.ite_none_right_eq_some] at h
    obtain ⟨⟨-, hmem⟩, h⟩ := h
    cases h
    exact hs.decrement hmem hok
  | unregister t =>
    rw [ImportState.step] at h
    split at h
    swap
    · cases h
    next p ht =>
    rw [unregisterImportObject, lookup_of_registered hs (hs.zero t p ht)] at h
    dsimp only at h
    split at h
    · cases h
      exact hs.goto t nofun fun _ _ hr => by cases hr; rfl
    · next hzero =>
      cases h
      exact hs.detach ht (not_not.mp hzero)
  | finish t =>
    rw [ImportState.step] at h
    split at h
    swap
    · cases h
    next p ec ht =>
    cases h
    split
    · exact hs.goto t nofun nofun
    · next hec => exact hs.delete ht hec

end

/-- **The life of a proxy.** In every run in which no two releases to zero overlap, no proxy is
deleted twice or while it is referenced, and the table has none that was deleted. -/
theorem lifetime_of_meets (as : List ImportAction) (s : ImportState)
    (hok : Trace.Meets step ReleasesAlone {} as) (hrun : Trace.run step {} as = some s) :
    s.Lifetime :=
  (Trace.run_invariant (fun _ _ _ hs hok h => hs.step hok h) sound_init hok hrun).lifetime

/-- An address. -/
def anAddress : CString := ⟨[0x31], by decide⟩

/-- A thread looks the proxy up while another one is in its last `Release`, and releases it
first. -/
def overlapping : List ImportAction :=
  [.create 0 anAddress, .release 0 0, .find 1 anAddress, .release 1 0, .unregister 1, .finish 1,
    .unregister 0, .finish 0]

theorem not_lifetime_overlapping :
    ¬ ∀ (as : List ImportAction) (s : ImportState), Trace.run step {} as = some s → s.Lifetime := by
  intro h
  have hrun : ∃ s, Trace.run step {} overlapping = some s ∧ s.deletes 0 = 2 := ⟨_, rfl, rfl⟩
  obtain ⟨s, hs, h2⟩ := hrun
  have h1 := (h overlapping s hs).once 0
  omega

/-- The lookup comes between the decrement and the removal, and the proxy lives on. -/
def revived : List ImportAction :=
  [.create 0 anAddress, .release 0 0, .find 1 anAddress, .unregister 0, .finish 0, .release 1 0,
    .unregister 1, .finish 1]

theorem lifetime_of_meets_revived :
    ∃ s, Trace.run step {} revived = some s ∧ s.deletes 0 = 1 ∧ s.Lifetime := by
  refine ⟨_, rfl, rfl, lifetime_of_meets revived _ ?_ rfl⟩
  refine .cons trivial rfl (.cons (fun _ _ => nofun) rfl (.cons trivial rfl (.cons trivial rfl
    (.cons trivial rfl (.cons ?_ rfl (.cons trivial rfl (.cons trivial rfl trivial)))))))
  -- the first thread has returned
  rintro - (_ | t) ⟨⟩

end ImportState

end ElastosCar
