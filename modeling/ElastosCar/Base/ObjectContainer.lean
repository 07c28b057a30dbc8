import ElastosCar.Lib.Cursor
import ElastosCar.Lib.Ring
import ElastosCar.Types

/-!
# Object containers

`ObjectContainer` of `elcontainer.h` holds objects in a ring of nodes behind a head, `mHead`, and
keeps a cursor for an iteration, `mCurrent`. `none` is a step that uses a node that has been deleted
or follows a null pointer, or a loop that has not ended after so many passes.

* `Holds`: the container has the nodes of a list, and its cursor is at a place in it.
* `Holds.Add`, `Holds.Remove`, `Holds.Dispose`, `Holds.MoveNext`: what the functions do to the list
  and to the cursor.
-/

namespace ElastosCar

/-- An `ObjectContainer`. The links are those of the nodes and of the head. -/
structure ObjectContainer (κ Obj : Type) where
  links : Links κ
  /-- The objects of the nodes that have not been deleted. -/
  mObject : κ → Option Obj
  mHead : κ
  mCurrent : Option κ

namespace ObjectContainer

variable {κ Obj : Type} [DecidableEq κ]

/-- A new container. -/
def new (mHead : κ) : ObjectContainer κ Obj where
  links := ⟨Function.update (fun _ => none) mHead (some mHead),
    Function.update (fun _ => none) mHead (some mHead)⟩
  mObject _ := none
  mHead := mHead
  mCurrent := some mHead

/-! ### `SimpleContainer` -/

def MoveNext (c : ObjectContainer κ Obj) : Option (ECode × ObjectContainer κ Obj) :=
  match c.mCurrent with
  | none => some (E_INVALID_OPERATION, c)
  | some current =>
    if some current = c.links.prev c.mHead then some (S_FALSE, { c with mCurrent := none })
    else if current = c.mHead ∨ c.mObject current ≠ none then
      some (NOERROR, { c with mCurrent := c.links.next current })
    else none

def Reset (c : ObjectContainer κ Obj) : ECode × ObjectContainer κ Obj :=
  (NOERROR, { c with mCurrent := some c.mHead })

/-- `SimpleContainer::Remove`. -/
def detach (node : κ) (c : ObjectContainer κ Obj) : Option (ObjectContainer κ Obj) := do
  let mCurrent := if c.mCurrent = some node then c.links.prev node else c.mCurrent
  let links ← c.links.detach node
  some { c with links, mCurrent }

/-! ### `ObjectContainer` -/

/-- `Current`, and what it leaves at `obj`. -/
def Current (c : ObjectContainer κ Obj) : Option (ECode × Option Obj) :=
  if c.mCurrent = none ∨ c.mCurrent = some c.mHead then some (E_INVALID_OPERATION, none)
  else (c.mCurrent.bind c.mObject).map fun obj => (NOERROR, some obj)

/-- `Add`, where `node` is what `new` returns. -/
def Add (obj : Obj) (node : Option κ) (c : ObjectContainer κ Obj) :
    Option (ECode × ObjectContainer κ Obj) :=
  match node with
  | none => some (E_OUT_OF_MEMORY, c)
  | some node => (c.links.insertPrev c.mHead node).map fun links =>
    (NOERROR, { c with links, mObject := Function.update c.mObject node (some obj) })

def delete (node : κ) (c : ObjectContainer κ Obj) : ObjectContainer κ Obj :=
  { c with mObject := Function.update c.mObject node none }

/-- The body of the loop of `Remove`. -/
def removeBody [DecidableEq Obj] (obj : Obj) (node : κ) (c : ObjectContainer κ Obj) :
    Option (Flow κ × ObjectContainer κ Obj) := do
  let mObject ← c.mObject node
  if mObject = obj then
    let c ← c.detach node
    some (.leave, c.delete node)
  else some (.next node, c)

def Remove [DecidableEq Obj] (obj : Obj) (fuel : ℕ) (c : ObjectContainer κ Obj) :
    Option (ECode × ObjectContainer κ Obj) := do
  let node ← c.links.next c.mHead
  let (removed, c) ← forEach (fun c => c.links.next) (removeBody obj) c.mHead fuel node c
  some (if removed then NOERROR else S_FALSE, c)

/-- The loop of `Dispose`. -/
def disposeNodes : ℕ → ObjectContainer κ Obj → Option (ObjectContainer κ Obj)
  | 0, _ => none
  | fuel + 1, c => do
    let node ← c.links.next c.mHead
    if node = c.mHead then some c
    else
      let links ← c.links.detach node
      disposeNodes fuel ({ c with links }.delete node)

def Dispose (fuel : ℕ) (c : ObjectContainer κ Obj) : Option (ECode × ObjectContainer κ Obj) :=
  (c.disposeNodes fuel).map fun c => (NOERROR, { c with mCurrent := none })

/-! ### What a container holds -/

/-- The pointer to a place. -/
def pointer (mHead : κ) : Cursor κ → Option κ
  | .null => none
  | .head => some mHead
  | .node a => some a

/-- The container has the nodes of a list, with their objects, and its cursor is at one of them, at
the head or nowhere. -/
structure Holds (c : ObjectContainer κ Obj) (nodes : List (κ × Obj)) (cur : Cursor κ) : Prop where
  ring : LinkedRing c.links c.mHead (nodes.map Prod.fst)
  objects : ∀ n ∈ nodes, c.mObject n.1 = some n.2
  deleted : ∀ a, a ∉ nodes.map Prod.fst → c.mObject a = none
  mCurrent : c.mCurrent = pointer c.mHead cur
  valid : cur.Valid Prod.fst nodes

variable {c : ObjectContainer κ Obj} {nodes : List (κ × Obj)} {cur : Cursor κ} {a : κ} {obj : Obj}

theorem holds_new (mHead : κ) : Holds (new mHead : ObjectContainer κ Obj) [] .head where
  ring := by
    have hself : Function.update (fun _ => none) mHead (some mHead) mHead = some mHead :=
      Function.update_self ..
    exact ⟨hself, hself, List.nodup_singleton _⟩
  objects := nofun
  deleted _ _ := rfl
  mCurrent := rfl
  valid := trivial

namespace Holds

omit [DecidableEq κ] in
theorem nodup (h : Holds c nodes cur) : (nodes.map Prod.fst).Nodup :=
  (List.nodup_cons.mp h.ring.nodup).2

omit [DecidableEq κ] in
theorem mObject_ne_none (h : Holds c nodes cur) (ha : a ∈ nodes.map Prod.fst) :
    c.mObject a ≠ none := by
  obtain ⟨n, hn, rfl⟩ := List.mem_map.mp ha
  rw [h.objects n hn]
  exact Option.some_ne_none n.2

omit [DecidableEq κ] in
/-- Two places with the same pointer. -/
theorem pointer_inj (h : Holds c nodes cur) {cur' : Cursor κ} (hvalid : cur'.Valid Prod.fst nodes)
    (heq : pointer c.mHead cur = pointer c.mHead cur') : cur = cur' := by
  have hhead : c.mHead ∉ nodes.map Prod.fst := (List.nodup_cons.mp h.ring.nodup).1
  have hcur := h.valid
  cases cur with
  | null =>
    cases cur' with
    | null => rfl
    | head => exact nomatch heq
    | node a => exact nomatch heq
  | head =>
    cases cur' with
    | null => exact nomatch heq
    | head => rfl
    | node a =>
      obtain rfl := Option.some.inj heq
      exact absurd hvalid hhead
  | node a =>
    cases cur' with
    | null => exact nomatch heq
    | head =>
      obtain rfl := Option.some.inj heq
      exact absurd hcur hhead
    | node b => exact congrArg Cursor.node (Option.some.inj heq)

omit [DecidableEq κ] in
theorem pointer_last (mHead : κ) (nodes : List (κ × Obj)) :
    pointer mHead (Cursor.last Prod.fst nodes) = some ((nodes.map Prod.fst).getLastD mHead) := by
  rw [Cursor.last, List.getLastD_eq_getLast?, List.getLast?_map]
  cases nodes.getLast? with
  | none => rfl
  | some n => rfl

/-- The node behind a place, or the head. -/
theorem next_eq (h : Holds c nodes cur) {current : κ} (hcurrent : c.mCurrent = some current) :
    c.links.next current = pointer c.mHead (cur.next Prod.fst nodes) ∧
      (current = c.mHead ∨ c.mObject current ≠ none) := by
  have hpointer : pointer c.mHead cur = some current := h.mCurrent.symm.trans hcurrent
  have hring := h.ring
  have hvalid := h.valid
  have hhead : ∀ r : List (κ × Obj), some ((r.map Prod.fst).headD c.mHead) =
      pointer c.mHead (r.head?.elim Cursor.head fun n => Cursor.node n.1) := by
    intro r
    cases r with
    | nil => rfl
    | cons n r => rfl
  cases cur with
  | null => exact nomatch hpointer
  | head =>
    obtain rfl := Option.some.inj hpointer
    exact ⟨hring.next_head.trans (hhead nodes), .inl rfl⟩
  | node a =>
    obtain rfl := Option.some.inj hpointer
    refine ⟨?_, .inr (h.mObject_ne_none hvalid)⟩
    obtain ⟨l₁, n, l₂, rfl, rfl, ha⟩ := Cursor.exists_split hvalid
    rw [List.map_append, List.map_cons] at hring
    rw [hring.next_eq, Cursor.next, Cursor.rest_split rfl ha]
    exact hhead l₂

/-- The node before another one, or the head. -/
theorem prev_eq (h : Holds c nodes cur) (ha : a ∈ nodes.map Prod.fst) :
    c.links.prev a = pointer c.mHead (Cursor.prev Prod.fst nodes a) := by
  have hring := h.ring
  obtain ⟨l₁, n, l₂, rfl, rfl, ha⟩ := Cursor.exists_split ha
  rw [List.map_append, List.map_cons] at hring
  rw [hring.prev_eq, Cursor.prev_split rfl ha, pointer_last]

/-! ### The iteration -/

theorem MoveNext_null (h : Holds c nodes .null) :
    c.MoveNext = some (E_INVALID_OPERATION, c) := by
  rw [MoveNext, h.mCurrent]
  rfl

/-- `MoveNext` behind the last node. -/
theorem MoveNext_last (h : Holds c nodes cur) (hnull : cur ≠ .null)
    (hrest : cur.rest Prod.fst nodes = []) :
    c.MoveNext = some (S_FALSE, { c with mCurrent := none }) := by
  obtain rfl := (Cursor.rest_eq_nil_iff h.nodup h.valid hnull).mp hrest
  rw [MoveNext, h.mCurrent, pointer_last]
  exact if_pos h.ring.prev_head.symm

/-- `MoveNext` to the first of the nodes that are left. -/
theorem MoveNext_cons (h : Holds c nodes cur) {n : κ × Obj} {r : List (κ × Obj)}
    (hrest : cur.rest Prod.fst nodes = n :: r) :
    ∃ c', c.MoveNext = some (NOERROR, c') ∧ Holds c' nodes (.node n.1) := by
  have hnull : cur ≠ .null := by
    rintro rfl
    exact nomatch hrest
  have hlast : cur ≠ .last Prod.fst nodes := fun heq =>
    nomatch hrest.symm.trans ((Cursor.rest_eq_nil_iff h.nodup h.valid hnull).mpr heq)
  obtain ⟨current, hcurrent⟩ : ∃ current, c.mCurrent = some current := by
    rw [h.mCurrent]
    cases cur with
    | null => exact absurd rfl hnull
    | head => exact ⟨_, rfl⟩
    | node a => exact ⟨a, rfl⟩
  obtain ⟨hnext, hlive⟩ := h.next_eq hcurrent
  have hprev : some current ≠ c.links.prev c.mHead := by
    rw [← hcurrent, h.mCurrent, h.ring.prev_head, ← pointer_last]
    exact fun heq => hlast (h.pointer_inj Cursor.valid_last heq)
  refine ⟨{ c with mCurrent := c.links.next current }, ?_, h.ring, h.objects, h.deleted, ?_, ?_⟩
  · rw [MoveNext, hcurrent]
    dsimp only
    rw [if_neg hprev, if_pos hlive]
  · rw [← (Cursor.rest_next h.nodup h.valid hrest).1]
    exact hnext
  · exact List.mem_map_of_mem (Cursor.rest_subset (hrest ▸ List.mem_cons_self))

omit [DecidableEq κ] in
theorem Reset (h : Holds c nodes cur) : Holds c.Reset.2 nodes .head :=
  ⟨h.ring, h.objects, h.deleted, rfl, trivial⟩

/-- `Current` at a node. -/
theorem Current_node {n : κ × Obj} (h : Holds c nodes (.node n.1)) (hn : n ∈ nodes) :
    c.Current = some (NOERROR, some n.2) := by
  have hcurrent : c.mCurrent = some n.1 := h.mCurrent
  have hne : n.1 ≠ c.mHead := h.ring.ne_head (List.mem_map_of_mem hn)
  rw [Current, hcurrent, if_neg, Option.bind_some, h.objects n hn]
  · rfl
  · rintro (hnone | hhead)
    · exact nomatch hnone
    · exact hne (Option.some.inj hhead)

/-! ### Changes -/

theorem Add (h : Holds c nodes cur) {node : κ} (hhead : node ≠ c.mHead)
    (hfresh : c.mObject node = none) (obj : Obj) :
    ∃ c', c.Add obj (some node) = some (NOERROR, c') ∧ Holds c' (nodes ++ [(node, obj)]) cur ∧
      c'.mHead = c.mHead := by
  have hnot : node ∉ nodes.map Prod.fst := fun hmem => h.mObject_ne_none hmem hfresh
  have hring : LinkedRing c.links c.mHead (nodes.map Prod.fst ++ []) := by
    rw [List.append_nil]
    exact h.ring
  have hnew : node ∉ c.mHead :: (nodes.map Prod.fst ++ []) := by simp [hhead, hnot]
  obtain ⟨links, hinsert, hring⟩ := hring.insertPrev hnew
  have hinsert : c.links.insertPrev c.mHead node = some links := hinsert
  refine ⟨{ c with links, mObject := Function.update c.mObject node (some obj) }, ?_,
    ⟨?_, fun n hn => ?_, fun a ha => ?_, h.mCurrent, h.valid.append _⟩, rfl⟩
  · rw [ObjectContainer.Add, hinsert]
    rfl
  · rw [List.map_append]
    exact hring
  · dsimp only
    rcases List.mem_append.mp hn with hn | hn
    · have hne : n.1 ≠ node := fun heq => hnot (heq ▸ List.mem_map_of_mem hn)
      rw [Function.update_of_ne hne, h.objects n hn]
    · obtain rfl := List.mem_singleton.mp hn
      exact Function.update_self ..
  · rw [List.map_append, List.mem_append, not_or, List.map_singleton, List.mem_singleton] at ha
    dsimp only
    rw [Function.update_of_ne ha.2]
    exact h.deleted a ha.1

/-- A node is taken out and deleted; the cursor goes back from it. -/
theorem detach (h : Holds c nodes cur) (ha : a ∈ nodes.map Prod.fst) :
    ∃ c', c.detach a = some c' ∧
      Holds (c'.delete a) (Cursor.remove Prod.fst nodes a) (cur.back Prod.fst nodes a) ∧
      c'.mHead = c.mHead := by
  have hprev := h.prev_eq ha
  have hring := h.ring
  have hnodup := h.nodup
  have hmap : (Cursor.remove Prod.fst nodes a).map Prod.fst = (nodes.map Prod.fst).erase a :=
    Cursor.map_remove
  obtain ⟨l₁, l₂, hnot, hsplit, herase⟩ := List.exists_erase_eq ha
  rw [hsplit] at hring
  obtain ⟨links, hdetach, hring⟩ := hring.detach
  refine ⟨{ c with
      links, mCurrent := if c.mCurrent = some a then c.links.prev a else c.mCurrent }, ?_,
    ⟨?_, fun n hn => ?_, fun b hb => ?_, ?_, Cursor.valid_back hnodup h.valid⟩, rfl⟩
  · rw [ObjectContainer.detach, hdetach]
    rfl
  · rw [hmap, herase]
    exact hring
  · obtain ⟨hn, hne⟩ := (Cursor.mem_remove_iff hnodup).mp hn
    exact (Function.update_of_ne hne ..).trans (h.objects n hn)
  · rw [hmap] at hb
    by_cases hba : b = a
    · rw [hba]
      exact Function.update_self ..
    · refine (Function.update_of_ne hba ..).trans (h.deleted b fun hmem => hb ?_)
      exact (List.mem_erase_of_ne hba).mpr hmem
  · have hat : c.mCurrent = some a ↔ cur = .node a := by
      rw [h.mCurrent]
      exact ⟨fun heq => h.pointer_inj ha heq, fun heq => heq ▸ rfl⟩
    dsimp only [delete]
    rw [Cursor.back]
    by_cases hcur : cur = .node a
    · rw [if_pos (hat.mpr hcur), if_pos hcur, hprev]
    · rw [if_neg (mt hat.mp hcur), if_neg hcur, h.mCurrent]

section Remove

variable [DecidableEq Obj]

theorem removeBody_of_eq (h : Holds c nodes cur) {n : κ × Obj} (hn : n ∈ nodes) :
    ∃ c', removeBody n.2 n.1 c = some (.leave, c') ∧
      Holds c' (Cursor.remove Prod.fst nodes n.1) (cur.back Prod.fst nodes n.1) ∧
      c'.mHead = c.mHead := by
  obtain ⟨c', hdetach, hholds, hhead⟩ := h.detach (List.mem_map_of_mem hn)
  refine ⟨c'.delete n.1, ?_, hholds, hhead⟩
  rw [removeBody, h.objects n hn, hdetach]
  exact if_pos rfl

theorem removeBody_of_ne (h : Holds c nodes cur) {n : κ × Obj} (hn : n ∈ nodes)
    (hne : n.2 ≠ obj) : removeBody obj n.1 c = some (.next n.1, c) := by
  rw [removeBody, h.objects n hn]
  exact if_neg hne

/-- What `Remove` leaves. -/
def Removed (c : ObjectContainer κ Obj) (nodes : List (κ × Obj)) (cur : Cursor κ) (obj : Obj)
    (removed : Bool) (c' : ObjectContainer κ Obj) : Prop :=
  match nodes.find? fun n => n.2 = obj with
  | none => removed = false ∧ c' = c
  | some n => removed = true ∧ c'.mHead = c.mHead ∧
    Holds c' (Cursor.remove Prod.fst nodes n.1) (cur.back Prod.fst nodes n.1)

/-- **`Remove`** takes out the first node with the object. -/
theorem Remove (h : Holds c nodes cur) (obj : Obj) {fuel : ℕ} (hfuel : nodes.length < fuel) :
    ∃ removed c', c.Remove obj fuel = some (if removed then NOERROR else S_FALSE, c') ∧
      Removed c nodes cur obj removed c' := by
  -- the nodes that have been passed have other objects
  let Passed (rest : List κ) (c' : ObjectContainer κ Obj) : Prop :=
    c' = c ∧ ∃ seen r, nodes = seen ++ r ∧ rest = r.map Prod.fst ∧ ∀ n ∈ seen, n.2 ≠ obj
  have hbody (a : κ) (rest : List κ) (c' : ObjectContainer κ Obj) (hI : Passed (a :: rest) c') :
      a ≠ c.mHead ∧
        ((∃ b c'', removeBody obj a c' = some (.next b, c'') ∧
            c''.links.next b = some (rest.headD c.mHead) ∧ Passed rest c'') ∨
          ∃ c'', removeBody obj a c' = some (.leave, c'') ∧ Removed c nodes cur obj true c'') := by
    obtain ⟨rfl, seen, r, hnodes, hrest, hseen⟩ := hI
    obtain ⟨n, r, rfl, rfl, rfl⟩ := List.map_eq_cons_iff.mp hrest.symm
    have hn : n ∈ nodes := by simp [hnodes]
    refine ⟨h.ring.ne_head (List.mem_map_of_mem hn), ?_⟩
    by_cases hobj : n.2 = obj
    · obtain ⟨c'', hleave, hholds, hhead⟩ := h.removeBody_of_eq hn
      have hfind : (nodes.find? fun n => n.2 = obj) = some n := by
        rw [hnodes, List.find?_append, List.find?_eq_none.mpr (by simpa using hseen),
          List.find?_cons_of_pos (by simpa using hobj), Option.none_or]
      refine .inr ⟨c'', hobj ▸ hleave, ?_⟩
      rw [Removed, hfind]
      exact ⟨rfl, hhead, hholds⟩
    · have hring := h.ring
      rw [hnodes, List.map_append, List.map_cons] at hring
      refine .inl ⟨n.1, c', h.removeBody_of_ne hn hobj, hring.next_eq, rfl, seen ++ [n], r, ?_, rfl,
        ?_⟩
      · rw [hnodes, List.append_assoc, List.singleton_append]
      · intro m hm
        rcases List.mem_append.mp hm with hm | hm
        · exact hseen m hm
        · exact List.mem_singleton.mp hm ▸ hobj
  have hend (c' : ObjectContainer κ Obj) (hI : Passed [] c') :
      Removed c nodes cur obj false c' := by
    obtain ⟨rfl, seen, r, hnodes, hrest, hseen⟩ := hI
    obtain rfl := List.map_eq_nil_iff.mp hrest.symm
    have hfind : (nodes.find? fun n => n.2 = obj) = none := by
      rw [hnodes, List.append_nil]
      exact List.find?_eq_none.mpr (by simpa using hseen)
    rw [Removed, hfind]
    exact ⟨rfl, rfl⟩
  have hstart : Passed (nodes.map Prod.fst) c := ⟨rfl, [], nodes, rfl, rfl, nofun⟩
  obtain ⟨removed, c', hrun, hremoved⟩ := forEach_spec (Q := Removed c nodes cur obj) hbody hend
    hstart ((List.length_map Prod.fst).symm ▸ hfuel)
  refine ⟨removed, c', ?_, hremoved⟩
  rw [ObjectContainer.Remove, h.ring.next_head]
  change (forEach _ _ _ _ _ _).bind _ = _
  rw [hrun]
  rfl

end Remove

/-- The loop of `Dispose`, which leaves the cursor alone. -/
theorem disposeNodes (h : Holds { c with mCurrent := none } nodes .null) {fuel : ℕ}
    (hfuel : nodes.length < fuel) :
    ∃ c', c.disposeNodes fuel = some c' ∧ Holds { c' with mCurrent := none } [] .null ∧
      c'.mHead = c.mHead := by
  induction nodes generalizing c fuel with
  | nil =>
    obtain ⟨fuel, rfl⟩ := Nat.exists_eq_succ_of_ne_zero (Nat.ne_zero_of_lt hfuel)
    have hnext : c.links.next c.mHead = some c.mHead := h.ring.next_head
    refine ⟨c, ?_, h, rfl⟩
    rw [ObjectContainer.disposeNodes, hnext]
    exact if_pos rfl
  | cons n nodes ih =>
    obtain ⟨fuel, rfl⟩ := Nat.exists_eq_succ_of_ne_zero (Nat.ne_zero_of_lt hfuel)
    have hmem : n.1 ∈ (n :: nodes).map Prod.fst := List.mem_cons_self
    have hnext : c.links.next c.mHead = some n.1 := h.ring.next_head
    have hne : n.1 ≠ c.mHead := h.ring.ne_head hmem
    obtain ⟨c', hdetach, hholds, -⟩ := h.detach hmem
    obtain ⟨links, hlinks, hc'⟩ := Option.bind_eq_some_iff.mp hdetach
    obtain rfl := Option.some.inj hc'
    have hremove : Cursor.remove Prod.fst (n :: nodes) n.1 = nodes :=
      List.eraseP_cons_of_pos (decide_eq_true rfl)
    rw [hremove] at hholds
    obtain ⟨c'', hrun, hempty, hhead⟩ :=
      ih (c := { c with links }.delete n.1) hholds (Nat.lt_of_succ_lt_succ hfuel)
    refine ⟨c'', ?_, hempty, hhead⟩
    have hlinks : c.links.detach n.1 = some links := hlinks
    rw [ObjectContainer.disposeNodes, hnext]
    change ite (n.1 = c.mHead) _ ((c.links.detach n.1).bind _) = _
    rw [if_neg hne, hlinks]
    exact hrun

/-- **`Dispose`** empties the container. -/
theorem Dispose (h : Holds c nodes cur) {fuel : ℕ} (hfuel : nodes.length < fuel) :
    ∃ c', c.Dispose fuel = some (NOERROR, c') ∧ Holds c' [] .null ∧ c'.mHead = c.mHead := by
  have hnull : Holds { c with mCurrent := none } nodes .null :=
    ⟨h.ring, h.objects, h.deleted, rfl, trivial⟩
  obtain ⟨c', hrun, hholds, hhead⟩ := hnull.disposeNodes hfuel
  refine ⟨{ c' with mCurrent := none }, ?_, hholds, hhead⟩
  rw [ObjectContainer.Dispose, hrun]
  rfl

end Holds

end ObjectContainer

end ElastosCar
