import ElastosCar.Base.ObjectContainer
import ElastosCar.Lib.Trace

/-!
# Iterations over an object container

Any sequence of calls on an `ObjectContainer`: objects are added and removed while an iteration goes
on, the current one among them. An `Iteration` is a container with its history: what has been added
and not removed, which of the nodes have been there since the last `Reset`, and where `MoveNext` has
come to.

* `Kept`: what is still to be visited, and what has been, are together the nodes that have stayed.
* `sound_run`: an iteration visits these once and in order, and ends with `S_FALSE`.
-/

namespace ElastosCar

namespace ObjectContainer

variable {κ Obj : Type}

/-! ### Calls -/

/-- A call; that of `Add` with what `new` returns. -/
inductive Call (κ Obj : Type)
  | Add (obj : Obj) (node : Option κ)
  | Remove (obj : Obj)
  | Dispose
  | Reset
  | MoveNext
  | Current

/-- Where an iteration stands: it goes on, it has ended with `S_FALSE`, or `Dispose` has stopped
it. -/
inductive Phase
  | going
  | ended
  | stopped
deriving DecidableEq, Repr

/-- A container with its history. -/
structure Iteration (κ Obj : Type) where
  container : ObjectContainer κ Obj
  /-- The objects that have been added and not removed. -/
  held : List Obj := []
  /-- Their nodes. -/
  nodes : List (κ × Obj) := []
  phase : Phase := .going
  /-- The nodes that have been there since the last `Reset`. -/
  stayed : List (κ × Obj) := []
  /-- Where `MoveNext` has come to, with what `Current` answers there. -/
  visited : List (κ × Obj) := []
  /-- The number of the nodes at the last `Reset` and of those added since. -/
  present : ℕ := 0
  /-- The number of the calls of `MoveNext` since. -/
  moves : ℕ := 0

variable [DecidableEq κ] [DecidableEq Obj]

/-- `fuel` is for the loops. -/
def perform (fuel : ℕ) (c : ObjectContainer κ Obj) :
    Call κ Obj → Option (ECode × ObjectContainer κ Obj)
  | .Add obj node => c.Add obj node
  | .Remove obj => c.Remove obj fuel
  | .Dispose => c.Dispose fuel
  | .Reset => some c.Reset
  | .MoveNext => c.MoveNext
  | .Current => c.Current.map fun r => (r.1, c)

/-- The objects after a call. `Remove` takes one out, the first. -/
def Call.hold (held : List Obj) : Call κ Obj → List Obj
  | .Add obj (some _) => held ++ [obj]
  | .Remove obj => held.erase obj
  | .Dispose => []
  | _ => held

/-- The nodes after a call. -/
def Call.place (nodes : List (κ × Obj)) : Call κ Obj → List (κ × Obj)
  | .Add obj (some a) => nodes ++ [(a, obj)]
  | .Remove obj => nodes.eraseP fun n => n.2 = obj
  | .Dispose => []
  | _ => nodes

/-- The node that the cursor is at, with what `Current` answers. -/
def visit (c : ObjectContainer κ Obj) : List (κ × Obj) :=
  match c.mCurrent, c.Current with
  | some a, some (_, some obj) => [(a, obj)]
  | _, _ => []

namespace Iteration

def start (mHead : κ) : Iteration κ Obj := { container := new mHead }

/-- The history after a call. -/
def next (t : Iteration κ Obj) (call : Call κ Obj) (ec : ECode) (c : ObjectContainer κ Obj) :
    Iteration κ Obj :=
  let t := { t with
    container := c, held := call.hold t.held, nodes := call.place t.nodes,
    stayed := t.stayed.filter fun n => n ∈ call.place t.nodes }
  match call with
  | .Reset =>
    { t with
      phase := .going, stayed := t.nodes, visited := [], present := t.nodes.length, moves := 0 }
  | .Dispose => { t with phase := .stopped }
  | .Add _ (some _) => { t with present := t.present + 1 }
  | .MoveNext =>
    let t := { t with moves := t.moves + 1 }
    if t.phase = .going ∧ ec = NOERROR then { t with visited := t.visited ++ c.visit }
    else if t.phase = .going ∧ ec = S_FALSE then { t with phase := .ended }
    else t
  | _ => t

def step (fuel : ℕ) (t : Iteration κ Obj) (call : Call κ Obj) : Option (Iteration κ Obj) :=
  (t.container.perform fuel call).map fun r => t.next call r.1 r.2

/-- A new node is where none is. -/
def Fresh (t : Iteration κ Obj) : Call κ Obj → Prop
  | .Add _ (some a) => a ≠ t.container.mHead ∧ t.container.mObject a = none
  | _ => True

/-! ### What the calls keep -/

/-- How far the iteration is with the cursor at a place. -/
def At (t : Iteration κ Obj) (cur : Cursor κ) : Prop :=
  match t.phase with
  | .going => cur ≠ .null ∧ t.moves = t.visited.length ∧
      t.visited.length + (cur.rest Prod.fst t.nodes).length ≤ t.present ∧
      (t.visited ++ cur.rest Prod.fst t.nodes).filter (fun n => n ∈ t.stayed) = t.stayed
  | .ended => t.visited.filter (fun n => n ∈ t.stayed) = t.stayed
  | .stopped => True

/-- **What every call keeps.** -/
structure Kept (t : Iteration κ Obj) : Prop where
  place : ∃ cur, Holds t.container t.nodes cur ∧ t.At cur
  held : t.nodes.map Prod.snd = t.held
  stayed : t.stayed.Sublist t.nodes

theorem kept_start (mHead : κ) : Kept (start mHead : Iteration κ Obj) :=
  ⟨⟨.head, holds_new mHead, nofun, rfl, le_rfl, rfl⟩, rfl, .slnil⟩

variable {t t' : Iteration κ Obj} {c : ObjectContainer κ Obj} {nodes : List (κ × Obj)}
  {cur cur' : Cursor κ} {ec : ECode} {fuel : ℕ}

theorem filter_stayed {l stayed : List (κ × Obj)} (h : l.filter (fun n => n ∈ stayed) = stayed)
    (nodes : List (κ × Obj)) :
    l.filter (fun n => n ∈ stayed.filter fun n => n ∈ nodes) =
      stayed.filter fun n => n ∈ nodes := by
  have hboth : ∀ n, decide (n ∈ stayed.filter fun n => n ∈ nodes) =
      (decide (n ∈ nodes) && decide (n ∈ stayed)) := by
    intro n
    rw [← Bool.decide_and, decide_eq_decide, List.mem_filter, decide_eq_true_iff, And.comm]
  simp only [hboth]
  rw [← List.filter_filter, h]

/-- A call that does not go on with the iteration: what it takes out or adds is not of the nodes
that stay. -/
theorem At.congr (h : t.At cur) (hphase : t'.phase = t.phase) (hvisited : t'.visited = t.visited)
    (hmoves : t'.moves = t.moves)
    (hstayed : t'.stayed = t.stayed.filter fun n => n ∈ t'.nodes)
    (hnull : cur ≠ .null → cur' ≠ .null)
    (hlength : (cur'.rest Prod.fst t'.nodes).length + t.present ≤
      (cur.rest Prod.fst t.nodes).length + t'.present)
    (hrest : (cur'.rest Prod.fst t'.nodes).filter (fun n => n ∈ t'.stayed) =
      (cur.rest Prod.fst t.nodes).filter fun n => n ∈ t'.stayed) : t'.At cur' := by
  rw [At] at h ⊢
  rw [hphase, hvisited, hmoves]
  cases hp : t.phase with
  | going =>
    rw [hp] at h
    obtain ⟨hne, hcount, hle, hfilter⟩ := h
    refine ⟨hnull hne, hcount, by omega, ?_⟩
    rw [List.filter_append, hrest, ← List.filter_append, hstayed]
    exact filter_stayed hfilter _
  | ended =>
    rw [hp] at h
    dsimp only
    rw [hstayed]
    exact filter_stayed h _
  | stopped => trivial

theorem Kept.stayed_eq (h : Kept t) (hsub : t.nodes ⊆ nodes) :
    (t.stayed.filter fun n => n ∈ nodes) = t.stayed :=
  List.filter_eq_self.mpr fun _ hn => decide_eq_true (hsub (h.stayed.subset hn))

/-- A call that changes nothing. -/
theorem Kept.unchanged (h : Kept t) (hcontainer : t'.container = t.container)
    (hheld : t'.held = t.held) (hnodes : t'.nodes = t.nodes) (hphase : t'.phase = t.phase)
    (hstayed : t'.stayed = t.stayed.filter fun n => n ∈ t.nodes)
    (hvisited : t'.visited = t.visited) (hpresent : t'.present = t.present)
    (hmoves : t'.moves = t.moves) : Kept t' := by
  obtain ⟨⟨cur, hholds, hat⟩, hheld', hsub⟩ := h
  refine ⟨⟨cur, hcontainer ▸ hnodes ▸ hholds, ?_⟩, ?_, ?_⟩
  · exact hat.congr hphase hvisited hmoves (hnodes ▸ hstayed) id (by rw [hnodes, hpresent])
      (by rw [hnodes])
  · rw [hnodes, hheld, hheld']
  · rw [hnodes, hstayed]
    exact List.filter_sublist.trans hsub

/-! ### One call -/

/-- A call goes through, and keeps what every call keeps. -/
def Goes (fuel : ℕ) (t : Iteration κ Obj) (call : Call κ Obj) : Prop :=
  ∃ ec c, t.container.perform fuel call = some (ec, c) ∧ Kept (t.next call ec c)

theorem Kept.add (h : Kept t) (fuel : ℕ) (obj : Obj) {node : Option κ}
    (hfresh : t.Fresh (.Add obj node)) : t.Goes fuel (.Add obj node) := by
  cases node with
  | none => exact ⟨_, _, rfl, h.unchanged rfl rfl rfl rfl rfl rfl rfl rfl⟩
  | some a =>
    have hstayed : (t.stayed.filter fun n => n ∈ t.nodes ++ [(a, obj)]) = t.stayed :=
      h.stayed_eq (List.subset_append_left _ _)
    obtain ⟨⟨cur, hholds, hat⟩, hheld, hsub⟩ := h
    obtain ⟨c, hadd, hholds', -⟩ := hholds.Add hfresh.1 hfresh.2 obj
    have hnot : (a, obj) ∉ t.stayed := fun hmem =>
      hholds.mObject_ne_none (List.mem_map_of_mem (hsub.subset hmem)) hfresh.2
    have hrest : cur.rest Prod.fst (t.nodes ++ [(a, obj)]) =
        cur.rest Prod.fst t.nodes ++ if cur = .null then [] else [(a, obj)] := by
      split_ifs with hnull
      · rw [hnull]
        rfl
      · exact Cursor.rest_append hholds.valid hnull (a, obj)
    refine ⟨_, c, hadd, ⟨cur, hholds', ?_⟩, ?_, ?_⟩
    · refine hat.congr rfl rfl rfl rfl id ?_ ?_
      · change (cur.rest Prod.fst (t.nodes ++ [(a, obj)])).length + t.present ≤
          (cur.rest Prod.fst t.nodes).length + (t.present + 1)
        rw [hrest, List.length_append]
        split_ifs
        · exact Nat.add_le_add_left (Nat.le_succ _) _
        · exact (Nat.add_right_comm _ 1 _).le
      · change (cur.rest Prod.fst (t.nodes ++ [(a, obj)])).filter (fun n => n ∈
          t.stayed.filter fun n => n ∈ t.nodes ++ [(a, obj)]) =
          (cur.rest Prod.fst t.nodes).filter (fun n => n ∈
            t.stayed.filter fun n => n ∈ t.nodes ++ [(a, obj)])
        rw [hstayed, hrest, List.filter_append]
        split_ifs
        · exact List.append_nil _
        · rw [List.filter_cons_of_neg (by simpa using hnot), List.filter_nil, List.append_nil]
    · change (t.nodes ++ [(a, obj)]).map Prod.snd = t.held ++ [obj]
      rw [List.map_append, hheld, List.map_singleton]
    · change (t.stayed.filter fun n => n ∈ t.nodes ++ [(a, obj)]).Sublist (t.nodes ++ [(a, obj)])
      rw [hstayed]
      exact hsub.trans (List.sublist_append_left _ _)

/-- The first node with an object, by its address. -/
theorem remove_eq_eraseP (hnodup : (nodes.map Prod.fst).Nodup) {obj : Obj} {n : κ × Obj}
    (hfind : (nodes.find? fun n => n.2 = obj) = some n) :
    Cursor.remove Prod.fst nodes n.1 = nodes.eraseP fun n => n.2 = obj := by
  obtain ⟨hobj, l₁, l₂, rfl, hfirst⟩ := List.find?_eq_some_iff_append.mp hfind
  have hpre : ∀ m ∈ l₁, ¬decide (m.2 = obj) = true := by simpa using hfirst
  rw [Cursor.remove_split rfl (Cursor.notMem_of_nodup hnodup), List.eraseP_append_right _ hpre,
    List.eraseP_cons_of_pos (by simpa using hobj)]

omit [DecidableEq κ] in
theorem map_eraseP (obj : Obj) (nodes : List (κ × Obj)) :
    (nodes.eraseP fun n => n.2 = obj).map Prod.snd = (nodes.map Prod.snd).erase obj := by
  have hcomp : (fun o => obj == o) ∘ Prod.snd = fun n : κ × Obj => decide (n.2 = obj) := by
    funext n
    rw [Bool.eq_iff_iff, Function.comp, beq_iff_eq, decide_eq_true_iff, eq_comm]
  rw [List.erase_eq_eraseP, List.eraseP_map, hcomp]

theorem Kept.remove (h : Kept t) (hfuel : t.nodes.length < fuel) (obj : Obj) :
    t.Goes fuel (.Remove obj) := by
  obtain ⟨⟨cur, hholds, hat⟩, hheld, hsub⟩ := id h
  obtain ⟨removed, c, hrun, hremoved⟩ := hholds.Remove obj hfuel
  have hheld' : (t.nodes.eraseP fun n => n.2 = obj).map Prod.snd = t.held.erase obj := by
    rw [map_eraseP, hheld]
  rw [Holds.Removed] at hremoved
  split at hremoved
  · next hfind =>
    obtain ⟨rfl, rfl⟩ := hremoved
    have hnone : (t.nodes.eraseP fun n => n.2 = obj) = t.nodes :=
      List.eraseP_of_forall_not (List.find?_eq_none.mp hfind)
    refine ⟨_, _, hrun, h.unchanged rfl ?_ hnone rfl ?_ rfl rfl rfl⟩
    · rw [hnone, hheld] at hheld'
      exact hheld'.symm
    · change (t.stayed.filter fun n => n ∈ t.nodes.eraseP fun n => n.2 = obj) = _
      rw [hnone]
  · next n hfind =>
    obtain ⟨rfl, -, hholds'⟩ := hremoved
    have hnodes := remove_eq_eraseP hholds.nodup hfind
    have hmem : ∀ m, m ∈ (t.nodes.eraseP fun n => n.2 = obj) ↔ m ∈ t.nodes ∧ m.1 ≠ n.1 :=
      fun m => hnodes ▸ Cursor.mem_remove_iff hholds.nodup
    rw [hnodes] at hholds'
    refine ⟨_, c, hrun, ⟨_, hholds', ?_⟩, hheld', ?_⟩
    · have hrest := Cursor.rest_back (i := n.1) hholds.nodup hholds.valid
      rw [hnodes] at hrest
      refine hat.congr rfl rfl rfl rfl Cursor.back_ne_null ?_ ?_
      · change (Cursor.rest Prod.fst (t.nodes.eraseP fun n => n.2 = obj) _).length + t.present ≤ _
        rw [hrest]
        exact Nat.add_le_add_right List.length_eraseP_le _
      · change (Cursor.rest Prod.fst (t.nodes.eraseP fun n => n.2 = obj) _).filter _ = _
        rw [hrest]
        refine Cursor.filter_remove fun m _ hm => decide_eq_false fun hstayed => ?_
        have hplace := of_decide_eq_true (List.mem_filter.mp hstayed).2
        exact ((hmem m).mp hplace).2 hm
    · change (t.stayed.filter fun n => n ∈ t.nodes.eraseP fun n => n.2 = obj).Sublist
        (t.nodes.eraseP fun n => n.2 = obj)
      have hfilter : (t.nodes.filter fun m => m ∈ t.nodes.eraseP fun n => n.2 = obj) =
          t.nodes.eraseP fun n => n.2 = obj := by
        refine Eq.trans ?_ ((Cursor.remove_eq_filter hholds.nodup).symm.trans hnodes)
        refine List.filter_congr fun m hm => ?_
        rw [decide_eq_decide, hmem, and_iff_right hm]
      have hplace := hsub.filter fun m => m ∈ t.nodes.eraseP fun n => n.2 = obj
      rwa [hfilter] at hplace

theorem Kept.current (h : Kept t) (fuel : ℕ) : t.Goes fuel .Current := by
  obtain ⟨cur, hholds, -⟩ := h.place
  have hcurrent : ∃ r, t.container.Current = some r := by
    have hvalid := hholds.valid
    cases cur with
    | null => exact ⟨_, if_pos (.inl hholds.mCurrent)⟩
    | head => exact ⟨_, if_pos (.inr hholds.mCurrent)⟩
    | node a =>
      obtain ⟨n, hn, rfl⟩ := List.mem_map.mp hvalid
      exact ⟨_, hholds.Current_node hn⟩
  obtain ⟨r, hr⟩ := hcurrent
  refine ⟨r.1, t.container, ?_, h.unchanged rfl rfl rfl rfl rfl rfl rfl rfl⟩
  rw [perform, hr]
  rfl

theorem Kept.reset (h : Kept t) (fuel : ℕ) : t.Goes fuel .Reset := by
  obtain ⟨⟨cur, hholds, -⟩, hheld, -⟩ := h
  refine ⟨_, _, rfl, ⟨.head, hholds.Reset, nofun, rfl, ?_, ?_⟩, hheld, .refl _⟩
  · exact (Nat.zero_add _).le
  · exact List.filter_eq_self.mpr fun _ hn => decide_eq_true hn

theorem Kept.dispose (h : Kept t) (hfuel : t.nodes.length < fuel) : t.Goes fuel .Dispose := by
  obtain ⟨⟨cur, hholds, -⟩, -, -⟩ := h
  obtain ⟨c, hrun, hempty, -⟩ := hholds.Dispose hfuel
  refine ⟨_, c, hrun, ⟨.null, hempty, trivial⟩, rfl, ?_⟩
  change (t.stayed.filter fun n => n ∈ []).Sublist []
  rw [List.filter_eq_nil_iff.mpr fun n _ => by simp]

omit [DecidableEq Obj] in
/-- A node is visited. -/
theorem visit_eq {n : κ × Obj} (h : Holds c nodes (.node n.1)) (hn : n ∈ nodes) :
    c.visit = [n] := by
  have hcurrent : c.mCurrent = some n.1 := h.mCurrent
  rw [visit, hcurrent, h.Current_node hn]

theorem Kept.next_moveNext (h : Kept t) (ec : ECode) (c : ObjectContainer κ Obj) :
    t.next .MoveNext ec c =
      if t.phase = .going ∧ ec = NOERROR then
        { t with container := c, moves := t.moves + 1, visited := t.visited ++ c.visit }
      else if t.phase = .going ∧ ec = S_FALSE then
        { t with container := c, moves := t.moves + 1, phase := .ended }
      else { t with container := c, moves := t.moves + 1 } := by
  have hstayed : (t.stayed.filter fun n => n ∈ Call.place t.nodes .MoveNext) = t.stayed :=
    h.stayed_eq (List.Subset.refl t.nodes)
  rw [next, hstayed]
  rfl

/-- `MoveNext` where no iteration goes on. -/
theorem Kept.moveNext_of_ne (h : Kept t) (hphase : t.phase ≠ .going)
    (hholds : Holds c t.nodes cur') (ec : ECode) : Kept (t.next .MoveNext ec c) := by
  rw [h.next_moveNext, if_neg fun hgoing => hphase hgoing.1, if_neg fun hgoing => hphase hgoing.1]
  obtain ⟨⟨cur, -, hat⟩, hheld, hsub⟩ := h
  refine ⟨⟨cur', hholds, ?_⟩, hheld, hsub⟩
  rw [At] at hat ⊢
  cases hp : t.phase with
  | going => exact absurd hp hphase
  | ended =>
    rw [hp] at hat
    exact hat
  | stopped => trivial

/-- **`MoveNext`** comes to the next of the nodes that are left, or ends the iteration. -/
theorem Kept.moveNext (h : Kept t) (fuel : ℕ) : t.Goes fuel .MoveNext := by
  obtain ⟨⟨cur, hholds, hat⟩, hheld, hsub⟩ := id h
  by_cases hnull : cur = .null
  · subst hnull
    refine ⟨_, _, hholds.MoveNext_null, h.moveNext_of_ne (fun hp => ?_) hholds _⟩
    rw [At, hp] at hat
    exact hat.1 rfl
  cases hrest : cur.rest Prod.fst t.nodes with
  | nil =>
    have hholds' : Holds { t.container with mCurrent := none } t.nodes .null :=
      ⟨hholds.ring, hholds.objects, hholds.deleted, rfl, trivial⟩
    refine ⟨_, _, hholds.MoveNext_last hnull hrest, ?_⟩
    by_cases hp : t.phase = .going
    · have hec : S_FALSE ≠ NOERROR := by decide
      rw [At, hp, hrest, List.append_nil] at hat
      rw [h.next_moveNext, if_neg fun hgoing => hec hgoing.2, if_pos ⟨hp, rfl⟩]
      exact ⟨⟨.null, hholds', hat.2.2.2⟩, hheld, hsub⟩
    · exact h.moveNext_of_ne hp hholds' _
  | cons n r =>
    obtain ⟨c, hmove, hholds'⟩ := hholds.MoveNext_cons hrest
    have hn : n ∈ t.nodes := Cursor.rest_subset (hrest ▸ List.mem_cons_self)
    refine ⟨_, c, hmove, ?_⟩
    by_cases hp : t.phase = .going
    · rw [At, hp, hrest] at hat
      obtain ⟨-, hmoves, hle, hfilter⟩ := hat
      have hrest' : (Cursor.node n.1).rest Prod.fst t.nodes = r :=
        (Cursor.rest_next hholds.nodup hholds.valid hrest).2
      rw [h.next_moveNext, if_pos ⟨hp, rfl⟩, visit_eq hholds' hn]
      refine ⟨⟨.node n.1, hholds', ?_⟩, hheld, hsub⟩
      rw [At, hp]
      dsimp only
      rw [hrest', List.length_append, List.length_singleton, hmoves, List.append_assoc,
        List.singleton_append]
      rw [List.length_cons] at hle
      exact ⟨nofun, rfl, by omega, hfilter⟩
    · exact h.moveNext_of_ne hp hholds' _

/-- **Every call goes through**, and keeps what every call keeps. -/
theorem Kept.goes (h : Kept t) {call : Call κ Obj} (hfresh : t.Fresh call)
    (hfuel : t.nodes.length < fuel) : t.Goes fuel call := by
  cases call with
  | Add obj node => exact h.add fuel obj hfresh
  | Remove obj => exact h.remove hfuel obj
  | Dispose => exact h.dispose hfuel
  | Reset => exact h.reset fuel
  | MoveNext => exact h.moveNext fuel
  | Current => exact h.current fuel

/-! ### Runs -/

omit [DecidableEq κ] in
theorem length_place_le (call : Call κ Obj) (nodes : List (κ × Obj)) :
    (call.place nodes).length ≤ nodes.length + 1 := by
  cases call with
  | Add obj node =>
    cases node with
    | none => exact Nat.le_succ _
    | some a => exact (List.length_append ..).le
  | Remove obj => exact List.length_eraseP_le.trans (Nat.le_succ _)
  | Dispose => exact Nat.zero_le _
  | _ => exact Nat.le_succ _

theorem nodes_next (t : Iteration κ Obj) (call : Call κ Obj) (ec : ECode)
    (c : ObjectContainer κ Obj) : (t.next call ec c).nodes = call.place t.nodes := by
  cases call with
  | Add obj node => cases node <;> rfl
  | MoveNext =>
    rw [next]
    dsimp only
    split_ifs <;> rfl
  | _ => rfl

/-- Every run goes through, with passes for each of its calls. -/
theorem Kept.run (h : Kept t) {calls : List (Call κ Obj)}
    (hmeets : Trace.Meets (step fuel) Fresh t calls)
    (hfuel : t.nodes.length + calls.length < fuel) :
    ∃ t', Trace.run (step fuel) t calls = some t' ∧ Kept t' := by
  induction calls generalizing t with
  | nil => exact ⟨t, rfl, h⟩
  | cons call calls ih =>
    obtain ⟨hfresh, hrest⟩ := hmeets
    rw [List.length_cons] at hfuel
    have hlt : t.nodes.length < fuel := by omega
    obtain ⟨ec, c, hperform, hkept⟩ := h.goes hfresh hlt
    have hstep : step fuel t call = some (t.next call ec c) := by
      rw [step, hperform]
      rfl
    have hlength := length_place_le call t.nodes
    rw [← nodes_next t call ec c] at hlength
    have hfuel' : (t.next call ec c).nodes.length + calls.length < fuel := by omega
    obtain ⟨t', hrun, hkept'⟩ := ih hkept (hrest _ hstep) hfuel'
    exact ⟨t', (Trace.run_cons hstep).trans hrun, hkept'⟩

/-- **What is to be in a state**: the ring has the objects that have been added and not removed, in
their order; the cursor is at one of them, at the head or nowhere. An iteration goes on with
`NOERROR` or ends with `S_FALSE`, and it has made no more moves than there were nodes; when it has
ended, it has visited the nodes that stayed once and in order. -/
structure Sound (t : Iteration κ Obj) : Prop where
  ring : LinkedRing t.container.links t.container.mHead (t.nodes.map Prod.fst)
  contents : (t.nodes.map fun n => t.container.mObject n.1) = t.held.map some
  current : t.container.mCurrent = none ∨ t.container.mCurrent = some t.container.mHead ∨
    ∃ n ∈ t.nodes, t.container.mCurrent = some n.1
  goes : t.phase = .going → t.moves ≤ t.present ∧
    ∃ ec c, t.container.MoveNext = some (ec, c) ∧ (ec = NOERROR ∨ ec = S_FALSE)
  order : t.stayed.Sublist t.nodes
  visits : t.phase = .ended → t.visited.filter (fun n => n ∈ t.stayed) = t.stayed
  once : t.phase = .ended → ∀ n ∈ t.stayed, t.visited.count n = 1

theorem Kept.sound (h : Kept t) : Sound t := by
  obtain ⟨⟨cur, hholds, hat⟩, hheld, hsub⟩ := h
  have hvisits : t.phase = .ended → t.visited.filter (fun n => n ∈ t.stayed) = t.stayed := by
    intro hp
    rwa [At, hp] at hat
  refine ⟨hholds.ring, ?_, ?_, fun hp => ?_, hsub, hvisits, fun hp n hn => ?_⟩
  · rw [← hheld, List.map_map]
    exact List.map_congr_left hholds.objects
  · have hvalid := hholds.valid
    cases cur with
    | null => exact .inl hholds.mCurrent
    | head => exact .inr (.inl hholds.mCurrent)
    | node a =>
      obtain ⟨n, hn, rfl⟩ := List.mem_map.mp hvalid
      exact .inr (.inr ⟨n, hn, hholds.mCurrent⟩)
  · rw [At, hp] at hat
    obtain ⟨hnull, hmoves, hle, -⟩ := hat
    refine ⟨by omega, ?_⟩
    cases hrest : cur.rest Prod.fst t.nodes with
    | nil => exact ⟨_, _, hholds.MoveNext_last hnull hrest, .inr rfl⟩
    | cons n r =>
      obtain ⟨c, hmove, -⟩ := hholds.MoveNext_cons hrest
      exact ⟨_, c, hmove, .inl rfl⟩
  · have hnodup : t.stayed.Nodup := (hholds.nodup.of_map _).sublist hsub
    rw [← List.count_filter (p := fun n => n ∈ t.stayed) (decide_eq_true hn), hvisits hp]
    exact List.count_eq_one_of_mem hnodup hn

/-- **In every run**, whatever calls come between those of an iteration. -/
theorem sound_run {mHead : κ} {calls : List (Call κ Obj)}
    (hmeets : Trace.Meets (step fuel) Fresh (start mHead) calls) (hfuel : calls.length < fuel) :
    ∃ t, Trace.run (step fuel) (start mHead) calls = some t ∧ Sound t := by
  obtain ⟨t, hrun, hkept⟩ := (kept_start mHead).run hmeets ((Nat.zero_add _).symm ▸ hfuel)
  exact ⟨t, hrun, hkept.sound⟩

/-- The first of two objects is removed while the iteration is at it. The second is visited once. -/
theorem sound_run_current :
    ∃ t : Iteration ℕ ℕ, Trace.run (step 10) (start 0)
        [.Add 10 (some 1), .Add 20 (some 2), .Reset, .MoveNext, .Remove 10, .MoveNext,
          .MoveNext] = some t ∧
      Sound t ∧ t.phase = .ended ∧ t.visited = [(1, 10), (2, 20)] ∧ t.stayed = [(2, 20)] := by
  have hmeets : Trace.Meets (step 10) Fresh (start 0 : Iteration ℕ ℕ)
      [.Add 10 (some 1), .Add 20 (some 2), .Reset, .MoveNext, .Remove 10, .MoveNext,
        .MoveNext] := by
    refine ⟨⟨Nat.one_ne_zero, rfl⟩, fun t ht => ?_⟩
    obtain rfl := Option.some.inj ht
    exact ⟨⟨(two_ne_zero : (2 : ℕ) ≠ 0), rfl⟩, fun _ _ => ⟨trivial, fun _ _ => ⟨trivial, fun _ _ =>
      ⟨trivial, fun _ _ => ⟨trivial, fun _ _ => ⟨trivial, fun _ _ => trivial⟩⟩⟩⟩⟩⟩
  obtain ⟨t, hrun, hsound⟩ := sound_run hmeets (by decide)
  refine ⟨t, hrun, hsound, ?_⟩
  obtain rfl := Option.some.inj hrun
  exact ⟨rfl, rfl, rfl⟩

end Iteration

end ObjectContainer

end ElastosCar
