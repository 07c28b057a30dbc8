import ElastosCar.Callback.ContextContainer

/-!
# What callback registrations keep

A `Registrations` goes on in step with its history while it is `Kept`: the rings are rings
(`Linked`), and the container agrees with what has been added and removed (`Sound`). Every call is
one of a few changes of the ring of contexts, a change of one node, a new node behind the others or
a node less, and `delegates_eq_update` and the rules of `Lib/Cursor` say what becomes of the
delegates and of the iteration.

`Remove(context, delegate)` and `Dispose` delete a node without moving the cursor, as `Remove(node)`
does, and a failing `CancelCallbackEvents` leaves a node without delegates in the ring.
`sound_iff_spared` says that nothing else goes wrong.
-/

namespace ElastosCar

namespace CallbackContextContainer

/-- What every sequence of calls keeps of the rings. -/
structure Linked (s : CallbackContextContainer) : Prop where
  addrs : (s.nodes.map CallbackContextNode.addr).Nodup
  contexts : (s.nodes.map CallbackContextNode.mCallbackContext).Nodup
  inner : ∀ n ∈ s.nodes, (n.mDelegateContainer.nodes.map DelegateNode.addr).Nodup
  mEmpty : ∀ n ∈ s.nodes, n.mEmpty = false

variable {s : CallbackContextContainer} {n n' : CallbackContextNode} {c i : UInt32}

/-! ### Searches -/

theorem find?_eq_some_iff (h : s.Linked) :
    s.find? c = some n ↔ n ∈ s.nodes ∧ n.mCallbackContext = c := Cursor.find?_eq_some_iff h.contexts

theorem delegates_of_mem (h : s.Linked) (hmem : n ∈ s.nodes) :
    s.delegates n.mCallbackContext = n.mDelegateContainer.nodes.map DelegateNode.mDelegate := by
  rw [delegates, (find?_eq_some_iff h).mpr ⟨hmem, rfl⟩, Option.elim_some]

theorem delegates_of_notMem (h : c ∉ s.nodes.map CallbackContextNode.mCallbackContext) :
    s.delegates c = [] := by
  rw [delegates, find?, Cursor.find?_eq_none_iff.mpr h, Option.elim_none]

/-- The delegates by context, where a ring has those of another but for one context. -/
theorem delegates_eq_update {s' : CallbackContextContainer} (h : s.Linked) (h' : s'.Linked)
    {l : List EventHandler} (hmem : ∀ m ∈ s'.nodes, m.mCallbackContext ≠ c → m ∈ s.nodes)
    (hkeep : ∀ m ∈ s.nodes, m.mCallbackContext ≠ c → m ∈ s'.nodes) (hc : s'.delegates c = l) :
    s'.delegates = Function.update s.delegates c l := by
  funext k
  rw [Function.update_apply]
  split_ifs with hk
  · rw [hk, hc]
  · by_cases hex : k ∈ s.nodes.map CallbackContextNode.mCallbackContext
    · obtain ⟨m, hm, rfl⟩ := List.mem_map.mp hex
      rw [delegates_of_mem h hm, delegates_of_mem h' (hkeep m hm hk)]
    · rw [delegates_of_notMem hex]
      refine delegates_of_notMem fun hex' => hex ?_
      obtain ⟨m, hm, rfl⟩ := List.mem_map.mp hex'
      exact List.mem_map_of_mem (hmem m hm hk)

/-! ### A change of a node -/

/-- A node that takes the place of another. -/
structure Replaces (n' n : CallbackContextNode) : Prop where
  addr : n'.addr = n.addr
  mCallbackContext : n'.mCallbackContext = n.mCallbackContext

theorem update_apply (hn : Replaces n' n) (h : s.Linked) (hmem : n ∈ s.nodes)
    {m : CallbackContextNode} (hm : m ∈ s.nodes) :
    (if m.addr = n'.addr then n' else m) = if m = n then n' else m := by
  refine if_congr ⟨fun hif => ?_, fun hmn => hmn ▸ hn.addr.symm⟩ rfl rfl
  exact List.inj_on_of_nodup_map h.addrs hm hmem (hif.trans hn.addr)

theorem map_update {κ : Type} (g : CallbackContextNode → κ) (h : s.Linked) (hmem : n ∈ s.nodes)
    (hn : Replaces n' n) (hg : g n' = g n) {l : List CallbackContextNode} (hl : l ⊆ s.nodes) :
    (l.map fun m => if m.addr = n'.addr then n' else m).map g = l.map g := by
  rw [List.map_map]
  refine List.map_congr_left fun m hm => ?_
  rw [Function.comp, update_apply hn h hmem (hl hm)]
  split_ifs with hmn
  · rw [hmn, hg]
  · rfl

theorem mem_update (hn : Replaces n' n) (h : s.Linked) (hmem : n ∈ s.nodes)
    {m : CallbackContextNode} : m ∈ (s.update n').nodes ↔ m = n' ∨ m ∈ s.nodes ∧ m ≠ n := by
  rw [update, List.mem_map]
  constructor
  · rintro ⟨k, hk, rfl⟩
    rw [update_apply hn h hmem hk]
    split_ifs with hkn
    · exact .inl rfl
    · exact .inr ⟨hk, hkn⟩
  · rintro (rfl | ⟨hm, hne⟩)
    · exact ⟨n, hmem, by rw [update_apply hn h hmem hmem, if_pos rfl]⟩
    · exact ⟨m, hm, by rw [update_apply hn h hmem hm, if_neg hne]⟩

theorem Linked.update (h : s.Linked) (hmem : n ∈ s.nodes) (hn : Replaces n' n)
    (hinner : (n'.mDelegateContainer.nodes.map DelegateNode.addr).Nodup)
    (hempty : n'.mEmpty = false) :
    (s.update n').Linked where
  addrs := by
    rw [CallbackContextContainer.update, map_update _ h hmem hn hn.addr (List.Subset.refl _)]
    exact h.addrs
  contexts := by
    rw [CallbackContextContainer.update,
      map_update _ h hmem hn hn.mCallbackContext (List.Subset.refl _)]
    exact h.contexts
  inner m hm := by
    rcases (mem_update hn h hmem).mp hm with rfl | ⟨hm, -⟩
    · exact hinner
    · exact h.inner m hm
  mEmpty m hm := by
    rcases (mem_update hn h hmem).mp hm with rfl | ⟨hm, -⟩
    · exact hempty
    · exact h.mEmpty m hm

theorem delegates_update (h : s.Linked) (hmem : n ∈ s.nodes) (hn : Replaces n' n)
    (h' : (s.update n').Linked) :
    (s.update n').delegates = Function.update s.delegates n.mCallbackContext
      (n'.mDelegateContainer.nodes.map DelegateNode.mDelegate) := by
  refine delegates_eq_update h h' (fun m hm hne => ?_) (fun m hm hne => ?_) ?_
  · rcases (mem_update hn h hmem).mp hm with rfl | ⟨hm, -⟩
    · exact absurd hn.mCallbackContext hne
    · exact hm
  · exact (mem_update hn h hmem).mpr (.inr ⟨hm, fun hmn => hne (hmn ▸ rfl)⟩)
  · rw [← hn.mCallbackContext]
    exact delegates_of_mem h' ((mem_update hn h hmem).mpr (.inl rfl))

theorem update_addr (n' m : CallbackContextNode) :
    (if m.addr = n'.addr then n' else m).addr = m.addr := by
  split_ifs with hif
  · exact hif.symm
  · rfl

theorem toVisit_update (h : s.Linked) (hmem : n ∈ s.nodes) (hn : Replaces n' n) :
    (s.update n').toVisit = s.toVisit := by
  rw [toVisit, update, Cursor.rest_map (update_addr n'), toVisit]
  exact map_update _ h hmem hn hn.mCallbackContext Cursor.rest_subset

/-! ### A new node -/

theorem Linked.append (h : s.Linked) (haddr : n.addr ∉ s.nodes.map CallbackContextNode.addr)
    (hc : n.mCallbackContext ∉ s.nodes.map CallbackContextNode.mCallbackContext)
    (hinner : (n.mDelegateContainer.nodes.map DelegateNode.addr).Nodup)
    (hempty : n.mEmpty = false) :
    Linked { s with nodes := s.nodes ++ [n] } where
  addrs := by
    rw [List.map_append]
    exact List.Nodup.append h.addrs (List.nodup_singleton _) (by simpa using haddr)
  contexts := by
    rw [List.map_append]
    exact List.Nodup.append h.contexts (List.nodup_singleton _) (by simpa using hc)
  inner m hm := by
    rcases List.mem_append.mp hm with hm | hm
    · exact h.inner m hm
    · exact List.mem_singleton.mp hm ▸ hinner
  mEmpty m hm := by
    rcases List.mem_append.mp hm with hm | hm
    · exact h.mEmpty m hm
    · exact List.mem_singleton.mp hm ▸ hempty

theorem delegates_append (h : s.Linked) (h' : Linked { s with nodes := s.nodes ++ [n] }) :
    delegates { s with nodes := s.nodes ++ [n] } = Function.update s.delegates n.mCallbackContext
      (n.mDelegateContainer.nodes.map DelegateNode.mDelegate) := by
  refine delegates_eq_update h h' (fun m hm hne => ?_)
    (fun m hm _ => List.mem_append_left _ hm) ?_
  · rcases List.mem_append.mp hm with hm | hm
    · exact hm
    · exact absurd (List.mem_singleton.mp hm ▸ rfl) hne
  · exact delegates_of_mem h' (List.mem_append_right _ List.mem_cons_self)

/-! ### The removal of a node -/

theorem mem_detach (h : s.Linked) {m : CallbackContextNode} :
    m ∈ (s.detach i).nodes ↔ m ∈ s.nodes ∧ m.addr ≠ i := Cursor.mem_remove_iff h.addrs

theorem Linked.detach (h : s.Linked) (i : UInt32) : (s.detach i).Linked where
  addrs := h.addrs.sublist ((List.eraseP_sublist).map _)
  contexts := h.contexts.sublist ((List.eraseP_sublist).map _)
  inner m hm := h.inner m ((mem_detach h).mp hm).1
  mEmpty m hm := h.mEmpty m ((mem_detach h).mp hm).1

theorem delegates_detach (h : s.Linked) (hmem : n ∈ s.nodes) :
    (s.detach n.addr).delegates = Function.update s.delegates n.mCallbackContext [] := by
  refine delegates_eq_update h (h.detach _) (fun m hm _ => ((mem_detach h).mp hm).1)
    (fun m hm hne => (mem_detach h).mpr ⟨hm, fun haddr => hne ?_⟩) ?_
  · rw [List.inj_on_of_nodup_map h.addrs hm hmem haddr]
  · refine delegates_of_notMem fun hex => ?_
    obtain ⟨m, hm, hc⟩ := List.mem_map.mp hex
    obtain ⟨hm, hne⟩ := (mem_detach h).mp hm
    exact hne (by rw [List.inj_on_of_nodup_map h.contexts hm hmem hc])

/-- A change of a node that is then taken away. -/
theorem detach_update (h : s.Linked) (hn : Replaces n' n) :
    (s.update n').detach n.addr = s.detach n.addr := by
  rw [detach, update, detach]
  refine congrArg (fun l => { s with nodes := l }) (Cursor.remove_map h.addrs (update_addr n') ?_)
  intro m hne
  exact if_neg fun hif => hne (hif.trans hn.addr)

theorem Remove_of_find (delegate : EventHandler) (cancel : UInt32 → EventHandler → ECode)
    (hfind : s.find? c = some n) (hempty : n.mEmpty = false) :
    s.Remove c delegate cancel =
      if failed (n.mDelegateContainer.Remove delegate cancel).1 then
        some ((n.mDelegateContainer.Remove delegate cancel).1, s.update { n with
          mDelegateContainer := (n.mDelegateContainer.Remove delegate cancel).2 })
      else if (n.mDelegateContainer.Remove delegate cancel).2.nodes = [] then
        some (NOERROR, s.detach n.addr)
      else some (NOERROR, s.update { n with
        mDelegateContainer := (n.mDelegateContainer.Remove delegate cancel).2 }) := by
  rw [Remove, hfind]
  simp only [CallbackContextNode.Remove]
  split_ifs <;> simp_all [failed_NOERROR]

end CallbackContextContainer

/-! ### `MoveNext` -/

section MoveNext

variable {α : Type} {addr : α → UInt32} {nodes : List α} {c : Cursor UInt32}

/-- `MoveNext` behind the last node. -/
theorem moveNext_of_rest_nil (hnodes : (nodes.map addr).Nodup) (hc : c.Valid addr nodes)
    (hrest : c.rest addr nodes = []) : ∃ ec, moveNext addr nodes c = some (ec, .null) := by
  rw [moveNext]
  split_ifs with hnull hlast
  · exact ⟨_, rfl⟩
  · exact ⟨_, rfl⟩
  · exact absurd ((Cursor.rest_eq_nil_iff hnodes hc hnull).mp hrest) hlast

/-- `MoveNext` to the first of the nodes that are left. -/
theorem moveNext_of_rest_cons (hnodes : (nodes.map addr).Nodup) (hc : c.Valid addr nodes) {a : α}
    {r : List α} (hrest : c.rest addr nodes = a :: r) :
    moveNext addr nodes c = some (NOERROR, .node (addr a)) := by
  have hnull : c ≠ .null := by
    rintro rfl
    exact nomatch hrest
  have hlast : c ≠ .last addr nodes := fun h =>
    nomatch hrest.symm.trans ((Cursor.rest_eq_nil_iff hnodes hc hnull).mpr h)
  rw [moveNext, if_neg hnull, if_neg hlast, if_pos hc, (Cursor.rest_next hnodes hc hrest).1]

/-- `MoveNext` goes through where the cursor is not at a node that is gone. -/
theorem exists_moveNext (hnodes : (nodes.map addr).Nodup) (hc : c.Valid addr nodes) :
    ∃ ec c', moveNext addr nodes c = some (ec, c') ∧ c'.Valid addr nodes := by
  cases hrest : c.rest addr nodes with
  | nil =>
    obtain ⟨ec, hmove⟩ := moveNext_of_rest_nil hnodes hc hrest
    exact ⟨ec, _, hmove, trivial⟩
  | cons a r =>
    refine ⟨_, _, moveNext_of_rest_cons hnodes hc hrest, ?_⟩
    exact List.mem_map_of_mem (Cursor.rest_subset (hrest ▸ List.mem_cons_self))

end MoveNext

/-! ### What `Remove` and `Add` do to a node -/

namespace DelegateContainer

variable {c : DelegateContainer} {delegate : EventHandler} {cancel : UInt32 → EventHandler → ECode}

/-- The result of `Remove` is that of `CancelCallbackEvents`, if the delegate is there. -/
theorem Remove_of_find {node : DelegateNode}
    (h : (c.nodes.find? fun node => node.mDelegate == delegate) = some node) :
    c.Remove delegate cancel = (cancel node.mCallbackContext node.mDelegate,
      { nodes := Cursor.remove DelegateNode.addr c.nodes node.addr
        mCurrent := c.mCurrent.back DelegateNode.addr c.nodes node.addr }) := by
  rw [Remove, h]

theorem Remove_of_find_none
    (h : (c.nodes.find? fun node => node.mDelegate == delegate) = none) :
    c.Remove delegate cancel = (NOERROR, c) := by
  rw [Remove, h]

/-- A ring after `Remove`. -/
structure Removed (c : DelegateContainer) (delegate : EventHandler) (c' : DelegateContainer) :
    Prop where
  addrs : (c'.nodes.map DelegateNode.addr).Nodup
  delegates : c'.nodes.map DelegateNode.mDelegate =
    (c.nodes.map DelegateNode.mDelegate).eraseP (· == delegate)
  current : c.mCurrent.Valid DelegateNode.addr c.nodes →
    c'.mCurrent.Valid DelegateNode.addr c'.nodes

theorem removed_Remove (h : (c.nodes.map DelegateNode.addr).Nodup) :
    c.Removed delegate (c.Remove delegate cancel).2 := by
  cases hfind : c.nodes.find? fun node => node.mDelegate == delegate with
  | none =>
    rw [Remove_of_find_none hfind]
    refine ⟨h, (List.eraseP_of_forall_not fun d hd => ?_).symm, id⟩
    obtain ⟨node, hnode, rfl⟩ := List.mem_map.mp hd
    exact List.find?_eq_none.mp hfind node hnode
  | some node =>
    rw [Remove_of_find hfind]
    refine ⟨h.sublist (List.eraseP_sublist.map _), ?_, fun hc => Cursor.valid_back h hc⟩
    obtain ⟨hnode, l₁, l₂, hl, hfirst⟩ := List.find?_eq_some_iff_append.mp hfind
    have haddr := Cursor.notMem_of_nodup (hl ▸ h)
    have hpre : ∀ d ∈ l₁.map DelegateNode.mDelegate, ¬ (d == delegate) = true := by
      intro d hd
      obtain ⟨m, hm, rfl⟩ := List.mem_map.mp hd
      simpa using hfirst m hm
    rw [hl, Cursor.remove_split rfl haddr, List.map_append, List.map_append, List.map_cons,
      List.eraseP_append_right _ hpre, List.eraseP_cons_of_pos (p := (· == delegate)) hnode]

/-- When `Remove` leaves no delegate, the one that was there has been removed. -/
theorem exists_of_Remove_eq_nil (hc : c.nodes ≠ []) (h : (c.nodes.map DelegateNode.addr).Nodup)
    (hnil : (c.Remove delegate cancel).2.nodes = []) :
    ∃ node, c.nodes = [node] ∧ (node.mDelegate == delegate) = true ∧
      (c.Remove delegate cancel).1 = cancel node.mCallbackContext node.mDelegate := by
  cases hfind : c.nodes.find? fun node => node.mDelegate == delegate with
  | none =>
    rw [Remove_of_find_none hfind] at hnil
    exact absurd hnil hc
  | some node =>
    rw [Remove_of_find hfind] at hnil ⊢
    obtain ⟨hnode, l₁, l₂, hl, -⟩ := List.find?_eq_some_iff_append.mp hfind
    have haddr := Cursor.notMem_of_nodup (hl ▸ h)
    rw [hl, Cursor.remove_split rfl haddr] at hnil
    obtain ⟨rfl, rfl⟩ := List.append_eq_nil_iff.mp hnil
    exact ⟨node, hl, hnode, rfl⟩

theorem Remove_singleton {node : DelegateNode} (hnodes : c.nodes = [node])
    (heq : (node.mDelegate == delegate) = true) :
    (c.Remove delegate cancel).1 = cancel node.mCallbackContext node.mDelegate ∧
      (c.Remove delegate cancel).2.nodes = [] := by
  have hfind : (c.nodes.find? fun node => node.mDelegate == delegate) = some node := by
    rw [hnodes]
    exact List.find?_cons_of_pos (p := fun node : DelegateNode => node.mDelegate == delegate) heq
  have hsplit : c.nodes = [] ++ node :: [] := hnodes
  rw [Remove_of_find hfind, hsplit, Cursor.remove_split rfl List.not_mem_nil]
  exact ⟨rfl, rfl⟩

end DelegateContainer

/-! ### What one call keeps -/

namespace Registrations

variable {t t' : Registrations} {call : RegistrationCall} {ec : ECode}
  {s : CallbackContextContainer}

/-- The container agrees with its history, and its rings are rings. -/
structure Kept (t : Registrations) : Prop where
  linked : t.container.Linked
  sound : t.Sound
  stayed : ∀ c ∈ t.stayed, t.held c ≠ []

/-- A call that the defects spare. -/
def Spared (t : Registrations) : RegistrationCall → Prop
  | .Add callbackContext own _ newNode newDelegate => ∀ c,
    CallbackContextContainer.contextOf callbackContext own = .ok c → t.container.find? c = none →
      newNode ≠ none → newDelegate ≠ none
  -- the last delegate of a context
  | .Remove c delegate cancel => ∀ n node, t.container.find? c = some n →
    n.mDelegateContainer.nodes = [node] → (node.mDelegate == delegate) = true →
      failed (cancel node.mCallbackContext node.mDelegate) = false ∧
        t.container.mCurrent ≠ .node n.addr
  | .Dispose c => ∀ n, t.container.find? c = some n → t.container.mCurrent ≠ .node n.addr
  | _ => True

theorem Kept.held (h : t.Kept) : t.held = t.container.delegates :=
  (funext h.sound.holds).symm

theorem next_stayed (hreset : call ≠ .Reset) : (t.next call ec s).stayed =
    t.stayed ∩ {c | call.record t.container ec t.held c ≠ []} := by
  cases call with
  | Reset => exact absurd rfl hreset
  | _ => rfl

theorem next_visited (hreset : call ≠ .Reset) (hmove : call ≠ .MoveNext) :
    (t.next call ec s).visited = t.visited := by
  cases call with
  | Reset => exact absurd rfl hreset
  | MoveNext => exact absurd rfl hmove
  | _ => rfl

/-- A call that does not go on with the iteration. -/
theorem Kept.next (h : t.Kept) (hreset : call ≠ .Reset) (hmove : call ≠ .MoveNext)
    (hlinked : s.Linked)
    (hheld : s.delegates = call.record t.container ec t.container.delegates)
    (hlisted : ∀ n ∈ s.nodes, n.mDelegateContainer.nodes ≠ [])
    (hcurrent : s.mCurrent.Valid CallbackContextNode.addr s.nodes)
    (hinner : ∀ n ∈ s.nodes,
      n.mDelegateContainer.mCurrent.Valid DelegateNode.addr n.mDelegateContainer.nodes)
    (hcount : ∀ c, t.container.delegates c ≠ [] → s.delegates c ≠ [] →
      s.toVisit.count c = t.container.toVisit.count c) : (t.next call ec s).Kept := by
  rw [← h.held] at hheld
  refine ⟨hlinked, ⟨congrFun hheld, hlisted, hcurrent, hinner, fun c hc => ?_⟩, fun c hc => ?_⟩
  · rw [next_stayed hreset] at hc
    have hbefore := h.stayed c hc.1
    rw [next_visited hreset hmove]
    change t.visited.count c + s.toVisit.count c = 1
    rw [hcount c (h.held ▸ hbefore) (hheld ▸ hc.2)]
    exact h.sound.once c hc.1
  · rw [next_stayed hreset] at hc
    exact hc.2

/-- A call that changes nothing. -/
theorem Kept.next_self (h : t.Kept) (hreset : call ≠ .Reset) (hmove : call ≠ .MoveNext)
    (hheld : call.record t.container ec t.container.delegates = t.container.delegates) :
    (t.next call ec t.container).Kept :=
  h.next hreset hmove h.linked hheld.symm h.sound.listed h.sound.current h.sound.inner
    fun _ _ _ => rfl

/-- A call that changes a node. -/
theorem Kept.next_update (h : t.Kept) (hreset : call ≠ .Reset) (hmove : call ≠ .MoveNext)
    {n n' : CallbackContextNode} (hmem : n ∈ t.container.nodes)
    (hn : CallbackContextContainer.Replaces n' n)
    (hlinked : (n'.mDelegateContainer.nodes.map DelegateNode.addr).Nodup)
    (hempty : n'.mEmpty = false)
    (hlisted : n'.mDelegateContainer.nodes ≠ [])
    (hinner : n'.mDelegateContainer.mCurrent.Valid DelegateNode.addr n'.mDelegateContainer.nodes)
    (hheld : call.record t.container ec t.container.delegates =
      Function.update t.container.delegates n.mCallbackContext
        (n'.mDelegateContainer.nodes.map DelegateNode.mDelegate)) :
    (t.next call ec (t.container.update n')).Kept := by
  have h' := h.linked.update hmem hn hlinked hempty
  refine h.next hreset hmove h' ?_ ?_ ?_ ?_ ?_
  · rw [hheld]
    exact CallbackContextContainer.delegates_update h.linked hmem hn h'
  · intro m hm
    rcases (CallbackContextContainer.mem_update hn h.linked hmem).mp hm with rfl | ⟨hm, -⟩
    · exact hlisted
    · exact h.sound.listed m hm
  · exact (Cursor.valid_map (CallbackContextContainer.update_addr n')).mpr h.sound.current
  · intro m hm
    rcases (CallbackContextContainer.mem_update hn h.linked hmem).mp hm with rfl | ⟨hm, -⟩
    · exact hinner
    · exact h.sound.inner m hm
  · intro c _ _
    rw [CallbackContextContainer.toVisit_update h.linked hmem hn]

/-- A call that takes a node from the ring, and leaves the cursor at a node that is there. -/
theorem Kept.next_detach (h : t.Kept) (hreset : call ≠ .Reset) (hmove : call ≠ .MoveNext)
    {n : CallbackContextNode} (hmem : n ∈ t.container.nodes) {c : Cursor UInt32}
    (hcurrent : c.Valid CallbackContextNode.addr (t.container.detach n.addr).nodes)
    (hrest : c.rest CallbackContextNode.addr (t.container.detach n.addr).nodes =
      Cursor.remove CallbackContextNode.addr
        (t.container.mCurrent.rest CallbackContextNode.addr t.container.nodes) n.addr)
    (hheld : call.record t.container ec t.container.delegates =
      Function.update t.container.delegates n.mCallbackContext []) :
    (t.next call ec { t.container.detach n.addr with mCurrent := c }).Kept := by
  have h' := h.linked.detach n.addr
  refine h.next hreset hmove ⟨h'.addrs, h'.contexts, h'.inner, h'.mEmpty⟩ ?_ ?_ hcurrent ?_ ?_
  · rw [hheld]
    exact CallbackContextContainer.delegates_detach h.linked hmem
  · intro m hm
    exact h.sound.listed m ((CallbackContextContainer.mem_detach h.linked).mp hm).1
  · intro m hm
    exact h.sound.inner m ((CallbackContextContainer.mem_detach h.linked).mp hm).1
  · intro k _ hk
    have hne : k ≠ n.mCallbackContext := by
      intro hkn
      refine hk ?_
      change (t.container.detach n.addr).delegates k = []
      rw [CallbackContextContainer.delegates_detach h.linked hmem, hkn, Function.update_self]
    rw [CallbackContextContainer.toVisit, CallbackContextContainer.toVisit, hrest]
    refine Cursor.count_map_remove fun m hm haddr hc => hne ?_
    rw [← hc, List.inj_on_of_nodup_map h.linked.addrs (Cursor.rest_subset hm) hmem haddr]

/-! ### The calls -/

/-- The history of an `Add` that has a context. -/
theorem record_Add {callbackContext c : UInt32} {own : Except ECode UInt32}
    {delegate : EventHandler} {newNode newDelegate : Option UInt32}
    {held : UInt32 → List EventHandler}
    (hctx : CallbackContextContainer.contextOf callbackContext own = .ok c) :
    RegistrationCall.record s ec held (.Add callbackContext own delegate newNode newDelegate) =
      if ec = NOERROR then Function.update held c (held c ++ [delegate]) else held := by
  rw [RegistrationCall.record, hctx]

theorem Kept.Add (h : t.Kept) {callbackContext : UInt32} {own : Except ECode UInt32}
    {delegate : EventHandler} {newNode newDelegate : Option UInt32}
    (hlegal : RegistrationCall.Legal t.container
      (.Add callbackContext own delegate newNode newDelegate))
    (hspared : t.Spared (.Add callbackContext own delegate newNode newDelegate)) :
    ∃ t', t.step (.Add callbackContext own delegate newNode newDelegate) = some t' ∧ t'.Kept := by
  refine ⟨_, rfl, ?_⟩
  cases hctx : CallbackContextContainer.contextOf callbackContext own with
  | error ec =>
    rw [CallbackContextContainer.Add, hctx]
    refine h.next_self (by nofun) (by nofun) ?_
    rw [RegistrationCall.record, hctx]
  | ok c =>
    cases hfind : t.container.find? c with
    | some n =>
      obtain ⟨hmem, rfl⟩ := (CallbackContextContainer.find?_eq_some_iff h.linked).mp hfind
      have hdelegates := CallbackContextContainer.delegates_of_mem h.linked hmem
      cases newDelegate with
      | none =>
        have hact : t.container.Add callbackContext own delegate newNode none =
            (E_OUT_OF_MEMORY, t.container.update { n with mEmpty := false }) := by
          simp only [CallbackContextContainer.Add, hctx, hfind]
          rfl
        rw [hact]
        refine h.next_update (by nofun) (by nofun) hmem ⟨rfl, rfl⟩ (h.linked.inner n hmem) rfl
          (h.sound.listed n hmem) (h.sound.inner n hmem) ?_
        rw [record_Add hctx, if_neg E_OUT_OF_MEMORY_ne, ← hdelegates, Function.update_eq_self]
      | some a =>
        have hact : t.container.Add callbackContext own delegate newNode (some a) =
            (NOERROR, t.container.update { n with
              mDelegateContainer := { n.mDelegateContainer with
                nodes := n.mDelegateContainer.nodes ++ [⟨a, n.mCallbackContext, delegate⟩] }
              mEmpty := false }) := by
          simp only [CallbackContextContainer.Add, hctx, hfind]
          rfl
        rw [hact]
        refine h.next_update (by nofun) (by nofun) hmem ⟨rfl, rfl⟩ ?_ rfl (by simp)
          ((h.sound.inner n hmem).append _) ?_
        · rw [List.map_append]
          exact List.Nodup.append (h.linked.inner n hmem) (List.nodup_singleton _)
            (by simpa using hlegal.2 a rfl n hmem)
        · rw [record_Add hctx, if_pos rfl, hdelegates, List.map_append]
          rfl
    | none =>
      have hnot := Cursor.find?_eq_none_iff.mp hfind
      have hnone := CallbackContextContainer.delegates_of_notMem hnot
      cases newNode with
      | none =>
        have hact : t.container.Add callbackContext own delegate none newDelegate =
            (E_OUT_OF_MEMORY, t.container) := by
          simp only [CallbackContextContainer.Add, hctx, hfind]
        rw [hact]
        refine h.next_self (by nofun) (by nofun) ?_
        rw [record_Add hctx, if_neg E_OUT_OF_MEMORY_ne]
      | some addr =>
        obtain ⟨a, rfl⟩ := Option.ne_none_iff_exists'.mp (hspared c hctx hfind (by simp))
        have hact : t.container.Add callbackContext own delegate (some addr) (some a) =
            (NOERROR, { t.container with
              nodes := t.container.nodes ++ [⟨addr, c, ⟨[⟨a, c, delegate⟩], .head⟩, false⟩] }) := by
          simp only [CallbackContextContainer.Add, hctx, hfind]
          rfl
        rw [hact]
        have hlinked := h.linked.append (n := ⟨addr, c, ⟨[⟨a, c, delegate⟩], .head⟩, false⟩)
          (hlegal.1 addr rfl) hnot (List.nodup_singleton _) rfl
        refine h.next (by nofun) (by nofun) hlinked ?_ ?_ (h.sound.current.append _) ?_ ?_
        · rw [record_Add hctx, if_pos rfl, hnone]
          exact CallbackContextContainer.delegates_append h.linked hlinked
        · intro n hn
          rcases List.mem_append.mp hn with hn | hn
          · exact h.sound.listed n hn
          · rw [List.mem_singleton.mp hn]
            exact List.cons_ne_nil _ _
        · intro n hn
          rcases List.mem_append.mp hn with hn | hn
          · exact h.sound.inner n hn
          · rw [List.mem_singleton.mp hn]
            trivial
        · intro k hk _
          have hkc : k ≠ c := fun hkc => hk (hkc ▸ hnone)
          by_cases hnull : t.container.mCurrent = .null
          · rw [CallbackContextContainer.toVisit, CallbackContextContainer.toVisit, hnull]
            rfl
          · rw [CallbackContextContainer.toVisit, Cursor.rest_append h.sound.current hnull,
              List.map_append, List.count_append, List.map_singleton,
              List.count_singleton, if_neg (by simpa using hkc.symm), Nat.add_zero]
            rfl

theorem Kept.Remove (h : t.Kept) {c : UInt32} {delegate : EventHandler}
    {cancel : UInt32 → EventHandler → ECode} (hspared : t.Spared (.Remove c delegate cancel)) :
    ∃ t', t.step (.Remove c delegate cancel) = some t' ∧ t'.Kept := by
  have hrecord : ∀ ec, (RegistrationCall.Remove c delegate cancel).record t.container ec
      t.container.delegates =
        Function.update t.container.delegates c
          ((t.container.delegates c).eraseP (· == delegate)) :=
    fun _ => rfl
  cases hfind : t.container.find? c with
  | none =>
    have hact : t.container.Remove c delegate cancel = some (NOERROR, t.container) := by
      rw [CallbackContextContainer.Remove, hfind]
    refine ⟨_, congrArg (Option.map _) hact, h.next_self (by nofun) (by nofun) ?_⟩
    rw [hrecord, CallbackContextContainer.delegates_of_notMem (Cursor.find?_eq_none_iff.mp hfind)]
    exact Function.update_eq_self_iff.mpr
      (CallbackContextContainer.delegates_of_notMem (Cursor.find?_eq_none_iff.mp hfind)).symm
  | some n =>
    obtain ⟨hmem, rfl⟩ := (CallbackContextContainer.find?_eq_some_iff h.linked).mp hfind
    have hdelegates := CallbackContextContainer.delegates_of_mem h.linked hmem
    have hremoved : n.mDelegateContainer.Removed delegate
        (n.mDelegateContainer.Remove delegate cancel).2 :=
      DelegateContainer.removed_Remove (h.linked.inner n hmem)
    have hact := CallbackContextContainer.Remove_of_find delegate cancel hfind
      (h.linked.mEmpty n hmem)
    by_cases hnil : (n.mDelegateContainer.Remove delegate cancel).2.nodes = []
    · -- the last delegate
      obtain ⟨node, hnodes, heq, hec⟩ :=
        DelegateContainer.exists_of_Remove_eq_nil (h.sound.listed n hmem)
          (h.linked.inner n hmem) hnil
      obtain ⟨hok, hcur⟩ := hspared n node hfind hnodes heq
      rw [hec, if_neg (by simp [hok]), if_pos hnil] at hact
      refine ⟨_, congrArg (Option.map _) hact, ?_⟩
      refine h.next_detach (by nofun) (by nofun) hmem
        ((Cursor.valid_remove_iff h.linked.addrs h.sound.current).mpr hcur)
        (Cursor.rest_remove h.linked.addrs h.sound.current hcur) ?_
      rw [hrecord, hdelegates, ← hremoved.delegates, hnil]
      rfl
    · -- the node stays, whether or not the events of the delegate could be cancelled
      have hstays : ∀ ec, (t.next (.Remove n.mCallbackContext delegate cancel) ec
          (t.container.update { n with
            mDelegateContainer := (n.mDelegateContainer.Remove delegate cancel).2 })).Kept := by
        intro ec
        refine h.next_update (by nofun) (by nofun) hmem ⟨rfl, rfl⟩ hremoved.addrs
          (h.linked.mEmpty n hmem) hnil (hremoved.current (h.sound.inner n hmem)) ?_
        rw [hrecord, hdelegates, ← hremoved.delegates]
      by_cases hec : failed (n.mDelegateContainer.Remove delegate cancel).1 = true
      · rw [if_pos hec] at hact
        exact ⟨_, congrArg (Option.map _) hact, hstays _⟩
      · rw [if_neg hec, if_neg hnil] at hact
        exact ⟨_, congrArg (Option.map _) hact, hstays _⟩

theorem Kept.Dispose (h : t.Kept) {c : UInt32} (hspared : t.Spared (.Dispose c)) :
    ∃ t', t.step (.Dispose c) = some t' ∧ t'.Kept := by
  refine ⟨_, rfl, ?_⟩
  have hrecord : (RegistrationCall.Dispose c).record t.container NOERROR t.container.delegates =
      Function.update t.container.delegates c [] := rfl
  cases hfind : t.container.find? c with
  | none =>
    rw [CallbackContextContainer.Dispose, hfind]
    refine h.next_self (by nofun) (by nofun) ?_
    rw [hrecord]
    exact Function.update_eq_self_iff.mpr
      (CallbackContextContainer.delegates_of_notMem (Cursor.find?_eq_none_iff.mp hfind)).symm
  | some n =>
    obtain ⟨hmem, rfl⟩ := (CallbackContextContainer.find?_eq_some_iff h.linked).mp hfind
    have hcur := hspared n hfind
    have hact : t.container.Dispose n.mCallbackContext = t.container.detach n.addr := by
      rw [CallbackContextContainer.Dispose, hfind]
      exact CallbackContextContainer.detach_update h.linked ⟨rfl, rfl⟩
    rw [hact]
    exact h.next_detach (by nofun) (by nofun) hmem
      ((Cursor.valid_remove_iff h.linked.addrs h.sound.current).mpr hcur)
      (Cursor.rest_remove h.linked.addrs h.sound.current hcur) hrecord

theorem Kept.RemoveNode (h : t.Kept) {i : UInt32}
    (hlegal : (RegistrationCall.RemoveNode i).Legal t.container) :
    ∃ t', t.step (.RemoveNode i) = some t' ∧ t'.Kept := by
  refine ⟨_, rfl, ?_⟩
  obtain ⟨n, hmem, rfl⟩ := List.mem_map.mp hlegal
  refine h.next_detach (by nofun) (by nofun) hmem (Cursor.valid_back h.linked.addrs h.sound.current)
    (Cursor.rest_back h.linked.addrs h.sound.current) ?_
  rw [RegistrationCall.record, (Cursor.find?_eq_some_iff h.linked.addrs).mpr ⟨hmem, rfl⟩]

theorem Kept.Current (h : t.Kept) : ∃ t', t.step .Current = some t' ∧ t'.Kept :=
  ⟨_, rfl, h.next_self (by nofun) (by nofun) rfl⟩

theorem Kept.NodeReset (h : t.Kept) {i : UInt32}
    (hlegal : (RegistrationCall.NodeReset i).Legal t.container) :
    ∃ t', t.step (.NodeReset i) = some t' ∧ t'.Kept := by
  obtain ⟨n, hmem, rfl⟩ := List.mem_map.mp hlegal
  have hact : (RegistrationCall.NodeReset n.addr).act t.container = some (NOERROR,
      t.container.update { n with mDelegateContainer := n.mDelegateContainer.Reset }) := by
    rw [RegistrationCall.act, CallbackContextContainer.NodeReset,
      (Cursor.find?_eq_some_iff h.linked.addrs).mpr ⟨hmem, rfl⟩]
    rfl
  refine ⟨_, congrArg (Option.map _) hact, ?_⟩
  refine h.next_update (by nofun) (by nofun) hmem ⟨rfl, rfl⟩ (h.linked.inner n hmem)
    (h.linked.mEmpty n hmem) (h.sound.listed n hmem) trivial ?_
  exact (Function.update_eq_self_iff.mpr
    (CallbackContextContainer.delegates_of_mem h.linked hmem).symm).symm

theorem Kept.NodeMoveNext (h : t.Kept) {i : UInt32}
    (hlegal : (RegistrationCall.NodeMoveNext i).Legal t.container) :
    ∃ t', t.step (.NodeMoveNext i) = some t' ∧ t'.Kept := by
  obtain ⟨n, hmem, rfl⟩ := List.mem_map.mp hlegal
  obtain ⟨ec, cur, hmove, hvalid⟩ := exists_moveNext (h.linked.inner n hmem) (h.sound.inner n hmem)
  have hact : (RegistrationCall.NodeMoveNext n.addr).act t.container = some (ec,
      t.container.update { n with
        mDelegateContainer := { n.mDelegateContainer with mCurrent := cur } }) := by
    rw [RegistrationCall.act, CallbackContextContainer.NodeMoveNext,
      (Cursor.find?_eq_some_iff h.linked.addrs).mpr ⟨hmem, rfl⟩, Option.bind_some,
      DelegateContainer.MoveNext, hmove]
    rfl
  refine ⟨_, congrArg (Option.map _) hact, ?_⟩
  refine h.next_update (by nofun) (by nofun) hmem ⟨rfl, rfl⟩ (h.linked.inner n hmem)
    (h.linked.mEmpty n hmem) (h.sound.listed n hmem) hvalid ?_
  exact (Function.update_eq_self_iff.mpr
    (CallbackContextContainer.delegates_of_mem h.linked hmem).symm).symm

theorem Kept.Reset (h : t.Kept) : ∃ t', t.step .Reset = some t' ∧ t'.Kept := by
  refine ⟨_, rfl, ⟨h.linked.addrs, h.linked.contexts, h.linked.inner, h.linked.mEmpty⟩,
    ⟨h.sound.holds, h.sound.listed, trivial, h.sound.inner, fun c hc => ?_⟩, fun c hc => hc⟩
  have hheld : t.container.delegates c ≠ [] := h.held ▸ hc
  have hmem : c ∈ t.container.nodes.map CallbackContextNode.mCallbackContext := by
    by_contra hnot
    exact hheld (CallbackContextContainer.delegates_of_notMem hnot)
  exact (Nat.zero_add _).trans (List.count_eq_one_of_mem h.linked.contexts hmem)

/-- The iteration goes to the first of the contexts that are left, or ends. -/
theorem Kept.MoveNext (h : t.Kept) : ∃ t', t.step .MoveNext = some t' ∧ t'.Kept := by
  have hheld : ∀ c ∈ t.stayed, t.held c ≠ [] := h.stayed
  cases hrest : t.container.mCurrent.rest CallbackContextNode.addr t.container.nodes with
  | nil =>
    obtain ⟨ec, hmove⟩ := moveNext_of_rest_nil h.linked.addrs h.sound.current hrest
    have hact : RegistrationCall.MoveNext.act t.container =
        some (ec, { t.container with mCurrent := .null }) := by
      rw [RegistrationCall.act, CallbackContextContainer.MoveNext, hmove]
      rfl
    refine ⟨_, congrArg (Option.map _) hact,
      ⟨h.linked.addrs, h.linked.contexts, h.linked.inner, h.linked.mEmpty⟩,
      ⟨h.sound.holds, h.sound.listed, trivial, h.sound.inner, fun c hc => ?_⟩, fun c hc => hc.2⟩
    have honce := h.sound.once c hc.1
    rw [CallbackContextContainer.toVisit, hrest] at honce
    change (t.visited ++ []).count c + 0 = 1
    rw [List.append_nil]
    exact honce
  | cons n r =>
    have hmem : n ∈ t.container.nodes := Cursor.rest_subset (hrest ▸ List.mem_cons_self)
    have hact : RegistrationCall.MoveNext.act t.container =
        some (NOERROR, { t.container with mCurrent := .node n.addr }) := by
      rw [RegistrationCall.act, CallbackContextContainer.MoveNext,
        moveNext_of_rest_cons h.linked.addrs h.sound.current hrest]
      rfl
    refine ⟨_, congrArg (Option.map _) hact,
      ⟨h.linked.addrs, h.linked.contexts, h.linked.inner, h.linked.mEmpty⟩,
      ⟨h.sound.holds, h.sound.listed, List.mem_map_of_mem hmem, h.sound.inner, fun c hc => ?_⟩,
      fun c hc => hc.2⟩
    have honce := h.sound.once c hc.1
    rw [CallbackContextContainer.toVisit, hrest, List.map_cons, List.count_cons] at honce
    have hcontext : CallbackContextContainer.currentContext
        { t.container with mCurrent := .node n.addr } = some n.mCallbackContext := by
      rw [CallbackContextContainer.currentContext, current, Option.bind_some,
        (Cursor.find?_eq_some_iff h.linked.addrs).mpr ⟨hmem, rfl⟩]
      rfl
    have hbehind := (Cursor.rest_next h.linked.addrs h.sound.current hrest).2
    change (t.visited ++ (CallbackContextContainer.currentContext
      { t.container with mCurrent := .node n.addr }).toList).count c +
        ((Cursor.node n.addr).rest CallbackContextNode.addr t.container.nodes |>.map
          CallbackContextNode.mCallbackContext).count c = 1
    rw [hcontext, hbehind, List.count_append, Option.toList_some, List.count_singleton]
    omega

/-- **The step.** A call that the defects spare goes through, and the container agrees with its
history. -/
theorem Kept.step (h : t.Kept) (hlegal : call.Legal t.container) (hspared : t.Spared call) :
    ∃ t', t.step call = some t' ∧ t'.Kept := by
  cases call with
  | Add => exact h.Add hlegal hspared
  | Remove => exact h.Remove hspared
  | RemoveNode => exact h.RemoveNode hlegal
  | Dispose => exact h.Dispose hspared
  | MoveNext => exact h.MoveNext
  | Current => exact h.Current
  | Reset => exact h.Reset
  | NodeMoveNext => exact h.NodeMoveNext hlegal
  | NodeReset => exact h.NodeReset hlegal

/-! ### What the defects do -/

theorem spared_Add {callbackContext : UInt32} {own : Except ECode UInt32}
    {delegate : EventHandler} {newNode newDelegate : Option UInt32}
    (hstep : t.step (.Add callbackContext own delegate newNode newDelegate) = some t')
    (hsound : t'.Sound) : t.Spared (.Add callbackContext own delegate newNode newDelegate) := by
  rintro c hctx hfind hnode rfl
  obtain ⟨addr, rfl⟩ := Option.ne_none_iff_exists'.mp hnode
  have hact : t.container.Add callbackContext own delegate (some addr) none =
      (E_OUT_OF_MEMORY,
        { t.container with nodes := t.container.nodes ++ [⟨addr, c, {}, false⟩] }) := by
    simp only [CallbackContextContainer.Add, hctx, hfind]
    rfl
  obtain rfl := Option.some.inj (hstep.symm.trans (congrArg (Option.map _) (congrArg some hact)))
  exact hsound.listed _ (List.mem_append_right _ List.mem_cons_self) rfl

/-- Where the cursor is at a node that is taken away, it is left there. -/
theorem Kept.current_ne (h : t.Kept) {n : CallbackContextNode}
    (hcurrent : (t.container.detach n.addr).mCurrent.Valid CallbackContextNode.addr
      (t.container.detach n.addr).nodes) : t.container.mCurrent ≠ .node n.addr :=
  (Cursor.valid_remove_iff h.linked.addrs h.sound.current).mp hcurrent

theorem Kept.spared_Remove (h : t.Kept) {c : UInt32} {delegate : EventHandler}
    {cancel : UInt32 → EventHandler → ECode}
    (hstep : t.step (.Remove c delegate cancel) = some t') (hsound : t'.Sound) :
    t.Spared (.Remove c delegate cancel) := by
  intro n node hfind hnodes heq
  obtain ⟨hmem, rfl⟩ := (CallbackContextContainer.find?_eq_some_iff h.linked).mp hfind
  have hact := CallbackContextContainer.Remove_of_find delegate cancel hfind
    (h.linked.mEmpty n hmem)
  obtain ⟨hec, hnil⟩ : _ ∧ _ := DelegateContainer.Remove_singleton hnodes heq
  rw [hec, if_pos hnil] at hact
  cases hfailed : failed (cancel node.mCallbackContext node.mDelegate) with
  | true =>
    rw [if_pos hfailed] at hact
    obtain rfl := Option.some.inj (hstep.symm.trans (congrArg (Option.map _) hact))
    have hn : CallbackContextContainer.Replaces { n with
        mDelegateContainer := (n.mDelegateContainer.Remove delegate cancel).2 } n := ⟨rfl, rfl⟩
    exact absurd hnil (hsound.listed _
      ((CallbackContextContainer.mem_update hn h.linked hmem).mpr (.inl rfl)))
  | false =>
    rw [if_neg (by simp [hfailed])] at hact
    obtain rfl := Option.some.inj (hstep.symm.trans (congrArg (Option.map _) hact))
    exact ⟨rfl, h.current_ne hsound.current⟩

theorem Kept.spared_Dispose (h : t.Kept) {c : UInt32} (hstep : t.step (.Dispose c) = some t')
    (hsound : t'.Sound) : t.Spared (.Dispose c) := by
  intro n hfind
  have hact : t.container.Dispose c = t.container.detach n.addr := by
    rw [CallbackContextContainer.Dispose, hfind]
    exact CallbackContextContainer.detach_update h.linked ⟨rfl, rfl⟩
  obtain rfl := Option.some.inj hstep
  have hcurrent : (t.container.Dispose c).mCurrent.Valid CallbackContextNode.addr
    (t.container.Dispose c).nodes := hsound.current
  rw [hact] at hcurrent
  exact h.current_ne hcurrent

theorem Kept.spared (h : t.Kept) (hstep : t.step call = some t') (hsound : t'.Sound) :
    t.Spared call := by
  cases call with
  | Add => exact spared_Add hstep hsound
  | Remove => exact h.spared_Remove hstep hsound
  | Dispose => exact h.spared_Dispose hstep hsound
  | _ => trivial

/-! ### Runs -/

theorem kept_start : Kept {} where
  linked := ⟨.nil, .nil, nofun, nofun⟩
  sound := ⟨fun _ => rfl, nofun, trivial, nofun, fun _ hc => hc.elim⟩
  stayed _ hc := hc.elim

/-- **The registrations of a container.** In a run of calls that keep to the rules, all steps go
through and lead to a container that agrees with its history if and only if the defects spare every
call: no context loses its last delegate, and none is disposed of, under the cursor, none loses its
last delegate to a failing `CancelCallbackEvents`, and none gets a node without a delegate. -/
theorem sound_iff_spared (calls : List RegistrationCall) :
    Trace.Meets step (fun t call => call.Legal t.container ∧ ∃ t', t.step call = some t' ∧ t'.Sound)
      {} calls ↔
    Trace.Meets step (fun t call => call.Legal t.container ∧ t.Spared call) {} calls := by
  refine Trace.meets_iff (I := Kept) (fun t call h => ?_)
    (fun t call t' h hok hstep => ?_) kept_start
  · refine and_congr_right fun hlegal => ⟨?_, fun hspared => ?_⟩
    · rintro ⟨t', hstep, hsound⟩
      exact h.spared hstep hsound
    · obtain ⟨t', hstep, hkept⟩ := h.step hlegal hspared
      exact ⟨t', hstep, hkept.sound⟩
  · obtain ⟨hlegal, t₁, hstep₁, hsound⟩ := hok
    obtain ⟨t₂, hstep₂, hkept⟩ := h.step hlegal (h.spared hstep₁ hsound)
    exact Option.some.inj (hstep₂.symm.trans hstep) ▸ hkept

/-- The delegate of the context that the iteration stands at is removed. -/
def removedInIteration : List RegistrationCall :=
  [.Add 0x100 (.error E_FAIL) ⟨0x200, 0x300, 1⟩ (some 0x1000) (some 0x2000), .MoveNext,
    .Remove 0x100 ⟨0x200, 0x300, 1⟩ fun _ _ => NOERROR]

/-- The cursor is left at the node that has been deleted, and `MoveNext` follows it. -/
theorem cursor_dangles :
    Trace.Meets step (fun t call => call.Legal t.container) {} removedInIteration ∧
    ∃ t, Trace.run step {} removedInIteration = some t ∧ ¬ t.Sound ∧ t.step .MoveNext = none := by
  refine ⟨⟨⟨by simp, by simp⟩, fun _ _ => ⟨trivial, fun _ _ => ⟨trivial, fun _ _ => trivial⟩⟩⟩,
    _, rfl, fun h => ?_, rfl⟩
  exact absurd h.current (by decide)

end Registrations

end ElastosCar
