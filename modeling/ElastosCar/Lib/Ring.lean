import ElastosCar.Lib.Chain

/-!
# Doubly linked rings with a head

`Leads next a l e` says that `next` goes from the node `a` through those of `l` to `e`; a ring is a
head that `next` leads through a list back to itself, and `prev` through the reversed list. What is
shown of `next` is so used twice, for a node that is taken out (`LinkedRing.detach`) and for one
that is put in (`LinkedRing.insertNext`).

`forEach` is a loop over such a ring, whose body may take out the nodes that it visits, go on from
another node, or leave the loop; `forEach_spec` is its rule. The links may be followed in either
direction.
-/

namespace ElastosCar

variable {κ : Type} {next next' : κ → Option κ} {a b e h new : κ} {l r : List κ}

/-- `next` goes from `a` through the nodes of a list to `e`. -/
def Leads (next : κ → Option κ) : κ → List κ → κ → Prop
  | a, [], e => next a = some e
  | a, b :: l, e => next a = some b ∧ Leads next b l e

theorem leads_append : Leads next a (l ++ b :: r) e ↔ Leads next a l b ∧ Leads next b r e := by
  induction l generalizing a with
  | nil => exact Iff.rfl
  | cons c l ih => exact (and_congr_right' ih).trans and_assoc.symm

theorem Leads.next_eq (h : Leads next a l e) : next a = some (l.headD e) := by
  cases l with
  | nil => exact h
  | cons b l => exact h.1

/-- The way from another node that has the same next one. -/
theorem Leads.congr (h : Leads next a l e) (hnext : next' b = next a)
    (hsame : ∀ c ∈ l, next' c = next c) : Leads next' b l e := by
  induction l generalizing a b with
  | nil => exact hnext.trans h
  | cons c l ih =>
    obtain ⟨hac, hl⟩ := h
    exact ⟨hnext.trans hac, ih hl (hsame c List.mem_cons_self)
      fun d hd => hsame d (List.mem_cons_of_mem c hd)⟩

section

variable [DecidableEq κ]

theorem Leads.detach (hl : Leads next h (l ++ a :: r) e) (hnodup : (h :: (l ++ a :: r)).Nodup) :
    Leads (detach next (l.getLastD h) a) h (l ++ r) e := by
  induction l generalizing h with
  | nil =>
    obtain ⟨-, hr⟩ := hl
    obtain ⟨hnot, hnodup⟩ := List.nodup_cons.mp hnodup
    have hne : h ≠ a := fun heq => hnot (heq ▸ List.mem_cons_self)
    refine hr.congr ?_ fun c hc => detach_of_ne ?_ ?_
    · rw [List.getLastD_nil, ElastosCar.detach, Function.update_of_ne hne, Function.update_self]
    · rintro rfl
      exact hnot (List.mem_cons_of_mem a hc)
    · rintro rfl
      exact (List.nodup_cons.mp hnodup).1 hc
  | cons b l ih =>
    obtain ⟨hb, hl⟩ := hl
    obtain ⟨hnot, hnodup⟩ := List.nodup_cons.mp hnodup
    rw [List.getLastD_cons]
    refine ⟨?_, ih hl hnodup⟩
    rw [detach_of_ne ?_ ?_, hb]
    · rintro rfl
      have hmem : l.getLastD b ∈ b :: l := List.getLastD_mem_cons
      exact hnot (List.mem_append_left (a :: r) hmem)
    · rintro rfl
      exact hnot (List.mem_append_right (b :: l) List.mem_cons_self)

theorem Leads.insertNext (hl : Leads next h (l ++ r) e) (hnodup : (h :: (l ++ r)).Nodup)
    (hnew : new ∉ h :: (l ++ r)) :
    Leads (insertNext next (l.getLastD h) new) h (l ++ new :: r) e := by
  induction l generalizing h with
  | nil =>
    have hne : new ≠ h := fun heq => hnew (heq ▸ List.mem_cons_self)
    refine ⟨?_, hl.congr ?_ fun c hc => insertNext_of_ne ?_ ?_⟩
    · rw [List.getLastD_nil, ElastosCar.insertNext, Function.update_self]
    · rw [List.getLastD_nil, ElastosCar.insertNext, Function.update_of_ne hne,
        Function.update_self]
    · rintro rfl
      exact (List.nodup_cons.mp hnodup).1 hc
    · rintro rfl
      exact hnew (List.mem_cons_of_mem h hc)
  | cons b l ih =>
    obtain ⟨hb, hl⟩ := hl
    obtain ⟨hnot, hnodup⟩ := List.nodup_cons.mp hnodup
    rw [List.getLastD_cons]
    refine ⟨?_, ih hl hnodup fun hmem => hnew (List.mem_cons_of_mem h hmem)⟩
    rw [insertNext_of_ne ?_ ?_, hb]
    · rintro rfl
      have hmem : l.getLastD b ∈ b :: l := List.getLastD_mem_cons
      exact hnot (List.mem_append_left r hmem)
    · rintro rfl
      exact hnew List.mem_cons_self

end

/-! ### Rings -/

/-- The links of the nodes. -/
structure Links (κ : Type) where
  next : κ → Option κ
  prev : κ → Option κ

/-- The nodes of a list stand between the head and itself. -/
structure LinkedRing (s : Links κ) (h : κ) (l : List κ) : Prop where
  nexts : Leads s.next h l h
  prevs : Leads s.prev h l.reverse h
  nodup : (h :: l).Nodup

namespace Links

variable [DecidableEq κ] (s : Links κ)

/-- Take a node out. -/
def detach (a : κ) : Option (Links κ) := do
  let p ← s.prev a
  let n ← s.next a
  some ⟨ElastosCar.detach s.next p a, ElastosCar.detach s.prev n a⟩

/-- Put a new node behind a node. -/
def insertNext (a new : κ) : Option (Links κ) := do
  let n ← s.next a
  some ⟨ElastosCar.insertNext s.next a new,
    Function.update (Function.update s.prev new (some a)) n (some new)⟩

/-- Put a new node before a node. -/
def insertPrev (a new : κ) : Option (Links κ) := do
  let p ← s.prev a
  some ⟨Function.update (Function.update s.next new (some a)) p (some new),
    ElastosCar.insertNext s.prev a new⟩

/-- The links the other way round. -/
def flip : Links κ := ⟨s.prev, s.next⟩

theorem insertPrev_eq (a new : κ) : s.insertPrev a new = (s.flip.insertNext a new).map flip := by
  rw [insertPrev, insertNext, flip]
  dsimp only
  cases s.prev a with
  | none => rfl
  | some p => rfl

end Links

section

variable {s s' : Links κ}

theorem getLastD_reverse (l : List κ) (h : κ) : l.reverse.getLastD h = l.headD h := by
  rw [List.getLastD_eq_getLast?, List.getLast?_reverse, List.headD_eq_head?_getD]

theorem headD_reverse (l : List κ) (h : κ) : l.reverse.headD h = l.getLastD h := by
  rw [List.headD_eq_head?_getD, List.head?_reverse, List.getLastD_eq_getLast?]

theorem LinkedRing.next_head (hs : LinkedRing s h l) : s.next h = some (l.headD h) :=
  hs.nexts.next_eq

theorem LinkedRing.prev_head (hs : LinkedRing s h l) : s.prev h = some (l.getLastD h) := by
  rw [hs.prevs.next_eq, headD_reverse]

theorem reverse_append_cons (l r : List κ) (a : κ) :
    (l ++ a :: r).reverse = r.reverse ++ a :: l.reverse := by
  rw [List.reverse_append, List.reverse_cons, List.append_assoc, List.singleton_append]

theorem LinkedRing.next_eq (hs : LinkedRing s h (l ++ a :: r)) : s.next a = some (r.headD h) :=
  (leads_append.mp hs.nexts).2.next_eq

theorem LinkedRing.prev_eq (hs : LinkedRing s h (l ++ a :: r)) :
    s.prev a = some (l.getLastD h) := by
  have hprevs := hs.prevs
  rw [reverse_append_cons, leads_append] at hprevs
  rw [hprevs.2.next_eq, headD_reverse]

/-- Two nodes that stand side by side, either of which may be the head. -/
theorem LinkedRing.between (hs : LinkedRing s h (l ++ r)) :
    s.next (l.getLastD h) = some (r.headD h) ∧ s.prev (r.headD h) = some (l.getLastD h) := by
  constructor
  · rcases List.eq_nil_or_concat l with rfl | ⟨l, p, rfl⟩
    · exact hs.next_head
    · rw [List.concat_eq_append, List.append_assoc] at hs
      rw [List.concat_eq_append, List.getLastD_concat]
      exact hs.next_eq
  · cases r with
    | nil =>
      rw [List.append_nil] at hs
      exact hs.prev_head
    | cons n r => exact hs.prev_eq

theorem LinkedRing.ne_head (hs : LinkedRing s h l) (ha : a ∈ l) : a ≠ h := by
  rintro rfl
  exact (List.nodup_cons.mp hs.nodup).1 ha

variable [DecidableEq κ]

/-- A node of the ring is taken out of it. -/
theorem LinkedRing.detach (hs : LinkedRing s h (l ++ a :: r)) :
    ∃ s', s.detach a = some s' ∧ LinkedRing s' h (l ++ r) := by
  refine ⟨_, by rw [Links.detach, hs.prev_eq, hs.next_eq]; rfl, hs.nexts.detach hs.nodup, ?_, ?_⟩
  · have hprevs := hs.prevs
    have hnodup : (h :: (r.reverse ++ a :: l.reverse)).Nodup := by
      rw [← reverse_append_cons]
      exact List.nodup_cons.mpr ((List.nodup_cons.mp hs.nodup).imp
        (mt List.mem_reverse.mp) List.nodup_reverse.mpr)
    rw [reverse_append_cons] at hprevs
    rw [List.reverse_append, ← getLastD_reverse r]
    exact hprevs.detach hnodup
  · have hsub : (h :: (l ++ r)).Sublist (h :: (l ++ a :: r)) :=
      ((List.sublist_cons_self a r).append_left l).cons_cons h
    exact hs.nodup.sublist hsub

/-- A new node is put behind a node of the ring, or behind the head. -/
theorem LinkedRing.insertNext (hs : LinkedRing s h (l ++ r)) (hnew : new ∉ h :: (l ++ r)) :
    ∃ s', s.insertNext (l.getLastD h) new = some s' ∧ LinkedRing s' h (l ++ new :: r) := by
  have hprevs : Leads s.prev h (r.reverse ++ l.reverse) h := List.reverse_append ▸ hs.prevs
  have hmem : ∀ c, c ∈ h :: (r.reverse ++ l.reverse) ↔ c ∈ h :: (l ++ r) := fun c => by
    rw [← List.reverse_append, List.mem_cons, List.mem_reverse, List.mem_cons]
  have hnodup : (h :: (r.reverse ++ l.reverse)).Nodup := by
    rw [← List.reverse_append]
    exact List.nodup_cons.mpr ((List.nodup_cons.mp hs.nodup).imp
      (mt List.mem_reverse.mp) List.nodup_reverse.mpr)
  have hnext := hs.between
  refine ⟨_, by rw [Links.insertNext, hnext.1]; rfl, hs.nexts.insertNext hs.nodup hnew, ?_, ?_⟩
  · rw [reverse_append_cons, ← hnext.2, ← getLastD_reverse r]
    exact hprevs.insertNext hnodup (mt (hmem new).mp hnew)
  · have hperm : (h :: (l ++ new :: r)).Perm (new :: h :: (l ++ r)) :=
      (List.perm_middle.cons h).trans (.swap ..)
    exact hperm.nodup_iff.mpr (List.nodup_cons.mpr ⟨hnew, hs.nodup⟩)

omit [DecidableEq κ] in
theorem LinkedRing.flip (hs : LinkedRing s h l) : LinkedRing s.flip h l.reverse where
  nexts := hs.prevs
  prevs := l.reverse_reverse.symm ▸ hs.nexts
  nodup := List.nodup_cons.mpr ((List.nodup_cons.mp hs.nodup).imp
    (mt List.mem_reverse.mp) List.nodup_reverse.mpr)

/-- A new node is put before a node of the ring, or before the head. -/
theorem LinkedRing.insertPrev (hs : LinkedRing s h (l ++ r)) (hnew : new ∉ h :: (l ++ r)) :
    ∃ s', s.insertPrev (r.headD h) new = some s' ∧ LinkedRing s' h (l ++ new :: r) := by
  have hflip : LinkedRing s.flip h (r.reverse ++ l.reverse) := List.reverse_append ▸ hs.flip
  have hnew' : new ∉ h :: (r.reverse ++ l.reverse) := by
    rw [← List.reverse_append, List.mem_cons, List.mem_reverse]
    exact hnew ∘ List.mem_cons.mpr
  obtain ⟨s', hinsert, hring⟩ := hflip.insertNext hnew'
  have hback := hring.flip
  rw [List.reverse_append, List.reverse_cons, List.reverse_reverse, List.reverse_reverse,
    List.append_assoc, List.singleton_append] at hback
  refine ⟨s'.flip, ?_, hback⟩
  rw [Links.insertPrev_eq, ← getLastD_reverse, hinsert]
  rfl

end

/-! ### Loops -/

/-- How the body of a loop goes on: with the node that follows this one, or outside of the loop. -/
inductive Flow (κ : Type)
  | next (a : κ)
  | leave

section

variable {σ : Type} [DecidableEq κ] (follow : σ → κ → Option κ) (body : κ → σ → Option (Flow κ × σ))
  (h : κ)

/-- From a node on, until the head comes; and whether the body has left the loop. -/
def forEach : ℕ → κ → σ → Option (Bool × σ)
  | 0, _, _ => none
  | fuel + 1, a, s =>
    if a = h then some (false, s)
    else (body a s).bind fun
      | (.leave, s') => some (true, s')
      | (.next b, s') => (follow s' b).bind fun c => forEach fuel c s'

variable {follow body h}

/-- **The rule of the loop.** `I rest s` is what holds when the nodes of `rest` are to come. -/
theorem forEach_spec {I : List κ → σ → Prop} {Q : Bool → σ → Prop}
    (hbody : ∀ a rest s, I (a :: rest) s → a ≠ h ∧
      ((∃ b s', body a s = some (.next b, s') ∧ follow s' b = some (rest.headD h) ∧ I rest s') ∨
        ∃ s', body a s = some (.leave, s') ∧ Q true s'))
    (hend : ∀ s, I [] s → Q false s) {rest : List κ} {s : σ} (hI : I rest s) {fuel : ℕ}
    (hfuel : rest.length < fuel) :
    ∃ left s', forEach follow body h fuel (rest.headD h) s = some (left, s') ∧ Q left s' := by
  induction rest generalizing s fuel with
  | nil =>
    obtain ⟨fuel, rfl⟩ := Nat.exists_eq_succ_of_ne_zero (Nat.ne_zero_of_lt hfuel)
    refine ⟨false, s, ?_, hend s hI⟩
    rw [List.headD_nil, forEach, if_pos rfl]
  | cons a rest ih =>
    obtain ⟨fuel, rfl⟩ := Nat.exists_eq_succ_of_ne_zero (Nat.ne_zero_of_lt hfuel)
    obtain ⟨hne, ⟨b, s', hgo, hfollow, hI'⟩ | ⟨s', hleave, hQ⟩⟩ := hbody a rest s hI
    · obtain ⟨left, s'', hrun, hQ⟩ := ih hI' (Nat.lt_of_succ_lt_succ hfuel)
      refine ⟨left, s'', ?_, hQ⟩
      rw [List.headD_cons, forEach, if_neg hne, hgo]
      change (follow s' b).bind _ = _
      rw [hfollow]
      exact hrun
    · refine ⟨true, s', ?_, hQ⟩
      rw [List.headD_cons, forEach, if_neg hne, hleave]
      rfl

end

end ElastosCar
