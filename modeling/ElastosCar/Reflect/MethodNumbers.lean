import ElastosCar.Reflect.IFList

/-!
# Classes and interfaces number methods alike

`CClassInfo::CreateIFList` threads one running number through the chains of all interfaces of a class,
also through those it has met before. `Tally` is what the scan has met, without the numbers, and
`Scan.Shows` says that the list of the scan is the list of the tally with every interface at its
place, `CLSModule.beginNo`. A visit keeps this if the running number is the place of the visited
interface whenever it is new (`visit_spec`), and along a chain it is (`foldlM_visit`).

* `CClassInfo.numbered_filled`: the lists of a class info hold the ancestors of its interfaces, each once.
* `numbering_agrees`: a method has the same number in a class info and in any interface info.
-/

namespace ElastosCar.IFList

open Forest CLSModule

variable {n : ℕ} {m : CLSModule n} {x y : Fin n} {isCallBack : Bool}

/-! ### The scan without the numbers -/

/-- The interfaces in the order of `allIFList`, and those with the normal (`false`) and with the
callback (`true`) attribute. -/
structure Tally (n : ℕ) where
  order : List (Fin n) := []
  marked : Bool → Finset (Fin n) := fun _ => ∅

namespace Tally

variable {t : Tally n}

def visit (isCallBack : Bool) (t : Tally n) (x : Fin n) : Tally n where
  order := if x ∈ t.order then t.order else t.order ++ [x]
  marked := Function.update t.marked isCallBack (insert x (t.marked isCallBack))

/-- The attributes of an interface as `IFAttrib`s. -/
def attribs (t : Tally n) (x : Fin n) : UInt32 :=
  (if x ∈ t.marked false then ifAttrib false else 0) |||
    (if x ∈ t.marked true then ifAttrib true else 0)

/-- Every interface is listed once and carries an attribute only if it is listed; the list starts
with the root. -/
structure Ok (t : Tally n) : Prop where
  nodup : t.order.Nodup
  subset : ∀ isCallBack, ∀ x ∈ t.marked isCallBack, x ∈ t.order
  root : ∀ x ∈ t.order.head?, x.val = 0

theorem marked_visit (isCallBack cb : Bool) (t : Tally n) (x : Fin n) :
    (t.visit isCallBack x).marked cb =
      if cb = isCallBack then insert x (t.marked cb) else t.marked cb := by
  change Function.update t.marked isCallBack _ cb = _
  rw [Function.update_apply]
  split <;> simp_all

theorem has_attribs (isCallBack : Bool) (t : Tally n) (x : Fin n) :
    (m.entry (t.attribs x) x).has isCallBack = decide (x ∈ t.marked isCallBack) := by
  change (t.attribs x &&& ifAttrib isCallBack != 0) = _
  rw [attribs]
  cases isCallBack <;> by_cases hf : x ∈ t.marked false <;> by_cases ht : x ∈ t.marked true <;>
    simp only [hf, ht, if_true, if_false, decide_true, decide_false] <;> decide

theorem attribs_visit_self (isCallBack : Bool) (t : Tally n) (x : Fin n) :
    (t.visit isCallBack x).attribs x = t.attribs x ||| ifAttrib isCallBack := by
  simp only [attribs, marked_visit]
  cases isCallBack <;> by_cases hf : x ∈ t.marked false <;> by_cases ht : x ∈ t.marked true <;>
    simp [hf, ht] <;> decide

theorem attribs_visit_of_ne (h : y ≠ x) : (t.visit isCallBack x).attribs y = t.attribs y := by
  simp only [attribs, marked_visit]
  cases isCallBack <;> simp [h]

theorem mem_order_visit : y ∈ (t.visit isCallBack x).order ↔ y = x ∨ y ∈ t.order := by
  rw [visit]
  split <;> rename_i hx
  · exact ⟨Or.inr, fun h => h.elim (fun h => h ▸ hx) id⟩
  · simp [or_comm]

theorem Ok.visit (h : t.Ok) (isCallBack : Bool) (hroot : t.order = [] → x.val = 0) :
    (t.visit isCallBack x).Ok where
  nodup := by
    rw [Tally.visit]
    split <;> rename_i hx
    · exact h.nodup
    · exact List.nodup_append'.mpr ⟨h.nodup, List.nodup_singleton x, by simpa using hx⟩
  subset cb y hy := by
    rw [mem_order_visit]
    rw [marked_visit] at hy
    split at hy
    · exact (Finset.mem_insert.mp hy).imp_right (h.subset cb y)
    · exact .inr (h.subset cb y hy)
  root y hy := by
    rcases hnil : t.order with _ | ⟨z, l⟩
    · simp only [Tally.visit, hnil, List.not_mem_nil, if_false, List.nil_append] at hy
      obtain rfl : x = y := by simpa using hy
      exact hroot hnil
    · refine h.root y ?_
      rw [Tally.visit] at hy
      split at hy
      · exact hy
      · simpa [hnil] using hy

theorem marked_foldl_visit (isCallBack cb : Bool) (l : List (Fin n)) (t : Tally n) :
    (l.foldl (visit isCallBack) t).marked cb =
      if cb = isCallBack then t.marked cb ∪ l.toFinset else t.marked cb := by
  induction l generalizing t with
  | nil => simp
  | cons x l ih =>
    rw [List.foldl_cons, ih, marked_visit]
    split
    · ext y
      simp only [Finset.mem_union, Finset.mem_insert, List.mem_toFinset, List.mem_cons]
      tauto
    · rfl

end Tally

/-! ### One visit -/

section Find

variable {order : List (Fin n)} {f g : Fin n → UInt32} {attrib : UInt32}

theorem findEntry_of_not_mem (hx : x ∉ order) :
    findEntry x attrib (order.map fun y => m.entry (f y) y) = none := by
  induction order with
  | nil => rfl
  | cons y order ih =>
    obtain ⟨hne, hx⟩ := not_or.mp (mt List.mem_cons.mpr hx)
    rw [List.map_cons, findEntry, entry_mIndex, if_neg (Ne.symm hne), ih hx, Option.map_none]

theorem findEntry_of_mem (hnodup : order.Nodup) (hself : g x = f x ||| attrib)
    (hne : ∀ y, y ≠ x → g y = f y) (hx : x ∈ order) :
    findEntry x attrib (order.map fun y => m.entry (f y) y) =
      some (m.entry (f x) x, order.map fun y => m.entry (g y) y) := by
  induction order with
  | nil => exact absurd hx List.not_mem_nil
  | cons y order ih =>
    obtain ⟨hy, hnodup⟩ := List.nodup_cons.mp hnodup
    rw [List.map_cons, findEntry, entry_mIndex]
    by_cases hyx : y = x
    · subst hyx
      have hrest : (order.map fun z => m.entry (f z) z) = order.map fun z => m.entry (g z) z :=
        List.map_congr_left fun z hz => by rw [hne z fun h => hy (h ▸ hz)]
      rw [if_pos rfl, List.map_cons, hself, hrest]
      rfl
    · have hx : x ∈ order := (List.mem_cons.mp hx).resolve_left fun h => hyx h.symm
      rw [if_neg hyx, ih hnodup hx, List.map_cons, hne y hyx]
      rfl

end Find

namespace Scan

variable {s : Scan n} {t : Tally n}

/-- The count of the entries with an attribute. -/
def countOf (isCallBack : Bool) (s : Scan n) : UInt32 :=
  if isCallBack then s.mCBIFCount else s.mIFCount

/-- The scan has met what the tally says, and every interface stands at its place. -/
structure Shows (m : CLSModule n) (s : Scan n) (t : Tally n) : Prop where
  ok : t.Ok
  list : s.allIFList = t.order.map fun x => m.entry (t.attribs x) x
  count : ∀ isCallBack, s.countOf isCallBack = UInt32.ofNat (t.marked isCallBack).card
  start : t.order = [] → s.beginNo = METHOD_START_NO

theorem shows_empty (m : CLSModule n) : Scan.Shows m {} {} where
  ok := ⟨List.nodup_nil, by simp, by simp⟩
  list := rfl
  count isCallBack := by cases isCallBack <;> rfl
  start _ := rfl

theorem countOf_count (cb isCallBack : Bool) (s : Scan n) :
    (s.count isCallBack).countOf cb =
      if cb = isCallBack then s.countOf cb + 1 else s.countOf cb := by
  cases cb <;> cases isCallBack <;> rfl

theorem allIFList_count (isCallBack : Bool) (s : Scan n) :
    (s.count isCallBack).allIFList = s.allIFList := by
  cases isCallBack <;> rfl

/-- The counts follow the marks: only a new mark is counted. -/
theorem card_marked_visit (hcount : ∀ cb, s.countOf cb = UInt32.ofNat (t.marked cb).card)
    (cb : Bool) :
    (if x ∈ t.marked isCallBack then s else s.count isCallBack).countOf cb =
      UInt32.ofNat ((t.visit isCallBack x).marked cb).card := by
  rw [Tally.marked_visit]
  by_cases hcb : cb = isCallBack
  · subst hcb
    rw [if_pos rfl]
    split <;> rename_i hx
    · rw [Finset.insert_eq_of_mem hx, hcount]
    · rw [countOf_count, if_pos rfl, hcount, Finset.card_insert_of_notMem hx, UInt32.ofNat_add]
      rfl
  · rw [if_neg hcb]
    split
    · exact hcount cb
    · rw [countOf_count, if_neg hcb, hcount]

/-- One visit. The running number has to be right only if the interface is new. -/
theorem visit_spec (hs : s.Shows m t) (isCallBack : Bool) (hroot : t.order = [] → x.val = 0)
    (hbegin : x ∉ t.order → s.beginNo = UInt32.ofNat (m.beginNo x)) :
    ∃ s', visit m isCallBack s x = some s' ∧ s'.Shows m (t.visit isCallBack x) ∧
      s'.beginNo = UInt32.ofNat (m.beginNo x + m.methodCount x) := by
  have hok := hs.ok.visit isCallBack hroot
  have hne : (t.visit isCallBack x).order ≠ [] :=
    List.ne_nil_of_mem (Tally.mem_order_visit.mpr (.inl rfl))
  by_cases hx : x ∈ t.order
  · have hfind : findEntry x (ifAttrib isCallBack) s.allIFList = some (m.entry (t.attribs x) x,
        t.order.map fun y => m.entry ((t.visit isCallBack x).attribs y) y) := by
      rw [hs.list]
      exact findEntry_of_mem hs.ok.nodup (t.attribs_visit_self isCallBack x)
        (fun y hy => Tally.attribs_visit_of_ne hy) hx
    refine ⟨_, by rw [visit, hfind], ⟨hok, ?_, ?_, fun h => absurd h hne⟩, entry_endNo _ x⟩
    · rw [Tally.visit, if_pos hx]
    · intro cb
      rw [← card_marked_visit hs.count cb, Tally.has_attribs]
      simp only [decide_eq_true_eq]
      rfl
  · have hfind : findEntry x (ifAttrib isCallBack) s.allIFList = none := by
      rw [hs.list]
      exact findEntry_of_not_mem hx
    have hnot : x ∉ t.marked isCallBack := fun h => hx (hs.ok.subset isCallBack x h)
    have hroom : s.allIFList.length < n := by
      have hlt := (List.nodup_cons.mpr ⟨hx, hs.ok.nodup⟩).length_le_card
      simpa [hs.list] using hlt
    refine ⟨_, by rw [visit, hfind]; exact if_pos hroom, ⟨hok, ?_, ?_, fun h => absurd h hne⟩, ?_⟩
    · have hattribs : (t.visit isCallBack x).attribs x = ifAttrib isCallBack := by
        have hzero : t.attribs x = 0 := by
          rw [Tally.attribs, if_neg fun h => hx (hs.ok.subset _ x h),
            if_neg fun h => hx (hs.ok.subset _ x h)]
          rfl
        rw [Tally.attribs_visit_self, hzero]
        cases isCallBack <;> rfl
      have hold : t.order.map (fun y => m.entry (t.attribs y) y) =
          t.order.map fun y => m.entry ((t.visit isCallBack x).attribs y) y :=
        List.map_congr_left fun y hy => by
          rw [Tally.attribs_visit_of_ne (ne_of_mem_of_not_mem hy hx)]
      have horder : (t.visit isCallBack x).order = t.order ++ [x] := if_neg hx
      rw [horder, List.map_append, ← hold, ← hs.list, List.map_singleton, hattribs, entry,
        ← hbegin hx]
      exact congrArg (· ++ _) (allIFList_count isCallBack s)
    · intro cb
      rw [← card_marked_visit hs.count cb, if_neg hnot]
      rfl
    · rw [hbegin hx]
      exact entry_endNo _ x

/-! ### Along the chains -/

/-- The scan of a chain: the running number is the place of each interface on it, because the
interface before it is its parent, met or found again. -/
theorem foldlM_visit {l : List (Fin n)} (isCallBack : Bool) (h : Path m.up x l) (hs : s.Shows m t) :
    ∃ s', l.reverse.foldlM (visit m isCallBack) s = some s' ∧
      s'.Shows m (l.reverse.foldl (Tally.visit isCallBack) t) ∧
      s'.beginNo = UInt32.ofNat (m.beginNo x + m.methodCount x) := by
  induction h with
  | @root x h =>
    have hx := up_eq_none.mp h
    have hbegin : x ∉ t.order → s.beginNo = UInt32.ofNat (m.beginNo x) := by
      intro hnot
      rcases hnil : t.order with _ | ⟨r, l⟩
      · rw [hs.start hnil, beginNo_of_root h, UInt32.ofNat_toNat]
      · have hr : r.val = 0 := hs.ok.root r (by rw [hnil]; rfl)
        obtain rfl : x = r := Fin.ext (hx.trans hr.symm)
        exact absurd (hnil ▸ List.mem_cons_self) hnot
    obtain ⟨s', hvisit, hs', hno⟩ := visit_spec hs isCallBack (fun _ => hx) hbegin
    exact ⟨s', by simp [hvisit], hs', hno⟩
  | @step x y l h hl ih =>
    obtain ⟨s₁, hrun, hs₁, hno⟩ := ih
    -- the parent is listed by now
    have hy : y ∈ (l.reverse.foldl (Tally.visit isCallBack) t).order := by
      refine hs₁.ok.subset isCallBack y ?_
      rw [Tally.marked_foldl_visit, if_pos rfl, Finset.mem_union, List.mem_toFinset,
        List.mem_reverse]
      exact .inr (hl.mem_iff.mpr .refl)
    obtain ⟨s', hvisit, hs', hno'⟩ := visit_spec (x := x) hs₁ isCallBack
      (fun hnil => absurd hnil (List.ne_nil_of_mem hy))
      (fun _ => by rw [hno, beginNo_of_up h])
    refine ⟨s', ?_, ?_, hno'⟩
    · rw [List.reverse_cons, List.foldlM_append, hrun]
      simp [hvisit]
    · rw [List.reverse_cons, List.foldl_append]
      exact hs'

theorem foldlM_visitChain (l : List (ClassInterface n)) (hs : s.Shows m t) :
    ∃ s' t', l.foldlM (visitChain m) s = some s' ∧ s'.Shows m t' ∧
      ∀ cb y, y ∈ t'.marked cb ↔
        y ∈ t.marked cb ∨ ∃ cifDir ∈ l, cifDir.isCallBack = cb ∧ Ancestor m.up y cifDir.mIndex := by
  induction l generalizing s t with
  | nil => exact ⟨s, t, rfl, hs, by simp⟩
  | cons cifDir l ih =>
    obtain ⟨chain, hpath, hclimb⟩ := exists_climb m cifDir.mIndex
    obtain ⟨s₁, hrun, hs₁, -⟩ := foldlM_visit cifDir.isCallBack hpath hs
    obtain ⟨s', t', hrun', hs', hmarked⟩ := ih hs₁
    refine ⟨s', t', ?_, hs', fun cb y => ?_⟩
    · rw [List.foldlM_cons, visitChain, hclimb, Option.bind_some, hrun]
      exact hrun'
    · rw [hmarked, Tally.marked_foldl_visit]
      simp only [List.exists_mem_cons_iff, ← hpath.mem_iff]
      split <;> rename_i hcb
      · simp [hcb, or_assoc]
      · simp [Ne.symm hcb]

end Scan

/-! ### The lists of the class info -/

section Lists

variable {l : List (Fin n)} {f : Fin n → UInt32}

theorem methodSum_map_entry (l : List (Fin n)) (f : Fin n → UInt32) :
    methodSum (l.map fun x => m.entry (f x) x) = UInt32.ofNat (l.map m.methodCount).sum := by
  suffices h : ∀ sum : ℕ, (l.map fun x => m.entry (f x) x).foldl
      (fun sum e => sum + e.mDesc.mMethodCount.toUInt32) (UInt32.ofNat sum) =
        UInt32.ofNat (sum + (l.map m.methodCount).sum) by
    have h0 := h 0
    rwa [Nat.zero_add] at h0
  induction l with
  | nil => exact fun _ => rfl
  | cons x l ih =>
    intro sum
    rw [List.map_cons, List.foldl_cons, List.map_cons, List.sum_cons, ← Nat.add_assoc, ← ih,
      UInt32.ofNat_add, methodCount, UInt32.ofNat_uInt16ToNat]
    rfl

/-- The sum of the method counts stays a `UInt32`. -/
theorem toNat_methodSum (hnodup : l.Nodup) (f : Fin n → UInt32) :
    (methodSum (l.map fun x => m.entry (f x) x)).toNat = (l.map m.methodCount).sum := by
  have hlt : 4 + (l.map m.methodCount).sum < 4294967296 :=
    List.sum_toFinset m.methodCount hnodup ▸ sum_methodCount_lt l.toFinset
  rw [methodSum_map_entry]
  exact UInt32.toNat_ofNat_of_lt' (by rw [UInt32.size]; omega)

namespace CClassInfo

theorem ofNat_eq_zero_iff {k : ℕ} (h : k < 4294967296) : UInt32.ofNat k = 0 ↔ k = 0 := by
  rw [← UInt32.toNat_inj, UInt32.toNat_ofNat_of_lt' h]
  rfl

theorem callbackMethods_map (eventNum : UInt32) (l : List (IFIndexEntry n)) :
    (callbackMethods m eventNum l).map (fun d => (d.mDesc, d.mIndex)) = l.flatMap (·.methods m) := by
  induction l generalizing eventNum with
  | nil => rfl
  | cons e l ih =>
    rw [callbackMethods, List.map_append, ih, List.flatMap_cons]
    congr 1
    exact List.ext_getElem (by simp) fun i _ _ => by simp

theorem length_callbackMethods (eventNum : UInt32) (l : List (Fin n)) (f : Fin n → UInt32) :
    (callbackMethods m eventNum (l.map fun x => m.entry (f x) x)).length =
      (l.map m.methodCount).sum := by
  rw [← List.length_map (f := fun d : CBMethodDesc => (d.mDesc, d.mIndex)), callbackMethods_map,
    List.length_flatMap, List.map_map]
  congr 1
  refine List.map_congr_left fun x _ => ?_
  simp [IFIndexEntry.methods, methodCount, entry, newEntry]

end CClassInfo

end Lists

namespace Tally

variable {t : Tally n}

/-- The interfaces of `mIFList` (`false`) and of `mCBIFList` (`true`), which leaves out the first
entry of the scan. -/
def listed (t : Tally n) : Bool → List (Fin n)
  | false => t.order.filter (· ∈ t.marked false)
  | true => t.order.tail.filter (· ∈ t.marked true)

theorem nodup_listed (h : t.Ok) : ∀ cb, (t.listed cb).Nodup
  | false => h.nodup.filter _
  | true => h.nodup.tail.filter _

theorem mem_listed_false (h : t.Ok) : x ∈ t.listed false ↔ x ∈ t.marked false := by
  rw [listed, List.mem_filter, decide_eq_true_eq]
  exact and_iff_right_of_imp (h.subset false x)

theorem mem_listed_true (h : t.Ok) : x ∈ t.listed true ↔ x.val ≠ 0 ∧ x ∈ t.marked true := by
  rw [listed, List.mem_filter, decide_eq_true_eq]
  refine and_congr_left fun hx => ?_
  have hmem := h.subset true x hx
  rcases horder : t.order with _ | ⟨r, l⟩
  · exact absurd (horder ▸ hmem) List.not_mem_nil
  · have hr : r.val = 0 := h.root r (by rw [horder]; rfl)
    have hnodup := List.nodup_cons.mp (horder ▸ h.nodup)
    rw [List.tail_cons]
    constructor
    · rintro hxl hx0
      exact hnodup.1 (Fin.ext (hr.trans hx0.symm) ▸ hxl)
    · intro hx0
      exact (List.mem_cons.mp (horder ▸ hmem)).resolve_left fun hxr => hx0 (hxr ▸ hr)

theorem card_le (s : Finset (Fin n)) : s.card ≤ n := by simpa using s.card_le_univ

theorem length_listed_lt (m : CLSModule n) (h : t.Ok) (cb : Bool) :
    (t.listed cb).length < 4294967296 := by
  have hle : (t.listed cb).length ≤ n := by simpa using (nodup_listed h cb).length_le_card
  have hn := m.mInterfaceCount_lt
  omega

theorem length_listed_false (h : t.Ok) : (t.listed false).length = (t.marked false).card := by
  rw [← List.toFinset_card_of_nodup (nodup_listed h false)]
  congr 1
  ext x
  rw [List.mem_toFinset, mem_listed_false h]

/-- `mCBIFCount--` accounts for the entry left out. -/
theorem length_listed_true (h : t.Ok)
    (hroot : (t.marked true).Nonempty → ∃ r ∈ t.marked true, r.val = 0) :
    (t.listed true).length = (t.marked true).card - 1 := by
  rw [← List.toFinset_card_of_nodup (nodup_listed h true)]
  rcases (t.marked true).eq_empty_or_nonempty with hempty | hne
  · rw [hempty, Finset.card_empty, Finset.card_eq_zero]
    ext x
    simp [mem_listed_true h, hempty]
  · obtain ⟨r, hr, hr0⟩ := hroot hne
    rw [← Finset.card_erase_of_mem hr]
    congr 1
    ext x
    rw [List.mem_toFinset, mem_listed_true h, Finset.mem_erase, Ne, Ne, Fin.ext_iff, hr0]

end Tally

def News.all (new : News) : Bool := new.mIFList && new.mCBIFList && new.mCBMethodDesc

namespace CClassInfo

variable {s : Scan n} {t : Tally n}

/-- The info behind a scan that has met what the tally says. -/
noncomputable def filled (m : CLSModule n) (t : Tally n) : CClassInfo n :=
  let list (cb : Bool) := (t.listed cb).map fun x => m.entry (t.attribs x) x
  { mIFList := some (list false)
    mCBIFList := if (t.marked true).Nonempty then some (list true) else none
    mCBMethodDesc := some (callbackMethods m 1 (list true))
    mIFCount := UInt32.ofNat (t.listed false).length
    mCBIFCount := UInt32.ofNat (t.listed true).length
    mMethodCount := methodSum (list false)
    mCBMethodCount := methodSum (list true) }

/-- `fill` stays inside its arrays; it fails only where a `new` does, and then clears the info. -/
theorem fill_spec (hs : s.Shows m t) (new : News)
    (hroot : (t.marked true).Nonempty → ∃ r ∈ t.marked true, r.val = 0) :
    ∃ ec r, fill m new s = some (ec, r) ∧
      (ec = E_OUT_OF_MEMORY ∧ new.all = false ∧ r = {} ∨ ec = NOERROR ∧ r = filled m t) := by
  have hcard : ∀ cb, (t.marked cb).card < 4294967296 := fun cb => by
    have hle := Tally.card_le (t.marked cb)
    have hn := m.mInterfaceCount_lt
    omega
  have hlength := Tally.length_listed_true hs.ok hroot
  -- the first pass over the list keeps what has the attribute
  have hkeep : ∀ cb (l : List (Fin n)), (l.map fun x => m.entry (t.attribs x) x).filter (·.has cb) =
      (l.filter (· ∈ t.marked cb)).map fun x => m.entry (t.attribs x) x := by
    intro cb l
    rw [List.filter_map]
    congr 1
    exact List.filter_congr fun x _ => t.has_attribs cb x
  have hifs : s.allIFList.filter (·.has false) =
      (t.listed false).map fun x => m.entry (t.attribs x) x := by rw [hs.list, hkeep, Tally.listed]
  have hcbifs : s.allIFList.tail.filter (·.has true) =
      (t.listed true).map fun x => m.entry (t.attribs x) x := by
    rw [hs.list, ← List.map_tail, hkeep, Tally.listed]
  have hIFCount : s.mIFCount = UInt32.ofNat (t.listed false).length := by
    rw [Tally.length_listed_false hs.ok]
    exact hs.count false
  have hcount : s.mCBIFCount = UInt32.ofNat (t.marked true).card := hs.count true
  have hzero : s.mCBIFCount ≠ 0 ↔ (t.marked true).Nonempty := by
    rw [hcount, Ne, ofNat_eq_zero_iff (hcard true), Finset.card_eq_zero, ← Ne,
      Finset.nonempty_iff_ne_empty]
  have hCBIFCount : (if s.mCBIFCount ≠ 0 then s.mCBIFCount - 1 else 0) =
      UInt32.ofNat (t.listed true).length := by
    rw [hlength]
    split <;> rename_i hne
    · have hpos : 1 ≤ (t.marked true).card := Finset.card_pos.mpr (hzero.mp hne)
      rw [hcount]
      exact (UInt32.ofNat_sub hpos).symm
    · rw [hzero, Finset.not_nonempty_iff_eq_empty] at hne
      rw [hne]
      rfl
  have hlt := Tally.length_listed_lt m hs.ok
  have hskip : (if UInt32.ofNat (t.listed true).length ≠ 0 then
        (t.listed true).map fun x => m.entry (t.attribs x) x else []) =
      (t.listed true).map fun x => m.entry (t.attribs x) x := by
    by_cases hnil : t.listed true = []
    · rw [hnil]
      rfl
    · refine if_pos fun h0 => hnil ?_
      exact List.length_eq_zero_iff.mp ((ofNat_eq_zero_iff (hlt true)).mp h0)
  have hfit : ∀ cb, ¬(UInt32.ofNat (t.listed cb).length).toNat <
      ((t.listed cb).map fun x => m.entry (t.attribs x) x).length := by
    intro cb
    rw [UInt32.toNat_ofNat_of_lt' (hlt cb), List.length_map]
    exact lt_irrefl _
  rw [fill]
  simp only [hifs, hcbifs, hCBIFCount, hskip, hIFCount, hfit, or_self, if_false,
    toNat_methodSum (t.nodup_listed hs.ok true), length_callbackMethods, lt_irrefl]
  split_ifs with h₁ h₂ hne
  · refine ⟨_, _, rfl, .inl ⟨rfl, ?_, rfl⟩⟩
    simp only [Bool.or_eq_true, Bool.and_eq_true, Bool.not_eq_true'] at h₁
    rcases h₁ with h | ⟨-, h⟩ <;> simp [News.all, h]
  · refine ⟨_, _, rfl, .inl ⟨rfl, ?_, rfl⟩⟩
    simp only [Bool.not_eq_true'] at h₂
    simp [News.all, h₂]
  · exact ⟨_, _, rfl, .inr ⟨rfl, by simp only [filled, if_pos (hzero.mp hne)]⟩⟩
  · exact ⟨_, _, rfl, .inr ⟨rfl, by simp only [filled, if_neg (hzero.not.mp hne)]⟩⟩

end CClassInfo

/-! ### Every call of `CreateIFList` -/

/-- The ancestors of the normal or of the callback interfaces of a class, with these. -/
def ClassDescriptor.closure (m : CLSModule n) (c : ClassDescriptor n) (isCallBack : Bool) :
    Set (Fin n) :=
  upClosure m.up
    {x | ∃ cifDir ∈ c.mInterfaces, cifDir.isCallBack = isCallBack ∧ cifDir.mIndex = x}

namespace CClassInfo

/-- `mIFList` or `mCBIFList`; a null pointer has no entries. -/
def entries (isCallBack : Bool) (s : CClassInfo n) : List (IFIndexEntry n) :=
  (if isCallBack then s.mCBIFList else s.mIFList).getD []

/-- A call of `CreateIFList` on an info. -/
def step (m : CLSModule n) (c : ClassDescriptor n) (s : CClassInfo n) (new : News) :
    Option (CClassInfo n) :=
  (CreateIFList m c s new).map (·.2)

/-- The lists of the info hold what they should, each interface once and at its place. -/
structure Numbered (m : CLSModule n) (c : ClassDescriptor n) (s : CClassInfo n) : Prop where
  nodup : ∀ isCallBack, ((s.entries isCallBack).map (·.mIndex)).Nodup
  normal : ∀ x, x ∈ (s.entries false).map (·.mIndex) ↔ x ∈ c.closure m false
  callback : ∀ x, x ∈ (s.entries true).map (·.mIndex) ↔ x.val ≠ 0 ∧ x ∈ c.closure m true
  mIFCount : s.mIFCount.toNat = (s.entries false).length
  mCBIFCount : s.mCBIFCount.toNat = (s.entries true).length
  mMethodCount : s.mMethodCount.toNat = ((s.entries false).map fun e => m.methodCount e.mIndex).sum
  mCBMethodCount :
    s.mCBMethodCount.toNat = ((s.entries true).map fun e => m.methodCount e.mIndex).sum
  mDesc : ∀ isCallBack, ∀ e ∈ s.entries isCallBack, e.mDesc = m.desc e.mIndex
  mBeginNo : ∀ isCallBack, ∀ e ∈ s.entries isCallBack, e.mBeginNo.toNat = m.beginNo e.mIndex
  mCBMethodDesc : ∃ table, s.mCBMethodDesc = some table ∧
    table.map (fun d => (d.mDesc, d.mIndex)) = (s.entries true).flatMap (·.methods m)

variable {s : Scan n} {t : Tally n} {c : ClassDescriptor n}

theorem entries_filled (h : t.Ok) : ∀ isCallBack, (filled m t).entries isCallBack =
    (t.listed isCallBack).map fun x => m.entry (t.attribs x) x
  | false => rfl
  | true => by
    rw [entries, filled]
    by_cases hne : (t.marked true).Nonempty
    · simp only [if_true, if_pos hne, Option.getD_some]
    · have hnil : t.listed true = [] := List.eq_nil_iff_forall_not_mem.mpr fun x hx =>
        hne ⟨x, ((Tally.mem_listed_true h).mp hx).2⟩
      simp only [if_true, if_neg hne, hnil, Option.getD_none, List.map_nil]

theorem numbered_filled (h : t.Ok) (hmarked : ∀ cb y, y ∈ t.marked cb ↔ y ∈ c.closure m cb) :
    (filled m t).Numbered m c := by
  have hindex : ∀ cb, ((filled m t).entries cb).map (·.mIndex) = t.listed cb := fun cb => by
    rw [entries_filled h, List.map_map]
    exact List.map_id _
  have hsum : ∀ cb, ((filled m t).entries cb).map (fun e => m.methodCount e.mIndex) =
      (t.listed cb).map m.methodCount := fun cb => by
    rw [entries_filled h, List.map_map]
    rfl
  refine ⟨fun cb => ?_, fun x => ?_, fun x => ?_, ?_, ?_, ?_, ?_, fun cb e he => ?_,
    fun cb e he => ?_, ?_⟩
  · exact hindex cb ▸ t.nodup_listed h cb
  · rw [hindex, Tally.mem_listed_false h, hmarked]
  · rw [hindex, Tally.mem_listed_true h, hmarked]
  · rw [entries_filled h, List.length_map]
    exact UInt32.toNat_ofNat_of_lt' (t.length_listed_lt m h false)
  · rw [entries_filled h, List.length_map]
    exact UInt32.toNat_ofNat_of_lt' (t.length_listed_lt m h true)
  · rw [hsum]
    exact toNat_methodSum (t.nodup_listed h false) _
  · rw [hsum]
    exact toNat_methodSum (t.nodup_listed h true) _
  · rw [entries_filled h] at he
    obtain ⟨x, -, rfl⟩ := List.mem_map.mp he
    rfl
  · rw [entries_filled h] at he
    obtain ⟨x, -, rfl⟩ := List.mem_map.mp he
    exact UInt32.toNat_ofNat_of_lt' (beginNo_lt x)
  · refine ⟨_, rfl, ?_⟩
    rw [callbackMethods_map, entries_filled h]

/-- What an info holds between two calls. -/
def Settled (m : CLSModule n) (t : Tally n) (s : CClassInfo n) : Prop := s = {} ∨ s = filled m t

theorem createIFList_settled {s : Scan n} {i : CClassInfo n}
    (hscan : c.mInterfaces.foldlM (Scan.visitChain m) {} = some s) (hs : s.Shows m t)
    (hroot : (t.marked true).Nonempty → ∃ r ∈ t.marked true, r.val = 0)
    (hi : Settled m t i) (new : News) :
    ∃ ec i', CreateIFList m c i new = some (ec, i') ∧
      (ec = E_OUT_OF_MEMORY ∧ new.all = false ∧ i' = {} ∨ ec = NOERROR ∧ i' = filled m t) := by
  rcases hi with rfl | rfl
  · obtain ⟨ec, i', hfill, hcases⟩ := fill_spec hs new hroot
    refine ⟨ec, i', ?_, hcases⟩
    rw [CreateIFList, hscan]
    exact hfill
  · exact ⟨NOERROR, filled m t, rfl, .inr ⟨rfl, rfl⟩⟩

end CClassInfo

namespace CInterfaceInfo

variable {i : CInterfaceInfo n} {l : List (Fin n)}

def entries (i : CInterfaceInfo n) : List (IFIndexEntry n) := i.mIFList.getD []

def step (m : CLSModule n) (i : CInterfaceInfo n) (new : Bool) : Option (CInterfaceInfo n) :=
  (CreateIFList m i new).map (·.2)

/-- What an info holds between two calls: its list is that of its chain, or not there yet. -/
def Settled (m : CLSModule n) (x : Fin n) (l : List (Fin n)) (i : CInterfaceInfo n) : Prop :=
  i.mIndex = x ∧ (i.mIFList = none ∨ i.mIFList = some (l.reverse.map (m.entry 0)))

theorem createIFList_settled (hl : Path m.up x l) (hclimb : m.climb n x = some l)
    (hi : Settled m x l i) (new : Bool) :
    ∃ ec i', CreateIFList m i new = some (ec, i') ∧ Settled m x l i' ∧
      (new → ec = NOERROR) ∧ (ec = NOERROR → i'.entries = l.reverse.map (m.entry 0)) := by
  obtain ⟨rfl, hnone | hsome⟩ := hi
  · rw [CreateIFList, hnone, hclimb]
    cases new
    · exact ⟨_, _, rfl, ⟨rfl, .inl rfl⟩, nofun, fun h => absurd h (by decide)⟩
    · have hnumber := (number_of_path hl).1
      exact ⟨_, _, rfl, ⟨rfl, .inr (congrArg some hnumber)⟩, fun _ => rfl, fun _ => hnumber⟩
  · refine ⟨NOERROR, i, ?_, ⟨rfl, .inr hsome⟩, fun _ => rfl, fun _ => ?_⟩
    · rw [CreateIFList, hsome]
      rfl
    · rw [entries, hsome, Option.getD_some]

end CInterfaceInfo

/-- A method of an interface in both lists has the same number in both. -/
def Agree (m : CLSModule n) (s : CClassInfo n) (i : CInterfaceInfo n) : Prop :=
  ∀ isCallBack, ∀ e ∈ s.entries isCallBack, ∀ e' ∈ i.entries, e'.mIndex = e.mIndex →
    e'.mBeginNo = e.mBeginNo ∧ e'.methods m = e.methods m

/-- **Method numbers agree.** Whatever calls of `CreateIFList` an info has seen, the next one has room
for all it stores and fails only for want of memory. If it succeeds, the lists of the class info hold
each ancestor once, at its place in the numbering, and an interface info has the same numbers. -/
theorem numbering_agrees (m : CLSModule n) (c : ClassDescriptor n) (news : List News) (new : News) :
    ∃ s ec s', Trace.run (CClassInfo.step m c) {} news = some s ∧
      CClassInfo.CreateIFList m c s new = some (ec, s') ∧ (new.all → ec = NOERROR) ∧
      (ec = NOERROR → s'.Numbered m c ∧ ∀ x (inews : List Bool) (inew : Bool), ∃ i ec' i',
        Trace.run (CInterfaceInfo.step m) { mIndex := x } inews = some i ∧
          CInterfaceInfo.CreateIFList m i inew = some (ec', i') ∧ (inew → ec' = NOERROR) ∧
          (ec' = NOERROR → x ∈ i'.entries.map (·.mIndex) ∧ Agree m s' i')) := by
  obtain ⟨scan, t, hscan, hs, hmarked⟩ := Scan.foldlM_visitChain (m := m) c.mInterfaces
    (Scan.shows_empty m)
  have hclosure : ∀ cb y, y ∈ t.marked cb ↔ y ∈ c.closure m cb := by
    intro cb y
    rw [hmarked]
    constructor
    · rintro (h | ⟨cifDir, hmem, hcb, hy⟩)
      · exact absurd h (Finset.notMem_empty y)
      · exact ⟨cifDir.mIndex, ⟨cifDir, hmem, hcb, rfl⟩, hy⟩
    · rintro ⟨-, ⟨cifDir, hmem, hcb, rfl⟩, hy⟩
      exact .inr ⟨cifDir, hmem, hcb, hy⟩
  have hroot : (t.marked true).Nonempty → ∃ r ∈ t.marked true, r.val = 0 := by
    rintro ⟨y, hy⟩
    obtain ⟨x, hx, -⟩ := (hclosure true y).mp hy
    obtain ⟨l, hl, -⟩ := exists_climb m x
    obtain ⟨r, hr, hup⟩ := hl.exists_root
    exact ⟨r, (hclosure true r).mpr ⟨x, hx, hl.mem_iff.mp hr⟩, up_eq_none.mp hup⟩
  have hnumbered := CClassInfo.numbered_filled hs.ok hclosure
  have hstep : ∀ i a, CClassInfo.Settled m t i →
      ∃ i', CClassInfo.step m c i a = some i' ∧ CClassInfo.Settled m t i' := by
    intro i a hi
    obtain ⟨ec, i', hi', hcases⟩ := CClassInfo.createIFList_settled hscan hs hroot hi a
    exact ⟨i', by rw [CClassInfo.step, hi']; rfl, hcases.imp (·.2.2) (·.2)⟩
  obtain ⟨s, hrun, hsettled⟩ := Trace.exists_run hstep (.inl rfl) news
  obtain ⟨ec, s', hcall, hcases⟩ := CClassInfo.createIFList_settled hscan hs hroot hsettled new
  refine ⟨s, ec, s', hrun, hcall, fun hall => ?_, fun hec => ?_⟩
  · rcases hcases with ⟨-, hnew, -⟩ | ⟨hec, -⟩
    · exact absurd hall (by rw [hnew]; exact Bool.false_ne_true)
    · exact hec
  obtain rfl : s' = CClassInfo.filled m t := by
    rcases hcases with ⟨hfail, -⟩ | ⟨-, hs'⟩
    · exact absurd (hec.symm.trans hfail) (by decide)
    · exact hs'
  refine ⟨hnumbered, fun x inews inew => ?_⟩
  obtain ⟨l, hl, hclimb⟩ := exists_climb m x
  have hstep : ∀ i a, CInterfaceInfo.Settled m x l i →
      ∃ i', CInterfaceInfo.step m i a = some i' ∧ CInterfaceInfo.Settled m x l i' := by
    intro i a hi
    obtain ⟨ec, i', hi', hsettled, -⟩ := CInterfaceInfo.createIFList_settled hl hclimb hi a
    exact ⟨i', by rw [CInterfaceInfo.step, hi']; rfl, hsettled⟩
  obtain ⟨i, hrun, hsettled⟩ := Trace.exists_run hstep (s := { mIndex := x }) ⟨rfl, .inl rfl⟩ inews
  obtain ⟨ec', i', hcall, -, hok, hentries⟩ :=
    CInterfaceInfo.createIFList_settled hl hclimb hsettled inew
  refine ⟨i, ec', i', hrun, hcall, hok, fun hec' => ?_⟩
  rw [hentries hec']
  constructor
  · simpa using hl.mem_iff.mpr .refl
  · intro cb e he e' he' hindex
    rw [hentries hec'] at he'
    obtain ⟨y, -, rfl⟩ := List.mem_map.mp he'
    rw [CClassInfo.entries_filled hs.ok] at he
    obtain ⟨z, -, rfl⟩ := List.mem_map.mp he
    obtain rfl : y = z := hindex
    exact ⟨rfl, rfl⟩

end ElastosCar.IFList
