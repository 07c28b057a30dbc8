import ElastosCar.Strings.CaseEnds

/-!
# Alphabets that can ignore the case

Over which strings the functions that ignore the case are right: `ignoresCase_iff` tells it of any
alphabet. What the condition asks of the characters is needed, since a character that it excludes
makes two strings that are compared the wrong way.
-/

namespace ElastosCar.ElString

open ThreeWay

variable {env : Platform} {A : UInt32 → Prop} {c d : UInt32} {cs ds : List UInt32}

/-- **What upper case tells** of the strings over an alphabet: the comparison is a total preorder in
which the strings that are the same in upper case are equal, and beginnings and ends are told. -/
structure IgnoresCase (env : Platform) (A : UInt32 → Prop) : Prop where
  sign : ∀ (s t : ElString) (cs ds : List UInt32), s.Spells cs → t.Spells ds → (∀ c ∈ cs, A c) →
    (∀ d ∈ ds, A d) →
    ∃ r r', CompareIgnoreCase env t.mString s = some r ∧
      CompareIgnoreCase env s.mString t = some r' ∧ r.sign = -r'.sign
  transitive : ∀ (s t u : ElString) (cs ds es : List UInt32), s.Spells cs → t.Spells ds →
    u.Spells es → (∀ c ∈ cs, A c) → (∀ d ∈ ds, A d) → (∀ e ∈ es, A e) →
    ∃ r r' r'', CompareIgnoreCase env t.mString s = some r ∧
      CompareIgnoreCase env u.mString t = some r' ∧
      CompareIgnoreCase env u.mString s = some r'' ∧ (r ≤ 0 → r' ≤ 0 → r'' ≤ 0)
  zero : ∀ (s t : ElString) (cs ds : List UInt32), s.Spells cs → t.Spells ds → (∀ c ∈ cs, A c) →
    (∀ d ∈ ds, A d) →
    ∃ r, CompareIgnoreCase env t.mString s = some r ∧
      (r = 0 ↔ cs.map (toUpper env) = ds.map (toUpper env))
  beginning : ∀ (s t : ElString) (cs ds : List UInt32), s.Spells cs → t.Spells ds →
    (∀ c ∈ cs, A c) → (∀ d ∈ ds, A d) →
    ∃ b, StartWithIgnoreCase env t.mString s = some b ∧
      (b = true ↔ ∃ ps, ps <+: cs ∧ ps.map (toUpper env) = ds.map (toUpper env))
  ending : ∀ (s t : ElString) (cs ds : List UInt32), s.Spells cs → t.Spells ds →
    (∀ c ∈ cs, A c) → (∀ d ∈ ds, A d) →
    ∃ b, EndWithIgnoreCase env t.mString s = some b ∧
      (b = true ↔ ∃ ps, ps <:+ cs ∧ ps.map (toUpper env) = ds.map (toUpper env))

section Strings

variable {s t : ElString}

theorem FoldsWell.compareIgnoreCase (hA : FoldsWell env A) (h : s.Spells cs) (ht : t.Spells ds)
    (hcsA : ∀ c ∈ cs, A c) (hdsA : ∀ d ∈ ds, A d) :
    ∃ r, CompareIgnoreCase env t.mString s = some r ∧
      Agrees r (caseKeys env A cs) (caseKeys env A ds) := by
  rw [compareIgnoreCase_eq h ht (hA.pair.walkSpared h.char ht.char hcsA hdsA)]
  exact hA.agrees_compare h.char ht.char hcsA hdsA

theorem AllSpared.startWithIgnoreCase (hA : AllSpared env A) (h : s.Spells cs) (ht : t.Spells ds)
    (hcsA : ∀ c ∈ cs, A c) (hdsA : ∀ d ∈ ds, A d) :
    ∃ b, StartWithIgnoreCase env t.mString s = some b ∧
      (b = true ↔ ds.map (toUpper env) <+: cs.map (toUpper env)) := by
  have hnil : ∀ x ∈ ([] : List UInt8), 0x80 ≤ x.toNat ∧ x.toNat < 0xC0 :=
    fun x hx => absurd hx List.not_mem_nil
  obtain ⟨b, hb, hiff⟩ := hA.insensitiveStartWith h.char hcsA hnil ht.char hdsA
  rw [begins_nil_iff, List.length_nil, Nat.zero_add] at hiff
  refine ⟨b, ?_, hiff.trans (and_iff_right_of_imp fun hbegins => ?_)⟩
  · rw [StartWithIgnoreCase, h.string, ht.string]
    exact hb
  · obtain ⟨ps, ⟨qs, rfl⟩, heq⟩ := List.prefix_map_iff.mp hbegins
    rw [hA.length_eq hdsA (fun p hp => hcsA p (List.mem_append_left _ hp)) heq,
      List.flatMap_append, List.length_append]
    exact Nat.le_add_right _ _

/-- Over an alphabet whose order goes together with upper case, all is right. -/
theorem FoldsWell.ignoresCase (hA : FoldsWell env A) : IgnoresCase env A where
  sign s t cs ds h ht hcsA hdsA := by
    obtain ⟨r, hr, hagrees⟩ := hA.compareIgnoreCase h ht hcsA hdsA
    obtain ⟨r', hr', hagrees'⟩ := hA.compareIgnoreCase ht h hdsA hcsA
    exact ⟨r, r', hr, hr', hagrees.sign hagrees'⟩
  transitive s t u cs ds es h ht hu hcsA hdsA hesA := by
    obtain ⟨r, hr, hagrees⟩ := hA.compareIgnoreCase h ht hcsA hdsA
    obtain ⟨r', hr', hagrees'⟩ := hA.compareIgnoreCase ht hu hdsA hesA
    obtain ⟨r'', hr'', hagrees''⟩ := hA.compareIgnoreCase h hu hcsA hesA
    exact ⟨r, r', r'', hr, hr', hr'', hagrees.nonpos_trans hagrees' hagrees''⟩
  zero s t cs ds h ht hcsA hdsA := by
    rw [compareIgnoreCase_eq h ht (hA.pair.walkSpared h.char ht.char hcsA hdsA)]
    exact compare_walkChars_eq_zero_iff h.char ht.char
  beginning s t cs ds h ht hcsA hdsA := by
    obtain ⟨b, hb, hiff⟩ := hA.pair.startWithIgnoreCase h ht hcsA hdsA
    refine ⟨b, hb, hiff.trans (List.prefix_map_iff.trans ?_)⟩
    simp only [eq_comm]
  ending s t cs ds h ht hcsA hdsA := by
    obtain ⟨b, hb, hiff⟩ := hA.endWithIgnoreCase h ht hcsA hdsA
    refine ⟨b, hb, hiff.trans (List.suffix_map_iff.trans ?_)⟩
    simp only [eq_comm]

end Strings

/-! ### What must go together with upper case -/

theorem spells_text (hcs : IsText cs) (hfits : cs.length < 2147483648) : (spelled cs).Spells cs :=
  spells_spelled cs (List.all_eq_true.mpr fun c hc => decide_eq_true (hcs c hc)) hfits

theorem spells_char (h : c ≠ 0 ∧ IsValidChar c = true) : (spelled [c]).Spells [c] :=
  spells_text (List.forall_mem_singleton.mpr h) (by simp)

/-- A string does not begin with one that has more bytes. -/
theorem startWithIgnoreCase_short {s t : ElString} (h : s.Spells cs) (ht : t.Spells ds)
    (hshort : (cs.flatMap utf8).length < (ds.flatMap utf8).length) :
    StartWithIgnoreCase env t.mString s = some false := by
  have hne : ds ≠ [] := by
    rintro rfl
    exact absurd hshort (Nat.not_lt_zero _)
  have hterminated := h.terminated
  have hterminated' := ht.terminated
  rw [h.data] at hterminated
  rw [ht.data] at hterminated'
  rw [StartWithIgnoreCase, h.string, ht.string, InsensitiveStartWith]
  rw [if_neg fun hempty => hne (ht.headD_eq_zero_iff.mp hempty)]
  dsimp only
  rw [hterminated, hterminated']
  exact if_pos (.inr (.inr (by simpa using hshort)))

/-- Two characters that are not the same in upper case. -/
theorem compareIgnoreCase_chars {s t : ElString} (h : s.Spells (c :: cs)) (ht : t.Spells (d :: ds))
    (hpair : WalkPair env c d) (hne : toUpper env c ≠ toUpper env d) :
    CompareIgnoreCase env t.mString s = some (charDifference env c d) := by
  have hspared : WalkSpared env (c :: cs) (d :: ds) := ⟨hpair, fun heq => absurd heq hne⟩
  rw [compareIgnoreCase_eq h ht hspared, walkChars, if_neg hne, Walked.compare]

/-- An ASCII character that is in upper case the first byte of another character is passed, and the
other is compared with its second byte. -/
theorem walk_first (hvalid : IsValidChar d = true) (hc : c < 0x80)
    (hd : 0x80 ≤ d) (hfirst : toUpper env c = toUpper env (ofChar env.signed (lead d))) (n : ℕ) :
    ∃ w, walk env (n + 3) (cstr [c, d]) (cstr [d]) = some w ∧
      ((∃ p1 p2, w = .ended p1 p2) ∨ ∃ r, w = .differs r ∧ 0 < r) := by
  have hvalid' : IsValidChar c = true := by
    by_contra hnot
    have hnil := utf8_eq_nil (Bool.eq_false_iff.mpr hnot)
    rw [(utf8_of_lt hc).1] at hnil
    exact absurd hnil (List.cons_ne_nil _ _)
  have hcount : GetByteCount d ≠ 1 := by
    rw [ne_eq, getByteCount_eq_one_iff hvalid]
    exact UInt32.not_lt.mpr hd
  have hpos := (pos_GetByteCount_iff d).mpr hvalid
  obtain ⟨x, xs, htail⟩ : ∃ x xs, (utf8 d).tail = x :: xs := by
    refine List.exists_cons_of_ne_nil (List.ne_nil_of_length_pos ?_)
    rw [List.length_tail, length_utf8]
    omega
  obtain ⟨-, hrange⟩ := utf8_of_le hvalid hd
  obtain ⟨hlo, hhi⟩ := hrange x (htail ▸ List.mem_cons_self)
  have hbytes : cstr [d] = lead d :: x :: (xs ++ [0]) := by
    rw [cstr_cons, utf8_eq_lead_cons hvalid, htail]
    rfl
  have hread : readChar env.signed (cstr [d]) = some (d, GetByteCount d) := by
    rw [cstr_cons, readChar_utf8 hvalid]
  have hread' : readChar env.signed (x :: (xs ++ [0])) = some ((x &&& 0x3F).toUInt32, 1) := by
    rw [readChar, GetCharInternal_tail hlo hhi]
    exact if_pos (by simp)
  have heq : eqCharIgnoreCase env (lead c) (lead d) = true := by
    rw [eqCharIgnoreCase, eqIgnoreCase_iff, ofChar_lead hc]
    exact hfirst
  have hascii : ¬IsASCII (lead d) = true := by
    rw [isASCII_lead_iff hvalid]
    exact UInt32.not_lt.mpr hd
  -- the first character
  have hfirstStep : walk env (n + 3) (cstr [c, d]) (cstr [d]) =
      walk env (n + 2) (cstr [d]) (x :: (xs ++ [0])) := by
    rw [walk_cons_ascii hvalid' hvalid hc, if_pos heq, hbytes]
    rfl
  -- the second character, and the second byte of the first
  rw [hfirstStep, walk, if_pos ⟨length_cstr_cons hvalid _, by simp⟩, head?_cstr hvalid, hread,
    List.head?_cons, hread']
  simp only [Option.bind_eq_bind, Option.bind_some]
  rw [if_neg hascii]
  have hnext : (cstr [d]).drop (GetByteCount d) = [0] := drop_cstr d []
  split_ifs
  · rw [hnext, walk, if_neg (by simp)]
    exact ⟨_, rfl, .inl ⟨_, _, rfl⟩⟩
  · refine ⟨_, rfl, .inr ⟨_, rfl, ?_⟩⟩
    have hsmall : (x &&& 0x3F).toUInt32.toNat ≤ 0x3F := by
      rw [UInt8.toNat_toUInt32, UInt8.toNat_and]
      exact Nat.and_le_right
    have hle := toNat_le_of_valid hvalid
    have hlarge : 0x80 ≤ d.toNat := hd
    rw [int32_eq (by omega) (by omega)]
    omega

theorem getByteCount_le_four (c : UInt32) : GetByteCount c ≤ 4 := by
  rw [GetByteCount]
  split_ifs <;> omega

theorem length_flatMap_le (cs : List UInt32) : (cs.flatMap utf8).length ≤ 4 * cs.length := by
  induction cs with
  | nil => exact le_rfl
  | cons c cs ih =>
    have hcount := getByteCount_le_four c
    rw [List.flatMap_cons, List.length_append, length_utf8, List.length_cons]
    omega

section Needed

variable (hI : IgnoresCase env A) (hchar : ∀ a, A a → a ≠ 0 ∧ IsValidChar a = true)

include hI hchar

/-- One of the two would not begin with the other. -/
theorem IgnoresCase.getByteCount_le {a b : UInt32} (ha : A a) (hb : A b)
    (heq : toUpper env a = toUpper env b) : GetByteCount b ≤ GetByteCount a := by
  have h := spells_char (hchar a ha)
  have h' := spells_char (hchar b hb)
  obtain ⟨r, hr, hiff⟩ := hI.beginning _ _ _ _ h h' (List.forall_mem_singleton.mpr ha)
    (List.forall_mem_singleton.mpr hb)
  by_contra hlt
  have hshort : ([a].flatMap utf8).length < ([b].flatMap utf8).length := by
    rw [List.flatMap_singleton, List.flatMap_singleton, length_utf8, length_utf8]
    exact Nat.not_le.mp hlt
  rw [startWithIgnoreCase_short h h' hshort] at hr
  obtain rfl := Option.some.inj hr
  exact Bool.false_ne_true (hiff.mpr ⟨[a], List.prefix_rfl, congrArg (fun x => [x]) heq⟩)

theorem IgnoresCase.length {a b : UInt32} (ha : A a) (hb : A b)
    (heq : toUpper env a = toUpper env b) : GetByteCount a = GetByteCount b :=
  le_antisymm (hI.getByteCount_le hchar hb ha heq.symm) (hI.getByteCount_le hchar ha hb heq)

/-- The two strings would each be less than the other, or one would begin with the other. -/
theorem IgnoresCase.first {a b : UInt32} (ha : A a) (hb : A b) (hsmall : a < 0x80)
    (hlarge : 0x80 ≤ b) : toUpper env a ≠ toUpper env (ofChar env.signed (lead b)) := by
  intro hfirst
  obtain ⟨-, hvalid⟩ := hchar a ha
  obtain ⟨-, hvalid'⟩ := hchar b hb
  have hne : toUpper env b ≠ toUpper env a := by
    intro heq
    have hcount := (getByteCount_eq_one_iff hvalid).mpr hsmall
    rw [← hI.length hchar hb ha heq, getByteCount_eq_one_iff hvalid'] at hcount
    exact absurd hcount (UInt32.not_lt.mpr hlarge)
  have hab : ∀ c ∈ [a, b], A c := List.forall_mem_cons.mpr ⟨ha, List.forall_mem_singleton.mpr hb⟩
  have hb' : ∀ c ∈ [b], A c := List.forall_mem_singleton.mpr hb
  have h : (spelled [a, b]).Spells [a, b] := spells_text (fun c hc => hchar c (hab c hc)) (by simp)
  have h' := spells_char (hchar b hb)
  have hlength : 3 ≤ (cstr [a, b]).length := by
    have hlt := IsText.length_lt h.char
    exact hlt
  have hterminated := terminated_append (IsText.zero_notMem h.char)
  have hterminated' := terminated_append (IsText.zero_notMem h'.char)
  have hhead : ¬(cstr [b]).headD 0 = 0 := by
    rw [IsText.headD_cstr_iff h'.char]
    exact List.cons_ne_nil _ _
  obtain ⟨n, hn⟩ := Nat.exists_eq_add_of_le' hlength
  obtain ⟨w, hw, hcases⟩ := walk_first hvalid' hsmall hlarge hfirst n
  rw [← hn] at hw
  rcases hcases with ⟨p1, p2, rfl⟩ | ⟨r, rfl, hpos⟩
  · -- the loop ends, and the one begins with the other
    obtain ⟨x, hx, hiff⟩ := hI.beginning _ _ _ _ h h' hab hb'
    have hone : ¬((cstr [a, b]).length = 1 ∨ (cstr [b]).length = 1 ∨
        (cstr [a, b]).length < (cstr [b]).length) := by
      have hlt := IsText.length_lt h'.char
      rw [cstr_cons a, List.length_append]
      rw [List.length_singleton] at hlt
      omega
    rw [StartWithIgnoreCase, h.string, h'.string, InsensitiveStartWith, if_neg hhead, hterminated,
      hterminated'] at hx
    dsimp only at hx
    rw [if_neg hone, hw] at hx
    obtain rfl := Option.some.inj hx
    obtain ⟨ps, hps, heq⟩ := hiff.mp rfl
    have hprefix := hps.map (toUpper env)
    rw [heq] at hprefix
    exact hne (List.cons_prefix_cons.mp hprefix).1
  · obtain ⟨x, y, hx, hy, hsign⟩ := hI.sign _ _ _ _ h h' hab hb'
    have hpair : WalkPair env b a := fun hb => absurd hb (UInt32.not_lt.mpr hlarge)
    rw [compareIgnoreCase_chars h' h hpair hne, charDifference,
      if_neg (UInt32.not_lt.mpr hlarge)] at hy
    rw [CompareIgnoreCase.eq_def, h.string, h'.string] at hx
    dsimp only at hx
    rw [if_neg fun hempty => hhead hempty.2, hterminated, hterminated', hw] at hx
    obtain rfl := Option.some.inj hx
    obtain rfl := Option.some.inj hy
    have hle := toNat_le_of_valid hvalid'
    have hlt : a.toNat < 0x80 := hsmall
    have hge : 0x80 ≤ b.toNat := hlarge
    rw [int32_eq (by omega) (by omega), Int.sign_eq_one_of_pos hpos,
      Int.sign_eq_one_of_pos (by omega)] at hsign
    exact absurd hsign (by decide)

theorem IgnoresCase.allSpared : AllSpared env A := fun _ _ ha hb =>
  ⟨hI.length hchar ha hb, hI.first hchar ha hb⟩

/-- Where a `char` is negative, an ASCII character and another one would each be the greater. -/
theorem IgnoresCase.not_mixed (hsigned : env.signed = true) {a b : UInt32} (ha : A a) (hb : A b)
    (hsmall : a < 0x80) (hlarge : 0x80 ≤ b) : False := by
  obtain ⟨hpair, hpair'⟩ : WalkPair env a b ∧ WalkPair env b a :=
    ⟨(hI.allSpared hchar a b ha hb).walkPair (hchar a ha).2 (hchar b hb).2,
      (hI.allSpared hchar b a hb ha).walkPair (hchar b hb).2 (hchar a ha).2⟩
  have hne := (hpair hsmall hlarge).1
  have h := spells_char (hchar a ha)
  have h' := spells_char (hchar b hb)
  obtain ⟨x, y, hx, hy, hsign⟩ := hI.sign _ _ _ _ h h' (List.forall_mem_singleton.mpr ha)
    (List.forall_mem_singleton.mpr hb)
  rw [compareIgnoreCase_chars h h' hpair hne] at hx
  rw [compareIgnoreCase_chars h' h hpair' hne.symm] at hy
  obtain rfl := Option.some.inj hx
  obtain rfl := Option.some.inj hy
  obtain ⟨hlead, -⟩ := utf8_of_le (hchar b hb).2 hlarge
  have hbyte := (lead b).toNat_lt
  have hle := toNat_le_of_valid (hchar b hb).2
  have hlt : a.toNat < 0x80 := hsmall
  have hge : 0x80 ≤ b.toNat := hlarge
  have hpos : 0 < charDifference env a b := by
    rw [charDifference, if_pos hsmall, charInt_lead hsmall, charInt, if_pos ⟨hsigned, by omega⟩]
    omega
  have hpos' : 0 < charDifference env b a := by
    rw [charDifference, if_neg (UInt32.not_lt.mpr hlarge), int32_eq (by omega) (by omega)]
    omega
  rw [Int.sign_eq_one_of_pos hpos, Int.sign_eq_one_of_pos hpos'] at hsign
  exact absurd hsign (by decide)

theorem IgnoresCase.sign_cases (hsigned : env.signed = true) :
    (∀ a, A a → a < 0x80) ∨ ∀ a, A a → 0x80 ≤ a := by
  by_contra hmixed
  rw [not_or, not_forall, not_forall] at hmixed
  obtain ⟨⟨b, hb⟩, ⟨a, ha⟩⟩ := hmixed
  rw [Classical.not_imp] at ha hb
  exact hI.not_mixed hchar hsigned ha.1 hb.1 (UInt32.not_le.mp ha.2) (UInt32.not_lt.mp hb.2)

/-- What is less in the middle of the order is less. -/
theorem IgnoresCase.order {a a' b b' : UInt32} (ha : A a) (ha' : A a') (hb : A b) (hb' : A b')
    (heq : toUpper env a = toUpper env a') (heq' : toUpper env b = toUpper env b')
    (hne : toUpper env a ≠ toUpper env b) (hlt : a < b) : a' < b' := by
  have hspells {c : UInt32} (hc : A c) := spells_char (hchar c hc)
  have hover {c : UInt32} (hc : A c) : ∀ x ∈ [c], A x := List.forall_mem_singleton.mpr hc
  have hpair {c d : UInt32} (hc : A c) (hd : A d) : WalkPair env c d :=
    (hI.allSpared hchar c d hc hd).walkPair (hchar c hc).2 (hchar d hd).2
  have hneg {c d : UInt32} (hc : A c) (hd : A d) : charDifference env c d < 0 ↔ c < d := by
    refine charDifference_neg_iff (hchar c hc).2 (hchar d hd).2 fun hsigned => ?_
    rcases hI.sign_cases hchar hsigned with hall | hall
    · exact iff_of_true (hall c hc) (hall d hd)
    · exact iff_of_false (UInt32.not_lt.mpr (hall c hc)) (UInt32.not_lt.mpr (hall d hd))
  have hne' : toUpper env a' ≠ toUpper env b' := by rwa [← heq, ← heq']
  have hmiddle : toUpper env a' ≠ toUpper env b := by rwa [← heq]
  -- `a'` is not greater than `a`, which is less than `b`, which is not greater than `b'`
  obtain ⟨x, hx, hzero⟩ := hI.zero _ _ _ _ (hspells ha') (hspells ha) (hover ha') (hover ha)
  obtain ⟨y, hy, hzero'⟩ := hI.zero _ _ _ _ (hspells hb) (hspells hb') (hover hb) (hover hb')
  obtain rfl := hzero.mpr (congrArg (fun x => [x]) heq.symm)
  obtain rfl := hzero'.mpr (congrArg (fun x => [x]) heq')
  obtain ⟨r, r', r'', hr, hr', hr'', htrans⟩ := hI.transitive _ _ _ _ _ _ (hspells ha')
    (hspells ha) (hspells hb) (hover ha') (hover ha) (hover hb)
  obtain ⟨q, q', q'', hq, hq', hq'', htrans'⟩ := hI.transitive _ _ _ _ _ _ (hspells ha')
    (hspells hb) (hspells hb') (hover ha') (hover hb) (hover hb')
  obtain rfl := Option.some.inj (hr.symm.trans hx)
  obtain rfl := Option.some.inj (hq'.symm.trans hy)
  obtain rfl := Option.some.inj (hq.symm.trans hr'')
  rw [compareIgnoreCase_chars (hspells ha) (hspells hb) (hpair ha hb) hne] at hr'
  rw [compareIgnoreCase_chars (hspells ha') (hspells hb') (hpair ha' hb') hne'] at hq''
  obtain rfl := Option.some.inj hr'
  obtain rfl := Option.some.inj hq''
  have hle := htrans' (htrans le_rfl ((hneg ha hb).mpr hlt).le) le_rfl
  have hnonzero : charDifference env a' b' ≠ 0 :=
    charDifference_ne_zero (hchar a' ha').2 (hchar b' hb').2 fun h => hne' (congrArg _ h)
  exact (hneg ha' hb').mp (by omega)

/-- A text that took the bytes of a string from the middle of a character on would be an end. -/
theorem IgnoresCase.tail {a : UInt32} (ha : A a) {j : ℕ} (hpos : 0 < j) {es ws : List UInt32}
    (hne : es ≠ []) (hesA : ∀ e ∈ es, A e) (hwsA : ∀ w ∈ ws, A w)
    (hes : es.map (toUpper env) <+: (sixBits ((utf8 a).drop j)).map (toUpper env)) :
    (es.flatMap utf8).length ≠ ((utf8 a).drop j).length + (ws.flatMap utf8).length := by
  intro hbytes
  have hA := hI.allSpared hchar
  have hcsA : ∀ c ∈ a :: ws, A c := List.forall_mem_cons.mpr ⟨ha, hwsA⟩
  have htext : IsText (a :: ws) := fun c hc => hchar c (hcsA c hc)
  have htext' : IsText es := fun e he => hchar e (hesA e he)
  have hlength := hes.length_le
  rw [List.length_map, List.length_map, sixBits, List.length_map, List.length_drop,
    length_utf8] at hlength
  have hj : j < GetByteCount a := by
    have hpos := List.length_pos_iff.mpr hne
    omega
  have hlength' : ((utf8 a).drop j).length = GetByteCount a - j := by
    rw [List.length_drop, length_utf8]
  have hwhole : ((a :: ws).flatMap utf8).length = GetByteCount a + (ws.flatMap utf8).length := by
    rw [List.flatMap_cons, List.length_append, length_utf8]
  have hcount := getByteCount_le_four a
  have hle := length_flatMap_le es
  have hlt := htext.length_lt
  rw [List.length_append, List.length_singleton] at hlt
  have h := spells_text htext (by omega)
  have h' := spells_text htext' (by omega)
  have hrest : (cstr (a :: ws)).drop (((a :: ws).flatMap utf8).length - (es.flatMap utf8).length) =
      (utf8 a).drop j ++ cstr ws := by
    have hplace : ((a :: ws).flatMap utf8).length - (es.flatMap utf8).length = j := by omega
    rw [hplace, cstr_cons, List.drop_append_of_le_length (by rw [length_utf8]; omega)]
  obtain ⟨x, hx, hiff⟩ := hA.endWithIgnoreCase h h' hesA (List.cons_ne_nil a ws)
    (fun w hw => htext w (List.mem_cons_of_mem _ hw)) hwsA (tail_range (hchar a ha).2 hpos hj)
    (by omega) hrest
  obtain rfl := hiff.mpr ⟨es, [], (List.append_nil es).symm, hes, .inl rfl⟩
  obtain ⟨y, hy, hiff'⟩ := hI.ending _ _ _ _ h h' hcsA hesA
  obtain rfl := Option.some.inj (hx.symm.trans hy)
  obtain ⟨ps, hps, heq⟩ := hiff'.mp rfl
  obtain ⟨k, -, hplace, -⟩ := (hA.suffix_iff hcsA hesA).mp
    (List.suffix_map_iff.mpr ⟨ps, hps, heq.symm⟩)
  have hinside : charOffset (a :: ws) k ≠ charOffset (a :: ws) 0 + j :=
    charOffset_ne (Nat.succ_pos _) hpos hj
  have hzero : charOffset (a :: ws) 0 = 0 := rfl
  omega

end Needed

/-- **All is right over an alphabet** if and only if its order, lengths and bytes go together with
upper case. -/
theorem ignoresCase_iff (env : Platform) (A : UInt32 → Prop)
    (hchar : ∀ a, A a → a ≠ 0 ∧ IsValidChar a = true) : IgnoresCase env A ↔ FoldsWell env A := by
  constructor
  · intro hI
    refine ⟨?_, hI.allSpared hchar, hI.sign_cases hchar, ?_⟩
    · intro a a' b b' ha ha' hb hb' heq heq' hne hlt
      exact hI.order hchar ha ha' hb hb' heq heq' hne hlt
    · intro a ha j hpos es ws hne hesA hwsA hes
      exact hI.tail hchar ha hpos hne hesA hwsA hes
  · exact FoldsWell.ignoresCase

/-- No text is in upper case what is read from the middle of a character, if no character is what
one of the bytes is read as. -/
theorem tail_of_forall
    (h : ∀ a b, A a → A b → ∀ x ∈ (utf8 a).tail, toUpper env (x &&& 0x3F).toUInt32 ≠ toUpper env b)
    {a : UInt32} (ha : A a) {j : ℕ} (hpos : 0 < j) {es : List UInt32} (hne : es ≠ [])
    (hesA : ∀ e ∈ es, A e) :
    ¬es.map (toUpper env) <+: (sixBits ((utf8 a).drop j)).map (toUpper env) := by
  intro hes
  obtain ⟨e, es, rfl⟩ := List.exists_cons_of_ne_nil hne
  have hmem := hes.subset List.mem_cons_self
  rw [sixBits, List.map_map, List.mem_map] at hmem
  obtain ⟨x, hx, heq⟩ := hmem
  obtain ⟨i, rfl⟩ := Nat.exists_eq_add_of_lt hpos
  rw [Nat.zero_add, Nat.add_comm, ← List.drop_drop, List.drop_one] at hx
  exact h a e ha (hesA e List.mem_cons_self) x (List.mem_of_mem_drop hx) heq

/-- `'A'`, `'a'` and `'é'`, where a `char` is not negative. -/
theorem ignoresCase_three :
    IgnoresCase ⟨false, fun b => b = 32, id, id⟩ fun c => c = 0x41 ∨ c = 0x61 ∨ c = 0xE9 := by
  refine (ignoresCase_iff _ _ ?_).mpr ⟨?_, ?_, nofun, ?_⟩
  · rintro a (rfl | rfl | rfl) <;> decide
  · rintro a a' b b' (rfl | rfl | rfl) (rfl | rfl | rfl) (rfl | rfl | rfl) (rfl | rfl | rfl) <;>
      decide
  · rintro a b (rfl | rfl | rfl) (rfl | rfl | rfl) <;> decide
  · intro a ha j hpos es ws hne hesA hwsA hes
    refine absurd hes (tail_of_forall (fun a b ha hb x hx => ?_) ha hpos hne hesA)
    have hall : ((utf8 a).tail.all fun x =>
        toUpper ⟨false, fun b => b = 32, id, id⟩ (x &&& 0x3F).toUInt32 ≠
          toUpper ⟨false, fun b => b = 32, id, id⟩ b) = true := by
      rcases ha with rfl | rfl | rfl <;> rcases hb with rfl | rfl | rfl <;> decide
    exact of_decide_eq_true (List.all_eq_true.mp hall x hx)

/-- `"a"` is less than `"b"`, which is the same as `"B"`, which is less than `"a"`. -/
theorem not_transitive_letters :
    CompareIgnoreCase ⟨true, fun b => b = 32, id, id⟩ (spelled [0x62]).mString (spelled [0x61]) =
        some (-1) ∧
      CompareIgnoreCase ⟨true, fun b => b = 32, id, id⟩ (spelled [0x42]).mString
        (spelled [0x62]) = some 0 ∧
      CompareIgnoreCase ⟨true, fun b => b = 32, id, id⟩ (spelled [0x42]).mString
        (spelled [0x61]) = some 31 ∧
      ¬IgnoresCase ⟨true, fun b => b = 32, id, id⟩ fun c => c ≠ 0 ∧ IsValidChar c = true := by
  have hless : CompareIgnoreCase ⟨true, fun b => b = 32, id, id⟩ (spelled [0x62]).mString
      (spelled [0x61]) = some (-1) := by decide
  have hsame : CompareIgnoreCase ⟨true, fun b => b = 32, id, id⟩ (spelled [0x42]).mString
      (spelled [0x62]) = some 0 := by decide
  have hgreater : CompareIgnoreCase ⟨true, fun b => b = 32, id, id⟩ (spelled [0x42]).mString
      (spelled [0x61]) = some 31 := by decide
  refine ⟨hless, hsame, hgreater, fun hI => ?_⟩
  obtain ⟨r, r', r'', hr, hr', hr'', htrans⟩ := hI.transitive _ _ _ [0x61] [0x62] [0x42]
    (spells_spelled _ (by decide) (by decide)) (spells_spelled _ (by decide) (by decide))
    (spells_spelled _ (by decide) (by decide)) (List.forall_mem_singleton.mpr (by decide))
    (List.forall_mem_singleton.mpr (by decide)) (List.forall_mem_singleton.mpr (by decide))
  obtain rfl := Option.some.inj (hr.symm.trans hless)
  obtain rfl := Option.some.inj (hr'.symm.trans hsame)
  obtain rfl := Option.some.inj (hr''.symm.trans hgreater)
  exact absurd (htrans (by decide) le_rfl) (by decide)

end ElastosCar.ElString
