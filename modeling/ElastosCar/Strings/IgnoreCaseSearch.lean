import ElastosCar.Strings.ForwardSearch

/-!
# Case-insensitive searches from a start

`InsensitiveIndexOf` compares characters that `ToUpperCase` may change, and yet goes on in both
strings by the length of the character of one of them; a byte of the string that is ASCII is
compared with a byte of the other string, whether that is a character or not; and behind a
comparison that fails, the loop goes on by the length of the character that was read last.

* `insensitiveIndexOf_isFirst`: it always ends, without an access outside the two strings, and finds
  the first place where the comparisons meet none of this (`SparedFrom`).
-/

namespace ElastosCar.ElString

open Search

/-! ### The parts of the loop -/

section Parts

variable (env : Platform) (string subString : List UInt8)

/-- Two `char`s, as they are or in upper case. -/
def eqCharIgnoreCase (b b' : UInt8) : Bool :=
  eqIgnoreCase env (ofChar env.signed b) (ofChar env.signed b')

/-- A pass of the first loop of `InsensitiveIndexOf`. -/
def insensitiveLook (i : ℕ) : Option Look := do
  let b ← byteAt string i
  if IsASCII b then
    if string.length + 1 ≤ i + 1 then return .returns
    else
      let b' ← byteAt subString 0
      return .char (eqCharIgnoreCase env b b') 1 1
  else
    let (ch1, charlen1) ← charAt env.signed string i
    if charlen1 = 0 ∨ string.length + 1 ≤ i + charlen1 then return .returns
    else
      let (ch2, charlen2) ← charAt env.signed subString 0
      if charlen2 = 0 ∨ subString.length < charlen2 then return .returns
      else return .char (eqIgnoreCase env ch1 ch2) charlen1 charlen1

/-- `for (o1 = i, o2 = 0; o2 < subByteLength;)`, which leaves `o2` and `charlen1` behind. -/
def matchIgnoreCase : ℕ → ℕ → ℕ → ℕ → Option (Option (ℕ × ℕ))
  | 0, _, _, _ => none
  | n + 1, o1, o2, charlen1 =>
    if o2 < subString.length then do
      let b ← byteAt string o1
      if IsASCII b then
        if string.length + 1 ≤ o1 + 1 then return some (o2, charlen1)
        else
          let b' ← byteAt subString o2
          if eqCharIgnoreCase env b b' then matchIgnoreCase n (o1 + 1) (o2 + 1) charlen1
          else return some (o2, charlen1)
      else
        let (ch1, charlen1) ← charAt env.signed string o1
        if charlen1 = 0 ∨ string.length + 1 ≤ o1 + charlen1 then return none
        else
          let (ch2, charlen2) ← charAt env.signed subString o2
          if charlen2 = 0 ∨ subString.length < o2 + charlen2 then return none
          -- both go on by the length of the character of the string
          else if eqIgnoreCase env ch1 ch2 then
            matchIgnoreCase n (o1 + charlen1) (o2 + charlen1) charlen1
          else return some (o2, charlen1)
    else return some (o2, charlen1)

def insensitiveRest (i charlen1 : ℕ) : Option (Option (ℕ × ℕ)) :=
  matchIgnoreCase env string subString (subString.length + 1) i 0 charlen1

end Parts

/-- `InsensitiveIndexOf`. -/
def InsensitiveIndexOf (env : Platform) (string subString : Option (List UInt8)) (startChar : ℤ) :
    Option ℤ :=
  match string, subString with
  | some string, some subString =>
    if subString.headD 0 = 0 then some 0
    else
      let string := string.takeWhile (· ≠ 0)
      let subString := subString.takeWhile (· ≠ 0)
      let startChar := max 0 startChar
      if string.length < subString.length then some (-1)
      else indexFrom (insensitiveLook env string subString) (insensitiveRest env string subString)
        string subString startChar.toNat
  | _, _ => some (-1)

variable {env : Platform} {cs ds : List UInt32}

/-! ### The loop ends -/

theorem looks_insensitiveLook (hcs : IsText cs) (hds : IsText ds) (hne : ds ≠ []) :
    Looks (insensitiveLook env (cs.flatMap utf8) (ds.flatMap utf8)) (cs.flatMap utf8).length := by
  intro i hi
  have hpos : 0 < (ds.flatMap utf8).length :=
    hds.charOffset_lt (List.length_pos_iff.mpr hne)
  obtain ⟨ch1, m, hread, hm, -⟩ := hcs.charAt_inside env.signed hi
  obtain ⟨ch2, m', hread', -, -⟩ := hds.charAt_inside env.signed hpos
  rw [insensitiveLook, byteAt_of_lt hi, byteAt_of_lt hpos, hread, hread']
  simp only [Option.bind_eq_bind, Option.bind_some]
  split_ifs
  · exact ⟨_, rfl, nofun⟩
  · refine ⟨_, rfl, fun found j n h => ?_⟩
    obtain ⟨-, -, rfl⟩ := Look.char.inj h
    exact le_rfl
  · exact ⟨_, rfl, nofun⟩
  · exact ⟨_, rfl, nofun⟩
  · refine ⟨_, rfl, fun found j n h => ?_⟩
    obtain ⟨-, -, rfl⟩ := Look.char.inj h
    exact hm

/-- The comparison stays within the two strings, wherever it begins. -/
theorem matchIgnoreCase_ends (hcs : IsText cs) (hds : IsText ds) {n : ℕ} :
    ∀ o1 o2 m, o1 ≤ (cs.flatMap utf8).length → (ds.flatMap utf8).length - o2 < n → 1 ≤ m →
      ∃ o, matchIgnoreCase env (cs.flatMap utf8) (ds.flatMap utf8) n o1 o2 m = some o ∧
        ∀ o2' m', o = some (o2', m') → 1 ≤ m' := by
  induction n with
  | zero => exact fun _ _ _ _ hn => absurd hn (Nat.not_lt_zero _)
  | succ n ih =>
    intro o1 o2 m ho1 hn hm
    have hlast : ∀ o2 m : ℕ, 1 ≤ m → ∃ o, some (some (o2, m)) = some o ∧
        ∀ o2' m', o = some (o2', m') → 1 ≤ m' := by
      intro o2 m hm
      refine ⟨_, rfl, fun o2' m' h => ?_⟩
      obtain ⟨-, rfl⟩ := Prod.mk.inj (Option.some.inj h)
      exact hm
    rw [matchIgnoreCase]
    by_cases ho2 : o2 < (ds.flatMap utf8).length
    · rw [if_pos ho2]
      rcases Nat.lt_or_ge o1 (cs.flatMap utf8).length with hlt | hge
      · obtain ⟨ch1, m1, hread, hm1, hle⟩ := hcs.charAt_inside env.signed hlt
        obtain ⟨ch2, m2, hread', -, -⟩ := hds.charAt_inside env.signed ho2
        rw [byteAt_of_lt hlt, byteAt_of_lt ho2, hread, hread']
        simp only [Option.bind_eq_bind, Option.bind_some]
        split_ifs
        · exact hlast o2 m hm
        · exact ih (o1 + 1) (o2 + 1) m hlt (by omega) hm
        · exact hlast o2 m hm
        · exact ⟨none, rfl, nofun⟩
        · exact ⟨none, rfl, nofun⟩
        · exact ih (o1 + m1) (o2 + m1) m1 hle (by omega) hm1
        · exact hlast o2 m1 hm1
      · obtain rfl : o1 = (cs.flatMap utf8).length := by omega
        rw [byteAt_length, Option.bind_eq_bind, Option.bind_some, if_pos (by decide),
          if_pos le_rfl]
        exact hlast o2 m hm
    · rw [if_neg ho2]
      exact hlast o2 m hm

theorem rests_insensitiveRest (env : Platform) (hcs : IsText cs) (hds : IsText ds) :
    Rests (insensitiveRest env (cs.flatMap utf8) (ds.flatMap utf8)) (cs.flatMap utf8).length :=
  fun i hi n hn => matchIgnoreCase_ends hcs hds i 0 n hi.le (by omega) hn

/-! ### Where nothing drifts -/

/-- Characters that are equal in upper case have one length, and a character of one byte is not
taken for the first byte of a longer one. -/
structure SparedPair (env : Platform) (c d : UInt32) : Prop where
  length : toUpper env c = toUpper env d → GetByteCount c = GetByteCount d
  first : c < 0x80 → 0x80 ≤ d → toUpper env c ≠ toUpper env (ofChar env.signed (lead d))

instance (env : Platform) (c d : UInt32) : Decidable (SparedPair env c d) :=
  decidable_of_iff ((toUpper env c = toUpper env d → GetByteCount c = GetByteCount d) ∧
    (c < 0x80 → 0x80 ≤ d → toUpper env c ≠ toUpper env (ofChar env.signed (lead d))))
    ⟨fun h => ⟨h.1, h.2⟩, fun h => ⟨h.length, h.first⟩⟩

/-- The comparison of two strings, where `charlen1` has the value `n`, compares spared pairs, and
leaves the value `n₀` in it where it fails. -/
def SparedFrom (env : Platform) (n₀ : ℕ) : ℕ → List UInt32 → List UInt32 → Prop
  | _, _, [] => True
  | n, [], _ :: _ => n = n₀
  | n, c :: cs, d :: ds =>
    let n' := if c < 0x80 then n else GetByteCount c
    SparedPair env c d ∧
      if toUpper env c = toUpper env d then SparedFrom env n₀ n' cs ds else n' = n₀

instance decidableSparedFrom (env : Platform) (n₀ : ℕ) :
    ∀ n cs ds, Decidable (SparedFrom env n₀ n cs ds)
  | _, _, [] => isTrue (by rw [SparedFrom]; trivial)
  | n, [], _ :: _ => decidable_of_iff (n = n₀) (by rw [SparedFrom])
  | n, c :: cs, d :: ds =>
    let n' := if c < 0x80 then n else GetByteCount c
    have := decidableSparedFrom env n₀ n' cs ds
    decidable_of_iff (SparedPair env c d ∧
      if toUpper env c = toUpper env d then SparedFrom env n₀ n' cs ds else n' = n₀)
      (by rw [SparedFrom])

/-- Each comparison before the first place is spared, and leaves the length of the character that it
began with. -/
def SearchSpared (env : Platform) (cs ds : List UInt32) (start : ℕ) : Prop :=
  ∀ k (hk : k < cs.length), start ≤ k → NoneBefore (OccursAt (toUpper env) cs ds) start k →
    SparedFrom env (GetByteCount cs[k]) (GetByteCount cs[k]) (cs.drop k) ds

/-- What is equal then has as many bytes. -/
theorem SparedFrom.length_le {n₀ n : ℕ} (h : SparedFrom env n₀ n cs ds)
    (heq : ds.map (toUpper env) <+: cs.map (toUpper env)) :
    (ds.flatMap utf8).length ≤ (cs.flatMap utf8).length := by
  induction ds generalizing n cs with
  | nil => exact Nat.zero_le _
  | cons d ds ih =>
    cases cs with
    | nil => exact absurd (List.prefix_nil.mp heq) (List.cons_ne_nil _ _)
    | cons c cs =>
      rw [List.map_cons, List.map_cons, List.cons_prefix_cons] at heq
      obtain ⟨hpair, hrest⟩ := h
      rw [if_pos heq.1.symm] at hrest
      have hle := ih hrest heq.2
      have hcount := hpair.length heq.1.symm
      rw [List.flatMap_cons, List.flatMap_cons, List.length_append, List.length_append, length_utf8,
        length_utf8, hcount]
      omega

/-- A `char` of a character of one byte is the character. -/
theorem ofChar_lead {c : UInt32} (h : c < 0x80) (signed : Bool) : ofChar signed (lead c) = c := by
  obtain ⟨hbytes, hchar⟩ := utf8_of_lt h
  have hlead : lead c = c.toUInt8 := by
    rw [lead, hbytes]
    rfl
  have hsmall : ¬(0x80 ≤ c.toUInt8) := by
    rw [UInt8.not_le]
    have hlt : c.toNat < 0x80 := h
    change c.toUInt8.toNat < 0x80
    rw [UInt32.toNat_toUInt8]
    omega
  rw [hlead, ofChar, if_neg (by simp [hsmall]), hchar]

/-- A spared pair is compared as its characters are. -/
theorem SparedPair.eqCharIgnoreCase_iff {c d : UInt32} (h : SparedPair env c d) (hc : c < 0x80)
    (hc' : IsValidChar c = true) (hd : IsValidChar d = true) :
    eqCharIgnoreCase env (lead c) (lead d) = true ↔ toUpper env c = toUpper env d := by
  rw [eqCharIgnoreCase, eqIgnoreCase_iff, ofChar_lead hc]
  by_cases hsmall : d < 0x80
  · rw [ofChar_lead hsmall]
  · refine iff_of_false (h.first hc (UInt32.not_lt.mp hsmall)) fun heq => hsmall ?_
    rw [← getByteCount_eq_one_iff hd, ← h.length heq, getByteCount_eq_one_iff hc']
    exact hc

/-- **The comparison** at two characters, where it is spared. -/
theorem matchIgnoreCase_spec (hcs : IsText cs) (hds : IsText ds) {n₀ n : ℕ} :
    ∀ k j m, k ≤ cs.length → j ≤ ds.length → SparedFrom env n₀ m (cs.drop k) (ds.drop j) → ∀ o,
      matchIgnoreCase env (cs.flatMap utf8) (ds.flatMap utf8) n (charOffset cs k)
        (charOffset ds j) m = some o →
      ∃ o2 m', o = some (o2, m') ∧
        (o2 = (ds.flatMap utf8).length ↔
          (ds.drop j).map (toUpper env) <+: (cs.drop k).map (toUpper env)) ∧
        (o2 ≠ (ds.flatMap utf8).length → m' = n₀) := by
  induction n with
  | zero => exact fun _ _ _ _ _ _ _ ho => absurd ho nofun
  | succ n ih =>
    intro k j m hk hj hspared o ho
    rw [matchIgnoreCase] at ho
    rcases Nat.eq_or_lt_of_le hj with rfl | hj
    · rw [← length_chars, if_neg (lt_irrefl _)] at ho
      obtain rfl := Option.some.inj ho
      rw [List.drop_length]
      exact ⟨_, m, rfl, iff_of_true rfl List.nil_prefix, fun hne => absurd rfl hne⟩
    have hlt := hds.charOffset_lt hj
    rw [if_pos hlt] at ho
    rw [List.drop_eq_getElem_cons hj] at hspared ⊢
    rcases Nat.eq_or_lt_of_le hk with rfl | hk
    · -- the terminator
      rw [← length_chars, byteAt_length, Option.bind_eq_bind, Option.bind_some,
        if_pos (by decide), if_pos le_rfl] at ho
      obtain rfl := Option.some.inj ho
      rw [List.drop_length] at hspared ⊢
      refine ⟨_, m, rfl, iff_of_false hlt.ne fun h => ?_, fun _ => hspared⟩
      exact absurd (List.prefix_nil.mp h) (List.cons_ne_nil _ _)
    obtain ⟨-, hvalid⟩ := hcs.getElem hk
    obtain ⟨-, hvalid'⟩ := hds.getElem hj
    have hle := charOffset_add_le hk
    have hle' := charOffset_add_le hj
    have hpos := (pos_GetByteCount_iff cs[k]).mpr hvalid
    have hpos' := (pos_GetByteCount_iff ds[j]).mpr hvalid'
    rw [List.drop_eq_getElem_cons hk] at hspared ⊢
    obtain ⟨hpair, hrest⟩ := hspared
    rw [List.map_cons, List.map_cons, List.cons_prefix_cons]
    -- a failure leaves what the condition says
    have hfails : ∀ m', ¬toUpper env cs[k] = toUpper env ds[j] → m' = n₀ →
        o = some (charOffset ds j, m') → ∃ o2 m', o = some (o2, m') ∧
          (o2 = (ds.flatMap utf8).length ↔ toUpper env ds[j] = toUpper env cs[k] ∧
            (ds.drop (j + 1)).map (toUpper env) <+: (cs.drop (k + 1)).map (toUpper env)) ∧
          (o2 ≠ (ds.flatMap utf8).length → m' = n₀) := fun m' hne hm ho =>
      ⟨_, m', ho, iff_of_false hlt.ne fun h => hne h.1.symm, fun _ => hm⟩
    rw [hcs.byteAt hk, Option.bind_eq_bind, Option.bind_some] at ho
    by_cases hascii : cs[k] < 0x80
    · have hcount := (getByteCount_eq_one_iff hvalid).mpr hascii
      rw [if_pos ((isASCII_lead_iff hvalid).mpr hascii), if_neg (by omega), hds.byteAt hj,
        Option.bind_some] at ho
      rw [if_pos hascii] at hrest
      by_cases heq : toUpper env cs[k] = toUpper env ds[j]
      · have hcount' := (hpair.length heq).symm.trans hcount
        rw [if_pos heq] at hrest
        rw [if_pos ((hpair.eqCharIgnoreCase_iff hascii hvalid hvalid').mpr heq)] at ho
        have hnext := ih (k + 1) (j + 1) m hk hj hrest o
        rw [charOffset_succ hk, charOffset_succ hj, hcount, hcount'] at hnext
        rw [and_iff_right heq.symm]
        exact hnext ho
      · rw [if_neg heq] at hrest
        rw [if_neg fun h => heq ((hpair.eqCharIgnoreCase_iff hascii hvalid hvalid').mp h)] at ho
        exact hfails m heq hrest (Option.some.inj ho).symm
    · rw [if_neg fun h => hascii ((isASCII_lead_iff hvalid).mp h), hcs.charAt env.signed hk,
        hds.charAt env.signed hj] at ho
      simp only [Option.bind_eq_bind, Option.bind_some] at ho
      rw [if_neg (by omega), if_neg (by omega)] at ho
      rw [if_neg hascii] at hrest
      by_cases heq : toUpper env cs[k] = toUpper env ds[j]
      · rw [if_pos heq] at hrest
        rw [if_pos ((eqIgnoreCase_iff env _ _).mpr heq)] at ho
        have hnext := ih (k + 1) (j + 1) _ hk hj hrest o
        rw [charOffset_succ hk, charOffset_succ hj, ← hpair.length heq] at hnext
        rw [and_iff_right heq.symm]
        exact hnext ho
      · rw [if_neg heq] at hrest
        rw [if_neg fun h => heq ((eqIgnoreCase_iff env _ _).mp h)] at ho
        exact hfails _ heq hrest (Option.some.inj ho).symm

/-- The first loop compares the first characters. -/
theorem insensitiveLook_spec {d : UInt32} {es : List UInt32} (hcs : IsText cs)
    (hds : IsText (d :: es)) {k : ℕ} (hk : k < cs.length) (hpair : SparedPair env cs[k] d) :
    insensitiveLook env (cs.flatMap utf8) ((d :: es).flatMap utf8) (charOffset cs k) =
      some (.char (toUpper env cs[k] = toUpper env d) (GetByteCount cs[k])
        (GetByteCount cs[k])) := by
  obtain ⟨-, hvalid⟩ := hcs.getElem hk
  obtain ⟨-, hvalid'⟩ := hds d List.mem_cons_self
  have hfirst : 0 < (d :: es).length := Nat.succ_pos _
  have hbyte : byteAt ((d :: es).flatMap utf8) 0 = some (lead d) := hds.byteAt hfirst
  have hread : charAt env.signed ((d :: es).flatMap utf8) 0 = some (d, GetByteCount d) :=
    hds.charAt env.signed hfirst
  have hle := charOffset_add_le hk
  have hle' : 0 + GetByteCount d ≤ ((d :: es).flatMap utf8).length := charOffset_add_le hfirst
  have hpos := (pos_GetByteCount_iff cs[k]).mpr hvalid
  have hpos' := (pos_GetByteCount_iff d).mpr hvalid'
  rw [insensitiveLook, hcs.byteAt hk, hbyte, hcs.charAt env.signed hk, hread]
  simp only [Option.bind_eq_bind, Option.bind_some]
  by_cases hascii : cs[k] < 0x80
  · have hcount := (getByteCount_eq_one_iff hvalid).mpr hascii
    have hiff := hpair.eqCharIgnoreCase_iff hascii hvalid hvalid'
    rw [if_pos ((isASCII_lead_iff hvalid).mpr hascii), if_neg (by omega), hcount,
      Bool.eq_iff_iff.mpr (hiff.trans decide_eq_true_iff.symm)]
    rfl
  · have hiff := eqIgnoreCase_iff env cs[k] d
    rw [if_neg fun h => hascii ((isASCII_lead_iff hvalid).mp h), if_neg (by omega),
      if_neg (by omega), Bool.eq_iff_iff.mpr (hiff.trans decide_eq_true_iff.symm)]
    rfl

/-- The parts of `InsensitiveIndexOf` tell where the characters occur, if they are spared. -/
theorem insensitive_tells (hcs : IsText cs) (hds : IsText ds) (hne : ds ≠ []) {k : ℕ}
    (hk : k < cs.length)
    (hspared : SparedFrom env (GetByteCount cs[k]) (GetByteCount cs[k]) (cs.drop k) ds) :
    Tells (insensitiveLook env (cs.flatMap utf8) (ds.flatMap utf8))
      (insensitiveRest env (cs.flatMap utf8) (ds.flatMap utf8)) cs (ds.flatMap utf8).length
      (OccursAt (toUpper env) cs ds) k hk := by
  obtain ⟨d, es, rfl⟩ := List.exists_cons_of_ne_nil hne
  have hspared' := hspared
  rw [List.drop_eq_getElem_cons hk] at hspared'
  obtain ⟨hpair, -⟩ := hspared'
  have hlook := insensitiveLook_spec hcs hds hk hpair
  have hocc : OccursAt (toUpper env) cs (d :: es) k ↔ _ := occursAt_cons_iff hk
  refine ⟨⟨_, _, hlook, fun hnot hP => ?_, fun hyes hend => ?_⟩,
    fun found j hlook' hyes hj => ?_, fun hP => ?_⟩
  · exact of_decide_eq_false hnot (hocc.mp hP).1
  · -- the other string has a single character
    have heq := of_decide_eq_true hyes
    have hnil : es.flatMap utf8 = [] := by
      rw [List.flatMap_cons, List.length_append, length_utf8, ← hpair.length heq] at hend
      exact List.eq_nil_of_length_eq_zero (by omega)
    have hes : es = [] := by
      by_contra hes
      obtain ⟨e, es, rfl⟩ := List.exists_cons_of_ne_nil hes
      rw [List.flatMap_cons] at hnil
      have he := (hds e (List.mem_cons_of_mem _ List.mem_cons_self)).2
      exact utf8_ne_nil he (List.append_eq_nil_iff.mp hnil).1
    rw [hocc, hes]
    exact ⟨heq, List.nil_prefix⟩
  · obtain ⟨rfl, rfl, -⟩ := Look.char.inj (Option.some.inj (hlook'.symm.trans hlook))
    obtain ⟨o, ho, -⟩ := rests_insensitiveRest env hcs hds (charOffset cs k)
      (hcs.charOffset_lt hk) (GetByteCount cs[k])
      ((pos_GetByteCount_iff _).mpr (hcs.getElem hk).2)
    obtain ⟨o2, m', rfl, hiff, hsame⟩ :=
      matchIgnoreCase_spec hcs hds k 0 _ hk.le (Nat.zero_le _) hspared o ho
    exact ⟨o2, m', ho, hiff, fun hnot => hsame fun h => hnot (hiff.mp h)⟩
  · have hle := hspared.length_le hP
    have hdrop := Code.drop_offset utf8 cs [] k
    rw [List.append_nil, List.append_nil] at hdrop
    have hsum : charOffset cs k + ((cs.drop k).flatMap utf8).length = (cs.flatMap utf8).length := by
      rw [← hdrop, List.length_drop]
      exact Nat.add_sub_cancel' (Code.offset_le utf8 cs k)
    omega

end ElastosCar.ElString
