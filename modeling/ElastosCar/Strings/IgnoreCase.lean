import ElastosCar.Base.HashKey
import ElastosCar.Strings.IgnoreCaseSearch

/-!
# Comparisons that ignore the case

`CompareIgnoreCase` and `InsensitiveStartWith` are two copies of one loop (`walk`) over two C
strings, up to the first two characters that differ in upper case or to the end of one of them. An
ASCII character of the first string is compared with a byte of the second, whatever that belongs to.

* `walk_spec`: where no byte is taken for a character, the loop compares the characters.
* `compare_walkChars_eq_zero_iff`: so the comparison tells whether they are the same in upper case.
-/

namespace ElastosCar.ElString

/-! ### The loop -/

/-- How the loop ends: with what `CompareIgnoreCase` returns of two characters, or with the two
pointers. -/
inductive Walked where
  | differs (result : ℤ)
  | ended (p1 p2 : List UInt8)
deriving DecidableEq

/-- `return *p1 - *p2` at the end. -/
def Walked.compare (env : Platform) : Walked → Option ℤ
  | .differs result => some result
  | .ended p1 p2 => do
    let b ← p1.head?
    let b' ← p2.head?
    return charInt env.signed b - charInt env.signed b'

section Functions

variable (env : Platform)

/-- `while (p1 < p1End && p2 < p2End)`. The pointers are what is left of the strings, with the
terminators. -/
def walk : ℕ → List UInt8 → List UInt8 → Option Walked
  | 0, _, _ => none
  | n + 1, p1, p2 =>
    if 1 < p1.length ∧ 1 < p2.length then do
      let b ← p1.head?
      let b' ← p2.head?
      if IsASCII b then
        if eqCharIgnoreCase env b b' then walk n (p1.drop 1) (p2.drop 1)
        else return .differs (charInt env.signed b - charInt env.signed b')
      else
        let (ch1, len1) ← readChar env.signed p1
        let (ch2, len2) ← readChar env.signed p2
        if eqIgnoreCase env ch1 ch2 then walk n (p1.drop len1) (p2.drop len2)
        else return .differs (int32 (ch1.toNat - ch2.toNat))
    else return .ended p1 p2

/-- `CompareIgnoreCase`. That two pointers are the same is left out but for two null strings: of the
same bytes the loop finds no difference. -/
def CompareIgnoreCase (other : Option (List UInt8)) (s : ElString) : Option ℤ :=
  match s.mString, other with
  | none, none => some 0
  | none, some _ => some (-2)
  | some _, none => some 2
  | some string, some other =>
    if string.headD 0 = 0 ∧ other.headD 0 = 0 then some 0
    else do
      let string := terminated string
      let other := terminated other
      let w ← walk env string.length string other
      w.compare env

def InsensitiveStartWith (string subString : Option (List UInt8)) : Option Bool :=
  match string, subString with
  | some string, some subString =>
    if subString.headD 0 = 0 then some true
    else
      let string := terminated string
      let subString := terminated subString
      if string.length = 1 ∨ subString.length = 1 ∨ string.length < subString.length then some false
      else do
        match ← walk env string.length string subString with
        | .differs _ => return false
        | .ended .. => return true
  | _, _ => some false

def StartWithIgnoreCase (subString : Option (List UInt8)) (s : ElString) : Option Bool :=
  InsensitiveStartWith env s.mString subString

def EndWithIgnoreCase (subString : Option (List UInt8)) (s : ElString) : Option Bool :=
  match s.mString, subString with
  | some string, some subString =>
    if string.headD 0 = 0 ∧ subString.headD 0 = 0 then some true
    else
      let string := terminated string
      let subLength := (terminated subString).length
      -- `endString < mString`
      if string.length < subLength then some false
      else
        InsensitiveStartWith env (some (string.drop (string.length - subLength))) (some subString)
  | _, _ => some false

end Functions

/-! ### What is compared -/

section Chars

variable {env : Platform} {cs ds : List UInt32} {c d : UInt32}

/-- The bytes of the characters, and the terminator. -/
abbrev cstr (cs : List UInt32) : List UInt8 := cs.flatMap utf8 ++ [0]

/-- What is returned of two characters that differ. -/
def charDifference (env : Platform) (c d : UInt32) : ℤ :=
  if c < 0x80 then charInt env.signed (lead c) - charInt env.signed (lead d)
  else int32 (c.toNat - d.toNat)

/-- The loop over the characters. -/
def walkChars (env : Platform) : List UInt32 → List UInt32 → Walked
  | c :: cs, d :: ds =>
    if toUpper env c = toUpper env d then walkChars env cs ds
    else .differs (charDifference env c d)
  | cs, ds => .ended (cstr cs) (cstr ds)

theorem walkChars_nil (env : Platform) (ds : List UInt32) :
    walkChars env [] ds = .ended (cstr []) (cstr ds) := by
  rw [walkChars]
  exact fun _ _ _ _ h => absurd h nofun

theorem walkChars_cons_nil (env : Platform) (c : UInt32) (cs : List UInt32) :
    walkChars env (c :: cs) [] = .ended (cstr (c :: cs)) (cstr []) := by
  rw [walkChars]
  exact fun _ _ _ _ _ h => absurd h nofun

/-- An ASCII character is not in upper case what the other character is, if that is not ASCII, nor
what its first byte is. -/
def WalkPair (env : Platform) (c d : UInt32) : Prop :=
  c < 0x80 → 0x80 ≤ d →
    toUpper env c ≠ toUpper env d ∧ toUpper env c ≠ toUpper env (ofChar env.signed (lead d))

/-- So it is with the characters up to the first that differ. -/
def WalkSpared (env : Platform) : List UInt32 → List UInt32 → Prop
  | c :: cs, d :: ds =>
    WalkPair env c d ∧ (toUpper env c = toUpper env d → WalkSpared env cs ds)
  | _, _ => True

theorem WalkPair.eqCharIgnoreCase_iff (h : WalkPair env c d) (hc : c < 0x80) :
    eqCharIgnoreCase env (lead c) (lead d) = true ↔ toUpper env c = toUpper env d := by
  rw [eqCharIgnoreCase, eqIgnoreCase_iff, ofChar_lead hc]
  by_cases hsmall : d < 0x80
  · rw [ofChar_lead hsmall]
  · obtain ⟨hchar, hlead⟩ := h hc (UInt32.not_lt.mp hsmall)
    exact iff_of_false hlead hchar

theorem cstr_cons (c : UInt32) (cs : List UInt32) : cstr (c :: cs) = utf8 c ++ cstr cs := by
  rw [cstr, List.flatMap_cons, List.append_assoc]

theorem length_cstr_cons (hvalid : IsValidChar c = true) (cs : List UInt32) :
    1 < (cstr (c :: cs)).length := by
  have hpos := (pos_GetByteCount_iff c).mpr hvalid
  rw [cstr_cons, List.length_append, length_utf8, List.length_append, List.length_singleton]
  omega

theorem IsText.cons (h : IsText (c :: cs)) : (c ≠ 0 ∧ IsValidChar c = true) ∧ IsText cs :=
  List.forall_mem_cons.mp h

theorem IsText.length_lt (hcs : IsText cs) : cs.length < (cstr cs).length := by
  have hle := Code.le_offset utf8 (fun c hc => utf8_ne_nil (hcs c hc).2)
    (le_refl cs.length)
  rw [Code.offset_of_length_le le_rfl] at hle
  rw [List.length_append, List.length_singleton]
  omega

theorem head?_cstr (hvalid : IsValidChar c = true) (cs : List UInt32) :
    (cstr (c :: cs)).head? = some (lead c) := by
  rw [cstr_cons, utf8_eq_lead_cons hvalid]
  rfl

theorem drop_cstr (c : UInt32) (cs : List UInt32) :
    (cstr (c :: cs)).drop (GetByteCount c) = cstr cs := by
  rw [cstr_cons, ← length_utf8, List.drop_left]

/-- An ASCII character is compared with a byte. -/
theorem walk_cons_ascii (hvalid : IsValidChar c = true) (hvalid' : IsValidChar d = true)
    (hascii : c < 0x80) (n : ℕ) (cs ds : List UInt32) :
    walk env (n + 1) (cstr (c :: cs)) (cstr (d :: ds)) =
      if eqCharIgnoreCase env (lead c) (lead d) = true then
        walk env n (cstr cs) ((cstr (d :: ds)).drop 1)
      else some (.differs (charDifference env c d)) := by
  have hnext := drop_cstr c cs
  rw [(getByteCount_eq_one_iff hvalid).mpr hascii] at hnext
  rw [walk, if_pos ⟨length_cstr_cons hvalid cs, length_cstr_cons hvalid' ds⟩, head?_cstr hvalid,
    head?_cstr hvalid', charDifference, if_pos hascii]
  simp only [Option.bind_eq_bind, Option.bind_some]
  rw [if_pos ((isASCII_lead_iff hvalid).mpr hascii), hnext]
  rfl

/-- Another character is compared with a character. -/
theorem walk_cons (hvalid : IsValidChar c = true) (hvalid' : IsValidChar d = true)
    (hascii : ¬c < 0x80) (n : ℕ) (cs ds : List UInt32) :
    walk env (n + 1) (cstr (c :: cs)) (cstr (d :: ds)) =
      if toUpper env c = toUpper env d then walk env n (cstr cs) (cstr ds)
      else some (.differs (charDifference env c d)) := by
  have hread : readChar env.signed (cstr (c :: cs)) = some (c, GetByteCount c) := by
    rw [cstr_cons, readChar_utf8 hvalid]
  have hread' : readChar env.signed (cstr (d :: ds)) = some (d, GetByteCount d) := by
    rw [cstr_cons, readChar_utf8 hvalid']
  rw [walk, if_pos ⟨length_cstr_cons hvalid cs, length_cstr_cons hvalid' ds⟩, head?_cstr hvalid,
    head?_cstr hvalid', hread, hread', charDifference, if_neg hascii]
  simp only [Option.bind_eq_bind, Option.bind_some]
  rw [if_neg fun h => hascii ((isASCII_lead_iff hvalid).mp h), drop_cstr, drop_cstr]
  by_cases heq : toUpper env c = toUpper env d
  · rw [if_pos ((eqIgnoreCase_iff env c d).mpr heq), if_pos heq]
  · rw [if_neg fun h => heq ((eqIgnoreCase_iff env c d).mp h), if_neg heq]
    rfl

/-- A pair that is not taken for another one. -/
theorem WalkPair.walk_cons (hpair : WalkPair env c d) (hvalid : IsValidChar c = true)
    (hvalid' : IsValidChar d = true) (n : ℕ) (cs ds : List UInt32) :
    walk env (n + 1) (cstr (c :: cs)) (cstr (d :: ds)) =
      if toUpper env c = toUpper env d then walk env n (cstr cs) (cstr ds)
      else some (.differs (charDifference env c d)) := by
  by_cases hascii : c < 0x80
  · have hiff := hpair.eqCharIgnoreCase_iff hascii
    rw [walk_cons_ascii hvalid hvalid' hascii]
    by_cases heq : toUpper env c = toUpper env d
    · have hsmall : d < 0x80 := by
        by_contra hlarge
        exact (hpair hascii (UInt32.not_lt.mp hlarge)).1 heq
      have hnext := drop_cstr d ds
      rw [(getByteCount_eq_one_iff hvalid').mpr hsmall] at hnext
      rw [if_pos (hiff.mpr heq), if_pos heq, hnext]
    · rw [if_neg fun h => heq (hiff.mp h), if_neg heq]
  · exact ElString.walk_cons hvalid hvalid' hascii n cs ds

/-- **The loop compares the characters.** -/
theorem walk_spec {n : ℕ} : ∀ {cs ds : List UInt32}, IsText cs → IsText ds →
    WalkSpared env cs ds → cs.length < n →
    walk env n (cstr cs) (cstr ds) = some (walkChars env cs ds) := by
  induction n with
  | zero => exact fun _ _ _ hn => absurd hn (Nat.not_lt_zero _)
  | succ n ih =>
    intro cs ds hcs hds hspared hn
    rcases cs with _ | ⟨c, cs⟩
    · rw [walk, if_neg (by simp), walkChars_nil]
      rfl
    rcases ds with _ | ⟨d, ds⟩
    · rw [walk, if_neg (by simp), walkChars_cons_nil]
      rfl
    obtain ⟨⟨-, hvalid⟩, hcs⟩ := hcs.cons
    obtain ⟨⟨-, hvalid'⟩, hds⟩ := hds.cons
    obtain ⟨hpair, hrest⟩ := hspared
    rw [hpair.walk_cons hvalid hvalid', walkChars]
    split_ifs with heq
    · exact ih hcs hds (hrest heq) (Nat.lt_of_succ_lt_succ hn)
    · rfl

/-! ### The sign of a difference -/

theorem int32_eq {n : ℤ} (hlo : -2147483648 ≤ n) (hhi : n < 2147483648) : int32 n = n :=
  Int.bmod_eq_of_le (by omega) (by omega)

theorem toNat_le_of_valid (hvalid : IsValidChar c = true) : c.toNat ≤ 0x10FFFF := by
  rcases utf8_cases hvalid with ⟨h, -⟩ | ⟨-, h, -⟩ | ⟨-, h, -⟩ | ⟨-, h, -⟩ <;> omega

theorem charInt_lead (h : c < 0x80) (signed : Bool) : charInt signed (lead c) = c.toNat := by
  obtain ⟨hbytes, hchar⟩ := utf8_of_lt h
  have hlead : (lead c).toNat = c.toNat := by
    rw [← UInt8.toNat_toUInt32, lead, hbytes, List.headD_cons, hchar]
  have hlt : c.toNat < 0x80 := h
  rw [charInt, if_neg (by omega), hlead]

/-- The first bytes differ as the characters do, if one of the characters is ASCII. -/
theorem lead_inj (hc : c < 0x80) (hvalid : IsValidChar d = true) (h : lead c = lead d) : c = d := by
  have hsmall : d < 0x80 := by
    rw [← isASCII_lead_iff hvalid, ← h, isASCII_lead_iff]
    · exact hc
    · by_contra hnot
      have hnil := utf8_eq_nil (Bool.eq_false_iff.mpr hnot)
      rw [(utf8_of_lt hc).1] at hnil
      exact absurd hnil (List.cons_ne_nil _ _)
  have hchars := charInt_lead hc false
  rw [h, charInt_lead hsmall] at hchars
  exact UInt32.toNat_inj.mp (Int.ofNat.inj hchars.symm)

theorem charDifference_ne_zero (hvalid : IsValidChar c = true) (hvalid' : IsValidChar d = true)
    (hne : c ≠ d) : charDifference env c d ≠ 0 := by
  have hle := toNat_le_of_valid hvalid
  have hle' := toNat_le_of_valid hvalid'
  rw [charDifference]
  split_ifs with hascii
  · rw [ne_eq, charInt_sub_eq_zero]
    exact fun h => hne (lead_inj hascii hvalid' h)
  · rw [int32_eq (by omega) (by omega)]
    intro h
    exact hne (UInt32.toNat_inj.mp (by omega))

theorem charInt_zero (signed : Bool) : charInt signed 0 = 0 := by
  cases signed <;> rfl

theorem charInt_lead_ne_zero (hvalid : IsValidChar c = true) (hne : c ≠ 0) (signed : Bool) :
    charInt signed (lead c) ≠ 0 := by
  have hzero := (charInt_sub_eq_zero signed (a := lead c) (b := 0)).not.mpr
    (lead_ne_zero hvalid hne)
  rwa [charInt_zero, Int.sub_zero] at hzero

/-- **What the comparison returns** is zero if the characters are the same in upper case. -/
theorem compare_walkChars_eq_zero_iff {cs ds : List UInt32} (hcs : IsText cs) (hds : IsText ds) :
    ∃ r, (walkChars env cs ds).compare env = some r ∧
      (r = 0 ↔ cs.map (toUpper env) = ds.map (toUpper env)) := by
  induction cs generalizing ds with
  | nil =>
    rcases ds with _ | ⟨d, ds⟩
    · exact ⟨_, rfl, iff_of_true (sub_self _) rfl⟩
    · obtain ⟨⟨hne, hvalid⟩, -⟩ := hds.cons
      rw [walkChars_nil, Walked.compare, head?_cstr hvalid]
      refine ⟨_, rfl, iff_of_false ?_ (List.cons_ne_nil _ _).symm⟩
      rw [charInt_zero, Int.zero_sub, Int.neg_eq_zero]
      exact charInt_lead_ne_zero hvalid hne _
  | cons c cs ih =>
    obtain ⟨⟨hne, hvalid⟩, hcs⟩ := hcs.cons
    rcases ds with _ | ⟨d, ds⟩
    · rw [walkChars_cons_nil, Walked.compare, head?_cstr hvalid]
      refine ⟨_, rfl, iff_of_false ?_ (List.cons_ne_nil _ _)⟩
      rw [charInt_zero, Int.sub_zero]
      exact charInt_lead_ne_zero hvalid hne _
    · obtain ⟨⟨-, hvalid'⟩, hds⟩ := hds.cons
      rw [walkChars, List.map_cons, List.map_cons, List.cons.injEq]
      split_ifs with heq
      · obtain ⟨r, hr, hiff⟩ := ih hcs hds
        exact ⟨r, hr, hiff.trans (and_iff_right heq).symm⟩
      · refine ⟨_, rfl, iff_of_false ?_ fun h => heq h.1⟩
        exact charDifference_ne_zero hvalid hvalid' fun h => heq (congrArg _ h)

/-- Strings of characters are compared by the loop. -/
theorem compareIgnoreCase_eq {s other : ElString} {cs ds : List UInt32} (h : s.Spells cs)
    (hother : other.Spells ds) (hspared : WalkSpared env cs ds) :
    CompareIgnoreCase env other.mString s = (walkChars env cs ds).compare env := by
  have hterminated := h.terminated
  have hterminated' := hother.terminated
  rw [h.data] at hterminated
  rw [hother.data] at hterminated'
  have hlength := IsText.length_lt h.char
  rw [CompareIgnoreCase.eq_def, h.string, hother.string]
  dsimp only
  rw [hterminated, hterminated', walk_spec h.char hother.char hspared hlength]
  split_ifs with hempty
  · obtain rfl := h.headD_eq_zero_iff.mp hempty.1
    obtain rfl := hother.headD_eq_zero_iff.mp hempty.2
    rw [walkChars_nil, Walked.compare]
    simp [charInt_zero]
  · rfl

end Chars

end ElastosCar.ElString
