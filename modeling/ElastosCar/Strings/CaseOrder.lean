import ElastosCar.Lib.ThreeWay
import ElastosCar.Strings.IgnoreCase

/-!
# The order that ignores the case

`CompareIgnoreCase` tells by upper case whether two characters differ, and by the characters
themselves which of them is less; so `"a"` is less than `"b"`, which is the same as `"B"`, which is
less than `"a"`.

* `FoldsWell`: what keeps the characters of an alphabet from this. The characters that are the same
  in upper case stand together in the order, and have one length.
* `FoldsWell.agrees_compare`: over such an alphabet the comparison is that of the lists of keys.
-/

namespace ElastosCar.ElString

open ThreeWay

/-- Any two characters of an alphabet are spared. -/
def AllSpared (env : Platform) (A : UInt32 → Prop) : Prop :=
  ∀ a b, A a → A b → SparedPair env a b

/-- What `GetCharInternal` makes of bytes that begin no character. -/
def sixBits (bytes : List UInt8) : List UInt32 := bytes.map fun b => (b &&& 0x3F).toUInt32

/-- An alphabet of characters whose order, lengths and bytes go together with upper case. -/
structure FoldsWell (env : Platform) (A : UInt32 → Prop) : Prop where
  /-- Characters that differ in upper case are in the order of all that are the same. -/
  order : ∀ a a' b b', A a → A a' → A b → A b' → toUpper env a = toUpper env a' →
    toUpper env b = toUpper env b' → toUpper env a ≠ toUpper env b → a < b → a' < b'
  pair : AllSpared env A
  /-- A `char` that is negative is in the order of the characters only among such. -/
  sign : env.signed = true → (∀ a, A a → a < 0x80) ∨ ∀ a, A a → 0x80 ≤ a
  /-- A text that is in upper case what is read from the middle of a character does not take the
  bytes from there to the end of a string. -/
  tail : ∀ a, A a → ∀ j, 0 < j → ∀ es ws : List UInt32, es ≠ [] → (∀ e ∈ es, A e) →
    (∀ w ∈ ws, A w) →
    es.map (toUpper env) <+: (sixBits ((utf8 a).drop j)).map (toUpper env) →
    (es.flatMap utf8).length ≠ ((utf8 a).drop j).length + (ws.flatMap utf8).length

variable {env : Platform} {A : UInt32 → Prop} {c d : UInt32} {cs ds : List UInt32}

theorem SparedPair.walkPair (h : SparedPair env c d) (hvalid : IsValidChar c = true)
    (hvalid' : IsValidChar d = true) : WalkPair env c d := by
  intro hc hd
  refine ⟨fun heq => ?_, h.first hc hd⟩
  have hcount := (getByteCount_eq_one_iff hvalid).mpr hc
  rw [h.length heq, getByteCount_eq_one_iff hvalid'] at hcount
  exact absurd hcount (UInt32.not_lt.mpr hd)

theorem AllSpared.walkSpared (hA : AllSpared env A) (hcs : IsText cs) (hds : IsText ds)
    (hcsA : ∀ c ∈ cs, A c) (hdsA : ∀ d ∈ ds, A d) : WalkSpared env cs ds := by
  induction cs generalizing ds with
  | nil => trivial
  | cons c cs ih =>
    rcases ds with _ | ⟨d, ds⟩
    · trivial
    obtain ⟨⟨-, hvalid⟩, hcs⟩ := hcs.cons
    obtain ⟨⟨-, hvalid'⟩, hds⟩ := hds.cons
    obtain ⟨hc, hcsA⟩ := List.forall_mem_cons.mp hcsA
    obtain ⟨hd, hdsA⟩ := List.forall_mem_cons.mp hdsA
    exact ⟨(hA c d hc hd).walkPair hvalid hvalid', fun _ => ih hcs hds hcsA hdsA⟩

/-! ### The keys of the order -/

/-- The least of the characters that are the same in upper case. -/
noncomputable def caseKey (env : Platform) (A : UInt32 → Prop) (c : UInt32) : ℕ :=
  sInf {n | ∃ x, A x ∧ toUpper env x = toUpper env c ∧ x.toNat = n}

theorem exists_caseKey (env : Platform) (hc : A c) :
    ∃ x, A x ∧ toUpper env x = toUpper env c ∧ x.toNat = caseKey env A c := by
  have hne : Set.Nonempty {n | ∃ x, A x ∧ toUpper env x = toUpper env c ∧ x.toNat = n} :=
    ⟨c.toNat, c, hc, rfl, rfl⟩
  exact Nat.sInf_mem hne

theorem caseKey_eq_iff (hc : A c) (hd : A d) :
    caseKey env A c = caseKey env A d ↔ toUpper env c = toUpper env d := by
  constructor
  · intro heq
    obtain ⟨x, -, hx, hkey⟩ := exists_caseKey env hc
    obtain ⟨y, -, hy, hkey'⟩ := exists_caseKey env hd
    obtain rfl : x = y := UInt32.toNat_inj.mp (by rw [hkey, hkey', heq])
    rw [← hx, hy]
  · intro heq
    rw [caseKey, caseKey, heq]

/-- The keys are in the order of the characters. -/
theorem FoldsWell.caseKey_lt_iff (hA : FoldsWell env A) (hc : A c) (hd : A d)
    (hne : toUpper env c ≠ toUpper env d) : c < d ↔ caseKey env A c < caseKey env A d := by
  obtain ⟨x, hAx, hx, hkey⟩ := exists_caseKey env hc
  obtain ⟨y, hAy, hy, hkey'⟩ := exists_caseKey env hd
  rw [← hkey, ← hkey']
  constructor
  · intro hlt
    exact hA.order c x d y hc hAx hd hAy hx.symm hy.symm hne hlt
  · intro hlt
    have hne' : toUpper env x ≠ toUpper env y := by rwa [hx, hy]
    exact hA.order x c y d hAx hc hAy hd hx hy hne' hlt

/-- The sign of a difference is the order of the characters. -/
theorem charDifference_neg_iff (hvalid : IsValidChar c = true) (hvalid' : IsValidChar d = true)
    (hsign : env.signed = true → (c < 0x80 ↔ d < 0x80)) : charDifference env c d < 0 ↔ c < d := by
  have hle := toNat_le_of_valid hvalid
  have hle' := toNat_le_of_valid hvalid'
  have hlt : c < d ↔ c.toNat < d.toNat := Iff.rfl
  rw [charDifference, hlt]
  split_ifs with hascii
  · have hc : c.toNat < 0x80 := hascii
    rw [charInt_lead hascii]
    by_cases hsmall : d < 0x80
    · rw [charInt_lead hsmall]
      omega
    · have hd : 0x80 ≤ d.toNat := UInt32.not_lt.mp hsmall
      obtain ⟨hlead, -⟩ := utf8_of_le hvalid' hd
      have hunsigned : ¬env.signed = true := fun h => hsmall ((hsign h).mp hascii)
      rw [charInt, if_neg fun h => hunsigned h.1]
      omega
  · rw [int32_eq (by omega) (by omega)]
    omega

open Classical in
/-- Where the terminator is in the order: before all characters, or behind them, if the bytes of all
of them are negative. -/
noncomputable def endKey (env : Platform) (A : UInt32 → Prop) : ℤ :=
  if env.signed = true ∧ ∃ a, A a ∧ 0x80 ≤ a then 4294967296 else -1

/-- What `CompareIgnoreCase` goes by. -/
noncomputable def caseKeys (env : Platform) (A : UInt32 → Prop) (cs : List UInt32) : List ℤ :=
  cs.map (fun c => (caseKey env A c : ℤ)) ++ [endKey env A]

theorem FoldsWell.agrees_charDifference (hA : FoldsWell env A) (hc : A c) (hd : A d)
    (hvalid : IsValidChar c = true) (hvalid' : IsValidChar d = true)
    (hne : toUpper env c ≠ toUpper env d) :
    Agrees (charDifference env c d) (caseKey env A c : ℤ) (caseKey env A d) where
  neg := by
    rw [Nat.cast_lt, ← hA.caseKey_lt_iff hc hd hne]
    refine charDifference_neg_iff hvalid hvalid' fun hsigned => ?_
    rcases hA.sign hsigned with hall | hall
    · exact iff_of_true (hall c hc) (hall d hd)
    · exact iff_of_false (UInt32.not_lt.mpr (hall c hc)) (UInt32.not_lt.mpr (hall d hd))
  zero := by
    refine iff_of_false (charDifference_ne_zero hvalid hvalid' fun h => hne (congrArg _ h)) ?_
    rwa [Nat.cast_inj, caseKey_eq_iff hc hd]

/-- The sign of a first byte against the terminator. -/
theorem FoldsWell.charInt_lead_pos_iff (hA : FoldsWell env A) (hc : A c)
    (hvalid : IsValidChar c = true) (hne : c ≠ 0) :
    (0 < charInt env.signed (lead c) ↔ endKey env A < caseKey env A c) ∧
      (charInt env.signed (lead c) < 0 ↔ caseKey env A c < endKey env A) := by
  obtain ⟨x, -, -, hkey⟩ := exists_caseKey env hc
  have hlt := x.toNat_lt
  have hnonzero := charInt_lead_ne_zero hvalid hne env.signed
  rw [endKey]
  split_ifs with hend
  · -- all characters are beyond ASCII, and their bytes are negative
    obtain ⟨hsigned, a, ha, hlarge⟩ := hend
    have hc' : 0x80 ≤ c := by
      rcases hA.sign hsigned with hall | hall
      · exact absurd (hall a ha) (UInt32.not_lt.mpr hlarge)
      · exact hall c hc
    obtain ⟨hlead, -⟩ := utf8_of_le hvalid hc'
    have hbyte := (lead c).toNat_lt
    rw [charInt, if_pos ⟨hsigned, by omega⟩]
    omega
  · have hpos : 0 < charInt env.signed (lead c) := by
      by_cases hsmall : c < 0x80
      · rw [charInt_lead hsmall] at hnonzero ⊢
        omega
      · have hunsigned : ¬env.signed = true := fun h => hend ⟨h, c, hc, UInt32.not_lt.mp hsmall⟩
        rw [charInt, if_neg fun h => hunsigned h.1] at hnonzero ⊢
        omega
    omega

theorem FoldsWell.agrees_end (hA : FoldsWell env A) (hc : A c) (hvalid : IsValidChar c = true)
    (hne : c ≠ 0) :
    Agrees (charInt env.signed (lead c) - charInt env.signed 0) (caseKey env A c : ℤ)
        (endKey env A) ∧
      Agrees (charInt env.signed 0 - charInt env.signed (lead c)) (endKey env A)
        (caseKey env A c : ℤ) ∧
      (caseKey env A c : ℤ) ≠ endKey env A := by
  obtain ⟨hpos, hneg⟩ := hA.charInt_lead_pos_iff hc hvalid hne
  have hnonzero := charInt_lead_ne_zero hvalid hne env.signed
  rw [charInt_zero]
  refine ⟨⟨?_, ?_⟩, ⟨?_, ?_⟩, ?_⟩ <;> omega

/-- **The comparison** is that of the keys. -/
theorem FoldsWell.agrees_compare (hA : FoldsWell env A) (hcs : IsText cs) (hds : IsText ds)
    (hcsA : ∀ c ∈ cs, A c) (hdsA : ∀ d ∈ ds, A d) :
    ∃ r, (walkChars env cs ds).compare env = some r ∧
      Agrees r (caseKeys env A cs) (caseKeys env A ds) := by
  induction cs generalizing ds with
  | nil =>
    rw [walkChars_nil, Walked.compare]
    rcases ds with _ | ⟨d, ds⟩
    · exact ⟨_, rfl, iff_of_false (by simp) (lt_irrefl _), iff_of_true (sub_self _) rfl⟩
    · obtain ⟨⟨hne, hvalid⟩, -⟩ := hds.cons
      obtain ⟨hd, -⟩ := List.forall_mem_cons.mp hdsA
      obtain ⟨-, hagrees, hkey⟩ := hA.agrees_end hd hvalid hne
      rw [head?_cstr hvalid]
      exact ⟨_, rfl, hagrees.head hkey.symm _ _⟩
  | cons c cs ih =>
    obtain ⟨⟨hne, hvalid⟩, hcs⟩ := hcs.cons
    obtain ⟨hc, hcsA⟩ := List.forall_mem_cons.mp hcsA
    rcases ds with _ | ⟨d, ds⟩
    · obtain ⟨hagrees, -, hkey⟩ := hA.agrees_end hc hvalid hne
      rw [walkChars_cons_nil, Walked.compare, head?_cstr hvalid]
      exact ⟨_, rfl, hagrees.head hkey _ _⟩
    · obtain ⟨⟨-, hvalid'⟩, hds⟩ := hds.cons
      obtain ⟨hd, hdsA⟩ := List.forall_mem_cons.mp hdsA
      rw [walkChars]
      split_ifs with heq
      · obtain ⟨r, hr, hagrees⟩ := ih hcs hds hcsA hdsA
        have hkey := (caseKey_eq_iff hc hd).mpr heq
        refine ⟨r, hr, ?_⟩
        rw [caseKeys, caseKeys, List.map_cons, List.map_cons, hkey]
        exact hagrees.cons _
      · have hagrees := hA.agrees_charDifference hc hd hvalid hvalid' heq
        refine ⟨_, rfl, hagrees.head (fun hkey => ?_) _ _⟩
        exact heq ((caseKey_eq_iff hc hd).mp (Nat.cast_inj.mp hkey))

end ElastosCar.ElString
