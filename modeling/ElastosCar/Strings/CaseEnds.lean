import ElastosCar.Strings.CaseOrder

/-!
# Beginnings and ends that ignore the case

`StartWithIgnoreCase` and `EndWithIgnoreCase` compare lengths in bytes first. `EndWithIgnoreCase`
then begins at a byte that need not begin a character, and reads six bits of it for one.

* `Begins`: what the loop compares, from the middle of a character on.
* `FoldsWell.endWithIgnoreCase`: over an alphabet with no text of six-bit characters, the end is
  told.
-/

namespace ElastosCar.ElString

variable {env : Platform} {A : UInt32 → Prop} {c d : UInt32} {cs ds : List UInt32}

/-! ### Beginnings -/

theorem flatMap_pos (hvalid : IsValidChar c = true) (cs : List UInt32) :
    0 < ((c :: cs).flatMap utf8).length := by
  have hpos := (pos_GetByteCount_iff c).mpr hvalid
  rw [List.flatMap_cons, List.length_append, length_utf8]
  exact Nat.add_pos_left hpos _

theorem IsText.headD_cstr_iff (hcs : IsText cs) : (cstr cs).headD 0 = 0 ↔ cs = [] := by
  rcases cs with _ | ⟨c, cs⟩
  · exact iff_of_true rfl rfl
  · obtain ⟨⟨hne, hvalid⟩, -⟩ := hcs.cons
    refine iff_of_false ?_ (List.cons_ne_nil c cs)
    rw [cstr_cons, utf8_eq_lead_cons hvalid]
    exact lead_ne_zero hvalid hne

/-- Characters that are the same in upper case have as many bytes. -/
theorem AllSpared.length_eq (hA : AllSpared env A) (hcsA : ∀ c ∈ cs, A c) (hdsA : ∀ d ∈ ds, A d)
    (h : cs.map (toUpper env) = ds.map (toUpper env)) :
    (cs.flatMap utf8).length = (ds.flatMap utf8).length := by
  induction cs generalizing ds with
  | nil =>
    obtain rfl := List.map_eq_nil_iff.mp h.symm
    rfl
  | cons c cs ih =>
    rcases ds with _ | ⟨d, ds⟩
    · exact absurd h (List.cons_ne_nil _ _)
    obtain ⟨hc, hcsA⟩ := List.forall_mem_cons.mp hcsA
    obtain ⟨hd, hdsA⟩ := List.forall_mem_cons.mp hdsA
    rw [List.map_cons, List.map_cons, List.cons.injEq] at h
    rw [List.flatMap_cons, List.flatMap_cons, List.length_append, List.length_append, length_utf8,
      length_utf8, (hA c d hc hd).length h.1, ih hcsA hdsA h.2]

/-- The loop ends if the other string is the beginning. It has not more bytes, and so it ends
first. -/
theorem AllSpared.ends_iff (hA : AllSpared env A) (hds : IsText ds) (hcsA : ∀ c ∈ cs, A c)
    (hdsA : ∀ d ∈ ds, A d) (hle : (ds.flatMap utf8).length ≤ (cs.flatMap utf8).length) :
    (∃ p1 p2, walkChars env cs ds = .ended p1 p2) ↔
      ds.map (toUpper env) <+: cs.map (toUpper env) := by
  induction cs generalizing ds with
  | nil =>
    rw [walkChars_nil]
    refine iff_of_true ⟨_, _, rfl⟩ ?_
    rcases ds with _ | ⟨d, ds⟩
    · exact List.nil_prefix
    · exact absurd (flatMap_pos hds.cons.1.2 ds) (Nat.not_lt.mpr hle)
  | cons c cs ih =>
    rcases ds with _ | ⟨d, ds⟩
    · rw [walkChars_cons_nil]
      exact iff_of_true ⟨_, _, rfl⟩ List.nil_prefix
    obtain ⟨hc, hcsA⟩ := List.forall_mem_cons.mp hcsA
    obtain ⟨hd, hdsA⟩ := List.forall_mem_cons.mp hdsA
    rw [walkChars, List.map_cons, List.map_cons, List.cons_prefix_cons]
    split_ifs with heq
    · have hcount := (hA c d hc hd).length heq
      rw [List.flatMap_cons, List.flatMap_cons, List.length_append, List.length_append, length_utf8,
        length_utf8] at hle
      rw [ih hds.cons.2 hcsA hdsA (by omega), and_iff_right heq.symm]
    · refine iff_of_false ?_ fun h => heq h.1.symm
      rintro ⟨p1, p2, h⟩
      cases h

/-! ### From the middle of a character -/

/-- A byte that begins no character is compared by its six bits. -/
theorem walk_tail_cons {x : UInt8} (hx : 0x80 ≤ x.toNat ∧ x.toNat < 0xC0)
    (hvalid : IsValidChar d = true) (n : ℕ) (xs : List UInt8) (cs ds : List UInt32) :
    walk env (n + 1) (x :: xs ++ cstr cs) (cstr (d :: ds)) =
      if toUpper env (x &&& 0x3F).toUInt32 = toUpper env d then walk env n (xs ++ cstr cs) (cstr ds)
      else some (.differs (int32 ((x &&& 0x3F).toUInt32.toNat - d.toNat))) := by
  have hascii : ¬IsASCII x = true := by
    rw [isASCII_iff]
    omega
  have hlength : 1 < (x :: (xs ++ cstr cs)).length := by
    rw [List.length_cons, List.length_append, List.length_append, List.length_singleton]
    omega
  have hread : readChar env.signed (x :: (xs ++ cstr cs)) = some ((x &&& 0x3F).toUInt32, 1) := by
    rw [readChar, GetCharInternal_tail hx.1 hx.2]
    exact if_pos hlength.le
  have hread' : readChar env.signed (cstr (d :: ds)) = some (d, GetByteCount d) := by
    rw [cstr_cons, readChar_utf8 hvalid]
  rw [List.cons_append, walk, if_pos ⟨hlength, length_cstr_cons hvalid ds⟩, head?_cstr hvalid,
    hread', List.head?_cons, hread]
  simp only [Option.bind_eq_bind, Option.bind_some]
  rw [if_neg hascii, drop_cstr, List.drop_one, List.tail_cons]
  by_cases heq : toUpper env (x &&& 0x3F).toUInt32 = toUpper env d
  · rw [if_pos ((eqIgnoreCase_iff env _ _).mpr heq), if_pos heq]
  · rw [if_neg fun h => heq ((eqIgnoreCase_iff env _ _).mp h), if_neg heq]
    rfl

/-- The text is in upper case the beginning of what is read: the six bits of some bytes, and the
characters behind them. -/
def Begins (env : Platform) (xs : List UInt8) (cs ds : List UInt32) : Prop :=
  ∃ es ds', ds = es ++ ds' ∧ es.map (toUpper env) <+: (sixBits xs).map (toUpper env) ∧
    (ds' = [] ∨ es.length = xs.length ∧ ds'.map (toUpper env) <+: cs.map (toUpper env))

theorem begins_nil_iff : Begins env [] cs ds ↔ ds.map (toUpper env) <+: cs.map (toUpper env) := by
  constructor
  · rintro ⟨es, ds', rfl, hes, hds'⟩
    obtain rfl : es = [] := List.map_eq_nil_iff.mp (List.prefix_nil.mp hes)
    rcases hds' with rfl | ⟨-, h⟩
    · exact List.nil_prefix
    · exact h
  · intro h
    exact ⟨[], ds, rfl, List.nil_prefix, .inr ⟨rfl, h⟩⟩

theorem begins_cons_iff {x : UInt8} {xs : List UInt8} :
    Begins env (x :: xs) cs (d :: ds) ↔
      toUpper env (x &&& 0x3F).toUInt32 = toUpper env d ∧ Begins env xs cs ds := by
  constructor
  · rintro ⟨es, ds', heq, hes, hds'⟩
    rcases es with _ | ⟨e, es⟩
    · obtain rfl : ds' = d :: ds := heq.symm
      rcases hds' with h | ⟨h, -⟩
      · exact absurd h (List.cons_ne_nil d ds)
      · exact absurd h nofun
    · obtain ⟨rfl, rfl⟩ := List.cons.inj heq
      obtain ⟨hx, hes⟩ := List.cons_prefix_cons.mp hes
      exact ⟨hx.symm, es, ds', rfl, hes, hds'.imp_right (.imp_left Nat.succ.inj)⟩
  · rintro ⟨hx, es, ds', rfl, hes, hds'⟩
    exact ⟨d :: es, ds', rfl, List.cons_prefix_cons.mpr ⟨hx.symm, hes⟩,
      hds'.imp_right (.imp_left (congrArg (· + 1)))⟩

/-- **The loop ends** if the other string is the beginning. -/
theorem AllSpared.walk_tail (hA : AllSpared env A) (hcs : IsText cs) (hcsA : ∀ c ∈ cs, A c)
    {xs : List UInt8} (hxs : ∀ x ∈ xs, 0x80 ≤ x.toNat ∧ x.toNat < 0xC0) {n : ℕ}
    (hn : xs.length + cs.length < n) (hds : IsText ds) (hdsA : ∀ d ∈ ds, A d)
    (hle : (ds.flatMap utf8).length ≤ xs.length + (cs.flatMap utf8).length) :
    ∃ w, walk env n (xs ++ cstr cs) (cstr ds) = some w ∧
      ((∃ p1 p2, w = .ended p1 p2) ↔ Begins env xs cs ds) := by
  induction xs generalizing ds n with
  | nil =>
    rw [List.length_nil, Nat.zero_add] at hn hle
    rw [begins_nil_iff, ← hA.ends_iff hds hcsA hdsA hle]
    exact ⟨_, walk_spec hcs hds (hA.walkSpared hcs hds hcsA hdsA) hn, Iff.rfl⟩
  | cons x xs ih =>
    obtain ⟨n, rfl⟩ := Nat.exists_eq_add_of_lt hn
    rw [List.length_cons] at hn hle ⊢
    rcases ds with _ | ⟨d, ds⟩
    · rw [walk, if_neg (by simp)]
      exact ⟨_, rfl, iff_of_true ⟨_, _, rfl⟩ ⟨[], [], rfl, List.nil_prefix, .inl rfl⟩⟩
    obtain ⟨⟨hne, hvalid⟩, hds⟩ := hds.cons
    obtain ⟨hd, hdsA⟩ := List.forall_mem_cons.mp hdsA
    obtain ⟨hx, hxs⟩ := List.forall_mem_cons.mp hxs
    have hpos := (pos_GetByteCount_iff d).mpr hvalid
    rw [List.flatMap_cons, List.length_append, length_utf8] at hle
    rw [walk_tail_cons hx hvalid, begins_cons_iff]
    split_ifs with heq
    · rw [and_iff_right heq]
      exact ih hxs (by omega) hds hdsA (by omega)
    · refine ⟨_, rfl, iff_of_false ?_ fun h => heq h.1⟩
      rintro ⟨p1, p2, h⟩
      cases h

/-- **`InsensitiveStartWith`** tells whether the other string is the beginning. -/
theorem AllSpared.insensitiveStartWith (hA : AllSpared env A) (hcs : IsText cs)
    (hcsA : ∀ c ∈ cs, A c) {xs : List UInt8} (hxs : ∀ x ∈ xs, 0x80 ≤ x.toNat ∧ x.toNat < 0xC0)
    (hds : IsText ds) (hdsA : ∀ d ∈ ds, A d) :
    ∃ b, InsensitiveStartWith env (some (xs ++ cstr cs)) (some (cstr ds)) = some b ∧
      (b = true ↔ (ds.flatMap utf8).length ≤ xs.length + (cs.flatMap utf8).length ∧
        Begins env xs cs ds) := by
  have hzero : 0 ∉ xs ++ cs.flatMap utf8 := by
    rw [List.mem_append, not_or]
    exact ⟨fun h => absurd (hxs 0 h).1 (by decide), hcs.zero_notMem⟩
  have hterminated : terminated (xs ++ cstr cs) = xs ++ cstr cs := by
    rw [← List.append_assoc, terminated_append hzero]
  rw [InsensitiveStartWith, hterminated, terminated_append hds.zero_notMem]
  by_cases hempty : (cstr ds).headD 0 = 0
  · obtain rfl := hds.headD_cstr_iff.mp hempty
    rw [if_pos hempty]
    exact ⟨true, rfl, iff_of_true rfl ⟨Nat.zero_le _, [], [], rfl, List.nil_prefix, .inl rfl⟩⟩
  rw [if_neg hempty]
  have hpos : 0 < (ds.flatMap utf8).length := by
    obtain ⟨d, ds, rfl⟩ := List.exists_cons_of_ne_nil fun h => hempty (hds.headD_cstr_iff.mpr h)
    exact flatMap_pos hds.cons.1.2 ds
  have hlength : (cstr ds).length = (ds.flatMap utf8).length + 1 := by
    rw [List.length_append, List.length_singleton]
  have hlength' : (xs ++ cstr cs).length = xs.length + (cs.flatMap utf8).length + 1 := by
    rw [List.length_append, List.length_append, List.length_singleton, Nat.add_assoc]
  dsimp only
  rw [hlength, hlength']
  by_cases hle : (ds.flatMap utf8).length ≤ xs.length + (cs.flatMap utf8).length
  · have hn : xs.length + cs.length < xs.length + (cs.flatMap utf8).length + 1 := by
      have hlt := hcs.length_lt
      rw [List.length_append, List.length_singleton] at hlt
      omega
    obtain ⟨w, hw, hiff⟩ := hA.walk_tail hcs hcsA hxs hn hds hdsA hle
    rw [if_neg (by omega), hw, and_iff_right hle, ← hiff]
    rcases w with r | ⟨p1, p2⟩
    · refine ⟨false, rfl, iff_of_false Bool.false_ne_true ?_⟩
      rintro ⟨p1, p2, h⟩
      exact absurd h nofun
    · exact ⟨true, rfl, iff_of_true rfl ⟨p1, p2, rfl⟩⟩
  · rw [if_pos (by omega)]
    exact ⟨false, rfl, iff_of_false Bool.false_ne_true fun h => hle h.1⟩

/-! ### Ends -/

/-- A part of as many bytes is the whole. -/
theorem eq_of_prefix_of_length (hcs : IsText cs) {ps : List UInt32} (hps : ps <+: cs)
    (hlength : (ps.flatMap utf8).length = (cs.flatMap utf8).length) : ps = cs := by
  obtain ⟨rs, rfl⟩ := hps
  rw [List.flatMap_append, List.length_append] at hlength
  rcases rs with _ | ⟨c, rs⟩
  · exact (List.append_nil ps).symm
  · have hpos := flatMap_pos (hcs c (List.mem_append_right _ List.mem_cons_self)).2 rs
    omega

/-- An end that is the same in upper case is told by the number of its bytes. -/
theorem AllSpared.suffix_iff (hA : AllSpared env A) (hcsA : ∀ c ∈ cs, A c) (hdsA : ∀ d ∈ ds, A d) :
    ds.map (toUpper env) <:+ cs.map (toUpper env) ↔ ∃ k ≤ cs.length,
      charOffset cs k + (ds.flatMap utf8).length = (cs.flatMap utf8).length ∧
        (cs.drop k).map (toUpper env) = ds.map (toUpper env) := by
  constructor
  · intro h
    obtain ⟨ps, ⟨qs, rfl⟩, heq⟩ := List.suffix_map_iff.mp h
    have hbytes := hA.length_eq (fun c hc => hcsA c (List.mem_append_right _ hc)) hdsA heq.symm
    refine ⟨qs.length, by simp, ?_, by rw [List.drop_left, heq]⟩
    rw [charOffset, Code.offset, List.take_left, List.flatMap_append, List.length_append, hbytes]
  · rintro ⟨k, -, -, heq⟩
    rw [← heq]
    exact (List.drop_suffix k cs).map _

/-- A place in the bytes is that of a character, or lies in one. -/
theorem place_cases {n : ℕ} (hn : n ≤ (cs.flatMap utf8).length) :
    (∃ k ≤ cs.length, n = charOffset cs k) ∨ ∃ k j, ∃ hk : k < cs.length,
      0 < j ∧ j < GetByteCount cs[k] ∧ n = charOffset cs k + j := by
  rcases Nat.lt_or_eq_of_le hn with hlt | heq
  · obtain ⟨k, j, hk, hj, hplace⟩ := Code.exists_place hlt
    rcases Nat.eq_zero_or_pos j with rfl | hpos
    · exact .inl ⟨k, hk.le, hplace⟩
    · exact .inr ⟨k, j, hk, hpos, length_utf8 cs[k] ▸ hj, hplace⟩
  · exact .inl ⟨cs.length, le_rfl, heq.trans (length_chars cs)⟩

/-- No character begins within another. -/
theorem charOffset_ne {k j i : ℕ} (hk : k < cs.length) (hpos : 0 < j)
    (hj : j < GetByteCount cs[k]) : charOffset cs i ≠ charOffset cs k + j := by
  have hsucc := charOffset_succ hk
  rcases Nat.lt_or_ge k i with hlt | hle
  · have hmono : charOffset cs (k + 1) ≤ charOffset cs i := Code.offset_mono utf8 cs hlt
    omega
  · have hmono : charOffset cs i ≤ charOffset cs k := Code.offset_mono utf8 cs hle
    omega

/-- **`EndWithIgnoreCase`** tells whether the other string is the beginning of what stands where it
must begin. -/
theorem AllSpared.endWithIgnoreCase (hA : AllSpared env A) {s sub : ElString} (h : s.Spells cs)
    (hsub : sub.Spells ds) (hdsA : ∀ d ∈ ds, A d) (hne : cs ≠ []) {es : List UInt32}
    (hes : IsText es) (hesA : ∀ e ∈ es, A e) {xs : List UInt8}
    (hxs : ∀ x ∈ xs, 0x80 ≤ x.toNat ∧ x.toNat < 0xC0)
    (hle : (ds.flatMap utf8).length ≤ (cs.flatMap utf8).length)
    (hrest : (cstr cs).drop ((cs.flatMap utf8).length - (ds.flatMap utf8).length) =
      xs ++ cstr es) :
    ∃ b, EndWithIgnoreCase env sub.mString s = some b ∧ (b = true ↔ Begins env xs es ds) := by
  have hds : IsText ds := hsub.char
  have hterminated := h.terminated
  have hterminated' := hsub.terminated
  rw [h.data] at hterminated
  rw [hsub.data] at hterminated'
  have hlength (cs : List UInt32) : (cstr cs).length = (cs.flatMap utf8).length + 1 := by
    rw [List.length_append, List.length_singleton]
  have hbytes := congrArg List.length hrest
  rw [List.length_drop, hlength cs, List.length_append, hlength es] at hbytes
  obtain ⟨b, hb, hiff⟩ := hA.insensitiveStartWith hes hesA hxs hds hdsA
  rw [EndWithIgnoreCase.eq_def, h.string, hsub.string]
  dsimp only
  rw [if_neg fun hempty => hne (h.headD_eq_zero_iff.mp hempty.1), hterminated, hterminated',
    hlength, hlength, if_neg (by omega), Nat.add_sub_add_right, hrest, hb]
  exact ⟨b, rfl, hiff.trans (and_iff_right (by omega))⟩

/-- It is right if the place is that of a character. -/
theorem AllSpared.begins_drop_iff (hA : AllSpared env A) (hcs : IsText cs) (hcsA : ∀ c ∈ cs, A c)
    (hdsA : ∀ d ∈ ds, A d) {k : ℕ} (hk : k ≤ cs.length)
    (hplace : charOffset cs k + (ds.flatMap utf8).length = (cs.flatMap utf8).length) :
    Begins env [] (cs.drop k) ds ↔ ds.map (toUpper env) <:+ cs.map (toUpper env) := by
  have hbytes : (ds.flatMap utf8).length = ((cs.drop k).flatMap utf8).length := by
    have hsplit : (cs.flatMap utf8).length =
        charOffset cs k + ((cs.drop k).flatMap utf8).length := by
      rw [charOffset, Code.offset, ← List.length_append, ← Code.flatMap_split]
    omega
  rw [begins_nil_iff, hA.suffix_iff hcsA hdsA]
  constructor
  · intro h
    obtain ⟨ps, hps, heq⟩ := List.prefix_map_iff.mp h
    have hpsA : ∀ p ∈ ps, A p := fun p hp => hcsA p (List.mem_of_mem_drop (hps.subset hp))
    have hlength := hA.length_eq hpsA hdsA heq.symm
    obtain rfl := eq_of_prefix_of_length (hcs.drop k) hps (hlength.trans hbytes)
    exact ⟨k, hk, hplace, heq.symm⟩
  · rintro ⟨i, hi, hplace', heq⟩
    have hne : ∀ c ∈ cs, utf8 c ≠ [] := fun c hc => utf8_ne_nil (hcs c hc).2
    have hik : i = k := by
      rcases lt_trichotomy i k with hlt | hik | hlt
      · have hplaces : charOffset cs i < charOffset cs k := Code.offset_lt hne hlt hk
        omega
      · exact hik
      · have hplaces : charOffset cs k < charOffset cs i := Code.offset_lt hne hlt hi
        omega
    rw [← hik, heq]

/-- In the middle of a character no text is the beginning. -/
theorem FoldsWell.not_begins (hA : FoldsWell env A) (hcsA : ∀ c ∈ cs, A c) (hdsA : ∀ d ∈ ds, A d)
    (hne : ds ≠ []) {c : UInt32} (hc : A c) {j : ℕ} (hpos : 0 < j) (hj : j < GetByteCount c)
    (hbytes : (ds.flatMap utf8).length = ((utf8 c).drop j).length + (cs.flatMap utf8).length) :
    ¬Begins env ((utf8 c).drop j) cs ds := by
  rintro ⟨es, ds', rfl, hes, hds'⟩
  have hesA : ∀ e ∈ es, A e := fun e he => hdsA e (List.mem_append_left _ he)
  rw [List.flatMap_append, List.length_append] at hbytes
  rcases hds' with rfl | ⟨hlength, hds'⟩
  · -- the text ends with the bytes of the character, or before
    rw [List.append_nil] at hne
    exact hA.tail c hc j hpos es cs hne hesA hcsA hes (by simpa using hbytes)
  · -- the rest of it is the beginning of the characters behind
    obtain ⟨ps, ⟨ws, rfl⟩, heq⟩ := List.prefix_map_iff.mp hds'
    have hpsA : ∀ p ∈ ps, A p := fun p hp => hcsA p (List.mem_append_left _ hp)
    have hds'A : ∀ d ∈ ds', A d := fun d hd => hdsA d (List.mem_append_right _ hd)
    have hrest := hA.pair.length_eq hds'A hpsA heq
    have hnonempty : es ≠ [] := by
      refine List.ne_nil_of_length_pos ?_
      rw [hlength, List.length_drop, length_utf8]
      omega
    rw [List.flatMap_append, List.length_append] at hbytes
    exact hA.tail c hc j hpos es ws hnonempty hesA
      (fun w hw => hcsA w (List.mem_append_right _ hw)) hes (by omega)

/-- What is left of a character is no beginning of one. -/
theorem tail_range {c : UInt32} (hvalid : IsValidChar c = true) {j : ℕ} (hpos : 0 < j)
    (hj : j < GetByteCount c) : ∀ x ∈ (utf8 c).drop j, 0x80 ≤ x.toNat ∧ x.toNat < 0xC0 := by
  intro x hx
  have hlarge : 0x80 ≤ c := by
    rw [← UInt32.not_lt, ← getByteCount_eq_one_iff hvalid]
    omega
  refine (utf8_of_le hvalid hlarge).2 x ?_
  obtain ⟨i, rfl⟩ := Nat.exists_eq_add_of_lt hpos
  rw [Nat.zero_add, Nat.add_comm, ← List.drop_drop, List.drop_one] at hx
  exact List.mem_of_mem_drop hx

/-- **`EndWithIgnoreCase`** tells whether the other string is the end. -/
theorem FoldsWell.endWithIgnoreCase (hA : FoldsWell env A) {s sub : ElString} (h : s.Spells cs)
    (hsub : sub.Spells ds) (hcsA : ∀ c ∈ cs, A c) (hdsA : ∀ d ∈ ds, A d) :
    ∃ b, EndWithIgnoreCase env sub.mString s = some b ∧
      (b = true ↔ ds.map (toUpper env) <:+ cs.map (toUpper env)) := by
  have hcs : IsText cs := h.char
  have hterminated := h.terminated
  have hterminated' := hsub.terminated
  rw [h.data] at hterminated
  rw [hsub.data] at hterminated'
  by_cases hshort : (cs.flatMap utf8).length < (ds.flatMap utf8).length
  · have hne : ds ≠ [] := by
      rintro rfl
      exact absurd hshort (Nat.not_lt_zero _)
    rw [EndWithIgnoreCase.eq_def, h.string, hsub.string]
    dsimp only
    rw [if_neg fun hempty => hne (hsub.headD_eq_zero_iff.mp hempty.2), hterminated, hterminated',
      if_pos (by simpa using hshort)]
    refine ⟨false, rfl, iff_of_false Bool.false_ne_true fun hends => ?_⟩
    obtain ⟨k, -, hplace, -⟩ := (hA.pair.suffix_iff hcsA hdsA).mp hends
    omega
  have hle := Nat.not_lt.mp hshort
  rcases cs with _ | ⟨c, cs⟩
  · obtain rfl : ds = [] := by
      rcases ds with _ | ⟨d, ds⟩
      · rfl
      · exact absurd (flatMap_pos (hsub.char d List.mem_cons_self).2 ds) (Nat.not_lt.mpr hle)
    rw [EndWithIgnoreCase.eq_def, h.string, hsub.string]
    exact ⟨true, rfl, iff_of_true rfl (List.suffix_refl _)⟩
  have hne := List.cons_ne_nil c cs
  generalize c :: cs = cs at *
  rcases place_cases (Nat.sub_le (cs.flatMap utf8).length (ds.flatMap utf8).length) with
    ⟨k, hk, hplace⟩ | ⟨k, j, hk, hpos, hj, hplace⟩
  · have hrest : (cstr cs).drop ((cs.flatMap utf8).length - (ds.flatMap utf8).length) =
        [] ++ cstr (cs.drop k) := by
      rw [hplace, charOffset, Code.drop_offset, List.nil_append]
    obtain ⟨b, hb, hiff⟩ := hA.pair.endWithIgnoreCase h hsub hdsA hne (hcs.drop k)
      (fun c hc => hcsA c (List.mem_of_mem_drop hc)) (fun x hx => absurd hx List.not_mem_nil)
      hle hrest
    exact ⟨b, hb, hiff.trans (hA.pair.begins_drop_iff hcs hcsA hdsA hk (by omega))⟩
  · have hvalid := (hcs.getElem hk).2
    have hj' : j ≤ (utf8 cs[k]).length := (length_utf8 cs[k]).symm ▸ hj.le
    have hrest : (cstr cs).drop ((cs.flatMap utf8).length - (ds.flatMap utf8).length) =
        (utf8 cs[k]).drop j ++ cstr (cs.drop (k + 1)) := by
      rw [hplace, charOffset, Code.drop_offset_add utf8 [0] hk hj']
    have hcsA' : ∀ c ∈ cs.drop (k + 1), A c := fun c hc => hcsA c (List.mem_of_mem_drop hc)
    obtain ⟨b, hb, hiff⟩ := hA.pair.endWithIgnoreCase h hsub hdsA hne (hcs.drop (k + 1)) hcsA'
      (tail_range hvalid hpos hj) hle hrest
    refine ⟨b, hb, hiff.trans (iff_of_false ?_ fun hends => ?_)⟩
    · have hbytes := congrArg List.length hrest
      have hle' := charOffset_add_le hk
      rw [List.length_drop, List.length_append, List.length_append, List.length_append,
        List.length_singleton, List.length_drop, length_utf8] at hbytes
      refine hA.not_begins hcsA' hdsA ?_ (hcsA _ (List.getElem_mem hk)) hpos hj ?_
      · rintro rfl
        rw [List.flatMap_nil, List.length_nil] at hplace
        omega
      · rw [List.length_drop, length_utf8]
        omega
    · obtain ⟨i, -, hplace', -⟩ := (hA.pair.suffix_iff hcsA hdsA).mp hends
      exact charOffset_ne (i := i) hk hpos hj (by omega)

end ElastosCar.ElString
