import ElastosCar.Parcel.Array
import ElastosCar.Parcel.Safety

/-!
# Arrays there and back

An array is written with `WriteArrayOf` or `WriteArrayOfString` and read with the operation of the
same name. The two pairs do not fit together equally well.

* `ReadArrayOf` undoes `WriteArrayOf`, except that a null array leaves the caller's variable alone
  on the way back.
* `WriteArrayOfString` writes a null tag for a null array only, while `ReadArrayOfString` reads one
  in any case: it takes the flags of the quintet for the tag and everything after them is shifted by
  a word. The reader's position is what gives it away: reading the strings that were written takes
  as many bytes as they have (`length_le_of_readStrings`), so whoever starts a word too late ends
  behind the array.
-/

namespace ElastosCar

namespace CRemoteParcel

/-! ### `ReadArrayOfString` -/

/-- The loop of `ReadArrayOfString` when there is no array to store into: the first element that is
not null is stored through a `NULL` pointer. -/
def readNulls : ℕ → UInt32 → ReadM Unit
  | 0, _ => pure ()
  | n + 1, tag => do
    let (_, tag) ← readInt32 tag
    if tag ≠ MSH_NULL then throw .nullPointer else readNulls n tag

theorem div_sizeofString (size : UInt32) :
    ((size / sizeofString * sizeofString) / sizeofString).toNat = (size / sizeofString).toNat := by
  have hlt := size.toNat_lt
  simp only [sizeofString, UInt32.toNat_div, UInt32.toNat_mul, UInt32.reduceToNat]
  omega

/-- The elements fit an array of `ArrayOf<String>::Alloc`. -/
theorem fits_strings {size : UInt32} {ss : List CarString}
    (h : ss.length = (size / sizeofString).toNat) :
    (Payload.strings ss).Fits (Type_String &&& TypeMask) (size / sizeofString * sizeofString) :=
  ⟨by decide, by rw [div_sizeofString, h]⟩

/-- `ReadArrayOfString`. The array is allocated for the size in the header, rounded down to whole
elements. -/
def readArrayOfString (junk : ArrayJunk) : ReadM (ECode × ArraySlot) := do
  let (_, tag) ← readInt32 junk.tag
  if tag ≠ MSH_NULL then
    let (_, q) ← read 20
    let size := wordOf (((q.getD junk.quintet).drop 12).take 4)
    if refusesSize (size / sizeofString * sizeofString) then
      readNulls (size / sizeofString).toNat tag
      pure (NOERROR, .null)
    else
      let ss ← readStrings (size / sizeofString).toNat tag
      pure (NOERROR, .array (.allocated Type_String (size / sizeofString * sizeofString) junk.buf
        (.strings ss.1) (fits_strings ss.2)))
  else pure (NOERROR, .untouched)

end CRemoteParcel

/-! ### The two pairs -/

/-- The caller's variable after a read. -/
def ArraySlot.after (old : Option CarQuintet) : ArraySlot → Option CarQuintet
  | .untouched => old
  | .null => none
  | .array q => some q

/-- An array and the operation it is written with. -/
inductive ArrayWrite
  | arrayOf (value : Option { q : CarQuintet // q.Plain })
  | arrayOfString (array : Option { q : CarQuintet // q.type = Type_String })

namespace ArrayWrite

open CRemoteParcel

/-- `WriteArrayOf` or `WriteArrayOfString`. -/
def write (env : Allocator) (itfs : Interfaces) : ArrayWrite → CRemoteParcel → ECode × CRemoteParcel
  | .arrayOf value => writeArrayOf env itfs (value.map (·.1))
  | .arrayOfString array => writeArrayOfString env (array.map (·.1))

/-- `ReadArrayOf` or `ReadArrayOfString`. -/
def read (itfs : Interfaces) (junk : ArrayJunk) : ArrayWrite → ReadM (ECode × ArraySlot)
  | .arrayOf _ => readArrayOf itfs junk
  | .arrayOfString _ => readArrayOfString junk

/-- The bytes an array is written as. -/
def wire : ArrayWrite → List UInt8
  | .arrayOf none | .arrayOfString none => wire32 MSH_NULL
  | .arrayOf (some q) => wireArray q.1
  | .arrayOfString (some q) => q.1.bytes ++ (q.1.strings.map wireString).flatten

/-- The array read is the array written: null for null, else of equal length and elements. -/
def Same : ArrayWrite → Option CarQuintet → Prop
  | .arrayOf none, r | .arrayOfString none, r => r = none
  | .arrayOf (some q), r => ∃ x, r = some x ∧ x.SameContents q.1
  | .arrayOfString (some q), r => ∃ x, r = some x ∧ x.strings = q.1.strings

/-- **The round trip**: the array is written to a new parcel, anything is written after it, and the
read from the start returns the array, in the caller's variable that held `old`, and stops where the
array ends. -/
def RoundTrips (w : ArrayWrite) (old : Option CarQuintet) : Prop :=
  ∀ (env : Allocator) (itfs : Interfaces) (junk : ArrayJunk)
    (further : CRemoteParcel → ECode × CRemoteParcel) (rest : List UInt8),
    env.Succeeds → Appends further rest → w.wire.length + rest.length < 2 ^ 30 →
    (w.write env itfs {}).1 = NOERROR ∧
    ∃ slot q, w.read itfs junk ((further (w.write env itfs {}).2).2.setDataPosition 0)
        = .ok ((NOERROR, slot), q) ∧
      w.Same (slot.after old) ∧ q.mDataPos = (w.write env itfs {}).2.mDataSize

/-- What can be written and read back. -/
def Readable (old : Option CarQuintet) : ArrayWrite → Prop
  | .arrayOf (some _) => True
  | .arrayOf none | .arrayOfString none => old = none
  | .arrayOfString (some _) => False

end ArrayWrite

namespace CRemoteParcel

/-! ### Reading strings takes their bytes -/

/-- Data, and a position in it, that are whole words. -/
structure Aligned (p : CRemoteParcel) : Prop where
  size : 4 ∣ p.mDataSize.toNat
  pos : 4 ∣ p.mDataPos.toNat
  pos_le : p.mDataPos.toNat ≤ p.mDataSize.toNat
  lt : p.mDataSize.toNat < 2 ^ 30

/-- What an element read from `p` on takes: nothing is taken back, and where a word is left behind
it, at least `n` bytes. -/
structure Takes (p q : CRemoteParcel) (n : ℕ) : Prop where
  size : q.mDataSize = p.mDataSize
  le : p.mDataPos.toNat ≤ q.mDataPos.toNat
  taken : q.mDataPos.toNat + 4 ≤ p.mDataSize.toNat → p.mDataPos.toNat + n ≤ q.mDataPos.toNat

variable {p q r : CRemoteParcel}

theorem Takes.trans {m n : ℕ} (h : Takes p q m) (h' : Takes q r n) : Takes p r (m + n) where
  size := h'.size.trans h.size
  le := h.le.trans h'.le
  taken hr := by
    have hq := h'.taken (by rw [h.size]; exact hr)
    have hp := h.taken (by omega)
    omega

/-- Moving on by whole words. -/
theorem Aligned.advance (hp : p.Aligned) {n : UInt32} (h4 : 4 ∣ n.toNat)
    (h : p.mDataPos.toNat + n.toNat ≤ p.mDataSize.toNat) : (p.advance n).Aligned where
  size := hp.size
  pos := by
    rw [toNat_pos_advance h]
    exact Nat.dvd_add hp.pos h4
  pos_le := by
    rw [toNat_pos_advance h]
    exact h
  lt := hp.lt

/-- `ReadCStringInner` takes the string it returns, padded. -/
theorem Aligned.readCStringInner (hp : p.Aligned) :
    ∃ s q, CRemoteParcel.readCStringInner p = .ok (s, q) ∧ q.Aligned ∧
      Takes p q (s.elim 0 fun s => (padded s.terminated).length) := by
  refine ⟨_, _, readCStringInner_eq hp.pos_le, ?_⟩
  rcases hs : p.stringAt p.mDataPos.toNat with _ | s
  · exact ⟨hp, rfl, le_rfl, fun _ => le_rfl⟩
  have hlen := length_cstring_lt (show cstring (load _ _ _) = some s from hs)
  rw [length_load] at hlen
  have hsize := hp.size
  have hpos := hp.pos
  have hlt := hp.lt
  have hn : (UInt32.ofNat s.chars.length + 1).toNat = s.chars.length + 1 := by
    rw [UInt32.toNat_add, UInt32.toNat_ofNat_of_lt' (by change _ < 4294967296; omega)]
    simp only [UInt32.reduceToNat]
    omega
  have hpad : (padSize (UInt32.ofNat s.chars.length + 1)).toNat = pad4 (s.chars.length + 1) := by
    rw [toNat_padSize_of_le (by rw [hn]; omega), hn]
  -- size and position being whole words, the padding is there too
  have hfit : p.mDataPos.toNat + pad4 (s.chars.length + 1) ≤ p.mDataSize.toNat := by
    rw [pad4]
    omega
  refine ⟨hp.advance (by rw [hpad, pad4]; omega) (by rw [hpad]; exact hfit), rfl, ?_, fun _ => ?_⟩
  · rw [toNat_pos_advance (by rw [hpad]; exact hfit)]
    omega
  · rw [toNat_pos_advance (by rw [hpad]; exact hfit), hpad]
    simp

/-- An iteration of the loop over `String` elements takes at least what writing the element
did. -/
theorem Aligned.readStrings_succ {n : ℕ} {tag : UInt32}
    {ss : { ss : List CarString // ss.length = n + 1 }} (hp : p.Aligned) (h : readStrings (n + 1) tag p = .ok (ss, r)) :
    ∃ tag' s q, ∃ ss' : { ss : List CarString // ss.length = n },
      readStrings n tag' q = .ok (ss', r) ∧ ss.1 = s :: ss'.1 ∧ q.Aligned ∧
      Takes p q (wireString s).length := by
  have hlt := hp.lt
  have hle := hp.pos_le
  rw [readStrings] at h
  obtain ⟨⟨ec, tag'⟩, q, hread, h⟩ := Run.bind_eq_ok h
  have helement : ∃ s q', ∃ ss' : { ss : List CarString // ss.length = n },
      readStrings n tag' q' = .ok (ss', r) ∧ ss.1 = s :: ss'.1 ∧
      (q.Aligned → q'.Aligned ∧ Takes q q' (s.elim 0 fun s => (padded s.terminated).length)) := by
    dsimp only at h
    split at h
    · obtain ⟨s, q', hs, h⟩ := Run.bind_eq_ok h
      obtain ⟨ss', r', htail, hend⟩ := Run.bind_eq_ok h
      cases hend
      refine ⟨s, q', ss', htail, rfl, fun hq => ?_⟩
      obtain ⟨s', q'', hok, hq', htakes⟩ := hq.readCStringInner
      rw [hok] at hs
      cases hs
      exact ⟨hq', htakes⟩
    · obtain ⟨s, q', hs, h⟩ := Run.bind_eq_ok h
      obtain ⟨ss', r', htail, hend⟩ := Run.bind_eq_ok h
      cases hend
      cases hs
      exact ⟨none, q, ss', htail, rfl, fun hq => ⟨hq, rfl, le_rfl, fun _ => le_rfl⟩⟩
  obtain ⟨s, q', ss', htail, hss, htakes⟩ := helement
  have hwire : (wireString s).length
      = 4 + s.elim 0 fun s => (padded s.terminated).length := by
    cases s <;> simp [wireString]
  refine ⟨tag', s, q', ss', htail, hss, ?_⟩
  rcases readInt32_cases tag (p := p) (by omega) with ⟨hle, hok⟩ | ⟨hgt, hok⟩
  · rw [hok] at hread
    cases hread
    obtain ⟨hq', htakes⟩ := htakes (hp.advance (by decide) hle)
    have hword : Takes p (p.advance 4) 4 :=
      ⟨rfl, by rw [toNat_pos_advance hle]; omega, fun _ => by rw [toNat_pos_advance hle]; rfl⟩
    exact ⟨hq', hwire ▸ hword.trans htakes⟩
  · -- no word was left, and none is left behind
    rw [hok] at hread
    cases hread
    obtain ⟨hq', htakes⟩ := htakes hp
    exact ⟨hq', htakes.size, htakes.le, fun h => by have := htakes.le; omega⟩

/-- **Reading strings** takes at least the bytes that writing them would. -/
theorem takes_readStrings (n : ℕ) : ∀ (tag : UInt32) (p q : CRemoteParcel)
    (ss : { ss : List CarString // ss.length = n }), p.Aligned →
    readStrings n tag p = .ok (ss, q) → Takes p q (ss.1.map wireString).flatten.length := by
  induction n with
  | zero =>
    intro tag p q ss hp h
    cases h
    exact ⟨rfl, le_rfl, fun _ => le_rfl⟩
  | succ n ih =>
    intro tag p q ss hp h
    obtain ⟨tag', s, r, ss', htail, hss, hr, htakes⟩ := hp.readStrings_succ h
    rw [hss, List.map_cons, List.flatten_cons, List.length_append]
    exact htakes.trans (ih tag' r q ss' hr htail)

/-! ### A reader that starts a word too late -/

theorem appends_writeArrayOfString {env : Allocator} (henv : env.Succeeds) (q : CarQuintet) :
    Appends (writeArrayOfString env (some q)) (q.bytes ++ (q.strings.map wireString).flatten) :=
  (appends_quintet henv q).seq (appends_writeStrings henv q.strings)

theorem four_dvd_length_strings (ss : List CarString) :
    4 ∣ (ss.map wireString).flatten.length := by
  induction ss with
  | nil => simp
  | cons s ss ih =>
    rw [List.map_cons, List.flatten_cons, List.length_append]
    refine Nat.dvd_add ?_ ih
    cases s with
    | none => simp [wireString]
    | some s =>
      simp only [wireString, List.length_append, length_wire32, length_padded, pad4]
      omega

/-- The first word of a string array is its flags, which are not zero. -/
theorem htonl_flags_ne {q : CarQuintet} (hq : q.type = Type_String) : htonl q.mFlags ≠ MSH_NULL := by
  intro h
  have hflags : q.mFlags = 0 := by
    rw [← ntohl_htonl q.mFlags, h]
    decide
  rw [CarQuintet.type, hflags] at hq
  exact absurd hq (by decide)

/-- **What `WriteArrayOfString` wrote, `ReadArrayOfString` does not read**: when it returns the
strings, it has gone past their end. -/
theorem pos_ne_of_readArrayOfString {q : CarQuintet} (hq : q.type = Type_String)
    {rest : List UInt8} (hrest : 0 < rest.length) (h4 : 4 ∣ rest.length) (hpos : p.mDataPos = 0)
    (hp : p.Holds (q.bytes ++ (q.strings.map wireString).flatten ++ rest)) {junk : ArrayJunk}
    {ec : ECode} {slot : ArraySlot} (h : readArrayOfString junk p = .ok ((ec, slot), r))
    {old : Option CarQuintet} (hx : ∃ x, slot.after old = some x ∧ x.strings = q.strings) :
    r.mDataPos.toNat ≠ (q.bytes ++ (q.strings.map wireString).flatten).length := by
  have hsize := hp.size
  have hlt := hp.lt
  have h0 : p.mDataPos.toNat = 0 := by rw [hpos]; rfl
  have hE := four_dvd_length_strings q.strings
  simp only [List.length_append, CarQuintet.length_bytes, h0, Nat.zero_add] at hsize ⊢
  have hflags : q.bytes = wire32 (htonl q.mFlags) ++ q.bytes.drop 4 := by
    have hword : wire32 (htonl q.mFlags) = wordBytes q.mFlags := by
      rw [wire32, ← ntohl, ntohl_htonl]
    rw [hword]
    simp [CarQuintet.bytes]
  have htag := reads_readInt32 (htonl q.mFlags) junk.tag p _
    (by rw [hflags, List.append_assoc, List.append_assoc] at hp; exact hp)
  have hn : sizeOf32 (wire32 (htonl q.mFlags)) = 4 := by rw [sizeOf32, length_wire32]; rfl
  rw [hn] at htag
  have hpos4 : (p.advance 4).mDataPos.toNat = 4 := by
    rw [toNat_pos_advance (by rw [h0, ← hsize]; simp; omega), h0]
    rfl
  -- the quintet is read from the second word on, and its last word is what follows it
  have hquintet : (p.advance 4).mDataPos.toNat + pad4 (20 : UInt32).toNat ≤ p.mDataSize.toNat := by
    rw [hpos4, ← hsize, show pad4 (20 : UInt32).toNat = 20 from rfl]
    omega
  rw [readArrayOfString, Run.bind_ok htag] at h
  dsimp only at h
  rw [if_pos (htonl_flags_ne hq)] at h
  rcases read_cases (p := p.advance 4) (n := 20) (by decide) with ⟨-, hread⟩ | ⟨hlt', -⟩
  swap
  · exact absurd hquintet (by change p.mDataSize.toNat < _ at hlt'; omega)
  rw [Run.bind_ok hread] at h
  dsimp only at h
  have hpos24 : ((p.advance 4).advance (padSize 20)).mDataPos.toNat = 24 := by
    rw [toNat_pos_advance_padSize (by decide) hquintet, hpos4]
    rfl
  have haligned : ((p.advance 4).advance (padSize 20)).Aligned := by
    refine ⟨?_, by rw [hpos24]; decide, ?_, hlt⟩
    · change 4 ∣ p.mDataSize.toNat
      omega
    · rw [hpos24]
      change 24 ≤ p.mDataSize.toNat
      omega
  split at h
  · obtain ⟨u, p', -, h⟩ := Run.bind_eq_ok h
    cases h
    obtain ⟨x, hx, -⟩ := hx
    cases hx
  · obtain ⟨ss, p', hstrings, h⟩ := Run.bind_eq_ok h
    cases h
    obtain ⟨x, hx, hss⟩ := hx
    cases hx
    have htakes := takes_readStrings _ _ _ _ ss haligned hstrings
    have htaken := htakes.taken
    rw [hpos24, show ss.1 = q.strings from hss] at htaken
    change _ + 4 ≤ p.mDataSize.toNat → _ at htaken
    intro heq
    have := htaken (by omega)
    omega

end CRemoteParcel

/-! ### The round trip -/

namespace ArrayWrite

open CRemoteParcel

variable {env : Allocator} {old : Option CarQuintet}

/-- The writer appends the wire format. -/
theorem appends_write (henv : env.Succeeds) (itfs : Interfaces) (w : ArrayWrite) :
    Appends (w.write env itfs) w.wire := by
  rcases w with (_ | q) | (_ | q)
  · exact appends_writeInt32 henv MSH_NULL
  · exact appends_writeArrayOf henv itfs q.2
  · exact appends_writeInt32 henv MSH_NULL
  · exact appends_writeArrayOfString henv q.1

/-- What is there to read after an array and the writes behind it. -/
theorem holds_write (henv : env.Succeeds) (itfs : Interfaces) (w : ArrayWrite)
    {further : CRemoteParcel → ECode × CRemoteParcel} {rest : List UInt8}
    (hfurther : Appends further rest) (hlt : w.wire.length + rest.length < 2 ^ 30) :
    (w.write env itfs {}).1 = NOERROR ∧
      (w.write env itfs {}).2.mDataSize.toNat = w.wire.length ∧
      ((further (w.write env itfs {}).2).2.setDataPosition 0).Holds (w.wire ++ rest) := by
  obtain ⟨p, hp, hready, hcontents, -⟩ := w.appends_write henv itfs {} ready_new
    (by change 0 + _ < _; omega)
  have hp0 : p.contents = w.wire := hcontents
  have hsize : p.mDataSize.toNat = w.wire.length := by rw [← length_contents, hp0]
  obtain ⟨q, hq, -, hcontents', -⟩ := hfurther p hready (by omega)
  rw [hp0] at hcontents'
  rw [hp]
  refine ⟨rfl, hsize, ?_⟩
  dsimp only
  rw [hq, ← hcontents']
  refine holds_contents ?_
  rw [← length_contents, hcontents', List.length_append]
  exact hlt

/-- What a reader of the wire format does to the caller's variable decides the round trip. -/
theorem roundTrips_iff_of_reads {w : ArrayWrite}
    (h : ∀ (itfs : Interfaces) (junk : ArrayJunk), ∃ slot,
      Reads (w.read itfs junk) w.wire (NOERROR, slot) ∧ (w.Same (slot.after old) ↔ w.Readable old))
    (hlt : w.wire.length < 2 ^ 30) (itfs₀ : Interfaces) (junk₀ : ArrayJunk) :
    w.RoundTrips old ↔ w.Readable old := by
  constructor
  · intro htrips
    have hnone : Appends (fun p => (NOERROR, p)) [] := fun p hp _ => ⟨p, rfl, hp, by simp, rfl⟩
    obtain ⟨-, slot, q, hread, hsame, -⟩ := htrips .zeros itfs₀ junk₀ _ [] Allocator.zeros_succeeds
      hnone (by simpa using hlt)
    obtain ⟨slot', hreads, hiff⟩ := h itfs₀ junk₀
    obtain ⟨-, -, hholds⟩ := w.holds_write Allocator.zeros_succeeds itfs₀ hnone (by simpa using hlt)
    rw [hreads _ _ hholds] at hread
    cases hread
    exact hiff.mp hsame
  · intro hreadable env itfs junk further rest henv hfurther hlt'
    obtain ⟨hec, hsize, hholds⟩ := w.holds_write henv itfs hfurther hlt'
    obtain ⟨slot, hreads, hiff⟩ := h itfs junk
    refine ⟨hec, slot, _, hreads _ _ hholds, hiff.mpr hreadable, ?_⟩
    apply UInt32.toNat_inj.mp
    rw [hsize]
    exact hholds.toNat_add.trans (Nat.zero_add _)

/-- Objects that cannot be marshalled; plain arrays have none. -/
def noInterfaces : Interfaces where
  marshal _ := ⟨E_FAIL, List.replicate 28 0, length_zeroPack⟩
  netAddress _ := none
  elementPack _ := ⟨List.replicate 28 0, length_zeroPack⟩
  writeToParcel _ p := p
  unmarshal _ _ := pure (.error E_FAIL)
  unmarshalPtr _ := pure (.error E_FAIL)

def noArrayJunk : ArrayJunk := ⟨0, List.replicate 20 0, List.replicate 28 0, 0⟩

/-- With a word behind it, no string array survives `WriteArrayOfString`. -/
theorem not_roundTrips_arrayOfString (q : { q : CarQuintet // q.type = Type_String })
    (hlt : (arrayOfString (some q)).wire.length + 4 < 2 ^ 30) :
    ¬ (arrayOfString (some q)).RoundTrips old := by
  intro htrips
  have hword := appends_writeInt32 Allocator.zeros_succeeds 0
  have hbound : (arrayOfString (some q)).wire.length + (wire32 0).length < 2 ^ 30 := by
    rwa [length_wire32]
  obtain ⟨-, slot, r, hread, hsame, hpos⟩ :=
    htrips .zeros noInterfaces noArrayJunk _ _ Allocator.zeros_succeeds hword hbound
  obtain ⟨-, hsize, hholds⟩ :=
    holds_write Allocator.zeros_succeeds noInterfaces _ hword hbound
  refine pos_ne_of_readArrayOfString q.2 (by simp) (by simp) rfl hholds hread hsame ?_
  rw [hpos, hsize]
  rfl

/-- A null array survives where the caller's variable was null. -/
theorem roundTrips_null_iff {w : ArrayWrite} (hw : w = .arrayOf none ∨ w = .arrayOfString none) :
    w.RoundTrips old ↔ old = none := by
  have hreads (itfs : Interfaces) (junk : ArrayJunk) :
      Reads (w.read itfs junk) w.wire (NOERROR, .untouched) := by
    rcases hw with rfl | rfl <;>
      exact (reads_readInt32 MSH_NULL junk.tag).map (by simp)
  rcases hw with rfl | rfl <;>
    exact roundTrips_iff_of_reads (fun itfs junk => ⟨_, hreads itfs junk, Iff.rfl⟩) (by decide)
      noInterfaces noArrayJunk

/-- `ReadArrayOf` undoes `WriteArrayOf`. -/
theorem roundTrips_arrayOf (q : { q : CarQuintet // q.Plain })
    (hlt : (arrayOf (some q)).wire.length < 2 ^ 30) : (arrayOf (some q)).RoundTrips old := by
  refine (roundTrips_iff_of_reads (w := arrayOf (some q)) (fun itfs junk =>
    ⟨_, reads_readArrayOf itfs junk q.2, ?_⟩) hlt noInterfaces noArrayJunk).mpr trivial
  exact iff_of_true ⟨_, rfl, q.1.sameContents_copy junk.buf⟩ trivial

/-- **Which arrays survive the round trip**: those written with `WriteArrayOf`, and null arrays
where the caller's variable was null already. -/
theorem roundTrips_iff (w : ArrayWrite) (old : Option CarQuintet)
    (hlt : w.wire.length + 4 < 2 ^ 30) : w.RoundTrips old ↔ w.Readable old := by
  rcases w with (_ | q) | (_ | q)
  · exact roundTrips_null_iff (Or.inl rfl)
  · exact iff_of_true (roundTrips_arrayOf q (by omega)) trivial
  · exact roundTrips_null_iff (Or.inr rfl)
  · exact iff_of_false (not_roundTrips_arrayOfString q hlt) id

/-- The array of the string `"a"`. -/
def oneString : CarQuintet :=
  ⟨Type_String, 0, 8, 8, 0x1000, .strings [some ⟨[0x61], zero_notMem_a⟩], by decide⟩

theorem roundTrips_iff_oneString :
    (arrayOfString (some ⟨oneString, rfl⟩)).wire.length + 4 < 2 ^ 30 ∧
      ((arrayOfString (some ⟨oneString, rfl⟩)).RoundTrips none ↔
        (arrayOfString (some ⟨oneString, rfl⟩)).Readable none) :=
  ⟨by decide, roundTrips_iff _ none (by decide)⟩

/-- The string array is not read back, and a null array leaves another array where it was. -/
theorem oneString_not_roundTrips : ¬ (arrayOfString (some ⟨oneString, rfl⟩)).RoundTrips none ∧
    ¬ (arrayOf none).RoundTrips (some oneString) :=
  ⟨not_roundTrips_arrayOfString _ (by decide),
    fun h => nomatch (roundTrips_null_iff (Or.inl rfl)).mp h⟩

end ArrayWrite

end ElastosCar
