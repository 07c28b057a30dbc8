import ElastosCar.Strings.SharedBuffer

/-!
# The variables that share buffers

`String` variables of any number, and the memory with the buffers that they point to. What is
appended may lie in the buffer that it is appended to: it is read after the buffer has been resized,
and if `realloc` has moved the only copy, it is read where nothing is any more.

* `Kept`: each buffer has as many references as there are variables that point to it.
* `Does`: what a call does; it keeps the buffers and the values of the other variables.
-/

namespace ElastosCar.SharedStrings

open Sharing
open ElString (IsValidChar utf8 charLen GetByteCount)

/-! ### The variables -/

/-- The variables, and the buffers that they point to. -/
structure Store (ι : Type) where
  memory : Memory
  mString : ι → Option ℕ
  mCharCount : ι → UInt32

variable {ι : Type}

/-- The value of a variable. -/
def Store.value (s : Store ι) (v : ι) : ElString where
  mString := (s.mString v).bind fun a => (s.memory.buffers a).map SharedBuffer.bytes
  mCharCount := s.mCharCount v

/-- All variables `String()`, and the buffer of the empty string. -/
def start : Store ι where
  memory := { buffers := Function.update (fun _ => none) gElEmptyStringBuf (some ⟨1, [0]⟩) }
  mString _ := none
  mCharCount _ := 0

section Operations

variable [DecidableEq ι]

/-- `mString` is set. -/
def Store.point (s : Store ι) (v : ι) (mString : Option ℕ) (mCharCount : UInt32) : Store ι :=
  { s with
    mString := Function.update s.mString v mString
    mCharCount := Function.update s.mCharCount v mCharCount }

/-- The buffer of a variable is released, if it has one. -/
def Store.releaseOf (s : Store ι) (v : ι) : Store ι :=
  match s.mString v with
  | none => s
  | some a => { s with memory := s.memory.Release a }

/-- The destructor. -/
def Destroy (v : ι) (s : Store ι) : Store ι := (s.releaseOf v).point v none 0

/-- `SetTo(const String&)`, and the copy constructor where the variable is `String()`. -/
def SetTo (v other : ι) (s : Store ι) : Store ι :=
  let mString := s.mString other
  let mCharCount := s.mCharCount other
  let s := match mString with
    | none => s
    | some a => { s with memory := s.memory.Acquire a }
  (s.releaseOf v).point v mString mCharCount

/-- `SetTo(NULL)`. -/
def SetToNull (v : ι) (s : Store ι) : Store ι :=
  if s.mString v = none then s
  else (s.releaseOf v).point v none ((s.value v).SetCounted 0).mCharCount

/-- The common part of `SetTo(const char*)` and `SetTo(const char*, Int32)`. -/
def SetToBytes (v : ι) (bytes : List UInt8) (place : Option ℕ) (s : Store ι) : ECode × Store ι :=
  let r := s.memory._allocFromUTF8 bytes place
  let s := { s with memory := r.2 }.releaseOf v
  match r.1 with
  | some newString => (NOERROR, s.point v (some newString) 0)
  | none => (E_OUT_OF_MEMORY,
      { s with memory := s.memory.Acquire gElEmptyStringBuf }.point v (some gElEmptyStringBuf) 0)

/-- `LockBuffer`, for a buffer of the given size. -/
def LockBuffer (v : ι) (size : ℕ) (alloc : Allocator) (s : Store ι) : Option ℕ × Store ι :=
  let r := match s.mString v with
    | some a => s.memory.EditResize a size alloc
    | none => s.memory.Alloc (resize size []) alloc.malloc
  match r.1 with
  | some a => (some a, { s with memory := r.2 }.point v (some a) (s.mCharCount v))
  | none => (none, { s with memory := r.2 })

/-- `ClearCounted`. -/
def ClearCounted (v : ι) (s : Store ι) : Store ι :=
  { s with mCharCount := Function.update s.mCharCount v 0 }

/-- `RealAppend`; its first half does what `LockBuffer` does. -/
def RealAppend (v : ι) (other : Pointer) (numOfBytes : ℕ) (stale : List UInt8) (alloc : Allocator)
    (s : Store ι) : ECode × Store ι :=
  if numOfBytes = 0 then (NOERROR, s)
  else
    let s := ClearCounted v s
    let byteCount := (s.value v).GetByteLength
    let r := LockBuffer v (byteCount + numOfBytes + 1) alloc s
    match r.1 with
    | none => (E_OUT_OF_MEMORY, r.2)
    | some str =>
      let read := r.2.memory.read stale other numOfBytes
      (NOERROR, { r.2 with memory := read.2.write str byteCount (read.1 ++ [0]) })

/-- `Append(const char*, Int32)`. -/
def AppendN (v : ι) (other : Pointer) (numOfBytes : ℕ) (stale : List UInt8) (alloc : Allocator)
    (s : Store ι) : ECode × Store ι :=
  if numOfBytes = 0 then (NOERROR, s)
  else if (s.value v).GetByteLength = 0 then
    let read := s.memory.read stale other numOfBytes
    SetToBytes v read.1 alloc.malloc { s with memory := read.2 }
  else RealAppend v other (min (s.memory.strlen other) numOfBytes) stale alloc s

/-- `Append(const String&)`. -/
def AppendString (v other : ι) (stale : List UInt8) (alloc : Allocator) (s : Store ι) :
    ECode × Store ι :=
  let numBytes := (s.value other).GetByteLength
  if (s.value v).GetByteLength = 0 then (NOERROR, SetTo v other s)
  else if numBytes = 0 then (NOERROR, s)
  else match s.mString other with
    | none => (NOERROR, s)
    | some string => RealAppend v (.inside string 0) numBytes stale alloc s

/-- `Append(const String&, Int32)`. -/
def AppendFrom (v other : ι) (charOffset : ℤ) (stale : List UInt8) (alloc : Allocator)
    (s : Store ι) : ECode × Store ι :=
  let o := s.value other
  match s.mString other with
  | none => (NOERROR, s)
  | some mString =>
    if o.IsNullOrEmpty then (NOERROR, s)
    else
      let byteOffset := ElString.CharIndexToByteIndex o.mString charOffset
      if byteOffset < 0 then (E_INVALID_ARGUMENT, s)
      else
        let byteLength := o.GetByteLength
        let byteOffset := min byteLength byteOffset.toNat
        AppendN v (.inside mString byteOffset) (byteLength - byteOffset) stale alloc s

/-- `Append(Char32)`. -/
def AppendChar (v : ι) (ch : UInt32) (stale : List UInt8) (alloc : Allocator) (s : Store ι) :
    ECode × Store ι :=
  if IsValidChar ch then AppendN v (.bytes (utf8 ch)) (utf8 ch).length stale alloc s
  else (E_INVALID_ARGUMENT, s)

/-- `Append(const String&, Int32, Int32)`, from `startByte` to `endByte`. -/
def AppendRange (v other : ι) (offset numOfChars : ℤ) (stale : List UInt8) (alloc : Allocator)
    (s : Store ι) : ECode × Store ι :=
  let o := s.value other
  match s.mString other with
  | none => (NOERROR, s)
  | some mString =>
    if o.IsNullOrEmpty ∨ numOfChars ≤ 0 then (NOERROR, s)
    else
      let string := ElString.terminated o.data
      let ps := Scan.passes charLen string
      let ends := (ElString.places string)[offset.toNat + numOfChars.toNat]?
      if offset < 0 ∨ ps.length ≤ offset.toNat then (E_INVALID_ARGUMENT, s)
      else if ends = none ∧ (Scan.stop charLen string).headD 0 ≠ 0 then (E_INVALID_ARGUMENT, s)
      else
        let startByte := (ps[offset.toNat]?).elim 0 fun p => string.length - p.length
        let endByte := ends.elim (string.length - 1) fun p => string.length - p.length
        AppendN v (.inside mString startByte) (endByte - startByte) stale alloc s

/-- `SetCounted`. -/
def SetCounted (v : ι) (charCount : UInt32) (s : Store ι) : Store ι :=
  { s with
    mCharCount := Function.update s.mCharCount v ((s.value v).SetCounted charCount).mCharCount }

/-- `Append(const ArrayOf<Char32>&, Int32, Int32)`, whose own arrays are always there. -/
def AppendArray (v : ι) (array : List UInt32) (offset length : ℤ) (stale : List UInt8)
    (alloc : Allocator) (s : Store ι) : ECode × Store ι :=
  let offset := max 0 offset
  if array.length ≤ offset then (E_INVALID_ARGUMENT, s)
  else
    let length := min (array.length - offset) length
    if length ≤ 0 then (NOERROR, s)
    else
      let isNullStr := (s.value v).IsNullOrEmpty
      let chars := (array.drop offset.toNat).take length.toNat
      let appendedCharCount := (chars.filter fun c => 0 < GetByteCount c).length
      let bytes := chars.flatMap utf8
      if bytes = [] then (NOERROR, s)
      else
        let r := RealAppend v (.bytes bytes) bytes.length stale alloc s
        if r.1 ≠ NOERROR then r
        else if isNullStr then (NOERROR, SetCounted v (UInt32.ofNat appendedCharCount) r.2)
        else (NOERROR, ClearCounted v r.2)

/-- `UnlockBuffer(Int32)`. -/
def UnlockBuffer (v : ι) (numBytes : ℕ) (alloc : Allocator) (s : Store ι) : ECode × Store ι :=
  match s.mString v with
  | none => (NOERROR, s)
  | some mString =>
    let r := (s.value v).GetLength
    let s := s.point v (some mString) r.2.mCharCount
    if numBytes ≠ r.1 then
      let r := s.memory.EditResize mString (numBytes + 1) alloc
      match r.1 with
      | none => (E_OUT_OF_MEMORY, { s with memory := r.2 })
      | some str => (NOERROR, { s with memory := r.2.write str numBytes [0] }.point v (some str)
          (s.mCharCount v))
    else (NOERROR, s)

/-- `AppendFormat`, where `args` are the variables whose strings are printed and `text` is what
`vsnprintf` finds to print. Where it fails it returns -1; a buffer of no bytes is outside the
model. -/
def AppendFormat (v : ι) (args : List ι) (text : Option (List UInt8)) (stale : List UInt8)
    (alloc : Allocator) (s : Store ι) : Option (ECode × Store ι) :=
  let strings := args.filterMap s.mString
  let s := ClearCounted v s
  let oldLength := (s.value v).GetByteLength
  if text = some [] then some (NOERROR, s)
  else if text = none ∧ oldLength = 0 then none
  else
    let numBytes := text.elim (oldLength - 1) fun text => oldLength + text.length
    let r := LockBuffer v (numBytes + 1) alloc s
    match r.1 with
    | none => some (E_OUT_OF_MEMORY, r.2)
    | some buf =>
      -- what `UnlockBuffer` returns is dropped
      some (NOERROR, (UnlockBuffer v numBytes alloc { r.2 with
        memory := r.2.memory.vsnprintf strings text buf oldLength stale }).2)

end Operations

/-! ### What the variables keep -/

/-- The reference that `gElEmptyStringBuf` itself holds. -/
def base (a : ℕ) : ℕ := if a = gElEmptyStringBuf then 1 else 0

section Values

variable {s : Store ι} {m : Memory} {v u : ι}

theorem value_eq_mk : s.value v = ⟨(s.mString v).bind s.memory.bytesAt, s.mCharCount v⟩ := rfl

theorem value_of_memory (hbytes : ∀ c, s.mString u = some c → m.bytesAt c = s.memory.bytesAt c) :
    ({ s with memory := m } : Store ι).value u = s.value u := by
  rw [value_eq_mk, value_eq_mk]
  dsimp only
  rcases hu : s.mString u with _ | c
  · rfl
  · rw [Option.bind_some, Option.bind_some, hbytes c hu]

variable [DecidableEq ι]

theorem value_point_of_ne (hne : u ≠ v) (t : Option ℕ) (n : UInt32) :
    (s.point v t n).value u = s.value u := by
  rw [value_eq_mk, value_eq_mk]
  simp only [Store.point, Function.update_of_ne hne]

theorem value_point_self (t : Option ℕ) (n : UInt32) :
    (s.point v t n).value v = ⟨t.bind s.memory.bytesAt, n⟩ := by
  rw [value_eq_mk]
  simp only [Store.point, Function.update_self]

theorem point_point (s : Store ι) (v : ι) (t t' : Option ℕ) (n n' : UInt32) :
    (s.point v t n).point v t' n' = s.point v t' n' := by
  simp only [Store.point, Function.update_idem]

end Values

section Kept

variable [Fintype ι]

/-- Each buffer has as many references as there are variables that point to it, and the buffer of
the empty string one more. -/
structure Kept (s : Store ι) : Prop where
  holds : s.memory.Holds (weight base s.mString)
  empty : s.memory.bytesAt gElEmptyStringBuf = some [0]

/-- What a call does: it keeps the buffers and the values of the other variables, and gives its own
the value, if it succeeds. -/
structure Does (s : Store ι) (v : ι) (value : ElString) (r : ECode × Store ι) : Prop where
  kept : Kept r.2
  others : ∀ u, u ≠ v → r.2.value u = s.value u
  value : r.1 = NOERROR → r.2.value v = value

variable {s : Store ι} {m : Memory} {v u : ι} {a : ℕ}

theorem Kept.does_self (h : Kept s) (ec : ECode) : Does s v (s.value v) (ec, s) :=
  ⟨h, fun _ _ => rfl, fun _ => rfl⟩

/-- A call that fails gives its variable no value. -/
theorem Does.fails {x y : ElString} {r : ECode × Store ι} (h : Does s v x r) (hr : r.1 ≠ NOERROR) :
    Does s v y r := ⟨h.kept, h.others, fun heq => absurd heq hr⟩

/-- A call in two steps. -/
theorem Does.trans {x y : ElString} {s' : Store ι} {r : ECode × Store ι}
    {ec : ECode} (h : Does s v x (ec, s')) (h' : Does s' v y r) : Does s v y r where
  kept := h'.kept
  others u hne := (h'.others u hne).trans (h.others u hne)
  value := h'.value

theorem Kept.exists_bytes (h : Kept s) (hv : s.mString v = some a) :
    ∃ bytes, s.memory.bytesAt a = some bytes := by
  obtain ⟨b, hb, -⟩ := h.holds.exists_of_pos (weight_pos base hv)
  exact ⟨b.bytes, congrArg (Option.map SharedBuffer.bytes) hb⟩

theorem Kept.data_eq (h : Kept s) (hv : s.mString v = some a) :
    s.memory.bytesAt a = some (s.value v).data := by
  obtain ⟨bytes, hbytes⟩ := h.exists_bytes hv
  rw [ElString.data, value_eq_mk, hv, Option.bind_some, hbytes, Option.getD_some]

/-- A buffer with one reference, that of a variable, is not that of the empty string. -/
theorem ne_gElEmptyStringBuf (hown : weight base s.mString a = 1) (hv : s.mString v = some a) :
    gElEmptyStringBuf ≠ a := by
  rintro rfl
  have hlt : 1 < weight base s.mString gElEmptyStringBuf := one_lt_weight_of_base hv Nat.one_pos
  omega

theorem Kept.pos_of_bytesAt (h : Kept s) (ha : s.memory.bytesAt a = some data) :
    0 < weight base s.mString a := by
  obtain ⟨b, hb, -⟩ := Option.map_eq_some_iff.mp ha
  exact (h.holds.counted.eq hb).2

theorem pos_gElEmptyStringBuf : 0 < weight base s.mString gElEmptyStringBuf :=
  Nat.add_pos_right _ Nat.one_pos

variable [DecidableEq ι]

/-- A variable is turned to a buffer that has been counted for it, and its own is released. -/
theorem Kept.turn (h : Kept s) {t : Option ℕ}
    (hm : m.Holds (t.elim (weight base s.mString) fun e =>
      Function.update (weight base s.mString) e (weight base s.mString e + 1)))
    (hbytes : ∀ c, 0 < weight base s.mString c → m.bytesAt c = s.memory.bytesAt c) (n : UInt32)
    (ec : ECode) :
    Does s v ⟨t.bind m.bytesAt, n⟩
      (ec, (({ s with memory := m } : Store ι).releaseOf v).point v t n) := by
  rcases hv : s.mString v with _ | a
  · have hrelease : ({ s with memory := m } : Store ι).releaseOf v = { s with memory := m } := by
      rw [Store.releaseOf, hv]
    have hweight : weight base (Function.update s.mString v t) =
        t.elim (weight base s.mString) fun e =>
          Function.update (weight base s.mString) e (weight base s.mString e + 1) := by
      rcases t with _ | e
      · rw [Function.update_eq_self_iff.mpr hv.symm]
        rfl
      · exact weight_point hv e
    rw [hrelease]
    refine ⟨⟨?_, (hbytes _ pos_gElEmptyStringBuf).trans h.empty⟩, fun u hne => ?_, fun _ => ?_⟩
    · exact hweight ▸ hm
    · exact (value_point_of_ne hne t n).trans
        (value_of_memory fun c hc => hbytes c (weight_pos base hc))
    · exact value_point_self t n
  · have hrelease : ({ s with memory := m } : Store ι).releaseOf v =
        { s with memory := m.Release a } := by
      rw [Store.releaseOf, hv]
    set w := t.elim (weight base s.mString) fun e =>
      Function.update (weight base s.mString) e (weight base s.mString e + 1) with hw
    have hle : ∀ c, weight base s.mString c ≤ w c := by
      intro c
      rcases t with _ | e
      · exact le_rfl
      · rw [hw, Option.elim_some, Function.update_apply]
        split_ifs with hc
        · rw [hc]
          exact Nat.le_succ _
        · exact le_rfl
    have hweight : weight base (Function.update s.mString v t) = Function.update w a (w a - 1) := by
      rcases t with _ | e
      · exact weight_drop hv
      · exact weight_move hv e
    obtain ⟨hholds, hrest⟩ := hm.Release (lt_of_lt_of_le (weight_pos base hv) (hle a))
    rw [hrelease]
    refine ⟨⟨?_, ?_⟩, fun u hne => ?_, fun _ => ?_⟩
    · exact hweight ▸ hholds
    · refine (hrest _ fun heq => ?_).trans ((hbytes _ pos_gElEmptyStringBuf).trans h.empty)
      exact lt_of_lt_of_le (one_lt_weight_of_base hv (heq ▸ Nat.one_pos)) (hle a)
    · refine (value_point_of_ne hne t n).trans (value_of_memory fun c hc => ?_)
      refine (hrest c fun heq => ?_).trans (hbytes c (weight_pos base hc))
      exact lt_of_lt_of_le (one_lt_weight hv (heq ▸ hc) hne) (hle a)
    · refine (value_point_self t n).trans ?_
      rcases t with _ | e
      · rfl
      · refine congrArg (ElString.mk · n) (hrest e fun heq => ?_)
        rw [hw, Option.elim_some, heq, Function.update_self]
        exact Nat.lt_add_of_pos_left (weight_pos base hv)

/-! ### Assignments -/

variable {other : ι} {ec : ECode} {bytes : List UInt8} {alloc : Allocator}

theorem Kept.does_Destroy (h : Kept s) : Does s v {} (ec, Destroy v s) :=
  h.turn (t := none) h.holds (fun _ _ => rfl) 0 ec

theorem Kept.does_SetTo (h : Kept s) : Does s v (s.value other) (ec, SetTo v other s) := by
  rw [SetTo, value_eq_mk]
  rcases hother : s.mString other with _ | e
  · exact h.turn (t := none) h.holds (fun _ _ => rfl) _ ec
  · obtain ⟨hacquire, hbytes⟩ := h.holds.Acquire (weight_pos base hother)
    have hturn := h.turn (v := v) (t := some e) hacquire (fun c _ => hbytes c)
      (s.mCharCount other) ec
    rwa [Option.bind_some, hbytes] at hturn

theorem Kept.does_SetToNull (h : Kept s) :
    Does s v ((s.value v).SetToChars none) (ec, SetToNull v s) := by
  rw [SetToNull, ElString.SetToChars]
  rcases hv : s.mString v with _ | a
  · have hnull : (s.value v).mString = none := by
      rw [value_eq_mk, hv]
      rfl
    rw [if_pos rfl, if_pos hnull]
    exact h.does_self ec
  · obtain ⟨bytes, hbytes⟩ := h.exists_bytes hv
    have hnull : (s.value v).mString ≠ none := by
      rw [value_eq_mk, hv, Option.bind_some, hbytes]
      exact nofun
    rw [if_neg hnull, if_neg (Option.some_ne_none a)]
    exact h.turn (t := none) h.holds (fun _ _ => rfl) _ ec

/-- Where there is no memory, the variable is the empty string. -/
theorem Kept.does_empty (h : Kept s) :
    Does s v ⟨some [0], 0⟩ (ec, { s.releaseOf v with
      memory := (s.releaseOf v).memory.Acquire gElEmptyStringBuf }.point v
        (some gElEmptyStringBuf) 0) := by
  have hnull : Does s v {} (NOERROR, (s.releaseOf v).point v none 0) :=
    h.turn (t := none) h.holds (fun _ _ => rfl) 0 NOERROR
  obtain ⟨hacquire, hempty⟩ := hnull.kept.holds.Acquire pos_gElEmptyStringBuf
  have hturn := hnull.kept.turn (v := v) (t := some gElEmptyStringBuf) hacquire
    (fun c _ => hempty c) 0 ec
  have hrelease : ∀ m : Memory,
      ({ (s.releaseOf v).point v none 0 with memory := m } : Store ι).releaseOf v =
        ({ s.releaseOf v with memory := m } : Store ι).point v none 0 := by
    intro m
    rw [Store.releaseOf]
    simp only [Store.point, Function.update_self]
  rw [hrelease, point_point, Option.bind_some, hempty, hnull.kept.empty] at hturn
  exact hnull.trans hturn

theorem Kept.does_SetToBytes (h : Kept s) (hfresh : alloc.Fresh s.memory.buffers) :
    Does s v ((s.value v).SetToCharsN bytes) (SetToBytes v bytes alloc.malloc s) := by
  rw [SetToBytes, Memory._allocFromUTF8, ElString.SetToCharsN, ElString._allocFromUTF8]
  obtain ⟨hacquire, hempty⟩ := h.holds.Acquire pos_gElEmptyStringBuf
  split_ifs with hnil
  · have hturn := h.turn (v := v) (t := some gElEmptyStringBuf) hacquire (fun c _ => hempty c) 0
      NOERROR
    rwa [Option.bind_some, hempty, h.empty] at hturn
  rcases hmalloc : alloc.malloc with _ | a
  · exact h.does_empty.fails E_OUT_OF_MEMORY_ne
  · have hzero : weight base s.mString a = 0 := h.holds.counted.eq_zero (hfresh.malloc a hmalloc)
    obtain ⟨halloc, hbytes⟩ := h.holds.Alloc a (bytes ++ [0])
    have hturn := h.turn (v := v) (t := some a) (by rwa [Option.elim_some, hzero])
      (fun c hc => (hbytes c).trans (if_neg fun heq => by rw [heq] at hc; omega)) 0 NOERROR
    rwa [Option.bind_some, hbytes, if_pos rfl] at hturn

end Kept

end ElastosCar.SharedStrings
