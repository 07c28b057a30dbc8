import ElastosCar.Lib.Sharing
import ElastosCar.Strings.Variables

/-!
# The buffers that `String`s share

A `SharedBuffer` counts the `String`s that point to it. The last of them frees it. One that is
edited belongs to the `String` alone that edits it, or is copied first (`EditResize`); a buffer that
`realloc` moves is gone from where it was.

* `Holds`: the buffers that are there are those with references, and each counts its own.
* `Holds.EditResize`: what becomes of a buffer that is resized.
-/

namespace ElastosCar.SharedStrings

open Sharing

/-! ### The buffers -/

structure SharedBuffer where
  mRefs : ℤ
  /-- `GetData()`, of `mSize` bytes. -/
  bytes : List UInt8
deriving DecidableEq, Repr

/-- The buffers by their addresses. -/
structure Memory where
  buffers : ℕ → Option SharedBuffer
  /-- A buffer has been read that was freed. -/
  readFreed : Bool := false

/-- What becomes of a block that is resized. -/
inductive Realloc
  | inPlace
  | moved (a : ℕ)
  | failed
deriving DecidableEq, Repr

/-- What the C library answers to the allocations of one call. -/
structure Allocator where
  malloc : Option ℕ
  realloc : Realloc
deriving DecidableEq, Repr

/-- The new blocks are where none is. -/
structure Allocator.Fresh (alloc : Allocator) (buffers : ℕ → Option SharedBuffer) : Prop where
  malloc : ∀ a, alloc.malloc = some a → buffers a = none
  moved : ∀ a, alloc.realloc = .moved a → buffers a = none

/-- A block that is resized stays where it is. -/
def Allocator.Keeps (alloc : Allocator) : Prop :=
  alloc.realloc = .inPlace ∨ alloc.realloc = .failed ∧ alloc.malloc = none

/-- The first bytes of a block of another size. What has not been written is zero here; all of it is
written before it is read. -/
def resize (n : ℕ) (bytes : List UInt8) : List UInt8 :=
  bytes.take n ++ List.replicate (n - bytes.length) 0

namespace Memory

variable (m : Memory)

def set (a : ℕ) (b : Option SharedBuffer) : Memory :=
  { m with buffers := Function.update m.buffers a b }

/-- A buffer is used that is not there. -/
def fault : Memory := { m with readFreed := true }

/-- `SharedBuffer::Alloc`. -/
def Alloc (bytes : List UInt8) (place : Option ℕ) : Option ℕ × Memory :=
  match place with
  | none => (none, m)
  | some a => (some a, m.set a (some ⟨1, bytes⟩))

def Acquire (a : ℕ) : Memory :=
  match m.buffers a with
  | none => m.fault
  | some b => m.set a (some { b with mRefs := b.mRefs + 1 })

def Release (a : ℕ) : Memory :=
  match m.buffers a with
  | none => m.fault
  | some b =>
    if b.mRefs = 1 ∨ b.mRefs - 1 = 0 then m.set a none
    else m.set a (some { b with mRefs := b.mRefs - 1 })

/-- The rest of `EditResize`, for a buffer that is not resized. -/
def copyResized (a : ℕ) (b : SharedBuffer) (newSize : ℕ) (alloc : Allocator) : Option ℕ × Memory :=
  let r := m.Alloc (resize newSize b.bytes) alloc.malloc
  match r.1 with
  | none => (none, r.2)
  | some sb => (some sb, r.2.Release a)

def EditResize (a newSize : ℕ) (alloc : Allocator) : Option ℕ × Memory :=
  match m.buffers a with
  | none => (none, m.fault)
  | some b =>
    if b.mRefs = 1 then
      if b.bytes.length = newSize then (some a, m)
      else match alloc.realloc with
        | .inPlace => (some a, m.set a (some ⟨1, resize newSize b.bytes⟩))
        | .moved buf => (some buf, (m.set a none).set buf (some ⟨1, resize newSize b.bytes⟩))
        | .failed => m.copyResized a b newSize alloc
    else m.copyResized a b newSize alloc

/-- The bytes are written into a buffer, from a position on. -/
def write (a pos : ℕ) (bytes : List UInt8) : Memory :=
  match m.buffers a with
  | none => m.fault
  | some b => m.set a (some { b with
      bytes := b.bytes.take pos ++ bytes ++ b.bytes.drop (pos + bytes.length) })

end Memory

/-- A `const char*`: to bytes that are in no buffer, or into a buffer. -/
inductive Pointer
  | bytes (bs : List UInt8)
  | inside (a start : ℕ)
deriving DecidableEq, Repr

/-- The bytes that a pointer points to; `stale` is what is found in place of a buffer that was
freed. -/
def Memory.read (m : Memory) (stale : List UInt8) (p : Pointer) (num : ℕ) : List UInt8 × Memory :=
  match p with
  | .bytes bs => (resize num bs, m)
  | .inside a start =>
    match m.buffers a with
    | none => (resize num stale, m.fault)
    | some b => (resize num (b.bytes.drop start), m)

/-- What `strlen` counts. -/
def Memory.strlen (m : Memory) (p : Pointer) : ℕ :=
  let rest := match p with
    | .bytes bs => bs
    | .inside a start => (m.buffers a).elim [] fun b => b.bytes.drop start
  (rest.takeWhile (· ≠ 0)).length

/-- The `vsnprintf` that prints; `strings` are the buffers that it reads, and what it prints over
them cannot be relied on. It prints nothing where it fails. -/
def Memory.vsnprintf (m : Memory) (strings : List ℕ) (text : Option (List UInt8)) (buf pos : ℕ)
    (stale : List UInt8) : Memory :=
  let freed := strings.any fun a => (m.buffers a).isNone
  let m := if freed then m.fault else m
  match text with
  | none => m
  | some text =>
    let printed := if freed || strings.contains buf then resize text.length stale else text
    m.write buf pos (printed ++ [0])

/-- The address of `gElEmptyStringBuf`. -/
def gElEmptyStringBuf : ℕ := 0

/-- `_allocFromUTF8`. -/
def Memory._allocFromUTF8 (m : Memory) (bytes : List UInt8) (place : Option ℕ) :
    Option ℕ × Memory :=
  if bytes = [] then (some gElEmptyStringBuf, m.Acquire gElEmptyStringBuf)
  else m.Alloc (bytes ++ [0]) place

/-! ### What a buffer holds -/

namespace Memory

def bytesAt (m : Memory) (a : ℕ) : Option (List UInt8) := (m.buffers a).map SharedBuffer.bytes

/-- The buffers have the given numbers of references, and nothing has been read that was freed. -/
structure Holds (m : Memory) (w : ℕ → ℕ) : Prop where
  counted : Counted SharedBuffer.mRefs w m.buffers
  live : m.readFreed = false

variable {m : Memory} {w : ℕ → ℕ} {a : ℕ} {b : SharedBuffer}

@[simp]
theorem buffers_set (x : Option SharedBuffer) :
    (m.set a x).buffers = Function.update m.buffers a x := rfl

@[simp]
theorem readFreed_set (x : Option SharedBuffer) : (m.set a x).readFreed = m.readFreed := rfl

theorem bytesAt_set (x : Option SharedBuffer) (c : ℕ) :
    (m.set a x).bytesAt c = if c = a then x.map SharedBuffer.bytes else m.bytesAt c := by
  rw [bytesAt, buffers_set, Function.update_apply]
  split_ifs
  · rfl
  · rfl

theorem Holds.set (h : m.Holds w) (a : ℕ) {n : ℕ} {x : Option SharedBuffer}
    (hx : Sharing.Fits SharedBuffer.mRefs n x) : (m.set a x).Holds (Function.update w a n) :=
  ⟨h.counted.update a hx, h.live⟩

theorem Holds.exists_of_pos (h : m.Holds w) (ha : 0 < w a) :
    ∃ b, m.buffers a = some b ∧ b.mRefs = w a := by
  obtain ⟨b, hb⟩ := h.counted.exists_of_pos ha
  exact ⟨b, hb, (h.counted.eq hb).1⟩

/-- Another number of references, and the same bytes. -/
theorem bytesAt_set_mRefs (hb : m.buffers a = some b) (refs : ℤ) (c : ℕ) :
    (m.set a (some { b with mRefs := refs })).bytesAt c = m.bytesAt c := by
  rw [bytesAt_set]
  split_ifs with hc
  · rw [hc, bytesAt, hb]
    rfl
  · rfl

theorem Holds.Acquire (h : m.Holds w) (ha : 0 < w a) :
    (m.Acquire a).Holds (Function.update w a (w a + 1)) ∧
      ∀ c, (m.Acquire a).bytesAt c = m.bytesAt c := by
  obtain ⟨b, hb, hrefs⟩ := h.exists_of_pos ha
  rw [Memory.Acquire, hb]
  refine ⟨h.set a ⟨?_, Nat.succ_pos _⟩, bytesAt_set_mRefs hb _⟩
  dsimp only
  omega

/-- The last reference frees the buffer. -/
theorem Holds.Release (h : m.Holds w) (ha : 0 < w a) :
    (m.Release a).Holds (Function.update w a (w a - 1)) ∧
      ∀ c, (c = a → 1 < w a) → (m.Release a).bytesAt c = m.bytesAt c := by
  obtain ⟨b, hb, hrefs⟩ := h.exists_of_pos ha
  rw [Memory.Release, hb]
  dsimp only
  split_ifs with hlast
  · have hone : w a = 1 := by omega
    refine ⟨h.set a ?_, fun c hc => ?_⟩
    · rw [hone]
      rfl
    · rw [bytesAt_set, if_neg fun heq => absurd (hc heq) (by omega)]
  · refine ⟨h.set a ⟨?_, ?_⟩, fun c _ => bytesAt_set_mRefs hb _ c⟩
    · dsimp only
      omega
    · omega

theorem Holds.Alloc (h : m.Holds w) (a : ℕ) (bytes : List UInt8) :
    (m.Alloc bytes (some a)).2.Holds (Function.update w a 1) ∧
      ∀ c, (m.Alloc bytes (some a)).2.bytesAt c = if c = a then some bytes else m.bytesAt c :=
  ⟨h.set a ⟨rfl, Nat.one_pos⟩, bytesAt_set _⟩

/-- What a buffer that is resized has become: it is its owner's alone. -/
structure Edited (m : Memory) (w : ℕ → ℕ) (a : ℕ) (bytes : List UInt8) (alloc : Allocator)
    (m' : Memory) (a' : ℕ) : Prop where
  own : a' = a ∧ w a = 1 ∨ w a' = 0
  holds : m'.Holds (Function.update (Function.update w a (w a - 1)) a' 1)
  bytes : m'.bytesAt a' = some bytes
  others : ∀ c, c ≠ a' → (c = a → 1 < w a) → m'.bytesAt c = m.bytesAt c
  stays : w a = 1 → alloc.Keeps → a' = a

variable {bytes : List UInt8} {alloc : Allocator}

theorem Holds.copyResized (h : m.Holds w) (hb : m.buffers a = some b)
    (hfresh : alloc.Fresh m.buffers) (newSize : ℕ) (hkeeps : w a = 1 → alloc.realloc = .failed) :
    m.copyResized a b newSize alloc = (none, m) ∨
      ∃ a', (m.copyResized a b newSize alloc).1 = some a' ∧
        Edited m w a (resize newSize b.bytes) alloc (m.copyResized a b newSize alloc).2 a' := by
  rw [Memory.copyResized]
  rcases hmalloc : alloc.malloc with _ | a'
  · exact .inl rfl
  have hzero : w a' = 0 := h.counted.eq_zero (hfresh.malloc a' hmalloc)
  have hpos : 0 < w a := (h.counted.eq hb).2
  have hne : a ≠ a' := fun heq => by
    rw [heq] at hpos
    omega
  obtain ⟨halloc, hbytes⟩ := h.Alloc a' (resize newSize b.bytes)
  have ha : Function.update w a' 1 a = w a := Function.update_of_ne hne _ _
  obtain ⟨hrelease, hrest⟩ := halloc.Release (ha ▸ hpos)
  rw [ha, Function.update_comm hne.symm] at hrelease
  refine .inr ⟨a', rfl, .inr hzero, hrelease, ?_, fun c hc hca => ?_, fun hone hkeep => ?_⟩
  · exact (hrest a' fun heq => absurd heq.symm hne).trans ((hbytes a').trans (if_pos rfl))
  · exact (hrest c fun heq => ha.symm ▸ hca heq).trans ((hbytes c).trans (if_neg hc))
  · rcases hkeep with hkeep | ⟨-, hnone⟩
    · exact nomatch (hkeeps hone).symm.trans hkeep
    · exact nomatch hnone.symm.trans hmalloc

theorem Holds.EditResize (h : m.Holds w) (ha : m.bytesAt a = some bytes)
    (hfresh : alloc.Fresh m.buffers) (newSize : ℕ) :
    m.EditResize a newSize alloc = (none, m) ∨ ∃ a', (m.EditResize a newSize alloc).1 = some a' ∧
      Edited m w a (resize newSize bytes) alloc (m.EditResize a newSize alloc).2 a' := by
  obtain ⟨b, hb, rfl⟩ := Option.map_eq_some_iff.mp ha
  obtain ⟨hrefs, hpos⟩ := h.counted.eq hb
  rw [Memory.EditResize, hb]
  dsimp only
  split_ifs with hsole hsize
  · have hone : w a = 1 := by omega
    refine .inr ⟨a, rfl, .inl ⟨rfl, hone⟩, ?_, ?_, fun c _ _ => rfl, fun _ _ => rfl⟩
    · rw [Function.update_idem, Function.update_eq_self_iff.mpr hone.symm]
      exact h
    · rw [ha, ← hsize, resize, List.take_length, Nat.sub_self]
      exact congrArg some (List.append_nil _).symm
  · have hone : w a = 1 := by omega
    rcases hrealloc : alloc.realloc with _ | a' | _
    · refine .inr ⟨a, rfl, .inl ⟨rfl, hone⟩, ?_, ?_, fun c hc _ => ?_, fun _ _ => rfl⟩
      · rw [Function.update_idem]
        exact h.set a ⟨rfl, Nat.one_pos⟩
      · rw [bytesAt_set, if_pos rfl]
        rfl
      · rw [bytesAt_set, if_neg hc]
    · have hzero : w a' = 0 := h.counted.eq_zero (hfresh.moved a' hrealloc)
      refine .inr ⟨a', rfl, .inr hzero, ?_, ?_, fun c hc hca => ?_, fun _ hkeep => ?_⟩
      · refine Holds.set ?_ a' ⟨rfl, Nat.one_pos⟩
        rw [hone]
        exact h.set a rfl
      · rw [bytesAt_set, if_pos rfl]
        rfl
      · rw [bytesAt_set, if_neg hc, bytesAt_set, if_neg fun heq => absurd (hca heq) (by omega)]
      · rcases hkeep with hkeep | ⟨hkeep, -⟩
        · exact nomatch hrealloc.symm.trans hkeep
        · exact nomatch hrealloc.symm.trans hkeep
    · exact h.copyResized hb hfresh newSize fun _ => hrealloc
  · exact h.copyResized hb hfresh newSize fun hone => absurd hrefs (by omega)

end Memory

/-! ### What is read and written -/

theorem resize_of_le {n : ℕ} {bytes : List UInt8} (h : bytes.length ≤ n) :
    resize n bytes = bytes ++ List.replicate (n - bytes.length) 0 := by
  rw [resize, List.take_of_length_le h]

theorem resize_of_append {bytes bs : List UInt8} (h : bytes <+: bs) :
    resize bytes.length bs = bytes := by
  obtain ⟨r, rfl⟩ := h
  rw [resize, List.take_left, List.length_append, Nat.sub_eq_zero_of_le (Nat.le_add_right _ _)]
  exact List.append_nil bytes

/-- What a buffer keeps of its beginning when it is resized. -/
theorem take_resize {k n : ℕ} {bytes : List UInt8} (hn : k ≤ n) (hk : k ≤ bytes.length) :
    (resize n bytes).take k = bytes.take k := by
  have hle : k ≤ (bytes.take n).length := by
    rw [List.length_take]
    exact le_min hn hk
  rw [resize, List.take_append_of_le_length hle, List.take_take, min_eq_left hn]

@[simp]
theorem length_resize (n : ℕ) (bytes : List UInt8) : (resize n bytes).length = n := by
  rw [resize, List.length_append, List.length_take, List.length_replicate]
  omega

/-- The pointer points to the bytes. -/
def Pointer.To (m : Memory) (p : Pointer) (bytes : List UInt8) : Prop :=
  match p with
  | .bytes bs => bytes <+: bs
  | .inside a start => ∃ data, m.bytesAt a = some data ∧ bytes <+: data.drop start

theorem Pointer.To.read {m : Memory} {p : Pointer} {bytes : List UInt8} (h : p.To m bytes)
    (stale : List UInt8) : m.read stale p bytes.length = (bytes, m) := by
  rcases p with bs | ⟨a, start⟩
  · rw [Memory.read, resize_of_append h]
  · obtain ⟨data, hdata, hbytes⟩ := h
    obtain ⟨b, hb, rfl⟩ := Option.map_eq_some_iff.mp hdata
    rw [Memory.read, hb]
    dsimp only
    rw [resize_of_append hbytes]

theorem Pointer.To.of_prefix {m : Memory} {p : Pointer} {bytes bytes' : List UInt8}
    (h : p.To m bytes) (hle : bytes' <+: bytes) : p.To m bytes' := by
  rcases p with bs | ⟨a, start⟩
  · exact hle.trans h
  · obtain ⟨data, hdata, hbytes⟩ := h
    exact ⟨data, hdata, hle.trans hbytes⟩

/-- Of the bytes and what stands behind them, `strlen` counts the same up to their end. -/
theorem min_length_takeWhile {bytes bs : List UInt8} (h : bytes <+: bs) :
    min (bs.takeWhile (· ≠ 0)).length bytes.length = (bytes.takeWhile (· ≠ 0)).length := by
  obtain ⟨r, rfl⟩ := h
  have hle := List.IsPrefix.length_le (List.takeWhile_prefix (l := bytes) (· ≠ 0))
  rw [List.takeWhile_append]
  split_ifs with hall
  · rw [List.length_append]
    omega
  · exact min_eq_left hle

theorem Pointer.To.min_strlen {m : Memory} {p : Pointer} {bytes : List UInt8} (h : p.To m bytes) :
    min (m.strlen p) bytes.length = (bytes.takeWhile (· ≠ 0)).length := by
  rcases p with bs | ⟨a, start⟩
  · exact min_length_takeWhile h
  · obtain ⟨data, hdata, hbytes⟩ := h
    obtain ⟨b, hb, rfl⟩ := Option.map_eq_some_iff.mp hdata
    rw [Memory.strlen, hb, Option.elim_some]
    exact min_length_takeWhile hbytes

/-- Bytes that are written into a buffer keep the references. -/
theorem Memory.Holds.write {m : Memory} {w : ℕ → ℕ} {a : ℕ} {data : List UInt8} (h : m.Holds w)
    (ha : m.bytesAt a = some data) (pos : ℕ) (bytes : List UInt8) :
    (m.write a pos bytes).Holds w ∧ ∀ c, (m.write a pos bytes).bytesAt c =
      if c = a then some (data.take pos ++ bytes ++ data.drop (pos + bytes.length))
      else m.bytesAt c := by
  obtain ⟨b, hb, rfl⟩ := Option.map_eq_some_iff.mp ha
  rw [Memory.write, hb]
  refine ⟨?_, bytesAt_set _⟩
  have hrefs := h.counted.eq hb
  have hset := h.set a (x := some { b with
    bytes := b.bytes.take pos ++ bytes ++ b.bytes.drop (pos + bytes.length) }) hrefs
  rwa [Function.update_eq_self] at hset

end ElastosCar.SharedStrings
