import ElastosCar.Parcel.Array

/-!
# The memory of a call

The marshalling code of `mshproc.cpp` walks two untyped arrays of 32-bit words, the argument
stack of the call and the out buffer of the stub, and follows the pointers it finds there.

* A `Word` is a number or an address. Addresses are of heap objects, of words of the out
  buffer, or of interface objects; `Proc.addr` gives the bits of an address where the code
  uses it as a number.
* The heap only grows: an address is never handed out twice, and what the code acquires and
  releases is recorded in `events`.
* `Proc` is the state of one side of a call while one of the marshalling functions runs: its
  parcel, the pointers `args` and `outBuffer` as indices, and the memory behind them.

A word that is used as an address and is not one of the right kind of object is a fault.
-/

namespace ElastosCar

/-- A 32-bit word. -/
inductive Word
  | num (v : UInt32)
  /-- The address of a heap object. -/
  | obj (a : ℕ)
  /-- The address of a word of the out buffer. -/
  | slot (i : ℕ)
  /-- An interface pointer. -/
  | itf (x : Itf)
deriving DecidableEq, Repr

/-- The null pointer. -/
def Word.null : Word := .num 0

/-- The object a word is the address of. -/
def Word.address : Word → ℕ
  | .obj a => a
  | _ => 0

/-- An interface pointer as a word. -/
def Word.ofInterface : Option Itf → Word
  | some x => .itf x
  | none => .null

/-- The objects that arguments point to: what the callers and the stub allocate, and the
variables of a caller that `[out]` arguments point to. -/
inductive Obj
  /-- A `String` object. -/
  | string (s : CarString)
  /-- A quintet with its buffer. -/
  | array (q : CarQuintet)
  /-- A quintet whose flags and elements are not known: fresh from `malloc`, or with the bytes
  of other elements copied over its own. -/
  | rawArray (size : UInt32)
  /-- The characters of a string. -/
  | chars (s : CString)
  /-- A struct. -/
  | block (bs : List UInt8)
  | byte (v : UInt8)
  | short (v : Int16)
  | word (w : Word)
  | dword (v : UInt64)
  | emuid (id : EMuid)
  | eguid (id : EGuid)

/-- What can be owned: an object, the separate buffer of a quintet, the `String` at an index
of an array, a reference to an interface. -/
inductive Res
  | obj (a : ℕ)
  | buf (a : ℕ)
  | elem (a i : ℕ)
  | itf (x : Itf)
deriving DecidableEq, Repr

inductive Event
  | acquire (r : Res)
  | release (r : Res)
deriving DecidableEq, Repr

structure Heap where
  objs : List Obj := []
  events : List Event := []

/-- The state of one side of a call. -/
structure Proc (π : Type) where
  parcel : π
  /-- `args`, counted in words from the first argument. -/
  args : ℕ
  stack : ℕ → Word
  /-- `outBuffer`, counted in words from the start of the buffer; `none` is `NULL`. -/
  out : Option ℕ
  outBuffer : ℕ → Word
  heap : Heap
  /-- The bits of the words that are addresses. -/
  addr : Word → UInt32
  /-- The stack starts `phase` words after a multiple of eight. -/
  phase : ℕ

/-- The word as a number. -/
def Word.bits (addr : Word → UInt32) : Word → UInt32
  | .num v => v
  | w => addr w

@[simp]
theorem Word.bits_num (addr : Word → UInt32) (v : UInt32) : (Word.num v).bits addr = v := rfl

@[simp]
theorem Word.obj_ne_null (a : ℕ) : Word.obj a ≠ .null := by simp [Word.null]

@[simp]
theorem Word.slot_ne_null (i : ℕ) : Word.slot i ≠ .null := by simp [Word.null]

@[simp]
theorem Word.itf_ne_null (x : Itf) : Word.itf x ≠ .null := by simp [Word.null]

/-- Two words as the double word they make in memory. -/
def dwordOfWords (lo hi : UInt32) : UInt64 := dwordOf (wordBytes lo ++ wordBytes hi)

/-- The low and the high word of a double word. -/
def lowWord (v : UInt64) : UInt32 := wordOf ((dwordBytes v).take 4)

def highWord (v : UInt64) : UInt32 := wordOf ((dwordBytes v).drop 4)

@[simp]
theorem dwordOfWords_lowWord_highWord (v : UInt64) :
    dwordOfWords (lowWord v) (highWord v) = v := by
  rw [dwordOfWords, lowWord, highWord, wordBytes_wordOf (by simp), wordBytes_wordOf (by simp),
    List.take_append_drop, dwordOf_dwordBytes]

/-- The quintet's elements that hold something, as owned resources. -/
def Payload.owned (a : ℕ) : Payload → List Res
  | .bytes _ => []
  | .strings ss => ss.zipIdx.filterMap fun (s, i) => s.map fun _ => .elem a i
  | .interfaces xs => xs.filterMap fun x => x.map .itf

/-! ### Access -/

/-- A computation of the marshalling code. -/
abbrev Marshal (π : Type) := Run (Proc π) Fault

namespace Marshal

variable {π : Type}

/-- `args[k]`. -/
def arg (k : ℕ) : Marshal π Word := fun s => .ok (s.stack (s.args + k), s)

/-- `args[k]` as a number. -/
def argBits (k : ℕ) : Marshal π UInt32 := fun s => .ok ((s.stack (s.args + k)).bits s.addr, s)

/-- `args[k] = w`. -/
def storeArg (k : ℕ) (w : Word) : Marshal π Unit := fun s =>
  .ok ((), { s with stack := Function.update s.stack (s.args + k) w })

/-- `args += k`. -/
def bumpArgs (k : ℕ) : Marshal π Unit := fun s => .ok ((), { s with args := s.args + k })

/-- `outBuffer`, where it is dereferenced. -/
def outPos : Marshal π ℕ := fun s =>
  match s.out with
  | some o => .ok (o, s)
  | none => .error .nullPointer

/-- `outBuffer[k]`. -/
def out (k : ℕ) : Marshal π Word := do
  let o ← outPos
  fun s => .ok (s.outBuffer (o + k), s)

/-- `outBuffer[k]` as a number. -/
def outBits (k : ℕ) : Marshal π UInt32 := do
  let o ← outPos
  fun s => .ok ((s.outBuffer (o + k)).bits s.addr, s)

/-- `outBuffer[k] = w`. -/
def storeOut (k : ℕ) (w : Word) : Marshal π Unit := do
  let o ← outPos
  fun s => .ok ((), { s with outBuffer := Function.update s.outBuffer (o + k) w })

/-- `outBuffer += k`. -/
def bumpOut (k : ℕ) : Marshal π Unit := fun s => .ok ((), { s with out := s.out.map (· + k) })

/-- The object a word points to. -/
def deref (w : Word) : Marshal π Obj := fun s =>
  match w with
  | .num 0 => .error .nullPointer
  | .obj a =>
    match s.heap.objs[a]? with
    | some o => .ok (o, s)
    | none => .error .wildPointer
  | _ => .error .wildPointer

/-- `*w`, where `w` points to a `String`. -/
def derefString (w : Word) : Marshal π CarString := do
  match ← deref w with
  | .string s => pure s
  | _ => throw .wildPointer

/-- `*w`, where `w` points to a quintet. -/
def derefArray (w : Word) : Marshal π CarQuintet := do
  match ← deref w with
  | .array q => pure q
  | _ => throw .wildPointer

/-- `*w`, where `w` points to characters. -/
def derefChars (w : Word) : Marshal π CString := do
  match ← deref w with
  | .chars s => pure s
  | _ => throw .wildPointer

/-- The struct of `n` bytes that `w` points to. -/
def derefBlock (w : Word) (n : ℕ) : Marshal π (List UInt8) := do
  match ← deref w with
  | .block bs => if bs.length = n then pure bs else throw .outOfBounds
  | _ => throw .wildPointer

/-- `w` as an interface pointer. -/
def asInterface (w : Word) : Marshal π (Option Itf) :=
  match w with
  | .num 0 => pure none
  | .itf x => pure (some x)
  | _ => throw .wildPointer

/-- The object at the address `w`, replaced. -/
def assign (w : Word) (o : Obj) : Marshal π Unit := fun s =>
  match w with
  | .obj a => .ok ((), { s with heap := { s.heap with objs := s.heap.objs.set a o } })
  | _ => .error .wildPointer

/-- A new object. -/
def alloc (o : Obj) : Marshal π ℕ := fun s =>
  .ok (s.heap.objs.length, { s with heap :=
    ⟨s.heap.objs ++ [o], s.heap.events ++ [.acquire (.obj s.heap.objs.length)]⟩ })

/-- Record that resources are acquired. -/
def acquire (rs : List Res) : Marshal π Unit := fun s =>
  .ok ((), { s with heap := { s.heap with events := s.heap.events ++ rs.map .acquire } })

/-- Record that resources are released. -/
def release (rs : List Res) : Marshal π Unit := fun s =>
  .ok ((), { s with heap := { s.heap with events := s.heap.events ++ rs.map .release } })

/-- `free(w)` or `delete w`. -/
def free (w : Word) : Marshal π Unit :=
  match w with
  | .num 0 => pure ()
  | .obj a => release [.obj a]
  | _ => throw .wildPointer

/-- A write operation of the parcel. -/
def write (f : π → ECode × π) : Marshal π ECode := fun s =>
  .ok ((f s.parcel).1, { s with parcel := (f s.parcel).2 })

/-- A read operation of the parcel. -/
def read {α : Type} (r : Run π Fault α) : Marshal π α := fun s =>
  match r s.parcel with
  | .ok (a, p) => .ok (a, { s with parcel := p })
  | .error f => .error f

/-! ### Symbolic execution

One rule for each access, to run the first half of a sequence. -/

section

variable {α β : Type} {s : Proc π}

@[simp]
theorem arg_bind (k : ℕ) (f : Word → Marshal π β) :
    (arg k >>= f) s = f (s.stack (s.args + k)) s := rfl

@[simp]
theorem argBits_bind (k : ℕ) (f : UInt32 → Marshal π β) :
    (argBits k >>= f) s = f ((s.stack (s.args + k)).bits s.addr) s := rfl

@[simp]
theorem storeArg_bind (k : ℕ) (w : Word) (f : Unit → Marshal π β) :
    (storeArg k w >>= f) s
      = f () { s with stack := Function.update s.stack (s.args + k) w } := rfl

@[simp]
theorem bumpArgs_bind (k : ℕ) (f : Unit → Marshal π β) :
    (bumpArgs k >>= f) s = f () { s with args := s.args + k } := rfl

@[simp]
theorem bumpOut_bind (k : ℕ) (f : Unit → Marshal π β) :
    (bumpOut k >>= f) s = f () { s with out := s.out.map (· + k) } := rfl

@[simp]
theorem write_bind (w : π → ECode × π) (f : ECode → Marshal π β) :
    (write w >>= f) s = f (w s.parcel).1 { s with parcel := (w s.parcel).2 } := rfl

@[simp]
theorem alloc_bind (o : Obj) (f : ℕ → Marshal π β) :
    (alloc o >>= f) s = f s.heap.objs.length { s with heap :=
      ⟨s.heap.objs ++ [o], s.heap.events ++ [.acquire (.obj s.heap.objs.length)]⟩ } := rfl

@[simp]
theorem acquire_bind (rs : List Res) (f : Unit → Marshal π β) :
    (acquire rs >>= f) s
      = f () { s with heap := { s.heap with events := s.heap.events ++ rs.map .acquire } } := rfl

@[simp]
theorem release_bind (rs : List Res) (f : Unit → Marshal π β) :
    (release rs >>= f) s
      = f () { s with heap := { s.heap with events := s.heap.events ++ rs.map .release } } := rfl

theorem read_bind {r : Run π Fault α} {a : α} {p : π} (h : r s.parcel = .ok (a, p))
    (f : α → Marshal π β) : (read r >>= f) s = f a { s with parcel := p } :=
  Run.bind_ok (by rw [read, h])

theorem outPos_bind {o : ℕ} (h : s.out = some o) (f : ℕ → Marshal π β) :
    (outPos >>= f) s = f o s :=
  Run.bind_ok (by rw [outPos, h])

theorem out_bind {o : ℕ} (h : s.out = some o) (k : ℕ) (f : Word → Marshal π β) :
    (out k >>= f) s = f (s.outBuffer (o + k)) s :=
  Run.bind_ok (outPos_bind h _)

theorem outBits_bind {o : ℕ} (h : s.out = some o) (k : ℕ) (f : UInt32 → Marshal π β) :
    (outBits k >>= f) s = f ((s.outBuffer (o + k)).bits s.addr) s :=
  Run.bind_ok (outPos_bind h _)

theorem deref_bind {a : ℕ} {o : Obj} (h : s.heap.objs[a]? = some o) (f : Obj → Marshal π β) :
    (deref (.obj a) >>= f) s = f o s :=
  Run.bind_ok (by simp only [deref, h])

theorem derefString_bind {a : ℕ} {str : CarString} (h : s.heap.objs[a]? = some (.string str))
    (f : CarString → Marshal π β) : (derefString (.obj a) >>= f) s = f str s :=
  Run.bind_ok (deref_bind h _)

theorem derefArray_bind {a : ℕ} {q : CarQuintet} (h : s.heap.objs[a]? = some (.array q))
    (f : CarQuintet → Marshal π β) : (derefArray (.obj a) >>= f) s = f q s :=
  Run.bind_ok (deref_bind h _)

theorem derefChars_bind {a : ℕ} {str : CString} (h : s.heap.objs[a]? = some (.chars str))
    (f : CString → Marshal π β) : (derefChars (.obj a) >>= f) s = f str s :=
  Run.bind_ok (deref_bind h _)

end

end Marshal

end ElastosCar
