import ElastosCar.Lib.Stream
import ElastosCar.Marshal.Process

/-!
# The values of a call

What the words of an argument stack and of an out buffer mean, independently of the code that
walks them. `Proc.readArg` reads the value of an `[in]` argument, `Proc.sent` what a proxy has
to tell the stub about a parameter, and `Proc.readOut` the value in a slot of the out buffer.

The words that the `n`-th argument takes are given by `nextArg`: four for an `EMuid`, six for
an `EGuid`, two for a 64-bit number after the alignment of the build, one for all others.

`WritesArg` and `ReadsArg` say that the parcel operations which the two sides use for a value
produce and consume given symbols.
-/

namespace ElastosCar

/-- The value of an `[in]` argument. -/
inductive ArgVal
  | word (v : UInt32)
  | dword (v : UInt64)
  | emuid (id : EMuid)
  /-- The id, and the bits of its `mUunm`. -/
  | eguid (id : EGuid) (ptr : UInt32)
  | string (s : CarString)
  | array (q : Option CarQuintet)
  /-- The struct, and its size in bytes. -/
  | struct (bs : Option (List UInt8)) (size : UInt32)
  | interface (x : Option Itf)

/-- The value is one of the parameter's type. -/
def ArgVal.Of (t : Param) : ArgVal → Prop
  | .word _ => t.type = .uint8 ∨ t.type = .uint16 ∨ t.type = .uint32
  | .dword _ => t.type = .uint64
  | .emuid _ => t.type = .emuid
  | .eguid _ _ => t.type = .eguid
  | .string _ => t.type = .string
  | .array _ => t.type = .arrayOf
  | .struct _ _ => t.type = .struct ∨ t.type = .pstruct
  | .interface _ => t.type = .interface

/-- Equal as far as a receiver can tell: the address of a name and the buffer of an array are
its own. -/
def ArgVal.Same : ArgVal → ArgVal → Prop
  | .eguid id _, .eguid id' _ => id = id'
  | .array (some q), .array (some q') => q.SameContents q'
  | v, v' => v = v'

/-- What a proxy tells the stub about a parameter. -/
inductive Sent
  /-- The value of an `[in]` parameter. -/
  | value (v : ArgVal)
  /-- The result is wanted, in an array of the given size where the caller allocates it. -/
  | wanted (size : Option UInt32)
  /-- The caller passed null. -/
  | unwanted

/-- It is what can be told about the parameter. -/
def Sent.Of (t : Param) : Sent → Prop
  | .value v => t.isIn = true ∧ v.Of t
  | .wanted size => t.isIn = false ∧ (size.isSome ↔ t.isArray = true ∧ ¬ t.isCallee = true)
  | .unwanted => t.isIn = false

/-! ### Reading the memory -/

namespace Heap

variable (h : Heap)

/-- The object at an address. -/
def obj? : Word → Option Obj
  | .obj a => h.objs[a]?
  | _ => none

def string? (w : Word) : Option CarString :=
  match h.obj? w with
  | some (.string s) => some s
  | _ => none

def array? (w : Word) : Option CarQuintet :=
  match h.obj? w with
  | some (.array q) => some q
  | _ => none

def chars? (w : Word) : Option CString :=
  match h.obj? w with
  | some (.chars s) => some s
  | _ => none

def block? (w : Word) : Option (List UInt8) :=
  match h.obj? w with
  | some (.block bs) => some bs
  | _ => none

end Heap

/-- `w` as an interface pointer. -/
def Word.interface? : Word → Option (Option Itf)
  | .num 0 => some none
  | .itf x => some (some x)
  | _ => none

/-- The word after the argument `n`, which is at word `i`. -/
def nextArg (b : Build) (phase n : ℕ) (t : Param) (i : ℕ) : ℕ :=
  if t.isIn then
    match t.type with
    | .uint64 => b.align64 phase n i + 2
    | .emuid => i + 4
    | .eguid => i + 6
    | _ => i + 1
  else i + 1

/-- The word after the last of the arguments. -/
def endArg (b : Build) (phase : ℕ) : (n : ℕ) → List Param → (i : ℕ) → ℕ
  | _, [], i => i
  | n, t :: ts, i => endArg b phase (n + 1) ts (nextArg b phase n t i)

/-- The words at which the arguments are. -/
def argSlots (b : Build) (phase : ℕ) : (n : ℕ) → List Param → (i : ℕ) → List ℕ
  | _, [], _ => []
  | n, t :: ts, i => i :: argSlots b phase (n + 1) ts (nextArg b phase n t i)

/-- The words of the slot that `Stub_ProcessUnmsh_In` makes for an `[out]` parameter; `none` for
the types it refuses. -/
def slotWords (m : Marshaller) (t : Param) : Option ℕ :=
  match t.type with
  | .puint8 | .puint16 | .puint32 => some 1
  | .puint64 => some 2
  | .peguid => some 25
  | .pemuid => some 4
  | .pstruct => some t.size.toNat
  | .pstring => some 2
  | .stringBuf | .bufferOf | .arrayOf => some 1
  | .pinterface => some m.packWords
  | _ => none

/-- The words of the out buffer for a parameter: a null tag, and the slot if the caller wants
the value. -/
def Sent.span (m : Marshaller) (t : Param) : Sent → ℕ
  | .value _ => 0
  | .wanted _ => 1 + (slotWords m t).getD 0
  | .unwanted => 1

/-- The tag in the out buffer. -/
def Sent.tag : Sent → UInt32
  | .unwanted => MSH_NULL
  | _ => MSH_NOT_NULL

namespace Proc

variable {π : Type} (b : Build) (s : Proc π)

def bitsAt (i : ℕ) : UInt32 := (s.stack i).bits s.addr

def emuidAt (i : ℕ) : EMuid := ⟨s.bitsAt i, s.bitsAt (i + 1), s.bitsAt (i + 2), s.bitsAt (i + 3)⟩

/-- The value of the `[in]` argument `n` at word `i`, if it has one. -/
def readArg (n : ℕ) (t : Param) (i : ℕ) : Option ArgVal :=
  match t.type with
  | .uint8 | .uint16 | .uint32 => some (.word (s.bitsAt i))
  | .uint64 =>
    let j := b.align64 s.phase n i
    some (.dword (dwordOfWords (s.bitsAt j) (s.bitsAt (j + 1))))
  | .emuid => some (.emuid (s.emuidAt i))
  | .eguid =>
    (s.heap.chars? (s.stack (i + 4))).map fun str =>
      .eguid ⟨s.emuidAt i, str, s.bitsAt (i + 5)⟩ (s.bitsAt (i + 4))
  | .string => (s.heap.string? (s.stack i)).map .string
  | .arrayOf =>
    if s.stack i = .null then some (.array none)
    else (s.heap.array? (s.stack i)).map fun q => .array (some q)
  | .struct | .pstruct =>
    let size := t.size.toUInt32 * 4
    if s.stack i = .null then some (.struct none size)
    else
      (s.heap.block? (s.stack i)).bind fun bs =>
        if bs.length = size.toNat then some (.struct (some bs) size) else none
  | .interface => (s.stack i).interface?.map .interface
  | _ => none

/-- What there is to tell about the parameter `n`, whose argument is at word `i`. -/
def sent (n : ℕ) (t : Param) (i : ℕ) : Option Sent :=
  if t.isIn then (s.readArg b n t i).map .value
  else if s.stack i = .null then some .unwanted
  else if t.isArray ∧ ¬ t.isCallee then
    (s.heap.array? (s.stack i)).map fun q => .wanted (some q.mSize)
  else some (.wanted none)

/-- The arguments from word `i` on, the first of them with the index `n`, tell something that
is `ok`. -/
def Passes (ok : Param → Sent → Prop) : (n : ℕ) → List Param → (i : ℕ) → Prop
  | _, [], _ => True
  | n, t :: ts, i =>
    (∃ x, s.sent b n t i = some x ∧ ok t x) ∧ Passes ok (n + 1) ts (nextArg b s.phase n t i)

/-- The words of the out buffer that the parameters from index `n` on take. -/
def outSpan (m : Marshaller) : (n : ℕ) → List Param → (i : ℕ) → ℕ
  | _, [], _ => 0
  | n, t :: ts, i =>
    (s.sent b n t i).elim 0 (Sent.span m t) + outSpan m (n + 1) ts (nextArg b s.phase n t i)

end Proc

/-! ### On the wire -/

section

variable {π τ : Type} (S : Stream π τ) (P : IParcel π) (ts : List τ)

/-- The operation that writes the value appends `ts`. -/
def WritesArg : ArgVal → Prop
  | .word v => S.Appends NOERROR (P.writeInt32 v) ts
  | .dword v => S.Appends NOERROR (P.writeInt64 v) ts
  | .emuid id => S.Appends NOERROR (P.writeEMuid id) ts
  | .eguid id ptr => S.Appends NOERROR (P.writeEGuid id ptr) ts
  | .string s => S.Appends NOERROR (P.writeString s) ts
  | .array q => S.Appends NOERROR (P.writeArrayOf q) ts
  | .struct bs size => S.Appends NOERROR (P.writeStruct bs size) ts
  | .interface x => S.Appends NOERROR (P.writeInterfacePtr x) ts

/-- The operation that the stub reads the value with consumes `ts`. A null array may leave the
argument alone; of interfaces, also in arrays, only that they are read is said here. -/
def ReadsArg : ArgVal → Prop
  | .word v => S.Reads P.readInt32 ts (· = (NOERROR, v))
  | .dword v => S.Reads P.readInt64 ts (· = (NOERROR, v))
  | .emuid id => S.Reads P.readEMuid ts (· = (NOERROR, id))
  | .eguid id _ => S.Reads P.readEGuid ts (· = (NOERROR, some id))
  | .string s => S.Reads P.readString ts (· = (NOERROR, s))
  | .array none => S.Reads P.readArrayOf ts fun r => r.2 = .untouched ∨ r.2 = .null
  | .array (some q) =>
    S.Reads P.readArrayOf ts fun r => ∃ q', r.2 = .array q' ∧ (q.Plain → q'.SameContents q)
  | .struct _ _ => False
  | .interface _ => S.Reads P.readInterfacePtr ts fun r => r.1 = NOERROR ∧ r.2.stored.isSome

end

/-- The wire format of a parcel: its null tags and sizes are words, and the values it carries
are written and read as `arg` says. -/
structure Codec {π τ : Type} (S : Stream π τ) (P : IParcel π) where
  word : UInt32 → List τ
  appends_word : ∀ v, S.Appends NOERROR (P.writeInt32 v) (word v)
  reads_word : ∀ v, S.Reads P.readInt32 (word v) (· = (NOERROR, v))
  arg : ArgVal → List τ
  Carries : ArgVal → Prop
  writes_arg : ∀ v, Carries v → WritesArg S P (arg v) v
  reads_arg : ∀ v, Carries v → ReadsArg S P (arg v) v

namespace Codec

variable {π τ : Type} {S : Stream π τ} {P : IParcel π} (C : Codec S P)

/-- What is sent about a parameter. -/
def sent : Sent → List τ
  | .value v => C.arg v
  | .wanted none => C.word MSH_NOT_NULL
  | .wanted (some size) => C.word MSH_NOT_NULL ++ C.word size
  | .unwanted => C.word MSH_NULL

/-- What is sent about the parameters from index `n` on, their arguments being at word `i`. -/
def request (b : Build) (s : Proc π) : (n : ℕ) → List Param → (i : ℕ) → List τ
  | _, [], _ => []
  | n, t :: ts, i =>
    ((s.sent b n t i).elim [] C.sent) ++ request b s (n + 1) ts (nextArg b s.phase n t i)

end Codec

end ElastosCar
