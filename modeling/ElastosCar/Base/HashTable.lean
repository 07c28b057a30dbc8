import ElastosCar.Lib.Buckets
import ElastosCar.Base.HashKey

/-!
# The hash tables

The operations of both class templates `HashTable`, over what they do with their keys: a table is a chain
of entries for each index below its capacity, and when there are as many entries as the threshold says
`Put` first moves them to a larger one.

An entry is in the chain that its hash names, no key has two entries, and the entries are those of a
finite map (`Sound`). `Answers` says what such a map answers to a call, and `Refines` that a table answers
so in a run.
-/

namespace ElastosCar

/-! ### Memory -/

/-- `MUL_LOADFACTOR`. -/
def MUL_LOADFACTOR (n : ℕ) : ℕ := (n * 3) >>> 2

/-- What the build and the constructor's arguments say. The threshold is `MUL_LOADFACTOR` with `_arm`,
and else the product of the capacity and the load factor. -/
structure HashBuild where
  /-- `sizeof(struct HashEntry)`: two words, and a value and the first byte of the key. -/
  entrySize : ℕ
  initialCapacity : ℤ
  threshold : ℕ → ℕ
  charSigned : Bool
  /-- Whether `assert` is compiled in. -/
  asserts : Bool
  le_entrySize : 16 ≤ entrySize
  entrySize_lt : entrySize < 2147483648
  initialCapacity_lt : initialCapacity < 1073741824
  le_threshold : ∀ n < 2147483648, n ≤ 2 * threshold n + 2

/-- The defaults, for a value of one word. -/
def HashBuild.arm : HashBuild where
  entrySize := 16
  initialCapacity := 11
  threshold := MUL_LOADFACTOR
  charSigned := false
  asserts := false
  le_entrySize := le_rfl
  entrySize_lt := by decide
  initialCapacity_lt := by decide
  le_threshold n _ := by
    rw [MUL_LOADFACTOR, Nat.shiftRight_eq_div_pow]
    omega

/-- Whether the allocations of a `Put` are granted. -/
structure HashMemory where
  table : Bool
  newTable : Bool
  entry : Bool
deriving DecidableEq, Repr

/-- Whether `malloc` returns a block while `live` bytes are in use. -/
def hashMalloc (granted : Bool) (live size : ℕ) : Bool := granted && decide (live + size ≤ 4294967296)

inductive HashFault
  | assertion
  | outOfBounds
deriving DecidableEq, Repr

structure HashEntry (Key V : Type) where
  mHash : UInt32
  mKey : Key
  mValue : V
deriving DecidableEq, Repr

/-- The entry of a map. -/
def HashEntry.pair {Key V : Type} (e : HashEntry Key V) : Σ _ : Key, V := ⟨e.mKey, e.mValue⟩

structure HashTable (Key V : Type) where
  mTable : Option (ℕ → List (HashEntry Key V)) := none
  mCapacity : ℕ := 0
  mCount : ℕ := 0
  mThreshold : ℕ := 0

/-- What `Put` returns: `TRUE`, or `FALSE` without memory or for the empty string. -/
inductive PutReturn
  | done
  | noMemory
  | refused
deriving DecidableEq, Repr

inductive HashCall (Key V : Type)
  | put (key : Key) (value : V) (memory : HashMemory)
  | remove (key : Key)
  | get (key : Key)
  | contains (key : Key)
  | clear
  | size

inductive HashReturn (V : Type)
  | put (r : PutReturn)
  | removed (b : Bool)
  | got (value : Option V)
  | contained (b : Bool)
  | cleared
  | size (n : ℕ)
deriving DecidableEq, Repr

/-! ### The operations -/

/-- The chain that a hash names. -/
def hashIndex (capacity : ℕ) (hash : UInt32) : ℕ := (hash &&& 0x7FFFFFFF).toNat % capacity

namespace HashTable

variable {Key V : Type} (K : HashTraits Key) (B : HashBuild)

section

variable (t : HashTable Key V)

/-- The chains. Every operation looks whether there is a table first. -/
def chains : ℕ → List (HashEntry Key V) := t.mTable.getD fun _ => []

def entries : List (HashEntry Key V) := elements t.mCapacity t.chains

/-- The bytes of the table and of its entries. -/
def live : ℕ :=
  (if t.mTable.isSome then 4 * t.mCapacity else 0) +
    (t.entries.map fun e => B.entrySize + K.keylen e.mKey).sum

def setChain (i : ℕ) (chain : List (HashEntry Key V)) : HashTable Key V :=
  { t with mTable := t.mTable.map fun f => Function.update f i chain }

/-- The comparison in a chain. -/
def same (hash : UInt32) (key : Key) (e : HashEntry Key V) : Bool :=
  e.mHash == hash && K.keycmp e.mKey key

/-- The walk along the chain of a key. -/
def find (key : Key) :
    Option (List (HashEntry Key V) × HashEntry Key V × List (HashEntry Key V)) :=
  walk (same K (K.hash key) key) (t.chains (hashIndex t.mCapacity (K.hash key)))

/-- `malloc` and `memset` of a table. The size is a `size_t`, and a table that it does not hold would be
written past its end. -/
def allocTable (granted : Bool) (live capacity : ℕ) :
    Except HashFault (Option (ℕ → List (HashEntry Key V))) :=
  let size := 4 * capacity % 4294967296
  if !hashMalloc granted live size then .ok none
  else if size < 4 * capacity then .error .outOfBounds
  else .ok (some fun _ => [])

/-- The first test of each operation: the library's copy refuses the empty string, and a table that could
not be allocated. -/
def admits (key : Key) : Except HashFault Bool :=
  if K.accepts key ∧ (K.allocates → t.mTable.isSome) then .ok true
  else if B.asserts then .error .assertion
  else .ok false

def get (key : Key) : Except HashFault (Option V) := do
  if ← t.admits K B key then return (t.find K key).map fun r => r.2.1.mValue
  else return none

def contains (key : Key) : Except HashFault Bool := do
  if ← t.admits K B key then return (t.find K key).isSome
  else return false

def remove (key : Key) : Except HashFault (Bool × HashTable Key V) := do
  if ← t.admits K B key then
    match t.find K key with
    | some (before, _, after) =>
      let t' := t.setChain (hashIndex t.mCapacity (K.hash key)) (before ++ after)
      return (true, { t' with mCount := t.mCount - 1 })
    | none => return (false, t)
  else return (false, t)

def clear : HashTable Key V :=
  match t.mTable with
  | some _ => { t with mTable := some fun _ => [], mCount := 0 }
  | none => t

/-- The allocation of the table by `Put`. -/
def ensureTable (granted : Bool) : Except HashFault (Option (HashTable Key V)) :=
  match t.mTable with
  | some _ => .ok (some t)
  | none => (allocTable granted (t.live K B) t.mCapacity).map
      (Option.map fun f => { t with mTable := some f })

/-- What `Rehash` does when it has the new table. -/
def relinked (newTable : ℕ → List (HashEntry Key V)) : HashTable Key V :=
  let newCapacity := t.mCapacity * 2 + 1
  { t with
    mTable := some (relink (fun e => hashIndex newCapacity e.mHash) t.chains t.mCapacity newTable)
    mCapacity := newCapacity
    mThreshold := B.threshold newCapacity }

/-- `none` is `FALSE`. -/
def rehash (granted : Bool) : Except HashFault (Option (HashTable Key V)) :=
  (allocTable granted (t.live K B) (t.mCapacity * 2 + 1)).map (Option.map (t.relinked B))

/-- The new entry of `Put`. The size is below 2^32, since both its parts are below 2^31. -/
def addEntry (key : Key) (value : V) (granted : Bool) : PutReturn × HashTable Key V :=
  if hashMalloc granted (t.live K B) (B.entrySize + K.keylen key) then
    let index := hashIndex t.mCapacity (K.hash key)
    let t' := t.setChain index (⟨K.hash key, key, value⟩ :: t.chains index)
    (.done, { t' with mCount := t.mCount + 1 })
  else (.noMemory, t)

/-- `Put` of a key that is not there. -/
def putNew (key : Key) (value : V) (memory : HashMemory) :
    Except HashFault (PutReturn × HashTable Key V) := do
  if t.mThreshold ≤ t.mCount then
    match ← t.rehash K B memory.newTable with
    | some t' => return t'.addEntry K B key value memory.entry
    | none => return (.noMemory, t)
  else return t.addEntry K B key value memory.entry

/-- `Put` when there is a table. -/
def putInto (key : Key) (value : V) (memory : HashMemory) :
    Except HashFault (PutReturn × HashTable Key V) :=
  match t.find K key with
  | some (before, e, after) =>
    let index := hashIndex t.mCapacity (K.hash key)
    .ok (.done, t.setChain index (before ++ { e with mValue := value } :: after))
  | none => t.putNew K B key value memory

def put (key : Key) (value : V) (memory : HashMemory) :
    Except HashFault (PutReturn × HashTable Key V) := do
  if ← t.admits K B key then
    match ← t.ensureTable K B memory.table with
    | some t' => t'.putInto K B key value memory
    | none => return (.noMemory, t)
  else return (if K.accepts key then .noMemory else .refused, t)

def call : HashCall Key V → Except HashFault (HashReturn V × HashTable Key V)
  | .put key value memory => (t.put K B key value memory).map fun r => (.put r.1, r.2)
  | .remove key => (t.remove K B key).map fun r => (.removed r.1, r.2)
  | .get key => (t.get K B key).map fun r => (.got r, t)
  | .contains key => (t.contains K B key).map fun r => (.contained r, t)
  | .clear => .ok (.cleared, t.clear)
  | .size => .ok (.size t.mCount, t)

end

/-- The constructor. -/
def init (granted : Bool) : Except HashFault (HashTable Key V) :=
  let capacity := if B.initialCapacity ≤ 0 then 10 else B.initialCapacity.toNat
  if K.allocates then do
    match ← allocTable granted 0 capacity with
    | some f =>
      return { mTable := some f, mCapacity := capacity, mThreshold := B.threshold capacity }
    | none => if B.asserts then .error .assertion else return {}
  else .ok { mCapacity := capacity, mThreshold := B.threshold capacity }

/-! ### What a table stands for -/

/-- The entries are those of the map, each with the hash of its key. -/
structure Content (m : Finmap fun _ : Key => V) (l : List (HashEntry Key V)) : Prop where
  hashed : ∀ e ∈ l, e.mHash = K.hash e.mKey
  accepted : ∀ e ∈ l, K.accepts e.mKey = true
  entries : m.entries = (l.map HashEntry.pair : List (Σ _ : Key, V))

/-- The representation. A table that could not be allocated stays empty. -/
structure Sound (t : HashTable Key V) (m : Finmap fun _ : Key => V) : Prop where
  content : Content K m t.entries
  placed : Placed (fun e => hashIndex t.mCapacity e.mHash) t.mCapacity t.chains
  count : t.mCount = t.entries.length
  live : t.live K B ≤ 4294967296
  capacity : (K.allocates = true → t.mTable.isSome) →
    0 < t.mCapacity ∧ t.mCapacity < 1073741824 ∧ t.mThreshold = B.threshold t.mCapacity
  asserted : B.asserts = true → K.allocates = true → t.mTable.isSome

/-- A `malloc` of this `Put` may return null. -/
def Lacks (t : HashTable Key V) (key : Key) (memory : HashMemory) : Prop :=
  (K.allocates = true ∧ t.mTable = none) ∨ memory ≠ ⟨true, true, true⟩ ∨
    4294967296 < t.live K B + 4 * t.mCapacity + 4 * (t.mCapacity * 2 + 1) + (B.entrySize + K.keylen key)

section

variable [DecidableEq Key]

/-- What a finite map answers, and which map it then is. A `Put` without memory leaves it as it was, and
so does one that is refused. -/
inductive Answers (accepts : Key → Bool) (t : HashTable Key V) (m : Finmap fun _ : Key => V) :
    HashCall Key V → HashReturn V → (Finmap fun _ : Key => V) → Prop
  | put {key value memory} : accepts key = true →
    Answers accepts t m (.put key value memory) (.put .done) (m.insert key value)
  | noMemory {key value memory} : t.Lacks K B key memory →
    Answers accepts t m (.put key value memory) (.put .noMemory) m
  | refused {key value memory} : accepts key = false →
    Answers accepts t m (.put key value memory) (.put .refused) m
  | remove {key} : Answers accepts t m (.remove key) (.removed (decide (key ∈ m))) (m.erase key)
  | get {key} : Answers accepts t m (.get key) (.got (m.lookup key)) m
  | contains {key} : Answers accepts t m (.contains key) (.contained (decide (key ∈ m))) m
  | clear : Answers accepts t m .clear .cleared ∅
  | size : Answers accepts t m .size (.size m.keys.card) m

/-- Whether `assert` stops the call: its key is the empty string. -/
def Stops (accepts : Key → Bool) : HashCall Key V → Prop
  | .put key _ _ | .remove key | .get key | .contains key => B.asserts = true ∧ accepts key = false
  | .clear | .size => False

/-- Each call of a run is answered as a map answers it. -/
def Refines (accepts : Key → Bool) :
    HashTable Key V → (Finmap fun _ : Key => V) → List (HashCall Key V) → Prop
  | _, _, [] => True
  | t, m, c :: cs => match t.call K B c with
    | .ok (r, t') => ∃ m', Answers K B accepts t m c r m' ∧ Refines accepts t' m' cs
    | .error fault => fault = .assertion ∧ Stops B accepts c

end

/-! ### The content -/

section Content

variable {K} {m : Finmap fun _ : Key => V} {l others : List (HashEntry Key V)} {e : HashEntry Key V}

theorem Content.perm (h : Content K m l) (hperm : others.Perm l) : Content K m others where
  hashed e he := h.hashed e (hperm.mem_iff.mp he)
  accepted e he := h.accepted e (hperm.mem_iff.mp he)
  entries := h.entries.trans (Multiset.coe_eq_coe.mpr (hperm.map _).symm)

theorem Content.nil : Content K (∅ : Finmap fun _ : Key => V) [] :=
  ⟨List.forall_mem_nil _, List.forall_mem_nil _, rfl⟩

theorem Content.cons [DecidableEq Key] (h : Content K m others) (hkey : e.mKey ∉ m)
    (hhash : e.mHash = K.hash e.mKey) (haccepts : K.accepts e.mKey = true) :
    Content K (m.insert e.mKey e.mValue) (e :: others) where
  hashed := List.forall_mem_cons.mpr ⟨hhash, h.hashed⟩
  accepted := List.forall_mem_cons.mpr ⟨haccepts, h.accepted⟩
  entries := by
    rw [Finmap.entries_insert_of_notMem hkey, h.entries]
    rfl

/-- The map without an entry. -/
theorem Content.uncons [DecidableEq Key] (h : Content K m (e :: others)) :
    ∃ m', Content K m' others ∧ e.mKey ∉ m' ∧ m = m'.insert e.mKey e.mValue := by
  have hcons : m.entries = ⟨e.mKey, e.mValue⟩ ::ₘ (others.map HashEntry.pair : List (Σ _ : Key, V)) :=
    h.entries
  obtain ⟨m', hentries, hkey, rfl⟩ := eq_insert_of_entries hcons
  exact ⟨m', ⟨(List.forall_mem_cons.mp h.hashed).2, (List.forall_mem_cons.mp h.accepted).2, hentries⟩,
    hkey, rfl⟩

theorem Content.card (h : Content K m l) : m.keys.card = l.length := by
  have hcard : m.keys.card = m.entries.card := Multiset.card_map _ _
  rw [hcard, h.entries, Multiset.coe_card, List.length_map]

theorem Content.exists_mem (h : Content K m l) {key : Key} (hkey : key ∈ m) : ∃ e ∈ l, e.mKey = key := by
  rw [Finmap.mem_def, h.entries, Multiset.coe_keys, Multiset.mem_coe] at hkey
  obtain ⟨p, hp, rfl⟩ := List.mem_map.mp hkey
  obtain ⟨e, he, rfl⟩ := List.mem_map.mp hp
  exact ⟨e, he, rfl⟩

end Content

end HashTable

end ElastosCar
