import ElastosCar.Lib.Trace

/-!
# Strong and weak references

`ElRefBase` of `elrefbase.cpp`: an object with a block of two counts, in which a strong reference counts
as a weak one too. The strong count starts at `INITIAL_STRONG_VALUE`, so that the first strong reference
can be told, and the first one takes that value off again with `atomic_add`.

In the `_android` build `atomic_add` adds. In the other it returns -1 and does nothing: the count keeps
the value it started at, and the object is not destroyed with its last strong reference if a weak one is
left. `lifetime_of_counted` shows when the lifetime is right.

The callbacks `OnFirstRef`, `OnLastStrongRef`, `OnLastWeakRef` and `OnIncStrongAttempted` are those of
`ElRefBase` itself: nothing, and `TRUE`.
-/

namespace ElastosCar

/-! ### Atomic primitives -/

/-- The builds of `elaatomics.cpp`: with `_android` it calls the functions of `cutils/atomic.h`, without
it the `__sync` functions of the compiler. -/
inductive AtomicBuild
  | android
  | sync
deriving DecidableEq, Repr

/-- The `Int32` with the same low 32 bits. -/
def toInt32 (n : ℤ) : ℤ := (n + 2147483648) % 4294967296 - 2147483648

/-- `atomic_inc` returns what it stores, in both builds. -/
def atomicInc (v : ℤ) : ℤ := toInt32 (v + 1)

/-- `atomic_dec`, likewise. -/
def atomicDec (v : ℤ) : ℤ := toInt32 (v - 1)

/-- `atomic_cmpxchg`: whether it fails, and what is stored then. -/
def atomicCmpxchg (old new v : ℤ) : Bool × ℤ := if v = old then (false, new) else (true, v)

/-- `atomic_add`: what it returns, and what is stored then. -/
def atomicAdd : AtomicBuild → ℤ → ℤ → ℤ × ℤ
  | .android, value, v => (v, toInt32 (v + value))
  | .sync, _, v => (-1, v)

/-! ### The block -/

/-- `1 << 28`. -/
def INITIAL_STRONG_VALUE : ℤ := 268435456

/-- A `WeakRefImpl`. -/
structure WeakRefImpl where
  mStrong : ℤ := INITIAL_STRONG_VALUE
  mWeak : ℤ := 0
  /-- Whether `mFlags` has `OBJECT_LIFETIME_WEAK`. -/
  isWeakLifetime : Bool := false
  /-- How often the object was deleted. -/
  destroyed : ℕ := 0
  /-- How often the block was deleted. -/
  freed : ℕ := 0
deriving DecidableEq, Repr

namespace WeakRefImpl

/-- `delete mBase`, with what the destructor does to the block. -/
def deleteBase (r : WeakRefImpl) : WeakRefImpl :=
  let r := { r with destroyed := r.destroyed + 1 }
  if r.mStrong = INITIAL_STRONG_VALUE then { r with freed := r.freed + 1 }
  else if r.isWeakLifetime ∧ r.mWeak = 0 then { r with freed := r.freed + 1 }
  else r

def incWeak (r : WeakRefImpl) : WeakRefImpl := { r with mWeak := atomicInc r.mWeak }

def decWeak (r : WeakRefImpl) : WeakRefImpl :=
  let c := atomicDec r.mWeak + 1
  let r := { r with mWeak := atomicDec r.mWeak }
  if c ≠ 1 then r
  else if r.isWeakLifetime then r.deleteBase
  else if r.mStrong = INITIAL_STRONG_VALUE then r.deleteBase
  else { r with freed := r.freed + 1 }

/-- The first strong reference takes the initial value off. -/
def correct (build : AtomicBuild) (r : WeakRefImpl) : WeakRefImpl :=
  { r with mStrong := (atomicAdd build (-INITIAL_STRONG_VALUE) r.mStrong).2 }

def incStrong (build : AtomicBuild) (r : WeakRefImpl) : WeakRefImpl :=
  let r := r.incWeak
  let c := atomicInc r.mStrong - 1
  let r := { r with mStrong := atomicInc r.mStrong }
  if c ≠ INITIAL_STRONG_VALUE then r else r.correct build

def decStrong (r : WeakRefImpl) : WeakRefImpl :=
  let c := atomicDec r.mStrong + 1
  let r := { r with mStrong := atomicDec r.mStrong }
  if c = 1 then
    if r.isWeakLifetime then r.decWeak else r.deleteBase.decWeak
  else r.decWeak

/-- `ForceIncStrong`: the cases of its `switch` differ from `IncStrong` in `OnFirstRef` only. -/
def forceIncStrong (build : AtomicBuild) (r : WeakRefImpl) : WeakRefImpl :=
  let r := r.incWeak
  let c := atomicInc r.mStrong - 1
  let r := { r with mStrong := atomicInc r.mStrong }
  if c = INITIAL_STRONG_VALUE then r.correct build else r

/-- The loop of `AttemptIncStrong`. Nobody changes the count between the reading and the exchange, so
there is no second round; `none` is one. -/
def promote (r : WeakRefImpl) : Option WeakRefImpl :=
  match atomicCmpxchg r.mStrong (r.mStrong + 1) r.mStrong with
  | (false, v) => some { r with mStrong := v }
  | (true, _) => none

def attemptIncStrong (build : AtomicBuild) (r : WeakRefImpl) : Option (Bool × WeakRefImpl) :=
  let r := r.incWeak
  if 0 < r.mStrong ∧ r.mStrong ≠ INITIAL_STRONG_VALUE then r.promote.map fun r => (true, r)
  else
    let allow := if r.mStrong = INITIAL_STRONG_VALUE then true else r.isWeakLifetime
    if !allow then some (false, r.decWeak)
    else
      let curCount := atomicInc r.mStrong - 1
      let r := { r with mStrong := atomicInc r.mStrong }
      some (true, if curCount = INITIAL_STRONG_VALUE then r.correct build else r)

end WeakRefImpl

/-! ### The holders -/

/-- An object, and who holds references on it. -/
structure RefState where
  refs : WeakRefImpl := {}
  /-- The strong references that are held. -/
  strong : ℕ := 0
  /-- The weak references that are held, apart from those of the strong ones. -/
  weak : ℕ := 0
  hadStrong : Bool := false
  /-- Whether there ever was a reference. -/
  hadAny : Bool := false
deriving DecidableEq, Repr

inductive RefAction
  | incStrong
  | decStrong
  | forceIncStrong
  | incWeak
  | decWeak
  | attemptIncStrong
deriving DecidableEq, Repr

namespace RefState

def gainStrong (s : RefState) (refs : WeakRefImpl) : RefState :=
  { s with refs := refs, strong := s.strong + 1, hadStrong := true, hadAny := true }

/-- One call. The object is used while it exists and the block while it does, and a reference is given
back by one who holds it. -/
def step (build : AtomicBuild) (s : RefState) : RefAction → Option RefState
  | .incStrong => if s.refs.destroyed = 0 then some (s.gainStrong (s.refs.incStrong build)) else none
  | .forceIncStrong =>
    if s.refs.destroyed = 0 then some (s.gainStrong (s.refs.forceIncStrong build)) else none
  | .decStrong =>
    if 0 < s.strong then some { s with refs := s.refs.decStrong, strong := s.strong - 1 } else none
  | .incWeak =>
    if s.refs.freed = 0 then
      some { s with refs := s.refs.incWeak, weak := s.weak + 1, hadAny := true }
    else none
  | .decWeak =>
    if 0 < s.weak then some { s with refs := s.refs.decWeak, weak := s.weak - 1 } else none
  | .attemptIncStrong =>
    if s.refs.freed = 0 then
      (s.refs.attemptIncStrong build).map fun (success, refs) =>
        if success then s.gainStrong refs else { s with refs := refs, hadAny := true }
    else none

/-- The object is destroyed once, when its last strong reference is given back, and until then it can be
promoted. The block goes with the last reference. -/
structure Lifetime (build : AtomicBuild) (s : RefState) : Prop where
  destroyed : s.refs.destroyed = if s.hadStrong ∧ s.strong = 0 then 1 else 0
  freed : s.refs.freed = if s.hadAny ∧ s.strong = 0 ∧ s.weak = 0 then 1 else 0
  attempt : s.refs.freed = 0 → ∃ success refs,
    s.refs.attemptIncStrong build = some (success, refs) ∧
      (success = true ↔ s.refs.destroyed = 0)

/-- How many strong references can be held: in the `_android` build the count must not come to the
initial value again, in the other it must not leave the `Int32`s. -/
def limit : AtomicBuild → ℕ
  | .android => 268435456
  | .sync => 1879048191

/-- Where `atomic_add` does not add, no weak reference is left when the last strong one is given back.
There are not more references than the counts can hold. The object had a strong reference before its last
weak one is given back: `DecWeak` has a case of its own for an object that never had one. -/
def Counted (build : AtomicBuild) (s : RefState) : RefAction → Prop
  | .decStrong => build = .sync → s.strong = 1 → s.weak = 0
  | .incStrong | .forceIncStrong | .attemptIncStrong =>
    s.strong < limit build ∧ s.strong + s.weak < 2147483647
  | .incWeak => s.strong + s.weak < 2147483647
  | .decWeak => s.hadStrong = false → s.weak ≠ 1

/-! ### What the counts are -/

theorem atomicInc_of_lt {v : ℤ} (h0 : 0 ≤ v) (h : v < 2147483647) : atomicInc v = v + 1 := by
  rw [atomicInc, toInt32]
  omega

theorem atomicDec_of_pos {v : ℤ} (h0 : 0 < v) (h : v ≤ 2147483647) : atomicDec v = v - 1 := by
  rw [atomicDec, toInt32]
  omega

/-- The strong count. -/
def count : AtomicBuild → Bool → ℕ → ℤ
  | .android, true, strong => strong
  | _, _, strong => INITIAL_STRONG_VALUE + strong

/-- The first reference is told by the initial value, which then is taken off. -/
def gain (build : AtomicBuild) (v : ℤ) : ℤ :=
  if atomicInc v - 1 = INITIAL_STRONG_VALUE then
    (atomicAdd build (-INITIAL_STRONG_VALUE) (atomicInc v)).2
  else atomicInc v

theorem count_nonneg (build : AtomicBuild) (hadStrong : Bool) (strong : ℕ) :
    0 ≤ count build hadStrong strong := by
  cases build <;> cases hadStrong <;> simp only [count, INITIAL_STRONG_VALUE] <;> omega

theorem atomicInc_count {build : AtomicBuild} {hadStrong : Bool} {strong : ℕ}
    (hhad : hadStrong = false → strong = 0) (hlimit : strong < limit build) :
    atomicInc (count build hadStrong strong) = count build hadStrong strong + 1 := by
  refine atomicInc_of_lt (count_nonneg ..) ?_
  cases build <;> cases hadStrong <;> simp only [count, INITIAL_STRONG_VALUE, limit] at * <;> omega

theorem gain_count {build : AtomicBuild} {hadStrong : Bool} {strong : ℕ}
    (hhad : hadStrong = false → strong = 0) (hlimit : strong < limit build) :
    gain build (count build hadStrong strong) = count build true (strong + 1) := by
  rw [gain, atomicInc_count hhad hlimit]
  cases build with
  | android =>
    cases hadStrong with
    | false =>
      rw [hhad rfl]
      rfl
    | true =>
      rw [if_neg]
      · rfl
      · simp only [count, INITIAL_STRONG_VALUE, limit] at *
        omega
  | sync =>
    -- nothing is taken off, whether this is the first reference or not
    have hcount : count .sync hadStrong strong + 1 = count .sync true (strong + 1) := by
      cases hadStrong <;> simp only [count] <;> push_cast <;> ring
    rw [atomicAdd, ite_self, hcount]

/-- The block after the references were counted as they should be. -/
def block (build : AtomicBuild) (hadStrong hadAny : Bool) (strong weak : ℕ) : WeakRefImpl where
  mStrong := count build hadStrong strong
  mWeak := strong + weak
  destroyed := if (if hadStrong then strong = 0 else hadAny ∧ weak = 0) then 1 else 0
  freed := if hadAny ∧ strong = 0 ∧ weak = 0 then 1 else 0

/-- No reference is held that was never taken. -/
structure Taken (hadStrong hadAny : Bool) (strong weak : ℕ) : Prop where
  ofStrong : hadStrong = false → strong = 0
  ofAny : hadAny = false → strong = 0 ∧ weak = 0 ∧ hadStrong = false

/-- The invariant. -/
structure Sound (build : AtomicBuild) (s : RefState) : Prop where
  refs : s.refs = block build s.hadStrong s.hadAny s.strong s.weak
  had : Taken s.hadStrong s.hadAny s.strong s.weak
  most : s.strong ≤ limit build ∧ s.strong + s.weak ≤ 2147483647
  left : build = .sync → s.hadStrong = true → s.strong = 0 → s.weak = 0
  alive : s.hadStrong = false → s.hadAny = true → s.weak ≠ 0

theorem sound_init (build : AtomicBuild) : Sound build {} := by
  refine ⟨?_, ⟨fun _ => rfl, fun _ => ⟨rfl, rfl, rfl⟩⟩, ⟨Nat.zero_le _, Nat.zero_le _⟩,
    fun _ _ _ => rfl, fun _ => nofun⟩
  cases build <;> rfl

section

variable {build : AtomicBuild} {hadStrong hadAny : Bool} {strong weak : ℕ}

theorem incStrong_eq (build : AtomicBuild) (r : WeakRefImpl) :
    r.incStrong build = { r.incWeak with mStrong := gain build r.mStrong } := by
  by_cases h : atomicInc r.mStrong - 1 = INITIAL_STRONG_VALUE <;>
    simp [WeakRefImpl.incStrong, WeakRefImpl.incWeak, WeakRefImpl.correct, gain, h]

theorem forceIncStrong_eq (build : AtomicBuild) (r : WeakRefImpl) :
    r.forceIncStrong build = r.incStrong build := by
  rw [incStrong_eq]
  by_cases h : atomicInc r.mStrong - 1 = INITIAL_STRONG_VALUE <;>
    simp [WeakRefImpl.forceIncStrong, WeakRefImpl.incWeak, WeakRefImpl.correct, gain, h]

theorem atomicInc_weak (hmost : strong + weak < 2147483647) :
    atomicInc (strong + weak : ℤ) = strong + (weak + 1 : ℕ) := by
  rw [atomicInc_of_lt (by omega) (by omega), Nat.cast_succ, add_assoc]

theorem incWeak_block (hhad : Taken hadStrong hadAny strong weak)
    (hlive : (block build hadStrong hadAny strong weak).freed = 0)
    (hmost : strong + weak < 2147483647) :
    (block build hadStrong hadAny strong weak).incWeak
      = block build hadStrong true strong (weak + 1) := by
  obtain ⟨hstrong, hany⟩ := hhad
  rw [WeakRefImpl.incWeak, WeakRefImpl.mk.injEq]
  refine ⟨rfl, atomicInc_weak hmost, rfl, ?_, ?_⟩
  · cases hadStrong <;> cases hadAny <;> simp_all [block]
  · rw [hlive]
    simp [block]

theorem incStrong_block (hhad : Taken hadStrong hadAny strong weak)
    (hlive : (block build hadStrong hadAny strong weak).destroyed = 0)
    (hlimit : strong < limit build) (hmost : strong + weak < 2147483647) :
    (block build hadStrong hadAny strong weak).incStrong build
      = block build true true (strong + 1) weak := by
  obtain ⟨hstrong, hany⟩ := hhad
  have hweak : atomicInc (strong + weak : ℤ) = (strong + 1 : ℕ) + weak := by
    rw [atomicInc_weak hmost]
    push_cast
    ring
  rw [incStrong_eq, WeakRefImpl.mk.injEq]
  refine ⟨gain_count hstrong hlimit, hweak, rfl, ?_, ?_⟩
  · cases hadStrong <;> simp_all [block, WeakRefImpl.incWeak]
  · cases hadStrong <;> simp_all [block, WeakRefImpl.incWeak]

/-- `DecWeak` in the regular lifetime. -/
theorem decWeak_eq {r : WeakRefImpl} (hlifetime : r.isWeakLifetime = false) (hpos : 0 < r.mWeak)
    (hmost : r.mWeak ≤ 2147483647) :
    r.decWeak =
      if r.mWeak ≠ 1 then { r with mWeak := r.mWeak - 1 }
      else if r.mStrong = INITIAL_STRONG_VALUE then
        { r with mWeak := 0, destroyed := r.destroyed + 1, freed := r.freed + 1 }
      else { r with mWeak := 0, freed := r.freed + 1 } := by
  rw [WeakRefImpl.decWeak, atomicDec_of_pos hpos hmost]
  simp only [sub_add_cancel]
  by_cases hlast : r.mWeak = 1 <;> by_cases hinitial : r.mStrong = INITIAL_STRONG_VALUE <;>
    simp [hlast, hinitial, hlifetime, WeakRefImpl.deleteBase]

theorem decWeak_block (hhad : Taken hadStrong true strong (weak + 1))
    (hmost : strong + (weak + 1) ≤ 2147483647)
    (hleft : build = .sync → hadStrong = true → strong ≠ 0) :
    (block build hadStrong true strong (weak + 1)).decWeak
      = block build hadStrong true strong weak := by
  have hstrong := hhad.ofStrong
  rw [decWeak_eq rfl (by simp only [block]; omega) (by simp only [block]; omega)]
  simp only [block]
  by_cases hlast : strong = 0 ∧ weak = 0
  · obtain ⟨rfl, rfl⟩ := hlast
    cases build <;> cases hadStrong <;> simp_all [count, INITIAL_STRONG_VALUE]
  · rw [if_pos (by omega), WeakRefImpl.mk.injEq]
    refine ⟨rfl, by push_cast; ring, rfl, ?_, ?_⟩
    · cases hadStrong <;> simp_all
    · simp_all

theorem decStrong_block (hmost : strong + 1 ≤ limit build ∧ strong + 1 + weak ≤ 2147483647)
    (hleft : build = .sync → strong = 0 → weak = 0) :
    (block build true true (strong + 1) weak).decStrong = block build true true strong weak := by
  have hdec : atomicDec (count build true (strong + 1)) = count build true strong := by
    cases build <;> simp only [count, INITIAL_STRONG_VALUE, limit] at * <;>
      rw [atomicDec_of_pos (by omega) (by omega)] <;> push_cast <;> ring
  have hlast : count build true strong + 1 = 1 ↔ build = .android ∧ strong = 0 := by
    cases build <;> simp [count, INITIAL_STRONG_VALUE]
    omega
  have hpos : (0 : ℤ) < (strong + 1 : ℕ) + weak := by omega
  have hle : ((strong + 1 : ℕ) + weak : ℤ) ≤ 2147483647 := by omega
  have hone : ((strong + 1 : ℕ) + weak : ℤ) = 1 ↔ strong = 0 ∧ weak = 0 := by omega
  have hweak : ((strong + 1 : ℕ) + weak : ℤ) - 1 = strong + weak := by push_cast; ring
  rw [WeakRefImpl.decStrong]
  simp only [block, hdec, hlast]
  by_cases hdies : build = .android ∧ strong = 0
  · -- the object is destroyed, and the block if no weak reference is left
    obtain ⟨rfl, rfl⟩ := hdies
    have hcount : count .android true 0 ≠ INITIAL_STRONG_VALUE := by decide
    rw [if_pos ⟨rfl, rfl⟩, if_neg Bool.false_ne_true, WeakRefImpl.deleteBase, if_neg hcount,
      if_neg (by simp), decWeak_eq rfl hpos hle, if_neg hcount]
    by_cases hfree : weak = 0 <;> simp_all
  · rw [if_neg hdies, decWeak_eq rfl hpos hle]
    cases build <;> by_cases hfree : strong = 0 ∧ weak = 0 <;>
      simp_all [count]

/-- `AttemptIncStrong` on an object that may be promoted. -/
theorem attempt_of_pos {r : WeakRefImpl} (hpos : 0 < r.mStrong) :
    r.attemptIncStrong build = some (true, { r.incWeak with
      mStrong := if r.mStrong = INITIAL_STRONG_VALUE then gain build r.mStrong else r.mStrong + 1 }) := by
  by_cases hinitial : r.mStrong = INITIAL_STRONG_VALUE
  · have hc : atomicInc INITIAL_STRONG_VALUE - 1 = INITIAL_STRONG_VALUE := by decide
    simp [WeakRefImpl.attemptIncStrong, WeakRefImpl.incWeak, WeakRefImpl.correct, gain, hinitial, hc]
  · simp [WeakRefImpl.attemptIncStrong, WeakRefImpl.incWeak, WeakRefImpl.promote, atomicCmpxchg,
      hinitial, hpos]

/-- `AttemptIncStrong` on an object whose last strong reference was given back. -/
theorem attempt_of_zero {r : WeakRefImpl} (hzero : r.mStrong = 0) (hlifetime : r.isWeakLifetime = false) :
    r.attemptIncStrong build = some (false, r.incWeak.decWeak) := by
  have hinitial : (0 : ℤ) ≠ INITIAL_STRONG_VALUE := by decide
  simp [WeakRefImpl.attemptIncStrong, WeakRefImpl.incWeak, hzero, hlifetime, hinitial]

theorem count_pos_of_alive (hhad : Taken hadStrong hadAny strong weak)
    (hlive : (block build hadStrong hadAny strong weak).destroyed = 0) :
    0 < count build hadStrong strong := by
  have hstrong := hhad.ofStrong
  cases build <;> cases hadStrong <;> simp_all [block, count, INITIAL_STRONG_VALUE] <;> omega

/-- The promotion of an object that exists. -/
theorem attempt_block (hhad : Taken hadStrong hadAny strong weak)
    (hlive : (block build hadStrong hadAny strong weak).destroyed = 0)
    (hlimit : strong < limit build) (hmost : strong + weak < 2147483647) :
    (block build hadStrong hadAny strong weak).attemptIncStrong build
      = some (true, block build true true (strong + 1) weak) := by
  have hgain : (if count build hadStrong strong = INITIAL_STRONG_VALUE then
      gain build (count build hadStrong strong) else count build hadStrong strong + 1)
      = gain build (count build hadStrong strong) := by
    split
    · rfl
    · next hinitial => rw [gain, atomicInc_count hhad.ofStrong hlimit, add_sub_cancel_right,
        if_neg hinitial]
  rw [attempt_of_pos (count_pos_of_alive hhad hlive), ← incStrong_block hhad hlive hlimit hmost,
    incStrong_eq]
  exact congrArg (fun v => some (true, { (block build hadStrong hadAny strong weak).incWeak with
    mStrong := v })) hgain

/-- An object that is destroyed while its block is there. -/
theorem of_destroyed (hhad : Taken hadStrong hadAny strong weak)
    (hleft : build = .sync → hadStrong = true → strong = 0 → weak = 0)
    (hdestroyed : (block build hadStrong hadAny strong weak).destroyed ≠ 0)
    (hfreed : (block build hadStrong hadAny strong weak).freed = 0) :
    build = .android ∧ hadStrong = true ∧ hadAny = true ∧ strong = 0 ∧ weak ≠ 0 := by
  obtain ⟨hstrong, hany⟩ := hhad
  cases build <;> cases hadStrong <;> cases hadAny <;> simp_all [block]

/-- The promotion of an object that is destroyed. -/
theorem attempt_destroyed (hmost : weak + 1 < 2147483647) :
    (block .android true true 0 (weak + 1)).attemptIncStrong .android
      = some (false, block .android true true 0 (weak + 1)) := by
  have hhad (w : ℕ) : Taken true true 0 w := ⟨nofun, nofun⟩
  have hinc : (block .android true true 0 (weak + 1)).incWeak = block .android true true 0 (weak + 2) :=
    incWeak_block (hhad _) (by simp [block]) (by omega)
  have hdec : (block .android true true 0 (weak + 2)).decWeak = block .android true true 0 (weak + 1) :=
    decWeak_block (hhad _) (by omega) (fun h => nomatch h)
  rw [attempt_of_zero rfl rfl, hinc, hdec]

end

variable {build : AtomicBuild} {s s' : RefState}

/-- A strong reference is taken. -/
theorem Sound.gainStrong {refs : WeakRefImpl}
    (hrefs : refs = block build true true (s.strong + 1) s.weak)
    (hok : s.strong < limit build ∧ s.strong + s.weak < 2147483647) :
    (s.gainStrong refs).Sound build := by
  obtain ⟨hlimit, hmost⟩ := hok
  refine ⟨hrefs, ⟨nofun, nofun⟩, ⟨hlimit, ?_⟩, fun _ _ hzero => absurd hzero (Nat.succ_ne_zero _),
    nofun⟩
  change s.strong + 1 + s.weak ≤ 2147483647
  omega

theorem Taken.eq_true_of_strong {hadStrong hadAny : Bool} {strong weak : ℕ}
    (h : Taken hadStrong hadAny strong weak) (hpos : 0 < strong) :
    hadStrong = true ∧ hadAny = true := by
  obtain ⟨hstrong, hany⟩ := h
  cases hadStrong <;> cases hadAny <;> simp_all

theorem Taken.eq_true_of_weak {hadStrong hadAny : Bool} {strong weak : ℕ}
    (h : Taken hadStrong hadAny strong weak) (hpos : 0 < weak) : hadAny = true := by
  have hany := h.ofAny
  cases hadAny <;> simp_all

theorem Sound.decStrong (hs : s.Sound build) (hok : s.Counted build .decStrong)
    (h : s.step build .decStrong = some s') : s'.Sound build := by
  obtain ⟨hrefs, hhad, hmost, hleft, -⟩ := hs
  obtain ⟨hpos, h⟩ := Option.ite_none_right_eq_some.mp h
  cases h
  obtain ⟨hstrong, hany⟩ := hhad.eq_true_of_strong hpos
  obtain ⟨n, hn⟩ : ∃ n, s.strong = n + 1 := ⟨s.strong - 1, by omega⟩
  have hlast : build = .sync → n = 0 → s.weak = 0 := fun hb hzero => hok hb (by omega)
  rw [hn] at hmost
  refine ⟨?_, ?_, ?_, ?_, ?_⟩ <;> dsimp only
  · rw [hrefs, hstrong, hany, hn]
    exact decStrong_block hmost hlast
  · rw [hstrong, hany]
    exact ⟨nofun, nofun⟩
  · omega
  · rw [hn]
    exact fun hb _ hzero => hlast hb hzero
  · rw [hstrong]
    exact nofun

/-- In the build without `atomic_add` a weak reference is left only while a strong one is. -/
theorem Sound.strong_ne_zero (hs : s.Sound build) (hpos : 0 < s.weak) (hb : build = .sync)
    (hstrong : s.hadStrong = true) : s.strong ≠ 0 := fun hzero => by
  have := hs.left hb hstrong hzero
  omega

theorem Sound.incWeak (hs : s.Sound build) (hok : s.Counted build .incWeak)
    (h : s.step build .incWeak = some s') : s'.Sound build := by
  obtain ⟨hlive, h⟩ := Option.ite_none_right_eq_some.mp h
  cases h
  have hlive' := hlive
  rw [hs.refs] at hlive'
  refine ⟨?_, ⟨hs.had.ofStrong, nofun⟩, ⟨hs.most.1, hok⟩, fun hb hstrong hzero => ?_,
    fun _ _ => Nat.succ_ne_zero _⟩
  · change s.refs.incWeak = _
    rw [hs.refs]
    exact incWeak_block hs.had hlive' hok
  · -- the block would have been freed
    have hweak := hs.left hb hstrong hzero
    have hany : s.hadAny = true := by
      by_contra hnot
      have := (hs.had.ofAny (by simpa using hnot)).2.2
      simp_all
    dsimp only at hzero hstrong
    simp [block, hany, hzero, hweak] at hlive'

theorem Sound.decWeak (hs : s.Sound build) (hok : s.Counted build .decWeak)
    (h : s.step build .decWeak = some s') : s'.Sound build := by
  have hne := hs.strong_ne_zero
  obtain ⟨hrefs, hhad, hmost, hleft, -⟩ := hs
  obtain ⟨hpos, h⟩ := Option.ite_none_right_eq_some.mp h
  cases h
  have hany := hhad.eq_true_of_weak hpos
  obtain ⟨n, hn⟩ : ∃ n, s.weak = n + 1 := ⟨s.weak - 1, by omega⟩
  rw [hany, hn] at hhad hrefs
  refine ⟨?_, ?_, ?_, fun hb hstrong hzero => absurd hzero (hne hpos hb hstrong), ?_⟩ <;> dsimp only
  · rw [hrefs, hn, hany]
    exact decWeak_block hhad (by omega) (hne hpos)
  · rw [hany]
    exact ⟨hhad.ofStrong, nofun⟩
  · omega
  · intro hnever _
    have := hok hnever
    omega

theorem Sound.attempt (hs : s.Sound build) (hok : s.Counted build .attemptIncStrong)
    (h : s.step build .attemptIncStrong = some s') : s'.Sound build := by
  obtain ⟨hfreed, h⟩ := Option.ite_none_right_eq_some.mp h
  obtain ⟨⟨success, refs⟩, hattempt, rfl⟩ := Option.map_eq_some_iff.mp h
  rw [hs.refs] at hattempt hfreed
  by_cases hlive : (block build s.hadStrong s.hadAny s.strong s.weak).destroyed = 0
  · rw [attempt_block hs.had hlive hok.1 hok.2] at hattempt
    cases hattempt
    exact Sound.gainStrong rfl hok
  · obtain ⟨hb, hstrong, hany, hzero, hweak⟩ := of_destroyed hs.had hs.left hlive hfreed
    obtain ⟨n, hn⟩ : ∃ n, s.weak = n + 1 := ⟨s.weak - 1, by omega⟩
    have hmost := hok.2
    rw [hb, hstrong, hany, hzero, hn, attempt_destroyed (by omega)] at hattempt
    cases hattempt
    refine ⟨?_, ⟨hs.had.ofStrong, nofun⟩, hs.most, hs.left, fun _ _ hzero => ?_⟩
    · change _ = block build s.hadStrong true s.strong s.weak
      rw [hb, hstrong, hzero, hn]
      rfl
    · exact hweak hzero

/-- **One step** within the condition. -/
theorem Sound.step (hs : s.Sound build) {a : RefAction} (hok : s.Counted build a)
    (h : s.step build a = some s') : s'.Sound build := by
  cases a with
  | incStrong =>
    obtain ⟨hlive, h⟩ := Option.ite_none_right_eq_some.mp h
    cases h
    rw [hs.refs] at hlive
    refine Sound.gainStrong ?_ hok
    rw [hs.refs]
    exact incStrong_block hs.had hlive hok.1 hok.2
  | forceIncStrong =>
    obtain ⟨hlive, h⟩ := Option.ite_none_right_eq_some.mp h
    cases h
    rw [hs.refs] at hlive
    refine Sound.gainStrong ?_ hok
    rw [forceIncStrong_eq, hs.refs]
    exact incStrong_block hs.had hlive hok.1 hok.2
  | decStrong => exact hs.decStrong hok h
  | incWeak => exact hs.incWeak hok h
  | decWeak => exact hs.decWeak hok h
  | attemptIncStrong => exact hs.attempt hok h

theorem Sound.lifetime (hs : s.Sound build) : s.Lifetime build where
  destroyed := by
    have halive := hs.alive
    rw [hs.refs]
    cases hhad : s.hadStrong <;> simp_all [block]
  freed := by
    rw [hs.refs]
    rfl
  attempt hfreed := by
    rw [hs.refs] at hfreed ⊢
    by_cases hlive : (block build s.hadStrong s.hadAny s.strong s.weak).destroyed = 0
    · exact ⟨true, _, attempt_of_pos (count_pos_of_alive hs.had hlive), iff_of_true rfl hlive⟩
    · obtain ⟨hb, hstrong, hany, hzero, hweak⟩ := of_destroyed hs.had hs.left hlive hfreed
      refine ⟨false, _, attempt_of_zero ?_ rfl, iff_of_false Bool.false_ne_true hlive⟩
      rw [hb, hstrong, hzero]
      rfl

/-- **The lifetime of an object.** In every run in which the counts hold the references, and no weak
reference is left with the last strong one where `atomic_add` does not add, the object and its block are
destroyed when they should be; the object had a strong reference before its last weak one goes. -/
theorem lifetime_of_counted (build : AtomicBuild) (as : List RefAction) (s : RefState)
    (hok : Trace.Meets (step build) (Counted build) {} as)
    (hrun : Trace.run (step build) {} as = some s) : s.Lifetime build :=
  (Trace.run_invariant (fun _ _ _ hs hok h => hs.step hok h) (sound_init build) hok hrun).lifetime

/-- A weak reference is left when the only strong one is given back. -/
def weakLeft : List RefAction := [.incStrong, .incWeak, .decStrong]

theorem not_lifetime_weakLeft :
    ¬ ∀ (build : AtomicBuild) (as : List RefAction) (s : RefState),
      Trace.run (step build) {} as = some s → s.Lifetime build := by
  intro h
  have hrun : ∃ s, Trace.run (step .sync) {} weakLeft = some s ∧ s.refs.destroyed = 0 ∧
      s.hadStrong = true ∧ s.strong = 0 := ⟨_, rfl, rfl, rfl, rfl⟩
  obtain ⟨s, hs, halive, hstrong, hzero⟩ := hrun
  have hdestroyed := (h .sync weakLeft s hs).destroyed
  rw [halive, hstrong, hzero] at hdestroyed
  cases hdestroyed

/-- In the `_android` build the object is destroyed, it cannot be promoted, and then the block goes. -/
def promotedLate : List RefAction := weakLeft ++ [.attemptIncStrong, .decWeak]

theorem lifetime_of_counted_promotedLate :
    ∃ s, Trace.run (step .android) {} promotedLate = some s ∧ s.refs.destroyed = 1 ∧
      s.refs.freed = 1 ∧ s.Lifetime .android := by
  refine ⟨_, rfl, rfl, rfl, lifetime_of_counted .android promotedLate _ ?_ rfl⟩
  refine .cons ?_ rfl (.cons ?_ rfl (.cons ?_ rfl (.cons ?_ rfl (.cons ?_ rfl trivial))))
  · exact ⟨by decide, by decide⟩
  · change 1 + 0 < 2147483647
    decide
  · exact nofun
  · exact ⟨by decide, by decide⟩
  · exact nofun

end RefState

end ElastosCar
