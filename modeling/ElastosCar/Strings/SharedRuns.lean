import ElastosCar.Lib.Trace
import ElastosCar.Strings.Ranges
import ElastosCar.Strings.SharedAppend

/-!
# Any number of strings, in any run

The calls on `String` variables, one after the other: they are copied and assigned, appended to each
other and to themselves, and let go. What `malloc` and `realloc` answer is part of a call.

* `buffers_right`: in a run in which no call reads from a buffer that it has moved, each buffer
  counts the variables that point to it and is freed with the last, none is read after that, and a
  call changes its own variable only.
* `not_live_moved`: a string that is appended to itself is read where it was, after `realloc` has
  moved it.
-/

namespace ElastosCar.SharedStrings

open Sharing

/-! ### The calls -/

section Calls

variable {ι : Type}

/-- A `const char*`: to bytes that are in no buffer, or into the string of a variable. -/
inductive Source (ι : Type)
  | bytes (bs : List UInt8)
  | string (t : ι) (start : ℕ)

def Source.pointer (s : Store ι) : Source ι → Option Pointer
  | .bytes bs => some (.bytes bs)
  | .string t start => (s.mString t).map fun a => .inside a start

/-- The bytes up to the terminator. -/
def Source.chars (s : Store ι) : Source ι → List UInt8
  | .bytes bs => bs.takeWhile (· ≠ 0)
  | .string t start => ((s.value t).data.drop start).takeWhile (· ≠ 0)

inductive Call (ι : Type)
  | Destroy
  | SetTo (other : ι)
  | SetToNull
  | SetToChars (other : Source ι)
  | AppendBytes (bytes : List UInt8)
  | AppendChars (other : Source ι)
  | AppendString (other : ι)
  | AppendFrom (other : ι) (charOffset : ℤ)
  | AppendRange (other : ι) (offset numOfChars : ℤ)
  | AppendChar (ch : UInt32)
  | AppendArray (array : List UInt32) (offset length : ℤ)
  | AppendFormat (args : List ι) (text : Option (List UInt8))

/-- A call on a variable, with what the C library answers in it and what is found in place of a
buffer that was freed. -/
structure Action (ι : Type) where
  v : ι
  call : Call ι
  alloc : Allocator
  stale : List UInt8 := []

variable [DecidableEq ι]

/-- `SetTo(const char*)`. -/
def SetToChars (v : ι) (other : Source ι) (stale : List UInt8) (alloc : Allocator) (s : Store ι) :
    ECode × Store ι :=
  match other.pointer s with
  | none => (NOERROR, SetToNull v s)
  | some p =>
    let read := s.memory.read stale p (s.memory.strlen p)
    SetToBytes v read.1 alloc.malloc { s with memory := read.2 }

/-- `Append(const char*)`, which does not take a null pointer. -/
def AppendChars (v : ι) (other : Source ι) (stale : List UInt8) (alloc : Allocator) (s : Store ι) :
    Option (ECode × Store ι) :=
  (other.pointer s).map fun p => AppendN v p (s.memory.strlen p) stale alloc s

def perform (s : Store ι) (act : Action ι) : Option (ECode × Store ι) :=
  match act.call with
  | .Destroy => some (NOERROR, Destroy act.v s)
  | .SetTo other => some (NOERROR, SetTo act.v other s)
  | .SetToNull => some (NOERROR, SetToNull act.v s)
  | .SetToChars other => some (SetToChars act.v other act.stale act.alloc s)
  | .AppendBytes bytes => some (AppendN act.v (.bytes bytes) bytes.length act.stale act.alloc s)
  | .AppendChars other => AppendChars act.v other act.stale act.alloc s
  | .AppendString other => some (AppendString act.v other act.stale act.alloc s)
  | .AppendFrom other charOffset =>
    some (AppendFrom act.v other charOffset act.stale act.alloc s)
  | .AppendRange other offset numOfChars =>
    some (AppendRange act.v other offset numOfChars act.stale act.alloc s)
  | .AppendChar ch => some (AppendChar act.v ch act.stale act.alloc s)
  | .AppendArray array offset length =>
    some (AppendArray act.v array offset length act.stale act.alloc s)
  | .AppendFormat args text => AppendFormat act.v args text act.stale act.alloc s

def step (s : Store ι) (act : Action ι) : Option (Store ι) := (perform s act).map Prod.snd

end Calls

/-! ### What the calls are to do -/

section Values

variable {ι : Type}

/-- What the variable is to hold after the call; of a format that is left open. -/
def Call.value (s : Store ι) (v : ι) : Call ι → Option ElString
  | .Destroy => some {}
  | .SetTo other => some (s.value other)
  | .SetToNull => some ((s.value v).SetToChars none)
  | .SetToChars other => some (if (other.pointer s).isNone then (s.value v).SetToChars none
      else (s.value v).SetToCharsN (other.chars s))
  | .AppendBytes bytes => some ((s.value v).AppendN bytes)
  | .AppendChars other => some ((s.value v).AppendN (other.chars s))
  | .AppendString other => some (ElString.AppendString (s.value other) (s.value v))
  | .AppendFrom other charOffset =>
    some (ElString.AppendFrom (s.value other) charOffset (s.value v)).2
  | .AppendRange other offset numOfChars =>
    some (ElString.AppendRange (s.value other) offset numOfChars (s.value v)).2
  | .AppendChar ch => some (ElString.AppendChar ch (s.value v)).2
  | .AppendArray array offset length =>
    some (ElString.AppendArray array offset length (s.value v)).2
  | .AppendFormat _ _ => none

/-- The bytes of a string, without its terminator. -/
def text (x : ElString) : List UInt8 := x.data.take x.GetByteLength

theorem headD_data {x : ElString} (h : x.GetByteLength ≠ 0) : x.data.headD 0 ≠ 0 := by
  rw [ElString.GetByteLength] at h
  split_ifs at h with hempty
  · exact absurd rfl h
  · rw [ElString.IsNullOrEmpty] at hempty
    rw [ElString.data]
    rcases hstring : x.mString with _ | data
    · rw [hstring] at hempty
      exact absurd rfl hempty
    · rw [hstring, Option.elim_some] at hempty
      exact of_decide_eq_false (Bool.eq_false_iff.mpr hempty)

theorem text_of_mString {x : ElString} {bytes : List UInt8} (h : x.mString = some (bytes ++ [0]))
    (hhead : (bytes ++ [0]).headD 0 ≠ 0) : text x = bytes := by
  have hlength : x.GetByteLength = bytes.length := by
    rw [ElString.GetByteLength, ElString.IsNullOrEmpty, h, Option.elim_some, Option.elim_some,
      decide_eq_false hhead, if_neg Bool.false_ne_true, List.length_append, List.length_singleton,
      Nat.add_sub_cancel]
  rw [text, hlength, ElString.data, h, Option.getD_some, List.take_left]

/-- **`Append(const String&)`** puts the bytes of the one behind those of the other. -/
theorem text_appendString (x other : ElString) :
    text (ElString.AppendString other x) = text x ++ text other := by
  rw [ElString.AppendString]
  split_ifs with hempty
  · have hx : text x = [] := by rw [text, hempty, List.take_zero]
    rw [hx, List.nil_append]
  change text (x.RealAppend (text other)) = _
  rw [ElString.RealAppend]
  split_ifs with hnil
  · rw [hnil, List.append_nil]
  · refine text_of_mString rfl ?_
    have hlength := length_data hempty
    have hhead := headD_data hempty
    obtain ⟨n, hn⟩ := Nat.exists_eq_succ_of_ne_zero hempty
    rcases hdata : x.data with _ | ⟨b, data⟩
    · rw [hdata] at hlength
      exact absurd hlength (Nat.succ_ne_zero _).symm
    · rw [hdata] at hhead
      rw [text, hn, hdata]
      exact hhead

/-- The buffers that are read after the one of the variable has been resized. -/
def Call.reads (s : Store ι) (v : ι) : Call ι → List ℕ
  | .AppendChars (.string t _) =>
    if (s.value v).GetByteLength = 0 then [] else (s.mString t).toList
  | .AppendString other =>
    if (s.value v).GetByteLength = 0 ∨ (s.value other).GetByteLength = 0 then []
    else (s.mString other).toList
  | .AppendFrom other _ | .AppendRange other _ _ =>
    if (s.value v).GetByteLength = 0 then [] else (s.mString other).toList
  | .AppendFormat args text => if text = some [] then [] else args.filterMap s.mString
  | _ => []

variable [Fintype ι]

/-- The new blocks are where none is, and the buffer of the variable stays where it is if it is the
only one of what is read after that. -/
structure Action.Ok (s : Store ι) (act : Action ι) : Prop where
  fresh : act.alloc.Fresh s.memory.buffers
  spared : ∀ a ∈ act.call.reads s act.v, Spared s act.v act.alloc a

variable [DecidableEq ι] {s : Store ι} {v : ι} {p : Pointer}

omit [DecidableEq ι] in
/-- The pointer points to the characters, and `strlen` counts them. -/
theorem Kept.source (h : Kept s) {src : Source ι} (hp : src.pointer s = some p) :
    p.To s.memory (src.chars s) ∧ s.memory.strlen p = (src.chars s).length := by
  rcases src with bs | ⟨t, start⟩
  · obtain rfl := Option.some.inj hp
    exact ⟨List.takeWhile_prefix _, rfl⟩
  · obtain ⟨a, ha, rfl⟩ := Option.map_eq_some_iff.mp hp
    have hdata := h.data_eq ha
    obtain ⟨b, hb, hbytes⟩ := Option.map_eq_some_iff.mp hdata
    refine ⟨⟨_, hdata, List.takeWhile_prefix _⟩, ?_⟩
    rw [Memory.strlen, hb, Option.elim_some, hbytes]
    rfl

theorem Kept.does_SetToChars (h : Kept s) {alloc : Allocator}
    (hfresh : alloc.Fresh s.memory.buffers) (other : Source ι) (stale : List UInt8) :
    Does s v (if (other.pointer s).isNone then (s.value v).SetToChars none
      else (s.value v).SetToCharsN (other.chars s)) (SetToChars v other stale alloc s) := by
  rw [SetToChars]
  rcases hp : other.pointer s with _ | p
  · exact h.does_SetToNull
  · obtain ⟨hto, hlength⟩ := h.source hp
    dsimp only
    rw [hlength, hto.read stale]
    exact h.does_SetToBytes hfresh

/-- **What a call does**, if it reads nothing that it has moved. -/
theorem Kept.does_perform (h : Kept s) {act : Action ι} (hok : act.Ok s) {r : ECode × Store ι}
    (hr : perform s act = some r) :
    ∃ x, Does s act.v x r ∧ ∀ y, act.call.value s act.v = some y → x = y := by
  obtain ⟨v, call, alloc, stale⟩ := act
  obtain ⟨hfresh, hspared⟩ := hok
  dsimp only at hfresh hspared ⊢
  have hdoes {x : ElString} (hx : Does s v x r) :
      ∃ x', Does s v x' r ∧ ∀ y, some x = some y → x' = y := ⟨x, hx, fun y => Option.some.inj⟩
  cases call with
  | Destroy =>
    obtain rfl := Option.some.inj hr
    exact hdoes h.does_Destroy
  | SetTo other =>
    obtain rfl := Option.some.inj hr
    exact hdoes h.does_SetTo
  | SetToNull =>
    obtain rfl := Option.some.inj hr
    exact hdoes h.does_SetToNull
  | SetToChars other =>
    obtain rfl := Option.some.inj hr
    exact hdoes (h.does_SetToChars hfresh other stale)
  | AppendBytes bytes =>
    obtain rfl := Option.some.inj hr
    exact hdoes (h.does_AppendN hfresh (p := .bytes bytes) List.prefix_rfl
      (fun _ a start heq => nomatch heq) stale)
  | AppendChars other =>
    obtain ⟨p, hp, rfl⟩ := Option.map_eq_some_iff.mp hr
    obtain ⟨hto, hlength⟩ := h.source hp
    rw [hlength] at hdoes ⊢
    refine hdoes (h.does_AppendN hfresh hto (fun hne a start heq => hspared a ?_) stale)
    rcases other with bs | ⟨t, start'⟩
    · obtain rfl := Option.some.inj hp
      exact nomatch heq
    · obtain ⟨b, hb, hpointer⟩ := Option.map_eq_some_iff.mp hp
      obtain ⟨rfl, -⟩ := Pointer.inside.inj (hpointer.trans heq)
      rw [Call.reads, if_neg hne, hb]
      exact List.mem_singleton_self b
  | AppendString other =>
    obtain rfl := Option.some.inj hr
    refine hdoes (h.does_AppendString hfresh (fun hne hne' a ha => hspared a ?_) stale)
    rw [Call.reads, if_neg (not_or.mpr ⟨hne, hne'⟩), ha]
    exact List.mem_singleton_self a
  | AppendFrom other charOffset =>
    obtain rfl := Option.some.inj hr
    refine hdoes (h.does_AppendFrom hfresh charOffset (fun hne a ha => hspared a ?_) stale)
    rw [Call.reads, if_neg hne, ha]
    exact List.mem_singleton_self a
  | AppendRange other offset numOfChars =>
    obtain rfl := Option.some.inj hr
    refine hdoes (h.does_AppendRange hfresh offset numOfChars (fun hne a ha => hspared a ?_) stale)
    rw [Call.reads, if_neg hne, ha]
    exact List.mem_singleton_self a
  | AppendChar ch =>
    obtain rfl := Option.some.inj hr
    exact hdoes (h.does_AppendChar hfresh ch stale)
  | AppendArray array offset length =>
    obtain rfl := Option.some.inj hr
    exact hdoes (h.does_AppendArray hfresh array offset length stale)
  | AppendFormat args text =>
    have hprinted : text ≠ some [] → ∀ a ∈ args.filterMap s.mString, Spared s v alloc a := by
      intro hne
      rwa [Call.reads, if_neg hne] at hspared
    obtain ⟨x, hx⟩ := h.does_AppendFormat hfresh hprinted hr
    exact ⟨x, hx, nofun⟩

end Values

/-! ### Runs -/

section Runs

variable {ι : Type} [Fintype ι] [DecidableEq ι] {s t : Store ι}

omit [DecidableEq ι] in
theorem kept_start : Kept (start : Store ι) := by
  refine ⟨⟨fun a => ?_, rfl⟩, rfl⟩
  have hholders : holders (start : Store ι).mString a = 0 :=
    Finset.card_eq_zero.mpr (Finset.filter_eq_empty_iff.mpr fun v _ => nofun)
  rw [weight, hholders, Nat.zero_add, base, start]
  dsimp only
  rw [Function.update_apply]
  split_ifs
  · exact ⟨rfl, Nat.one_pos⟩
  · rfl

theorem kept_step {act : Action ι} (h : Kept s) (hok : act.Ok s) (hstep : step s act = some t) :
    Kept t := by
  obtain ⟨r, hr, rfl⟩ := Option.map_eq_some_iff.mp hstep
  obtain ⟨x, hdoes, -⟩ := h.does_perform hok hr
  exact hdoes.kept

theorem kept_run {as : List (Action ι)}
    (hmeets : Trace.Meets step (fun s act => act.Ok s) start as)
    (hrun : Trace.run step start as = some t) : Kept t :=
  Trace.run_invariant (fun _ _ _ h hok hstep => kept_step h hok hstep) kept_start hmeets hrun

/-- **What is to be in a state** of the variables: no buffer has been read that was freed; those are
there that a variable points to, or that is held besides, and count as many; a call changes its own
variable only, and as it should; and what is appended stands behind what was there. -/
structure Right (t : Store ι) : Prop where
  live : t.memory.readFreed = false
  there : ∀ a, (t.memory.buffers a).isSome ↔ (∃ v, t.mString v = some a) ∨ a = gElEmptyStringBuf
  counted : ∀ a b, t.memory.buffers a = some b → b.mRefs = holders t.mString a + base a
  others : ∀ act r, Action.Ok t act → perform t act = some r →
    ∀ u, u ≠ act.v → r.2.value u = t.value u
  value : ∀ act r, Action.Ok t act → perform t act = some r → r.1 = NOERROR →
    ∀ x, act.call.value t act.v = some x → r.2.value act.v = x
  append : ∀ v other alloc stale r, Action.Ok t ⟨v, .AppendString other, alloc, stale⟩ →
    perform t ⟨v, .AppendString other, alloc, stale⟩ = some r → r.1 = NOERROR →
    text (r.2.value v) = text (t.value v) ++ text (t.value other)
  spells : ∀ v other alloc stale r cs ds, Action.Ok t ⟨v, .AppendString other, alloc, stale⟩ →
    perform t ⟨v, .AppendString other, alloc, stale⟩ = some r → r.1 = NOERROR →
    (t.value v).Spells cs → (t.value other).Spells ds → (cs ++ ds).length < 2147483648 →
    (r.2.value v).Spells (cs ++ ds)

omit [DecidableEq ι] in
/-- A buffer has references if a variable points to it, or if it is that of the empty string. -/
theorem weight_pos_iff {a : ℕ} :
    0 < weight base t.mString a ↔ (∃ v, t.mString v = some a) ∨ a = gElEmptyStringBuf := by
  constructor
  · intro hpos
    by_contra hnone
    rw [not_or, not_exists] at hnone
    have hholders : holders t.mString a = 0 :=
      Finset.card_eq_zero.mpr (Finset.filter_eq_empty_iff.mpr fun v _ => hnone.1 v)
    rw [weight, hholders, base, if_neg hnone.2] at hpos
    exact absurd hpos (lt_irrefl 0)
  · rintro (⟨v, hv⟩ | rfl)
    · exact weight_pos base hv
    · exact pos_gElEmptyStringBuf

theorem Kept.right (h : Kept t) : Right t where
  live := h.holds.live
  there _ := h.holds.counted.isSome_iff.trans weight_pos_iff
  counted a b hb := by
    have hrefs := (h.holds.counted.eq hb).1
    rwa [weight, Nat.cast_add] at hrefs
  others act r hok hr := by
    obtain ⟨x, hdoes, -⟩ := h.does_perform hok hr
    exact hdoes.others
  value act r hok hr hec y hy := by
    obtain ⟨x, hdoes, hx⟩ := h.does_perform hok hr
    exact (hdoes.value hec).trans (hx y hy)
  append v other alloc stale r hok hr hec := by
    obtain ⟨x, hdoes, hx⟩ := h.does_perform hok hr
    have hvalue := (hdoes.value hec).trans (hx _ rfl)
    exact hvalue ▸ text_appendString (t.value v) (t.value other)
  spells v other alloc stale r cs ds hok hr hec hcs hds hfits := by
    obtain ⟨x, hdoes, hx⟩ := h.does_perform hok hr
    have hvalue := (hdoes.value hec).trans (hx _ rfl)
    exact hvalue ▸ hcs.appendString hds hfits

/-- **In every run** in which no call reads a buffer that it has moved, all is right in every state
that is reached. -/
theorem buffers_right {as : List (Action ι)}
    (hmeets : Trace.Meets step (fun s act => act.Ok s) start as)
    (hrun : Trace.run step start as = some t) : Right t :=
  (kept_run hmeets hrun).right

end Runs

/-- `"a"` is appended to itself, and its buffer stays where it is. -/
theorem buffers_right_doubled :
    ∃ t : Store Unit, Trace.run step start
        [⟨(), .SetToChars (.bytes [0x61]), ⟨some 1, .failed⟩, []⟩,
          ⟨(), .AppendString (), ⟨none, .inPlace⟩, []⟩] = some t ∧
      Right t ∧ (t.value ()).mString = some [0x61, 0x61, 0] := by
  have hmeets : Trace.Meets step (fun s act => Action.Ok s act) (start : Store Unit)
      [⟨(), .SetToChars (.bytes [0x61]), ⟨some 1, .failed⟩, []⟩,
        ⟨(), .AppendString (), ⟨none, .inPlace⟩, []⟩] := by
    refine ⟨⟨⟨?_, nofun⟩, nofun⟩, fun s' hs' =>
      ⟨⟨⟨nofun, nofun⟩, fun a _ => ?_⟩, fun _ _ => trivial⟩⟩
    · intro a ha
      obtain rfl := Option.some.inj ha
      rfl
    · exact fun _ _ => .inl rfl
  exact ⟨_, rfl, buffers_right hmeets rfl, rfl⟩

/-- `"a"` is appended to itself, and `realloc` moves its buffer. What is appended is read where the
buffer was. -/
theorem not_live_moved :
    ∃ t : Store Unit, Trace.Meets step (fun s act => act.alloc.Fresh s.memory.buffers) start
        [⟨(), .SetToChars (.bytes [0x61]), ⟨some 1, .failed⟩, []⟩,
          ⟨(), .AppendString (), ⟨none, .moved 2⟩, []⟩] ∧
      Trace.run step start
        [⟨(), .SetToChars (.bytes [0x61]), ⟨some 1, .failed⟩, []⟩,
          ⟨(), .AppendString (), ⟨none, .moved 2⟩, []⟩] = some t ∧
      t.memory.readFreed = true ∧ (t.value ()).mString = some [0x61, 0, 0] := by
  refine ⟨_, ⟨⟨?_, nofun⟩, fun s' hs' => ⟨⟨nofun, ?_⟩, fun _ _ => trivial⟩⟩, rfl, rfl, rfl⟩
  · intro a ha
    obtain rfl := Option.some.inj ha
    rfl
  · intro a ha
    obtain rfl := Realloc.moved.inj ha
    obtain rfl := Option.some.inj hs'
    rfl

end ElastosCar.SharedStrings
