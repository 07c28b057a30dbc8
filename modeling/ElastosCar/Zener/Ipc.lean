import ElastosCar.Types

/-!
# Messages of the IPC helpers

`ipc.c` of `libZenerHelpers` sends a message of bytes in the message registers of seL4 and takes
one back. Both halves count in words and in bytes: a sender puts one `char` in each register where
a word is meant, and the receiver tests the length of its own request.

* `getMRs_pack`: the bytes of the registers that a sender fills.
* `receive_pack`: what the receiving half makes of them.
* `spread_eq_iff`: the messages that the registers spell again.
* `ipcCall_ipcReply_iff`: when a reply comes back, and when what was sent tells the message.
-/

namespace ElastosCar.Zener

/-! ### Messages of seL4 -/

/-- The message registers of an IPC buffer. -/
def seL4_MsgMaxLength : ℕ := 120

/-- The tag of a message, with the fields of `types.bf`. -/
structure seL4_MessageInfo where
  label : BitVec 20
  capsUnwrapped : BitVec 3
  extraCaps : BitVec 2
  length : BitVec 7
deriving DecidableEq, Repr

/-- The generated constructor cuts each value to its field. -/
def seL4_MessageInfo_new (label capsUnwrapped extraCaps length : ℕ) : seL4_MessageInfo :=
  ⟨BitVec.ofNat 20 label, BitVec.ofNat 3 capsUnwrapped, BitVec.ofNat 2 extraCaps,
    BitVec.ofNat 7 length⟩

def seL4_MessageInfo_get_label (tag : seL4_MessageInfo) : ℕ := tag.label.toNat

def seL4_MessageInfo_get_length (tag : seL4_MessageInfo) : ℕ := tag.length.toNat

/-- `seL4_GetIPCBuffer()->msg`. -/
abbrev Registers := ℕ → UInt32

def seL4_SetMR (msg : Registers) (i : ℕ) (mr : UInt32) : Registers := Function.update msg i mr

def seL4_GetMR (msg : Registers) (i : ℕ) : UInt32 := msg i

/-- What an invocation takes, and what it comes back with. -/
structure Message where
  tag : seL4_MessageInfo
  msg : Registers

/-! ### Sending -/

/-- A `char` where a register is expected; whether `char` is signed depends on the machine. -/
def ofChar (signed : Bool) (c : UInt8) : UInt32 :=
  UInt32.ofNat (if signed = true ∧ 128 ≤ c.toNat then 0xFFFFFF00 + c.toNat else c.toNat)

/-- The loop over `seL4_SetMR(i, msg_ptr[i])`, for `i` below `length`. -/
def setMRs (signed : Bool) (msg_ptr : List UInt8) (msg : Registers) : ℕ → Registers
  | 0 => msg
  | i + 1 => seL4_SetMR (setMRs signed msg_ptr msg i) i (ofChar signed (msg_ptr.getD i 0))

/-- What all of the senders do before they invoke the endpoint. The first tag they make is not
used, and after the loop `i` is `length`. -/
def pack (signed : Bool) (msg_ptr : List UInt8) (buffer : Registers) : Message :=
  let msg_len := msg_ptr.length
  let length := msg_len / 4
  let tag := seL4_MessageInfo_new msg_len 0 0 ((msg_len + 3) / 4)
  let msg := setMRs signed msg_ptr buffer length
  if length * 4 < msg_len then
    let r := msg_len - length * 4
    let more := wordOf ((msg_ptr.drop length).take r ++ (wordBytes 0).drop r)
    ⟨tag, seL4_SetMR msg length more⟩
  else
    ⟨tag, msg⟩

/-- `ipcSendMsg`, as far as `seL4_Send`. -/
def ipcSendMsg (signed : Bool) (msg_ptr : List UInt8) (buffer : Registers) : Message :=
  pack signed msg_ptr buffer

/-- `ipcNbsendMsg`, as far as `seL4_NBSend`. -/
def ipcNbsendMsg (signed : Bool) (msg_ptr : List UInt8) (buffer : Registers) : Message :=
  pack signed msg_ptr buffer

/-- `ipcReply`, as far as `seL4_Reply`. -/
def ipcReply (signed : Bool) (msg_ptr : List UInt8) (buffer : Registers) : Message :=
  pack signed msg_ptr buffer

/-- `ipcCall`, as far as `seL4_Call`. -/
def ipcCallMsg (signed : Bool) (msg_ptr : List UInt8) (buffer : Registers) : Message :=
  pack signed msg_ptr buffer

/-! ### Receiving -/

/-- The loop that stores register `i` as word `i` of `msg_recv`, for `i` below `length`. -/
def getMRs (msg : Registers) : ℕ → List UInt8
  | 0 => []
  | i + 1 => getMRs msg i ++ wordBytes (seL4_GetMR msg i)

/-- What `ipcCall` does with an answer: `*len_recv` and the bytes written from `msg_recv` on, or
nothing where the last `memcpy` reads past `more`. -/
def receive (msg_len : ℕ) (answer : Message) : Option (ℕ × List UInt8) :=
  let length := seL4_MessageInfo_get_length answer.tag
  let len_recv := seL4_MessageInfo_get_label answer.tag
  if msg_len < length * 4 then
    let more := wordBytes (seL4_GetMR answer.msg (length - 1))
    if len_recv ≤ length * 4 ∧ length * 4 - len_recv ≤ 4 then
      some (len_recv, getMRs answer.msg (length - 1) ++ more.take (length * 4 - len_recv))
    else
      none
  else
    some (len_recv, getMRs answer.msg length)

/-- `ipcCall`, where the kernel answers what `seL4_Call` says. -/
def ipcCall (signed : Bool) (msg_ptr : List UInt8) (buffer : Registers)
    (seL4_Call : Message → Message) : Option (ℕ × List UInt8) :=
  receive msg_ptr.length (seL4_Call (ipcCallMsg signed msg_ptr buffer))

/-! ### The registers of a message -/

/-- The three bytes that a `char` gets above it in a register. -/
def extension (signed : Bool) (c : UInt8) : UInt8 :=
  if signed = true ∧ 128 ≤ c.toNat then 0xFF else 0

/-- Byte `j` of what the registers of a message spell: every `char` of the first quarter takes four
bytes, and those of a partial word follow. -/
def spread (signed : Bool) (msg_ptr : List UInt8) (j : ℕ) : UInt8 :=
  if j < msg_ptr.length / 4 * 4 then
    if j % 4 = 0 then msg_ptr.getD (j / 4) 0 else extension signed (msg_ptr.getD (j / 4) 0)
  else
    msg_ptr.getD (msg_ptr.length / 4 + (j - msg_ptr.length / 4 * 4)) 0

theorem wordBytes_ofChar (signed : Bool) (c : UInt8) :
    wordBytes (ofChar signed c) = c :: List.replicate 3 (extension signed c) := by
  have hc := c.toNat_lt
  have hrep : List.replicate 3 (extension signed c) =
      [extension signed c, extension signed c, extension signed c] := rfl
  rw [wordBytes, ofChar, hrep, extension]
  split_ifs with h
  · rw [UInt32.toNat_ofNat_of_lt' (by simp [UInt32.size]; omega)]
    simp only [toLE, List.cons.injEq, and_true]
    refine ⟨?_, ?_, ?_, ?_⟩ <;> apply UInt8.toNat_inj.mp <;> simp [UInt8.toNat_ofNat'] <;> omega
  · rw [UInt32.toNat_ofNat_of_lt' (by simp [UInt32.size]; omega)]
    simp only [toLE, List.cons.injEq, and_true]
    refine ⟨?_, ?_, ?_, ?_⟩ <;> apply UInt8.toNat_inj.mp <;> simp [UInt8.toNat_ofNat'] <;> omega

/-- The loop of a sender fills the registers below its bound and no others. -/
theorem setMRs_apply (signed : Bool) (msg_ptr : List UInt8) (msg : Registers) (n i : ℕ) :
    setMRs signed msg_ptr msg n i = if i < n then ofChar signed (msg_ptr.getD i 0) else msg i := by
  induction n with
  | zero => rfl
  | succ n ih =>
    rw [setMRs, seL4_SetMR]
    rcases eq_or_ne i n with rfl | hne
    · rw [Function.update_self, if_pos (Nat.lt_succ_self i)]
    · rw [Function.update_of_ne hne, ih]
      have : i < n + 1 ↔ i < n := by omega
      simp only [this]

@[simp]
theorem length_getMRs (msg : Registers) (n : ℕ) : (getMRs msg n).length = n * 4 := by
  induction n with
  | zero => rfl
  | succ n ih => rw [getMRs, List.length_append, ih, length_wordBytes, Nat.succ_mul]

/-- Byte `j` that is stored comes from register `j / 4`. -/
theorem getD_getMRs (msg : Registers) {n j : ℕ} (h : j < n * 4) :
    (getMRs msg n).getD j 0 = (wordBytes (msg (j / 4))).getD (j % 4) 0 := by
  induction n with
  | zero => omega
  | succ n ih =>
    rw [getMRs]
    by_cases hj : j < n * 4
    · rw [List.getD_append _ _ _ _ (by rwa [length_getMRs]), ih hj]
    · rw [List.getD_append_right _ _ _ _ (by rw [length_getMRs]; omega), length_getMRs,
        show j / 4 = n by omega, show j - n * 4 = j % 4 by omega, seL4_GetMR]

theorem getMRs_congr {msg msg' : Registers} {n : ℕ} (h : ∀ i < n, msg i = msg' i) :
    getMRs msg n = getMRs msg' n := by
  induction n with
  | zero => rfl
  | succ n ih =>
    rw [getMRs, getMRs, ih fun i hi => h i (by omega), seL4_GetMR, seL4_GetMR, h n (by omega)]

/-- The partial word of a sender: the bytes that follow the first quarter, and zeros. -/
def moreBytes (msg_ptr : List UInt8) : List UInt8 :=
  (msg_ptr.drop (msg_ptr.length / 4)).take (msg_ptr.length % 4) ++
    (wordBytes 0).drop (msg_ptr.length % 4)

theorem pack_msg_of_lt (signed : Bool) (msg_ptr : List UInt8) (buffer : Registers) {i : ℕ}
    (h : i < msg_ptr.length / 4) :
    (pack signed msg_ptr buffer).msg i = ofChar signed (msg_ptr.getD i 0) := by
  simp only [pack]
  split_ifs
  · simp only [seL4_SetMR, Function.update_of_ne h.ne, setMRs_apply, if_pos h]
  · simp only [setMRs_apply, if_pos h]

theorem pack_msg_last (signed : Bool) (msg_ptr : List UInt8) (buffer : Registers)
    (h : msg_ptr.length / 4 * 4 < msg_ptr.length) :
    (pack signed msg_ptr buffer).msg (msg_ptr.length / 4) = wordOf (moreBytes msg_ptr) := by
  have hr : msg_ptr.length - msg_ptr.length / 4 * 4 = msg_ptr.length % 4 := by omega
  simp only [pack, if_pos h, seL4_SetMR, Function.update_self, hr, moreBytes]

theorem length_moreBytes {msg_ptr : List UInt8}
    (h : msg_ptr.length / 4 * 4 < msg_ptr.length) : (moreBytes msg_ptr).length = 4 := by
  rw [moreBytes, List.length_append, List.length_take, List.length_drop, List.length_drop,
    length_wordBytes]
  omega

/-- The registers that a sender fills spell `spread`, whatever the buffer held before. -/
theorem getD_pack (signed : Bool) (msg_ptr : List UInt8) (buffer : Registers) {j : ℕ}
    (h : j < msg_ptr.length) :
    (wordBytes ((pack signed msg_ptr buffer).msg (j / 4))).getD (j % 4) 0 =
      spread signed msg_ptr j := by
  rw [spread]
  by_cases hj : j < msg_ptr.length / 4 * 4
  · rw [pack_msg_of_lt _ _ _ (by omega), wordBytes_ofChar, if_pos hj]
    have hlt : j % 4 < 4 := Nat.mod_lt _ (by decide)
    split_ifs with h0
    · rw [h0, List.getD_cons_zero]
    · obtain ⟨k, hk⟩ := Nat.exists_eq_succ_of_ne_zero h0
      rw [hk, List.getD_cons_succ, List.getD_replicate _ (by omega)]
  · have hq : j / 4 = msg_ptr.length / 4 := by omega
    have hmod : j - msg_ptr.length / 4 * 4 = j % 4 := by omega
    have hmore : msg_ptr.length / 4 * 4 < msg_ptr.length := by omega
    rw [hq, pack_msg_last _ _ _ hmore, wordBytes_wordOf (length_moreBytes hmore), if_neg hj, hmod,
      moreBytes, List.getD_append _ _ _ _ (by simp; omega), List.getD_eq_getElem?_getD,
      List.getElem?_take_of_lt (by omega), List.getElem?_drop, List.getD_eq_getElem?_getD]

/-- The bytes that the registers of a sent message spell. -/
theorem getD_getMRs_pack (signed : Bool) (msg_ptr : List UInt8) (buffer : Registers) {j : ℕ}
    (h : j < msg_ptr.length) :
    (getMRs (pack signed msg_ptr buffer).msg ((msg_ptr.length + 3) / 4)).getD j 0 =
      spread signed msg_ptr j := by
  rw [getD_getMRs _ (by omega), getD_pack signed msg_ptr buffer h]

theorem pack_tag (signed : Bool) (msg_ptr : List UInt8) (buffer : Registers) :
    (pack signed msg_ptr buffer).tag =
      seL4_MessageInfo_new msg_ptr.length 0 0 ((msg_ptr.length + 3) / 4) := by
  rw [pack]
  split_ifs <;> rfl

theorem get_label_pack {signed : Bool} {msg_ptr : List UInt8} {buffer : Registers}
    (h : msg_ptr.length ≤ 4 * seL4_MsgMaxLength) :
    seL4_MessageInfo_get_label (pack signed msg_ptr buffer).tag = msg_ptr.length := by
  rw [seL4_MsgMaxLength] at h
  rw [pack_tag, seL4_MessageInfo_get_label, seL4_MessageInfo_new, BitVec.toNat_ofNat]
  exact Nat.mod_eq_of_lt (by omega)

theorem get_length_pack {signed : Bool} {msg_ptr : List UInt8} {buffer : Registers}
    (h : msg_ptr.length ≤ 4 * seL4_MsgMaxLength) :
    seL4_MessageInfo_get_length (pack signed msg_ptr buffer).tag = (msg_ptr.length + 3) / 4 := by
  rw [seL4_MsgMaxLength] at h
  rw [pack_tag, seL4_MessageInfo_get_length, seL4_MessageInfo_new, BitVec.toNat_ofNat]
  exact Nat.mod_eq_of_lt (by omega)

/-! ### What comes back -/

/-- What is assumed of seL4: label, length and the registers of the length are delivered. -/
structure Delivers (sent received : Message) : Prop where
  label : seL4_MessageInfo_get_label received.tag = seL4_MessageInfo_get_label sent.tag
  length : seL4_MessageInfo_get_length received.tag = seL4_MessageInfo_get_length sent.tag
  msg : ∀ i < seL4_MessageInfo_get_length sent.tag,
    seL4_GetMR received.msg i = seL4_GetMR sent.msg i

/-- How many bytes the receiving half writes, where the request had `msg_len` bytes and the
message has `n`. -/
def written (msg_len n : ℕ) : ℕ :=
  if msg_len < (n + 3) / 4 * 4 then ((n + 3) / 4 - 1) * 4 + ((n + 3) / 4 * 4 - n)
  else (n + 3) / 4 * 4

theorem getMRs_append_take (msg : Registers) (n k : ℕ) :
    getMRs msg n ++ (wordBytes (msg n)).take k = (getMRs msg (n + 1)).take (n * 4 + k) := by
  rw [getMRs, seL4_GetMR, ← length_getMRs msg n, List.take_length_add_append]

/-- The receiving half takes the length for what it is, and of the bytes of the registers as many
as `written` says. -/
theorem receive_of_delivers {signed : Bool} {msg_ptr : List UInt8} {buffer : Registers}
    {answer : Message} (h : msg_ptr.length ≤ 4 * seL4_MsgMaxLength)
    (hdel : Delivers (pack signed msg_ptr buffer) answer) (msg_len : ℕ) :
    receive msg_len answer = some (msg_ptr.length,
      (getMRs (pack signed msg_ptr buffer).msg ((msg_ptr.length + 3) / 4)).take
        (written msg_len msg_ptr.length)) := by
  have hlabel := hdel.label.trans (get_label_pack h)
  have hlength := hdel.length.trans (get_length_pack h)
  have hmsg : ∀ i < (msg_ptr.length + 3) / 4, answer.msg i = (pack signed msg_ptr buffer).msg i :=
    fun i hi => hdel.msg i (by rwa [get_length_pack h])
  simp only [receive, written, hlabel, hlength]
  split_ifs with hlt hcount
  · have hpred : (msg_ptr.length + 3) / 4 - 1 + 1 = (msg_ptr.length + 3) / 4 := by omega
    rw [seL4_GetMR, getMRs_append_take, hpred, getMRs_congr hmsg]
  · exact absurd ⟨by omega, by omega⟩ hcount
  · rw [getMRs_congr hmsg, List.take_of_length_le (by rw [length_getMRs])]

theorem written_eq_iff (msg_len n : ℕ) :
    written msg_len n = n ↔ if msg_len < (n + 3) / 4 * 4 then n % 4 = 2 else n % 4 = 0 := by
  rw [written]
  split_ifs <;> omega

theorem written_le (msg_len n : ℕ) : written msg_len n ≤ (n + 3) / 4 * 4 := by
  rw [written]
  split_ifs <;> omega

/-! ### The messages that come back -/

theorem extension_extension (signed : Bool) (c : UInt8) :
    extension signed (extension signed c) = extension signed c := by
  cases signed
  · rfl
  · by_cases hc : 128 ≤ c.toNat
    · have hx : extension true c = 0xFF := by rw [extension, if_pos ⟨rfl, hc⟩]
      rw [hx]
      decide
    · have hx : extension true c = 0 := by rw [extension, if_neg fun h => hc h.2]
      rw [hx]
      decide

/-- The message has at most three bytes, or after the first of them only its extension. -/
def Repeats (signed : Bool) (msg : List UInt8) : Prop :=
  msg.length < 4 ∨ ∀ b ∈ msg.tail, b = extension signed (msg.headD 0)

instance (signed : Bool) (msg : List UInt8) : Decidable (Repeats signed msg) :=
  inferInstanceAs (Decidable (_ ∨ _))

theorem repeats_iff {signed : Bool} {msg : List UInt8} :
    Repeats signed msg ↔ msg.length < 4 ∨
      ∀ j < msg.length, j ≠ 0 → msg.getD j 0 = extension signed (msg.getD 0 0) := by
  refine or_congr Iff.rfl ?_
  cases msg with
  | nil => simp
  | cons c cs =>
    rw [List.tail_cons, List.headD_cons, List.getD_cons_zero, List.forall_mem_iff_getElem]
    constructor
    · intro h j hj h0
      obtain ⟨k, rfl⟩ := Nat.exists_eq_succ_of_ne_zero h0
      have hk : k < cs.length := by simpa using hj
      rw [List.getD_cons_succ, List.getD_eq_getElem _ _ hk, h k hk]
    · intro h k hk
      have hget := h (k + 1) (by simpa using hk) (Nat.succ_ne_zero k)
      rwa [List.getD_cons_succ, List.getD_eq_getElem _ _ hk] at hget

/-- The registers of a sender spell the message again exactly if it repeats. -/
theorem spread_eq_iff (signed : Bool) (msg : List UInt8) :
    (∀ j < msg.length, spread signed msg j = msg.getD j 0) ↔ Repeats signed msg := by
  rw [repeats_iff]
  constructor
  · intro h
    by_cases hlt : msg.length < 4
    · exact Or.inl hlt
    refine Or.inr fun j => ?_
    -- byte `j` is a copy of byte `j / 4` or the extension of it, up to the last bytes
    induction j using Nat.strong_induction_on with
    | _ j ih =>
      intro hj h0
      rw [← h j hj, spread]
      split_ifs with hw hm
      · exact ih (j / 4) (by omega) (by omega) (by omega)
      · by_cases hq : j / 4 = 0
        · rw [hq]
        · rw [ih (j / 4) (by omega) (by omega) hq, extension_extension]
      · exact ih _ (by omega) (by omega) (by omega)
  · rintro (hlt | h) j hj
    · have hq : msg.length / 4 = 0 := by omega
      rw [spread, hq, if_neg (by omega), Nat.zero_mul, Nat.sub_zero, Nat.zero_add]
    · rw [spread]
      split_ifs with hw hm
      · by_cases h0 : j = 0
        · rw [h0]
        · rw [h (j / 4) (by omega) (by omega), h j hj h0]
      · have h0 : j ≠ 0 := fun h0 => hm (by rw [h0])
        by_cases hq : j / 4 = 0
        · rw [hq, h j hj h0]
        · rw [h (j / 4) (by omega) hq, extension_extension, h j hj h0]
      · rcases Nat.eq_zero_or_pos (msg.length / 4) with hq | hq
        · rw [hq, Nat.zero_mul, Nat.sub_zero, Nat.zero_add]
        · rw [h _ (by omega) (by omega), h j hj (by omega)]

/-- Of the bytes of the registers, the first `w` are the message. -/
theorem take_getMRs_pack_eq_iff {signed : Bool} {msg : List UInt8} {buffer : Registers} {w : ℕ}
    (hw : w ≤ (msg.length + 3) / 4 * 4) :
    (getMRs (pack signed msg buffer).msg ((msg.length + 3) / 4)).take w = msg ↔
      w = msg.length ∧ Repeats signed msg := by
  have hlen : ((getMRs (pack signed msg buffer).msg ((msg.length + 3) / 4)).take w).length = w := by
    rw [List.length_take, length_getMRs, min_eq_left hw]
  have hget : ∀ j < w, j < msg.length →
      ((getMRs (pack signed msg buffer).msg ((msg.length + 3) / 4)).take w).getD j 0 =
        spread signed msg j := fun j hj hlt => by
    rw [List.getD_eq_getElem?_getD, List.getElem?_take_of_lt hj, ← List.getD_eq_getElem?_getD,
      getD_getMRs_pack _ _ _ hlt]
  rw [← spread_eq_iff]
  constructor
  · intro heq
    have hn : w = msg.length := by rw [← hlen, heq]
    refine ⟨hn, fun j hj => ?_⟩
    rw [← hget j (by omega) hj, heq]
  · rintro ⟨rfl, hspread⟩
    refine List.ext_getElem hlen fun j h1 h2 => ?_
    have hj := hget j h2 h2
    rwa [hspread j h2, List.getD_eq_getElem _ _ h1, List.getD_eq_getElem _ _ h2] at hj

/-! ### What the registers tell -/

/-- Two messages that a receiver cannot tell apart. -/
structure Alike (sent sent' : Message) : Prop where
  tag : sent.tag = sent'.tag
  msg : ∀ i < seL4_MessageInfo_get_length sent.tag, seL4_GetMR sent.msg i = seL4_GetMR sent'.msg i

/-- What is sent for a message is sent for no other one. -/
def Determined (send : List UInt8 → Registers → Message) (msg : List UInt8) : Prop :=
  ∀ msg' buffer buffer', msg'.length ≤ 4 * seL4_MsgMaxLength →
    Alike (send msg buffer) (send msg' buffer') → msg' = msg

/-- A sender looks at the first quarter of the message and at as many bytes more as are left over
by the words. -/
theorem pack_congr (signed : Bool) {msg msg' : List UInt8} (buffer : Registers)
    (hlen : msg'.length = msg.length)
    (htake : msg'.take (msg.length / 4 + msg.length % 4) =
      msg.take (msg.length / 4 + msg.length % 4)) :
    pack signed msg' buffer = pack signed msg buffer := by
  have hchar : ∀ i < msg.length / 4, msg'.getD i 0 = msg.getD i 0 := fun i hi => by
    have hi' : i < msg.length / 4 + msg.length % 4 := by omega
    rw [List.getD_eq_getElem?_getD, List.getD_eq_getElem?_getD, ← List.getElem?_take_of_lt hi',
      htake, List.getElem?_take_of_lt hi']
  have hset : setMRs signed msg' buffer (msg.length / 4) =
      setMRs signed msg buffer (msg.length / 4) := funext fun i => by
    rw [setMRs_apply, setMRs_apply]
    split_ifs with hi
    · rw [hchar i hi]
    · rfl
  have hr : msg.length - msg.length / 4 * 4 = msg.length % 4 := by omega
  have hmore : (msg'.drop (msg.length / 4)).take (msg.length % 4) =
      (msg.drop (msg.length / 4)).take (msg.length % 4) := by
    rw [List.take_drop, List.take_drop, htake]
  simp only [pack, hlen, hset, hr, hmore]

/-- Messages that are sent alike are spelled alike. -/
theorem Alike.spread_eq {signed : Bool} {msg msg' : List UInt8} {buffer buffer' : Registers}
    (h : Alike (pack signed msg buffer) (pack signed msg' buffer'))
    (hlen : msg.length ≤ 4 * seL4_MsgMaxLength) (heq : msg'.length = msg.length) {j : ℕ}
    (hj : j < msg.length) : spread signed msg' j = spread signed msg j := by
  rw [← getD_pack signed msg' buffer' (by omega), ← getD_pack signed msg buffer hj]
  have hmsg := h.msg (j / 4) (by rw [get_length_pack hlen]; omega)
  rw [seL4_GetMR, seL4_GetMR] at hmsg
  rw [hmsg]

theorem determined_pack_iff {signed : Bool} {msg : List UInt8}
    (hlen : msg.length ≤ 4 * seL4_MsgMaxLength) :
    Determined (pack signed) msg ↔ msg.length < 4 := by
  constructor
  · intro h
    by_contra hge
    -- the last byte is behind what a sender looks at
    have hlast : msg.length - 1 < msg.length := by omega
    have htake := List.take_set_of_le (a := msg.getD (msg.length - 1) 0 + 1) (l := msg)
      (show msg.length / 4 + msg.length % 4 ≤ msg.length - 1 by omega)
    have halike : ∀ sent sent' : Message, sent' = sent → Alike sent sent' := fun _ _ heq => by
      rw [heq]
      exact ⟨rfl, fun _ _ => rfl⟩
    have heq := h (msg.set (msg.length - 1) (msg.getD (msg.length - 1) 0 + 1)) (fun _ => 0)
      (fun _ => 0) (by rwa [List.length_set])
      (halike _ _ (pack_congr signed _ List.length_set htake))
    have hget := congrArg (fun l : List UInt8 => l.getD (msg.length - 1) 0) heq
    simp [hlast] at hget
  · intro hlt msg' buffer buffer' hlen' halike
    have heq : msg'.length = msg.length := by
      have hlabel : seL4_MessageInfo_get_label (pack signed msg buffer).tag = msg'.length := by
        rw [halike.tag, get_label_pack hlen']
      rw [← hlabel, get_label_pack hlen]
    refine List.ext_getElem heq fun j h1 h2 => ?_
    have hj := halike.spread_eq hlen heq h2
    rw [(spread_eq_iff signed msg').mpr (Or.inl (by omega)) j h1,
      (spread_eq_iff signed msg).mpr (Or.inl hlt) j h2] at hj
    rwa [List.getD_eq_getElem _ _ h1, List.getD_eq_getElem _ _ h2] at hj

/-! ### The round trip -/

/-- A reply comes back exactly if it repeats, and fills its last word where the request is as long
as its words, or half of that word where the request is shorter. The registers of a message tell it
exactly if it is shorter than a word. -/
theorem ipcCall_ipcReply_iff (signed : Bool) (request msg : List UInt8)
    (buffer buffer' : Registers) (seL4_Call : Message → Message)
    (hlen : msg.length ≤ 4 * seL4_MsgMaxLength)
    (hdel : Delivers (ipcReply signed msg buffer')
      (seL4_Call (ipcCallMsg signed request buffer))) :
    (ipcCall signed request buffer seL4_Call = some (msg.length, msg) ↔
      (if request.length < (msg.length + 3) / 4 * 4 then msg.length % 4 = 2
        else msg.length % 4 = 0) ∧ Repeats signed msg) ∧
    (Determined (ipcSendMsg signed) msg ↔ msg.length < 4) ∧
    (Determined (ipcNbsendMsg signed) msg ↔ msg.length < 4) ∧
    (Determined (ipcCallMsg signed) msg ↔ msg.length < 4) := by
  refine ⟨?_, determined_pack_iff hlen, determined_pack_iff hlen, determined_pack_iff hlen⟩
  rw [ipcCall, receive_of_delivers hlen hdel, Option.some.injEq, Prod.mk.injEq,
    take_getMRs_pack_eq_iff (written_le _ _), written_eq_iff]
  exact and_iff_right rfl

theorem ipcCall_ipcReply_two :
    ipcCall true [] (fun _ => 0) (fun _ => ipcReply true [0x68, 0x69] fun _ => 0) =
      some (2, [0x68, 0x69]) ∧ Determined (ipcSendMsg true) [0x68, 0x69] := by
  have h := ipcCall_ipcReply_iff true [] [0x68, 0x69] (fun _ => 0) (fun _ => 0)
    (fun _ => ipcReply true [0x68, 0x69] fun _ => 0) (by decide) ⟨rfl, rfl, fun _ _ => rfl⟩
  exact ⟨h.1.mpr (by decide), h.2.1.mpr (by decide)⟩

/-- Four letters: a shorter request has nothing copied, and one of four bytes gets the first letter
and zeros; the registers do not tell the last letter. -/
theorem not_ipcCall_ipcReply_four :
    (¬ ∀ signed request msg buffer buffer' seL4_Call, msg.length ≤ 4 * seL4_MsgMaxLength →
      Delivers (ipcReply signed msg buffer') (seL4_Call (ipcCallMsg signed request buffer)) →
      ipcCall signed request buffer seL4_Call = some (msg.length, msg)) ∧
    ¬ ∀ signed msg, msg.length ≤ 4 * seL4_MsgMaxLength → Determined (ipcSendMsg signed) msg := by
  constructor
  · intro h
    have hback := h true [0x61, 0x62, 0x63, 0x64] [0x61, 0x62, 0x63, 0x64] (fun _ => 0)
      (fun _ => 0) (fun _ => ipcReply true [0x61, 0x62, 0x63, 0x64] fun _ => 0) (by decide)
      ⟨rfl, rfl, fun _ _ => rfl⟩
    exact absurd hback (by decide)
  · intro h
    have heq := h true [0x61, 0x62, 0x63, 0x64] (by decide) [0x61, 0x62, 0x63, 0x65]
      (fun _ => 0) (fun _ => 0) (by decide) ⟨rfl, by decide⟩
    exact absurd heq (by decide)

end ElastosCar.Zener
