import ElastosCar.Base.HashTable

/-!
# A hash table is a finite map

The operations keep the representation `Sound`, through the change of a chain, through the move of all
entries in `Rehash` and through an allocation that fails, and what they answer is what the map answers
(`Sound.call`). The entries take sixteen bytes each, so a table that is full leaves room for the size of
a larger one to be a `size_t` (`Sound.rehash`).

`refines_of_init` says so for every run from the empty table.
-/

namespace ElastosCar

namespace HashTable

variable {Key V : Type} (K : HashTraits Key) (B : HashBuild)

/-! ### Chains -/

section Chains

variable {K B} {t : HashTable Key V} {m m' : Finmap fun _ : Key => V} {key : Key}
  {before after l l' : List (HashEntry Key V)} {e : HashEntry Key V} {i : ℕ}

theorem entries_of_none (h : t.mTable = none) : t.entries = [] := by
  rw [entries, chains, h]
  exact elements_nil _

theorem chains_setChain (hsome : t.mTable.isSome = true) (i : ℕ) (l : List (HashEntry Key V)) :
    (t.setChain i l).chains = Function.update t.chains i l := by
  obtain ⟨f, hf⟩ := Option.isSome_iff_exists.mp hsome
  rw [setChain, chains, chains, hf]
  rfl

theorem isSome_of_find {r : List (HashEntry Key V) × HashEntry Key V × List (HashEntry Key V)}
    (h : t.find K key = some r) : t.mTable.isSome = true := by
  by_contra hnone
  rw [find, chains, Option.not_isSome_iff_eq_none.mp hnone] at h
  cases h

theorem eq_of_find (h : t.find K key = some (before, e, after)) :
    e.mKey = key ∧ e.mHash = K.hash key ∧
      t.chains (hashIndex t.mCapacity (K.hash key)) = before ++ e :: after := by
  obtain ⟨hchain, hsame⟩ := eq_append_of_walk h
  obtain ⟨hhash, hkey⟩ := Bool.and_eq_true_iff.mp hsame
  exact ⟨(K.keycmp_iff _ _).mp hkey, beq_iff_eq.mp hhash, hchain⟩

theorem live_of_perm (hsome : t.mTable.isSome = true) (hperm : t.entries.Perm l) :
    t.live K B = 4 * t.mCapacity + (l.map fun e => B.entrySize + K.keylen e.mKey).sum := by
  rw [live, if_pos hsome, (hperm.map _).sum_eq]

/-- An entry has sixteen bytes at least. -/
theorem le_live (hsome : t.mTable.isSome = true) :
    4 * t.mCapacity + 16 * t.entries.length ≤ t.live K B := by
  have hsum : t.entries.length * 16 ≤ (t.entries.map fun e => B.entrySize + K.keylen e.mKey).sum := by
    rw [← List.length_map (fun e => B.entrySize + K.keylen e.mKey), ← smul_eq_mul]
    refine List.card_nsmul_le_sum _ _ (List.forall_mem_map.mpr fun e _ => ?_)
    exact B.le_entrySize.trans (Nat.le_add_right _ _)
  rw [live_of_perm hsome (.refl _)]
  omega

namespace Sound

theorem index_lt (hs : Sound K B t m) (hsome : t.mTable.isSome = true) (hash : UInt32) :
    hashIndex t.mCapacity hash < t.mCapacity :=
  Nat.mod_lt _ (hs.capacity fun _ => hsome).1

/-- A key that is not found has no entry. -/
theorem notMem_of_find (hs : Sound K B t m) (h : t.find K key = none) : key ∉ m := by
  intro hkey
  obtain ⟨e, he, rfl⟩ := hs.content.exists_mem hkey
  have hhash := hs.content.hashed e he
  obtain ⟨i, hi, hmem⟩ := mem_elements.mp he
  have hplace := hs.placed i hi e hmem
  dsimp only at hplace
  rw [hhash] at hplace
  rw [find, hplace] at h
  have hsame := walk_eq_none.mp h e hmem
  rw [same, hhash, (K.keycmp_iff _ _).mpr rfl, BEq.rfl] at hsame
  cases hsame

/-- What stands around the entry that is found. -/
theorem place_of_find (hs : Sound K B t m) (h : t.find K key = some (before, e, after)) :
    ∀ x ∈ before ++ e :: after, hashIndex t.mCapacity x.mHash = hashIndex t.mCapacity (K.hash key) := by
  rw [← (eq_of_find h).2.2]
  exact hs.placed _ (hs.index_lt (isSome_of_find h) _)

/-- The entry that is found can be exchanged or taken out. -/
theorem exists_others (hs : Sound K B t m) (h : t.find K key = some (before, e, after)) :
    ∃ others, t.entries.Perm (e :: others) ∧
      (∀ x, (elements t.mCapacity (Function.update t.chains (hashIndex t.mCapacity (K.hash key))
        (before ++ x :: after))).Perm (x :: others)) ∧
      (elements t.mCapacity (Function.update t.chains (hashIndex t.mCapacity (K.hash key))
        (before ++ after))).Perm others :=
  ElastosCar.exists_others (hs.index_lt (isSome_of_find h) _) (eq_of_find h).2.2

/-- A chain is changed. -/
theorem setChain (hs : Sound K B t m) (hsome : t.mTable.isSome = true)
    (hplace : ∀ x ∈ l, hashIndex t.mCapacity x.mHash = i)
    (hperm : (elements t.mCapacity (Function.update t.chains i l)).Perm l') (hcontent : Content K m' l')
    {n : ℕ} (hcount : n = l'.length)
    (hlive : 4 * t.mCapacity + (l'.map fun e => B.entrySize + K.keylen e.mKey).sum ≤ 4294967296) :
    Sound K B { t.setChain i l with mCount := n } m' := by
  have hsome' : ({ t.setChain i l with mCount := n } : HashTable Key V).mTable.isSome = true := by
    rw [HashTable.setChain, Option.isSome_map, hsome]
  have hchains : ({ t.setChain i l with mCount := n } : HashTable Key V).chains
      = Function.update t.chains i l := chains_setChain hsome i l
  have hentries : ({ t.setChain i l with mCount := n } : HashTable Key V).entries.Perm l' := by
    rw [entries, hchains]
    exact hperm
  refine ⟨hcontent.perm hentries, ?_, hcount.trans hentries.length_eq.symm, ?_, ?_, fun _ _ => hsome'⟩
  · rw [hchains]
    exact placed_update hs.placed hplace
  · rw [live_of_perm hsome' hentries]
    exact hlive
  · exact fun _ => hs.capacity fun _ => hsome

/-- The entry that is found gets another value. -/
theorem exchange [DecidableEq Key] (hs : Sound K B t m) (h : t.find K key = some (before, e, after))
    (value : V) :
    Sound K B (t.setChain (hashIndex t.mCapacity (K.hash key))
      (before ++ { e with mValue := value } :: after)) (m.insert key value) := by
  have hsome := isSome_of_find h
  obtain ⟨rfl, hhash, -⟩ := eq_of_find h
  obtain ⟨others, hperm, hexchange, -⟩ := hs.exists_others h
  have hcontent := hs.content.perm hperm.symm
  obtain ⟨m', hothers, hkey, rfl⟩ := hcontent.uncons
  have hplace := hs.place_of_find h
  rw [List.forall_mem_append, List.forall_mem_cons] at hplace
  have hlive := hs.live
  rw [live_of_perm hsome hperm] at hlive
  refine hs.setChain hsome ?_ (hexchange _) ?_ (hs.count.trans hperm.length_eq) hlive
  · rw [List.forall_mem_append, List.forall_mem_cons]
    exact ⟨hplace.1, hplace.2.1, hplace.2.2⟩
  · rw [Finmap.insert_insert]
    exact hothers.cons (e := { e with mValue := value }) hkey hhash
      (hcontent.accepted e List.mem_cons_self)

/-- The entry that is found is taken out. -/
theorem takeOut [DecidableEq Key] (hs : Sound K B t m) (h : t.find K key = some (before, e, after)) :
    Sound K B { t.setChain (hashIndex t.mCapacity (K.hash key)) (before ++ after) with
      mCount := t.mCount - 1 } (m.erase key) := by
  have hsome := isSome_of_find h
  obtain ⟨rfl, -, -⟩ := eq_of_find h
  obtain ⟨others, hperm, -, htake⟩ := hs.exists_others h
  obtain ⟨m', hothers, hkey, rfl⟩ := (hs.content.perm hperm.symm).uncons
  have hplace := hs.place_of_find h
  rw [List.forall_mem_append, List.forall_mem_cons] at hplace
  have hlive := hs.live
  rw [live_of_perm hsome hperm, List.map_cons, List.sum_cons] at hlive
  refine hs.setChain hsome ?_ htake ?_ ?_ (by omega)
  · rw [List.forall_mem_append]
    exact ⟨hplace.1, hplace.2.2⟩
  · rwa [erase_insert_of_notMem hkey]
  · rw [hs.count, hperm.length_eq, List.length_cons, Nat.add_sub_cancel]

theorem lookup [DecidableEq Key] (hs : Sound K B t m) (key : Key) :
    m.lookup key = (t.find K key).map fun r => r.2.1.mValue := by
  cases h : t.find K key with
  | none => exact Finmap.lookup_eq_none.mpr (hs.notMem_of_find h)
  | some r =>
    obtain ⟨before, e, after⟩ := r
    obtain ⟨rfl, -, -⟩ := eq_of_find h
    obtain ⟨others, hperm, -, -⟩ := hs.exists_others h
    obtain ⟨m', -, -, rfl⟩ := (hs.content.perm hperm.symm).uncons
    exact Finmap.lookup_insert m'

theorem isSome_find [DecidableEq Key] (hs : Sound K B t m) (key : Key) :
    (t.find K key).isSome = decide (key ∈ m) := by
  rw [← Option.isSome_map (f := fun r => r.2.1.mValue), ← hs.lookup key, Bool.eq_iff_iff,
    decide_eq_true_iff]
  exact Finmap.lookup_isSome

/-- A table without entries. -/
theorem of_empty (hchains : t.chains = fun _ => []) (hcount : t.mCount = 0)
    (hlive : 4 * t.mCapacity ≤ 4294967296)
    (hcapacity : (K.allocates = true → t.mTable.isSome) →
      0 < t.mCapacity ∧ t.mCapacity < 1073741824 ∧ t.mThreshold = B.threshold t.mCapacity)
    (hasserted : B.asserts = true → K.allocates = true → t.mTable.isSome) : Sound K B t ∅ := by
  have hentries : t.entries = [] := by
    rw [entries, hchains]
    exact elements_nil _
  constructor
  · rw [hentries]
    exact .nil
  · rw [hchains]
    exact fun _ _ => List.forall_mem_nil _
  · rw [hentries]
    exact hcount
  · rw [HashTable.live, hentries]
    split
    · exact hlive
    · exact Nat.zero_le _
  · exact hcapacity
  · exact hasserted

theorem eq_empty_of_none (hs : Sound K B t m) (h : t.mTable = none) : m = ∅ := by
  have hcontent := hs.content
  rw [entries_of_none h] at hcontent
  exact Finmap.ext (hcontent.entries.trans rfl)

theorem clear (hs : Sound K B t m) : Sound K B t.clear ∅ := by
  cases htable : t.mTable with
  | none =>
    rw [HashTable.clear, htable, ← hs.eq_empty_of_none htable]
    exact hs
  | some f =>
    have hsome : t.mTable.isSome = true := by rw [htable]; rfl
    rw [HashTable.clear, htable]
    have hcapacity := hs.capacity fun _ => hsome
    exact of_empty rfl rfl (by dsimp only; omega) (fun _ => hcapacity) fun _ _ => rfl

end Sound

end Chains

/-! ### Memory -/

section Allocation

variable {K B} {t : HashTable Key V} {m : Finmap fun _ : Key => V} {key : Key} {value : V}
  {granted : Bool} {live size capacity : ℕ}

theorem eq_false_or_lt_of_malloc (h : hashMalloc granted live size = false) :
    granted = false ∨ 4294967296 < live + size := by
  rwa [hashMalloc, Bool.and_eq_false_iff, decide_eq_false_iff_not, not_le] at h

theorem le_of_malloc (h : hashMalloc granted live size = true) : live + size ≤ 4294967296 :=
  of_decide_eq_true (Bool.and_eq_true_iff.mp h).2

/-- A size that is a `size_t` is allocated as it is. -/
theorem allocTable_of_lt (h : 4 * capacity < 4294967296) :
    (allocTable granted live capacity : Except HashFault (Option (ℕ → List (HashEntry Key V)))) =
      .ok (if hashMalloc granted live (4 * capacity) then some fun _ => [] else none) := by
  rw [allocTable, Nat.mod_eq_of_lt h]
  cases hashMalloc granted live (4 * capacity) <;> simp

/-- An index for the new table. -/
theorem hashIndex_lt (capacity : ℕ) (hash : UInt32) :
    hashIndex (capacity * 2 + 1) hash < capacity * 2 + 1 := Nat.mod_lt _ (Nat.succ_pos _)

/-- No entry is lost in `Rehash`. -/
theorem perm_relinked (t : HashTable Key V) (B : HashBuild) :
    (t.relinked B fun _ => []).entries.Perm t.entries := by
  have hplace : ∀ e ∈ t.entries, hashIndex (t.mCapacity * 2 + 1) e.mHash < t.mCapacity * 2 + 1 :=
    fun e _ => hashIndex_lt t.mCapacity e.mHash
  have hrelink := perm_relink (f := fun _ => []) hplace
  rwa [elements_nil, List.append_nil] at hrelink

namespace Sound

/-- The table that `Put` allocates. -/
theorem ensureTable (hs : Sound K B t m) (hready : K.allocates = true → t.mTable.isSome)
    (granted : Bool) :
    t.ensureTable K B granted = .ok none ∧
        (granted = false ∨ 4294967296 < t.live K B + 4 * t.mCapacity) ∨
      ∃ t', t.ensureTable K B granted = .ok (some t') ∧ Sound K B t' m ∧ t'.mTable.isSome = true ∧
        t'.mCapacity = t.mCapacity ∧ t'.live K B ≤ t.live K B + 4 * t.mCapacity := by
  obtain ⟨hpos, hlt, hthreshold⟩ := hs.capacity hready
  cases htable : t.mTable with
  | some f =>
    refine .inr ⟨t, ?_, hs, by rw [htable]; rfl, rfl, Nat.le_add_right _ _⟩
    rw [HashTable.ensureTable, htable]
  | none =>
    have hzero : t.live K B = 0 := by
      rw [HashTable.live, htable, entries_of_none htable]
      rfl
    obtain rfl := hs.eq_empty_of_none htable
    rw [HashTable.ensureTable, htable, hzero]
    dsimp only
    rw [allocTable_of_lt (by omega)]
    cases hmalloc : hashMalloc granted 0 (4 * t.mCapacity) with
    | false => exact .inl ⟨rfl, eq_false_or_lt_of_malloc hmalloc⟩
    | true =>
      have hcount : t.mCount = 0 := by
        rw [hs.count, entries_of_none htable]
        rfl
      let t' : HashTable Key V := { t with mTable := some fun _ => [] }
      have hempty : t'.entries = [] := elements_nil _
      have hnew : Sound K B t' ∅ :=
        of_empty rfl hcount (by dsimp only [t']; omega) (fun _ => hs.capacity hready) fun _ _ => rfl
      refine .inr ⟨t', rfl, hnew, rfl, rfl, ?_⟩
      rw [live_of_perm rfl (.of_eq hempty), Nat.zero_add]
      rfl

/-- The entries are moved to a larger table. There are enough of them for its size to be a `size_t`. -/
theorem rehash (hs : Sound K B t m) (hsome : t.mTable.isSome = true) (hfull : t.mThreshold ≤ t.mCount)
    (granted : Bool) :
    t.rehash K B granted = .ok none ∧
        (granted = false ∨ 4294967296 < t.live K B + 4 * (t.mCapacity * 2 + 1)) ∨
      ∃ t', t.rehash K B granted = .ok (some t') ∧ Sound K B t' m ∧ t'.mTable.isSome = true ∧
        t'.live K B ≤ t.live K B + 4 * (t.mCapacity * 2 + 1) := by
  obtain ⟨hpos, hlt, hthreshold⟩ := hs.capacity fun _ => hsome
  have hle := le_live (K := K) (B := B) hsome
  have hlive := hs.live
  have hload := B.le_threshold t.mCapacity (by omega)
  rw [← hthreshold] at hload
  rw [hs.count] at hfull
  rw [HashTable.rehash, allocTable_of_lt (by omega)]
  cases hmalloc : hashMalloc granted (t.live K B) (4 * (t.mCapacity * 2 + 1)) with
  | false => exact .inl ⟨rfl, eq_false_or_lt_of_malloc hmalloc⟩
  | true =>
    have hfits := le_of_malloc hmalloc
    have hlive' := live_of_perm (K := K) (B := B) rfl (perm_relinked t B)
    have hold := live_of_perm (K := K) (B := B) hsome (.refl _)
    change _ = 4 * (t.mCapacity * 2 + 1) + _ at hlive'
    refine .inr ⟨_, rfl, ⟨hs.content.perm (perm_relinked t B), ?_,
      hs.count.trans (perm_relinked t B).length_eq.symm, by omega, fun _ => ⟨Nat.succ_pos _, ?_, rfl⟩,
      fun _ _ => rfl⟩, rfl, by omega⟩
    · exact placed_relink (fun _ _ => List.forall_mem_nil _) fun e _ => hashIndex_lt _ _
    · change t.mCapacity * 2 + 1 < _
      omega

/-- The new entry of a key that has none. -/
theorem addEntry [DecidableEq Key] (hs : Sound K B t m) (hsome : t.mTable.isSome = true) (hkey : key ∉ m)
    (haccepts : K.accepts key = true) (value : V) (granted : Bool) :
    t.addEntry K B key value granted = (.noMemory, t) ∧
        (granted = false ∨ 4294967296 < t.live K B + (B.entrySize + K.keylen key)) ∨
      ∃ t', t.addEntry K B key value granted = (.done, t') ∧ Sound K B t' (m.insert key value) := by
  rw [HashTable.addEntry]
  cases hmalloc : hashMalloc granted (t.live K B) (B.entrySize + K.keylen key) with
  | false => exact .inl ⟨rfl, eq_false_or_lt_of_malloc hmalloc⟩
  | true =>
    have hfits := le_of_malloc hmalloc
    rw [live_of_perm hsome (.refl _)] at hfits
    have hindex := hs.index_lt hsome (K.hash key)
    have hplace := hs.placed _ hindex
    generalize hi : hashIndex t.mCapacity (K.hash key) = i at hindex hplace ⊢
    have hpush (e : HashEntry Key V) :
        (elements t.mCapacity (Function.update t.chains i (e :: t.chains i))).Perm (e :: t.entries) :=
      perm_update_cons hindex
    have hcontent := hs.content.cons (e := ⟨K.hash key, key, value⟩) hkey rfl haccepts
    refine .inr ⟨_, rfl, hs.setChain hsome (List.forall_mem_cons.mpr ⟨hi, hplace⟩) (hpush _) hcontent
      ?_ ?_⟩
    · rw [hs.count, List.length_cons]
    · rw [List.map_cons, List.sum_cons]
      dsimp only
      omega

/-- `Put` of a key that is not there. -/
theorem putNew [DecidableEq Key] (hs : Sound K B t m) (hsome : t.mTable.isSome = true) (hkey : key ∉ m)
    (haccepts : K.accepts key = true) (value : V) (memory : HashMemory) :
    (∃ t', t.putNew K B key value memory = .ok (.noMemory, t') ∧ Sound K B t' m ∧
        (memory.newTable = false ∨ memory.entry = false ∨ 4294967296
          < t.live K B + 4 * (t.mCapacity * 2 + 1) + (B.entrySize + K.keylen key))) ∨
      ∃ t', t.putNew K B key value memory = .ok (.done, t') ∧ Sound K B t' (m.insert key value) := by
  rw [HashTable.putNew]
  split
  · next hfull =>
    rcases hs.rehash hsome hfull memory.newTable with ⟨hrehash, hlacks⟩ | ⟨t', hrehash, hs', hsome', hlive⟩
    · rw [hrehash]
      exact .inl ⟨t, rfl, hs, hlacks.imp_right fun hsize => .inr (by omega)⟩
    · rw [hrehash]
      rcases hs'.addEntry hsome' hkey haccepts value memory.entry with ⟨hadd, hlacks⟩ | ⟨t'', hadd, hs''⟩
      · exact .inl ⟨t', congrArg _ hadd, hs', .inr (hlacks.imp_right fun hsize => by omega)⟩
      · exact .inr ⟨t'', congrArg _ hadd, hs''⟩
  · rcases hs.addEntry hsome hkey haccepts value memory.entry with ⟨hadd, hlacks⟩ | ⟨t', hadd, hs'⟩
    · exact .inl ⟨t, congrArg _ hadd, hs, .inr (hlacks.imp_right fun hsize => by omega)⟩
    · exact .inr ⟨t', congrArg _ hadd, hs'⟩

end Sound

end Allocation

/-! ### The runs -/

section Runs

variable {K B} {t : HashTable Key V} {m : Finmap fun _ : Key => V}

namespace Sound

/-- The first test of an operation. A key that does not pass has no entry. -/
theorem admits (hs : Sound K B t m) (key : Key) :
    t.admits K B key = .ok true ∧ K.accepts key = true ∧ (K.allocates = true → t.mTable.isSome) ∨
      t.admits K B key = .ok false ∧ key ∉ m ∧
        (K.accepts key = true → K.allocates = true ∧ t.mTable = none) ∨
      t.admits K B key = .error .assertion ∧ B.asserts = true ∧ K.accepts key = false := by
  rw [HashTable.admits]
  split
  · next hadmits => exact .inl ⟨rfl, hadmits⟩
  · next hrefused =>
    cases haccepts : K.accepts key with
    | false =>
      cases hasserts : B.asserts with
      | false =>
        refine .inr (.inl ⟨rfl, fun hkey => ?_, nofun⟩)
        obtain ⟨e, he, rfl⟩ := hs.content.exists_mem hkey
        rw [hs.content.accepted e he] at haccepts
        cases haccepts
      | true => exact .inr (.inr ⟨rfl, rfl, rfl⟩)
    | true =>
      have htable : K.allocates = true ∧ t.mTable = none := by
        simpa [haccepts] using hrefused
      cases hasserts : B.asserts with
      | false =>
        refine .inr (.inl ⟨rfl, fun hkey => ?_, fun _ => htable⟩)
        obtain ⟨e, he, -⟩ := hs.content.exists_mem hkey
        rw [entries_of_none htable.2] at he
        cases he
      | true =>
        have hsome := hs.asserted hasserts htable.1
        rw [htable.2] at hsome
        cases hsome

variable [DecidableEq Key]

/-- `Put` when there is a table. -/
theorem putInto (hs : Sound K B t m) (hsome : t.mTable.isSome = true) {key : Key}
    (haccepts : K.accepts key = true) (value : V) (memory : HashMemory) :
    (∃ t', t.putInto K B key value memory = .ok (.noMemory, t') ∧ Sound K B t' m ∧
        (memory.newTable = false ∨ memory.entry = false ∨ 4294967296
          < t.live K B + 4 * (t.mCapacity * 2 + 1) + (B.entrySize + K.keylen key))) ∨
      ∃ t', t.putInto K B key value memory = .ok (.done, t') ∧ Sound K B t' (m.insert key value) := by
  rw [HashTable.putInto]
  cases hfind : t.find K key with
  | some r =>
    obtain ⟨before, e, after⟩ := r
    exact .inr ⟨_, rfl, hs.exchange hfind value⟩
  | none => exact hs.putNew hsome (hs.notMem_of_find hfind) haccepts value memory

/-- A `Put` is done, refused, or does without memory. -/
theorem put (hs : Sound K B t m) (key : Key) (value : V) (memory : HashMemory) :
    (∃ r t' m', t.put K B key value memory = .ok (r, t') ∧
        Answers K B K.accepts t m (.put key value memory) (.put r) m' ∧ Sound K B t' m') ∨
      t.put K B key value memory = .error .assertion ∧ B.asserts = true ∧ K.accepts key = false := by
  rw [HashTable.put]
  rcases hs.admits key with ⟨hadmits, haccepts, hready⟩ | ⟨hadmits, hkey, htable⟩ | ⟨hadmits, hstop⟩
  · rw [hadmits]
    rcases hs.ensureTable hready memory.table with
      ⟨hensure, hlacks⟩ | ⟨t₁, hensure, hs₁, hsome, hcapacity, hlive⟩
    · rw [hensure]
      refine .inl ⟨_, t, m, rfl, .noMemory (.inr (hlacks.imp ?_ fun hsize => by omega)), hs⟩
      rintro hfalse rfl
      cases hfalse
    · rw [hensure]
      rcases hs₁.putInto hsome haccepts value memory with ⟨t₂, hput, hs₂, hlacks⟩ | ⟨t₂, hput, hs₂⟩
      · refine .inl ⟨_, t₂, m, hput, .noMemory (.inr ?_), hs₂⟩
        rw [hcapacity] at hlacks
        rw [← or_assoc] at hlacks
        refine hlacks.imp ?_ fun hsize => by omega
        rintro hfalse rfl
        simp at hfalse
      · exact .inl ⟨_, t₂, _, hput, .put haccepts, hs₂⟩
  · rw [hadmits]
    cases haccepts : K.accepts key with
    | true => exact .inl ⟨_, t, m, rfl, .noMemory (.inl (htable haccepts)), hs⟩
    | false => exact .inl ⟨_, t, m, rfl, .refused haccepts, hs⟩
  · exact .inr ⟨by rw [hadmits]; rfl, hstop⟩

theorem get (hs : Sound K B t m) (key : Key) :
    t.get K B key = .ok (m.lookup key) ∨
      t.get K B key = .error .assertion ∧ B.asserts = true ∧ K.accepts key = false := by
  rw [HashTable.get]
  rcases hs.admits key with ⟨hadmits, -⟩ | ⟨hadmits, hkey, -⟩ | ⟨hadmits, hstop⟩
  · rw [hadmits, hs.lookup key]
    exact .inl rfl
  · rw [hadmits, Finmap.lookup_eq_none.mpr hkey]
    exact .inl rfl
  · rw [hadmits]
    exact .inr ⟨rfl, hstop⟩

theorem contains (hs : Sound K B t m) (key : Key) :
    t.contains K B key = .ok (decide (key ∈ m)) ∨
      t.contains K B key = .error .assertion ∧ B.asserts = true ∧ K.accepts key = false := by
  rw [HashTable.contains]
  rcases hs.admits key with ⟨hadmits, -⟩ | ⟨hadmits, hkey, -⟩ | ⟨hadmits, hstop⟩
  · rw [hadmits, ← hs.isSome_find key]
    exact .inl rfl
  · rw [hadmits, decide_eq_false hkey]
    exact .inl rfl
  · rw [hadmits]
    exact .inr ⟨rfl, hstop⟩

theorem remove (hs : Sound K B t m) (key : Key) :
    (∃ t', t.remove K B key = .ok (decide (key ∈ m), t') ∧ Sound K B t' (m.erase key)) ∨
      t.remove K B key = .error .assertion ∧ B.asserts = true ∧ K.accepts key = false := by
  rw [HashTable.remove]
  rcases hs.admits key with ⟨hadmits, -⟩ | ⟨hadmits, hkey, -⟩ | ⟨hadmits, hstop⟩
  · rw [hadmits, ← hs.isSome_find key]
    cases hfind : t.find K key with
    | some r =>
      obtain ⟨before, e, after⟩ := r
      exact .inl ⟨_, rfl, hs.takeOut hfind⟩
    | none =>
      refine .inl ⟨t, rfl, ?_⟩
      rwa [erase_of_notMem (hs.notMem_of_find hfind)]
  · rw [hadmits, decide_eq_false hkey, erase_of_notMem hkey]
    exact .inl ⟨t, rfl, hs⟩
  · rw [hadmits]
    exact .inr ⟨rfl, hstop⟩

/-- **One call** is answered as a map answers it. -/
theorem call (hs : Sound K B t m) (c : HashCall Key V) :
    (∃ r t' m', t.call K B c = .ok (r, t') ∧ Answers K B K.accepts t m c r m' ∧ Sound K B t' m') ∨
      t.call K B c = .error .assertion ∧ Stops B K.accepts c := by
  cases c with
  | put key value memory =>
    rw [HashTable.call]
    rcases hs.put key value memory with ⟨r, t', m', hput, hanswers, hs'⟩ | ⟨hput, hstop⟩
    · exact .inl ⟨_, t', m', by rw [hput]; rfl, hanswers, hs'⟩
    · exact .inr ⟨by rw [hput]; rfl, hstop⟩
  | remove key =>
    rw [HashTable.call]
    rcases hs.remove key with ⟨t', hremove, hs'⟩ | ⟨hremove, hstop⟩
    · exact .inl ⟨_, t', _, by rw [hremove]; rfl, .remove, hs'⟩
    · exact .inr ⟨by rw [hremove]; rfl, hstop⟩
  | get key =>
    rw [HashTable.call]
    rcases hs.get key with hget | ⟨hget, hstop⟩
    · exact .inl ⟨_, t, m, by rw [hget]; rfl, .get, hs⟩
    · exact .inr ⟨by rw [hget]; rfl, hstop⟩
  | contains key =>
    rw [HashTable.call]
    rcases hs.contains key with hcontains | ⟨hcontains, hstop⟩
    · exact .inl ⟨_, t, m, by rw [hcontains]; rfl, .contains, hs⟩
    · exact .inr ⟨by rw [hcontains]; rfl, hstop⟩
  | clear => exact .inl ⟨_, _, ∅, rfl, .clear, hs.clear⟩
  | size =>
    have hcount : t.mCount = m.keys.card := hs.count.trans hs.content.card.symm
    exact .inl ⟨_, t, m, rfl, hcount ▸ .size, hs⟩

theorem refines (hs : Sound K B t m) (calls : List (HashCall Key V)) :
    Refines K B K.accepts t m calls := by
  induction calls generalizing t m with
  | nil => trivial
  | cons c cs ih =>
    rw [Refines]
    rcases hs.call c with ⟨r, t', m', hcall, hanswers, hs'⟩ | ⟨hcall, hstop⟩
    · rw [hcall]
      exact ⟨m', hanswers, ih hs'⟩
    · rw [hcall]
      exact ⟨rfl, hstop⟩

end Sound

/-- The empty table. -/
theorem sound_init (K : HashTraits Key) (B : HashBuild) (granted : Bool) :
    (∃ t : HashTable Key V, init K B granted = .ok t ∧ Sound K B t ∅) ∨
      (init K B granted : Except HashFault (HashTable Key V)) = .error .assertion ∧ B.asserts = true ∧
        granted = false := by
  have hinitial := B.initialCapacity_lt
  have hcapacity : 0 < (if B.initialCapacity ≤ 0 then 10 else B.initialCapacity.toNat) ∧
      (if B.initialCapacity ≤ 0 then 10 else B.initialCapacity.toNat) < 1073741824 := by
    split <;> omega
  rw [init]
  generalize (if B.initialCapacity ≤ 0 then 10 else B.initialCapacity.toNat) = capacity at hcapacity ⊢
  cases hallocates : K.allocates with
  | false =>
    refine .inl ⟨_, rfl, .of_empty rfl rfl (by dsimp only; omega) (fun _ => ⟨hcapacity.1, hcapacity.2, rfl⟩) ?_⟩
    rw [hallocates]
    exact fun _ => nofun
  | true =>
    rw [allocTable_of_lt (by omega)]
    cases hmalloc : hashMalloc granted 0 (4 * capacity) with
    | true =>
      exact .inl ⟨_, rfl, .of_empty rfl rfl (by dsimp only; omega)
        (fun _ => ⟨hcapacity.1, hcapacity.2, rfl⟩) fun _ _ => rfl⟩
    | false =>
      have hgranted : granted = false :=
        (eq_false_or_lt_of_malloc hmalloc).resolve_right (by omega)
      cases hasserts : B.asserts with
      | true => exact .inr ⟨rfl, rfl, hgranted⟩
      | false =>
        refine .inl ⟨{}, rfl, .of_empty rfl rfl (Nat.zero_le _) ?_ ?_⟩
        · rw [hallocates]
          exact fun h => nomatch h rfl
        · rw [hasserts]
          exact nofun

end Runs

/-- **The hash tables.** In every run from the empty table each call is answered as a finite map answers
it, in which the keys are those that the table accepts. -/
theorem refines_of_init (type : HashTableType) (B : HashBuild) (granted : Bool)
    (calls : List (HashCall type.Key V)) :
    (∃ t, init (type.traits B.charSigned) B granted = .ok t ∧
      t.Refines (type.traits B.charSigned) B (type.traits B.charSigned).accepts ∅ calls) ∨
    (init (type.traits B.charSigned) B granted : Except HashFault (HashTable type.Key V))
      = .error .assertion ∧ B.asserts = true ∧ granted = false := by
  rcases sound_init (V := V) (type.traits B.charSigned) B granted with ⟨t, hinit, hs⟩ | hstop
  · exact .inl ⟨t, hinit, hs.refines calls⟩
  · exact .inr hstop

/-- The empty string. -/
def emptyKey : StringKey := ⟨⟨[], List.not_mem_nil⟩, by decide⟩

/-- The library's copy does not take the empty string for a key. -/
theorem not_refines_emptyString :
    ¬ ∀ (type : HashTableType) (B : HashBuild) (granted : Bool) (calls : List (HashCall type.Key ℕ))
      (t : HashTable type.Key ℕ), init (type.traits B.charSigned) B granted = .ok t →
        t.Refines (type.traits B.charSigned) B (fun _ => true) ∅ calls := by
  intro h
  obtain ⟨t, hinit, hcall⟩ : ∃ t : HashTable StringKey ℕ, init (libraryTraits false) .arm true = .ok t ∧
      t.call (libraryTraits false) .arm (.put emptyKey 7 ⟨true, true, true⟩)
        = .ok (.put .refused, t) := ⟨_, rfl, rfl⟩
  have hrefines := h .library .arm true [.put emptyKey 7 ⟨true, true, true⟩] t hinit
  change Refines (libraryTraits false) .arm (fun _ => true) t ∅ _ at hrefines
  rw [Refines, hcall] at hrefines
  obtain ⟨m', hanswers, -⟩ := hrefines
  cases hanswers with
  | refused haccepts => cases haccepts

end HashTable

end ElastosCar
