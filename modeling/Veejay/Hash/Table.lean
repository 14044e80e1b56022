import Veejay.CLib.Chain

/-!
# The chained hash table

The dynamic hash table of `libhash/hash.c`.  A node keeps its key, its data and the whole hash value; the
low bits of the hash value select the chain.  The table doubles when an insertion finds it at its high
mark, and halves when a deletion finds it at its low mark.

* `hashCreate`, `hashInsert`, `hashLookup`, `hashDelete`, `hnodePut` — the functions of the source;
* `Valid` — every node is on the chain of its hash value, and no chain holds a key twice;
* `hashLookup_insert`, `hashLookup_delete`, `hashLookup_put` — **the table is a finite map** from keys to
  data, whatever resizing happens underneath.

A failing `realloc` is left out: the table always grows when it should.
-/

namespace Veejay.Hash

open CLib

variable {κ δ : Type}

/-- `hnode_t`, less its link. -/
structure Node (κ δ : Type) where
  key : κ
  data : δ
  hkey : UInt64
  deriving Repr

/-- `hash_t`: the table has `2 ^ bits` chains, and its mask has the low `bits` bits set. -/
structure Table (κ δ : Type) where
  bits : ℕ
  chain : ℕ → List (Node κ δ)
  nodecount : ℕ
  highmark : ℕ
  lowmark : ℕ

/-- `INIT_BITS` -/
def initBits : ℕ := 6

/-- `INIT_SIZE` -/
def initSize : ℕ := 2 ^ initBits

/-- `hash->nchains` -/
def Table.nchains (t : Table κ δ) : ℕ := 2 ^ t.bits

/-- `hkey & hash->mask` -/
def chainOf (bits : ℕ) (hkey : UInt64) : ℕ := hkey.toNat % 2 ^ bits

/-- `hash_create` -/
def hashCreate : Table κ δ where
  bits := initBits
  chain := fun _ => []
  nodecount := 0
  highmark := initSize * 2
  lowmark := initSize / 2

/-- The inner loop of `grow_table`: every node goes to the front of one of the two new chains, by the
newly exposed bit of its hash value. -/
def splitChain (bit : ℕ) (l : List (Node κ δ)) : List (Node κ δ) × List (Node κ δ) :=
  l.foldl (fun p n =>
    if n.hkey.toNat.testBit bit then (p.1, n :: p.2) else (n :: p.1, p.2)) ([], [])

/-- `grow_table` -/
def growTable (t : Table κ δ) : Table κ δ where
  bits := t.bits + 1
  chain := fun c =>
    if c < t.nchains then (splitChain t.bits (t.chain c)).1
    else if c < t.nchains * 2 then (splitChain t.bits (t.chain (c - t.nchains))).2
    else []
  nodecount := t.nodecount
  highmark := t.highmark * 2
  lowmark := t.lowmark * 2

/-- `shrink_table`: the chain of the upper half is tacked onto its sister. -/
def shrinkTable (t : Table κ δ) : Table κ δ where
  bits := t.bits - 1
  chain := fun c =>
    if c < t.nchains / 2 then t.chain c ++ t.chain (c + t.nchains / 2) else []
  nodecount := t.nodecount
  highmark := t.highmark / 2
  lowmark := t.lowmark / 2

/-- The table with another chain in one of its places. -/
def Table.setChain (t : Table κ δ) (c : ℕ) (l : List (Node κ δ)) : Table κ δ :=
  { t with chain := Function.update t.chain c l }

/-! ## The invariant -/

variable (function : κ → UInt64)

/-- **The table invariant.** -/
structure Valid (t : Table κ δ) : Prop where
  bits_ge : initBits ≤ t.bits
  lowmark_eq : t.lowmark = t.nchains / 2
  hkey_eq : ∀ c, ∀ n ∈ t.chain c, n.hkey = function n.key
  chainOf_eq : ∀ c, ∀ n ∈ t.chain c, chainOf t.bits n.hkey = c
  distinct : ∀ c, Chain.Distinct Node.key (t.chain c)

/-- A node of the table. -/
def Holds (t : Table κ δ) (n : Node κ δ) : Prop := ∃ c, n ∈ t.chain c

variable {function} {t : Table κ δ} {n : Node κ δ}

theorem valid_create : Valid function (hashCreate : Table κ δ) where
  bits_ge := le_refl _
  lowmark_eq := rfl
  hkey_eq := fun _ _ h => by cases h
  chainOf_eq := fun _ _ h => by cases h
  distinct := fun _ => List.nodup_nil

theorem not_holds_create : ¬ Holds (hashCreate : Table κ δ) n := by
  rintro ⟨c, hc⟩
  cases hc

/-- A node stands on the chain of its own hash value. -/
theorem Valid.mem_chain (h : Valid function t) (hn : Holds t n) :
    n ∈ t.chain (chainOf t.bits (function n.key)) := by
  obtain ⟨c, hc⟩ := hn
  rw [← h.hkey_eq c n hc, h.chainOf_eq c n hc]
  exact hc

/-- A chain of the table holds the nodes of one hash value's low bits. -/
theorem Valid.mem_chain_iff (h : Valid function t) {c : ℕ} :
    n ∈ t.chain c ↔ Holds t n ∧ chainOf t.bits (function n.key) = c := by
  constructor
  · intro hn
    refine ⟨⟨c, hn⟩, ?_⟩
    rw [← h.hkey_eq c n hn, h.chainOf_eq c n hn]
  · rintro ⟨hn, rfl⟩
    exact h.mem_chain hn

/-- The nodes off one chain are those whose keys go to another. -/
theorem Valid.mem_other_chain (h : Valid function t) {c : ℕ} :
    (∃ c', c' ≠ c ∧ n ∈ t.chain c') ↔ Holds t n ∧ chainOf t.bits (function n.key) ≠ c := by
  constructor
  · rintro ⟨c', hc, hn⟩
    obtain ⟨hh, rfl⟩ := h.mem_chain_iff.mp hn
    exact ⟨hh, hc⟩
  · rintro ⟨hh, hc⟩
    exact ⟨_, hc, h.mem_chain hh⟩

/-! ## Resizing -/

theorem splitChain_eq (bit : ℕ) (l : List (Node κ δ)) :
    splitChain bit l
      = ((l.filter fun n => !n.hkey.toNat.testBit bit).reverse,
         (l.filter fun n => n.hkey.toNat.testBit bit).reverse) := by
  have hgen : ∀ (l : List (Node κ δ)) (p : List (Node κ δ) × List (Node κ δ)),
      l.foldl (fun p n =>
        if n.hkey.toNat.testBit bit then (p.1, n :: p.2) else (n :: p.1, p.2)) p
      = ((l.filter fun n => !n.hkey.toNat.testBit bit).reverse ++ p.1,
         (l.filter fun n => n.hkey.toNat.testBit bit).reverse ++ p.2) := by
    intro l
    induction l with
    | nil => intro p; rfl
    | cons n l ih =>
      intro p
      rw [List.foldl_cons, ih]
      by_cases hb : n.hkey.toNat.testBit bit
      · simp [hb]
      · simp [hb]
  rw [splitChain, hgen l ([], []), List.append_nil, List.append_nil]

theorem mem_growTable (c : ℕ) :
    n ∈ (growTable t).chain c ↔
      (c < t.nchains ∧ n ∈ t.chain c ∧ n.hkey.toNat.testBit t.bits = false) ∨
      (t.nchains ≤ c ∧ c < t.nchains * 2 ∧ n ∈ t.chain (c - t.nchains) ∧
        n.hkey.toNat.testBit t.bits = true) := by
  simp only [growTable, splitChain_eq]
  by_cases h1 : c < t.nchains
  · simp [h1, Nat.not_le.mpr h1]
  · by_cases h2 : c < t.nchains * 2
    · simp [h1, h2, Nat.not_lt.mp h1]
    · simp [h1, h2]

theorem chainOf_lt (bits : ℕ) (hkey : UInt64) : chainOf bits hkey < 2 ^ bits :=
  Nat.mod_lt _ (Nat.two_pow_pos bits)

theorem chainOf_succ (bits : ℕ) (hkey : UInt64) :
    chainOf (bits + 1) hkey
      = chainOf bits hkey + 2 ^ bits * (hkey.toNat.testBit bits).toNat := by
  rw [chainOf, chainOf, Nat.toNat_testBit, pow_succ, Nat.mod_mul]

theorem holds_growTable (h : Valid function t) : Holds (growTable t) n ↔ Holds t n := by
  constructor
  · rintro ⟨c, hc⟩
    rcases (mem_growTable c).mp hc with ⟨-, hn, -⟩ | ⟨-, -, hn, -⟩
    · exact ⟨_, hn⟩
    · exact ⟨_, hn⟩
  · rintro ⟨c, hc⟩
    have hlt : c < t.nchains := h.chainOf_eq c n hc ▸ chainOf_lt t.bits n.hkey
    cases hb : n.hkey.toNat.testBit t.bits with
    | false => exact ⟨c, (mem_growTable c).mpr (Or.inl ⟨hlt, hc, hb⟩)⟩
    | true =>
      refine ⟨c + t.nchains, (mem_growTable _).mpr (Or.inr ⟨by omega, by omega, ?_, hb⟩)⟩
      rw [Nat.add_sub_cancel]
      exact hc

theorem valid_growTable (h : Valid function t) : Valid function (growTable t) where
  bits_ge := Nat.le_succ_of_le h.bits_ge
  lowmark_eq := by
    have heven : 2 ∣ t.nchains := dvd_pow_self 2 (by have := h.bits_ge; simp [initBits] at this; omega)
    have hpow : (growTable t).nchains = t.nchains * 2 := pow_succ 2 t.bits
    rw [hpow]
    show t.lowmark * 2 = _
    rw [h.lowmark_eq]
    omega
  hkey_eq := fun c n hn => by
    obtain ⟨c', hc'⟩ := (holds_growTable h).mp ⟨c, hn⟩
    exact h.hkey_eq c' n hc'
  chainOf_eq := fun c n hn => by
    show chainOf (t.bits + 1) n.hkey = c
    rw [chainOf_succ]
    rcases (mem_growTable c).mp hn with ⟨-, hn, hb⟩ | ⟨hge, -, hn, hb⟩
    · rw [hb, h.chainOf_eq c n hn]
      rfl
    · rw [hb, h.chainOf_eq _ n hn]
      simp only [Table.nchains, Bool.toNat_true, mul_one] at hge ⊢
      omega
  distinct := fun c => by
    show Chain.Distinct Node.key ((growTable t).chain c)
    simp only [growTable, splitChain_eq]
    split_ifs
    · rw [Chain.Distinct, List.map_reverse, List.nodup_reverse]
      exact (h.distinct c).sublist (List.filter_sublist.map Node.key)
    · rw [Chain.Distinct, List.map_reverse, List.nodup_reverse]
      exact (h.distinct (c - t.nchains)).sublist (List.filter_sublist.map Node.key)
    · exact List.nodup_nil

theorem mem_shrinkTable (c : ℕ) :
    n ∈ (shrinkTable t).chain c ↔
      c < t.nchains / 2 ∧ (n ∈ t.chain c ∨ n ∈ t.chain (c + t.nchains / 2)) := by
  simp only [shrinkTable]
  by_cases h : c < t.nchains / 2
  · simp [h]
  · simp [h]

/-- Above its initial size the table has an even number of chains. -/
theorem nchains_pred (h : initBits < t.bits) : t.nchains = 2 ^ (t.bits - 1) * 2 := by
  have hbits : t.bits = t.bits - 1 + 1 := by omega
  rw [← pow_succ, ← hbits]
  rfl

theorem chainOf_pred (h : initBits < t.bits) (hkey : UInt64) :
    chainOf (t.bits - 1) hkey = chainOf t.bits hkey % (t.nchains / 2) := by
  rw [nchains_pred h, Nat.mul_div_cancel _ (by decide : 0 < 2)]
  exact (Nat.mod_mod_of_dvd _ (pow_dvd_pow 2 (Nat.sub_le _ _))).symm

theorem holds_shrinkTable (h : Valid function t) (hbits : initBits < t.bits) :
    Holds (shrinkTable t) n ↔ Holds t n := by
  constructor
  · rintro ⟨c, hc⟩
    rcases ((mem_shrinkTable c).mp hc).2 with hn | hn
    · exact ⟨_, hn⟩
    · exact ⟨_, hn⟩
  · rintro ⟨c, hc⟩
    have hlt : c < t.nchains := h.chainOf_eq c n hc ▸ chainOf_lt t.bits n.hkey
    have heven := nchains_pred hbits
    by_cases hlow : c < t.nchains / 2
    · exact ⟨c, (mem_shrinkTable c).mpr ⟨hlow, Or.inl hc⟩⟩
    · refine ⟨c - t.nchains / 2, (mem_shrinkTable _).mpr ⟨by omega, Or.inr ?_⟩⟩
      rw [Nat.sub_add_cancel (Nat.not_lt.mp hlow)]
      exact hc

theorem valid_shrinkTable (h : Valid function t) (hbits : initBits < t.bits) :
    Valid function (shrinkTable t) where
  bits_ge := Nat.le_sub_one_of_lt hbits
  lowmark_eq := by
    have hpow : (shrinkTable t).nchains = t.nchains / 2 := by
      rw [nchains_pred hbits, Nat.mul_div_cancel _ (by decide : 0 < 2)]
      rfl
    rw [hpow]
    show t.lowmark / 2 = _
    rw [h.lowmark_eq]
  hkey_eq := fun c n hn => by
    obtain ⟨c', hc'⟩ := (holds_shrinkTable h hbits).mp ⟨c, hn⟩
    exact h.hkey_eq c' n hc'
  chainOf_eq := fun c n hn => by
    show chainOf (t.bits - 1) n.hkey = c
    rw [chainOf_pred hbits]
    obtain ⟨hlt, hn | hn⟩ := (mem_shrinkTable c).mp hn
    · rw [h.chainOf_eq c n hn, Nat.mod_eq_of_lt hlt]
    · rw [h.chainOf_eq _ n hn, Nat.add_mod_right, Nat.mod_eq_of_lt hlt]
  distinct := fun c => by
    show Chain.Distinct Node.key ((shrinkTable t).chain c)
    simp only [shrinkTable]
    split_ifs with hlt
    · rw [Chain.Distinct, List.map_append, List.nodup_append]
      refine ⟨h.distinct _, h.distinct _, ?_⟩
      intro k hk k' hk' heq
      obtain ⟨m, hm, hmk⟩ := List.mem_map.mp hk
      obtain ⟨m', hm', hmk'⟩ := List.mem_map.mp hk'
      -- equal keys have equal hash values, so they would stand on one chain
      have hchain : c = c + t.nchains / 2 := by
        rw [← h.chainOf_eq _ m' hm', ← h.chainOf_eq c m hm, h.hkey_eq _ m hm, h.hkey_eq _ m' hm',
          hmk, hmk', heq]
      omega
    · exact List.nodup_nil

theorem valid_setChain (h : Valid function t) {c m : ℕ} {l : List (Node κ δ)}
    (hkey : ∀ n ∈ l, n.hkey = function n.key) (hchain : ∀ n ∈ l, chainOf t.bits n.hkey = c)
    (hl : Chain.Distinct Node.key l) :
    Valid function { t.setChain c l with nodecount := m } where
  bits_ge := h.bits_ge
  lowmark_eq := h.lowmark_eq
  hkey_eq := fun c' n hn => by
    simp only [Table.setChain, Function.update_apply] at hn
    split_ifs at hn
    · exact hkey n hn
    · exact h.hkey_eq c' n hn
  chainOf_eq := fun c' n hn => by
    simp only [Table.setChain, Function.update_apply] at hn
    split_ifs at hn with hc
    · rw [hc]
      exact hchain n hn
    · exact h.chainOf_eq c' n hn
  distinct := fun c' => by
    simp only [Table.setChain, Function.update_apply]
    split_ifs
    · exact hl
    · exact h.distinct c'

theorem holds_setChain {c m : ℕ} {l : List (Node κ δ)} :
    Holds { t.setChain c l with nodecount := m } n ↔ n ∈ l ∨ ∃ c', c' ≠ c ∧ n ∈ t.chain c' := by
  simp only [Holds, Table.setChain, Function.update_apply]
  constructor
  · rintro ⟨c', hn⟩
    split_ifs at hn with hc
    · exact Or.inl hn
    · exact Or.inr ⟨c', hc, hn⟩
  · rintro (hn | ⟨c', hc, hn⟩)
    · exact ⟨c, by rwa [if_pos rfl]⟩
    · exact ⟨c', by rwa [if_neg hc]⟩

/-! ## The operations -/

section Operations

variable [DecidableEq κ] (function : κ → UInt64)

/-- `hash_insert` -/
def hashInsert (k : κ) (d : δ) (t : Table κ δ) : Table κ δ :=
  let t := if t.highmark ≤ t.nodecount then growTable t else t
  let c := chainOf t.bits (function k)
  { t.setChain c ({ key := k, data := d, hkey := function k } :: t.chain c) with
    nodecount := t.nodecount + 1 }

/-- `hash_lookup` -/
def hashLookup (k : κ) (t : Table κ δ) : Option (Node κ δ) :=
  (t.chain (chainOf t.bits (function k))).find? fun n => n.hkey == function k && decide (n.key = k)

/-- `hash_delete`, of a node of the table; the nodes of a chain are told apart by their keys. -/
def hashDelete (node : Node κ δ) (t : Table κ δ) : Table κ δ :=
  let t := if t.nodecount ≤ t.lowmark ∧ initSize < t.nodecount then shrinkTable t else t
  let c := chainOf t.bits node.hkey
  { t.setChain c (Chain.remove Node.key node.key (t.chain c)) with nodecount := t.nodecount - 1 }

/-- `hnode_put`, on a node of the table. -/
def hnodePut (node : Node κ δ) (d : δ) (t : Table κ δ) : Table κ δ :=
  let c := chainOf t.bits node.hkey
  t.setChain c (Chain.change Node.key node.key (fun n => { n with data := d }) (t.chain c))

variable {function} {k : κ} {d : δ}

/-- **What a lookup finds:** the node of the table with the key. -/
theorem hashLookup_eq_some (h : Valid function t) :
    hashLookup function k t = some n ↔ Holds t n ∧ n.key = k := by
  have hfind : hashLookup function k t
      = Chain.find Node.key k (t.chain (chainOf t.bits (function k))) := by
    refine List.find?_congr fun m hm => ?_
    rw [h.hkey_eq _ m hm]
    by_cases hk : m.key = k
    · simp [hk]
    · simp [hk]
  rw [hfind, Chain.find_eq_some (h.distinct _)]
  constructor
  · exact fun ⟨hn, hk⟩ => ⟨⟨_, hn⟩, hk⟩
  · rintro ⟨hn, rfl⟩
    exact ⟨h.mem_chain hn, rfl⟩

theorem hashLookup_eq_none (h : Valid function t) :
    hashLookup function k t = none ↔ ∀ n, Holds t n → n.key ≠ k := by
  rw [Option.eq_none_iff_forall_not_mem]
  refine forall_congr' fun n => ?_
  rw [Option.mem_def, hashLookup_eq_some h, not_and]

omit [DecidableEq κ] in
/-- The table of `hash_insert` after it has made room. -/
theorem hashInsert_eq (h : Valid function t) :
    ∃ t' : Table κ δ, Valid function t' ∧ (∀ n, Holds t' n ↔ Holds t n) ∧
      hashInsert function k d t
        = { t'.setChain (chainOf t'.bits (function k))
              (⟨k, d, function k⟩ :: t'.chain (chainOf t'.bits (function k))) with
            nodecount := t'.nodecount + 1 } := by
  by_cases hmark : t.highmark ≤ t.nodecount
  · exact ⟨growTable t, valid_growTable h, fun n => holds_growTable h, by rw [hashInsert, if_pos hmark]⟩
  · exact ⟨t, h, fun n => Iff.rfl, by rw [hashInsert, if_neg hmark]⟩

/-- The table of `hash_delete` after it has given room back. -/
theorem hashDelete_eq (h : Valid function t) :
    ∃ t' : Table κ δ, Valid function t' ∧ (∀ m, Holds t' m ↔ Holds t m) ∧
      hashDelete n t
        = { t'.setChain (chainOf t'.bits n.hkey)
              (Chain.remove Node.key n.key (t'.chain (chainOf t'.bits n.hkey))) with
            nodecount := t'.nodecount - 1 } := by
  by_cases hmark : t.nodecount ≤ t.lowmark ∧ initSize < t.nodecount
  · have hbits : initBits < t.bits := by
      have hge := h.bits_ge
      rcases Nat.lt_or_ge initBits t.bits with hlt | hle
      · exact hlt
      · have hnc : t.nchains = initSize := by rw [Table.nchains, Nat.le_antisymm hle hge]; rfl
        rw [h.lowmark_eq, hnc] at hmark
        omega
    exact ⟨shrinkTable t, valid_shrinkTable h hbits, fun m => holds_shrinkTable h hbits,
      by rw [hashDelete, if_pos hmark]⟩
  · exact ⟨t, h, fun m => Iff.rfl, by rw [hashDelete, if_neg hmark]⟩

/-! ### Insertion -/

omit [DecidableEq κ] in
theorem holds_hashInsert (h : Valid function t) {m : Node κ δ} :
    Holds (hashInsert function k d t) m ↔ m = ⟨k, d, function k⟩ ∨ Holds t m := by
  obtain ⟨t', ht', hholds, heq⟩ := hashInsert_eq (k := k) (d := d) h
  rw [heq, holds_setChain, ht'.mem_other_chain, List.mem_cons, ht'.mem_chain_iff, ← hholds]
  tauto

theorem valid_hashInsert (h : Valid function t) (hnew : hashLookup function k t = none) :
    Valid function (hashInsert function k d t) := by
  have hfresh := (hashLookup_eq_none h).mp hnew
  obtain ⟨t', ht', hholds, heq⟩ := hashInsert_eq (k := k) (d := d) h
  rw [heq]
  refine valid_setChain ht' ?_ ?_ ?_
  · intro n hn
    rcases List.mem_cons.mp hn with rfl | hn
    · rfl
    · exact ht'.hkey_eq _ n hn
  · intro n hn
    rcases List.mem_cons.mp hn with rfl | hn
    · rfl
    · exact ht'.chainOf_eq _ n hn
  · refine Chain.Distinct.cons (ht'.distinct _) (Chain.find_eq_none.mpr fun hmem => ?_)
    obtain ⟨n, hn, hk⟩ := List.mem_map.mp hmem
    exact hfresh n ((hholds n).mp ⟨_, hn⟩) hk

/-- **Looking up after an insertion.** -/
theorem hashLookup_insert (h : Valid function t) (hnew : hashLookup function k t = none) (k' : κ) :
    hashLookup function k' (hashInsert function k d t)
      = if k = k' then some ⟨k, d, function k⟩ else hashLookup function k' t := by
  have hfresh := (hashLookup_eq_none h).mp hnew
  ext m
  rw [hashLookup_eq_some (valid_hashInsert h hnew), holds_hashInsert h]
  split_ifs with hk
  · subst hk
    rw [Option.some_inj]
    constructor
    · rintro ⟨rfl | hm, hmk⟩
      · rfl
      · exact absurd hmk (hfresh m hm)
    · rintro rfl
      exact ⟨Or.inl rfl, rfl⟩
  · rw [hashLookup_eq_some h]
    constructor
    · rintro ⟨rfl | hm, hmk⟩
      · exact absurd hmk hk
      · exact ⟨hm, hmk⟩
    · exact fun ⟨hm, hmk⟩ => ⟨Or.inr hm, hmk⟩

/-! ### Deletion -/

theorem holds_hashDelete (h : Valid function t) (hn : Holds t n) {m : Node κ δ} :
    Holds (hashDelete n t) m ↔ Holds t m ∧ m.key ≠ n.key := by
  obtain ⟨t', ht', hholds, heq⟩ := hashDelete_eq (n := n) h
  have hkey : n.hkey = function n.key := by
    obtain ⟨c, hc⟩ := hn
    exact h.hkey_eq c n hc
  rw [heq, holds_setChain, ht'.mem_other_chain, Chain.mem_remove (ht'.distinct _),
    ht'.mem_chain_iff, ← hholds, hkey]
  constructor
  · rintro (⟨⟨hm, -⟩, hne⟩ | ⟨hm, hne⟩)
    · exact ⟨hm, hne⟩
    · exact ⟨hm, fun heq => hne (by rw [heq])⟩
  · rintro ⟨hm, hne⟩
    by_cases hc : chainOf t'.bits (function m.key) = chainOf t'.bits (function n.key)
    · exact Or.inl ⟨⟨hm, hc⟩, hne⟩
    · exact Or.inr ⟨hm, hc⟩

theorem valid_hashDelete (h : Valid function t) : Valid function (hashDelete n t) := by
  obtain ⟨t', ht', -, heq⟩ := hashDelete_eq (n := n) h
  rw [heq]
  have hsub : (Chain.remove Node.key n.key (t'.chain (chainOf t'.bits n.hkey))).Sublist _ :=
    Chain.remove_sublist _ _
  exact valid_setChain ht' (fun m hm => ht'.hkey_eq _ m (hsub.subset hm))
    (fun m hm => ht'.chainOf_eq _ m (hsub.subset hm)) ((ht'.distinct _).remove _)

/-- **Looking up after a deletion.** -/
theorem hashLookup_delete (h : Valid function t) (hn : hashLookup function k t = some n) (k' : κ) :
    hashLookup function k' (hashDelete n t)
      = if k = k' then none else hashLookup function k' t := by
  obtain ⟨hhold, rfl⟩ := (hashLookup_eq_some h).mp hn
  ext m
  rw [hashLookup_eq_some (valid_hashDelete h), holds_hashDelete h hhold]
  split_ifs with hk
  · subst hk
    simp only [iff_false]
    exact fun ⟨⟨_, hne⟩, heq⟩ => hne heq
  · rw [hashLookup_eq_some h]
    constructor
    · exact fun ⟨⟨hm, _⟩, hmk⟩ => ⟨hm, hmk⟩
    · exact fun ⟨hm, hmk⟩ => ⟨⟨hm, fun heq => hk (heq ▸ hmk)⟩, hmk⟩

/-! ### Putting data in a node -/

theorem holds_hnodePut (h : Valid function t) (hn : Holds t n) {m : Node κ δ} :
    Holds (hnodePut n d t) m ↔ m = { n with data := d } ∨ (Holds t m ∧ m.key ≠ n.key) := by
  have hkey : n.hkey = function n.key := by
    obtain ⟨c, hc⟩ := hn
    exact h.hkey_eq c n hc
  have hchain : n ∈ t.chain (chainOf t.bits n.hkey) := by
    rw [hkey]
    exact h.mem_chain hn
  have hset : hnodePut n d t = { t.setChain (chainOf t.bits n.hkey)
      (Chain.change Node.key n.key (fun n => { n with data := d })
        (t.chain (chainOf t.bits n.hkey))) with nodecount := t.nodecount } := rfl
  rw [hset, holds_setChain, h.mem_other_chain,
    Chain.mem_change (f := fun n => { n with data := d }) (h.distinct _) (fun _ => rfl) hchain,
    h.mem_chain_iff]
  constructor
  · rintro ((rfl | ⟨⟨hm, -⟩, hne⟩) | ⟨hm, hne⟩)
    · exact Or.inl rfl
    · exact Or.inr ⟨hm, hne⟩
    · exact Or.inr ⟨hm, fun heq => hne (by rw [hkey, heq])⟩
  · rintro (rfl | ⟨hm, hne⟩)
    · exact Or.inl (Or.inl rfl)
    · by_cases hc : chainOf t.bits (function m.key) = chainOf t.bits n.hkey
      · exact Or.inl (Or.inr ⟨⟨hm, hc⟩, hne⟩)
      · exact Or.inr ⟨hm, hc⟩

theorem valid_hnodePut (h : Valid function t) : Valid function (hnodePut n d t) := by
  have hmem : ∀ m ∈ Chain.change Node.key n.key (fun n => { n with data := d })
      (t.chain (chainOf t.bits n.hkey)),
      ∃ m' ∈ t.chain (chainOf t.bits n.hkey), m.key = m'.key ∧ m.hkey = m'.hkey :=
    fun m hm => Chain.exists_of_mem_change (R := fun m m' => m.key = m'.key ∧ m.hkey = m'.hkey)
      (fun _ => ⟨rfl, rfl⟩) (fun _ => ⟨rfl, rfl⟩) hm
  have hdistinct := (h.distinct (chainOf t.bits n.hkey)).change
    (f := fun n => { n with data := d }) (fun _ => rfl) n.key
  refine valid_setChain (m := t.nodecount) h ?_ ?_ hdistinct
  · intro m hm
    obtain ⟨m', hm', hk, hh⟩ := hmem m hm
    rw [hk, hh]
    exact h.hkey_eq _ m' hm'
  · intro m hm
    obtain ⟨m', hm', -, hh⟩ := hmem m hm
    rw [hh]
    exact h.chainOf_eq _ m' hm'

/-- **Looking up after `hnode_put`.** -/
theorem hashLookup_put (h : Valid function t) (hn : hashLookup function k t = some n) (k' : κ) :
    hashLookup function k' (hnodePut n d t)
      = if k = k' then some { n with data := d } else hashLookup function k' t := by
  obtain ⟨hhold, rfl⟩ := (hashLookup_eq_some h).mp hn
  ext m
  rw [hashLookup_eq_some (valid_hnodePut h), holds_hnodePut h hhold]
  split_ifs with hk
  · subst hk
    rw [Option.some_inj]
    constructor
    · rintro ⟨rfl | ⟨hm, hne⟩, hmk⟩
      · rfl
      · exact absurd hmk hne
    · rintro rfl
      exact ⟨Or.inl rfl, rfl⟩
  · rw [hashLookup_eq_some h]
    constructor
    · rintro ⟨rfl | ⟨hm, hne⟩, hmk⟩
      · exact absurd hmk hk
      · exact ⟨hm, hmk⟩
    · exact fun ⟨hm, hmk⟩ => ⟨Or.inr ⟨hm, fun heq => hk (heq ▸ hmk)⟩, hmk⟩

end Operations

end Veejay.Hash
