import Mathlib

/-!
# Singly linked chains

A chain is a singly linked list whose nodes carry a key; it is searched from its head, and the first
node with the key is the one that is found, changed or taken out.  Where no two nodes have the same key
(`Distinct`), a chain is a finite map from keys to nodes.

* `find`, `change`, `remove` — the three loops every such list is written with;
* `find_append`, `find_change`, `find_remove` — **the map laws**;
* `Distinct` is kept by all of them.
-/

namespace CLib.Chain

variable {α κ : Type} [DecidableEq κ] (key : α → κ)

/-- The first node with the key. -/
def find (k : κ) (l : List α) : Option α := l.find? fun n => decide (key n = k)

/-- Change the first node with the key. -/
def change (k : κ) (f : α → α) : List α → List α
  | [] => []
  | n :: l => if key n = k then f n :: l else n :: change k f l

/-- Take out the first node with the key. -/
def remove (k : κ) : List α → List α
  | [] => []
  | n :: l => if key n = k then l else n :: remove k l

/-- No two nodes have the same key. -/
def Distinct (l : List α) : Prop := (l.map key).Nodup

variable {key} {k : κ} {l : List α} {n : α}

@[simp] theorem find_nil (k : κ) : find key k [] = none := rfl

theorem find_cons (k : κ) (n : α) (l : List α) :
    find key k (n :: l) = if key n = k then some n else find key k l := by
  unfold find
  split_ifs with h
  · rw [List.find?_cons_of_pos (by simpa using h)]
  · rw [List.find?_cons_of_neg (by simpa using h)]

theorem find_key (h : find key k l = some n) : key n = k := by
  simpa using List.find?_some h

theorem mem_of_find (h : find key k l = some n) : n ∈ l := List.mem_of_find?_eq_some h

theorem find_eq_none : find key k l = none ↔ k ∉ l.map key := by
  simp [find]

/-- In a chain of distinct keys every node is found. -/
theorem find_eq_some (h : Distinct key l) : find key k l = some n ↔ n ∈ l ∧ key n = k := by
  constructor
  · exact fun hf => ⟨mem_of_find hf, find_key hf⟩
  · rintro ⟨hmem, rfl⟩
    induction l with
    | nil => cases hmem
    | cons m l ih =>
      obtain ⟨hnot, hl⟩ := List.nodup_cons.mp h
      rw [find_cons]
      rcases List.mem_cons.mp hmem with rfl | hmem
      · rw [if_pos rfl]
      · have hne : key m ≠ key n := fun heq => hnot (heq ▸ List.mem_map_of_mem hmem)
        rw [if_neg hne, ih hl hmem]

/-- Appending a node with a new key. -/
theorem find_append (h : find key (key n) l = none) (k : κ) :
    find key k (l ++ [n]) = if key n = k then some n else find key k l := by
  unfold find at h ⊢
  rw [List.find?_append]
  by_cases hk : key n = k
  · rw [← hk, h, if_pos rfl, Option.none_or, List.find?_cons_of_pos (by simp)]
  · rw [if_neg hk, List.find?_cons_of_neg (by simpa using hk), List.find?_nil, Option.or_none]

/-- Changing a node without changing its key. -/
theorem find_change {f : α → α} (hf : ∀ n, key (f n) = key n) (k k' : κ) (l : List α) :
    find key k' (change key k f l) = if k = k' then (find key k l).map f else find key k' l := by
  induction l with
  | nil => simp [change]
  | cons n l ih =>
    rw [change]
    by_cases hn : key n = k
    · rw [if_pos hn, find_cons, find_cons, find_cons, hf, hn]
      by_cases hk : k = k'
      · rw [if_pos hk, if_pos hk, if_pos rfl]
        rfl
      · rw [if_neg hk, if_neg hk]
        simp [hk]
    · rw [if_neg hn, find_cons, find_cons, find_cons, ih, if_neg hn]
      by_cases hk : k = k'
      · subst hk
        rw [if_neg hn, if_pos rfl, if_pos rfl]
      · rw [if_neg hk, if_neg hk]

/-- Taking out the only node with a key. -/
theorem find_remove (h : Distinct key l) (k k' : κ) :
    find key k' (remove key k l) = if k = k' then none else find key k' l := by
  induction l with
  | nil => simp [remove]
  | cons n l ih =>
    obtain ⟨hnot, hl⟩ := List.nodup_cons.mp h
    rw [remove, find_cons]
    by_cases hn : key n = k
    · rw [if_pos hn]
      by_cases hk : k = k'
      · rw [if_pos hk, ← hk, ← hn]
        exact find_eq_none.mpr hnot
      · rw [if_neg hk, hn, if_neg hk]
    · rw [if_neg hn, find_cons, ih hl]
      by_cases hk : k = k'
      · rw [if_pos hk, if_pos hk, ← hk, if_neg hn]
      · rw [if_neg hk, if_neg hk]

/-! ## Keys -/

theorem map_change {f : α → α} (hf : ∀ n, key (f n) = key n) (k : κ) (l : List α) :
    (change key k f l).map key = l.map key := by
  induction l with
  | nil => rfl
  | cons n l ih =>
    rw [change]
    split_ifs
    · rw [List.map_cons, List.map_cons, hf]
    · rw [List.map_cons, List.map_cons, ih]

theorem remove_sublist (k : κ) (l : List α) : (remove key k l).Sublist l := by
  induction l with
  | nil => exact List.Sublist.slnil
  | cons n l ih =>
    rw [remove]
    split_ifs
    · exact List.sublist_cons_self n l
    · exact ih.cons_cons n

/-- A chain without the key is not changed by taking it out. -/
theorem remove_of_find_none (h : find key k l = none) : remove key k l = l := by
  induction l with
  | nil => rfl
  | cons n l ih =>
    rw [find_cons] at h
    split_ifs at h with hn
    rw [remove, if_neg hn, ih h]

theorem Distinct.append (h : Distinct key l) (hn : find key (key n) l = none) :
    Distinct key (l ++ [n]) := by
  rw [Distinct, List.map_append, List.map_singleton, List.nodup_append]
  refine ⟨h, List.nodup_singleton _, ?_⟩
  intro a ha b hb
  obtain rfl : b = key n := by simpa using hb
  rintro rfl
  exact find_eq_none.mp hn ha

theorem Distinct.cons (h : Distinct key l) (hn : find key (key n) l = none) :
    Distinct key (n :: l) :=
  List.nodup_cons.mpr ⟨find_eq_none.mp hn, h⟩

theorem Distinct.change (h : Distinct key l) {f : α → α} (hf : ∀ n, key (f n) = key n) (k : κ) :
    Distinct key (change key k f l) := by
  rw [Distinct, map_change hf]
  exact h

theorem Distinct.remove (h : Distinct key l) (k : κ) : Distinct key (remove key k l) :=
  List.Nodup.sublist ((remove_sublist k l).map key) h

/-! ## The nodes of a chain -/

/-- Taking a node out leaves the nodes of the other keys. -/
theorem mem_remove (h : Distinct key l) {m : α} :
    m ∈ remove key k l ↔ m ∈ l ∧ key m ≠ k := by
  have hrem := find_eq_some (n := m) (k := key m) (h.remove k)
  rw [find_remove h] at hrem
  by_cases hk : k = key m
  · simpa [hk] using hrem
  · rw [if_neg hk, find_eq_some h] at hrem
    simpa [Ne.symm hk] using hrem.symm

/-- Changing a node leaves the nodes of the other keys. -/
theorem mem_change (h : Distinct key l) {f : α → α} (hf : ∀ n, key (f n) = key n) (hn : n ∈ l)
    {m : α} : m ∈ change key (key n) f l ↔ m = f n ∨ (m ∈ l ∧ key m ≠ key n) := by
  have hchg := find_eq_some (n := m) (k := key m) (h.change hf (key n))
  rw [find_change hf, (find_eq_some h).mpr ⟨hn, rfl⟩] at hchg
  by_cases hk : key n = key m
  · rw [if_pos hk] at hchg
    simpa [hk, eq_comm] using hchg.symm
  · rw [if_neg hk, find_eq_some h] at hchg
    have hne : m ≠ f n := fun heq => hk (by rw [heq, hf])
    simpa [Ne.symm hk, hne] using hchg.symm

/-- What a change leaves alone in a node is what some node of the chain has. -/
theorem exists_of_mem_change {f : α → α} {R : α → α → Prop} (hf : ∀ n, R (f n) n)
    (hrefl : ∀ n, R n n) {m : α} (hm : m ∈ change key k f l) : ∃ n ∈ l, R m n := by
  induction l with
  | nil => cases hm
  | cons n l ih =>
    rw [change] at hm
    split_ifs at hm
    · rcases List.mem_cons.mp hm with rfl | hm
      · exact ⟨n, List.mem_cons_self, hf n⟩
      · exact ⟨m, List.mem_cons_of_mem n hm, hrefl m⟩
    · rcases List.mem_cons.mp hm with rfl | hm
      · exact ⟨m, List.mem_cons_self, hrefl m⟩
      · obtain ⟨n', hn', hR⟩ := ih hm
        exact ⟨n', List.mem_cons_of_mem n hn', hR⟩

end CLib.Chain
