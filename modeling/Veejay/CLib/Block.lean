import Veejay.CLib.Word

/-!
# Heap blocks of eight-byte cells

A block is what `malloc` hands out, seen as an array of eight-byte cells.  A cell that was never
written is `none`: copying it around is allowed, and it is never mistaken for a value.  No object is
larger than `PTRDIFF_MAX` bytes, which the field `bounded` records, so the size of two live blocks
together never wraps around.

The allocator is a parameter: it may refuse any request.  Resizing an existing block to zero bytes
frees it and gives the null pointer, whereas a fresh request for zero bytes gives an empty block.
-/

namespace CLib

variable {α : Type}

/-- An allocated array of eight-byte cells. -/
@[ext] structure Block (α : Type) where
  cells : List (Option α)
  bounded : cells.length < 2 ^ 60

namespace Block

/-- The number of cells of a block. -/
def size (b : Block α) : ℕ := b.cells.length

/-- Read cell `i`. -/
def load (b : Block α) (i : ℕ) : Exec (Option α) :=
  match b.cells[i]? with
  | some c => .ok c
  | none => .error .outOfBounds

/-- Overwrite cell `i`. -/
def store (b : Block α) (i : ℕ) (c : Option α) : Exec (Block α) :=
  if i < b.size then .ok ⟨b.cells.set i c, by simpa using b.bounded⟩ else .error .outOfBounds

theorem load_eq_ok {b : Block α} {i : ℕ} {c : Option α} :
    b.load i = .ok c ↔ b.cells[i]? = some c := by
  unfold load
  split <;> simp_all

theorem load_of_lt {b : Block α} {i : ℕ} (h : i < b.size) : b.load i = .ok b.cells[i] :=
  load_eq_ok.mpr (List.getElem?_eq_getElem h)

theorem store_eq_ok {b b' : Block α} {i : ℕ} {c : Option α} :
    b.store i c = .ok b' ↔ i < b.size ∧ b'.cells = b.cells.set i c := by
  unfold store
  split_ifs with h
  · constructor
    · intro heq
      obtain rfl := Except.ok.inj heq
      exact ⟨h, rfl⟩
    · rintro ⟨-, hcells⟩
      exact congrArg _ (Block.ext hcells.symm)
  · simp [h]

/-- A store in bounds succeeds, and writes the cell. -/
theorem store_of_lt {b : Block α} {i : ℕ} (c : Option α) (h : i < b.size) :
    ∃ b', b.store i c = .ok b' ∧ b'.cells = b.cells.set i c :=
  ⟨⟨b.cells.set i c, by simpa using b.bounded⟩, by simp [store, h], rfl⟩

/-- Read cell `i` through a pointer. -/
def loadAt (p : Option (Block α)) (i : ℕ) : Exec (Option α) :=
  match p with
  | none => .error .nullPointer
  | some b => b.load i

/-- Overwrite cell `i` through a pointer. -/
def storeAt (p : Option (Block α)) (i : ℕ) (c : Option α) : Exec (Option (Block α)) :=
  match p with
  | none => .error .nullPointer
  | some b => do
      let b' ← b.store i c
      .ok (some b')

theorem loadAt_eq {b : Block α} {i : ℕ} {c : Option α} (h : b.cells[i]? = some c) :
    loadAt (some b) i = .ok c := load_eq_ok.mpr h

theorem loadAt_of_lt {b : Block α} {i : ℕ} (h : i < b.size) :
    loadAt (some b) i = .ok b.cells[i] := load_of_lt h

theorem storeAt_of_lt {b : Block α} {i : ℕ} (c : Option α) (h : i < b.size) :
    ∃ b', storeAt (some b) i c = .ok (some b') ∧ b'.cells = b.cells.set i c := by
  obtain ⟨b', hb', hcells⟩ := store_of_lt c h
  exact ⟨b', by simp [storeAt, hb'], hcells⟩

/-- A load that went through was in bounds. -/
theorem loadAt_eq_ok {p : Option (Block α)} {i : ℕ} {c : Option α} (h : loadAt p i = .ok c) :
    ∃ b, p = some b ∧ i < b.size ∧ b.cells[i]? = some c := by
  cases p with
  | none => cases h
  | some b =>
    have hcell := load_eq_ok.mp h
    exact ⟨b, rfl, (List.getElem?_eq_some_iff.mp hcell).1, hcell⟩

/-- A store that went through was in bounds. -/
theorem storeAt_eq_ok {p p' : Option (Block α)} {i : ℕ} {c : Option α}
    (h : storeAt p i c = .ok p') :
    ∃ b b', p = some b ∧ p' = some b' ∧ i < b.size ∧ b'.cells = b.cells.set i c := by
  cases p with
  | none => simp [storeAt] at h
  | some b =>
    obtain ⟨b', hstore, hp'⟩ := bind_eq_ok.mp h
    obtain ⟨hi, hcells⟩ := store_eq_ok.mp hstore
    exact ⟨b, b', rfl, (Except.ok.inj hp').symm, hi, hcells⟩

/-- **Copying one cell** writes that cell and no other. -/
theorem copy_cell {src dst : Block α} {i j : ℕ} (hi : i < src.size) (hj : j < dst.size) :
    ∃ c dst', loadAt (some src) i = .ok c ∧ storeAt (some dst) j c = .ok (some dst') ∧
      dst'.size = dst.size ∧
      ∀ m, dst'.cells[m]? = if m = j then src.cells[i]? else dst.cells[m]? := by
  obtain ⟨dst', hstore, hcells⟩ := storeAt_of_lt src.cells[i] hj
  refine ⟨_, dst', loadAt_of_lt hi, hstore, ?_, fun m => ?_⟩
  · rw [size, size, hcells, List.length_set]
  · rw [hcells, List.getElem?_set]
    by_cases hm : j = m
    · rw [if_pos hm, if_pos (show j < dst.cells.length from hj), if_pos hm.symm]
      exact (List.getElem?_eq_getElem hi).symm
    · rw [if_neg hm, if_neg (Ne.symm hm)]

/-- The empty block a fresh request for zero bytes gives. -/
def empty : Block α := ⟨[], by simp⟩

end Block

/-- The policy of the heap: which requests, in bytes, are granted. -/
structure Allocator where
  grants : ℕ → Bool

namespace Allocator

/-- The cells a block keeps when it is resized to `n` cells: a prefix, then fresh ones. -/
def resized (cells : List (Option α)) (n : ℕ) : List (Option α) :=
  cells.take n ++ List.replicate (n - cells.length) none

@[simp] theorem resized_length (cells : List (Option α)) (n : ℕ) :
    (resized cells n).length = n := by
  simp only [resized, List.length_append, List.length_take, List.length_replicate]
  omega

theorem resized_take {cells : List (Option α)} {m n : ℕ} (hm : m ≤ cells.length) (hn : m ≤ n) :
    (resized cells n).take m = cells.take m := by
  rw [resized, List.take_append_of_le_length (by rw [List.length_take]; omega), List.take_take]
  congr 1
  omega

theorem resized_getElem? {cells : List (Option α)} {n i : ℕ} (hi : i < cells.length) (hn : i < n) :
    (resized cells n)[i]? = cells[i]? := by
  rw [resized, List.getElem?_append_left (by rw [List.length_take]; omega),
    List.getElem?_take_of_lt hn]

/-- Resizing neither makes up nor changes an initialised cell. -/
theorem resized_getElem?_join {cells : List (Option α)} {n i : ℕ} (hn : i < n) :
    ((resized cells n)[i]?).join = (cells[i]?).join := by
  by_cases hi : i < cells.length
  · rw [resized_getElem? hi hn]
  · rw [resized, List.getElem?_append_right (by rw [List.length_take]; omega),
      List.getElem?_replicate, List.getElem?_eq_none (Nat.le_of_not_lt hi)]
    split_ifs <;> rfl

/-- `realloc(p, bytes)`; the null pointer is `none`. -/
def realloc (mem : Allocator) (p : Option (Block α)) (bytes : ℕ) : Option (Block α) :=
  if bytes = 0 then
    match p with
    | none => some Block.empty
    | some _ => none
  else if h : bytes < 2 ^ 63 ∧ mem.grants bytes = true then
    some ⟨resized ((p.map Block.cells).getD []) (bytes / 8), by rw [resized_length]; omega⟩
  else none

/-- `vj_calloc`: every cell is cleared to the value `zero`, and a request for zero bytes is refused. -/
def calloc (mem : Allocator) (zero : α) (bytes : ℕ) : Option (Block α) :=
  if h : 0 < bytes ∧ bytes < 2 ^ 63 ∧ mem.grants bytes = true then
    some ⟨List.replicate (bytes / 8) (some zero), by rw [List.length_replicate]; omega⟩
  else none

/-- A request for `n` cells is served. -/
def Serves (mem : Allocator) (n : ℕ) : Prop := n * 8 < 2 ^ 63 ∧ mem.grants (n * 8) = true

instance (mem : Allocator) (n : ℕ) : Decidable (mem.Serves n) :=
  inferInstanceAs (Decidable (_ ∧ _))

theorem realloc_of_serves {mem : Allocator} {p : Option (Block α)} {n : ℕ} (hpos : 0 < n)
    (h : mem.Serves n) :
    ∃ b, mem.realloc p (n * 8) = some b ∧ b.cells = resized ((p.map Block.cells).getD []) n := by
  have hbytes : n * 8 ≠ 0 := by omega
  have hgrant : n * 8 < 2 ^ 63 ∧ mem.grants (n * 8) = true := h
  unfold realloc
  rw [if_neg hbytes, dif_pos hgrant]
  refine ⟨_, rfl, ?_⟩
  show resized _ (n * 8 / 8) = _
  rw [Nat.mul_div_cancel n (by norm_num)]

/-- What a granted resize gives, whatever was asked for. -/
theorem realloc_eq_some {mem : Allocator} {p : Option (Block α)} {bytes : ℕ} {b : Block α}
    (h : mem.realloc p bytes = some b) :
    b.cells = resized ((p.map Block.cells).getD []) (bytes / 8) := by
  unfold realloc at h
  split_ifs at h with hzero hgrant
  · cases p with
    | none =>
      obtain rfl := Option.some.inj h
      rw [hzero]
      rfl
    | some old => cases h
  · obtain rfl := Option.some.inj h
    rfl

theorem realloc_of_refused {mem : Allocator} {p : Option (Block α)} {n : ℕ} (hpos : 0 < n)
    (h : ¬ mem.Serves n) : mem.realloc p (n * 8) = none := by
  have hbytes : n * 8 ≠ 0 := by omega
  have hgrant : ¬(n * 8 < 2 ^ 63 ∧ mem.grants (n * 8) = true) := h
  unfold realloc
  rw [if_neg hbytes, dif_neg hgrant]

theorem calloc_cases (mem : Allocator) (zero : α) (n : ℕ) :
    mem.calloc zero (n * 8) = none ∨
    ∃ b, mem.calloc zero (n * 8) = some b ∧ b.cells = List.replicate n (some zero) := by
  unfold calloc
  split_ifs with h
  · refine Or.inr ⟨_, rfl, ?_⟩
    show List.replicate (n * 8 / 8) (some zero) = _
    rw [Nat.mul_div_cancel n (by norm_num)]
  · exact Or.inl rfl

end Allocator

end CLib
