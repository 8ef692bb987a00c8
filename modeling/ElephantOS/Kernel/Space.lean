import ElephantOS.Lib.Links

/-!
# The data words of an address space

Words by virtual address (a multiple of 4): those of the user half belong to one process, those from
0xC0000000 on to the kernel and so to every address space. Page tables and bitmaps are kept apart
(`Ram`, `Bytes`).

* `Space.read`, `Space.write`, `Space.clear` : accesses, and `memset` to 0;
* a list node at `a` has `prev` at `a` and `next` at `a + 4`, so two nodes are apart when neither word of
  one is a word of the other.
-/

namespace ElephantOS

structure Space where
  user : Nat → Nat
  kern : Nat → Nat

namespace Space

def read (m : Space) (a : Nat) : Nat := if a < 0xC0000000 then m.user a else m.kern a

def write (m : Space) (a w : Nat) : Space :=
  if a < 0xC0000000 then { m with user := fun b => if b = a then w else m.user b }
  else { m with kern := fun b => if b = a then w else m.kern b }

/-- `memset(dst, 0, size)`. -/
def clear (m : Space) (dst size : Nat) : Space where
  user b := if b < 0xC0000000 ∧ dst ≤ b ∧ b < dst + size then 0 else m.user b
  kern b := if 0xC0000000 ≤ b ∧ dst ≤ b ∧ b < dst + size then 0 else m.kern b

/-- The byte at address `a`. -/
def byte (m : Space) (a : Nat) : Nat := m.read (a / 4 * 4) / 256 ^ (a % 4) % 256

/-- A store of one byte. -/
def writeByte (m : Space) (a v : Nat) : Space :=
  m.write (a / 4 * 4) (m.read (a / 4 * 4) - m.byte a * 256 ^ (a % 4) + v % 256 * 256 ^ (a % 4))

theorem read_write (m : Space) (a b w : Nat) : (m.write a w).read b = if b = a then w else m.read b := by
  unfold read write
  by_cases ha : a < 0xC0000000
  · rw [if_pos ha]
    by_cases hb : b < 0xC0000000
    · simp only [if_pos hb]
    · rw [if_neg hb, if_neg hb, if_neg (by omega)]
  · rw [if_neg ha]
    by_cases hb : b < 0xC0000000
    · rw [if_pos hb, if_pos hb, if_neg (by omega)]
    · simp only [if_neg hb]

@[simp] theorem read_write_self (m : Space) (a w : Nat) : (m.write a w).read a = w := by
  rw [read_write, if_pos rfl]

theorem read_write_ne (m : Space) {a b : Nat} (w : Nat) (h : b ≠ a) : (m.write a w).read b = m.read b := by
  rw [read_write, if_neg h]

theorem read_clear (m : Space) (dst size b : Nat) :
    (m.clear dst size).read b = if dst ≤ b ∧ b < dst + size then 0 else m.read b := by
  unfold read clear
  by_cases hb : b < 0xC0000000
  · simp only [hb, if_true, true_and]
  · simp only [hb, if_false, Nat.le_of_not_lt hb, true_and]

theorem read_clear_of_mem {m : Space} {dst size b : Nat} (h1 : dst ≤ b) (h2 : b < dst + size) :
    (m.clear dst size).read b = 0 := by
  rw [read_clear, if_pos ⟨h1, h2⟩]

theorem read_clear_of_notMem {m : Space} {dst size b : Nat} (h : b < dst ∨ dst + size ≤ b) :
    (m.clear dst size).read b = m.read b := by
  rw [read_clear, if_neg (by omega)]

theorem clear_zero (m : Space) (dst : Nat) : m.clear dst 0 = m := by
  have hempty : ∀ b, ¬ (dst ≤ b ∧ b < dst + 0) := fun b h => by omega
  simp only [clear, hempty, and_false, if_false]

theorem clear_clear (m : Space) (dst a b : Nat) : (m.clear dst a).clear (dst + a) b = m.clear dst (a + b) := by
  unfold clear
  congr 1 <;> funext c <;> dsimp only
  · by_cases h1 : c < 0xC0000000 ∧ dst + a ≤ c ∧ c < dst + a + b
    · rw [if_pos h1, if_pos (by omega)]
    · rw [if_neg h1]
      by_cases h2 : c < 0xC0000000 ∧ dst ≤ c ∧ c < dst + a
      · rw [if_pos h2, if_pos (by omega)]
      · rw [if_neg h2, if_neg (by omega)]
  · by_cases h1 : 0xC0000000 ≤ c ∧ dst + a ≤ c ∧ c < dst + a + b
    · rw [if_pos h1, if_pos (by omega)]
    · rw [if_neg h1]
      by_cases h2 : 0xC0000000 ≤ c ∧ dst ≤ c ∧ c < dst + a
      · rw [if_pos h2, if_pos (by omega)]
      · rw [if_neg h2, if_neg (by omega)]

instance : LinkMem Space Nat where
  null := 0
  prev m a := m.read a
  next m a := m.read (a + 4)
  setPrev m a v := m.write a v
  setNext m a v := m.write (a + 4) v
  Apart a b := a ≠ b ∧ a + 4 ≠ b ∧ b + 4 ≠ a
  apart_symm h := ⟨h.1.symm, h.2.2, h.2.1⟩
  apart_ne h := h.1
  prev_setPrev_self m a v := read_write_self m a v
  next_setPrev_self m a v := read_write_ne m v (by omega)
  next_setNext_self m a v := read_write_self m (a + 4) v
  prev_setNext_self m a v := read_write_ne m v (by omega)
  prev_setPrev m _ _ v h := read_write_ne m v h.1.symm
  next_setPrev m _ _ v h := read_write_ne m v h.2.2
  prev_setNext m _ _ v h := read_write_ne m v h.2.1.symm
  next_setNext m _ _ v h := read_write_ne m v (by omega)

/-- The fields of the node at `a` are its two words. -/
theorem agree_iff {m m' : Space} {a : Nat} :
    LinkMem.Agree m m' a ↔ m'.read a = m.read a ∧ m'.read (a + 4) = m.read (a + 4) := Iff.rfl

end Space

end ElephantOS
