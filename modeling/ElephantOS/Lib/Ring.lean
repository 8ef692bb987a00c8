import Mathlib.Data.List.Basic
import Mathlib.Data.Nat.ModEq
import Mathlib.Tactic.Common

/-!
# Ring buffers

A buffer of `n` cells with two indices that wrap at `n`; one cell stays unused, so that equal indices
mean an empty buffer.

* `Ring.Rep n buf head tail xs` : the buffer holds the sequence `xs`, its first element at `tail`, the
  next free cell at `head`;
* `Rep.push`, `Rep.pop` : writing at `head` and advancing it appends; reading at `tail` and advancing it
  takes the first element;
* `Rep.empty_iff`, `Rep.full_iff` : what the two comparisons of the indices say of the length.
-/

namespace Ring
variable {α : Type*} {n : Nat} {buf : Nat → α} {head tail : Nat} {xs : List α}

structure Rep (n : Nat) (buf : Nat → α) (head tail : Nat) (xs : List α) : Prop where
  tail_lt : tail < n
  room : xs.length < n
  head_eq : head = (tail + xs.length) % n
  cell : ∀ i (h : i < xs.length), buf ((tail + i) % n) = xs[i]

theorem rep_nil (hn : 0 < n) (buf : Nat → α) : Rep n buf 0 0 [] where
  tail_lt := hn
  room := hn
  head_eq := by simp
  cell := by
    intro i h
    simp at h

theorem Rep.head_lt (h : Rep n buf head tail xs) : head < n := by
  rw [h.head_eq]
  exact Nat.mod_lt _ (Nat.zero_lt_of_lt h.tail_lt)

/-- Distances below `n` from the same cell lead to different cells. -/
theorem offset_inj {i j : Nat} (hi : i < n) (hj : j < n) (h : (tail + i) % n = (tail + j) % n) : i = j := by
  have hmod : i % n = j % n := Nat.ModEq.add_left_cancel' tail h
  rwa [Nat.mod_eq_of_lt hi, Nat.mod_eq_of_lt hj] at hmod

theorem Rep.empty_iff (h : Rep n buf head tail xs) : head = tail ↔ xs.length = 0 := by
  have htail : tail = (tail + 0) % n := by rw [Nat.add_zero, Nat.mod_eq_of_lt h.tail_lt]
  constructor
  · intro he
    apply offset_inj h.room (Nat.zero_lt_of_lt h.tail_lt)
    rw [← h.head_eq, he]
    exact htail
  · intro hl
    rw [h.head_eq, hl]
    exact htail.symm

/-- The index after `head` is `tail` exactly when `n - 1` elements are stored. -/
theorem Rep.full_iff (h : Rep n buf head tail xs) : (head + 1) % n = tail ↔ xs.length = n - 1 := by
  have hroom := h.room
  have hnext : (head + 1) % n = (tail + (xs.length + 1)) % n := by
    rw [h.head_eq, Nat.mod_add_mod, Nat.add_assoc]
  constructor
  · intro hf
    by_contra hne
    have hlt : xs.length + 1 < n := by omega
    have hzero : (tail + (xs.length + 1)) % n = (tail + 0) % n := by
      rw [← hnext, hf, Nat.add_zero, Nat.mod_eq_of_lt h.tail_lt]
    have := offset_inj hlt (by omega) hzero
    omega
  · intro hl
    have hwrap : tail + (xs.length + 1) = tail + n := by omega
    rw [hnext, hwrap, Nat.add_mod_right, Nat.mod_eq_of_lt h.tail_lt]

theorem Rep.push (h : Rep n buf head tail xs) (hf : xs.length ≠ n - 1) (a : α) :
    Rep n (Function.update buf head a) ((head + 1) % n) tail (xs ++ [a]) := by
  have hroom := h.room
  refine ⟨h.tail_lt, ?_, ?_, ?_⟩
  · rw [List.length_append, List.length_singleton]
    omega
  · rw [h.head_eq, Nat.mod_add_mod, List.length_append, List.length_singleton, Nat.add_assoc]
  · intro i hi
    rw [List.length_append, List.length_singleton] at hi
    by_cases hlast : i = xs.length
    · subst hlast
      rw [← h.head_eq, Function.update_self, List.getElem_concat_length]
      rfl
    · have hlt : i < xs.length := by omega
      have hne : (tail + i) % n ≠ head := by
        intro he
        rw [h.head_eq] at he
        exact hlast (offset_inj (by omega) hroom he)
      rw [Function.update_of_ne hne, h.cell i hlt, List.getElem_append_left hlt]

/-- The first element stands at `tail`, and is out of the buffer once `tail` has moved on. -/
theorem Rep.pop {a : α} (h : Rep n buf head tail (a :: xs)) :
    buf tail = a ∧ Rep n buf head ((tail + 1) % n) xs := by
  have hroom := h.room
  rw [List.length_cons] at hroom
  refine ⟨?_, Nat.mod_lt _ (by omega), by omega, ?_, ?_⟩
  · have hcell := h.cell 0 (by simp)
    rwa [Nat.add_zero, Nat.mod_eq_of_lt h.tail_lt] at hcell
  · rw [h.head_eq, Nat.mod_add_mod, List.length_cons, Nat.add_assoc, Nat.add_comm 1]
  · intro i hi
    have hcell := h.cell (i + 1) (by simpa using hi)
    rw [Nat.mod_add_mod, Nat.add_assoc, Nat.add_comm 1, hcell]
    rfl

end Ring
