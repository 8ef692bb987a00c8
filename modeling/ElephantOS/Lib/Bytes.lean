import Mathlib.Algebra.Group.Nat.Defs
import Mathlib.Tactic.Common
import Mathlib.Tactic.IntervalCases

/-!
# A flat memory of bytes

32-bit addresses, little-endian 32-bit words at any address (also one that wraps around the end).

* `load`, `store` : a word; `load_store` : what was stored is there;
* `Apart a b` : the words at `a` and `b` have no byte in common; `load_store_apart`;
* `Stack m sp ws` : the words `ws` stand on the stack, the top first; `Stack.push`;
* `write m a bs` : the bytes `bs` from address `a` on; `byteAt_write`, `write_of_le`, `write_append`;
* `byteAt_write_off`, `byteAt_store_off` : both by offsets from one address; `load_of_byteAt`.
-/

namespace Bytes

abbrev Word := BitVec 32

abbrev Mem := Word → BitVec 8

def load (m : Mem) (a : Word) : Word :=
  BitVec.ofNat 32 ((m a).toNat + 2 ^ 8 * (m (a + 1)).toNat + 2 ^ 16 * (m (a + 2)).toNat + 2 ^ 24 * (m (a + 3)).toNat)

def store (m : Mem) (a v : Word) : Mem :=
  fun b => if (b - a).toNat < 4 then BitVec.ofNat 8 (v.toNat / 2 ^ (8 * (b - a).toNat)) else m b

theorem store_apply (m : Mem) (a v b : Word) :
    store m a v b = if (b - a).toNat < 4 then BitVec.ofNat 8 (v.toNat / 2 ^ (8 * (b - a).toNat)) else m b := rfl

theorem store_of_le {m : Mem} {a v b : Word} (h : 4 ≤ (b - a).toNat) : store m a v b = m b := by
  rw [store_apply, if_neg (by omega)]

/-- No byte of the word at `a` is one of the word at `b`. -/
def Apart (a b : Word) : Prop := 4 ≤ (a - b).toNat ∧ 4 ≤ (b - a).toNat

theorem apart_of_le {a b : Word} (h : a.toNat + 4 ≤ b.toNat) (hb : b.toNat + 4 ≤ 2 ^ 32) : Apart a b := by
  unfold Apart
  bv_omega

theorem Apart.symm {a b : Word} (h : Apart a b) : Apart b a := ⟨h.2, h.1⟩

theorem store_of_lt {m : Mem} {a v b : Word} (h : b.toNat < a.toNat ∨ a.toNat + 4 ≤ b.toNat)
    (ha : a.toNat + 4 ≤ 2 ^ 32) : store m a v b = m b := by
  apply store_of_le
  bv_omega

theorem load_congr {m m' : Mem} {a : Word} (h : ∀ b, (b - a).toNat < 4 → m' b = m b) : load m' a = load m a := by
  unfold load
  rw [h a (by simp), h (a + 1) (by bv_omega), h (a + 2) (by bv_omega), h (a + 3) (by bv_omega)]

@[simp] theorem load_store (m : Mem) (a v : Word) : load (store m a v) a = v := by
  have h0 : (a - a).toNat = 0 := by bv_omega
  have h1 : (a + 1 - a).toNat = 1 := by bv_omega
  have h2 : (a + 2 - a).toNat = 2 := by bv_omega
  have h3 : (a + 3 - a).toNat = 3 := by bv_omega
  apply BitVec.eq_of_toNat_eq
  have hv := v.isLt
  simp only [load, store_apply, h0, h1, h2, h3, BitVec.toNat_ofNat]
  simp only [Nat.reduceLT, if_true, BitVec.toNat_ofNat, Nat.reduceMul, Nat.reducePow]
  omega

theorem load_store_apart {m : Mem} {a b v : Word} (h : Apart a b) : load (store m b v) a = load m a := by
  apply load_congr
  intro c hc
  apply store_of_le
  obtain ⟨hab, hba⟩ := h
  bv_omega

/-! ## Stacks -/

def Stack (m : Mem) : Word → List Word → Prop
  | _, [] => True
  | sp, w :: ws => load m sp = w ∧ Stack m (sp + 4) ws

/-- A store below the stack leaves it. -/
theorem Stack.store {m : Mem} {ws : List Word} {sp a v : Word} {d : Nat} (h : Stack m sp ws) (hd : (sp - a).toNat = d)
    (h4 : 4 ≤ d) (hlen : d + 4 * ws.length < 2 ^ 32) : Stack (store m a v) sp ws := by
  induction ws generalizing sp d with
  | nil => trivial
  | cons w ws ih =>
    obtain ⟨hw, hws⟩ := h
    rw [List.length_cons] at hlen
    constructor
    · have hap : Apart sp a := by
        unfold Apart
        bv_omega
      rw [load_store_apart hap, hw]
    · exact ih hws (d := d + 4) (by bv_omega) (by omega) (by omega)

theorem Stack.push {m : Mem} {ws : List Word} {sp : Word} (h : Stack m sp ws) (w : Word)
    (hlen : 4 * ws.length < 2 ^ 32 - 4) : Stack (Bytes.store m (sp - 4) w) (sp - 4) (w :: ws) := by
  refine ⟨load_store m (sp - 4) w, ?_⟩
  have hsp : sp - 4 + 4 = sp := by bv_omega
  rw [hsp]
  exact h.store (d := 4) (by bv_omega) (Nat.le_refl 4) (by omega)

theorem Stack.get {m : Mem} {ws : List Word} {sp : Word} (h : Stack m sp ws) {k : Nat} (hk : k < ws.length) :
    load m (sp + BitVec.ofNat 32 (4 * k)) = ws[k] := by
  induction ws generalizing sp k with
  | nil => cases hk
  | cons w ws ih =>
    cases k with
    | zero =>
      rw [Nat.mul_zero, show sp + BitVec.ofNat 32 0 = sp from BitVec.add_zero sp]
      exact h.1
    | succ k =>
      rw [List.length_cons] at hk
      have hsp : sp + BitVec.ofNat 32 (4 * (k + 1)) = sp + 4 + BitVec.ofNat 32 (4 * k) := by
        rw [Nat.mul_add, Nat.add_comm, BitVec.ofNat_add, BitVec.add_assoc]
        rfl
      rw [hsp]
      exact ih h.2 (by omega)

theorem stack_of_load {m : Mem} {ws : List Word} {sp : Word}
    (h : ∀ k (hk : k < ws.length), load m (sp + BitVec.ofNat 32 (4 * k)) = ws[k]) : Stack m sp ws := by
  induction ws generalizing sp with
  | nil => trivial
  | cons w ws ih =>
    constructor
    · have h0 := h 0 (Nat.zero_lt_succ _)
      rwa [Nat.mul_zero, show sp + BitVec.ofNat 32 0 = sp from BitVec.add_zero sp] at h0
    · apply ih
      intro k hk
      have hsp : sp + 4 + BitVec.ofNat 32 (4 * k) = sp + BitVec.ofNat 32 (4 * (k + 1)) := by
        rw [Nat.mul_add, Nat.add_comm (4 * k), BitVec.ofNat_add, BitVec.add_assoc]
        rfl
      rw [hsp]
      exact h (k + 1) (Nat.succ_lt_succ hk)

/-- A stack depends on its words only. -/
theorem Stack.congr {m m' : Mem} {ws : List Word} {sp : Word} (h : Stack m sp ws)
    (hm : ∀ k < ws.length, load m' (sp + BitVec.ofNat 32 (4 * k)) = load m (sp + BitVec.ofNat 32 (4 * k))) :
    Stack m' sp ws := by
  apply stack_of_load
  intro k hk
  rw [hm k hk, h.get hk]

/-- Two words at multiples of 4 from `a`. -/
theorem load_store_off (m : Mem) (a v : Word) {i j : Nat} (hi : i < 2 ^ 29) (hj : j < 2 ^ 29) :
    load (store m (a + BitVec.ofNat 32 (4 * i)) v) (a + BitVec.ofNat 32 (4 * j)) =
      if j = i then v else load m (a + BitVec.ofNat 32 (4 * j)) := by
  by_cases h : j = i
  · rw [if_pos h, h, load_store]
  · rw [if_neg h]
    apply load_store_apart
    unfold Apart
    bv_omega

/-- A store to word `k` of a stack. -/
theorem Stack.set {m : Mem} {ws : List Word} {sp v : Word} {k : Nat} (h : Stack m sp ws) (hlen : ws.length < 2 ^ 29)
    (hk : k < ws.length) : Stack (Bytes.store m (sp + BitVec.ofNat 32 (4 * k)) v) sp (ws.set k v) := by
  apply stack_of_load
  intro j hj
  rw [List.length_set] at hj
  rw [load_store_off m sp v (by omega) (by omega), List.getElem_set, h.get hj]
  by_cases hjk : j = k
  · rw [if_pos hjk, if_pos hjk.symm]
  · rw [if_neg hjk, if_neg (Ne.symm hjk)]

/-! ## Ranges of bytes -/

/-- Byte `i` of what stands at `a`. -/
def byteAt (m : Mem) (a : Word) (i : Nat) : BitVec 8 := m (a + BitVec.ofNat 32 i)

def write (m : Mem) (a : Word) (bs : List (BitVec 8)) : Mem := fun b => bs[(b - a).toNat]?.getD (m b)

theorem add_ofNat_succ (a : Word) (i : Nat) : a + BitVec.ofNat 32 (i + 1) = a + 1 + BitVec.ofNat 32 i := by
  rw [Nat.add_comm i 1, BitVec.ofNat_add, ← BitVec.add_assoc]
  rfl

theorem sub_ofNat (a : Word) {i : Nat} (hi : i < 2 ^ 32) : (a + BitVec.ofNat 32 i - a).toNat = i := by
  bv_omega

theorem byteAt_write {m : Mem} {a : Word} {bs : List (BitVec 8)} {i : Nat} (hi : i < bs.length)
    (hlen : bs.length ≤ 2 ^ 32) : byteAt (write m a bs) a i = bs[i] := by
  unfold byteAt write
  rw [sub_ofNat a (by omega), List.getElem?_eq_getElem hi]
  rfl

theorem write_of_le {m : Mem} {a b : Word} {bs : List (BitVec 8)} (h : bs.length ≤ (b - a).toNat) :
    write m a bs b = m b := by
  unfold write
  rw [List.getElem?_eq_none h]
  rfl

theorem write_congr {m m' : Mem} {b : Word} (h : m' b = m b) (a : Word) (bs : List (BitVec 8)) :
    write m' a bs b = write m a bs b := by
  unfold write
  rw [h]

theorem write_nil (m : Mem) (a : Word) : write m a [] = m := rfl

/-- Bytes written after those that were. -/
theorem write_append (m : Mem) (a : Word) {bs cs : List (BitVec 8)} (hlen : bs.length + cs.length ≤ 2 ^ 32) :
    write (write m a bs) (a + BitVec.ofNat 32 bs.length) cs = write m a (bs ++ cs) := by
  funext b
  unfold write
  by_cases hcs : cs.length = 0
  · rw [List.eq_nil_of_length_eq_zero hcs]
    simp
  by_cases hb : (b - a).toNat < bs.length
  · have hout : cs.length ≤ (b - (a + BitVec.ofNat 32 bs.length)).toNat := by bv_omega
    rw [List.getElem?_eq_none hout, List.getElem?_append_left hb]
    rfl
  · have hsub : (b - (a + BitVec.ofNat 32 bs.length)).toNat = (b - a).toNat - bs.length := by bv_omega
    rw [hsub, List.getElem?_append_right (by omega), List.getElem?_eq_none (l := bs) (by omega)]
    rfl

/-! ## Bytes by their offset from an address -/

theorem sub_off (p : Word) {o k : Nat} (ho : o < 2 ^ 32) (hk : k < 2 ^ 32) :
    (p + BitVec.ofNat 32 k - (p + BitVec.ofNat 32 o)).toNat = if o ≤ k then k - o else 2 ^ 32 + k - o := by
  have h : p + BitVec.ofNat 32 k - (p + BitVec.ofNat 32 o) = BitVec.ofNat 32 k - BitVec.ofNat 32 o := by bv_omega
  rw [h, BitVec.toNat_sub, BitVec.toNat_ofNat, BitVec.toNat_ofNat]
  split_ifs
  · omega
  · omega

theorem byteAt_write_off (m : Mem) (p : Word) {o k : Nat} {bs : List (BitVec 8)} (ho : o + bs.length ≤ 2 ^ 32)
    (hk : k < 2 ^ 32) : byteAt (write m (p + BitVec.ofNat 32 o) bs) p k =
      if o ≤ k ∧ k < o + bs.length then bs[k - o]?.getD 0 else byteAt m p k := by
  unfold byteAt
  by_cases hin : o ≤ k ∧ k < o + bs.length
  · rw [if_pos hin, write, sub_off p (by omega) hk, if_pos hin.1, List.getElem?_eq_getElem (by omega)]
    rfl
  · rw [if_neg hin]
    apply write_of_le
    by_cases hlen : o = 2 ^ 32
    · omega
    · rw [sub_off p (by omega) hk]
      split_ifs
      · omega
      · omega

/-- Byte `j` of a word in memory. -/
def wordByte (v : Word) (j : Nat) : BitVec 8 := BitVec.ofNat 8 (v.toNat / 2 ^ (8 * j))

theorem byteAt_store_off (m : Mem) (p v : Word) {o k : Nat} (ho : o + 4 ≤ 2 ^ 32) (hk : k < 2 ^ 32) :
    byteAt (store m (p + BitVec.ofNat 32 o) v) p k =
      if o ≤ k ∧ k < o + 4 then wordByte v (k - o) else byteAt m p k := by
  unfold byteAt
  rw [store_apply, sub_off p (by omega) hk]
  by_cases hin : o ≤ k ∧ k < o + 4
  · rw [if_pos hin.1, if_pos (by omega), if_pos hin]
    rfl
  · rw [if_neg hin]
    by_cases hle : o ≤ k
    · rw [if_pos hle, if_neg (by omega)]
    · rw [if_neg hle, if_neg (by omega)]

theorem byteAt_of_load {m : Mem} {a v : Word} (h : load m a = v) {j : Nat} (hj : j < 4) :
    byteAt m a j = wordByte v j := by
  have h0 := (m a).isLt
  have h1 := (m (a + 1)).isLt
  have h2 := (m (a + 2)).isLt
  have h3 := (m (a + 3)).isLt
  rw [← h]
  apply BitVec.eq_of_toNat_eq
  unfold byteAt wordByte load
  rw [BitVec.toNat_ofNat, BitVec.toNat_ofNat]
  interval_cases j
  · rw [show a + BitVec.ofNat 32 0 = a from BitVec.add_zero a]
    omega
  · rw [show a + BitVec.ofNat 32 1 = a + 1 from rfl]
    omega
  · rw [show a + BitVec.ofNat 32 2 = a + 2 from rfl]
    omega
  · rw [show a + BitVec.ofNat 32 3 = a + 3 from rfl]
    omega

/-- The word whose bytes stand at offset `o`. -/
theorem load_of_byteAt {m : Mem} {p v : Word} {o : Nat} (ho : o + 4 ≤ 2 ^ 32)
    (h : ∀ j < 4, byteAt m p (o + j) = wordByte v j) : load m (p + BitVec.ofNat 32 o) = v := by
  rw [← load_store m (p + BitVec.ofNat 32 o) v]
  apply load_congr
  intro b hb
  obtain ⟨j, rfl, hj⟩ : ∃ j, b = p + BitVec.ofNat 32 (o + j) ∧ j < 4 := by
    refine ⟨(b - (p + BitVec.ofNat 32 o)).toNat, ?_, hb⟩
    rw [BitVec.ofNat_add, BitVec.ofNat_toNat, BitVec.setWidth_eq, ← BitVec.add_assoc, BitVec.add_comm,
      BitVec.sub_add_cancel]
  have hstore := byteAt_store_off m p v ho (show o + j < 2 ^ 32 by omega)
  rw [if_pos (by omega), Nat.add_sub_cancel_left, ← h j hj] at hstore
  exact hstore.symm

end Bytes
