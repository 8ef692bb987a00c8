import Mathlib.Tactic.Common
import Mathlib.Tactic.IntervalCases

/-!
# Bitmaps (`lib/kernel/bitmap.c`)

A bitmap is a range of bytes in a larger memory; nothing keeps an index inside the range, so the bits
are those of the memory, numbered from its first byte.

* `bitAt m n` : bit `n` of the memory;
* `bitmapTestBit`, `bitmapSetBit`, `bitmapInit`, `bitmapScan` : the functions of the file. In
  `bitmapScan` the outer `none` is a failed `ASSERT`, the inner one the result -1;
* `bitAt_setBit` : setting a bit changes that bit of the memory only;
* `bitmapScan_some` : a result is the first run of clear bits, and ends at most one bit past the
  bitmap (`BitmapScan` tests one bit too many when it looks for more than one).
-/

namespace ElephantOS

abbrev Bytes := Nat → BitVec 8

/-- `struct bitmap`; `bits` is the place of its first byte. -/
structure Bitmap where
  bytesLen : Nat
  bits : Nat
  deriving DecidableEq, Repr

def bitAt (m : Bytes) (n : Nat) : Bool := (m (n / 8)).getLsbD (n % 8)

/-- The number of a bit of the bitmap among the bits of the memory. -/
def Bitmap.bit (btmp : Bitmap) (bitIdx : Nat) : Nat := 8 * btmp.bits + bitIdx

def bitmapInit (m : Bytes) (btmp : Bitmap) : Bytes :=
  fun a => if btmp.bits ≤ a ∧ a < btmp.bits + btmp.bytesLen then 0#8 else m a

def bitmapTestBit (m : Bytes) (btmp : Bitmap) (bitIdx : Nat) : Bool :=
  (m (btmp.bits + bitIdx / 8)).getLsbD (bitIdx % 8)

def bitmapSetBit (m : Bytes) (btmp : Bitmap) (bitIdx : Nat) (value : Bool) : Bytes :=
  let byte := btmp.bits + bitIdx / 8
  let mask := 1#8 <<< (bitIdx % 8)
  fun a => if a = byte then (if value then m byte ||| mask else m byte &&& ~~~mask) else m a

/-- The first loop of `BitmapScan`, with `n` bytes left: skip the bytes that are full. -/
def skipFull (m : Bytes) (bits : Nat) : Nat → Nat → Nat
  | 0, byteIdx => byteIdx
  | n + 1, byteIdx => if m (bits + byteIdx) = 0xFF#8 then skipFull m bits n (byteIdx + 1) else byteIdx

/-- The second loop: the first clear bit of a byte (8 if there is none). -/
def firstClear (byte : BitVec 8) : Nat → Nat → Nat
  | 0, bitIdx => bitIdx
  | n + 1, bitIdx => if byte.getLsbD bitIdx then firstClear byte n (bitIdx + 1) else bitIdx

/-- The last loop, with `bitsLeft` passes left. -/
def scanRun (m : Bytes) (btmp : Bitmap) (cnt : Nat) : Nat → Nat → Nat → Option Nat
  | 0, _, _ => none
  | bitsLeft + 1, nextBit, avlBitsCount =>
    let avlBitsCount := if bitmapTestBit m btmp nextBit then 0 else avlBitsCount + 1
    if avlBitsCount = cnt then some (nextBit + 1 - cnt)
    else scanRun m btmp cnt bitsLeft (nextBit + 1) avlBitsCount

def bitmapScan (debug : Bool) (m : Bytes) (btmp : Bitmap) (cnt : Nat) : Option (Option Nat) :=
  let byteIdx := skipFull m btmp.bits btmp.bytesLen 0
  if btmp.bytesLen ≤ byteIdx then if debug then none else some none
  else
    let bitIdxStart := byteIdx * 8 + firstClear (m (btmp.bits + byteIdx)) 8 0
    if cnt = 1 then some (some bitIdxStart)
    else some (scanRun m btmp cnt (btmp.bytesLen * 8 - bitIdxStart) (bitIdxStart + 1) 1)

/-! ## Bits -/

theorem bitmapTestBit_eq (m : Bytes) (btmp : Bitmap) (i : Nat) :
    bitmapTestBit m btmp i = bitAt m (btmp.bit i) := by
  unfold bitmapTestBit bitAt Bitmap.bit
  rw [show (8 * btmp.bits + i) / 8 = btmp.bits + i / 8 by omega,
    show (8 * btmp.bits + i) % 8 = i % 8 by omega]

/-- `BITMAP_MASK << bit_order`. -/
theorem getLsbD_mask {j k : Nat} (hj : j < 8) : (1#8 <<< k).getLsbD j = decide (j = k) := by
  rw [BitVec.getLsbD_shiftLeft, BitVec.getLsbD_one]
  simp only [hj, decide_true, Bool.true_and]
  by_cases hjk : j = k
  · simp [hjk]
  · simp only [hjk, decide_false, Bool.and_eq_false_iff, Bool.not_eq_false', decide_eq_true_eq,
      decide_eq_false_iff_not]
    omega

/-- `BitmapSetBit` changes one bit of the memory. -/
theorem bitAt_setBit (m : Bytes) (btmp : Bitmap) (i n : Nat) (value : Bool) :
    bitAt (bitmapSetBit m btmp i value) n = if n = btmp.bit i then value else bitAt m n := by
  unfold bitAt bitmapSetBit Bitmap.bit
  by_cases hbyte : n / 8 = btmp.bits + i / 8
  · have hlt : n % 8 < 8 := Nat.mod_lt _ (by decide)
    have hiff : n = 8 * btmp.bits + i ↔ n % 8 = i % 8 := by omega
    simp only [hbyte, if_true, hiff]
    cases value
    · simp only [Bool.false_eq_true, if_false, BitVec.getLsbD_and, BitVec.getLsbD_not, getLsbD_mask hlt, hlt,
        decide_true, Bool.true_and]
      by_cases hbit : n % 8 = i % 8
      · simp [hbit]
      · simp [hbit]
    · simp only [if_true, BitVec.getLsbD_or, getLsbD_mask hlt]
      by_cases hbit : n % 8 = i % 8
      · simp [hbit]
      · simp [hbit]
  · have hne : n ≠ 8 * btmp.bits + i := by omega
    rw [if_neg hbyte, if_neg hne]

theorem bitAt_init (m : Bytes) (btmp : Bitmap) (n : Nat) :
    bitAt (bitmapInit m btmp) n =
      if 8 * btmp.bits ≤ n ∧ n < 8 * (btmp.bits + btmp.bytesLen) then false else bitAt m n := by
  unfold bitAt bitmapInit
  by_cases h : btmp.bits ≤ n / 8 ∧ n / 8 < btmp.bits + btmp.bytesLen
  · rw [if_pos h, if_pos (by omega)]
    simp
  · rw [if_neg h, if_neg (by omega)]

/-! ## The scan -/

/-- The `n` bits from `r` on are clear. -/
def Clear (m : Bytes) (btmp : Bitmap) (r n : Nat) : Prop := ∀ k < n, bitAt m (btmp.bit (r + k)) = false

/-- A loop that counts up from `i`, at most `n` times, while `P`. -/
theorem scan_spec {P : Nat → Prop} [DecidablePred P] {f : Nat → Nat → Nat} (hzero : ∀ i, f 0 i = i)
    (hsucc : ∀ n i, f (n + 1) i = if P i then f n (i + 1) else i) (n i : Nat) :
    i ≤ f n i ∧ f n i ≤ i + n ∧ (∀ k, i ≤ k → k < f n i → P k) ∧ (f n i < i + n → ¬ P (f n i)) := by
  induction n generalizing i with
  | zero =>
    rw [hzero]
    exact ⟨Nat.le_refl i, Nat.le_refl i, fun k h1 h2 => absurd h2 (by omega), fun h => absurd h (by omega)⟩
  | succ n ih =>
    rw [hsucc]
    by_cases h : P i
    · rw [if_pos h]
      obtain ⟨h1, h2, h3, h4⟩ := ih (i + 1)
      refine ⟨by omega, by omega, fun k hk hlt => ?_, fun hlt => h4 (by omega)⟩
      by_cases hki : k = i
      · exact hki ▸ h
      · exact h3 k (by omega) hlt
    · rw [if_neg h]
      exact ⟨Nat.le_refl i, by omega, fun k h1 h2 => absurd h2 (by omega), fun _ => h⟩

theorem skipFull_spec (m : Bytes) (bits n i : Nat) :
    i ≤ skipFull m bits n i ∧ skipFull m bits n i ≤ i + n ∧
      (∀ k, i ≤ k → k < skipFull m bits n i → m (bits + k) = 0xFF#8) ∧
      (skipFull m bits n i < i + n → m (bits + skipFull m bits n i) ≠ 0xFF#8) :=
  scan_spec (P := fun k => m (bits + k) = 0xFF#8) (fun _ => rfl) (fun _ _ => rfl) n i

theorem firstClear_spec (byte : BitVec 8) (n i : Nat) :
    i ≤ firstClear byte n i ∧ firstClear byte n i ≤ i + n ∧
      (∀ k, i ≤ k → k < firstClear byte n i → byte.getLsbD k = true) ∧
      (firstClear byte n i < i + n → byte.getLsbD (firstClear byte n i) = false) := by
  have h := scan_spec (P := fun k => byte.getLsbD k = true) (f := firstClear byte) (fun _ => rfl) (fun _ _ => rfl) n i
  simpa only [Bool.not_eq_true] using h

/-- A byte that is not full has a clear bit. -/
theorem firstClear_lt {byte : BitVec 8} (h : byte ≠ 0xFF#8) : firstClear byte 8 0 < 8 := by
  obtain ⟨-, hle, hset, -⟩ := firstClear_spec byte 8 0
  rcases Nat.lt_or_ge (firstClear byte 8 0) 8 with hlt | hge
  · exact hlt
  · refine absurd (BitVec.eq_of_getLsbD_eq fun i hi => ?_) h
    rw [hset i (Nat.zero_le i) (by omega)]
    revert i
    decide

/-- Where the search for a run starts: at the first clear bit of the bitmap. -/
theorem scanStart_spec {m : Bytes} {btmp : Bitmap} {byteIdx start : Nat}
    (hb : skipFull m btmp.bits btmp.bytesLen 0 = byteIdx) (hlt : byteIdx < btmp.bytesLen)
    (hs : start = byteIdx * 8 + firstClear (m (btmp.bits + byteIdx)) 8 0) :
    start < 8 * btmp.bytesLen ∧ bitAt m (btmp.bit start) = false ∧
      ∀ i < start, bitAt m (btmp.bit i) = true := by
  obtain ⟨-, -, hfull, hnot⟩ := skipFull_spec m btmp.bits btmp.bytesLen 0
  rw [hb] at hfull hnot
  have hne := hnot (by omega)
  have hc := firstClear_lt hne
  obtain ⟨-, -, hset, hclear⟩ := firstClear_spec (m (btmp.bits + byteIdx)) 8 0
  have hbyte : ∀ i, (btmp.bits * 8 + i) / 8 = btmp.bits + i / 8 := fun i => by omega
  refine ⟨by omega, ?_, fun i hi => ?_⟩
  · rw [← bitmapTestBit_eq, bitmapTestBit, hs,
      show (byteIdx * 8 + firstClear (m (btmp.bits + byteIdx)) 8 0) / 8 = byteIdx by omega,
      show (byteIdx * 8 + firstClear (m (btmp.bits + byteIdx)) 8 0) % 8 =
        firstClear (m (btmp.bits + byteIdx)) 8 0 by omega]
    exact hclear (by omega)
  · rw [← bitmapTestBit_eq, bitmapTestBit]
    rcases Nat.lt_or_ge (i / 8) byteIdx with hi8 | hi8
    · rw [hfull (i / 8) (Nat.zero_le _) hi8]
      have : i % 8 < 8 := Nat.mod_lt _ (by decide)
      revert this
      generalize i % 8 = j
      revert j
      decide
    · rw [show i / 8 = byteIdx by omega]
      exact hset (i % 8) (Nat.zero_le _) (by omega)

/-- The state of the last loop of `BitmapScan` at bit `next`: the run that ends there has `avl` bits,
and no earlier run is long enough. -/
structure RunAt (m : Bytes) (btmp : Bitmap) (cnt start next avl : Nat) : Prop where
  run : Clear m btmp (next - avl) avl
  le : start + avl ≤ next
  short : avl < cnt
  before : next = start + avl ∨ bitAt m (btmp.bit (next - avl - 1)) = true
  none : ∀ r, start ≤ r → r + cnt ≤ next → ¬ Clear m btmp r cnt

theorem RunAt.clear {m : Bytes} {btmp : Bitmap} {cnt start next avl : Nat}
    (h : RunAt m btmp cnt start next avl) (hbit : bitAt m (btmp.bit next) = false) (hne : avl + 1 ≠ cnt) :
    RunAt m btmp cnt start (next + 1) (avl + 1) := by
  have hle := h.le
  have hshort := h.short
  refine ⟨fun k hk => ?_, by omega, by omega, ?_, fun r hr hrn hclear => ?_⟩
  · by_cases hka : k = avl
    · rw [hka, show next + 1 - (avl + 1) + avl = next by omega, hbit]
    · rw [show next + 1 - (avl + 1) + k = next - avl + k by omega]
      exact h.run k (by omega)
  · rw [show next + 1 - (avl + 1) - 1 = next - avl - 1 by omega]
    exact h.before.imp (fun h => by omega) id
  · rcases Nat.lt_or_ge next (r + cnt) with hlt | hge
    · -- the run ends at `next`, so it contains the set bit in front of the current one
      rcases h.before with hb | hb
      · omega
      · have := hclear (next - avl - 1 - r) (by omega)
        rw [show r + (next - avl - 1 - r) = next - avl - 1 by omega, hb] at this
        cases this
    · exact h.none r hr hge hclear

theorem RunAt.set {m : Bytes} {btmp : Bitmap} {cnt start next avl : Nat}
    (h : RunAt m btmp cnt start next avl) (hbit : bitAt m (btmp.bit next) = true) (hcnt : 0 < cnt) :
    RunAt m btmp cnt start (next + 1) 0 := by
  have hle := h.le
  refine ⟨fun k hk => absurd hk (by omega), by omega, hcnt, .inr (by simpa using hbit),
    fun r hr hrn hclear => ?_⟩
  rcases Nat.lt_or_ge next (r + cnt) with hlt | hge
  · have := hclear (next - r) (by omega)
    rw [show r + (next - r) = next by omega, hbit] at this
    cases this
  · exact h.none r hr hge hclear

theorem scanRun_spec {m : Bytes} {btmp : Bitmap} {cnt start next avl : Nat} (left : Nat) (hcnt : 2 ≤ cnt)
    (h : RunAt m btmp cnt start next avl) :
    match scanRun m btmp cnt left next avl with
    | some r => Clear m btmp r cnt ∧ start ≤ r ∧ r + cnt ≤ next + left ∧
        ∀ r', start ≤ r' → r' < r → ¬ Clear m btmp r' cnt
    | none => ∀ r, start ≤ r → r + cnt ≤ next + left → ¬ Clear m btmp r cnt := by
  induction left generalizing next avl with
  | zero => exact h.none
  | succ left ih =>
    have hle := h.le
    simp only [scanRun, bitmapTestBit_eq]
    cases hbit : bitAt m (btmp.bit next) with
    | true =>
      have := ih (h.set hbit (by omega))
      simp only [if_true]
      rw [if_neg (by omega)]
      rwa [show next + (left + 1) = next + 1 + left by omega]
    | false =>
      simp only [Bool.false_eq_true, if_false]
      by_cases heq : avl + 1 = cnt
      · rw [if_pos heq]
        refine ⟨fun k hk => ?_, by omega, by omega, fun r' hr' hlt => h.none r' hr' (by omega)⟩
        by_cases hka : k = avl
        · rw [hka, show next + 1 - cnt + avl = next by omega, hbit]
        · rw [show next + 1 - cnt + k = next - avl + k by omega]
          exact h.run k (by omega)
      · rw [if_neg heq]
        have := ih (h.clear hbit heq)
        rwa [show next + (left + 1) = next + 1 + left by omega]

/-- The last loop starts after the first clear bit. -/
theorem runAt_start {m : Bytes} {btmp : Bitmap} {cnt start : Nat} (hcnt : 2 ≤ cnt)
    (hclear : bitAt m (btmp.bit start) = false) : RunAt m btmp cnt start (start + 1) 1 where
  run k hk := by rwa [show start + 1 - 1 + k = start by omega]
  le := Nat.le_refl _
  short := hcnt
  before := .inl rfl
  none r' h1 h2 := absurd h2 (by omega)

/-- No run starts at a set bit. -/
theorem not_clear_of_set {m : Bytes} {btmp : Bitmap} {cnt r : Nat} (hcnt : 1 ≤ cnt)
    (h : bitAt m (btmp.bit r) = true) : ¬ Clear m btmp r cnt := by
  intro hc
  have := hc 0 (by omega)
  rw [Nat.add_zero, h] at this
  cases this

/-- A result of `BitmapScan` is the first run of `cnt` clear bits; it ends inside the bitmap when one
bit is asked for, and at most one bit past it otherwise. -/
theorem bitmapScan_some {debug : Bool} {m : Bytes} {btmp : Bitmap} {cnt r : Nat} (hcnt : 1 ≤ cnt)
    (h : bitmapScan debug m btmp cnt = some (some r)) :
    Clear m btmp r cnt ∧ r + cnt ≤ 8 * btmp.bytesLen + 1 ∧ (cnt = 1 → r < 8 * btmp.bytesLen) ∧
      ∀ r' < r, ¬ Clear m btmp r' cnt := by
  unfold bitmapScan at h
  dsimp only at h
  split at h
  · split at h <;> cases h
  · rename_i hlt
    obtain ⟨hstart, hclear, hset⟩ := scanStart_spec rfl (Nat.lt_of_not_le hlt) rfl
    generalize skipFull m btmp.bits btmp.bytesLen 0 * 8 +
      firstClear (m (btmp.bits + skipFull m btmp.bits btmp.bytesLen 0)) 8 0 = start at *
    have hfirst : ∀ r', r' < start → ¬ Clear m btmp r' cnt := fun r' hr' => not_clear_of_set hcnt (hset r' hr')
    split at h
    · rename_i hone
      cases h
      exact ⟨fun k hk => by rwa [show k = 0 by omega, Nat.add_zero], by omega, fun _ => hstart, hfirst⟩
    · rename_i hone
      have hspec := scanRun_spec (btmp.bytesLen * 8 - start) (by omega) (runAt_start (show 2 ≤ cnt by omega) hclear)
      rw [Option.some.inj h] at hspec
      obtain ⟨hc, hge, hend, hmin⟩ := hspec
      refine ⟨hc, by omega, fun h1 => absurd h1 hone, fun r' hr' => ?_⟩
      rcases Nat.lt_or_ge r' start with hlt | hge'
      · exact hfirst r' hlt
      · exact hmin r' hge' hr'

/-- With `ASSERT` active, one bit is always found. -/
theorem bitmapScan_one {m : Bytes} {btmp : Bitmap} {x : Option Nat}
    (h : bitmapScan true m btmp 1 = some x) : ∃ r, x = some r := by
  unfold bitmapScan at h
  dsimp only at h
  split at h
  · cases h
  · cases h
    exact ⟨_, rfl⟩

/-- The `ASSERT` of `BitmapScan` fails on full bitmaps. -/
theorem bitmapScan_none {m : Bytes} {btmp : Bitmap} {cnt : Nat} :
    bitmapScan true m btmp cnt = none ↔ ∀ i < 8 * btmp.bytesLen, bitAt m (btmp.bit i) = true := by
  obtain ⟨-, hle, hfull, -⟩ := skipFull_spec m btmp.bits btmp.bytesLen 0
  unfold bitmapScan
  dsimp only
  split
  · rename_i hlen
    refine iff_of_true rfl fun i hi => ?_
    rw [← bitmapTestBit_eq, bitmapTestBit, hfull (i / 8) (Nat.zero_le _) (by omega)]
    have h8 : i % 8 < 8 := Nat.mod_lt _ (by decide)
    generalize i % 8 = k at *
    interval_cases k <;> rfl
  · rename_i hlen
    obtain ⟨hstart, hclear, -⟩ := @scanStart_spec m btmp _ _ rfl (Nat.lt_of_not_le hlen) rfl
    refine iff_of_false ?_ fun hall => ?_
    · split <;> simp
    · rw [hall _ hstart] at hclear
      cases hclear

/-- Without `ASSERT` the result for a full bitmap is -1. -/
theorem bitmapScan_off (m : Bytes) (btmp : Bitmap) (cnt : Nat) :
    bitmapScan false m btmp cnt = some ((bitmapScan true m btmp cnt).getD none) := by
  unfold bitmapScan
  dsimp only
  split
  · rfl
  · split <;> rfl

end ElephantOS
