import ElephantOS.Lib.Trace
import ElephantOS.Memory.PageRange

/-!
# What `BitmapScan` reads (`lib/kernel/bitmap.c`)

* `Reads.bitmapScan` : the function in 32-bit arithmetic, with the indices of the bytes it reads as events;
* `Reads.result_bitmapScan` : without them it is `bitmapScan`, for bitmaps whose bits a `size_t` can number;
* `ScansInside` : it reads the bitmap's bytes only, depends on them only, and finds runs inside only, and
  `GetVirtualPage` takes pages of the window only;
* `bitmapScan_inside_iff` : when this is so;
* `bitmapScan_first_fit` : the run it returns is the first one.
-/

namespace ElephantOS

/-- Code that logs the bytes of a bitmap it reads; it stops at a failed `ASSERT`. -/
abbrev Reads (α : Type) := Trace Nat Unit α

namespace Reads

/-- The first loop, for at most `n` passes. It reads the byte before it tests the index. -/
def skipFull (m : Bytes) (btmp : Bitmap) : Nat → Nat → Reads Nat
  | 0, byteIdx => pure byteIdx
  | n + 1, byteIdx => do
    Trace.emit byteIdx
    if m (btmp.bits + byteIdx) = 0xFF#8 ∧ byteIdx < btmp.bytesLen then skipFull m btmp n (byteIdx + 1)
    else pure byteIdx

/-- The second loop; the mask is 0 after 8 passes. -/
def firstClear (m : Bytes) (btmp : Bitmap) (byteIdx : Nat) : Nat → Nat → Reads Nat
  | 0, bitIdx => pure bitIdx
  | n + 1, bitIdx => do
    Trace.emit byteIdx
    if (m (btmp.bits + byteIdx)).getLsbD bitIdx then firstClear m btmp byteIdx n (bitIdx + 1)
    else pure bitIdx

def bitmapTestBit (m : Bytes) (btmp : Bitmap) (bitIdx : Nat) : Reads Bool := do
  Trace.emit (bitIdx / 8)
  return ElephantOS.bitmapTestBit m btmp bitIdx

def asResult (r : Nat) : Option Nat := if r % 2 ^ 32 = 2 ^ 32 - 1 then none else some (r % 2 ^ 32)

/-- The last loop, with `bitsLeft` passes left. -/
def scanRun (m : Bytes) (btmp : Bitmap) (cnt : Nat) : Nat → Nat → Nat → Reads (Option Nat)
  | 0, _, _ => pure none
  | bitsLeft + 1, nextBit, avlBitsCount => do
    let bit ← bitmapTestBit m btmp nextBit
    let avlBitsCount := if bit then 0 else (avlBitsCount + 1) % 2 ^ 32
    if avlBitsCount = cnt then pure (asResult (sub32 nextBit cnt + 1))
    else scanRun m btmp cnt bitsLeft ((nextBit + 1) % 2 ^ 32) avlBitsCount

def bitmapScan (debug : Bool) (m : Bytes) (btmp : Bitmap) (cnt : Nat) : Reads (Option Nat) := do
  let byteIdx ← skipFull m btmp (btmp.bytesLen + 1) 0
  if btmp.bytesLen ≤ byteIdx then if debug then Trace.lift (.error ()) else pure none
  else
    let bitIdx ← firstClear m btmp byteIdx 8 0
    let bitIdxStart := (byteIdx * 8 + bitIdx) % 2 ^ 32
    if cnt = 1 then pure (asResult bitIdxStart)
    else scanRun m btmp cnt (sub32 (btmp.bytesLen * 8 % 2 ^ 32) bitIdxStart) ((bitIdxStart + 1) % 2 ^ 32) 1

/-! ## The loops -/

theorem skipFull_spec (m : Bytes) (btmp : Bitmap) {n i : Nat} (hi : i ≤ btmp.bytesLen)
    (hn : i + n = btmp.bytesLen + 1) :
    (skipFull m btmp n i).result = .ok (ElephantOS.skipFull m btmp.bits (btmp.bytesLen - i) i) ∧
    ∀ x ∈ (skipFull m btmp n i).log, x ≤ ElephantOS.skipFull m btmp.bits (btmp.bytesLen - i) i := by
  induction n generalizing i with
  | zero => omega
  | succ n ih =>
    simp only [skipFull, Trace.emit_bind]
    by_cases hc : m (btmp.bits + i) = 0xFF#8 ∧ i < btmp.bytesLen
    · obtain ⟨hres, hlog⟩ := ih (i := i + 1) (by omega) (by omega)
      have hskip : ElephantOS.skipFull m btmp.bits (btmp.bytesLen - i) i =
          ElephantOS.skipFull m btmp.bits (btmp.bytesLen - (i + 1)) (i + 1) := by
        rw [show btmp.bytesLen - i = btmp.bytesLen - (i + 1) + 1 by omega, ElephantOS.skipFull, if_pos hc.1]
      have hge := (ElephantOS.skipFull_spec m btmp.bits (btmp.bytesLen - (i + 1)) (i + 1)).1
      rw [if_pos hc, hskip]
      refine ⟨hres, ?_⟩
      intro x hx
      rw [List.mem_cons] at hx
      obtain rfl | hx := hx
      · omega
      · exact hlog x hx
    · have hskip : ElephantOS.skipFull m btmp.bits (btmp.bytesLen - i) i = i := by
        cases hlen : btmp.bytesLen - i with
        | zero => rfl
        | succ k =>
          rw [ElephantOS.skipFull, if_neg]
          intro hff
          exact hc ⟨hff, by omega⟩
      rw [if_neg hc, hskip]
      refine ⟨rfl, ?_⟩
      intro x hx
      have : x = i := by simpa using hx
      omega

theorem firstClear_spec (m : Bytes) (btmp : Bitmap) (byteIdx n i : Nat) :
    (firstClear m btmp byteIdx n i).result = .ok (ElephantOS.firstClear (m (btmp.bits + byteIdx)) n i) ∧
    ∀ x ∈ (firstClear m btmp byteIdx n i).log, x = byteIdx := by
  induction n generalizing i with
  | zero => exact ⟨rfl, by simp [firstClear]⟩
  | succ n ih =>
    simp only [firstClear, ElephantOS.firstClear, Trace.emit_bind]
    by_cases hbit : (m (btmp.bits + byteIdx)).getLsbD i = true
    · obtain ⟨hres, hlog⟩ := ih (i + 1)
      rw [if_pos hbit, if_pos hbit]
      refine ⟨hres, ?_⟩
      intro x hx
      rw [List.mem_cons] at hx
      exact hx.elim id (hlog x)
    · rw [if_neg hbit, if_neg hbit]
      exact ⟨rfl, by simp⟩

theorem scanRun_succ (m : Bytes) (btmp : Bitmap) {cnt left next avl : Nat} (hcnt : 2 ≤ cnt)
    (hnext : next + 1 < 2 ^ 32) (havl : avl ≤ next) :
    scanRun m btmp cnt (left + 1) next avl =
      let avl' := if ElephantOS.bitmapTestBit m btmp next then 0 else avl + 1
      let x := if avl' = cnt then pure (some (next + 1 - cnt)) else scanRun m btmp cnt left (next + 1) avl'
      ⟨next / 8 :: x.log, x.result⟩ := by
  show (do
    let bit ← bitmapTestBit m btmp next
    let avlBitsCount := if bit then 0 else (avl + 1) % 2 ^ 32
    if avlBitsCount = cnt then pure (asResult (sub32 next cnt + 1))
    else scanRun m btmp cnt left ((next + 1) % 2 ^ 32) avlBitsCount) = _
  rw [Nat.mod_eq_of_lt hnext, Nat.mod_eq_of_lt (show avl + 1 < 2 ^ 32 by omega)]
  have hbind : ∀ f : Bool → Reads (Option Nat), bitmapTestBit m btmp next >>= f =
      ⟨next / 8 :: (f (ElephantOS.bitmapTestBit m btmp next)).log,
        (f (ElephantOS.bitmapTestBit m btmp next)).result⟩ := fun f => rfl
  rw [hbind]
  dsimp only
  by_cases heq : (if ElephantOS.bitmapTestBit m btmp next = true then 0 else avl + 1) = cnt
  · have hle : cnt ≤ next + 1 := by
      rw [← heq]
      split_ifs <;> omega
    have hres : asResult (sub32 next cnt + 1) = some (next + 1 - cnt) := by
      unfold asResult sub32
      rw [show ((next + 2 ^ 32 - cnt) % 2 ^ 32 + 1) % 2 ^ 32 = next + 1 - cnt by omega, if_neg (by omega)]
    rw [if_pos heq, if_pos heq, hres]
  · rw [if_neg heq, if_neg heq]

/-- The last bit the loop tests is the end of the run it returns, or else the last one of its passes. -/
theorem scanRun_spec (m : Bytes) (btmp : Bitmap) {cnt : Nat} (left : Nat) {next avl : Nat} (hcnt : 2 ≤ cnt)
    (hnext : next + left < 2 ^ 32) (havl : avl ≤ next) :
    (scanRun m btmp cnt left next avl).result = .ok (ElephantOS.scanRun m btmp cnt left next avl) ∧
    match ElephantOS.scanRun m btmp cnt left next avl with
    | some r => next < r + cnt ∧ (r + cnt - 1) / 8 ∈ (scanRun m btmp cnt left next avl).log ∧
        ∀ x ∈ (scanRun m btmp cnt left next avl).log, x ≤ (r + cnt - 1) / 8
    | none => 0 < left → (next + left - 1) / 8 ∈ (scanRun m btmp cnt left next avl).log := by
  induction left generalizing next avl with
  | zero => exact ⟨rfl, fun h => absurd h (by decide)⟩
  | succ left ih =>
    rw [scanRun_succ m btmp hcnt (by omega) havl]
    simp only [ElephantOS.scanRun]
    have havl' : (if ElephantOS.bitmapTestBit m btmp next = true then 0 else avl + 1) ≤ next + 1 := by
      split_ifs <;> omega
    generalize (if ElephantOS.bitmapTestBit m btmp next = true then 0 else avl + 1) = avl' at *
    by_cases heq : avl' = cnt
    · rw [if_pos heq, if_pos heq]
      have hend : next + 1 - cnt + cnt - 1 = next := by omega
      refine ⟨rfl, ?_⟩
      dsimp only
      rw [hend]
      exact ⟨by omega, by simp, by simp⟩
    · rw [if_neg heq, if_neg heq]
      obtain ⟨hres, hlog⟩ := ih (show next + 1 + left < 2 ^ 32 by omega) havl'
      refine ⟨hres, ?_⟩
      cases hscan : ElephantOS.scanRun m btmp cnt left (next + 1) avl' with
      | some r =>
        rw [hscan] at hlog
        obtain ⟨hlt, hmem, hle⟩ := hlog
        refine ⟨by omega, List.mem_cons_of_mem _ hmem, ?_⟩
        intro x hx
        rw [List.mem_cons] at hx
        obtain rfl | hx := hx
        · exact Nat.div_le_div_right (by omega)
        · exact hle x hx
      | none =>
        rw [hscan] at hlog
        intro _
        by_cases hleft : 0 < left
        · rw [show next + (left + 1) - 1 = next + 1 + left - 1 by omega]
          exact List.mem_cons_of_mem _ (hlog hleft)
        · rw [show next + (left + 1) - 1 = next by omega]
          exact List.mem_cons_self

/-! ## The whole scan -/

theorem skipFull_lt {m : Bytes} {btmp : Bitmap} (hclear : ∃ i < 8 * btmp.bytesLen, bitAt m (btmp.bit i) = false) :
    ElephantOS.skipFull m btmp.bits btmp.bytesLen 0 < btmp.bytesLen := by
  obtain ⟨i, hi, hbit⟩ := hclear
  by_contra hge
  have hnone : ElephantOS.bitmapScan true m btmp 1 = none := by
    rw [ElephantOS.bitmapScan]
    exact if_pos (Nat.le_of_not_lt hge)
  rw [bitmapScan_none.1 hnone i hi] at hbit
  cases hbit

theorem bitmapScan_eq (debug : Bool) {m : Bytes} {btmp : Bitmap} (cnt : Nat) (hlen : 8 * btmp.bytesLen < 2 ^ 32)
    (hclear : ∃ i < 8 * btmp.bytesLen, bitAt m (btmp.bit i) = false) :
    ∃ start log, start < 8 * btmp.bytesLen ∧ bitAt m (btmp.bit start) = false ∧
      (∀ i < start, bitAt m (btmp.bit i) = true) ∧ (∀ x ∈ log, x < btmp.bytesLen) ∧
      (∀ cnt, ElephantOS.bitmapScan debug m btmp cnt = some (if cnt = 1 then some start
        else ElephantOS.scanRun m btmp cnt (btmp.bytesLen * 8 - start) (start + 1) 1)) ∧
      let x : Reads (Option Nat) := if cnt = 1 then pure (some start)
        else scanRun m btmp cnt (btmp.bytesLen * 8 - start) (start + 1) 1
      bitmapScan debug m btmp cnt = ⟨log ++ x.log, x.result⟩ := by
  have hlt := skipFull_lt hclear
  obtain ⟨hskip, hskipLog⟩ := skipFull_spec m btmp (Nat.zero_le _) (Nat.zero_add (btmp.bytesLen + 1))
  rw [Nat.sub_zero] at hskip hskipLog
  obtain ⟨hstart, hbit, hset⟩ := scanStart_spec rfl hlt rfl
  obtain ⟨hfirst, hfirstLog⟩ :=
    firstClear_spec m btmp (ElephantOS.skipFull m btmp.bits btmp.bytesLen 0) 8 0
  generalize hb : ElephantOS.skipFull m btmp.bits btmp.bytesLen 0 = byteIdx at *
  refine ⟨_, (skipFull m btmp (btmp.bytesLen + 1) 0).log ++ (firstClear m btmp byteIdx 8 0).log, hstart, hbit, hset,
    ?_, ?_, ?_⟩
  · intro x hx
    rw [List.mem_append] at hx
    obtain hx | hx := hx
    · have := hskipLog x hx
      omega
    · have := hfirstLog x hx
      omega
  · intro cnt
    rw [ElephantOS.bitmapScan, hb]
    dsimp only
    rw [if_neg (by omega)]
    split_ifs <;> rfl
  · generalize hs : byteIdx * 8 + ElephantOS.firstClear (m (btmp.bits + byteIdx)) 8 0 = start at *
    have hres : asResult start = some start := by
      rw [asResult, Nat.mod_eq_of_lt (by omega), if_neg (by omega)]
    have hleft : sub32 (btmp.bytesLen * 8) start = btmp.bytesLen * 8 - start := by
      unfold sub32
      omega
    rw [bitmapScan, Trace.bind_of_ok hskip, if_neg (show ¬ btmp.bytesLen ≤ byteIdx by omega),
      Trace.bind_of_ok hfirst]
    dsimp only
    rw [hs, Nat.mod_eq_of_lt (show start < 2 ^ 32 by omega),
      Nat.mod_eq_of_lt (show btmp.bytesLen * 8 < 2 ^ 32 by omega), Nat.mod_eq_of_lt (show start + 1 < 2 ^ 32 by omega),
      hres, hleft, List.append_assoc]

/-- What the scan of a bitmap with a clear bit returns, and when it reads the bitmap only. -/
theorem bitmapScan_spec (debug : Bool) {m : Bytes} {btmp : Bitmap} {cnt : Nat} (hlen : 8 * btmp.bytesLen < 2 ^ 32)
    (hcnt : 1 ≤ cnt) (hclear : ∃ i < 8 * btmp.bytesLen, bitAt m (btmp.bit i) = false) :
    ∃ r, (bitmapScan debug m btmp cnt).result = .ok r ∧ ElephantOS.bitmapScan debug m btmp cnt = some r ∧
      ((∀ x ∈ (bitmapScan debug m btmp cnt).log, x < btmp.bytesLen) ↔
        cnt = 1 ∨ ∃ r', r' + cnt ≤ 8 * btmp.bytesLen ∧ Clear m btmp r' cnt) := by
  obtain ⟨start, log, hstart, hbit, hset, hlog, hscan, heq⟩ := bitmapScan_eq debug cnt hlen hclear
  rw [heq, hscan cnt]
  by_cases hone : cnt = 1
  · rw [if_pos hone, if_pos hone]
    refine ⟨_, rfl, rfl, iff_of_true ?_ (Or.inl hone)⟩
    simpa using hlog
  rw [if_neg hone, if_neg hone]
  obtain ⟨hres, hreads⟩ :=
    scanRun_spec m btmp (btmp.bytesLen * 8 - start) (show 2 ≤ cnt by omega)
      (show start + 1 + (btmp.bytesLen * 8 - start) < 2 ^ 32 by omega) (show 1 ≤ start + 1 by omega)
  have hruns := ElephantOS.scanRun_spec (btmp.bytesLen * 8 - start) (by omega) (runAt_start (show 2 ≤ cnt by omega) hbit)
  refine ⟨_, hres, rfl, ?_⟩
  have hsplit : (∀ x ∈ log ++ (scanRun m btmp cnt (btmp.bytesLen * 8 - start) (start + 1) 1).log, x < btmp.bytesLen) ↔
      ∀ x ∈ (scanRun m btmp cnt (btmp.bytesLen * 8 - start) (start + 1) 1).log, x < btmp.bytesLen := by
    constructor
    · intro h x hx
      exact h x (List.mem_append_right _ hx)
    · intro h x hx
      rw [List.mem_append] at hx
      exact hx.elim (hlog x) (h x)
  rw [hsplit]
  constructor
  · -- the end of the run found, or else the bit after the bitmap, is tested
    intro hin
    right
    cases hr : ElephantOS.scanRun m btmp cnt (btmp.bytesLen * 8 - start) (start + 1) 1 with
    | some r =>
      rw [hr] at hreads hruns
      have := hin _ hreads.2.1
      exact ⟨r, by omega, hruns.1⟩
    | none =>
      rw [hr] at hreads
      have := hin _ (hreads (by omega))
      omega
  · intro hrun x hx
    obtain ⟨r', hr', hclear'⟩ := hrun.resolve_left hone
    have hge : start ≤ r' := by
      by_contra hlt
      exact not_clear_of_set hcnt (hset r' (by omega)) hclear'
    cases hr : ElephantOS.scanRun m btmp cnt (btmp.bytesLen * 8 - start) (start + 1) 1 with
    | some r =>
      rw [hr] at hreads hruns
      have hle : r ≤ r' := by
        by_contra hlt
        exact hruns.2.2.2 r' hge (by omega) hclear'
      have := hreads.2.2 x hx
      omega
    | none =>
      rw [hr] at hruns
      exact absurd hclear' (hruns r' hge (by omega))

end Reads

/-! ## The scan and `GetVirtualPage` -/

/-- What `BitmapScan` should do on a bitmap: read its bytes only, whatever stands after it, and find runs of
clear bits inside it only; and `GetVirtualPage` should take pages of the bitmap's window only. -/
structure ScansInside (debug : Bool) (m : Bytes) (btmp : Bitmap) (cnt : Nat) : Prop where
  reads : ∀ x ∈ (Reads.bitmapScan debug m btmp cnt).log, x < btmp.bytesLen
  indep : ∀ m' : Bytes, (∀ i < btmp.bytesLen, m' (btmp.bits + i) = m (btmp.bits + i)) →
    (Reads.bitmapScan debug m' btmp cnt).result = (Reads.bitmapScan debug m btmp cnt).result
  run : ∀ r, (Reads.bitmapScan debug m btmp cnt).result = .ok (some r) →
    r + cnt ≤ 8 * btmp.bytesLen ∧ Clear m btmp r cnt
  window : ∀ (s s' : Kernel) (pf : PoolFlags) (a : VirtualAddr) (v : Nat), s.debug = debug → s.HasVaddr pf a →
    a.bitmap = btmp → s.vbytes pf = m → s.getVirtualPage pf cnt = .ok (v, s') → (v = 0 ∧ s' = s) ∨
      ∃ idx, idx + cnt ≤ 8 * btmp.bytesLen ∧ v = (a.vaddrStart + idx * 4096) % 2 ^ 32 ∧
        ∀ k, ¬ (btmp.bit 0 ≤ k ∧ k < btmp.bit (8 * btmp.bytesLen)) → bitAt (s'.vbytes pf) k = bitAt m k

theorem bitmapScan_of_run (debug : Bool) {m : Bytes} {btmp : Bitmap} {cnt : Nat} (hlen : 8 * btmp.bytesLen < 2 ^ 32)
    (hcnt : 1 ≤ cnt) (hclear : ∃ i < 8 * btmp.bytesLen, bitAt m (btmp.bit i) = false)
    (hrun : cnt = 1 ∨ ∃ r, r + cnt ≤ 8 * btmp.bytesLen ∧ Clear m btmp r cnt) :
    ∃ r, bitmapScan debug m btmp cnt = some (some r) ∧ r + cnt ≤ 8 * btmp.bytesLen := by
  obtain ⟨start, -, hstart, hbit, hset, -, hscan, -⟩ := Reads.bitmapScan_eq debug cnt hlen hclear
  rw [hscan cnt]
  by_cases hone : cnt = 1
  · rw [if_pos hone]
    exact ⟨start, rfl, by omega⟩
  rw [if_neg hone]
  obtain ⟨r', hr', hclear'⟩ := hrun.resolve_left hone
  have hge : start ≤ r' := by
    by_contra hlt
    exact not_clear_of_set hcnt (hset r' (by omega)) hclear'
  have hruns := scanRun_spec (btmp.bytesLen * 8 - start) (by omega) (runAt_start (show 2 ≤ cnt by omega) hbit)
  cases hr : scanRun m btmp cnt (btmp.bytesLen * 8 - start) (start + 1) 1 with
  | some r =>
    rw [hr] at hruns
    have hle : r ≤ r' := by
      by_contra hlt
      exact hruns.2.2.2 r' hge (by omega) hclear'
    exact ⟨r, rfl, by omega⟩
  | none =>
    rw [hr] at hruns
    exact absurd hclear' (hruns r' hge (by omega))

theorem bitAt_congr {m m' : Bytes} {btmp : Bitmap} (h : ∀ i < btmp.bytesLen, m' (btmp.bits + i) = m (btmp.bits + i))
    {k : Nat} (hk : k < 8 * btmp.bytesLen) : bitAt m' (btmp.bit k) = bitAt m (btmp.bit k) := by
  rw [← bitmapTestBit_eq, ← bitmapTestBit_eq, bitmapTestBit, bitmapTestBit, h (k / 8) (by omega)]

theorem Clear.congr {m m' : Bytes} {btmp : Bitmap} {r cnt : Nat}
    (h : ∀ i < btmp.bytesLen, m' (btmp.bits + i) = m (btmp.bits + i)) (hr : r + cnt ≤ 8 * btmp.bytesLen)
    (hc : Clear m btmp r cnt) : Clear m' btmp r cnt := by
  intro k hk
  rw [bitAt_congr h (by omega)]
  exact hc k hk

/-- **When `BitmapScan` stays inside the bitmap.** For every bitmap with a clear bit (and whose bits a `size_t`
can number), whatever stands in memory after it, and every number of bits asked for: the scan reads the
bitmap's bytes only, its result depends on them only, a result is a run of clear bits inside the bitmap, and
`GetVirtualPage` takes pages of the window and sets bits of the bitmap only, if and only if one bit is asked
for or there is a run of that length inside. Otherwise the last pass of the loop tests the bit after the
bitmap. -/
theorem bitmapScan_inside_iff {debug : Bool} {m : Bytes} {btmp : Bitmap} {cnt : Nat}
    (hlen : 8 * btmp.bytesLen < 2 ^ 32) (hcnt : 1 ≤ cnt)
    (hclear : ∃ i < 8 * btmp.bytesLen, bitAt m (btmp.bit i) = false) :
    ScansInside debug m btmp cnt ↔ cnt = 1 ∨ ∃ r, r + cnt ≤ 8 * btmp.bytesLen ∧ Clear m btmp r cnt := by
  obtain ⟨x, hres, hscan, hreads⟩ := Reads.bitmapScan_spec debug hlen hcnt hclear
  constructor
  · intro h
    exact hreads.1 h.reads
  · intro hrun
    obtain ⟨r, hr, hend⟩ := bitmapScan_of_run debug hlen hcnt hclear hrun
    have hx : x = some r := by
      rw [hscan] at hr
      exact Option.some.inj hr
    subst hx
    obtain ⟨hfound, -, -, hmin⟩ := bitmapScan_some hcnt hr
    refine ⟨hreads.2 hrun, ?_, ?_, ?_⟩
    · intro m' hm'
      have hm := fun i hi => (hm' i hi).symm
      have hclear' : ∃ i < 8 * btmp.bytesLen, bitAt m' (btmp.bit i) = false := by
        obtain ⟨i, hi, hbit⟩ := hclear
        exact ⟨i, hi, (bitAt_congr hm' hi).trans hbit⟩
      obtain ⟨x', hres', hscan', -⟩ := Reads.bitmapScan_spec debug hlen hcnt hclear'
      obtain ⟨r', hr', hend'⟩ := bitmapScan_of_run debug hlen hcnt hclear'
        (Or.inr ⟨r, hend, hfound.congr hm' hend⟩)
      obtain ⟨hfound', -, -, hmin'⟩ := bitmapScan_some hcnt hr'
      have heq : r' = r := by
        rcases Nat.lt_trichotomy r' r with hlt | heq | hgt
        · exact absurd (hfound'.congr hm hend') (hmin r' hlt)
        · exact heq
        · exact absurd (hfound.congr hm' hend) (hmin' r hgt)
      rw [hres', hres, ← heq]
      rw [hscan'] at hr'
      rw [Option.some.inj hr']
    · intro r' hr'
      rw [hres] at hr'
      cases hr'
      exact ⟨hend, hfound⟩
    · intro s s' pf a v hdebug ha hbtmp hbytes hget
      rw [Kernel.getVirtualPage_scan ha, hdebug, hbytes, hbtmp, hr] at hget
      cases hget
      right
      refine ⟨r, hend, rfl, ?_⟩
      intro k hk
      rw [Kernel.bitAt_setPages, hbtmp, hbytes, if_neg]
      intro hin
      apply hk
      unfold Bitmap.bit at hin ⊢
      omega

/-- A full byte, then runs of two and of three clear bits. -/
def twoRuns : Bytes := fun a => if a = 1 then 0x19#8 else 0xFF#8

theorem twoRuns_clear : Clear twoRuns ⟨2, 0⟩ 13 3 := by
  unfold Clear
  decide

theorem bitmapScan_inside_three : ScansInside true twoRuns ⟨2, 0⟩ 3 :=
  (bitmapScan_inside_iff (by decide) (by decide) ⟨9, by decide, by decide⟩).2 (Or.inr ⟨13, by decide, twoRuns_clear⟩)

def oneByte : Bytes := fun a => if a = 0 then 0x7F#8 else 0#8

/-- The scan finds bits 7 and 8 of a bitmap of 8 bits. -/
theorem bitmapScan_leaves_bitmap : (∃ i < 8, bitAt oneByte (Bitmap.bit ⟨1, 0⟩ i) = false) ∧
    (Reads.bitmapScan true oneByte ⟨1, 0⟩ 2).result = .ok (some 7) ∧
    ¬ ScansInside true oneByte ⟨1, 0⟩ 2 := by
  refine ⟨⟨7, by decide, by decide⟩, rfl, ?_⟩
  intro h
  have hend := (h.run 7 rfl).1
  exact absurd hend (by decide)

/-! ## First fit -/

/-- **`BitmapScan` is first fit.** For every bitmap of fewer than `2^28` bytes, whatever its bits and the bytes
after it, with `ASSERT` active or not: when there are runs of `cnt` clear bits inside the bitmap, the start of the
first of them is returned. -/
theorem bitmapScan_first_fit (debug : Bool) {m : Bytes} {btmp : Bitmap} {cnt : Nat} (hpos : 1 ≤ btmp.bytesLen)
    (hlen : btmp.bytesLen < 2 ^ 28) (hcnt : 1 ≤ cnt) (hrun : ∃ i, i + cnt ≤ 8 * btmp.bytesLen ∧ Clear m btmp i cnt) :
    ∃ r, IsLeast {i | i + cnt ≤ 8 * btmp.bytesLen ∧ Clear m btmp i cnt} r ∧
      (Reads.bitmapScan debug m btmp cnt).result = .ok (some r) := by
  have hclear : ∃ i < 8 * btmp.bytesLen, bitAt m (btmp.bit i) = false := by
    obtain ⟨i, hi, hc⟩ := hrun
    exact ⟨i, by omega, hc 0 (by omega)⟩
  have hbits : 8 * btmp.bytesLen < 2 ^ 32 := by omega
  obtain ⟨x, hres, hscan, -⟩ := Reads.bitmapScan_spec debug hbits hcnt hclear
  obtain ⟨r, hr, hend⟩ := bitmapScan_of_run debug hbits hcnt hclear (Or.inr hrun)
  obtain ⟨hfound, -, -, hmin⟩ := bitmapScan_some hcnt hr
  rw [hscan] at hr
  refine ⟨r, ⟨⟨hend, hfound⟩, ?_⟩, ?_⟩
  · intro i hi
    by_contra hlt
    exact hmin i (by omega) hi.2
  · rw [hres, Option.some.inj hr]

theorem bitmapScan_first_fit_three : (Reads.bitmapScan true twoRuns ⟨2, 0⟩ 3).result = .ok (some 13) ∧
    IsLeast {i | i + 3 ≤ 16 ∧ Clear twoRuns ⟨2, 0⟩ i 3} 13 := by
  obtain ⟨r, hleast, hres⟩ :=
    bitmapScan_first_fit true (m := twoRuns) (by decide) (by decide) (by decide) ⟨13, by decide, twoRuns_clear⟩
  cases hres
  exact ⟨rfl, hleast⟩

end ElephantOS
