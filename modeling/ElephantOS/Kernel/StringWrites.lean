import ElephantOS.Kernel.Strings

/-!
# Writing to memory (`lib/string.c`)

The loops copy upwards, one byte at a time, so that the bytes they read may be bytes they wrote.

* `memset`, `memcpy`, `strcpy`, `strcat` : the functions of the file;
* `memcpyFrom_apply` : after any number of passes, whatever the distance of the two pointers;
* `memcpy_overlap` : a copy that overlaps its source repeats the bytes between the two;
* `strcpy_strcat_return_iff` : the loops return when they meet the terminator before they overwrite it.
-/

namespace ElephantOS
open Bytes (Word Mem)

namespace Strings

/-- `*dst = *src`. -/
def copyByte (mem : Mem) (dst src : Word) : Mem := Function.update mem dst (mem src)

/-- The loop of `memset`, with `size` passes left. -/
def memsetFrom (value : BitVec 8) : Nat → Mem → Word → Mem
  | 0, mem, _ => mem
  | size + 1, mem, dst => memsetFrom value size (Function.update mem dst value) (dst + 1)

def memset (mem : Mem) (dst : Word) (value : UInt8) (size : Word) : Except StringFault Mem :=
  if dst ≠ 0 then .ok (memsetFrom value.toBitVec size.toNat mem dst) else .error .assert

/-- The loop of `memcpy`, with `size` passes left. -/
def memcpyFrom : Nat → Mem → Word → Word → Mem
  | 0, mem, _, _ => mem
  | size + 1, mem, dst, src => memcpyFrom size (copyByte mem dst src) (dst + 1) (src + 1)

def memcpy (mem : Mem) (dst src size : Word) : Except StringFault Mem :=
  if dst ≠ 0 ∧ src ≠ 0 then .ok (memcpyFrom size.toNat mem dst src) else .error .assert

/-- `while ((*dst++ = *src++))`, the loop of `strcpy` and the second one of `strcat`. -/
def strcpyFrom : Nat → Mem → Word → Word → Except StringFault Mem
  | 0, _, _, _ => .error .unfinished
  | fuel + 1, mem, dst, src =>
    let c := mem src
    let mem := copyByte mem dst src
    if c ≠ 0 then strcpyFrom fuel mem (dst + 1) (src + 1) else .ok mem

def strcpy (mem : Mem) (fuel : Nat) (dst src : Word) : Except StringFault (Mem × Word) :=
  if dst ≠ 0 ∧ src ≠ 0 then do
    let dstR := dst
    let mem ← strcpyFrom fuel mem dst src
    return (mem, dstR)
  else .error .assert

def strcat (mem : Mem) (fuel : Nat) (dst src : Word) : Except StringFault (Mem × Word) :=
  if dst ≠ 0 ∧ src ≠ 0 then do
    let str ← (strlenFrom mem fuel dst).result
    let str := str - 1
    let mem ← strcpyFrom fuel mem str src
    return (mem, dst)
  else .error .assert

/-! ## The copying loop -/

variable {mem : Mem} {dst src : Word}

/-- The last pass apart. -/
theorem memcpyFrom_succ (n : Nat) (mem : Mem) (dst src : Word) : memcpyFrom (n + 1) mem dst src =
    copyByte (memcpyFrom n mem dst src) (dst + BitVec.ofNat 32 n) (src + BitVec.ofNat 32 n) := by
  induction n generalizing mem dst src with
  | zero =>
    show copyByte mem dst src = copyByte mem (dst + BitVec.ofNat 32 0) (src + BitVec.ofNat 32 0)
    rw [BitVec.add_zero, BitVec.add_zero]
  | succ n ih =>
    rw [memcpyFrom, ih, memcpyFrom, Bytes.add_ofNat_succ, Bytes.add_ofNat_succ]

/-- Pass `n` reads a byte that the passes before it have not written, or one that stands for an earlier byte of the
source. -/
theorem sub_read {n : Nat} (hn : n < 2 ^ 32) :
    (src + BitVec.ofNat 32 n - dst).toNat =
      if (dst - src).toNat ≤ n then n - (dst - src).toNat else 2 ^ 32 + n - (dst - src).toNat := by
  have hd := (dst - src).isLt
  by_cases hle : (dst - src).toNat ≤ n
  · rw [if_pos hle]
    bv_omega
  · rw [if_neg hle]
    bv_omega

/-- What the loop leaves at every address. When the two pointers are equal, nothing changes (`i % 0 = i`). -/
theorem memcpyFrom_apply {n : Nat} (hn : n ≤ 2 ^ 32) (b : Word) : memcpyFrom n mem dst src b =
    if (b - dst).toNat < n then mem (src + BitVec.ofNat 32 ((b - dst).toNat % (dst - src).toNat)) else mem b := by
  induction n generalizing b with
  | zero => rw [if_neg (Nat.not_lt_zero _)]; rfl
  | succ n ih =>
    have hlt : n < 2 ^ 32 := hn
    have ih := fun b => ih (Nat.le_of_lt hlt) b
    rw [memcpyFrom_succ, copyByte, Function.update_apply]
    by_cases hb : b = dst + BitVec.ofNat 32 n
    · have hoff : (b - dst).toNat = n := by rw [hb]; exact Bytes.sub_ofNat dst hlt
      rw [if_pos hb, hoff, if_pos (Nat.lt_succ_self n), ih, sub_read hlt]
      have hd := (dst - src).isLt
      by_cases hle : (dst - src).toNat ≤ n
      · rw [if_pos hle]
        by_cases h0 : (dst - src).toNat = 0
        · rw [h0, if_neg (by omega), Nat.mod_zero]
        · rw [if_pos (by omega), ← Nat.mod_eq_sub_mod hle]
      · rw [if_neg hle, if_neg (by omega), Nat.mod_eq_of_lt (by omega)]
    · have hoff : (b - dst).toNat ≠ n := by
        intro hoff
        apply hb
        bv_omega
      rw [if_neg hb, ih]
      by_cases hin : (b - dst).toNat < n
      · rw [if_pos hin, if_pos (by omega)]
      · rw [if_neg hin, if_neg (by omega)]

/-- The byte that pass `n` reads. -/
theorem memcpyFrom_read {n : Nat} (hn : n < 2 ^ 32) : memcpyFrom n mem dst src (src + BitVec.ofNat 32 n) =
    mem (src + BitVec.ofNat 32 (n % (dst - src).toNat)) := by
  have h := @memcpyFrom_apply mem dst src (n + 1) (by omega) (dst + BitVec.ofNat 32 n)
  rw [memcpyFrom_succ, copyByte, Function.update_self, Bytes.sub_ofNat dst hn, if_pos (Nat.lt_succ_self n)] at h
  exact h

/-- **What `memcpy` copies.** For all pointers other than `NULL`, every size and every memory, also when the ranges
overlap or wrap around the end of the address space: byte `i` of the destination becomes byte `i % d` of the source as
it was, where `d` is the distance from the source up to the destination, and no other byte changes. So the source is
copied, whatever it holds, exactly when the pointers are equal or the destination does not begin inside the source. -/
theorem memcpy_overlap (dst src size : Word) (hd : dst ≠ 0) (hs : src ≠ 0) :
    (∀ mem, ∃ mem', memcpy mem dst src size = .ok mem' ∧
      (∀ i < size.toNat, mem' (dst + BitVec.ofNat 32 i) = mem (src + BitVec.ofNat 32 (i % (dst - src).toNat))) ∧
      ∀ b, size.toNat ≤ (b - dst).toNat → mem' b = mem b) ∧
    ((∀ mem mem', memcpy mem dst src size = .ok mem' →
      ∀ i < size.toNat, mem' (dst + BitVec.ofNat 32 i) = mem (src + BitVec.ofNat 32 i)) ↔
        dst = src ∨ size.toNat ≤ (dst - src).toNat) := by
  have hcopy : ∀ mem, memcpy mem dst src size = .ok (memcpyFrom size.toNat mem dst src) := fun mem => if_pos ⟨hd, hs⟩
  have hsize := size.isLt
  have hbyte : ∀ mem, ∀ i < size.toNat, memcpyFrom size.toNat mem dst src (dst + BitVec.ofNat 32 i) =
      mem (src + BitVec.ofNat 32 (i % (dst - src).toNat)) := by
    intro mem i hi
    rw [memcpyFrom_apply (by omega), Bytes.sub_ofNat dst (by omega), if_pos hi]
  refine ⟨fun mem => ⟨_, hcopy mem, hbyte mem, fun b hb => ?_⟩, ?_, ?_⟩
  · rw [memcpyFrom_apply (by omega), if_neg (by omega)]
  · intro hall
    by_contra hnot
    rw [not_or, Nat.not_le] at hnot
    obtain ⟨hne, hlt⟩ := hnot
    -- a memory with a single byte other than 0, where the destination begins
    have hd0 : (dst - src).toNat ≠ 0 := by
      intro h0
      apply hne
      bv_omega
    have h := hall (fun b => if b = dst then 1 else 0) _ (hcopy _) _ hlt
    rw [hbyte _ _ hlt, Nat.mod_self, BitVec.ofNat_toNat, BitVec.setWidth_eq, show src + (dst - src) = dst by bv_omega,
      if_pos rfl, BitVec.add_zero, if_neg (Ne.symm hne)] at h
    cases h
  · intro hfits mem mem' hmem' i hi
    rw [hcopy] at hmem'
    obtain rfl := Except.ok.inj hmem'
    rw [hbyte mem i hi]
    rcases hfits with rfl | hle
    · rw [BitVec.sub_self, BitVec.toNat_zero, Nat.mod_zero]
    · rw [Nat.mod_eq_of_lt (by omega)]

/-- Four bytes moved up by one: the first is repeated. -/
theorem memcpy_overlap_by_one : ∃ mem', memcpy (fun b => b.setWidth 8) 0x101 0x100 4 = .ok mem' ∧
    mem' 0x104 = 0 ∧ mem' 0x105 = 5 := by
  obtain ⟨mem', hmem', hbyte, hframe⟩ := (memcpy_overlap 0x101 0x100 4 (by decide) (by decide)).1 fun b => b.setWidth 8
  exact ⟨mem', hmem', hbyte 3 (by decide), hframe 0x105 (by decide)⟩

/-! ## Copying a string -/

/-- The loop returns with the pass that copies the first zero byte. -/
theorem strcpyFrom_ok {k : Nat} (hne : ∀ j < k, memcpyFrom j mem dst src (src + BitVec.ofNat 32 j) ≠ 0)
    (h0 : memcpyFrom k mem dst src (src + BitVec.ofNat 32 k) = 0) {fuel : Nat} (hf : k < fuel) :
    strcpyFrom fuel mem dst src = .ok (memcpyFrom (k + 1) mem dst src) := by
  induction k generalizing mem dst src fuel with
  | zero =>
    obtain ⟨fuel, rfl⟩ := Nat.exists_eq_add_of_lt hf
    have hzero : mem src = 0 := by
      have h : mem (src + BitVec.ofNat 32 0) = 0 := h0
      rwa [BitVec.add_zero] at h
    rw [Nat.zero_add, strcpyFrom, if_neg (not_not.2 hzero)]
    rfl
  | succ k ih =>
    obtain ⟨fuel, rfl⟩ := Nat.exists_eq_add_of_lt hf
    have hfirst : mem src ≠ 0 := by
      have h : mem (src + BitVec.ofNat 32 0) ≠ 0 := hne 0 (Nat.succ_pos k)
      rwa [BitVec.add_zero] at h
    rw [strcpyFrom, if_pos hfirst]
    apply ih
    · intro j hj
      have h := hne (j + 1) (Nat.succ_lt_succ hj)
      rwa [Bytes.add_ofNat_succ] at h
    · rwa [Bytes.add_ofNat_succ] at h0
    · omega

/-- The loop goes on while it copies other bytes. -/
theorem strcpyFrom_unfinished {fuel : Nat} (hne : ∀ j < fuel, memcpyFrom j mem dst src (src + BitVec.ofNat 32 j) ≠ 0) :
    strcpyFrom fuel mem dst src = .error .unfinished := by
  induction fuel generalizing mem dst src with
  | zero => rfl
  | succ fuel ih =>
    have hfirst : mem src ≠ 0 := by
      have h : mem (src + BitVec.ofNat 32 0) ≠ 0 := hne 0 (Nat.succ_pos fuel)
      rwa [BitVec.add_zero] at h
    rw [strcpyFrom, if_pos hfirst]
    apply ih
    intro j hj
    have h := hne (j + 1) (Nat.succ_lt_succ hj)
    rwa [Bytes.add_ofNat_succ] at h

/-- The destination is the source itself, or begins after the source's terminator. -/
def Behind (dst src : Word) (bs : List UInt8) : Prop := dst = src ∨ bs.length < (dst - src).toNat

theorem Behind.mod {bs : List UInt8} (h : Behind dst src bs) {i : Nat} (hi : i ≤ bs.length) :
    i % (dst - src).toNat = i := by
  rcases h with rfl | hlt
  · rw [BitVec.sub_self, BitVec.toNat_zero, Nat.mod_zero]
  · exact Nat.mod_eq_of_lt (by omega)

/-- Byte `i` of a string with its terminator. -/
theorem isString_get {bs : List UInt8} (h : Screen.IsString mem src bs) {i : Nat} (hi : i ≤ bs.length) :
    mem (src + BitVec.ofNat 32 i) = (bs.map UInt8.toBitVec ++ [0])[i]?.getD 0 := by
  induction bs generalizing src i with
  | nil =>
    obtain rfl : i = 0 := Nat.le_zero.1 hi
    rw [BitVec.add_zero]
    exact h
  | cons b bs ih =>
    cases i with
    | zero =>
      rw [BitVec.add_zero]
      exact h.1
    | succ i =>
      rw [Bytes.add_ofNat_succ, List.map_cons, List.cons_append, List.getElem?_cons_succ]
      exact ih h.2.2 (Nat.le_of_succ_le_succ hi)

/-- With such a destination the string and its terminator are written there. -/
theorem strcpyFrom_behind {bs : List UInt8} (h : Screen.IsString mem src bs) (hc : Behind dst src bs) {fuel : Nat}
    (hf : bs.length < fuel) :
    strcpyFrom fuel mem dst src = .ok (Bytes.write mem dst (bs.map UInt8.toBitVec ++ [0])) := by
  have hlen := h.length_lt
  have hread : ∀ j ≤ bs.length, memcpyFrom j mem dst src (src + BitVec.ofNat 32 j) = mem (src + BitVec.ofNat 32 j) := by
    intro j hj
    rw [memcpyFrom_read (by omega), hc.mod hj]
  rw [strcpyFrom_ok (k := bs.length) ?_ ?_ hf]
  · congr 1
    funext b
    rw [memcpyFrom_apply (by omega)]
    by_cases hb : (b - dst).toNat < bs.length + 1
    · rw [if_pos hb, hc.mod (by omega), isString_get h (by omega), Bytes.write,
        List.getElem?_eq_getElem (by simpa using hb)]
      rfl
    · rw [if_neg hb, Bytes.write_of_le (by simpa using hb)]
  · intro j hj
    rw [hread j (by omega)]
    exact h.byte_ne hj
  · rw [hread _ (Nat.le_refl _)]
    exact h.end_eq

/-- Otherwise the loop overwrites the terminator before it gets there, and never returns: after the whole address space
has been written, there is no zero byte left. -/
theorem strcpyFrom_not_behind {bs : List UInt8} (h : Screen.IsString mem src bs) (hc : ¬ Behind dst src bs) (fuel : Nat) :
    strcpyFrom fuel mem dst src = .error .unfinished := by
  unfold Behind at hc
  rw [not_or, Nat.not_lt] at hc
  obtain ⟨hne, hle⟩ := hc
  have hd : 0 < (dst - src).toNat := by
    apply Nat.pos_of_ne_zero
    intro h0
    apply hne
    bv_omega
  have hnz : ∀ i, mem (src + BitVec.ofNat 32 (i % (dst - src).toNat)) ≠ 0 := by
    intro i
    have := Nat.mod_lt i hd
    exact h.byte_ne (by omega)
  have hfull : ∀ k b, memcpyFrom (2 ^ 32 + k) mem dst src b ≠ 0 := by
    intro k
    induction k with
    | zero =>
      intro b
      rw [Nat.add_zero, memcpyFrom_apply (Nat.le_refl _), if_pos (b - dst).isLt]
      exact hnz _
    | succ k ih =>
      intro b
      rw [← Nat.add_assoc, memcpyFrom_succ, copyByte, Function.update_apply]
      split_ifs
      · exact ih _
      · exact ih b
  apply strcpyFrom_unfinished
  intro j _
  by_cases hj : j < 2 ^ 32
  · rw [memcpyFrom_read hj]
    exact hnz j
  · obtain ⟨k, rfl⟩ := Nat.exists_eq_add_of_le (Nat.le_of_not_lt hj)
    exact hfull k _

/-! ## `strcpy` and `strcat` -/

/-- The same bytes at another place are the same string. -/
theorem isString_copy {mem' : Mem} {bs : List UInt8} (h : Screen.IsString mem src bs)
    (hcopy : ∀ i ≤ bs.length, mem' (dst + BitVec.ofNat 32 i) = mem (src + BitVec.ofNat 32 i)) :
    Screen.IsString mem' dst bs := by
  induction bs generalizing dst src with
  | nil =>
    have h0 := hcopy 0 (Nat.le_refl 0)
    rw [BitVec.add_zero, BitVec.add_zero] at h0
    exact h0.trans h
  | cons b bs ih =>
    have h0 := hcopy 0 (Nat.zero_le _)
    rw [BitVec.add_zero, BitVec.add_zero] at h0
    refine ⟨h0.trans h.1, h.2.1, ih h.2.2 ?_⟩
    intro i hi
    rw [← Bytes.add_ofNat_succ, ← Bytes.add_ofNat_succ]
    exact hcopy (i + 1) (Nat.succ_le_succ hi)

/-- A string in the place of the terminator of another. -/
theorem isString_append {mem' : Mem} {as bs : List UInt8} (h : Screen.IsString mem dst as)
    (hsame : ∀ i < as.length, mem' (dst + BitVec.ofNat 32 i) = mem (dst + BitVec.ofNat 32 i))
    (hend : Screen.IsString mem' (dst + BitVec.ofNat 32 as.length) bs) : Screen.IsString mem' dst (as ++ bs) := by
  induction as generalizing dst with
  | nil =>
    rw [List.length_nil, BitVec.add_zero] at hend
    exact hend
  | cons a as ih =>
    have h0 := hsame 0 (Nat.succ_pos _)
    rw [BitVec.add_zero] at h0
    refine ⟨h0.trans h.1, h.2.1, ih h.2.2 ?_ ?_⟩
    · intro i hi
      rw [← Bytes.add_ofNat_succ]
      exact hsame (i + 1) (Nat.succ_lt_succ hi)
    · rw [← Bytes.add_ofNat_succ]
      exact hend

/-- Two strings with a byte in common end at the same place. -/
theorem isString_meet {as bs : List UInt8} (ha : Screen.IsString mem dst as) (hb : Screen.IsString mem src bs) {i j : Nat}
    (hi : i ≤ as.length) (hj : j ≤ bs.length) (hmeet : dst + BitVec.ofNat 32 i = src + BitVec.ofNat 32 j) :
    as.length - i = bs.length - j := by
  have hshift : ∀ k, dst + BitVec.ofNat 32 (i + k) = src + BitVec.ofNat 32 (j + k) := by
    intro k
    rw [BitVec.ofNat_add, BitVec.ofNat_add, ← BitVec.add_assoc, ← BitVec.add_assoc, hmeet]
  rcases Nat.lt_trichotomy (as.length - i) (bs.length - j) with hlt | heq | hlt
  · have hzero := ha.end_eq
    rw [show as.length = i + (as.length - i) by omega, hshift] at hzero
    exact absurd hzero (hb.byte_ne (by omega))
  · exact heq
  · have hzero := hb.end_eq
    rw [show bs.length = j + (bs.length - j) by omega, ← hshift] at hzero
    exact absurd hzero (ha.byte_ne (by omega))

theorem sub_swap (dst src : Word) : (src - dst).toNat = (2 ^ 32 - (dst - src).toNat) % 2 ^ 32 := by
  rw [← BitVec.toNat_neg, BitVec.neg_sub, BitVec.add_comm, ← BitVec.sub_eq_add_neg]

theorem add_sub_toNat (dst src : Word) {n : Nat} (hn : n < 2 ^ 32) :
    (dst + BitVec.ofNat 32 n - src).toNat = ((dst - src).toNat + n) % 2 ^ 32 := by
  rw [show dst + BitVec.ofNat 32 n - src = dst - src + BitVec.ofNat 32 n by
    rw [BitVec.sub_eq_add_neg, BitVec.sub_eq_add_neg, BitVec.add_assoc, BitVec.add_assoc, BitVec.add_comm (-src)]]
  rw [BitVec.toNat_add, BitVec.toNat_ofNat, Nat.mod_eq_of_lt hn]

/-- A source that ends before the end of the destination string has no byte in common with it. -/
theorem Behind.disjoint {as bs : List UInt8} (ha : Screen.IsString mem dst as) (hb : Screen.IsString mem src bs)
    (hc : Behind (dst + BitVec.ofNat 32 as.length) src bs) : as.length + bs.length < 2 ^ 32 := by
  have hla := ha.length_lt
  have hlb := hb.length_lt
  by_contra hge
  -- the strings are so long that they meet
  rcases hc with hend | hlt
  · have hzero := ha.end_eq
    rw [hend, mem_eq_zero hb] at hzero
    rw [hzero, List.length_nil] at hge
    omega
  · rw [add_sub_toNat dst src hla] at hlt
    have hswap := sub_swap dst src
    have hd := (dst - src).isLt
    by_cases hin : (src - dst).toNat ≤ as.length
    · have hmeet : dst + BitVec.ofNat 32 (src - dst).toNat = src + BitVec.ofNat 32 0 := by
        rw [BitVec.ofNat_toNat, BitVec.setWidth_eq, BitVec.add_zero, BitVec.add_comm, BitVec.sub_add_cancel]
      have := isString_meet ha hb hin (Nat.zero_le _) hmeet
      omega
    · have hmeet : dst + BitVec.ofNat 32 0 = src + BitVec.ofNat 32 (dst - src).toNat := by
        rw [BitVec.ofNat_toNat, BitVec.setWidth_eq, BitVec.add_zero, BitVec.add_comm, BitVec.sub_add_cancel]
      have := isString_meet ha hb (Nat.zero_le _) (show (dst - src).toNat ≤ bs.length by omega) hmeet
      omega

/-- The loop that looks for the terminator, cut off before it. -/
theorem strlenFrom_unfinished {bs : List UInt8} (h : Screen.IsString mem src bs) {fuel : Nat} (hf : fuel ≤ bs.length) :
    (strlenFrom mem fuel src).result = .error .unfinished := by
  induction fuel generalizing src bs with
  | zero => rfl
  | succ fuel ih =>
    cases bs with
    | nil => cases hf
    | cons b bs =>
      rw [strlenFrom, readChar_bind, if_pos ((mem_eq_zero h).not.2 (List.cons_ne_nil b bs))]
      exact ih h.2.2 (Nat.le_of_succ_le_succ hf)

/-- `strcat` copies to the end of the string at `dst`. -/
theorem strcat_eq {as : List UInt8} (ha : Screen.IsString mem dst as) (hd : dst ≠ 0) (hs : src ≠ 0) (fuel : Nat) :
    strcat mem fuel dst src = if as.length < fuel then
      (strcpyFrom fuel mem (dst + BitVec.ofNat 32 as.length) src).map fun mem' => (mem', dst)
    else .error .unfinished := by
  unfold strcat
  rw [if_pos ⟨hd, hs⟩]
  by_cases hf : as.length < fuel
  · have hend : dst + BitVec.ofNat 32 (as.length + 1) - 1 = dst + BitVec.ofNat 32 as.length := by
      rw [BitVec.ofNat_add, ← BitVec.add_assoc]
      exact BitVec.add_sub_cancel _ _
    rw [if_pos hf, strlenFrom_end ha hf, Except.ok_bind, hend]
    rfl
  · rw [if_neg hf, strlenFrom_unfinished ha (Nat.le_of_not_lt hf)]
    rfl

theorem strcat_not_behind {as bs : List UInt8} (ha : Screen.IsString mem dst as) (hb : Screen.IsString mem src bs)
    (hd : dst ≠ 0) (hs : src ≠ 0) (hc : ¬ Behind (dst + BitVec.ofNat 32 as.length) src bs) (fuel : Nat) :
    strcat mem fuel dst src = .error .unfinished := by
  rw [strcat_eq ha hd hs, strcpyFrom_not_behind hb hc]
  split_ifs
  · rfl
  · rfl

/-- With such an end, the two strings stand one after the other. -/
theorem strcat_behind {as bs : List UInt8} (ha : Screen.IsString mem dst as) (hb : Screen.IsString mem src bs)
    (hd : dst ≠ 0) (hs : src ≠ 0) (hc : Behind (dst + BitVec.ofNat 32 as.length) src bs) :
    ∃ mem', (∀ fuel, as.length < fuel → bs.length < fuel → strcat mem fuel dst src = .ok (mem', dst)) ∧
      Screen.IsString mem' dst (as ++ bs) ∧
      ∀ b, bs.length < (b - (dst + BitVec.ofNat 32 as.length)).toNat → mem' b = mem b := by
  have hlenA := ha.length_lt
  have hlenB := hb.length_lt
  have hsum := hc.disjoint ha hb
  have hlen : (bs.map UInt8.toBitVec ++ [0]).length = bs.length + 1 := by simp
  refine ⟨Bytes.write mem (dst + BitVec.ofNat 32 as.length) (bs.map UInt8.toBitVec ++ [0]), ?_,
    isString_append ha ?_ (isString_copy hb ?_), ?_⟩
  · intro fuel hfa hfb
    rw [strcat_eq ha hd hs, if_pos hfa, strcpyFrom_behind hb hc hfb]
    rfl
  · intro i hi
    apply Bytes.write_of_le
    rw [hlen, show dst + BitVec.ofNat 32 i - (dst + BitVec.ofNat 32 as.length) =
      BitVec.ofNat 32 i - BitVec.ofNat 32 as.length by bv_omega, BitVec.toNat_sub, BitVec.toNat_ofNat, BitVec.toNat_ofNat]
    omega
  · intro i hi
    rw [isString_get hb hi, Bytes.write, Bytes.sub_ofNat _ (by omega),
      List.getElem?_eq_getElem (show i < (bs.map UInt8.toBitVec ++ [0]).length by omega)]
    rfl
  · intro b hlt
    apply Bytes.write_of_le
    omega

/-- **When `strcpy` and `strcat` return.** For every source string `bs`, wherever it stands and whatever else is in
memory. `strcpy` returns, having written the string with its terminator at `dst` and nothing else, if `dst` is the source
or does not begin inside it up to its terminator; otherwise it never returns. `strcat` does so at the end of the string
`as` at `dst`, where `as ++ bs` then stands; appending a string to itself returns only if it is empty. -/
theorem strcpy_strcat_return_iff {mem : Mem} {dst src : Word} {as bs : List UInt8} (hd : dst ≠ 0) (hs : src ≠ 0)
    (ha : Screen.IsString mem dst as) (hb : Screen.IsString mem src bs) :
    (Behind dst src bs → ∀ fuel, bs.length < fuel →
      strcpy mem fuel dst src = .ok (Bytes.write mem dst (bs.map UInt8.toBitVec ++ [0]), dst)) ∧
    (¬ Behind dst src bs → ∀ fuel, strcpy mem fuel dst src = .error .unfinished) ∧
    (Behind (dst + BitVec.ofNat 32 as.length) src bs →
      ∃ mem', (∀ fuel, as.length < fuel → bs.length < fuel → strcat mem fuel dst src = .ok (mem', dst)) ∧
        Screen.IsString mem' dst (as ++ bs) ∧
        ∀ b, bs.length < (b - (dst + BitVec.ofNat 32 as.length)).toNat → mem' b = mem b) ∧
    (¬ Behind (dst + BitVec.ofNat 32 as.length) src bs → ∀ fuel, strcat mem fuel dst src = .error .unfinished) ∧
    ((∃ fuel r, strcat mem fuel dst dst = .ok r) ↔ as = []) := by
  have heq : ∀ fuel, strcpy mem fuel dst src = (strcpyFrom fuel mem dst src).map fun mem' => (mem', dst) :=
    fun fuel => if_pos ⟨hd, hs⟩
  refine ⟨?_, ?_, strcat_behind ha hb hd hs, strcat_not_behind ha hb hd hs, ?_⟩
  · intro hc fuel hf
    rw [heq, strcpyFrom_behind hb hc hf]
    rfl
  · intro hc fuel
    rw [heq, strcpyFrom_not_behind hb hc]
    rfl
  · constructor
    · intro ⟨fuel, r, hr⟩
      by_contra hne
      have hlen := ha.length_lt
      have hc : ¬ Behind (dst + BitVec.ofNat 32 as.length) dst as := by
        intro hc
        rcases hc with hend | hlt
        · have hzero := ha.end_eq
          rw [hend] at hzero
          exact hne ((mem_eq_zero ha).1 hzero)
        · rw [Bytes.sub_ofNat dst hlen] at hlt
          exact Nat.lt_irrefl _ hlt
      rw [strcat_not_behind ha ha hd hd hc] at hr
      cases hr
    · intro hnil
      obtain ⟨mem', hret, -⟩ := strcat_behind ha ha hd hd (.inl (by rw [hnil]; exact BitVec.add_zero dst))
      exact ⟨as.length + 1, _, hret _ (Nat.lt_succ_self _) (Nat.lt_succ_self _)⟩

/-- The string `b` appended to itself, with another one behind it. -/
theorem strcpy_strcat_return_b : Screen.IsString someStrings 2 [0x62] ∧ Screen.IsString someStrings 4 [0x62] ∧
    ¬ ∃ fuel r, strcat someStrings fuel 2 2 = .ok r := by
  have h2 : Screen.IsString someStrings 2 [0x62] := ⟨by decide, by decide, rfl⟩
  have h4 : Screen.IsString someStrings 4 [0x62] := ⟨by decide, by decide, rfl⟩
  refine ⟨h2, h4, ?_⟩
  rw [(strcpy_strcat_return_iff (by decide) (by decide) h2 h4).2.2.2.2]
  exact List.cons_ne_nil _ _

end Strings

end ElephantOS
