import ElephantOS.Device.Console
import ElephantOS.Lib.Loop
import ElephantOS.Lib.Numeral

/-!
# Printing numbers (`lib/kernel/print.c`)

The digits of a number are put into a buffer on the stack, the last one first, and reversed there.

* `sysPutint`, `sysPuthex` : the two functions. `none` is a write outside the buffer, or a loop that has not ended
  after `fuel` passes;
* `ends_chars` : the characters a loop leaves in the buffer; `reverseChars_eq` : and in which order;
* `PrintsInt`, `PrintsHex` : what is printed is the numeral of the number;
* `printed_numbers_read_back` : when it is.
-/

namespace ElephantOS
open Bytes (Word Mem)
open Loop

namespace Print

/-- `str_num[i] = c` for a buffer of `size` bytes at `strNum`. -/
def setChar (size : Nat) (mem : Mem) (strNum : Word) (i : Nat) (c : BitVec 8) : Option Mem :=
  if i < size then some (Bytes.write mem (strNum + BitVec.ofNat 32 i) [c]) else none

structure Digits where
  mem : Mem
  cnt : Nat
  num : Word

/-- `for (int i = 0; i < cnt/2; i++)`, with `n` passes left: the bytes `i` and `cnt - i - 1` change places. -/
def reverseChars (size : Nat) (strNum : Word) (cnt : Nat) : Nat → Nat → Mem → Option Mem
  | 0, _, mem => some mem
  | n + 1, i, mem => do
    let t := mem (strNum + BitVec.ofNat 32 i)
    let mem ← setChar size mem strNum i (mem (strNum + BitVec.ofNat 32 (cnt - i - 1)))
    let mem ← setChar size mem strNum (cnt - i - 1) t
    reverseChars size strNum cnt n (i + 1) mem

/-- One pass of the loop of `sys_putint`. Both operators round towards zero. -/
def putintDigit (strNum : Word) (t : Digits) : Option Digits := do
  let mem ← setChar 16 t.mem strNum t.cnt ((t.num.srem 10 + 0x30).setWidth 8)
  return { mem, cnt := t.cnt + 1, num := t.num.sdiv 10 }

/-- What `sys_putint` writes before it calls `sys_putstr`. -/
def putintChars (mem : Mem) (strNum : Word) (num : Word) (fuel : Nat) : Option Mem := do
  let negFlag := num.slt 0
  let num := if negFlag then -num else num
  let t ← Loop.run (putintDigit strNum) (fun t => t.num == 0) fuel { mem, cnt := 0, num }
  let mem ← if negFlag then setChar 16 t.mem strNum t.cnt 0x2D else some t.mem
  let cnt := if negFlag then t.cnt + 1 else t.cnt
  let mem ← setChar 16 mem strNum cnt 0
  reverseChars 16 strNum cnt (cnt / 2) 0 mem

def sysPutint (mem : Mem) (strNum : Word) (fuel : Nat) (s : Screen) (num : Word) : Option (Draw (Screen × Word)) := do
  let mem ← putintChars mem strNum num fuel
  return s.sysPutstr mem fuel strNum

/-- One pass of the loop of `sys_puthex`. The character is changed in its place. -/
def puthexDigit (strNum : Word) (t : Digits) : Option Digits := do
  let mem ← setChar 12 t.mem strNum t.cnt ((t.num % 16).setWidth 8)
  let c := mem (strNum + BitVec.ofNat 32 t.cnt)
  let mem ← setChar 12 mem strNum t.cnt (if (9 : BitVec 8).slt c then c + (0x41 - 10) else c + 0x30)
  return { mem, cnt := t.cnt + 1, num := t.num / 16 }

/-- What `sys_puthex` writes before it calls `sys_putstr`, for numbers other than 0. -/
def puthexChars (mem : Mem) (strNum : Word) (num : Word) (fuel : Nat) : Option Mem := do
  -- `num` is not 0 on entry, so that `while (num)` always makes its first pass
  let t ← Loop.run (puthexDigit strNum) (fun t => t.num == 0) fuel { mem, cnt := 0, num }
  let mem ← setChar 12 t.mem strNum t.cnt 0
  reverseChars 12 strNum t.cnt (t.cnt / 2) 0 mem

def sysPuthex (mem : Mem) (strNum : Word) (fuel : Nat) (s : Screen) (num : Word) : Option (Draw (Screen × Word)) :=
  if num = 0 then
    some do
      let s ← s.sysPutchar 0x30
      return (s, 1)
  else do
    let mem ← puthexChars mem strNum num fuel
    return s.sysPutstr mem fuel strNum

/-! ## The buffer -/

variable {size : Nat} {mem : Mem} {p : Word}

theorem setChar_append {cs : List (BitVec 8)} (hsize : cs.length < size) (hmax : size ≤ 2 ^ 32) (c : BitVec 8) :
    setChar size (Bytes.write mem p cs) p cs.length c = some (Bytes.write mem p (cs ++ [c])) := by
  rw [setChar, if_pos hsize, Bytes.write_append mem p (by rw [List.length_singleton]; omega)]

theorem setChar_set {cs : List (BitVec 8)} {i : Nat} (hi : i < cs.length) (hsize : i < size)
    (hmax : cs.length ≤ 2 ^ 32) (c : BitVec 8) :
    setChar size (Bytes.write mem p cs) p i c = some (Bytes.write mem p (cs.set i c)) := by
  rw [setChar, if_pos hsize]
  apply congrArg some
  funext b
  unfold Bytes.write
  by_cases hb : (b - p).toNat = i
  · have hzero : (b - (p + BitVec.ofNat 32 i)).toNat = 0 := by bv_omega
    rw [hzero, hb, List.getElem?_set_self hi]
    rfl
  · have hpos : 1 ≤ (b - (p + BitVec.ofNat 32 i)).toNat := by bv_omega
    rw [List.getElem?_eq_none (l := [c]) (by simpa using hpos), List.getElem?_set_ne (Ne.symm hb)]
    rfl

theorem write_apply {cs : List (BitVec 8)} {i : Nat} (hi : i < cs.length) (hmax : cs.length ≤ 2 ^ 32) :
    Bytes.write mem p cs (p + BitVec.ofNat 32 i) = cs[i] := Bytes.byteAt_write hi hmax

/-- The loop that reverses the bytes of `mid`, between those already in place. -/
theorem reverseChars_mid {cnt n : Nat} (hsize : cnt ≤ size) (pre mid post : List (BitVec 8))
    (hmax : pre.length + mid.length + post.length ≤ 2 ^ 32) (hn : mid.length / 2 = n)
    (hcnt : pre.length + mid.length + pre.length = cnt) :
    reverseChars size p cnt n pre.length (Bytes.write mem p (pre ++ mid ++ post)) =
      some (Bytes.write mem p (pre ++ mid.reverse ++ post)) := by
  induction n generalizing pre mid post with
  | zero =>
    have hrev : mid.reverse = mid := by
      match mid with
      | [] => rfl
      | [x] => rfl
      | x :: y :: rest =>
        simp only [List.length_cons] at hn
        omega
    rw [hrev]
    rfl
  | succ n ih =>
    obtain ⟨x, rest, rfl⟩ := List.exists_cons_of_length_pos (show 0 < mid.length by omega)
    have hrest : rest ≠ [] := by
      rintro rfl
      simp at hn
    obtain ⟨mid', y, rfl⟩ : ∃ mid' y, rest = mid' ++ [y] :=
      ⟨_, _, (List.dropLast_append_getLast hrest).symm⟩
    simp only [List.length_cons, List.length_append, List.length_nil] at hmax hn hcnt
    -- the two bytes that change places, and the list after the first and the second write
    have hx : Bytes.write mem p (pre ++ x :: (mid' ++ [y]) ++ post) (p + BitVec.ofNat 32 pre.length) = x := by
      rw [write_apply (by simp) (by simp; omega)]
      simp
    have hyi : cnt - pre.length - 1 = (pre ++ x :: mid').length := by
      simp only [List.length_append, List.length_cons]
      omega
    have hy : Bytes.write mem p (pre ++ x :: (mid' ++ [y]) ++ post)
        (p + BitVec.ofNat 32 (cnt - pre.length - 1)) = y := by
      rw [hyi, write_apply (by simp) (by simp; omega)]
      simp
    have hset₁ : (pre ++ x :: (mid' ++ [y]) ++ post).set pre.length y = pre ++ y :: (mid' ++ [y]) ++ post := by
      simp
    have hset₂ : (pre ++ y :: (mid' ++ [y]) ++ post).set (cnt - pre.length - 1) x =
        pre ++ [y] ++ mid' ++ (x :: post) := by
      have hlist : pre ++ y :: (mid' ++ [y]) ++ post = (pre ++ y :: mid') ++ y :: post := by simp
      rw [hyi, hlist, List.set_append_right _ _ (by simp)]
      simp
    rw [reverseChars, hx, hy, setChar_set (by simp) (by omega) (by simp; omega), hset₁, Option.bind_eq_bind,
      Option.bind_some, setChar_set (by simp; omega) (by omega) (by simp; omega), hset₂, Option.bind_some]
    have ih := ih (pre ++ [y]) mid' (x :: post) (by simp; omega) (by omega) (by simp; omega)
    rw [List.length_append, List.length_singleton] at ih
    rw [ih]
    simp

theorem reverseChars_eq {cs : List (BitVec 8)} (hsize : cs.length ≤ size) (hmax : size < 2 ^ 32) :
    reverseChars size p cs.length (cs.length / 2) 0 (Bytes.write mem p (cs ++ [0])) =
      some (Bytes.write mem p (cs.reverse ++ [0])) :=
  reverseChars_mid hsize [] cs [0] (by simp; omega) rfl (by simp)

/-! ## The loops -/

/-- The characters that `n` passes leave in the buffer, when a pass writes `c num` and goes on with `f num`. -/
theorem ends_chars {c : Word → BitVec 8} {f : Word → Word} {body : Digits → Option Digits}
    (hbody : ∀ t, body t = (setChar size t.mem p t.cnt (c t.num)).map fun m => { mem := m, cnt := t.cnt + 1, num := f t.num })
    {num : Word} {n : Nat} (hn : 0 < n) (hsize : n ≤ size) (hmax : size < 2 ^ 32)
    (hstop : ∀ i < n, (Nat.iterate f (i + 1) num = 0 ↔ i + 1 = n)) (mem : Mem) :
    Ends (fun fuel => Loop.run body (fun t => t.num == 0) fuel { mem, cnt := 0, num })
      { mem := Bytes.write mem p ((List.range n).map fun i => c (Nat.iterate f i num)), cnt := n, num := 0 } := by
  let Inv : Nat → Digits → Prop := fun i t => t =
    { mem := Bytes.write mem p ((List.range i).map fun j => c (Nat.iterate f j num)), cnt := i, num := Nat.iterate f i num }
  have hstep : ∀ i t, i < n → Inv i t → ∃ u, body t = some u ∧ Inv (i + 1) u ∧ ((u.num == 0) = true ↔ i + 1 = n) := by
    rintro i t hi rfl
    refine ⟨_, ?_, rfl, ?_⟩
    · rw [hbody]
      have happ := @setChar_append size mem p ((List.range i).map fun j => c (Nat.iterate f j num))
        (by simp; omega) (by omega) (c (Nat.iterate f i num))
      rw [List.length_map, List.length_range] at happ
      rw [happ, List.range_succ, List.map_append, Function.iterate_succ_apply']
      rfl
    · rw [beq_iff_eq]
      exact hstop i hi
  obtain ⟨t, hends, ht⟩ := Loop.ends_run hn hstep (show Inv 0 { mem, cnt := 0, num } from rfl)
  have hlast : Nat.iterate f n num = 0 := by
    have := (hstop (n - 1) (by omega)).2 (by omega)
    rwa [show n - 1 + 1 = n by omega] at this
  rw [ht, hlast] at hends
  exact hends

/-- The characters of the digits of a number, the least digit first. -/
def digitChars (b n : Nat) : List (BitVec 8) := (Numeral.digits b n).map fun d => (Numeral.digitChar d).toBitVec

@[simp] theorem length_digitChars (b n : Nat) : (digitChars b n).length = (Numeral.digits b n).length :=
  List.length_map _

/-- A loop that divides by `b` leaves the digits of the number. -/
theorem ends_digits {c : Word → BitVec 8} {f : Word → Word} {body : Digits → Option Digits}
    (hbody : ∀ t, body t = (setChar size t.mem p t.cnt (c t.num)).map fun m => { mem := m, cnt := t.cnt + 1, num := f t.num })
    {b : Nat} (hb : 1 < b) {num : Word} (hf : ∀ w : Word, w.toNat ≤ num.toNat → (f w).toNat = w.toNat / b)
    (hc : ∀ w : Word, w.toNat ≤ num.toNat → c w = (Numeral.digitChar (w.toNat % b)).toBitVec)
    (hsize : (Numeral.digits b num.toNat).length ≤ size) (hmax : size < 2 ^ 32) (mem : Mem) :
    Ends (fun fuel => Loop.run body (fun t => t.num == 0) fuel { mem, cnt := 0, num })
      { mem := Bytes.write mem p (digitChars b num.toNat), cnt := (digitChars b num.toNat).length, num := 0 } := by
  have hiter : ∀ i, (Nat.iterate f i num).toNat = num.toNat / b ^ i := by
    intro i
    induction i with
    | zero => rw [Nat.pow_zero, Nat.div_one]; rfl
    | succ i ih =>
      rw [Function.iterate_succ_apply', hf _ (by rw [ih]; exact Nat.div_le_self _ _), ih, Nat.div_div_eq_div_mul,
        Nat.pow_succ]
  have hchars : digitChars b num.toNat = (List.range (Numeral.digits b num.toNat).length).map fun i => c (Nat.iterate f i num) := by
    apply List.ext_getElem
    · simp
    · intro i hi hi'
      rw [length_digitChars] at hi
      simp only [digitChars]
      rw [List.getElem_map, List.getElem_map, List.getElem_range, Numeral.getElem_digits _ hb hi,
        hc _ (by rw [hiter]; exact Nat.div_le_self _ _), hiter]
  rw [length_digitChars, hchars]
  apply ends_chars hbody (List.length_pos_of_ne_nil (Numeral.digits_ne_nil _)) hsize hmax
  intro i hi
  have hzero : Nat.iterate f (i + 1) num = 0 ↔ num.toNat / b ^ (i + 1) = 0 := by
    rw [← hiter]
    exact ⟨fun h => by rw [h]; rfl, fun h => BitVec.eq_of_toNat_eq h⟩
  have hpow : 0 < b ^ (i + 1) := Nat.pow_pos (by omega)
  rw [hzero, Nat.div_eq_zero_iff_lt hpow, ← Numeral.length_digits_le _ hb (Nat.succ_pos i)]
  omega

def decChar (num : Word) : BitVec 8 := (num.srem 10 + 0x30).setWidth 8

theorem putintDigit_eq (t : Digits) : putintDigit p t =
    (setChar 16 t.mem p t.cnt (decChar t.num)).map
      fun m => { mem := m, cnt := t.cnt + 1, num := t.num.sdiv 10 } := by
  rw [putintDigit, ← decChar]
  cases setChar 16 t.mem p t.cnt (decChar t.num) with
  | none => rfl
  | some m => rfl

def hexChar (num : Word) : BitVec 8 :=
  let c := (num % 16).setWidth 8
  if (9 : BitVec 8).slt c then c + (0x41 - 10) else c + 0x30

theorem write_self (m : Mem) (a : Word) (x : BitVec 8) : Bytes.write m a [x] a = x := by
  unfold Bytes.write
  rw [BitVec.sub_self]
  rfl

theorem write_write (m : Mem) (a : Word) (x y : BitVec 8) :
    Bytes.write (Bytes.write m a [x]) a [y] = Bytes.write m a [y] := by
  funext b
  unfold Bytes.write
  by_cases hb : (b - a).toNat = 0
  · rw [hb]
    rfl
  · rw [List.getElem?_eq_none (show [x].length ≤ (b - a).toNat from Nat.pos_of_ne_zero hb)]
    rfl

theorem puthexDigit_eq (t : Digits) : puthexDigit p t =
    (setChar 12 t.mem p t.cnt (hexChar t.num)).map fun m => { mem := m, cnt := t.cnt + 1, num := t.num / 16 } := by
  rw [puthexDigit]
  by_cases hcnt : t.cnt < 12
  · simp only [setChar, if_pos hcnt, Option.bind_eq_bind, Option.bind_some, write_self, write_write]
    rfl
  · rw [setChar, setChar, if_neg hcnt, if_neg hcnt]
    rfl

/-! ## Digits of both bases -/

theorem msb_of_lt {w : Word} (h : w.toNat < 2 ^ 31) : w.msb = false := by
  rw [BitVec.msb_eq_false_iff_two_mul_lt]
  omega

theorem toNat_sdiv_ten {w : Word} (h : w.toNat < 2 ^ 31) : (w.sdiv 10).toNat = w.toNat / 10 := by
  rw [BitVec.sdiv_eq, msb_of_lt h]
  rfl

theorem decChar_eq {w : Word} (h : w.toNat < 2 ^ 31) :
    decChar w = (Numeral.digitChar (w.toNat % 10)).toBitVec := by
  have hmod : w.srem 10 = w % 10 := by
    rw [BitVec.srem_eq, msb_of_lt h]
    rfl
  have hlt : w.toNat % 10 < 10 := Nat.mod_lt _ (by decide)
  apply BitVec.eq_of_toNat_eq
  rw [decChar, hmod, Numeral.digitChar, if_pos (by omega), BitVec.toNat_setWidth, BitVec.toNat_add, BitVec.toNat_umod]
  show (w.toNat % 10 + 48) % 2 ^ 32 % 2 ^ 8 = (UInt8.ofNat (0x30 + w.toNat % 10)).toNat
  rw [UInt8.toNat_ofNat']
  omega

theorem hexChar_eq (w : Word) : hexChar w = (Numeral.digitChar (w.toNat % 16)).toBitVec := by
  have hdigit : ∀ d < 16, (if (9 : BitVec 8).slt (BitVec.ofNat 8 d) then BitVec.ofNat 8 d + (0x41 - 10)
      else BitVec.ofNat 8 d + 0x30) = (Numeral.digitChar d).toBitVec := by decide
  have hc : (w % 16).setWidth 8 = BitVec.ofNat 8 (w.toNat % 16) := by
    apply BitVec.eq_of_toNat_eq
    rw [BitVec.toNat_setWidth, BitVec.toNat_umod, BitVec.toNat_ofNat]
    rfl
  rw [hexChar, hc]
  exact hdigit _ (Nat.mod_lt _ (by decide))

/-! ## The strings -/

theorem isString_of_byteAt {m : Mem} {a : Word} {bs : List UInt8} (hne : ∀ c ∈ bs, c ≠ 0)
    (hbytes : ∀ i (hi : i < bs.length), m (a + BitVec.ofNat 32 i) = bs[i].toBitVec)
    (hend : m (a + BitVec.ofNat 32 bs.length) = 0) : Screen.IsString m a bs := by
  induction bs generalizing a with
  | nil =>
    rw [show a + BitVec.ofNat 32 ([] : List UInt8).length = a from BitVec.add_zero a] at hend
    exact hend
  | cons c bs ih =>
    refine ⟨?_, hne c List.mem_cons_self, ?_⟩
    · have h0 := hbytes 0 (Nat.succ_pos _)
      rwa [show a + BitVec.ofNat 32 0 = a from BitVec.add_zero a] at h0
    · apply ih fun d hd => hne d (List.mem_cons_of_mem c hd)
      · intro i hi
        rw [← Bytes.add_ofNat_succ]
        exact hbytes (i + 1) (Nat.succ_lt_succ hi)
      · rw [← Bytes.add_ofNat_succ]
        exact hend

theorem isString_write {bs : List UInt8} (hne : ∀ c ∈ bs, c ≠ 0) (hlen : bs.length < 2 ^ 32) :
    Screen.IsString (Bytes.write mem p (bs.map UInt8.toBitVec ++ [0])) p bs := by
  apply isString_of_byteAt hne
  · intro i hi
    rw [write_apply (by simp; omega) (by simp; omega), List.getElem_append_left (by simpa using hi), List.getElem_map]
  · rw [write_apply (by simp) (by simp; omega), List.getElem_append_right (by simp)]
    simp

theorem isString_unique {m : Mem} {a : Word} {bs bs' : List UInt8} (h : Screen.IsString m a bs)
    (h' : Screen.IsString m a bs') : bs = bs' := by
  induction bs generalizing a bs' with
  | nil =>
    cases bs' with
    | nil => rfl
    | cons c bs' => exact absurd (UInt8.toBitVec_inj.1 (h'.1.symm.trans h)) h'.2.1
  | cons b bs ih =>
    cases bs' with
    | nil => exact absurd (UInt8.toBitVec_inj.1 (h.1.symm.trans h')) h.2.1
    | cons c bs' =>
      rw [UInt8.toBitVec_inj.1 (h.1.symm.trans h'.1), ih h.2.2 h'.2.2]

/-- `sys_putint` after its first loop: the sign, the terminator, and the bytes reversed. -/
theorem ends_putintChars {num : Word} {cs : List (BitVec 8)}
    (hloop : Ends (fun fuel => Loop.run (putintDigit p) (fun t => t.num == 0) fuel
      { mem, cnt := 0, num := if num.slt 0 then -num else num })
      { mem := Bytes.write mem p cs, cnt := cs.length, num := 0 }) (hlen : cs.length + 2 ≤ 16) :
    Ends (putintChars mem p num)
      (Bytes.write mem p ((cs ++ if num.slt 0 then [0x2D] else []).reverse ++ [0])) := by
  apply hloop.bind
  refine ⟨0, ?_⟩
  intro fuel _
  cases hneg : num.slt 0 with
  | true =>
    have hend := @setChar_append 16 mem p (cs ++ [0x2D]) (by simp; omega) (by decide) 0
    have hrev := @reverseChars_eq 16 mem p (cs ++ [0x2D]) (by simp; omega) (by decide)
    rw [List.length_append, List.length_singleton] at hend hrev
    simp only [if_true, setChar_append (show cs.length < 16 by omega) (by decide), Option.bind_eq_bind,
      Option.bind_some, hend, hrev]
  | false =>
    simp only [Bool.false_eq_true, if_false, Option.bind_eq_bind, Option.bind_some,
      setChar_append (show cs.length < 16 by omega) (by decide),
      reverseChars_eq (show cs.length ≤ 16 by omega) (by decide), List.append_nil]

theorem ends_puthexChars {num : Word} {cs : List (BitVec 8)}
    (hloop : Ends (fun fuel => Loop.run (puthexDigit p) (fun t => t.num == 0) fuel { mem, cnt := 0, num })
      { mem := Bytes.write mem p cs, cnt := cs.length, num := 0 }) (hlen : cs.length + 1 ≤ 12) :
    Ends (puthexChars mem p num) (Bytes.write mem p (cs.reverse ++ [0])) := by
  apply hloop.bind
  refine ⟨0, ?_⟩
  intro fuel _
  simp only [Option.bind_eq_bind, Option.bind_some, setChar_append (show cs.length < 12 by omega) (by decide),
    reverseChars_eq (show cs.length ≤ 12 by omega) (by decide)]

/-! ## What is printed -/

/-- Given enough fuel, `f` writes the characters `bs` on any screen with the cursor on it, and returns their number. -/
def Prints (f : Nat → Screen → Option (Draw (Screen × Word))) (bs : List UInt8) : Prop :=
  ∀ (s : Screen) (h : s.cursor < 2000), ∃ k, ∀ fuel, k ≤ fuel →
    ∃ (x : Draw (Screen × Word)) (s' : Screen) (n : Word) (h' : s'.cursor < 2000), f fuel s = some x ∧
      x.result = .ok (s', n) ∧ s'.terminal h' = bs.foldl Screen.refTerminal (s.terminal h) ∧ n.toNat = bs.length

theorem prints_of_isString {chars : Nat → Option Mem} {m : Mem} {bs : List UInt8} (hends : Ends chars m)
    (hstr : Screen.IsString m p bs) (h8 : 0x08 ∉ bs) :
    Prints (fun fuel s => (chars fuel).bind fun mem => some (s.sysPutstr mem fuel p)) bs := by
  intro s h
  obtain ⟨k, hk⟩ := hends
  refine ⟨max k (bs.length + 1), ?_⟩
  intro fuel hfuel
  obtain ⟨s', hres, hshows⟩ := Screen.putNext_refTerminal hstr h8 (Screen.shows_terminal s h)
    (show bs.length < fuel by omega) 0
  have hmem : chars fuel = some m := hk fuel (by omega)
  refine ⟨_, s', _, hshows.lt, ?_, hres, hshows.terminal_eq, ?_⟩
  · show (chars fuel).bind _ = _
    rw [hmem]
    rfl
  · rw [show (0 : Word) + BitVec.ofNat 32 bs.length = BitVec.ofNat 32 bs.length from BitVec.zero_add _,
      BitVec.toNat_ofNat, Nat.mod_eq_of_lt hstr.length_lt]

/-- `sys_putint` puts the decimal numeral of the number into its buffer, with a minus sign if it is negative, and
prints it. -/
def PrintsInt (mem : Mem) (strNum num : Word) : Prop :=
  ∃ m bs ds, Ends (putintChars mem strNum num) m ∧ Screen.IsString m strNum bs ∧
    bs = Numeral.sign num.toInt ++ ds ∧ Numeral.IsNumeral 10 ds ∧ Numeral.intValue bs = num.toInt ∧
    Prints (fun fuel s => sysPutint mem strNum fuel s num) bs

/-- `sys_puthex` prints the hexadecimal numeral of the number; other than for 0 it is put into the buffer first. -/
def PrintsHex (mem : Mem) (strNum num : Word) : Prop :=
  ∃ bs, (num ≠ 0 → ∃ m, Ends (puthexChars mem strNum num) m ∧ Screen.IsString m strNum bs) ∧
    Numeral.IsNumeral 16 bs ∧ Numeral.value 16 bs = num.toNat ∧
    Prints (fun fuel s => sysPuthex mem strNum fuel s num) bs

theorem reverse_digitChars (b n : Nat) : (digitChars b n).reverse =
    (((Numeral.digits b n).map Numeral.digitChar).reverse).map UInt8.toBitVec := by
  rw [digitChars, ← List.map_reverse, ← List.map_reverse, List.map_map]
  rfl

/-- The absolute value, unless the number is the smallest one. -/
theorem toNat_abs {num : Word} (hnum : num ≠ BitVec.intMin 32) :
    (if num.slt 0 then -num else num).toNat = num.toInt.natAbs ∧ num.toInt.natAbs < 2 ^ 31 := by
  have hmin : num.toNat ≠ 2 ^ 31 := fun h => hnum (BitVec.eq_of_toNat_eq h)
  have hlt := num.isLt
  have hint := BitVec.toInt_eq_toNat_cond num
  rw [BitVec.slt_eq_decide, show (0 : Word).toInt = 0 from rfl]
  by_cases hneg : num.toInt < 0
  · rw [if_pos (decide_eq_true hneg), BitVec.toNat_neg]
    split at hint <;> omega
  · rw [if_neg (by simpa using hneg)]
    split at hint <;> omega

theorem printsInt_of_ne (mem : Mem) (p : Word) {num : Word} (hnum : num ≠ BitVec.intMin 32) : PrintsInt mem p num := by
  obtain ⟨habs, hlt⟩ := toNat_abs hnum
  have hneg : num.slt 0 = decide (num.toInt < 0) := BitVec.slt_eq_decide
  have hlen : (Numeral.digits 10 num.toInt.natAbs).length ≤ 10 :=
    (Numeral.length_digits_le _ (by decide) (by decide)).2 (by omega)
  have hloop := ends_digits (putintDigit_eq (p := p)) (show 1 < 10 by decide)
    (fun w hw => toNat_sdiv_ten (w := w) (by omega)) (fun w hw => decChar_eq (w := w) (by omega))
    (show (Numeral.digits 10 (if num.slt 0 then -num else num).toNat).length ≤ 16 by rw [habs]; omega) (by decide) mem
  rw [habs] at hloop
  have hends := ends_putintChars hloop (by rw [length_digitChars]; omega)
  have hnumeral := Numeral.isNumeral_digits (show 1 < 10 by decide) (by decide) num.toInt.natAbs
  have hvalue := Numeral.value_digits (show 1 < 10 by decide) (by decide) num.toInt.natAbs
  have hdslen : ((Numeral.digits 10 num.toInt.natAbs).map Numeral.digitChar).reverse.length ≤ 10 := by simpa using hlen
  rw [List.reverse_append, reverse_digitChars] at hends
  generalize ((Numeral.digits 10 num.toInt.natAbs).map Numeral.digitChar).reverse = ds at *
  -- the sign and the digits as one string
  have hsign : (if num.slt 0 then [0x2D] else [] : List (BitVec 8)).reverse ++ ds.map UInt8.toBitVec =
      (Numeral.sign num.toInt ++ ds).map UInt8.toBitVec := by
    rw [hneg, Numeral.sign]
    by_cases h : num.toInt < 0
    · simp [h]
    · simp [h]
  rw [hsign] at hends
  have hstr : Screen.IsString (Bytes.write mem p ((Numeral.sign num.toInt ++ ds).map UInt8.toBitVec ++ [0])) p
      (Numeral.sign num.toInt ++ ds) := by
    apply isString_write
    · rintro c hc rfl
      exact absurd (hnumeral.le_of_mem_sign hc) (by decide)
    · rw [List.length_append, Numeral.sign]
      split <;> simp <;> omega
  refine ⟨_, _, ds, hends, hstr, rfl, hnumeral, hnumeral.intValue_sign hvalue, ?_⟩
  exact prints_of_isString hends hstr fun h8 => absurd (hnumeral.le_of_mem_sign h8) (by decide)

theorem printsHex (mem : Mem) (p num : Word) : PrintsHex mem p num := by
  have hnumeral := Numeral.isNumeral_digits (show 1 < 16 by decide) (by decide) num.toNat
  have hvalue := Numeral.value_digits (show 1 < 16 by decide) (by decide) num.toNat
  by_cases hnum : num = 0
  · subst hnum
    refine ⟨_, fun h => absurd rfl h, hnumeral, hvalue, ?_⟩
    intro s h
    refine ⟨0, ?_⟩
    intro fuel _
    obtain ⟨s', hs', hshows, -⟩ := (Screen.draws_refTerminal (Screen.shows_terminal s h)
      (show (0x30 : UInt8) ≠ 0x08 by decide)).exists_ok
    refine ⟨_, s', 1, hshows.lt, if_pos rfl, ?_, hshows.terminal_eq, rfl⟩
    rw [Trace.result_bind, hs']
    rfl
  · have hlen : (Numeral.digits 16 num.toNat).length ≤ 8 :=
      (Numeral.length_digits_le _ (by decide) (by decide)).2 num.isLt
    have hloop := ends_digits (f := (· / 16)) (puthexDigit_eq (p := p)) (show 1 < 16 by decide)
      (fun w _ => BitVec.toNat_udiv) (fun w _ => hexChar_eq w)
      (show (Numeral.digits 16 num.toNat).length ≤ 12 by omega) (by decide) mem
    have hends := ends_puthexChars hloop (by rw [length_digitChars]; omega)
    have hdslen : ((Numeral.digits 16 num.toNat).map Numeral.digitChar).reverse.length ≤ 8 := by simpa using hlen
    rw [reverse_digitChars] at hends
    generalize ((Numeral.digits 16 num.toNat).map Numeral.digitChar).reverse = ds at *
    have hstr : Screen.IsString (Bytes.write mem p (ds.map UInt8.toBitVec ++ [0])) p ds := by
      apply isString_write
      · rintro c hc rfl
        exact absurd (hnumeral.lt (by decide) hc) (by decide)
      · omega
    have hprints := prints_of_isString hends hstr fun h8 => absurd (hnumeral.lt (by decide) h8) (by decide)
    refine ⟨ds, fun _ => ⟨_, hends, hstr⟩, hnumeral, hvalue, ?_⟩
    simp only [sysPuthex, if_neg hnum]
    exact hprints

/-- What is printed for -2^31, which is its own negation: `-./,),(-*,(`. -/
def minChars : List UInt8 := [0x2D, 0x2E, 0x2F, 0x2C, 0x29, 0x2C, 0x28, 0x2D, 0x2A, 0x2C, 0x28]

theorem isString_putint_min (mem : Mem) (p : Word) :
    ∃ m, Ends (putintChars mem p (BitVec.intMin 32)) m ∧ Screen.IsString m p minChars := by
  have hstop : ∀ i < 10, (Nat.iterate (fun w : Word => w.sdiv 10) (i + 1) (BitVec.intMin 32) = 0 ↔ i + 1 = 10) := by
    decide
  have hloop := ends_chars (putintDigit_eq (p := p)) (show 0 < 10 by decide) (show 10 ≤ 16 by decide) (by decide)
    hstop mem
  have hends := @ends_putintChars mem p (BitVec.intMin 32) _ hloop (by decide)
  have hne : ∀ c ∈ minChars, c ≠ 0 := by
    rintro c hc rfl
    exact absurd hc (by decide)
  refine ⟨_, hends, ?_⟩
  exact @isString_write mem p minChars hne (by decide)

theorem not_printsInt_min (mem : Mem) (p : Word) : ¬ PrintsInt mem p (BitVec.intMin 32) := by
  intro h
  obtain ⟨m, bs, ds, hends, hstr, hbs, hnumeral, -, -⟩ := h
  obtain ⟨m', hends', hstr'⟩ := isString_putint_min mem p
  rw [hends.unique hends'] at hstr
  rw [isString_unique hstr hstr'] at hbs
  have hmem : (0x2E : UInt8) ∈ ds := by
    have : ds = minChars.tail := (List.cons.inj hbs).2.symm
    rw [this]
    decide
  obtain ⟨d, hd, heq⟩ := hnumeral.digit _ hmem
  revert d
  decide

/-- **When printed numbers read back.** For every number, whatever stands in memory: `sys_putint` prints its decimal
numeral if and only if it is not -2^31, and `sys_puthex` always prints its hexadecimal numeral. A numeral is one
digit or more without a leading zero, after a minus sign for negative numbers, and stands for the number; it fits
the buffer with its terminator, and the number of characters is returned. -/
theorem printed_numbers_read_back (mem : Mem) (strNum num : Word) :
    (PrintsInt mem strNum num ↔ num ≠ BitVec.intMin 32) ∧ PrintsHex mem strNum num := by
  refine ⟨⟨?_, printsInt_of_ne mem strNum⟩, printsHex mem strNum num⟩
  rintro h rfl
  exact not_printsInt_min mem strNum h

/-- -2^31, on a stack of zeros. -/
theorem not_printed_numbers_read_back : ¬ PrintsInt (fun _ => 0) 0xC009E000 0x80000000 :=
  not_printsInt_min _ _

end Print

end ElephantOS
