import ElephantOS.Device.Console
import Mathlib.Data.List.Basic

/-!
# Strings in memory (`lib/string.c`)

`char` is signed: a byte is compared as the integer from -128 to 127 it stands for.

* `memcmp`, `strlen`, `strcmp`, `strchr`, `strrchr` : the functions of the file, with the bytes they read through
  each of their pointers as events;
* `CString mem p bs` : at `p` stands the string `bs`, ended by a zero byte;
* `order as bs` : the lexicographic order of two strings with their terminators, as signed bytes;
* `strcmp_total_order` : `strcmp` is this order, also read off by `memcmp`, and reads the two strings only;
* `search_first_last_iff` : when `strchr` and `strrchr` find the first and the last place of a byte.
-/

namespace ElephantOS
open Bytes (Word Mem)

/-- Why a function does not return: a failed `ASSERT`, or a loop that has not ended yet. -/
inductive StringFault
  | assert
  | unfinished
  deriving DecidableEq, Repr

/-- The pointer a byte is read through: the first or the second argument. -/
inductive Arg
  | fst
  | snd
  deriving DecidableEq, Repr

/-- Code that logs the bytes it reads. -/
abbrev CharReads (α : Type) := Trace (Arg × Word) StringFault α

namespace Strings

def readChar (mem : Mem) (arg : Arg) (p : Word) : CharReads (BitVec 8) := do
  Trace.emit (arg, p)
  return mem p

def assertNonNull (p : Word) : CharReads Unit := if p = 0 then Trace.lift (.error .assert) else pure ()

/-- `if (*a_ != *b_) return *a_ > *b_ ? 1 : -1;`, and `rest` when the bytes are equal. -/
def compareChars (mem : Mem) (a b : Word) (rest : CharReads Int) : CharReads Int := do
  let x ← readChar mem .fst a
  let y ← readChar mem .snd b
  if x ≠ y then
    let x ← readChar mem .fst a
    let y ← readChar mem .snd b
    return if y.toInt < x.toInt then 1 else -1
  else rest

/-- The loop of `memcmp`, with `size` passes left. -/
def memcmpFrom (mem : Mem) : Nat → Word → Word → CharReads Int
  | 0, _, _ => return 0
  | size + 1, a, b => compareChars mem a b (memcmpFrom mem size (a + 1) (b + 1))

def memcmp (mem : Mem) (a b size : Word) : CharReads Int := do
  assertNonNull a
  assertNonNull b
  memcmpFrom mem size.toNat a b

/-- The loop `while (*str++)`: the pointer after it. -/
def strlenFrom (mem : Mem) : Nat → Word → CharReads Word
  | 0, _ => Trace.lift (.error .unfinished)
  | fuel + 1, str => do
    let c ← readChar mem .fst str
    if c ≠ 0 then strlenFrom mem fuel (str + 1) else return str + 1

def strlen (mem : Mem) (fuel : Nat) (str : Word) : CharReads Word := do
  assertNonNull str
  let strEnd ← strlenFrom mem fuel str
  return strEnd - str - 1

/-- `*a_ || *b_`. The second byte is read only if the first is zero. -/
def eitherChar (mem : Mem) (a b : Word) : CharReads Bool := do
  let x ← readChar mem .fst a
  if x ≠ 0 then return true
  else
    let y ← readChar mem .snd b
    return y ≠ 0

/-- The loop of `strcmp`. -/
def strcmpFrom (mem : Mem) : Nat → Word → Word → CharReads Int
  | 0, _, _ => Trace.lift (.error .unfinished)
  | fuel + 1, a, b => do
    let go ← eitherChar mem a b
    if go then compareChars mem a b (strcmpFrom mem fuel (a + 1) (b + 1)) else return 0

def strcmp (mem : Mem) (fuel : Nat) (a b : Word) : CharReads Int := do
  assertNonNull a
  assertNonNull b
  strcmpFrom mem fuel a b

/-- `*str == ch`: the signed and the unsigned byte, both promoted to `int`. -/
def charEq (c : BitVec 8) (ch : UInt8) : Bool := c.toInt = ch.toNat

/-- The loop of `strchr`. -/
def strchrFrom (mem : Mem) (ch : UInt8) : Nat → Word → CharReads Word
  | 0, _ => Trace.lift (.error .unfinished)
  | fuel + 1, str => do
    let c ← readChar mem .fst str
    if c ≠ 0 then
      let c ← readChar mem .fst str
      if charEq c ch then return str else strchrFrom mem ch fuel (str + 1)
    else return 0

def strchr (mem : Mem) (fuel : Nat) (str : Word) (ch : UInt8) : CharReads Word := do
  assertNonNull str
  strchrFrom mem ch fuel str

/-- The loop of `strrchr`. It returns what it has just assigned to `last_found`. -/
def strrchrFrom (mem : Mem) (ch : UInt8) : Nat → Word → Word → CharReads Word
  | 0, _, _ => Trace.lift (.error .unfinished)
  | fuel + 1, str, lastFound => do
    let c ← readChar mem .fst str
    if c ≠ 0 then
      let c ← readChar mem .fst str
      if charEq c ch then
        let lastFound := str
        return lastFound
      else strrchrFrom mem ch fuel (str + 1) lastFound
    else return lastFound

def strrchr (mem : Mem) (fuel : Nat) (str : Word) (ch : UInt8) : CharReads Word := do
  assertNonNull str
  strrchrFrom mem ch fuel str 0

/-! ## Strings -/

/-- At `p` stands the string `bs` and its terminator, inside the address space and not at `NULL`. -/
structure CString (mem : Mem) (p : Word) (bs : List UInt8) : Prop where
  isString : Screen.IsString mem p bs
  nonnull : p ≠ 0
  fits : p.toNat + bs.length < 2 ^ 32

/-- `f` returns `r`, given enough fuel. -/
def Gives {α : Type} (f : Nat → CharReads α) (r : α) : Prop := ∃ n, ∀ fuel, n ≤ fuel → (f fuel).result = .ok r

theorem Gives.unique {α : Type} {f : Nat → CharReads α} {r r' : α} (h : Gives f r) (h' : Gives f r') : r = r' := by
  obtain ⟨n, hn⟩ := h
  obtain ⟨k, hk⟩ := h'
  have heq := (hn (max n k) (Nat.le_max_left n k)).symm.trans (hk (max n k) (Nat.le_max_right n k))
  exact Except.ok.inj heq

@[simp] theorem readChar_bind {α : Type} (mem : Mem) (arg : Arg) (p : Word) (f : BitVec 8 → CharReads α) :
    readChar mem arg p >>= f = ⟨(arg, p) :: (f (mem p)).log, (f (mem p)).result⟩ := rfl

theorem assertNonNull_bind {α : Type} {p : Word} (hp : p ≠ 0) (f : Unit → CharReads α) :
    assertNonNull p >>= f = f () := by
  rw [assertNonNull, if_neg hp]
  rfl

/-- The first byte of a string, or its terminator. -/
def headByte (bs : List UInt8) : UInt8 := bs.head?.getD 0

theorem mem_head {mem : Mem} {p : Word} {bs : List UInt8} (h : Screen.IsString mem p bs) :
    mem p = (headByte bs).toBitVec := by
  cases bs with
  | nil => exact h
  | cons b bs => exact h.1

theorem headByte_eq_zero {mem : Mem} {p : Word} {bs : List UInt8} (h : Screen.IsString mem p bs) :
    headByte bs = 0 ↔ bs = [] := by
  cases bs with
  | nil => exact iff_of_true rfl rfl
  | cons b bs => exact iff_of_false h.2.1 (List.cons_ne_nil b bs)

theorem mem_eq_zero {mem : Mem} {p : Word} {bs : List UInt8} (h : Screen.IsString mem p bs) :
    mem p = 0 ↔ bs = [] := by
  rw [← headByte_eq_zero h, mem_head h]
  exact UInt8.toBitVec_inj (b := 0)

/-! ## The order of strings -/

/-- The signed bytes of a string and its terminator. -/
def key (bs : List UInt8) : List Int := bs.map (fun b => b.toBitVec.toInt) ++ [0]

def sign : Ordering → Int
  | .lt => -1
  | .eq => 0
  | .gt => 1

def order (as bs : List UInt8) : Int := sign (compare (key as) (key bs))

theorem key_injective : Function.Injective key := by
  intro as bs h
  have hmap := List.append_cancel_right h
  apply List.map_injective_iff.2 _ hmap
  intro x y hxy
  exact UInt8.toBitVec_inj.1 (BitVec.eq_of_toInt_eq hxy)

theorem sign_eq_zero {o : Ordering} : sign o = 0 ↔ o = .eq := by
  revert o
  decide

theorem sign_swap (o : Ordering) : sign o.swap = -sign o := by
  revert o
  decide

theorem sign_le_zero {o : Ordering} : sign o ≤ 0 ↔ o.isLE = true := by
  revert o
  decide

theorem order_eq_zero (as bs : List UInt8) : order as bs = 0 ↔ as = bs := by
  rw [order, sign_eq_zero, Std.LawfulEqOrd.compare_eq_iff_eq, key_injective.eq_iff]

theorem order_swap (as bs : List UInt8) : order as bs = -order bs as := by
  rw [order, order, ← sign_swap, ← Std.OrientedOrd.eq_swap]

theorem order_trans {as bs cs : List UInt8} (hab : order as bs ≤ 0) (hbc : order bs cs ≤ 0) : order as cs ≤ 0 := by
  rw [order, sign_le_zero] at hab hbc ⊢
  exact Std.TransOrd.isLE_trans hab hbc

theorem key_eq_cons (bs : List UInt8) : ∃ rest, key bs = (headByte bs).toBitVec.toInt :: rest := by
  cases bs with
  | nil => exact ⟨[], rfl⟩
  | cons b bs => exact ⟨key bs, rfl⟩

/-- Strings that differ in their first byte. -/
theorem order_of_ne {as bs : List UInt8} (h : headByte as ≠ headByte bs) :
    order as bs = if (headByte bs).toBitVec.toInt < (headByte as).toBitVec.toInt then 1 else -1 := by
  obtain ⟨xs, hx⟩ := key_eq_cons as
  obtain ⟨ys, hy⟩ := key_eq_cons bs
  have hne : (headByte as).toBitVec.toInt ≠ (headByte bs).toBitVec.toInt := by
    intro heq
    exact h (UInt8.toBitVec_inj.1 (BitVec.eq_of_toInt_eq heq))
  rw [order, hx, hy, List.compare_cons_cons]
  rcases Int.lt_or_gt_of_ne hne with hlt | hgt
  · rw [if_neg (by omega), Int.compare_eq_lt.2 hlt]
    rfl
  · rw [if_pos hgt, Int.compare_eq_gt.2 hgt]
    rfl

theorem order_cons (b : UInt8) (as bs : List UInt8) : order (b :: as) (b :: bs) = order as bs := by
  have hkey : ∀ cs, key (b :: cs) = b.toBitVec.toInt :: key cs := fun cs => rfl
  rw [order, order, hkey, hkey, List.compare_cons_cons, Std.ReflOrd.compare_self]
  rfl

/-! ## Comparing -/

theorem compareChars_eq {mem : Mem} {a b : Word} (h : mem a = mem b) (rest : CharReads Int) :
    compareChars mem a b rest = ⟨(.fst, a) :: (.snd, b) :: rest.log, rest.result⟩ := by
  rw [compareChars, readChar_bind, readChar_bind, if_neg (not_not_intro h)]

theorem compareChars_ne {mem : Mem} {a b : Word} (h : mem a ≠ mem b) (rest : CharReads Int) :
    compareChars mem a b rest = ⟨[(.fst, a), (.snd, b), (.fst, a), (.snd, b)],
      .ok (if (mem b).toInt < (mem a).toInt then 1 else -1)⟩ := by
  rw [compareChars, readChar_bind, readChar_bind, if_pos h, readChar_bind, readChar_bind]
  rfl

/-- One pass of either loop: the bytes differ, or both strings go on, or both have ended. -/
theorem compareChars_order {mem : Mem} {a b : Word} {as bs : List UInt8} {rest : CharReads Int}
    (ha : Screen.IsString mem a as) (hb : Screen.IsString mem b bs)
    (hrest : ∀ x as' bs', as = x :: as' → bs = x :: bs' → rest.result = .ok (order as' bs'))
    (hend : as = [] → bs = [] → rest.result = .ok 0) : (compareChars mem a b rest).result = .ok (order as bs) := by
  by_cases heq : mem a = mem b
  · rw [compareChars_eq heq]
    rw [mem_head ha, mem_head hb] at heq
    cases as with
    | nil =>
      have hbs : bs = [] := (headByte_eq_zero hb).1 (UInt8.toBitVec_inj.1 heq).symm
      rw [hbs, (order_eq_zero [] []).2 rfl]
      exact hend rfl hbs
    | cons x as =>
      cases bs with
      | nil => exact absurd (UInt8.toBitVec_inj.1 heq) ha.2.1
      | cons y bs =>
        obtain rfl : x = y := UInt8.toBitVec_inj.1 heq
        rw [order_cons]
        exact hrest x as bs rfl rfl
  · rw [compareChars_ne heq]
    rw [mem_head ha, mem_head hb] at heq ⊢
    rw [order_of_ne fun h => heq (congrArg UInt8.toBitVec h)]

theorem memcmpFrom_order {mem : Mem} {a b : Word} {as bs : List UInt8} (ha : Screen.IsString mem a as)
    (hb : Screen.IsString mem b bs) :
    (memcmpFrom mem (min as.length bs.length + 1) a b).result = .ok (order as bs) := by
  induction as generalizing a b bs with
  | nil =>
    apply compareChars_order ha hb
    · intro x as' bs' has
      cases has
    · intro _ _
      rw [List.length_nil, Nat.zero_min]
      rfl
  | cons x as ih =>
    apply compareChars_order ha hb
    · intro y as' bs' has hbs
      subst hbs
      obtain ⟨-, rfl⟩ := List.cons.inj has
      rw [List.length_cons, List.length_cons, Nat.succ_min_succ]
      exact ih ha.2.2 hb.2.2
    · intro has
      cases has

theorem eitherChar_result (mem : Mem) (a b : Word) :
    (eitherChar mem a b).result = .ok (decide (mem a ≠ 0 ∨ mem b ≠ 0)) := by
  rw [eitherChar, readChar_bind]
  by_cases h : mem a = 0
  · rw [if_neg (not_not_intro h), readChar_bind]
    simp [h]
  · rw [if_pos h]
    exact congrArg Except.ok (decide_eq_true (Or.inl h)).symm

/-- One pass of the loop of `strcmp`. -/
theorem strcmpFrom_succ (mem : Mem) (fuel : Nat) (a b : Word) : strcmpFrom mem (fuel + 1) a b =
    let x : CharReads Int :=
      if mem a ≠ 0 ∨ mem b ≠ 0 then compareChars mem a b (strcmpFrom mem fuel (a + 1) (b + 1)) else pure 0
    ⟨(eitherChar mem a b).log ++ x.log, x.result⟩ := by
  rw [strcmpFrom, Trace.bind_of_ok (eitherChar_result mem a b)]
  by_cases h : mem a ≠ 0 ∨ mem b ≠ 0
  · rw [if_pos (decide_eq_true h), if_pos h]
  · rw [if_neg (by rwa [decide_eq_true_eq]), if_neg h]

theorem strcmpFrom_order {mem : Mem} {a b : Word} {as bs : List UInt8} (ha : Screen.IsString mem a as)
    (hb : Screen.IsString mem b bs) {fuel : Nat} (hf : as.length < fuel) :
    (strcmpFrom mem fuel a b).result = .ok (order as bs) := by
  induction fuel generalizing a b as bs with
  | zero => cases hf
  | succ fuel ih =>
    rw [strcmpFrom_succ]
    dsimp only
    have hgo : mem a ≠ 0 ∨ mem b ≠ 0 ↔ as ≠ [] ∨ bs ≠ [] :=
      or_congr (mem_eq_zero ha).not (mem_eq_zero hb).not
    by_cases hend : as = [] ∧ bs = []
    · rw [if_neg (by tauto), hend.1, hend.2, (order_eq_zero [] []).2 rfl]
      rfl
    · rw [if_pos (by tauto)]
      apply compareChars_order ha hb
      · intro x as' bs' has hbs
        subst has hbs
        exact ih ha.2.2 hb.2.2 (Nat.lt_of_succ_lt_succ hf)
      · intro has hbs
        exact absurd ⟨has, hbs⟩ hend

theorem strlenFrom_end {mem : Mem} {p : Word} {bs : List UInt8} (h : Screen.IsString mem p bs) {fuel : Nat}
    (hf : bs.length < fuel) : (strlenFrom mem fuel p).result = .ok (p + BitVec.ofNat 32 (bs.length + 1)) := by
  induction fuel generalizing p bs with
  | zero => cases hf
  | succ fuel ih =>
    rw [strlenFrom, readChar_bind]
    cases bs with
    | nil =>
      rw [if_neg (not_not_intro ((mem_eq_zero h).2 rfl))]
      rfl
    | cons b bs =>
      rw [if_pos ((mem_eq_zero h).not.2 (List.cons_ne_nil b bs)), ih h.2.2 (Nat.lt_of_succ_lt_succ hf),
        List.length_cons, Bytes.add_ofNat_succ p (bs.length + 1)]

/-! ## What is read -/

/-- `x` is the address of a byte of the string at `p`, or of its terminator. -/
def InString (p : Word) (bs : List UInt8) (x : Word) : Prop := ∃ k ≤ bs.length, x = p + BitVec.ofNat 32 k

theorem inString_self (p : Word) (bs : List UInt8) : InString p bs p := ⟨0, Nat.zero_le _, (BitVec.add_zero p).symm⟩

theorem InString.cons {p x : Word} {bs : List UInt8} (h : InString (p + 1) bs x) (b : UInt8) :
    InString p (b :: bs) x := by
  obtain ⟨k, hk, rfl⟩ := h
  exact ⟨k + 1, Nat.succ_le_succ hk, (Bytes.add_ofNat_succ p k).symm⟩

/-- A read through one of two pointers stays inside the string of this pointer. -/
def ReadsInside (a : Word) (as : List UInt8) (b : Word) (bs : List UInt8) : Arg × Word → Prop
  | (.fst, x) => InString a as x
  | (.snd, x) => InString b bs x

theorem eitherChar_log {mem : Mem} {a b : Word} {e : Arg × Word} (he : e ∈ (eitherChar mem a b).log) :
    e = (.fst, a) ∨ e = (.snd, b) := by
  rw [eitherChar, readChar_bind] at he
  by_cases h : mem a = 0
  · rw [if_neg (not_not_intro h), readChar_bind] at he
    simpa using he
  · rw [if_pos h] at he
    exact Or.inl (by simpa using he)

theorem compareChars_log {mem : Mem} {a b : Word} {rest : CharReads Int} {e : Arg × Word}
    (he : e ∈ (compareChars mem a b rest).log) :
    e = (.fst, a) ∨ e = (.snd, b) ∨ (mem a = mem b ∧ e ∈ rest.log) := by
  by_cases heq : mem a = mem b
  · rw [compareChars_eq heq] at he
    simp only [List.mem_cons] at he
    tauto
  · rw [compareChars_ne heq] at he
    simp only [List.mem_cons, List.not_mem_nil] at he
    tauto

theorem readsInside_heads {a b : Word} {as bs : List UInt8} {e : Arg × Word} (he : e = (.fst, a) ∨ e = (.snd, b)) :
    ReadsInside a as b bs e := by
  obtain rfl | rfl := he
  · exact inString_self a as
  · exact inString_self b bs

theorem strcmpFrom_reads {mem : Mem} {a b : Word} {as bs : List UInt8} (ha : Screen.IsString mem a as)
    (hb : Screen.IsString mem b bs) (fuel : Nat) : ∀ e ∈ (strcmpFrom mem fuel a b).log, ReadsInside a as b bs e := by
  induction fuel generalizing a b as bs with
  | zero =>
    intro e he
    cases he
  | succ fuel ih =>
    intro e he
    rw [strcmpFrom_succ] at he
    dsimp only at he
    rw [List.mem_append] at he
    obtain he | he := he
    · exact readsInside_heads (eitherChar_log he)
    by_cases hgo : mem a ≠ 0 ∨ mem b ≠ 0
    · rw [if_pos hgo] at he
      obtain he | he | ⟨heq, he⟩ := compareChars_log he
      · exact readsInside_heads (Or.inl he)
      · exact readsInside_heads (Or.inr he)
      -- the loop goes on after two equal bytes, so neither was a terminator
      have ha0 : as ≠ [] := (mem_eq_zero ha).not.1 (by rw [heq] at hgo ⊢; tauto)
      have hb0 : bs ≠ [] := (mem_eq_zero hb).not.1 (by rw [heq] at hgo; tauto)
      obtain ⟨x, as, rfl⟩ := List.exists_cons_of_ne_nil ha0
      obtain ⟨y, bs, rfl⟩ := List.exists_cons_of_ne_nil hb0
      have hin := ih ha.2.2 hb.2.2 e he
      obtain ⟨arg, p⟩ := e
      cases arg with
      | fst => exact InString.cons hin x
      | snd => exact InString.cons hin y
    · rw [if_neg hgo] at he
      cases he

theorem strlenFrom_reads {mem : Mem} {p : Word} {bs : List UInt8} (h : Screen.IsString mem p bs) (fuel : Nat) :
    ∀ e ∈ (strlenFrom mem fuel p).log, e.1 = .fst ∧ InString p bs e.2 := by
  induction fuel generalizing p bs with
  | zero =>
    intro e he
    cases he
  | succ fuel ih =>
    intro e he
    rw [strlenFrom, readChar_bind] at he
    rw [List.mem_cons] at he
    obtain rfl | he := he
    · exact ⟨rfl, inString_self p bs⟩
    cases bs with
    | nil =>
      rw [if_neg (not_not_intro ((mem_eq_zero h).2 rfl))] at he
      cases he
    | cons b bs =>
      rw [if_pos ((mem_eq_zero h).not.2 (List.cons_ne_nil b bs))] at he
      obtain ⟨harg, hin⟩ := ih h.2.2 e he
      exact ⟨harg, hin.cons b⟩

/-! ## `strcmp`, `strlen` and `memcmp` -/

theorem gives_strcmp {mem : Mem} {a b : Word} {as bs : List UInt8} (ha : CString mem a as) (hb : CString mem b bs) :
    Gives (fun fuel => strcmp mem fuel a b) (order as bs) := by
  refine ⟨as.length + 1, ?_⟩
  intro fuel hf
  show (strcmp mem fuel a b).result = _
  rw [strcmp, assertNonNull_bind ha.nonnull, assertNonNull_bind hb.nonnull]
  exact strcmpFrom_order ha.isString hb.isString hf

theorem gives_strlen {mem : Mem} {p : Word} {bs : List UInt8} (h : CString mem p bs) :
    Gives (fun fuel => strlen mem fuel p) (BitVec.ofNat 32 bs.length) := by
  refine ⟨bs.length + 1, ?_⟩
  intro fuel hf
  show (strlen mem fuel p).result = _
  rw [strlen, assertNonNull_bind h.nonnull, Trace.bind_of_ok (strlenFrom_end h.isString hf)]
  apply congrArg Except.ok
  rw [Bytes.add_ofNat_succ]
  bv_omega

theorem CString.length_lt {mem : Mem} {p : Word} {bs : List UInt8} (h : CString mem p bs) :
    bs.length + 1 < 2 ^ 32 := by
  have hfits := h.fits
  have hpos : p.toNat ≠ 0 := fun h0 => h.nonnull (BitVec.eq_of_toNat_eq h0)
  omega

theorem memcmp_order {mem : Mem} {a b : Word} {as bs : List UInt8} (ha : CString mem a as) (hb : CString mem b bs) :
    (memcmp mem a b (BitVec.ofNat 32 (min as.length bs.length + 1))).result = .ok (order as bs) := by
  have hlt := ha.length_lt
  rw [memcmp, assertNonNull_bind ha.nonnull, assertNonNull_bind hb.nonnull, BitVec.toNat_ofNat,
    Nat.mod_eq_of_lt (by omega)]
  exact memcmpFrom_order ha.isString hb.isString

/-- **`strcmp` is a total order, consistent with `memcmp`.** For all strings in memory, of any length: `strcmp` and
`strlen` return; the result of `strcmp` is 0 for equal strings only, changes its sign with the arguments swapped,
is transitive, and is the one `memcmp` gives for the bytes up to the first terminator; and neither reads a byte
past the terminator of the string it reads. -/
theorem strcmp_total_order {mem : Mem} {a b c : Word} {as bs cs : List UInt8} (ha : CString mem a as)
    (hb : CString mem b bs) (hc : CString mem c cs) :
    ∃ ab ba bc ac : Int, ∃ la lb : Word, Gives (fun fuel => strcmp mem fuel a b) ab ∧
      Gives (fun fuel => strcmp mem fuel b a) ba ∧ Gives (fun fuel => strcmp mem fuel b c) bc ∧
      Gives (fun fuel => strcmp mem fuel a c) ac ∧ Gives (fun fuel => strlen mem fuel a) la ∧
      Gives (fun fuel => strlen mem fuel b) lb ∧ la.toNat = as.length ∧ lb.toNat = bs.length ∧
      (ab = 0 ↔ as = bs) ∧ ab = -ba ∧ (ab ≤ 0 → bc ≤ 0 → ac ≤ 0) ∧
      (memcmp mem a b (BitVec.ofNat 32 (min la.toNat lb.toNat + 1))).result = .ok ab ∧
      ∀ fuel, (∀ e ∈ (strcmp mem fuel a b).log, ReadsInside a as b bs e) ∧
        ∀ e ∈ (strlen mem fuel a).log, e.1 = .fst ∧ InString a as e.2 := by
  have hlen : ∀ {p : Word} {ds : List UInt8}, CString mem p ds → (BitVec.ofNat 32 ds.length).toNat = ds.length := by
    intro p ds h
    have := h.length_lt
    rw [BitVec.toNat_ofNat, Nat.mod_eq_of_lt (by omega)]
  refine ⟨order as bs, order bs as, order bs cs, order as cs, _, _, gives_strcmp ha hb, gives_strcmp hb ha,
    gives_strcmp hb hc, gives_strcmp ha hc, gives_strlen ha, gives_strlen hb, hlen ha, hlen hb,
    order_eq_zero as bs, order_swap as bs, order_trans, ?_, ?_⟩
  · rw [hlen ha, hlen hb]
    exact memcmp_order ha hb
  · intro fuel
    constructor
    · rw [strcmp, assertNonNull_bind ha.nonnull, assertNonNull_bind hb.nonnull]
      exact strcmpFrom_reads ha.isString hb.isString fuel
    · intro e he
      rw [strlen, assertNonNull_bind ha.nonnull] at he
      apply strlenFrom_reads ha.isString fuel e
      cases hr : (strlenFrom mem fuel a).result with
      | ok q => 
        rw [Trace.log_bind_ok hr] at he
        simpa using he
      | error f =>
        rwa [Trace.log_bind_error hr] at he

/-- The strings `ab`, `b` and the empty one, one after the other. -/
def someStrings : Mem := fun x => if x = 1 then 0x61 else if x = 2 ∨ x = 4 then 0x62 else 0

theorem strcmp_total_order_ab : ∃ ab ba : Int, Gives (fun fuel => strcmp someStrings fuel 1 4) ab ∧
    Gives (fun fuel => strcmp someStrings fuel 4 1) ba ∧ ab = -ba ∧ ab ≠ 0 := by
  have ha : CString someStrings 1 [0x61, 0x62] := ⟨⟨rfl, by decide, rfl, by decide, rfl⟩, by decide, by decide⟩
  have hb : CString someStrings 4 [0x62] := ⟨⟨rfl, by decide, rfl⟩, by decide, by decide⟩
  have hc : CString someStrings 6 [] := ⟨rfl, by decide, by decide⟩
  obtain ⟨ab, ba, -, -, -, -, hab, hba, -, -, -, -, -, -, hzero, hswap, -⟩ := strcmp_total_order ha hb hc
  refine ⟨ab, ba, hab, hba, hswap, ?_⟩
  intro h0
  exact absurd (hzero.1 h0) (by decide)

/-! ## `strchr` and `strrchr` -/

/-- What both loops return for the string `bs` at `p`: a byte from 128 on is never equal to a `char`. -/
def found (p : Word) (bs : List UInt8) (ch : UInt8) : Word :=
  if ch.toNat < 128 ∧ ch ∈ bs then p + BitVec.ofNat 32 (bs.idxOf ch) else 0

theorem charEq_iff (b ch : UInt8) : charEq b.toBitVec ch = true ↔ b = ch ∧ ch.toNat < 128 := by
  have hb := b.toNat_lt
  have hc := ch.toNat_lt
  rw [charEq, decide_eq_true_eq, BitVec.toInt_eq_toNat_cond, UInt8.toNat_toBitVec, ← UInt8.toNat_inj]
  split <;> omega

theorem found_cons_of_eq {p : Word} {b ch : UInt8} {bs : List UInt8} (h : charEq b.toBitVec ch = true) :
    found p (b :: bs) ch = p := by
  obtain ⟨rfl, hlt⟩ := (charEq_iff b ch).1 h
  rw [found, if_pos ⟨hlt, List.mem_cons_self⟩, List.idxOf_cons_self]
  exact BitVec.add_zero p

theorem found_cons_of_ne {p : Word} {b ch : UInt8} {bs : List UInt8} (h : ¬ charEq b.toBitVec ch = true) :
    found p (b :: bs) ch = found (p + 1) bs ch := by
  rw [charEq_iff] at h
  unfold found
  by_cases hlt : ch.toNat < 128
  · have hne : b ≠ ch := fun heq => h ⟨heq, hlt⟩
    rw [List.idxOf_cons_ne bs hne, Nat.succ_eq_add_one, Bytes.add_ofNat_succ]
    simp [hlt, hne.symm]
  · simp [hlt]

/-- `strrchr` returns at the first match, as `strchr` does. -/
theorem strrchrFrom_eq (mem : Mem) (ch : UInt8) (fuel : Nat) (str : Word) :
    strrchrFrom mem ch fuel str 0 = strchrFrom mem ch fuel str := by
  induction fuel generalizing str with
  | zero => rfl
  | succ fuel ih => rw [strrchrFrom, strchrFrom, ih]

theorem strchrFrom_found {mem : Mem} {p : Word} {bs : List UInt8} (h : Screen.IsString mem p bs) (ch : UInt8)
    {fuel : Nat} (hf : bs.length < fuel) : (strchrFrom mem ch fuel p).result = .ok (found p bs ch) := by
  induction fuel generalizing p bs with
  | zero => cases hf
  | succ fuel ih =>
    rw [strchrFrom, readChar_bind]
    cases bs with
    | nil =>
      rw [if_neg (not_not_intro ((mem_eq_zero h).2 rfl)), found, if_neg (by simp)]
      rfl
    | cons b bs =>
      rw [if_pos ((mem_eq_zero h).not.2 (List.cons_ne_nil b bs)), readChar_bind, h.1]
      by_cases heq : charEq b.toBitVec ch = true
      · rw [if_pos heq, found_cons_of_eq heq]
        rfl
      · rw [if_neg heq, found_cons_of_ne heq]
        exact ih h.2.2 (Nat.lt_of_succ_lt_succ hf)

theorem gives_strchr {mem : Mem} {p : Word} {bs : List UInt8} (h : CString mem p bs) (ch : UInt8) :
    Gives (fun fuel => strchr mem fuel p ch) (found p bs ch) := by
  refine ⟨bs.length + 1, ?_⟩
  intro fuel hf
  show (strchr mem fuel p ch).result = _
  rw [strchr, assertNonNull_bind h.nonnull]
  exact strchrFrom_found h.isString ch hf

theorem strrchr_eq_strchr (mem : Mem) (fuel : Nat) (p : Word) (ch : UInt8) :
    strrchr mem fuel p ch = strchr mem fuel p ch := by
  rw [strrchr, strchr, strrchrFrom_eq]

/-- `f` and `l` are pointers to the first and to the last place of `ch` in the string `bs` at `p`, or `NULL` if
there is none, and so they are equal when `ch` occurs at most once. -/
structure FirstAndLast (p : Word) (bs : List UInt8) (ch : UInt8) (f l : Word) : Prop where
  first : ∀ i, bs[i]? = some ch → (∀ j < i, bs[j]? ≠ some ch) → f = p + BitVec.ofNat 32 i
  last : ∀ i, bs[i]? = some ch → (∀ j, i < j → bs[j]? ≠ some ch) → l = p + BitVec.ofNat 32 i
  firstNull : f = 0 ↔ ch ∉ bs
  lastNull : l = 0 ↔ ch ∉ bs
  agree : f = l ↔ bs.count ch ≤ 1

/-- Both functions return, with the first and the last place. -/
def SearchesRight (mem : Mem) (p : Word) (bs : List UInt8) (ch : UInt8) : Prop :=
  ∃ f l, Gives (fun fuel => strchr mem fuel p ch) f ∧ Gives (fun fuel => strrchr mem fuel p ch) l ∧
    FirstAndLast p bs ch f l

/-- The only place of a byte that occurs at most once. -/
theorem eq_idxOf_of_count_le_one {bs : List UInt8} {ch : UInt8} (hcount : bs.count ch ≤ 1) {i : Nat}
    (hi : bs[i]? = some ch) : i = bs.idxOf ch := by
  induction bs generalizing i with
  | nil => cases hi
  | cons b bs ih =>
    by_cases hb : b = ch
    · subst hb
      rw [List.count_cons_self] at hcount
      rw [List.idxOf_cons_self]
      cases i with
      | zero => rfl
      | succ i =>
        have hmem : 0 < bs.count b := List.count_pos_iff.2 (List.mem_of_getElem? hi)
        omega
    · rw [List.count_cons_of_ne hb] at hcount
      rw [List.idxOf_cons_ne bs hb]
      cases i with
      | zero => exact absurd (Option.some.inj hi) hb
      | succ i => rw [ih hcount hi]

theorem CString.add_ne_zero {mem : Mem} {p : Word} {bs : List UInt8} (h : CString mem p bs) {i : Nat}
    (hi : i ≤ bs.length) : p + BitVec.ofNat 32 i ≠ 0 := by
  have hfits := h.fits
  have hp : p ≠ 0#32 := h.nonnull
  show p + BitVec.ofNat 32 i ≠ 0#32
  bv_omega

theorem firstAndLast_found {mem : Mem} {p : Word} {bs : List UInt8} {ch : UInt8} (h : CString mem p bs)
    (hcount : bs.count ch ≤ 1) (hlow : 128 ≤ ch.toNat → ch ∉ bs) :
    FirstAndLast p bs ch (found p bs ch) (found p bs ch) := by
  have hfound : ∀ i, bs[i]? = some ch → found p bs ch = p + BitVec.ofNat 32 i := by
    intro i hi
    have hmem := List.mem_of_getElem? hi
    have hlt : ch.toNat < 128 := by
      by_contra hge
      exact hlow (by omega) hmem
    rw [found, if_pos ⟨hlt, hmem⟩, eq_idxOf_of_count_le_one hcount hi]
  have hnull : found p bs ch = 0 ↔ ch ∉ bs := by
    constructor
    · intro h0 hmem
      obtain ⟨i, hi⟩ := List.mem_iff_getElem?.1 hmem
      rw [hfound i hi] at h0
      exact h.add_ne_zero (Nat.le_of_lt (List.getElem?_eq_some_iff.1 hi).1) h0
    · intro hmem
      exact if_neg fun hand => hmem hand.2
  exact ⟨fun i hi _ => hfound i hi, fun i hi _ => hfound i hi, hnull, hnull, iff_of_true rfl hcount⟩

/-- **When `strchr` and `strrchr` find the first and the last place.** For every string in memory and every byte, both
functions do so if and only if the byte occurs at most once, and not at all if it is one of 128 to 255: `strrchr`
returns at the first match, and a signed `char` is never equal to such a byte. -/
theorem search_first_last_iff {mem : Mem} {p : Word} {bs : List UInt8} (h : CString mem p bs) (ch : UInt8) :
    SearchesRight mem p bs ch ↔ bs.count ch ≤ 1 ∧ (128 ≤ ch.toNat → ch ∉ bs) := by
  have hchr := gives_strchr h ch
  have hrchr : Gives (fun fuel => strrchr mem fuel p ch) (found p bs ch) := by
    simp only [strrchr_eq_strchr]
    exact hchr
  constructor
  · intro hright
    obtain ⟨f, l, hf, hl, hspec⟩ := hright
    obtain rfl := hchr.unique hf
    obtain rfl := hrchr.unique hl
    refine ⟨hspec.agree.1 rfl, ?_⟩
    intro hge
    exact hspec.firstNull.1 (if_neg fun hand => absurd hand.1 (by omega))
  · intro hcond
    exact ⟨_, _, hchr, hrchr, firstAndLast_found h hcond.1 hcond.2⟩

/-- The string `aba`. -/
def aba : Mem := fun x => if x = 1 ∨ x = 3 then 0x61 else if x = 2 then 0x62 else 0

theorem aba_cString : CString aba 1 [0x61, 0x62, 0x61] :=
  ⟨⟨rfl, by decide, rfl, by decide, rfl, by decide, rfl⟩, by decide, by decide⟩

theorem search_first_last_b : SearchesRight aba 1 [0x61, 0x62, 0x61] 0x62 :=
  (search_first_last_iff aba_cString 0x62).2 ⟨by decide, by decide⟩

/-- `strrchr` finds the first `a` of `aba`. -/
theorem not_search_first_last : CString aba 1 [0x61, 0x62, 0x61] ∧ (strrchr aba 4 1 0x61).result = .ok 1 ∧
    ¬ SearchesRight aba 1 [0x61, 0x62, 0x61] 0x61 := by
  have hres : ∀ fuel, 1 ≤ fuel → (strrchr aba fuel 1 0x61).result = .ok 1 := by
    intro fuel hf
    obtain ⟨k, rfl⟩ : ∃ k, fuel = k + 1 := ⟨fuel - 1, by omega⟩
    rfl
  refine ⟨aba_cString, hres 4 (by decide), ?_⟩
  intro hright
  obtain ⟨f, l, -, hl, hspec⟩ := hright
  have hlast : l = 3 := by
    apply hspec.last 2 rfl
    intro j hj
    rw [List.getElem?_eq_none (show ([0x61, 0x62, 0x61] : List UInt8).length ≤ j from hj)]
    exact Option.some_ne_none _ |>.symm
  have hone : (1 : Word) = l := Gives.unique ⟨1, hres⟩ hl
  rw [hlast] at hone
  exact absurd hone (by decide)

end Strings

end ElephantOS
