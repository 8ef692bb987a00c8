import Mathlib.Data.Nat.Digits.Lemmas

/-!
# Numerals

Digits are written in ASCII, `A` to `F` for those from 10 on.

* `digits b n` : the digits of `n` in base `b`, the least first, with one digit for 0;
* `IsNumeral b cs` : a numeral without leading zeros; `value b cs` : the number it stands for;
* `sign z` : the minus sign of a negative number; `intValue cs` : a decimal numeral with or without it;
* `isNumeral_digits`, `value_digits` : the digits of a number, read from the most significant one on.
-/

namespace Numeral

def digits (b n : Nat) : List Nat := if n = 0 then [0] else Nat.digits b n

/-- A digit in ASCII. -/
def digitChar (d : Nat) : UInt8 := if d ≤ 9 then UInt8.ofNat (0x30 + d) else UInt8.ofNat (0x41 + (d - 10))

def digitValue (c : UInt8) : Nat := if c ≤ 0x39 then c.toNat - 0x30 else c.toNat - 0x41 + 10

/-- One digit or more, and no zero in front. -/
structure IsNumeral (b : Nat) (cs : List UInt8) : Prop where
  nonempty : cs ≠ []
  digit : ∀ c ∈ cs, ∃ d < b, c = digitChar d
  noZero : cs.head? = some (digitChar 0) → cs.length = 1

def value (b : Nat) (cs : List UInt8) : Nat := cs.foldl (fun n c => digitValue c + b * n) 0

def sign (z : Int) : List UInt8 := if z < 0 then [0x2D] else []

def intValue (cs : List UInt8) : Int := if cs.head? = some 0x2D then -(value 10 cs.tail : Int) else value 10 cs

theorem digitValue_digitChar {d : Nat} (hd : d < 16) : digitValue (digitChar d) = d := by
  revert d
  decide

/-- A digit is no control character and no sign. -/
theorem lt_digitChar {d : Nat} (hd : d < 16) : 0x2D < digitChar d := by
  revert d
  decide

theorem digitChar_eq_zero {d : Nat} (hd : d < 16) : digitChar d = digitChar 0 ↔ d = 0 := by
  revert d
  decide

section Digits
variable {b : Nat} (n : Nat)

theorem digits_ne_nil : digits b n ≠ [] := by
  unfold digits
  by_cases hn : n = 0
  · rw [if_pos hn]
    exact List.cons_ne_nil 0 []
  · rw [if_neg hn]
    exact Nat.digits_ne_nil_iff_ne_zero.2 hn

theorem lt_of_mem_digits (hb : 1 < b) {d : Nat} (hd : d ∈ digits b n) : d < b := by
  unfold digits at hd
  by_cases hn : n = 0
  · rw [if_pos hn, List.mem_singleton] at hd
    omega
  · rw [if_neg hn] at hd
    exact Nat.digits_lt_base hb hd

theorem ofDigits_digits : Nat.ofDigits b (digits b n) = n := by
  unfold digits
  by_cases hn : n = 0
  · rw [if_pos hn, hn, Nat.ofDigits_singleton]
  · rw [if_neg hn, Nat.ofDigits_digits]

/-- The number of digits. -/
theorem length_digits_le (hb : 1 < b) {k : Nat} (hk : 0 < k) : (digits b n).length ≤ k ↔ n < b ^ k := by
  unfold digits
  by_cases hn : n = 0
  · rw [if_pos hn, hn]
    exact iff_of_true hk (Nat.pow_pos (by omega))
  · rw [if_neg hn, Nat.digits_length_le_iff hb]

theorem getElem_digits (hb : 1 < b) {i : Nat} (hi : i < (digits b n).length) : (digits b n)[i] = n / b ^ i % b := by
  rw [List.getElem_eq_getD 0, digits]
  by_cases hn : n = 0
  · rw [if_pos hn, hn, Nat.zero_div, Nat.zero_mod]
    cases i with
    | zero => rfl
    | succ i => rfl
  · rw [if_neg hn, Nat.getD_digits n i hb]

/-- The most significant digit is not 0 where there are several. -/
theorem getLast_digits (hlen : (digits b n).length ≠ 1) : (digits b n).getLast (digits_ne_nil n) ≠ 0 := by
  by_cases hn : n = 0
  · rw [digits, if_pos hn] at hlen
    exact absurd rfl hlen
  · simp only [digits, if_neg hn]
    exact Nat.getLast_digit_ne_zero b hn

end Digits

/-! ## Reading -/

variable {b : Nat}

theorem value_digits (hb : 1 < b) (hb16 : b ≤ 16) (n : Nat) : value b ((digits b n).map digitChar).reverse = n := by
  have hfold : ∀ ds : List Nat, (∀ d ∈ ds, d < 16) → value b (ds.map digitChar).reverse = Nat.ofDigits b ds := by
    intro ds hds
    rw [value, List.foldl_reverse, List.foldr_map, Nat.ofDigits_eq_foldr]
    induction ds with
    | nil => rfl
    | cons d ds ih =>
      rw [List.foldr_cons, List.foldr_cons, ih fun e he => hds e (List.mem_cons_of_mem d he),
        digitValue_digitChar (hds d List.mem_cons_self)]
      rfl
  rw [hfold _ fun d hd => Nat.lt_of_lt_of_le (lt_of_mem_digits n hb hd) hb16, ofDigits_digits]

theorem isNumeral_digits (hb : 1 < b) (hb16 : b ≤ 16) (n : Nat) : IsNumeral b ((digits b n).map digitChar).reverse where
  nonempty := by simpa using digits_ne_nil n
  digit := by
    intro c hc
    rw [List.mem_reverse, List.mem_map] at hc
    obtain ⟨d, hd, rfl⟩ := hc
    exact ⟨d, lt_of_mem_digits n hb hd, rfl⟩
  noZero := by
    intro hhead
    rw [List.length_reverse, List.length_map]
    by_contra hlen
    rw [List.head?_reverse, List.getLast?_map, List.getLast?_eq_some_getLast (digits_ne_nil n)] at hhead
    have hlast := lt_of_mem_digits n hb (List.getLast_mem (digits_ne_nil n))
    exact getLast_digits n hlen ((digitChar_eq_zero (by omega)).1 (Option.some.inj hhead))

theorem IsNumeral.lt {cs : List UInt8} (h : IsNumeral b cs) (hb : b ≤ 16) {c : UInt8} (hc : c ∈ cs) : 0x2D < c := by
  obtain ⟨d, hd, rfl⟩ := h.digit c hc
  exact lt_digitChar (by omega)

theorem IsNumeral.intValue_sign {ds : List UInt8} (h : IsNumeral 10 ds) {z : Int} (hz : value 10 ds = z.natAbs) :
    intValue (sign z ++ ds) = z := by
  unfold sign
  by_cases hneg : z < 0
  · rw [if_pos hneg]
    show -(value 10 ds : Int) = z
    omega
  · have hhead : ds.head? ≠ some 0x2D := fun hhead =>
      absurd (h.lt (by decide) (List.mem_of_mem_head? hhead)) (by decide)
    rw [if_neg hneg, List.nil_append, intValue, if_neg hhead]
    omega

theorem IsNumeral.le_of_mem_sign {ds : List UInt8} (h : IsNumeral 10 ds) {z : Int} {c : UInt8}
    (hc : c ∈ sign z ++ ds) : 0x2D ≤ c := by
  unfold sign at hc
  rw [List.mem_append] at hc
  obtain hc | hc := hc
  · by_cases hneg : z < 0
    · rw [if_pos hneg, List.mem_singleton] at hc
      rw [hc]
      decide
    · rw [if_neg hneg] at hc
      cases hc
  · exact UInt8.le_of_lt (h.lt (by decide) hc)

end Numeral
