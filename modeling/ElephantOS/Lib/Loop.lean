import Mathlib.Algebra.Group.Nat.Defs
import Mathlib.Data.BitVec
import Mathlib.Tactic.Common

/-!
# Loops that test after their body

* `run body stop fuel s` : `body` until `stop` holds, for at most `fuel` passes; a pass may fail;
* `Ends f s` : with enough fuel `f` gives `s`; `Ends.unique`, `Ends.bind`, `Ends.map`;
* `run_last`, `run_keeps` : what holds whenever the loop ends;
* `ends_run` : the rule of the invariant, for a loop of a known number of passes;
* `passes c` : the passes of a loop that decrements a register holding `c` and stops at 0; `ends_countdown`.
-/

namespace Loop

variable {S T : Type}

def run (body : S → Option S) (stop : S → Bool) : Nat → S → Option S
  | 0, _ => none
  | fuel + 1, s => (body s).bind fun t => if stop t then some t else run body stop fuel t

/-- A computation that ends with `s`, whatever more fuel it is given. -/
def Ends (f : Nat → Option S) (s : S) : Prop := ∃ n, ∀ fuel, n ≤ fuel → f fuel = some s

theorem Ends.unique {f : Nat → Option S} {s t : S} (hs : Ends f s) (ht : Ends f t) : s = t := by
  obtain ⟨n, hn⟩ := hs
  obtain ⟨k, hk⟩ := ht
  have h := (hn (max n k) (Nat.le_max_left n k)).symm.trans (hk (max n k) (Nat.le_max_right n k))
  exact Option.some.inj h

theorem Ends.exists_fuel {f : Nat → Option S} {s : S} (h : Ends f s) : ∃ fuel, f fuel = some s := by
  obtain ⟨n, hn⟩ := h
  exact ⟨n, hn n (Nat.le_refl n)⟩

theorem ends_some (s : S) : Ends (fun _ => some s) s := ⟨0, fun _ _ => rfl⟩

theorem Ends.bind {f : Nat → Option S} {g : Nat → S → Option T} {s : S} {t : T} (hf : Ends f s)
    (hg : Ends (fun fuel => g fuel s) t) : Ends (fun fuel => (f fuel).bind (g fuel)) t := by
  obtain ⟨n, hn⟩ := hf
  obtain ⟨k, hk⟩ := hg
  refine ⟨max n k, ?_⟩
  intro fuel hfuel
  show (f fuel).bind (g fuel) = some t
  rw [hn fuel (by omega)]
  exact hk fuel (by omega)

theorem Ends.map {f : Nat → Option S} {s : S} (hf : Ends f s) (g : S → T) : Ends (fun fuel => (f fuel).map g) (g s) := by
  obtain ⟨n, hn⟩ := hf
  refine ⟨n, ?_⟩
  intro fuel hfuel
  show (f fuel).map g = some (g s)
  rw [hn fuel hfuel]
  rfl

section Partial
variable {body : S → Option S} {stop : S → Bool} {P : S → Prop}

/-- The last pass of a loop that ends, under an invariant. -/
theorem run_last (hbody : ∀ s t, P s → body s = some t → P t) {fuel : Nat} {s t : S} (hs : P s)
    (h : run body stop fuel s = some t) : ∃ u, P u ∧ body u = some t ∧ stop t = true := by
  induction fuel generalizing s with
  | zero => cases h
  | succ fuel ih =>
    rw [run] at h
    obtain ⟨u, hu, h⟩ := Option.bind_eq_some_iff.mp h
    by_cases hstop : stop u = true
    · rw [if_pos hstop, Option.some.injEq] at h
      rw [← h]
      exact ⟨s, hs, hu, hstop⟩
    · rw [if_neg hstop] at h
      exact ih (hbody s u hs hu) h

theorem run_keeps (hbody : ∀ s t, P s → body s = some t → P t) {fuel : Nat} {s t : S} (hs : P s)
    (h : run body stop fuel s = some t) : P t := by
  obtain ⟨u, hu, ht, -⟩ := run_last hbody hs h
  exact hbody u t hu ht

end Partial

section Invariant
variable {body : S → Option S} {stop : S → Bool} {Inv : Nat → S → Prop} {n : Nat}

theorem run_of_inv (hstep : ∀ i s, i < n → Inv i s → ∃ t, body s = some t ∧ Inv (i + 1) t ∧ (stop t = true ↔ i + 1 = n))
    (k : Nat) : ∀ {s : S}, k < n → Inv (n - (k + 1)) s →
    ∃ t, (∀ fuel, k + 1 ≤ fuel → run body stop fuel s = some t) ∧ Inv n t := by
  -- on the passes after this one
  induction k with
  | zero =>
    intro s hk hs
    obtain ⟨t, hbody, ht, hstop⟩ := hstep (n - 1) s (by omega) hs
    rw [show n - 1 + 1 = n by omega] at ht
    refine ⟨t, ?_, ht⟩
    intro fuel hfuel
    obtain ⟨f, rfl⟩ : ∃ f, fuel = f + 1 := ⟨fuel - 1, by omega⟩
    rw [run, hbody]
    exact if_pos (hstop.mpr (by omega))
  | succ k ih =>
    intro s hk hs
    obtain ⟨t, hbody, ht, hstop⟩ := hstep (n - (k + 2)) s (by omega) hs
    rw [show n - (k + 2) + 1 = n - (k + 1) by omega] at ht hstop
    obtain ⟨u, hu, hinv⟩ := ih (by omega) ht
    refine ⟨u, ?_, hinv⟩
    intro fuel hfuel
    obtain ⟨f, rfl⟩ : ∃ f, fuel = f + 1 := ⟨fuel - 1, by omega⟩
    rw [run, hbody]
    have hgo : ¬ stop t = true := fun h => absurd (hstop.mp h) (by omega)
    exact (if_neg hgo).trans (hu f (by omega))

/-- A loop that stops after its `n`th pass. -/
theorem ends_run {s : S} (hn : 0 < n)
    (hstep : ∀ i s, i < n → Inv i s → ∃ t, body s = some t ∧ Inv (i + 1) t ∧ (stop t = true ↔ i + 1 = n))
    (h0 : Inv 0 s) : ∃ t, Ends (fun fuel => run body stop fuel s) t ∧ Inv n t := by
  rw [show 0 = n - (n - 1 + 1) by omega] at h0
  obtain ⟨t, ht, hinv⟩ := run_of_inv hstep (n - 1) (by omega) h0
  exact ⟨t, ⟨n - 1 + 1, ht⟩, hinv⟩

end Invariant

/-! ## Counting down -/

section Countdown
variable {w : Nat}

/-- The passes of a loop that decrements `c` after each pass, until it is 0. -/
def passes (c : BitVec w) : Nat := if c = 0 then 2 ^ w else c.toNat

theorem passes_pos (c : BitVec w) : 0 < passes c := by
  unfold passes
  by_cases h : c = 0
  · rw [if_pos h]
    exact Nat.two_pow_pos w
  · rw [if_neg h]
    exact Nat.pos_of_ne_zero fun h0 => h (BitVec.eq_of_toNat_eq (by simpa using h0))

theorem passes_of_toNat {c : BitVec w} {k : Nat} (h : c.toNat = k) (hk : 0 < k) : passes c = k := by
  have hc : c ≠ 0 := by
    intro h0
    rw [h0, show (0 : BitVec w).toNat = 0 from BitVec.toNat_zero] at h
    omega
  rw [passes, if_neg hc, h]

theorem passes_mod (c : BitVec w) : passes c % 2 ^ w = c.toNat := by
  unfold passes
  by_cases h : c = 0
  · rw [if_pos h, h, Nat.mod_self]
    exact BitVec.toNat_zero.symm
  · rw [if_neg h]
    exact Nat.mod_eq_of_lt c.isLt

theorem passes_le (c : BitVec w) : passes c ≤ 2 ^ w := by
  unfold passes
  by_cases h : c = 0
  · rw [if_pos h]
  · rw [if_neg h]
    exact Nat.le_of_lt c.isLt

/-- The register is 0 after the last pass only. -/
theorem sub_eq_zero_iff {c : BitVec w} {i : Nat} (hi : i < passes c) :
    c - BitVec.ofNat w (i + 1) = 0 ↔ i + 1 = passes c := by
  have hle := passes_le c
  have hmod := passes_mod c
  rw [show (0 : BitVec w) = 0#w from rfl, BitVec.sub_eq_iff_eq_add, BitVec.zero_add]
  constructor
  · intro h
    have hc : c.toNat = (i + 1) % 2 ^ w := by rw [h, BitVec.toNat_ofNat]
    rw [hc] at hmod
    by_cases hlt : i + 1 < 2 ^ w
    · rw [Nat.mod_eq_of_lt hlt] at hmod
      by_cases hfull : passes c = 2 ^ w
      · rw [hfull, Nat.mod_self] at hmod
        omega
      · rw [Nat.mod_eq_of_lt (by omega)] at hmod
        exact hmod.symm
    · omega
  · intro h
    apply BitVec.eq_of_toNat_eq
    rw [h, BitVec.toNat_ofNat, hmod]

/-- The rule of the invariant for a loop that counts the register `count` down. -/
theorem ends_countdown {body : S → Option S} {count : S → BitVec w} {Inv : Nat → S → Prop} {s : S} (c : BitVec w)
    (hstep : ∀ i s, i < passes c → Inv i s → count s = c - BitVec.ofNat w i →
      ∃ t, body s = some t ∧ Inv (i + 1) t ∧ count t = count s - 1)
    (h0 : Inv 0 s) (hcount : count s = c) :
    ∃ t, Ends (fun fuel => run body (fun t => count t == 0) fuel s) t ∧ Inv (passes c) t ∧ count t = 0 := by
  have hnext : ∀ i, c - BitVec.ofNat w i - 1 = c - BitVec.ofNat w (i + 1) := by
    intro i
    rw [BitVec.ofNat_add, BitVec.sub_sub]
    rfl
  have hpass : ∀ i s, i < passes c → (Inv i s ∧ count s = c - BitVec.ofNat w i) → ∃ t, body s = some t ∧
      (Inv (i + 1) t ∧ count t = c - BitVec.ofNat w (i + 1)) ∧ ((count t == 0) = true ↔ i + 1 = passes c) := by
    rintro i s hi ⟨hs, hc⟩
    obtain ⟨t, hbody, ht, hdec⟩ := hstep i s hi hs hc
    rw [hc, hnext] at hdec
    refine ⟨t, hbody, ⟨ht, hdec⟩, ?_⟩
    rw [← sub_eq_zero_iff hi, hdec]
    exact beq_iff_eq
  have hc0 : count s = c - BitVec.ofNat w 0 := by
    rw [hcount]
    exact (BitVec.sub_zero c).symm
  obtain ⟨t, hends, hinv, hzero⟩ := ends_run (passes_pos c) hpass ⟨h0, hc0⟩
  refine ⟨t, hends, hinv, ?_⟩
  rw [hzero, show BitVec.ofNat w (passes c) = c from BitVec.eq_of_toNat_eq ((BitVec.toNat_ofNat ..).trans (passes_mod c))]
  exact BitVec.sub_self c

end Countdown

end Loop
