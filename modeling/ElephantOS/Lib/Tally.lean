import Mathlib.Algebra.BigOperators.Group.Finset.Basic

/-!
# Accounts charged one unit at a time

* `Tally acct total log` : `log` names the account of every unit charged so far; each open account holds its units,
  and `total` is their number;
* `Tally.empty`, `Tally.enroll`, `Tally.charge` : no account, a new account, and one more unit;
* `Tally.sum` : the accounts add up to the total.
-/

universe u

structure Tally {ι : Type u} [DecidableEq ι] (acct : ι → Option Nat) (total : Nat) (log : List ι) : Prop where
  each : ∀ i n, acct i = some n → n = log.count i
  known : ∀ i ∈ log, acct i ≠ none
  total : total = log.length

namespace Tally
variable {ι : Type u} [DecidableEq ι] {acct : ι → Option Nat} {total : Nat} {log : List ι} {i : ι}

theorem empty : Tally (fun _ : ι => none) 0 [] := ⟨by simp, by simp, rfl⟩

theorem charge (h : Tally acct total log) {n : Nat} (hi : acct i = some n) :
    Tally (Function.update acct i (some (n + 1))) (total + 1) (log ++ [i]) where
  each := by
    intro j k hj
    by_cases hij : j = i
    · subst hij
      rw [Function.update_self, Option.some.injEq] at hj
      rw [List.count_append, List.count_singleton_self, ← h.each j n hi, hj]
    · rw [Function.update_of_ne hij] at hj
      rw [List.count_append, List.count_singleton, if_neg (by simpa using Ne.symm hij), Nat.add_zero]
      exact h.each j k hj
  known := by
    intro j hj
    by_cases hij : j = i
    · rw [hij, Function.update_self]
      exact Option.some_ne_none _
    · rw [Function.update_of_ne hij]
      rw [List.mem_append, List.mem_singleton] at hj
      exact h.known j (hj.resolve_right hij)
  total := by rw [List.length_append, List.length_singleton, ← h.total]

theorem enroll (h : Tally acct total log) (hi : acct i = none) :
    Tally (Function.update acct i (some 0)) total log where
  each := by
    intro j k hj
    by_cases hij : j = i
    · subst hij
      rw [Function.update_self, Option.some.injEq] at hj
      have hnot : j ∉ log := fun hmem => h.known j hmem hi
      rw [List.count_eq_zero_of_not_mem hnot, hj]
    · rw [Function.update_of_ne hij] at hj
      exact h.each j k hj
  known := by
    intro j hj
    have hij : j ≠ i := by
      rintro rfl
      exact h.known j hj hi
    rw [Function.update_of_ne hij]
    exact h.known j hj
  total := h.total

theorem sum (h : Tally acct total log) {F : Finset ι} (hF : ∀ i, i ∈ F ↔ acct i ≠ none) :
    ∑ i ∈ F, (acct i).getD 0 = total := by
  have hcount : ∀ i ∈ F, (acct i).getD 0 = (log : Multiset ι).count i := by
    intro i hi
    obtain ⟨n, hn⟩ := Option.ne_none_iff_exists'.1 ((hF i).1 hi)
    rw [hn, Multiset.coe_count, ← h.each i n hn]
    rfl
  rw [Finset.sum_congr rfl hcount, Multiset.sum_count_eq_card fun i hi => (hF i).2 (h.known i hi), h.total]
  rfl

end Tally
