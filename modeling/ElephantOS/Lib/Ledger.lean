import Mathlib.Tactic.Common

/-!
# Ledgers of exclusive resources

A pool of `n` units, numbered from `b` on, of which each is marked used or not; owners hold units.

* `Ledger own b n used` : the owned units are those of the pool that are marked, and a unit has one owner;
* `Ledger.assign`, `Ledger.release` : an owner takes an unmarked unit, or gives its unit back.
-/

universe u

/-- Every marked unit of the pool has exactly one owner, and only marked units are owned. -/
structure Ledger {O : Type u} (own : O → Option Nat) (b n : Nat) (used : Nat → Prop) : Prop where
  range : ∀ {o f}, own o = some f → b ≤ f ∧ f < b + n
  inj : ∀ {o q f}, own o = some f → own q = some f → o = q
  used_iff : ∀ i < n, used i ↔ ∃ o, own o = some (b + i)

namespace Ledger
variable {O : Type u} {own own' : O → Option Nat} {b n i : Nat} {used used' : Nat → Prop}

theorem congr (h : Ledger own b n used) (hown : ∀ o, own' o = own o) (hused : ∀ i < n, used' i ↔ used i) :
    Ledger own' b n used' where
  range ho := h.range ((hown _).symm.trans ho)
  inj ho ho' := h.inj ((hown _).symm.trans ho) ((hown _).symm.trans ho')
  used_iff i hi := by
    rw [hused i hi, h.used_iff i hi]
    simp only [hown]

/-- Nothing is owned and nothing is marked. -/
theorem empty (hown : ∀ o, own o = none) (hfree : ∀ i < n, ¬ used i) : Ledger own b n used where
  range {o f} ho := by
    rw [hown] at ho
    cases ho
  inj {o q f} ho := by
    rw [hown] at ho
    cases ho
  used_iff i hi := by
    refine ⟨fun h => absurd h (hfree i hi), fun ⟨o, ho⟩ => ?_⟩
    rw [hown] at ho
    cases ho

/-- The owner `o`, who had nothing, takes the unmarked unit `i`. -/
theorem assign (h : Ledger own b n used) (hi : i < n) (hfree : ¬ used i) {o : O}
    (hnew : own' o = some (b + i)) (hrest : ∀ o', o' ≠ o → own' o' = own o') (hnone : own o = none)
    (hused : ∀ j < n, used' j ↔ j = i ∨ used j) : Ledger own' b n used' where
  range {o' f} ho' := by
    by_cases he : o' = o
    · subst he
      rw [hnew, Option.some.injEq] at ho'
      omega
    · exact h.range ((hrest o' he).symm.trans ho')
  inj {o1 o2 f} h1 h2 := by
    have hno : ∀ o', own o' ≠ some (b + i) := fun o' ho' => hfree ((h.used_iff i hi).2 ⟨o', ho'⟩)
    by_cases he1 : o1 = o <;> by_cases he2 : o2 = o
    · rw [he1, he2]
    · subst he1
      rw [hnew] at h1
      rw [hrest o2 he2, ← h1] at h2
      exact absurd h2 (hno o2)
    · subst he2
      rw [hnew] at h2
      rw [hrest o1 he1, ← h2] at h1
      exact absurd h1 (hno o1)
    · rw [hrest o1 he1] at h1
      rw [hrest o2 he2] at h2
      exact h.inj h1 h2
  used_iff j hj := by
    rw [hused j hj]
    constructor
    · rintro (rfl | hu)
      · exact ⟨o, hnew⟩
      · obtain ⟨o', ho'⟩ := (h.used_iff j hj).1 hu
        refine ⟨o', ?_⟩
        rw [hrest o' (fun he => by rw [he, hnone] at ho'; cases ho'), ho']
    · rintro ⟨o', ho'⟩
      by_cases he : o' = o
      · subst he
        rw [hnew, Option.some.injEq] at ho'
        exact .inl (by omega)
      · exact .inr ((h.used_iff j hj).2 ⟨o', (hrest o' he).symm.trans ho'⟩)

/-- The owner `o` gives its unit `i` back. -/
theorem release (h : Ledger own b n used) {o : O} (hold : own o = some (b + i)) (hnew : own' o = none)
    (hrest : ∀ o', o' ≠ o → own' o' = own o') (hused : ∀ j < n, used' j ↔ j ≠ i ∧ used j) :
    Ledger own' b n used' where
  range {o' f} ho' := by
    by_cases he : o' = o
    · rw [he, hnew] at ho'
      cases ho'
    · exact h.range ((hrest o' he).symm.trans ho')
  inj {o1 o2 f} h1 h2 := by
    have he : ∀ o', own' o' = some f → o' ≠ o := fun o' ho' h => by rw [h, hnew] at ho'; cases ho'
    rw [hrest o1 (he o1 h1)] at h1
    rw [hrest o2 (he o2 h2)] at h2
    exact h.inj h1 h2
  used_iff j hj := by
    rw [hused j hj, h.used_iff j hj]
    constructor
    · rintro ⟨hji, o', ho'⟩
      refine ⟨o', ?_⟩
      rw [hrest o' (fun he => hji ?_), ho']
      rw [he, hold, Option.some.injEq] at ho'
      omega
    · rintro ⟨o', ho'⟩
      have he : o' ≠ o := fun he => by rw [he, hnew] at ho'; cases ho'
      rw [hrest o' he] at ho'
      refine ⟨fun hji => he (h.inj ho' ?_), o', ho'⟩
      rw [hold, hji]

end Ledger
