import Mathlib.Algebra.Group.Nat.Defs
import Mathlib.Tactic.Common

/-!
# Programs that return or stop

* `bind` on a known result, and `bind_eq_ok` to take a finished program apart;
* `Sat x Q E` : `x` returns a value with `Q`, or stops with an error in `E`; its rules for `bind` and for
  weakening;
* `forRange f n i s` : `n` passes of a loop body `f`, with the counter from `i` on; `forRange_ok` and
  `Sat.forRange` : its total invariant rule, and the one of a body that may stop.
-/

namespace Except
universe u v
variable {ε : Type u} {α β : Type v}

@[simp] theorem ok_bind (a : α) (f : α → Except ε β) : (Except.ok a >>= f) = f a := rfl

@[simp] theorem error_bind (e : ε) (f : α → Except ε β) : ((Except.error e : Except ε α) >>= f) = .error e := rfl

@[simp] theorem throw_eq (e : ε) : (throw e : Except ε α) = .error e := rfl

@[simp] theorem pure_eq (a : α) : (pure a : Except ε α) = .ok a := rfl

@[simp] theorem ok_map (a : α) (f : α → β) : f <$> (Except.ok a : Except ε α) = .ok (f a) := rfl

@[simp] theorem bind_ok (x : Except ε α) : (x >>= fun a => .ok a) = x := by
  cases x with
  | ok a => rfl
  | error e => rfl

theorem bind_eq_ok {x : Except ε α} {f : α → Except ε β} {b : β} :
    x >>= f = .ok b ↔ ∃ a, x = .ok a ∧ f a = .ok b := by
  cases x with
  | ok a => simp
  | error e => simp

theorem map_eq_ok {x : Except ε α} {f : α → β} {b : β} : x.map f = .ok b ↔ ∃ a, x = .ok a ∧ f a = b := by
  cases x with
  | ok a => simp [Except.map]
  | error e => simp [Except.map]

/-! ## Postconditions -/

/-- `x` returns a value in `Q` or stops with an error in `E`. -/
def Sat (x : Except ε α) (Q : α → Prop) (E : ε → Prop) : Prop :=
  match x with
  | .ok a => Q a
  | .error e => E e

variable {x : Except ε α} {Q Q' : α → Prop} {E E' : ε → Prop}

@[simp] theorem sat_ok {a : α} : Sat (.ok a : Except ε α) Q E ↔ Q a := Iff.rfl

@[simp] theorem sat_error {e : ε} : Sat (.error e : Except ε α) Q E ↔ E e := Iff.rfl

theorem Sat.bind {f : α → Except ε β} {R : β → Prop} (hx : Sat x Q E) (hf : ∀ a, Q a → Sat (f a) R E) :
    Sat (x >>= f) R E := by
  cases x with
  | ok a => exact hf a hx
  | error e => exact hx

theorem Sat.mono (hx : Sat x Q E) (hQ : ∀ a, Q a → Q' a) (hE : ∀ e, E e → E' e) : Sat x Q' E' := by
  cases x with
  | ok a => exact hQ a hx
  | error e => exact hE e hx

theorem Sat.imp (hx : Sat x Q E) (hQ : ∀ a, Q a → Q' a) : Sat x Q' E := hx.mono hQ fun _ h => h

theorem Sat.of_ok {a : α} (hx : Sat x Q E) (h : x = .ok a) : Q a := by
  subst h
  exact hx

theorem Sat.of_error {e : ε} (hx : Sat x Q E) (h : x = .error e) : E e := by
  subst h
  exact hx

theorem Sat.cases (hx : Sat x Q E) : (∃ a, x = .ok a ∧ Q a) ∨ ∃ e, x = .error e ∧ E e := by
  cases x with
  | ok a => exact .inl ⟨a, rfl, hx⟩
  | error e => exact .inr ⟨e, rfl, hx⟩

/-! ## Counted loops -/

/-- `n` passes of the body `f`, with the loop counter starting at `i`. -/
def forRange (f : Nat → α → Except ε α) : Nat → Nat → α → Except ε α
  | 0, _, s => .ok s
  | n + 1, i, s => f i s >>= forRange f n (i + 1)

theorem forRange_succ (f : Nat → α → Except ε α) (n i : Nat) (s : α) :
    forRange f (n + 1) i s = f i s >>= forRange f n (i + 1) := rfl

/-- A loop whose body keeps the invariant, or stops. -/
theorem Sat.forRange {f : Nat → α → Except ε α} (P : Nat → α → Prop) {n i : Nat} {s : α} (h0 : P i s)
    (hstep : ∀ j s, i ≤ j → j < i + n → P j s → Sat (f j s) (P (j + 1)) E) :
    Sat (forRange f n i s) (P (i + n)) E := by
  induction n generalizing i s with
  | zero => exact h0
  | succ n ih =>
    rw [forRange_succ]
    refine (hstep i s (Nat.le_refl i) (by omega) h0).bind fun s1 h1 => ?_
    have := ih h1 fun j s hj hlt => hstep j s (by omega) (by omega)
    rwa [show i + 1 + n = i + (n + 1) by omega] at this

/-- A loop whose body always succeeds. -/
theorem forRange_ok {f : Nat → α → Except ε α} (P : Nat → α → Prop) {n i : Nat} {s : α} (h0 : P i s)
    (hstep : ∀ j s, i ≤ j → j < i + n → P j s → ∃ s', f j s = .ok s' ∧ P (j + 1) s') :
    ∃ s', forRange f n i s = .ok s' ∧ P (i + n) s' := by
  have h : Sat (forRange f n i s) (P (i + n)) (fun _ => False) := by
    refine Sat.forRange P h0 fun j s hj hlt hp => ?_
    obtain ⟨s', hs', hp'⟩ := hstep j s hj hlt hp
    rw [hs']
    exact hp'
  cases hr : forRange f n i s with
  | ok s' => exact ⟨s', rfl, h.of_ok hr⟩
  | error e => exact (h.of_error hr).elim

end Except
