import ElephantOS.Lib.Except

/-!
# Programs that log what they do

* `Trace ω ε α` : a program that returns or stops, with its events until then;
* `emit`, `lift`, `bind` : one event, a program without events, and one program after another;
* `result_bind`, `result_forRange` : without the events it is the program it was;
* `Sat x Q E` : `x` returns with `Q` of its events and its value, or stops with `E`; `Sat.bind`,
  `Sat.forRange`;
* `Goes R a x b` : the events of `x` are a path of `R` from `a`, to `b` of its value when it returns.
-/

structure Trace (ω ε α : Type) where
  log : List ω
  result : Except ε α

namespace Trace
variable {ω ε α β : Type}

/-- The events of `f` are only there when `x` returns. -/
def bind (x : Trace ω ε α) (f : α → Trace ω ε β) : Trace ω ε β :=
  match x.result with
  | .ok a => ⟨x.log ++ (f a).log, (f a).result⟩
  | .error e => ⟨x.log, .error e⟩

instance : Monad (Trace ω ε) where
  pure a := ⟨[], .ok a⟩
  bind := bind

def emit (w : ω) : Trace ω ε Unit := ⟨[w], .ok ()⟩

def lift (x : Except ε α) : Trace ω ε α := ⟨[], x⟩

instance : MonadLift (Except ε) (Trace ω ε) := ⟨lift⟩

def forRange (f : Nat → α → Trace ω ε α) : Nat → Nat → α → Trace ω ε α
  | 0, _, s => pure s
  | n + 1, i, s => f i s >>= forRange f n (i + 1)

/-! ## Without the events -/

@[simp] theorem result_pure (a : α) : (pure a : Trace ω ε α).result = .ok a := rfl

@[simp] theorem result_emit (w : ω) : (emit w : Trace ω ε Unit).result = .ok () := rfl

@[simp] theorem liftM_eq (x : Except ε α) : (liftM x : Trace ω ε α) = lift x := rfl

@[simp] theorem result_lift (x : Except ε α) : (lift x : Trace ω ε α).result = x := rfl

@[simp] theorem result_bind (x : Trace ω ε α) (f : α → Trace ω ε β) :
    (x >>= f).result = x.result >>= fun a => (f a).result := by
  show (bind x f).result = _
  unfold bind
  cases x.result with
  | ok a => rfl
  | error e => rfl

theorem result_forRange {f : Nat → α → Trace ω ε α} {g : Nat → α → Except ε α} (h : ∀ i s, (f i s).result = g i s)
    (n i : Nat) (s : α) : (forRange f n i s).result = Except.forRange g n i s := by
  induction n generalizing i s with
  | zero => rfl
  | succ n ih =>
    rw [forRange, result_bind, h, Except.forRange_succ]
    congr 1
    funext s'
    exact ih (i + 1) s'

/-! ## The events -/

@[simp] theorem log_pure (a : α) : (pure a : Trace ω ε α).log = [] := rfl

@[simp] theorem log_emit (w : ω) : (emit w : Trace ω ε Unit).log = [w] := rfl

@[simp] theorem log_lift (x : Except ε α) : (lift x : Trace ω ε α).log = [] := rfl

theorem bind_of_ok {x : Trace ω ε α} {a : α} (h : x.result = .ok a) (f : α → Trace ω ε β) :
    x >>= f = ⟨x.log ++ (f a).log, (f a).result⟩ := by
  show bind x f = _
  unfold bind
  rw [h]

theorem log_bind_ok {x : Trace ω ε α} {a : α} (h : x.result = .ok a) (f : α → Trace ω ε β) :
    (x >>= f).log = x.log ++ (f a).log := by
  rw [bind_of_ok h]

theorem log_bind_error {x : Trace ω ε α} {e : ε} (h : x.result = .error e) (f : α → Trace ω ε β) :
    (x >>= f).log = x.log := by
  show (bind x f).log = _
  unfold bind
  rw [h]

theorem mem_log_bind_left {x : Trace ω ε α} {w : ω} (h : w ∈ x.log) (f : α → Trace ω ε β) : w ∈ (x >>= f).log := by
  cases hr : x.result with
  | ok a =>
    rw [log_bind_ok hr]
    exact List.mem_append_left _ h
  | error e =>
    rw [log_bind_error hr]
    exact h

theorem mem_log_bind_right {x : Trace ω ε α} {a : α} (hr : x.result = .ok a) {f : α → Trace ω ε β} {w : ω}
    (h : w ∈ (f a).log) : w ∈ (x >>= f).log := by
  rw [log_bind_ok hr]
  exact List.mem_append_right _ h

@[simp] theorem emit_bind (w : ω) (f : Unit → Trace ω ε β) : emit w >>= f = ⟨w :: (f ()).log, (f ()).result⟩ := rfl

@[simp] theorem pure_bind_eq (a : α) (f : α → Trace ω ε β) : (pure a : Trace ω ε α) >>= f = f a := rfl

@[simp] theorem lift_ok_bind (a : α) (f : α → Trace ω ε β) :
    ((lift (.ok a) : Trace ω ε α) >>= f) = f a := rfl

@[simp] theorem lift_error_bind (e : ε) (f : α → Trace ω ε β) :
    ((lift (.error e) : Trace ω ε α) >>= f) = lift (.error e) := rfl

/-! ## Postconditions -/

/-- `x` returns with `Q` of its events and its value, or stops with `E`. -/
def Sat (x : Trace ω ε α) (Q : List ω → α → Prop) (E : List ω → ε → Prop) : Prop :=
  x.result.Sat (Q x.log) (E x.log)

variable {x : Trace ω ε α} {Q Q' : List ω → α → Prop} {E E' : List ω → ε → Prop}

theorem Sat.mono (hx : x.Sat Q E) (hQ : ∀ w a, Q w a → Q' w a) (hE : ∀ w e, E w e → E' w e) : x.Sat Q' E' :=
  Except.Sat.mono hx (hQ x.log) (hE x.log)

/-- The second program is run from what the first one returned. -/
theorem Sat.bind {f : α → Trace ω ε β} {R : List ω → β → Prop} (hx : x.Sat Q E)
    (hf : ∀ w a, x.result = .ok a → Q w a → (f a).Sat (fun w' => R (w ++ w')) fun w' => E (w ++ w')) :
    (x >>= f).Sat R E := by
  cases hr : x.result with
  | ok a =>
    have hQ : Q x.log a := Except.Sat.of_ok hx hr
    have h := hf x.log a hr hQ
    unfold Sat
    rw [result_bind, log_bind_ok hr, hr]
    exact h
  | error e =>
    have hE : E x.log e := Except.Sat.of_error hx hr
    unfold Sat
    rw [result_bind, log_bind_error hr, hr]
    exact hE

theorem Sat.of_ok {a : α} (hx : x.Sat Q E) (h : x.result = .ok a) : Q x.log a := Except.Sat.of_ok hx h

theorem Sat.of_error {e : ε} (hx : x.Sat Q E) (h : x.result = .error e) : E x.log e := Except.Sat.of_error hx h

/-- A loop: the invariant speaks about the events of the passes so far. -/
theorem Sat.forRange {f : Nat → α → Trace ω ε α} (P : Nat → List ω → α → Prop) {n i : Nat} {s : α} {w₀ : List ω}
    (h0 : P i w₀ s)
    (hstep : ∀ j w s, i ≤ j → j < i + n → P j w s →
      (f j s).Sat (fun w' => P (j + 1) (w ++ w')) fun w' => E (w ++ w')) :
    (Trace.forRange f n i s).Sat (fun w => P (i + n) (w₀ ++ w)) fun w => E (w₀ ++ w) := by
  induction n generalizing i s w₀ with
  | zero =>
    show P (i + 0) (w₀ ++ []) s
    rw [List.append_nil]
    exact h0
  | succ n ih =>
    refine Sat.bind (Q := fun w => P (i + 1) (w₀ ++ w)) (hstep i w₀ s (Nat.le_refl i) (by omega) h0) ?_
    intro w a _ ha
    have := ih ha fun j w s hj hlt => hstep j w s (by omega) (by omega)
    rw [show i + 1 + n = i + (n + 1) by omega] at this
    simpa only [List.append_assoc] using this

/-! ## Paths -/

section Goes
variable {σ : Type} {R : σ → List ω → σ → Prop} {a : σ} {b : α → σ}

/-- The events of `x` lead from `a` to what its value says, and anywhere if it stops. -/
def Goes (R : σ → List ω → σ → Prop) (a : σ) (x : Trace ω ε α) (b : α → σ) : Prop :=
  x.Sat (fun w r => R a w (b r)) fun w _ => ∃ c, R a w c

theorem Goes.bind (happend : ∀ {a b c w w'}, R a w b → R b w' c → R a (w ++ w') c) {f : α → Trace ω ε β} {c : β → σ}
    (hx : Goes R a x b) (hf : ∀ r, x.result = .ok r → Goes R (b r) (f r) c) : Goes R a (x >>= f) c := by
  refine Sat.bind hx ?_
  intro w r hr hw
  refine (hf r hr).mono ?_ ?_
  · intro w' r' hw'
    exact happend hw hw'
  · intro w' e ⟨d, hw'⟩
    exact ⟨d, happend hw hw'⟩

/-- A loop: `P` is what its passes keep. -/
theorem Goes.forRange (hnil : ∀ a, R a [] a) (happend : ∀ {a b c w w'}, R a w b → R b w' c → R a (w ++ w') c)
    {f : Nat → α → Trace ω ε α} (P : Nat → α → Prop) {n i : Nat} {s : α} (h0 : P i s)
    (hstep : ∀ j t, j < i + n → P j t → Goes R (b t) (f j t) b ∧ ∀ t', (f j t).result = .ok t' → P (j + 1) t') :
    Goes R (b s) (Trace.forRange f n i s) b := by
  induction n generalizing i s with
  | zero => exact hnil (b s)
  | succ n ih =>
    obtain ⟨hfirst, hnext⟩ := hstep i s (by omega) h0
    apply Goes.bind happend hfirst
    intro t ht
    apply ih (hnext t ht)
    intro j t' hj
    exact hstep j t' (by omega)

theorem Goes.of_ok {r : α} (hx : Goes R a x b) (h : x.result = .ok r) : R a x.log (b r) := Sat.of_ok hx h

/-- Whether it returns or stops. -/
theorem Goes.exists (hx : Goes R a x b) : ∃ c, R a x.log c := by
  cases h : x.result with
  | ok r => exact ⟨b r, hx.of_ok h⟩
  | error e => exact Sat.of_error hx h

/-- The path is the same wherever it ends. -/
theorem Goes.of_log (hr : ∀ r, x.result = .ok r → R a x.log (b r)) (he : ∃ c, R a x.log c) : Goes R a x b := by
  unfold Goes Sat
  cases h : x.result with
  | ok r => exact hr r h
  | error e => exact he

end Goes

end Trace
