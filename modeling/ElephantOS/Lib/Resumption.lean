import ElephantOS.Lib.Except
import Mathlib.Logic.Relation

/-!
# Code that can be interrupted between its accesses

* `Resumption A B α` : code that makes accesses `A` to a shared device, each answered by a `B`, and returns;
* `run exec` : all of it at once; `step exec` : its next access; `run_of_step` : the rest of the code ends as the
  whole does;
* `Monitor` : calls of such code on one device, one inside at a time, with its `Step`s in any order;
  `Monitor.serial_of_run` : a run leaves the device, and returns to each caller, what the calls would one after
  another.
-/

inductive Resumption (A B α : Type) where
  | ret (a : α)
  /-- make the access `x` and go on with its answer -/
  | act (x : A) (k : B → Resumption A B α)

namespace Resumption
variable {A B α β D E Op : Type}

def bind : Resumption A B α → (α → Resumption A B β) → Resumption A B β
  | .ret a, f => f a
  | .act x k, f => .act x fun b => (k b).bind f

instance : Monad (Resumption A B) where
  pure := ret
  bind := bind

/-- One access. -/
def perform (x : A) : Resumption A B B := .act x ret

def forRange (f : Nat → Resumption A B Unit) : Nat → Nat → Resumption A B Unit
  | 0, _ => ret ()
  | n + 1, i => f i >>= fun _ => forRange f n (i + 1)

variable (exec : A → D → Except E (D × B))

/-- The code, not interrupted. -/
def run : Resumption A B α → D → Except E (D × α)
  | .ret a, d => .ok (d, a)
  | .act x k, d => exec x d >>= fun r => (k r.2).run r.1

/-- The next access and the rest of the code; `none` after the last one. -/
def step : Resumption A B α → D → Option (Except E (D × Resumption A B α))
  | .ret _, _ => none
  | .act x k, d => some (exec x d >>= fun r => .ok (r.1, k r.2))

@[simp] theorem run_ret (a : α) (d : D) : (ret a : Resumption A B α).run exec d = .ok (d, a) := rfl

@[simp] theorem run_pure (a : α) (d : D) : (pure a : Resumption A B α).run exec d = .ok (d, a) := rfl

@[simp] theorem run_perform (x : A) (d : D) : (perform x : Resumption A B B).run exec d = exec x d := by
  show (exec x d >>= fun r => Except.ok (r.1, r.2)) = _
  exact Except.bind_ok _

@[simp] theorem run_bind (c : Resumption A B α) (f : α → Resumption A B β) (d : D) :
    (c >>= f).run exec d = c.run exec d >>= fun r => (f r.2).run exec r.1 := by
  show (c.bind f).run exec d = _
  induction c generalizing d with
  | ret a => rfl
  | act x k ih =>
    show (exec x d >>= fun r => ((k r.2).bind f).run exec r.1) = (exec x d >>= fun r => (k r.2).run exec r.1) >>= _
    rw [bind_assoc]
    congr 1
    funext r
    exact ih r.2 r.1

/-- A loop does to the device what the loop over its passes does. -/
theorem run_forRange {f : Nat → Resumption A B Unit} {g : Nat → D → Except E D}
    (h : ∀ i d, (f i).run exec d = (g i d).map fun d => (d, ())) (n i : Nat) (d : D) :
    (forRange f n i).run exec d = (Except.forRange g n i d).map fun d => (d, ()) := by
  induction n generalizing i d with
  | zero => rfl
  | succ n ih =>
    rw [forRange, run_bind, h, Except.forRange_succ]
    cases g i d with
    | ok d' => exact ih (i + 1) d'
    | error e => rfl

variable {exec}

theorem run_of_step {c c' : Resumption A B α} {d d' : D} (h : c.step exec d = some (.ok (d', c'))) :
    c.run exec d = c'.run exec d' := by
  cases c with
  | ret a => cases h
  | act x k =>
    obtain ⟨r, hr, hnext⟩ := Except.bind_eq_ok.1 (Option.some.inj h)
    obtain ⟨rfl, rfl⟩ := Prod.mk.inj (Except.ok.inj hnext)
    show (exec x d >>= fun r => (k r.2).run exec r.1) = _
    rw [hr]
    rfl

/-- Code that would end if it were not interrupted can go on. -/
theorem exists_step {c : Resumption A B α} {d : D} {r : D × α} (h : c.run exec d = .ok r) :
    (∃ a, c = ret a) ∨ ∃ d' c', c.step exec d = some (.ok (d', c')) := by
  cases c with
  | ret a => exact .inl ⟨a, rfl⟩
  | act x k =>
    obtain ⟨q, hq, -⟩ := Except.bind_eq_ok.1 (show (exec x d >>= fun r => (k r.2).run exec r.1) = .ok r from h)
    refine .inr ⟨q.1, k q.2, ?_⟩
    rw [step, hq]
    rfl

variable (exec) (code : Op → Resumption A B α)

/-- The calls `ops`, one after another, with what each of them returns. -/
def serial : List Op → D → Except E (D × List α)
  | [], d => .ok (d, [])
  | o :: ops, d => do
    let r ← (code o).run exec d
    let q ← serial ops r.1
    return (q.1, r.2 :: q.2)

theorem serial_snoc (ops : List Op) (o : Op) (d : D) :
    serial exec code (ops ++ [o]) d =
      serial exec code ops d >>= fun r => ((code o).run exec r.1).map fun q => (q.1, r.2 ++ [q.2]) := by
  induction ops generalizing d with
  | nil =>
    show ((code o).run exec d >>= fun r => Except.ok (r.1, [r.2])) = ((code o).run exec d).map fun q => (q.1, [q.2])
    cases (code o).run exec d with
    | ok r => rfl
    | error e => rfl
  | cons p ops ih =>
    simp only [List.cons_append, serial, bind_assoc]
    congr 1
    funext r
    rw [ih, bind_assoc]
    congr 1
    funext q
    rw [pure_bind]
    cases (code o).run exec q.1 with
    | ok r => rfl
    | error e => rfl

end Resumption

/-! ## One call at a time -/

/-- The device, the rest of the call that is inside, the calls so far and what those that are done returned. -/
structure Monitor (A B α D Op : Type) where
  dev : D
  inside : Option (Resumption A B α)
  log : List Op
  results : List α

namespace Monitor
variable {A B α D E Op : Type} (exec : A → D → Except E (D × B)) (code : Op → Resumption A B α)

/-- No call has been made. -/
def init (d : D) : Monitor A B α D Op := ⟨d, none, [], []⟩

inductive Step (m : Monitor A B α D Op) : Monitor A B α D Op → Prop where
  | enter (o : Op) (h : m.inside = none) : Step m { m with inside := some (code o), log := m.log ++ [o] }
  | access {c c' : Resumption A B α} {d' : D} (h : m.inside = some c) (hc : c.step exec m.dev = some (.ok (d', c'))) :
      Step m { m with dev := d', inside := some c' }
  | exit {a : α} (h : m.inside = some (.ret a)) : Step m { m with inside := none, results := m.results ++ [a] }

/-- The calls that are done have been made one after another from `d`, and the one that is inside will end as if it
had been made after them. -/
def Serial (d : D) (m : Monitor A B α D Op) : Prop :=
  match m.inside with
  | none => Resumption.serial exec code m.log d = .ok (m.dev, m.results)
  | some c => ∃ ops o d', m.log = ops ++ [o] ∧ Resumption.serial exec code ops d = .ok (d', m.results) ∧
      c.run exec m.dev = (code o).run exec d'

variable {exec code}

theorem Serial.of_none {m : Monitor A B α D Op} {d : D} (hm : Serial exec code d m) (h : m.inside = none) :
    Resumption.serial exec code m.log d = .ok (m.dev, m.results) := by
  rw [Serial, h] at hm
  exact hm

theorem Serial.of_some {m : Monitor A B α D Op} {d : D} {c : Resumption A B α} (hm : Serial exec code d m)
    (h : m.inside = some c) : ∃ ops o d', m.log = ops ++ [o] ∧
      Resumption.serial exec code ops d = .ok (d', m.results) ∧ c.run exec m.dev = (code o).run exec d' := by
  rw [Serial, h] at hm
  exact hm

theorem Serial.step {m m' : Monitor A B α D Op} {d : D} (hm : Serial exec code d m) (h : Step exec code m m') :
    Serial exec code d m' := by
  cases h with
  | enter o h => exact ⟨m.log, o, m.dev, rfl, hm.of_none h, rfl⟩
  | access h hc =>
    obtain ⟨ops, o, d', hlog, hserial, hrun⟩ := hm.of_some h
    refine ⟨ops, o, d', hlog, hserial, ?_⟩
    rw [← hrun]
    exact (Resumption.run_of_step hc).symm
  | exit h =>
    obtain ⟨ops, o, d', hlog, hserial, hrun⟩ := hm.of_some h
    show Resumption.serial exec code m.log d = .ok (m.dev, m.results ++ [_])
    rw [hlog, Resumption.serial_snoc, hserial, Except.ok_bind, ← hrun]
    rfl

open Relation in
/-- The steps of a call that is not interrupted. -/
theorem whole_call {m : Monitor A B α D Op} (hm : m.inside = none) {o : Op} {d : D} {a : α}
    (h : (code o).run exec m.dev = .ok (d, a)) :
    ReflTransGen (Step exec code) m { m with dev := d, log := m.log ++ [o], results := m.results ++ [a] } := by
  have hrest : ∀ (c : Resumption A B α) (m : Monitor A B α D Op), m.inside = some c → c.run exec m.dev = .ok (d, a) →
      ReflTransGen (Step exec code) m { m with dev := d, inside := some (.ret a) } := by
    intro c
    induction c with
    | ret b =>
      intro m hin hrun
      obtain ⟨rfl, rfl⟩ := Prod.mk.inj (Except.ok.inj hrun)
      rw [← hin]
    | act x k ih =>
      intro m hin hrun
      obtain ⟨r, hx, hk⟩ := Except.bind_eq_ok.1 (show (exec x m.dev >>= fun r => (k r.2).run exec r.1) = _ from hrun)
      have hstep : Step exec code m { m with dev := r.1, inside := some (k r.2) } := by
        apply Step.access hin
        rw [Resumption.step, hx]
        rfl
      exact .head hstep (ih r.2 _ rfl hk)
  have henter : Step exec code m { m with inside := some (code o), log := m.log ++ [o] } := .enter o hm
  have hbody := hrest (code o) _ (rfl : ({ m with inside := some (code o), log := m.log ++ [o] } :
    Monitor A B α D Op).inside = _) h
  have hexit := hbody.tail (.exit rfl)
  rw [← hm] at hexit
  exact .head henter hexit

/-- In any order of the steps, the calls are made one after another. -/
theorem serial_of_run {m : Monitor A B α D Op} {d : D} (h : Relation.ReflTransGen (Step exec code) (init d) m) :
    Serial exec code d m := by
  induction h with
  | refl => rfl
  | tail _ hstep ih => exact ih.step hstep

end Monitor
