import Mathlib.Data.Set.Basic
import Mathlib.Logic.Function.Basic
import Mathlib.Tactic.Common

/-!
# Units taken under locks

Threads take units of resources. A thread looks for a unit that is not in use and then marks it, and only the lock
of the resource makes the two steps one.

* `Act`, `State`, `Step`, `Run` : what the threads do, one step at a time, in any order;
* `locks`, `Disciplined` : the locks a thread has after its steps, and that it makes every access to a resource with
  the resource's lock;
* `Run.inv` : when every thread keeps to that, the accesses to a resource are made by the holder of its lock, no two
  threads are between looking and marking on one resource, and a unit that is marked was not in use.
-/

namespace Guarded
variable {T P U : Type} [DecidableEq T] [DecidableEq P]

inductive Act (P : Type) where
  | acquire (p : P)
  | release (p : P)
  /-- look for a unit that is not in use -/
  | scan (p : P)
  /-- mark the unit the scan before it found -/
  | take (p : P)
  /-- a unit is no longer in use -/
  | give (p : P)

structure State (T P U : Type) where
  holder : P → Option T
  used : P → Set U
  /-- what the last step of a thread found, if that was a scan -/
  found : T → Option (P × U)

/-- Nobody has a lock. -/
def State.init (used : P → Set U) : State T P U := ⟨fun _ => none, used, fun _ => none⟩

def State.setFound (s : State T P U) (t : T) (x : Option (P × U)) : State T P U :=
  { s with found := Function.update s.found t x }

inductive Step (s : State T P U) (t : T) : Act P → State T P U → Prop where
  | acquire {p : P} (h : s.holder p = none) :
      Step s t (.acquire p) { s.setFound t none with holder := Function.update s.holder p (some t) }
  | release {p : P} : Step s t (.release p) { s.setFound t none with holder := Function.update s.holder p none }
  | scan {p : P} {u : U} (h : u ∉ s.used p) : Step s t (.scan p) (s.setFound t (some (p, u)))
  | full {p : P} : Step s t (.scan p) (s.setFound t none)
  | take {p : P} {u : U} (h : s.found t = some (p, u)) :
      Step s t (.take p) { s.setFound t none with used := Function.update s.used p (insert u (s.used p)) }
  | give {p : P} (u : U) :
      Step s t (.give p) { s.setFound t none with used := Function.update s.used p (s.used p \ {u}) }

/-- The steps `w`, each with the thread that makes it. -/
inductive Run (s : State T P U) : List (T × Act P) → State T P U → Prop where
  | nil : Run s [] s
  | snoc {s' s'' : State T P U} {w : List (T × Act P)} {t : T} {a : Act P} (hr : Run s w s') (hs : Step s' t a s'') :
      Run s (w ++ [(t, a)]) s''

/-- The steps of one thread. -/
def part (t : T) (w : List (T × Act P)) : List (Act P) := (w.filter fun x => x.1 = t).map Prod.snd

/-! ## One thread -/

/-- The locks after one more step. -/
def Act.locks (own : Set P) : Act P → Set P
  | .acquire p => insert p own
  | .release p => own \ {p}
  | _ => own

def locks (own : Set P) (es : List (Act P)) : Set P := es.foldl Act.locks own

/-- The lock is there for the step. -/
def Act.Allowed (own : Set P) : Act P → Prop
  | .acquire _ => True
  | .release p => p ∈ own
  | .scan p => p ∈ own
  | .take p => p ∈ own
  | .give p => p ∈ own

def Disciplined (own : Set P) : List (Act P) → Prop
  | [] => True
  | a :: es => a.Allowed own ∧ Disciplined (a.locks own) es

section
omit [DecidableEq P]

theorem locks_append (own : Set P) (es es' : List (Act P)) : locks own (es ++ es') = locks (locks own es) es' :=
  List.foldl_append

theorem disciplined_append {own : Set P} {es es' : List (Act P)} :
    Disciplined own (es ++ es') ↔ Disciplined own es ∧ Disciplined (locks own es) es' := by
  induction es generalizing own with
  | nil => exact (and_iff_right trivial).symm
  | cons a es ih =>
    show a.Allowed own ∧ Disciplined (a.locks own) (es ++ es') ↔ _
    rw [ih, ← and_assoc]
    rfl

theorem part_snoc_self (t : T) (w : List (T × Act P)) (a : Act P) : part t (w ++ [(t, a)]) = part t w ++ [a] := by
  simp [part]

theorem part_snoc_other {t t' : T} (h : t ≠ t') (w : List (T × Act P)) (a : Act P) :
    part t' (w ++ [(t, a)]) = part t' w := by
  simp [part, h]

end

/-! ## All of them -/

/-- What holds between the steps: a thread has the locks its own steps say, and a unit it has found is not in use. -/
structure Inv (w : List (T × Act P)) (s : State T P U) : Prop where
  holder : ∀ t p, s.holder p = some t ↔ p ∈ locks ∅ (part t w)
  found : ∀ {t p u}, s.found t = some (p, u) → s.holder p = some t ∧ u ∉ s.used p

section Runs
variable {w : List (T × Act P)} {s s' : State T P U} {t : T} {a : Act P}

/-- The locks after a step by `t`. -/
theorem Inv.holder_snoc (h : Inv w s) (ha : a.Allowed (locks ∅ (part t w))) (hs : Step s t a s') (t' : T) (p : P) :
    s'.holder p = some t' ↔ p ∈ locks ∅ (part t' (w ++ [(t, a)])) := by
  have hold := h.holder t' p
  by_cases ht : t = t'
  · subst ht
    rw [part_snoc_self, locks_append]
    cases hs with
    | @acquire q hq =>
      show Function.update s.holder q (some t) p = some t ↔ p = q ∨ p ∈ locks ∅ (part t w)
      by_cases hp : p = q
      · simp [hp]
      · simp [hp, hold]
    | @release q =>
      show Function.update s.holder q none p = some t ↔ p ∈ locks ∅ (part t w) ∧ p ≠ q
      by_cases hp : p = q
      · simp [hp]
      · simp [hp, hold]
    | scan _ => exact hold
    | full => exact hold
    | take _ => exact hold
    | give _ => exact hold
  · rw [part_snoc_other ht, ← hold]
    cases hs with
    | @acquire q hq =>
      show Function.update s.holder q (some t) p = some t' ↔ _
      by_cases hp : p = q
      · simp [hp, hq, ht]
      · simp [hp]
    | @release q =>
      have hq : s.holder q = some t := (h.holder t q).2 ha
      show Function.update s.holder q none p = some t' ↔ _
      by_cases hp : p = q
      · simp [hp, hq, ht]
      · simp [hp]
    | scan _ => exact Iff.rfl
    | full => exact Iff.rfl
    | take _ => exact Iff.rfl
    | give _ => exact Iff.rfl

theorem Step.found_other (hs : Step s t a s') {t' : T} (ht : t' ≠ t) : s'.found t' = s.found t' := by
  cases hs <;> exact Function.update_of_ne ht ..

/-- Only a scan finds something. -/
theorem Step.found_self (hs : Step s t a s') {p : P} {u : U} (hf : s'.found t = some (p, u)) :
    a = .scan p ∧ s' = s.setFound t (some (p, u)) ∧ u ∉ s.used p := by
  have hnone : ∀ x, Function.update s.found t x t = some (p, u) → x = some (p, u) := by
    intro x hx
    rwa [Function.update_self] at hx
  cases hs with
  | scan hu =>
    cases hnone _ hf
    exact ⟨rfl, rfl, hu⟩
  | acquire _ => cases hnone _ hf
  | release => cases hnone _ hf
  | full => cases hnone _ hf
  | take _ => cases hnone _ hf
  | give _ => cases hnone _ hf

/-- What another thread has found stays as it is through a step by `t`. -/
theorem Inv.found_kept (h : Inv w s) (ha : a.Allowed (locks ∅ (part t w))) (hs : Step s t a s') {t' : T} (ht : t' ≠ t)
    {p : P} {u : U} (hholder : s.holder p = some t') (hu : u ∉ s.used p) : s'.holder p = some t' ∧ u ∉ s'.used p := by
  cases hs with
  | @acquire q hq =>
    have hp : p ≠ q := by
      rintro rfl
      rw [hq] at hholder
      cases hholder
    exact ⟨(Function.update_of_ne hp ..).trans hholder, hu⟩
  | @release q =>
    have hp : p ≠ q := by
      rintro rfl
      exact ht (Option.some.inj (hholder.symm.trans ((h.holder t p).2 ha)))
    exact ⟨(Function.update_of_ne hp ..).trans hholder, hu⟩
  | scan _ => exact ⟨hholder, hu⟩
  | full => exact ⟨hholder, hu⟩
  | @take q v hq =>
    have hp : p ≠ q := by
      rintro rfl
      exact ht (Option.some.inj (hholder.symm.trans (h.found hq).1))
    refine ⟨hholder, ?_⟩
    show u ∉ Function.update s.used q (insert v (s.used q)) p
    rw [Function.update_of_ne hp]
    exact hu
  | @give q v =>
    refine ⟨hholder, ?_⟩
    show u ∉ Function.update s.used q (s.used q \ {v}) p
    by_cases hp : p = q
    · subst hp
      rw [Function.update_self]
      exact fun hmem => hu hmem.1
    · rw [Function.update_of_ne hp]
      exact hu

/-- What the threads have found after a step by `t`. -/
theorem Inv.found_snoc (h : Inv w s) (ha : a.Allowed (locks ∅ (part t w))) (hs : Step s t a s') {t' : T} {p : P} {u : U}
    (hf : s'.found t' = some (p, u)) : s'.holder p = some t' ∧ u ∉ s'.used p := by
  by_cases ht : t' = t
  · subst ht
    obtain ⟨rfl, rfl, hu⟩ := hs.found_self hf
    exact ⟨(h.holder t' p).2 ha, hu⟩
  · rw [hs.found_other ht] at hf
    obtain ⟨hholder, hu⟩ := h.found hf
    exact h.found_kept ha hs ht hholder hu

/-- In every order of the steps. -/
theorem Run.inv {used : P → Set U} (hr : Run (.init used) w s) (hd : ∀ t, Disciplined ∅ (part t w)) : Inv w s := by
  induction hr with
  | nil => exact ⟨fun t p => iff_of_false (by simp [State.init]) (Set.notMem_empty p), fun hf => by cases hf⟩
  | @snoc s' s'' w t a hr hs ih =>
    have hlast := hd t
    rw [part_snoc_self, disciplined_append] at hlast
    have hbefore : ∀ t', Disciplined ∅ (part t' w) := by
      intro t'
      by_cases ht : t = t'
      · subst ht
        exact hlast.1
      · have := hd t'
        rwa [part_snoc_other ht] at this
    have h := ih hbefore
    exact ⟨h.holder_snoc hlast.2.1 hs, h.found_snoc hlast.2.1 hs⟩

omit [DecidableEq P] in
/-- The thread that makes an access has the lock. -/
theorem Inv.holds (h : Inv w s) (hd : Disciplined ∅ (part t (w ++ [(t, a)]))) {p : P}
    (ha : a = .scan p ∨ a = .take p ∨ a = .give p) : s.holder p = some t := by
  rw [part_snoc_self, disciplined_append] at hd
  have hallowed := hd.2.1
  apply (h.holder t p).2
  rcases ha with rfl | rfl | rfl
  · exact hallowed
  · exact hallowed
  · exact hallowed

end Runs

end Guarded
