import ElephantOS.Thread.Semaphore

/-!
# The re-entrant lock (`thread/sync.c`)

`sys_lock_lock` and `sys_lock_unlock` read and write `holder` and `holder_repeat_request_sum` with
interrupts on, so a thread can be preempted between any two of their statements. `Pc` names the
statement a thread is about to execute, `LockSys.stmt` executes it; `SemaphoreDown` and
`SemaphoreUp` are one statement each (they run with interrupts off), except that a blocked
`SemaphoreDown` is entered again at its loop test when the thread is woken.

* `Lock`, `lockInit` : `struct lock` and `LockInit`;
* `LockSys`, `LockSys.Step` : any number of threads calling the two functions on one lock; the ghost
  `depth t` is the number of times `t` has the lock, and drops to 0 with the `value++` of the
  outermost `sys_lock_unlock`;
* `LockSys.Inv` : either the semaphore has its unit and nobody is past it, or exactly one thread is
  (`Held`), and the lock's fields are what its next statement expects (`OwnerAt`).
-/


namespace ElephantOS

/-- `struct lock`. -/
structure Lock (T : Type*) where
  holder : Option T
  semaphore : Semaphore T
  holderRepeatRequestSum : Nat
  deriving DecidableEq, Repr

/-- `LockInit`. -/
def lockInit {T : Type*} : Lock T := ⟨none, semaphoreInit 1, 0⟩

/-! ## The two functions with interrupts off

A caller that has interrupts off is only switched out inside `SemaphoreDown`. -/

section Atomic
variable {T : Type*} [DecidableEq T]

/-- `sys_lock_lock` from its `SemaphoreDown` on, by thread `t`; `none` is a failed `ASSERT`. -/
def Lock.down (plock : Lock T) (status : T → TaskStatus) (t : T) :
    Option (Lock T × (T → TaskStatus) × Down) :=
  match plock.semaphore.down status t with
  | none => none
  | some (sem, status, .blocked) => some ({ plock with semaphore := sem }, status, .blocked)
  | some (sem, status, .passed) =>
    if plock.holderRepeatRequestSum = 0 then some (⟨some t, sem, 1⟩, status, .passed) else none

/-- `sys_lock_lock` by thread `t`. -/
def sysLockLock (plock : Lock T) (status : T → TaskStatus) (t : T) :
    Option (Lock T × (T → TaskStatus) × Down) :=
  if plock.holder ≠ some t then plock.down status t
  else some ({ plock with holderRepeatRequestSum := (plock.holderRepeatRequestSum + 1) % 2 ^ 32 },
    status, .passed)

/-- `sys_lock_unlock` by thread `t`. -/
def sysLockUnlock (plock : Lock T) (status : T → TaskStatus) (t : T) :
    Option (Lock T × (T → TaskStatus)) :=
  if plock.holder ≠ some t then none
  else if plock.holderRepeatRequestSum > 1 then
    some ({ plock with holderRepeatRequestSum := plock.holderRepeatRequestSum - 1 }, status)
  else if plock.holderRepeatRequestSum ≠ 1 then none
  else match plock.semaphore.up status with
    | none => none
    | some (sem, status) => some (⟨none, sem, 0⟩, status)

end Atomic

namespace LockSys

/-- The next statement of a thread, named by what it does; `out` is outside both functions. -/
inductive Pc where
  | out
  /-- `sys_lock_lock`: `if (plock->holder != GetCurrentThreadPCB())` -/
  | lockTest
  /-- the loop test of `SemaphoreDown`, on entry or after a wakeup -/
  | semDown
  /-- `plock->holder = GetCurrentThreadPCB();` -/
  | setHolder
  /-- `ASSERT(plock->holder_repeat_request_sum == 0);` -/
  | assertZero
  /-- `plock->holder_repeat_request_sum = 1;` -/
  | setOne
  /-- `plock->holder_repeat_request_sum++;` -/
  | incr
  /-- `sys_lock_unlock`: `ASSERT(plock->holder == GetCurrentThreadPCB());` -/
  | assertHolder
  /-- `if (plock->holder_repeat_request_sum > 1)` -/
  | testNested
  /-- `plock->holder_repeat_request_sum--; return;` -/
  | decr
  /-- `ASSERT(plock->holder_repeat_request_sum == 1)` -/
  | assertOne
  /-- `plock->holder_repeat_request_sum = 0;` -/
  | clearSum
  /-- `plock->holder = NULL;` -/
  | clearHolder
  /-- `SemaphoreUp(&plock->semaphore);` -/
  | semUp
  deriving DecidableEq, Repr

end LockSys

/-- One lock and the threads that use it. -/
structure LockSys (T : Type*) where
  lock : Lock T
  status : T → TaskStatus
  pc : T → LockSys.Pc
  depth : T → Nat

namespace LockSys
variable {T : Type*} [DecidableEq T]

/-- After `LockInit`: nobody is inside the two functions. -/
def init : LockSys T := ⟨lockInit, fun _ => .ready, fun _ => .out, fun _ => 0⟩

/-- Move thread `t` to statement `p`. -/
def goto (s : LockSys T) (t : T) (p : Pc) : LockSys T := { s with pc := Function.update s.pc t p }

/-- Thread `t` leaves a function with the lock `d` times. -/
def leave (s : LockSys T) (t : T) (d : Nat) : LockSys T :=
  { s with pc := Function.update s.pc t .out, depth := Function.update s.depth t d }

/-- Thread `t` executes its next statement; `none` is a failed `ASSERT`. -/
def stmt (s : LockSys T) (t : T) : Option (LockSys T) :=
  match s.pc t with
  | .out => none
  | .lockTest => some (s.goto t (if s.lock.holder ≠ some t then .semDown else .incr))
  | .semDown =>
    match s.lock.semaphore.down s.status t with
    | none => none
    | some (sem, status, .passed) =>
      some ({ s with lock := { s.lock with semaphore := sem }, status := status }.goto t .setHolder)
    | some (sem, status, .blocked) =>
      some { s with lock := { s.lock with semaphore := sem }, status := status }
  | .setHolder => some ({ s with lock := { s.lock with holder := some t } }.goto t .assertZero)
  | .assertZero => if s.lock.holderRepeatRequestSum = 0 then some (s.goto t .setOne) else none
  | .setOne =>
    some ({ s with lock := { s.lock with holderRepeatRequestSum := 1 } }.leave t (s.depth t + 1))
  | .incr =>
    some ({ s with lock := { s.lock with
      holderRepeatRequestSum := (s.lock.holderRepeatRequestSum + 1) % 2 ^ 32 } }.leave t (s.depth t + 1))
  | .assertHolder => if s.lock.holder = some t then some (s.goto t .testNested) else none
  | .testNested => some (s.goto t (if s.lock.holderRepeatRequestSum > 1 then .decr else .assertOne))
  | .decr =>
    some ({ s with lock := { s.lock with
      holderRepeatRequestSum := s.lock.holderRepeatRequestSum - 1 } }.leave t (s.depth t - 1))
  | .assertOne => if s.lock.holderRepeatRequestSum = 1 then some (s.goto t .clearSum) else none
  | .clearSum => some ({ s with lock := { s.lock with holderRepeatRequestSum := 0 } }.goto t .clearHolder)
  | .clearHolder => some ({ s with lock := { s.lock with holder := none } }.goto t .semUp)
  | .semUp =>
    match s.lock.semaphore.up s.status with
    | none => none
    | some (sem, status) =>
      some ({ s with lock := { s.lock with semaphore := sem }, status := status }.leave t (s.depth t - 1))

/-- A runnable thread calls one of the functions, or executes its next statement. It calls
`sys_lock_unlock` only while it has the lock, and nests fewer than `2 ^ 32` deep. -/
inductive Step (s s' : LockSys T) : Prop
  | lock (t : T) : s.status t = .ready → s.pc t = .out → s.depth t + 1 < 2 ^ 32 →
      s' = s.goto t .lockTest → Step s s'
  | unlock (t : T) : s.status t = .ready → s.pc t = .out → 0 < s.depth t →
      s' = s.goto t .assertHolder → Step s s'
  | stmt (t : T) : s.status t = .ready → s.pc t ≠ .out → s.stmt t = some s' → Step s s'

/-- The states reachable from `LockInit`. -/
def Reachable : LockSys T → Prop := Relation.ReflTransGen Step init

/-! ## The invariant -/

/-- The statements of a thread that has not got the semaphore's unit. -/
def Free : Pc → Prop
  | .out | .lockTest | .semDown => True
  | _ => False

/-- What the fields of the lock are when the thread `o` past the semaphore is about to execute
statement `p` and has the lock `d` times. -/
def OwnerAt (o : T) (l : Lock T) (d : Nat) : Pc → Prop
  | .out | .assertHolder | .testNested =>
    l.holder = some o ∧ l.holderRepeatRequestSum = d ∧ 0 < d
  | .lockTest | .incr => l.holder = some o ∧ l.holderRepeatRequestSum = d ∧ 0 < d ∧ d + 1 < 2 ^ 32
  | .decr => l.holder = some o ∧ l.holderRepeatRequestSum = d ∧ 1 < d
  | .assertOne | .clearSum => l.holder = some o ∧ l.holderRepeatRequestSum = d ∧ d = 1
  | .clearHolder => l.holder = some o ∧ l.holderRepeatRequestSum = 0 ∧ d = 1
  | .semUp => l.holder = none ∧ l.holderRepeatRequestSum = 0 ∧ d = 1
  | .setHolder => l.holder = none ∧ l.holderRepeatRequestSum = 0 ∧ d = 0
  | .assertZero | .setOne => l.holder = some o ∧ l.holderRepeatRequestSum = 0 ∧ d = 0
  | .semDown => False

omit [DecidableEq T] in
/-- The semaphore inside the lock plays no role. -/
theorem OwnerAt.congr {o : T} {l l' : Lock T} {d : Nat} {p : Pc} (h : OwnerAt o l d p)
    (hh : l'.holder = l.holder) (hs : l'.holderRepeatRequestSum = l.holderRepeatRequestSum) :
    OwnerAt o l' d p := by
  cases p <;> simp_all [OwnerAt]

/-- Every thread satisfying `P` is before the semaphore and does not have the lock. -/
def Outside (s : LockSys T) (P : T → Prop) : Prop := ∀ t, P t → Free (s.pc t) ∧ s.depth t = 0

/-- Nobody is past the semaphore. -/
def Unheld (s : LockSys T) : Prop :=
  s.lock.semaphore.value = 1 ∧ s.lock.holder = none ∧ s.lock.holderRepeatRequestSum = 0 ∧
    s.Outside fun _ => True

/-- Exactly the thread `o` is past the semaphore. -/
def Held (s : LockSys T) (o : T) : Prop :=
  s.lock.semaphore.value = 0 ∧ OwnerAt o s.lock (s.depth o) (s.pc o) ∧ s.Outside (· ≠ o)

/-- The waiting list holds the blocked threads, which are inside `SemaphoreDown`. -/
structure Waits (s : LockSys T) : Prop where
  mem : ∀ t, t ∈ s.lock.semaphore.waitingThreadList ↔ s.status t = .blockd
  pc : ∀ t, s.status t = .blockd → s.pc t = .semDown
  nodup : s.lock.semaphore.waitingThreadList.Nodup

/-- The invariant. -/
structure Inv (s : LockSys T) : Prop where
  waits : s.Waits
  owner : s.Unheld ∨ ∃ o, s.Held o

omit [DecidableEq T] in
theorem inv_init : Inv (init : LockSys T) where
  waits := ⟨by simp [init, lockInit, semaphoreInit], by simp [init], by simp [init, lockInit, semaphoreInit]⟩
  owner := .inl ⟨rfl, rfl, rfl, fun _ _ => ⟨trivial, rfl⟩⟩

omit [DecidableEq T] in
theorem Inv.value_le {s : LockSys T} (hi : s.Inv) : s.lock.semaphore.value = 0 ∨ s.lock.semaphore.value = 1 := by
  rcases hi.owner with h | ⟨o, h⟩
  · exact .inr h.1
  · exact .inl h.1

/-- A thread that is not before the semaphore is its owner. -/
theorem Inv.held_of_not_free {s : LockSys T} (hi : s.Inv) {t : T} (h : ¬ Free (s.pc t) ∨ s.depth t ≠ 0) :
    s.Held t := by
  rcases hi.owner with hu | ⟨o, ho⟩
  · have := hu.2.2.2 t trivial
    tauto
  · by_cases hto : t = o
    · exact hto ▸ ho
    · have := ho.2.2 t hto
      tauto

/-! ## Steps of one thread -/

theorem Waits.goto {s : LockSys T} (hw : s.Waits) {t : T} (ht : s.status t = .ready) (l : Lock T)
    (hl : l.semaphore.waitingThreadList = s.lock.semaphore.waitingThreadList) (p : Pc) (d : T → Nat) :
    Waits { s with lock := l, pc := Function.update s.pc t p, depth := d } := by
  refine ⟨fun u => by rw [hl, hw.mem u], fun u hu => ?_, by rw [hl]; exact hw.nodup⟩
  have hut : u ≠ t := by
    rintro rfl
    rw [ht] at hu
    cases hu
  simp [Function.update_of_ne hut, hw.pc u hu]

/-- The owner moves on without touching the semaphore. -/
theorem Inv.move {s : LockSys T} (hi : s.Inv) {o : T} (hs : s.status o = .ready) (h : s.Held o)
    (l : Lock T) (hl : l.semaphore = s.lock.semaphore) (p : Pc) (d : Nat) (hp : OwnerAt o l d p) :
    Inv { s with lock := l, pc := Function.update s.pc o p, depth := Function.update s.depth o d } := by
  refine ⟨hi.waits.goto hs l (by rw [hl]) p _, .inr ⟨o, by rw [hl]; exact h.1, by simpa using hp, ?_⟩⟩
  intro t hto
  simpa [Function.update_of_ne hto] using h.2.2 t hto

/-- The owner goes on to the next statement of a function. -/
theorem Inv.next {s : LockSys T} (hi : s.Inv) {o : T} (hs : s.status o = .ready) (h : s.Held o)
    (l : Lock T) (hl : l.semaphore = s.lock.semaphore) (p : Pc) (hp : OwnerAt o l (s.depth o) p) :
    Inv ({ s with lock := l }.goto o p) := by
  have := hi.move hs h l hl p (s.depth o) hp
  rwa [Function.update_eq_self] at this

/-- A thread before the semaphore moves to another such statement. -/
theorem Inv.stay {s : LockSys T} (hi : s.Inv) {t : T} (hs : s.status t = .ready) (hf : Free (s.pc t))
    (h0 : s.depth t = 0) (p : Pc) (hp : Free p) : Inv (s.goto t p) := by
  have hout : ∀ P, s.Outside P → (s.goto t p).Outside P := by
    intro P h u hu
    by_cases hut : u = t
    · subst hut
      exact ⟨by simpa [LockSys.goto] using hp, h0⟩
    · simpa [LockSys.goto, Function.update_of_ne hut] using h u hu
  refine ⟨hi.waits.goto hs s.lock rfl p s.depth, ?_⟩
  rcases hi.owner with hu | ⟨o, ho⟩
  · exact .inl ⟨hu.1, hu.2.1, hu.2.2.1, hout _ hu.2.2.2⟩
  · refine .inr ⟨o, ho.1, ?_, hout _ ho.2.2⟩
    by_cases hot : o = t
    · -- the owner has depth 0 only between the semaphore and `setOne`
      subst hot
      have := ho.2.1
      cases hpc : s.pc o <;> simp [hpc, Free, OwnerAt, h0] at hf this
    · simpa [LockSys.goto, Function.update_of_ne hot] using ho.2.1

/-- A pass of `SemaphoreDown`: the caller becomes the owner, or waits. -/
theorem Inv.semDown {s s' : LockSys T} (hi : s.Inv) {t : T} (hs : s.status t = .ready)
    (hpc : s.pc t = .semDown) (h : s.stmt t = some s') : s'.Inv := by
  have hnot : t ∉ s.lock.semaphore.waitingThreadList := by
    rw [hi.waits.mem, hs]
    simp
  have hfree : s.depth t = 0 := by
    by_contra hd
    have := (hi.held_of_not_free (.inr hd)).2.1
    simp [hpc, OwnerAt] at this
  obtain ⟨⟨sem, status, d⟩, hr⟩ := Semaphore.down_isSome s.status hnot
  simp only [stmt, hpc, hr] at h
  rcases Semaphore.down_cases hr with ⟨hv, -, rfl, rfl, rfl⟩ | ⟨hv, rfl, rfl, rfl⟩
  · simp only [Option.some.injEq] at h
    subst h
    refine ⟨⟨fun u => ?_, fun u hu => ?_, ?_⟩, ?_⟩
    · by_cases hut : u = t
      · simp [hut]
      · simp [hut, hi.waits.mem u]
    · by_cases hut : u = t
      · rw [hut]; exact hpc
      · exact hi.waits.pc u (by simpa [hut] using hu)
    · simpa [List.nodup_append] using ⟨hi.waits.nodup, fun a ha hat => hnot (hat ▸ ha)⟩
    · rcases hi.owner with hu | ⟨o, ho⟩
      · rw [hu.1] at hv; cases hv
      · exact .inr ⟨o, rfl, ho.2.1.congr rfl rfl, ho.2.2⟩
  · simp only [Option.some.injEq] at h
    subst h
    rcases hi.owner with hu | ⟨o, ho⟩
    · refine ⟨hi.waits.goto hs { s.lock with
          semaphore := ⟨s.lock.semaphore.value - 1, s.lock.semaphore.waitingThreadList⟩ } rfl .setHolder
          s.depth, .inr ⟨t, by simp [LockSys.goto, hu.1], ?_, ?_⟩⟩
      · simp [LockSys.goto, OwnerAt, hu.2.1, hu.2.2.1, hfree]
      · intro u hut
        simpa [LockSys.goto, Function.update_of_ne hut] using hu.2.2.2 u trivial
    · exact absurd ho.1 hv

/-- The outermost `SemaphoreUp`: the unit is back and the caller is outside. -/
theorem Inv.semUp {s s' : LockSys T} (hi : s.Inv) {t : T} (hs : s.status t = .ready)
    (hpc : s.pc t = .semUp) (h : s.stmt t = some s') : s'.Inv := by
  have hheld := hi.held_of_not_free (t := t) (.inl (by simp [hpc, Free]))
  have hown := hheld.2.1
  rw [hpc] at hown
  obtain ⟨hh, hsum, hd⟩ := hown
  cases hr : s.lock.semaphore.up s.status with
  | none => simp [stmt, hpc, hr] at h
  | some r =>
    obtain ⟨sem, status⟩ := r
    simp only [stmt, hpc, hr, Option.some.injEq] at h
    subst h
    have hval : (s.lock.semaphore.value + 1) % 256 = 1 := by rw [hheld.1]
    have hout : ∀ u, Free (Function.update s.pc t .out u) ∧
        Function.update s.depth t (s.depth t - 1) u = 0 := by
      intro u
      by_cases hut : u = t
      · subst hut; simp [Free, hd]
      · simpa [Function.update_of_ne hut] using hheld.2.2 u hut
    rcases Semaphore.up_cases hr with ⟨hl, rfl, rfl⟩ | ⟨v, rest, hl, -, rfl, rfl⟩
    · exact ⟨hi.waits.goto hs _ (by simp [hl]) .out _,
        .inl ⟨hval, hh, hsum, fun u _ => hout u⟩⟩
    · have hv : s.status v = .blockd := (hi.waits.mem v).1 (by simp [hl])
      have hnd := hi.waits.nodup
      rw [hl, List.nodup_cons] at hnd
      refine ⟨⟨fun u => ?_, fun u hu => ?_, hnd.2⟩, .inl ⟨hval, hh, hsum, fun u _ => hout u⟩⟩
      · by_cases huv : u = v
        · simp [LockSys.leave, huv, hnd.1]
        · have := hi.waits.mem u
          simp only [hl, List.mem_cons, huv, false_or] at this
          simp [LockSys.leave, huv, this]
      · by_cases huv : u = v
        · simp [LockSys.leave, huv] at hu
        · simp only [LockSys.leave, Function.update_of_ne huv] at hu
          have hut : u ≠ t := by
            rintro rfl
            rw [hs] at hu
            cases hu
          simp [LockSys.leave, Function.update_of_ne hut, hi.waits.pc u hu]

/-- The first statement of `sys_lock_lock`: the owner nests, anybody else goes to the semaphore. -/
theorem Inv.lockTest {s s' : LockSys T} (hi : s.Inv) {t : T} (hs : s.status t = .ready)
    (hpc : s.pc t = .lockTest) (h : s.stmt t = some s') : s'.Inv := by
  simp only [LockSys.stmt, hpc, Option.some.injEq] at h
  subst h
  by_cases hd : s.depth t = 0
  · -- a thread that does not have the lock is not its holder
    have hne : s.lock.holder ≠ some t := by
      rcases hi.owner with hu | ⟨o, ho⟩
      · rw [hu.2.1]; simp
      · intro hh
        have hown := ho.2.1
        by_cases hto : t = o
        · subst hto; simp [hpc, OwnerAt, hd] at hown
        · cases hpo : s.pc o <;> simp [hpo, OwnerAt, hh] at hown <;> tauto
    rw [if_pos hne]
    exact hi.stay hs (by simp [hpc, Free]) hd _ trivial
  · have hh := hi.held_of_not_free (.inr hd)
    have hown := hh.2.1
    rw [hpc] at hown
    rw [if_neg (by simp [hown.1])]
    exact hi.next hs hh s.lock rfl .incr hown

/-- Every other statement is executed by the owner. -/
theorem Inv.stmt {s s' : LockSys T} (hi : s.Inv) {t : T} (hs : s.status t = .ready)
    (h : s.stmt t = some s') : s'.Inv := by
  have howner : ∀ {p}, s.pc t = p → ¬ Free p → s.Held t ∧ OwnerAt t s.lock (s.depth t) p := by
    intro p hp hf
    have hh := hi.held_of_not_free (t := t) (.inl (by rwa [hp]))
    exact ⟨hh, hp ▸ hh.2.1⟩
  cases hpc : s.pc t with
  | out => simp [LockSys.stmt, hpc] at h
  | lockTest => exact hi.lockTest hs hpc h
  | semDown => exact hi.semDown hs hpc h
  | semUp => exact hi.semUp hs hpc h
  | setHolder =>
    obtain ⟨hh, -, h2, h3⟩ := howner hpc (by simp [Free])
    simp only [LockSys.stmt, hpc, Option.some.injEq] at h
    subst h
    exact hi.next hs hh _ (by rfl) _ ⟨rfl, h2, h3⟩
  | assertZero =>
    obtain ⟨hh, hown⟩ := howner hpc (by simp [Free])
    simp only [LockSys.stmt, hpc, hown.2.1, if_true, Option.some.injEq] at h
    subst h
    exact hi.next hs hh s.lock rfl .setOne hown
  | setOne =>
    obtain ⟨hh, h1, -, h3⟩ := howner hpc (by simp [Free])
    simp only [LockSys.stmt, hpc, Option.some.injEq] at h
    subst h
    exact hi.move hs hh _ (by rfl) .out (s.depth t + 1) ⟨h1, by simp [h3], by omega⟩
  | incr =>
    obtain ⟨hh, h1, h2, -, h4⟩ := howner hpc (by simp [Free])
    simp only [LockSys.stmt, hpc, Option.some.injEq] at h
    subst h
    exact hi.move hs hh _ (by rfl) .out (s.depth t + 1)
      ⟨h1, by simp only [h2, Nat.mod_eq_of_lt h4], by omega⟩
  | assertHolder =>
    obtain ⟨hh, hown⟩ := howner hpc (by simp [Free])
    simp only [LockSys.stmt, hpc, hown.1, if_true, Option.some.injEq] at h
    subst h
    exact hi.next hs hh s.lock rfl .testNested hown
  | testNested =>
    obtain ⟨hh, h1, h2, h3⟩ := howner hpc (by simp [Free])
    simp only [LockSys.stmt, hpc, Option.some.injEq] at h
    subst h
    by_cases hd : s.lock.holderRepeatRequestSum > 1
    · rw [if_pos hd]
      exact hi.next hs hh s.lock rfl .decr ⟨h1, h2, by omega⟩
    · rw [if_neg hd]
      exact hi.next hs hh s.lock rfl .assertOne ⟨h1, h2, by omega⟩
  | decr =>
    obtain ⟨hh, h1, h2, h3⟩ := howner hpc (by simp [Free])
    simp only [LockSys.stmt, hpc, Option.some.injEq] at h
    subst h
    exact hi.move hs hh _ (by rfl) .out (s.depth t - 1) ⟨h1, by simp only [h2], by omega⟩
  | assertOne =>
    obtain ⟨hh, h1, h2, h3⟩ := howner hpc (by simp [Free])
    simp only [LockSys.stmt, hpc, h2, h3, if_true, Option.some.injEq] at h
    subst h
    exact hi.next hs hh s.lock rfl .clearSum ⟨h1, h2, h3⟩
  | clearSum =>
    obtain ⟨hh, h1, -, h3⟩ := howner hpc (by simp [Free])
    simp only [LockSys.stmt, hpc, Option.some.injEq] at h
    subst h
    exact hi.next hs hh _ (by rfl) _ ⟨h1, rfl, h3⟩
  | clearHolder =>
    obtain ⟨hh, -, h2, h3⟩ := howner hpc (by simp [Free])
    simp only [LockSys.stmt, hpc, Option.some.injEq] at h
    subst h
    exact hi.next hs hh _ (by rfl) _ ⟨rfl, h2, h3⟩

theorem Inv.step {s s' : LockSys T} (hi : s.Inv) (h : Step s s') : s'.Inv := by
  cases h with
  | lock t hs hpc hd h =>
    subst h
    by_cases h0 : s.depth t = 0
    · exact hi.stay hs (by simp [hpc, Free]) h0 _ trivial
    · have hh := hi.held_of_not_free (.inr h0)
      have hown := hh.2.1
      rw [hpc] at hown
      exact hi.next hs hh s.lock rfl .lockTest ⟨hown.1, hown.2.1, hown.2.2, hd⟩
  | unlock t hs hpc hd h =>
    subst h
    have hh := hi.held_of_not_free (.inr (Nat.ne_of_gt hd))
    have hown := hh.2.1
    rw [hpc] at hown
    exact hi.next hs hh s.lock rfl .assertHolder hown
  | stmt t hs _ h => exact hi.stmt hs h

theorem Reachable.inv {s : LockSys T} (h : Reachable s) : s.Inv := by
  induction h with
  | refl => exact inv_init
  | tail _ hstep ih => exact ih.step hstep

/-- No `ASSERT` fails: a thread inside one of the functions can execute its next statement. -/
theorem Inv.stmt_isSome {s : LockSys T} (hi : s.Inv) {t : T} (hs : s.status t = .ready)
    (hpc : s.pc t ≠ .out) : ∃ s', s.stmt t = some s' := by
  have howner : ∀ {p}, s.pc t = p → ¬ Free p → OwnerAt t s.lock (s.depth t) p := by
    intro p hp hf
    exact hp ▸ (hi.held_of_not_free (t := t) (.inl (by rwa [hp]))).2.1
  cases hp : s.pc t with
  | out => exact absurd hp hpc
  | semDown =>
    have hnot : t ∉ s.lock.semaphore.waitingThreadList := by
      rw [hi.waits.mem, hs]
      simp
    obtain ⟨⟨sem, status, d⟩, hr⟩ := Semaphore.down_isSome s.status hnot
    cases d <;> simp [LockSys.stmt, hp, hr]
  | semUp =>
    have hsleep : ∀ u ∈ s.lock.semaphore.waitingThreadList, (s.status u).asleep = true := by
      intro u hu
      rw [(hi.waits.mem u).1 hu]
      rfl
    obtain ⟨⟨sem, status⟩, hr⟩ := Semaphore.up_isSome hsleep
    simp [LockSys.stmt, hp, hr]
  | assertZero => simp [LockSys.stmt, hp, (howner hp (by simp [Free])).2.1]
  | assertHolder => simp [LockSys.stmt, hp, (howner hp (by simp [Free])).1]
  | assertOne =>
    obtain ⟨-, h2, h3⟩ := howner hp (by simp [Free])
    simp [LockSys.stmt, hp, h2, h3]
  | _ => simp [LockSys.stmt, hp]

/-- **Mutual exclusion of the re-entrant lock.** In every state reachable from `LockInit`, whatever
the preemptions: at most one thread has the lock (`depth` goes from 0 to 1 when the outermost
`sys_lock_lock` completes, and back with the `value++` of its `sys_lock_unlock`); the semaphore's
value is 0 or 1; a thread outside both functions that has the lock `d` times is the holder, with
`holder_repeat_request_sum = d`; and no `ASSERT` of the two functions fails. -/
theorem lock_mutual_exclusion (s : LockSys T) (h : Reachable s) :
    (∀ t u, 0 < s.depth t → 0 < s.depth u → t = u) ∧
    (s.lock.semaphore.value = 0 ∨ s.lock.semaphore.value = 1) ∧
    (∀ t, s.pc t = .out → 0 < s.depth t →
      s.lock.holder = some t ∧ s.lock.holderRepeatRequestSum = s.depth t) ∧
    (∀ t, s.status t = .ready → s.pc t ≠ .out → ∃ s', s.stmt t = some s') := by
  have hi := h.inv
  refine ⟨fun t u ht hu => ?_, hi.value_le, fun t hpc ht => ?_, fun t hs hpc => hi.stmt_isSome hs hpc⟩
  · have hh := hi.held_of_not_free (t := t) (.inr (Nat.ne_of_gt ht))
    by_contra hne
    have := (hh.2.2 u (Ne.symm hne)).2
    omega
  · have hown := (hi.held_of_not_free (t := t) (.inr (Nat.ne_of_gt ht))).2.1
    rw [hpc] at hown
    exact ⟨hown.1, hown.2.1⟩

/-- Thread 0 takes the lock, thread 1 is left waiting in `SemaphoreDown`. -/
theorem lock_mutual_exclusion_waiting :
    ∃ s : LockSys (Fin 2), Reachable s ∧ s.depth 0 = 1 ∧ s.status 1 = .blockd ∧
      s.lock.holder = some 0 ∧ s.lock.holderRepeatRequestSum = 1 := by
  have h0 : Reachable (init : LockSys (Fin 2)) := .refl
  have h1 := h0.tail (.lock 0 rfl rfl (by decide) rfl)
  have h2 := h1.tail (.stmt 0 rfl (by decide) rfl)
  have h3 := h2.tail (.stmt 0 rfl (by decide) rfl)
  have h4 := h3.tail (.stmt 0 rfl (by decide) rfl)
  have h5 := h4.tail (.stmt 0 rfl (by decide) rfl)
  have h6 := h5.tail (.stmt 0 rfl (by decide) rfl)
  have h7 := h6.tail (.lock 1 rfl rfl (by decide) rfl)
  have h8 := h7.tail (.stmt 1 rfl (by decide) rfl)
  have h9 := h8.tail (.stmt 1 rfl (by decide) rfl)
  exact ⟨_, h9, rfl, rfl, (lock_mutual_exclusion _ h9).2.2.1 0 rfl (by decide)⟩

end LockSys

end ElephantOS
