import Mathlib.Algebra.Group.Nat.Defs
import Mathlib.Data.Fintype.Card
import Mathlib.Data.Finset.Card
import Mathlib.Logic.Relation
import Mathlib.Tactic.Common

/-!
# Semaphores (`thread/sync.c`) and blocking (`thread/thread.c`)

Threads are an arbitrary type `T`. Both semaphore operations run with interrupts off, so a thread
is only switched out where `SemaphoreDown` calls `BlockThread`; which runnable thread goes on next
is left open (every scheduling order is a run).

* `TaskStatus`, `blockThread`, `unblockThread` : `enum task_status` and the status changes;
* `Semaphore.down` : one pass of the loop of `SemaphoreDown`, from the test of `value` to either
  `value--` or `BlockThread`; `Semaphore.up` : `SemaphoreUp`;
* `SemSys`, `SemSys.Step` : any number of threads working on one semaphore, with ghost counters of
  the completed operations;
* `SemSys.Inv` : the invariant; `SemSys.Inv.step` : every step keeps it.
-/


namespace ElephantOS

/-- `enum task_status`. -/
inductive TaskStatus where
  | running
  | ready
  | blockd
  | waiting
  | hanging
  | died
  deriving DecidableEq, Repr

/-- The statuses `BlockThread` accepts and `UnblockThread` expects. -/
def TaskStatus.asleep : TaskStatus → Bool
  | .blockd | .waiting | .hanging => true
  | _ => false

/-- `struct semaphore`: `value` is a `uint8_t`, the waiting list is kept as a sequence. -/
structure Semaphore (T : Type*) where
  value : Nat
  waitingThreadList : List T
  deriving DecidableEq, Repr

section Operations
variable {T : Type*} [DecidableEq T]

/-- `SemaphoreInit`. -/
def semaphoreInit (value : Nat) : Semaphore T := ⟨value, []⟩

/-- `BlockThread(stat)`: the caller's new status; `none` is a failed `ASSERT`. -/
def blockThread (status : T → TaskStatus) (t : T) (stat : TaskStatus) : Option (T → TaskStatus) :=
  if stat.asleep then some (Function.update status t stat) else none

/-- `UnblockThread(t)`; `none` is a failed `ASSERT`. -/
def unblockThread (status : T → TaskStatus) (t : T) : Option (T → TaskStatus) :=
  if (status t).asleep then some (Function.update status t .ready) else none

/-- What one pass of the loop of `SemaphoreDown` came to. -/
inductive Down where
  /-- `value` was positive and has been decremented: the call returns. -/
  | passed
  /-- the caller is on the waiting list and blocked; it tests `value` again when it is woken. -/
  | blocked
  deriving DecidableEq, Repr

/-- One pass of the loop of `SemaphoreDown` by thread `t`. The `ASSERT` (and the `PANIC` after it)
want `t` not to be on the waiting list already. -/
def Semaphore.down (psema : Semaphore T) (status : T → TaskStatus) (t : T) :
    Option (Semaphore T × (T → TaskStatus) × Down) :=
  if psema.value = 0 then
    if t ∈ psema.waitingThreadList then none
    else do
      let status ← blockThread status t .blockd
      return ({ psema with waitingThreadList := psema.waitingThreadList ++ [t] }, status, .blocked)
  else some ({ psema with value := psema.value - 1 }, status, .passed)

/-- `SemaphoreUp`: wake the first waiter, if any, and increment the `uint8_t`. -/
def Semaphore.up (psema : Semaphore T) (status : T → TaskStatus) :
    Option (Semaphore T × (T → TaskStatus)) :=
  match psema.waitingThreadList with
  | [] => some ({ psema with value := (psema.value + 1) % 256 }, status)
  | threadBlocked :: rest => do
    let status ← unblockThread status threadBlocked
    return (⟨(psema.value + 1) % 256, rest⟩, status)

/-! ## What one operation can do -/

theorem Semaphore.down_cases {psema psema' : Semaphore T} {status status' : T → TaskStatus} {t : T}
    {d : Down} (h : psema.down status t = some (psema', status', d)) :
    (psema.value = 0 ∧ t ∉ psema.waitingThreadList ∧ d = .blocked ∧
      psema' = ⟨0, psema.waitingThreadList ++ [t]⟩ ∧ status' = Function.update status t .blockd) ∨
    (psema.value ≠ 0 ∧ d = .passed ∧
      psema' = ⟨psema.value - 1, psema.waitingThreadList⟩ ∧ status' = status) := by
  unfold Semaphore.down at h
  by_cases hv : psema.value = 0
  · by_cases ht : t ∈ psema.waitingThreadList
    · simp [hv, ht] at h
    · simp only [hv, if_true, ht, if_false, blockThread, TaskStatus.asleep, Option.pure_def,
        Option.bind_eq_bind, Option.bind_some, Option.some.injEq, Prod.mk.injEq] at h
      obtain ⟨rfl, rfl, rfl⟩ := h
      exact .inl ⟨hv, ht, rfl, rfl, rfl⟩
  · simp only [hv, if_false, Option.some.injEq, Prod.mk.injEq] at h
    obtain ⟨rfl, rfl, rfl⟩ := h
    exact .inr ⟨hv, rfl, rfl, rfl⟩

/-- A pass of `SemaphoreDown` fails its `ASSERT` only for a thread already on the list. -/
theorem Semaphore.down_isSome {psema : Semaphore T} {t : T} (status : T → TaskStatus)
    (ht : t ∉ psema.waitingThreadList) : ∃ r, psema.down status t = some r := by
  unfold Semaphore.down
  by_cases hv : psema.value = 0
  · exact ⟨(⟨psema.value, psema.waitingThreadList ++ [t]⟩, Function.update status t .blockd, .blocked),
      by simp [hv, ht, blockThread, TaskStatus.asleep]⟩
  · exact ⟨_, if_neg hv⟩

theorem Semaphore.up_cases {psema psema' : Semaphore T} {status status' : T → TaskStatus}
    (h : psema.up status = some (psema', status')) :
    (psema.waitingThreadList = [] ∧ psema' = ⟨(psema.value + 1) % 256, []⟩ ∧ status' = status) ∨
    (∃ u rest, psema.waitingThreadList = u :: rest ∧ (status u).asleep = true ∧
      psema' = ⟨(psema.value + 1) % 256, rest⟩ ∧ status' = Function.update status u .ready) := by
  unfold Semaphore.up at h
  cases hl : psema.waitingThreadList with
  | nil =>
    simp only [hl, Option.some.injEq, Prod.mk.injEq] at h
    obtain ⟨rfl, rfl⟩ := h
    exact .inl ⟨rfl, rfl, rfl⟩
  | cons u rest =>
    rw [hl] at h
    by_cases hu : (status u).asleep = true
    · simp only [unblockThread, hu, if_true, Option.pure_def, Option.bind_eq_bind, Option.bind_some,
        Option.some.injEq, Prod.mk.injEq] at h
      obtain ⟨rfl, rfl⟩ := h
      exact .inr ⟨u, rest, rfl, hu, rfl, rfl⟩
    · simp [unblockThread, hu] at h

/-- `SemaphoreUp` does not fail when the first waiter is asleep. -/
theorem Semaphore.up_isSome {psema : Semaphore T} {status : T → TaskStatus}
    (h : ∀ u ∈ psema.waitingThreadList, (status u).asleep = true) :
    ∃ r, psema.up status = some r := by
  unfold Semaphore.up
  cases hl : psema.waitingThreadList with
  | nil => exact ⟨_, rfl⟩
  | cons u rest =>
    have hu : (status u).asleep = true := h u (by simp [hl])
    exact ⟨(⟨(psema.value + 1) % 256, rest⟩, Function.update status u .ready), by
      simp [unblockThread, hu]⟩

end Operations

/-! ## Any number of threads on one semaphore -/

/-- One semaphore and the threads that use it. `inDown t` says that `t` is inside the loop of
`SemaphoreDown`; `ups` and `downs` count the completed operations. -/
structure SemSys (T : Type*) where
  sem : Semaphore T
  status : T → TaskStatus
  inDown : T → Bool
  ups : Nat
  downs : Nat

namespace SemSys
variable {T : Type*} [DecidableEq T]

/-- After `SemaphoreInit(value)`: nobody is inside an operation. -/
def init (value : Nat) : SemSys T := ⟨semaphoreInit value, fun _ => .ready, fun _ => false, 0, 0⟩

/-- Thread `t` runs from the test of `value` in `SemaphoreDown` to the end of the call or to the
next switch. -/
def down (s : SemSys T) (t : T) : Option (SemSys T) :=
  match s.sem.down s.status t with
  | none => none
  | some (sem, status, .passed) =>
    some { s with sem := sem, status := status, inDown := Function.update s.inDown t false
                  downs := s.downs + 1 }
  | some (sem, status, .blocked) =>
    some { s with sem := sem, status := status, inDown := Function.update s.inDown t true }

/-- Some thread runs `SemaphoreUp`. -/
def up (s : SemSys T) : Option (SemSys T) :=
  match s.sem.up s.status with
  | none => none
  | some (sem, status) => some { s with sem := sem, status := status, ups := s.ups + 1 }

/-- The steps of the system: a runnable thread enters `SemaphoreDown`, a woken one tests `value`
again, a runnable one calls `SemaphoreUp` (never at the largest `uint8_t`). -/
inductive Step (s s' : SemSys T) : Prop
  | enter (t : T) : s.status t = .ready → s.inDown t = false → s.down t = some s' → Step s s'
  | retest (t : T) : s.status t = .ready → s.inDown t = true → s.down t = some s' → Step s s'
  | up (t : T) : s.status t = .ready → s.inDown t = false → s.sem.value ≠ 255 → s.up = some s' →
      Step s s'

/-- The states reachable from a semaphore initialised to `value`. -/
def Reachable (value : Nat) : SemSys T → Prop := Relation.ReflTransGen Step (init value)

variable [Fintype T]

/-- The threads that a `SemaphoreUp` has popped and made READY and that have not tested `value`
again. -/
def woken (s : SemSys T) : Finset T := Finset.univ.filter fun t => s.inDown t ∧ s.status t = .ready

omit [DecidableEq T] in
@[simp] theorem mem_woken {s : SemSys T} {t : T} :
    t ∈ s.woken ↔ s.inDown t = true ∧ s.status t = .ready := by
  simp [woken]

/-- The invariant of a semaphore initialised to `value`. -/
structure Inv (value : Nat) (s : SemSys T) : Prop where
  count : s.sem.value + s.downs = value + s.ups
  small : s.sem.value < 256
  /-- the waiting list holds the blocked callers of `SemaphoreDown` -/
  waits : ∀ t, t ∈ s.sem.waitingThreadList ↔ s.inDown t = true ∧ s.status t = .blockd
  nodup : s.sem.waitingThreadList.Nodup
  /-- while somebody waits, every unit has a woken thread on its way -/
  wakeups : s.sem.waitingThreadList ≠ [] → s.sem.value ≤ s.woken.card

omit [DecidableEq T] in
theorem inv_init {value : Nat} (h : value < 256) : Inv value (init value : SemSys T) where
  count := rfl
  small := h
  waits := by simp [init, semaphoreInit]
  nodup := by simp [init, semaphoreInit]
  wakeups := by simp [init, semaphoreInit]

omit [DecidableEq T] in
/-- A runnable thread is not on the waiting list. -/
theorem Inv.not_mem {value : Nat} {s : SemSys T} (hi : Inv value s) {t : T}
    (ht : s.status t = .ready) : t ∉ s.sem.waitingThreadList := by
  rw [hi.waits, ht]
  simp

/-- No `ASSERT` fails: both operations return in every state of the invariant. -/
theorem Inv.down_isSome {value : Nat} {s : SemSys T} (hi : Inv value s) {t : T}
    (ht : s.status t = .ready) : ∃ s', s.down t = some s' := by
  obtain ⟨⟨sem, status, d⟩, hr⟩ := Semaphore.down_isSome s.status (hi.not_mem ht)
  cases d <;> simp [down, hr]

theorem Inv.up_isSome {value : Nat} {s : SemSys T} (hi : Inv value s) : ∃ s', s.up = some s' := by
  have hsleep : ∀ u ∈ s.sem.waitingThreadList, (s.status u).asleep = true := by
    intro u hu
    rw [((hi.waits u).1 hu).2]
    rfl
  obtain ⟨⟨sem, status⟩, hr⟩ := Semaphore.up_isSome hsleep
  simp [up, hr]

/-- A pass of `SemaphoreDown`, by a newcomer or by a woken thread, keeps the invariant: when it
blocks, `value` is 0; when it passes, at most one woken thread and exactly one unit go. -/
theorem Inv.down {value : Nat} {s s' : SemSys T} {t : T} (hi : Inv value s)
    (ht : s.status t = .ready) (h : s.down t = some s') : Inv value s' := by
  have hnot := hi.not_mem ht
  have hcount := hi.count
  have hsmall := hi.small
  unfold SemSys.down at h
  obtain ⟨⟨sem, status, d⟩, hr⟩ := Semaphore.down_isSome s.status hnot
  rw [hr] at h
  rcases Semaphore.down_cases hr with ⟨hv, -, rfl, rfl, rfl⟩ | ⟨hv, rfl, rfl, rfl⟩
  · simp only [Option.some.injEq] at h
    subst h
    refine ⟨by simpa [hv] using hcount, by simp, fun u => ?_, ?_, fun _ => Nat.zero_le _⟩
    · by_cases hu : u = t
      · simp [hu]
      · simp [hu, hi.waits u]
    · simpa [List.nodup_append] using ⟨hi.nodup, fun a ha hat => hnot (hat ▸ ha)⟩
  · simp only [Option.some.injEq] at h
    subst h
    refine ⟨?_, by dsimp only; omega, fun u => ?_, hi.nodup, fun hne => ?_⟩
    · dsimp only
      omega
    · by_cases hu : u = t
      · simp [hu, hnot, ht]
      · simp [hu, hi.waits u]
    · -- only `t` can have left the set of woken threads
      have hsub : s.woken.erase t ⊆
          SemSys.woken { s with sem := ⟨s.sem.value - 1, s.sem.waitingThreadList⟩
                                inDown := Function.update s.inDown t false
                                downs := s.downs + 1 } := by
        intro u hu
        rw [Finset.mem_erase, mem_woken] at hu
        simpa [hu.1] using hu.2
      have hle := Finset.card_le_card hsub
      have herase := Finset.pred_card_le_card_erase (s := s.woken) (a := t)
      have hw := hi.wakeups hne
      dsimp only
      omega

/-- `SemaphoreUp` below 255 keeps the invariant: a waiter moves to the woken threads with the unit
that is added. -/
theorem Inv.up {value : Nat} {s s' : SemSys T} (hi : Inv value s) (h255 : s.sem.value ≠ 255)
    (h : s.up = some s') : Inv value s' := by
  have hcount := hi.count
  have hsmall := hi.small
  have hmod : (s.sem.value + 1) % 256 = s.sem.value + 1 := Nat.mod_eq_of_lt (by omega)
  unfold SemSys.up at h
  cases hr : s.sem.up s.status with
  | none => rw [hr] at h; cases h
  | some r =>
    obtain ⟨sem, status⟩ := r
    rw [hr] at h
    simp only [Option.some.injEq] at h
    subst h
    rcases Semaphore.up_cases hr with ⟨hl, rfl, rfl⟩ | ⟨u, rest, hl, -, rfl, rfl⟩
    · refine ⟨by dsimp only; omega, by dsimp only; omega, fun t => ?_, by simp, fun h => absurd rfl h⟩
      rw [← hi.waits t, hl]
    · have hu := (hi.waits u).1 (by simp [hl])
      have hnd := hi.nodup
      rw [hl, List.nodup_cons] at hnd
      refine ⟨by dsimp only; omega, by dsimp only; omega, fun t => ?_, hnd.2, fun _ => ?_⟩
      · by_cases htu : t = u
        · simp [htu, hnd.1]
        · have := hi.waits t
          simp only [hl, List.mem_cons, htu, false_or] at this
          simp [htu, this]
      · have hnew : u ∉ s.woken := by simp [hu.2]
        have hsub : insert u s.woken ⊆
            SemSys.woken { s with sem := ⟨(s.sem.value + 1) % 256, rest⟩
                                  status := Function.update s.status u .ready
                                  ups := s.ups + 1 } := by
          intro t ht
          rcases Finset.mem_insert.1 ht with rfl | hm
          · simp [hu.1]
          · have htu : t ≠ u := fun he => hnew (he ▸ hm)
            rw [mem_woken] at hm ⊢
            simpa [htu] using hm
        have hle := Finset.card_le_card hsub
        rw [Finset.card_insert_of_notMem hnew] at hle
        have hw := hi.wakeups (by simp [hl])
        dsimp only
        omega

theorem Inv.step {value : Nat} {s s' : SemSys T} (hi : Inv value s) (h : Step s s') : Inv value s' := by
  cases h with
  | enter t ht _ h => exact hi.down ht h
  | retest t ht _ h => exact hi.down ht h
  | up t _ _ h255 h => exact hi.up h255 h

theorem Reachable.inv {value : Nat} (hv : value < 256) {s : SemSys T} (h : Reachable value s) :
    Inv value s := by
  induction h with
  | refl => exact inv_init hv
  | tail _ hstep ih => exact ih.step hstep

/-- **Semaphores lose no wakeup.** In every state reachable from a semaphore initialised to `value`:
the counter is `value` plus the completed ups minus the completed downs; while a thread waits, at
least `value` woken threads are on their way to test it again, so that a unit is never left with a
waiter and nobody on the way; and neither operation fails an `ASSERT`. -/
theorem semaphore_no_lost_wakeup (value : Nat) (hv : value < 256) (s : SemSys T)
    (h : Reachable value s) :
    (s.sem.value : Int) = value + s.ups - s.downs ∧
    (s.sem.waitingThreadList ≠ [] → s.sem.value ≤ s.woken.card) ∧
    ¬ (0 < s.sem.value ∧ s.sem.waitingThreadList ≠ [] ∧ s.woken = ∅) ∧
    (∀ t, s.status t = .ready → (∃ s', s.down t = some s') ∧ ∃ s', s.up = some s') := by
  have hi := h.inv hv
  refine ⟨by have := hi.count; omega, hi.wakeups, fun ⟨hpos, hne, hw⟩ => ?_,
    fun t ht => ⟨hi.down_isSome ht, hi.up_isSome⟩⟩
  have := hi.wakeups hne
  rw [hw, Finset.card_empty] at this
  omega

/-- Two threads at value 1: thread 0 passes, thread 1 waits, thread 0 gives the unit back. -/
theorem semaphore_no_lost_wakeup_two :
    ∃ s : SemSys (Fin 2), Reachable 1 s ∧ s.sem.value = 1 ∧ s.woken = {1} ∧
      (s.sem.value : Int) = (1 : Nat) + s.ups - s.downs := by
  let s1 : SemSys (Fin 2) := ⟨⟨0, []⟩, fun _ => .ready, Function.update (fun _ => false) 0 false, 0, 1⟩
  let s2 : SemSys (Fin 2) := ⟨⟨0, [1]⟩, Function.update (fun _ => .ready) 1 .blockd,
    Function.update (Function.update (fun _ => false) 0 false) 1 true, 0, 1⟩
  let s3 : SemSys (Fin 2) := ⟨⟨1, []⟩, Function.update (Function.update (fun _ => .ready) 1 .blockd) 1 .ready,
    Function.update (Function.update (fun _ => false) 0 false) 1 true, 1, 1⟩
  have h1 : Step (init 1) s1 := .enter 0 rfl rfl rfl
  have h2 : Step s1 s2 := .enter 1 rfl rfl rfl
  have h3 : Step s2 s3 := .up 0 rfl rfl (by decide) rfl
  have hr : Reachable 1 s3 := ((Relation.ReflTransGen.single h1).tail h2).tail h3
  exact ⟨s3, hr, rfl, by decide, (semaphore_no_lost_wakeup 1 (by decide) s3 hr).1⟩

end SemSys

end ElephantOS
