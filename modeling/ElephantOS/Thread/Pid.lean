import ElephantOS.Thread.Lock
import Mathlib.Order.Interval.Finset.Nat

/-!
# Process ids (`AllocatePid` in `thread/thread.c`)

Any number of threads call `AllocatePid`; a thread can be preempted between any two statements, those of
`sys_lock_lock` and `sys_lock_unlock` on `pid_lock` included.

* `PidSys`, `PidSys.stmt`, `PidSys.run` : the threads, and a schedule of their statements;
* `PidSys.Safe` : the statement is not a `next_pid++` that overtakes a thread on its way to
  `return next_pid`, which is after the unlock;
* `PidSys.Inv` : in every run; `PidSys.Fresh` : in the runs whose statements are all safe;
  `PidSys.Short` : after a statement that is not.
-/


namespace ElephantOS

namespace PidSys

/-- The next statement of a thread. -/
inductive Pc where
  /-- outside `AllocatePid` -/
  | out
  /-- in `sys_lock_lock(&pid_lock)` -/
  | locking
  /-- `next_pid++;` -/
  | incr
  /-- in `sys_lock_unlock(&pid_lock)` -/
  | unlocking
  /-- `return next_pid;` -/
  | ret
  deriving DecidableEq, Repr

end PidSys

/-- `pid_lock`, `next_pid` (a `uint16_t`) and the threads, with the values returned so far and the number
of calls. -/
structure PidSys (T : Type*) where
  lock : LockSys T
  nextPid : Nat
  pc : T → PidSys.Pc
  returned : List Nat
  calls : Nat

namespace PidSys
variable {T : Type*} [DecidableEq T]

/-- After `LockInit(&pid_lock)`. -/
def init : PidSys T := ⟨LockSys.init, 0, fun _ => .out, [], 0⟩

def goto (s : PidSys T) (t : T) (p : Pc) : PidSys T := { s with pc := Function.update s.pc t p }

/-- Thread `t` executes its next statement: of the lock's functions while it is in one of them. A blocked
thread executes none. -/
def stmt (s : PidSys T) (t : T) : Option (PidSys T) :=
  if s.lock.status t ≠ .ready then none
  else match s.pc t with
    | .out => some ({ s with lock := s.lock.goto t .lockTest, calls := s.calls + 1 }.goto t .locking)
    | .locking =>
      match s.lock.stmt t with
      | none => none
      | some lock => some ({ s with lock := lock }.goto t (if lock.pc t = LockSys.Pc.out then .incr else .locking))
    | .incr =>
      some ({ s with nextPid := (s.nextPid + 1) % 65536
                     lock := s.lock.goto t .assertHolder }.goto t .unlocking)
    | .unlocking =>
      match s.lock.stmt t with
      | none => none
      | some lock => some ({ s with lock := lock }.goto t (if lock.pc t = LockSys.Pc.out then .ret else .unlocking))
    | .ret => some ({ s with returned := s.returned ++ [s.nextPid] }.goto t .out)

/-- The threads of the list execute a statement each, in this order. -/
def run (s : PidSys T) : List T → Option (PidSys T)
  | [] => some s
  | t :: ts =>
    match s.stmt t with
    | none => none
    | some s' => s'.run ts

/-- The thread has incremented `next_pid` and not returned. -/
def Late (s : PidSys T) (t : T) : Prop := s.pc t = .unlocking ∨ s.pc t = .ret

/-- If the statement is `next_pid++`, no thread has yet to read `next_pid` for its return value. -/
def Safe (s : PidSys T) (t : T) : Prop := s.pc t = .incr → ∀ u, s.pc u ≠ .ret

/-- Every statement of the schedule is safe in its state. -/
def SafeRun (s : PidSys T) : List T → Prop
  | [] => True
  | t :: ts => s.Safe t ∧ ∀ s', s.stmt t = some s' → s'.SafeRun ts

/-! ## The statements of the lock -/

/-- The statements of `sys_lock_lock`. -/
def Locking : LockSys.Pc → Prop
  | .lockTest | .semDown | .setHolder | .assertZero | .setOne | .incr => True
  | _ => False

/-- The statements of `sys_lock_unlock`. -/
def Unlocking : LockSys.Pc → Prop
  | .assertHolder | .testNested | .decr | .assertOne | .clearSum | .clearHolder | .semUp => True
  | _ => False

theorem stmt_frame {l l' : LockSys T} {t : T} (h : l.stmt t = some l') {u : T} (hu : u ≠ t) :
    l'.pc u = l.pc u ∧ l'.depth u = l.depth u := by
  unfold LockSys.stmt at h
  cases hp : l.pc t <;> simp only [hp] at h
  all_goals first | contradiction | skip
  all_goals repeat' split at h
  all_goals first | contradiction | skip
  all_goals
    rw [Option.some.injEq] at h
    subst h
    simp [LockSys.goto, LockSys.leave, Function.update_of_ne hu]

/-- A statement of `sys_lock_lock` leads to another one, or out with the lock once more. -/
theorem stmt_locking {l l' : LockSys T} {t : T} (h : l.stmt t = some l') (hp : Locking (l.pc t)) :
    (Locking (l'.pc t) ∧ l'.depth t = l.depth t) ∨ (l'.pc t = .out ∧ l'.depth t = l.depth t + 1) := by
  unfold LockSys.stmt at h
  cases hpc : l.pc t <;> simp only [hpc, Locking] at h hp
  all_goals repeat' split at h
  all_goals first | contradiction | skip
  all_goals
    rw [Option.some.injEq] at h
    subst h
    simp [LockSys.goto, LockSys.leave, Locking, hpc]

/-- A statement of `sys_lock_unlock` leads to another one, or out with the lock once less. -/
theorem stmt_unlocking {l l' : LockSys T} {t : T} (h : l.stmt t = some l') (hp : Unlocking (l.pc t)) :
    (Unlocking (l'.pc t) ∧ l'.depth t = l.depth t) ∨ (l'.pc t = .out ∧ l'.depth t = l.depth t - 1) := by
  unfold LockSys.stmt at h
  cases hpc : l.pc t <;> simp only [hpc, Unlocking] at h hp
  all_goals repeat' split at h
  all_goals first | contradiction | skip
  all_goals
    rw [Option.some.injEq] at h
    subst h
    simp [LockSys.goto, LockSys.leave, Unlocking]

/-! ## Every run -/

/-- Where the thread is in the lock's functions, and how often it has the lock. -/
def At (p : LockSys.Pc) (d : Nat) : Pc → Prop
  | .out | .ret => p = .out ∧ d = 0
  | .locking => Locking p ∧ d = 0
  | .incr => p = .out ∧ d = 1
  | .unlocking => Unlocking p ∧ d = 1

/-- `A` are the threads on their way to `next_pid++`, `B` those between it and their return. -/
structure Counts (s : PidSys T) (A B : Finset T) : Prop where
  early : ∀ t, t ∈ A ↔ s.pc t = .locking ∨ s.pc t = .incr
  late : ∀ t, t ∈ B ↔ s.Late t
  calls : s.calls = A.card + B.card + s.returned.length
  pids : s.nextPid = B.card + s.returned.length

structure Inv (s : PidSys T) : Prop where
  lock : LockSys.Reachable s.lock
  place : ∀ t, At (s.lock.pc t) (s.lock.depth t) (s.pc t)
  counts : ∃ A B, Counts s A B
  le : ∀ v ∈ s.returned, v ≤ s.nextPid

theorem inv_init : Inv (init : PidSys T) where
  lock := .refl
  place := fun t => ⟨rfl, rfl⟩
  counts := ⟨∅, ∅, by simp [init], by simp [init, Late], rfl, rfl⟩
  le := by simp [init]

/-- What a statement can be. -/
theorem stmt_cases {s s' : PidSys T} {t : T} (h : s.stmt t = some s') :
    s.lock.status t = .ready ∧
    ((s.pc t = .out ∧ s' = { s with lock := s.lock.goto t .lockTest, calls := s.calls + 1 }.goto t .locking) ∨
     (s.pc t = .incr ∧ s' = { s with nextPid := (s.nextPid + 1) % 65536
                                     lock := s.lock.goto t .assertHolder }.goto t .unlocking) ∨
     (s.pc t = .ret ∧ s' = { s with returned := s.returned ++ [s.nextPid] }.goto t .out) ∨
     (∃ l, s.lock.stmt t = some l ∧
       ((s.pc t = .locking ∧ s' = { s with lock := l }.goto t (if l.pc t = LockSys.Pc.out then .incr else .locking)) ∨
        (s.pc t = .unlocking ∧
          s' = { s with lock := l }.goto t (if l.pc t = LockSys.Pc.out then .ret else .unlocking))))) := by
  unfold stmt at h
  by_cases hr : s.lock.status t = .ready
  · refine ⟨hr, ?_⟩
    rw [if_neg (not_not.2 hr)] at h
    cases hpc : s.pc t <;> simp only [hpc] at h
    case out => exact .inl ⟨rfl, (Option.some.inj h).symm⟩
    case incr => exact .inr (.inl ⟨rfl, (Option.some.inj h).symm⟩)
    case ret => exact .inr (.inr (.inl ⟨rfl, (Option.some.inj h).symm⟩))
    case locking =>
      cases hl : s.lock.stmt t with
      | none => simp [hl] at h
      | some l =>
        rw [hl] at h
        exact .inr (.inr (.inr ⟨l, rfl, .inl ⟨rfl, (Option.some.inj h).symm⟩⟩))
    case unlocking =>
      cases hl : s.lock.stmt t with
      | none => simp [hl] at h
      | some l =>
        rw [hl] at h
        exact .inr (.inr (.inr ⟨l, rfl, .inr ⟨rfl, (Option.some.inj h).symm⟩⟩))
  · simp [hr] at h

theorem stmt_calls {s s' : PidSys T} {t : T} (h : s.stmt t = some s') : s.calls ≤ s'.calls := by
  obtain ⟨-, ⟨-, rfl⟩ | ⟨-, rfl⟩ | ⟨-, rfl⟩ | ⟨l, -, ⟨-, rfl⟩ | ⟨-, rfl⟩⟩⟩ := stmt_cases h
  · exact Nat.le_succ _
  all_goals exact le_rfl

/-- The first statement of a schedule, and the rest of it. -/
theorem run_cons {s s' : PidSys T} {t : T} {ts : List T} (h : s.run (t :: ts) = some s') :
    ∃ s₁, s.stmt t = some s₁ ∧ s₁.run ts = some s' := by
  unfold run at h
  cases ht : s.stmt t with
  | none => simp [ht] at h
  | some s₁ =>
    rw [ht] at h
    exact ⟨s₁, rfl, h⟩

theorem run_calls {s s' : PidSys T} {ts : List T} (h : s.run ts = some s') : s.calls ≤ s'.calls := by
  induction ts generalizing s with
  | nil =>
    cases h
    exact le_rfl
  | cons t ts ih =>
    obtain ⟨s₁, ht, h⟩ := run_cons h
    exact le_trans (stmt_calls ht) (ih h)

/-- `At` after a step that leaves the other threads where they are. -/
theorem Inv.at_update {s : PidSys T} (hi : s.Inv) {t : T} {l : LockSys T} {p : Pc}
    (hf : ∀ u, u ≠ t → l.pc u = s.lock.pc u ∧ l.depth u = s.lock.depth u) (ht : At (l.pc t) (l.depth t) p) :
    ∀ u, At (l.pc u) (l.depth u) (Function.update s.pc t p u) := by
  intro u
  by_cases hu : u = t
  · subst hu
    rwa [Function.update_self]
  · rw [Function.update_of_ne hu, (hf u hu).1, (hf u hu).2]
    exact hi.place u

/-- A thread between the increment and the unlock has the lock, so it is the only one there. -/
theorem Inv.alone {s : PidSys T} (hi : s.Inv) {t u : T} (ht : s.pc t = .incr ∨ s.pc t = .unlocking)
    (hu : s.pc u = .incr ∨ s.pc u = .unlocking) : t = u := by
  have hdepth : ∀ v, s.pc v = .incr ∨ s.pc v = .unlocking → s.lock.depth v = 1 := by
    intro v hv
    have hat := hi.place v
    rcases hv with hv | hv
    · rw [hv] at hat
      exact hat.2
    · rw [hv] at hat
      exact hat.2
  by_contra hne
  have hheld := hi.lock.inv.held_of_not_free (.inr (by rw [hdepth t ht]; exact one_ne_zero))
  have hzero := (hheld.2.2 u (Ne.symm hne)).2
  rw [hdepth u hu] at hzero
  cases hzero

/-- The two sets and the four counters after thread `t` has moved to statement `p`. -/
theorem Counts.goto {s : PidSys T} {A B : Finset T} (h : Counts s A B) (t : T) (p : Pc) {s' : PidSys T}
    {A' B' : Finset T} (hpc : s'.pc = Function.update s.pc t p)
    (hA : ∀ u, u ∈ A' ↔ if u = t then p = .locking ∨ p = .incr else u ∈ A)
    (hB : ∀ u, u ∈ B' ↔ if u = t then p = .unlocking ∨ p = .ret else u ∈ B)
    (hcalls : s'.calls = A'.card + B'.card + s'.returned.length)
    (hpids : s'.nextPid = B'.card + s'.returned.length) : Counts s' A' B' where
  early := by
    intro u
    rw [hA u, hpc]
    by_cases hu : u = t
    · subst hu
      simp
    · simp [hu, h.early u]
  late := by
    intro u
    rw [hB u, Late, hpc]
    by_cases hu : u = t
    · subst hu
      simp
    · simp [hu, h.late u, Late]
  calls := hcalls
  pids := hpids

section Statements
variable {s : PidSys T} (hi : s.Inv) {t : T} (hr : s.lock.status t = .ready)
include hi

/-- The lock's threads other than `t` stay where they are. -/
theorem Inv.at_goto {p : LockSys.Pc} {q : Pc} (ht : At p (s.lock.depth t) q) :
    ∀ u, At ((s.lock.goto t p).pc u) ((s.lock.goto t p).depth u) (Function.update s.pc t q u) := by
  apply hi.at_update
  · intro u hu
    simp [LockSys.goto, Function.update_of_ne hu]
  · simpa [LockSys.goto] using ht

include hr

theorem Inv.call (hpc : s.pc t = .out) :
    Inv ({ s with lock := s.lock.goto t .lockTest, calls := s.calls + 1 }.goto t .locking) := by
  obtain ⟨A, B, hcount⟩ := hi.counts
  have hat : s.lock.pc t = .out ∧ s.lock.depth t = 0 := by simpa [hpc, At] using hi.place t
  have hA : t ∉ A := by simp [hcount.early t, hpc]
  have hB : t ∉ B := by simp [hcount.late t, hpc, Late]
  refine ⟨hi.lock.tail (.lock t hr hat.1 (by rw [hat.2]; decide) rfl), hi.at_goto ⟨trivial, hat.2⟩,
    ⟨insert t A, B, hcount.goto t .locking rfl ?_ ?_ ?_ hcount.pids⟩, hi.le⟩
  · intro u
    by_cases hu : u = t <;> simp [hu]
  · intro u
    by_cases hu : u = t <;> simp [hu, hB]
  · show s.calls + 1 = (insert t A).card + B.card + s.returned.length
    rw [Finset.card_insert_of_notMem hA, hcount.calls]
    omega

omit hr in
/-- A thread on its way to `next_pid++` is not yet counted in `next_pid`. -/
theorem Inv.incr_mod (hpc : s.pc t = .incr) (hc : s.calls < 65536) :
    (s.nextPid + 1) % 65536 = s.nextPid + 1 := by
  obtain ⟨A, B, hcount⟩ := hi.counts
  have hpos : 0 < A.card := Finset.card_pos.2 ⟨t, by simp [hcount.early t, hpc]⟩
  have hcalls := hcount.calls
  have hpids := hcount.pids
  exact Nat.mod_eq_of_lt (by omega)

theorem Inv.incr (hpc : s.pc t = .incr) (hc : s.calls < 65536) :
    Inv ({ s with nextPid := (s.nextPid + 1) % 65536
                  lock := s.lock.goto t .assertHolder }.goto t .unlocking) := by
  have hmod := hi.incr_mod hpc hc
  obtain ⟨A, B, hcount⟩ := hi.counts
  have hat : s.lock.pc t = .out ∧ s.lock.depth t = 1 := by simpa [hpc, At] using hi.place t
  have hA : t ∈ A := by simp [hcount.early t, hpc]
  have hB : t ∉ B := by simp [hcount.late t, hpc, Late]
  have hpos := Finset.card_pos.2 ⟨t, hA⟩
  have hcalls := hcount.calls
  have hpids := hcount.pids
  refine ⟨hi.lock.tail (.unlock t hr hat.1 (by rw [hat.2]; decide) rfl), hi.at_goto ⟨trivial, hat.2⟩,
    ⟨A.erase t, insert t B, hcount.goto t .unlocking rfl ?_ ?_ ?_ ?_⟩, ?_⟩
  · intro u
    by_cases hu : u = t <;> simp [hu]
  · intro u
    by_cases hu : u = t <;> simp [hu]
  · show s.calls = (A.erase t).card + (insert t B).card + s.returned.length
    rw [Finset.card_erase_of_mem hA, Finset.card_insert_of_notMem hB]
    omega
  · show (s.nextPid + 1) % 65536 = (insert t B).card + s.returned.length
    rw [hmod, Finset.card_insert_of_notMem hB, hpids]
    omega
  · intro v hv
    show v ≤ (s.nextPid + 1) % 65536
    rw [hmod]
    exact le_trans (hi.le v hv) (Nat.le_succ _)

omit hr in
theorem Inv.ret (hpc : s.pc t = .ret) :
    Inv ({ s with returned := s.returned ++ [s.nextPid] }.goto t .out) := by
  obtain ⟨A, B, hcount⟩ := hi.counts
  have hat : At (s.lock.pc t) (s.lock.depth t) .out := by simpa [hpc, At] using hi.place t
  have hA : t ∉ A := by simp [hcount.early t, hpc]
  have hB : t ∈ B := by simp [hcount.late t, hpc, Late]
  have hpos := Finset.card_pos.2 ⟨t, hB⟩
  have hcalls := hcount.calls
  have hpids := hcount.pids
  refine ⟨hi.lock, hi.at_update (fun u _ => ⟨rfl, rfl⟩) hat,
    ⟨A, B.erase t, hcount.goto t .out rfl ?_ ?_ ?_ ?_⟩, ?_⟩
  · intro u
    by_cases hu : u = t <;> simp [hu, hA]
  · intro u
    by_cases hu : u = t <;> simp [hu]
  · show s.calls = A.card + (B.erase t).card + (s.returned ++ [s.nextPid]).length
    rw [Finset.card_erase_of_mem hB, List.length_append, List.length_singleton]
    omega
  · show s.nextPid = (B.erase t).card + (s.returned ++ [s.nextPid]).length
    rw [Finset.card_erase_of_mem hB, List.length_append, List.length_singleton]
    omega
  · intro v hv
    rcases List.mem_append.1 hv with hv | hv
    · exact hi.le v hv
    · rw [List.mem_singleton.1 hv]
      exact le_rfl

/-- A statement of the lock's functions, after which the thread is at `p`. -/
theorem Inv.inLock {l : LockSys T} {p : Pc} (hl : s.lock.stmt t = some l) (hout : s.lock.pc t ≠ .out)
    (hat : At (l.pc t) (l.depth t) p) (hA : (p = .locking ∨ p = .incr) ↔ (s.pc t = .locking ∨ s.pc t = .incr))
    (hB : (p = .unlocking ∨ p = .ret) ↔ s.Late t) : Inv ({ s with lock := l }.goto t p) := by
  obtain ⟨A, B, hcount⟩ := hi.counts
  refine ⟨hi.lock.tail (.stmt t hr hout hl), hi.at_update (fun u hu => stmt_frame hl hu) hat,
    ⟨A, B, hcount.goto t p rfl ?_ ?_ hcount.calls hcount.pids⟩, hi.le⟩
  · intro u
    by_cases hu : u = t
    · subst hu
      rw [if_pos rfl, hA, hcount.early]
    · rw [if_neg hu]
  · intro u
    by_cases hu : u = t
    · subst hu
      rw [if_pos rfl, hB, hcount.late]
    · rw [if_neg hu]

/-- A thread inside one of the lock's functions: it stays there, or returns to its next statement. -/
theorem Inv.calling {l : LockSys T} {here after : Pc} (hl : s.lock.stmt t = some l) (hout : s.lock.pc t ≠ .out)
    (hnext : l.pc t ≠ .out ∧ At (l.pc t) (l.depth t) here ∨ l.pc t = .out ∧ At (l.pc t) (l.depth t) after)
    (hA : ∀ p, p = here ∨ p = after → ((p = .locking ∨ p = .incr) ↔ (s.pc t = .locking ∨ s.pc t = .incr)))
    (hB : ∀ p, p = here ∨ p = after → ((p = .unlocking ∨ p = .ret) ↔ s.Late t)) :
    Inv ({ s with lock := l }.goto t (if l.pc t = LockSys.Pc.out then after else here)) := by
  rcases hnext with ⟨hin, hat⟩ | ⟨ho, hat⟩
  · rw [if_neg hin]
    exact hi.inLock hr hl hout hat (hA _ (.inl rfl)) (hB _ (.inl rfl))
  · rw [if_pos ho]
    exact hi.inLock hr hl hout hat (hA _ (.inr rfl)) (hB _ (.inr rfl))

theorem Inv.locking {l : LockSys T} (hpc : s.pc t = .locking) (hl : s.lock.stmt t = some l) :
    Inv ({ s with lock := l }.goto t (if l.pc t = LockSys.Pc.out then .incr else .locking)) := by
  have hat : Locking (s.lock.pc t) ∧ s.lock.depth t = 0 := by simpa [hpc, At] using hi.place t
  have hin : ∀ q, Locking q → q ≠ .out := by
    intro q hq ho
    subst ho
    exact hq
  refine hi.calling hr hl (hin _ hat.1) ?_ (by simp [hpc]) (by simp [hpc, Late])
  rcases stmt_locking hl hat.1 with ⟨hp, hd⟩ | ⟨ho, hd⟩
  · exact .inl ⟨hin _ hp, hp, by rw [hd, hat.2]⟩
  · exact .inr ⟨ho, ho, by rw [hd, hat.2]⟩

theorem Inv.unlocking {l : LockSys T} (hpc : s.pc t = .unlocking) (hl : s.lock.stmt t = some l) :
    Inv ({ s with lock := l }.goto t (if l.pc t = LockSys.Pc.out then .ret else .unlocking)) := by
  have hat : Unlocking (s.lock.pc t) ∧ s.lock.depth t = 1 := by simpa [hpc, At] using hi.place t
  have hin : ∀ q, Unlocking q → q ≠ .out := by
    intro q hq ho
    subst ho
    exact hq
  refine hi.calling hr hl (hin _ hat.1) ?_ (by simp [hpc]) (by simp [hpc, Late])
  rcases stmt_unlocking hl hat.1 with ⟨hp, hd⟩ | ⟨ho, hd⟩
  · exact .inl ⟨hin _ hp, hp, by rw [hd, hat.2]⟩
  · exact .inr ⟨ho, ho, by rw [hd, hat.2]⟩

end Statements

theorem Inv.stmt {s s' : PidSys T} (hi : s.Inv) {t : T} (h : s.stmt t = some s') (hc : s'.calls < 65536) :
    s'.Inv := by
  obtain ⟨hr, ⟨hpc, rfl⟩ | ⟨hpc, rfl⟩ | ⟨hpc, rfl⟩ | ⟨l, hl, ⟨hpc, rfl⟩ | ⟨hpc, rfl⟩⟩⟩ := stmt_cases h
  · exact hi.call hr hpc
  · exact hi.incr hr hpc hc
  · exact hi.ret hpc
  · exact hi.locking hr hpc hl
  · exact hi.unlocking hr hpc hl

/-! ## Safe runs -/

/-- The values returned are different, and the value a late thread will read is not among them. -/
structure Fresh (s : PidSys T) : Prop where
  nodup : s.returned.Nodup
  next : ∀ t, s.Late t → ∀ v ∈ s.returned, v < s.nextPid
  alone : ∀ t u, s.Late t → s.Late u → t = u

omit [DecidableEq T] in
theorem fresh_init : Fresh (init : PidSys T) := by
  refine ⟨by simp [init], ?_, ?_⟩
  · intro t ht
    simp [init, Late] at ht
  · intro t u ht
    simp [init, Late] at ht

/-- Which threads are late after a move of `t`. -/
theorem late_goto {s s' : PidSys T} {t u : T} {p : Pc} (hpc : s'.pc = Function.update s.pc t p) :
    s'.Late u ↔ if u = t then p = .unlocking ∨ p = .ret else s.Late u := by
  unfold Late
  rw [hpc]
  by_cases hu : u = t
  · subst hu
    simp
  · simp [hu]

/-- Nothing changes for a thread that moves without reading or incrementing `next_pid`. -/
theorem Fresh.goto {s s' : PidSys T} (h : s.Fresh) {t : T} {p : Pc} (hpc : s'.pc = Function.update s.pc t p)
    (hn : s'.nextPid = s.nextPid) (hret : s'.returned = s.returned)
    (hp : (p = .unlocking ∨ p = .ret) ↔ s.Late t) : s'.Fresh := by
  have hlate : ∀ u, s'.Late u ↔ s.Late u := by
    intro u
    rw [late_goto hpc]
    by_cases hu : u = t
    · subst hu
      rw [if_pos rfl, hp]
    · rw [if_neg hu]
  refine ⟨by rw [hret]; exact h.nodup, ?_, ?_⟩
  · intro u hu
    rw [hret, hn]
    exact h.next u ((hlate u).1 hu)
  · intro u v hu hv
    exact h.alone u v ((hlate u).1 hu) ((hlate v).1 hv)

theorem Fresh.incr {s : PidSys T} (h : s.Fresh) (hi : s.Inv) {t : T} (hpc : s.pc t = .incr) (hc : s.calls < 65536)
    (hsafe : ∀ u, s.pc u ≠ .ret) :
    Fresh ({ s with nextPid := (s.nextPid + 1) % 65536
                    lock := s.lock.goto t .assertHolder }.goto t .unlocking) := by
  -- the only late thread afterwards is `t`: nobody is at its return, and nobody else has the lock
  have honly : ∀ u, Late ({ s with nextPid := (s.nextPid + 1) % 65536
                                   lock := s.lock.goto t .assertHolder }.goto t .unlocking) u → u = t := by
    intro u hu
    by_contra hne
    rw [late_goto (s := s) rfl, if_neg hne] at hu
    rcases hu with hu | hu
    · exact hne (hi.alone (.inr hu) (.inl hpc))
    · exact hsafe u hu
  refine ⟨h.nodup, ?_, ?_⟩
  · intro u hu v hv
    show v < (s.nextPid + 1) % 65536
    rw [hi.incr_mod hpc hc]
    exact Nat.lt_succ_of_le (hi.le v hv)
  · intro u v hu hv
    rw [honly u hu, honly v hv]

theorem Fresh.ret {s : PidSys T} (h : s.Fresh) {t : T} (hpc : s.pc t = .ret) :
    Fresh ({ s with returned := s.returned ++ [s.nextPid] }.goto t .out) := by
  have hnone : ∀ u, ¬ Late ({ s with returned := s.returned ++ [s.nextPid] }.goto t .out) u := by
    intro u hu
    rw [late_goto (s := s) rfl] at hu
    by_cases hut : u = t
    · simp [hut] at hu
    · rw [if_neg hut] at hu
      exact hut (h.alone u t hu (.inr hpc))
  refine ⟨?_, fun u hu => absurd hu (hnone u), fun u v hu => absurd hu (hnone u)⟩
  show (s.returned ++ [s.nextPid]).Nodup
  rw [List.nodup_append]
  refine ⟨h.nodup, List.nodup_singleton _, ?_⟩
  intro v hv w hw hvw
  have hlt := h.next t (.inr hpc) v hv
  rw [hvw, List.mem_singleton.1 hw] at hlt
  exact lt_irrefl _ hlt

theorem Fresh.stmt {s s' : PidSys T} (h : s.Fresh) (hi : s.Inv) {t : T} (hstmt : s.stmt t = some s')
    (hc : s'.calls < 65536) (hsafe : s.Safe t) : s'.Fresh := by
  obtain ⟨hr, ⟨hpc, rfl⟩ | ⟨hpc, rfl⟩ | ⟨hpc, rfl⟩ | ⟨l, -, ⟨hpc, rfl⟩ | ⟨hpc, rfl⟩⟩⟩ := stmt_cases hstmt
  · exact h.goto (p := .locking) rfl rfl rfl (by simp [Late, hpc])
  · exact h.incr hi hpc hc (hsafe hpc)
  · exact h.ret hpc
  · exact h.goto rfl rfl rfl (by by_cases ho : l.pc t = .out <;> simp [Late, hpc, ho])
  · exact h.goto rfl rfl rfl (by by_cases ho : l.pc t = .out <;> simp [Late, hpc, ho])

theorem Fresh.run {s s' : PidSys T} {ts : List T} (h : s.Fresh) (hi : s.Inv) (hrun : s.run ts = some s')
    (hc : s'.calls < 65536) (hsafe : s.SafeRun ts) : s'.Fresh := by
  induction ts generalizing s with
  | nil =>
    cases hrun
    exact h
  | cons t ts ih =>
    obtain ⟨s₁, ht, hrun⟩ := run_cons hrun
    have hc₁ : s₁.calls < 65536 := lt_of_le_of_lt (run_calls hrun) hc
    exact ih (h.stmt hi ht hc₁ hsafe.1) (hi.stmt ht hc₁) hrun (hsafe.2 s₁ ht)

/-! ## After an unsafe statement -/

/-- `next_pid` has been `v`, and fewer than `v - 1` calls have returned a value below `v`. From then on
every value read is at least `v`, so that `v - 1` different ones below it never come together. -/
def Short (v : Nat) (s : PidSys T) : Prop :=
  v ≤ s.nextPid ∧ (s.returned.filter (· < v)).length + 2 ≤ v

theorem Short.stmt {v : Nat} {s s' : PidSys T} (h : Short v s) (hi : s.Inv) {t : T}
    (hstmt : s.stmt t = some s') (hc : s'.calls < 65536) : Short v s' := by
  obtain ⟨hr, ⟨-, rfl⟩ | ⟨hpc, rfl⟩ | ⟨-, rfl⟩ | ⟨l, -, ⟨-, rfl⟩ | ⟨-, rfl⟩⟩⟩ := stmt_cases hstmt
  · exact h
  · refine ⟨?_, h.2⟩
    show v ≤ (s.nextPid + 1) % 65536
    rw [hi.incr_mod hpc hc]
    exact le_trans h.1 (Nat.le_succ _)
  · refine ⟨h.1, ?_⟩
    show ((s.returned ++ [s.nextPid]).filter (· < v)).length + 2 ≤ v
    rw [List.filter_append, List.filter_singleton]
    simpa [Nat.not_lt.2 h.1] using h.2
  · exact h
  · exact h

theorem Short.run {v : Nat} {s s' : PidSys T} {ts : List T} (h : Short v s) (hi : s.Inv)
    (hrun : s.run ts = some s') (hc : s'.calls < 65536) : Short v s' ∧ s'.Inv := by
  induction ts generalizing s with
  | nil =>
    cases hrun
    exact ⟨h, hi⟩
  | cons t ts ih =>
    obtain ⟨s₁, ht, hrun⟩ := run_cons hrun
    have hc₁ : s₁.calls < 65536 := lt_of_le_of_lt (run_calls hrun) hc
    exact ih (h.stmt hi ht hc₁) (hi.stmt ht hc₁) hrun

/-- An increment that overtakes a thread. -/
theorem Inv.short {s s' : PidSys T} (hi : s.Inv) {t : T} (hstmt : s.stmt t = some s') (hc : s'.calls < 65536)
    (hbad : ¬ s.Safe t) : ∃ v, Short v s' := by
  unfold Safe at hbad
  push Not at hbad
  obtain ⟨hpc, u, hu⟩ := hbad
  obtain ⟨A, B, hcount⟩ := hi.counts
  have hpos : 0 < B.card := Finset.card_pos.2 ⟨u, (hcount.late u).2 (.inr hu)⟩
  have hpids := hcount.pids
  obtain ⟨hr, ⟨hpc', -⟩ | ⟨-, rfl⟩ | ⟨hpc', -⟩ | ⟨l, -, ⟨hpc', -⟩ | ⟨hpc', -⟩⟩⟩ := stmt_cases hstmt
  · simp [hpc] at hpc'
  · refine ⟨s.nextPid + 1, ?_, ?_⟩
    · exact le_of_eq (hi.incr_mod hpc hc).symm
    · have hlen : (s.returned.filter (· < s.nextPid + 1)).length ≤ s.returned.length :=
        List.length_filter_le _ _
      show (s.returned.filter (· < s.nextPid + 1)).length + 2 ≤ s.nextPid + 1
      omega
  · simp [hpc] at hpc'
  · simp [hpc] at hpc'
  · simp [hpc] at hpc'

/-- Once nobody is late, too few values below `v` leave two equal ones above. -/
theorem Short.not_nodup {v : Nat} {s : PidSys T} (h : Short v s) (hi : s.Inv) (hdone : ∀ t, ¬ s.Late t) :
    ¬ s.returned.Nodup := by
  intro hnd
  obtain ⟨A, B, hcount⟩ := hi.counts
  have hB : B = ∅ := Finset.eq_empty_of_forall_notMem fun t ht => hdone t ((hcount.late t).1 ht)
  have hlen : s.returned.length = s.nextPid := by
    have := hcount.pids
    rw [hB, Finset.card_empty] at this
    omega
  have hhigh : (s.returned.filter fun w => !decide (w < v)).length ≤ s.nextPid + 1 - v := by
    have hsub : (s.returned.filter fun w => !decide (w < v)).toFinset ⊆ Finset.Icc v s.nextPid := by
      intro w hw
      rw [List.mem_toFinset, List.mem_filter] at hw
      have hle := hi.le w hw.1
      have hge : ¬ w < v := by simpa using hw.2
      exact Finset.mem_Icc.2 ⟨Nat.not_lt.1 hge, hle⟩
    calc (s.returned.filter fun w => !decide (w < v)).length
        = (s.returned.filter fun w => !decide (w < v)).toFinset.card :=
          (List.toFinset_card_of_nodup (hnd.filter _)).symm
      _ ≤ (Finset.Icc v s.nextPid).card := Finset.card_le_card hsub
      _ = s.nextPid + 1 - v := Nat.card_Icc v s.nextPid
  have hsplit : (s.returned.filter (· < v)).length + (s.returned.filter fun w => !decide (w < v)).length =
      s.returned.length := by
    exact (List.length_eq_length_filter_add (fun w => decide (w < v))).symm
  have h1 := h.1
  have h2 := h.2
  omega

theorem Inv.safeRun {s s' : PidSys T} {ts : List T} (hi : s.Inv) (hrun : s.run ts = some s')
    (hc : s'.calls < 65536) (hdone : ∀ t, ¬ s'.Late t) (hnd : s'.returned.Nodup) : s.SafeRun ts := by
  induction ts generalizing s with
  | nil => trivial
  | cons t ts ih =>
    obtain ⟨s₁, ht, hrun⟩ := run_cons hrun
    have hc₁ : s₁.calls < 65536 := lt_of_le_of_lt (run_calls hrun) hc
    have hi₁ := hi.stmt ht hc₁
    refine ⟨?_, ?_⟩
    · by_contra hbad
      obtain ⟨v, hv⟩ := hi.short ht hc₁ hbad
      obtain ⟨hv', hi'⟩ := hv.run hi₁ hrun hc
      exact hv'.not_nodup hi' hdone hnd
    · intro s₂ hs₂
      rw [ht] at hs₂
      cases hs₂
      exact ih hi₁ hrun

/-- **Process ids are unique in the safe runs.** For every schedule of the statements of any number of
callers, with fewer than 65536 calls: if no `next_pid++` overtakes a thread that has yet to read its return
value, the values returned so far are pairwise distinct; and once every call that incremented has returned,
they are distinct only if there was no such overtaking. -/
theorem pids_unique_iff_safe (ts : List T) (s : PidSys T) (hrun : init.run ts = some s) (hcalls : s.calls < 65536) :
    (init.SafeRun ts → s.returned.Nodup) ∧
    ((∀ t, ¬ s.Late t) → (s.returned.Nodup ↔ init.SafeRun ts)) := by
  have hsafe : init.SafeRun ts → s.returned.Nodup :=
    fun h => (fresh_init.run inv_init hrun hcalls h).nodup
  refine ⟨hsafe, ?_⟩
  intro hdone
  exact ⟨inv_init.safeRun hrun hcalls hdone, hsafe⟩

/-- A call takes 14 statements when nobody else is there. -/
def oneCall (t : T) : List T := List.replicate 14 t

/-- Two calls, one after the other. -/
theorem pids_unique_in_turn : ∃ s : PidSys (Fin 2), init.run (oneCall 0 ++ oneCall 1) = some s ∧
    s.returned = [1, 2] ∧ init.SafeRun (oneCall (0 : Fin 2) ++ oneCall 1) := by
  have hrun : init.run (oneCall (0 : Fin 2) ++ oneCall 1) =
      some ((init.run (oneCall (0 : Fin 2) ++ oneCall 1)).getD init) := by rfl
  have hret : ((init.run (oneCall (0 : Fin 2) ++ oneCall 1)).getD init).returned = [1, 2] := by decide
  have hdone : ∀ t, ¬ ((init.run (oneCall (0 : Fin 2) ++ oneCall 1)).getD init).Late t := by
    unfold Late
    decide
  have hunique := pids_unique_iff_safe _ _ hrun (by decide)
  exact ⟨_, hrun, hret, (hunique.2 hdone).1 (by rw [hret]; decide)⟩

/-- Thread 0 is preempted before its return, thread 1 makes a whole call: both get pid 2. -/
theorem pids_not_unique :
    ¬ ∀ (ts : List (Fin 2)) (s : PidSys (Fin 2)), init.run ts = some s → s.calls < 65536 → s.returned.Nodup := by
  intro h
  have hrun : init.run (List.replicate 13 (0 : Fin 2) ++ oneCall 1 ++ [0]) =
      some ((init.run (List.replicate 13 (0 : Fin 2) ++ oneCall 1 ++ [0])).getD init) := by rfl
  have hret : ((init.run (List.replicate 13 (0 : Fin 2) ++ oneCall 1 ++ [0])).getD init).returned = [2, 2] := by
    decide
  have hnd := h _ _ hrun (by decide)
  rw [hret] at hnd
  simp at hnd

end PidSys

end ElephantOS
