import ElephantOS.Thread.Lock

/-!
# The character queue (`device/ioqueue.c`)

Producers call `ioqueue_putchar`, consumers `ioqueue_getchar`, with interrupts off: a thread is only
switched out where it blocks, either in `sys_lock_lock` on the queue's lock or in `ioqueueBlock`.
`IoSys.exec` runs a thread from one such point to the next.

* `IoQueue`, `ioqueueFull`, `ioqueueEmpty` : `struct ioqueue` and its tests;
* `Op`, `Pc`, `IoSys`, `IoSys.exec` : the two operations as steps between blocking points;
* `IoSys.Inv` : the lock is free and nobody sleeps, or its holder is the thread in `ioqueueBlock`;
* `IoSys.Safe` : the steps that do not reach the two defects of the file. `ioqueue_putchar` wakes
  `sleeping_producer` where a consumer is recorded, and a thread that waited for the lock goes to
  sleep without testing the queue again.
-/


namespace ElephantOS

structure IoQueue (T : Type*) where
  lock : Lock T
  sleepingProducer : Option T
  sleepingConsumer : Option T
  buf : Nat → UInt8
  head : Nat
  tail : Nat

def bufsize : Nat := 64

def ptrNextPos (idx : Nat) : Nat := (idx + 1) % bufsize

namespace IoQueue
variable {T : Type*}

/-- `ioqueueInit` (the buffer keeps whatever bytes it had). -/
def ioqueueInit (buf : Nat → UInt8) : IoQueue T := ⟨lockInit, none, none, buf, 0, 0⟩

def ioqueueFull (queue : IoQueue T) : Bool := ptrNextPos queue.head == queue.tail

def ioqueueEmpty (queue : IoQueue T) : Bool := queue.head == queue.tail

/-- The fields a `PCB** waiter` argument can point to. -/
inductive Waiter where
  | sleepingProducer
  | sleepingConsumer
  deriving DecidableEq, Repr

def waiter (queue : IoQueue T) : Waiter → Option T
  | .sleepingProducer => queue.sleepingProducer
  | .sleepingConsumer => queue.sleepingConsumer

def setWaiter (queue : IoQueue T) (w : Waiter) (t : Option T) : IoQueue T :=
  match w with
  | .sleepingProducer => { queue with sleepingProducer := t }
  | .sleepingConsumer => { queue with sleepingConsumer := t }

end IoQueue

open IoQueue (Waiter)

namespace IoSys

inductive Op where
  | putchar (byte : UInt8)
  | getchar
  deriving DecidableEq, Repr

/-- The field `ioqueueBlock` records the caller in. -/
def Op.waiter : Op → Waiter
  | .putchar _ => .sleepingProducer
  | .getchar => .sleepingConsumer

/-- The loop test of the operation. -/
def Op.mustWait {T : Type*} (queue : IoQueue T) : Op → Bool
  | .putchar _ => queue.ioqueueFull
  | .getchar => queue.ioqueueEmpty

/-- Where a switched out thread goes on. -/
inductive Pc where
  /-- outside the two operations -/
  | idle
  /-- inside `SemaphoreDown`, called for the queue's lock -/
  | lockWait (op : Op)
  /-- inside `ioqueueBlock`, with the lock -/
  | asleep (op : Op)
  deriving DecidableEq, Repr

/-- The `ASSERT`s that can fail. -/
inductive Failed where
  | lock
  | ioqueueBlock
  | ioqueueWakeup
  deriving DecidableEq, Repr

end IoSys

/-- A queue and the threads that use it; `received t` are the bytes `ioqueue_getchar` returned to `t`. -/
structure IoSys (T : Type*) where
  queue : IoQueue T
  status : T → TaskStatus
  pc : T → IoSys.Pc
  received : T → List UInt8

namespace IoSys
variable {T : Type*} [DecidableEq T]

def init (buf : Nat → UInt8) : IoSys T :=
  ⟨IoQueue.ioqueueInit buf, fun _ => .ready, fun _ => .idle, fun _ => []⟩

/-- `ioqueueBlock(&queue->waiter)`, called by `t`. -/
def ioqueueBlock (s : IoSys T) (w : Waiter) (t : T) : Except Failed (IoSys T) :=
  match s.queue.waiter w, blockThread s.status t .blockd with
  | none, some status => .ok { s with queue := s.queue.setWaiter w (some t), status := status }
  | _, _ => .error .ioqueueBlock

/-- `ioqueueWakeup(&queue->waiter)`. -/
def ioqueueWakeup (s : IoSys T) (w : Waiter) : Except Failed (IoSys T) :=
  match s.queue.waiter w with
  | none => .error .ioqueueWakeup
  | some u =>
    match unblockThread s.status u with
    | none => .error .ioqueueWakeup
    | some status => .ok { s with queue := s.queue.setWaiter w none, status := status }

/-- The part of the operations after their loop. `ioqueue_putchar` tests `sleeping_consumer` and
wakes `sleeping_producer`. -/
def finish (s : IoSys T) (t : T) : Op → Except Failed (IoSys T)
  | .putchar byte =>
    let s := { s with queue := { s.queue with buf := Function.update s.queue.buf s.queue.head byte
                                              head := ptrNextPos s.queue.head }
                      pc := Function.update s.pc t .idle }
    if s.queue.sleepingConsumer.isSome then s.ioqueueWakeup .sleepingProducer else .ok s
  | .getchar =>
    let byte := s.queue.buf s.queue.tail
    let s := { s with queue := { s.queue with tail := ptrNextPos s.queue.tail }
                      pc := Function.update s.pc t .idle
                      received := Function.update s.received t (s.received t ++ [byte]) }
    if s.queue.sleepingProducer.isSome then s.ioqueueWakeup .sleepingProducer else .ok s

/-- The loop body, given what became of its `sys_lock_lock`. -/
def afterLock (s : IoSys T) (t : T) (op : Op) :
    Option (Lock T × (T → TaskStatus) × Down) → Except Failed (IoSys T)
  | none => .error .lock
  | some (lock, status, .blocked) =>
    .ok { s with queue := { s.queue with lock := lock }, status := status
                 pc := Function.update s.pc t (.lockWait op) }
  | some (lock, status, .passed) =>
    ioqueueBlock { s with queue := { s.queue with lock := lock }, status := status
                          pc := Function.update s.pc t (.asleep op) } op.waiter t

/-- An operation from its loop test. -/
def loop (s : IoSys T) (t : T) (op : Op) : Except Failed (IoSys T) :=
  if op.mustWait s.queue then s.afterLock t op (sysLockLock s.queue.lock s.status t)
  else s.finish t op

/-- What the running thread does next: call an operation, or go on where it was switched out. -/
inductive Event (T : Type*) where
  | call (t : T) (op : Op)
  | resume (t : T)

def Event.thread : Event T → T
  | .call t _ => t
  | .resume t => t

def Event.op (s : IoSys T) : Event T → Option Op
  | .call _ op => some op
  | .resume t =>
    match s.pc t with
    | .idle => none
    | .lockWait op | .asleep op => some op

/-- Run the thread of an event until it blocks or its operation ends. -/
def exec (s : IoSys T) : Event T → Except Failed (IoSys T)
  | .call t op => s.loop t op
  | .resume t =>
    match s.pc t with
    | .idle => .ok s
    | .lockWait op => s.afterLock t op (s.queue.lock.down s.status t)
    | .asleep op =>
      match sysLockUnlock s.queue.lock s.status t with
      | none => .error .lock
      | some (lock, status) => loop { s with queue := { s.queue with lock := lock }, status := status } t op

/-- The event is possible: its thread is runnable, and inside an operation or not as it should. -/
def Enabled (s : IoSys T) : Event T → Prop
  | .call t _ => s.status t = .ready ∧ s.pc t = .idle
  | .resume t => s.status t = .ready ∧ s.pc t ≠ .idle

/-- The event does not reach a defect: no byte is put while a consumer is recorded as sleeping, and a
thread that waited for the lock gets it only while its loop test still holds. -/
def Safe (s : IoSys T) : Event T → Prop
  | .call _ (.putchar _) => s.queue.ioqueueFull = false → s.queue.sleepingConsumer = none
  | .call _ .getchar => True
  | .resume t =>
    match s.pc t with
    | .idle => True
    | .lockWait op => s.queue.lock.semaphore.value ≠ 0 → op.mustWait s.queue = true
    | .asleep (.putchar _) => s.queue.ioqueueFull = false → s.queue.sleepingConsumer = none
    | .asleep .getchar => True

inductive Reached (P : IoSys T → Event T → Prop) (buf : Nat → UInt8) : IoSys T → Prop
  | init : Reached P buf (init buf)
  | step {s s' : IoSys T} (e : Event T) : Reached P buf s → s.Enabled e → P s e → s.exec e = .ok s' →
      Reached P buf s'

/-! ## What is claimed of the queue -/

/-- Between operations: a recorded consumer means an empty queue, a recorded producer a full one. -/
def Recorded (s : IoSys T) : Prop :=
  (s.queue.sleepingConsumer ≠ none → s.queue.ioqueueEmpty = true) ∧
  (s.queue.sleepingProducer ≠ none → s.queue.ioqueueFull = true)

/-- After a completed operation the thread that was recorded on the other side is READY and no
longer recorded. -/
def Woken (s s' : IoSys T) : Op → Prop
  | .putchar _ => s'.queue.sleepingConsumer = none ∧
      ∀ c, s.queue.sleepingConsumer = some c → s'.status c = .ready
  | .getchar => s'.queue.sleepingProducer = none ∧
      ∀ p, s.queue.sleepingProducer = some p → s'.status p = .ready

/-- What the event must do: fail no `ASSERT`, wake the other side if it completes its operation, and
end in a state where the records are right. -/
def Meets (s : IoSys T) (e : Event T) : Prop :=
  ∃ s', s.exec e = .ok s' ∧ s'.Recorded ∧
    ∀ op, e.op s = some op → s'.pc e.thread = .idle → Woken s s' op

/-! ## The invariant -/

/-- The lock's waiting list holds the threads blocked in `SemaphoreDown`. -/
structure Waits (s : IoSys T) : Prop where
  mem : ∀ t, t ∈ s.queue.lock.semaphore.waitingThreadList ↔
    s.status t = .blockd ∧ ∃ op, s.pc t = .lockWait op
  nodup : s.queue.lock.semaphore.waitingThreadList.Nodup

/-- The lock is free and nobody is in `ioqueueBlock`. -/
structure LockFree (s : IoSys T) : Prop where
  holder : s.queue.lock.holder = none
  value : s.queue.lock.semaphore.value = 1
  sum : s.queue.lock.holderRepeatRequestSum = 0
  asleep : ∀ t op, s.pc t ≠ .asleep op
  waiter : ∀ w, s.queue.waiter w = none

/-- The lock is held by `o`, the one thread in `ioqueueBlock`; it is recorded and blocked while its
loop test holds, or has been woken. -/
structure LockHeld (s : IoSys T) (o : T) (op : Op) : Prop where
  holder : s.queue.lock.holder = some o
  value : s.queue.lock.semaphore.value = 0
  sum : s.queue.lock.holderRepeatRequestSum = 1
  pc : s.pc o = .asleep op
  asleep : ∀ t op', s.pc t = .asleep op' → t = o
  waiter : ∀ w, w ≠ op.waiter → s.queue.waiter w = none
  record : s.queue.waiter op.waiter = some o ∧ s.status o = .blockd ∧ op.mustWait s.queue = true ∨
    s.queue.waiter op.waiter = none ∧ s.status o = .ready

structure Inv (s : IoSys T) : Prop where
  waits : s.Waits
  lock : s.LockFree ∨ ∃ o op, s.LockHeld o op

omit [DecidableEq T] in
theorem inv_init (buf : Nat → UInt8) : Inv (init buf : IoSys T) where
  waits := ⟨by simp [init, IoQueue.ioqueueInit, lockInit, semaphoreInit],
    by simp [init, IoQueue.ioqueueInit, lockInit, semaphoreInit]⟩
  lock := .inl ⟨rfl, rfl, rfl, by simp [init], fun w => by cases w <;> rfl⟩

omit [DecidableEq T] in
/-- A recorded thread is the holder of the lock, asleep while its loop test holds. -/
theorem Inv.of_waiter {s : IoSys T} (hi : s.Inv) {w : Waiter} {u : T} (h : s.queue.waiter w = some u) :
    ∃ op, s.LockHeld u op ∧ w = op.waiter ∧ s.status u = .blockd ∧ op.mustWait s.queue = true := by
  rcases hi.lock with hf | ⟨o, op, hh⟩
  · rw [hf.waiter w] at h; cases h
  · by_cases hw : w = op.waiter
    · subst hw
      rcases hh.record with ⟨hr, hs, hm⟩ | ⟨hr, -⟩
      · rw [hr] at h
        cases h
        exact ⟨op, hh, rfl, hs, hm⟩
      · rw [hr] at h; cases h
    · rw [hh.waiter w hw] at h; cases h

omit [DecidableEq T] in
theorem Inv.recorded {s : IoSys T} (hi : s.Inv) : s.Recorded := by
  constructor
  · intro h
    obtain ⟨u, hu⟩ := Option.ne_none_iff_exists'.1 h
    obtain ⟨op, -, hw, -, hm⟩ := hi.of_waiter (w := .sleepingConsumer) hu
    cases op with
    | putchar _ => cases hw
    | getchar => exact hm
  · intro h
    obtain ⟨u, hu⟩ := Option.ne_none_iff_exists'.1 h
    obtain ⟨op, -, hw, -, hm⟩ := hi.of_waiter (w := .sleepingProducer) hu
    cases op with
    | putchar _ => exact hm
    | getchar => cases hw

omit [DecidableEq T] in
theorem Inv.not_mem {s : IoSys T} (hi : s.Inv) {t : T} (ht : s.status t = .ready) :
    t ∉ s.queue.lock.semaphore.waitingThreadList := by
  rw [hi.waits.mem, ht]
  simp

/-! ## Taking the lock -/

theorem Lock.down_of_free {l : Lock T} {status : T → TaskStatus} {t : T} (hv : l.semaphore.value = 1)
    (hs : l.holderRepeatRequestSum = 0) :
    l.down status t = some (⟨some t, ⟨0, l.semaphore.waitingThreadList⟩, 1⟩, status, .passed) := by
  simp [Lock.down, Semaphore.down, hv, hs]

theorem Lock.down_of_held {l : Lock T} {status : T → TaskStatus} {t : T} (hv : l.semaphore.value = 0)
    (ht : t ∉ l.semaphore.waitingThreadList) :
    l.down status t = some ({ l with semaphore := ⟨0, l.semaphore.waitingThreadList ++ [t]⟩ },
      Function.update status t .blockd, .blocked) := by
  simp [Lock.down, Semaphore.down, hv, ht, blockThread, TaskStatus.asleep]

omit [DecidableEq T] in
@[simp] theorem waiter_setWaiter_self (q : IoQueue T) (w : Waiter) (v : Option T) :
    (q.setWaiter w v).waiter w = v := by cases w <;> rfl

omit [DecidableEq T] in
theorem waiter_setWaiter_ne (q : IoQueue T) {w w' : Waiter} (h : w' ≠ w) (v : Option T) :
    (q.setWaiter w v).waiter w' = q.waiter w' := by
  cases w <;> cases w' <;> first | rfl | exact absurd rfl h

omit [DecidableEq T] in
@[simp] theorem lock_setWaiter (q : IoQueue T) (w : Waiter) (v : Option T) :
    (q.setWaiter w v).lock = q.lock := by cases w <;> rfl

omit [DecidableEq T] in
@[simp] theorem mustWait_setWaiter (q : IoQueue T) (w : Waiter) (v : Option T) (op : Op) :
    op.mustWait (q.setWaiter w v) = op.mustWait q := by cases w <;> cases op <;> rfl

omit [DecidableEq T] in
@[simp] theorem waiter_lock (q : IoQueue T) (l : Lock T) (w : Waiter) :
    ({ q with lock := l } : IoQueue T).waiter w = q.waiter w := by cases w <;> rfl

omit [DecidableEq T] in
@[simp] theorem mustWait_lock (q : IoQueue T) (l : Lock T) (op : Op) :
    op.mustWait ({ q with lock := l } : IoQueue T) = op.mustWait q := by cases op <;> rfl

def slept (s : IoSys T) (t : T) (op : Op) : IoSys T :=
  { s with
    queue := { s.queue with
      lock := ⟨some t, ⟨0, s.queue.lock.semaphore.waitingThreadList⟩, 1⟩ }.setWaiter op.waiter (some t)
    status := Function.update s.status t .blockd
    pc := Function.update s.pc t (.asleep op) }

def queued (s : IoSys T) (t : T) (op : Op) : IoSys T :=
  { s with
    queue := { s.queue with lock := { s.queue.lock with
      semaphore := ⟨0, s.queue.lock.semaphore.waitingThreadList ++ [t]⟩ } }
    status := Function.update s.status t .blockd
    pc := Function.update s.pc t (.lockWait op) }

theorem afterLock_free {s : IoSys T} (hf : s.LockFree) (t : T) (op : Op) :
    s.afterLock t op (s.queue.lock.down s.status t) = .ok (s.slept t op) := by
  simp [afterLock, Lock.down_of_free hf.value hf.sum, ioqueueBlock, hf.waiter, blockThread,
    TaskStatus.asleep, slept]

theorem afterLock_held {s : IoSys T} (hv : s.queue.lock.semaphore.value = 0) {t : T}
    (ht : t ∉ s.queue.lock.semaphore.waitingThreadList) (op : Op) :
    s.afterLock t op (s.queue.lock.down s.status t) = .ok (s.queued t op) := by
  simp [afterLock, Lock.down_of_held hv ht, queued]

theorem Inv.slept {s : IoSys T} (hi : s.Inv) (hf : s.LockFree) {t : T} (ht : s.status t = .ready)
    {op : Op} (hm : op.mustWait s.queue = true) : (s.slept t op).Inv := by
  have hnot := hi.not_mem ht
  refine ⟨⟨fun u => ?_, by simpa [IoSys.slept] using hi.waits.nodup⟩,
    .inr ⟨t, op, ?_, by simp [IoSys.slept], by simp [IoSys.slept], by simp [IoSys.slept], ?_, ?_, ?_⟩⟩
  · by_cases hu : u = t
    · simp [IoSys.slept, hu, hnot]
    · simp [IoSys.slept, hu, hi.waits.mem u]
  · simp [IoSys.slept]
  · intro u op' hu
    by_contra hut
    simp only [IoSys.slept, Function.update_of_ne hut] at hu
    exact hf.asleep u op' hu
  · intro w hw
    simp [IoSys.slept, waiter_setWaiter_ne _ hw, hf.waiter w]
  · exact .inl ⟨by simp [IoSys.slept], by simp [IoSys.slept], by simpa [IoSys.slept] using hm⟩

theorem Inv.queued {s : IoSys T} (hi : s.Inv) {o : T} {oop : Op} (hh : s.LockHeld o oop) {t : T}
    (ht : s.status t = .ready) (hne : t ≠ o) (op : Op) : (s.queued t op).Inv := by
  have hnot := hi.not_mem ht
  refine ⟨⟨fun u => ?_, ?_⟩, .inr ⟨o, oop, hh.holder, rfl, hh.sum, ?_, ?_, ?_, ?_⟩⟩
  · by_cases hu : u = t
    · simp [IoSys.queued, hu]
    · simp [IoSys.queued, hu, hi.waits.mem u]
  · simpa [IoSys.queued, List.nodup_append] using ⟨hi.waits.nodup, fun a ha hat => hnot (hat ▸ ha)⟩
  · simpa [IoSys.queued, Function.update_of_ne hne.symm] using hh.pc
  · intro u op' hu
    by_cases hut : u = t
    · simp [IoSys.queued, hut] at hu
    · exact hh.asleep u op' (by simpa [IoSys.queued, hut] using hu)
  · intro w hw
    simpa [IoSys.queued] using hh.waiter w hw
  · simpa [IoSys.queued, Function.update_of_ne hne.symm] using hh.record

/-! ## Finishing an operation -/

theorem Inv.unrecorded {s : IoSys T} (hi : s.Inv) (hw : ∀ w, s.queue.waiter w = none) {t : T}
    (hpc : s.pc t = .idle) (q : IoQueue T) (hl : q.lock = s.queue.lock)
    (hq : ∀ w, q.waiter w = s.queue.waiter w) (received : T → List UInt8) :
    Inv { s with queue := q, pc := Function.update s.pc t .idle, received := received } := by
  rw [show Function.update s.pc t .idle = s.pc by rw [← hpc, Function.update_eq_self]]
  refine ⟨⟨fun u => by rw [hl]; exact hi.waits.mem u, by rw [hl]; exact hi.waits.nodup⟩, ?_⟩
  rcases hi.lock with hf | ⟨o, op, hh⟩
  · exact .inl ⟨by rw [hl]; exact hf.holder, by rw [hl]; exact hf.value, by rw [hl]; exact hf.sum,
      hf.asleep, fun w => (hq w).trans (hw w)⟩
  · refine .inr ⟨o, op, by rw [hl]; exact hh.holder, by rw [hl]; exact hh.value,
      by rw [hl]; exact hh.sum, hh.pc, hh.asleep, fun w _ => (hq w).trans (hw w), .inr ⟨?_, ?_⟩⟩
    · exact (hq _).trans (hw _)
    · rcases hh.record with ⟨hr, -⟩ | ⟨-, hs⟩
      · rw [hw] at hr; cases hr
      · exact hs

theorem Inv.wakeup {s : IoSys T} (hi : s.Inv) {w : Waiter} {u : T} (hu : s.queue.waiter w = some u)
    {t : T} (hpc : s.pc t = .idle) (q : IoQueue T) (hl : q.lock = s.queue.lock)
    (hq : ∀ w, q.waiter w = s.queue.waiter w) (received : T → List UInt8) :
    Inv { s with queue := q.setWaiter w none, status := Function.update s.status u .ready
                 pc := Function.update s.pc t .idle, received := received } := by
  obtain ⟨op, hh, rfl, hs, -⟩ := hi.of_waiter hu
  rw [show Function.update s.pc t .idle = s.pc by rw [← hpc, Function.update_eq_self]]
  refine ⟨⟨fun v => ?_, by simpa [hl] using hi.waits.nodup⟩, .inr ⟨u, op, ?_, ?_, ?_, hh.pc, hh.asleep,
    fun w hw => ?_, .inr ⟨by simp, by simp⟩⟩⟩
  · by_cases hv : v = u
    · subst hv
      simp [hl, hi.waits.mem v, hh.pc]
    · simp [hl, hv, hi.waits.mem v]
  · simpa [hl] using hh.holder
  · simpa [hl] using hh.value
  · simpa [hl] using hh.sum
  · simpa [waiter_setWaiter_ne _ hw, hq] using hh.waiter w hw

theorem Inv.finish_putchar {s : IoSys T} (hi : s.Inv) {t : T} (hpc : s.pc t = .idle) {byte : UInt8}
    (hfull : s.queue.ioqueueFull = false) (hc : s.queue.sleepingConsumer = none) :
    ∃ s', s.finish t (.putchar byte) = .ok s' ∧ s'.Inv ∧ s'.pc t = .idle ∧ Woken s s' (.putchar byte) := by
  have hw : ∀ w, s.queue.waiter w = none := by
    intro w
    cases hq : s.queue.waiter w with
    | none => rfl
    | some u =>
      obtain ⟨op, -, rfl, -, hm⟩ := hi.of_waiter hq
      cases op with
      | putchar _ => rw [show Op.mustWait s.queue (.putchar _) = s.queue.ioqueueFull from rfl, hfull] at hm; cases hm
      | getchar => rw [show s.queue.waiter _ = s.queue.sleepingConsumer from rfl, hc] at hq; cases hq
  refine ⟨_, ?_, hi.unrecorded hw hpc { s.queue with
      buf := Function.update s.queue.buf s.queue.head byte, head := ptrNextPos s.queue.head } rfl
    (fun w => by cases w <;> rfl) s.received, by simp, hc, fun c h => ?_⟩
  · simp [finish, hc]
  · rw [hc] at h; cases h

/-- `ioqueue_getchar` past its loop: a recorded producer is woken. -/
theorem Inv.finish_getchar {s : IoSys T} (hi : s.Inv) {t : T} (hpc : s.pc t = .idle)
    (hempty : s.queue.ioqueueEmpty = false) :
    ∃ s', s.finish t .getchar = .ok s' ∧ s'.Inv ∧ s'.pc t = .idle ∧ Woken s s' .getchar := by
  have hc : s.queue.sleepingConsumer = none := by
    by_contra h
    rw [hi.recorded.1 h] at hempty
    cases hempty
  cases hp : s.queue.sleepingProducer with
  | none =>
    refine ⟨_, ?_, hi.unrecorded (fun w => by cases w <;> assumption) hpc
      { s.queue with tail := ptrNextPos s.queue.tail } rfl (fun w => by cases w <;> rfl)
      (Function.update s.received t (s.received t ++ [s.queue.buf s.queue.tail])), by simp, hp, fun p h => ?_⟩
    · simp [finish, hp]
    · rw [hp] at h; cases h
  | some u =>
    have hu : s.queue.waiter .sleepingProducer = some u := hp
    obtain ⟨op, -, -, hs, -⟩ := hi.of_waiter hu
    refine ⟨_, ?_, hi.wakeup hu hpc { s.queue with tail := ptrNextPos s.queue.tail } rfl
      (fun w => by cases w <;> rfl) (Function.update s.received t (s.received t ++ [s.queue.buf s.queue.tail])),
      by simp, rfl, fun p h => ?_⟩
    · simp [finish, hp, ioqueueWakeup, IoQueue.waiter, unblockThread, hs, TaskStatus.asleep]
    · rw [hp] at h
      cases h
      simp

/-! ## Whole events -/

/-- An operation from its loop test, by a thread outside both operations. -/
theorem Inv.loop {s : IoSys T} (hi : s.Inv) {t : T} (ht : s.status t = .ready) (hpc : s.pc t = .idle)
    (op : Op) (hsafe : ∀ byte, op = .putchar byte → s.queue.ioqueueFull = false →
      s.queue.sleepingConsumer = none) :
    ∃ s', s.loop t op = .ok s' ∧ s'.Inv ∧ (s'.pc t = .idle → Woken s s' op) := by
  unfold IoSys.loop
  cases hm : op.mustWait s.queue with
  | true =>
    rcases hi.lock with hf | ⟨o, oop, hh⟩
    · refine ⟨s.slept t op, ?_, hi.slept hf ht hm, by simp [IoSys.slept]⟩
      simp [sysLockLock, hf.holder, afterLock_free hf]
    · have hne : t ≠ o := by
        rintro rfl
        rw [hh.pc] at hpc
        cases hpc
      refine ⟨s.queued t op, ?_, hi.queued hh ht hne op, by simp [IoSys.queued]⟩
      simp [sysLockLock, hh.holder, hne.symm, afterLock_held hh.value (hi.not_mem ht)]
  | false =>
    cases op with
    | putchar byte =>
      obtain ⟨s', h1, h2, -, h4⟩ := hi.finish_putchar (t := t) hpc hm (hsafe byte rfl hm)
      exact ⟨s', by simpa using h1, h2, fun _ => h4⟩
    | getchar =>
      obtain ⟨s', h1, h2, -, h4⟩ := hi.finish_getchar (t := t) hpc hm
      exact ⟨s', by simpa using h1, h2, fun _ => h4⟩

theorem loop_pc (s : IoSys T) (t : T) (op : Op) (p : Pc) :
    IoSys.loop { s with pc := Function.update s.pc t p } t op = s.loop t op := by
  unfold IoSys.loop
  congr 1
  · rcases sysLockLock s.queue.lock s.status t with _ | ⟨l, st, d⟩
    · rfl
    · cases d <;> simp [afterLock, ioqueueBlock]
  · cases op <;> simp [finish, ioqueueWakeup]

theorem Inv.unlock {s : IoSys T} (hi : s.Inv) {t : T} (ht : s.status t = .ready) {op : Op}
    (hpc : s.pc t = .asleep op) :
    ∃ lock status, sysLockUnlock s.queue.lock s.status t = some (lock, status) ∧
      (∀ w, s.queue.waiter w = none) ∧ status t = .ready ∧
      Inv { s with queue := { s.queue with lock := lock }, status := status
                   pc := Function.update s.pc t .idle } := by
  rcases hi.lock with hf | ⟨o, oop, hh⟩
  · exact absurd hpc (hf.asleep t op)
  obtain rfl := hh.asleep t op hpc
  have hw : ∀ w, s.queue.waiter w = none := by
    intro w
    rcases hh.record with ⟨-, hs, -⟩ | ⟨hr, -⟩
    · rw [ht] at hs; cases hs
    · by_cases h : w = oop.waiter
      · rw [h]; exact hr
      · exact hh.waiter w h
  have hsleep : ∀ u ∈ s.queue.lock.semaphore.waitingThreadList, (s.status u).asleep = true := by
    intro u hu
    rw [((hi.waits.mem u).1 hu).1]
    rfl
  have hnoasleep : ∀ u op', Function.update s.pc t Pc.idle u ≠ .asleep op' := by
    intro u op'
    by_cases hu : u = t
    · simp [hu]
    · rw [Function.update_of_ne hu]
      exact fun h => hu (hh.asleep u op' h)
  obtain ⟨⟨sem, status⟩, hr⟩ := Semaphore.up_isSome hsleep
  refine ⟨⟨none, sem, 0⟩, status, by simp [sysLockUnlock, hh.holder, hh.sum, hr], hw, ?_⟩
  have hval : (s.queue.lock.semaphore.value + 1) % 256 = 1 := by rw [hh.value]
  rcases Semaphore.up_cases hr with ⟨hl, rfl, rfl⟩ | ⟨v, rest, hl, -, rfl, rfl⟩
  · refine ⟨ht, ⟨fun u => ?_, by simp⟩, .inl ⟨rfl, hval, rfl, hnoasleep, fun w => by simpa using hw w⟩⟩
    have := hi.waits.mem u
    rw [hl] at this
    by_cases hu : u = t
    · simp [hu]
    · simpa [hu] using this
  · have hv := (hi.waits.mem v).1 (by simp [hl])
    have hvt : v ≠ t := by
      rintro rfl
      rw [ht] at hv
      cases hv.1
    have hnd := hi.waits.nodup
    rw [hl, List.nodup_cons] at hnd
    refine ⟨by simp [Function.update_of_ne hvt.symm, ht], ⟨fun u => ?_, hnd.2⟩,
      .inl ⟨rfl, hval, rfl, hnoasleep, fun w => by simpa using hw w⟩⟩
    have := hi.waits.mem u
    rw [hl] at this
    by_cases huv : u = v
    · simp [huv, hnd.1]
    · by_cases hut : u = t
      · subst hut
        simp only [List.mem_cons, huv, false_or, ht] at this
        simp [huv, this, ht]
      · simpa [huv, hut] using this

theorem Inv.exec {s : IoSys T} (hi : s.Inv) {e : Event T} (he : s.Enabled e) (hsafe : s.Safe e) :
    ∃ s', s.exec e = .ok s' ∧ s'.Inv ∧ ∀ op, e.op s = some op → s'.pc e.thread = .idle → Woken s s' op := by
  cases e with
  | call t op =>
    obtain ⟨s', h1, h2, h3⟩ := hi.loop he.1 he.2 op (by
      rintro byte rfl
      exact hsafe)
    refine ⟨s', h1, h2, fun op' hop => ?_⟩
    cases hop
    exact h3
  | resume t =>
    obtain ⟨ht, hne⟩ := he
    cases hpc : s.pc t with
    | idle => exact absurd hpc hne
    | lockWait op =>
      simp only [Safe, hpc] at hsafe
      simp only [IoSys.exec, hpc, Event.thread]
      rcases hi.lock with hf | ⟨o, oop, hh⟩
      · exact ⟨s.slept t op, afterLock_free hf t op,
          hi.slept hf ht (hsafe (by rw [hf.value]; decide)), fun _ _ h => by simp [IoSys.slept] at h⟩
      · have hto : t ≠ o := by
          rintro rfl
          rw [hh.pc] at hpc
          cases hpc
        exact ⟨s.queued t op, afterLock_held hh.value (hi.not_mem ht) op, hi.queued hh ht hto op,
          fun _ _ h => by simp [IoSys.queued] at h⟩
    | asleep op =>
      obtain ⟨lock, status, hu, hw, ht', hi'⟩ := hi.unlock ht hpc
      obtain ⟨s', h1, h2, h3⟩ := hi'.loop (t := t) ht' (by simp) op (fun _ _ _ =>
        hw .sleepingConsumer)
      rw [loop_pc { s with queue := { s.queue with lock := lock }, status := status }] at h1
      refine ⟨s', by simp only [IoSys.exec, hpc, hu, h1], h2, fun op' hop hidle => ?_⟩
      simp only [Event.op, hpc, Option.some.injEq] at hop
      subst hop
      have := h3 hidle
      cases op with
      | putchar byte => exact this
      | getchar => exact this

theorem Inv.not_meets {s : IoSys T} (hi : s.Inv) {e : Event T} (he : s.Enabled e) (hbad : ¬ s.Safe e) :
    ¬ s.Meets e := by
  rintro ⟨s', hexec, hrec, -⟩
  cases e with
  | call t op =>
    cases op with
    | getchar => exact hbad trivial
    | putchar byte =>
      simp only [Safe, Classical.not_imp] at hbad
      obtain ⟨hfull, hc⟩ := hbad
      -- a recorded consumer holds the lock, so no producer is recorded
      obtain ⟨c, hc⟩ := Option.ne_none_iff_exists'.1 hc
      obtain ⟨op, hh, hw, -⟩ := hi.of_waiter (w := .sleepingConsumer) hc
      have hp : s.queue.sleepingProducer = none := hh.waiter .sleepingProducer (by rw [← hw]; decide)
      simp [IoSys.exec, IoSys.loop, Op.mustWait, hfull, finish, hc, ioqueueWakeup, IoQueue.waiter, hp] at hexec
  | resume t =>
    obtain ⟨ht, hne⟩ := he
    cases hpc : s.pc t with
    | idle => exact hne hpc
    | lockWait op =>
      simp only [Safe, hpc, Classical.not_imp] at hbad
      obtain ⟨hv, hm⟩ := hbad
      rcases hi.lock with hf | ⟨o, oop, hh⟩
      · simp only [IoSys.exec, hpc, afterLock_free hf, Except.ok.injEq] at hexec
        subst hexec
        cases op with
        | putchar byte => exact hm (hrec.2 (by simp [IoSys.slept, Op.waiter, IoQueue.setWaiter]))
        | getchar => exact hm (hrec.1 (by simp [IoSys.slept, Op.waiter, IoQueue.setWaiter]))
      · exact hv hh.value
    | asleep op =>
      obtain ⟨-, -, -, hw, -⟩ := hi.unlock ht hpc
      simp only [Safe, hpc] at hbad
      cases op with
      | getchar => exact hbad trivial
      | putchar byte => exact hbad fun _ => hw .sleepingConsumer

theorem Reached.inv {buf : Nat → UInt8} {s : IoSys T} (h : Reached Safe buf s) : s.Inv := by
  induction h with
  | init => exact inv_init buf
  | step e _ he hsafe hexec ih =>
    obtain ⟨s'', h1, h2, -⟩ := ih.exec he hsafe
    rw [h1] at hexec
    cases hexec
    exact h2

/-- **When the queue loses no wakeup.** In every run of any number of producers and consumers whose
events are all `Safe`, the records are right in every state reached, and the next event, whichever
it is, meets its specification (it fails no `ASSERT`, wakes the other side when it completes, and
leaves the records right) exactly when it is `Safe`. -/
theorem ioqueue_wakeups_iff_safe (buf : Nat → UInt8) (s : IoSys T) (h : Reached Safe buf s) :
    s.Recorded ∧ ∀ e, s.Enabled e → (s.Meets e ↔ s.Safe e) := by
  refine ⟨h.inv.recorded, fun e he => ⟨fun hm => ?_, fun hsafe => ?_⟩⟩
  · by_contra hbad
    exact h.inv.not_meets he hbad hm
  · obtain ⟨s', h1, h2, h3⟩ := h.inv.exec he hsafe
    exact ⟨s', h1, h2.recorded, h3⟩

/-- A consumer sleeps on the empty queue: the state is reached safely, and another consumer may call
`ioqueue_getchar` there. -/
theorem ioqueue_wakeups_sleeping_consumer :
    ∃ s : IoSys (Fin 2), Reached Safe (fun _ => 0) s ∧ s.queue.sleepingConsumer = some 0 ∧ s.Recorded ∧
      s.Meets (.call 1 .getchar) := by
  have h1 : Reached Safe (fun _ => 0) (slept (init fun _ => 0) (0 : Fin 2) .getchar) :=
    .step (.call 0 .getchar) .init ⟨rfl, rfl⟩ trivial rfl
  have h := ioqueue_wakeups_iff_safe (fun _ => 0) _ h1
  exact ⟨_, h1, rfl, h.1, (h.2 (.call 1 .getchar) ⟨rfl, rfl⟩).2 trivial⟩

/-- **The queue is not right for every run**: after `ioqueueInit` a consumer calls `ioqueue_getchar`
and sleeps; then a producer calls `ioqueue_putchar` and fails the `ASSERT` of `ioqueueWakeup`. -/
theorem ioqueue_putchar_wrong_waiter :
    ∃ s : IoSys (Fin 2), Reached (fun _ _ => True) (fun _ => 0) s ∧ s.Enabled (.call 1 (.putchar 97)) ∧
      s.exec (.call 1 (.putchar 97)) = .error .ioqueueWakeup := by
  have h1 : Reached (fun _ _ => True) (fun _ => 0) (slept (init fun _ => 0) (0 : Fin 2) .getchar) :=
    .step (.call 0 .getchar) .init ⟨rfl, rfl⟩ trivial rfl
  exact ⟨_, h1, ⟨rfl, rfl⟩, rfl⟩

end IoSys

end ElephantOS
