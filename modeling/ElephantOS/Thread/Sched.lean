import ElephantOS.Kernel.List
import ElephantOS.Lib.Except
import ElephantOS.Thread.Semaphore

/-!
# The scheduler (`thread/thread.c`, `thread/sync.c`, `device/timer.c`)

Threads are named by the address of their PCB page, semaphores by any type `S`. Every list is an
intrusive list: `ready_thread_list` and the waiting lists are threaded through `general_tag`,
`all_thread_list` through `all_list_tag`.

* `Node`, `ListId` : the addresses of the list nodes, and the lists;
* `PCB`, `initThread`, `threadCreate` : the fields of `task_struct` that the scheduler and the memory
  manager read (`name` and the stack contents are left out);
* `Sched` : the state; `inDown p` is the semaphore whose `SemaphoreDown` thread `p` was switched out
  of, and whose loop it continues when it runs again;
* `scheduleThread` … `semaphoreUp`, `intTimerHandler` : the functions, by the current thread, with
  interrupts off;
* `Event`, `Sched.step` : what happens between two switches.
-/

namespace ElephantOS
open LinkMem

/-- The lists: of ready threads, of all threads, and of those waiting for a semaphore. -/
inductive ListId (S : Type) where
  | ready
  | all
  | waiting (psema : S)
  deriving DecidableEq

/-- Addresses of list nodes: sentinels and the two tags of a PCB. -/
inductive Node (S : Type) where
  | null
  | head (l : ListId S)
  | tail (l : ListId S)
  | generalTag (pthread : Nat)
  | allListTag (pthread : Nat)
  deriving DecidableEq

instance {S : Type} : Zero (Node S) := ⟨.null⟩

def ListId.list {S : Type} (l : ListId S) : KList (Node S) := ⟨.head l, .tail l⟩

/-- `elem2entry(PCB, general_tag, elem)`. -/
def Node.entry {S : Type} : Node S → Option Nat
  | .generalTag p => some p
  | _ => none

/-- `struct virtual_addr`. -/
structure VirtualAddr where
  bitmapBytesLen : Nat
  bits : Nat
  vaddrStart : Nat
  deriving DecidableEq, Repr

/-- `struct task_struct`. -/
structure PCB where
  selfKernelStack : Nat
  pid : Nat
  status : TaskStatus
  priority : Nat
  cpuTicksLeft : Nat
  cpuTicksElapsed : Nat
  pdeAddr : Nat
  userprogVaddr : VirtualAddr
  canary : Nat
  deriving DecidableEq, Repr

def stackCanary : Nat := 0x32512332

/-- `InitThread`, with the pid `AllocatePid` returns. -/
def initThread (mainThread pthread pid : Nat) (priority : Int) : PCB where
  selfKernelStack := (pthread + 4096) % 2 ^ 32
  pid := pid
  status := if pthread = mainThread then .running else .ready
  priority := (priority % 256).toNat
  cpuTicksLeft := (priority % 256).toNat
  cpuTicksElapsed := 0
  pdeAddr := 0
  userprogVaddr := ⟨0, 0, 0⟩
  canary := stackCanary

/-- `ThreadCreate`: both subtractions are on a `uint32_t*`, so they count words
(`sizeof(struct INT_stack)` is 76, `sizeof(struct thread_stack)` is 32). -/
def threadCreate (t : PCB) : PCB :=
  { t with selfKernelStack := (t.selfKernelStack + 2 ^ 32 - 4 * 76 - 4 * 32) % 2 ^ 32 }

/-- What `ExecProcess` makes of an initialised PCB: the user address space from 0x8048000 to
0xC0000000 with its bitmap at `bits` (`CreatUserVaddrBitmap`), the thread stack and the directory. -/
def processPcb (t : PCB) (bits pde : Nat) : PCB :=
  { threadCreate { t with userprogVaddr := ⟨(0xC0000000 - 0x8048000) / 4096 / 8, bits, 0x8048000⟩ } with
    pdeAddr := pde }

/-- Why a function does not return. -/
inductive Stop where
  /-- an `ASSERT` on `elem_find`, or inside it, fails -/
  | elemFind
  /-- `ASSERT(!list_empty(&ready_thread_list))` in `ScheduleThread` -/
  | noReadyThread
  /-- `ASSERT(elem != NULL)` in `list_insert_before` -/
  | nullElem
  /-- a pointer that is not to a PCB -/
  | wildPcb
  /-- `ASSERT` on the argument of `BlockThread` -/
  | blockStatus
  /-- `ASSERT` on the status in `UnblockThread` -/
  | unblockStatus
  /-- `ASSERT(current_thread->canary == STACK_CANARY)` -/
  | canary
  /-- `ASSERT` on a result of `kpalloc` in `ExecProcess` -/
  | noMemory
  deriving DecidableEq, Repr

structure Sched (S : Type) where
  links : LinkStore (Node S)
  pcb : Nat → Option PCB
  current : Nat
  mainThread : Nat
  nextPid : Nat
  ticks : Nat
  value : S → Nat
  inDown : Nat → Option S

namespace Sched
variable {S : Type} [DecidableEq S]

/-- More nodes than a 32-bit address space has. -/
def traversal : Nat := 2 ^ 32

def setPcb (s : Sched S) (p : Nat) (t : PCB) : Sched S :=
  { s with pcb := Function.update s.pcb p (some t) }

def getPcb (s : Sched S) (p : Nat) : Except Stop PCB :=
  match s.pcb p with
  | some t => .ok t
  | none => .error .wildPcb

/-- `ASSERT(!elem_find(plist, elem))`. -/
def assertNotFound (s : Sched S) (l : ListId S) (elem : Node S) : Except Stop Unit :=
  match elemFind traversal s.links l.list elem with
  | some false => .ok ()
  | _ => .error .elemFind

def append (s : Sched S) (l : ListId S) (elem : Node S) : Except Stop (Sched S) :=
  match listAppend s.links l.list elem with
  | some links => .ok { s with links := links }
  | none => .error .nullElem

def push (s : Sched S) (l : ListId S) (elem : Node S) : Except Stop (Sched S) :=
  match listPush s.links l.list elem with
  | some links => .ok { s with links := links }
  | none => .error .nullElem

/-- `list_pop` of a list of general tags, and the thread the tag belongs to. -/
def pop (s : Sched S) (l : ListId S) : Except Stop (Sched S × Nat) :=
  match (listPop s.links l.list).2.entry with
  | some p => .ok ({ s with links := (listPop s.links l.list).1 }, p)
  | none => .error .wildPcb

/-- The first half of `ScheduleThread`: a thread whose time is over goes to the end of the ready
list. -/
def requeue (s : Sched S) : Except Stop (Sched S) := do
  let t ← s.getPcb s.current
  if t.status = .running then
    s.assertNotFound .ready (.generalTag s.current)
    let s ← s.append .ready (.generalTag s.current)
    return s.setPcb s.current { t with cpuTicksLeft := t.priority, status := .ready }
  else
    return s

/-- The second half of `ScheduleThread`: the first ready thread gets the CPU. -/
def dispatch (s : Sched S) : Except Stop (Sched S) := do
  if listEmpty s.links (ListId.list .ready) then throw .noReadyThread
  let (s, next) ← s.pop .ready
  let t ← s.getPcb next
  return { s.setPcb next { t with status := .running } with current := next }

def scheduleThread (s : Sched S) : Except Stop (Sched S) := do
  let s ← s.requeue
  s.dispatch

/-- The end of `ThreadStart` and of `ExecProcess`: the new thread enters both lists. -/
def enlist (s : Sched S) (p : Nat) : Except Stop (Sched S) := do
  s.assertNotFound .ready (.generalTag p)
  let s ← s.append .ready (.generalTag p)
  s.assertNotFound .all (.allListTag p)
  s.append .all (.allListTag p)

/-- `InitThread` on the page `p`; `AllocatePid` increments a `uint16_t`. -/
def init (s : Sched S) (p : Nat) (priority : Int) : Sched S :=
  let pid := (s.nextPid + 1) % 65536
  { s with nextPid := pid, pcb := Function.update s.pcb p (some (initThread s.mainThread p pid priority)) }

/-- `ThreadStart` once `kpalloc(1)` has returned the page `p`. -/
def threadStart (s : Sched S) (p : Nat) (priority : Int) : Except Stop (Sched S) := do
  let s := s.init p priority
  let t ← s.getPcb p
  (s.setPcb p (threadCreate t)).enlist p

/-- `ExecProcess` with the results of its calls of `kpalloc`: the PCB page `p`, the bitmap `bits` of
`CreatUserVaddrBitmap` and the directory `pde` of `CreatPDE`. -/
def execProcess (s : Sched S) (p bits pde : Nat) : Except Stop (Sched S) := do
  let s := s.init p 31
  let t ← s.getPcb p
  if bits = 0 then throw .noMemory
  if pde = 0 then throw .noMemory
  (s.setPcb p (processPcb t bits pde)).enlist p

/-- `BlockThread`. -/
def blockThread (s : Sched S) (stat : TaskStatus) : Except Stop (Sched S) := do
  if !stat.asleep then throw .blockStatus
  let t ← s.getPcb s.current
  (s.setPcb s.current { t with status := stat }).scheduleThread

/-- `UnblockThread`. Past its `ASSERT`s the status is not TASK_READY and the thread not in the ready
list, so the tests that follow them do not fail. -/
def unblockThread (s : Sched S) (p : Nat) : Except Stop (Sched S) := do
  let t ← s.getPcb p
  if !t.status.asleep then throw .unblockStatus
  s.assertNotFound .ready (.generalTag p)
  let s ← s.push .ready (.generalTag p)
  return s.setPcb p { t with status := .ready }

/-- One pass of the loop of `SemaphoreDown`, from the test of `value` on. -/
def semaphoreDown (s : Sched S) (psema : S) : Except Stop (Sched S) := do
  if s.value psema = 0 then
    s.assertNotFound (.waiting psema) (.generalTag s.current)
    let s ← s.append (.waiting psema) (.generalTag s.current)
    let s := { s with inDown := Function.update s.inDown s.current (some psema) }
    s.blockThread .blockd
  else
    return { s with value := Function.update s.value psema (s.value psema - 1)
                    inDown := Function.update s.inDown s.current none }

/-- `SemaphoreUp`; `value` is a `uint8_t`. -/
def semaphoreUp (s : Sched S) (psema : S) : Except Stop (Sched S) := do
  let s ← if listEmpty s.links (ListId.list (.waiting psema)) then pure s
    else do
      let (s, threadBlocked) ← s.pop (.waiting psema)
      s.unblockThread threadBlocked
  return { s with value := Function.update s.value psema ((s.value psema + 1) % 256) }

/-- `IntTimerHandler`. -/
def intTimerHandler (s : Sched S) : Except Stop (Sched S) := do
  let t ← s.getPcb s.current
  if t.canary ≠ stackCanary then throw .canary
  let t := { t with cpuTicksElapsed := (t.cpuTicksElapsed + 1) % 256 }
  let s := { s with ticks := (s.ticks + 1) % 2 ^ 32 }
  if t.cpuTicksLeft = 0 then (s.setPcb s.current t).scheduleThread
  else return s.setPcb s.current { t with cpuTicksLeft := t.cpuTicksLeft - 1 }

/-- Before `ThreadInit`: every semaphore has been through `SemaphoreInit`. -/
def semaphoreLists : LinkStore (Node S) where
  node
    | .head (.waiting σ) => ⟨.null, .tail (.waiting σ)⟩
    | .tail (.waiting σ) => ⟨.head (.waiting σ), .null⟩
    | _ => ⟨.null, .null⟩

/-- The page of the stack the kernel starts on. -/
def mainPage : Nat := 0xC009E000

/-- `ThreadInit`, with the semaphores at the given values. -/
def threadInit (value : S → Nat) : Except Stop (Sched S) := do
  let links := listInit semaphoreLists (ListId.list (S := S) .ready)
  let links := listInit links (ListId.list .all)
  let s : Sched S := ⟨links, fun _ => none, mainPage, mainPage, 0, 0, value, fun _ => none⟩
  let s := s.init mainPage 31
  s.assertNotFound .all (.allListTag mainPage)
  s.append .all (.allListTag mainPage)

/-! ## Events -/

/-- What the current thread, or the timer, does next. -/
inductive Event (S : Type) where
  | threadStart (p : Nat) (priority : Int)
  | execProcess (p bits pde : Nat)
  | timer
  | block (stat : TaskStatus)
  | unblock (p : Nat)
  | down (psema : S)
  | up (psema : S)
  /-- back from the `BlockThread` inside `SemaphoreDown` -/
  | retest

def step (s : Sched S) : Event S → Except Stop (Sched S)
  | .threadStart p priority => s.threadStart p priority
  | .execProcess p bits pde => s.execProcess p bits pde
  | .timer => s.intTimerHandler
  | .block stat => s.blockThread stat
  | .unblock p => s.unblockThread p
  | .down psema => s.semaphoreDown psema
  | .up psema => s.semaphoreUp psema
  | .retest => match s.inDown s.current with
    | some psema => s.semaphoreDown psema
    | none => .ok s

/-- A page `kpalloc` can return for a new PCB. -/
structure FreshPage (s : Sched S) (p : Nat) : Prop where
  unused : s.pcb p = none
  heap : 0xC0100000 ≤ p
  aligned : p % 4096 = 0
  small : p < 2 ^ 32

instance (s : Sched S) (p : Nat) : Decidable (s.FreshPage p) :=
  decidable_of_iff (s.pcb p = none ∧ 0xC0100000 ≤ p ∧ p % 4096 = 0 ∧ p < 2 ^ 32)
    ⟨fun h => ⟨h.1, h.2.1, h.2.2.1, h.2.2.2⟩, fun h => ⟨h.unused, h.heap, h.aligned, h.small⟩⟩

/-- When an event can happen. A thread that comes back into `SemaphoreDown` has interrupts off and
can only test `value` again; `unblock` is for threads that went to sleep by a `BlockThread` of their
own. -/
def Enabled (s : Sched S) : Event S → Prop
  | .threadStart p _ => s.inDown s.current = none ∧ FreshPage s p
  | .execProcess p _ _ => s.inDown s.current = none ∧ FreshPage s p
  | .timer => s.inDown s.current = none
  | .block _ => s.inDown s.current = none
  | .unblock p => s.inDown s.current = none ∧ s.inDown p = none ∧
      ∃ t, s.pcb p = some t ∧ t.status.asleep = true
  | .down _ => s.inDown s.current = none
  | .up _ => s.inDown s.current = none
  | .retest => s.inDown s.current ≠ none

/-- The states of the runs from `ThreadInit`. -/
inductive Reachable (value : S → Nat) : Sched S → Prop
  | init {s : Sched S} : threadInit value = .ok s → Reachable value s
  | step {s s' : Sched S} {e : Event S} : Reachable value s → Enabled s e → s.step e = .ok s' →
      Reachable value s'

end Sched

end ElephantOS
