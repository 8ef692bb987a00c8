import ElephantOS.Lib.Masking
import ElephantOS.Thread.Sched

/-!
# The interrupt flag (`kernel/interrupt.c`, `thread/sync.c`, `thread/thread.c`, `lib/kernel/list.c`)

`switch_to` does not save the interrupt flag: what a thread had is in the local variables
`old_int_statu` of the functions it is in, on its own stack. Here the functions are commands of a machine
with one flag and one stack of frames for each thread.

* `disableInt`, `enableInt`, `setIntStatus` : `interrupt.c`; in a command, `disable` is
  `old = DisableInt()` and `restore` is `SetIntStatus(old)`;
* `ThreadData` : what the functions work on (the page directory and the TSS, which `ActiveProcess`
  loads, are left out);
* `Code.listInsertBefore` … `Code.intTimerHandler` : the function bodies;
* `Call`, `api` : the functions a thread may call;
* `usesLists_off` : they traverse and change the lists with interrupts off;
* `interrupt_flag_restored` : the flag at every return, at every switch and at the `ASSERT` of
  `ScheduleThread`.
-/

namespace ElephantOS
open LinkMem Masking

/-! ## `interrupt.c` -/

/-- `EnableInt`: the old status, and the new flag. -/
def enableInt (flag : IntStatus) : IntStatus × IntStatus :=
  if flag = .on then (.on, flag) else (.off, .on)

/-- `DisableInt`. -/
def disableInt (flag : IntStatus) : IntStatus × IntStatus :=
  if flag = .on then (.on, .off) else (.off, flag)

/-- `SetIntStatus`. -/
def setIntStatus (status flag : IntStatus) : IntStatus × IntStatus :=
  if status = .on then enableInt flag else disableInt flag

theorem enableInt_eq (flag : IntStatus) : enableInt flag = (flag, .on) := by
  cases flag <;> rfl

theorem disableInt_eq (flag : IntStatus) : disableInt flag = (flag, .off) := by
  cases flag <;> rfl

theorem setIntStatus_eq (status flag : IntStatus) : setIntStatus status flag = (flag, status) := by
  cases status <;> cases flag <;> rfl

/-! ## The functions -/

/-- The functions with a frame of their own. -/
inductive Fn where
  | listInsertBefore | listPush | listAppend | listRemove | listPop
  | scheduleThread | blockThread | unblockThread
  | semaphoreDown | semaphoreUp | sysLockLock | sysLockUnlock
  | intTimerHandler
  deriving DecidableEq, Repr

structure ThreadData (S : Type) where
  links : LinkStore (Node S)
  pcb : Nat → Option PCB
  threadTag : Node S
  ticks : Nat
  value : S → Nat
  holder : S → Option Nat
  holderRepeatRequestSum : S → Nat

namespace Code
variable {S : Type} [DecidableEq S]

abbrev Cmd (S : Type) := Masking.Cmd (ThreadData S) Nat (Node S) Fn

/-- `ASSERT(b)`. -/
def assert (b : Nat → ThreadData S → Bool) : Cmd S := .act fun t d => if b t d then some d else none

def seqs : List (Cmd S) → Cmd S
  | [] => .skip
  | [c] => c
  | c :: cs => .seq c (seqs cs)

/-- `ASSERT(!elem_find(plist, elem))`. -/
def assertNotFound (l : ListId S) (elem : Node S) : Cmd S :=
  assert fun _ d => elemFind Sched.traversal d.links l.list elem == some false

/-- A change of the PCB of thread `p`. -/
def setPcb (p : Nat) (f : PCB → PCB) : Cmd S :=
  .act fun _ d => (d.pcb p).map fun t => { d with pcb := Function.update d.pcb p (some (f t)) }

/-- A change of the PCB of the current thread. -/
def setCurrent (f : PCB → PCB) : Cmd S :=
  .act fun t d => (d.pcb t).map fun pcb => { d with pcb := Function.update d.pcb t (some (f pcb)) }

def status (d : ThreadData S) (p : Nat) : Option TaskStatus := (d.pcb p).map (·.status)

def listInsertBefore (before elem : Node S) : Cmd S :=
  .call .listInsertBefore (seqs [.disable,
    .act fun _ d => (ElephantOS.listInsertBefore d.links before elem).map fun links => { d with links := links },
    .restore])

def listPush (l : ListId S) (elem : Node S) : Cmd S :=
  .call .listPush (.read (fun _ d => next d.links l.list.head) fun before => listInsertBefore before elem)

def listAppend (l : ListId S) (elem : Node S) : Cmd S :=
  .call .listAppend (listInsertBefore l.list.tail elem)

def listRemove (pelem : Node S) : Cmd S :=
  .call .listRemove (seqs [.disable,
    .act fun _ d => some { d with links := ElephantOS.listRemove d.links pelem },
    .restore])

/-- `list_pop`, and what is done with the element. -/
def listPop (l : ListId S) (k : Node S → Cmd S) : Cmd S :=
  .read (fun _ d => next d.links l.list.head) fun elem => .seq (.call .listPop (listRemove elem)) (k elem)

def scheduleThread : Cmd S :=
  .call .scheduleThread (seqs [.assertOff,
    .ite (fun t d => status d t == some .running)
      (.read (fun t _ => .generalTag t) fun tag => seqs [
        assertNotFound .ready tag,
        listAppend .ready tag,
        setCurrent fun pcb => { pcb with cpuTicksLeft := pcb.priority },
        setCurrent fun pcb => { pcb with status := .ready }])
      .skip,
    assert fun _ d => !listEmpty d.links (ListId.list .ready),
    .act fun _ d => some { d with threadTag := .null },
    listPop .ready fun elem => .act fun _ d => some { d with threadTag := elem },
    .act fun _ d => d.threadTag.entry.bind fun p =>
      (d.pcb p).map fun pcb => { d with pcb := Function.update d.pcb p (some { pcb with status := .running }) },
    .switchTo fun d => d.threadTag.entry])

def blockThread (stat : TaskStatus) : Cmd S :=
  .call .blockThread (seqs [assert fun _ _ => stat.asleep,
    .disable,
    setCurrent fun pcb => { pcb with status := stat },
    scheduleThread,
    .restore])

def unblockThread (pthread : Nat) : Cmd S :=
  .call .unblockThread (seqs [.disable,
    assert fun _ d => (status d pthread).any TaskStatus.asleep,
    .ite (fun _ d => status d pthread != some .ready)
      (seqs [
        assertNotFound .ready (.generalTag pthread),
        -- the test after the `ASSERT` is for a PANIC
        assertNotFound .ready (.generalTag pthread),
        listPush .ready (.generalTag pthread),
        setPcb pthread fun pcb => { pcb with status := .ready }])
      .skip,
    .restore])

def semaphoreDown (psema : S) : Cmd S :=
  .call .semaphoreDown (seqs [.disable,
    .loop (fun _ d => d.value psema == 0)
      (.read (fun t _ => .generalTag t) fun tag => seqs [
        assertNotFound (.waiting psema) tag,
        assertNotFound (.waiting psema) tag,
        listAppend (.waiting psema) tag,
        blockThread .blockd]),
    .act fun _ d => some { d with value := Function.update d.value psema (d.value psema - 1) },
    .restore])

def semaphoreUp (psema : S) : Cmd S :=
  .call .semaphoreUp (seqs [.disable,
    .ite (fun _ d => !listEmpty d.links (ListId.list (.waiting psema)))
      (listPop (.waiting psema) fun elem =>
        match elem.entry with
        | some threadBlocked => unblockThread threadBlocked
        | none => assert fun _ _ => false)
      .skip,
    .act fun _ d => some { d with value := Function.update d.value psema ((d.value psema + 1) % 256) },
    .restore])

def setHolder (plock : S) (f : Nat → Option Nat) : Cmd S :=
  .act fun t d => some { d with holder := Function.update d.holder plock (f t) }

def setSum (plock : S) (f : Nat → Nat) : Cmd S :=
  .act fun _ d =>
    let sum := Function.update d.holderRepeatRequestSum plock (f (d.holderRepeatRequestSum plock))
    some { d with holderRepeatRequestSum := sum }

def sysLockLock (plock : S) : Cmd S :=
  .call .sysLockLock (.ite (fun t d => d.holder plock != some t)
    (seqs [
      semaphoreDown plock,
      setHolder plock some,
      assert fun _ d => d.holderRepeatRequestSum plock == 0,
      setSum plock fun _ => 1])
    (setSum plock fun n => (n + 1) % 2 ^ 32))

def sysLockUnlock (plock : S) : Cmd S :=
  .call .sysLockUnlock (.seq (assert fun t d => d.holder plock == some t)
    (.ite (fun _ d => d.holderRepeatRequestSum plock > 1)
      (setSum plock fun n => n - 1)
      (seqs [
        assert fun _ d => d.holderRepeatRequestSum plock == 1,
        setSum plock fun _ => 0,
        setHolder plock fun _ => none,
        semaphoreUp plock])))

def intTimerHandler : Cmd S :=
  .call .intTimerHandler (seqs [assert fun t d => (d.pcb t).any fun pcb => pcb.canary == stackCanary,
    setCurrent fun pcb => { pcb with cpuTicksElapsed := (pcb.cpuTicksElapsed + 1) % 256 },
    .act fun _ d => some { d with ticks := (d.ticks + 1) % 2 ^ 32 },
    .ite (fun t d => (d.pcb t).any fun pcb => pcb.cpuTicksLeft == 0)
      scheduleThread
      (setCurrent fun pcb => { pcb with cpuTicksLeft := pcb.cpuTicksLeft - 1 })])

/-! ## Every function masks interrupts and restores the flag -/

/-- The statement neither reads nor writes the lists. -/
def ListFree (g : Nat → ThreadData S → Option (ThreadData S)) : Prop :=
  ∀ t d links, g t { d with links := links } = (g t d).map fun d' => { d' with links := links }

section Keeps
variable {k m : Bool}

omit [DecidableEq S] in
theorem keeps_call {name : Fn} {body : Cmd S} (h : Keeps ListFree false body false false) :
    Keeps ListFree k (.call name body) m m :=
  ⟨rfl, .inl h⟩

omit [DecidableEq S] in
/-- Of the masked statements nothing is asked. -/
theorem keeps_masked (g : Nat → ThreadData S → Option (ThreadData S)) : Keeps ListFree k (.act g : Cmd S) true true :=
  ⟨rfl, .inl (Bool.or_true k)⟩

omit [DecidableEq S] in
theorem keeps_off (g : Nat → ThreadData S → Option (ThreadData S)) : Keeps ListFree true (.act g : Cmd S) m m :=
  ⟨rfl, .inl rfl⟩

omit [DecidableEq S] in
theorem keeps_assert {b : Nat → ThreadData S → Bool} (hb : ∀ t d links, b t { d with links := links } = b t d) :
    Keeps ListFree k (assert b) m m := by
  refine ⟨rfl, .inr fun t d links => ?_⟩
  dsimp only
  rw [hb]
  split <;> rfl

theorem keeps_setHolder (plock : S) (f : Nat → Option Nat) : Keeps ListFree k (setHolder plock f) m m :=
  ⟨rfl, .inr fun _ _ _ => rfl⟩

theorem keeps_setSum (plock : S) (f : Nat → Nat) : Keeps ListFree k (setSum plock f) m m :=
  ⟨rfl, .inr fun _ _ _ => rfl⟩

theorem keeps_listInsertBefore (before elem : Node S) : Keeps ListFree k (listInsertBefore before elem) m m := by
  apply keeps_call
  exact ⟨true, ⟨rfl, rfl⟩, true, keeps_masked _, rfl, rfl⟩

theorem keeps_listPush (l : ListId S) (elem : Node S) : Keeps ListFree k (listPush l elem) m m := by
  apply keeps_call
  intro before
  exact keeps_listInsertBefore before elem

theorem keeps_listAppend (l : ListId S) (elem : Node S) : Keeps ListFree k (listAppend l elem) m m := by
  apply keeps_call
  exact keeps_listInsertBefore _ elem

theorem keeps_listRemove (pelem : Node S) : Keeps ListFree k (listRemove pelem) m m := by
  apply keeps_call
  exact ⟨true, ⟨rfl, rfl⟩, true, keeps_masked _, rfl, rfl⟩

theorem keeps_listPop (l : ListId S) {c : Node S → Cmd S} (h : ∀ elem, Keeps ListFree k (c elem) m m) :
    Keeps ListFree k (listPop l c) m m := by
  intro elem
  exact ⟨m, keeps_call (keeps_listRemove elem), h elem⟩

/-- `ScheduleThread` wants interrupts off. -/
theorem keeps_scheduleThread (h : (k || m) = true) : Keeps ListFree k (scheduleThread (S := S)) m m := by
  refine ⟨rfl, .inr ⟨h, ?_⟩⟩
  refine ⟨false, ⟨rfl, rfl⟩, false, ⟨fun tag => ?_, rfl⟩, false, keeps_off _, false, keeps_off _, false, ?_, false,
    keeps_off _, rfl, rfl⟩
  · exact ⟨false, keeps_off _, false, keeps_listAppend _ _, false, keeps_off _, keeps_off _⟩
  · exact keeps_listPop _ fun elem => keeps_off _

theorem keeps_blockThread (stat : TaskStatus) : Keeps ListFree k (blockThread (S := S) stat) m m := by
  apply keeps_call
  exact ⟨false, keeps_assert fun _ _ _ => rfl, true, ⟨rfl, rfl⟩, true, keeps_masked _, true, keeps_scheduleThread rfl, rfl, rfl⟩

theorem keeps_unblockThread (pthread : Nat) : Keeps ListFree k (unblockThread (S := S) pthread) m m := by
  apply keeps_call
  refine ⟨true, ⟨rfl, rfl⟩, true, keeps_masked _, true, ⟨?_, rfl⟩, rfl, rfl⟩
  exact ⟨true, keeps_masked _, true, keeps_masked _, true, keeps_listPush _ _, keeps_masked _⟩

theorem keeps_semaphoreDown (psema : S) : Keeps ListFree k (semaphoreDown psema) m m := by
  apply keeps_call
  refine ⟨true, ⟨rfl, rfl⟩, true, ⟨fun tag => ?_, rfl⟩, true, keeps_masked _, rfl, rfl⟩
  exact ⟨true, keeps_masked _, true, keeps_masked _, true, keeps_listAppend _ _, keeps_blockThread _⟩

theorem keeps_semaphoreUp (psema : S) : Keeps ListFree k (semaphoreUp psema) m m := by
  apply keeps_call
  refine ⟨true, ⟨rfl, rfl⟩, true, ⟨keeps_listPop _ fun elem => ?_, rfl⟩, true, keeps_masked _, rfl, rfl⟩
  split
  · exact keeps_unblockThread _
  · exact keeps_masked _

theorem keeps_sysLockLock (plock : S) : Keeps ListFree k (sysLockLock plock) m m := by
  apply keeps_call
  refine ⟨?_, keeps_setSum _ _⟩
  exact ⟨false, keeps_semaphoreDown _, false, keeps_setHolder _ _, false, keeps_assert fun _ _ _ => rfl,
    keeps_setSum _ _⟩

theorem keeps_sysLockUnlock (plock : S) : Keeps ListFree k (sysLockUnlock plock) m m := by
  apply keeps_call
  refine ⟨false, keeps_assert fun _ _ _ => rfl, keeps_setSum _ _, ?_⟩
  exact ⟨false, keeps_assert fun _ _ _ => rfl, false, keeps_setSum _ _, false, keeps_setHolder _ _, keeps_semaphoreUp _⟩

/-- The timer handler runs with interrupts off. -/
theorem keeps_intTimerHandler : Keeps ListFree true (intTimerHandler (S := S)) false false := by
  refine ⟨rfl, .inr ⟨rfl, ?_⟩⟩
  exact ⟨false, keeps_off _, false, keeps_off _, false, keeps_off _, keeps_scheduleThread rfl, keeps_off _⟩

end Keeps

/-! ## Runs -/

/-- The calls a thread can make. -/
inductive Call (S : Type) where
  | sysLockLock (plock : S)
  | sysLockUnlock (plock : S)
  | semaphoreDown (psema : S)
  | semaphoreUp (psema : S)
  | blockThread (stat : TaskStatus)
  | unblockThread (pthread : Nat)
  | listInsertBefore (before elem : Node S)
  | listPush (l : ListId S) (elem : Node S)
  | listAppend (l : ListId S) (elem : Node S)
  | listRemove (pelem : Node S)
  | listPop (l : ListId S)

def Call.cmd : Call S → Cmd S
  | .sysLockLock plock => Code.sysLockLock plock
  | .sysLockUnlock plock => Code.sysLockUnlock plock
  | .semaphoreDown psema => Code.semaphoreDown psema
  | .semaphoreUp psema => Code.semaphoreUp psema
  | .blockThread stat => Code.blockThread stat
  | .unblockThread pthread => Code.unblockThread pthread
  | .listInsertBefore before elem => Code.listInsertBefore before elem
  | .listPush l elem => Code.listPush l elem
  | .listAppend l elem => Code.listAppend l elem
  | .listRemove pelem => Code.listRemove pelem
  | .listPop l => Code.listPop l fun _ => .skip

theorem Call.keeps (c : Call S) : Keeps ListFree false c.cmd false false := by
  cases c with
  | sysLockLock plock => exact keeps_sysLockLock plock
  | sysLockUnlock plock => exact keeps_sysLockUnlock plock
  | semaphoreDown psema => exact keeps_semaphoreDown psema
  | semaphoreUp psema => exact keeps_semaphoreUp psema
  | blockThread stat => exact keeps_blockThread stat
  | unblockThread pthread => exact keeps_unblockThread pthread
  | listInsertBefore before elem => exact keeps_listInsertBefore before elem
  | listPush l elem => exact keeps_listPush l elem
  | listAppend l elem => exact keeps_listAppend l elem
  | listRemove pelem => exact keeps_listRemove pelem
  | listPop l => exact keeps_listPop l fun _ => rfl

/-- The states of the runs in which the threads make any calls, change the flag between them, and are
interrupted by the timer. -/
abbrev Reachable : Machine (ThreadData S) Nat (Node S) Fn → Prop := Machine.Reachable Call.cmd intTimerHandler

theorem Reachable.inv {s : Machine (ThreadData S) Nat (Node S) Fn} (h : Reachable s) : s.Inv ListFree :=
  Machine.Reachable.inv h Call.keeps keeps_intTimerHandler

/-- Every function returns with the interrupt flag it was called with, and every `switch_to` and the
`ASSERT` of `ScheduleThread` find interrupts off. -/
theorem interrupt_flag_restored (s : Machine (ThreadData S) Nat (Node S) Fn) (h : Reachable s) :
    (∀ f fs name, s.stack s.current = f :: fs → f.kind = .fn name → f.todo = [] → s.flag = f.entry) ∧
    (∀ f fs next cs, s.stack s.current = f :: fs → f.todo = .switchTo next :: cs → s.flag = .off) ∧
    (∀ f fs cs, s.stack s.current = f :: fs → f.todo = .assertOff :: cs → s.flag = .off) := by
  have hi := Code.Reachable.inv h
  refine ⟨fun f fs name hstack hname htodo => ?_, fun f fs next cs hstack htodo => ?_,
    fun f fs cs hstack htodo => ?_⟩
  · exact hi.flag_eq_entry hstack hname htodo
  · exact hi.flag_off hstack htodo fun k m m' hc => hc.2
  · exact hi.flag_off hstack htodo fun k m m' hc => hc.2

/-- The statement a function is about to execute uses the lists: it traverses one, or changes one. -/
def UsesLists (s : Machine (ThreadData S) Nat (Node S) Fn) : Prop :=
  ∃ f fs g cs, s.stack s.current = f :: fs ∧ f.todo = .act g :: cs ∧ ¬ ListFree g

/-- The functions use the lists with interrupts off only, whatever the flag at their calls. -/
theorem usesLists_off {s : Machine (ThreadData S) Nat (Node S) Fn} (h : Reachable s) (hu : UsesLists s) : s.flag = .off := by
  obtain ⟨f, fs, g, cs, hstack, htodo, hg⟩ := hu
  exact (Code.Reachable.inv h).flag_off hstack htodo fun k m m' hc => hc.2.resolve_right hg

/-- The main thread blocks in `SemaphoreDown`, called with interrupts on; the other thread runs, with
interrupts on, and wakes it; the main thread is about to return. -/
theorem interrupt_flag_restored_blocked :
    ∃ (s : Machine (ThreadData Unit) Nat (Node Unit) Fn) (f : Frame (ThreadData Unit) Nat (Node Unit) Fn)
      (fs : List (Frame (ThreadData Unit) Nat (Node Unit) Fn)), Reachable s ∧ s.current = Sched.mainPage ∧
      s.stack s.current = f :: fs ∧ f.kind = .fn .semaphoreDown ∧ f.entry = .on ∧ s.flag = f.entry := by
  let es : List (Machine.Event (ThreadData Unit) (Call Unit)) :=
    .call (.semaphoreDown ()) :: List.replicate 55 .exec ++ .call (.semaphoreUp ()) :: List.replicate 46 .exec ++
      .interrupt :: List.replicate 56 .exec
  have hfacts : ∃ s : Sched Unit,
      (Sched.threadInit (fun _ : Unit => 0)).bind (·.threadStart 0xC0100000 0) = .ok s ∧
      (((Machine.init .on Sched.mainPage ⟨s.links, s.pcb, .null, 0, s.value, fun _ => none, fun _ => 0⟩).run
        Call.cmd intTimerHandler es).map fun m => (m.current, (m.stack m.current).head?.map fun f =>
          (f.kind, f.entry, f.todo.isEmpty))) = some (Sched.mainPage, some (.fn .semaphoreDown, .on, true)) :=
    ⟨_, rfl, by decide +kernel⟩
  obtain ⟨sched, -, hmap⟩ := hfacts
  obtain ⟨s, hrun, hs⟩ := Option.map_eq_some_iff.1 hmap
  obtain ⟨hcur, htop⟩ := Prod.mk.inj hs
  obtain ⟨f, hhead, hf⟩ := Option.map_eq_some_iff.1 htop
  obtain ⟨fs, hstack⟩ := List.head?_eq_some_iff.1 hhead
  simp only [Prod.mk.injEq, List.isEmpty_iff] at hf
  obtain ⟨hkind, hentry, htodo⟩ := hf
  have hreach : Reachable s := (Machine.Reachable.init .on Sched.mainPage _).run hrun
  exact ⟨s, f, fs, hreach, hcur, hstack, hkind, hentry,
    (interrupt_flag_restored s hreach).1 f fs .semaphoreDown hstack hkind htodo⟩

end Code

end ElephantOS
