import ElephantOS.Lib.Bytes

/-!
# The context switch (`thread/switch.S`, `thread/thread.c`)

Threads are named by the address of their PCB page, whose first word is `self_kernel_stack`.

* `Instr`, `Cpu` : the instructions of `switch.S` over a flat memory; `switchTo` : `switch_to`, from its
  first instruction to after its `ret`;
* `initThread`, `threadCreate` : the stack of a new thread, with the layout of `struct thread_stack`;
* `Switching` : one CPU and its threads; the ghost `last q` is how the switched-out thread `q` got there,
  by a call of `switch_to` from the given CPU state or by `ThreadCreate`;
* `Resumes` : the CPU continues a thread where it was left.
-/

namespace ElephantOS.Context
open Bytes

inductive Reg where
  | eax | ebx | esi | edi | ebp | esp
  deriving DecidableEq, Repr

structure Cpu where
  regs : Reg → Word
  eip : Word
  mem : Mem

namespace Cpu

def set (c : Cpu) (r : Reg) (v : Word) : Cpu := { c with regs := Function.update c.regs r v }

@[simp] theorem set_self (c : Cpu) (r : Reg) (v : Word) : (c.set r v).regs r = v := by simp [set]

@[simp] theorem set_mem (c : Cpu) (r : Reg) (v : Word) : (c.set r v).mem = c.mem := rfl

@[simp] theorem set_eip (c : Cpu) (r : Reg) (v : Word) : (c.set r v).eip = c.eip := rfl

theorem set_ne (c : Cpu) {r r' : Reg} (v : Word) (h : r' ≠ r) : (c.set r v).regs r' = c.regs r' := by
  simp [set, h]

end Cpu

/-- The instructions of `switch.S`. -/
inductive Instr where
  | push (r : Reg)
  | pop (r : Reg)
  /-- `mov dst,[base + off]` -/
  | load (dst base : Reg) (off : Word)
  /-- `mov [base],src` -/
  | store (base src : Reg)
  | ret

def Instr.exec (c : Cpu) : Instr → Cpu
  | .push r =>
    let sp := c.regs .esp - 4
    { c.set .esp sp with mem := Bytes.store c.mem sp (c.regs r) }
  | .pop r => (c.set .esp (c.regs .esp + 4)).set r (Bytes.load c.mem (c.regs .esp))
  | .load dst base off => c.set dst (Bytes.load c.mem (c.regs base + off))
  | .store base src => { c with mem := Bytes.store c.mem (c.regs base) (c.regs src) }
  | .ret => { c.set .esp (c.regs .esp + 4) with eip := Bytes.load c.mem (c.regs .esp) }

theorem exec_push_mem (c : Cpu) (r : Reg) :
    (Instr.exec c (.push r)).mem = store c.mem (c.regs .esp - 4) (c.regs r) := rfl

theorem exec_push_esp (c : Cpu) (r : Reg) : (Instr.exec c (.push r)).regs .esp = c.regs .esp - 4 := by
  simp only [Instr.exec, Cpu.set_self]

theorem exec_push_ne (c : Cpu) (r : Reg) {r' : Reg} (h : r' ≠ .esp) : (Instr.exec c (.push r)).regs r' = c.regs r' :=
  c.set_ne _ h

theorem exec_load_ne (c : Cpu) (dst base : Reg) (off : Word) {r : Reg} (h : r ≠ dst) :
    (Instr.exec c (.load dst base off)).regs r = c.regs r := c.set_ne _ h

theorem exec_load_self (c : Cpu) (dst base : Reg) (off : Word) :
    (Instr.exec c (.load dst base off)).regs dst = load c.mem (c.regs base + off) := by
  simp only [Instr.exec, Cpu.set_self]

theorem exec_load_mem (c : Cpu) (dst base : Reg) (off : Word) : (Instr.exec c (.load dst base off)).mem = c.mem := rfl

theorem exec_store_mem (c : Cpu) (base src : Reg) :
    (Instr.exec c (.store base src)).mem = store c.mem (c.regs base) (c.regs src) := rfl

theorem exec_store_regs (c : Cpu) (base src : Reg) : (Instr.exec c (.store base src)).regs = c.regs := rfl

/-- The text of `switch_to`. -/
def switchToCode : List Instr :=
  [.push .esi, .push .edi, .push .ebx, .push .ebp,
   .load .eax .esp 20, .store .eax .esp,
   .load .eax .esp 24, .load .esp .eax 0,
   .pop .ebp, .pop .ebx, .pop .edi, .pop .esi, .ret]

def switchTo (c : Cpu) : Cpu := switchToCode.foldl Instr.exec c

/-! ## New threads -/

/-- `sizeof(struct task_struct)`. -/
def pcbSize : Nat := 236

/-- `InitThread`: `self_kernel_stack` is the end of the page; `pcb` is what the other assignments leave
in the PCB. -/
def initThread (pcb m : Mem) (pthread : Word) : Mem :=
  store (fun b => if (b - pthread).toNat < pcbSize then pcb b else m b) pthread (pthread + 4096)

/-- `pthread->self_kernel_stack -= n`, on a `uint32_t*`. -/
def lowerStack (m : Mem) (pthread n : Word) : Mem := store m pthread (load m pthread - 4 * n)

/-- `ThreadCreate`. The offsets are those of the fields of `struct thread_stack`; `ebp` is assigned
twice, `ebx` and `dummy_ret` are not. -/
def threadCreate (kernelThread : Word) (m : Mem) (pthread function funcArg : Word) : Mem :=
  let m := lowerStack m pthread 76
  let m := lowerStack m pthread 32
  let kernelStack := load m pthread
  let m := store m (kernelStack + 16) kernelThread
  let m := store m (kernelStack + 24) function
  let m := store m (kernelStack + 28) funcArg
  let m := store m (kernelStack + 8) 0
  let m := store m (kernelStack + 12) 0
  let m := store m kernelStack 0
  store m kernelStack 0

/-! ## The threads -/

/-- How a thread came to be switched out. -/
inductive Origin where
  /-- by its call of `switch_to`, entered with this CPU state -/
  | called (c : Cpu)
  /-- by `ThreadCreate(pthread, function, funcArg)` -/
  | created (function funcArg : Word)

structure Switching where
  cpu : Cpu
  current : Word
  last : Word → Option Origin

/-- The stack of thread `q` on entry to `switch_to`: the four registers it pushes, the return address
and the two arguments are in the page of `q`, above the word `self_kernel_stack`. -/
def OnStack (q : Word) (c : Cpu) : Prop :=
  q.toNat + 20 ≤ (c.regs .esp).toNat ∧ (c.regs .esp).toNat + 12 ≤ q.toNat + 4096

/-- What nobody else may write while `q` is switched out: `self_kernel_stack`, and the page of `q` from
where it points on. -/
def Protected (m : Mem) (q a : Word) : Prop :=
  q.toNat ≤ a.toNat ∧ a.toNat < q.toNat + 4 ∨ (load m q).toNat ≤ a.toNat ∧ a.toNat < q.toNat + 4096

namespace Switching

/-- `switch_to(current, next)`. -/
def switch (s : Switching) (next : Word) : Switching where
  cpu := switchTo s.cpu
  current := next
  last := Function.update (Function.update s.last s.current (some (.called s.cpu))) next none

def create (kernelThread : Word) (s : Switching) (pcb : Mem) (pthread function funcArg : Word) : Switching where
  cpu := { s.cpu with mem := threadCreate kernelThread (initThread pcb s.cpu.mem pthread) pthread function funcArg }
  current := s.current
  last := Function.update s.last pthread (some (.created function funcArg))

theorem switch_last (s : Switching) (next q : Word) : (s.switch next).last q =
    if q = next then none else if q = s.current then some (.called s.cpu) else s.last q := by
  simp only [switch, Function.update_apply]

theorem create_last (kernelThread : Word) (s : Switching) (pcb : Mem) (p function funcArg q : Word) :
    (s.create kernelThread pcb p function funcArg).last q =
      if q = p then some (.created function funcArg) else s.last q := by
  simp only [create, Function.update_apply]

/-- The current thread is at the entry of `switch_to(current, next)`. -/
structure Entry (s : Switching) (next : Word) : Prop where
  arg1 : load s.cpu.mem (s.cpu.regs .esp + 4) = s.current
  arg2 : load s.cpu.mem (s.cpu.regs .esp + 8) = next
  stack : OnStack s.current s.cpu
  thread : next = s.current ∨ s.last next ≠ none

/-- Everything the current thread does, and the switches. -/
inductive Step (kernelThread : Word) (s : Switching) : Switching → Prop
  | run (cpu : Cpu) : (∀ q a, s.last q ≠ none → Protected s.cpu.mem q a → cpu.mem a = s.cpu.mem a) →
      Step kernelThread s { s with cpu := cpu }
  | create (pcb : Mem) (pthread function funcArg : Word) : pthread.toNat % 4096 = 0 → pthread ≠ s.current →
      s.last pthread = none → Step kernelThread s (s.create kernelThread pcb pthread function funcArg)
  | switch (next : Word) : Entry s next → Step kernelThread s (s.switch next)

/-- The main thread alone. -/
def init (cpu : Cpu) (mainThread : Word) : Switching := ⟨cpu, mainThread, fun _ => none⟩

/-- The runs that start with the main thread alone. -/
inductive Reachable (kernelThread : Word) : Switching → Prop
  | init (cpu : Cpu) (mainThread : Word) : mainThread.toNat % 4096 = 0 → Reachable kernelThread (init cpu mainThread)
  | step {s s' : Switching} : Reachable kernelThread s → Step kernelThread s s' → Reachable kernelThread s'

end Switching

/-- The CPU has continued thread `q`: after its own call of `switch_to`, or in `KernelThread` with the two
arguments on a stack inside the page of `q`. -/
def Resumes (kernelThread : Word) (c' : Cpu) (q : Word) : Origin → Prop
  | .called c =>
    c'.regs .ebp = c.regs .ebp ∧ c'.regs .ebx = c.regs .ebx ∧ c'.regs .edi = c.regs .edi ∧
      c'.regs .esi = c.regs .esi ∧ c'.regs .esp = c.regs .esp + 4 ∧ c'.eip = load c.mem (c.regs .esp) ∧
      ∀ a : Word, (c.regs .esp).toNat ≤ a.toNat → a.toNat < q.toNat + 4096 → c'.mem a = c.mem a
  | .created function funcArg =>
    c'.eip = kernelThread ∧ load c'.mem (c'.regs .esp + 4) = function ∧
      load c'.mem (c'.regs .esp + 8) = funcArg ∧
      q.toNat + pcbSize ≤ (c'.regs .esp).toNat ∧ (c'.regs .esp).toNat + 12 ≤ q.toNat + 4096

/-! ## What `switch_to` does -/

/-- The second half: `next` is the second argument, and `k` its `self_kernel_stack`. -/
theorem restore_eq (c : Cpu) {next k : Word} (hn : load c.mem (c.regs .esp + 24) = next) (hk : load c.mem next = k) :
    let c' := (switchToCode.drop 6).foldl Instr.exec c
    c'.mem = c.mem ∧ c'.regs .ebp = load c.mem k ∧ c'.regs .ebx = load c.mem (k + 4) ∧
      c'.regs .edi = load c.mem (k + 8) ∧ c'.regs .esi = load c.mem (k + 12) ∧ c'.eip = load c.mem (k + 16) ∧
      c'.regs .esp = k + 20 := by
  have hk0 : load c.mem (load c.mem (c.regs .esp + 24) + 0) = k := by
    rw [hn, show next + 0 = next from BitVec.add_zero next, hk]
  have h8 : k + 4 + 4 = k + 8 := by bv_omega
  have h12 : k + 8 + 4 = k + 12 := by bv_omega
  have h16 : k + 12 + 4 = k + 16 := by bv_omega
  have h20 : k + 16 + 4 = k + 20 := by bv_omega
  refine ⟨rfl, ?_, ?_, ?_, ?_, ?_, ?_⟩
  · show load c.mem (load c.mem (load c.mem (c.regs .esp + 24) + 0)) = _
    rw [hk0]
  · show load c.mem (load c.mem (load c.mem (c.regs .esp + 24) + 0) + 4) = _
    rw [hk0]
  · show load c.mem (load c.mem (load c.mem (c.regs .esp + 24) + 0) + 4 + 4) = _
    rw [hk0, h8]
  · show load c.mem (load c.mem (load c.mem (c.regs .esp + 24) + 0) + 4 + 4 + 4) = _
    rw [hk0, h8, h12]
  · show load c.mem (load c.mem (load c.mem (c.regs .esp + 24) + 0) + 4 + 4 + 4 + 4) = _
    rw [hk0, h8, h12, h16]
  · show load c.mem (load c.mem (c.regs .esp + 24) + 0) + 4 + 4 + 4 + 4 + 4 = _
    rw [hk0, h8, h12, h16, h20]

/-- The four pushes. -/
def pushedMem (c : Cpu) : Mem :=
  let e := c.regs .esp
  store (store (store (store c.mem (e - 4) (c.regs .esi)) (e - 8) (c.regs .edi)) (e - 12) (c.regs .ebx))
    (e - 16) (c.regs .ebp)

/-- Memory after the first half of `switch_to`. -/
def savedMem (c : Cpu) (q : Word) : Mem := store (pushedMem c) q (c.regs .esp - 16)

section Save
variable {c : Cpu} {q : Word}

/-- Where the pushes go. -/
theorem esp_sub {e : Word} (h : 20 ≤ e.toNat) :
    (e - 4).toNat = e.toNat - 4 ∧ (e - 8).toNat = e.toNat - 8 ∧ (e - 12).toNat = e.toNat - 12 ∧
      (e - 16).toNat = e.toNat - 16 := by
  refine ⟨?_, ?_, ?_, ?_⟩ <;> bv_omega

theorem esp_add {e : Word} (h : e.toNat + 12 ≤ 2 ^ 32) :
    (e + 4).toNat = e.toNat + 4 ∧ (e + 8).toNat = e.toNat + 8 := by
  refine ⟨?_, ?_⟩ <;> bv_omega

theorem pushedMem_of_le (h : 20 ≤ (c.regs .esp).toNat) {a : Word}
    (ha : a.toNat < (c.regs .esp).toNat - 16 ∨ (c.regs .esp).toNat ≤ a.toNat) : pushedMem c a = c.mem a := by
  obtain ⟨h4, h8, h12, h16⟩ := esp_sub h
  have := (c.regs .esp).isLt
  unfold pushedMem
  rw [store_of_lt (by omega) (by omega), store_of_lt (by omega) (by omega), store_of_lt (by omega) (by omega),
    store_of_lt (by omega) (by omega)]

theorem load_pushedMem (h : 20 ≤ (c.regs .esp).toNat) {a : Word} (ha : (c.regs .esp).toNat ≤ a.toNat)
    (htop : a.toNat + 4 ≤ 2 ^ 32) : load (pushedMem c) a = load c.mem a := by
  apply load_congr
  intro b hb
  apply pushedMem_of_le h
  bv_omega

theorem pushedMem_regs (h : 20 ≤ (c.regs .esp).toNat) :
    load (pushedMem c) (c.regs .esp - 16) = c.regs .ebp ∧ load (pushedMem c) (c.regs .esp - 12) = c.regs .ebx ∧
      load (pushedMem c) (c.regs .esp - 8) = c.regs .edi ∧ load (pushedMem c) (c.regs .esp - 4) = c.regs .esi := by
  obtain ⟨h4, h8, h12, h16⟩ := esp_sub h
  have := (c.regs .esp).isLt
  unfold pushedMem
  refine ⟨?_, ?_, ?_, ?_⟩
  · rw [load_store]
  · rw [load_store_apart (apart_of_le (by omega) (by omega)).symm, load_store]
  · rw [load_store_apart (apart_of_le (by omega) (by omega)).symm,
      load_store_apart (apart_of_le (by omega) (by omega)).symm, load_store]
  · rw [load_store_apart (apart_of_le (by omega) (by omega)).symm,
      load_store_apart (apart_of_le (by omega) (by omega)).symm,
      load_store_apart (apart_of_le (by omega) (by omega)).symm, load_store]

theorem savedMem_self : load (savedMem c q) q = c.regs .esp - 16 := by
  rw [savedMem, load_store]

/-- Above `self_kernel_stack` the store to it changes nothing. -/
theorem load_savedMem {a : Word} (ha : q.toNat + 4 ≤ a.toNat) (htop : a.toNat + 4 ≤ 2 ^ 32) :
    load (savedMem c q) a = load (pushedMem c) a := by
  rw [savedMem, load_store_apart (apart_of_le ha htop).symm]

variable (hstack : OnStack q c)
include hstack

theorem savedMem_regs :
    load (savedMem c q) (c.regs .esp - 16) = c.regs .ebp ∧ load (savedMem c q) (c.regs .esp - 12) = c.regs .ebx ∧
      load (savedMem c q) (c.regs .esp - 8) = c.regs .edi ∧ load (savedMem c q) (c.regs .esp - 4) = c.regs .esi := by
  obtain ⟨hlo, hhi⟩ := hstack
  obtain ⟨h4, h8, h12, h16⟩ := esp_sub (e := c.regs .esp) (by omega)
  have := (c.regs .esp).isLt
  obtain ⟨hbp, hbx, hdi, hsi⟩ := pushedMem_regs (c := c) (by omega)
  refine ⟨?_, ?_, ?_, ?_⟩
  · rw [load_savedMem (by omega) (by omega), hbp]
  · rw [load_savedMem (by omega) (by omega), hbx]
  · rw [load_savedMem (by omega) (by omega), hdi]
  · rw [load_savedMem (by omega) (by omega), hsi]

omit hstack in
theorem pushes (e : Word) : e - 4 - 4 = e - 8 ∧ e - 8 - 4 = e - 12 ∧ e - 12 - 4 = e - 16 := by
  refine ⟨?_, ?_, ?_⟩ <;> bv_omega

omit hstack in
theorem args (e : Word) : e - 16 + 20 = e + 4 ∧ e - 16 + 24 = e + 8 := by
  refine ⟨?_, ?_⟩ <;> bv_omega

omit hstack in
/-- The first half, with `q` the first argument. -/
theorem save_eq (c : Cpu) (hq : load (pushedMem c) (c.regs .esp + 4) = q) :
    ((switchToCode.take 6).foldl Instr.exec c).mem = savedMem c q ∧
      ((switchToCode.take 6).foldl Instr.exec c).regs .esp = c.regs .esp - 16 := by
  obtain ⟨h8, h12, h16⟩ := pushes (c.regs .esp)
  obtain ⟨h20, -⟩ := args (c.regs .esp)
  have hmem : ((switchToCode.take 4).foldl Instr.exec c).mem = pushedMem c := by
    simp (disch := decide) only [switchToCode, List.take, List.foldl, exec_push_mem, exec_push_esp, exec_push_ne, h8,
      h12, h16]
    rfl
  have hesp : ((switchToCode.take 4).foldl Instr.exec c).regs .esp = c.regs .esp - 16 := by
    simp only [switchToCode, List.take, List.foldl, exec_push_esp, h8, h12, h16]
  have happ : (switchToCode.take 6).foldl Instr.exec c = Instr.exec
      (Instr.exec ((switchToCode.take 4).foldl Instr.exec c) (.load .eax .esp 20)) (.store .eax .esp) := rfl
  rw [happ]
  refine ⟨?_, ?_⟩
  · rw [exec_store_mem, exec_load_mem, exec_load_self, exec_load_ne _ _ _ _ (by decide), hesp, hmem, h20, hq]
    rfl
  · rw [exec_store_regs, exec_load_ne _ _ _ _ (by decide), hesp]

/-- What the first half of `switch_to` leaves alone. -/
theorem savedMem_of_not {a : Word} (hfield : a.toNat < q.toNat ∨ q.toNat + 4 ≤ a.toNat)
    (hpush : a.toNat < (c.regs .esp).toNat - 16 ∨ (c.regs .esp).toNat ≤ a.toNat) : savedMem c q a = c.mem a := by
  obtain ⟨hlo, hhi⟩ := hstack
  have := (c.regs .esp).isLt
  rw [savedMem, store_of_lt hfield (by omega), pushedMem_of_le (by omega) hpush]

theorem load_savedMem_top {a : Word} (ha : (c.regs .esp).toNat ≤ a.toNat) (htop : a.toNat + 4 ≤ 2 ^ 32) :
    load (savedMem c q) a = load c.mem a := by
  obtain ⟨hlo, hhi⟩ := hstack
  rw [load_savedMem (by omega) htop, load_pushedMem (by omega) ha htop]

/-- `switch_to`, with `k` the `self_kernel_stack` of `next`. -/
theorem switchTo_eq {next k : Word} (hcur : load c.mem (c.regs .esp + 4) = q)
    (hnext : load c.mem (c.regs .esp + 8) = next) (hq : q.toNat + 4096 ≤ 2 ^ 32)
    (hk : load (savedMem c q) next = k) :
    (switchTo c).mem = savedMem c q ∧ (switchTo c).regs .ebp = load (savedMem c q) k ∧
      (switchTo c).regs .ebx = load (savedMem c q) (k + 4) ∧ (switchTo c).regs .edi = load (savedMem c q) (k + 8) ∧
      (switchTo c).regs .esi = load (savedMem c q) (k + 12) ∧ (switchTo c).eip = load (savedMem c q) (k + 16) ∧
      (switchTo c).regs .esp = k + 20 := by
  have hbounds := hstack
  obtain ⟨hlo, hhi⟩ := hbounds
  obtain ⟨hadd4, hadd8⟩ := esp_add (e := c.regs .esp) (by omega)
  have harg1 : load (pushedMem c) (c.regs .esp + 4) = q := by
    rw [load_pushedMem (by omega) (by omega) (by omega), hcur]
  have harg2 : load (savedMem c q) (c.regs .esp + 8) = next := by
    rw [load_savedMem_top hstack (by omega) (by omega), hnext]
  have hsave := save_eq c harg1
  have hn : load ((switchToCode.take 6).foldl Instr.exec c).mem (((switchToCode.take 6).foldl Instr.exec c).regs .esp + 24) =
      next := by
    rw [hsave.1, hsave.2, (args _).2, harg2]
  have h := restore_eq ((switchToCode.take 6).foldl Instr.exec c) hn (k := k) (by rw [hsave.1, hk])
  rw [hsave.1] at h
  exact h

end Save

/-! ## What is saved of a thread -/

/-- The memory holds what is needed to continue `q`. -/
def Saved (kernelThread : Word) (m : Mem) (q : Word) : Origin → Prop
  | .called c =>
    OnStack q c ∧ load m q = c.regs .esp - 16 ∧ load m (c.regs .esp - 16) = c.regs .ebp ∧
      load m (c.regs .esp - 12) = c.regs .ebx ∧ load m (c.regs .esp - 8) = c.regs .edi ∧
      load m (c.regs .esp - 4) = c.regs .esi ∧
      ∀ a : Word, (c.regs .esp).toNat ≤ a.toNat → a.toNat < q.toNat + 4096 → m a = c.mem a
  | .created function funcArg =>
    load m q = q + 3664 ∧ load m (q + 3680) = kernelThread ∧ load m (q + 3688) = function ∧
      load m (q + 3692) = funcArg

theorem page_le {q : Word} (hq : q.toNat % 4096 = 0) : q.toNat + 4096 ≤ 2 ^ 32 := by
  have := q.isLt
  omega

/-- Offsets into the page of a new thread. -/
theorem page_offsets {q : Word} (hq : q.toNat + 4096 ≤ 2 ^ 32) :
    (q + 3664).toNat = q.toNat + 3664 ∧ (q + 3680).toNat = q.toNat + 3680 ∧ (q + 3684).toNat = q.toNat + 3684 ∧
      (q + 3688).toNat = q.toNat + 3688 ∧ (q + 3692).toNat = q.toNat + 3692 := by
  refine ⟨?_, ?_, ?_, ?_, ?_⟩ <;> bv_omega

theorem load_eq_of_range {m m' : Mem} {a : Word} (htop : a.toNat + 4 ≤ 2 ^ 32)
    (h : ∀ b : Word, a.toNat ≤ b.toNat → b.toNat < a.toNat + 4 → m' b = m b) : load m' a = load m a := by
  apply load_congr
  intro b hb
  apply h b <;> bv_omega

theorem saved_offsets (e : Word) :
    e - 16 + 4 = e - 12 ∧ e - 16 + 8 = e - 8 ∧ e - 16 + 12 = e - 4 ∧ e - 16 + 16 = e ∧ e - 16 + 20 = e + 4 := by
  refine ⟨?_, ?_, ?_, ?_, ?_⟩ <;> bv_omega

theorem created_offsets (q : Word) :
    q + 3664 + 16 = q + 3680 ∧ q + 3664 + 20 = q + 3684 ∧ q + 3684 + 4 = q + 3688 ∧ q + 3684 + 8 = q + 3692 := by
  refine ⟨?_, ?_, ?_, ?_⟩ <;> bv_omega

section Frame
variable {kernelThread : Word} {m m' : Mem} {q : Word} {o : Origin}

/-- The saved stack is in the page of its thread, above the field. -/
theorem Saved.stack (h : Saved kernelThread m q o) (hq : q.toNat + 4096 ≤ 2 ^ 32) :
    q.toNat + 4 ≤ (load m q).toNat ∧ (load m q).toNat + 28 ≤ q.toNat + 4096 := by
  cases o with
  | called c =>
    obtain ⟨⟨hlo, hhi⟩, hk, -⟩ := h
    obtain ⟨-, -, -, h16⟩ := esp_sub (e := c.regs .esp) (by omega)
    rw [hk, h16]
    omega
  | created function funcArg =>
    obtain ⟨hk, -⟩ := h
    rw [hk, (page_offsets hq).1]
    omega

theorem Saved.protected_page (h : Saved kernelThread m q o) (hq : q.toNat + 4096 ≤ 2 ^ 32) {a : Word}
    (ha : Protected m q a) : q.toNat ≤ a.toNat ∧ a.toNat < q.toNat + 4096 := by
  have := h.stack hq
  rcases ha with ⟨h1, h2⟩ | ⟨h1, h2⟩
  · omega
  · omega

/-- A thread stays saved while nobody writes what is protected. -/
theorem Saved.frame (h : Saved kernelThread m q o) (hq : q.toNat + 4096 ≤ 2 ^ 32)
    (hm : ∀ a, Protected m q a → m' a = m a) : Saved kernelThread m' q o := by
  have hstack := h.stack hq
  have hfield : load m' q = load m q :=
    load_eq_of_range (by omega) fun b h1 h2 => hm b (.inl ⟨h1, h2⟩)
  have hword : ∀ a : Word, (load m q).toNat ≤ a.toNat → a.toNat + 4 ≤ q.toNat + 4096 → load m' a = load m a :=
    fun a h1 h2 => load_eq_of_range (by omega) fun b h3 h4 => hm b (.inr ⟨by omega, by omega⟩)
  cases o with
  | called c =>
    obtain ⟨⟨hlo, hhi⟩, hk, hbp, hbx, hdi, hsi, htop⟩ := h
    obtain ⟨h4, h8, h12, h16⟩ := esp_sub (e := c.regs .esp) (by omega)
    rw [hk, h16] at hword
    refine ⟨⟨hlo, hhi⟩, by rw [hfield, hk], ?_, ?_, ?_, ?_, fun a h1 h2 => ?_⟩
    · rw [hword _ (by omega) (by omega), hbp]
    · rw [hword _ (by omega) (by omega), hbx]
    · rw [hword _ (by omega) (by omega), hdi]
    · rw [hword _ (by omega) (by omega), hsi]
    · rw [hm a (.inr ⟨by rw [hk, h16]; omega, h2⟩), htop a h1 h2]
  | created function funcArg =>
    obtain ⟨hk, heip, hfn, harg⟩ := h
    obtain ⟨h3664, h3680, -, h3688, h3692⟩ := page_offsets hq
    rw [hk, h3664] at hword
    refine ⟨by rw [hfield, hk], ?_, ?_, ?_⟩
    · rw [hword _ (by omega) (by omega), heip]
    · rw [hword _ (by omega) (by omega), hfn]
    · rw [hword _ (by omega) (by omega), harg]

/-- The first half of `switch_to` saves its caller. -/
theorem savedMem_saved {c : Cpu} (hstack : OnStack q c) : Saved kernelThread (savedMem c q) q (.called c) := by
  obtain ⟨hbp, hbx, hdi, hsi⟩ := savedMem_regs hstack
  refine ⟨hstack, savedMem_self, hbp, hbx, hdi, hsi, fun a h1 _ => ?_⟩
  obtain ⟨hlo, hhi⟩ := hstack
  exact savedMem_of_not ⟨hlo, hhi⟩ (.inr (by omega)) (.inr h1)

/-- The second half continues a saved thread. -/
theorem switchTo_resumes {c : Cpu} {next : Word} (hstack : OnStack q c) (hcur : load c.mem (c.regs .esp + 4) = q)
    (hnext : load c.mem (c.regs .esp + 8) = next) (hq : q.toNat + 4096 ≤ 2 ^ 32)
    (hn : next.toNat + 4096 ≤ 2 ^ 32) (h : Saved kernelThread (savedMem c q) next o) :
    Resumes kernelThread (switchTo c) next o := by
  obtain ⟨hmem, hbp, hbx, hdi, hsi, hip, hsp⟩ := switchTo_eq hstack hcur hnext hq rfl
  cases o with
  | called d =>
    obtain ⟨⟨hlo, hhi⟩, hk, kbp, kbx, kdi, ksi, htop⟩ := h
    obtain ⟨a4, a8, a12, a16, a20⟩ := saved_offsets (d.regs .esp)
    rw [hk] at hbp hbx hdi hsi hip hsp
    refine ⟨by rw [hbp, kbp], by rw [hbx, a4, kbx], by rw [hdi, a8, kdi], by rw [hsi, a12, ksi], by rw [hsp, a20], ?_, ?_⟩
    · rw [hip, a16]
      exact load_eq_of_range (by omega) fun b h1 h2 => htop b h1 (by omega)
    · rw [hmem]
      exact htop
  | created function funcArg =>
    obtain ⟨hk, heip, hfn, harg⟩ := h
    obtain ⟨h3664, h3680, h3684, h3688, h3692⟩ := page_offsets hn
    obtain ⟨a16, a20, a24, a28⟩ := created_offsets next
    rw [hk] at hip hsp
    rw [a20] at hsp
    refine ⟨by rw [hip, a16, heip], ?_, ?_, ?_, ?_⟩
    · rw [hmem, hsp, a24, hfn]
    · rw [hmem, hsp, a28, harg]
    · rw [hsp, h3684, pcbSize]
      omega
    · rw [hsp, h3684]
      omega

/-! ### A new thread -/

theorem load_lowerStack (m : Mem) (pthread n : Word) :
    load (lowerStack m pthread n) pthread = load m pthread - 4 * n := by
  rw [lowerStack, load_store]

theorem lowerStack_of_lt {pthread n a : Word} (hp : pthread.toNat + 4096 ≤ 2 ^ 32)
    (ha : a.toNat < pthread.toNat ∨ pthread.toNat + 4 ≤ a.toNat) : lowerStack m pthread n a = m a :=
  store_of_lt ha (by omega)

/-- `self_kernel_stack` of a new thread. -/
theorem newStack (pcb m : Mem) (p : Word) :
    load (lowerStack (lowerStack (initThread pcb m p) p 76) p 32) p = p + 3664 := by
  rw [load_lowerStack, load_lowerStack, initThread, load_store]
  have h1 : (4 * 76 : Word) = 304 := rfl
  have h2 : (4 * 32 : Word) = 128 := rfl
  rw [h1, h2]
  bv_omega

/-- `ThreadCreate` with its address arithmetic done. -/
theorem threadCreate_eq (pcb m : Mem) (p function funcArg : Word) :
    threadCreate kernelThread (initThread pcb m p) p function funcArg =
      store (store (store (store (store (store (store (lowerStack (lowerStack (initThread pcb m p) p 76) p 32)
        (p + 3680) kernelThread) (p + 3688) function) (p + 3692) funcArg) (p + 3672) 0) (p + 3676) 0) (p + 3664) 0)
        (p + 3664) 0 := by
  have h : p + 3664 + 16 = p + 3680 ∧ p + 3664 + 24 = p + 3688 ∧ p + 3664 + 28 = p + 3692 ∧ p + 3664 + 8 = p + 3672 ∧
      p + 3664 + 12 = p + 3676 := by
    refine ⟨?_, ?_, ?_, ?_, ?_⟩ <;> bv_omega
  obtain ⟨h16, h24, h28, h8, h12⟩ := h
  unfold threadCreate
  simp only [newStack, h16, h24, h28, h8, h12]

theorem threadCreate_saved {pcb : Mem} {p function funcArg : Word} (hp : p.toNat + 4096 ≤ 2 ^ 32) :
    Saved kernelThread (threadCreate kernelThread (initThread pcb m p) p function funcArg) p
      (.created function funcArg) := by
  obtain ⟨h3664, h3680, -, h3688, h3692⟩ := page_offsets hp
  have h3672 : (p + 3672).toNat = p.toNat + 3672 := by bv_omega
  have h3676 : (p + 3676).toNat = p.toNat + 3676 := by bv_omega
  have below : ∀ {a b : Word} {v : Word} {m : Mem}, a.toNat + 4 ≤ b.toNat → b.toNat + 4 ≤ 2 ^ 32 →
      load (store m b v) a = load m a := fun h1 h2 => load_store_apart (apart_of_le h1 h2)
  have above : ∀ {a b : Word} {v : Word} {m : Mem}, b.toNat + 4 ≤ a.toNat → a.toNat + 4 ≤ 2 ^ 32 →
      load (store m b v) a = load m a := fun h1 h2 => load_store_apart (apart_of_le h1 h2).symm
  rw [threadCreate_eq]
  refine ⟨?_, ?_, ?_, ?_⟩
  · rw [below (by omega) (by omega), below (by omega) (by omega), below (by omega) (by omega), below (by omega) (by omega),
      below (by omega) (by omega), below (by omega) (by omega), below (by omega) (by omega), newStack]
  · rw [above (by omega) (by omega), above (by omega) (by omega), above (by omega) (by omega), above (by omega) (by omega),
      below (by omega) (by omega), below (by omega) (by omega), load_store]
  · rw [above (by omega) (by omega), above (by omega) (by omega), above (by omega) (by omega), above (by omega) (by omega),
      below (by omega) (by omega), load_store]
  · rw [above (by omega) (by omega), above (by omega) (by omega), above (by omega) (by omega), above (by omega) (by omega),
      load_store]

/-- `InitThread` and `ThreadCreate` write in the page of the new thread only. -/
theorem threadCreate_of_lt {pcb : Mem} {p function funcArg a : Word} (hp : p.toNat + 4096 ≤ 2 ^ 32)
    (ha : a.toNat < p.toNat ∨ p.toNat + 4096 ≤ a.toNat) :
    threadCreate kernelThread (initThread pcb m p) p function funcArg a = m a := by
  obtain ⟨h3664, h3680, -, h3688, h3692⟩ := page_offsets hp
  have h3672 : (p + 3672).toNat = p.toNat + 3672 := by bv_omega
  have h3676 : (p + 3676).toNat = p.toNat + 3676 := by bv_omega
  have hpcb : ¬ (a - p).toNat < pcbSize := by
    unfold pcbSize
    bv_omega
  rw [threadCreate_eq, store_of_lt (by omega) (by omega), store_of_lt (by omega) (by omega),
    store_of_lt (by omega) (by omega), store_of_lt (by omega) (by omega), store_of_lt (by omega) (by omega),
    store_of_lt (by omega) (by omega), store_of_lt (by omega) (by omega), lowerStack_of_lt hp (by omega),
    lowerStack_of_lt hp (by omega), initThread, store_of_lt (by omega) (by omega), if_neg hpcb]

end Frame

/-! ## Runs -/

namespace Switching
variable {kernelThread : Word} {s s' : Switching}

structure Inv (kernelThread : Word) (s : Switching) : Prop where
  aligned : s.current.toNat % 4096 = 0
  current : s.last s.current = none
  page : ∀ q, s.last q ≠ none → q.toNat % 4096 = 0
  saved : ∀ q o, s.last q = some o → Saved kernelThread s.cpu.mem q o

/-- Two pages have no byte in common. -/
theorem page_apart {p q a : Word} (hp : p.toNat % 4096 = 0) (hq : q.toNat % 4096 = 0) (hne : p ≠ q)
    (ha : q.toNat ≤ a.toNat ∧ a.toNat < q.toNat + 4096) : a.toNat < p.toNat ∨ p.toNat + 4096 ≤ a.toNat := by
  have hnat : p.toNat ≠ q.toNat := fun h => hne (BitVec.eq_of_toNat_eq h)
  omega

theorem Inv.saved_other (hi : Inv kernelThread s) {q : Word} {o : Origin} (hq : s.last q = some o) {p : Word}
    (hp : p.toNat % 4096 = 0) (hne : p ≠ q) {m' : Mem}
    (hm : ∀ a : Word, (a.toNat < p.toNat ∨ p.toNat + 4096 ≤ a.toNat) → m' a = s.cpu.mem a) :
    Saved kernelThread m' q o := by
  have hpage := hi.page q (by simp [hq])
  have hsaved := hi.saved q o hq
  refine hsaved.frame (page_le hpage) fun a ha => hm a ?_
  exact page_apart hp hpage hne (hsaved.protected_page (page_le hpage) ha)

/-- While the current thread saves itself, the others stay saved. -/
theorem Inv.saved_switch (hi : Inv kernelThread s) {next : Word} (he : Entry s next) {q : Word} {o : Origin}
    (hq : Function.update s.last s.current (some (.called s.cpu)) q = some o) :
    Saved kernelThread (savedMem s.cpu s.current) q o := by
  by_cases hc : q = s.current
  · subst hc
    rw [Function.update_self] at hq
    cases hq
    exact savedMem_saved he.stack
  · rw [Function.update_of_ne hc] at hq
    refine hi.saved_other hq hi.aligned (Ne.symm hc) fun a ha => ?_
    have hstack := he.stack
    obtain ⟨hlo, hhi⟩ := hstack
    exact savedMem_of_not he.stack (by omega) (by omega)

/-- The switch continues the next thread where it was left. -/
theorem Inv.resumes (hi : Inv kernelThread s) {next : Word} (he : Entry s next) {o : Origin}
    (hq : Function.update s.last s.current (some (.called s.cpu)) next = some o) :
    Resumes kernelThread (s.switch next).cpu next o := by
  have hpage : next.toNat % 4096 = 0 := by
    rcases he.thread with h | h
    · rw [h]
      exact hi.aligned
    · exact hi.page next h
  exact switchTo_resumes he.stack he.arg1 he.arg2 (page_le hi.aligned) (page_le hpage) (hi.saved_switch he hq)

theorem Inv.switch (hi : Inv kernelThread s) {next : Word} (he : Entry s next) : Inv kernelThread (s.switch next) := by
  have hmem : (s.switch next).cpu.mem = savedMem s.cpu s.current :=
    (switchTo_eq he.stack he.arg1 he.arg2 (page_le hi.aligned) rfl).1
  have hthread : ∀ q, Function.update s.last s.current (some (Origin.called s.cpu)) q ≠ none → q.toNat % 4096 = 0 := by
    intro q hq
    by_cases hc : q = s.current
    · rw [hc]
      exact hi.aligned
    · rw [Function.update_of_ne hc] at hq
      exact hi.page q hq
  refine ⟨?_, by rw [switch_last]; exact if_pos rfl, fun q hq => ?_, fun q o hq => ?_⟩
  · rcases he.thread with h | h
    · rw [h]
      exact hi.aligned
    · exact hi.page next h
  · rw [switch_last] at hq
    by_cases hn : q = next
    · exact absurd (if_pos hn) hq
    · rw [if_neg hn] at hq
      exact hthread q (by rwa [Function.update_apply])
  · rw [switch_last] at hq
    by_cases hn : q = next
    · rw [if_pos hn] at hq
      cases hq
    · rw [if_neg hn] at hq
      rw [hmem]
      exact hi.saved_switch he (by rwa [Function.update_apply])

theorem Inv.create (hi : Inv kernelThread s) {pcb : Mem} {p function funcArg : Word} (hp : p.toNat % 4096 = 0)
    (hne : p ≠ s.current) : Inv kernelThread (s.create kernelThread pcb p function funcArg) := by
  refine ⟨hi.aligned, ?_, fun q hq => ?_, fun q o hq => ?_⟩
  · rw [create_last]
    exact (if_neg (Ne.symm hne)).trans hi.current
  · rw [create_last] at hq
    by_cases hqp : q = p
    · rw [hqp]
      exact hp
    · rw [if_neg hqp] at hq
      exact hi.page q hq
  · rw [create_last] at hq
    by_cases hqp : q = p
    · subst hqp
      rw [if_pos rfl] at hq
      cases hq
      exact threadCreate_saved (page_le hp)
    · rw [if_neg hqp] at hq
      exact hi.saved_other hq hp (Ne.symm hqp) fun a ha => threadCreate_of_lt (page_le hp) ha

theorem Inv.step (hi : Inv kernelThread s) (h : Step kernelThread s s') : Inv kernelThread s' := by
  cases h with
  | run cpu hm =>
    refine ⟨hi.aligned, hi.current, hi.page, fun q o hq => ?_⟩
    have hthread : s.last q ≠ none := by
      rw [show s.last q = some o from hq]
      simp
    exact (hi.saved q o hq).frame (page_le (hi.page q hthread)) fun a ha => hm q a hthread ha
  | create pcb p function funcArg hp hne _ => exact hi.create hp hne
  | switch next he => exact hi.switch he

theorem Reachable.inv (h : Reachable kernelThread s) : Inv kernelThread s := by
  induction h with
  | init cpu mainThread hmain =>
    refine ⟨hmain, rfl, fun q hq => absurd rfl hq, fun q o hq => ?_⟩
    cases hq
  | step _ hstep ih => exact ih.step hstep

/-- Whenever a thread is switched to, it continues where its last `switch_to`, or `ThreadCreate`, left
it. -/
theorem switch_preserves_threads (kernelThread : Word) (s : Switching) (h : Reachable kernelThread s) (next : Word)
    (he : Entry s next) (o : Origin)
    (ho : Function.update s.last s.current (some (.called s.cpu)) next = some o) :
    Resumes kernelThread (s.switch next).cpu next o := by
  exact h.inv.resumes he ho

/-- The main thread switches to a new thread, and that back to it. -/
theorem switch_preserves_threads_back :
    ∃ (s : Switching) (c : Cpu), Reachable 0xC0001500 s ∧ Entry s 0xC009E000 ∧ s.current = 0xC0100000 ∧
      s.last 0xC009E000 = some (.called c) ∧
      Resumes 0xC0001500 (s.switch 0xC009E000).cpu 0xC009E000 (.called c) := by
  -- the main thread calls `switch_to(main, p)` for a new thread `p`
  let mem : Mem := store (store (fun _ => 0) 0xC009EF04 0xC009E000) 0xC009EF08 0xC0100000
  let cpu : Cpu := ⟨fun r => if r = .esp then 0xC009EF00 else 7, 0, mem⟩
  let s1 := (init cpu 0xC009E000).create 0xC0001500 (fun _ => 1) 0xC0100000 0xC0001000 0x2A
  have h1 : Reachable 0xC0001500 s1 :=
    (Reachable.init cpu 0xC009E000 (by decide)).step (.create _ _ _ _ (by decide) (by decide) rfl)
  have he1 : Entry s1 0xC0100000 :=
    ⟨by decide +kernel, by decide +kernel, by unfold OnStack; decide +kernel, .inr (by simp [s1, create])⟩
  have h2 : Reachable 0xC0001500 (s1.switch 0xC0100000) := h1.step (.switch _ he1)
  -- which calls `switch_to(p, main)`
  let s2 := s1.switch 0xC0100000
  let cpu3 : Cpu := ⟨Function.update s2.cpu.regs .esp 0xC0100E00, s2.cpu.eip,
    store (store s2.cpu.mem 0xC0100E04 0xC0100000) 0xC0100E08 0xC009E000⟩
  have hlast : s2.last 0xC009E000 = some (.called s1.cpu) := by
    simp [s2, switch_last, s1, create, init]
  have h3 : Reachable 0xC0001500 { s2 with cpu := cpu3 } := by
    refine h2.step (.run cpu3 fun q a hq ha => ?_)
    have hmain : q = 0xC009E000 := by
      by_contra hne
      rw [switch_last] at hq
      simp only [s1, create, init, Function.update_apply] at hq
      split at hq <;> simp_all
    subst hmain
    have hpage := (h2.inv.saved _ _ hlast).protected_page (by decide) ha
    obtain ⟨hlo, hhi⟩ := hpage
    have htop : a.toNat < 0xC0100000 := Nat.lt_trans hhi (by decide)
    exact (store_of_lt (.inl (Nat.lt_trans htop (by decide))) (by decide)).trans
      (store_of_lt (.inl (Nat.lt_trans htop (by decide))) (by decide))
  have he3 : Entry { s2 with cpu := cpu3 } 0xC009E000 :=
    ⟨by decide +kernel, by decide +kernel, by unfold OnStack; decide +kernel,
      .inr fun hnone => Option.some_ne_none _ (hlast.symm.trans hnone)⟩
  refine ⟨_, s1.cpu, h3, he3, rfl, hlast, switch_preserves_threads _ _ h3 _ he3 _ ?_⟩
  rw [Function.update_of_ne (by decide)]
  exact hlast

end Switching

end ElephantOS.Context
