import ElephantOS.Kernel.IntEntry

/-!
# System calls (`kernel/kernel.S`, `lib/user/syscall-init.c`, `userprog/process.c`)

* `syscallInit` : the table of handlers; `int80` : `int 0x80` in a user program;
* `handlerEntry`, `handlerExit` : the text of `syscall_handler` up to its `call` and from there to `IntExit`;
* `Returns` : a C function that comes back, whatever it and the threads that ran in between did;
* `fillIntStack` : the `INT_stack` that `StartProcess` makes;
* `leave_frame` : which word of the stack `IntExit` loads into which register;
* `syscalls_transparent` : a system call changes EAX and nothing else.
-/

namespace ElephantOS.Syscall
open Bytes IntEntry

/-! ## `syscall_handler` -/

/-- `enum SYSCALL_NR`. -/
inductive SyscallNr where
  | write | getpid | malloc | free
  deriving DecidableEq

/-- The number of a system call. -/
def SyscallNr.num : SyscallNr → Nat
  | .write => 0
  | .getpid => 1
  | .malloc => 2
  | .free => 3

/-- `SyscallInit`, with the addresses of the handlers and of `syscall_table`. -/
def syscallInit (m : Mem) (table : Word) (handler : SyscallNr → Word) : Mem :=
  let m := store m (table + BitVec.ofNat 32 (4 * SyscallNr.num .getpid)) (handler .getpid)
  let m := store m (table + BitVec.ofNat 32 (4 * SyscallNr.num .write)) (handler .write)
  let m := store m (table + BitVec.ofNat 32 (4 * SyscallNr.num .malloc)) (handler .malloc)
  store m (table + BitVec.ofNat 32 (4 * SyscallNr.num .free)) (handler .free)

/-- The instructions of `syscall_handler`. -/
inductive Instr where
  /-- one that the interrupt entries have too -/
  | common (i : IntEntry.Instr)
  | pushReg (r : Reg)
  /-- `call [table + eax * 4]`, before the instruction at `ret` -/
  | callTable (table ret : Word)
  | addEsp (n : Word)
  /-- `mov [esp + off],eax` -/
  | movEspEax (off : Word)

def Instr.exec (c : Cpu) : Instr → Cpu
  | .common i => i.exec c
  | .pushReg r => c.push (c.regs r)
  | .callTable table ret => { c.push ret with eip := load c.mem (table + c.regs .eax * 4) }
  | .addEsp n => c.set .esp (c.esp + n)
  | .movEspEax off => { c with mem := store c.mem (c.esp + off) (c.regs .eax) }

/-- `syscall_handler` up to its `call`. -/
def handlerEntry (table ret : Word) : List Instr :=
  [.common (.push 0), .common (.pushSeg .ds), .common (.pushSeg .es), .common (.pushSeg .fs), .common (.pushSeg .gs),
   .common .pushad, .common (.push 0x80), .pushReg .edx, .pushReg .ecx, .pushReg .ebx, .callTable table ret]

/-- From the return of the handler to `IntExit`. -/
def handlerExit : List Instr := [.addEsp 12, .movEspEax (8 * 4)]

/-- `int 0x80`, an instruction of two bytes. -/
def int80 (tss : Tss) (entry : Word) (c : Cpu) : Cpu := deliver tss entry 0x80 0 { c with eip := c.eip + 2 }

/-- From `int 0x80` to the first instruction of the handler. -/
def call (tss : Tss) (entry table ret : Word) (c : Cpu) : Cpu :=
  (handlerEntry table ret).foldl Instr.exec (int80 tss entry c)

/-- From the return of the handler to the user program. -/
def back (c : Cpu) : Cpu := leave (handlerExit.foldl Instr.exec c)

/-- A C function entered in `c` with `args` words of arguments returns in `c'`. It keeps the registers it must keep and
the `n` words above its arguments; the others, the segment registers, its arguments and all other memory are as it or
the threads that ran in between left them. -/
structure Returns (args n : Nat) (c c' : Cpu) : Prop where
  eip : c'.eip = c.top
  esp : c'.esp = c.esp + 4
  ebx : c'.regs .ebx = c.regs .ebx
  esi : c'.regs .esi = c.regs .esi
  edi : c'.regs .edi = c.regs .edi
  ebp : c'.regs .ebp = c.regs .ebp
  cs : c'.cs = c.cs
  ss : c'.ss = c.ss
  frame : ∀ k < n, load c'.mem (c.esp + BitVec.ofNat 32 (4 * (1 + args + k))) =
    load c.mem (c.esp + BitVec.ofNat 32 (4 * (1 + args + k)))

/-- The words of `struct INT_stack`. -/
def frameWords : Nat := 19

/-! ## `StartProcess` -/

/-- An assignment to the low half of word `k` of the structure at `a`. -/
def storeHalf (m : Mem) (a : Word) (k : Nat) (w : Selector) : Mem :=
  store m (a + BitVec.ofNat 32 (4 * k)) ((load m (a + BitVec.ofNat 32 (4 * k))).extractLsb' 16 16 ++ w)

/-- An assignment to word `k` of the structure at `a`. -/
def storeWord (m : Mem) (a : Word) (k : Nat) (w : Word) : Mem := store m (a + BitVec.ofNat 32 (4 * k)) w

/-- `SELECTOR_U_CODE`. -/
def selectorUCode : Selector := (5 <<< 3) + (0 <<< 2) + 3

/-- `SELECTOR_U_DATA`, and so `SELECTOR_U_STACK`. -/
def selectorUData : Selector := (6 <<< 3) + (0 <<< 2) + 3

/-- The assignments of `StartProcess` to the structure at `a`, in their order; `stack` is what `VirtualAddrMapping`
returns. -/
def fillIntStack (m : Mem) (a function stack : Word) : Mem :=
  let m := storeHalf m a 9 0
  let m := storeWord m a 6 0
  let m := storeWord m a 7 0
  let m := storeWord m a 5 0
  let m := storeWord m a 8 0
  let m := storeWord m a 4 0
  let m := storeWord m a 3 0
  let m := storeWord m a 2 0
  let m := storeWord m a 1 0
  let m := storeHalf m a 10 selectorUData
  let m := storeHalf m a 11 selectorUData
  let m := storeHalf m a 12 selectorUData
  let m := storeWord m a 14 function
  let m := storeWord m a 15 (word selectorUCode)
  let m := storeWord m a 16 ((1 <<< 9) ||| 0 ||| (1 <<< 1))
  let m := storeWord m a 17 (stack + 4096)
  storeWord m a 18 (word selectorUData)

/-! ## The frame -/

section Frames
variable {c c' : Cpu} {b d : Word}

/-- `IntExit` to a user program, word by word. -/
theorem leave_frame {g : Reg → Word} {q : Seg → Word} {x y e₁ e₂ e₃ e₄ e₅ : Word} {ws : List Word}
    (h : c'.Has b (x :: g .edi :: g .esi :: g .ebp :: d :: g .ebx :: g .edx :: g .ecx :: g .eax :: q .gs :: q .fs ::
      q .es :: q .ds :: y :: e₁ :: e₂ :: e₃ :: e₄ :: e₅ :: ws)) (hp : rpl (selector e₂) ≠ rpl c'.cs) :
    (∀ r, r ≠ .esp → (leave c').regs r = g r) ∧ (leave c').esp = e₄ ∧ ((leave c').segs = fun s => selector (q s)) ∧
      (leave c').eip = e₁ ∧ (leave c').cs = selector e₂ ∧ (leave c').eflags = e₃ ∧ (leave c').ss = selector e₅ := by
  obtain ⟨c₂, hleave, hhas, hregs, hsegs, hcs, -⟩ := intExit_loads h
  rw [hleave, iretd_outer hhas (by rw [hcs]; exact hp)]
  refine ⟨?_, ?_, hsegs, rfl, rfl, rfl, rfl⟩
  · intro r hr
    show Function.update c₂.drop.drop.drop.regs Reg.esp e₄ r = g r
    rw [Function.update_of_ne hr, Cpu.drop_regs _ hr, Cpu.drop_regs _ hr, Cpu.drop_regs _ hr, hregs r hr]
  · show Function.update c₂.drop.drop.drop.regs Reg.esp e₄ Reg.esp = e₄
    exact Function.update_self ..

/-- What `int 0x80` and `syscall_handler` have pushed of a user program. -/
def userFrame (c : Cpu) (d : Word) : List Word :=
  0x80 :: (contextWords c d ++ [0, c.eip + 2, word c.cs, c.eflags, c.esp, word c.ss])

/-- The state `c'` on the way into the handler: the words `ws` are pushed on the stack that ends at `b`, and apart from
them the registers and the memory are those of `c`. -/
structure Saves (c : Cpu) (b : Word) (ws : List Word) (c' : Cpu) : Prop where
  has : c'.Has b ws
  keeps : Keeps c c'
  mem : ∀ a : Word, 4 * ws.length ≤ (b - 1 - a).toNat → c'.mem a = c.mem a

namespace Saves
variable {ws : List Word}

theorem push (h : Saves c b ws c') (w : Word) (hlen : ws.length < 64) : Saves c b (w :: ws) (c'.push w) := by
  refine ⟨h.has.push w hlen, h.keeps.push w, ?_⟩
  intro a ha
  rw [List.length_cons] at ha
  rw [← h.mem a (by omega)]
  apply store_of_le
  rw [h.has.esp_eq]
  bv_omega

theorem pushReg (h : Saves c b ws c') {r : Reg} (hr : r ≠ .esp) (hlen : ws.length < 64) :
    Saves c b (c.regs r :: ws) (c'.push (c'.regs r)) := by
  rw [h.keeps.regs r hr]
  exact h.push _ hlen

theorem pushSeg (h : Saves c b ws c') (s : Seg) (hlen : ws.length < 64) :
    Saves c b (word (c.segs s) :: ws) (c'.push (word (c'.segs s))) := by
  rw [h.keeps.segs]
  exact h.push _ hlen

theorem pushad (h : Saves c b ws c') (hlen : ws.length < 48) : ∃ d, Saves c b (c.regs .edi :: c.regs .esi ::
    c.regs .ebp :: d :: c.regs .ebx :: c.regs .edx :: c.regs .ecx :: c.regs .eax :: ws) (IntEntry.Instr.exec c' .pushad) := by
  have h4 := (((h.push (c.regs .eax) (by omega)).push (c.regs .ecx) (by simp; omega)).push (c.regs .edx)
    (by simp; omega)).push (c.regs .ebx) (by simp; omega)
  have h8 := (((h4.push c'.esp (by simp; omega)).push (c.regs .ebp) (by simp; omega)).push (c.regs .esi)
    (by simp; omega)).push (c.regs .edi) (by simp; omega)
  rw [← h.keeps.regs .eax (by decide), ← h.keeps.regs .ecx (by decide), ← h.keeps.regs .edx (by decide),
    ← h.keeps.regs .ebx (by decide), ← h.keeps.regs .ebp (by decide), ← h.keeps.regs .esi (by decide),
    ← h.keeps.regs .edi (by decide)] at h8 ⊢
  exact ⟨c'.esp, h8⟩

end Saves

theorem int80_saves (tss : Tss) (entry : Word) (hp : rpl c.cs ≠ 0) :
    Saves c tss.esp0 [c.eip + 2, word c.cs, c.eflags, c.esp, word c.ss] (int80 tss entry c) := by
  have hesp : ({ c.set .esp tss.esp0 with ss := tss.ss0 } : Cpu).esp = tss.esp0 := by simp [Cpu.set, Cpu.esp]
  have h0 : Saves c tss.esp0 [] { c.set .esp tss.esp0 with ss := tss.ss0 } := by
    refine ⟨?_, ⟨?_, rfl⟩, fun a _ => rfl⟩
    · have hnil := ({ c.set .esp tss.esp0 with ss := tss.ss0 } : Cpu).has_nil
      rwa [hesp] at hnil
    · intro r hr
      show Function.update c.regs .esp tss.esp0 r = c.regs r
      exact Function.update_of_ne hr ..
  have h5 := ((((h0.push (word c.ss) (by simp)).push c.esp (by simp)).push c.eflags (by simp)).push (word c.cs)
    (by simp)).push (c.eip + 2) (by simp)
  have heq : int80 tss entry c = { ((((({ c.set .esp tss.esp0 with ss := tss.ss0 } : Cpu).push (word c.ss)).push c.esp).push
      c.eflags).push (word c.cs)).push (c.eip + 2) with cs := kernelCode, eip := entry, eflags := c.eflags &&& 0xFFFCBCFF } := by
    unfold int80 deliver switchStack
    rw [if_neg hp]
    rfl
  rw [heq]
  exact ⟨⟨h5.has.words, h5.has.esp_eq⟩, ⟨h5.keeps.regs, h5.keeps.segs⟩, h5.mem⟩

/-- The state before the `call`. -/
theorem args_saved (tss : Tss) (entry table ret : Word) (hp : rpl c.cs ≠ 0) : ∃ d, Saves c tss.esp0
    (c.regs .ebx :: c.regs .ecx :: c.regs .edx :: userFrame c d)
    (((handlerEntry table ret).take 10).foldl Instr.exec (int80 tss entry c)) := by
  have h4 := ((((int80_saves tss entry hp).push 0 (by simp)).pushSeg .ds (by simp)).pushSeg .es (by simp)).pushSeg .fs (by simp)
  obtain ⟨d, h6⟩ := (h4.pushSeg .gs (by simp)).pushad (by simp)
  exact ⟨d, (((h6.push 0x80 (by simp)).pushReg (r := .edx) (by decide) (by simp)).pushReg (r := .ecx) (by decide)
    (by simp)).pushReg (r := .ebx) (by decide) (by simp)⟩

theorem call_eq (tss : Tss) (entry table ret : Word) (c : Cpu) : call tss entry table ret c =
    (Instr.callTable table ret).exec (((handlerEntry table ret).take 10).foldl Instr.exec (int80 tss entry c)) := rfl

/-- The stack the C handler is entered with. -/
theorem call_has (tss : Tss) (entry table ret : Word) (hp : rpl c.cs ≠ 0) : ∃ d, (call tss entry table ret c).Has tss.esp0
    (ret :: c.regs .ebx :: c.regs .ecx :: c.regs .edx :: userFrame c d) := by
  obtain ⟨d, h⟩ := args_saved tss entry table ret hp
  rw [call_eq]
  generalize ((handlerEntry table ret).take 10).foldl Instr.exec (int80 tss entry c) = c₁ at h
  have hcall := h.has.push ret (by simp [userFrame, contextWords])
  exact ⟨d, hcall.words, hcall.esp_eq⟩

/-- The word at `a` is not in the page that ends at `b`. -/
def OffStack (b a : Word) : Prop := ∀ x : Word, (x - a).toNat < 4 → 4096 ≤ (b - 1 - x).toNat

/-- The handler that is called. -/
theorem call_eip (tss : Tss) (entry table ret : Word) (hp : rpl c.cs ≠ 0)
    (hout : OffStack tss.esp0 (table + c.regs .eax * 4)) :
    (call tss entry table ret c).eip = load c.mem (table + c.regs .eax * 4) := by
  obtain ⟨d, h⟩ := args_saved tss entry table ret hp
  rw [call_eq]
  generalize ((handlerEntry table ret).take 10).foldl Instr.exec (int80 tss entry c) = c₁ at h
  show load c₁.mem (table + c₁.regs .eax * 4) = _
  rw [h.keeps.regs .eax (by decide)]
  apply load_congr
  intro x hx
  apply h.mem
  have := hout x hx
  simp only [userFrame, contextWords, List.length_cons, List.length_append, List.length_nil]
  omega

/-- The handler leaves `syscall_handler` its words. -/
theorem Returns.frame_has {ret x y z : Word} {ws : List Word} (hr : Returns 3 ws.length c c')
    (h : c.Has b (ret :: x :: y :: z :: ws)) : (Instr.exec c' (.addEsp 12)).Has b ws := by
  have hdrop := h.drop.drop.drop.drop
  have hesp : (Instr.exec c' (.addEsp 12)).esp = c.esp + 16 := by
    show Function.update c'.regs .esp (c'.esp + 12) .esp = _
    rw [Function.update_self, hr.esp, BitVec.add_assoc]
    rfl
  have hesp' : c.drop.drop.drop.drop.esp = c.esp + 16 := by
    simp only [Cpu.drop_esp, BitVec.add_assoc]
    rfl
  refine ⟨?_, ?_⟩
  · rw [hesp, ← hesp']
    apply hdrop.words.congr
    intro k hk
    have hoff : c.drop.drop.drop.drop.esp + BitVec.ofNat 32 (4 * k) = c.esp + BitVec.ofNat 32 (4 * (1 + 3 + k)) := by
      rw [hesp', Nat.mul_add, BitVec.ofNat_add, BitVec.add_assoc]
      rfl
    rw [hoff]
    exact hr.frame k hk
  · rw [hesp, ← hesp']
    exact hdrop.esp_eq

/-- The result replaces the saved EAX. -/
theorem back_frame {d : Word} (h : (Instr.exec c' (.addEsp 12)).Has b (userFrame c d)) :
    (handlerExit.foldl Instr.exec c').Has b (userFrame { c with regs := Function.update c.regs .eax (c'.regs .eax) } d) := by
  have hset := h.words.set (v := c'.regs .eax) (k := 8) (by simp [userFrame, contextWords])
    (by simp [userFrame, contextWords])
  exact ⟨hset, h.esp_eq⟩

theorem call_cs (tss : Tss) (entry table ret : Word) (c : Cpu) : (call tss entry table ret c).cs = kernelCode := rfl

/-- A user program has gone on after `int 0x80`, with `eax` in EAX. -/
structure Resumed (c : Cpu) (eax : Word) (c₂ : Cpu) : Prop where
  eax : c₂.regs .eax = eax
  regs : ∀ r, r ≠ .eax → c₂.regs r = c.regs r
  segs : c₂.segs = c.segs
  cs : c₂.cs = c.cs
  ss : c₂.ss = c.ss
  eip : c₂.eip = c.eip + 2
  eflags : c₂.eflags = c.eflags

theorem back_resumes {d : Word} (hp : rpl c.cs ≠ 0) (hcs : c'.cs = kernelCode)
    (h : (Instr.exec c' (.addEsp 12)).Has b (userFrame c d)) : Resumed c (c'.regs .eax) (back c') := by
  have hframe := back_frame h
  have hcs' : (handlerExit.foldl Instr.exec c').cs = kernelCode := hcs
  unfold back
  generalize handlerExit.foldl Instr.exec c' = c₁ at hframe hcs'
  generalize hu : Function.update c.regs .eax (c'.regs .eax) = u at hframe
  obtain ⟨hregs, hesp, hsegs, heip, hcs2, heflags, hss⟩ :=
    leave_frame (g := u) (q := fun s => word (c.segs s)) hframe (by rw [selector_word, hcs']; exact hp)
  rw [selector_word] at hcs2 hss
  refine ⟨?_, ?_, ?_, hcs2, hss, heip, heflags⟩
  · rw [hregs .eax (by decide), ← hu]
    exact Function.update_self ..
  · intro r hr
    by_cases hr' : r = .esp
    · rw [hr', ← Cpu.esp, hesp]
      show u .esp = c.regs .esp
      rw [← hu]
      exact Function.update_of_ne (by decide) ..
    · rw [hregs r hr', ← hu]
      exact Function.update_of_ne hr ..
  · rw [hsegs]
    exact funext fun s => selector_word (c.segs s)

end Frames

/-! ## The structure `INT_stack` -/

/-- Each register is the field of its name. -/
structure Loaded (f : IntStack) (c : Cpu) : Prop where
  edi : c.regs .edi = f.edi
  esi : c.regs .esi = f.esi
  ebp : c.regs .ebp = f.ebp
  ebx : c.regs .ebx = f.ebx
  edx : c.regs .edx = f.edx
  ecx : c.regs .ecx = f.ecx
  eax : c.regs .eax = f.eax
  gs : c.segs .gs = f.gs
  fs : c.segs .fs = f.fs
  es : c.segs .es = f.es
  ds : c.segs .ds = f.ds
  eip : c.eip = f.eip
  cs : c.cs = selector f.cs
  eflags : c.eflags = f.eflags
  esp : c.esp = f.espAtSignal
  ss : c.ss = selector f.ss

section Structure
variable (m : Mem) (a : Word)

/-- Word `k` of the structure. -/
def field (k : Nat) : Word := load m (a + BitVec.ofNat 32 (4 * k))

/-- The words of the structure are the stack that `IntExit` unwinds. -/
theorem has_fields (c : Cpu) : c.Has (c.esp + 76) ((List.range frameWords).map (field c.mem c.esp)) := by
  refine ⟨?_, ?_⟩
  · apply stack_of_load
    intro k hk
    rw [List.getElem_map, List.getElem_range]
    rfl
  · rw [List.length_map, List.length_range]
    exact (BitVec.add_sub_cancel c.esp 76).symm

/-- The words `pushad` saves, in the structure at the top of the stack. -/
def regField (c : Cpu) : Reg → Word
  | .edi => field c.mem c.esp 1
  | .esi => field c.mem c.esp 2
  | .ebp => field c.mem c.esp 3
  | .esp => field c.mem c.esp 4
  | .ebx => field c.mem c.esp 5
  | .edx => field c.mem c.esp 6
  | .ecx => field c.mem c.esp 7
  | .eax => field c.mem c.esp 8

/-- The words of the segment registers. -/
def segField (c : Cpu) : Seg → Word
  | .gs => field c.mem c.esp 9
  | .fs => field c.mem c.esp 10
  | .es => field c.mem c.esp 11
  | .ds => field c.mem c.esp 12

/-- `IntExit` on a structure. -/
theorem leave_loads (c : Cpu) (hp : rpl (selector (IntStack.read c.mem c.esp).cs) ≠ rpl c.cs) :
    Loaded (IntStack.read c.mem c.esp) (leave c) := by
  obtain ⟨hregs, hesp, hsegs, heip, hcs, heflags, hss⟩ :=
    leave_frame (g := regField c) (q := segField c) (has_fields c) hp
  exact ⟨hregs .edi (by decide), hregs .esi (by decide), hregs .ebp (by decide), hregs .ebx (by decide),
    hregs .edx (by decide), hregs .ecx (by decide), hregs .eax (by decide), congrFun hsegs .gs, congrFun hsegs .fs,
    congrFun hsegs .es, congrFun hsegs .ds, heip, hcs, heflags, hesp, hss⟩

theorem field_storeWord_self {i : Nat} (w : Word) (hi : i < 2 ^ 29) : field (storeWord m a i w) a i = w :=
  (load_store_off m a w hi hi).trans (if_pos rfl)

theorem field_storeWord_ne {i j : Nat} (w : Word) (hi : i < 2 ^ 29) (hj : j < 2 ^ 29) (h : j ≠ i) :
    field (storeWord m a i w) a j = field m a j := (load_store_off m a w hi hj).trans (if_neg h)

theorem field_storeHalf_self {i : Nat} (w : Selector) (hi : i < 2 ^ 29) : selector (field (storeHalf m a i w) a i) = w := by
  have h : field (storeHalf m a i w) a i = (field m a i).extractLsb' 16 16 ++ w :=
    (load_store_off m a _ hi hi).trans (if_pos rfl)
  rw [h]
  exact BitVec.extractLsb'_append_eq_right

theorem field_storeHalf_ne {i j : Nat} (w : Selector) (hi : i < 2 ^ 29) (hj : j < 2 ^ 29) (h : j ≠ i) :
    field (storeHalf m a i w) a j = field m a j := (load_store_off m a _ hi hj).trans (if_neg h)

theorem read_fields : IntStack.read m a =
    { intVertorNum := field m a 0, edi := field m a 1, esi := field m a 2, ebp := field m a 3, espDummy := field m a 4
      ebx := field m a 5, edx := field m a 6, ecx := field m a 7, eax := field m a 8, gs := selector (field m a 9)
      fs := selector (field m a 10), es := selector (field m a 11), ds := selector (field m a 12), errCode := field m a 13
      eip := field m a 14, cs := field m a 15, eflags := field m a 16, espAtSignal := field m a 17, ss := field m a 18 } := by
  have h0 : field m a 0 = load m a := by
    rw [field, show a + BitVec.ofNat 32 (4 * 0) = a from BitVec.add_zero a]
  rw [h0]
  rfl

/-- What `StartProcess` leaves in the structure. -/
theorem read_fill (function stack : Word) : IntStack.read (fillIntStack m a function stack) a =
    { intVertorNum := field m a 0, edi := 0, esi := 0, ebp := 0, espDummy := 0, ebx := 0, edx := 0, ecx := 0, eax := 0
      gs := 0, fs := selectorUData, es := selectorUData, ds := selectorUData, errCode := field m a 13, eip := function
      cs := word selectorUCode, eflags := 0x202, espAtSignal := stack + 4096, ss := word selectorUData } := by
  rw [read_fields]
  simp (disch := decide) only [fillIntStack, field_storeWord_self, field_storeWord_ne, field_storeHalf_self,
    field_storeHalf_ne]
  rfl

end Structure

/-! ## Transparency -/

/-- `syscall_table` holds the handlers. -/
def Registered (m : Mem) (table : Word) (handler : SyscallNr → Word) : Prop :=
  ∀ nr : SyscallNr, load m (table + BitVec.ofNat 32 (4 * nr.num)) = handler nr

theorem syscallInit_registered (m : Mem) (table : Word) (handler : SyscallNr → Word) :
    Registered (syscallInit m table handler) table handler := by
  have hentry : ∀ (m : Mem) (w : Word) (i j : SyscallNr), load (store m (table + BitVec.ofNat 32 (4 * i.num)) w)
      (table + BitVec.ofNat 32 (4 * j.num)) = if j.num = i.num then w else load m (table + BitVec.ofNat 32 (4 * j.num)) := by
    intro m w i j
    apply load_store_off
    · cases i <;> decide
    · cases j <;> decide
  intro nr
  simp only [syscallInit, hentry]
  cases nr <;> rfl

/-- The three words above the return address. -/
def arguments (c : Cpu) : Word × Word × Word := (load c.mem (c.esp + 4), load c.mem (c.esp + 8), load c.mem (c.esp + 12))

theorem arguments_of_has {c : Cpu} {b ret x y z : Word} {ws : List Word} (h : c.Has b (ret :: x :: y :: z :: ws)) :
    c.top = ret ∧ arguments c = (x, y, z) := by
  have htop := h.words.get (k := 0) (by simp)
  rw [show c.esp + BitVec.ofNat 32 (4 * 0) = c.esp from BitVec.add_zero _] at htop
  have hx := h.words.get (k := 1) (by simp)
  have hy := h.words.get (k := 2) (by simp)
  have hz := h.words.get (k := 3) (by simp)
  refine ⟨htop, ?_⟩
  exact Prod.ext hx (Prod.ext hy hz)

/-- A user program that calls `nr` enters the handler of `nr` with EBX, ECX and EDX; whatever the handler and the threads
that ran meanwhile did, the program goes on with the result in EAX and all else as it was. The same `IntExit` starts a
process from the structure that `StartProcess` fills. -/
theorem syscalls_transparent (tss : Tss) (entry table ret : Word) (handler : SyscallNr → Word) :
    (∀ m, Registered (syscallInit m table handler) table handler) ∧
    (∀ (c : Cpu) (nr : SyscallNr), rpl c.cs = 3 → c.regs .eax = BitVec.ofNat 32 nr.num → Registered c.mem table handler →
      OffStack tss.esp0 (table + BitVec.ofNat 32 (4 * nr.num)) →
      (call tss entry table ret c).eip = handler nr ∧
      arguments (call tss entry table ret c) = (c.regs .ebx, c.regs .ecx, c.regs .edx) ∧
      ∀ c', Returns 3 frameWords (call tss entry table ret c) c' → c'.eip = ret ∧ Resumed c (c'.regs .eax) (back c')) ∧
    ∀ (c : Cpu) (m : Mem) (function stack : Word), rpl c.cs = 0 → c.mem = fillIntStack m c.esp function stack →
      Loaded (IntStack.read c.mem c.esp) (leave c) := by
  refine ⟨fun m => syscallInit_registered m table handler, ?_, ?_⟩
  · intro c nr hp heax hreg hoff
    have hp' : rpl c.cs ≠ 0 := by
      rw [hp]
      decide
    have haddr : table + c.regs .eax * 4 = table + BitVec.ofNat 32 (4 * nr.num) := by
      rw [heax, Nat.mul_comm, BitVec.ofNat_mul]
      rfl
    obtain ⟨d, hhas⟩ := call_has (c := c) tss entry table ret hp'
    obtain ⟨htop, hargs⟩ := arguments_of_has hhas
    refine ⟨?_, hargs, ?_⟩
    · rw [call_eip tss entry table ret hp' (by rw [haddr]; exact hoff), haddr]
      exact hreg nr
    · intro c' hret
      refine ⟨hret.eip.trans htop, ?_⟩
      have hcs : c'.cs = kernelCode := hret.cs.trans (call_cs tss entry table ret c)
      apply back_resumes hp' hcs
      exact Returns.frame_has hret hhas
  · intro c m function stack hp hfill
    apply leave_loads
    have huser : rpl (selector (word selectorUCode)) ≠ 0 := by decide
    rw [hp, hfill, read_fill]
    exact huser

def pidTss : Tss := { ss0 := 0x10, esp0 := 0xC009F000 }

def pidHandlers (nr : SyscallNr) : Word := 0xC0001500 + 16 * BitVec.ofNat 32 nr.num

/-- A user program that asks for its pid. -/
def pidUser : Cpu where
  regs r := match r with
    | .eax => 1
    | .ebx => 0x11
    | .ecx => 0x22
    | .edx => 0x33
    | .esp => 0xBFFFFF00
    | _ => 0x44
  segs _ := selectorUData
  cs := selectorUCode
  ss := selectorUData
  eip := 0x8048000
  eflags := 0x202
  mem := syscallInit (fun _ => 0xAA) 0xC0005000 pidHandlers

def pidCall : Cpu := call pidTss 0xC0001600 0xC0005000 0xC0001620 pidUser

/-- The handler has returned 7, and left something else in ECX, EDX and GS. -/
def pidReturn : Cpu :=
  { pidCall with
    eip := pidCall.top
    regs := fun r => match r with
      | .eax => 7
      | .ecx => 0x55
      | .edx => 0x66
      | .esp => pidCall.esp + 4
      | r => pidCall.regs r
    segs := Function.update pidCall.segs .gs 0 }

/-- A new process, before `jmp IntExit`. -/
def pidStart : Cpu :=
  { pidUser with
    cs := kernelCode
    regs := fun _ => 0xC009EFB4
    mem := fillIntStack pidUser.mem 0xC009EFB4 0xC0001700 0xBFFFF000 }

theorem syscalls_transparent_getpid :
    pidCall.eip = pidHandlers .getpid ∧ arguments pidCall = (0x11, 0x22, 0x33) ∧
    Resumed pidUser 7 (back pidReturn) ∧ Loaded (IntStack.read pidStart.mem pidStart.esp) (leave pidStart) := by
  obtain ⟨hinit, hcall, hstart⟩ := syscalls_transparent pidTss 0xC0001600 0xC0005000 0xC0001620 pidHandlers
  have hoff : OffStack pidTss.esp0 (0xC0005000 + BitVec.ofNat 32 (4 * SyscallNr.num .getpid)) := by
    intro x hx
    simp only [pidTss, SyscallNr.num] at hx ⊢
    bv_omega
  obtain ⟨heip, hargs, hback⟩ := hcall pidUser .getpid rfl rfl (hinit _) hoff
  refine ⟨heip, hargs, ?_, hstart pidStart pidUser.mem 0xC0001700 0xBFFFF000 rfl rfl⟩
  exact (hback pidReturn ⟨rfl, rfl, rfl, rfl, rfl, rfl, rfl, rfl, fun _ _ => rfl⟩).2

end ElephantOS.Syscall
