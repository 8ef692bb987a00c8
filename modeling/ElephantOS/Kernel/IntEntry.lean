import ElephantOS.Lib.Bytes

/-!
# Interrupt entry and exit (`kernel/kernel.S`)

* `Cpu`, `Cpu.push`, `Cpu.pop` : the registers an interrupt saves, and the stack;
* `deliver` : what the CPU does through an interrupt gate; `iretd` undoes it;
* `stub v`, `intExit` : the text of `INTRvEntry` up to its `call`, and of `IntExit`;
* `IntStack` : `struct INT_stack`, read from memory;
* `Respects` : a C handler that returns;
* `Restored` : the handler sees the interrupted context, and `IntExit` goes back to it;
* `entry_exit_restores_iff` : for which vectors.
-/

namespace ElephantOS.IntEntry
open Bytes

abbrev Selector := BitVec 16

inductive Reg where
  | eax | ecx | edx | ebx | esp | ebp | esi | edi
  deriving DecidableEq, Repr

inductive Seg where
  | ds | es | fs | gs
  deriving DecidableEq, Repr

structure Cpu where
  regs : Reg → Word
  segs : Seg → Selector
  cs : Selector
  ss : Selector
  eip : Word
  eflags : Word
  mem : Mem

/-- The privilege level a selector asks for; that of `cs` is the current one. -/
def rpl (s : Selector) : BitVec 2 := s.extractLsb' 0 2

/-- A selector on the stack. -/
def word (s : Selector) : Word := s.zeroExtend 32

def selector (w : Word) : Selector := w.extractLsb' 0 16

namespace Cpu

def set (c : Cpu) (r : Reg) (w : Word) : Cpu := { c with regs := Function.update c.regs r w }

def esp (c : Cpu) : Word := c.regs .esp

def push (c : Cpu) (w : Word) : Cpu := { c.set .esp (c.esp - 4) with mem := store c.mem (c.esp - 4) w }

/-- The word on top of the stack. -/
def top (c : Cpu) : Word := load c.mem c.esp

/-- `add esp,4`, and the second half of every `pop`. -/
def drop (c : Cpu) : Cpu := c.set .esp (c.esp + 4)

end Cpu

/-- `ss0` and `esp0` of the TSS. -/
structure Tss where
  ss0 : Selector
  esp0 : Word

/-- `SELECTOR_K_CODE`. -/
def kernelCode : Selector := 0x08

/-- The exceptions that are defined with an error code. -/
def hasErrorCode (v : Nat) : Bool := [8, 10, 11, 12, 13, 14, 17, 30].contains v

/-- The stack is switched when the privilege changes. -/
def switchStack (tss : Tss) (c : Cpu) : Cpu :=
  if rpl c.cs = 0 then c
  else (({ c.set .esp tss.esp0 with ss := tss.ss0 }).push (word c.ss)).push c.esp

/-- Vector `v` through an interrupt gate to `entry`, with the error code `err` if the exception has one. -/
def deliver (tss : Tss) (entry : Word) (v : Nat) (err : Word) (c : Cpu) : Cpu :=
  let c₁ := (((switchStack tss c).push c.eflags).push (word c.cs)).push c.eip
  let c₂ := if hasErrorCode v then c₁.push err else c₁
  -- the gate clears TF, IF, NT, RF and VM
  { c₂ with cs := kernelCode, eip := entry, eflags := c.eflags &&& 0xFFFCBCFF }

inductive Instr where
  | nop
  | push (w : Word)
  | pushSeg (s : Seg)
  | pushad
  | movAl (b : BitVec 8)
  | out (port : BitVec 8)
  /-- `call target`, before the instruction at `ret` -/
  | call (ret target : Word)
  | addEsp4
  | popad
  | popSeg (s : Seg)
  | iretd

/-- `pop r`. -/
def Cpu.popReg (c : Cpu) (r : Reg) : Cpu := c.drop.set r c.top

def Instr.exec (c : Cpu) : Instr → Cpu
  | .nop => c
  | .push w => c.push w
  | .pushSeg s => c.push (word (c.segs s))
  | .pushad =>
    (((((((c.push (c.regs .eax)).push (c.regs .ecx)).push (c.regs .edx)).push (c.regs .ebx)).push c.esp).push
      (c.regs .ebp)).push (c.regs .esi)).push (c.regs .edi)
  | .movAl b => c.set .eax ((c.regs .eax).extractLsb' 8 24 ++ b)
  | .out _ => c
  | .call ret target => { c.push ret with eip := target }
  | .addEsp4 => c.drop
  | .popad =>
    -- the saved `esp` is skipped
    (((((((c.popReg .edi).popReg .esi).popReg .ebp).drop.popReg .ebx).popReg .edx).popReg .ecx).popReg .eax)
  | .popSeg s => { c.drop with segs := Function.update c.segs s (selector c.top) }
  | .iretd =>
    let c₁ := { c.drop with eip := c.top }
    let c₂ := { c₁.drop with cs := selector c₁.top }
    let c₃ := { c₂.drop with eflags := c₂.top }
    if rpl c₃.cs = rpl c.cs then c₃
    else { c₃ with regs := Function.update c₃.regs .esp c₃.top, ss := selector c₃.drop.top }

/-- The second parameter of `VECTOR`: 48 times `NONE_ERROR_CODE`, but for `0x1E`. -/
def errorCodeParam (v : Nat) : Instr := if v = 0x1E then .nop else .push 0

/-- `INTRvEntry` up to its call of `idt_table[v]`. -/
def stub (v : Nat) (ret handler : Word) : List Instr :=
  errorCodeParam v ::
  [.pushSeg .ds, .pushSeg .es, .pushSeg .fs, .pushSeg .gs, .pushad,
   .movAl 0x20, .out 0xa0, .out 0x20, .push (BitVec.ofNat 32 v), .call ret handler]

def intExit : List Instr :=
  [.addEsp4, .popad, .popSeg .gs, .popSeg .fs, .popSeg .es, .popSeg .ds, .addEsp4, .iretd]

/-- From the interruption to the first instruction of the handler. -/
def enter (tss : Tss) (entry ret handler : Word) (v : Nat) (err : Word) (c : Cpu) : Cpu :=
  (stub v ret handler).foldl Instr.exec (deliver tss entry v err c)

/-- From `IntExit` to after its `iretd`. -/
def leave (c : Cpu) : Cpu := intExit.foldl Instr.exec c

/-- `struct INT_stack`. -/
structure IntStack where
  intVertorNum : Word
  edi : Word
  esi : Word
  ebp : Word
  espDummy : Word
  ebx : Word
  edx : Word
  ecx : Word
  eax : Word
  gs : Selector
  fs : Selector
  es : Selector
  ds : Selector
  errCode : Word
  eip : Word
  cs : Word
  eflags : Word
  espAtSignal : Word
  ss : Word

/-- The structure at address `a`. -/
def IntStack.read (m : Mem) (a : Word) : IntStack where
  intVertorNum := load m a
  edi := load m (a + 4)
  esi := load m (a + 8)
  ebp := load m (a + 12)
  espDummy := load m (a + 16)
  ebx := load m (a + 20)
  edx := load m (a + 24)
  ecx := load m (a + 28)
  eax := load m (a + 32)
  gs := selector (load m (a + 36))
  fs := selector (load m (a + 40))
  es := selector (load m (a + 44))
  ds := selector (load m (a + 48))
  errCode := load m (a + 52)
  eip := load m (a + 56)
  cs := load m (a + 60)
  eflags := load m (a + 64)
  espAtSignal := load m (a + 68)
  ss := load m (a + 72)

/-- The words the CPU and the stub have pushed below the vector number, when vector `v` interrupts `c`. -/
def frameSize (c : Cpu) (v : Nat) : Nat :=
  12 + (if v = 0x1E then 0 else 1) + (if hasErrorCode v then 1 else 0) + 3 + (if rpl c.cs = 0 then 0 else 2)

/-- A C function entered in `c`, its return address on top of the stack and one argument above it, returns in
`c'`: the registers it must keep are as they were, and so are the `n` words above its argument, which are its
caller's. -/
structure Respects (n : Nat) (c c' : Cpu) : Prop where
  eip : c'.eip = c.top
  esp : c'.esp = c.esp + 4
  ebx : c'.regs .ebx = c.regs .ebx
  esi : c'.regs .esi = c.regs .esi
  edi : c'.regs .edi = c.regs .edi
  ebp : c'.regs .ebp = c.regs .ebp
  cs : c'.cs = c.cs
  ss : c'.ss = c.ss
  frame : ∀ k < n, load c'.mem (c.esp + 8 + BitVec.ofNat 32 (4 * k)) = load c.mem (c.esp + 8 + BitVec.ofNat 32 (4 * k))

/-- The frame `f` is that of context `c`, interrupted by vector `v`. -/
structure IntStack.Of (f : IntStack) (c : Cpu) (v : Nat) (err : Word) : Prop where
  intVertorNum : f.intVertorNum = BitVec.ofNat 32 v
  edi : f.edi = c.regs .edi
  esi : f.esi = c.regs .esi
  ebp : f.ebp = c.regs .ebp
  ebx : f.ebx = c.regs .ebx
  edx : f.edx = c.regs .edx
  ecx : f.ecx = c.regs .ecx
  eax : f.eax = c.regs .eax
  gs : f.gs = c.segs .gs
  fs : f.fs = c.segs .fs
  es : f.es = c.segs .es
  ds : f.ds = c.segs .ds
  errCode : f.errCode = if hasErrorCode v then err else 0
  eip : f.eip = c.eip
  cs : f.cs = word c.cs
  eflags : f.eflags = c.eflags
  outer : rpl c.cs ≠ 0 → f.espAtSignal = c.esp ∧ f.ss = word c.ss

/-- The handler, entered in `c₁`, finds the interrupted context `c` in its `INT_stack`, and `c₂` goes on where `c`
was interrupted. -/
structure Restored (c : Cpu) (v : Nat) (err : Word) (c₁ c₂ : Cpu) : Prop where
  frame : (IntStack.read c₁.mem (c₁.esp + 4)).Of c v err
  regs : c₂.regs = c.regs
  segs : c₂.segs = c.segs
  cs : c₂.cs = c.cs
  ss : c₂.ss = c.ss
  eip : c₂.eip = c.eip
  eflags : c₂.eflags = c.eflags

/-! ## The stack -/

namespace Cpu
variable {c : Cpu} {b w : Word} {ws : List Word}

/-- The words `ws`, the top first, are all there is on the stack below `b`. -/
structure Has (c : Cpu) (b : Word) (ws : List Word) : Prop where
  words : Stack c.mem c.esp ws
  esp_eq : c.esp = b - BitVec.ofNat 32 (4 * ws.length)

theorem has_nil (c : Cpu) : c.Has c.esp [] := ⟨trivial, (BitVec.sub_zero c.esp).symm⟩

@[simp] theorem push_esp (c : Cpu) (w : Word) : (c.push w).esp = c.esp - 4 := by simp [push, set, esp]

@[simp] theorem push_segs (c : Cpu) (w : Word) : (c.push w).segs = c.segs := rfl

theorem push_regs (c : Cpu) (w : Word) {r : Reg} (h : r ≠ .esp) : (c.push w).regs r = c.regs r := by
  simp [push, set, h]

@[simp] theorem drop_esp (c : Cpu) : c.drop.esp = c.esp + 4 := by simp [drop, set, esp]

theorem drop_regs (c : Cpu) {r : Reg} (h : r ≠ .esp) : c.drop.regs r = c.regs r := by simp [drop, set, h]

theorem set_esp (c : Cpu) {r : Reg} (w : Word) (h : r ≠ .esp) : (c.set r w).esp = c.esp := by
  simp [set, esp, h.symm]

theorem Has.push (h : c.Has b ws) (w : Word) (hlen : ws.length < 64) : (c.push w).Has b (w :: ws) := by
  constructor
  · rw [push_esp]
    exact h.words.push w (by omega)
  · rw [push_esp, h.esp_eq, List.length_cons, Nat.mul_add, BitVec.ofNat_add, BitVec.sub_sub]
    rfl

theorem Has.top_eq (h : c.Has b (w :: ws)) : c.top = w := h.words.1

theorem Has.drop (h : c.Has b (w :: ws)) : c.drop.Has b ws := by
  constructor
  · rw [drop_esp]
    exact h.words.2
  · have := h.esp_eq
    rw [drop_esp, this, List.length_cons, Nat.mul_add, BitVec.ofNat_add, ← BitVec.sub_sub]
    exact BitVec.sub_add_cancel _ _

theorem Has.set (h : c.Has b ws) {r : Reg} (hr : r ≠ .esp) (v : Word) : (c.set r v).Has b ws := by
  constructor
  · rw [set_esp c v hr]
    exact h.words
  · rw [set_esp c v hr]
    exact h.esp_eq

theorem Has.popReg (h : c.Has b (w :: ws)) {r : Reg} (hr : r ≠ .esp) : (c.popReg r).Has b ws := h.drop.set hr _

theorem Has.popReg_self (h : c.Has b (w :: ws)) (r : Reg) : (c.popReg r).regs r = w := by
  rw [Cpu.popReg, h.top_eq]
  simp [Cpu.set]

theorem popReg_ne (c : Cpu) {r r' : Reg} (h : r' ≠ r) (h' : r' ≠ .esp) : (c.popReg r).regs r' = c.regs r' := by
  simp [popReg, set, drop, h, h']

end Cpu

/-! ## Entry -/

/-- The words of a privilege change. -/
def outerWords (c : Cpu) : List Word := if rpl c.cs = 0 then [] else [c.esp, word c.ss]

/-- What the CPU pushes, the top first. -/
def cpuWords (c : Cpu) (v : Nat) (err : Word) : List Word :=
  (if hasErrorCode v then [err] else []) ++ [c.eip, word c.cs, c.eflags] ++ outerWords c

/-- The stack an interrupt is delivered on. -/
def base (tss : Tss) (c : Cpu) : Word := if rpl c.cs = 0 then c.esp else tss.esp0

theorem switchStack_has (tss : Tss) (c : Cpu) : (switchStack tss c).Has (base tss c) (outerWords c) := by
  unfold switchStack base outerWords
  split_ifs with h
  · exact c.has_nil
  · have hesp : ({ c.set .esp tss.esp0 with ss := tss.ss0 } : Cpu).esp = tss.esp0 := by simp [Cpu.set, Cpu.esp]
    have h0 := ({ c.set .esp tss.esp0 with ss := tss.ss0 } : Cpu).has_nil
    rw [hesp] at h0
    exact (h0.push _ (by simp)).push _ (by simp)

theorem outerWords_length (c : Cpu) : (outerWords c).length ≤ 2 := by
  unfold outerWords
  split_ifs <;> simp

theorem deliver_has (tss : Tss) (entry : Word) (v : Nat) (err : Word) (c : Cpu) :
    (deliver tss entry v err c).Has (base tss c) (cpuWords c v err) := by
  have hlen := outerWords_length c
  have h1 := switchStack_has tss c
  have h2 := ((h1.push c.eflags (by omega)).push (word c.cs) (by simp; omega)).push c.eip (by simp; omega)
  unfold cpuWords deliver
  dsimp only
  by_cases he : hasErrorCode v = true
  · have h3 := h2.push err (by simp; omega)
    rw [if_pos he, if_pos he]
    exact ⟨h3.words, h3.esp_eq⟩
  · rw [if_neg he, if_neg he]
    exact ⟨h2.words, h2.esp_eq⟩

theorem deliver_regs (tss : Tss) (entry : Word) (v : Nat) (err : Word) (c : Cpu) {r : Reg} (h : r ≠ .esp) :
    (deliver tss entry v err c).regs r = c.regs r := by
  unfold deliver switchStack
  split_ifs <;> simp [Cpu.push, Cpu.set, h]

theorem deliver_segs (tss : Tss) (entry : Word) (v : Nat) (err : Word) (c : Cpu) :
    (deliver tss entry v err c).segs = c.segs := by
  unfold deliver switchStack
  split_ifs <;> rfl

/-- What the stub saves of `c`, the top first; `pushad` saves the stack pointer as `d`. -/
def contextWords (c : Cpu) (d : Word) : List Word :=
  [c.regs .edi, c.regs .esi, c.regs .ebp, d, c.regs .ebx, c.regs .edx, c.regs .ecx,
    c.regs .eax, word (c.segs .gs), word (c.segs .fs), word (c.segs .es), word (c.segs .ds)]

/-- The dummy error code. -/
def dummyWords (v : Nat) : List Word := if v = 0x1E then [] else [0]

theorem pushad_has {c : Cpu} {b : Word} {ws : List Word} (h : c.Has b ws) (hlen : ws.length < 48) :
    ((Instr.pushad).exec c).Has b (c.regs .edi :: c.regs .esi :: c.regs .ebp :: c.esp :: c.regs .ebx ::
      c.regs .edx :: c.regs .ecx :: c.regs .eax :: ws) :=
  (((((((h.push _ (by omega)).push _ (by simp; omega)).push _ (by simp; omega)).push _ (by simp; omega)).push _
    (by simp; omega)).push _ (by simp; omega)).push _ (by simp; omega)).push _ (by simp; omega)

/-- A state that keeps the registers of `c`, but for the stack pointer. -/
structure Keeps (c c' : Cpu) : Prop where
  regs : ∀ r, r ≠ .esp → c'.regs r = c.regs r
  segs : c'.segs = c.segs

theorem Keeps.push {c c' : Cpu} (h : Keeps c c') (w : Word) : Keeps c (c'.push w) where
  regs r hr := (c'.push_regs w hr).trans (h.regs r hr)
  segs := h.segs

theorem Keeps.drop {c c' : Cpu} (h : Keeps c c') : Keeps c c'.drop where
  regs r hr := (c'.drop_regs hr).trans (h.regs r hr)
  segs := h.segs

theorem Keeps.setEsp {c c' : Cpu} (h : Keeps c c') (w : Word) : Keeps c (c'.set .esp w) where
  regs r hr := by simp [Cpu.set, hr, h.regs r hr]
  segs := h.segs

theorem Keeps.regs_eq {c c' : Cpu} (h : Keeps c c') (hesp : c'.esp = c.esp) : c'.regs = c.regs := by
  ext r : 1
  by_cases hr : r = .esp
  · rw [hr]
    exact hesp
  · exact h.regs r hr

theorem cpuWords_length (c : Cpu) (v : Nat) (err : Word) : (cpuWords c v err).length ≤ 6 := by
  have := outerWords_length c
  unfold cpuWords
  split_ifs <;> simp <;> omega

theorem errorCodeParam_has {c : Cpu} {b : Word} {ws : List Word} (h : c.Has b ws) (hlen : ws.length < 48) (v : Nat) :
    ((errorCodeParam v).exec c).Has b (dummyWords v ++ ws) := by
  unfold errorCodeParam dummyWords
  split_ifs
  · exact h
  · exact h.push 0 (by omega)

theorem errorCodeParam_keeps {c c' : Cpu} (h : Keeps c c') (v : Nat) : Keeps c ((errorCodeParam v).exec c') := by
  unfold errorCodeParam
  split_ifs
  · exact h
  · exact h.push 0

theorem Keeps.contextWords_eq {c c' : Cpu} (h : Keeps c c') (d : Word) : contextWords c' d = contextWords c d := by
  unfold contextWords
  rw [h.segs, h.regs _ (by decide), h.regs _ (by decide), h.regs _ (by decide), h.regs _ (by decide),
    h.regs _ (by decide), h.regs _ (by decide), h.regs _ (by decide)]

/-- The stub after its first instruction. -/
theorem stub_has {c : Cpu} {b : Word} {ws : List Word} (h : c.Has b ws) (hlen : ws.length < 32) (v : Nat)
    (ret handler : Word) :
    ∃ d, ((stub v ret handler).tail.foldl Instr.exec c).Has b (ret :: BitVec.ofNat 32 v :: (contextWords c d ++ ws)) := by
  have h1 := (((h.push (word (c.segs .ds)) (by omega)).push (word (c.segs .es)) (by simp; omega)).push
    (word (c.segs .fs)) (by simp; omega)).push (word (c.segs .gs)) (by simp; omega)
  have hk : Keeps c ((((c.push (word (c.segs .ds))).push (word (c.segs .es))).push (word (c.segs .fs))).push
      (word (c.segs .gs))) :=
    (((Keeps.push ⟨fun _ _ => rfl, rfl⟩ _).push _).push _).push _
  have h2 := pushad_has h1 (by simp; omega)
  rw [hk.regs _ (by decide), hk.regs _ (by decide), hk.regs _ (by decide), hk.regs _ (by decide),
    hk.regs _ (by decide), hk.regs _ (by decide), hk.regs _ (by decide)] at h2
  generalize hp : Instr.exec _ Instr.pushad = c₂ at h2
  have h3 := ((h2.set (show Reg.eax ≠ .esp by decide) ((c₂.regs .eax).extractLsb' 8 24 ++ (0x20 : BitVec 8))).push
    (BitVec.ofNat 32 v) (by simp; omega)).push ret (by simp; omega)
  subst hp
  exact ⟨_, h3.words, h3.esp_eq⟩

theorem enter_eq (tss : Tss) (entry ret handler : Word) (v : Nat) (err : Word) (c : Cpu) :
    enter tss entry ret handler v err c =
      (stub v ret handler).tail.foldl Instr.exec ((errorCodeParam v).exec (deliver tss entry v err c)) := by
  rw [enter, stub, List.foldl_cons, List.tail_cons]

/-- The stack the handler is entered with. -/
theorem enter_has (tss : Tss) (entry ret handler : Word) (v : Nat) (err : Word) (c : Cpu) :
    ∃ d, (enter tss entry ret handler v err c).Has (base tss c)
      (ret :: BitVec.ofNat 32 v :: (contextWords c d ++ (dummyWords v ++ cpuWords c v err))) := by
  have hlen := cpuWords_length c v err
  have hdummy : (dummyWords v).length ≤ 1 := by
    unfold dummyWords
    split_ifs <;> simp
  have hk : Keeps c (deliver tss entry v err c) :=
    ⟨fun r hr => deliver_regs tss entry v err c hr, deliver_segs tss entry v err c⟩
  have h1 := errorCodeParam_has (deliver_has tss entry v err c) (by omega) v
  obtain ⟨d, h2⟩ := stub_has h1 (by rw [List.length_append]; omega) v ret handler
  rw [(errorCodeParam_keeps hk v).contextWords_eq] at h2
  rw [enter_eq]
  exact ⟨d, h2⟩

/-! ## Exit -/

theorem selector_word (s : Selector) : selector (word s) = s := by
  unfold selector word
  apply BitVec.eq_of_toNat_eq
  have := s.isLt
  simp
  omega

section Exit
variable {c c' : Cpu} {b d : Word} {ws : List Word}

theorem popad_has {g : Reg → Word} (h : c.Has b (g .edi :: g .esi :: g .ebp :: d :: g .ebx :: g .edx :: g .ecx ::
    g .eax :: ws)) :
    ((Instr.popad).exec c).Has b ws ∧ ∀ r, r ≠ .esp → ((Instr.popad).exec c).regs r = g r := by
  have h3 := ((h.popReg (show Reg.edi ≠ .esp by decide)).popReg (show Reg.esi ≠ .esp by decide)).popReg
    (show Reg.ebp ≠ .esp by decide)
  have h7 := ((h3.drop.popReg (show Reg.ebx ≠ .esp by decide)).popReg (show Reg.edx ≠ .esp by decide)).popReg
    (show Reg.ecx ≠ .esp by decide)
  refine ⟨h7.popReg (show Reg.eax ≠ .esp by decide), ?_⟩
  intro r hr
  cases r with
  | esp => exact absurd rfl hr
  | edi =>
    simp only [Instr.exec, ne_eq, reduceCtorEq, not_false_eq_true, Cpu.popReg_ne, Cpu.drop_regs]
    exact h.popReg_self _
  | esi =>
    simp only [Instr.exec, ne_eq, reduceCtorEq, not_false_eq_true, Cpu.popReg_ne, Cpu.drop_regs]
    exact (h.popReg (show Reg.edi ≠ .esp by decide)).popReg_self _
  | ebp =>
    simp only [Instr.exec, ne_eq, reduceCtorEq, not_false_eq_true, Cpu.popReg_ne, Cpu.drop_regs]
    exact ((h.popReg (show Reg.edi ≠ .esp by decide)).popReg (show Reg.esi ≠ .esp by decide)).popReg_self _
  | ebx =>
    simp only [Instr.exec, ne_eq, reduceCtorEq, not_false_eq_true, Cpu.popReg_ne]
    exact h3.drop.popReg_self _
  | edx =>
    simp only [Instr.exec, ne_eq, reduceCtorEq, not_false_eq_true, Cpu.popReg_ne]
    exact (h3.drop.popReg (show Reg.ebx ≠ .esp by decide)).popReg_self _
  | ecx =>
    simp only [Instr.exec, ne_eq, reduceCtorEq, not_false_eq_true, Cpu.popReg_ne]
    exact ((h3.drop.popReg (show Reg.ebx ≠ .esp by decide)).popReg (show Reg.edx ≠ .esp by decide)).popReg_self _
  | eax => exact h7.popReg_self _

theorem popSeg_has {s : Seg} {w : Word} (h : c.Has b (w :: ws)) :
    ((Instr.popSeg s).exec c).Has b ws ∧ ((Instr.popSeg s).exec c).segs = Function.update c.segs s (selector w) := by
  refine ⟨⟨h.drop.words, h.drop.esp_eq⟩, ?_⟩
  show Function.update c.segs s (selector c.top) = _
  rw [h.top_eq]

/-- The four `pop`s of segment registers. -/
theorem popSegs_has {g : Seg → Word} (h : c.Has b (g .gs :: g .fs :: g .es :: g .ds :: ws)) :
    ([Instr.popSeg .gs, .popSeg .fs, .popSeg .es, .popSeg .ds].foldl Instr.exec c).Has b ws ∧
      ([Instr.popSeg .gs, .popSeg .fs, .popSeg .es, .popSeg .ds].foldl Instr.exec c).segs = fun s => selector (g s) := by
  obtain ⟨h1, e1⟩ := popSeg_has (s := .gs) h
  obtain ⟨h2, e2⟩ := popSeg_has (s := .fs) h1
  obtain ⟨h3, e3⟩ := popSeg_has (s := .es) h2
  obtain ⟨h4, e4⟩ := popSeg_has (s := .ds) h3
  refine ⟨h4, ?_⟩
  rw [List.foldl_cons, List.foldl_cons, List.foldl_cons, List.foldl_cons, List.foldl_nil, e4, e3, e2, e1]
  ext s : 1
  cases s <;> rfl

theorem popSeg_regs (c : Cpu) (s : Seg) {r : Reg} (hr : r ≠ .esp) : ((Instr.popSeg s).exec c).regs r = c.regs r :=
  c.drop_regs hr

/-- `IntExit` up to its `iretd`: which word goes where. -/
theorem intExit_loads {g : Reg → Word} {q : Seg → Word} {x y : Word} (h : c'.Has b (x :: g .edi :: g .esi :: g .ebp ::
      d :: g .ebx :: g .edx :: g .ecx :: g .eax :: q .gs :: q .fs :: q .es :: q .ds :: y :: ws)) :
    ∃ c₂, leave c' = (Instr.iretd).exec c₂ ∧ c₂.Has b ws ∧ (∀ r, r ≠ .esp → c₂.regs r = g r) ∧
      (c₂.segs = fun s => selector (q s)) ∧ c₂.cs = c'.cs ∧ c₂.ss = c'.ss := by
  obtain ⟨h1, hregs⟩ := popad_has (g := g) h.drop
  obtain ⟨h2, hsegs⟩ := popSegs_has (g := q) h1
  generalize hp : (Instr.popad).exec c'.drop = c₁ at h1 hregs h2 hsegs
  refine ⟨Cpu.drop ([Instr.popSeg .gs, .popSeg .fs, .popSeg .es, .popSeg .ds].foldl Instr.exec c₁), ?_, h2.drop, ?_, hsegs,
    ?_, ?_⟩
  · rw [← hp]
    rfl
  · intro r hr
    rw [Cpu.drop_regs _ hr]
    simp only [List.foldl_cons, List.foldl_nil, popSeg_regs _ _ hr]
    exact hregs r hr
  · rw [show c'.cs = c₁.cs by rw [← hp]; rfl]
    rfl
  · rw [show c'.ss = c₁.ss by rw [← hp]; rfl]
    rfl

/-- The same over the words the stub has pushed and one more. -/
theorem intExit_unwinds {x y : Word} (h : c'.Has b (x :: (contextWords c d ++ y :: ws))) :
    ∃ c₂, leave c' = (Instr.iretd).exec c₂ ∧ c₂.Has b ws ∧ Keeps c c₂ ∧ c₂.cs = c'.cs ∧ c₂.ss = c'.ss := by
  obtain ⟨c₂, hleave, hhas, hregs, hsegs, hcs, hss⟩ := intExit_loads (g := c.regs) (q := fun s => word (c.segs s)) h
  refine ⟨c₂, hleave, hhas, ⟨hregs, ?_⟩, hcs, hss⟩
  rw [hsegs]
  ext s : 1
  exact selector_word (c.segs s)

theorem iretd_exec (c : Cpu) : (Instr.iretd).exec c =
    if rpl (selector c.drop.top) = rpl c.cs then
      { c.drop.drop.drop with eip := c.top, cs := selector c.drop.top, eflags := c.drop.drop.top }
    else
      { c.drop.drop.drop.set .esp c.drop.drop.drop.top with
        eip := c.top, cs := selector c.drop.top, eflags := c.drop.drop.top
        ss := selector c.drop.drop.drop.drop.top } := rfl

/-- `iretd` to the same privilege. -/
theorem iretd_inner {e₁ e₂ e₃ : Word} (h : c.Has b (e₁ :: e₂ :: e₃ :: ws)) (hp : rpl (selector e₂) = rpl c.cs) :
    (Instr.iretd).exec c = { c.drop.drop.drop with eip := e₁, cs := selector e₂, eflags := e₃ } := by
  rw [iretd_exec, h.top_eq, h.drop.top_eq, h.drop.drop.top_eq, if_pos hp]

/-- `iretd` to an outer privilege. -/
theorem iretd_outer {e₁ e₂ e₃ e₄ e₅ : Word} (h : c.Has b (e₁ :: e₂ :: e₃ :: e₄ :: e₅ :: ws))
    (hp : rpl (selector e₂) ≠ rpl c.cs) :
    (Instr.iretd).exec c = { c.drop.drop.drop.set .esp e₄ with
      eip := e₁, cs := selector e₂, eflags := e₃, ss := selector e₅ } := by
  rw [iretd_exec, h.top_eq, h.drop.top_eq, h.drop.drop.top_eq, h.drop.drop.drop.top_eq,
    h.drop.drop.drop.drop.top_eq, if_neg hp]

/-- The handler leaves the stub its words. -/
theorem Respects.has {n : Nat} {ret x : Word} (hr : Respects n c c') (h : c.Has b (ret :: x :: ws)) (hn : ws.length = n) :
    ∃ x', c'.Has b (x' :: ws) := by
  refine ⟨load c'.mem (c.esp + 4), ⟨?_, ?_⟩, ?_⟩
  · rw [hr.esp]
  · rw [hr.esp]
    have hwords := h.drop.drop.words
    rw [Cpu.drop_esp, Cpu.drop_esp] at hwords
    apply hwords.congr
    intro k hk
    have := hr.frame k (by omega)
    rw [show c.esp + 4 + 4 = c.esp + 8 from BitVec.add_assoc c.esp 4 4]
    exact this
  · rw [hr.esp, ← c.drop_esp]
    exact h.drop.esp_eq

/-- The structure over the words the stub has pushed and four more. -/
theorem IntStack.read_eq {m : Mem} {a x y e₁ e₂ e₃ : Word}
    (h : Stack m a (x :: (contextWords c d ++ y :: e₁ :: e₂ :: e₃ :: ws))) :
    IntStack.read m a =
      { intVertorNum := x, edi := c.regs .edi, esi := c.regs .esi, ebp := c.regs .ebp, espDummy := d
        ebx := c.regs .ebx, edx := c.regs .edx, ecx := c.regs .ecx, eax := c.regs .eax, gs := c.segs .gs
        fs := c.segs .fs, es := c.segs .es, ds := c.segs .ds, errCode := y, eip := e₁, cs := e₂, eflags := e₃
        espAtSignal := load m (a + 68), ss := load m (a + 72) } := by
  simp only [contextWords, List.cons_append, List.nil_append, Stack,
    BitVec.add_assoc, BitVec.reduceAdd, BitVec.ofNat_eq_ofNat] at h
  obtain ⟨h0, h1, h2, h3, h4, h5, h6, h7, h8, h9, h10, h11, h12, h13, h14, h15, h16, -⟩ := h
  simp only [IntStack.read, BitVec.ofNat_eq_ofNat, h0, h1, h2, h3, h4, h5, h6, h7, h8, h9, h10, h11, h12, h13, h14, h15,
    h16, selector_word]

end Exit

/-! ## Every vector -/

section Vectors
variable (tss : Tss) (entry ret handler : Word) (v : Nat) (err : Word) (c : Cpu)

/-- The stub pushes a dummy exactly when the CPU has pushed no error code. -/
def Agrees : Prop := hasErrorCode v = decide (v = 0x1E)

theorem agrees_iff : Agrees v ↔ v ∉ [8, 10, 11, 12, 13, 14, 17] := by
  unfold Agrees hasErrorCode
  rw [Bool.eq_iff_iff]
  simp
  omega

theorem frame_length (d : Word) :
    (contextWords c d ++ (dummyWords v ++ cpuWords c v err)).length = frameSize c v := by
  unfold contextWords dummyWords cpuWords outerWords frameSize
  split_ifs <;> simp

theorem enter_cs : (enter tss entry ret handler v err c).cs = kernelCode := by
  rw [enter_eq]
  unfold errorCodeParam
  split_ifs <;> rfl

theorem enter_ss : (enter tss entry ret handler v err c).ss = if rpl c.cs = 0 then c.ss else tss.ss0 := by
  rw [enter_eq]
  unfold errorCodeParam deliver switchStack
  split_ifs <;> rfl

variable {v c}

theorem words_of_agrees (h : Agrees v) : dummyWords v ++ cpuWords c v err =
    (if hasErrorCode v then err else 0) :: c.eip :: word c.cs :: c.eflags :: outerWords c := by
  unfold Agrees at h
  unfold dummyWords cpuWords
  by_cases hv : v = 0x1E
  · have he : hasErrorCode v = true := h.trans (decide_eq_true hv)
    rw [if_pos hv, if_pos he, if_pos he]
    rfl
  · have he : hasErrorCode v = false := h.trans (decide_eq_false hv)
    simp [he, hv]

theorem hasErrorCode_of_not_agrees (h : ¬ Agrees v) : hasErrorCode v = true ∧ v ≠ 0x1E := by
  rw [agrees_iff, not_not] at h
  unfold hasErrorCode
  simp at h ⊢
  omega

theorem words_of_not_agrees (h : ¬ Agrees v) : dummyWords v ++ cpuWords c v err =
    0 :: err :: c.eip :: word c.cs :: c.eflags :: outerWords c := by
  obtain ⟨he, hv⟩ := hasErrorCode_of_not_agrees h
  unfold dummyWords cpuWords
  simp [he, hv]

/-- The handler sees the interrupted context, whatever it does after. -/
theorem frame_of_agrees (h : Agrees v) :
    (IntStack.read (enter tss entry ret handler v err c).mem ((enter tss entry ret handler v err c).esp + 4)).Of
      c v err := by
  obtain ⟨d, hhas⟩ := enter_has tss entry ret handler v err c
  rw [words_of_agrees err h] at hhas
  have hwords : Stack _ (_ + 4) _ := hhas.words.2
  rw [IntStack.read_eq hwords]
  refine ⟨rfl, rfl, rfl, rfl, rfl, rfl, rfl, rfl, rfl, rfl, rfl, rfl, rfl, rfl, rfl, rfl, ?_⟩
  intro hp
  have hout : outerWords c = [c.esp, word c.ss] := if_neg hp
  rw [hout] at hwords
  exact ⟨hwords.get (k := 17) (by simp [contextWords]), hwords.get (k := 18) (by simp [contextWords])⟩

/-- Back from the handler, `IntExit` resumes where the interrupt came. -/
theorem leave_of_agrees (h : Agrees v) {c' : Cpu}
    (hr : Respects (frameSize c v) (enter tss entry ret handler v err c) c') :
    Restored c v err (enter tss entry ret handler v err c) (leave c') := by
  obtain ⟨d, hhas⟩ := enter_has tss entry ret handler v err c
  obtain ⟨x, hx⟩ := hr.has hhas (frame_length v err c d)
  rw [words_of_agrees err h] at hx
  obtain ⟨c₂, hleave, hc₂, hkeep, hcs, hss⟩ := intExit_unwinds hx
  rw [hr.cs, enter_cs] at hcs
  rw [hr.ss, enter_ss] at hss
  have hframe := frame_of_agrees tss entry ret handler err (c := c) h
  by_cases hp : rpl c.cs = 0
  · have hout : outerWords c = [] := if_pos hp
    have hbase : base tss c = c.esp := if_pos hp
    rw [hout] at hc₂
    have hinner : rpl (selector (word c.cs)) = rpl c₂.cs := by
      rw [selector_word, hp, hcs]
      rfl
    rw [hleave, iretd_inner hc₂ hinner]
    have hesp := hc₂.drop.drop.drop.esp_eq
    rw [hbase] at hesp
    exact ⟨hframe, ((hkeep.drop).drop).drop.regs_eq (hesp.trans (BitVec.sub_zero c.esp)), hkeep.segs, selector_word c.cs, hss.trans (if_pos hp),
      rfl, rfl⟩
  · have hout : outerWords c = [c.esp, word c.ss] := if_neg hp
    rw [hout] at hc₂
    have houter : rpl (selector (word c.cs)) ≠ rpl c₂.cs := by
      rw [selector_word, hcs]
      exact hp
    rw [hleave, iretd_outer hc₂ houter]
    exact ⟨hframe, ((((hkeep.drop).drop).drop).setEsp c.esp).regs_eq (by simp [Cpu.set, Cpu.esp]), hkeep.segs,
      selector_word c.cs, selector_word c.ss, rfl, rfl⟩

/-- With a dummy on top of an error code, the frame and the stack are one word off. -/
theorem not_restored_of_not_agrees (h : ¬ Agrees v) {c' : Cpu}
    (hr : Respects (frameSize c v) (enter tss entry ret handler v err c) c') :
    ¬ Restored c v err (enter tss entry ret handler v err c) (leave c') := by
  intro hrest
  obtain ⟨d, hhas⟩ := enter_has tss entry ret handler v err c
  obtain ⟨x, hx⟩ := hr.has hhas (frame_length v err c d)
  rw [words_of_not_agrees err h] at hx hhas
  have hwords : Stack _ (_ + 4) _ := hhas.words.2
  have hframe := hrest.frame
  rw [IntStack.read_eq hwords] at hframe
  -- the handler's frame is right only if the interrupted code was at address 0 of segment 0
  have herr : err = c.eip := hframe.eip
  have heip : c.eip = word c.cs := hframe.cs
  have hcode : 0 = err := hframe.errCode.trans (if_pos (hasErrorCode_of_not_agrees h).1)
  have hcs0 : c.cs = 0 := by
    rw [← selector_word c.cs, ← heip, ← herr, ← hcode]
    rfl
  have hp : rpl c.cs = 0 := by
    rw [hcs0]
    rfl
  have hout : outerWords c = [] := if_pos hp
  have hbase : base tss c = c.esp := if_pos hp
  rw [hout, hbase] at hx
  -- and then `iretd` leaves one word on its stack
  obtain ⟨c₂, hleave, hc₂, -, hcs, -⟩ := intExit_unwinds hx
  rw [hr.cs, enter_cs] at hcs
  have hinner : rpl (selector c.eip) = rpl c₂.cs := by
    rw [heip, selector_word, hp, hcs]
    rfl
  have hregs := congrFun hrest.regs .esp
  rw [hleave, iretd_inner hc₂ hinner] at hregs
  have hesp : c.esp = c.esp - 4 := hregs.symm.trans hc₂.drop.drop.drop.esp_eq
  bv_omega

end Vectors

/-- A handler that returns at once. -/
def returned (c : Cpu) : Cpu := { c.drop with eip := c.top }

theorem respects_returned (n : Nat) (c : Cpu) : Respects n c (returned c) where
  eip := rfl
  esp := c.drop_esp
  ebx := c.drop_regs (show Reg.ebx ≠ .esp by decide)
  esi := c.drop_regs (show Reg.esi ≠ .esp by decide)
  edi := c.drop_regs (show Reg.edi ≠ .esp by decide)
  ebp := c.drop_regs (show Reg.ebp ≠ .esp by decide)
  cs := rfl
  ss := rfl
  frame _ _ := rfl

/-- For every vector of the table, every interrupted context and every handler that returns by the C convention: the
handler sees the context in its `INT_stack` and `IntExit` goes back to it, except for the exceptions with an error
code whose stub pushes a second one. -/
theorem entry_exit_restores_iff (tss : Tss) (entry ret handler : Word) (v : Fin 0x30) (err : Word) (c : Cpu) {c' : Cpu}
    (hr : Respects (frameSize c v) (enter tss entry ret handler v err c) c') :
    Restored c v err (enter tss entry ret handler v err c) (leave c') ↔
      v.val ∉ [8, 10, 11, 12, 13, 14, 17] := by
  rw [← agrees_iff]
  constructor
  · intro h
    by_contra hn
    exact not_restored_of_not_agrees tss entry ret handler err hn hr h
  · intro h
    exact leave_of_agrees tss entry ret handler err h hr

/-- A kernel thread in the middle of a function. -/
def kernelContext : Cpu where
  regs r := if r = .esp then 0xC009EFA0 else 7
  segs _ := 0x10
  cs := kernelCode
  ss := 0x10
  eip := 0xC0001500
  eflags := 0x202
  mem _ := 0

/-- The timer, which has no error code. -/
theorem entry_exit_restores_timer : Restored kernelContext 0x20 0
    (enter ⟨0x10, 0xC009F000⟩ 0xC0001900 0xC0001918 0xC0003000 0x20 0 kernelContext)
    (leave (returned (enter ⟨0x10, 0xC009F000⟩ 0xC0001900 0xC0001918 0xC0003000 0x20 0 kernelContext))) :=
  (entry_exit_restores_iff ⟨0x10, 0xC009F000⟩ 0xC0001900 0xC0001918 0xC0003000 0x20 0 kernelContext
    (respects_returned _ _)).2 (by decide)

/-- A page fault with the error code 2: `iretd` takes the error code for the address to go on at. -/
theorem page_fault_not_restored : ¬ Restored kernelContext 14 2
    (enter ⟨0x10, 0xC009F000⟩ 0xC0001800 0xC0001818 0xC0003000 14 2 kernelContext)
    (leave (returned (enter ⟨0x10, 0xC009F000⟩ 0xC0001800 0xC0001818 0xC0003000 14 2 kernelContext))) := by
  intro h
  exact absurd h.eip (by decide +kernel)

end ElephantOS.IntEntry
