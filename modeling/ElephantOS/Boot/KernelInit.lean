import ElephantOS.Boot.SetupPage

/-!
# Loading the kernel (`KernelInit` of `boot/loader.S`)

Paging is on, with the tables of `SetupPage`: the first megabyte is mapped at 0 and at 0xC0000000. An access that is not
there, a jump to `FatalKernelBroken` and a `ret` to elsewhere than the caller are `none`; the window of the page directory
is left out as well.

* `Mapped`, `phys` : the addresses in the first megabyte; `walk_mapped` : they are those of the page tables;
* `memCpy`, `loadEachSegment`, `kernelInit` : the text of `KernelInit`;
* `Phdr`, `headers` : the program headers of the image at 0x60000;
* `Image` : an ELF image that fits; `Loads` : it is loaded as the format says;
* `kernelInit_loads_iff` : for which images and which old RAM.
-/

namespace ElephantOS.Boot
open Bytes Loop
open IntEntry (Reg)

/-! ## The address space -/

/-- The `n` bytes at `a` are mapped. -/
def Mapped (a : Word) (n : Nat) : Prop :=
  a.toNat + n ≤ 0x100000 ∨ 0xC0000000 ≤ a.toNat ∧ a.toNat + n ≤ 0xC0100000

instance (a : Word) (n : Nat) : Decidable (Mapped a n) := inferInstanceAs (Decidable (_ ∨ _))

/-- The physical address of a mapped one. -/
def phys (a : Word) : Word := if a.toNat < 0xC0000000 then a else a - 0xC0000000

/-- The physical address of an access to `n` bytes. -/
def access (a : Word) (n : Nat) : Option Word := if Mapped a n then some (phys a) else none

/-- This is the address space of `SetupPage`, below the window of the directory. -/
theorem walk_mapped {ram : Ram} (h : Intended ram) {a : Word} (ha : a.toNat < 0xFFC00000) :
    walk ram 0x100 a.toNat = (access a 1).map BitVec.toNat := by
  by_cases hlow : a.toNat < 0x100000
  · rw [h.low _ hlow, access, if_pos (.inl (by omega)), phys, if_pos (by omega)]
    rfl
  by_cases hkernel : 0xC0000000 ≤ a.toNat ∧ a.toNat < 0xC0100000
  · have hsub : (a - 0xC0000000).toNat = a.toNat - 0xC0000000 := by bv_omega
    have hwalk := h.kernel (a.toNat - 0xC0000000) (by omega)
    rw [Nat.add_sub_cancel' hkernel.1] at hwalk
    rw [hwalk, access, if_pos (.inr (by omega)), phys, if_neg (by omega), Option.map_some, hsub]
  · have hnot : ¬ Mapped a 1 := by
      unfold Mapped
      omega
    rw [h.absent _ ha hlow hkernel, access, if_neg hnot]
    rfl

/-! ## `mem_cpy` -/

def movFrom (r : Reg) (a : (Reg → Word) → Word) (s : Machine) : Option Machine :=
  (access (a s.regs) 4).map fun p => s.set r (load s.mem p)

def load16 (m : Mem) (a : Word) : BitVec 16 := m (a + 1) ++ m a

def mov16From (r : Reg) (a : (Reg → Word) → Word) (s : Machine) : Option Machine :=
  (access (a s.regs) 2).map fun p => s.set16 r (load16 s.mem p)

def mov8From (r : Reg) (a : (Reg → Word) → Word) (s : Machine) : Option Machine :=
  (access (a s.regs) 1).map fun p => s.set8 r (s.mem p)

def push (v : Word) (s : Machine) : Option Machine :=
  (access (s.regs .esp - 4) 4).map fun p => { s.set .esp (s.regs .esp - 4) with mem := store s.mem p v }

/-- `push dword [a]`. -/
def pushFrom (a : (Reg → Word) → Word) (s : Machine) : Option Machine :=
  (access (a s.regs) 4).bind fun p => push (load s.mem p) s

def pop (r : Reg) (s : Machine) : Option Machine :=
  (access (s.regs .esp) 4).map fun p => (s.set .esp (s.regs .esp + 4)).set r (load s.mem p)

/-- `ret`, to the caller. -/
def ret (caller : Word) (s : Machine) : Option Machine :=
  (access (s.regs .esp) 4).bind fun p => if load s.mem p = caller then some (s.set .esp (s.regs .esp + 4)) else none

def movsb (s : Machine) : Option Machine :=
  (access (s.regs .esi) 1).bind fun p => (access (s.regs .edi) 1).map fun q =>
    { s with
      regs := Function.update (Function.update (Function.update s.regs .esi (s.regs .esi + 1)) .edi (s.regs .edi + 1)) .ecx
        (s.regs .ecx - 1)
      mem := write s.mem q [s.mem p] }

/-- `movsb`, `n` times. -/
def repMovsb : Nat → Machine → Option Machine
  | 0, s => some s
  | n + 1, s => (movsb s).bind (repMovsb n)

/-- `mem_cpy` up to its `cld`. -/
def memCpyEnter (s : Machine) : Option Machine := do
  let s ← push (s.regs .ebp) s
  let s := mov .ebp .esp s
  let s ← push (s.regs .edi) s
  let s ← push (s.regs .esi) s
  let s ← push (s.regs .ecx) s
  let s ← movFrom .edi (fun r => r .ebp + 8) s
  let s ← movFrom .esi (fun r => r .ebp + 12) s
  movFrom .ecx (fun r => r .ebp + 16) s

/-- `mem_cpy` after its `rep movsb`. -/
def memCpyLeave (caller : Word) (s : Machine) : Option Machine := do
  let s ← pop .ecx s
  let s ← pop .esi s
  let s ← pop .edi s
  -- `leave`
  let s := mov .esp .ebp s
  let s ← pop .ebp s
  ret caller s

def memCpy (caller : Word) (s : Machine) : Option Machine := do
  let s ← memCpyEnter s
  let s ← repMovsb (s.regs .ecx).toNat s
  memCpyLeave caller s

/-! ## `KernelInit` -/

/-- The copy of one segment; `here` is the return address of its call. -/
def copySegment (here : Word) (s : Machine) : Option Machine := do
  let s ← pushFrom (fun r => r .ebx + 16) s
  let s ← movFrom .eax (fun r => r .ebx + 4) s
  let s := addImm .eax 0x60000 s
  let s ← push (s.regs .eax) s
  let s ← pushFrom (fun r => r .ebx + 8) s
  let s ← push here s
  let s ← memCpy here s
  return addImm .esp 12 s

/-- `cmp byte [ebx],PT_NULL` and its `je`. -/
def copyUnlessNull (here : Word) (s : Machine) : Option Machine :=
  (access (s.regs .ebx) 1).bind fun p => if s.mem p = 0 then some s else copySegment here s

/-- One pass of `.LoadKernelEachSegment`, with the decrement of its `loop`. -/
def loadEachSegment (here : Word) (s : Machine) : Option Machine :=
  (copyUnlessNull here s).map fun s => decEcx (add .ebx .edx s)

/-- `jne FatalKernelBroken`, which does not return. -/
def jneFatal (equal : Bool) (s : Machine) : Option Machine := if equal then some s else none

def kernelInit (caller here : Word) (fuel : Nat) (s : Machine) : Option Machine := do
  let s ← movFrom .eax (fun _ => 0x60000) s
  let s ← jneFatal (s.regs .eax == 0x464c457f) s
  let s ← mov8From .eax (fun _ => 0x60000 + 4) s
  let s ← jneFatal (low8 (s.regs .eax) == 1) s
  let s ← mov8From .eax (fun _ => 0x60000 + 5) s
  let s ← jneFatal (low8 (s.regs .eax) == 1) s
  let s ← movFrom .ebx (fun _ => 0x60000 + 28) s
  let s := addImm .ebx 0x60000 s
  let s := movImm .edx 0 s
  let s ← mov16From .edx (fun _ => 0x60000 + 42) s
  let s ← mov16From .ecx (fun _ => 0x60000 + 44) s
  let s ← Loop.run (loadEachSegment here) (fun s => s.regs .ecx == 0) fuel s
  ret caller s

/-! ## The image -/

/-- The fields of `Elf32_Phdr` that matter here. -/
structure Phdr where
  type : Word
  offset : Word
  vaddr : Word
  filesz : Word
  memsz : Word
  deriving DecidableEq

def Phdr.read (m : Mem) (a : Word) : Phdr where
  type := load m a
  offset := load m (a + 4)
  vaddr := load m (a + 8)
  filesz := load m (a + 16)
  memsz := load m (a + 20)

def ptLoad : Word := 1

/-- `e_phoff`, `e_phentsize` and `e_phnum` of the image at 0x60000. -/
def phoff (m : Mem) : Word := load m (0x60000 + 28)

def phentsize (m : Mem) : BitVec 16 := load16 m (0x60000 + 42)

def phnum (m : Mem) : BitVec 16 := load16 m (0x60000 + 44)

/-- The address of program header `i`. -/
def headerAt (m : Mem) (i : Nat) : Word := 0x60000 + phoff m + BitVec.ofNat 32 (i * (phentsize m).toNat)

def headers (m : Mem) : List Phdr := (List.range (phnum m).toNat).map fun i => Phdr.read m (headerAt m i)

namespace Phdr

/-- `KernelInit` copies it: its type is not `PT_NULL`, as far as the lowest byte shows. -/
def Copied (h : Phdr) : Prop := low8 h.type ≠ 0

instance (h : Phdr) : Decidable h.Copied := inferInstanceAs (Decidable (¬ _))

/-- Byte `b` of physical memory is in the file part of the segment. -/
def fills (h : Phdr) (b : Word) : Bool := (b - phys h.vaddr).toNat < h.filesz.toNat

/-- It is in the segment. -/
def covers (h : Phdr) (b : Word) : Bool := (b - phys h.vaddr).toNat < h.memsz.toNat

/-- The address of its byte in the image. -/
def source (h : Phdr) (b : Word) : Word := 0x60000 + h.offset + (b - phys h.vaddr)

/-- The bytes at its destination that are its own: all of a segment that is to be loaded, else what is copied. -/
def size (h : Phdr) : Nat := if h.type = ptLoad then h.memsz.toNat else h.filesz.toNat

end Phdr

/-- The byte `v` is what the format asks for at `b`, over the memory `m` that holds the image. -/
structure Wanted (m : Mem) (b : Word) (v : BitVec 8) : Prop where
  file : ∀ h ∈ headers m, h.type = ptLoad → h.fills b → v = m (h.source b)
  zero : ∀ h ∈ headers m, h.type = ptLoad → h.covers b → ¬ h.fills b → v = 0
  other : (∀ h ∈ headers m, h.type = ptLoad → ¬ h.covers b) → v = m b

/-- The bytes below the stack of the loader that `KernelInit` uses. -/
def Scratch (b : Word) : Prop := 0x5DC ≤ b.toNat ∧ b.toNat < 0x5FC

/-- The image in `m` is loaded in `m'`. -/
def Loads (m m' : Mem) : Prop := ∀ b, ¬ Scratch b → Wanted m b (m' b)

/-- The loader and its stack. -/
def InLoader (b : Word) : Prop := 0x500 ≤ b.toNat ∧ b.toNat < 0xE00

/-- An ELF image of `size` bytes at 0x60000. -/
structure Image (m : Mem) (size : Nat) : Prop where
  magic : load m 0x60000 = 0x464C457F
  class32 : m (0x60000 + 4) = 1
  lsb : m (0x60000 + 5) = 1
  nonempty : 0 < (phnum m).toNat
  megabyte : 0x60000 + size ≤ 0x100000
  entry : 32 ≤ (phentsize m).toNat
  table : (phoff m).toNat + (phnum m).toNat * (phentsize m).toNat ≤ size
  file : ∀ h ∈ headers m, h.Copied → h.offset.toNat + h.filesz.toNat ≤ size
  filesz : ∀ h ∈ headers m, h.type = ptLoad → h.filesz.toNat ≤ h.memsz.toNat

/-- The destination of a header is mapped, and neither in the image nor in the loader. -/
structure Apart (size : Nat) (h : Phdr) : Prop where
  mapped : Mapped h.vaddr h.size
  image : ∀ b, (b - phys h.vaddr).toNat < h.size → ¬ (0x60000 ≤ b.toNat ∧ b.toNat < 0x60000 + size)
  loader : ∀ b, (b - phys h.vaddr).toNat < h.size → ¬ InLoader b

/-- The segments to be loaded are so, and do not overlap. -/
structure Placed (m : Mem) (size : Nat) : Prop where
  apart : ∀ h ∈ headers m, h.type = ptLoad → Apart size h
  disjoint : ∀ g ∈ headers m, ∀ h ∈ headers m, g.type = ptLoad → h.type = ptLoad → g ≠ h → ∀ b, ¬ (g.covers b ∧ h.covers b)

/-- The other headers that are copied are so. -/
def ExtrasPlaced (m : Mem) (size : Nat) : Prop := ∀ h ∈ headers m, h.Copied → h.type ≠ ptLoad → Apart size h

/-- The last of the headers `hs` that is copied over `b`. -/
def last (hs : List Phdr) (b : Word) : Option Phdr := hs.reverse.find? fun h => decide h.Copied && h.fills b

/-- What the format asks for stands where it should when the headers are copied one after the other: where a header that
is not to be loaded is the last over a byte, it has the right one; and a byte to be 0 that none is copied over is 0. -/
structure Ready (m : Mem) : Prop where
  extras : ∀ b h, last (headers m) b = some h → h.type ≠ ptLoad → Wanted m b (m (h.source b))
  zero : ∀ b, last (headers m) b = none → ∀ h ∈ headers m, h.type = ptLoad → h.covers b → m b = 0

/-! ## The stack -/

theorem Mapped.mono {a : Word} {n k : Nat} (h : Mapped a n) (hk : k ≤ n) : Mapped a k := by
  unfold Mapped at h ⊢
  omega

theorem access_of_mapped {a : Word} {n : Nat} (h : Mapped a n) : access a n = some (phys a) := if_pos h

/-- `KernelInit` has pushed the words `ws`, and `m` is the memory but for its stack. -/
structure OnStack (m : Mem) (s : Machine) (ws : List Word) : Prop where
  esp : s.regs .esp = 0xC00005FC - BitVec.ofNat 32 (4 * ws.length)
  words : Stack s.mem (0x5FC - BitVec.ofNat 32 (4 * ws.length)) ws
  mem : ∀ b, ¬ Scratch b → s.mem b = m b

section Stack
variable {m : Mem} {s : Machine} {v : Word} {ws : List Word}

/-- An access to the stack. -/
theorem access_stack {k : Nat} (hk : k ≤ 8) :
    access (0xC00005FC - BitVec.ofNat 32 (4 * k)) 4 = some (0x5FC - BitVec.ofNat 32 (4 * k)) := by
  have hmap : Mapped (0xC00005FC - BitVec.ofNat 32 (4 * k)) 4 := by
    unfold Mapped
    bv_omega
  have hphys : phys (0xC00005FC - BitVec.ofNat 32 (4 * k)) = 0x5FC - BitVec.ofNat 32 (4 * k) := by
    rw [phys, if_neg (by bv_omega)]
    bv_omega
  rw [access_of_mapped hmap, hphys]

theorem sub_four (a : Word) (k : Nat) : a - BitVec.ofNat 32 (4 * k) - 4 = a - BitVec.ofNat 32 (4 * (k + 1)) := by
  show a - BitVec.ofNat 32 (4 * k) - BitVec.ofNat 32 4 = _
  rw [Nat.mul_add, Nat.mul_one, BitVec.ofNat_add, BitVec.sub_sub]

theorem sub_add_four (a : Word) (k : Nat) : a - BitVec.ofNat 32 (4 * (k + 1)) + 4 = a - BitVec.ofNat 32 (4 * k) := by
  rw [← sub_four]
  exact BitVec.sub_add_cancel ..

theorem OnStack.push (h : OnStack m s ws) (v : Word) (hlen : ws.length < 8) : ∃ t, Boot.push v s = some t ∧
    OnStack m t (v :: ws) ∧ ∀ r, r ≠ .esp → t.regs r = s.regs r := by
  have haddr : s.regs .esp - 4 = 0xC00005FC - BitVec.ofNat 32 (4 * (ws.length + 1)) := by rw [h.esp, sub_four]
  refine ⟨{ s.set .esp (s.regs .esp - 4) with mem := store s.mem (0x5FC - BitVec.ofNat 32 (4 * (ws.length + 1))) v },
    ?_, ⟨?_, ?_, ?_⟩, fun r hr => s.set_ne _ hr⟩
  · rw [Boot.push, haddr, access_stack (by omega)]
    rfl
  · rw [List.length_cons, ← haddr]
    show (s.set .esp (s.regs .esp - 4)).regs .esp = _
    exact s.set_self ..
  · rw [List.length_cons, ← sub_four]
    exact h.words.push v (by omega)
  · intro b hb
    rw [← h.mem b hb]
    apply store_of_le
    unfold Scratch at hb
    bv_omega

theorem OnStack.set {r : Reg} (h : OnStack m s ws) (hr : r ≠ .esp) (v : Word) : OnStack m (s.set r v) ws :=
  ⟨by rw [Machine.set_ne _ _ hr.symm]; exact h.esp, h.words, h.mem⟩

/-- The word on top of the stack, and the stack without it. -/
theorem OnStack.top (h : OnStack m s (v :: ws)) (hlen : ws.length < 8) : ∃ p,
    access (s.regs .esp) 4 = some p ∧ load s.mem p = v ∧ OnStack m (s.set .esp (s.regs .esp + 4)) ws := by
  have haddr := h.esp
  rw [List.length_cons] at haddr
  have hload := h.words.1
  rw [List.length_cons] at hload
  refine ⟨_, by rw [haddr, access_stack (by omega)], hload, ?_, ?_, h.mem⟩
  · rw [Machine.set_self, haddr, sub_add_four]
  · have hrest := h.words.2
    rw [List.length_cons, sub_add_four] at hrest
    exact hrest

theorem OnStack.pop {r : Reg} (h : OnStack m s (v :: ws)) (hr : r ≠ .esp) (hlen : ws.length < 8) : ∃ t,
    Boot.pop r s = some t ∧ OnStack m t ws ∧ t.regs r = v ∧ ∀ r', r' ≠ .esp → r' ≠ r → t.regs r' = s.regs r' := by
  obtain ⟨p, haccess, hload, hrest⟩ := h.top hlen
  refine ⟨(s.set .esp (s.regs .esp + 4)).set r v, ?_, hrest.set hr v, Machine.set_self .., ?_⟩
  · rw [Boot.pop, haccess, Option.map_some, hload]
  · intro r' hesp hne
    rw [Machine.set_ne _ _ hne, Machine.set_ne _ _ hesp]

/-- `mov r,[a]` from the stack, `j` words below its base. -/
theorem OnStack.movFrom {r : Reg} {a : (Reg → Word) → Word} (h : OnStack m s ws) (hlen : ws.length ≤ 8) {j k : Nat}
    (hk : k < ws.length) (hj : k + j = ws.length) (ha : a s.regs = 0xC00005FC - BitVec.ofNat 32 (4 * j)) :
    Boot.movFrom r a s = some (s.set r ws[k]) := by
  have hget := h.words.get hk
  have hsp : 0x5FC - BitVec.ofNat 32 (4 * ws.length) + BitVec.ofNat 32 (4 * k) =
      (0x5FC - BitVec.ofNat 32 (4 * j) : Word) := by bv_omega
  rw [hsp] at hget
  rw [Boot.movFrom, ha, access_stack (by omega), Option.map_some, hget]

theorem OnStack.ret (h : OnStack m s (v :: ws)) (hlen : ws.length < 8) : ∃ t, Boot.ret v s = some t ∧ OnStack m t ws ∧
    ∀ r, r ≠ .esp → t.regs r = s.regs r := by
  obtain ⟨p, haccess, hload, hrest⟩ := h.top hlen
  refine ⟨s.set .esp (s.regs .esp + 4), ?_, hrest, fun r hr => s.set_ne _ hr⟩
  rw [Boot.ret, haccess, Option.bind_some, hload, if_pos rfl]

end Stack

/-! ## Copying -/

theorem phys_add {a : Word} {n k : Nat} (h : Mapped a n) (hk : k ≤ n) :
    Mapped (a + BitVec.ofNat 32 k) (n - k) ∧ phys (a + BitVec.ofNat 32 k) = phys a + BitVec.ofNat 32 k := by
  unfold Mapped at h ⊢
  unfold phys
  constructor
  · bv_omega
  · by_cases hlow : a.toNat < 0xC0000000
    · rw [if_pos hlow, if_pos (by bv_omega)]
    · rw [if_neg hlow, if_neg (by bv_omega)]
      bv_omega

/-- The `n` bytes at `a`. -/
def bytesAt (m : Mem) (a : Word) (n : Nat) : List (BitVec 8) := (List.range n).map (byteAt m a)

theorem bytesAt_length (m : Mem) (a : Word) (n : Nat) : (bytesAt m a n).length = n := by
  rw [bytesAt, List.length_map, List.length_range]

theorem add_one_ofNat (a : Word) (k : Nat) : a + 1 + BitVec.ofNat 32 k = a + BitVec.ofNat 32 (k + 1) := by
  rw [BitVec.add_assoc, Nat.add_comm, BitVec.ofNat_add]
  rfl

theorem bytesAt_succ (m : Mem) (a : Word) (n : Nat) : bytesAt m a (n + 1) = m a :: bytesAt m (a + 1) n := by
  unfold bytesAt
  rw [List.range_succ_eq_map, List.map_cons, List.map_map]
  congr 1
  · exact congrArg m (BitVec.add_zero a)
  · apply List.map_congr_left
    intro k _
    exact congrArg m (add_one_ofNat a k).symm

theorem bytesAt_congr {m m' : Mem} {a : Word} {n : Nat} (h : ∀ k < n, byteAt m' a k = byteAt m a k) :
    bytesAt m' a n = bytesAt m a n := by
  apply List.map_congr_left
  intro k hk
  exact h k (List.mem_range.mp hk)

/-- One byte. -/
structure Moves (s t : Machine) : Prop where
  mem : t.mem = write s.mem (phys (s.regs .edi)) [s.mem (phys (s.regs .esi))]
  esi : t.regs .esi = s.regs .esi + 1
  edi : t.regs .edi = s.regs .edi + 1
  regs : ∀ r, r ≠ .esi → r ≠ .edi → r ≠ .ecx → t.regs r = s.regs r

theorem movsb_moves {s : Machine} (hsrc : Mapped (s.regs .esi) 1) (hdst : Mapped (s.regs .edi) 1) :
    ∃ t, movsb s = some t ∧ Moves s t := by
  refine ⟨{ s with
    regs := Function.update (Function.update (Function.update s.regs .esi (s.regs .esi + 1)) .edi (s.regs .edi + 1)) .ecx
      (s.regs .ecx - 1)
    mem := write s.mem (phys (s.regs .edi)) [s.mem (phys (s.regs .esi))] }, ?_, ⟨rfl, rfl, rfl, ?_⟩⟩
  · rw [movsb, access_of_mapped hsrc, Option.bind_some, access_of_mapped hdst]
    rfl
  · intro r hesi hedi hecx
    show Function.update (Function.update (Function.update _ _ _) _ _) _ _ r = _
    rw [Function.update_of_ne hecx, Function.update_of_ne hedi, Function.update_of_ne hesi]

/-- `rep movsb` to bytes that are not among those it reads. -/
theorem repMovsb_ends {n : Nat} {s : Machine} (hsrc : Mapped (s.regs .esi) n) (hdst : Mapped (s.regs .edi) n)
    (happart : ∀ j < n, ∀ k < n, phys (s.regs .esi) + BitVec.ofNat 32 j ≠ phys (s.regs .edi) + BitVec.ofNat 32 k) :
    ∃ t, repMovsb n s = some t ∧ t.mem = write s.mem (phys (s.regs .edi)) (bytesAt s.mem (phys (s.regs .esi)) n) ∧
      ∀ r, r ≠ .esi → r ≠ .edi → r ≠ .ecx → t.regs r = s.regs r := by
  induction n generalizing s with
  | zero => exact ⟨s, rfl, (write_nil _ _).symm, fun _ _ _ _ => rfl⟩
  | succ n ih =>
    obtain ⟨s₁, hstep, hs₁⟩ := movsb_moves (hsrc.mono (by omega)) (hdst.mono (by omega))
    obtain ⟨hsrc', hesi⟩ := phys_add (k := 1) hsrc (by omega)
    obtain ⟨hdst', hedi⟩ := phys_add (k := 1) hdst (by omega)
    change Mapped (s.regs .esi + 1) n at hsrc'
    change phys (s.regs .esi + 1) = phys (s.regs .esi) + 1 at hesi
    change Mapped (s.regs .edi + 1) n at hdst'
    change phys (s.regs .edi + 1) = phys (s.regs .edi) + 1 at hedi
    rw [← hs₁.esi] at hsrc' hesi
    rw [← hs₁.edi] at hdst' hedi
    obtain ⟨t, ht, hmem, hkeep⟩ := ih hsrc' hdst' (by
      intro j hj k hk
      rw [hesi, hedi, add_one_ofNat, add_one_ofNat]
      exact happart (j + 1) (by omega) (k + 1) (by omega))
    refine ⟨t, ?_, ?_, ?_⟩
    · rw [repMovsb, hstep]
      exact ht
    · -- the bytes still to be read are as they were
      have hrest : bytesAt s₁.mem (phys (s.regs .esi) + 1) n = bytesAt s.mem (phys (s.regs .esi) + 1) n := by
        apply bytesAt_congr
        intro j hj
        unfold byteAt
        rw [hs₁.mem, add_one_ofNat]
        apply write_of_le
        have h := happart (j + 1) (by omega) 0 (by omega)
        rw [List.length_singleton]
        bv_omega
      have hlen : n + 1 ≤ 0x100000 := by
        unfold Mapped at hsrc
        omega
      have hfit : [s.mem (phys (s.regs .esi))].length + (bytesAt s.mem (phys (s.regs .esi) + 1) n).length ≤ 2 ^ 32 := by
        rw [bytesAt_length, List.length_singleton]
        omega
      rw [hmem, hesi, hedi, hrest, hs₁.mem, bytesAt_succ]
      exact write_append s.mem (phys (s.regs .edi)) hfit
    · intro r h1 h2 h3
      rw [hkeep r h1 h2 h3, hs₁.regs r h1 h2 h3]

theorem Scratch.inLoader {b : Word} (h : Scratch b) : InLoader b := by
  unfold Scratch at h
  unfold InLoader
  omega

/-- Bytes from `src` to `dst`, as `mem_cpy` is called. -/
structure Copyable (dst src : Word) (n : Nat) : Prop where
  readable : Mapped src n
  writable : Mapped dst n
  apart : ∀ j < n, ∀ k < n, phys src + BitVec.ofNat 32 j ≠ phys dst + BitVec.ofNat 32 k
  fromLoader : ∀ k < n, ¬ InLoader (phys src + BitVec.ofNat 32 k)
  toLoader : ∀ k < n, ¬ InLoader (phys dst + BitVec.ofNat 32 k)

/-- A copy leaves the stack. -/
theorem OnStack.write {m : Mem} {s : Machine} {ws : List Word} {dst src : Word} {n : Nat} (h : OnStack m s ws)
    (hlen : ws.length ≤ 8) (hc : Copyable dst src n) {t : Machine} (hesp : t.regs .esp = s.regs .esp)
    (hmem : t.mem = Bytes.write s.mem (phys dst) (bytesAt s.mem (phys src) n)) :
    OnStack (Bytes.write m (phys dst) (bytesAt m (phys src) n)) t ws := by
  have hout : ∀ b, InLoader b → n ≤ (b - phys dst).toNat := by
    intro b hb
    by_contra hlt
    apply hc.toLoader (b - phys dst).toNat (by omega)
    rwa [BitVec.ofNat_toNat, BitVec.setWidth_eq, BitVec.add_comm, BitVec.sub_add_cancel]
  have hbytes : bytesAt s.mem (phys src) n = bytesAt m (phys src) n := by
    apply bytesAt_congr
    intro k hk
    exact h.mem _ fun hs => hc.fromLoader k hk hs.inLoader
  refine ⟨hesp.trans h.esp, ?_, ?_⟩
  · rw [hmem]
    apply h.words.congr
    intro k hk
    apply load_congr
    intro b hb
    apply write_of_le
    rw [bytesAt_length]
    apply hout
    unfold InLoader
    bv_omega
  · intro b hb
    rw [hmem, hbytes, Bytes.write, Bytes.write, h.mem b hb]

/-- The registers `mem_cpy` uses. -/
def Reg.cpy (r : Reg) : Prop := r = .esp ∨ r = .ebp ∨ r = .esi ∨ r = .edi ∨ r = .ecx

section MemCpy
variable {m : Mem} {s : Machine} {caller dst src n : Word}

theorem memCpyEnter_ends (h : OnStack m s [caller, dst, src, n]) : ∃ t, memCpyEnter s = some t ∧
    OnStack m t [s.regs .ecx, s.regs .esi, s.regs .edi, s.regs .ebp, caller, dst, src, n] ∧
    (t.regs .edi = dst ∧ t.regs .esi = src ∧ t.regs .ecx = n ∧ t.regs .ebp = 0xC00005FC - BitVec.ofNat 32 (4 * 5)) ∧
    ∀ r, ¬ Reg.cpy r → t.regs r = s.regs r := by
  obtain ⟨s₁, hpush₁, h₁, hregs₁⟩ := h.push (s.regs .ebp) (by simp)
  have h₂ := h₁.set (r := .ebp) (by decide) (s₁.regs .esp)
  obtain ⟨s₂, hs₂⟩ : ∃ s₂, s₂ = mov .ebp .esp s₁ := ⟨_, rfl⟩
  rw [← mov, ← hs₂] at h₂
  have hregs₂ : ∀ r, r ≠ .ebp → s₂.regs r = s₁.regs r := by
    intro r hr
    rw [hs₂]
    exact s₁.set_ne _ hr
  obtain ⟨s₃, hpush₃, h₃, hregs₃⟩ := h₂.push (s₂.regs .edi) (by simp)
  obtain ⟨s₄, hpush₄, h₄, hregs₄⟩ := h₃.push (s₃.regs .esi) (by simp)
  obtain ⟨s₅, hpush₅, h₅, hregs₅⟩ := h₄.push (s₄.regs .ecx) (by simp)
  have hebp : s₅.regs .ebp = 0xC00005FC - BitVec.ofNat 32 (4 * 5) := by
    rw [hregs₅ .ebp (by decide), hregs₄ .ebp (by decide), hregs₃ .ebp (by decide), hs₂, mov, Machine.set_self, h₁.esp]
    rfl
  have hdst : (0xC00005FC - BitVec.ofNat 32 (4 * 5) + 8 : Word) = 0xC00005FC - BitVec.ofNat 32 (4 * 3) := by decide
  have hsrc : (0xC00005FC - BitVec.ofNat 32 (4 * 5) + 12 : Word) = 0xC00005FC - BitVec.ofNat 32 (4 * 2) := by decide
  have hn : (0xC00005FC - BitVec.ofNat 32 (4 * 5) + 16 : Word) = 0xC00005FC - BitVec.ofNat 32 (4 * 1) := by decide
  have hedi := h₅.movFrom (r := .edi) (a := fun r => r .ebp + 8) (by simp) (k := 5) (j := 3) (by simp) (by simp)
    (by rw [hebp, hdst])
  have h₆ := h₅.set (r := .edi) (by decide) dst
  have hesi := h₆.movFrom (r := .esi) (a := fun r => r .ebp + 12) (by simp) (k := 6) (j := 2) (by simp) (by simp)
    (by rw [Machine.set_ne _ _ (by decide), hebp, hsrc])
  have h₇ := h₆.set (r := .esi) (by decide) src
  have hecx := h₇.movFrom (r := .ecx) (a := fun r => r .ebp + 16) (by simp) (k := 7) (j := 1) (by simp) (by simp)
    (by rw [Machine.set_ne _ _ (by decide), Machine.set_ne _ _ (by decide), hebp, hn])
  have h₈ := h₇.set (r := .ecx) (by decide) n
  have hdi : s₂.regs .edi = s.regs .edi := by rw [hregs₂ .edi (by decide), hregs₁ .edi (by decide)]
  have hsi : s₃.regs .esi = s.regs .esi := by
    rw [hregs₃ .esi (by decide), hregs₂ .esi (by decide), hregs₁ .esi (by decide)]
  have hcx : s₄.regs .ecx = s.regs .ecx := by
    rw [hregs₄ .ecx (by decide), hregs₃ .ecx (by decide), hregs₂ .ecx (by decide), hregs₁ .ecx (by decide)]
  refine ⟨((s₅.set .edi dst).set .esi src).set .ecx n, ?_, ?_, ⟨rfl, rfl, rfl, ?_⟩, ?_⟩
  · unfold memCpyEnter
    simp only [Option.bind_eq_bind, hpush₁, Option.bind_some, ← hs₂, hpush₃, hpush₄, hpush₅, hedi]
    exact (congrArg (Option.bind · _) hesi).trans hecx
  · rw [hdi, hsi, hcx] at h₈
    exact h₈
  · rw [Machine.set_ne _ _ (by decide), Machine.set_ne _ _ (by decide), Machine.set_ne _ _ (by decide)]
    exact hebp
  · intro r hr
    unfold Reg.cpy at hr
    simp only [not_or] at hr
    obtain ⟨hr1, hr2, hr3, hr4, hr5⟩ := hr
    rw [Machine.set_ne _ _ hr5, Machine.set_ne _ _ hr3, Machine.set_ne _ _ hr4, hregs₅ r hr1, hregs₄ r hr1, hregs₃ r hr1,
      hregs₂ r hr2, hregs₁ r hr1]

theorem memCpyLeave_ends {c d e b : Word} (h : OnStack m s [c, d, e, b, caller, dst, src, n])
    (hebp : s.regs .ebp = 0xC00005FC - BitVec.ofNat 32 (4 * 5)) : ∃ t, memCpyLeave caller s = some t ∧
    OnStack m t [dst, src, n] ∧ (t.regs .ecx = c ∧ t.regs .esi = d ∧ t.regs .edi = e ∧ t.regs .ebp = b) ∧
    ∀ r, ¬ Reg.cpy r → t.regs r = s.regs r := by
  obtain ⟨s₁, hpop₁, h₁, hecx, hregs₁⟩ := h.pop (r := .ecx) (by decide) (by simp)
  obtain ⟨s₂, hpop₂, h₂, hesi, hregs₂⟩ := h₁.pop (r := .esi) (by decide) (by simp)
  obtain ⟨s₃, hpop₃, h₃, hedi, hregs₃⟩ := h₂.pop (r := .edi) (by decide) (by simp)
  -- `ebp` is where the stack pointer has come back to
  have hesp : s₃.regs .ebp = s₃.regs .esp := by
    rw [hregs₃ .ebp (by decide) (by decide), hregs₂ .ebp (by decide) (by decide), hregs₁ .ebp (by decide) (by decide),
      hebp, h₃.esp]
    rfl
  obtain ⟨s₄, hs₄⟩ : ∃ s₄, s₄ = mov .esp .ebp s₃ := ⟨_, rfl⟩
  have hregs₄ : s₄.regs = s₃.regs := by
    rw [hs₄, mov, Machine.set, hesp]
    exact Function.update_eq_self ..
  have h₄ : OnStack m s₄ [b, caller, dst, src, n] := by
    refine ⟨?_, ?_, ?_⟩
    · rw [hregs₄]
      exact h₃.esp
    · rw [hs₄]
      exact h₃.words
    · rw [hs₄]
      exact h₃.mem
  obtain ⟨s₅, hpop₅, h₅, hebp₅, hregs₅⟩ := h₄.pop (r := .ebp) (by decide) (by simp)
  obtain ⟨t, hret, ht, hregs⟩ := h₅.ret (by simp)
  refine ⟨t, ?_, ht, ⟨?_, ?_, ?_, ?_⟩, ?_⟩
  · unfold memCpyLeave
    simp only [Option.bind_eq_bind, hpop₁, Option.bind_some, hpop₂, hpop₃, ← hs₄, hpop₅, hret]
  · rw [hregs .ecx (by decide), hregs₅ .ecx (by decide) (by decide), hregs₄, hregs₃ .ecx (by decide) (by decide),
      hregs₂ .ecx (by decide) (by decide), hecx]
  · rw [hregs .esi (by decide), hregs₅ .esi (by decide) (by decide), hregs₄, hregs₃ .esi (by decide) (by decide), hesi]
  · rw [hregs .edi (by decide), hregs₅ .edi (by decide) (by decide), hregs₄, hedi]
  · rw [hregs .ebp (by decide), hebp₅]
  · intro r hr
    unfold Reg.cpy at hr
    simp only [not_or] at hr
    obtain ⟨hr1, hr2, hr3, hr4, hr5⟩ := hr
    rw [hregs r hr1, hregs₅ r hr1 hr2, hregs₄, hregs₃ r hr1 hr4, hregs₂ r hr1 hr3, hregs₁ r hr1 hr5]

/-- `mem_cpy` copies, and leaves every register but ESP. -/
theorem memCpy_ends (h : OnStack m s [caller, dst, src, n]) (hc : Copyable dst src n.toNat) : ∃ t,
    memCpy caller s = some t ∧ OnStack (write m (phys dst) (bytesAt m (phys src) n.toNat)) t [dst, src, n] ∧
    ∀ r, r ≠ .esp → t.regs r = s.regs r := by
  obtain ⟨s₁, henter, h₁, ⟨hedi, hesi, hecx, hebp⟩, hregs₁⟩ := memCpyEnter_ends h
  obtain ⟨s₂, hrep, hmem, hregs₂⟩ := repMovsb_ends (n := n.toNat) (s := s₁) (by rw [hesi]; exact hc.readable)
    (by rw [hedi]; exact hc.writable) (by rw [hedi, hesi]; exact hc.apart)
  rw [hedi, hesi] at hmem
  have h₂ := h₁.write (by simp) hc (hregs₂ .esp (by decide) (by decide) (by decide)) hmem
  obtain ⟨t, hleave, ht, ⟨hcx, hsi, hdi, hbp⟩, hregs⟩ := memCpyLeave_ends h₂ (by
    rw [hregs₂ .ebp (by decide) (by decide) (by decide)]
    exact hebp)
  refine ⟨t, ?_, ht, ?_⟩
  · unfold memCpy
    simp only [Option.bind_eq_bind, henter, Option.bind_some, hecx, hrep, hleave]
  · intro r hr
    by_cases hc : Reg.cpy r
    · obtain h | h | h | h | h := hc
      · exact absurd h hr
      · rw [h, hbp]
      · rw [h, hsi]
      · rw [h, hdi]
      · rw [h, hcx]
    · rw [hregs r hc, hregs₂ r (fun h => hc (.inr (.inr (.inl h)))) (fun h => hc (.inr (.inr (.inr (.inl h)))))
        (fun h => hc (.inr (.inr (.inr (.inr h))))), hregs₁ r hc]

end MemCpy

/-! ## One segment -/

section Segment
variable {m : Mem} {s : Machine} {ws : List Word}

/-- Memory that is not the loader's is read as it is in `m`. -/
theorem OnStack.load_high (h : OnStack m s ws) {a : Word} (hlow : 0xE00 ≤ a.toNat) (hhigh : a.toNat + 4 ≤ 0x100000) :
    access a 4 = some a ∧ load s.mem a = load m a := by
  constructor
  · rw [access_of_mapped (.inl hhigh), phys, if_pos (by omega)]
  · apply load_congr
    intro b hb
    apply h.mem
    unfold Scratch
    bv_omega

theorem copySegment_ends (here : Word) (h : OnStack m s []) (hlow : 0xE00 ≤ (s.regs .ebx).toNat)
    (hhigh : (s.regs .ebx).toNat + 32 ≤ 0x100000)
    (hc : Copyable (load m (s.regs .ebx + 8)) (load m (s.regs .ebx + 4) + 0x60000) (load m (s.regs .ebx + 16)).toNat) :
    ∃ t, copySegment here s = some t ∧
      OnStack (write m (phys (load m (s.regs .ebx + 8))) (bytesAt m (phys (load m (s.regs .ebx + 4) + 0x60000))
        (load m (s.regs .ebx + 16)).toNat)) t [] ∧ ∀ r, r ≠ .esp → r ≠ .eax → t.regs r = s.regs r := by
  obtain ⟨hacc₁, hload₁⟩ := h.load_high (a := s.regs .ebx + 16) (by bv_omega) (by bv_omega)
  obtain ⟨s₁, hpush₁, h₁, hregs₁⟩ := h.push (load m (s.regs .ebx + 16)) (by simp)
  obtain ⟨hacc₂, hload₂⟩ := h₁.load_high (a := s.regs .ebx + 4) (by bv_omega) (by bv_omega)
  have h₂ := h₁.set (r := .eax) (by decide) (load m (s.regs .ebx + 4) + 0x60000)
  obtain ⟨s₃, hpush₃, h₃, hregs₃⟩ := h₂.push (load m (s.regs .ebx + 4) + 0x60000) (by simp)
  obtain ⟨hacc₃, hload₃⟩ := h₃.load_high (a := s.regs .ebx + 8) (by bv_omega) (by bv_omega)
  obtain ⟨s₄, hpush₄, h₄, hregs₄⟩ := h₃.push (load m (s.regs .ebx + 8)) (by simp)
  obtain ⟨s₅, hpush₅, h₅, hregs₅⟩ := h₄.push here (by simp)
  obtain ⟨s₆, hcpy, h₆, hregs₆⟩ := memCpy_ends h₅ hc
  have hebx₁ : s₁.regs .ebx = s.regs .ebx := hregs₁ .ebx (by decide)
  have hebx₃ : s₃.regs .ebx = s.regs .ebx := by
    rw [hregs₃ .ebx (by decide), Machine.set_ne _ _ (by decide), hebx₁]
  refine ⟨s₆.set .esp (s₆.regs .esp + 12), ?_, ⟨?_, trivial, h₆.mem⟩, ?_⟩
  · have hp₁ : pushFrom (fun r => r .ebx + 16) s = some s₁ := by
      rw [pushFrom, hacc₁, Option.bind_some, hload₁, hpush₁]
    have hm₂ : movFrom .eax (fun r => r .ebx + 4) s₁ = some (s₁.set .eax (load m (s.regs .ebx + 4))) := by
      rw [movFrom, hebx₁, hacc₂, Option.map_some, hload₂]
    have ha₂ : addImm .eax 0x60000 (s₁.set .eax (load m (s.regs .ebx + 4))) =
        s₁.set .eax (load m (s.regs .ebx + 4) + 0x60000) := by
      simp [addImm, Machine.set]
    have hp₄ : pushFrom (fun r => r .ebx + 8) s₃ = some s₄ := by
      rw [pushFrom, hebx₃, hacc₃, Option.bind_some, hload₃, hpush₄]
    unfold copySegment
    simp only [Option.bind_eq_bind, hp₁, Option.bind_some, hm₂, ha₂, Machine.set_self, hpush₃, hp₄, hpush₅, hcpy]
    rfl
  · rw [Machine.set_self, h₆.esp]
    show (0xC00005FC - BitVec.ofNat 32 (4 * 3) + 12 : Word) = 0xC00005FC - BitVec.ofNat 32 (4 * 0)
    decide
  · intro r hesp heax
    rw [Machine.set_ne _ _ hesp, hregs₆ r hesp, hregs₅ r hesp, hregs₄ r hesp, hregs₃ r hesp, Machine.set_ne _ _ heax,
      hregs₁ r hesp]

end Segment

/-! ## All segments -/

/-- A header over the memory `acc`; `m` holds the image. -/
def copy (m acc : Mem) (h : Phdr) : Mem :=
  if h.Copied then write acc (phys h.vaddr) (bytesAt m (0x60000 + h.offset) h.filesz.toNat) else acc

/-- The headers `hs` in their order. -/
def copyAll (m : Mem) (hs : List Phdr) : Mem := hs.foldl (copy m) m

theorem copy_apply (m acc : Mem) (h : Phdr) (b : Word) :
    copy m acc h b = if decide h.Copied && h.fills b then m (h.source b) else acc b := by
  by_cases hc : h.Copied
  · rw [copy, if_pos hc, decide_eq_true hc, Bool.true_and]
    by_cases hlt : (b - phys h.vaddr).toNat < h.filesz.toNat
    · have hfills : h.fills b = true := decide_eq_true hlt
      rw [if_pos hfills, write, bytesAt, List.getElem?_map, List.getElem?_range hlt, Option.map_some, Option.getD_some,
        byteAt, BitVec.ofNat_toNat, BitVec.setWidth_eq]
      rfl
    · have hfills : ¬ h.fills b = true := fun hf => hlt (of_decide_eq_true hf)
      rw [if_neg hfills]
      apply write_of_le
      rw [bytesAt_length]
      omega
  · rw [copy, if_neg hc, decide_eq_false hc]
    rfl

theorem copyAll_apply (m : Mem) (hs : List Phdr) (b : Word) :
    copyAll m hs b = (last hs b).elim (m b) fun h => m (h.source b) := by
  induction hs using List.reverseRecOn with
  | nil => rfl
  | append_singleton hs h ih =>
    unfold copyAll last at ih ⊢
    rw [List.foldl_append, List.foldl_cons, List.foldl_nil, copy_apply, List.reverse_append, List.reverse_singleton,
      List.singleton_append, List.find?_cons]
    by_cases hb : (decide h.Copied && h.fills b) = true
    · rw [hb]
      rfl
    · rw [Bool.not_eq_true] at hb
      rw [hb]
      exact ih

theorem mem_of_last {hs : List Phdr} {b : Word} {h : Phdr} (hl : last hs b = some h) :
    h ∈ hs ∧ h.Copied ∧ h.fills b = true := by
  have hp := List.find?_some hl
  rw [Bool.and_eq_true, decide_eq_true_eq] at hp
  exact ⟨List.mem_reverse.mp (List.mem_of_find?_eq_some hl), hp⟩

theorem not_fills_of_last {hs : List Phdr} {b : Word} (hl : last hs b = none) {h : Phdr} (hh : h ∈ hs) (hc : h.Copied) :
    ¬ h.fills b = true := by
  have hp := List.find?_eq_none.mp hl h (List.mem_reverse.mpr hh)
  rw [Bool.and_eq_true, decide_eq_true_eq] at hp
  exact fun hf => hp ⟨hc, hf⟩

theorem low8_load (m : Mem) (a : Word) : low8 (load m a) = m a := by
  apply BitVec.eq_of_toNat_eq
  have h0 := (m a).isLt
  simp only [low8, load, BitVec.extractLsb'_toNat, BitVec.toNat_ofNat, Nat.shiftRight_zero]
  omega

section Run
variable {m : Mem} {size : Nat} (hi : Image m size) (hp : ∀ h ∈ headers m, h.Copied → Apart size h)

include hi in
theorem headerAt_toNat {i : Nat} (h : i < (phnum m).toNat) :
    (headerAt m i).toNat = 0x60000 + (phoff m).toNat + i * (phentsize m).toNat ∧
      (headerAt m i).toNat + 32 ≤ 0x60000 + size := by
  have htable := hi.table
  have hentry := hi.entry
  have hmega := hi.megabyte
  have hle : i * (phentsize m).toNat + (phentsize m).toNat ≤ (phnum m).toNat * (phentsize m).toNat := by
    rw [← Nat.succ_mul]
    exact Nat.mul_le_mul_right _ h
  unfold headerAt
  generalize i * (phentsize m).toNat = k at hle ⊢
  generalize (phnum m).toNat * (phentsize m).toNat = n at hle htable
  bv_omega

include hi in
theorem size_of_fills {h : Phdr} (hh : h ∈ headers m) {b : Word} (hf : h.fills b = true) : (b - phys h.vaddr).toNat < h.size := by
  have hlt : (b - phys h.vaddr).toNat < h.filesz.toNat := of_decide_eq_true hf
  unfold Phdr.size
  by_cases hl : h.type = ptLoad
  · rw [if_pos hl]
    exact Nat.lt_of_lt_of_le hlt (hi.filesz h hh hl)
  · rw [if_neg hl]
    exact hlt

include hi hp in
/-- No header is copied over the image or the loader. -/
theorem copyAll_kept {hs : List Phdr} (hsub : ∀ h ∈ hs, h ∈ headers m) {b : Word}
    (hb : (0x60000 ≤ b.toNat ∧ b.toNat < 0x60000 + size) ∨ InLoader b) : copyAll m hs b = m b := by
  rw [copyAll_apply]
  cases hl : last hs b with
  | none => rfl
  | some h =>
    obtain ⟨hmem, hc, hf⟩ := mem_of_last hl
    have hlt := size_of_fills hi (hsub h hmem) hf
    obtain hb | hb := hb
    · exact absurd hb ((hp h (hsub h hmem) hc).image b hlt)
    · exact absurd hb ((hp h (hsub h hmem) hc).loader b hlt)

/-- The headers before header `i`. -/
def headersTo (m : Mem) (i : Nat) : List Phdr := (List.range i).map fun i => Phdr.read m (headerAt m i)

theorem headersTo_succ (m : Mem) (i : Nat) : headersTo m (i + 1) = headersTo m i ++ [Phdr.read m (headerAt m i)] := by
  unfold headersTo
  rw [List.range_succ, List.map_append, List.map_singleton]

theorem mem_headers {i : Nat} (h : i < (phnum m).toNat) : Phdr.read m (headerAt m i) ∈ headers m :=
  List.mem_map.mpr ⟨i, List.mem_range.mpr h, rfl⟩

theorem headersTo_sub {i : Nat} (h : i ≤ (phnum m).toNat) : ∀ g ∈ headersTo m i, g ∈ headers m := by
  intro g hg
  obtain ⟨j, hj, rfl⟩ := List.mem_map.mp hg
  exact mem_headers (Nat.lt_of_lt_of_le (List.mem_range.mp hj) h)

include hi hp in
/-- A header that is copied, as an argument of `mem_cpy`. -/
theorem copyable {h : Phdr} (hh : h ∈ headers m) (hc : h.Copied) : Copyable h.vaddr (h.offset + 0x60000) h.filesz.toNat := by
  have hfile := hi.file h hh hc
  have hmega := hi.megabyte
  have hmap : Mapped h.vaddr h.filesz.toNat := by
    apply (hp h hh hc).mapped.mono
    unfold Phdr.size
    by_cases hl : h.type = ptLoad
    · rw [if_pos hl]
      exact hi.filesz h hh hl
    · rw [if_neg hl]
  have hsrc : phys (h.offset + 0x60000) = h.offset + 0x60000 := by
    rw [phys, if_pos (by bv_omega)]
  have hdst : ∀ k < h.filesz.toNat, h.fills (phys h.vaddr + BitVec.ofNat 32 k) = true := by
    intro k hk
    apply decide_eq_true
    rw [sub_ofNat _ (by have := h.filesz.isLt; omega)]
    exact hk
  refine ⟨.inl (by bv_omega), hmap, ?_, ?_, ?_⟩
  · intro j hj k hk heq
    apply (hp h hh hc).image _ (size_of_fills hi hh (hdst k hk))
    rw [← heq, hsrc]
    bv_omega
  · intro k hk
    rw [hsrc]
    unfold InLoader
    bv_omega
  · intro k hk
    exact (hp h hh hc).loader _ (size_of_fills hi hh (hdst k hk))

/-- Before the pass for header `i`. -/
structure Reached (m : Mem) (i : Nat) (s : Machine) : Prop where
  stack : OnStack (copyAll m (headersTo m i)) s []
  ebx : s.regs .ebx = headerAt m i
  edx : s.regs .edx = BitVec.ofNat 32 (phentsize m).toNat

theorem headerAt_succ (m : Mem) (i : Nat) : headerAt m i + BitVec.ofNat 32 (phentsize m).toNat = headerAt m (i + 1) := by
  unfold headerAt
  rw [BitVec.add_assoc, ← BitVec.ofNat_add, Nat.succ_mul]

include hi hp in
/-- The fields of header `i` are read as they are in `m`. -/
theorem load_header {i : Nat} (h : i < (phnum m).toNat) {k : Word} (hk : k.toNat ≤ 28) :
    load (copyAll m (headersTo m i)) (headerAt m i + k) = load m (headerAt m i + k) := by
  obtain ⟨hat, hfit⟩ := headerAt_toNat hi h
  have hmega := hi.megabyte
  apply load_congr
  intro b hb
  apply copyAll_kept hi hp (headersTo_sub (Nat.le_of_lt h))
  refine .inl ?_
  generalize i * (phentsize m).toNat = n at hat
  bv_omega

include hi hp in
/-- The bytes of a header are copied as they are in `m`. -/
theorem bytesAt_file {hs : List Phdr} (hsub : ∀ h ∈ hs, h ∈ headers m) {h : Phdr} (hh : h ∈ headers m) (hc : h.Copied) :
    bytesAt (copyAll m hs) (phys (h.offset + 0x60000)) h.filesz.toNat = bytesAt m (0x60000 + h.offset) h.filesz.toNat := by
  have hfile := hi.file h hh hc
  have hmega := hi.megabyte
  have hsrc : phys (h.offset + 0x60000) = 0x60000 + h.offset := by
    rw [phys, if_pos (by bv_omega), BitVec.add_comm]
  rw [hsrc]
  apply bytesAt_congr
  intro k hk
  apply copyAll_kept hi hp hsub
  refine .inl ?_
  bv_omega

include hi hp in
theorem loadEachSegment_reaches (here : Word) {i : Nat} {s : Machine} (h : i < (phnum m).toNat) (hs : Reached m i s) :
    ∃ t, loadEachSegment here s = some t ∧ Reached m (i + 1) t ∧ t.regs .ecx = s.regs .ecx - 1 := by
  obtain ⟨hat, hfit⟩ := headerAt_toNat hi h
  have hmega := hi.megabyte
  have hlow : 0xE00 ≤ (s.regs .ebx).toNat := by
    rw [hs.ebx]
    omega
  have hhigh : (s.regs .ebx).toNat + 32 ≤ 0x100000 := by
    rw [hs.ebx]
    omega
  have hacc : access (s.regs .ebx) 1 = some (headerAt m i) := by
    rw [access_of_mapped (.inl (by omega)), phys, if_pos (by omega), hs.ebx]
  have hbyte : s.mem (headerAt m i) = low8 (Phdr.read m (headerAt m i)).type := by
    have hscratch : ¬ Scratch (headerAt m i) := by
      unfold Scratch
      omega
    rw [hs.stack.mem _ hscratch, copyAll_kept hi hp (headersTo_sub (Nat.le_of_lt h)) (.inl (by omega))]
    exact (low8_load m _).symm
  -- the segment, if it is copied
  obtain ⟨t, hseg, ht, hregs⟩ : ∃ t, copyUnlessNull here s = some t ∧
      OnStack (copyAll m (headersTo m (i + 1))) t [] ∧ ∀ r, r ≠ .esp → r ≠ .eax → t.regs r = s.regs r := by
    rw [headersTo_succ, copyAll, List.foldl_append, List.foldl_cons, List.foldl_nil, ← copyAll, copyUnlessNull, hacc,
      Option.bind_some, hbyte]
    by_cases hc : (Phdr.read m (headerAt m i)).Copied
    · have hcopy := copyable hi hp (mem_headers h) hc
      have hbytes := bytesAt_file hi hp (headersTo_sub (Nat.le_of_lt h)) (mem_headers h) hc
      have h8 := load_header hi hp h (k := 8) (by decide)
      have h4 := load_header hi hp h (k := 4) (by decide)
      have h16 := load_header hi hp h (k := 16) (by decide)
      obtain ⟨t, hcs, ht, hregs⟩ := copySegment_ends here hs.stack hlow hhigh (by
        rw [hs.ebx, h8, h4, h16]
        exact hcopy)
      refine ⟨t, (if_neg hc).trans hcs, ?_, hregs⟩
      rw [hs.ebx, h8, h4, h16] at ht
      rw [copy, if_pos hc, ← hbytes]
      exact ht
    · have hzero : low8 (Phdr.read m (headerAt m i)).type = 0 := Decidable.not_not.mp hc
      refine ⟨s, if_pos hzero, ?_, fun _ _ _ => rfl⟩
      rw [copy, if_neg hc]
      exact hs.stack
  have hebx := hregs .ebx (by decide) (by decide)
  have hedx := hregs .edx (by decide) (by decide)
  have hecx := hregs .ecx (by decide) (by decide)
  refine ⟨decEcx (add .ebx .edx t), ?_, ⟨?_, ?_, ?_⟩, ?_⟩
  · rw [loadEachSegment, hseg]
    rfl
  · exact (ht.set (r := .ebx) (by decide) _).set (r := .ecx) (by decide) _
  · rw [decEcx, Machine.set_ne _ _ (by decide), add, Machine.set_self, hebx, hedx, hs.ebx, hs.edx, headerAt_succ]
  · rw [decEcx, Machine.set_ne _ _ (by decide), add, Machine.set_ne _ _ (by decide), hedx, hs.edx]
  · rw [decEcx, Machine.set_self, add, Machine.set_ne _ _ (by decide), hecx]

/-- `KernelInit` is entered: the stack is the loader's, moved to 0xC0000000, and ECX is as `SetupPage` leaves it. -/
structure Entered (caller : Word) (s : Machine) : Prop where
  esp : s.regs .esp = 0xC00005FC
  ecx : s.regs .ecx = 0
  caller : load s.mem 0x5FC = caller

/-- The checks and the registers before the loop. -/
theorem kernelInit_checks {caller : Word} (here : Word) {s : Machine} {size : Nat} (hi : Image s.mem size)
    (he : Entered caller s) : ∃ t, (∀ fuel, kernelInit caller here fuel s =
        (Loop.run (loadEachSegment here) (fun s => s.regs .ecx == 0) fuel t).bind (ret caller)) ∧
      Reached s.mem 0 t ∧ t.regs .ecx = BitVec.ofNat 32 (phnum s.mem).toNat := by
  have h0 : access 0x60000 4 = some 0x60000 := by decide
  have h4 : access (0x60000 + 4) 1 = some (0x60000 + 4) := by decide
  have h5 : access (0x60000 + 5) 1 = some (0x60000 + 5) := by decide
  have h28 : access (0x60000 + 28) 4 = some (0x60000 + 28) := by decide
  have h42 : access (0x60000 + 42) 2 = some (0x60000 + 42) := by decide
  have h44 : access (0x60000 + 44) 2 = some (0x60000 + 44) := by decide
  refine ⟨((movImm .edx 0 (addImm .ebx 0x60000 ((((s.set .eax 0x464C457F).set8 .eax 1).set8 .eax 1).set .ebx
    (phoff s.mem)))).set16 .edx (phentsize s.mem)).set16 .ecx (phnum s.mem), ?_, ⟨⟨?_, trivial, fun b _ => rfl⟩, ?_, ?_⟩, ?_⟩
  · intro fuel
    unfold kernelInit
    simp only [Option.bind_eq_bind, movFrom, mov8From, mov16From, jneFatal, h0, h4, h5, h28, h42, h44, Option.map_some,
      Option.bind_some, Machine.set_mem, Machine.set_self, hi.magic, hi.class32, hi.lsb, Machine.set8,
      low8_withLow8, beq_self_eq_true, if_true]
    rfl
  · exact he.esp
  · show phoff s.mem + 0x60000 = 0x60000 + phoff s.mem + BitVec.ofNat 32 (0 * (phentsize s.mem).toNat)
    rw [Nat.zero_mul, BitVec.add_comm]
    exact (BitVec.add_zero _).symm
  · show withLow16 0 (phentsize s.mem) = _
    exact withLow16_zero _
  · show withLow16 (s.regs .ecx) (phnum s.mem) = _
    rw [he.ecx, withLow16_zero]

include hi hp in
theorem kernelInit_ends {caller : Word} (here : Word) {s : Machine} (hm : s.mem = m) (he : Entered caller s) :
    ∃ t, Ends (fun fuel => kernelInit caller here fuel s) t ∧ ∀ b, ¬ Scratch b → t.mem b = copyAll m (headers m) b := by
  subst hm
  obtain ⟨s₁, hrun, hreached, hecx⟩ := kernelInit_checks here hi he
  have hpasses : passes (BitVec.ofNat 32 (phnum s.mem).toNat) = (phnum s.mem).toNat := by
    apply passes_of_toNat _ hi.nonempty
    rw [BitVec.toNat_ofNat, Nat.mod_eq_of_lt (by have := (phnum s.mem).isLt; omega)]
  obtain ⟨s₂, hends, hs₂, -⟩ := ends_countdown (BitVec.ofNat 32 (phnum s.mem).toNat) (fun i t hlt ht _ =>
    loadEachSegment_reaches hi hp here (by rw [← hpasses]; exact hlt) ht) hreached hecx
  rw [hpasses] at hs₂
  have hesp : s₂.regs .esp = 0xC00005FC - BitVec.ofNat 32 (4 * 0) := hs₂.stack.esp
  have hload : load s₂.mem (0x5FC - BitVec.ofNat 32 (4 * 0)) = caller := by
    rw [← he.caller]
    apply load_congr
    intro b hb
    have hin : 0x5FC ≤ b.toNat ∧ b.toNat < 0x600 := by bv_omega
    rw [hs₂.stack.mem b (by unfold Scratch; omega)]
    exact copyAll_kept hi hp (headersTo_sub (Nat.le_refl _)) (.inr (by unfold InLoader; omega))
  have hret : ret caller s₂ = some (s₂.set .esp (s₂.regs .esp + 4)) := by
    rw [ret, hesp, access_stack (by decide), Option.bind_some, if_pos hload]
  refine ⟨s₂.set .esp (s₂.regs .esp + 4), ?_, hs₂.stack.mem⟩
  have hall : (fun fuel => kernelInit caller here fuel s) = fun fuel =>
      (Loop.run (loadEachSegment here) (fun s => s.regs .ecx == 0) fuel s₁).bind (ret caller) := funext hrun
  rw [hall]
  apply hends.bind
  rw [hret]
  exact ends_some _

theorem ptLoad_copied {h : Phdr} (hl : h.type = ptLoad) : h.Copied := by
  unfold Phdr.Copied
  rw [hl]
  decide

include hi hp in
theorem not_scratch_of_last {b : Word} {h : Phdr} (hl : last (headers m) b = some h) : ¬ Scratch b := by
  obtain ⟨hmem, hc, hf⟩ := mem_of_last hl
  exact fun hs => (hp h hmem hc).loader b (size_of_fills hi hmem hf) hs.inLoader

include hi hp in
theorem ready_of_loads {m' : Mem} (hm : ∀ b, ¬ Scratch b → m' b = copyAll m (headers m) b) (hl : Loads m m') : Ready m := by
  constructor
  · intro b h hlast _
    have hb := not_scratch_of_last hi hp hlast
    have hw := hl b hb
    rw [hm b hb, copyAll_apply, hlast] at hw
    exact hw
  · intro b hlast h hh htype hcov
    have hlt : (b - phys h.vaddr).toNat < h.size := by
      rw [Phdr.size, if_pos htype]
      exact of_decide_eq_true hcov
    have hb : ¬ Scratch b := fun hs => (hp h hh (ptLoad_copied htype)).loader b hlt hs.inLoader
    have hw := hl b hb
    rw [hm b hb, copyAll_apply, hlast] at hw
    exact hw.zero h hh htype hcov (not_fills_of_last hlast hh (ptLoad_copied htype))

include hi in
theorem loads_of_ready {m' : Mem} (hdisj : Placed m size) (hm : ∀ b, ¬ Scratch b → m' b = copyAll m (headers m) b)
    (hr : Ready m) : Loads m m' := by
  intro b hb
  rw [hm b hb, copyAll_apply]
  cases hlast : last (headers m) b with
  | none =>
    refine ⟨?_, ?_, fun _ => rfl⟩
    · intro h hh htype hf
      exact absurd hf (not_fills_of_last hlast hh (ptLoad_copied htype))
    · intro h hh htype hcov _
      exact hr.zero b hlast h hh htype hcov
  | some h =>
    by_cases htype : h.type = ptLoad
    · obtain ⟨hmem, -, hf⟩ := mem_of_last hlast
      have hcovers : ∀ g ∈ headers m, g.type = ptLoad → g.fills b = true → g.covers b = true := by
        intro g hg hgl hgf
        exact decide_eq_true (Nat.lt_of_lt_of_le (of_decide_eq_true hgf) (hi.filesz g hg hgl))
      -- the only segment over `b`
      have hsame : ∀ g ∈ headers m, g.type = ptLoad → g.covers b = true → g = h := by
        intro g hg hgl hgc
        by_contra hne
        exact hdisj.disjoint g hg h hmem hgl htype hne b ⟨hgc, hcovers h hmem htype hf⟩
      refine ⟨?_, ?_, ?_⟩
      · intro g hg hgl hgf
        rw [hsame g hg hgl (hcovers g hg hgl hgf)]
        rfl
      · intro g hg hgl hgc hgf
        rw [hsame g hg hgl hgc] at hgf
        exact absurd hf hgf
      · intro hnone
        exact absurd (hcovers h hmem htype hf) (hnone h hmem htype)
    · exact hr.extras b h hlast htype

end Run

theorem apart_of_copied {m : Mem} {size : Nat} (hp : Placed m size) (hx : ExtrasPlaced m size) :
    ∀ h ∈ headers m, h.Copied → Apart size h := by
  intro h hh hc
  by_cases htype : h.type = ptLoad
  · exact hp.apart h hh htype
  · exact hx h hh hc htype

/-- `KernelInit` copies the file parts of all headers and zeroes nothing: whether the kernel is loaded as the format says
depends on the old RAM and on the headers that are not to be loaded. -/
theorem kernelInit_loads_iff {caller here : Word} {s : Machine} {size : Nat} (hi : Image s.mem size)
    (hp : Placed s.mem size) (hx : ExtrasPlaced s.mem size) (he : Entered caller s) :
    (∃ t, Ends (fun fuel => kernelInit caller here fuel s) t ∧ Loads s.mem t.mem) ↔ Ready s.mem := by
  have hall := apart_of_copied hp hx
  obtain ⟨t, hends, hmem⟩ := kernelInit_ends hi hall here rfl he
  constructor
  · rintro ⟨t', hends', hloads⟩
    rw [hends'.unique hends] at hloads
    exact ready_of_loads hi hall hmem hloads
  · intro hr
    exact ⟨t, hends, loads_of_ready hi hp hmem hr⟩

/-- An image of one segment, of four bytes in the file and four more in memory. -/
def tinyImage : List (BitVec 8) :=
  [0x7F, 0x45, 0x4C, 0x46, 1, 1, 1, 0, 0, 0, 0, 0, 0, 0, 0, 0, 2, 0, 3, 0, 1, 0, 0, 0, 0x00, 0x15, 0, 0xC0,
   52, 0, 0, 0, 0, 0, 0, 0, 0, 0, 0, 0, 52, 0, 32, 0, 1, 0, 0, 0, 0, 0, 0, 0,
   1, 0, 0, 0, 84, 0, 0, 0, 0x00, 0x15, 0, 0xC0, 0x00, 0x15, 0, 0xC0, 4, 0, 0, 0, 8, 0, 0, 0, 7, 0, 0, 0, 4, 0, 0, 0,
   0x90, 0x90, 0xEB, 0xFE]

/-- The machine when `KernelInit` is called, in RAM of one byte. -/
def tinyBoot (dirty : Bool) : Machine where
  regs r := if r = .esp then 0xC00005FC else 0
  mem := write (fun _ => if dirty then 0xFF else 0) 0x60000 tinyImage
  disk := idleDisk

theorem tinyBoot_headers (dirty : Bool) : headers (tinyBoot dirty).mem = [⟨1, 84, 0xC0001500, 4, 8⟩] := by
  cases dirty <;> decide

theorem tinyBoot_image (dirty : Bool) : Image (tinyBoot dirty).mem 88 := by
  have hh := tinyBoot_headers dirty
  refine ⟨?_, ?_, ?_, ?_, ?_, ?_, ?_, ?_, ?_⟩
  · cases dirty <;> decide
  · cases dirty <;> decide
  · cases dirty <;> decide
  · cases dirty <;> decide
  · decide
  · cases dirty <;> decide
  · cases dirty <;> decide
  · rw [hh]
    decide
  · rw [hh]
    decide

theorem tinyBoot_entered (dirty : Bool) : Entered (if dirty then 0xFFFFFFFF else 0) (tinyBoot dirty) := by
  refine ⟨rfl, rfl, ?_⟩
  cases dirty <;> decide

theorem tinyBoot_apart : Apart 88 ⟨1, 84, 0xC0001500, 4, 8⟩ := by
  have hsize : Phdr.size ⟨1, 84, 0xC0001500, 4, 8⟩ = 8 := by decide
  have hphys : phys 0xC0001500 = 0x1500 := by decide
  refine ⟨by decide, ?_, ?_⟩
  · intro b hb
    rw [hsize, hphys] at hb
    bv_omega
  · intro b hb
    rw [hsize, hphys] at hb
    unfold InLoader
    bv_omega

theorem tinyBoot_mem {dirty : Bool} {h : Phdr} (hh : h ∈ headers (tinyBoot dirty).mem) : h = ⟨1, 84, 0xC0001500, 4, 8⟩ := by
  rw [tinyBoot_headers] at hh
  exact List.mem_singleton.mp hh

theorem tinyBoot_placed (dirty : Bool) : Placed (tinyBoot dirty).mem 88 := by
  constructor
  · intro h hh _
    rw [tinyBoot_mem hh]
    exact tinyBoot_apart
  · intro g hg h hh _ _ hne
    exact absurd ((tinyBoot_mem hg).trans (tinyBoot_mem hh).symm) hne

theorem tinyBoot_extras (dirty : Bool) : ExtrasPlaced (tinyBoot dirty).mem 88 := by
  intro h hh _ htype
  rw [tinyBoot_mem hh] at htype
  exact absurd rfl htype

theorem kernelInit_loads_clean :
    ∃ t, Ends (fun fuel => kernelInit 0 0xC0000A00 fuel (tinyBoot false)) t ∧ Loads (tinyBoot false).mem t.mem := by
  refine (kernelInit_loads_iff (tinyBoot_image false) (tinyBoot_placed false) (tinyBoot_extras false)
    (tinyBoot_entered false)).mpr ⟨?_, ?_⟩
  · intro b h hlast htype
    rw [tinyBoot_mem (mem_of_last hlast).1] at htype
    exact absurd rfl htype
  · intro b _ h hh _ hcov
    rw [tinyBoot_mem hh] at hcov
    have hlt : (b - 0x1500).toNat < 8 := of_decide_eq_true hcov
    apply write_of_le
    show 88 ≤ (b - 0x60000).toNat
    bv_omega

/-- RAM of ones: the last four bytes of the segment keep them. -/
theorem not_kernelInit_loads :
    ¬ ∃ t, Ends (fun fuel => kernelInit 0xFFFFFFFF 0xC0000A00 fuel (tinyBoot true)) t ∧ Loads (tinyBoot true).mem t.mem := by
  rintro ⟨t, hends, hloads⟩
  have hall := apart_of_copied (tinyBoot_placed true) (tinyBoot_extras true)
  obtain ⟨t', hends', hmem⟩ := kernelInit_ends (tinyBoot_image true) hall 0xC0000A00 rfl (tinyBoot_entered true)
  rw [hends.unique hends'] at hloads
  have hready := ready_of_loads (tinyBoot_image true) hall hmem hloads
  have hnone : last (headers (tinyBoot true).mem) 0x1504 = none := by
    rw [tinyBoot_headers]
    decide
  have hzero := hready.zero 0x1504 hnone ⟨1, 84, 0xC0001500, 4, 8⟩ (by rw [tinyBoot_headers]; exact List.mem_singleton_self _)
    rfl (by decide)
  exact absurd hzero (by decide)

end ElephantOS.Boot
