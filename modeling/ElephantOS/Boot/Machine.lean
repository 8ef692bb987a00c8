import ElephantOS.Kernel.IntEntry
import ElephantOS.Lib.Loop

/-!
# The machine at boot (`boot/mbr.S`, `boot/loader.S`)

An instruction is a function on machines; its name is the mnemonic, with the kind of its operands where the mnemonic has
several. Memory is physical.

* `Disk` : the ports of the disk, as their reads answer and as they are written;
* `low16`, `low8`, `withLow16`, `withLow8` : a register and its halves, `ax` of `eax`, `al` of `ax`;
* `block` : straight-line code.
-/

namespace ElephantOS.Boot
open Bytes
open IntEntry (Reg)

/-- A disk on its ports. -/
structure Disk where
  /-- the answer to the `k`th read of a byte -/
  byte : BitVec 16 → Nat → BitVec 8
  /-- the answer to the `k`th read of a word -/
  word : BitVec 16 → Nat → BitVec 16
  bytesRead : Nat
  wordsRead : Nat
  written : List (BitVec 16 × BitVec 8)

/-- A disk with data, whose words are numbered. -/
def idleDisk : Disk where
  byte _ _ := 0x58
  word _ k := BitVec.ofNat 16 k
  bytesRead := 0
  wordsRead := 0
  written := []

structure Machine where
  regs : Reg → Word
  mem : Mem
  disk : Disk

/-! ## Registers -/

def low16 (w : Word) : BitVec 16 := w.extractLsb' 0 16

def high16 (w : Word) : BitVec 16 := w.extractLsb' 16 16

def low8 (w : Word) : BitVec 8 := w.extractLsb' 0 8

def withLow16 (w : Word) (v : BitVec 16) : Word := high16 w ++ v

def withLow8 (w : Word) (v : BitVec 8) : Word := w.extractLsb' 8 24 ++ v

section Halves
variable (w : Word) (v : BitVec 16) (b : BitVec 8)

@[simp] theorem low16_withLow16 : low16 (withLow16 w v) = v := BitVec.extractLsb'_append_eq_right

@[simp] theorem high16_withLow16 : high16 (withLow16 w v) = high16 w := BitVec.extractLsb'_append_eq_left

@[simp] theorem low8_withLow8 : low8 (withLow8 w b) = b := BitVec.extractLsb'_append_eq_right

@[simp] theorem high16_withLow8 : high16 (withLow8 w b) = high16 w := by
  ext i hi
  simp only [high16, withLow8, BitVec.getElem_extractLsb', BitVec.getLsbD_append, BitVec.getLsbD_extractLsb']
  grind

@[simp] theorem low8_withLow16 : low8 (withLow16 w v) = v.extractLsb' 0 8 := by
  ext i hi
  simp only [low8, withLow16, BitVec.getElem_extractLsb', BitVec.getLsbD_append]
  grind

@[simp] theorem low8_low16 : (low16 w).extractLsb' 0 8 = low8 w := by
  ext i hi
  simp only [low16, low8, BitVec.getElem_extractLsb', BitVec.getLsbD_extractLsb']
  grind

theorem toNat_withLow16 : (withLow16 w v).toNat = 2 ^ 16 * (high16 w).toNat + v.toNat := by
  rw [withLow16, BitVec.toNat_append, Nat.shiftLeft_eq, Nat.mul_comm, ← Nat.two_pow_add_eq_or_of_lt v.isLt]

theorem withLow16_zero : withLow16 0 v = BitVec.ofNat 32 v.toNat := by
  apply BitVec.eq_of_toNat_eq
  have hv := v.isLt
  have h0 : (high16 0).toNat = 0 := by decide
  rw [toNat_withLow16, h0, BitVec.toNat_ofNat, Nat.mod_eq_of_lt (by omega)]
  omega

theorem low16_ofNat (n : Nat) : low16 (BitVec.ofNat 32 n) = BitVec.ofNat 16 n := by
  apply BitVec.eq_of_toNat_eq
  simp [low16]

theorem low8_ofNat (n : Nat) : low8 (BitVec.ofNat 32 n) = BitVec.ofNat 8 n := by
  apply BitVec.eq_of_toNat_eq
  simp [low8]

theorem low8_ushiftRight (k : Nat) : low8 (w >>> k) = w.extractLsb' k 8 := by
  ext i hi
  simp [low8]

end Halves

namespace Machine

def set (s : Machine) (r : Reg) (v : Word) : Machine := { s with regs := Function.update s.regs r v }

theorem set_self (s : Machine) (r : Reg) (v : Word) : (s.set r v).regs r = v := Function.update_self ..

theorem set_ne (s : Machine) {r r' : Reg} (v : Word) (h : r' ≠ r) : (s.set r v).regs r' = s.regs r' :=
  Function.update_of_ne h ..

def set16 (s : Machine) (r : Reg) (v : BitVec 16) : Machine := s.set r (withLow16 (s.regs r) v)

def set8 (s : Machine) (r : Reg) (v : BitVec 8) : Machine := s.set r (withLow8 (s.regs r) v)

@[simp] theorem set_mem (s : Machine) (r : Reg) (v : Word) : (s.set r v).mem = s.mem := rfl

@[simp] theorem set16_mem (s : Machine) (r : Reg) (v : BitVec 16) : (s.set16 r v).mem = s.mem := rfl

@[simp] theorem set8_mem (s : Machine) (r : Reg) (v : BitVec 8) : (s.set8 r v).mem = s.mem := rfl

end Machine

/-! ## Instructions -/

def block (code : List (Machine → Machine)) (s : Machine) : Machine := code.foldl (fun s i => i s) s

def mov (d r : Reg) (s : Machine) : Machine := s.set d (s.regs r)

def movImm (d : Reg) (v : Word) (s : Machine) : Machine := s.set d v

def mov16 (d r : Reg) (s : Machine) : Machine := s.set16 d (low16 (s.regs r))

def mov16Imm (d : Reg) (v : BitVec 16) (s : Machine) : Machine := s.set16 d v

def mov8 (d r : Reg) (s : Machine) : Machine := s.set8 d (low8 (s.regs r))

def mov8Imm (d : Reg) (v : BitVec 8) (s : Machine) : Machine := s.set8 d v

def add (d r : Reg) (s : Machine) : Machine := s.set d (s.regs d + s.regs r)

def addImm (d : Reg) (v : Word) (s : Machine) : Machine := s.set d (s.regs d + v)

def add16Imm (d : Reg) (v : BitVec 16) (s : Machine) : Machine := s.set16 d (low16 (s.regs d) + v)

def subImm (d : Reg) (v : Word) (s : Machine) : Machine := s.set d (s.regs d - v)

def andImm (d : Reg) (v : Word) (s : Machine) : Machine := s.set d (s.regs d &&& v)

def and8Imm (d : Reg) (v : BitVec 8) (s : Machine) : Machine := s.set8 d (low8 (s.regs d) &&& v)

def or (d r : Reg) (s : Machine) : Machine := s.set d (s.regs d ||| s.regs r)

def orImm (d : Reg) (v : Word) (s : Machine) : Machine := s.set d (s.regs d ||| v)

def or8Imm (d : Reg) (v : BitVec 8) (s : Machine) : Machine := s.set8 d (low8 (s.regs d) ||| v)

def shlImm (d : Reg) (n : Nat) (s : Machine) : Machine := s.set d (s.regs d <<< n)

/-- `shr d,cl`; the count is taken modulo 32. -/
def shrCl (d : Reg) (s : Machine) : Machine := s.set d (s.regs d >>> (low8 (s.regs .ecx) &&& 31).toNat)

/-- `mul r` of 16 bits: `dx:ax` is `ax * r`. -/
def mul16 (r : Reg) (s : Machine) : Machine :=
  let p := (low16 (s.regs .eax)).zeroExtend 32 * (low16 (s.regs r)).zeroExtend 32
  (s.set16 .eax (low16 p)).set16 .edx (high16 p)

/-- `mul r` of 32 bits: `edx:eax` is `eax * r`. -/
def mul (r : Reg) (s : Machine) : Machine :=
  let p := (s.regs .eax).zeroExtend 64 * (s.regs r).zeroExtend 64
  (s.set .eax (p.extractLsb' 0 32)).set .edx (p.extractLsb' 32 32)

/-- `out dx,al`. -/
def outAl (s : Machine) : Machine :=
  { s with disk := { s.disk with written := s.disk.written ++ [(low16 (s.regs .edx), low8 (s.regs .eax))] } }

/-- `in al,dx`. -/
def inAl (s : Machine) : Machine :=
  { s.set8 .eax (s.disk.byte (low16 (s.regs .edx)) s.disk.bytesRead) with
    disk := { s.disk with bytesRead := s.disk.bytesRead + 1 } }

/-- `in ax,dx`. -/
def inAx (s : Machine) : Machine :=
  { s.set16 .eax (s.disk.word (low16 (s.regs .edx)) s.disk.wordsRead) with
    disk := { s.disk with wordsRead := s.disk.wordsRead + 1 } }

/-- The bytes of a 16-bit value. -/
def bytes16 (v : BitVec 16) : List (BitVec 8) := [v.extractLsb' 0 8, v.extractLsb' 8 8]

/-- `mov [a],ax`, where the address is a function of the registers. -/
def movToAx (a : (Reg → Word) → Word) (s : Machine) : Machine :=
  { s with mem := write s.mem (a s.regs) (bytes16 (low16 (s.regs .eax))) }

/-- `mov [a],r`. -/
def movTo (a : (Reg → Word) → Word) (r : Reg) (s : Machine) : Machine :=
  { s with mem := store s.mem (a s.regs) (s.regs r) }

/-- `mov byte [a],v`. -/
def movToImm8 (a : (Reg → Word) → Word) (v : BitVec 8) (s : Machine) : Machine :=
  { s with mem := write s.mem (a s.regs) [v] }

/-- The decrement of `loop` in 32-bit code. -/
def decEcx (s : Machine) : Machine := s.set .ecx (s.regs .ecx - 1)

/-- The decrement of `loop` in 16-bit code. -/
def decCx (s : Machine) : Machine := s.set16 .ecx (low16 (s.regs .ecx) - 1)

/-- `body` and `loop` to its start, in 32-bit code. -/
def loop32 (body : List (Machine → Machine)) (fuel : Nat) (s : Machine) : Option Machine :=
  Loop.run (fun s => some (decEcx (block body s))) (fun s => s.regs .ecx == 0) fuel s

/-- The same in 16-bit code. -/
def loop16 (body : List (Machine → Machine)) (fuel : Nat) (s : Machine) : Option Machine :=
  Loop.run (fun s => some (decCx (block body s))) (fun s => low16 (s.regs .ecx) == 0) fuel s

end ElephantOS.Boot
