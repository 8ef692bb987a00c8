import ElephantOS.Boot.Machine
import Mathlib.Tactic.IntervalCases

/-!
# The disk readers (`boot/mbr.S`, `boot/loader.S`)

* `readDiskSector32`, `readDiskSector16` : the two readers, with the `loop` of their mode;
* `loaderStart` : the registers the 32-bit reader is called with; `loader_overruns`;
* `Transfers` : the sectors that were asked for, and nothing else, are at the destination;
* `readers_transfer_iff` : for which registers at entry.
-/

namespace ElephantOS.Boot
open Bytes Loop
open IntEntry (Reg)

/-- The text from `set LBA addr` to the read command, which both readers have. -/
def programCode : List (Machine → Machine) :=
  [mov .eax .esi, mov16Imm .edx 0x1F3, outAl,
   mov8Imm .ecx 8, shrCl .eax, mov16Imm .edx 0x1F4, outAl,
   shrCl .eax, mov16Imm .edx 0x1F5, outAl,
   shrCl .eax, and8Imm .eax 0xF, or8Imm .eax 0xE0, mov16Imm .edx 0x1F6, outAl,
   mov16Imm .edx 0x1F7, mov8Imm .eax 0x20, outAl]

/-- Polling, which both readers have. -/
def poll (fuel : Nat) (s : Machine) : Option Machine :=
  run (fun s => some (block [inAl, and8Imm .eax 0x88] s)) (fun s => low8 (s.regs .eax) == 0x08) fuel s

/-- The number of words to read, which both readers compute so. -/
def countCode : List (Machine → Machine) :=
  [mov16 .eax .ebx, mov16Imm .edx 256, mul16 .edx, mov16 .ecx .eax, mov16Imm .edx 0x1F0]

/-- `ReadDiskSector_32`. -/
def readDiskSector32 (fuel : Nat) (s : Machine) : Option Machine :=
  (poll fuel (block ([mov .ebx .edx, mov16 .eax .ebx, mov16Imm .edx 0x1F2, outAl] ++ programCode) s)).bind fun s =>
    loop32 [inAx, movToAx (fun r => r .edi), addImm .edi 2] fuel (block countCode s)

/-- The address of `ds:off` in real mode. -/
def segAddr (ds off : BitVec 16) : Word := ds.zeroExtend 32 * 16 + off.zeroExtend 32

/-- `ReadDiskSector_16`. -/
def readDiskSector16 (ds : BitVec 16) (fuel : Nat) (s : Machine) : Option Machine :=
  (poll fuel (block ([mov16 .ebx .edx, mov8 .eax .ebx, mov16Imm .edx 0x1F2, outAl] ++ programCode) s)).bind fun s =>
    loop16 [inAx, movToAx (fun r => segAddr ds (low16 (r .edi))), add16Imm .edi 2] fuel (block countCode s)

/-- `LoaderStart` from the return of the BIOS on, and `ProctectionModeStart` up to its call of `ReadDiskSector_32`, with
what port `0x92` and CR0 hold. The jumps and the loads of the segment registers are left out. -/
def loaderStart (ds : BitVec 16) (a20 : BitVec 8) (cr0 : Word) : List (Machine → Machine) :=
  [mov16Imm .ecx 0x400, mul16 .ecx, shlImm .edx 16, andImm .eax 0x0000FFFF, or .edx .eax, addImm .edx 0x100000,
   mov .esi .edx, movImm .eax 0, mov16 .eax .ebx, movImm .ecx 0x10000, mul .ecx, add .esi .eax,
   movTo (fun _ => segAddr ds 0x810) .esi,
   mov8Imm .eax a20, or8Imm .eax 0x02, movImm .eax cr0, orImm .eax 0x00000001,
   mov16Imm .eax 0x10, movImm .esp 0x600, mov16Imm .eax 0x18, movToImm8 (fun _ => 0xB8002) 0x50,
   movImm .esi 0x9, movImm .edi 0x60000, movImm .edx 200]

/-- The task file of a read of `n` sectors from `lba` on. -/
def taskFile (lba : Word) (n : BitVec 8) : List (BitVec 16 × BitVec 8) :=
  [(0x1F2, n), (0x1F3, lba.extractLsb' 0 8), (0x1F4, lba.extractLsb' 8 8), (0x1F5, lba.extractLsb' 16 8),
   (0x1F6, 0xE#4 ++ lba.extractLsb' 24 4), (0x1F7, 0x20)]

/-- The first bytes of a run of words. -/
def wordBytes (f : Nat → BitVec 16) (k n : Nat) : List (BitVec 8) := (List.range n).flatMap fun i => bytes16 (f (k + i))

/-- The disk is programmed for `n` sectors from `lba` on, its next `256 * n` words are stored in order at `dst`, and
nothing else is read or written. -/
structure Transfers (s s' : Machine) (lba dst : Word) (n : Nat) : Prop where
  written : s'.disk.written = s.disk.written ++ taskFile lba (BitVec.ofNat 8 n)
  wordsRead : s'.disk.wordsRead = s.disk.wordsRead + 256 * n
  mem : s'.mem = write s.mem dst (wordBytes (s.disk.word 0x1F0) s.disk.wordsRead (256 * n))

/-! ## Programming -/

/-- `and al,0xF` and `or al,0xE0`. -/
theorem device_byte (w : Word) : w.extractLsb' 24 8 &&& 15#8 ||| 224#8 = 14#4 ++ w.extractLsb' 24 4 := by
  apply BitVec.eq_of_getLsbD_eq
  intro i hi
  simp only [BitVec.getLsbD_or, BitVec.getLsbD_and, BitVec.getLsbD_extractLsb', BitVec.getLsbD_append]
  interval_cases i <;> simp

/-- What both readers have done when they start to poll. -/
structure Programmed (s t : Machine) : Prop where
  ebx : low16 (t.regs .ebx) = low16 (s.regs .edx)
  ecx : high16 (t.regs .ecx) = high16 (s.regs .ecx)
  edx : low16 (t.regs .edx) = 0x1F7
  edi : t.regs .edi = s.regs .edi
  mem : t.mem = s.mem
  disk : t.disk = { s.disk with written := s.disk.written ++ taskFile (s.regs .esi) (low8 (s.regs .edx)) }

theorem programmed32 (s : Machine) :
    Programmed s (block ([mov .ebx .edx, mov16 .eax .ebx, mov16Imm .edx 0x1F2, outAl] ++ programCode) s) := by
  refine ⟨?_, ?_, ?_, ?_, ?_, ?_⟩ <;>
    simp [programCode, block, mov, mov16, mov16Imm, outAl, mov8Imm, shrCl, and8Imm, or8Imm, Machine.set, Machine.set16,
      Machine.set8, taskFile, low8_ushiftRight]
  exact ⟨rfl, device_byte (s.regs .esi)⟩

theorem programmed16 (s : Machine) :
    Programmed s (block ([mov16 .ebx .edx, mov8 .eax .ebx, mov16Imm .edx 0x1F2, outAl] ++ programCode) s) := by
  refine ⟨?_, ?_, ?_, ?_, ?_, ?_⟩ <;>
    simp [programCode, block, mov, mov16, mov8, mov16Imm, outAl, mov8Imm, shrCl, and8Imm, or8Imm, Machine.set,
      Machine.set16, Machine.set8, taskFile, low8_ushiftRight]
  exact ⟨rfl, device_byte (s.regs .esi)⟩

/-! ## Polling -/

/-- Some poll finds data and no command in progress. -/
def Disk.Ready (d : Disk) : Prop := ∃ k, d.byte 0x1F7 (d.bytesRead + k) &&& 0x88 = 0x08

/-- Up to the polls. -/
structure Polled (s t : Machine) (k : Nat) : Prop where
  regs : ∀ r, r ≠ .eax → t.regs r = s.regs r
  mem : t.mem = s.mem
  disk : t.disk = { s.disk with bytesRead := s.disk.bytesRead + k }

theorem Polled.step {s t : Machine} {k : Nat} (h : Polled s t k) (hport : low16 (s.regs .edx) = 0x1F7) :
    Polled s (block [inAl, and8Imm .eax 0x88] t) (k + 1) ∧
      low8 ((block [inAl, and8Imm .eax 0x88] t).regs .eax) = s.disk.byte 0x1F7 (s.disk.bytesRead + k) &&& 0x88 := by
  have hedx := h.regs .edx (by decide)
  refine ⟨⟨?_, h.mem, ?_⟩, ?_⟩
  · intro r hr
    rw [← h.regs r hr]
    simp [block, inAl, and8Imm, Machine.set8, Machine.set, hr]
  · simp [block, inAl, and8Imm, Machine.set8, Machine.set, h.disk, Nat.add_assoc]
  · simp [block, inAl, and8Imm, Machine.set8, Machine.set, h.disk, hedx, hport]

theorem poll_ends {s : Machine} (hport : low16 (s.regs .edx) = 0x1F7) (hready : s.disk.Ready) :
    ∃ t k, Ends (fun fuel => poll fuel s) t ∧ Polled s t k := by
  have hpass : ∀ i t, i < Nat.find hready + 1 → Polled s t i →
      ∃ u, some (block [inAl, and8Imm .eax 0x88] t) = some u ∧ Polled s u (i + 1) ∧
        ((low8 (u.regs .eax) == 0x08) = true ↔ i + 1 = Nat.find hready + 1) := by
    intro i t hi ht
    obtain ⟨hu, hal⟩ := ht.step hport
    refine ⟨_, rfl, hu, ?_⟩
    rw [beq_iff_eq, hal]
    constructor
    · intro h
      have := Nat.find_min' hready h
      omega
    · intro h
      rw [show i = Nat.find hready by omega]
      exact Nat.find_spec hready
  obtain ⟨t, hends, ht⟩ := ends_run (Nat.succ_pos _) hpass ⟨fun _ _ => rfl, rfl, rfl⟩
  exact ⟨t, _, hends, ht⟩

/-! ## The transfer -/

theorem low16_mul_256 (n : Nat) : low16 ((BitVec.ofNat 16 n).setWidth 32 * 256#32) = BitVec.ofNat 16 (256 * n) := by
  apply BitVec.eq_of_toNat_eq
  simp [low16]
  omega

/-- Before the first word. -/
structure Counted (s t : Machine) (n : Nat) : Prop where
  ecx : t.regs .ecx = withLow16 (s.regs .ecx) (BitVec.ofNat 16 (256 * n))
  edx : low16 (t.regs .edx) = 0x1F0
  edi : t.regs .edi = s.regs .edi
  mem : t.mem = s.mem
  disk : t.disk = s.disk

theorem counted (s : Machine) {n : Nat} (hbx : low16 (s.regs .ebx) = BitVec.ofNat 16 n) :
    Counted s (block countCode s) n := by
  refine ⟨?_, ?_, ?_, rfl, rfl⟩ <;>
    simp [countCode, block, mov16, mov16Imm, mul16, Machine.set, Machine.set16, hbx, low16_mul_256]

theorem wordBytes_succ (f : Nat → BitVec 16) (k n : Nat) :
    wordBytes f k (n + 1) = wordBytes f k n ++ bytes16 (f (k + n)) := by
  unfold wordBytes
  rw [List.range_succ, List.flatMap_append, List.flatMap_singleton]

theorem wordBytes_length (f : Nat → BitVec 16) (k n : Nat) : (wordBytes f k n).length = 2 * n := by
  induction n with
  | zero => rfl
  | succ n ih =>
    rw [wordBytes_succ, List.length_append, ih]
    rfl

/-- After `i` words; the memory is described as long as they do not run into each other. -/
structure Moved (s t : Machine) (dst : Word) (i : Nat) : Prop where
  edx : low16 (t.regs .edx) = 0x1F0
  disk : t.disk = { s.disk with wordsRead := s.disk.wordsRead + i }
  mem : 2 * i ≤ 2 ^ 32 → t.mem = write s.mem dst (wordBytes (s.disk.word 0x1F0) s.disk.wordsRead i)

/-- One word, at any address. -/
theorem Moved.step {s t : Machine} {dst : Word} {i : Nat} {a : (Reg → Word) → Word} (h : Moved s t dst i)
    (ha : 2 * (i + 1) ≤ 2 ^ 32 → a (inAx t).regs = dst + BitVec.ofNat 32 (2 * i)) :
    Moved s (block [inAx, movToAx a] t) dst (i + 1) := by
  have hword : low16 ((inAx t).regs .eax) = s.disk.word 0x1F0 (s.disk.wordsRead + i) := by
    simp [inAx, Machine.set16, Machine.set, h.edx, h.disk]
  refine ⟨?_, ?_, ?_⟩
  · simpa [block, inAx, movToAx, Machine.set16, Machine.set] using h.edx
  · simp [block, inAx, movToAx, Machine.set16, Machine.set, h.disk, Nat.add_assoc]
  · intro hi
    show write t.mem (a (inAx t).regs) (bytes16 (low16 ((inAx t).regs .eax))) = _
    have hlen := wordBytes_length (s.disk.word 0x1F0) s.disk.wordsRead i
    rw [ha hi, hword, h.mem (by omega), wordBytes_succ, ← hlen, write_append]
    rw [hlen]
    exact hi

theorem loop32_moves {s : Machine} (hedx : low16 (s.regs .edx) = 0x1F0) : ∃ t,
    Ends (fun fuel => loop32 [inAx, movToAx (fun r => r .edi), addImm .edi 2] fuel s) t ∧
      Moved s t (s.regs .edi) (passes (s.regs .ecx)) := by
  have hstep : ∀ i t, i < passes (s.regs .ecx) →
      (Moved s t (s.regs .edi) i ∧ t.regs .edi = s.regs .edi + BitVec.ofNat 32 (2 * i)) →
      t.regs .ecx = s.regs .ecx - BitVec.ofNat 32 i →
      ∃ u, some (decEcx (block [inAx, movToAx (fun r => r .edi), addImm .edi 2] t)) = some u ∧
        (Moved s u (s.regs .edi) (i + 1) ∧ u.regs .edi = s.regs .edi + BitVec.ofNat 32 (2 * (i + 1))) ∧
        u.regs .ecx = t.regs .ecx - 1 := by
    rintro i t - ⟨ht, hedi⟩ -
    have hu := ht.step (a := fun r => r .edi) fun _ => by
      rw [← hedi]
      simp [inAx, Machine.set16, Machine.set]
    refine ⟨_, rfl, ⟨⟨?_, hu.disk, hu.mem⟩, ?_⟩, ?_⟩
    · rw [← hu.edx]
      simp [block, decEcx, addImm, Machine.set]
    · rw [show 2 * (i + 1) = 2 * i + 2 by omega, BitVec.ofNat_add, ← BitVec.add_assoc, ← hedi]
      simp [block, decEcx, addImm, inAx, movToAx, Machine.set16, Machine.set]
    · simp [block, decEcx, addImm, inAx, movToAx, Machine.set16, Machine.set]
  obtain ⟨t, hends, ⟨ht, -⟩, -⟩ := ends_countdown (s.regs .ecx) hstep
    ⟨⟨hedx, rfl, fun _ => (write_nil _ _).symm⟩, (BitVec.add_zero _).symm⟩ rfl
  exact ⟨t, hends, ht⟩

theorem segAddr_add (ds off : BitVec 16) {k : Nat} (hk : off.toNat + k < 2 ^ 16) :
    segAddr ds (off + BitVec.ofNat 16 k) = segAddr ds off + BitVec.ofNat 32 k := by
  have hoff : (off + BitVec.ofNat 16 k).zeroExtend 32 = off.zeroExtend 32 + BitVec.ofNat 32 k := by
    apply BitVec.eq_of_toNat_eq
    simp
    omega
  rw [segAddr, hoff, ← BitVec.add_assoc]
  rfl

/-- The `n` sectors at `ds:off` do not run over the end of the segment, nor over the end of the first megabyte, above
which the addresses of real mode depend on A20. -/
structure CanAddress (ds off : BitVec 16) (n : Nat) : Prop where
  segment : off.toNat + 512 * n ≤ 2 ^ 16
  megabyte : (segAddr ds off).toNat + 512 * n ≤ 2 ^ 20

theorem loop16_moves {s : Machine} {ds : BitVec 16} {n : Nat} (hedx : low16 (s.regs .edx) = 0x1F0)
    (hn : passes (low16 (s.regs .ecx)) = 256 * n) (hfit : CanAddress ds (low16 (s.regs .edi)) n) : ∃ t,
    Ends (fun fuel => loop16 [inAx, movToAx (fun r => segAddr ds (low16 (r .edi))), add16Imm .edi 2] fuel s) t ∧
      Moved s t (segAddr ds (low16 (s.regs .edi))) (256 * n) := by
  have hseg := hfit.segment
  have hstep : ∀ i t, i < passes (low16 (s.regs .ecx)) → (Moved s t (segAddr ds (low16 (s.regs .edi))) i ∧
      low16 (t.regs .edi) = low16 (s.regs .edi) + BitVec.ofNat 16 (2 * i)) →
      low16 (t.regs .ecx) = low16 (s.regs .ecx) - BitVec.ofNat 16 i →
      ∃ u, some (decCx (block [inAx, movToAx (fun r => segAddr ds (low16 (r .edi))), add16Imm .edi 2] t)) = some u ∧
        (Moved s u (segAddr ds (low16 (s.regs .edi))) (i + 1) ∧
          low16 (u.regs .edi) = low16 (s.regs .edi) + BitVec.ofNat 16 (2 * (i + 1))) ∧
        low16 (u.regs .ecx) = low16 (t.regs .ecx) - 1 := by
    rintro i t hi ⟨ht, hedi⟩ -
    have hu := ht.step (a := fun r => segAddr ds (low16 (r .edi))) fun _ => by
      rw [← segAddr_add ds _ (by omega), ← hedi]
      simp [inAx, Machine.set16, Machine.set]
    refine ⟨_, rfl, ⟨⟨?_, hu.disk, hu.mem⟩, ?_⟩, ?_⟩
    · rw [← hu.edx]
      simp [block, decCx, add16Imm, Machine.set16, Machine.set]
    · rw [show 2 * (i + 1) = 2 * i + 2 by omega, BitVec.ofNat_add, ← BitVec.add_assoc, ← hedi]
      simp [block, decCx, add16Imm, inAx, movToAx, Machine.set16, Machine.set]
    · simp [block, decCx, add16Imm, inAx, movToAx, Machine.set16, Machine.set]
  obtain ⟨t, hends, ⟨ht, -⟩, -⟩ := ends_countdown (low16 (s.regs .ecx)) hstep
    ⟨⟨hedx, rfl, fun _ => (write_nil _ _).symm⟩, (BitVec.add_zero _).symm⟩ rfl
  rw [hn] at ht
  exact ⟨t, hends, ht⟩

/-! ## The readers -/

section Readers
variable {s : Machine} {n : Nat}

theorem Moved.transfers {s₁ s₂ s₃ t : Machine} {lba dst : Word} {k : Nat} (hn : n ≤ 255)
    (hp : Programmed s s₁) (hk : Polled s₁ s₂ k) (hc : Counted s₂ s₃ n) (hlba : s.regs .esi = lba)
    (hlow : low8 (s.regs .edx) = BitVec.ofNat 8 n) (hm : Moved s₃ t dst (256 * n)) : Transfers s t lba dst n := by
  have hdisk : s₃.disk = { s.disk with
      bytesRead := s.disk.bytesRead + k
      written := s.disk.written ++ taskFile lba (BitVec.ofNat 8 n) } := by
    rw [hc.disk, hk.disk, hp.disk, hlba, hlow]
  have hmem : s₃.mem = s.mem := by rw [hc.mem, hk.mem, hp.mem]
  refine ⟨?_, ?_, ?_⟩
  · rw [hm.disk, hdisk]
  · rw [hm.disk, hdisk]
  · rw [hm.mem (by omega), hmem, hdisk]

/-- What the 32-bit reader reads. -/
theorem readDiskSector32_ends (hn : 1 ≤ n) (hn' : n ≤ 255) (hedx : s.regs .edx = BitVec.ofNat 32 n) (hready : s.disk.Ready) :
    ∃ t, Ends (fun fuel => readDiskSector32 fuel s) t ∧
      t.disk.wordsRead = s.disk.wordsRead + (2 ^ 16 * (high16 (s.regs .ecx)).toNat + 256 * n) ∧
      (high16 (s.regs .ecx) = 0 → Transfers s t (s.regs .esi) (s.regs .edi) n) := by
  have hp := programmed32 s
  generalize hs₁ : block _ s = s₁ at hp
  obtain ⟨s₂, k, hpoll, hk⟩ := poll_ends hp.edx (by rw [hp.disk]; exact hready)
  have hbx : low16 (s₂.regs .ebx) = BitVec.ofNat 16 n := by
    rw [hk.regs .ebx (by decide), hp.ebx, hedx, low16_ofNat]
  have hc := counted s₂ hbx
  obtain ⟨t, hloop, ht⟩ := loop32_moves hc.edx
  have hpass : passes ((block countCode s₂).regs .ecx) = 2 ^ 16 * (high16 (s.regs .ecx)).toNat + 256 * n := by
    have hecx : ((block countCode s₂).regs .ecx).toNat = 2 ^ 16 * (high16 (s.regs .ecx)).toNat + 256 * n := by
      rw [hc.ecx, toNat_withLow16, hk.regs .ecx (by decide), hp.ecx, BitVec.toNat_ofNat, Nat.mod_eq_of_lt (by omega)]
    exact passes_of_toNat hecx (by omega)
  rw [hpass] at ht
  refine ⟨t, ?_, ?_, ?_⟩
  · unfold readDiskSector32
    rw [hs₁]
    exact hpoll.bind hloop
  · rw [ht.disk, hc.disk, hk.disk, hp.disk]
  · intro h
    rw [h, show 2 ^ 16 * (0 : BitVec 16).toNat + 256 * n = 256 * n by simp, hc.edi, hk.regs .edi (by decide), hp.edi] at ht
    exact ht.transfers hn' hp hk hc rfl (by rw [hedx, low8_ofNat])

theorem readDiskSector16_transfers {ds : BitVec 16} (hn : 1 ≤ n) (hn' : n ≤ 255)
    (hdx : low16 (s.regs .edx) = BitVec.ofNat 16 n) (hready : s.disk.Ready)
    (hfit : CanAddress ds (low16 (s.regs .edi)) n) : ∃ t, Ends (fun fuel => readDiskSector16 ds fuel s) t ∧
      Transfers s t (s.regs .esi) (segAddr ds (low16 (s.regs .edi))) n := by
  have hp := programmed16 s
  generalize hs₁ : block _ s = s₁ at hp
  obtain ⟨s₂, k, hpoll, hk⟩ := poll_ends hp.edx (by rw [hp.disk]; exact hready)
  have hbx : low16 (s₂.regs .ebx) = BitVec.ofNat 16 n := by
    rw [hk.regs .ebx (by decide), hp.ebx, hdx]
  have hc := counted s₂ hbx
  have hedi : (block countCode s₂).regs .edi = s.regs .edi := by
    rw [hc.edi, hk.regs .edi (by decide), hp.edi]
  have hpass : passes (low16 ((block countCode s₂).regs .ecx)) = 256 * n := by
    have hcx : (BitVec.ofNat 16 (256 * n)).toNat = 256 * n := by
      rw [BitVec.toNat_ofNat, Nat.mod_eq_of_lt (by omega)]
    rw [hc.ecx, low16_withLow16]
    exact passes_of_toNat hcx (by omega)
  obtain ⟨t, hloop, ht⟩ := loop16_moves hc.edx hpass (by rw [hedi]; exact hfit)
  refine ⟨t, ?_, ?_⟩
  · unfold readDiskSector16
    rw [hs₁]
    exact hpoll.bind hloop
  · rw [hedi] at ht
    apply ht.transfers hn' hp hk hc rfl
    apply BitVec.eq_of_toNat_eq
    rw [← low8_low16, hdx]
    simp

/-- The 32-bit reader is right when the upper half of ECX is 0 at its entry, the 16-bit reader always. -/
theorem readers_transfer_iff {lba dst : Word} (hn : 1 ≤ n) (hn' : n ≤ 255) (hesi : s.regs .esi = lba)
    (hedi : s.regs .edi = dst) (hedx : s.regs .edx = BitVec.ofNat 32 n) (hready : s.disk.Ready) :
    ((∃ t, Ends (fun fuel => readDiskSector32 fuel s) t ∧ Transfers s t lba dst n) ∧
      ∀ (s₁ : Machine) (ds : BitVec 16), s₁.regs .esi = lba → low16 (s₁.regs .edx) = BitVec.ofNat 16 n → s₁.disk.Ready →
        CanAddress ds (low16 (s₁.regs .edi)) n → segAddr ds (low16 (s₁.regs .edi)) = dst →
        ∃ t, Ends (fun fuel => readDiskSector16 ds fuel s₁) t ∧ Transfers s₁ t lba dst n) ↔
    high16 (s.regs .ecx) = 0 := by
  obtain ⟨t, hends, hread, hright⟩ := readDiskSector32_ends hn hn' hedx hready
  rw [hesi, hedi] at hright
  constructor
  · rintro ⟨⟨t', hends', ht'⟩, -⟩
    -- the surplus shows in the words taken from the disk
    have hwords := ht'.wordsRead
    rw [← hends.unique hends', hread] at hwords
    apply BitVec.eq_of_toNat_eq
    show (high16 (s.regs .ecx)).toNat = 0
    omega
  · intro hecx
    refine ⟨⟨t, hends, hright hecx⟩, ?_⟩
    rintro s₁ ds rfl hdx hready₁ hfit rfl
    exact readDiskSector16_transfers hn hn' hdx hready₁ hfit

end Readers

/-! ## The call of the loader -/

theorem loaderStart_regs (ds : BitVec 16) (a20 : BitVec 8) (cr0 : Word) (s : Machine) :
    (block (loaderStart ds a20 cr0) s).regs .ecx = 0x10000 ∧ (block (loaderStart ds a20 cr0) s).regs .edx = 200 ∧
      (block (loaderStart ds a20 cr0) s).disk = s.disk := by
  refine ⟨?_, ?_, rfl⟩
  · -- after `mov ecx,0x10000`, only the halves of the product are computed from ECX
    simp only [loaderStart, block, List.foldl, movImm, mul, add, movTo, mov8Imm, or8Imm, orImm, mov16Imm, movToImm8,
      Machine.set8, Machine.set16, Machine.set_self, Machine.set_ne, ne_eq, reduceCtorEq, not_false_eq_true]
  · exact Machine.set_self ..

/-- Whatever the BIOS answers, the loader reads 128KB more than the kernel. -/
theorem loader_overruns (ds : BitVec 16) (a20 : BitVec 8) (cr0 : Word) {s : Machine} (hready : s.disk.Ready) : ∃ t,
    Ends (fun fuel => readDiskSector32 fuel (block (loaderStart ds a20 cr0) s)) t ∧
      t.disk.wordsRead = s.disk.wordsRead + 256 * 200 + 65536 := by
  obtain ⟨hecx, hedx, hdisk⟩ := loaderStart_regs ds a20 cr0 s
  obtain ⟨t, hends, hread, -⟩ := readDiskSector32_ends (n := 200) (by decide) (by decide) hedx (by rw [hdisk]; exact hready)
  refine ⟨t, hends, ?_⟩
  have hhigh : (high16 0x10000).toNat = 1 := by decide
  rw [hread, hdisk, hecx, hhigh]
  omega

/-- A machine with an idle disk. -/
def idle : Machine where
  regs _ := 0
  mem _ := 0
  disk := idleDisk

theorem idle_ready : idle.disk.Ready := ⟨0, rfl⟩

theorem readers_transfer_clean :
    ∃ t, Ends (fun fuel => readDiskSector32 fuel (block [movImm .esi 0x9, movImm .edi 0x60000, movImm .edx 200] idle)) t ∧
      Transfers (block [movImm .esi 0x9, movImm .edi 0x60000, movImm .edx 200] idle) t 0x9 0x60000 200 := by
  generalize hs : block [movImm .esi 0x9, movImm .edi 0x60000, movImm .edx 200] idle = s
  have hesi : s.regs .esi = 0x9 := by rw [← hs]; rfl
  have hedi : s.regs .edi = 0x60000 := by rw [← hs]; rfl
  have hedx : s.regs .edx = BitVec.ofNat 32 200 := by rw [← hs]; rfl
  have hecx : high16 (s.regs .ecx) = 0 := by rw [← hs]; rfl
  have hready : s.disk.Ready := by rw [← hs]; exact idle_ready
  exact ((readers_transfer_iff (by decide) (by decide) hesi hedi hedx hready).mpr hecx).1

/-- The loader's own call. -/
theorem not_readers_transfer :
    ¬ ∃ t, Ends (fun fuel => readDiskSector32 fuel (block (loaderStart 0 0 0x60000010) idle)) t ∧
      Transfers (block (loaderStart 0 0 0x60000010) idle) t 0x9 0x60000 200 := by
  rintro ⟨t, hends, ht⟩
  obtain ⟨t', hends', hread⟩ := loader_overruns 0 0 0x60000010 idle_ready
  have hwords := ht.wordsRead
  rw [hends.unique hends', hread, (loaderStart_regs 0 0 0x60000010 idle).2.2] at hwords
  omega

end ElephantOS.Boot
