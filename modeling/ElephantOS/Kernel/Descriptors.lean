import ElephantOS.Lib.Bytes

/-!
# Descriptor tables (`userprog/tss.c`, `kernel/interrupt.c`)

The CPU reads descriptors byte by byte from memory, and the place of a table from the operand of `lgdt` or `lidt`.

* `setUpGDTDesc`, `tssInit`, `makeIdtDesc`, `idtDescInit` : the functions that write descriptors;
* `segmentAt`, `gateAt` : how the CPU reads 8 bytes; `tableOf` : how it reads an operand of 48 bits;
* `gdt_desc_decodes_iff` : which segment descriptors are read as they were meant;
* `gates_found_iff` : the same for the gates and the operands.
-/

namespace ElephantOS.Descriptors
open Bytes

/-! ## Segment descriptors -/

/-- `struct gdt_desc`. -/
structure GdtDesc where
  limitLowWord : BitVec 16
  baseLowWord : BitVec 16
  baseMidByte : BitVec 8
  attrLowByte : BitVec 8
  limitHighAttrHigh : BitVec 8
  baseHighByte : BitVec 8

/-- The two bytes of a `uint16_t`. -/
def bytes16 (w : BitVec 16) : List (BitVec 8) := [w.extractLsb' 0 8, w.extractLsb' 8 8]

def GdtDesc.bytes (d : GdtDesc) : List (BitVec 8) :=
  bytes16 d.limitLowWord ++ bytes16 d.baseLowWord ++ [d.baseMidByte, d.attrLowByte, d.limitHighAttrHigh, d.baseHighByte]

/-- The fields that `SetUpGDTDesc` assigns; an assignment cuts a value to the width of the field. -/
def gdtDesc (descBaseAddr limit : Word) (attrLow attrHigh : BitVec 8) : GdtDesc where
  limitLowWord := (limit &&& 0x0000FFFF).setWidth 16
  limitHighAttrHigh := (((limit &&& 0x000F0000) >>> 16) + attrHigh.setWidth 32).setWidth 8
  baseLowWord := (descBaseAddr &&& 0x0000FFFF).setWidth 16
  baseMidByte := (descBaseAddr &&& 0x00FF0000).setWidth 8
  baseHighByte := (descBaseAddr >>> 24).setWidth 8
  attrLowByte := attrLow

def setUpGDTDesc (m : Mem) (descPtr descBaseAddr limit : Word) (attrLow attrHigh : BitVec 8) : Mem :=
  write m descPtr (gdtDesc descBaseAddr limit attrLow attrHigh).bytes

/-- `sizeof(tss)`. -/
def tssSize : Word := 27 * 4

/-- `GDT_ATTR_HIGH`. -/
def gdtAttrHigh : BitVec 8 := (1 <<< 7) + (1 <<< 6) + (0 <<< 5) + (0 <<< 4)

/-- `TSS_ATTR_LOW`. -/
def tssAttrLow : BitVec 8 := (1 <<< 7) + (0 <<< 5) + (0 <<< 4) + 9

/-- `GDT_CODE_ATTR_LOW_DPL3`. -/
def gdtCodeAttrLowDpl3 : BitVec 8 := (1 <<< 7) + (3 <<< 5) + (1 <<< 4) + 8

/-- `GDT_DATA_ATTR_LOW_DPL3`. -/
def gdtDataAttrLowDpl3 : BitVec 8 := (1 <<< 7) + (3 <<< 5) + (1 <<< 4) + 2

/-- `SELECTOR_K_DATA`, and so `SELECTOR_K_STACK`. -/
def selectorKData : Word := (2 <<< 3) + (0 <<< 2) + 0

/-- What `TssInit` writes, with `tss` the address of the structure. -/
def tssInit (m : Mem) (tss : Word) : Mem :=
  let m := write m tss (List.replicate tssSize.toNat 0)
  let m := store m (tss + 8) selectorKData
  let m := store m (tss + 104) tssSize
  let m := setUpGDTDesc m 0xC0000630 tss (tssSize - 1) tssAttrLow gdtAttrHigh
  let m := setUpGDTDesc m 0xC0000638 0 0xFFFFF gdtCodeAttrLowDpl3 gdtAttrHigh
  setUpGDTDesc m 0xC0000640 0 0xFFFFF gdtDataAttrLowDpl3 gdtAttrHigh

/-- A segment as the CPU sees it. -/
structure Segment where
  base : Word
  limit : Word
  access : BitVec 8
  /-- the upper four bits of byte 6 -/
  flags : BitVec 8
  deriving DecidableEq

/-- How the CPU reads the descriptor at `a`. -/
def segmentAt (m : Mem) (a : Word) : Segment where
  base := byteAt m a 7 ++ byteAt m a 4 ++ byteAt m a 3 ++ byteAt m a 2
  limit := ((byteAt m a 6 &&& 0x0F) ++ byteAt m a 1 ++ byteAt m a 0).setWidth 32
  access := byteAt m a 5
  flags := byteAt m a 6 &&& 0xF0

/-! ## Gates -/

/-- `struct INT_gate_desc`. -/
structure IntGateDesc where
  functionOffsetLowWord : BitVec 16
  selector : BitVec 16
  dwordCount : BitVec 8
  attr : BitVec 8
  functionOffsetHighWord : BitVec 16

def IntGateDesc.bytes (d : IntGateDesc) : List (BitVec 8) :=
  bytes16 d.functionOffsetLowWord ++ bytes16 d.selector ++ [d.dwordCount, d.attr] ++ bytes16 d.functionOffsetHighWord

/-- `SELECTOR_K_CODE`. -/
def selectorKCode : BitVec 16 := (1 <<< 3) + (0 <<< 2) + 0

/-- The fields that `MakeIdtDesc` assigns. -/
def idtDesc (attr : BitVec 8) (function : Word) : IntGateDesc where
  functionOffsetLowWord := (function &&& 0x0000FFFF).setWidth 16
  selector := selectorKCode
  dwordCount := 0
  attr := attr
  functionOffsetHighWord := ((function &&& 0xFFFF0000) >>> 16).setWidth 16

def makeIdtDesc (m : Mem) (pGdesc : Word) (attr : BitVec 8) (function : Word) : Mem :=
  write m pGdesc (idtDesc attr function).bytes

/-- `IDT_DESC_SUM`. -/
def idtDescSum : Nat := 0x81

/-- `IDT_DESC_ATTRIBUTE_DPL0`. -/
def idtDescAttributeDpl0 : BitVec 8 := (1 <<< 7) + (0 <<< 5) + 0xE

/-- `IDT_DESC_ATTRIBUTE_DPL3`. -/
def idtDescAttributeDpl3 : BitVec 8 := (1 <<< 7) + (3 <<< 5) + 0xE

/-- `&IDT[i]`. -/
def gatePtr (idt : Word) (i : Nat) : Word := idt + BitVec.ofNat 32 (8 * i)

/-- The first `n` passes of the loop of `IdtDescInit`. -/
def idtDescLoop (m : Mem) (idt : Word) (interruptEntryTable : Nat → Word) : Nat → Mem
  | 0 => m
  | n + 1 => makeIdtDesc (idtDescLoop m idt interruptEntryTable n) (gatePtr idt n) idtDescAttributeDpl0
      (interruptEntryTable n)

def idtDescInit (m : Mem) (idt : Word) (interruptEntryTable : Nat → Word) (syscallHandler : Word) : Mem :=
  makeIdtDesc (idtDescLoop m idt interruptEntryTable idtDescSum) (gatePtr idt 0x80) idtDescAttributeDpl3 syscallHandler

/-- A gate as the CPU sees it. -/
structure Gate where
  offset : Word
  selector : BitVec 16
  attr : BitVec 8
  deriving DecidableEq

/-- How the CPU reads the gate at `a`. -/
def gateAt (m : Mem) (a : Word) : Gate where
  offset := byteAt m a 7 ++ byteAt m a 6 ++ byteAt m a 1 ++ byteAt m a 0
  selector := byteAt m a 3 ++ byteAt m a 2
  attr := byteAt m a 5

/-! ## Operands -/

/-- A table as the CPU finds it. -/
structure Table where
  limit : BitVec 16
  base : Word
  deriving DecidableEq

/-- How `lgdt` and `lidt` read their operand. -/
def tableOf (operand : BitVec 64) : Table where
  limit := operand.extractLsb' 0 16
  base := operand.extractLsb' 16 32

/-- `idt_operand` of `IdtInit`; `IDT << 16` is a shift of 32 bits. -/
def idtOperand (idt : Word) : BitVec 64 :=
  (BitVec.ofNat 32 (8 * idtDescSum) - 1).setWidth 64 ||| (idt <<< 16).setWidth 64

/-- `gdt_operand` of `TssInit`. -/
def gdtOperand : BitVec 64 := (8 * 7 - 1) ||| ((0xC0000610 : Word) <<< 16).setWidth 64

/-! ## What the CPU reads -/

theorem toNat_append_add {m n : Nat} (x : BitVec m) (y : BitVec n) : (x ++ y).toNat = x.toNat * 2 ^ n + y.toNat := by
  rw [BitVec.toNat_append, ← Nat.shiftLeft_add_eq_or_of_lt y.isLt, Nat.shiftLeft_eq]

theorem toNat_lowWord (x : Word) : ((x &&& 0x0000FFFF).setWidth 16).toNat = x.toNat % 65536 := by
  rw [BitVec.toNat_setWidth, BitVec.toNat_and, show (0x0000FFFF : Word).toNat = 2 ^ 16 - 1 from rfl,
    Nat.and_two_pow_sub_one_eq_mod]
  exact Nat.mod_mod _ _

/-- The mask leaves bits 16 to 23, the cut to a byte bits 0 to 7. -/
theorem midByte_zero (x : Word) : (x &&& 0x00FF0000).setWidth 8 = (0 : BitVec 8) := by
  rw [BitVec.setWidth_and, show (0x00FF0000 : Word).setWidth 8 = 0 from rfl]
  exact BitVec.and_zero

theorem toNat_highByte (x : Word) : ((x >>> 24).setWidth 8).toNat = x.toNat / 2 ^ 24 := by
  have := x.isLt
  rw [BitVec.toNat_setWidth, BitVec.toNat_ushiftRight, Nat.shiftRight_eq_div_pow]
  omega

theorem toNat_limitHigh (x : Word) : ((x &&& 0x000F0000) >>> 16).toNat = x.toNat / 65536 % 16 := by
  rw [BitVec.ushiftRight_and_distrib, BitVec.toNat_and, BitVec.toNat_ushiftRight, Nat.shiftRight_eq_div_pow,
    show ((0x000F0000 : Word) >>> 16).toNat = 2 ^ 4 - 1 from rfl, Nat.and_two_pow_sub_one_eq_mod]

theorem toNat_lowNibble (b : BitVec 8) : (b &&& 0x0F).toNat = b.toNat % 16 := by
  rw [BitVec.toNat_and, show (0x0F : BitVec 8).toNat = 2 ^ 4 - 1 from rfl, Nat.and_two_pow_sub_one_eq_mod]

theorem toNat_highNibble (b : BitVec 8) : (b &&& 0xF0).toNat = b.toNat / 16 * 16 := by
  revert b
  decide

section Segments
variable (m : Mem) (a base limit : Word) (attrLow attrHigh : BitVec 8)

theorem segmentAt_write (d : GdtDesc) : segmentAt (write m a d.bytes) a =
    { base := d.baseHighByte ++ d.baseMidByte ++ d.baseLowWord.extractLsb' 8 8 ++ d.baseLowWord.extractLsb' 0 8
      limit := ((d.limitHighAttrHigh &&& 0x0F) ++ d.limitLowWord.extractLsb' 8 8 ++ d.limitLowWord.extractLsb' 0 8).setWidth 32
      access := d.attrLowByte
      flags := d.limitHighAttrHigh &&& 0xF0 } := by
  have hbyte : ∀ i (hi : i < 8), byteAt (write m a d.bytes) a i = d.bytes[i] :=
    fun i hi => byteAt_write hi (by show 8 ≤ _; decide)
  unfold segmentAt
  rw [hbyte 0 (by decide), hbyte 1 (by decide), hbyte 2 (by decide), hbyte 3 (by decide), hbyte 4 (by decide),
    hbyte 5 (by decide), hbyte 6 (by decide), hbyte 7 (by decide)]
  rfl

/-- What the CPU reads after `SetUpGDTDesc`: bits 16 to 23 of the base are lost. -/
theorem segmentAt_setUp (hlimit : limit.toNat < 2 ^ 20) (hattr : attrHigh &&& 0x0F = 0) :
    segmentAt (setUpGDTDesc m a base limit attrLow attrHigh) a =
      ⟨base.extractLsb' 24 8 ++ (0 : BitVec 8) ++ base.extractLsb' 0 16, limit, attrLow, attrHigh⟩ := by
  have hnibble : attrHigh.toNat % 16 = 0 := by
    rw [← toNat_lowNibble, hattr]
    rfl
  have hhigh : (gdtDesc base limit attrLow attrHigh).limitHighAttrHigh.toNat = limit.toNat / 65536 + attrHigh.toNat := by
    show ((((limit &&& 0x000F0000) >>> 16) + attrHigh.setWidth 32).setWidth 8).toNat = _
    have := attrHigh.isLt
    rw [BitVec.toNat_setWidth, BitVec.toNat_add, toNat_limitHigh, BitVec.toNat_setWidth]
    omega
  have hlow : (gdtDesc base limit attrLow attrHigh).limitLowWord.toNat = limit.toNat % 65536 := toNat_lowWord limit
  have hbase : (gdtDesc base limit attrLow attrHigh).baseLowWord.toNat = base.toNat % 65536 := toNat_lowWord base
  have hbaseHigh : (gdtDesc base limit attrLow attrHigh).baseHighByte.toNat = base.toNat / 2 ^ 24 := toNat_highByte base
  have hmid : (gdtDesc base limit attrLow attrHigh).baseMidByte = 0 := midByte_zero base
  unfold setUpGDTDesc
  rw [segmentAt_write, Segment.mk.injEq]
  refine ⟨?_, ?_, rfl, ?_⟩
  · apply BitVec.eq_of_toNat_eq
    rw [hmid]
    simp only [toNat_append_add, BitVec.extractLsb'_toNat, Nat.shiftRight_eq_div_pow, hbase, hbaseHigh]
    omega
  · apply BitVec.eq_of_toNat_eq
    simp only [BitVec.toNat_setWidth, toNat_append_add, BitVec.extractLsb'_toNat, Nat.shiftRight_eq_div_pow,
      toNat_lowNibble, hlow, hhigh]
    omega
  · apply BitVec.eq_of_toNat_eq
    rw [toNat_highNibble, hhigh]
    omega

/-- The base that is read is the one that was meant iff nothing is lost. -/
theorem base_eq_iff : base.extractLsb' 24 8 ++ (0 : BitVec 8) ++ base.extractLsb' 0 16 = base ↔
    base.extractLsb' 16 8 = 0 := by
  have hlt := base.isLt
  rw [← BitVec.toNat_inj, ← BitVec.toNat_inj]
  simp only [toNat_append_add, BitVec.extractLsb'_toNat, Nat.shiftRight_eq_div_pow]
  omega

/-- A descriptor written elsewhere leaves it. -/
theorem segmentAt_other {p : Word} (h : ∀ i < 8, 8 ≤ (a + BitVec.ofNat 32 i - p).toNat) :
    segmentAt (setUpGDTDesc m p base limit attrLow attrHigh) a = segmentAt m a := by
  have hbyte : ∀ i < 8, byteAt (setUpGDTDesc m p base limit attrLow attrHigh) a i = byteAt m a i :=
    fun i hi => write_of_le (h i hi)
  unfold segmentAt
  rw [hbyte 0 (by decide), hbyte 1 (by decide), hbyte 2 (by decide), hbyte 3 (by decide), hbyte 4 (by decide),
    hbyte 5 (by decide), hbyte 6 (by decide), hbyte 7 (by decide)]

theorem segmentAt_tssInit (tss : Word) : segmentAt (tssInit m tss) 0xC0000630 =
    ⟨tss.extractLsb' 24 8 ++ (0 : BitVec 8) ++ tss.extractLsb' 0 16, tssSize - 1, tssAttrLow, gdtAttrHigh⟩ := by
  unfold tssInit
  rw [segmentAt_other _ _ _ _ _ _ (by decide), segmentAt_other _ _ _ _ _ _ (by decide),
    segmentAt_setUp _ _ _ _ _ _ (by decide) (by decide)]

end Segments

/-- A segment descriptor is read as it was meant iff bits 16 to 23 of its base are 0; so is that of the TSS. -/
theorem gdt_desc_decodes_iff (m : Mem) (descPtr base limit : Word) (attrLow attrHigh : BitVec 8)
    (hlimit : limit.toNat < 2 ^ 20) (hattr : attrHigh &&& 0x0F = 0) (tss : Word) :
    (segmentAt (setUpGDTDesc m descPtr base limit attrLow attrHigh) descPtr = ⟨base, limit, attrLow, attrHigh⟩ ↔
      base.extractLsb' 16 8 = 0) ∧
    (segmentAt (tssInit m tss) 0xC0000630 = ⟨tss, tssSize - 1, tssAttrLow, gdtAttrHigh⟩ ↔
      tss.extractLsb' 16 8 = 0) := by
  constructor
  · rw [segmentAt_setUp m descPtr base limit attrLow attrHigh hlimit hattr, Segment.mk.injEq, ← base_eq_iff base]
    exact ⟨And.left, fun h => ⟨h, rfl, rfl, rfl⟩⟩
  · rw [segmentAt_tssInit m tss, Segment.mk.injEq, ← base_eq_iff tss]
    exact ⟨And.left, fun h => ⟨h, rfl, rfl, rfl⟩⟩

theorem gdt_desc_decodes_low :
    segmentAt (setUpGDTDesc (fun _ => 0) 0xC0000630 0xC0001500 107 tssAttrLow gdtAttrHigh) 0xC0000630 =
      ⟨0xC0001500, 107, tssAttrLow, gdtAttrHigh⟩ :=
  (gdt_desc_decodes_iff _ 0xC0000630 0xC0001500 107 tssAttrLow gdtAttrHigh (by decide) (by decide) 0).1.2 (by decide)

/-- With `tss` at 0xC0012000 the CPU looks for it at 0xC0002000. -/
theorem not_gdt_desc_decodes :
    segmentAt (tssInit (fun _ => 0) 0xC0012000) 0xC0000630 = ⟨0xC0002000, tssSize - 1, tssAttrLow, gdtAttrHigh⟩ ∧
    segmentAt (tssInit (fun _ => 0) 0xC0012000) 0xC0000630 ≠ ⟨0xC0012000, tssSize - 1, tssAttrLow, gdtAttrHigh⟩ := by
  rw [segmentAt_tssInit]
  decide

/-! ## The gates -/

section Gates
variable (m : Mem) (idt : Word)

theorem gateAt_write (a : Word) (d : IntGateDesc) : gateAt (write m a d.bytes) a =
    { offset := d.functionOffsetHighWord.extractLsb' 8 8 ++ d.functionOffsetHighWord.extractLsb' 0 8 ++
        d.functionOffsetLowWord.extractLsb' 8 8 ++ d.functionOffsetLowWord.extractLsb' 0 8
      selector := d.selector.extractLsb' 8 8 ++ d.selector.extractLsb' 0 8
      attr := d.attr } := by
  have hbyte : ∀ i (hi : i < 8), byteAt (write m a d.bytes) a i = d.bytes[i] :=
    fun i hi => byteAt_write hi (by show 8 ≤ _; decide)
  unfold gateAt
  rw [hbyte 0 (by decide), hbyte 1 (by decide), hbyte 2 (by decide), hbyte 3 (by decide), hbyte 5 (by decide),
    hbyte 6 (by decide), hbyte 7 (by decide)]
  rfl

theorem toNat_highWord (x : Word) : (((x &&& 0xFFFF0000) >>> 16).setWidth 16).toNat = x.toNat / 65536 := by
  have := x.isLt
  rw [BitVec.ushiftRight_and_distrib, BitVec.toNat_setWidth, BitVec.toNat_and, BitVec.toNat_ushiftRight,
    Nat.shiftRight_eq_div_pow, show ((0xFFFF0000 : Word) >>> 16).toNat = 2 ^ 16 - 1 from rfl,
    Nat.and_two_pow_sub_one_eq_mod]
  omega

/-- What the CPU reads after `MakeIdtDesc`. -/
theorem gateAt_make (a : Word) (attr : BitVec 8) (function : Word) :
    gateAt (makeIdtDesc m a attr function) a = ⟨function, selectorKCode, attr⟩ := by
  have hlow : (idtDesc attr function).functionOffsetLowWord.toNat = function.toNat % 65536 := toNat_lowWord function
  have hhigh : (idtDesc attr function).functionOffsetHighWord.toNat = function.toNat / 65536 := toNat_highWord function
  unfold makeIdtDesc
  rw [gateAt_write, Gate.mk.injEq]
  refine ⟨?_, ?_, rfl⟩
  · apply BitVec.eq_of_toNat_eq
    simp only [toNat_append_add, BitVec.extractLsb'_toNat, Nat.shiftRight_eq_div_pow, hlow, hhigh]
    omega
  · show selectorKCode.extractLsb' 8 8 ++ selectorKCode.extractLsb' 0 8 = selectorKCode
    decide

/-- A gate of another vector leaves it. -/
theorem gateAt_other {i j : Nat} (hi : i < idtDescSum) (hj : j < idtDescSum) (hne : i ≠ j) (attr : BitVec 8)
    (function : Word) : gateAt (makeIdtDesc m (gatePtr idt j) attr function) (gatePtr idt i) = gateAt m (gatePtr idt i) := by
  have hbyte : ∀ k < 8, byteAt (makeIdtDesc m (gatePtr idt j) attr function) (gatePtr idt i) k =
      byteAt m (gatePtr idt i) k := by
    intro k hk
    apply write_of_le
    show 8 ≤ _
    unfold gatePtr
    unfold idtDescSum at hi hj
    bv_omega
  unfold gateAt
  rw [hbyte 0 (by decide), hbyte 1 (by decide), hbyte 2 (by decide), hbyte 3 (by decide), hbyte 5 (by decide),
    hbyte 6 (by decide), hbyte 7 (by decide)]

/-- The gates the loop has written. -/
theorem gateAt_loop (entries : Nat → Word) {n i : Nat} (hn : n ≤ idtDescSum) (hi : i < n) :
    gateAt (idtDescLoop m idt entries n) (gatePtr idt i) = ⟨entries i, selectorKCode, idtDescAttributeDpl0⟩ := by
  induction n with
  | zero => cases hi
  | succ n ih =>
    unfold idtDescLoop
    by_cases h : i = n
    · rw [h]
      exact gateAt_make _ _ _ _
    · rw [gateAt_other _ _ (by omega) (by omega) h]
      exact ih (by omega) (by omega)

theorem gateAt_init (entries : Nat → Word) (syscallHandler : Word) {i : Nat} (hi : i < idtDescSum) :
    gateAt (idtDescInit m idt entries syscallHandler) (gatePtr idt i) =
      if i = 0x80 then ⟨syscallHandler, selectorKCode, idtDescAttributeDpl3⟩
      else ⟨entries i, selectorKCode, idtDescAttributeDpl0⟩ := by
  unfold idtDescInit
  by_cases h : i = 0x80
  · rw [if_pos h, h]
    exact gateAt_make _ _ _ _
  · rw [if_neg h, gateAt_other _ _ hi (by decide) h]
    exact gateAt_loop m idt entries (Nat.le_refl _) hi

end Gates

/-- The base in the operand of `lidt`: the shift has lost the upper half of the address. -/
theorem tableOf_idtOperand (idt : Word) : tableOf (idtOperand idt) = ⟨1031, (idt.extractLsb' 0 16).setWidth 32⟩ := by
  have hop : (idtOperand idt).toNat = 65536 * (idt.toNat % 65536) + 1031 := by
    unfold idtOperand
    rw [BitVec.toNat_or, BitVec.toNat_setWidth, BitVec.toNat_setWidth, BitVec.toNat_shiftLeft, Nat.shiftLeft_eq,
      show (BitVec.ofNat 32 (8 * idtDescSum) - 1).toNat % 2 ^ 64 = 1031 from rfl, Nat.or_comm,
      show idt.toNat * 2 ^ 16 % 2 ^ 32 % 2 ^ 64 = 2 ^ 16 * (idt.toNat % 65536) by omega,
      ← Nat.two_pow_add_eq_or_of_lt (by decide)]
  unfold tableOf
  rw [Table.mk.injEq]
  refine ⟨?_, ?_⟩
  · apply BitVec.eq_of_toNat_eq
    rw [BitVec.extractLsb'_toNat, hop, Nat.shiftRight_eq_div_pow]
    show _ = 1031
    omega
  · apply BitVec.eq_of_toNat_eq
    rw [BitVec.extractLsb'_toNat, BitVec.toNat_setWidth, BitVec.extractLsb'_toNat, hop, Nat.shiftRight_eq_div_pow,
      Nat.shiftRight_eq_div_pow]
    omega

/-- The CPU finds the table at `idt`, and in it the gate of each vector. -/
def GatesFound (idt : Word) (m : Mem) (gates : Nat → Gate) : Prop :=
  tableOf (idtOperand idt) = ⟨BitVec.ofNat 16 (8 * idtDescSum - 1), idt⟩ ∧
    ∀ i < idtDescSum, gateAt m ((tableOf (idtOperand idt)).base + BitVec.ofNat 32 (8 * i)) = gates i

/-- The gates that `IdtDescInit` is asked for. -/
def gates (interruptEntryTable : Nat → Word) (syscallHandler : Word) (i : Nat) : Gate :=
  if i = 0x80 then ⟨syscallHandler, selectorKCode, idtDescAttributeDpl3⟩
  else ⟨interruptEntryTable i, selectorKCode, idtDescAttributeDpl0⟩

/-- Each gate is where and what it is meant to be, and the CPU finds the table iff `IDT` is below 0x10000; it never
finds the GDT at 0xC0000610. -/
theorem gates_found_iff (m : Mem) (idt : Word) (entries : Nat → Word) (syscallHandler : Word) :
    (∀ i < idtDescSum, gateAt (idtDescInit m idt entries syscallHandler) (gatePtr idt i) =
      gates entries syscallHandler i) ∧
    (GatesFound idt (idtDescInit m idt entries syscallHandler) (gates entries syscallHandler) ↔ idt.toNat < 0x10000) ∧
    tableOf gdtOperand = ⟨55, 0x610⟩ ∧ tableOf gdtOperand ≠ ⟨55, 0xC0000610⟩ := by
  have hgates : ∀ i < idtDescSum, gateAt (idtDescInit m idt entries syscallHandler) (gatePtr idt i) =
      gates entries syscallHandler i := fun i hi => gateAt_init m idt entries syscallHandler hi
  have hbase : (idt.extractLsb' 0 16).setWidth 32 = idt ↔ idt.toNat < 0x10000 := by
    rw [← BitVec.toNat_inj, BitVec.toNat_setWidth, BitVec.extractLsb'_toNat]
    omega
  refine ⟨hgates, ?_, by decide, by decide⟩
  unfold GatesFound
  rw [tableOf_idtOperand, Table.mk.injEq, ← hbase]
  refine ⟨fun h => h.1.2, ?_⟩
  intro h
  rw [h]
  exact ⟨⟨rfl, rfl⟩, hgates⟩

theorem gates_found_low : GatesFound 0x3000 (idtDescInit (fun _ => 0) 0x3000 (fun _ => 0xC0001600) 0xC0001700)
    (gates (fun _ => 0xC0001600) 0xC0001700) :=
  (gates_found_iff _ 0x3000 _ _).2.1.2 (by decide)

/-- With the `IDT` at 0xC0003000 the CPU looks for it at 0x3000. -/
theorem not_gates_found : tableOf (idtOperand 0xC0003000) = ⟨1031, 0x3000⟩ ∧
    ¬ GatesFound 0xC0003000 (idtDescInit (fun _ => 0) 0xC0003000 (fun _ => 0xC0001600) 0xC0001700)
      (gates (fun _ => 0xC0001600) 0xC0001700) := by
  refine ⟨by decide, ?_⟩
  intro h
  have := h.1
  revert this
  decide

end ElephantOS.Descriptors
