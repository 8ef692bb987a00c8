import ElephantOS.Boot.KernelInit
import ElephantOS.Boot.ReadDisk
import ElephantOS.Kernel.Descriptors

/-!
# The loader as a whole (`boot/loader.S`)

From its first instruction to the jump to the kernel: the memory size is asked from the BIOS, the kernel read from the
disk, paging turned on, and the kernel's segments copied. The BIOS answers as it likes, and what the disk delivers after
the sectors that were asked for is arbitrary.

* `Startup` : the machine with the registers that only the loader sets;
* `detect` : the loop around `int 0x15`; `enterProtected`, `startPaging`, `enterKernel` : the text between the calls;
* `loader` : all of it;
* `LoaderFile` : the tables of the loader's file are in memory; `kernelFile` : the kernel's file, as the disk delivers it;
* `beneath` : the first megabyte under the segments of the kernel;
* `Handed` : what the kernel is handed; `loader_hands_over` : it is.
-/

namespace ElephantOS.Boot
open Bytes Loop Descriptors
open IntEntry (Reg)

/-- An answer of the BIOS to `int 0x15`: the carry flag, and the registers. -/
structure Answer where
  carry : Bool
  regs : Reg → Word

/-- The operand of `lgdt`. -/
structure Gdtr where
  limit : BitVec 16
  base : Word
  deriving DecidableEq

/-- The machine while the loader runs. -/
structure Startup where
  machine : Machine
  ds : BitVec 16
  gdtr : Gdtr
  cr0 : Word
  cr3 : Word
  /-- port `0x92` -/
  port92 : BitVec 8
  bios : Nat → Answer
  asked : Nat
  carry : Bool
  eip : Word

/-! ## The code -/

/-- `mov ax,0xE801` and `int 0x15`. -/
def askE801 (s : Startup) : Startup :=
  { s with
    machine := { mov16Imm .eax 0xE801 s.machine with regs := (s.bios s.asked).regs }
    carry := (s.bios s.asked).carry
    asked := s.asked + 1 }

/-- `.LoaderStart_E801FailedRetry`, which `jc` repeats. -/
def detect (fuel : Nat) (s : Startup) : Option Startup := run (fun s => some (askE801 s)) (fun s => !s.carry) fuel s

/-- How the CPU reads the operand of `lgdt`. -/
def gdtrAt (m : Mem) (a : Word) : Gdtr := ⟨load16 m a, load m (a + 2)⟩

/-- `LoaderStart` from the return of the BIOS on, and `ProctectionModeStart` up to its first call. -/
def enterProtected (s : Startup) : Startup :=
  let code := loaderStart s.ds s.port92 s.cr0
  { s with
    machine := block code s.machine
    port92 := s.port92 ||| 0x02
    -- `lgdt` comes after the store to `TOTAL_MEM_BYTES`
    gdtr := gdtrAt (block (code.take 13) s.machine).mem (segAddr s.ds 0x814)
    cr0 := s.cr0 ||| 0x00000001 }

/-- The push of `call`, before paging is on. -/
def pushFlat (v : Word) (s : Machine) : Machine :=
  { s.set .esp (s.regs .esp - 4) with mem := store s.mem (s.regs .esp - 4) v }

/-- `ret` to `here`, before paging is on. -/
def retFlat (here : Word) (s : Machine) : Option Machine :=
  if load s.mem (s.regs .esp) = here then some (s.set .esp (s.regs .esp + 4)) else none

/-- A call of `f`, which ends with a `ret`. -/
def call (here : Word) (f : Machine → Option Machine) (s : Machine) : Option Machine :=
  (f (pushFlat here s)).bind (retFlat here)

/-- `or dword [a],v`, before paging is on. -/
def orTo (a : (Reg → Word) → Word) (v : Word) (s : Machine) : Machine :=
  { s with mem := store s.mem (a s.regs) (load s.mem (a s.regs) ||| v) }

/-- `add dword [a],v`, before paging is on. -/
def addTo (a : (Reg → Word) → Word) (v : Word) (s : Machine) : Machine :=
  { s with mem := store s.mem (a s.regs) (load s.mem (a s.regs) + v) }

/-- `sgdt [a]`, before paging is on. -/
def sgdt (a : Word) (g : Gdtr) (s : Machine) : Machine :=
  { s with mem := store (write s.mem a (Boot.bytes16 g.limit)) (a + 2) g.base }

/-- `mov r,[a]`, before paging is on. -/
def movFromFlat (r : Reg) (a : Word) (s : Machine) : Machine := s.set r (load s.mem a)

/-- `ProctectionModeStart` from the return of `SetupPage` to the writes of CR3 and CR0, but for these: the GDT and the
stack are moved to 0xC0000000. -/
def moveGdt (g : Gdtr) (cr0 : Word) : List (Machine → Machine) :=
  [sgdt 0x814 g, movFromFlat .ebx (0x814 + 2), orTo (fun r => r .ebx + 0x18 + 4) 0xC0000000,
   addTo (fun _ => 0x814 + 2) 0xC0000000, addImm .esp 0xC0000000,
   movImm .eax 0x100000, movImm .eax cr0, orImm .eax 0x80000000]

/-- The same with the writes, and `lgdt`. -/
def startPaging (s : Startup) : Option Startup :=
  let t := block (moveGdt s.gdtr s.cr0) s.machine
  (access 0x814 6).map fun p => { s with machine := t, cr3 := 0x100000, cr0 := t.regs .eax, gdtr := gdtrAt t.mem p }

/-- The rest: `here` is where `KernelInit` returns to, and `mem_cpy` to `inner`. The base of GS is still that of the
first `VIDEO_DESC`. -/
def enterKernel (here inner : Word) (fuel : Nat) (s : Startup) : Option Startup :=
  (access 0xB8004 1).bind fun p =>
    (push here { s.machine with mem := write s.machine.mem p [0x56] }).bind fun t =>
      (kernelInit here inner fuel t).map fun t =>
        { s with machine := movImm .esp 0xC009F000 t, eip := 0xC0001500 }

/-- The addresses in the loader's text that its calls return to. -/
structure Returns where
  readDisk : Word
  setupPage : Word
  kernelInit : Word
  memCpy : Word

/-- `loader.S`. -/
def loader (r : Returns) (fuel : Nat) (s : Startup) : Option Startup :=
  (detect fuel s).bind fun s =>
    let s := enterProtected s
    (call r.readDisk (readDiskSector32 fuel) s.machine).bind fun t =>
      (call r.setupPage (setupPage fuel) t).bind fun t =>
        (startPaging { s with machine := t }).bind (enterKernel r.kernelInit r.memCpy fuel)

/-! ## What is handed to the kernel -/

/-- The GDT and `gdt_ptr` as they are in the loader's file. -/
structure LoaderFile (m : Mem) : Prop where
  null : load m 0x610 = 0 ∧ load m 0x614 = 0
  code : load m 0x618 = 0x0000FFFF ∧ load m 0x61C = 0x00CF9800
  data : load m 0x620 = 0x0000FFFF ∧ load m 0x624 = 0x00CF9200
  video : load m 0x628 = 0x80000007 ∧ load m 0x62C = 0x00C0920B
  limit : load16 m 0x814 = 31
  base : load m 0x816 = 0x610

/-- `TOTAL_MEM_BYTES` for an answer of the BIOS. -/
def totalMemBytes (a : Answer) : Nat :=
  ((low16 (a.regs .eax)).toNat * 0x400 + 0x100000 + (low16 (a.regs .ebx)).toNat * 0x10000) % 2 ^ 32

/-- The bytes the disk delivers: the sectors of the kernel, and 65536 words more. -/
def delivered (d : Disk) : List (BitVec 8) := wordBytes (d.word 0x1F0) d.wordsRead (256 * 200 + 65536)

/-- The kernel's file, at the address it is read to. -/
def kernelFile (d : Disk) : Mem := write (fun _ => 0) 0x60000 ((delivered d).take (512 * 200))

/-- The first megabyte under the segments of the kernel, the loader apart. -/
def beneath (s : Startup) : Mem :=
  write (write (write s.machine.mem 0xB8002 [0x50]) 0x60000 (delivered s.machine.disk)) 0xB8004 [0x56]

/-- The byte of the kernel at `b`: of the last header that is copied over it. -/
def loaded (file under : Mem) (b : Word) : BitVec 8 :=
  (last (headers file) b).elim (under b) fun h => file (h.source b)

/-- What the kernel is handed in `t`, when the loader is started in `s` and `a` is the answer of the BIOS. -/
structure Handed (s t : Startup) (a : Answer) : Prop where
  eip : t.eip = 0xC0001500
  esp : t.machine.regs .esp = 0xC009F000
  cr0 : t.cr0 = s.cr0 ||| 0x80000001
  cr3 : t.cr3 = 0x100000
  port92 : t.port92 = s.port92 ||| 0x02
  gdtr : t.gdtr = ⟨31, 0xC0000610⟩
  /-- the GDT as the CPU reads it: flat segments, and the text buffer at 0xC00B8000 -/
  code : segmentAt t.machine.mem 0x618 = ⟨0, 0xFFFFF, 0x98, 0xC0⟩
  data : segmentAt t.machine.mem 0x620 = ⟨0, 0xFFFFF, 0x92, 0xC0⟩
  video : segmentAt t.machine.mem 0x628 = ⟨0xC00B8000, 7, 0x92, 0xC0⟩
  memory : (load t.machine.mem 0x810).toNat = totalMemBytes a
  /-- the page directory and the page tables -/
  tables : ∀ f, 0x100 ≤ f → f < 2 ^ 19 → ∀ i < 1024, ramOf t.machine.mem f i = tables (ramOf s.machine.mem) f i
  kernel : ∀ b, b.toNat < 0x100000 → ¬ InLoader b → t.machine.mem b = loaded (kernelFile s.machine.disk) (beneath s) b

/-! ## The memory size -/

section Detect
variable {s : Startup}

/-- After the first answer without carry, the `k`th from now on. -/
structure Detected (s t : Startup) (k : Nat) : Prop where
  state : t = { s with
    machine := { s.machine with regs := (s.bios (s.asked + k)).regs }
    carry := false
    asked := s.asked + k + 1 }
  carry : (s.bios (s.asked + k)).carry = false
  first : ∀ j < k, (s.bios (s.asked + j)).carry = true

/-- After `i` answers. -/
def afterAnswers (s : Startup) : Nat → Startup
  | 0 => s
  | i + 1 => { s with
      machine := { s.machine with regs := (s.bios (s.asked + i)).regs }
      carry := (s.bios (s.asked + i)).carry
      asked := s.asked + i + 1 }

theorem askE801_afterAnswers (s : Startup) (i : Nat) : askE801 (afterAnswers s i) = afterAnswers s (i + 1) := by
  cases i with
  | zero => rfl
  | succ i => rfl

theorem detect_ends (h : ∃ k, (s.bios (s.asked + k)).carry = false) : ∃ t k,
    Ends (fun fuel => detect fuel s) t ∧ Detected s t k := by
  have hpass : ∀ i t, i < Nat.find h + 1 → t = afterAnswers s i → ∃ u, some (askE801 t) = some u ∧
      u = afterAnswers s (i + 1) ∧ ((!u.carry) = true ↔ i + 1 = Nat.find h + 1) := by
    rintro i t hi rfl
    refine ⟨_, rfl, askE801_afterAnswers s i, ?_⟩
    rw [askE801_afterAnswers, Bool.not_eq_true']
    constructor
    · intro hc
      have := Nat.find_min' h hc
      omega
    · intro hk
      rw [show i = Nat.find h by omega]
      exact Nat.find_spec h
  obtain ⟨t, hends, rfl⟩ := ends_run (Nat.succ_pos _) hpass rfl
  refine ⟨_, Nat.find h, hends, ?_, Nat.find_spec h, ?_⟩
  · rw [afterAnswers, Nat.find_spec h]
  · intro j hj
    have := Nat.find_min h hj
    rwa [Bool.not_eq_false] at this

/-- It does not get past the BIOS in another way. -/
theorem carry_of_detect {fuel : Nat} {t : Startup} (h : detect fuel s = some t) :
    ∃ k, (s.bios (s.asked + k)).carry = false := by
  have hstep : ∀ u v, (∃ i, u = afterAnswers s i) → some (askE801 u) = some v → ∃ i, v = afterAnswers s i := by
    rintro u v ⟨i, rfl⟩ huv
    rw [Option.some.injEq, askE801_afterAnswers] at huv
    exact ⟨i + 1, huv.symm⟩
  obtain ⟨_, ⟨i, rfl⟩, ht, hstop⟩ := run_last hstep ⟨0, rfl⟩ h
  rw [Option.some.injEq, askE801_afterAnswers] at ht
  rw [← ht, Bool.not_eq_true'] at hstop
  exact ⟨i, hstop⟩

end Detect

/-! ## Protected mode -/

/-- `shl edx,16`, `and eax,0x0000FFFF` and `or edx,eax` put a product of 16-bit `mul` together. -/
theorem join_product (d a p : Word) :
    (withLow16 d (high16 p) <<< 16) ||| (withLow16 a (low16 p) &&& 0x0000FFFF) = p := by
  apply BitVec.eq_of_getLsbD_eq
  intro i hi
  simp only [withLow16, high16, low16, BitVec.getLsbD_or, BitVec.getLsbD_and, BitVec.getLsbD_shiftLeft,
    BitVec.getLsbD_append, BitVec.getLsbD_extractLsb']
  interval_cases i <;> simp

/-- The word that is stored to `TOTAL_MEM_BYTES`. -/
def totalMem (ax bx : BitVec 16) : Word :=
  ax.zeroExtend 32 * 0x400 + 0x100000 + ((bx.zeroExtend 32).zeroExtend 64 * 0x10000#64).extractLsb' 0 32

theorem totalMem_toNat (ax bx : BitVec 16) :
    (totalMem ax bx).toNat = (ax.toNat * 0x400 + 0x100000 + bx.toNat * 0x10000) % 2 ^ 32 := by
  have ha := ax.isLt
  have hb := bx.isLt
  have hk : (0x400 : Word).toNat = 0x400 := rfl
  have hmega : (0x100000 : Word).toNat = 0x100000 := rfl
  have hblock : (0x10000#64).toNat = 0x10000 := rfl
  unfold totalMem
  rw [BitVec.toNat_add, BitVec.toNat_add, BitVec.toNat_mul, BitVec.extractLsb'_toNat, BitVec.toNat_mul, hk, hmega, hblock,
    BitVec.toNat_setWidth, BitVec.toNat_setWidth, BitVec.toNat_setWidth, Nat.shiftRight_zero]
  generalize ax.toNat = a at ha
  generalize bx.toNat = b at hb
  omega

theorem loaderStart_stores (port92 : BitVec 8) (cr0 : Word) (s : Machine) :
    (block ((loaderStart 0 port92 cr0).take 13) s).mem =
      store s.mem 0x810 (totalMem (low16 (s.regs .eax)) (low16 (s.regs .ebx))) := by
  simp only [loaderStart, List.take, block, List.foldl, mov16Imm, mul16, shlImm, andImm, or, addImm, mov, movImm, mov16,
    mul, add, movTo, Machine.set16, Machine.set_self, Machine.set_ne, Machine.set_mem, ne_eq, reduceCtorEq,
    not_false_eq_true, join_product, low16_withLow16, withLow16_zero, BitVec.ofNat_toNat]
  rfl

theorem block_append (code code' : List (Machine → Machine)) (s : Machine) :
    block (code ++ code') s = block code' (block code s) := List.foldl_append ..

theorem block_mem {code : List (Machine → Machine)} (h : ∀ i ∈ code, ∀ s : Machine, (i s).mem = s.mem) (s : Machine) :
    (block code s).mem = s.mem := by
  induction code generalizing s with
  | nil => rfl
  | cons i code ih =>
    have hcode := ih (fun j hj => h j (List.mem_cons_of_mem i hj)) (i s)
    exact hcode.trans (h i List.mem_cons_self s)

/-- After the store, the loader only writes a letter to the screen. -/
theorem loaderStart_mem (ds : BitVec 16) (port92 : BitVec 8) (cr0 : Word) (s : Machine) :
    (block (loaderStart ds port92 cr0) s).mem =
      write (block ((loaderStart ds port92 cr0).take 13) s).mem 0xB8002 [0x50] := by
  have hsplit : loaderStart ds port92 cr0 = (loaderStart ds port92 cr0).take 13 ++
      ([mov8Imm .eax port92, or8Imm .eax 0x02, movImm .eax cr0, orImm .eax 0x00000001, mov16Imm .eax 0x10,
        movImm .esp 0x600, mov16Imm .eax 0x18] ++
      ([movToImm8 (fun _ => 0xB8002) 0x50] ++ [movImm .esi 0x9, movImm .edi 0x60000, movImm .edx 200])) := rfl
  have hletter : ∀ t : Machine, (block [movToImm8 (fun _ => 0xB8002) 0x50] t).mem = write t.mem 0xB8002 [0x50] := fun _ => rfl
  rw [hsplit, block_append, block_append, block_append, ← hsplit, block_mem, hletter, block_mem]
  · simp only [List.mem_cons, List.not_mem_nil, or_false, forall_eq_or_imp, forall_eq]
    exact ⟨fun _ => rfl, fun _ => rfl, fun _ => rfl, fun _ => rfl, fun _ => rfl, fun _ => rfl, fun _ => rfl⟩
  · simp only [List.mem_cons, List.not_mem_nil, or_false, forall_eq_or_imp, forall_eq]
    exact ⟨fun _ => rfl, fun _ => rfl, fun _ => rfl⟩

theorem gdtrAt_congr {m m' : Mem} {a : Word} (h : ∀ b, (b - a).toNat < 6 → m' b = m b) : gdtrAt m' a = gdtrAt m a := by
  unfold gdtrAt load16
  rw [h a (by bv_omega), h (a + 1) (by bv_omega), load_congr fun b hb => h b (by bv_omega)]

theorem LoaderFile.gdtr {m : Mem} (h : LoaderFile m) : gdtrAt m 0x814 = ⟨31, 0x610⟩ := by
  unfold gdtrAt
  rw [h.limit, show (0x814 + 2 : Word) = 0x816 from rfl, h.base]

/-- The machine when the loader calls `ReadDiskSector_32`. -/
structure Protected (s t : Startup) : Prop where
  esp : t.machine.regs .esp = 0x600
  ecx : t.machine.regs .ecx = 0x10000
  edx : t.machine.regs .edx = 200
  edi : t.machine.regs .edi = 0x60000
  disk : t.machine.disk = s.machine.disk
  mem : t.machine.mem = write (store s.machine.mem 0x810
    (totalMem (low16 (s.machine.regs .eax)) (low16 (s.machine.regs .ebx)))) 0xB8002 [0x50]
  gdtr : t.gdtr = ⟨31, 0x610⟩
  rest : t = { s with
    machine := t.machine, port92 := s.port92 ||| 0x02, gdtr := t.gdtr, cr0 := s.cr0 ||| 0x00000001 }

theorem enterProtected_spec {s : Startup} (hds : s.ds = 0) (hfile : LoaderFile s.machine.mem) :
    Protected s (enterProtected s) := by
  obtain ⟨hecx, hedx, hdisk⟩ := loaderStart_regs s.ds s.port92 s.cr0 s.machine
  refine ⟨rfl, hecx, hedx, rfl, hdisk, ?_, ?_, rfl⟩
  · show (block (loaderStart s.ds s.port92 s.cr0) s.machine).mem = _
    rw [loaderStart_mem, hds, loaderStart_stores]
  · show gdtrAt (block ((loaderStart s.ds s.port92 s.cr0).take 13) s.machine).mem (segAddr s.ds 0x814) = _
    rw [hds, loaderStart_stores, show segAddr 0 0x814 = 0x814 by decide, ← hfile.gdtr]
    apply gdtrAt_congr
    intro b hb
    apply store_of_le
    bv_omega

/-! ## The calls before paging -/

/-- A call of `f` that does not touch its stack. -/
theorem call_ends {here : Word} {f : Nat → Machine → Option Machine} {s t : Machine}
    (hends : Ends (fun fuel => f fuel (pushFlat here s)) t)
    (hesp : t.regs .esp = s.regs .esp - 4)
    (hmem : ∀ b, (b - (s.regs .esp - 4)).toNat < 4 → t.mem b = store s.mem (s.regs .esp - 4) here b) :
    Ends (fun fuel => call here (f fuel) s) (t.set .esp (s.regs .esp)) := by
  refine hends.bind (g := fun _ => retFlat here) ?_
  have hload : load t.mem (t.regs .esp) = here := by
    rw [hesp, load_congr hmem, load_store]
  rw [retFlat, if_pos hload, hesp, BitVec.sub_add_cancel]
  exact ends_some _

/-- A loop keeps the stack pointer when its body does. -/
theorem loop32_esp {body : List (Machine → Machine)} (hbody : ∀ s, (block body s).regs .esp = s.regs .esp) {fuel : Nat}
    {s t : Machine} (h : loop32 body fuel s = some t) : t.regs .esp = s.regs .esp := by
  refine run_keeps (P := fun u => u.regs .esp = s.regs .esp) ?_ rfl h
  intro u v hu huv
  rw [Option.some.injEq] at huv
  rw [← huv, decEcx, Machine.set_ne _ _ (by decide), hbody, hu]

/-- The 32-bit reader, whatever the upper half of ECX. -/
theorem readDiskSector32_moves {s : Machine} {n : Nat} (hn : 1 ≤ n) (hn' : n ≤ 255)
    (hedx : s.regs .edx = BitVec.ofNat 32 n) (hready : s.disk.Ready)
    (hfit : 2 * (2 ^ 16 * (high16 (s.regs .ecx)).toNat + 256 * n) ≤ 2 ^ 32) : ∃ t,
    Ends (fun fuel => readDiskSector32 fuel s) t ∧ t.regs .esp = s.regs .esp ∧
      t.mem = write s.mem (s.regs .edi) (wordBytes (s.disk.word 0x1F0) s.disk.wordsRead
        (2 ^ 16 * (high16 (s.regs .ecx)).toNat + 256 * n)) := by
  have hp := programmed32 s
  have hesp₁ : (block ([mov .ebx .edx, mov16 .eax .ebx, mov16Imm .edx 0x1F2, outAl] ++ programCode) s).regs .esp =
      s.regs .esp := rfl
  generalize hs₁ : block _ s = s₁ at hp hesp₁
  obtain ⟨s₂, k, hpoll, hk⟩ := poll_ends hp.edx (by rw [hp.disk]; exact hready)
  have hbx : low16 (s₂.regs .ebx) = BitVec.ofNat 16 n := by
    rw [hk.regs .ebx (by decide), hp.ebx, hedx, low16_ofNat]
  have hc := counted s₂ hbx
  obtain ⟨t, hloop, ht⟩ := loop32_moves hc.edx
  have hpass : passes ((block countCode s₂).regs .ecx) = 2 ^ 16 * (high16 (s.regs .ecx)).toNat + 256 * n := by
    have hecx : ((block countCode s₂).regs .ecx).toNat = 2 ^ 16 * (high16 (s.regs .ecx)).toNat + 256 * n := by
      rw [hc.ecx, toNat_withLow16, hk.regs .ecx (by decide), hp.ecx, BitVec.toNat_ofNat, Nat.mod_eq_of_lt (by omega)]
    exact passes_of_toNat hecx (by omega)
  rw [hpass] at ht
  refine ⟨t, ?_, ?_, ?_⟩
  · unfold readDiskSector32
    rw [hs₁]
    exact hpoll.bind hloop
  · obtain ⟨fuel, hrun⟩ := hloop.exists_fuel
    calc t.regs .esp = (block countCode s₂).regs .esp := loop32_esp (fun _ => rfl) hrun
      _ = s₂.regs .esp := rfl
      _ = s.regs .esp := by rw [hk.regs .esp (by decide), hesp₁]
  · rw [ht.mem hfit, hc.mem, hc.edi, hc.disk, hk.mem, hk.regs .edi (by decide), hk.disk, hp.mem, hp.edi, hp.disk]

theorem setupPage_esp {fuel : Nat} {s t : Machine} (h : setupPage fuel s = some t) : t.regs .esp = s.regs .esp := by
  unfold setupPage at h
  obtain ⟨s₁, h₁, h⟩ := Option.bind_eq_some_iff.mp h
  obtain ⟨s₂, h₂, h₃⟩ := Option.bind_eq_some_iff.mp h
  calc t.regs .esp = (block kernelPDECode s₂).regs .esp := loop32_esp (fun _ => rfl) h₃
    _ = s₂.regs .esp := rfl
    _ = (block createPDECode s₁).regs .esp := loop32_esp (fun _ => rfl) h₂
    _ = s₁.regs .esp := rfl
    _ = (block [movImm .ecx 0x1000, movImm .esi 0] s).regs .esp := loop32_esp (fun _ => rfl) h₁

theorem byte_of_word {m m' : Mem} {k : Nat} (h : word m' k = word m k) {b : Word} (hb : b.toNat / 4 = k) : m' b = m b := by
  have hat : b = BitVec.ofNat 32 (4 * k) + BitVec.ofNat 32 (b.toNat % 4) := by
    apply BitVec.eq_of_toNat_eq
    rw [← BitVec.ofNat_add, BitVec.toNat_ofNat]
    have := b.isLt
    omega
  have hbyte : byteAt m' (BitVec.ofNat 32 (4 * k)) (b.toNat % 4) = byteAt m (BitVec.ofNat 32 (4 * k)) (b.toNat % 4) := by
    rw [byteAt_of_load h (by omega), byteAt_of_load rfl (by omega)]
    rfl
  unfold byteAt at hbyte
  rwa [← hat] at hbyte

/-- `SetupPage` leaves the first megabyte and the stack alone. -/
theorem setupPage_keeps (s : Machine) : ∃ t, Ends (fun fuel => setupPage fuel s) t ∧ t.regs .esp = s.regs .esp ∧
    t.regs .ecx = 0 ∧ (∀ f < 2 ^ 19, ∀ i < 1024, ramOf t.mem f i = tables (ramOf s.mem) f i) ∧
    ∀ b, b.toNat < 0x100000 → t.mem b = s.mem b := by
  obtain ⟨t, hends, hecx, hwords⟩ := setupPage_words s
  obtain ⟨t', hends', -, hram⟩ := setupPage_ram s
  rw [hends'.unique hends] at hram
  obtain ⟨fuel, hrun⟩ := hends.exists_fuel
  refine ⟨t, hends, setupPage_esp hrun, hecx, hram, ?_⟩
  intro b hb
  have hword := hwords (b.toNat / 4) (by omega)
  rw [tableWord, if_neg (by omega), if_neg (by omega), if_neg (by omega), if_neg (by omega), if_neg (by omega)] at hword
  exact byte_of_word hword rfl

theorem delivered_length (d : Disk) : (delivered d).length = 0x39000 := by
  unfold delivered
  rw [wordBytes_length]

/-- The frames from 1MB on are not touched by a change below. -/
theorem ramOf_congr {m m' : Mem} (h : ∀ b, 0x100000 ≤ b.toNat → m' b = m b) {f i : Nat} (hf : 0x100 ≤ f) (hf' : f < 2 ^ 19)
    (hi : i < 1024) : ramOf m' f i = ramOf m f i := by
  unfold ramOf word
  rw [load_congr]
  intro b hb
  apply h
  bv_omega

/-- The word of a return address. -/
theorem store_return {m : Mem} {v b : Word} (h : ¬ (0x5FC ≤ b.toNat ∧ b.toNat < 0x600)) : store m 0x5FC v b = m b := by
  apply store_of_le
  bv_omega

/-- The call of `ReadDiskSector_32`. -/
theorem callRead_ends (here : Word) {p : Machine} (hesp : p.regs .esp = 0x600) (hecx : p.regs .ecx = 0x10000)
    (hedx : p.regs .edx = 200) (hedi : p.regs .edi = 0x60000) (hready : p.disk.Ready) : ∃ t,
    Ends (fun fuel => call here (readDiskSector32 fuel) p) t ∧ t.regs .esp = 0x600 ∧
      t.mem = write (store p.mem 0x5FC here) 0x60000 (delivered p.disk) := by
  have hsp : p.regs .esp - 4 = 0x5FC := by rw [hesp]; rfl
  have hecx' : (pushFlat here p).regs .ecx = 0x10000 := hecx
  have hedi' : (pushFlat here p).regs .edi = 0x60000 := hedi
  have hhigh : (high16 0x10000).toNat = 1 := by decide
  obtain ⟨t, hends, hespt, hmem⟩ := readDiskSector32_moves (s := pushFlat here p) (n := 200) (by decide) (by decide) hedx
    hready (by rw [hecx', hhigh]; decide)
  have hmem : t.mem = write (store p.mem 0x5FC here) 0x60000 (delivered p.disk) := by
    rw [hmem, hecx', hhigh, hedi', ← hsp]
    rfl
  refine ⟨_, call_ends hends hespt ?_, ?_, hmem⟩
  · intro b hb
    rw [hsp] at hb
    rw [hmem, hsp]
    apply write_of_le
    rw [delivered_length]
    bv_omega
  · rw [Machine.set_self, hesp]

/-- The call of `SetupPage`. -/
theorem callSetup_ends (here : Word) {p : Machine} (hesp : p.regs .esp = 0x600) : ∃ t,
    Ends (fun fuel => call here (setupPage fuel) p) t ∧ t.regs .esp = 0x600 ∧ t.regs .ecx = 0 ∧
      (∀ f, 0x100 ≤ f → f < 2 ^ 19 → ∀ i < 1024, ramOf t.mem f i = tables (ramOf p.mem) f i) ∧
      ∀ b, b.toNat < 0x100000 → t.mem b = store p.mem 0x5FC here b := by
  have hsp : p.regs .esp - 4 = 0x5FC := by rw [hesp]; rfl
  obtain ⟨t, hends, hespt, hecx, hram, hlow⟩ := setupPage_keeps (pushFlat here p)
  refine ⟨_, call_ends hends hespt ?_, ?_, ?_, ?_, ?_⟩
  · intro b hb
    rw [hsp] at hb
    exact hlow b (by bv_omega)
  · rw [Machine.set_self, hesp]
  · rw [Machine.set_ne _ _ (by decide), hecx]
  · intro f hf hf' i hi
    have hpush : ramOf (pushFlat here p).mem f i = ramOf p.mem f i := by
      refine ramOf_congr ?_ hf hf' hi
      intro b hb
      show store p.mem (p.regs .esp - 4) here b = p.mem b
      rw [hsp, store_return (by omega)]
    rw [Machine.set_mem, hram f hf' i hi]
    unfold tables
    rw [hpush]
  · intro b hb
    rw [Machine.set_mem, hlow b hb, ← hsp]
    rfl

/-- After both calls, in `p`. -/
structure Prepared (p t : Machine) : Prop where
  esp : t.regs .esp = 0x600
  ecx : t.regs .ecx = 0
  low : ∀ b, b.toNat < 0x100000 → ¬ (0x5FC ≤ b.toNat ∧ b.toNat < 0x600) →
    t.mem b = write p.mem 0x60000 (delivered p.disk) b
  high : ∀ f, 0x100 ≤ f → f < 2 ^ 19 → ∀ i < 1024, ramOf t.mem f i = tables (ramOf p.mem) f i

theorem calls_prepare (here here' : Word) {p : Machine} (hesp : p.regs .esp = 0x600) (hecx : p.regs .ecx = 0x10000)
    (hedx : p.regs .edx = 200) (hedi : p.regs .edi = 0x60000) (hready : p.disk.Ready) : ∃ t,
    Ends (fun fuel => (call here (readDiskSector32 fuel) p).bind (call here' (setupPage fuel))) t ∧ Prepared p t := by
  obtain ⟨t₁, hends₁, hesp₁, hmem₁⟩ := callRead_ends here hesp hecx hedx hedi hready
  obtain ⟨t₂, hends₂, hesp₂, hecx₂, hram₂, hlow₂⟩ := callSetup_ends here' hesp₁
  refine ⟨t₂, hends₁.bind hends₂, hesp₂, hecx₂, ?_, ?_⟩
  · intro b hb hret
    rw [hlow₂ b hb, store_return hret, hmem₁]
    unfold write
    rw [store_return hret]
  · intro f hf hf' i hi
    have hread : ramOf t₁.mem f i = ramOf p.mem f i := by
      refine ramOf_congr ?_ hf hf' hi
      intro b hb
      rw [hmem₁, write_of_le (by rw [delivered_length]; bv_omega), store_return (by omega)]
    rw [hram₂ f hf hf' i hi]
    unfold tables
    rw [hread]

/-! ## Paging -/

/-- The memory that `startPaging` leaves, over `m`. -/
def patched (m : Mem) : Mem :=
  let m := store (write m 0x814 (Boot.bytes16 31)) 0x816 0x610
  let m := store m 0x62C (load m 0x62C ||| 0xC0000000)
  store m 0x816 (load m 0x816 + 0xC0000000)

theorem moveGdt_mem {g : Gdtr} (hg : g = ⟨31, 0x610⟩) (cr0 : Word) (s : Machine) :
    (block (moveGdt g cr0) s).mem = patched s.mem := by
  obtain ⟨m₁, hm₁⟩ : ∃ m₁, (sgdt 0x814 g s).mem = m₁ := ⟨_, rfl⟩
  have hstored : m₁ = store (write s.mem 0x814 (Boot.bytes16 31)) 0x816 0x610 := by
    rw [← hm₁, hg]
    rfl
  have hbase : load m₁ (0x814 + 2) = 0x610 := by
    rw [hstored]
    exact load_store ..
  -- the store of `or` is relative to EBX, the base of the GDT
  have hmem : (block (moveGdt g cr0) s).mem =
      let m₂ := store m₁ (load m₁ (0x814 + 2) + 0x18 + 4) (load m₁ (load m₁ (0x814 + 2) + 0x18 + 4) ||| 0xC0000000)
      store m₂ (0x814 + 2) (load m₂ (0x814 + 2) + 0xC0000000) := by
    rw [← hm₁]
    rfl
  rw [hmem, hbase, hstored]
  rfl

theorem startPaging_spec {s : Startup} (hgdtr : s.gdtr = ⟨31, 0x610⟩) (hesp : s.machine.regs .esp = 0x600) : ∃ t,
    startPaging s = some { s with
      machine := t, cr3 := 0x100000, cr0 := s.cr0 ||| 0x80000000, gdtr := gdtrAt t.mem 0x814 } ∧
      t.mem = patched s.machine.mem ∧ t.regs .esp = 0xC0000600 ∧ t.regs .ecx = s.machine.regs .ecx := by
  have haccess : access 0x814 6 = some 0x814 := by decide
  refine ⟨block (moveGdt s.gdtr s.cr0) s.machine, ?_, moveGdt_mem hgdtr _ _, ?_, rfl⟩
  · unfold startPaging
    rw [haccess]
    rfl
  · show s.machine.regs .esp + 0xC0000000 = _
    rw [hesp]
    rfl

theorem byte_after_patch {m : Mem} {b : Word} (hdesc : ¬ (0x62C ≤ b.toNat ∧ b.toNat < 0x630))
    (hptr : ¬ (0x814 ≤ b.toNat ∧ b.toNat < 0x81A)) : patched m b = m b := by
  unfold patched
  rw [store_of_le (by bv_omega), store_of_le (by bv_omega), store_of_le (by bv_omega)]
  apply write_of_le
  show 2 ≤ _
  bv_omega

theorem load16_write (m : Mem) (a : Word) (v : BitVec 16) : load16 (write m a (Boot.bytes16 v)) a = v := by
  have h0 : (a - a).toNat = 0 := by bv_omega
  have h1 : (a + 1 - a).toNat = 1 := by bv_omega
  unfold load16 write
  rw [h0, h1]
  show v.extractLsb' 8 8 ++ v.extractLsb' 0 8 = v
  ext i hi
  simp only [BitVec.getElem_append, BitVec.getElem_extractLsb']
  grind

theorem load_patched (m : Mem) : load (patched m) 0x62C = load m 0x62C ||| 0xC0000000 ∧
    gdtrAt (patched m) 0x814 = ⟨31, 0xC0000610⟩ := by
  have hap : Bytes.Apart 0x62C 0x816 := by
    unfold Bytes.Apart
    decide
  obtain ⟨m₁, hm₁⟩ : ∃ m₁, m₁ = store (write m 0x814 (Boot.bytes16 31)) 0x816 0x610 := ⟨_, rfl⟩
  have hdesc : load m₁ 0x62C = load m 0x62C := by
    rw [hm₁, load_store_apart hap]
    apply load_congr
    intro b hb
    apply write_of_le
    show 2 ≤ _
    bv_omega
  have hptr : load (store m₁ 0x62C (load m₁ 0x62C ||| 0xC0000000)) 0x816 = 0x610 := by
    rw [load_store_apart hap.symm, hm₁, load_store]
  have hpatched : patched m = store (store m₁ 0x62C (load m₁ 0x62C ||| 0xC0000000)) 0x816 0xC0000610 := by
    rw [show (0xC0000610 : Word) = 0x610 + 0xC0000000 by decide, ← hptr, hm₁]
    rfl
  constructor
  · rw [hpatched, load_store_apart hap, load_store, hdesc]
  · have hlow : ∀ b : Word, (b - 0x814).toNat < 2 → patched m b = write m 0x814 (Boot.bytes16 31) b := by
      intro b hb
      rw [hpatched, store_of_le (by bv_omega), store_of_le (by bv_omega), hm₁, store_of_le (by bv_omega)]
    have hlimit : load16 (patched m) 0x814 = 31 := by
      rw [load16, hlow _ (by decide), hlow _ (by decide)]
      exact load16_write m 0x814 31
    unfold gdtrAt
    rw [hlimit, hpatched, show (0x814 + 2 : Word) = 0x816 from rfl, load_store]

/-! ## The image -/

section Congr
variable {m m' : Mem} {n size : Nat} (h : ∀ b, 0x60000 ≤ b.toNat → b.toNat < 0x60000 + n → m' b = m b)
include h

theorem load_image {a : Word} (hlow : 0x60000 ≤ a.toNat) (hhigh : a.toNat + 4 ≤ 0x60000 + n) (hn : n ≤ 0x100000) :
    load m' a = load m a := by
  apply load_congr
  intro b hb
  exact h b (by bv_omega) (by bv_omega)

/-- The program headers are those of the bytes that were read. -/
theorem headers_congr (hi : Image m size) (hsize : size ≤ n) (h52 : 52 ≤ n) (hn : n ≤ 0x100000) :
    phoff m' = phoff m ∧ phentsize m' = phentsize m ∧ phnum m' = phnum m ∧ headers m' = headers m := by
  have hoff : phoff m' = phoff m := load_image h (by decide) (by show 0x60000 + 32 ≤ _; omega) hn
  have hent : phentsize m' = phentsize m := by
    unfold phentsize load16
    rw [h _ (by decide) (by show 0x60000 + 43 < _; omega), h _ (by decide) (by show 0x60000 + 42 < _; omega)]
  have hnum : phnum m' = phnum m := by
    unfold phnum load16
    rw [h _ (by decide) (by show 0x60000 + 45 < _; omega), h _ (by decide) (by show 0x60000 + 44 < _; omega)]
  refine ⟨hoff, hent, hnum, ?_⟩
  unfold headers
  rw [hnum]
  apply List.map_congr_left
  intro i hlt
  have hat : headerAt m' i = headerAt m i := by
    unfold headerAt
    rw [hoff, hent]
  obtain ⟨htoNat, hfit⟩ := headerAt_toNat hi (List.mem_range.mp hlt)
  have hlow : 0x60000 ≤ (headerAt m i).toNat := by
    rw [htoNat, Nat.add_assoc]
    exact Nat.le_add_right _ _
  rw [hat]
  generalize headerAt m i = a at hfit hlow
  unfold Phdr.read
  rw [load_image h hlow (by omega) hn, load_image h (a := a + 4) (by bv_omega) (by bv_omega) hn,
    load_image h (a := a + 8) (by bv_omega) (by bv_omega) hn, load_image h (a := a + 16) (by bv_omega) (by bv_omega) hn,
    load_image h (a := a + 20) (by bv_omega) (by bv_omega) hn]

theorem Image.congr (hi : Image m size) (hsize : size ≤ n) (h52 : 52 ≤ n) (hn : n ≤ 0x100000) : Image m' size := by
  obtain ⟨hoff, hent, hnum, hheaders⟩ := headers_congr h hi hsize h52 hn
  refine ⟨?_, ?_, ?_, ?_, hi.megabyte, ?_, ?_, ?_, ?_⟩
  · rw [load_image h (by decide) (by show 0x60000 + 4 ≤ _; omega) hn, hi.magic]
  · rw [h _ (by decide) (by show 0x60000 + 4 < _; omega), hi.class32]
  · rw [h _ (by decide) (by show 0x60000 + 5 < _; omega), hi.lsb]
  · rw [hnum]
    exact hi.nonempty
  · rw [hent]
    exact hi.entry
  · rw [hoff, hent, hnum]
    exact hi.table
  · rw [hheaders]
    exact hi.file
  · rw [hheaders]
    exact hi.filesz

/-- What is copied comes from the image. -/
theorem source_congr (hi : Image m size) (hsize : size ≤ n) {g : Phdr} {b : Word} (hl : last (headers m) b = some g) :
    m' (g.source b) = m (g.source b) := by
  obtain ⟨hmem, hc, hf⟩ := mem_of_last hl
  have hfile := hi.file g hmem hc
  have hmega := hi.megabyte
  have hlt : (b - phys g.vaddr).toNat < g.filesz.toNat := of_decide_eq_true hf
  unfold Phdr.source
  generalize b - phys g.vaddr = d at hlt
  exact h _ (by bv_omega) (by bv_omega)

end Congr

/-! ## When `KernelInit` is called -/

section BeforeInit
variable {s : Startup} {v : Word} {p q : Machine}

/-- The memory when `KernelInit` starts, where `m` is that after `SetupPage`. -/
def beforeInit (here : Word) (m : Mem) : Mem := store (write (patched m) 0xB8004 [0x56]) 0x5FC here

variable (here : Word) (hp : p.mem = write (store s.machine.mem 0x810 v) 0xB8002 [0x50])
  (hdisk : p.disk = s.machine.disk) (hq : Prepared p q)
include hp hq

include hdisk in
theorem beforeInit_beneath {b : Word} (hb : b.toNat < 0x100000) (hout : ¬ InLoader b) :
    beforeInit here q.mem b = beneath s b := by
  unfold InLoader at hout
  have hpatch : patched q.mem b = write (write s.machine.mem 0xB8002 [0x50]) 0x60000 (delivered s.machine.disk) b := by
    rw [byte_after_patch (by omega) (by omega), hq.low b hb (by omega), hdisk, hp]
    apply write_congr
    apply write_congr
    exact store_of_le (by bv_omega)
  rw [beforeInit, store_return (by omega)]
  exact write_congr hpatch _ _

omit hp hq in
theorem beforeInit_patched (m : Mem) {b : Word} (hin : InLoader b) (hret : ¬ (0x5FC ≤ b.toNat ∧ b.toNat < 0x600)) :
    beforeInit here m b = patched m b := by
  unfold InLoader at hin
  rw [beforeInit, store_return hret, write_of_le (by show 1 ≤ _; bv_omega)]

theorem prepared_loader {b : Word} (hin : InLoader b) (hret : ¬ (0x5FC ≤ b.toNat ∧ b.toNat < 0x600)) :
    q.mem b = store s.machine.mem 0x810 v b := by
  unfold InLoader at hin
  have hlen := delivered_length p.disk
  rw [hq.low b (by omega) hret, write_of_le (by rw [hlen]; bv_omega), hp, write_of_le (by show 1 ≤ _; bv_omega)]

/-- A word of the loader's file that is not patched. -/
theorem load_beforeInit {a : Word} (hlow : 0x600 ≤ a.toNat) (hhigh : a.toNat + 4 ≤ 0x814)
    (hdesc : a.toNat + 4 ≤ 0x62C ∨ 0x630 ≤ a.toNat) :
    load (beforeInit here q.mem) a = load (store s.machine.mem 0x810 v) a := by
  apply load_congr
  intro b hb
  have hin : InLoader b := by
    unfold InLoader
    bv_omega
  rw [beforeInit_patched here q.mem hin (by bv_omega), byte_after_patch (by bv_omega) (by bv_omega),
    prepared_loader hp hq hin (by bv_omega)]

/-- The upper half of `VIDEO_DESC`. -/
theorem load_beforeInit_video :
    load (beforeInit here q.mem) 0x62C = load s.machine.mem 0x62C ||| 0xC0000000 := by
  have hin : ∀ b : Word, (b - 0x62C).toNat < 4 → InLoader b ∧ ¬ (0x5FC ≤ b.toNat ∧ b.toNat < 0x600) := by
    intro b hb
    unfold InLoader
    bv_omega
  have hpatched : load (beforeInit here q.mem) 0x62C = load (patched q.mem) 0x62C :=
    load_congr fun b hb => beforeInit_patched here q.mem (hin b hb).1 (hin b hb).2
  have hfile : load q.mem 0x62C = load s.machine.mem 0x62C := by
    apply load_congr
    intro b hb
    rw [prepared_loader hp hq (hin b hb).1 (hin b hb).2]
    exact store_of_le (by bv_omega)
  rw [hpatched, (load_patched q.mem).1, hfile]

include hdisk in
theorem beforeInit_file {b : Word} (hlow : 0x60000 ≤ b.toNat) (hhigh : b.toNat < 0x60000 + 512 * 200) :
    beforeInit here q.mem b = kernelFile s.machine.disk b := by
  have hlen := delivered_length s.machine.disk
  rw [beforeInit_beneath here hp hdisk hq (by omega) (by unfold InLoader; omega)]
  unfold beneath kernelFile
  rw [write_of_le (by show 1 ≤ _; bv_omega)]
  unfold write
  rw [List.getElem?_take_of_lt (by bv_omega), List.getElem?_eq_getElem (by rw [hlen]; bv_omega)]
  rfl

theorem beforeInit_ram {f i : Nat} (hf : 0x100 ≤ f) (hf' : f < 2 ^ 19) (hi : i < 1024) :
    ramOf (beforeInit here q.mem) f i = tables (ramOf s.machine.mem) f i := by
  have hend : ramOf (beforeInit here q.mem) f i = ramOf q.mem f i := by
    refine ramOf_congr ?_ hf hf' hi
    intro b hb
    rw [beforeInit, store_return (by omega), write_of_le (by show 1 ≤ _; bv_omega), byte_after_patch (by omega) (by omega)]
  have hstart : ramOf p.mem f i = ramOf s.machine.mem f i := by
    refine ramOf_congr ?_ hf hf' hi
    intro b hb
    rw [hp, write_of_le (by show 1 ≤ _; bv_omega), store_of_le (by bv_omega)]
  rw [hend, hq.high f hf hf' i hi]
  unfold tables
  rw [hstart]

end BeforeInit

/-! ## The address space -/

section Space
variable {ram ram' : Ram}

theorem pde_frame {i : Nat} (hp : present (bootRam 0x100 i) = true) :
    0x100 ≤ frameOf (bootRam 0x100 i) ∧ frameOf (bootRam 0x100 i) < 0x200 := by
  unfold bootRam at hp ⊢
  rw [if_pos rfl] at hp ⊢
  unfold frameOf
  split_ifs at hp ⊢ with h0 h1023 h768
  · omega
  · omega
  · omega
  · cases hp

/-- The page walk reads the frames of the tables only. -/
theorem walk_congr (hdir : ∀ i < 1024, ram 0x100 i = bootRam 0x100 i)
    (h : ∀ f, 0x100 ≤ f → f < 0x200 → ∀ i < 1024, ram' f i = ram f i) (v : Nat) : walk ram' 0x100 v = walk ram 0x100 v := by
  have hpde := h 0x100 (by decide) (by decide) _ (pdeIdx_lt v)
  unfold walk
  rw [hpde]
  by_cases hp : present (ram 0x100 (pdeIdx v)) = true
  · have hframe := hp
    rw [hdir _ (pdeIdx_lt v)] at hframe
    obtain ⟨hlow, hhigh⟩ := pde_frame hframe
    rw [← hdir _ (pdeIdx_lt v)] at hlow hhigh
    simp only [hp, if_true, h _ hlow hhigh _ (pteIdx_lt v)]
  · simp only [hp, Bool.false_eq_true, if_false]

theorem Intended.congr (hs : Intended ram) (hdir : ∀ i < 1024, ram 0x100 i = bootRam 0x100 i)
    (h : ∀ f, 0x100 ≤ f → f < 0x200 → ∀ i < 1024, ram' f i = ram f i) : Intended ram' := by
  have hentry : ∀ i, i < 1024 → ram' 0x100 i = ram 0x100 i := fun i hi => h 0x100 (by decide) (by decide) i hi
  refine ⟨?_, ?_, ?_, ?_, ⟨?_, ?_⟩, ?_⟩
  · intro v hv
    rw [walk_congr hdir h, hs.low v hv]
  · intro v hv
    rw [walk_congr hdir h, hs.kernel v hv]
  · intro i hi hi'
    rw [hentry i (by omega)]
    exact hs.table i hi hi'
  · intro i j hi hij hj
    rw [hentry i (by omega), hentry j (by omega)]
    exact hs.distinct i j hi hij hj
  · rw [hentry 1023 (by decide)]
    exact hs.self.present
  · rw [hentry 1023 (by decide)]
    exact hs.self.frame
  · intro v hv hlow hkernel
    rw [walk_congr hdir h, hs.absent v hv hlow hkernel]

/-- The address space, when the first megabyte has changed since `SetupPage`. -/
theorem intended_iff (h : ∀ f, 0x100 ≤ f → f < 2 ^ 19 → ∀ i < 1024, ram' f i = tables ram f i) :
    Intended ram' ↔ Clear ram := by
  have htables : ∀ f < 2 ^ 19, ∀ i < 1024, tables ram f i = tables ram f i := fun _ _ _ _ => rfl
  have hdir : ∀ i < 1024, tables ram 0x100 i = bootRam 0x100 i := fun i _ => if_pos (.inl rfl)
  have hdir' : ∀ i < 1024, ram' 0x100 i = bootRam 0x100 i := fun i hi => (h 0x100 (by decide) (by decide) i hi).trans (hdir i hi)
  constructor
  · intro hs
    exact clear_of_intended htables (hs.congr hdir' fun f hf hf' i hi => (h f hf (by omega) i hi).symm)
  · intro hclear
    exact (intended_of_clear htables hclear).congr hdir fun f hf hf' i hi => h f hf (by omega) i hi

end Space

/-! ## The whole loader -/

theorem enterKernel_ends (here inner : Word) {u : Startup} {m : Mem} {size : Nat} (hu : u.machine.mem = patched m)
    (hesp : u.machine.regs .esp = 0xC0000600) (hecx : u.machine.regs .ecx = 0) (hi : Image (beforeInit here m) size)
    (hapart : ∀ h ∈ headers (beforeInit here m), h.Copied → Apart size h) : ∃ t,
    Ends (fun fuel => enterKernel here inner fuel u) { u with machine := t, eip := 0xC0001500 } ∧
      t.regs .esp = 0xC009F000 ∧ ∀ b, ¬ Scratch b →
        t.mem b = copyAll (beforeInit here m) (headers (beforeInit here m)) b := by
  have hvideo : access 0xB8004 1 = some 0xB8004 := by decide
  have hstack : access (u.machine.regs .esp - 4) 4 = some 0x5FC := by
    rw [hesp]
    decide
  obtain ⟨t₀, ht₀⟩ : ∃ t₀, push here { u.machine with mem := write u.machine.mem 0xB8004 [0x56] } = some t₀ := by
    unfold push
    rw [hstack]
    exact ⟨_, rfl⟩
  have ht := ht₀
  unfold push at ht
  rw [hstack, Option.map_some, Option.some.injEq] at ht
  have hmem : t₀.mem = beforeInit here m := by
    rw [← ht, beforeInit, ← hu]
  have hentered : Entered here t₀ := by
    refine ⟨?_, ?_, ?_⟩
    · rw [← ht]
      show Function.update u.machine.regs .esp (u.machine.regs .esp - 4) .esp = _
      rw [Function.update_self, hesp]
      rfl
    · rw [← ht]
      exact hecx
    · rw [hmem, beforeInit, load_store]
  obtain ⟨t, hends, hcopied⟩ := kernelInit_ends hi hapart inner hmem hentered
  refine ⟨movImm .esp 0xC009F000 t, ?_, Machine.set_self .., hcopied⟩
  have hall : (fun fuel => enterKernel here inner fuel u) = fun fuel => (kernelInit here inner fuel t₀).map fun t =>
      { u with machine := movImm .esp 0xC009F000 t, eip := 0xC0001500 } := by
    funext fuel
    unfold enterKernel
    rw [hvideo, Option.bind_some, ht₀, Option.bind_some]
  rw [hall]
  exact hends.map _

theorem segmentAt_of_load {m : Mem} {a lo hi : Word} (hlo : load m a = lo) (hhi : load m (a + 4) = hi) :
    segmentAt m a = {
      base := wordByte hi 3 ++ wordByte hi 0 ++ wordByte lo 3 ++ wordByte lo 2
      limit := ((wordByte hi 2 &&& 0x0F) ++ wordByte lo 1 ++ wordByte lo 0).setWidth 32
      access := wordByte hi 1
      flags := wordByte hi 2 &&& 0xF0 } := by
  have hlow : ∀ j < 4, byteAt m a j = wordByte lo j := fun j hj => byteAt_of_load hlo hj
  have hhigh : ∀ j < 4, byteAt m a (4 + j) = wordByte hi j := by
    intro j hj
    rw [← byteAt_of_load hhi hj, byteAt, byteAt, BitVec.ofNat_add, BitVec.add_assoc]
    rfl
  unfold segmentAt
  rw [hhigh 3 (by decide), hhigh 0 (by decide), hhigh 2 (by decide), hhigh 1 (by decide), hlow 3 (by decide),
    hlow 2 (by decide), hlow 1 (by decide), hlow 0 (by decide)]

/-- What is copied is in the first megabyte. -/
theorem low_of_last {m : Mem} {size : Nat} (hi : Image m size) (hapart : ∀ h ∈ headers m, h.Copied → Apart size h)
    {b : Word} {h : Phdr} (hl : last (headers m) b = some h) : b.toNat < 0x100000 := by
  obtain ⟨hmem, hc, hf⟩ := mem_of_last hl
  have hmap := (hapart h hmem hc).mapped
  have hlt := size_of_fills hi hmem hf
  generalize h.size = n at hmap hlt
  unfold Mapped at hmap
  unfold phys at hlt
  split_ifs at hlt with hlow
  · bv_omega
  · bv_omega

/-- The image when `KernelInit` is called is that of the kernel's file. -/
theorem beforeInit_image (here : Word) {s : Startup} {v : Word} {p q : Machine} {size : Nat}
    (hp : p.mem = write (store s.machine.mem 0x810 v) 0xB8002 [0x50]) (hdisk : p.disk = s.machine.disk)
    (hq : Prepared p q) (hsize : size ≤ 512 * 200) (hi : Image (kernelFile s.machine.disk) size) :
    Image (beforeInit here q.mem) size ∧ headers (beforeInit here q.mem) = headers (kernelFile s.machine.disk) ∧
      ∀ b h, last (headers (kernelFile s.machine.disk)) b = some h →
        beforeInit here q.mem (h.source b) = kernelFile s.machine.disk (h.source b) := by
  have hread : ∀ b : Word, 0x60000 ≤ b.toNat → b.toNat < 0x60000 + 512 * 200 →
      beforeInit here q.mem b = kernelFile s.machine.disk b := fun b hlow hhigh => beforeInit_file here hp hdisk hq hlow hhigh
  obtain ⟨-, -, -, hheaders⟩ := headers_congr hread hi hsize (by decide) (by decide)
  exact ⟨hi.congr hread hsize (by decide) (by decide), hheaders, fun b h hl => source_congr hread hi hsize hl⟩

section Handed
variable {s d u : Startup} {q t : Machine} {k size : Nat} {here : Word} (hd : Detected s d k) (hp : Protected d u)
  (hq : Prepared u.machine q) (hi : Image (beforeInit here q.mem) size)
  (hapart : ∀ h ∈ headers (beforeInit here q.mem), h.Copied → Apart size h)
  (ht : ∀ b, ¬ Scratch b → t.mem b = copyAll (beforeInit here q.mem) (headers (beforeInit here q.mem)) b)

include hd hp in
theorem stages_mem : u.machine.mem = write (store s.machine.mem 0x810
    (totalMem (low16 ((s.bios (s.asked + k)).regs .eax)) (low16 ((s.bios (s.asked + k)).regs .ebx)))) 0xB8002 [0x50] := by
  rw [hp.mem, hd.state]

include hi hapart ht in
/-- The loader's own words are what they were when `KernelInit` was called. -/
theorem load_loader {a : Word} (hlow : 0x600 ≤ a.toNat) (hhigh : a.toNat + 4 ≤ 0xE00) :
    load t.mem a = load (beforeInit here q.mem) a := by
  apply load_congr
  intro b hb
  rw [ht b (by unfold Scratch; bv_omega)]
  exact copyAll_kept hi hapart (fun _ h => h) (.inr (by unfold InLoader; bv_omega))

include hi hapart ht in
theorem ram_tables {f i : Nat} (hf : 0x100 ≤ f) (hf' : f < 2 ^ 19) (hi' : i < 1024) :
    ramOf t.mem f i = ramOf (beforeInit here q.mem) f i := by
  refine ramOf_congr ?_ hf hf' hi'
  intro b hb
  rw [ht b (by unfold Scratch; omega), copyAll_apply]
  cases hl : last (headers (beforeInit here q.mem)) b with
  | none => rfl
  | some h =>
    have hlow := low_of_last hi hapart hl
    omega

end Handed

theorem handed_of_stages {s d u : Startup} {q t : Machine} {k size : Nat} {here : Word} (hd : Detected s d k)
    (hp : Protected d u) (hq : Prepared u.machine q) (hfile : LoaderFile s.machine.mem)
    (hsize : size ≤ 512 * 200) (hi : Image (kernelFile s.machine.disk) size)
    (hapart : ∀ h ∈ headers (kernelFile s.machine.disk), h.Copied → Apart size h) (hesp : t.regs .esp = 0xC009F000)
    (ht : ∀ b, ¬ Scratch b → t.mem b = copyAll (beforeInit here q.mem) (headers (beforeInit here q.mem)) b) :
    Handed s { u with
      machine := t, cr3 := 0x100000, cr0 := u.cr0 ||| 0x80000000, gdtr := gdtrAt (patched q.mem) 0x814, eip := 0xC0001500 }
      (s.bios (s.asked + k)) := by
  have hmem := stages_mem hd hp
  have hdisk : u.machine.disk = s.machine.disk := by rw [hp.disk, hd.state]
  have hcr0 : u.cr0 = s.cr0 ||| 0x00000001 := by rw [hp.rest, hd.state]
  have hport : u.port92 = s.port92 ||| 0x02 := by rw [hp.rest, hd.state]
  obtain ⟨hi', hheaders, hsource⟩ := beforeInit_image here hmem hdisk hq hsize hi
  have hapart' : ∀ h ∈ headers (beforeInit here q.mem), h.Copied → Apart size h := by
    rw [hheaders]
    exact hapart
  have hword : ∀ a : Word, 0x600 ≤ a.toNat → a.toNat + 4 ≤ 0x810 → (a.toNat + 4 ≤ 0x62C ∨ 0x630 ≤ a.toNat) →
      load t.mem a = load s.machine.mem a := by
    intro a hlow hhigh hdesc
    rw [load_loader hi' hapart' ht hlow (by omega), load_beforeInit here hmem hq hlow (by omega) hdesc]
    exact load_congr fun b hb => store_of_le (by bv_omega)
  refine ⟨rfl, hesp, ?_, rfl, hport, (load_patched q.mem).2, ?_, ?_, ?_, ?_, ?_, ?_⟩
  · show u.cr0 ||| 0x80000000 = _
    rw [hcr0, BitVec.or_assoc]
    rfl
  · rw [segmentAt_of_load ((hword 0x618 (by decide) (by decide) (by decide)).trans hfile.code.1)
      ((hword 0x61C (by decide) (by decide) (by decide)).trans hfile.code.2)]
    decide
  · rw [segmentAt_of_load ((hword 0x620 (by decide) (by decide) (by decide)).trans hfile.data.1)
      ((hword 0x624 (by decide) (by decide) (by decide)).trans hfile.data.2)]
    decide
  · have hvideo : load t.mem 0x62C = 0xC0C0920B := by
      rw [load_loader hi' hapart' ht (by decide) (by decide), load_beforeInit_video here hmem hq, hfile.video.2]
      rfl
    rw [segmentAt_of_load ((hword 0x628 (by decide) (by decide) (by decide)).trans hfile.video.1) hvideo]
    decide
  · show (load t.mem 0x810).toNat = _
    rw [load_loader hi' hapart' ht (by decide) (by decide), load_beforeInit here hmem hq (by decide) (by decide) (by decide),
      load_store, totalMem_toNat]
    rfl
  · intro f hf hf' i hlt
    exact (ram_tables hi' hapart' ht hf hf' hlt).trans (beforeInit_ram here hmem hq hf hf' hlt)
  · intro b hb hout
    show t.mem b = _
    rw [ht b (fun hs => hout hs.inLoader), copyAll_apply, hheaders, loaded]
    cases hl : last (headers (kernelFile s.machine.disk)) b with
    | none => exact beforeInit_beneath here hmem hdisk hq hb hout
    | some h =>
      rw [Option.elim_some, Option.elim_some]
      exact hsource b h hl

/-- With enough fuel the loader ends as soon as the BIOS answers once without carry, and the kernel is handed its memory;
its address space is the intended one for just that RAM that `SetupPage` builds it from. -/
theorem loader_hands_over (r : Returns) {s : Startup} {size : Nat} (hds : s.ds = 0) (hfile : LoaderFile s.machine.mem)
    (hready : s.machine.disk.Ready) (hsize : size ≤ 512 * 200) (hi : Image (kernelFile s.machine.disk) size)
    (hplaced : Placed (kernelFile s.machine.disk) size) (hextras : ExtrasPlaced (kernelFile s.machine.disk) size) :
    ((∃ t, Ends (fun fuel => loader r fuel s) t) ↔ ∃ k, (s.bios (s.asked + k)).carry = false) ∧
    ∀ t, Ends (fun fuel => loader r fuel s) t → ∃ k, (s.bios (s.asked + k)).carry = false ∧
      (∀ j < k, (s.bios (s.asked + j)).carry = true) ∧ Handed s t (s.bios (s.asked + k)) ∧
      (Intended (ramOf t.machine.mem) ↔ Clear (ramOf s.machine.mem)) := by
  have hstart : (∃ t, Ends (fun fuel => loader r fuel s) t) → ∃ k, (s.bios (s.asked + k)).carry = false := by
    rintro ⟨t, hends⟩
    obtain ⟨fuel, hrun⟩ := hends.exists_fuel
    unfold loader at hrun
    obtain ⟨d, hdetect, -⟩ := Option.bind_eq_some_iff.mp hrun
    exact carry_of_detect hdetect
  have hrun : (∃ k, (s.bios (s.asked + k)).carry = false) → ∃ t k, Ends (fun fuel => loader r fuel s) t ∧
      (s.bios (s.asked + k)).carry = false ∧ (∀ j < k, (s.bios (s.asked + j)).carry = true) ∧
      Handed s t (s.bios (s.asked + k)) := by
    intro hbios
    obtain ⟨d, k, hdetect, hd⟩ := detect_ends hbios
    have hdfile : LoaderFile d.machine.mem := by
      rw [hd.state]
      exact hfile
    have hp := enterProtected_spec (s := d) (by rw [hd.state]; exact hds) hdfile
    generalize hu : enterProtected d = u at hp
    have hdisk : u.machine.disk = s.machine.disk := by rw [hp.disk, hd.state]
    obtain ⟨q, hcalls, hq⟩ := calls_prepare r.readDisk r.setupPage hp.esp hp.ecx hp.edx hp.edi (by rw [hdisk]; exact hready)
    obtain ⟨t₁, hpaging, hmem₁, hesp₁, hecx₁⟩ := startPaging_spec (s := { u with machine := q }) hp.gdtr hq.esp
    obtain ⟨hi', hheaders, -⟩ := beforeInit_image r.kernelInit (stages_mem hd hp) hdisk hq hsize hi
    have hapart := apart_of_copied hplaced hextras
    have hapart' : ∀ h ∈ headers (beforeInit r.kernelInit q.mem), h.Copied → Apart size h := by
      rw [hheaders]
      exact hapart
    obtain ⟨t, hends, hesp, ht⟩ := enterKernel_ends r.kernelInit r.memCpy
      (u := { u with machine := t₁, cr3 := 0x100000, cr0 := u.cr0 ||| 0x80000000, gdtr := gdtrAt t₁.mem 0x814 })
      hmem₁ hesp₁ (by rw [hecx₁]; exact hq.ecx) hi' hapart'
    have hhanded := handed_of_stages hd hp hq hfile hsize hi hapart hesp ht
    rw [← hmem₁] at hhanded
    refine ⟨_, k, ?_, hd.carry, hd.first, hhanded⟩
    refine hdetect.bind ?_
    show Ends (fun fuel => (call r.readDisk (readDiskSector32 fuel) (enterProtected d).machine).bind fun t =>
      (call r.setupPage (setupPage fuel) t).bind fun t =>
        (startPaging { enterProtected d with machine := t }).bind (enterKernel r.kernelInit r.memCpy fuel)) _
    rw [hu]
    have hpaged : (fun fuel => (startPaging { u with machine := q }).bind (enterKernel r.kernelInit r.memCpy fuel)) =
        fun fuel => enterKernel r.kernelInit r.memCpy fuel
          { u with machine := t₁, cr3 := 0x100000, cr0 := u.cr0 ||| 0x80000000, gdtr := gdtrAt t₁.mem 0x814 } := by
      funext fuel
      rw [hpaging, Option.bind_some]
    rw [← hpaged] at hends
    have hall := hcalls.bind (g := fun fuel t =>
      (startPaging { u with machine := t }).bind (enterKernel r.kernelInit r.memCpy fuel)) hends
    simpa only [Option.bind_assoc] using hall
  refine ⟨⟨hstart, fun h => ?_⟩, ?_⟩
  · obtain ⟨t, k, hends, -⟩ := hrun h
    exact ⟨t, hends⟩
  · intro t hends
    obtain ⟨t', k, hends', hcarry, hfirst, hhanded⟩ := hrun (hstart ⟨t, hends⟩)
    rw [hends'.unique hends] at hhanded
    exact ⟨k, hcarry, hfirst, hhanded, intended_iff hhanded.tables⟩

def tinyWord (k : Nat) : BitVec 16 := tinyImage.getD (2 * k + 1) 0 ++ tinyImage.getD (2 * k) 0

/-- A disk whose next sectors hold `tinyImage`. -/
def tinyDisk : Disk := { idleDisk with word := fun _ => tinyWord }

/-- A machine with 32MB, whose BIOS fails once, when the loader starts. -/
def tinyStart : Startup where
  machine := {
    regs := fun _ => 0
    mem := write (write (fun _ => 0) 0x610 [0, 0, 0, 0, 0, 0, 0, 0, 0xFF, 0xFF, 0, 0, 0, 0x98, 0xCF, 0,
      0xFF, 0xFF, 0, 0, 0, 0x92, 0xCF, 0, 0x07, 0, 0, 0x80, 0x0B, 0x92, 0xC0, 0]) 0x814 [31, 0, 0x10, 0x06, 0, 0]
    disk := tinyDisk }
  ds := 0
  gdtr := ⟨0, 0⟩
  cr0 := 0x60000010
  cr3 := 0
  port92 := 0
  bios k := ⟨k == 0, fun r => if r = .eax then 0x3C00 else if r = .ebx then 0x100 else 0⟩
  asked := 0
  carry := false
  eip := 0x600

theorem tinyStart_file : LoaderFile tinyStart.machine.mem := by
  refine ⟨⟨?_, ?_⟩, ⟨?_, ?_⟩, ⟨?_, ?_⟩, ⟨?_, ?_⟩, ?_, ?_⟩ <;> decide

theorem wordBytes_get (f : Nat → BitVec 16) (k : Nat) {n i : Nat} (hi : i < 2 * n) :
    (wordBytes f k n)[i]? = some (if i % 2 = 0 then (f (k + i / 2)).extractLsb' 0 8 else (f (k + i / 2)).extractLsb' 8 8) := by
  induction n with
  | zero => omega
  | succ n ih =>
    have hlen := wordBytes_length f k n
    rw [wordBytes_succ]
    by_cases hlt : i < 2 * n
    · rw [List.getElem?_append_left (by omega), ih hlt]
    · rw [List.getElem?_append_right (by omega), hlen, show i / 2 = n by omega]
      by_cases heven : i % 2 = 0
      · rw [show i - 2 * n = 0 by omega, if_pos heven]
        rfl
      · rw [show i - 2 * n = 1 by omega, if_neg heven]
        rfl

theorem tinyDisk_file (b : Word) (hlow : 0x60000 ≤ b.toNat) (hhigh : b.toNat < 0x60000 + 512 * 200) :
    kernelFile tinyDisk b = (tinyBoot false).mem b := by
  have hi : (b - 0x60000).toNat < 512 * 200 := by bv_omega
  show (((delivered tinyDisk).take (512 * 200))[(b - 0x60000).toNat]?).getD 0 = (tinyImage[(b - 0x60000).toNat]?).getD 0
  generalize (b - 0x60000).toNat = i at hi
  rw [List.getElem?_take_of_lt hi, delivered, wordBytes_get _ _ (by omega), Option.getD_some, ← List.getD_eq_getElem?_getD]
  have hword : tinyDisk.word 0x1F0 (tinyDisk.wordsRead + i / 2) = tinyWord (i / 2) := by
    show tinyWord (0 + i / 2) = _
    rw [Nat.zero_add]
  rw [hword, tinyWord]
  by_cases heven : i % 2 = 0
  · rw [if_pos heven, show 2 * (i / 2) = i by omega]
    exact BitVec.extractLsb'_append_eq_right
  · rw [if_neg heven, show 2 * (i / 2) + 1 = i by omega]
    exact BitVec.extractLsb'_append_eq_left

theorem loader_hands_over_tiny :
    ∃ t, Ends (fun fuel => loader ⟨0x9A0, 0x9B0, 0x9C0, 0xB00⟩ fuel tinyStart) t ∧ t.eip = 0xC0001500 ∧
      (load t.machine.mem 0x810).toNat = 0x2000000 := by
  obtain ⟨-, -, -, hheaders⟩ := headers_congr tinyDisk_file (tinyBoot_image false) (by decide) (by decide) (by decide)
  have hplaced : Placed (kernelFile tinyDisk) 88 := by
    refine ⟨?_, ?_⟩
    · rw [hheaders]
      exact (tinyBoot_placed false).apart
    · rw [hheaders]
      exact (tinyBoot_placed false).disjoint
  have hextras : ExtrasPlaced (kernelFile tinyDisk) 88 := by
    unfold ExtrasPlaced
    rw [hheaders]
    exact tinyBoot_extras false
  obtain ⟨hiff, hall⟩ := loader_hands_over ⟨0x9A0, 0x9B0, 0x9C0, 0xB00⟩ (s := tinyStart) rfl tinyStart_file ⟨0, rfl⟩
    (by decide) ((tinyBoot_image false).congr tinyDisk_file (by decide) (by decide) (by decide)) hplaced hextras
  obtain ⟨t, hends⟩ := hiff.mpr ⟨1, rfl⟩
  obtain ⟨k, -, -, hhanded, -⟩ := hall t hends
  refine ⟨t, hends, hhanded.eip, ?_⟩
  have hax : low16 ((tinyStart.bios (tinyStart.asked + k)).regs .eax) = 0x3C00 := by
    show low16 0x3C00 = 0x3C00
    decide
  have hbx : low16 ((tinyStart.bios (tinyStart.asked + k)).regs .ebx) = 0x100 := by
    show low16 0x100 = 0x100
    decide
  rw [hhanded.memory, totalMemBytes, hax, hbx]
  decide

end ElephantOS.Boot
