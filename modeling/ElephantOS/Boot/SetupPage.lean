import ElephantOS.Boot.Machine
import ElephantOS.Kernel.Memory

/-!
# The first page tables (`SetupPage` of `boot/loader.S`)

Paging is off: the addresses of `SetupPage` are physical.

* `setupPage` : its three loops and the code between them;
* `word m k` : word `k` of physical memory; `ramOf m` : its frames, for the page walk;
* `setupPage_words` : every word of the first gigabyte after it; `setupPage_bootRam` : in zero RAM this is `bootRam`;
* `Intended` : the address space it should build;
* `setupPage_intended_iff` : from which RAM it does.
-/

namespace ElephantOS.Boot
open Bytes Loop
open IntEntry (Reg)

/-- `PG_US_U | PG_RW_RW | PG_P`, where the constants are the decimal 100, 10 and 1. -/
def pageFlags : Word := 100 ||| 10 ||| 1

def clearLoop : List (Machine → Machine) := [movToImm8 (fun r => 0x100000 + r .esi) 0, addImm .esi 1]

/-- From `.SetupPage_CreatePDE` to the second loop. -/
def createPDECode : List (Machine → Machine) :=
  [movImm .eax 0x100000, addImm .eax 0x1000, mov .ebx .eax, orImm .eax pageFlags,
   movTo (fun _ => 0x100000 + 0x0) .eax, movTo (fun _ => 0x100000 + 0xC00) .eax,
   subImm .eax 0x1000, movTo (fun _ => 0x100000 + 0xFFC) .eax,
   movImm .ecx 256, movImm .esi 0, movImm .edx pageFlags]

def createPTELoop : List (Machine → Machine) :=
  [movTo (fun r => r .ebx + r .esi * 4) .edx, addImm .edx 0x1000, addImm .esi 1]

/-- From the second loop to the third. -/
def kernelPDECode : List (Machine → Machine) :=
  [movImm .eax 0x100000, addImm .eax 0x2000, orImm .eax pageFlags, movImm .ebx 0x100000, movImm .ecx 254, movImm .esi 769]

def kernelPDELoop : List (Machine → Machine) :=
  [movTo (fun r => r .ebx + r .esi * 4) .eax, addImm .esi 1, addImm .eax 0x1000]

def setupPage (fuel : Nat) (s : Machine) : Option Machine :=
  (loop32 clearLoop fuel (block [movImm .ecx 0x1000, movImm .esi 0] s)).bind fun s =>
  (loop32 createPTELoop fuel (block createPDECode s)).bind fun s =>
  loop32 kernelPDELoop fuel (block kernelPDECode s)

/-! ## Words -/

/-- Word `k` of physical memory. -/
def word (m : Mem) (k : Nat) : Word := load m (BitVec.ofNat 32 (4 * k))

theorem word_store (m : Mem) (v : Word) {i k : Nat} (hi : i < 2 ^ 29) (hk : k < 2 ^ 29) :
    word (store m (BitVec.ofNat 32 (4 * i)) v) k = if k = i then v else word m k := by
  have h := load_store_off m 0 v hi hk
  rwa [show (0 : Word) = 0#32 from rfl, BitVec.zero_add, BitVec.zero_add] at h

/-- The directory after the first loop. -/
theorem word_clear (m : Mem) {k : Nat} (hk : k < 2 ^ 29) :
    word (write m 0x100000 (List.replicate 4096 0)) k = if 0x40000 ≤ k ∧ k < 0x40400 then 0 else word m k := by
  by_cases h : 0x40000 ≤ k ∧ k < 0x40400
  · rw [if_pos h]
    have hzero : load (fun _ => 0) (BitVec.ofNat 32 (4 * k)) = 0 := rfl
    rw [word, ← hzero]
    apply load_congr
    intro b hb
    rw [write, List.getElem?_replicate, if_pos (by bv_omega)]
    rfl
  · rw [if_neg h]
    apply load_congr
    intro b hb
    apply write_of_le
    rw [List.length_replicate]
    bv_omega

/-! ## The loops -/

theorem clear_ends {s : Machine} (hecx : s.regs .ecx = 0x1000) (hesi : s.regs .esi = 0) : ∃ t,
    Ends (fun fuel => loop32 clearLoop fuel s) t ∧ t.mem = write s.mem 0x100000 (List.replicate 4096 0) := by
  have hpasses : passes (0x1000 : Word) = 4096 := rfl
  have hstep : ∀ i t, i < passes (0x1000 : Word) →
      (t.mem = write s.mem 0x100000 (List.replicate i 0) ∧ t.regs .esi = BitVec.ofNat 32 i) →
      t.regs .ecx = 0x1000 - BitVec.ofNat 32 i → ∃ u, some (decEcx (block clearLoop t)) = some u ∧
        (u.mem = write s.mem 0x100000 (List.replicate (i + 1) 0) ∧ u.regs .esi = BitVec.ofNat 32 (i + 1)) ∧
        u.regs .ecx = t.regs .ecx - 1 := by
    rintro i t hi ⟨hmem, hesi⟩ -
    refine ⟨_, rfl, ⟨?_, ?_⟩, ?_⟩
    · show write t.mem (0x100000 + t.regs .esi) [0] = _
      rw [hesi, hmem, List.replicate_succ', ← write_append _ _ (by rw [List.length_replicate, List.length_singleton]; omega),
        List.length_replicate]
    · simp [block, clearLoop, decEcx, addImm, movToImm8, Machine.set, hesi, BitVec.ofNat_add]
    · simp [block, clearLoop, decEcx, addImm, movToImm8, Machine.set]
  obtain ⟨t, hends, ⟨hmem, -⟩, -⟩ := ends_countdown 0x1000 hstep ⟨(write_nil _ _).symm, hesi⟩ hecx
  exact ⟨t, hends, hmem⟩

/-- One pass of the second or the third loop, which fills entries from register `r`. -/
def fillStep (r : Reg) (s : Machine) : Machine :=
  { s with
    regs := Function.update (Function.update s.regs r (s.regs r + 0x1000)) .esi (s.regs .esi + 1)
    mem := store s.mem (s.regs .ebx + s.regs .esi * 4) (s.regs r) }

theorem block_createPTELoop (s : Machine) : block createPTELoop s = fillStep .edx s := by
  simp [block, createPTELoop, fillStep, movTo, addImm, Machine.set]

theorem block_kernelPDELoop (s : Machine) : block kernelPDELoop s = fillStep .eax s := by
  simp [block, kernelPDELoop, fillStep, movTo, addImm, Machine.set, Function.update_comm]

/-- After `i` passes: entries from `b + e` on are filled. -/
structure Filled (s t : Machine) (r : Reg) (b e i : Nat) : Prop where
  ebx : t.regs .ebx = s.regs .ebx
  esi : t.regs .esi = BitVec.ofNat 32 (e + i)
  reg : t.regs r = s.regs r + BitVec.ofNat 32 (0x1000 * i)
  words : ∀ k < 2 ^ 29, word t.mem k =
    if b + e ≤ k ∧ k < b + e + i then s.regs r + BitVec.ofNat 32 (0x1000 * (k - (b + e))) else word s.mem k

section Fill
variable {r : Reg} {s t : Machine} {b e i n : Nat}

theorem decEcx_fillStep_regs (hr : r = .eax ∨ r = .edx) (t : Machine) : (decEcx (fillStep r t)).regs =
    Function.update (Function.update (Function.update t.regs r (t.regs r + 0x1000)) .esi (t.regs .esi + 1)) .ecx
      (t.regs .ecx - 1) := by
  obtain rfl | rfl := hr <;> simp [decEcx, fillStep, Machine.set]

theorem Filled.step (h : Filled s t r b e i) (hr : r = .eax ∨ r = .edx) (hebx : s.regs .ebx = BitVec.ofNat 32 (4 * b))
    (hfit : b + e + i < 2 ^ 29) : Filled s (decEcx (fillStep r t)) r b e (i + 1) := by
  have hregs := decEcx_fillStep_regs hr t
  have hnext : t.regs r + 0x1000 = s.regs r + BitVec.ofNat 32 (0x1000 * (i + 1)) := by
    rw [h.reg, Nat.mul_add, BitVec.ofNat_add, BitVec.add_assoc]
    rfl
  have haddr : t.regs .ebx + t.regs .esi * 4 = BitVec.ofNat 32 (4 * (b + e + i)) := by
    rw [h.ebx, hebx, h.esi]
    bv_omega
  refine ⟨?_, ?_, ?_, ?_⟩
  · rw [hregs, ← h.ebx]
    obtain rfl | rfl := hr <;> simp
  · rw [hregs]
    simp [h.esi, BitVec.ofNat_add, BitVec.add_assoc]
  · rw [hregs, ← hnext]
    obtain rfl | rfl := hr <;> simp
  · intro k hk
    show word (store t.mem (t.regs .ebx + t.regs .esi * 4) (t.regs r)) k = _
    rw [haddr, word_store _ _ hfit hk, h.words k hk]
    by_cases hki : k = b + e + i
    · rw [if_pos hki, if_pos (by omega), h.reg, show k - (b + e) = i by omega]
    · rw [if_neg hki]
      by_cases hin : b + e ≤ k ∧ k < b + e + i
      · rw [if_pos hin, if_pos (by omega)]
      · rw [if_neg hin, if_neg (by omega)]

theorem fill_ends {body : List (Machine → Machine)} (hbody : ∀ t, block body t = fillStep r t) (hr : r = .eax ∨ r = .edx)
    (hebx : s.regs .ebx = BitVec.ofNat 32 (4 * b)) (hesi : s.regs .esi = BitVec.ofNat 32 e)
    (hecx : s.regs .ecx = BitVec.ofNat 32 n) (hn : 0 < n) (hfit : b + e + n ≤ 2 ^ 29) :
    ∃ t, Ends (fun fuel => loop32 body fuel s) t ∧ Filled s t r b e n ∧ t.regs .ecx = 0 := by
  have hpasses : passes (BitVec.ofNat 32 n) = n := by
    apply passes_of_toNat _ hn
    rw [BitVec.toNat_ofNat, Nat.mod_eq_of_lt (by omega)]
  have hstep : ∀ i t, i < passes (BitVec.ofNat 32 n) → Filled s t r b e i →
      t.regs .ecx = BitVec.ofNat 32 n - BitVec.ofNat 32 i →
      ∃ u, some (decEcx (block body t)) = some u ∧ Filled s u r b e (i + 1) ∧ u.regs .ecx = t.regs .ecx - 1 := by
    intro i t hi ht _
    rw [hbody]
    refine ⟨_, rfl, ht.step hr hebx (by omega), ?_⟩
    rw [decEcx_fillStep_regs hr]
    exact Function.update_self ..
  have h := ends_countdown (BitVec.ofNat 32 n) hstep
    ⟨rfl, hesi, (BitVec.add_zero _).symm, fun k _ => (if_neg (by omega)).symm⟩ hecx
  rwa [hpasses] at h

end Fill

/-! ## The whole of `SetupPage` -/

/-- The directory and the first page table; `old` is a word before. -/
def tableWord (k : Nat) (old : Word) : Word :=
  if 0x40000 + 769 ≤ k ∧ k < 0x40000 + 1023 then 0x10206F + BitVec.ofNat 32 (0x1000 * (k - (0x40000 + 769)))
  else if 0x40400 ≤ k ∧ k < 0x40400 + 256 then 0x6F + BitVec.ofNat 32 (0x1000 * (k - 0x40400))
  else if k = 0x40000 + 1023 then 0x10006F
  else if k = 0x40000 + 768 ∨ k = 0x40000 then 0x10106F
  else if 0x40000 ≤ k ∧ k < 0x40400 then 0
  else old

/-- The three entries that are written one by one. -/
theorem createPDE_words (s : Machine) {k : Nat} (hk : k < 2 ^ 29) : word (block createPDECode s).mem k =
    if k = 0x40000 + 1023 then 0x10006F else if k = 0x40000 + 768 then 0x10106F else
    if k = 0x40000 then 0x10106F else word s.mem k := by
  have hmem : (block createPDECode s).mem = store (store (store s.mem (0x100000 + 0x0) (0x100000 + 0x1000 ||| pageFlags))
      (0x100000 + 0xC00) (0x100000 + 0x1000 ||| pageFlags)) (0x100000 + 0xFFC)
      ((0x100000 + 0x1000 ||| pageFlags) - 0x1000) := by
    simp only [block, createPDECode, List.foldl, movImm, addImm, mov, orImm, movTo, subImm, Machine.set_self,
      Machine.set_ne, ne_eq, reduceCtorEq, not_false_eq_true]
    rfl
  have h0 : (0x100000 + 0x0 : Word) = BitVec.ofNat 32 (4 * 0x40000) := by decide
  have h768 : (0x100000 + 0xC00 : Word) = BitVec.ofNat 32 (4 * (0x40000 + 768)) := by decide
  have h1023 : (0x100000 + 0xFFC : Word) = BitVec.ofNat 32 (4 * (0x40000 + 1023)) := by decide
  have htable : (0x100000 + 0x1000 ||| pageFlags : Word) = 0x10106F := by decide
  have hdir : (0x10106F - 0x1000 : Word) = 0x10006F := by decide
  rw [hmem, h0, h768, h1023, htable, hdir, word_store _ _ (by omega) hk, word_store _ _ (by omega) hk,
    word_store _ _ (by omega) hk]

theorem createPDE_regs (s : Machine) : (block createPDECode s).regs .ebx = BitVec.ofNat 32 (4 * 0x40400) ∧
    (block createPDECode s).regs .esi = BitVec.ofNat 32 0 ∧ (block createPDECode s).regs .ecx = BitVec.ofNat 32 256 ∧
    (block createPDECode s).regs .edx = 0x6F := by
  simp only [block, createPDECode, List.foldl, movImm, addImm, mov, orImm, movTo, subImm, Machine.set_self,
    Machine.set_ne, ne_eq, reduceCtorEq, not_false_eq_true]
  decide

theorem kernelPDE_regs (s : Machine) : (block kernelPDECode s).regs .ebx = BitVec.ofNat 32 (4 * 0x40000) ∧
    (block kernelPDECode s).regs .esi = BitVec.ofNat 32 769 ∧ (block kernelPDECode s).regs .ecx = BitVec.ofNat 32 254 ∧
    (block kernelPDECode s).regs .eax = 0x10206F := by
  simp only [block, kernelPDECode, List.foldl, movImm, addImm, orImm, Machine.set_self, Machine.set_ne, ne_eq,
    reduceCtorEq, not_false_eq_true]
  decide

/-- What `SetupPage` leaves of the first two gigabytes. -/
theorem setupPage_words (s : Machine) : ∃ t, Ends (fun fuel => setupPage fuel s) t ∧ t.regs .ecx = 0 ∧
    ∀ k < 2 ^ 29, word t.mem k = tableWord k (word s.mem k) := by
  have hregs₀ : (block [movImm .ecx 0x1000, movImm .esi 0] s).regs .ecx = 0x1000 := rfl
  obtain ⟨s₁, hends₁, hmem₁⟩ := clear_ends hregs₀ rfl
  obtain ⟨hebx, hesi, hecx, hedx⟩ := createPDE_regs s₁
  obtain ⟨s₂, hends₂, hfill₂, -⟩ := fill_ends block_createPTELoop (.inr rfl) hebx hesi hecx (by decide) (by decide)
  obtain ⟨hebx', hesi', hecx', heax⟩ := kernelPDE_regs s₂
  obtain ⟨s₃, hends₃, hfill₃, hend⟩ := fill_ends block_kernelPDELoop (.inl rfl) hebx' hesi' hecx' (by decide) (by decide)
  refine ⟨s₃, hends₁.bind (hends₂.bind hends₃), hend, ?_⟩
  have hmem₀ : (block [movImm .ecx 0x1000, movImm .esi 0] s).mem = s.mem := rfl
  have hmem₂ : (block kernelPDECode s₂).mem = s₂.mem := rfl
  intro k hk
  rw [hfill₃.words k hk, heax, hmem₂, hfill₂.words k hk, hedx, createPDE_words s₁ hk, hmem₁, word_clear _ hk, hmem₀,
    tableWord]
  grind

/-! ## The address space -/

/-- Physical memory as frames of words. -/
def ramOf (m : Mem) : Ram := fun f i => (word m (f * 1024 + i)).toNat

/-- The directory and the entries of the first megabyte are those of `bootRam`, and nothing else is written. -/
def tables (ram : Ram) : Ram := fun f i => if f = 0x100 ∨ f = 0x101 ∧ i < 256 then bootRam f i else ram f i

theorem toNat_entry (c : Nat) {j : Nat} (h : c + 0x1000 * j < 2 ^ 32) :
    (BitVec.ofNat 32 c + BitVec.ofNat 32 (0x1000 * j)).toNat = c + 0x1000 * j := by
  rw [← BitVec.ofNat_add, BitVec.toNat_ofNat, Nat.mod_eq_of_lt h]

theorem tableWord_directory {i : Nat} (hi : i < 1024) (old : Word) :
    (tableWord (0x100 * 1024 + i) old).toNat = bootRam 0x100 i := by
  unfold tableWord bootRam
  rw [if_pos rfl]
  by_cases h0 : i = 0
  · rw [if_pos h0, if_neg (by omega), if_neg (by omega), if_neg (by omega), if_pos (by omega)]
    rfl
  by_cases h1023 : i = 1023
  · rw [if_neg h0, if_pos h1023, if_neg (by omega), if_neg (by omega), if_pos (by omega)]
    rfl
  rw [if_neg h0, if_neg h1023]
  by_cases h768 : 768 ≤ i ∧ i < 1023
  · rw [if_pos h768]
    by_cases heq : i = 768
    · rw [heq]
      rfl
    · rw [if_pos (by omega), show (0x10206F : Word) = BitVec.ofNat 32 0x10206F from rfl, toNat_entry _ (by omega)]
      omega
  · rw [if_neg h768, if_neg (by omega), if_neg (by omega), if_neg (by omega), if_neg (by omega), if_pos (by omega)]
    rfl

theorem setupPage_ram (s : Machine) : ∃ t, Ends (fun fuel => setupPage fuel s) t ∧ t.regs .ecx = 0 ∧
    ∀ f < 2 ^ 19, ∀ i < 1024, ramOf t.mem f i = tables (ramOf s.mem) f i := by
  obtain ⟨t, hends, hecx, hwords⟩ := setupPage_words s
  refine ⟨t, hends, hecx, ?_⟩
  intro f hf i hi
  rw [ramOf, hwords _ (by omega), tables]
  by_cases hdir : f = 0x100
  · rw [if_pos (.inl hdir), hdir, tableWord_directory hi]
  by_cases htable : f = 0x101 ∧ i < 256
  · rw [if_pos (.inr htable), tableWord, bootRam, if_neg (by omega), if_pos (by omega), if_neg hdir, if_pos htable,
      show (0x6F : Word) = BitVec.ofNat 32 0x6F from rfl, toNat_entry _ (by omega)]
    omega
  · rw [if_neg (by omega), tableWord, if_neg (by omega), if_neg (by omega), if_neg (by omega), if_neg (by omega),
      if_neg (by omega)]
    rfl

/-- In zero RAM the tables are those the kernel's model starts with. -/
theorem setupPage_bootRam {s t : Machine} (hzero : ∀ a, s.mem a = 0) (hends : Ends (fun fuel => setupPage fuel s) t)
    {f i : Nat} (hf : f < 2 ^ 19) (hi : i < 1024) : ramOf t.mem f i = bootRam f i := by
  obtain ⟨t', hends', -, hram⟩ := setupPage_ram s
  have hold : ramOf s.mem f i = 0 := by
    have hmem : s.mem = fun _ => 0 := funext hzero
    rw [ramOf, hmem]
    rfl
  rw [hends.unique hends', hram f hf i hi, tables, hold, bootRam]
  grind

/-- The address space that `SetupPage` is to build, with its directory at 0x100000. -/
structure Intended (ram : Ram) : Prop where
  low : ∀ v < 0x100000, walk ram 0x100 v = some v
  kernel : ∀ v < 0x100000, walk ram 0x100 (0xC0000000 + v) = some v
  table : ∀ i, 768 ≤ i → i < 1023 → present (ram 0x100 i) = true ∧ 0x101 ≤ frameOf (ram 0x100 i) ∧
    frameOf (ram 0x100 i) < 0x200
  distinct : ∀ i j, 768 ≤ i → i < j → j < 1023 → frameOf (ram 0x100 i) ≠ frameOf (ram 0x100 j)
  self : SelfMapped ram 0x100
  /-- below the window of the directory, nothing else is mapped -/
  absent : ∀ v < 0xFFC00000, ¬ v < 0x100000 → ¬ (0xC0000000 ≤ v ∧ v < 0xC0100000) → walk ram 0x100 v = none

/-- No word of the page tables that `SetupPage` does not write has its lowest bit set. -/
def Clear (ram : Ram) : Prop :=
  ∀ f i, i < 1024 → 0x101400 ≤ f * 4096 + i * 4 → f * 4096 + i * 4 < 0x200000 → present (ram f i) = false

section Space
variable {ram ram' : Ram} (h : ∀ f < 2 ^ 19, ∀ i < 1024, ram' f i = tables ram f i)
include h

theorem pde_eq {i : Nat} (hi : i < 1024) : ram' 0x100 i = bootRam 0x100 i := by
  rw [h 0x100 (by decide) i hi, tables, if_pos (.inl rfl)]

theorem pde_table {i : Nat} (hi : 768 ≤ i) (hi' : i < 1023) : ram' 0x100 i = (0x101 + (i - 768)) * 4096 + 0x6F := by
  rw [pde_eq h (by omega), bootRam, if_pos rfl, if_neg (by omega), if_neg (by omega), if_pos ⟨hi, hi'⟩]

theorem pte_low {i : Nat} (hi : i < 256) : ram' 0x101 i = i * 4096 + 0x6F := by
  rw [h 0x101 (by decide) i (by omega), tables, if_pos (.inr ⟨rfl, hi⟩), bootRam, if_neg (by decide), if_pos ⟨rfl, hi⟩]

theorem pte_old {f i : Nat} (hf : f < 0x200) (hi : i < 1024) (hle : 0x101400 ≤ f * 4096 + i * 4) : ram' f i = ram f i := by
  rw [h f (by omega) i hi, tables, if_neg (by omega)]

omit h in
theorem present_loader (f : Nat) : present (f * 4096 + 0x6F) = true := by
  unfold present
  exact decide_eq_true (by omega)

omit h in
theorem walk_loader {v f : Nat} (hpde : ram' 0x100 (pdeIdx v) = f * 4096 + 0x6F) : walk ram' 0x100 v =
    if present (ram' f (pteIdx v)) then some (frameOf (ram' f (pteIdx v)) * 4096 + v % 4096) else none := by
  have hf : frameOf (f * 4096 + 0x6F) = f := by
    unfold frameOf
    omega
  unfold walk
  rw [hpde, if_pos (present_loader f), hf]

/-- A page of the first megabyte. -/
theorem walk_first {v u : Nat} (hpde : ram' 0x100 (pdeIdx v) = 0x101 * 4096 + 0x6F) (hpte : pteIdx v = u / 4096)
    (hoff : v % 4096 = u % 4096) (hu : u < 0x100000) : walk ram' 0x100 v = some u := by
  rw [walk_loader hpde, hpte, pte_low h (by omega), if_pos (present_loader _), hoff]
  have hf : frameOf (u / 4096 * 4096 + 0x6F) = u / 4096 := by
    unfold frameOf
    omega
  rw [hf, Nat.div_add_mod']

/-- A page outside it. -/
theorem walk_rest {v : Nat} (hclear : Clear ram) (hv : v < 0xFFC00000) (hlow : ¬ v < 0x100000)
    (hkernel : ¬ (0xC0000000 ≤ v ∧ v < 0xC0100000)) : walk ram' 0x100 v = none := by
  have hpde : pdeIdx v = v / 2 ^ 22 := by
    unfold pdeIdx
    omega
  have hpte : pteIdx v = v / 4096 % 1024 := rfl
  have habsent : ∀ f, ram' 0x100 (pdeIdx v) = f * 4096 + 0x6F → f < 0x200 → 0x101400 ≤ f * 4096 + pteIdx v * 4 →
      walk ram' 0x100 v = none := by
    intro f heq hf hle
    have hold := hclear f (pteIdx v) (pteIdx_lt v) hle (by have := pteIdx_lt v; omega)
    rw [walk_loader heq, pte_old h hf (pteIdx_lt v) hle, hold]
    rfl
  by_cases h0 : pdeIdx v = 0
  · apply habsent 0x101 _ (by decide) (by omega)
    rw [h0, pde_eq h (by decide)]
    rfl
  by_cases h768 : 768 ≤ pdeIdx v
  · exact habsent _ (pde_table h h768 (by omega)) (by omega) (by omega)
  · have hzero : ram' 0x100 (pdeIdx v) = 0 := by
      rw [pde_eq h (pdeIdx_lt v), bootRam, if_pos rfl, if_neg h0, if_neg (by omega), if_neg (by omega)]
    unfold walk
    rw [hzero]
    rfl

theorem intended_of_clear (hclear : Clear ram) : Intended ram' := by
  have h1023 : ram' 0x100 1023 = 0x100 * 4096 + 0x6F := pde_eq h (by decide)
  refine ⟨?_, ?_, ?_, ?_, ⟨?_, ?_⟩, fun v hv hlow hkernel => walk_rest h hclear hv hlow hkernel⟩
  · intro v hv
    have hidx : pdeIdx v = 0 := by
      unfold pdeIdx
      omega
    have hzero : ram' 0x100 (pdeIdx v) = 0x101 * 4096 + 0x6F := by
      rw [hidx, pde_eq h (by decide)]
      rfl
    exact walk_first h hzero (by unfold pteIdx; omega) rfl hv
  · intro v hv
    have hidx : pdeIdx (0xC0000000 + v) = 768 := by
      unfold pdeIdx
      omega
    have hkernel : ram' 0x100 (pdeIdx (0xC0000000 + v)) = 0x101 * 4096 + 0x6F := by
      rw [hidx, pde_table h (by decide) (by decide)]
    exact walk_first h hkernel (by unfold pteIdx; omega) (by omega) hv
  · intro i hi hi'
    rw [pde_table h hi hi']
    refine ⟨present_loader _, ?_⟩
    unfold frameOf
    omega
  · intro i j hi hij hj
    rw [pde_table h hi (by omega), pde_table h (by omega) hj]
    unfold frameOf
    omega
  · rw [h1023]
    exact present_loader _
  · rw [h1023]
    rfl

theorem clear_of_intended (hspace : Intended ram') : Clear ram := by
  intro f i hi hle hlt
  -- the page whose entry is this word, in the kernel's half
  obtain ⟨v, hv⟩ : ∃ v, v = (768 + (f - 0x101)) * 2 ^ 22 + i * 4096 := ⟨_, rfl⟩
  have hpde : pdeIdx v = 768 + (f - 0x101) := by
    unfold pdeIdx
    omega
  have hpte : pteIdx v = i := by
    unfold pteIdx
    omega
  have hlast : v < 0xFFC00000 := by omega
  have hlow : ¬ v < 0x100000 := by omega
  have hkernel : ¬ (0xC0000000 ≤ v ∧ v < 0xC0100000) := by omega
  have hnone := hspace.absent v hlast hlow hkernel
  have htable : ram' 0x100 (768 + (f - 0x101)) = f * 4096 + 0x6F := by
    rw [pde_table h (by omega) (by omega)]
    omega
  rw [walk_loader (by rw [hpde]; exact htable), hpte, pte_old h (by omega) hi hle] at hnone
  cases hp : present (ram f i) with
  | false => rfl
  | true =>
    rw [hp] at hnone
    cases hnone

end Space

theorem setupPage_clear {s t : Machine} (hends : Ends (fun fuel => setupPage fuel s) t) (hspace : Intended (ramOf t.mem)) :
    Clear (ramOf s.mem) := by
  obtain ⟨t', hends', -, hram⟩ := setupPage_ram s
  rw [hends.unique hends'] at hspace
  exact clear_of_intended hram hspace

/-- `SetupPage` builds the address space from just that RAM whose words there have their lowest bit clear: it clears the
directory, but not the page tables. -/
theorem setupPage_intended_iff (s : Machine) :
    (∃ t, Ends (fun fuel => setupPage fuel s) t ∧ Intended (ramOf t.mem)) ↔ Clear (ramOf s.mem) := by
  constructor
  · rintro ⟨t, hends, hspace⟩
    exact setupPage_clear hends hspace
  · intro hclear
    obtain ⟨t, hends, -, hram⟩ := setupPage_ram s
    exact ⟨t, hends, intended_of_clear hram hclear⟩

/-- RAM full of ones: the entry of 0xC0100000, the first page of the kernel heap, is present. -/
theorem not_setupPage_intended : ¬ ∀ s : Machine, s.mem = (fun _ => 0xFF) →
    ∃ t, Ends (fun fuel => setupPage fuel s) t ∧ Intended (ramOf t.mem) := by
  intro hall
  obtain ⟨t, hends, hspace⟩ := hall ⟨fun _ => 0, fun _ => 0xFF, idleDisk⟩ rfl
  have h := setupPage_clear hends hspace 0x101 256 (by decide) (by decide) (by decide)
  have hones : ramOf (fun _ => 0xFF) 0x101 256 = 0xFFFFFFFF := rfl
  rw [hones] at h
  cases h

end ElephantOS.Boot
