import Mathlib.Tactic.Common
import Mathlib.Tactic.Ring

/-!
# The two-level page walk and the self-mapped directory (`kernel/memory.c`)

Physical memory is kept as frames of 1024 words, of which only those of page tables and directories are
ever read here. A word of a table names a frame in its upper 20 bits; bit 0 says that it is present.

* `walk` : the hardware translation of a 32-bit address; `Ram.load`, `Ram.store`, `clearPage` : accesses through
  it (`none` is a page fault);
* `getPDEPointer`, `getPTEPointer` : the addresses of the entries of `v` in the window of the directory
  entry 1023;
* `load_pde` … `clearPage_pte` : when that entry names the directory itself, these addresses reach the
  entries.
-/

namespace ElephantOS

/-- Physical memory: the words of every frame. -/
abbrev Ram := Nat → Nat → Nat

def pageSize : Nat := 4096

/-- `PDE_IDX`. -/
def pdeIdx (addr : Nat) : Nat := addr / 2 ^ 22 % 1024

/-- `PTE_IDX`. -/
def pteIdx (addr : Nat) : Nat := addr / 4096 % 1024

/-- `entry & PAGE_P_1`. -/
def present (entry : Nat) : Bool := entry % 2 = 1

/-- The frame an entry names: `entry & 0xFFFFF000`. -/
def frameOf (entry : Nat) : Nat := entry / 4096

def setWord (ram : Ram) (f i w : Nat) : Ram := fun g j => if g = f ∧ j = i then w else ram g j

def clearFrame (ram : Ram) (f : Nat) : Ram := fun g j => if g = f then 0 else ram g j

/-- The physical address of `v`, with the directory in frame `cr3`. -/
def walk (ram : Ram) (cr3 v : Nat) : Option Nat :=
  let pde := ram cr3 (pdeIdx v)
  if present pde then
    let pte := ram (frameOf pde) (pteIdx v)
    if present pte then some (frameOf pte * 4096 + v % 4096) else none
  else none

def Ram.load (ram : Ram) (cr3 v : Nat) : Option Nat :=
  (walk ram cr3 v).map fun pa => ram (pa / 4096) (pa % 4096 / 4)

def Ram.store (ram : Ram) (cr3 v w : Nat) : Option Ram :=
  (walk ram cr3 v).map fun pa => setWord ram (pa / 4096) (pa % 4096 / 4) w

/-- `memset` of the page at `v` to 0. -/
def clearPage (ram : Ram) (cr3 v : Nat) : Option Ram :=
  (walk ram cr3 v).map fun pa => clearFrame ram (pa / 4096)

def getPTEPointer (vaddr : Nat) : Nat := 0xFFC00000 + vaddr / 2 ^ 22 * 4096 + pteIdx vaddr * 4

def getPDEPointer (vaddr : Nat) : Nat := 0xFFFFF000 + pdeIdx vaddr * 4

/-! ## The window of a self-mapped directory -/

theorem pdeIdx_lt (v : Nat) : pdeIdx v < 1024 := Nat.mod_lt _ (by decide)

theorem pteIdx_lt (v : Nat) : pteIdx v < 1024 := Nat.mod_lt _ (by decide)

/-- The directory in frame `d` names itself in entry 1023. -/
structure SelfMapped (ram : Ram) (d : Nat) : Prop where
  present : present (ram d 1023) = true
  frame : frameOf (ram d 1023) = d

section Window
variable {ram : Ram} {d v : Nat}

theorem walk_getPDEPointer (hd : SelfMapped ram d) (v : Nat) :
    walk ram d (getPDEPointer v) = some (d * 4096 + pdeIdx v * 4) := by
  have hlt := pdeIdx_lt v
  have h1 : pdeIdx (getPDEPointer v) = 1023 := by
    simp only [getPDEPointer]
    rw [pdeIdx]
    omega
  have h2 : pteIdx (getPDEPointer v) = 1023 := by
    simp only [getPDEPointer]
    rw [pteIdx]
    omega
  have h3 : getPDEPointer v % 4096 = pdeIdx v * 4 := by
    simp only [getPDEPointer]
    omega
  simp only [walk, h1, h2, h3, hd.present, hd.frame, if_true]

theorem walk_getPTEPointer (hd : SelfMapped ram d) (hv : v < 2 ^ 32)
    (hp : present (ram d (pdeIdx v)) = true) :
    walk ram d (getPTEPointer v) = some (frameOf (ram d (pdeIdx v)) * 4096 + pteIdx v * 4) := by
  have hlt := pteIdx_lt v
  have hpde : pdeIdx v = v / 2 ^ 22 := by
    rw [pdeIdx]
    omega
  have h1 : pdeIdx (getPTEPointer v) = 1023 := by
    simp only [getPTEPointer]
    rw [pdeIdx]
    omega
  have h2 : pteIdx (getPTEPointer v) = pdeIdx v := by
    simp only [getPTEPointer]
    rw [pteIdx, hpde]
    omega
  have h3 : getPTEPointer v % 4096 = pteIdx v * 4 := by
    simp only [getPTEPointer]
    omega
  simp only [walk, h1, h2, h3, hd.present, hd.frame, if_true, hp]

theorem word_div (f i : Nat) (hi : i < 1024) :
    (f * 4096 + i * 4) / 4096 = f ∧ (f * 4096 + i * 4) % 4096 / 4 = i := by
  omega

theorem load_pde (hd : SelfMapped ram d) (v : Nat) :
    ram.load d (getPDEPointer v) = some (ram d (pdeIdx v)) := by
  simp only [Ram.load, walk_getPDEPointer hd, Option.map_some, word_div d _ (pdeIdx_lt v)]

theorem store_pde (hd : SelfMapped ram d) (v w : Nat) :
    ram.store d (getPDEPointer v) w = some (setWord ram d (pdeIdx v) w) := by
  simp only [Ram.store, walk_getPDEPointer hd, Option.map_some, word_div d _ (pdeIdx_lt v)]

theorem load_pte (hd : SelfMapped ram d) (hv : v < 2 ^ 32) (hp : present (ram d (pdeIdx v)) = true) :
    ram.load d (getPTEPointer v) = some (ram (frameOf (ram d (pdeIdx v))) (pteIdx v)) := by
  simp only [Ram.load, walk_getPTEPointer hd hv hp, Option.map_some, word_div _ _ (pteIdx_lt v)]

theorem store_pte (hd : SelfMapped ram d) (hv : v < 2 ^ 32) (hp : present (ram d (pdeIdx v)) = true)
    (w : Nat) : ram.store d (getPTEPointer v) w =
      some (setWord ram (frameOf (ram d (pdeIdx v))) (pteIdx v) w) := by
  simp only [Ram.store, walk_getPTEPointer hd hv hp, Option.map_some, word_div _ _ (pteIdx_lt v)]

/-- The page of the entry of `v` is the page table of `v`. -/
theorem clearPage_pte (hd : SelfMapped ram d) (hv : v < 2 ^ 32)
    (hp : present (ram d (pdeIdx v)) = true) :
    clearPage ram d (getPTEPointer v / 4096 * 4096) =
      some (clearFrame ram (frameOf (ram d (pdeIdx v)))) := by
  have hlt := pteIdx_lt v
  have h1 : pdeIdx (getPTEPointer v / 4096 * 4096) = 1023 := by
    simp only [getPTEPointer]
    rw [pdeIdx]
    omega
  have h2 : pteIdx (getPTEPointer v / 4096 * 4096) = pdeIdx v := by
    simp only [getPTEPointer]
    rw [pteIdx, pdeIdx]
    omega
  have h3 : getPTEPointer v / 4096 * 4096 % 4096 = 0 := by omega
  simp only [clearPage, walk, h1, h2, h3, hd.present, hd.frame, if_true, hp, Option.map_some, Nat.add_zero]
  rw [Nat.mul_div_cancel _ (by decide)]

end Window

/-! ## Words and frames -/

theorem setWord_same (ram : Ram) (f i w : Nat) : setWord ram f i w f i = w := by simp [setWord]

theorem setWord_frame {ram : Ram} {f i w g : Nat} (h : g ≠ f) (j : Nat) : setWord ram f i w g j = ram g j := by
  simp [setWord, h]

theorem setWord_word {ram : Ram} {f i w j : Nat} (h : j ≠ i) (g : Nat) : setWord ram f i w g j = ram g j := by
  simp [setWord, h]

theorem clearFrame_same (ram : Ram) (f i : Nat) : clearFrame ram f f i = 0 := by simp [clearFrame]

theorem clearFrame_frame {ram : Ram} {f g : Nat} (h : g ≠ f) (j : Nat) : clearFrame ram f g j = ram g j := by
  simp [clearFrame, h]

/-- The entry the kernel writes for a present page: the frame's address with the three flags. -/
theorem or_flags (f : Nat) : f * 4096 ||| 1 ||| 4 ||| 2 = f * 4096 + 7 := by
  have h := Nat.two_pow_add_eq_or_of_lt (show 7 < 2 ^ 12 by decide) f
  rw [Nat.or_assoc, Nat.or_assoc, show (1 ||| (4 ||| 2)) = 7 by decide, Nat.mul_comm]
  exact h.symm

end ElephantOS
