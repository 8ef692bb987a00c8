import ElephantOS.Kernel.Memory

/-!
# What the page tables say

* `entry` : the frame a word of a table names, if it is present;
* `Kernel.kmap`, `Kernel.dir`, `Kernel.tab`, `Kernel.umap` : the leaf entries of the kernel heap, the
  directory of a process, its page tables and its leaf entries, read off the words of the tables;
* `Kernel.Sep` : directories and user page tables are distinct frames outside the kernel's own tables;
* `maps_setLeaf`, `maps_setUserLeaf`, `maps_newTable`, `maps_other` : what a write to a kernel page table,
  to a user page table, the creation of a user page table, and a write to any other frame change.
-/

namespace ElephantOS

/-- The frame a present entry names. -/
def entry (w : Nat) : Option Nat := if present w then some (frameOf w) else none

theorem entry_eq_some {w f : Nat} : entry w = some f ↔ present w = true ∧ frameOf w = f := by
  unfold entry
  by_cases h : present w = true <;> simp [h]

theorem entry_eq_none {w : Nat} : entry w = none ↔ present w = false := by
  unfold entry
  by_cases h : present w = true <;> simp [h]

@[simp] theorem entry_zero : entry 0 = none := rfl

theorem entry_flags (f k : Nat) (hk : k < 4096) (hodd : k % 2 = 1) : entry (f * 4096 + k) = some f := by
  rw [entry_eq_some]
  simp only [present, frameOf, decide_eq_true_eq]
  omega

/-- The page table of directory entry `j` of the kernel half. -/
def kernelTable (j : Nat) : Nat := 0x101 + (j - 768)

inductive Page where
  | kernel (vp : Nat)
  | user (p vp : Nat)
  deriving DecidableEq

namespace Kernel

def kmap (s : Kernel) (vp : Nat) : Option Nat :=
  if 0xC0100 ≤ vp ∧ vp < 0xFFC00 then entry (s.ram (kernelTable (vp / 1024)) (vp % 1024)) else none

/-- The kernel page that holds the directory of a process. -/
def pdPage (s : Kernel) (p : Nat) : Option Nat :=
  match s.pcb p with
  | some t => if t.pdeAddr = 0 then none else some (t.pdeAddr / 4096)
  | none => none

def dir (s : Kernel) (p : Nat) : Option Nat := (s.pdPage p).bind s.kmap

/-- The frame of the page table of directory entry `j` of a process. -/
def tab (s : Kernel) (p j : Nat) : Option Nat :=
  (s.dir p).bind fun d => if 32 ≤ j ∧ j < 768 then entry (s.ram d j) else none

def umap (s : Kernel) (p vp : Nat) : Option Nat :=
  (s.tab p (vp / 1024)).bind fun t => entry (s.ram t (vp % 1024))

def map (s : Kernel) : Page → Option Nat
  | .kernel vp => s.kmap vp
  | .user p vp => s.umap p vp

/-- Directories and user page tables are distinct frames, none of them a table of the kernel. -/
structure Sep (s : Kernel) : Prop where
  dir_ge : ∀ {p d}, s.dir p = some d → 0x200 ≤ d
  tab_ge : ∀ {p j t}, s.tab p j = some t → 0x200 ≤ t
  dir_inj : ∀ {p q d}, s.dir p = some d → s.dir q = some d → p = q
  tab_inj : ∀ {p j q k t}, s.tab p j = some t → s.tab q k = some t → p = q ∧ j = k
  dir_tab : ∀ {p q k d t}, s.dir p = some d → s.tab q k = some t → d ≠ t

/-- Both states have the same mappings. -/
structure SameMaps (s s' : Kernel) : Prop where
  kmap : s'.kmap = s.kmap
  dir : s'.dir = s.dir
  tab : s'.tab = s.tab
  umap : s'.umap = s.umap

theorem kernelTable_lt {vp : Nat} (h : 0xC0100 ≤ vp ∧ vp < 0xFFC00) : kernelTable (vp / 1024) < 0x200 := by
  unfold kernelTable
  omega

theorem kmap_congr {s s' : Kernel} (h : ∀ f < 0x200, ∀ i, s'.ram f i = s.ram f i) : s'.kmap = s.kmap := by
  funext vp
  unfold kmap
  by_cases hv : 0xC0100 ≤ vp ∧ vp < 0xFFC00
  · rw [if_pos hv, if_pos hv, h _ (kernelTable_lt hv)]
  · rw [if_neg hv, if_neg hv]

theorem pdPage_congr {s s' : Kernel} (h : s'.pcb = s.pcb) : s'.pdPage = s.pdPage := by
  funext p
  simp only [pdPage, h]

theorem dir_congr {s s' : Kernel} (h : s'.pcb = s.pcb) (hk : s'.kmap = s.kmap) : s'.dir = s.dir := by
  funext p
  simp only [dir, hk, pdPage_congr h]

theorem tab_congr {s s' : Kernel} (hd : s'.dir = s.dir)
    (h : ∀ p d, s.dir p = some d → ∀ j, s'.ram d j = s.ram d j) : s'.tab = s.tab := by
  funext p j
  unfold tab
  rw [hd]
  cases hp : s.dir p with
  | none => rfl
  | some d => simp only [Option.bind_some, h p d hp]

theorem umap_congr {s s' : Kernel} (ht : s'.tab = s.tab)
    (h : ∀ p j t, s.tab p j = some t → ∀ i, s'.ram t i = s.ram t i) : s'.umap = s.umap := by
  funext p vp
  unfold umap
  rw [ht]
  cases hp : s.tab p (vp / 1024) with
  | none => rfl
  | some t => simp only [Option.bind_some, h p _ t hp]

theorem tab_eq {s : Kernel} {p d : Nat} (hd : s.dir p = some d) {j : Nat} (hj : 32 ≤ j ∧ j < 768) :
    s.tab p j = entry (s.ram d j) := by
  rw [tab, hd, Option.bind_some, if_pos hj]

theorem umap_eq {s : Kernel} {p vp t : Nat} (ht : s.tab p (vp / 1024) = some t) :
    s.umap p vp = entry (s.ram t (vp % 1024)) := by
  rw [umap, ht, Option.bind_some]

/-- A write to frames that are no tables changes no mapping. -/
theorem maps_other {s s' : Kernel} (hpcb : s'.pcb = s.pcb)
    (hlow : ∀ f < 0x200, ∀ i, s'.ram f i = s.ram f i)
    (hdir : ∀ p d, s.dir p = some d → ∀ i, s'.ram d i = s.ram d i)
    (htab : ∀ p j t, s.tab p j = some t → ∀ i, s'.ram t i = s.ram t i) : SameMaps s s' := by
  have hk := kmap_congr hlow
  have hd := dir_congr hpcb hk
  have ht := tab_congr hd hdir
  exact ⟨hk, hd, ht, umap_congr ht htab⟩

/-- A write to the entry of a page in a page table of the kernel. -/
theorem maps_setLeaf {s s' : Kernel} (hsep : Sep s) (hpcb : s'.pcb = s.pcb) {vp w : Nat}
    (hvp : 0xC0100 ≤ vp ∧ vp < 0xFFC00) (hpd : ∀ p, s.pdPage p ≠ some vp)
    (hram : s'.ram = setWord s.ram (kernelTable (vp / 1024)) (vp % 1024) w) :
    (∀ v, s'.kmap v = if v = vp then entry w else s.kmap v) ∧ s'.dir = s.dir ∧ s'.tab = s.tab ∧
      s'.umap = s.umap := by
  have hlt := kernelTable_lt hvp
  have hk : ∀ v, s'.kmap v = if v = vp then entry w else s.kmap v := by
    intro v
    unfold kmap
    by_cases hv : v = vp
    · rw [hv, if_pos hvp, hram, setWord_same, if_pos rfl]
    · rw [if_neg hv]
      by_cases hr : 0xC0100 ≤ v ∧ v < 0xFFC00
      · rw [if_pos hr, if_pos hr, hram]
        by_cases hm : v % 1024 = vp % 1024
        · have : kernelTable (v / 1024) ≠ kernelTable (vp / 1024) := by
            unfold kernelTable
            omega
          rw [setWord_frame this]
        · rw [setWord_word hm]
      · rw [if_neg hr, if_neg hr]
  have hd : s'.dir = s.dir := by
    funext p
    unfold dir
    rw [pdPage_congr hpcb]
    cases hp : s.pdPage p with
    | none => rfl
    | some v =>
      rw [Option.bind_some, Option.bind_some, hk, if_neg]
      rintro rfl
      exact hpd p hp
  have hother : ∀ f, 0x200 ≤ f → ∀ i, s'.ram f i = s.ram f i := fun f hf i => by
    rw [hram, setWord_frame (by omega)]
  have ht := tab_congr hd fun p d h => hother d (hsep.dir_ge h)
  exact ⟨hk, hd, ht, umap_congr ht fun p j t h => hother t (hsep.tab_ge h)⟩

theorem maps_setUserLeaf {s s' : Kernel} (hsep : Sep s) (hpcb : s'.pcb = s.pcb) {p vp t w : Nat}
    (ht : s.tab p (vp / 1024) = some t) (hram : s'.ram = setWord s.ram t (vp % 1024) w) :
    s'.kmap = s.kmap ∧ s'.dir = s.dir ∧ s'.tab = s.tab ∧
      ∀ q v, s'.umap q v = if q = p ∧ v = vp then entry w else s.umap q v := by
  have hge := hsep.tab_ge ht
  have hk : s'.kmap = s.kmap := kmap_congr fun f hf i => by rw [hram, setWord_frame (by omega)]
  have hd := dir_congr hpcb hk
  have htab : s'.tab = s.tab := tab_congr hd fun q d hq j => by
    rw [hram, setWord_frame (hsep.dir_tab hq ht)]
  refine ⟨hk, hd, htab, fun q v => ?_⟩
  unfold umap
  rw [htab]
  by_cases hqv : q = p ∧ v = vp
  · obtain ⟨rfl, rfl⟩ := hqv
    rw [ht, Option.bind_some, hram, setWord_same, if_pos ⟨rfl, rfl⟩]
  · rw [if_neg hqv]
    cases hq : s.tab q (v / 1024) with
    | none => rfl
    | some u =>
      rw [Option.bind_some, Option.bind_some, hram]
      by_cases hu : u = t
      · subst hu
        obtain ⟨rfl, hj⟩ := hsep.tab_inj hq ht
        rw [setWord_word fun hm => hqv ⟨rfl, by omega⟩]
      · rw [setWord_frame hu]

/-- A new, empty page table in an unused frame. -/
theorem maps_newTable {s s' : Kernel} (hsep : Sep s) (hpcb : s'.pcb = s.pcb) {p d j t w : Nat}
    (hd : s.dir p = some d) (hj : 32 ≤ j ∧ j < 768) (hnone : s.tab p j = none) (ht : 0x200 ≤ t)
    (hdt : ∀ q e, s.dir q = some e → e ≠ t) (htt : ∀ q k u, s.tab q k = some u → u ≠ t)
    (hw : entry w = some t) (hram : s'.ram = clearFrame (setWord s.ram d j w) t) :
    s'.kmap = s.kmap ∧ s'.dir = s.dir ∧
      (∀ q k, s'.tab q k = if q = p ∧ k = j then some t else s.tab q k) ∧ s'.umap = s.umap := by
  have hge := hsep.dir_ge hd
  have hk : s'.kmap = s.kmap := kmap_congr fun f hf i => by
    rw [hram, clearFrame_frame (by omega), setWord_frame (by omega)]
  have hdir := dir_congr hpcb hk
  have htab : ∀ q k, s'.tab q k = if q = p ∧ k = j then some t else s.tab q k := by
    intro q k
    by_cases hqk : q = p ∧ k = j
    · obtain ⟨rfl, rfl⟩ := hqk
      rw [if_pos ⟨rfl, rfl⟩, tab, hdir, hd, Option.bind_some, if_pos hj, hram,
        clearFrame_frame (hdt q d hd), setWord_same, hw]
    · rw [if_neg hqk]
      unfold tab
      rw [hdir]
      cases hq : s.dir q with
      | none => rfl
      | some e =>
        rw [Option.bind_some, Option.bind_some, hram, clearFrame_frame (hdt q e hq)]
        by_cases he : e = d
        · subst he
          have hqp := hsep.dir_inj hq hd
          rw [setWord_word fun hkj => hqk ⟨hqp, hkj⟩]
        · rw [setWord_frame he]
  refine ⟨hk, hdir, htab, ?_⟩
  funext q v
  unfold umap
  rw [htab]
  by_cases hqv : q = p ∧ v / 1024 = j
  · obtain ⟨rfl, hv⟩ := hqv
    rw [if_pos ⟨rfl, hv⟩, hv, hnone, Option.bind_some, hram, clearFrame_same]
    rfl
  · rw [if_neg hqv]
    cases hq : s.tab q (v / 1024) with
    | none => rfl
    | some u =>
      rw [Option.bind_some, Option.bind_some, hram, clearFrame_frame (htt q _ u hq),
        setWord_frame (hsep.dir_tab hd hq).symm]

end Kernel

end ElephantOS
