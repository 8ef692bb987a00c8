import ElephantOS.Lib.Ledger
import ElephantOS.Memory.Spaces

/-!
# The invariant of the page allocator

* `Config` : the sizes and places `VmemPoolInit` computed stay;
* `Tables` : every directory shares the kernel's page tables and names itself in entry 1023;
* `Threads` : PCBs and directories are in mapped kernel pages, CR3 is the current thread's directory;
* `FrameInv` : the marked frames of the kernel pool are owned by kernel leaf entries and user page tables,
  those of the user pool by user leaf entries, each by one;
* `Virt` : the bit of a page in its address bitmap is set iff the page is mapped, `pend` apart (the pages
  that `palloc` has reserved and not mapped yet, or that `pfree` has unmapped and not returned yet);
* `PageInv` : all of these.
-/

namespace ElephantOS

/-- All frames are below 4GB. -/
structure Layout.Sized (l : Layout) : Prop where
  lt : usedMem + (l.kernelFreePages + l.userFreePages) * 4096 < 2 ^ 32

namespace Layout

def kernelFrames (l : Layout) : Nat := 8 * l.kernelBitmapLength

def userFrames (l : Layout) : Nat := 8 * l.userBitmapLength

/-- The first frame of the user pool. -/
def userStart (l : Layout) : Nat := 0x200 + l.kernelFreePages

def frames (l : Layout) : PoolFlags → Nat
  | .kernelPool => l.kernelFrames
  | .userPool => l.userFrames

def start (l : Layout) : PoolFlags → Nat
  | .kernelPool => 0x200
  | .userPool => l.userStart

def frameBit (l : Layout) : PoolFlags → Nat → Nat
  | .kernelPool, i => 8 * memBitmapBase + i
  | .userPool, i => 8 * memBitmapBase + l.kernelFrames + i

def pageBit (l : Layout) (vp : Nat) : Nat := 8 * memBitmapBase + l.kernelFrames + l.userFrames + (vp - 0xC0100)

theorem frames_le (l : Layout) : l.kernelFrames ≤ l.kernelFreePages ∧ l.userFrames ≤ l.userFreePages := by
  unfold kernelFrames userFrames kernelBitmapLength userBitmapLength
  omega

end Layout

/-- The pages of the address bitmap of a process. -/
def userFirst : Nat := 0x8048

def userEnd : Nat := 0xC0000

namespace Kernel

structure Config (l : Layout) (s : Kernel) : Prop where
  debug : s.debug = true
  bitmap : ∀ pf, (s.pool pf).poolBitmap =
    match pf with
    | .kernelPool => l.kernelPool.poolBitmap
    | .userPool => l.userPool.poolBitmap
  start : ∀ pf, (s.pool pf).physicAddrStart = l.start pf * 4096
  size : ∀ pf, (s.pool pf).poolSize + 0x200000 ≤ 2 ^ 32
  kvaddr : s.kernelVaddr = l.kernelVaddr

def IsDir (s : Kernel) (d : Nat) : Prop := d = 0x100 ∨ ∃ p, s.dir p = some d

structure Tables (s : Kernel) : Prop where
  shared : ∀ {d}, IsDir s d → ∀ {j}, 768 ≤ j → j ≤ 1022 → entry (s.ram d j) = some (kernelTable j)
  self : ∀ {d}, IsDir s d → entry (s.ram d 1023) = some d
  zero : ∀ {d}, IsDir s d → entry (s.ram d 0) ≠ none
  low : entry (s.ram 0x101 0) ≠ none

structure Threads (s : Kernel) : Prop where
  cur : ∃ t, s.pcb s.current = some t
  cr3 : ∀ {t}, s.pcb s.current = some t → if t.pdeAddr = 0 then s.cr3 = 0x100 else s.dir s.current = some s.cr3
  page : ∀ {p t}, s.pcb p = some t → p % 4096 = 0 ∧ (p = Sched.mainPage ∨ s.kmap (p / 4096) ≠ none)
  pd : ∀ {p v}, s.pdPage p = some v → s.kmap v ≠ none
  pdAligned : ∀ {p t}, s.pcb p = some t → t.pdeAddr % 4096 = 0 ∧ t.pdeAddr < 2 ^ 32
  inj : ∀ {p q v}, s.pdPage p = some v → s.pdPage q = some v → p = q
  vaddr : ∀ {p t}, s.pcb p = some t → t.userprogVaddr.bitmapBytesLen = (if t.pdeAddr = 0 then 0 else 94199) ∧
    (t.pdeAddr ≠ 0 → t.userprogVaddr.vaddrStart = 0x8048000)

/-- Who can own a frame of the kernel pool: a leaf entry of the kernel, or a page table of a process. -/
inductive KOwner where
  | leaf (vp : Nat)
  | tab (p j : Nat)

def kown (s : Kernel) : KOwner → Option Nat
  | .leaf vp => s.kmap vp
  | .tab p j => s.tab p j

/-- The owners of frames of the user pool: leaf entries of processes. -/
def uown (s : Kernel) (o : Nat × Nat) : Option Nat := s.umap o.1 o.2

structure FrameInv (l : Layout) (s : Kernel) : Prop where
  kernel : Ledger s.kown 0x200 l.kernelFrames fun i => bitAt s.low (l.frameBit .kernelPool i) = true
  urange : ∀ {p vp f}, s.umap p vp = some f → l.userStart ≤ f ∧ f < l.userStart + l.userFrames
  user : l.kernelFreePages % 8 = 0 →
    Ledger s.uown l.userStart l.userFrames fun i => bitAt s.low (l.frameBit .userPool i) = true

def vbit (s : Kernel) (l : Layout) : Page → Bool
  | .kernel vp => bitAt s.low (l.pageBit vp)
  | .user p vp => match s.pcb p with
    | some t => bitAt (s.userBits p) (t.userprogVaddr.bitmap.bit (vp - userFirst))
    | none => false

def IsProcess (s : Kernel) (p : Nat) : Prop := ∃ t, s.pcb p = some t ∧ t.pdeAddr ≠ 0

/-- The pages with a bit in the bitmap of their address space. -/
def Window (s : Kernel) (l : Layout) : Page → Prop
  | .kernel vp => 0xC0100 ≤ vp ∧ vp < 0xC0100 + l.kernelFrames
  | .user p vp => s.IsProcess p ∧ userFirst ≤ vp ∧ vp < userEnd

/-- The pages that can be mapped: `BitmapScan` can go one page past the window of the kernel heap. -/
def Reach (s : Kernel) (l : Layout) : Page → Prop
  | .kernel vp => 0xC0100 ≤ vp ∧ vp ≤ 0xC0100 + l.kernelFrames ∧ vp < 0xFFC00
  | .user p vp => s.IsProcess p ∧ userFirst ≤ vp ∧ vp < userEnd

structure Virt (l : Layout) (pend : Page → Prop) (s : Kernel) : Prop where
  mapped : ∀ {pg}, s.map pg ≠ none → s.Reach l pg ∧ s.vbit l pg = true
  set : ∀ {pg}, s.Window l pg → s.vbit l pg = true → s.map pg ≠ none ∨ pend pg

structure PageInv (l : Layout) (pend : Page → Prop) (s : Kernel) : Prop where
  config : s.Config l
  tables : s.Tables
  threads : s.Threads
  frames : s.FrameInv l
  virt : s.Virt l pend

def Stable : Page → Prop := fun _ => False

/-! ## Frames -/

theorem dir_some {s : Kernel} {p d : Nat} (h : s.dir p = some d) : ∃ v, s.pdPage p = some v ∧ s.kmap v = some d :=
  Option.bind_eq_some_iff.1 h

theorem FrameInv.sep {l : Layout} {s : Kernel} (hf : s.FrameInv l) (ht : s.Threads) : s.Sep where
  dir_ge h := by
    obtain ⟨v, -, hk⟩ := dir_some h
    exact (hf.kernel.range (o := .leaf v) hk).1
  tab_ge {p j t} h := (hf.kernel.range (o := .tab p j) h).1
  dir_inj h h' := by
    obtain ⟨v, hp, hk⟩ := dir_some h
    obtain ⟨v', hp', hk'⟩ := dir_some h'
    cases hf.kernel.inj (o := .leaf v) (q := .leaf v') hk hk'
    exact ht.inj hp hp'
  tab_inj {p j q k t} h h' := by
    cases hf.kernel.inj (o := .tab p j) (q := .tab q k) h h'
    exact ⟨rfl, rfl⟩
  dir_tab {p q k d t} h h' := by
    rintro rfl
    obtain ⟨v, -, hk⟩ := dir_some h
    cases hf.kernel.inj (o := .leaf v) (q := .tab q k) hk h'

theorem PageInv.sep {l : Layout} {pend : Page → Prop} {s : Kernel} (hi : PageInv l pend s) : s.Sep :=
  hi.frames.sep hi.threads

theorem Threads.isDir {s : Kernel} (ht : s.Threads) : s.IsDir s.cr3 := by
  obtain ⟨t, hc⟩ := ht.cur
  have := ht.cr3 hc
  split at this
  · exact .inl this
  · exact .inr ⟨_, this⟩

theorem Threads.dir_current {s : Kernel} (ht : s.Threads) (h : s.IsProcess s.current) :
    s.dir s.current = some s.cr3 := by
  obtain ⟨t, hc, hne⟩ := h
  have := ht.cr3 hc
  rwa [if_neg hne] at this

theorem Tables.selfMapped {s : Kernel} (ht : s.Tables) {d : Nat} (hd : s.IsDir d) : SelfMapped s.ram d := by
  obtain ⟨hp, hf⟩ := entry_eq_some.1 (ht.self hd)
  exact ⟨hp, hf⟩

/-! ## The entries of the current address space -/

section Entries
variable {s : Kernel}

theorem load_eq {v w : Nat} (h : s.ram.load s.cr3 v = some w) : s.load v = .ok w := by
  rw [load, h]

theorem pdeIdx_page {v : Nat} (hv : v < 2 ^ 32) : pdeIdx v = v / 4096 / 1024 := by
  unfold pdeIdx
  omega

theorem pteIdx_page (v : Nat) : pteIdx v = v / 4096 % 1024 := rfl

/-- Reading and writing the entry of a page whose page table is `t`. -/
theorem pte_access (hself : SelfMapped s.ram s.cr3) {v t : Nat} (hv : v < 2 ^ 32)
    (he : entry (s.ram s.cr3 (v / 4096 / 1024)) = some t) :
    s.load (getPDEPointer v) = .ok (s.ram s.cr3 (v / 4096 / 1024)) ∧
      s.load (getPTEPointer v) = .ok (s.ram t (v / 4096 % 1024)) ∧
      ∀ w, s.store (getPTEPointer v) w = .ok { s with ram := setWord s.ram t (v / 4096 % 1024) w } := by
  obtain ⟨hp, hf⟩ := entry_eq_some.1 he
  have hp' : present (s.ram s.cr3 (pdeIdx v)) = true := by rwa [pdeIdx_page hv]
  have hf' : frameOf (s.ram s.cr3 (pdeIdx v)) = t := by rwa [pdeIdx_page hv]
  refine ⟨?_, ?_, fun w => ?_⟩
  · rw [load_eq (load_pde hself v), pdeIdx_page hv]
  · rw [load_eq (load_pte hself hv hp'), hf', pteIdx_page]
  · rw [store, store_pte hself hv hp', hf', pteIdx_page]

theorem entry_kernel (ht : s.Tables) (hth : s.Threads) {vp : Nat} (hvp : 0xC0000 ≤ vp ∧ vp < 0xFFC00) :
    entry (s.ram s.cr3 (vp / 1024)) = some (kernelTable (vp / 1024)) :=
  ht.shared hth.isDir (by omega) (by omega)

theorem kmap_eq {vp : Nat} (hvp : 0xC0100 ≤ vp ∧ vp < 0xFFC00) :
    s.kmap vp = entry (s.ram (kernelTable (vp / 1024)) (vp % 1024)) := if_pos hvp

/-- The directory entry of a user page of the current process. -/
theorem entry_user (hth : s.Threads) (hp : s.IsProcess s.current) {vp : Nat}
    (hvp : userFirst ≤ vp ∧ vp < userEnd) : entry (s.ram s.cr3 (vp / 1024)) = s.tab s.current (vp / 1024) := by
  unfold userFirst userEnd at hvp
  rw [tab_eq (hth.dir_current hp) (by omega)]

end Entries

/-! ## Keeping the parts of the invariant -/

/-- The states differ in the bitmaps and the page tables only. -/
def SameRest (s s' : Kernel) : Prop :=
  s' = { s with low := s'.low, ram := s'.ram, userBits := s'.userBits }

theorem SameRest.refl (s : Kernel) : SameRest s s := rfl

theorem SameRest.trans {s s' s'' : Kernel} (h : SameRest s s') (h' : SameRest s' s'') : SameRest s s'' := by
  unfold SameRest at *
  rw [h'] at *
  rw [h]

section SameRest
variable {s s' : Kernel} (h : SameRest s s')
include h

theorem SameRest.pcb : s'.pcb = s.pcb := by rw [h]

theorem SameRest.current : s'.current = s.current := by rw [h]

theorem SameRest.cr3 : s'.cr3 = s.cr3 := by rw [h]

theorem SameRest.pool (pf : PoolFlags) : s'.pool pf = s.pool pf := by
  rw [h]
  rfl

theorem SameRest.space : s'.space = s.space := by
  rw [h]
  rfl

theorem SameRest.kmem : s'.kmem = s.kmem := by rw [h]

theorem SameRest.umem : s'.umem = s.umem := by rw [h]

theorem SameRest.descs : s'.kernelArenaDescs = s.kernelArenaDescs := by rw [h]

theorem SameRest.config {l : Layout} (hc : s.Config l) : s'.Config l where
  debug := by rw [h]; exact hc.debug
  bitmap pf := by rw [h.pool]; exact hc.bitmap pf
  start pf := by rw [h.pool]; exact hc.start pf
  size pf := by rw [h.pool]; exact hc.size pf
  kvaddr := by rw [h]; exact hc.kvaddr

theorem SameRest.isProcess {p : Nat} : s'.IsProcess p ↔ s.IsProcess p := by
  unfold IsProcess
  rw [h.pcb]

theorem SameRest.reach {l : Layout} {pg : Page} : s'.Reach l pg ↔ s.Reach l pg := by
  cases pg with
  | kernel vp => exact Iff.rfl
  | user p vp => simp only [Reach, h.isProcess]

theorem SameRest.window {l : Layout} {pg : Page} : s'.Window l pg ↔ s.Window l pg := by
  cases pg with
  | kernel vp => exact Iff.rfl
  | user p vp => simp only [Window, h.isProcess]

end SameRest

theorem Tables.of_dirs {s s' : Kernel} (ht : s.Tables) (hd : s'.dir = s.dir)
    (hw : ∀ {d}, s.IsDir d → ∀ {j}, j = 0 ∨ 768 ≤ j → s'.ram d j = s.ram d j)
    (hlow : s'.ram 0x101 0 = s.ram 0x101 0) : s'.Tables := by
  have hdir : ∀ {d}, s'.IsDir d → s.IsDir d := fun h => by
    unfold IsDir at *
    rwa [hd] at h
  exact ⟨fun h j h1 h2 => by rw [hw (hdir h) (.inr h1)]; exact ht.shared (hdir h) h1 h2,
    fun h => by rw [hw (hdir h) (.inr (by decide))]; exact ht.self (hdir h),
    fun h => by rw [hw (hdir h) (.inl rfl)]; exact ht.zero (hdir h), by rw [hlow]; exact ht.low⟩

/-- The kernel pages that hold PCBs and directories. -/
def SystemPage (s : Kernel) (vp : Nat) : Prop :=
  (∃ p t, s.pcb p = some t ∧ p ≠ Sched.mainPage ∧ p / 4096 = vp) ∨ ∃ p, s.pdPage p = some vp

theorem Threads.kmap_system {s : Kernel} (ht : s.Threads) {vp : Nat} (h : s.SystemPage vp) :
    s.kmap vp ≠ none := by
  rcases h with ⟨p, t, hp, hne, rfl⟩ | ⟨p, hp⟩
  · exact (ht.page hp).2.resolve_left hne
  · exact ht.pd hp

theorem Threads.of_maps {s s' : Kernel} (ht : s.Threads) (h : SameRest s s') (hd : s'.dir = s.dir)
    (hk : ∀ {vp}, s.SystemPage vp → s'.kmap vp ≠ none) : s'.Threads := by
  have hpd := pdPage_congr h.pcb
  refine ⟨?_, fun {t} hc => ?_, fun {p t} hp => ?_, fun {p v} hp => ?_, fun {p t} hp => ?_,
    fun {p q v} hp hq => ?_, fun {p t} hp => ?_⟩
  · rw [h.pcb, h.current]
    exact ht.cur
  · rw [h.pcb, h.current] at hc
    rw [h.cr3, hd, h.current]
    exact ht.cr3 hc
  · rw [h.pcb] at hp
    refine ⟨(ht.page hp).1, ?_⟩
    by_cases hm : p = Sched.mainPage
    · exact .inl hm
    · exact .inr (hk (.inl ⟨p, t, hp, hm, rfl⟩))
  · rw [hpd] at hp
    exact hk (.inr ⟨p, hp⟩)
  · rw [h.pcb] at hp
    exact ht.pdAligned hp
  · rw [hpd] at hp hq
    exact ht.inj hp hq
  · rw [h.pcb] at hp
    exact ht.vaddr hp

theorem SameRest.vbit {l : Layout} {s s' : Kernel} (h : SameRest s s') (hu : s'.userBits = s.userBits)
    (hlow : ∀ vp, bitAt s'.low (l.pageBit vp) = bitAt s.low (l.pageBit vp)) : s'.vbit l = s.vbit l := by
  funext pg
  cases pg with
  | kernel vp => exact hlow vp
  | user p vp => simp only [Kernel.vbit, h.pcb, hu]

end Kernel

end ElephantOS
