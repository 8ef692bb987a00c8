import ElephantOS.Kernel.Memory

/-!
# The memory layout (`VmemPoolInit` of `kernel/memory.c`)

* `vmemPoolInit` : the globals it assigns, in the 32-bit arithmetic of the source; `vmemPoolInit_layout` : they
  are those of `layout`;
* `Region` : a range of addresses;
* `SoundLayout` : the frame ranges, the three bitmaps and the kernel's window are where they should be;
* `layout_sound_iff` : on which machines this is so.
-/

namespace ElephantOS

/-- What `VmemPoolInit` assigns. -/
structure PoolLayout where
  kernelBitmapBytesLen : BitVec 32
  userBitmapBytesLen : BitVec 32
  kernelBits : BitVec 32
  userBits : BitVec 32
  kernelPhysicAddrStart : BitVec 32
  userPhysicAddrStart : BitVec 32
  kernelPoolSize : BitVec 32
  userPoolSize : BitVec 32
  vaddrBitmapBytesLen : BitVec 32
  vaddrBits : BitVec 32
  vaddrStart : BitVec 32

def vmemPoolInit (allMem : BitVec 32) : PoolLayout :=
  let pageTableSize : BitVec 32 := 4096 * 256
  let usedMem := pageTableSize + 0x100000
  let freeMem := allMem - usedMem
  let freePagesSum := freeMem / 4096
  let kernelFreePages := freePagesSum / 2
  let userFreePages := freePagesSum - kernelFreePages
  let kernelBitmapLength := kernelFreePages / 8
  let userBitmapLength := userFreePages / 8
  let kernelMemoryPoolStart := usedMem
  let userMemoryPoolStart := kernelMemoryPoolStart + kernelFreePages * 4096
  { kernelBitmapBytesLen := kernelBitmapLength
    userBitmapBytesLen := userBitmapLength
    kernelBits := 0xC009A000
    userBits := 0xC009A000 + kernelBitmapLength
    kernelPhysicAddrStart := kernelMemoryPoolStart
    userPhysicAddrStart := userMemoryPoolStart
    kernelPoolSize := kernelFreePages * 4096
    userPoolSize := userFreePages * 4096
    vaddrBitmapBytesLen := kernelBitmapLength
    vaddrBits := kernelBitmapLength + userBitmapLength + 0xC009A000
    vaddrStart := 0xC0100000 }

/-- The globals of a layout, computed without wrapping. -/
structure PoolLayout.Is (p : PoolLayout) (l : Layout) : Prop where
  kernelLen : p.kernelBitmapBytesLen.toNat = l.kernelPool.poolBitmap.bytesLen
  userLen : p.userBitmapBytesLen.toNat = l.userPool.poolBitmap.bytesLen
  kernelBits : p.kernelBits.toNat = l.kernelPool.poolBitmap.bits
  userBits : p.userBits.toNat = l.userPool.poolBitmap.bits
  kernelStart : p.kernelPhysicAddrStart.toNat = l.kernelPool.physicAddrStart
  userStart : p.userPhysicAddrStart.toNat = l.userPool.physicAddrStart
  kernelSize : p.kernelPoolSize.toNat = l.kernelPool.poolSize
  userSize : p.userPoolSize.toNat = l.userPool.poolSize
  vaddrLen : p.vaddrBitmapBytesLen.toNat = l.kernelVaddr.bitmapBytesLen
  vaddrBits : p.vaddrBits.toNat = l.kernelVaddr.bits
  vaddrStart : p.vaddrStart.toNat = l.kernelVaddr.vaddrStart

theorem layout_pages {allMem : Nat} (h : 0x200000 ≤ allMem) (hlt : allMem < 2 ^ 32) :
    (layout allMem).kernelFreePages = (allMem - 0x200000) / 4096 / 2 ∧
    (layout allMem).userFreePages = (allMem - 0x200000) / 4096 - (allMem - 0x200000) / 4096 / 2 := by
  have hfree : sub32 allMem usedMem = allMem - 0x200000 := by
    unfold sub32 usedMem
    omega
  unfold layout
  rw [hfree]
  exact ⟨rfl, rfl⟩

/-- No step of `VmemPoolInit` wraps around on a machine with at least 2MB. -/
theorem vmemPoolInit_layout {allMem : BitVec 32} (h : 0x200000 ≤ allMem.toNat) :
    (vmemPoolInit allMem).Is (layout allMem.toNat) := by
  have hlt := allMem.isLt
  obtain ⟨hkernel, huser⟩ := layout_pages h hlt
  generalize layout allMem.toNat = l at *
  -- the five numbers the fields are made of
  have hf : ((allMem - (4096 * 256 + 0x100000)) / 4096).toNat = (allMem.toNat - 0x200000) / 4096 := by
    rw [BitVec.toNat_udiv, BitVec.toNat_sub]
    show (2 ^ 32 - 0x200000 + allMem.toNat) % 2 ^ 32 / 4096 = _
    omega
  have hk : ((allMem - (4096 * 256 + 0x100000)) / 4096 / 2).toNat = l.kernelFreePages := by
    rw [BitVec.toNat_udiv, hf]
    exact hkernel.symm
  have hu : ((allMem - (4096 * 256 + 0x100000)) / 4096 - (allMem - (4096 * 256 + 0x100000)) / 4096 / 2).toNat =
      l.userFreePages := by
    rw [BitVec.toNat_sub, hf, hk]
    omega
  have hk8 : ((allMem - (4096 * 256 + 0x100000)) / 4096 / 2 / 8).toNat = l.kernelBitmapLength := by
    rw [BitVec.toNat_udiv, hk]
    rfl
  have hu8 : (((allMem - (4096 * 256 + 0x100000)) / 4096 -
      (allMem - (4096 * 256 + 0x100000)) / 4096 / 2) / 8).toNat = l.userBitmapLength := by
    rw [BitVec.toNat_udiv, hu]
    rfl
  have hkp : ((allMem - (4096 * 256 + 0x100000)) / 4096 / 2 * 4096).toNat = l.kernelFreePages * 4096 := by
    rw [BitVec.toNat_mul, hk]
    show l.kernelFreePages * 4096 % 2 ^ 32 = _
    omega
  have hkl : l.kernelBitmapLength ≤ l.kernelFreePages := Nat.div_le_self _ _
  have hul : l.userBitmapLength ≤ l.userFreePages := Nat.div_le_self _ _
  refine ⟨hk8, hu8, ?_, ?_, rfl, ?_, hkp, ?_, hk8, ?_, rfl⟩
  · show 0xC009A000 = memBitmapBase
    unfold memBitmapBase
    rfl
  · show (0xC009A000 + (allMem - (4096 * 256 + 0x100000)) / 4096 / 2 / 8).toNat = memBitmapBase + l.kernelBitmapLength
    rw [BitVec.toNat_add, hk8, memBitmapBase]
    show (0xC009A000 + l.kernelBitmapLength) % 2 ^ 32 = _
    omega
  · show (4096 * 256 + 0x100000 + (allMem - (4096 * 256 + 0x100000)) / 4096 / 2 * 4096).toNat =
      0x200000 + l.kernelFreePages * 4096
    rw [BitVec.toNat_add, hkp]
    show (0x200000 + l.kernelFreePages * 4096) % 2 ^ 32 = _
    omega
  · show (((allMem - (4096 * 256 + 0x100000)) / 4096 -
      (allMem - (4096 * 256 + 0x100000)) / 4096 / 2) * 4096).toNat = l.userFreePages * 4096
    rw [BitVec.toNat_mul, hu]
    show l.userFreePages * 4096 % 2 ^ 32 = _
    omega
  · show ((allMem - (4096 * 256 + 0x100000)) / 4096 / 2 / 8 + ((allMem - (4096 * 256 + 0x100000)) / 4096 -
      (allMem - (4096 * 256 + 0x100000)) / 4096 / 2) / 8 + 0xC009A000).toNat =
      l.kernelBitmapLength + l.userBitmapLength + memBitmapBase
    rw [BitVec.toNat_add, BitVec.toNat_add, hk8, hu8, memBitmapBase]
    show ((l.kernelBitmapLength + l.userBitmapLength) % 2 ^ 32 + 0xC009A000) % 2 ^ 32 = _
    omega

/-! ## Where things should be -/

structure Region where
  base : Nat
  bytes : Nat

def Region.Mem (r : Region) (a : Nat) : Prop := r.base ≤ a ∧ a < r.base + r.bytes

def Region.Disjoint (r r' : Region) : Prop := ∀ a, r.Mem a → ¬ r'.Mem a

def Region.Inside (r : Region) (lo hi : Nat) : Prop := ∀ a, r.Mem a → lo ≤ a ∧ a < hi

namespace PoolLayout

def kernelFrames (p : PoolLayout) : Region := ⟨p.kernelPhysicAddrStart.toNat, p.kernelPoolSize.toNat⟩

def userFrames (p : PoolLayout) : Region := ⟨p.userPhysicAddrStart.toNat, p.userPoolSize.toNat⟩

def kernelBitmap (p : PoolLayout) : Region := ⟨p.kernelBits.toNat, p.kernelBitmapBytesLen.toNat⟩

def userBitmap (p : PoolLayout) : Region := ⟨p.userBits.toNat, p.userBitmapBytesLen.toNat⟩

def vaddrBitmap (p : PoolLayout) : Region := ⟨p.vaddrBits.toNat, p.vaddrBitmapBytesLen.toNat⟩

/-- The pages the kernel's address bitmap stands for. -/
def vaddrWindow (p : PoolLayout) : Region := ⟨p.vaddrStart.toNat, 8 * p.vaddrBitmapBytesLen.toNat * 4096⟩

end PoolLayout

/-- The frame ranges are disjoint and inside free memory, and every bit of a pool's bitmap names a page of its
range; the bitmaps are disjoint and end below the main thread's PCB; the kernel's window starts at 0xC0100000
and ends below the window of the page tables. -/
structure SoundLayout (allMem : BitVec 32) (p : PoolLayout) : Prop where
  frames : p.kernelFrames.Disjoint p.userFrames ∧ p.kernelFrames.Inside 0x200000 allMem.toNat ∧
    p.userFrames.Inside 0x200000 allMem.toNat
  kernelBit : ∀ i < 8 * p.kernelBitmapBytesLen.toNat, ∀ j < 4096,
    p.kernelFrames.Mem (p.kernelPhysicAddrStart.toNat + i * 4096 + j)
  userBit : ∀ i < 8 * p.userBitmapBytesLen.toNat, ∀ j < 4096,
    p.userFrames.Mem (p.userPhysicAddrStart.toNat + i * 4096 + j)
  disjoint : p.kernelBitmap.Disjoint p.userBitmap ∧ p.kernelBitmap.Disjoint p.vaddrBitmap ∧
    p.userBitmap.Disjoint p.vaddrBitmap
  inside : p.kernelBitmap.Inside 0xC009A000 0xC009E000 ∧ p.userBitmap.Inside 0xC009A000 0xC009E000 ∧
    p.vaddrBitmap.Inside 0xC009A000 0xC009E000
  window : p.vaddrStart.toNat = 0xC0100000 ∧ p.vaddrWindow.Inside 0xC0100000 0xFFC00000

/-- The numbers of the layout: `k` and `u` pages in the two pools. -/
structure PoolLayout.Numbers (p : PoolLayout) (k u : Nat) : Prop where
  kernelLen : p.kernelBitmapBytesLen.toNat = k / 8
  userLen : p.userBitmapBytesLen.toNat = u / 8
  kernelBits : p.kernelBits.toNat = 0xC009A000
  userBits : p.userBits.toNat = 0xC009A000 + k / 8
  kernelStart : p.kernelPhysicAddrStart.toNat = 0x200000
  userStart : p.userPhysicAddrStart.toNat = 0x200000 + k * 4096
  kernelSize : p.kernelPoolSize.toNat = k * 4096
  userSize : p.userPoolSize.toNat = u * 4096
  vaddrLen : p.vaddrBitmapBytesLen.toNat = k / 8
  vaddrBits : p.vaddrBits.toNat = k / 8 + u / 8 + 0xC009A000
  vaddrStart : p.vaddrStart.toNat = 0xC0100000

theorem PoolLayout.Is.numbers {p : PoolLayout} {l : Layout} (h : p.Is l) :
    p.Numbers l.kernelFreePages l.userFreePages where
  kernelLen := h.kernelLen
  userLen := h.userLen
  kernelBits := h.kernelBits.trans (by show memBitmapBase = _; rw [memBitmapBase])
  userBits := h.userBits.trans (by show memBitmapBase + l.kernelBitmapLength = _; rw [memBitmapBase]; rfl)
  kernelStart := h.kernelStart
  userStart := h.userStart
  kernelSize := h.kernelSize
  userSize := h.userSize
  vaddrLen := h.vaddrLen
  vaddrBits := h.vaddrBits.trans (by
    show l.kernelBitmapLength + l.userBitmapLength + memBitmapBase = _
    rw [memBitmapBase]
    rfl)
  vaddrStart := h.vaddrStart

theorem PoolLayout.Numbers.frames {p : PoolLayout} {k u : Nat} (h : p.Numbers k u) {allMem : Nat}
    (hle : 0x200000 + (k + u) * 4096 ≤ allMem) :
    p.kernelFrames.Disjoint p.userFrames ∧ p.kernelFrames.Inside 0x200000 allMem ∧
      p.userFrames.Inside 0x200000 allMem := by
  unfold Region.Disjoint Region.Inside Region.Mem PoolLayout.kernelFrames PoolLayout.userFrames
  dsimp only
  rw [h.kernelStart, h.userStart, h.kernelSize, h.userSize]
  refine ⟨?_, ?_, ?_⟩
  all_goals
    intro a ha
    omega

theorem PoolLayout.Numbers.bitmaps {p : PoolLayout} {k u : Nat} (h : p.Numbers k u) :
    p.kernelBitmap.Disjoint p.userBitmap ∧ p.kernelBitmap.Disjoint p.vaddrBitmap ∧
      p.userBitmap.Disjoint p.vaddrBitmap := by
  unfold Region.Disjoint Region.Mem PoolLayout.kernelBitmap PoolLayout.userBitmap PoolLayout.vaddrBitmap
  dsimp only
  rw [h.kernelBits, h.userBits, h.vaddrBits, h.kernelLen, h.userLen, h.vaddrLen]
  refine ⟨?_, ?_, ?_⟩
  all_goals
    intro a ha
    omega

/-- The bitmaps together have to fit into four pages. -/
theorem PoolLayout.Numbers.inside_iff {p : PoolLayout} {k u : Nat} (h : p.Numbers k u) :
    (p.kernelBitmap.Inside 0xC009A000 0xC009E000 ∧ p.userBitmap.Inside 0xC009A000 0xC009E000 ∧
      p.vaddrBitmap.Inside 0xC009A000 0xC009E000) ↔ (k / 8 = 0 ∧ u / 8 ≤ 0x4000) ∨ 2 * (k / 8) + u / 8 ≤ 0x4000 := by
  unfold Region.Inside Region.Mem PoolLayout.kernelBitmap PoolLayout.userBitmap PoolLayout.vaddrBitmap
  dsimp only
  rw [h.kernelBits, h.userBits, h.vaddrBits, h.kernelLen, h.userLen, h.vaddrLen]
  constructor
  · intro ⟨_, huser, hvaddr⟩
    by_cases hk : k / 8 = 0
    · left
      refine ⟨hk, ?_⟩
      by_contra hgt
      have := huser (0xC009A000 + k / 8 + (u / 8 - 1)) (by omega)
      omega
    · right
      have := hvaddr (k / 8 + u / 8 + 0xC009A000 + (k / 8 - 1)) (by omega)
      omega
  · intro hfit
    refine ⟨?_, ?_, ?_⟩
    all_goals
      intro a ha
      omega

/-- **Which machines the layout is sound on.** With at least 2MB, everything is where it should be if and only
if there are fewer than 0x15760000 bytes (a little over 343MB); from there on the address bitmap of the kernel
reaches the main thread's PCB. -/
theorem layout_sound_iff {allMem : BitVec 32} (h : 0x200000 ≤ allMem.toNat) :
    SoundLayout allMem (vmemPoolInit allMem) ↔ allMem.toNat < 0x15760000 := by
  have hn := (vmemPoolInit_layout h).numbers
  obtain ⟨hkernel, huser⟩ := layout_pages h allMem.isLt
  generalize (layout allMem.toNat).kernelFreePages = k at *
  generalize (layout allMem.toNat).userFreePages = u at *
  constructor
  · intro hs
    have := hn.inside_iff.1 hs.inside
    omega
  · intro hlt
    refine ⟨hn.frames (by omega), ?_, ?_, hn.bitmaps, hn.inside_iff.2 (by omega), hn.vaddrStart, ?_⟩
    · intro i hi j hj
      rw [hn.kernelLen] at hi
      unfold Region.Mem PoolLayout.kernelFrames
      dsimp only
      rw [hn.kernelStart, hn.kernelSize]
      omega
    · intro i hi j hj
      rw [hn.userLen] at hi
      unfold Region.Mem PoolLayout.userFrames
      dsimp only
      rw [hn.userStart, hn.userSize]
      omega
    · unfold Region.Inside Region.Mem PoolLayout.vaddrWindow
      dsimp only
      rw [hn.vaddrStart, hn.vaddrLen]
      intro a ha
      omega

theorem layout_sound_64MB : SoundLayout 0x4000000 (vmemPoolInit 0x4000000) :=
  (layout_sound_iff (by decide)).2 (by decide)

/-- With 512MB the kernel's address bitmap covers the main thread's PCB. -/
theorem layout_unsound_512MB : (vmemPoolInit 0x20000000).vaddrBitmap.Mem 0xC009E000 ∧
    ¬ SoundLayout 0x20000000 (vmemPoolInit 0x20000000) := by
  have hmem : (vmemPoolInit 0x20000000).vaddrBitmap.Mem 0xC009E000 := by
    unfold Region.Mem
    decide
  refine ⟨hmem, ?_⟩
  intro hs
  have := (hs.inside.2.2 _ hmem).2
  omega

end ElephantOS
