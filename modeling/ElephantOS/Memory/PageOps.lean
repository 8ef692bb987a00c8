import Mathlib.Data.Finset.Card
import ElephantOS.Memory.PageInv

/-!
# One page at a time

* `Kernel.freeFrames` : the free frames of a pool;
* `getOnePhysicPage_sat` : the first clear bit of the pool is set, or the pool is full;
* `mapLeaf_kernel`, `mapLeaf_user`, `newTable_inv`, `unmapLeaf_kernel`, `unmapLeaf_user` : the changes of the page
  tables keep the invariant, each with the bit it goes with;
* `pageMapping_sat`, `pfreePage_ok` : `PageMapping` of a frame just taken, and one pass of `pfree`.
-/

namespace ElephantOS

theorem Layout.frameBit_eq (l : Layout) (pf : PoolFlags) (i : Nat) :
    Bitmap.bit (match pf with
      | .kernelPool => l.kernelPool.poolBitmap
      | .userPool => l.userPool.poolBitmap) i = l.frameBit pf i := by
  cases pf with
  | kernelPool => rfl
  | userPool =>
    simp only [Bitmap.bit, Layout.userPool, Layout.frameBit, Layout.kernelFrames]
    omega

theorem Layout.pageBit_eq (l : Layout) (vp : Nat) : l.kernelVaddr.bitmap.bit (vp - 0xC0100) = l.pageBit vp := by
  unfold Bitmap.bit VirtualAddr.bitmap Layout.kernelVaddr Layout.pageBit Layout.kernelFrames Layout.userFrames
  generalize vp - 0xC0100 = k
  dsimp only
  omega

theorem Layout.frameBit_lt_pageBit (l : Layout) {pf : PoolFlags} {i : Nat} (hi : i < l.frames pf) (vp : Nat) :
    l.frameBit pf i < l.pageBit vp := by
  unfold Layout.pageBit
  generalize vp - 0xC0100 = k
  cases pf with
  | kernelPool =>
    change i < l.kernelFrames at hi
    change 8 * memBitmapBase + i < _
    omega
  | userPool =>
    change i < l.userFrames at hi
    change 8 * memBitmapBase + l.kernelFrames + i < _
    omega

theorem Layout.frameBit_ne_pageBit (l : Layout) {pf : PoolFlags} {i : Nat} (hi : i < l.frames pf) (vp : Nat) :
    l.pageBit vp ≠ l.frameBit pf i := (l.frameBit_lt_pageBit hi vp).ne'

theorem usedMem_eq : usedMem = 0x200000 := rfl

theorem usedMem_le {allMem : Nat} (h : 0x200000 ≤ allMem) : usedMem ≤ allMem := by
  rw [usedMem_eq]
  exact h

theorem Layout.Sized.frame_lt {l : Layout} (hl : l.Sized) {pf : PoolFlags} {i : Nat} (hi : i < l.frames pf) :
    (l.start pf + i) * 4096 < 2 ^ 32 := by
  have hle := l.frames_le
  have hlt := hl.lt
  rw [usedMem_eq] at hlt
  cases pf with
  | kernelPool =>
    change i < l.kernelFrames at hi
    change (0x200 + i) * 4096 < 2 ^ 32
    omega
  | userPool =>
    change i < l.userFrames at hi
    change (0x200 + l.kernelFreePages + i) * 4096 < 2 ^ 32
    omega

theorem Layout.start_ge (l : Layout) (pf : PoolFlags) : 0x200 ≤ l.start pf := by
  cases pf with
  | kernelPool => exact Nat.le_refl _
  | userPool => exact Nat.le_add_right _ _

theorem Layout.frames_lt_userEnd (l : Layout) (pf : PoolFlags) :
    l.start pf + l.frames pf ≤ l.userStart + l.userFrames := by
  have hle := l.frames_le
  cases pf with
  | kernelPool =>
    change 0x200 + l.kernelFrames ≤ 0x200 + l.kernelFreePages + l.userFrames
    omega
  | userPool => exact Nat.le_refl _

namespace Kernel
variable {l : Layout} {s s' : Kernel} {pend : Page → Prop} {pf : PoolFlags} {i : Nat}

theorem Config.bit (hc : s.Config l) (pf : PoolFlags) (i : Nat) :
    (s.pool pf).poolBitmap.bit i = l.frameBit pf i := by
  rw [hc.bitmap]
  exact l.frameBit_eq pf i

theorem Config.bytesLen (hc : s.Config l) (pf : PoolFlags) : 8 * (s.pool pf).poolBitmap.bytesLen = l.frames pf := by
  rw [hc.bitmap]
  cases pf <;> rfl

@[simp] theorem assert_true (s : Kernel) (e : Panic) : s.assert true e = .ok () := rfl

/-- `BitmapScan` with `ASSERT` active. -/
theorem scan_eq (hc : s.Config l) (m : Bytes) (btmp : Bitmap) (cnt : Nat) :
    s.scan m btmp cnt = match bitmapScan true m btmp cnt with
      | some r => .ok r
      | none => .error .bitmapFull := by
  unfold scan
  cases h : bitmapScan true m btmp cnt with
  | none => rw [hc.debug, h]
  | some r => rw [hc.debug, h]

def PoolFull (l : Layout) (s : Kernel) (pf : PoolFlags) : Prop := ∀ i < l.frames pf, bitAt s.low (l.frameBit pf i) = true

def freeFrames (k : Kernel) (pf : PoolFlags) : Nat :=
  ((Finset.range (8 * (k.pool pf).poolBitmap.bytesLen)).filter fun i =>
    bitmapTestBit k.low (k.pool pf).poolBitmap i = false).card

theorem Config.freeFrames (hc : s.Config l) (pf : PoolFlags) : s.freeFrames pf =
    ((Finset.range (l.frames pf)).filter fun i => bitAt s.low (l.frameBit pf i) = false).card := by
  unfold Kernel.freeFrames
  rw [hc.bytesLen]
  congr 1
  apply Finset.filter_congr
  intro i _
  rw [bitmapTestBit_eq, hc.bit]

theorem Config.freeFrames_pos (hc : s.Config l) {pf : PoolFlags} :
    0 < s.freeFrames pf ↔ ∃ i < l.frames pf, bitAt s.low (l.frameBit pf i) = false := by
  rw [hc.freeFrames, Finset.card_pos]
  constructor
  · rintro ⟨i, hi⟩
    obtain ⟨hlt, hfree⟩ := Finset.mem_filter.1 hi
    exact ⟨i, Finset.mem_range.1 hlt, hfree⟩
  · rintro ⟨i, hlt, hfree⟩
    exact ⟨i, Finset.mem_filter.2 ⟨Finset.mem_range.2 hlt, hfree⟩⟩

theorem Config.freeFrames_zero (hc : s.Config l) {pf : PoolFlags} : s.freeFrames pf = 0 ↔ PoolFull l s pf := by
  constructor
  · intro h i hi
    by_contra hb
    have := hc.freeFrames_pos.2 ⟨i, hi, Bool.eq_false_of_not_eq_true hb⟩
    omega
  · intro h
    by_contra hne
    obtain ⟨i, hi, hb⟩ := hc.freeFrames_pos.1 (Nat.pos_of_ne_zero hne)
    rw [h i hi] at hb
    cases hb

theorem freeFrames_take (hc : s.Config l) (hc' : s'.Config l) {pf : PoolFlags} {i : Nat} (hi : i < l.frames pf)
    (hfree : bitAt s.low (l.frameBit pf i) = false)
    (h : ∀ j < l.frames pf, bitAt s'.low (l.frameBit pf j) = if j = i then true else bitAt s.low (l.frameBit pf j)) :
    s'.freeFrames pf + 1 = s.freeFrames pf := by
  have hmem : i ∈ (Finset.range (l.frames pf)).filter fun j => bitAt s.low (l.frameBit pf j) = false :=
    Finset.mem_filter.2 ⟨Finset.mem_range.2 hi, hfree⟩
  have herase : ((Finset.range (l.frames pf)).filter fun j => bitAt s'.low (l.frameBit pf j) = false) =
      ((Finset.range (l.frames pf)).filter fun j => bitAt s.low (l.frameBit pf j) = false).erase i := by
    ext j
    rw [Finset.mem_erase, Finset.mem_filter, Finset.mem_filter, Finset.mem_range]
    constructor
    · rintro ⟨hlt, hb⟩
      rw [h j hlt] at hb
      split at hb
      · cases hb
      · rename_i hne
        exact ⟨hne, hlt, hb⟩
    · rintro ⟨hne, hlt, hb⟩
      refine ⟨hlt, ?_⟩
      rw [h j hlt, if_neg hne, hb]
  rw [hc.freeFrames, hc'.freeFrames, herase]
  exact Finset.card_erase_add_one hmem

theorem freeFrames_congr (hc : s.Config l) (hc' : s'.Config l) {pf : PoolFlags}
    (h : ∀ i < l.frames pf, bitAt s'.low (l.frameBit pf i) = bitAt s.low (l.frameBit pf i)) :
    s'.freeFrames pf = s.freeFrames pf := by
  rw [hc.freeFrames, hc'.freeFrames]
  congr 1
  apply Finset.filter_congr
  intro i hi
  rw [h i (Finset.mem_range.1 hi)]

/-- `GetOnePhysicPage` returns a frame whose bit was clear, and sets the bit. -/
theorem getOnePhysicPage_sat (hl : l.Sized) (hc : s.Config l) (pf : PoolFlags) :
    Except.Sat (s.getOnePhysicPage pf) (fun r => ∃ i < l.frames pf, bitAt s.low (l.frameBit pf i) = false ∧
      r = ((l.start pf + i) * 4096, { s with low := bitmapSetBit s.low (s.pool pf).poolBitmap i true }))
      (fun e => e = .bitmapFull ∧ PoolFull l s pf) := by
  unfold getOnePhysicPage
  dsimp only
  rw [scan_eq hc]
  cases hscan : bitmapScan true s.low (s.pool pf).poolBitmap 1 with
  | none =>
    refine ⟨rfl, ?_⟩
    intro i hi
    rw [← hc.bit]
    exact bitmapScan_none.1 hscan i (by rw [hc.bytesLen]; exact hi)
  | some x =>
    obtain ⟨i, rfl⟩ := bitmapScan_one hscan
    obtain ⟨hclear, -, hlt, -⟩ := bitmapScan_some (Nat.le_refl 1) hscan
    have hi : i < l.frames pf := by
      rw [← hc.bytesLen pf]
      exact hlt rfl
    refine ⟨i, hi, ?_, ?_⟩
    · rw [← hc.bit pf]
      exact hclear 0 (by decide)
    · have haddr : i * 4096 + (s.pool pf).physicAddrStart = (l.start pf + i) * 4096 := by
        rw [hc.start]
        ring
      simp only [haddr, Nat.mod_eq_of_lt (hl.frame_lt hi)]

theorem bitAt_taken (hc : s.Config l) (pf : PoolFlags) (i n : Nat) :
    bitAt (bitmapSetBit s.low (s.pool pf).poolBitmap i true) n =
      if n = l.frameBit pf i then true else bitAt s.low n := by
  rw [bitAt_setBit, hc.bit]

/-! ## Changes of the page tables -/

/-- The bit of frame `i` of pool `pf` has been set, and no other bit of `low` has changed. -/
def TookBit (l : Layout) (s s' : Kernel) (pf : PoolFlags) (i : Nat) : Prop :=
  ∀ n, bitAt s'.low n = if n = l.frameBit pf i then true else bitAt s.low n

theorem TookBit.pageBit (h : TookBit l s s' pf i) (hi : i < l.frames pf) (vp : Nat) :
    bitAt s'.low (l.pageBit vp) = bitAt s.low (l.pageBit vp) := by
  rw [h, if_neg (l.frameBit_ne_pageBit hi vp)]

theorem frameBit_inj {pf : PoolFlags} {i j : Nat} : l.frameBit pf i = l.frameBit pf j ↔ i = j := by
  cases pf <;> simp only [Layout.frameBit] <;> omega

theorem frameBit_kernel_ne_user {i j : Nat} (hi : i < l.kernelFrames) :
    l.frameBit .kernelPool i ≠ l.frameBit .userPool j := by
  simp only [Layout.frameBit]
  omega

theorem TookBit.marks (h : TookBit l s s' pf i) (j : Nat) :
    bitAt s'.low (l.frameBit pf j) = true ↔ j = i ∨ bitAt s.low (l.frameBit pf j) = true := by
  rw [h]
  by_cases hj : j = i
  · simp [hj]
  · rw [if_neg (fun he => hj (frameBit_inj.1 he))]
    simp [hj]

theorem TookBit.kernel_of_user (h : TookBit l s s' .userPool i) {j : Nat} (hj : j < l.kernelFrames) :
    bitAt s'.low (l.frameBit .kernelPool j) = bitAt s.low (l.frameBit .kernelPool j) := by
  rw [h, if_neg (frameBit_kernel_ne_user hj)]

theorem TookBit.user_of_kernel (h : TookBit l s s' .kernelPool i) (hi : i < l.kernelFrames) (j : Nat) :
    bitAt s'.low (l.frameBit .userPool j) = bitAt s.low (l.frameBit .userPool j) := by
  rw [h, if_neg (fun he => frameBit_kernel_ne_user hi he.symm)]

structure MapStep (l : Layout) (s s' : Kernel) (pg : Page) (f : Nat) : Prop where
  rest : SameRest s s'
  bits : s'.userBits = s.userBits
  vbit : s'.vbit l = s.vbit l
  map : ∀ pg', s'.map pg' = if pg' = pg then some f else s.map pg'
  dir : s'.dir = s.dir
  tab : ∀ {p j t}, s.tab p j = some t → s'.tab p j = some t
  ktab : ∀ {vp}, pg = .kernel vp → s'.tab = s.tab

/-- The entry of one page changes, and what is pending with it. -/
theorem Virt.setMap (hv : s.Virt l pend) (hrest : SameRest s s') (hvbit : s'.vbit l = s.vbit l) {pg : Page}
    {f : Option Nat} (hmap : ∀ pg', s'.map pg' = if pg' = pg then f else s.map pg')
    (hmapped : f ≠ none → s.Reach l pg ∧ s.vbit l pg = true) {pend' : Page → Prop} (hself : f ≠ none ∨ pend' pg)
    (hother : ∀ pg' ≠ pg, pend pg' → pend' pg') : s'.Virt l pend' := by
  refine ⟨fun {pg'} hpg => ?_, fun {pg'} hw hb => ?_⟩
  · rw [hvbit, hrest.reach]
    rw [hmap] at hpg
    by_cases he : pg' = pg
    · rw [if_pos he] at hpg
      exact he ▸ hmapped hpg
    · rw [if_neg he] at hpg
      exact hv.mapped hpg
  · rw [hrest.window] at hw
    rw [hvbit] at hb
    rw [hmap]
    by_cases he : pg' = pg
    · rw [if_pos he]
      exact he ▸ hself
    · rw [if_neg he]
      exact (hv.set hw hb).imp_right (hother pg' he)

/-- Mapping one page keeps the address bitmaps in step, when the bit of the page is set. -/
theorem Virt.mapStep (hv : s.Virt l pend) {pg : Page} {f : Nat} (hm : MapStep l s s' pg f)
    (hr : s.Reach l pg) (hbit : s.vbit l pg = true) : s'.Virt l (fun pg' => pend pg' ∧ pg' ≠ pg) := by
  apply hv.setMap hm.rest hm.vbit hm.map
  · exact fun _ => ⟨hr, hbit⟩
  · exact .inl (by simp)
  · exact fun pg' hne h => ⟨h, hne⟩

/-- A word of a kernel page table is in no page directory, and not the first word of the first table. -/
theorem PageInv.tables_setLeaf (hi : PageInv l pend s) {vp w : Nat} (hvp : 0xC0100 ≤ vp ∧ vp < 0xFFC00)
    (hd : s'.dir = s.dir) (hram : s'.ram = setWord s.ram (kernelTable (vp / 1024)) (vp % 1024) w) : s'.Tables := by
  have hne : kernelTable (vp / 1024) ≠ 0x100 := by
    unfold kernelTable
    omega
  refine hi.tables.of_dirs hd (fun {d} hdir j _ => ?_) ?_
  · rcases hdir with rfl | ⟨p, hp⟩
    · rw [hram, setWord_frame hne.symm]
    · have hge := hi.sep.dir_ge hp
      have := kernelTable_lt hvp
      rw [hram, setWord_frame (by omega)]
  · rw [hram]
    by_cases h0 : vp % 1024 = 0
    · rw [setWord_frame]
      unfold kernelTable
      omega
    · rw [setWord_word (fun h => h0 h.symm)]

theorem PageInv.tables_setUserLeaf (hi : PageInv l pend s) {p j t k w : Nat} (ht : s.tab p j = some t)
    (hd : s'.dir = s.dir) (hram : s'.ram = setWord s.ram t k w) : s'.Tables := by
  have hge := hi.sep.tab_ge ht
  refine hi.tables.of_dirs hd (fun {d} hdir j _ => ?_) (by rw [hram, setWord_frame (by omega)])
  rcases hdir with rfl | ⟨q, hq⟩
  · rw [hram, setWord_frame (by omega)]
  · rw [hram, setWord_frame (hi.sep.dir_tab hq ht)]

theorem kown_setLeaf {vp : Nat} {f : Option Nat} (hk : ∀ v, s'.kmap v = if v = vp then f else s.kmap v)
    (ht : s'.tab = s.tab) {o : KOwner} (ho : o ≠ .leaf vp) : s'.kown o = s.kown o := by
  cases o with
  | leaf v =>
    have hv : v ≠ vp := fun h => ho (by rw [h])
    simp [kown, hk, hv]
  | tab p j => simp [kown, ht]

theorem kown_congr (hk : s'.kmap = s.kmap) (ht : s'.tab = s.tab) (o : KOwner) : s'.kown o = s.kown o := by
  cases o with
  | leaf v => simp [kown, hk]
  | tab p j => simp [kown, ht]

theorem mapLeaf_kernel (hi : PageInv l pend s) {vp i : Nat} (hvp : 0xC0100 ≤ vp ∧ vp < 0xFFC00)
    (hnone : s.kmap vp = none) (hlt : i < l.kernelFrames)
    (hfree : bitAt s.low (l.frameBit .kernelPool i) = false) (hrest : SameRest s s')
    (hbits : s'.userBits = s.userBits) (htook : TookBit l s s' .kernelPool i)
    (hram : s'.ram = setWord s.ram (kernelTable (vp / 1024)) (vp % 1024) ((0x200 + i) * 4096 + 7))
    (hr : s.Reach l (.kernel vp)) (hbit : s.vbit l (.kernel vp) = true) :
    PageInv l (fun pg => pend pg ∧ pg ≠ .kernel vp) s' ∧ MapStep l s s' (.kernel vp) (0x200 + i) := by
  have hpd : ∀ p, s.pdPage p ≠ some vp := fun p hp => hi.threads.pd hp hnone
  obtain ⟨hk, hd, ht, hu⟩ := maps_setLeaf hi.sep hrest.pcb hvp hpd hram
  rw [entry_flags (0x200 + i) 7 (by decide) (by decide)] at hk
  have hstep : MapStep l s s' (.kernel vp) (0x200 + i) := by
    refine ⟨hrest, hbits, hrest.vbit hbits (htook.pageBit hlt), fun pg => ?_, hd, fun {p j t} h => by rw [ht]; exact h, fun _ => ht⟩
    cases pg with
    | kernel v =>
      simp only [map, hk, Page.kernel.injEq]
    | user p v => simp [map, hu]
  refine ⟨⟨hrest.config hi.config, ?_, ?_, ⟨?_, ?_, fun h8 => ?_⟩, ?_⟩, hstep⟩
  · exact hi.tables_setLeaf hvp hd hram
  · refine hi.threads.of_maps hrest hd fun {v} hsys => ?_
    rw [hk]
    by_cases hv : v = vp
    · simp [hv]
    · rw [if_neg hv]
      exact hi.threads.kmap_system hsys
  · refine hi.frames.kernel.assign hlt (by simp [hfree]) (o := .leaf vp) ?_ (fun o' ho' => ?_) hnone
      fun j _ => htook.marks j
    · simp [kown, hk]
    · exact kown_setLeaf hk ht ho'
  · intro p v f h
    rw [hu] at h
    exact hi.frames.urange h
  · refine (hi.frames.user h8).congr (fun o => by simp [uown, hu]) fun j hj => ?_
    rw [htook.user_of_kernel hlt]
  · exact hi.virt.mapStep hstep hr hbit

theorem mapLeaf_user (hi : PageInv l pend s) {p vp t i : Nat} (ht : s.tab p (vp / 1024) = some t)
    (hnone : s.umap p vp = none) (hlt : i < l.userFrames)
    (hfree : bitAt s.low (l.frameBit .userPool i) = false) (hrest : SameRest s s')
    (hbits : s'.userBits = s.userBits) (htook : TookBit l s s' .userPool i)
    (hram : s'.ram = setWord s.ram t (vp % 1024) ((l.userStart + i) * 4096 + 7))
    (hr : s.Reach l (.user p vp)) (hbit : s.vbit l (.user p vp) = true) :
    PageInv l (fun pg => pend pg ∧ pg ≠ .user p vp) s' ∧ MapStep l s s' (.user p vp) (l.userStart + i) := by
  obtain ⟨hk, hd, htab, hu⟩ := maps_setUserLeaf hi.sep hrest.pcb ht hram
  rw [entry_flags (l.userStart + i) 7 (by decide) (by decide)] at hu
  have hstep : MapStep l s s' (.user p vp) (l.userStart + i) := by
    refine ⟨hrest, hbits, hrest.vbit hbits (htook.pageBit hlt), fun pg => ?_, hd, fun {p j t} h => by rw [htab]; exact h, fun h => by cases h⟩
    cases pg with
    | kernel v => simp [map, hk]
    | user q v => simp only [map, hu, Page.user.injEq]
  refine ⟨⟨hrest.config hi.config, ?_, ?_, ⟨?_, ?_, fun h8 => ?_⟩, ?_⟩, hstep⟩
  · exact hi.tables_setUserLeaf ht hd hram
  · exact hi.threads.of_maps hrest hd fun hsys => by rw [hk]; exact hi.threads.kmap_system hsys
  · exact hi.frames.kernel.congr (kown_congr hk htab) fun j hj => by rw [htook.kernel_of_user hj]
  · intro q v f h
    rw [hu] at h
    by_cases hqv : q = p ∧ v = vp
    · rw [if_pos hqv, Option.some.injEq] at h
      omega
    · rw [if_neg hqv] at h
      exact hi.frames.urange h
  · refine (hi.frames.user h8).assign hlt (by simp [hfree]) (o := (p, vp)) (by simp [uown, hu])
      (fun o' ho' => ?_) hnone fun j _ => htook.marks j
    have hne : ¬ (o'.1 = p ∧ o'.2 = vp) := fun h => ho' (Prod.ext h.1 h.2)
    simp [uown, hu, hne]
  · exact hi.virt.mapStep hstep hr hbit

structure TableStep (s s' : Kernel) (p j t : Nat) : Prop where
  rest : SameRest s s'
  bits : s'.userBits = s.userBits
  map : s'.map = s.map
  dir : s'.dir = s.dir
  tab : ∀ q k, s'.tab q k = if q = p ∧ k = j then some t else s.tab q k

theorem newTable_inv (hi : PageInv l pend s) {p d j i w : Nat} (hd : s.dir p = some d) (hj : 32 ≤ j ∧ j < 768)
    (hnone : s.tab p j = none) (hlt : i < l.kernelFrames)
    (hfree : bitAt s.low (l.frameBit .kernelPool i) = false) (hrest : SameRest s s')
    (hbits : s'.userBits = s.userBits) (htook : TookBit l s s' .kernelPool i) (hw : entry w = some (0x200 + i))
    (hram : s'.ram = clearFrame (setWord s.ram d j w) (0x200 + i)) :
    PageInv l pend s' ∧ TableStep s s' p j (0x200 + i) := by
  have hsep := hi.sep
  have hunused : ∀ o, s.kown o ≠ some (0x200 + i) := fun o ho => by
    have := (hi.frames.kernel.used_iff i hlt).2 ⟨o, ho⟩
    rw [hfree] at this
    cases this
  have hdt : ∀ q e, s.dir q = some e → e ≠ 0x200 + i := fun q e hq he => by
    obtain ⟨v, -, hv⟩ := dir_some hq
    exact hunused (.leaf v) (he ▸ hv)
  have htt : ∀ q k u, s.tab q k = some u → u ≠ 0x200 + i := fun q k u hq hu => hunused (.tab q k) (hu ▸ hq)
  obtain ⟨hk, hdir, htab, hu⟩ := maps_newTable hsep hrest.pcb hd hj hnone (by omega) hdt htt hw hram
  have hge := hsep.dir_ge hd
  have hmap : s'.map = s.map := by
    funext pg
    cases pg with
    | kernel v => simp only [map, hk]
    | user q v => simp only [map, hu]
  have hvb := hrest.vbit (l := l) hbits (htook.pageBit hlt)
  refine ⟨⟨hrest.config hi.config, ?_, ?_, ⟨?_, ?_, fun h8 => ?_⟩, ?_⟩, ⟨hrest, hbits, hmap, hdir, htab⟩⟩
  · refine hi.tables.of_dirs hdir (fun {e} he k hk' => ?_) ?_
    · have hne : e ≠ 0x200 + i := by
        rcases he with rfl | ⟨q, hq⟩
        · omega
        · exact hdt q e hq
      rw [hram, clearFrame_frame hne, setWord_word (by omega)]
    · rw [hram, clearFrame_frame (by omega), setWord_word (by omega)]
  · exact hi.threads.of_maps hrest hdir fun hsys => by rw [hk]; exact hi.threads.kmap_system hsys
  · refine hi.frames.kernel.assign hlt (by simp [hfree]) (o := .tab p j) (by simp [kown, htab])
      (fun o' ho' => ?_) hnone fun k _ => htook.marks k
    cases o' with
    | leaf v => simp [kown, hk]
    | tab q k =>
      have hne : ¬ (q = p ∧ k = j) := fun h => ho' (by rw [h.1, h.2])
      simp [kown, htab, hne]
  · intro q v f h
    rw [hu] at h
    exact hi.frames.urange h
  · refine (hi.frames.user h8).congr (fun o => by simp [uown, hu]) fun k _ => ?_
    rw [htook.user_of_kernel hlt]
  · refine ⟨fun {pg} h => ?_, fun {pg} hw hb => ?_⟩
    · rw [hmap] at h
      rw [hvb, hrest.reach]
      exact hi.virt.mapped h
    · rw [hrest.window] at hw
      rw [hvb] at hb
      rw [hmap]
      exact hi.virt.set hw hb

/-! ## `PageMapping` -/

/-- The page `vp` in the address space a pool flag stands for. -/
def pageOf (s : Kernel) (pf : PoolFlags) (vp : Nat) : Page :=
  match pf with
  | .kernelPool => .kernel vp
  | .userPool => .user s.current vp

theorem PageInv.tables_low (hi : PageInv l pend s) (low : Bytes) :
    Tables { s with low := low } ∧ Threads { s with low := low } :=
  ⟨hi.tables.of_dirs rfl (fun _ _ _ => rfl) rfl,
    hi.threads.of_maps rfl rfl fun hsys => hi.threads.kmap_system hsys⟩

/-- With the page table there, `PageMapping` writes the entry of a page that is not present. -/
theorem pageMapping_present (hself : SelfMapped s.ram s.cr3) {v t pa : Nat} (hv : v < 2 ^ 32)
    (he : entry (s.ram s.cr3 (v / 4096 / 1024)) = some t) :
    s.pageMapping v pa =
      if entry (s.ram t (v / 4096 % 1024)) = none then
        .ok { s with ram := setWord s.ram t (v / 4096 % 1024) (pa ||| 1 ||| 4 ||| 2) }
      else .error (.vpageMapped v) := by
  obtain ⟨hpde, hpte, hstore⟩ := pte_access hself hv he
  have hp := (entry_eq_some.1 he).1
  rw [pageMapping, hpde, Except.ok_bind, if_pos hp, hpte, Except.ok_bind]
  by_cases hnone : entry (s.ram t (v / 4096 % 1024)) = none
  · rw [if_pos hnone]
    rw [entry_eq_none] at hnone
    simp [hnone, assert, hstore]
  · rw [if_neg hnone]
    have hpres : present (s.ram t (v / 4096 % 1024)) = true := by
      rw [entry_eq_none] at hnone
      simpa using hnone
    -- without `ASSERT` the test that follows it panics
    cases hdebug : s.debug <;> simp [hpres, assert, hdebug]

/-- Without one, it takes a frame for it first. -/
theorem pageMapping_absent (hl : l.Sized) (hc : s.Config l) (ht : s.Tables) (hth : s.Threads) {v pa : Nat}
    (hv : v < 2 ^ 32) (hj : v / 4096 / 1024 < 768)
    (hown : ∀ i < l.kernelFrames, bitAt s.low (l.frameBit .kernelPool i) = false → s.cr3 ≠ 0x200 + i)
    (he : entry (s.ram s.cr3 (v / 4096 / 1024)) = none) :
    Except.Sat (s.pageMapping v pa) (fun s' => ∃ i < l.kernelFrames,
      bitAt s.low (l.frameBit .kernelPool i) = false ∧
      s' = { s with
        low := bitmapSetBit s.low (s.pool .kernelPool).poolBitmap i true
        ram := setWord (clearFrame (setWord s.ram s.cr3 (v / 4096 / 1024) ((0x200 + i) * 4096 + 7)) (0x200 + i))
          (0x200 + i) (v / 4096 % 1024) (pa ||| 1 ||| 4 ||| 2) })
      (fun e => e = .bitmapFull ∧ PoolFull l s .kernelPool) := by
  have hself := ht.selfMapped hth.isDir
  have hpde : pdeIdx v = v / 4096 / 1024 := pdeIdx_page hv
  have hp : present (s.ram s.cr3 (v / 4096 / 1024)) = false := entry_eq_none.1 he
  rw [pageMapping, load_eq (load_pde hself v), hpde, Except.ok_bind, if_neg (by simp [hp])]
  refine (getOnePhysicPage_sat hl hc .kernelPool).bind ?_
  rintro ⟨pt, s1⟩ ⟨i, hi, hfree, heq⟩
  simp only [Prod.mk.injEq] at heq
  obtain ⟨rfl, rfl⟩ := heq
  have hne : s.cr3 ≠ 0x200 + i := hown i hi hfree
  let ram1 := setWord s.ram s.cr3 (v / 4096 / 1024) ((0x200 + i) * 4096 + 7)
  have hent : entry (ram1 s.cr3 (pdeIdx v)) = some (0x200 + i) := by
    rw [hpde]
    simp only [ram1, setWord_same]
    exact entry_flags _ 7 (by decide) (by decide)
  obtain ⟨hp1, hf1⟩ := entry_eq_some.1 hent
  have hself1 : SelfMapped ram1 s.cr3 := by
    have h1023 : ram1 s.cr3 1023 = s.ram s.cr3 1023 := setWord_word (by omega) _
    exact ⟨by rw [h1023]; exact hself.present, by rw [h1023]; exact hself.frame⟩
  have hdirw : ∀ j, clearFrame ram1 (0x200 + i) s.cr3 j = ram1 s.cr3 j := fun j => clearFrame_frame hne j
  have hself2 : SelfMapped (clearFrame ram1 (0x200 + i)) s.cr3 :=
    ⟨by rw [hdirw]; exact hself1.present, by rw [hdirw]; exact hself1.frame⟩
  have hstore1 : store { s with low := bitmapSetBit s.low (s.pool .kernelPool).poolBitmap i true }
      (getPDEPointer v) ((l.start .kernelPool + i) * 4096 ||| 1 ||| 4 ||| 2) =
      .ok { s with low := bitmapSetBit s.low (s.pool .kernelPool).poolBitmap i true, ram := ram1 } := by
    rw [or_flags, store, store_pde hself, hpde]
    rfl
  have hclear : clearPage { s with low := bitmapSetBit s.low (s.pool .kernelPool).poolBitmap i true, ram := ram1 }
      (getPTEPointer v / 4096 * 4096) =
      .ok { s with low := bitmapSetBit s.low (s.pool .kernelPool).poolBitmap i true
                   ram := clearFrame ram1 (0x200 + i) } := by
    rw [clearPage, clearPage_pte hself1 hv hp1, hf1]
  have hstore2 : ∀ w, store { s with low := bitmapSetBit s.low (s.pool .kernelPool).poolBitmap i true
                                     ram := clearFrame ram1 (0x200 + i) } (getPTEPointer v) w =
      .ok { s with low := bitmapSetBit s.low (s.pool .kernelPool).poolBitmap i true
                   ram := setWord (clearFrame ram1 (0x200 + i)) (0x200 + i) (v / 4096 % 1024) w } := by
    intro w
    rw [store, store_pte hself2 hv (by rw [hdirw]; exact hp1), hdirw, hf1]
    rfl
  dsimp only
  rw [hstore1, Except.ok_bind, hclear, Except.ok_bind, hstore2]
  exact ⟨i, hi, hfree, rfl⟩

/-- What `PageMapping` does with a page in reach, for a frame just taken. -/
theorem pageMapping_sat (hl : l.Sized) (hi : PageInv l pend s) {v i : Nat} (hv : v < 2 ^ 32)
    (hr : s.Reach l (s.pageOf pf (v / 4096))) (hbit : s.vbit l (s.pageOf pf (v / 4096)) = true)
    (hlt : i < l.frames pf) (hfree : bitAt s.low (l.frameBit pf i) = false) :
    Except.Sat
      (pageMapping { s with low := bitmapSetBit s.low (s.pool pf).poolBitmap i true } v ((l.start pf + i) * 4096))
      (fun s' => s.map (s.pageOf pf (v / 4096)) = none ∧
        PageInv l (fun pg => pend pg ∧ pg ≠ s.pageOf pf (v / 4096)) s' ∧
        MapStep l s s' (s.pageOf pf (v / 4096)) (l.start pf + i))
      (fun e => e = .bitmapFull ∨ e = .vpageMapped v ∧ s.map (s.pageOf pf (v / 4096)) ≠ none) := by
  obtain ⟨ht, hth⟩ := hi.tables_low (bitmapSetBit s.low (s.pool pf).poolBitmap i true)
  have htook := bitAt_taken hi.config pf i
  cases pf with
  | kernelPool =>
    change 0xC0100 ≤ v / 4096 ∧ _ ∧ v / 4096 < 0xFFC00 at hr
    have hvp : 0xC0100 ≤ v / 4096 ∧ v / 4096 < 0xFFC00 := ⟨hr.1, hr.2.2⟩
    rw [pageMapping_present (ht.selfMapped hth.isDir) hv (entry_kernel ht hth ⟨by omega, hvp.2⟩), or_flags]
    change Except.Sat (if entry (s.ram _ _) = none then _ else _) _ _
    rw [← kmap_eq hvp]
    by_cases hk : s.kmap (v / 4096) = none
    · rw [if_pos hk]
      exact ⟨hk, mapLeaf_kernel hi hvp hk hlt hfree rfl rfl htook rfl hr hbit⟩
    · rw [if_neg hk]
      exact .inr ⟨rfl, hk⟩
  | userPool =>
    have ⟨hp, hvp⟩ := hr
    have hentry : entry (s.ram s.cr3 (v / 4096 / 1024)) = s.tab s.current (v / 4096 / 1024) :=
      entry_user hi.threads hp hvp
    unfold userFirst userEnd at hvp
    cases htab : s.tab s.current (v / 4096 / 1024) with
    | some t =>
      rw [htab] at hentry
      rw [pageMapping_present (ht.selfMapped hth.isDir) hv hentry, or_flags]
      change Except.Sat (if entry (s.ram _ _) = none then _ else _) _ _
      rw [← umap_eq htab]
      by_cases hu : s.umap s.current (v / 4096) = none
      · rw [if_pos hu]
        exact ⟨hu, mapLeaf_user hi htab hu hlt hfree rfl rfl htook rfl hr hbit⟩
      · rw [if_neg hu]
        exact .inr ⟨rfl, hu⟩
    | none =>
      rw [htab] at hentry
      have hdir := hi.threads.dir_current hp
      have hj : v / 4096 / 1024 < 768 := by omega
      have hown : ∀ k < l.kernelFrames,
          bitAt (bitmapSetBit s.low (s.pool .userPool).poolBitmap i true) (l.frameBit .kernelPool k) = false →
          s.cr3 ≠ 0x200 + k := fun k hk hbit he => by
        rw [htook, if_neg (frameBit_kernel_ne_user hk)] at hbit
        obtain ⟨w, -, hw⟩ := dir_some hdir
        have := (hi.frames.kernel.used_iff k hk).2 ⟨.leaf w, he ▸ hw⟩
        rw [hbit] at this
        cases this
      have hu : s.umap s.current (v / 4096) = none := by
        rw [umap, htab]
        rfl
      have hrest : SameRest s { s with low := bitmapSetBit s.low (s.pool .userPool).poolBitmap i true } := rfl
      refine (pageMapping_absent hl (hrest.config hi.config) ht hth hv hj hown hentry).mono
        (fun s' hs' => ?_) fun e he => .inl he.1
      obtain ⟨k, hk, hkfree, rfl⟩ := hs'
      rw [or_flags]
      rw [htook, if_neg (frameBit_kernel_ne_user hk)] at hkfree
      -- first the page table, then the entry in it
      let mid : Kernel := { s with
        low := bitmapSetBit s.low (s.pool .kernelPool).poolBitmap k true
        ram := clearFrame (setWord s.ram s.cr3 (v / 4096 / 1024) ((0x200 + k) * 4096 + 7)) (0x200 + k) }
      have hktook := bitAt_taken hi.config .kernelPool k
      obtain ⟨hmid, hstep⟩ : PageInv l pend mid ∧ TableStep s mid s.current (v / 4096 / 1024) (0x200 + k) :=
        newTable_inv hi hdir ⟨by omega, hj⟩ htab hk hkfree rfl rfl hktook
          (entry_flags _ 7 (by decide) (by decide)) rfl
      let last : Kernel := { s with
        low := bitmapSetBit (bitmapSetBit s.low (s.pool .userPool).poolBitmap i true)
          (s.pool .kernelPool).poolBitmap k true
        ram := setWord mid.ram (0x200 + k) (v / 4096 % 1024) ((l.start .userPool + i) * 4096 + 7) }
      have hlast : SameRest mid last := rfl
      have hbits : TookBit l mid last .userPool i := by
        intro n
        change bitAt (bitmapSetBit _ _ _ _) n = if _ then _ else bitAt (bitmapSetBit _ _ _ _) n
        rw [hktook, bitAt_setBit, htook, hi.config.bit]
        by_cases h1 : n = l.frameBit .kernelPool k <;> by_cases h2 : n = l.frameBit .userPool i <;> simp [h1, h2]
      have hmidu : mid.umap s.current (v / 4096) = none := by
        have := congrFun hstep.map (.user s.current (v / 4096))
        exact this.trans hu
      have hfree' : bitAt mid.low (l.frameBit .userPool i) = false := by
        change bitAt (bitmapSetBit _ _ _ _) _ = _
        rw [hktook, if_neg fun h => frameBit_kernel_ne_user hk h.symm, hfree]
      have hvb := hstep.rest.vbit (l := l) hstep.bits fun vp => by
        change bitAt (bitmapSetBit _ _ _ _) _ = _
        rw [hktook, if_neg (l.frameBit_ne_pageBit hk vp)]
      obtain ⟨hinv, hmap⟩ := mapLeaf_user hmid (by rw [hstep.tab, if_pos ⟨rfl, rfl⟩]) hmidu hlt hfree' hlast rfl hbits
        rfl (hstep.rest.reach.2 hr) (by rw [hvb]; exact hbit)
      have htwo : MapStep l s last (.user s.current (v / 4096)) (l.userStart + i) := by
        refine ⟨rfl, rfl, hmap.vbit.trans hvb, fun pg => ?_, hmap.dir.trans hstep.dir, fun {p j t} h => hmap.tab ?_, fun h => by cases h⟩
        · rw [hmap.map, hstep.map]
        · rw [hstep.tab, if_neg]
          · exact h
          · rintro ⟨rfl, rfl⟩
            rw [htab] at h
            cases h
      exact ⟨hu, hinv, htwo⟩

/-- The first page past the windows, the low megabyte and the window of the directory, is mapped. -/
theorem pageMapping_boundary (ht : s.Tables) (hth : s.Threads) {v pa : Nat} (hv : v < 2 ^ 32)
    (hvp : v / 4096 = 0xC0000 ∨ v / 4096 = 0xFFC00) :
    s.pageMapping v pa = .error (.vpageMapped v) := by
  rcases hvp with hvp | hvp
  · have hentry : entry (s.ram s.cr3 (v / 4096 / 1024)) = some 0x101 := by
      rw [hvp]
      exact ht.shared hth.isDir (by decide) (by decide)
    rw [pageMapping_present (ht.selfMapped hth.isDir) hv hentry, hvp, if_neg ht.low]
  · have hentry : entry (s.ram s.cr3 (v / 4096 / 1024)) = some s.cr3 := by
      rw [hvp]
      exact ht.self hth.isDir
    rw [pageMapping_present (ht.selfMapped hth.isDir) hv hentry, hvp, if_neg (ht.zero hth.isDir)]

/-! ## Freeing one page -/

/-- The bit `ReturnOnePhysicPage` clears for frame `f`: the pool is taken with `>`, so the first frame of the
user pool is looked up in the bitmap of the kernel pool. -/
def returnBit (l : Layout) (f : Nat) : Nat :=
  if l.userStart < f then l.frameBit .userPool (f - l.userStart) else l.frameBit .kernelPool (f - 0x200)

theorem returnOnePhysicPage_eq (hl : l.Sized) (hc : s.Config l) {f : Nat} (hf : 0x200 ≤ f)
    (hlt : f < l.userStart + l.userFrames) : ∃ low, s.returnOnePhysicPage (f * 4096) = { s with low := low } ∧
      ∀ n, bitAt low n = if n = returnBit l f then false else bitAt s.low n := by
  have hu : s.userMemoryPool.physicAddrStart = l.userStart * 4096 := hc.start .userPool
  have hk : s.kernelMemoryPool.physicAddrStart = 0x200 * 4096 := hc.start .kernelPool
  have hle := l.frames_le
  have hlim := hl.lt
  rw [usedMem_eq] at hlim
  unfold returnOnePhysicPage returnBit
  unfold Layout.userStart at *
  refine ⟨_, rfl, fun n => ?_⟩
  rw [bitAt_setBit]
  by_cases h : 0x200 + l.kernelFreePages < f
  · have hgt : f * 4096 > s.userMemoryPool.physicAddrStart := by rw [hu]; omega
    have hidx : sub32 (f * 4096) s.userMemoryPool.physicAddrStart / 4096 = f - (0x200 + l.kernelFreePages) := by
      rw [hu]
      unfold sub32
      omega
    simp only [if_pos hgt, if_pos h]
    change (if n = (s.pool .userPool).poolBitmap.bit (sub32 _ s.userMemoryPool.physicAddrStart / 4096) then _ else _) = _
    rw [hc.bit, hidx]
  · have hgt : ¬ f * 4096 > s.userMemoryPool.physicAddrStart := by rw [hu]; omega
    have hidx : sub32 (f * 4096) s.kernelMemoryPool.physicAddrStart / 4096 = f - 0x200 := by
      rw [hk]
      unfold sub32
      omega
    simp only [if_neg hgt, if_neg h]
    change (if n = (s.pool .kernelPool).poolBitmap.bit (sub32 _ s.kernelMemoryPool.physicAddrStart / 4096) then _ else _) = _
    rw [hc.bit, hidx]

theorem returnBit_kernel {f : Nat} (hlt : f < 0x200 + l.kernelFrames) :
    returnBit l f = l.frameBit .kernelPool (f - 0x200) := by
  have hle := l.frames_le
  rw [returnBit, if_neg]
  unfold Layout.userStart
  omega

/-- Where the bitmaps of the pools meet at a whole byte, the two ways to find the bit agree. -/
theorem returnBit_user (h8 : l.kernelFreePages % 8 = 0) {f : Nat} (hf : l.userStart ≤ f) :
    returnBit l f = l.frameBit .userPool (f - l.userStart) := by
  unfold returnBit
  by_cases h : l.userStart < f
  · rw [if_pos h]
  · rw [if_neg h]
    unfold Layout.userStart at *
    simp only [Layout.frameBit, Layout.kernelFrames, Layout.kernelBitmapLength]
    omega

/-- The bit for a frame of the user pool is in the bitmap of that pool, if not always the right one. -/
theorem returnBit_user_range {f : Nat} (hf : l.userStart ≤ f) (hlt : f < l.userStart + l.userFrames) :
    ∃ j < l.userFrames, returnBit l f = l.frameBit .userPool j := by
  have huser : 8 ≤ l.userFrames := by
    unfold Layout.userFrames at *
    omega
  unfold returnBit
  by_cases h : l.userStart < f
  · rw [if_pos h]
    exact ⟨f - l.userStart, by omega, rfl⟩
  · rw [if_neg h]
    refine ⟨l.kernelFreePages % 8, by omega, ?_⟩
    unfold Layout.userStart at *
    simp only [Layout.frameBit, Layout.kernelFrames, Layout.kernelBitmapLength]
    omega

theorem cleared_iff {i j : Nat} {b : Bool} :
    (if l.frameBit pf j = l.frameBit pf i then false else b) = true ↔ j ≠ i ∧ b = true := by
  by_cases hj : j = i
  · simp [hj]
  · rw [if_neg fun h => hj (frameBit_inj.1 h)]
    simp [hj]

structure UnmapStep (l : Layout) (s s' : Kernel) (pg : Page) (f : Nat) : Prop where
  rest : SameRest s s'
  vbit : s'.vbit l = s.vbit l
  low : ∀ n, bitAt s'.low n = if n = returnBit l f then false else bitAt s.low n
  map : ∀ pg', s'.map pg' = if pg' = pg then none else s.map pg'
  dir : s'.dir = s.dir
  tab : s'.tab = s.tab

/-- The page is pending until its address is returned. -/
theorem Virt.unmapStep (hv : s.Virt l pend) {pg : Page} {f : Nat} (hm : UnmapStep l s s' pg f) :
    s'.Virt l (fun pg' => pend pg' ∨ pg' = pg) := by
  apply hv.setMap hm.rest hm.vbit hm.map
  · exact fun h => absurd rfl h
  · exact .inr (.inr rfl)
  · exact fun pg' _ h => .inl h

theorem unmapLeaf_kernel (hi : PageInv l pend s) {vp f : Nat} (hk : s.kmap vp = some f)
    (hsys : ¬ s.SystemPage vp) (hrest : SameRest s s') (hbits : s'.userBits = s.userBits)
    (hlow : ∀ n, bitAt s'.low n = if n = returnBit l f then false else bitAt s.low n)
    (hram : s'.ram = setWord s.ram (kernelTable (vp / 1024)) (vp % 1024) 0) :
    PageInv l (fun pg => pend pg ∨ pg = .kernel vp) s' ∧ UnmapStep l s s' (.kernel vp) f := by
  have hvp : 0xC0100 ≤ vp ∧ vp < 0xFFC00 := by
    by_contra h
    rw [kmap, if_neg h] at hk
    cases hk
  have hf := hi.frames.kernel.range (o := .leaf vp) hk
  rw [returnBit_kernel hf.2] at hlow
  obtain ⟨hk', hd, ht, hu⟩ := maps_setLeaf hi.sep hrest.pcb hvp (fun p hp => hsys (.inr ⟨p, hp⟩)) hram
  rw [entry_zero] at hk'
  have hstep : UnmapStep l s s' (.kernel vp) f := by
    refine ⟨hrest, hrest.vbit hbits fun v => ?_, by rw [returnBit_kernel hf.2]; exact hlow, fun pg => ?_, hd, ht⟩
    · rw [hlow, if_neg (l.frameBit_ne_pageBit (by change _ < l.kernelFrames; omega) v)]
    cases pg with
    | kernel v => simp only [map, hk', Page.kernel.injEq]
    | user p v => simp [map, hu]
  have hbit : ∀ j, bitAt s'.low (l.frameBit .kernelPool j) = true ↔
      j ≠ f - 0x200 ∧ bitAt s.low (l.frameBit .kernelPool j) = true := fun j => by
    rw [hlow, cleared_iff]
  refine ⟨⟨hrest.config hi.config, ?_, ?_, ⟨?_, ?_, fun h8 => ?_⟩, ?_⟩, hstep⟩
  · exact hi.tables_setLeaf hvp hd hram
  · refine hi.threads.of_maps hrest hd fun {v} hv => ?_
    rw [hk', if_neg (fun h : v = vp => hsys (h ▸ hv))]
    exact hi.threads.kmap_system hv
  · refine hi.frames.kernel.release (i := f - 0x200) (o := .leaf vp) ?_ (by simp [kown, hk']) (fun o' ho' => ?_)
      fun j _ => hbit j
    · rw [Nat.add_sub_cancel' hf.1]
      exact hk
    · exact kown_setLeaf hk' ht ho'
  · intro p v f h
    rw [hu] at h
    exact hi.frames.urange h
  · refine (hi.frames.user h8).congr (fun o => by simp [uown, hu]) fun j hj => ?_
    rw [hlow, if_neg fun h => frameBit_kernel_ne_user (by omega) h.symm]
  · exact hi.virt.unmapStep hstep

theorem unmapLeaf_user (hi : PageInv l pend s) {p vp t f : Nat}
    (ht : s.tab p (vp / 1024) = some t) (hu : s.umap p vp = some f) (hrest : SameRest s s')
    (hbits : s'.userBits = s.userBits)
    (hlow : ∀ n, bitAt s'.low n = if n = returnBit l f then false else bitAt s.low n)
    (hram : s'.ram = setWord s.ram t (vp % 1024) 0) :
    PageInv l (fun pg => pend pg ∨ pg = .user p vp) s' ∧ UnmapStep l s s' (.user p vp) f := by
  obtain ⟨hk, hd, htab, hu'⟩ := maps_setUserLeaf hi.sep hrest.pcb ht hram
  rw [entry_zero] at hu'
  have hf := hi.frames.urange hu
  obtain ⟨b, hb, hret⟩ := returnBit_user_range hf.1 hf.2
  have hstep : UnmapStep l s s' (.user p vp) f := by
    refine ⟨hrest, hrest.vbit hbits fun v => ?_, hlow, fun pg => ?_, hd, htab⟩
    · rw [hlow, hret, if_neg (l.frameBit_ne_pageBit hb v)]
    cases pg with
    | kernel v => simp [map, hk]
    | user q v => simp only [map, hu', Page.user.injEq]
  refine ⟨⟨hrest.config hi.config, ?_, ?_, ⟨?_, ?_, fun h8 => ?_⟩, ?_⟩, hstep⟩
  · exact hi.tables_setUserLeaf ht hd hram
  · exact hi.threads.of_maps hrest hd fun hsys => by rw [hk]; exact hi.threads.kmap_system hsys
  · refine hi.frames.kernel.congr (kown_congr hk htab) fun j hj => ?_
    rw [hlow, hret, if_neg (frameBit_kernel_ne_user hj)]
  · intro q v g h
    rw [hu'] at h
    by_cases hqv : q = p ∧ v = vp
    · simp [hqv] at h
    · rw [if_neg hqv] at h
      exact hi.frames.urange h
  · refine (hi.frames.user h8).release (i := f - l.userStart) (o := (p, vp)) ?_ (by simp [uown, hu'])
      (fun o' ho' => ?_) fun j _ => ?_
    · rw [Nat.add_sub_cancel' hf.1]
      exact hu
    · have hne : ¬ (o'.1 = p ∧ o'.2 = vp) := fun h => ho' (Prod.ext h.1 h.2)
      simp [uown, hu', hne]
    · rw [hlow, returnBit_user h8 hf.1, cleared_iff]
  · exact hi.virt.unmapStep hstep

def leafTable (s : Kernel) (pf : PoolFlags) (vp : Nat) : Option Nat :=
  match pf with
  | .kernelPool => some (kernelTable (vp / 1024))
  | .userPool => s.tab s.current (vp / 1024)

theorem PageInv.reach_lt (hi : PageInv l pend s) {vp f : Nat} (hmap : s.map (s.pageOf pf vp) = some f) :
    vp < 0xFFC00 := by
  have hne : s.map (s.pageOf pf vp) ≠ none := by simp [hmap]
  have hr := (hi.virt.mapped hne).1
  cases pf with
  | kernelPool => exact hr.2.2
  | userPool =>
    have := hr.2.2
    unfold userEnd at this
    omega

theorem PageInv.leaf (hi : PageInv l pend s) {vp f : Nat} (hmap : s.map (s.pageOf pf vp) = some f) :
    ∃ t, s.leafTable pf vp = some t ∧ entry (s.ram s.cr3 (vp / 1024)) = some t ∧
      entry (s.ram t (vp % 1024)) = some f := by
  have hne : s.map (s.pageOf pf vp) ≠ none := by simp [hmap]
  have hr := (hi.virt.mapped hne).1
  cases pf with
  | kernelPool =>
    have hvp : 0xC0100 ≤ vp ∧ vp < 0xFFC00 := ⟨hr.1, hr.2.2⟩
    refine ⟨_, rfl, entry_kernel hi.tables hi.threads ⟨by omega, hvp.2⟩, ?_⟩
    rw [← kmap_eq hvp]
    exact hmap
  | userPool =>
    have hentry := entry_user hi.threads hr.1 hr.2
    cases htab : s.tab s.current (vp / 1024) with
    | none =>
      change (s.tab s.current (vp / 1024)).bind _ = _ at hmap
      rw [htab] at hmap
      cases hmap
    | some t =>
      refine ⟨t, htab, hentry.trans htab, ?_⟩
      rw [← umap_eq htab]
      exact hmap

theorem PageInv.virtualAddrToPhysicAddr (hi : PageInv l pend s) {v f : Nat}
    (hmap : s.map (s.pageOf pf (v / 4096)) = some f) :
    s.virtualAddrToPhysicAddr v = .ok (f * 4096 + v % 4096) := by
  have hlt := hi.reach_lt hmap
  obtain ⟨t, -, hpde, hpte⟩ := hi.leaf hmap
  obtain ⟨-, hload, -⟩ := pte_access (hi.tables.selfMapped hi.threads.isDir) (by omega) hpde
  rw [Kernel.virtualAddrToPhysicAddr, hload, Except.ok_bind, (entry_eq_some.1 hpte).2]
  rfl

theorem PageInv.frame_range (hi : PageInv l pend s) {vp f : Nat} (hmap : s.map (s.pageOf pf vp) = some f) :
    l.start pf ≤ f ∧ f < l.start pf + l.frames pf := by
  cases pf with
  | kernelPool => exact hi.frames.kernel.range (o := .leaf vp) hmap
  | userPool => exact hi.frames.urange hmap

/-- The frames of the pools are told apart by the start of the user pool. -/
theorem Config.frame_pool (hc : s.Config l) {f : Nat} (hf : l.start pf ≤ f ∧ f < l.start pf + l.frames pf) :
    decide (f * 4096 ≥ s.userMemoryPool.physicAddrStart) = (pf == .userPool) := by
  have hu : s.userMemoryPool.physicAddrStart = l.userStart * 4096 := hc.start .userPool
  have hle := l.frames_le
  rw [hu]
  cases pf with
  | kernelPool =>
    change 0x200 ≤ f ∧ f < 0x200 + l.kernelFrames at hf
    have : ¬ f * 4096 ≥ l.userStart * 4096 := by
      unfold Layout.userStart
      omega
    simp [this]
  | userPool =>
    change l.userStart ≤ f ∧ _ at hf
    simp [hf.1]

theorem pfreePage_ok (hl : l.Sized) (hi : PageInv l pend s) {v f : Nat} (hv : v % 4096 = 0)
    (hmap : s.map (s.pageOf pf (v / 4096)) = some f) (hsys : pf = .kernelPool → ¬ s.SystemPage (v / 4096)) :
    ∃ s', s.pfreePage (pf == .userPool) v = .ok s' ∧
      PageInv l (fun pg => pend pg ∨ pg = s.pageOf pf (v / 4096)) s' ∧
      UnmapStep l s s' (s.pageOf pf (v / 4096)) f := by
  have hlt := hi.reach_lt hmap
  have hf := hi.frame_range hmap
  have hend := l.frames_lt_userEnd pf
  have hge := l.start_ge pf
  obtain ⟨t, hleaf, hpde, hpte⟩ := hi.leaf hmap
  obtain ⟨low, hret, hlow⟩ := returnOnePhysicPage_eq hl hi.config (f := f) (by omega) (by omega)
  obtain ⟨ht, hth⟩ := hi.tables_low low
  obtain ⟨-, hload, hstore⟩ := pte_access (ht.selfMapped hth.isDir) (v := v) (by omega) hpde
  refine ⟨{ s with low := low, ram := setWord s.ram t (v / 4096 % 1024) 0 }, ?_, ?_⟩
  · have hpool : (decide (f * 4096 ≥ s.userMemoryPool.physicAddrStart) == (pf == .userPool)) = true := by
      rw [hi.config.frame_pool hf]
      cases pf <;> rfl
    rw [pfreePage, hi.virtualAddrToPhysicAddr hmap, Except.ok_bind, hv, Nat.add_zero, hpool, assert_true,
      Except.ok_bind, hret, pageUnmapping, hload, Except.ok_bind, hstore, Nat.and_zero]
  · cases pf with
    | kernelPool =>
      have htable : kernelTable (v / 4096 / 1024) = t := Option.some.inj hleaf
      subst htable
      exact unmapLeaf_kernel hi hmap (hsys rfl) rfl rfl hlow rfl
    | userPool => exact unmapLeaf_user hi hleaf hmap rfl rfl hlow rfl

end Kernel

end ElephantOS
