import ElephantOS.Memory.PageCalls
import ElephantOS.Memory.Processes

/-!
# Out of memory without `ASSERT`

With `DEBUG` 0, `BitmapScan` reports a full bitmap, and `palloc` and `VirtualAddrMapping` have to give back what they
took.

* `Booted` : what the boot code and `ExecProcess` set up and nobody changes, whatever is in the pools and bitmaps;
* `pallocFrom_rule` : the loop of `palloc` with an invariant, up to its end or to the frame it does not get;
* `Unchanged`, `palloc_fails_atomically_iff`; `Clean`, `virtualAddrMapping_clean_iff`.
-/

namespace ElephantOS.Kernel
variable {l : Layout} {s s' t : Kernel} {pf : PoolFlags}

/-- The directory in use maps itself and the page tables of the kernel half. -/
structure KernelHalf (s : Kernel) : Prop where
  self : SelfMapped s.ram s.cr3
  shared : ∀ {j}, 768 ≤ j → j ≤ 1022 → entry (s.ram s.cr3 j) = some (kernelTable j)
  apart : ∀ {j}, 768 ≤ j → j ≤ 1022 → kernelTable j ≠ s.cr3

/-- The sizes and places, with `ASSERT` or without. -/
def Placed (l : Layout) (s : Kernel) : Prop := Config l { s with debug := true }

/-- The state of the allocator, with `ASSERT` or without. -/
structure Booted (l : Layout) (s : Kernel) : Prop where
  placed : s.Placed l
  half : s.KernelHalf
  -- the window of the kernel heap ends below that of the page tables
  window : 0xC0100 + l.kernelFrames + 1 < 0xFFC00
  thread : ∃ t, s.pcb s.current = some t ∧ t.userprogVaddr.bitmapBytesLen = (if t.pdeAddr = 0 then 0 else 94199) ∧
    (t.pdeAddr ≠ 0 → t.userprogVaddr.vaddrStart = 0x8048000)

theorem Placed.of_rest (hc : s.Placed l) (h : SameRest s s') : s'.Placed l := by
  have hrest : SameRest { s with debug := true } { s' with debug := true } := by
    unfold SameRest at *
    rw [h]
  exact hrest.config hc

theorem Placed.bit (hc : s.Placed l) (pf : PoolFlags) (i : Nat) : (s.pool pf).poolBitmap.bit i = l.frameBit pf i :=
  Config.bit hc pf i

theorem Placed.bytesLen (hc : s.Placed l) (pf : PoolFlags) : 8 * (s.pool pf).poolBitmap.bytesLen = l.frames pf :=
  Config.bytesLen hc pf

theorem Placed.freeFrames_of_scan (hc : s.Placed l) (hscan : bitmapScan true s.low (s.pool pf).poolBitmap 1 = none) :
    s.freeFrames pf = 0 := by
  refine (Config.freeFrames_zero hc).2 ?_
  intro i hi
  rw [← hc.bit]
  exact bitmapScan_none.1 hscan i (by rw [hc.bytesLen]; exact hi)

theorem Placed.start (hc : s.Placed l) (pf : PoolFlags) : (s.pool pf).physicAddrStart = l.start pf * 4096 :=
  Config.start hc pf

theorem Placed.kvaddr (hc : s.Placed l) : s.kernelVaddr = l.kernelVaddr := by
  have h : ({ s with debug := true } : Kernel).kernelVaddr = l.kernelVaddr := Config.kvaddr hc
  exact h

theorem PageInv.booted {pend : Page → Prop} (hi : PageInv l pend { s with debug := true })
    (hw : 0xC0100 + l.kernelFrames + 1 < 0xFFC00) : Booted l s := by
  have hdir := hi.threads.isDir
  refine ⟨hi.config, ⟨hi.tables.selfMapped hdir, hi.tables.shared hdir, ?_⟩, hw, ?_⟩
  · intro j h1 h2 heq
    unfold kernelTable at heq
    have hcr3 : s.cr3 = 0x100 ∨ 0x200 ≤ s.cr3 := by
      rcases hdir with h | ⟨p, h⟩
      · exact .inl h
      · exact .inr (hi.sep.dir_ge h)
    omega
  · obtain ⟨t, ht⟩ := hi.threads.cur
    exact ⟨t, ht, hi.threads.vaddr ht⟩

theorem PageInv.booted_off {pend : Page → Prop} (hi : PageInv l pend s) (hw : 0xC0100 + l.kernelFrames + 1 < 0xFFC00) :
    Booted l { s with debug := false } := by
  have hon : ({ s with debug := true } : Kernel) = s := by
    have hd := hi.config.debug
    cases s
    cases hd
    rfl
  refine PageInv.booted (show PageInv l pend _ from ?_) hw
  show PageInv l pend { s with debug := true }
  rw [hon]
  exact hi

theorem assert_off (hd : s.debug = false) (c : Bool) (e : Panic) : s.assert c e = .ok () := by
  rw [assert, hd, Bool.not_false, Bool.or_true, if_pos rfl]

/-! ## Taking frames -/

theorem Placed.freeFrames_pos (hc : s.Placed l) :
    0 < s.freeFrames pf ↔ ∃ i < l.frames pf, bitAt s.low (l.frameBit pf i) = false := by
  have h : 0 < ({ s with debug := true } : Kernel).freeFrames pf ↔ _ := Config.freeFrames_pos hc
  exact h

theorem Placed.freeFrames_congr (hc : s.Placed l) (hc' : s'.Placed l)
    (h : ∀ i < l.frames pf, bitAt s'.low (l.frameBit pf i) = bitAt s.low (l.frameBit pf i)) :
    s'.freeFrames pf = s.freeFrames pf :=
  Kernel.freeFrames_congr (s := { s with debug := true }) hc hc' h

theorem getOnePhysicPage_off (hl : l.Sized) (hc : s.Placed l) (hd : s.debug = false) (pf : PoolFlags) :
    (s.freeFrames pf = 0 ∧ s.getOnePhysicPage pf = .ok (0, s)) ∨
      ∃ i < l.frames pf, bitAt s.low (l.frameBit pf i) = false ∧ s.getOnePhysicPage pf =
        .ok ((l.start pf + i) * 4096, { s with low := bitmapSetBit s.low (s.pool pf).poolBitmap i true }) := by
  have hscan : s.scan s.low (s.pool pf).poolBitmap 1 = .ok ((bitmapScan true s.low (s.pool pf).poolBitmap 1).getD none) := by
    rw [scan, hd, bitmapScan_off]
  unfold getOnePhysicPage
  dsimp only
  rw [hscan, Except.ok_bind]
  clear hscan
  cases hscan : bitmapScan true s.low (s.pool pf).poolBitmap 1 with
  | none =>
    left
    exact ⟨hc.freeFrames_of_scan hscan, rfl⟩
  | some x =>
    right
    obtain ⟨i, rfl⟩ := bitmapScan_one hscan
    obtain ⟨hclear, -, hlt, -⟩ := bitmapScan_some (Nat.le_refl 1) hscan
    have hi : i < l.frames pf := by
      rw [← hc.bytesLen]
      exact hlt rfl
    have haddr : i * 4096 + (s.pool pf).physicAddrStart = (l.start pf + i) * 4096 := by
      rw [hc.start]
      ring
    refine ⟨i, hi, ?_, ?_⟩
    · rw [← hc.bit]
      exact hclear 0 (by decide)
    · simp only [Option.getD_some, haddr, Nat.mod_eq_of_lt (hl.frame_lt hi)]
      rfl

theorem Placed.freeFrames_take (hc : s.Placed l) {i : Nat} (hi : i < l.frames pf)
    (hfree : bitAt s.low (l.frameBit pf i) = false) :
    freeFrames { s with low := bitmapSetBit s.low (s.pool pf).poolBitmap i true } pf + 1 = s.freeFrames pf := by
  have hc' : Placed l { s with low := bitmapSetBit s.low (s.pool pf).poolBitmap i true } := hc.of_rest rfl
  refine Kernel.freeFrames_take (s := { s with debug := true }) hc hc' hi hfree ?_
  intro j _
  dsimp only
  rw [bitAt_setBit, hc.bit]
  simp only [frameBit_inj]

/-- Frames taken from the kernel pool are not the user pool's. -/
theorem Placed.freeFrames_user (hc : s.Placed l) {i : Nat} (hi : i < l.kernelFrames) :
    freeFrames { s with low := bitmapSetBit s.low (s.pool .kernelPool).poolBitmap i true } .userPool =
      s.freeFrames .userPool := by
  have hc' : Placed l { s with low := bitmapSetBit s.low (s.pool .kernelPool).poolBitmap i true } := hc.of_rest rfl
  apply hc.freeFrames_congr hc'
  intro j _
  dsimp only
  rw [bitAt_setBit, hc.bit, if_neg (Ne.symm (frameBit_kernel_ne_user hi))]

/-! ## What the page functions change -/

theorem store_ok {v w : Nat} (h : s.store v w = .ok s') : ∃ ram, s' = { s with ram := ram } := by
  unfold store at h
  split at h
  · cases h
    exact ⟨_, rfl⟩
  · cases h

theorem clearPage_ok {v : Nat} (h : s.clearPage v = .ok s') : ∃ ram, s' = { s with ram := ram } := by
  unfold clearPage at h
  split at h
  · cases h
    exact ⟨_, rfl⟩
  · cases h

/-- `PageMapping` writes page tables, and takes at most a frame of the kernel pool. -/
theorem pageMapping_off (hl : l.Sized) (hc : s.Placed l) (hd : s.debug = false) {v pa : Nat}
    (h : s.pageMapping v pa = .ok s') : (∃ ram, s' = { s with ram := ram }) ∨
      ∃ i < l.kernelFrames, ∃ ram,
        s' = { s with low := bitmapSetBit s.low (s.pool .kernelPool).poolBitmap i true, ram := ram } := by
  unfold pageMapping at h
  obtain ⟨pde, -, h⟩ := Except.bind_eq_ok.1 h
  split at h
  · left
    obtain ⟨pte, -, h⟩ := Except.bind_eq_ok.1 h
    obtain ⟨_, -, h⟩ := Except.bind_eq_ok.1 h
    split at h
    · exact store_ok h
    · cases h
  · obtain ⟨⟨pt, s1⟩, hget, h⟩ := Except.bind_eq_ok.1 h
    obtain ⟨s2, h2, h⟩ := Except.bind_eq_ok.1 h
    obtain ⟨s3, h3, h⟩ := Except.bind_eq_ok.1 h
    obtain ⟨ram2, rfl⟩ := store_ok h2
    obtain ⟨ram3, rfl⟩ := clearPage_ok h3
    obtain ⟨ram4, rfl⟩ := store_ok h
    rcases getOnePhysicPage_off hl hc hd .kernelPool with ⟨-, hnone⟩ | ⟨i, hi, -, hsome⟩
    · rw [hnone] at hget
      cases hget
      exact .inl ⟨_, rfl⟩
    · rw [hsome] at hget
      cases hget
      exact .inr ⟨i, hi, _, rfl⟩

theorem pfreePage_ok_rest {user : Bool} {v : Nat} (h : s.pfreePage user v = .ok s') :
    ∃ low ram, s' = { s with low := low, ram := ram } := by
  unfold pfreePage at h
  obtain ⟨pa, -, h⟩ := Except.bind_eq_ok.1 h
  obtain ⟨_, -, h⟩ := Except.bind_eq_ok.1 h
  obtain ⟨pte, -, h⟩ := Except.bind_eq_ok.1 h
  obtain ⟨ram, rfl⟩ := store_ok h
  exact ⟨_, ram, rfl⟩

/-! ## The loop of `palloc` -/

theorem sub32_pages {vp j : Nat} (h : vp + j < 0x100000) : sub32 ((vp + j) * 4096) (vp * 4096) / 4096 = j := by
  unfold sub32
  omega

/-- The loop of `palloc` without `ASSERT`: with enough frames it comes to its end, and else to `pfree`, with `j` pages
mapped. -/
theorem pallocFrom_rule (hl : l.Sized) {vp n : Nat} (hend : vp + n < 0x100000)
    {J : Nat → Kernel → Prop} {Q : Kernel → Prop} (hplaced : ∀ {j t}, J j t → t.Placed l ∧ t.debug = false)
    (hmap : ∀ {j t t' i}, j < n → J j t → i < l.frames pf → bitAt t.low (l.frameBit pf i) = false →
      pageMapping { t with low := bitmapSetBit t.low (t.pool pf).poolBitmap i true } ((vp + j) * 4096)
        ((l.start pf + i) * 4096) = .ok t' →
      J (j + 1) t' ∧ t'.freeFrames pf + 1 = t.freeFrames pf)
    (hundo : ∀ {j t t'}, j < n → J j t → t.pfree pf (vp * 4096) j = .ok t' → Q t')
    {todo j r : Nat} {t : Kernel} (hj : j + todo = n) (ht : J j t)
    (h : pallocFrom pf (vp * 4096) todo ((vp + j) * 4096) t = .ok (r, s')) :
    (todo ≤ t.freeFrames pf ∧ r = vp * 4096) ∨ (t.freeFrames pf < todo ∧ r = 0 ∧ Q s') := by
  induction todo generalizing j t with
  | zero =>
    left
    cases h
    exact ⟨Nat.zero_le _, rfl⟩
  | succ todo ih =>
    have hlt : j < n := by omega
    obtain ⟨hc, hd⟩ := hplaced ht
    unfold pallocFrom at h
    rcases getOnePhysicPage_off hl hc hd pf with ⟨hempty, hget⟩ | ⟨i, hi, hclear, hget⟩
    · right
      rw [hget, Except.ok_bind] at h
      dsimp only at h
      rw [if_pos rfl, sub32_pages (show vp + j < 0x100000 by omega)] at h
      obtain ⟨t', hfree, h⟩ := Except.bind_eq_ok.1 h
      cases h
      refine ⟨?_, rfl, hundo hlt ht hfree⟩
      rw [hempty]
      exact Nat.succ_pos todo
    · have hne : (l.start pf + i) * 4096 ≠ 0 := by
        have := l.start_ge pf
        omega
      rw [hget, Except.ok_bind] at h
      dsimp only at h
      rw [if_neg hne] at h
      obtain ⟨t', hpm, h⟩ := Except.bind_eq_ok.1 h
      obtain ⟨ht', hfree⟩ := hmap hlt ht hi hclear hpm
      have hnext : ((vp + j) * 4096 + 4096) % 2 ^ 32 = (vp + (j + 1)) * 4096 := by
        have : (vp + (j + 1)) * 4096 < 2 ^ 32 := by omega
        rw [← Nat.succ_mul, Nat.succ_eq_add_one, Nat.add_assoc, Nat.mod_eq_of_lt this]
      rw [hnext] at h
      rcases ih (by omega) ht' h with ⟨h1, h2⟩ | ⟨h1, h2⟩
      · exact .inl ⟨by omega, h2⟩
      · exact .inr ⟨by omega, h2⟩

/-! ## The kernel half -/

def kernelEntry (s : Kernel) (vp : Nat) : Option Nat := entry (s.ram (kernelTable (vp / 1024)) (vp % 1024))

def setKernelEntry (s : Kernel) (vp w : Nat) : Kernel :=
  { s with ram := setWord s.ram (kernelTable (vp / 1024)) (vp % 1024) w }

theorem kernelEntry_set {vp v w : Nat} (hvp : 0xC0000 ≤ vp) (hv : 0xC0000 ≤ v) :
    (s.setKernelEntry vp w).kernelEntry v = if v = vp then entry w else s.kernelEntry v := by
  unfold kernelEntry setKernelEntry
  by_cases h : v = vp
  · rw [if_pos h, h]
    dsimp only
    rw [setWord_same]
  · have hpair : ¬ (kernelTable (v / 1024) = kernelTable (vp / 1024) ∧ v % 1024 = vp % 1024) := by
      unfold kernelTable
      omega
    rw [if_neg h]
    simp only [setWord, if_neg hpair]

section Half
variable {vp : Nat}

theorem KernelHalf.set (h : s.KernelHalf) (hvp : 0xC0000 ≤ vp ∧ vp < 0xFFC00) (w : Nat) :
    (s.setKernelEntry vp w).KernelHalf := by
  have hne := h.apart (show 768 ≤ vp / 1024 by omega) (show vp / 1024 ≤ 1022 by omega)
  have hdir : ∀ j, (s.setKernelEntry vp w).ram s.cr3 j = s.ram s.cr3 j := fun j => setWord_frame (Ne.symm hne) j
  refine ⟨⟨?_, ?_⟩, ?_, h.apart⟩
  · show present ((s.setKernelEntry vp w).ram s.cr3 1023) = true
    rw [hdir]
    exact h.self.present
  · show frameOf ((s.setKernelEntry vp w).ram s.cr3 1023) = s.cr3
    rw [hdir]
    exact h.self.frame
  · intro j h1 h2
    show entry ((s.setKernelEntry vp w).ram s.cr3 j) = _
    rw [hdir]
    exact h.shared h1 h2

theorem KernelHalf.table (h : s.KernelHalf) (hvp : 0xC0000 ≤ vp ∧ vp < 0xFFC00) :
    vp * 4096 < 2 ^ 32 ∧ entry (s.ram s.cr3 (vp * 4096 / 4096 / 1024)) = some (kernelTable (vp / 1024)) := by
  rw [page_div]
  exact ⟨by omega, h.shared (by omega) (by omega)⟩

theorem KernelHalf.pageMapping (h : s.KernelHalf) (hvp : 0xC0000 ≤ vp ∧ vp < 0xFFC00) (pa : Nat) :
    s.pageMapping (vp * 4096) pa =
      if s.kernelEntry vp = none then .ok (s.setKernelEntry vp (pa ||| 1 ||| 4 ||| 2))
      else .error (.vpageMapped (vp * 4096)) := by
  obtain ⟨hv, he⟩ := h.table hvp
  rw [pageMapping_present h.self hv he, page_div]
  rfl

theorem KernelHalf.pfreePage (hl : l.Sized) (h : s.KernelHalf) (hc : s.Placed l) (hd : s.debug = false)
    (hvp : 0xC0000 ≤ vp ∧ vp < 0xFFC00) {f : Nat} (hf : 0x200 ≤ f ∧ f < 0x200 + l.kernelFrames)
    (he : s.kernelEntry vp = some f) (user : Bool) :
    ∃ low, s.pfreePage user (vp * 4096) = .ok (setKernelEntry { s with low := low } vp 0) ∧
      ∀ n, bitAt low n = if n = l.frameBit .kernelPool (f - 0x200) then false else bitAt s.low n := by
  obtain ⟨hv, htable⟩ := h.table hvp
  have hle := l.frames_le
  obtain ⟨low, heq, hbits⟩ := returnOnePhysicPage_eq (s := { s with debug := true }) hl hc hf.1
    (show f < l.userStart + l.userFrames by unfold Layout.userStart; omega)
  have hreturn : s.returnOnePhysicPage (f * 4096) = { s with low := low } := by
    have hlow : (s.returnOnePhysicPage (f * 4096)).low = low := congrArg Kernel.low heq
    rw [← hlow]
    rfl
  rw [returnBit_kernel hf.2] at hbits
  obtain ⟨-, hload, -⟩ := pte_access h.self hv htable
  have hframe : frameOf (s.ram (kernelTable (vp / 1024)) (vp % 1024)) = f := (entry_eq_some.1 he).2
  have hphys : s.virtualAddrToPhysicAddr (vp * 4096) = .ok (f * 4096) := by
    rw [virtualAddrToPhysicAddr, hload, page_div, Except.ok_bind, hframe, Nat.mul_mod_left, Nat.add_zero, Except.pure_eq]
  have h' : KernelHalf { s with low := low } := ⟨h.self, h.shared, h.apart⟩
  obtain ⟨-, hload', hstore'⟩ := pte_access h'.self hv htable
  refine ⟨low, ?_, hbits⟩
  rw [Kernel.pfreePage, hphys, Except.ok_bind, hreturn, assert_off hd, Except.ok_bind, pageUnmapping, hload', Except.ok_bind,
    hstore', page_div, Nat.and_zero]
  rfl

end Half

/-! ## A run of pages -/

/-- In the loop of `palloc` for `n` pages from `vp` on, with `j` of them mapped: the last one is marked, and in the
kernel half the `j` pages have frames of the kernel pool. -/
structure Looping (l : Layout) (pf : PoolFlags) (a : VirtualAddr) (vp n j : Nat) (t : Kernel) : Prop where
  placed : t.Placed l
  debug : t.debug = false
  vaddr : t.HasVaddr pf a
  last : bitAt (t.vbytes pf) (a.bitmap.bit (vp - basePage pf + (n - 1))) = true
  half : pf = .kernelPool → t.KernelHalf
  mapped : pf = .kernelPool → ∀ i < j, ∃ f, t.kernelEntry (vp + i) = some f ∧ 0x200 ≤ f ∧ f < 0x200 + l.kernelFrames

section Run
variable {a : VirtualAddr} {vp n j : Nat}

/-- The bit of a kernel page is none of a pool. -/
theorem Placed.kernel_last (hc : t.Placed l) (ha : t.HasVaddr .kernelPool a) {i : Nat} (hi : i < l.frames pf) (m : Nat) :
    a.bitmap.bit m ≠ l.frameBit pf i := by
  have ha' : a = l.kernelVaddr := Eq.trans ha hc.kvaddr
  obtain ⟨vp, rfl⟩ : ∃ vp, vp - 0xC0100 = m := ⟨0xC0100 + m, Nat.add_sub_cancel_left _ _⟩
  rw [ha', l.pageBit_eq vp]
  exact l.frameBit_ne_pageBit hi vp

theorem Looping.last_take (h : Looping l pf a vp n j t) {pf' : PoolFlags} {i : Nat} (hi : i < l.frames pf') :
    bitAt (vbytes { t with low := bitmapSetBit t.low (t.pool pf').poolBitmap i true } pf)
      (a.bitmap.bit (vp - basePage pf + (n - 1))) = true := by
  cases pf with
  | userPool => exact h.last
  | kernelPool =>
    show bitAt (bitmapSetBit t.low (t.pool pf').poolBitmap i true) _ = true
    rw [bitAt_setBit, h.placed.bit, if_neg (h.placed.kernel_last h.vaddr hi _)]
    exact h.last

theorem Looping.map_kernel (h : Looping l .kernelPool a vp n j t) (hvp : 0xC0000 ≤ vp ∧ vp + n < 0xFFC00) (hj : j < n)
    {i : Nat} (hlt : i < l.frames .kernelPool) (hclear : bitAt t.low (l.frameBit .kernelPool i) = false)
    (hpm : pageMapping { t with low := bitmapSetBit t.low (t.pool .kernelPool).poolBitmap i true } ((vp + j) * 4096)
      ((0x200 + i) * 4096) = .ok s') :
    Looping l .kernelPool a vp n (j + 1) s' ∧ s'.freeFrames .kernelPool + 1 = t.freeFrames .kernelPool := by
  have hhalf := h.half rfl
  have hhalf1 : KernelHalf { t with low := bitmapSetBit t.low (t.pool .kernelPool).poolBitmap i true } :=
    ⟨hhalf.self, hhalf.shared, hhalf.apart⟩
  have hrange : 0xC0000 ≤ vp + j ∧ vp + j < 0xFFC00 := by omega
  rw [hhalf1.pageMapping hrange, or_flags] at hpm
  split at hpm
  · cases hpm
    refine ⟨⟨h.placed.of_rest rfl, h.debug, h.vaddr, h.last_take hlt, fun _ => hhalf1.set hrange _, ?_⟩,
      h.placed.freeFrames_take hlt hclear⟩
    intro _ k hk
    rw [kernelEntry_set hrange.1 (show 0xC0000 ≤ vp + k by omega)]
    by_cases hkj : k = j
    · rw [if_pos (by rw [hkj])]
      refine ⟨0x200 + i, entry_flags _ 7 (by decide) (by decide), Nat.le_add_right _ _, ?_⟩
      exact Nat.add_lt_add_left hlt _
    · rw [if_neg (by omega)]
      exact h.mapped rfl k (by omega)
  · cases hpm

theorem Looping.map_user (hl : l.Sized) (h : Looping l .userPool a vp n j t) {i v pa : Nat}
    (hlt : i < l.frames .userPool) (hclear : bitAt t.low (l.frameBit .userPool i) = false)
    (hpm : pageMapping { t with low := bitmapSetBit t.low (t.pool .userPool).poolBitmap i true } v pa = .ok s') :
    Looping l .userPool a vp n (j + 1) s' ∧ s'.freeFrames .userPool + 1 = t.freeFrames .userPool := by
  have hplaced : Placed l { t with low := bitmapSetBit t.low (t.pool .userPool).poolBitmap i true } :=
    h.placed.of_rest rfl
  rcases pageMapping_off hl hplaced h.debug hpm with ⟨ram, rfl⟩ | ⟨k, hk, ram, rfl⟩
  · exact ⟨⟨h.placed.of_rest rfl, h.debug, h.vaddr, h.last, fun hpf => (by cases hpf), fun hpf => (by cases hpf)⟩,
      h.placed.freeFrames_take hlt hclear⟩
  · refine ⟨⟨h.placed.of_rest rfl, h.debug, h.vaddr, h.last, fun hpf => (by cases hpf), fun hpf => (by cases hpf)⟩, ?_⟩
    exact (congrArg (· + 1) (hplaced.freeFrames_user hk)).trans (h.placed.freeFrames_take hlt hclear)

structure Undoing (l : Layout) (pf : PoolFlags) (a : VirtualAddr) (vp n j k : Nat) (t : Kernel) : Prop where
  placed : t.Placed l
  debug : t.debug = false
  vaddr : t.HasVaddr pf a
  last : bitAt (t.vbytes pf) (a.bitmap.bit (vp - basePage pf + (n - 1))) = true
  half : pf = .kernelPool → t.KernelHalf
  mapped : pf = .kernelPool → ∀ i < j, k ≤ i → ∃ f, t.kernelEntry (vp + i) = some f ∧ 0x200 ≤ f ∧
    f < 0x200 + l.kernelFrames

theorem Undoing.page (hl : l.Sized) {k : Nat} (h : Undoing l pf a vp n j k t) (hk : k < j)
    (hvp : pf = .kernelPool → 0xC0000 ≤ vp ∧ vp + j < 0xFFC00) {user : Bool}
    (hfree : t.pfreePage user ((vp + k) * 4096) = .ok s') : Undoing l pf a vp n j (k + 1) s' := by
  cases pf with
  | userPool =>
    obtain ⟨low, ram, rfl⟩ := pfreePage_ok_rest hfree
    exact ⟨h.placed.of_rest rfl, h.debug, h.vaddr, h.last, fun hpf => (by cases hpf), fun hpf => (by cases hpf)⟩
  | kernelPool =>
    have hrange : 0xC0000 ≤ vp + k ∧ vp + k < 0xFFC00 := by
      have := hvp rfl
      omega
    obtain ⟨f, he, hf⟩ := h.mapped rfl k hk (Nat.le_refl k)
    obtain ⟨low, heq, hbits⟩ := (h.half rfl).pfreePage hl h.placed h.debug hrange hf he user
    rw [heq] at hfree
    cases hfree
    have hhalf : KernelHalf { t with low := low } := ⟨(h.half rfl).self, (h.half rfl).shared, (h.half rfl).apart⟩
    have hframe : f - 0x200 < l.frames .kernelPool := show f - 0x200 < l.kernelFrames by omega
    refine ⟨h.placed.of_rest rfl, h.debug, h.vaddr, ?_, fun _ => hhalf.set hrange 0, ?_⟩
    · show bitAt low _ = true
      rw [hbits, if_neg (h.placed.kernel_last h.vaddr hframe _)]
      exact h.last
    · intro _ i hi hki
      have := (h.mapped rfl) i hi (by omega)
      rw [kernelEntry_set hrange.1 (show 0xC0000 ≤ vp + i by omega), if_neg (by omega)]
      exact this

/-- `pfree` of the first `j` of `n` pages leaves the last one marked. -/
theorem Looping.undo (hl : l.Sized) (h : Looping l pf a vp n j t) (hj : j < n)
    (hbase : basePage pf ≤ vp ∧ vp + n < 0x100000) (hstart : a.vaddrStart = basePage pf * 4096)
    (hvp : pf = .kernelPool → 0xC0000 ≤ vp ∧ vp + n < 0xFFC00) (hfree : t.pfree pf (vp * 4096) j = .ok s') :
    bitAt (s'.vbytes pf) (a.bitmap.bit (vp - basePage pf + (n - 1))) = true := by
  unfold pfree at hfree
  obtain ⟨_, -, hfree⟩ := Except.bind_eq_ok.1 hfree
  obtain ⟨pa, -, hfree⟩ := Except.bind_eq_ok.1 hfree
  obtain ⟨_, -, hfree⟩ := Except.bind_eq_ok.1 hfree
  obtain ⟨t1, hloop, hfree⟩ := Except.bind_eq_ok.1 hfree
  have h0 : Undoing l pf a vp n j 0 t :=
    ⟨h.placed, h.debug, h.vaddr, h.last, h.half, fun hpf i hi _ => h.mapped hpf i hi⟩
  have h1 : Undoing l pf a vp n j (0 + j) t1 := by
    refine (Except.Sat.forRange (E := fun _ => True) (Undoing l pf a vp n j) h0 ?_).of_ok hloop
    intro k t2 _ hk h2
    have hpage : pageAt (vp * 4096) k = (vp + k) * 4096 := by
      have : (vp + k) * 4096 < 2 ^ 32 := by omega
      rw [pageAt, ← Nat.add_mul, Nat.mod_eq_of_lt this]
    rw [hpage]
    cases hr : t2.pfreePage (decide (pa ≥ t.userMemoryPool.physicAddrStart)) ((vp + k) * 4096) with
    | error e => trivial
    | ok t3 =>
      have hend : pf = .kernelPool → 0xC0000 ≤ vp ∧ vp + j < 0xFFC00 := fun hpf => by
        have := hvp hpf
        omega
      exact h2.page hl (show k < j by omega) hend hr
  rw [returnVirtualPage_eq h1.vaddr] at hfree
  cases hfree
  have hidx : sub32 (vp * 4096) a.vaddrStart / 4096 = vp - basePage pf := by
    obtain ⟨d, rfl⟩ := Nat.exists_eq_add_of_le hbase.1
    rw [hstart, sub32_pages (by omega), Nat.add_sub_cancel_left]
  rw [bitAt_setPages, hidx, if_neg]
  · exact h1.last
  · unfold Bitmap.bit
    omega

theorem Booted.run (hb : Booted l s) (ha : s.HasVaddr pf a) (hn : 1 ≤ n) {idx : Nat}
    (hscan : bitmapScan s.debug (s.vbytes pf) a.bitmap n = some (some idx)) :
    a.vaddrStart = basePage pf * 4096 ∧ basePage pf + idx + n < 0x100000 ∧
      (pf = .kernelPool → 0xC0000 ≤ basePage pf + idx ∧ basePage pf + idx + n < 0xFFC00) := by
  obtain ⟨-, hend, hone, -⟩ := bitmapScan_some hn hscan
  cases pf with
  | kernelPool =>
    have hw := hb.window
    have ha' : a = l.kernelVaddr := Eq.trans ha hb.placed.kvaddr
    have hlen : 8 * a.bitmap.bytesLen = l.kernelFrames := by
      rw [ha']
      rfl
    rw [hlen] at hend
    refine ⟨by rw [ha']; rfl, ?_, ?_⟩
    · show 0xC0100 + idx + n < 0x100000
      omega
    · intro _
      show 0xC0000 ≤ 0xC0100 + idx ∧ 0xC0100 + idx + n < 0xFFC00
      omega
  | userPool =>
    obtain ⟨t, ht, hlen, hstart⟩ := hb.thread
    obtain ⟨t', ht', rfl⟩ := ha
    have heq : t' = t := Option.some.inj (ht'.symm.trans ht)
    subst heq
    change idx + n ≤ 8 * t'.userprogVaddr.bitmapBytesLen + 1 at hend
    change n = 1 → idx < 8 * t'.userprogVaddr.bitmapBytesLen at hone
    by_cases hp : t'.pdeAddr = 0
    · rw [hlen, if_pos hp] at hend hone
      omega
    · rw [hlen, if_neg hp] at hend
      refine ⟨hstart hp, ?_, fun hpf => (by cases hpf)⟩
      show 0x8048 + idx + n < 0x100000
      omega

theorem freeFrames_setPages (hc : s.Placed l) (ha : s.HasVaddr pf a) (value : Bool) (n idx : Nat) :
    (s.setPages pf a value n idx).freeFrames pf = s.freeFrames pf := by
  apply hc.freeFrames_congr (hc.of_rest (s.setPages_rest pf a value n idx))
  intro i hi
  have hbit := frameBit_setPages (s := { s with debug := true }) hc ha value n idx hi
  cases pf with
  | kernelPool => exact hbit
  | userPool => rfl

end Run

/-! ## `palloc` -/

/-- The address bitmap of a pool flag, the leaf mappings and the pool's bitmap are the same. The address bitmap is
taken with the bit after its last, which `BitmapScan` counts in. -/
structure Unchanged (s s' : Kernel) (pf : PoolFlags) : Prop where
  vaddr : ∀ a, s.HasVaddr pf a → ∀ i ≤ 8 * a.bitmap.bytesLen,
    bitmapTestBit (s'.vbytes pf) a.bitmap i = bitmapTestBit (s.vbytes pf) a.bitmap i
  leaf : ∀ v < 0xFFC00000, walk s'.ram s'.cr3 v = walk s.ram s.cr3 v
  pool : ∀ i < 8 * (s.pool pf).poolBitmap.bytesLen,
    bitmapTestBit s'.low (s.pool pf).poolBitmap i = bitmapTestBit s.low (s.pool pf).poolBitmap i

theorem Unchanged.refl (s : Kernel) (pf : PoolFlags) : Unchanged s s pf :=
  ⟨fun _ _ _ _ => rfl, fun _ _ => rfl, fun _ _ => rfl⟩

/-- The loop after a run was reserved: all pages get their frames, or the last page of the run stays marked. -/
theorem pallocFrom_off (hl : l.Sized) (hb : Booted l s) (hd : s.debug = false) {n idx r : Nat} {a : VirtualAddr}
    (ha : s.HasVaddr pf a) (hn : 1 ≤ n) (hscan : bitmapScan s.debug (s.vbytes pf) a.bitmap n = some (some idx))
    (h : pallocFrom pf ((basePage pf + idx) * 4096) n ((basePage pf + idx) * 4096) (s.setPages pf a true n idx) =
      .ok (r, s')) :
    (n ≤ s.freeFrames pf ∧ r ≠ 0) ∨
      (s.freeFrames pf < n ∧ r = 0 ∧ bitAt (s'.vbytes pf) (a.bitmap.bit (idx + (n - 1))) = true) := by
  obtain ⟨hstart, hend, hkernel⟩ := hb.run ha hn hscan
  have hrest := s.setPages_rest pf a true n idx
  have hidx : basePage pf + idx - basePage pf = idx := Nat.add_sub_cancel_left _ _
  have hbase : 0 < basePage pf := by cases pf <;> decide
  have h0 : Looping l pf a (basePage pf + idx) n 0 (s.setPages pf a true n idx) := by
    refine ⟨hb.placed.of_rest hrest, ?_, ?_, ?_, ?_, fun _ i hi => absurd hi (Nat.not_lt_zero i)⟩
    · rw [hrest]
      exact hd
    · cases pf with
      | kernelPool => exact ha
      | userPool => exact ha
    · rw [hidx, bitAt_setPages, if_pos]
      unfold Bitmap.bit
      omega
    · intro hpf
      subst hpf
      exact ⟨hb.half.self, hb.half.shared, hb.half.apart⟩
  have hrule := pallocFrom_rule hl (j := 0) (J := Looping l pf a (basePage pf + idx) n)
    (Q := fun t => bitAt (t.vbytes pf) (a.bitmap.bit (basePage pf + idx - basePage pf + (n - 1))) = true)
    hend (fun hJ => ⟨hJ.placed, hJ.debug⟩) ?_ ?_ (Nat.zero_add n) h0 h
  · rw [freeFrames_setPages hb.placed ha, hidx] at hrule
    rcases hrule with ⟨hcard, hr⟩ | hrule
    · refine .inl ⟨hcard, ?_⟩
      rw [hr]
      omega
    · exact .inr hrule
  · intro j t t' i hj hJ hi hclear hpm
    cases pf with
    | kernelPool => exact hJ.map_kernel (hkernel rfl) hj hi hclear hpm
    | userPool => exact hJ.map_user hl hi hclear hpm
  · intro j t t' hj hJ hfree
    exact hJ.undo hl hj ⟨Nat.le_add_right _ _, hend⟩ hstart hkernel hfree

/-- Without `ASSERT`, a call of `palloc` that returns leaves everything as it was when it returns NULL, if it found no
run of pages or the pool has a frame for each page, and only then. -/
theorem palloc_fails_atomically_iff (hl : l.Sized) (hb : Booted l s) (hd : s.debug = false) {n r : Nat} (hn : 1 ≤ n)
    (hlt : n < 3840) {a : VirtualAddr} (ha : s.HasVaddr pf a) (h : s.palloc pf n = .ok (r, s')) :
    (r = 0 → Unchanged s s' pf) ↔
      bitmapScan false (s.vbytes pf) a.bitmap n = some none ∨ n ≤ s.freeFrames pf := by
  unfold palloc at h
  rw [assert_off hd, Except.ok_bind, getVirtualPage_scan ha] at h
  cases hscan : bitmapScan s.debug (s.vbytes pf) a.bitmap n with
  | none =>
    rw [hscan] at h
    cases h
  | some x =>
    rw [hscan] at h
    rw [hd] at hscan
    rw [hscan]
    cases x with
    | none =>
      cases h
      exact iff_of_true (fun _ => Unchanged.refl s pf) (.inl rfl)
    | some idx =>
      rw [← hd] at hscan
      obtain ⟨hstart, hend, -⟩ := hb.run ha hn hscan
      obtain ⟨hclear, hlen, -, -⟩ := bitmapScan_some hn hscan
      have hbase : 0 < basePage pf := by cases pf <;> decide
      have haddr : (a.vaddrStart + idx * 4096) % 2 ^ 32 = (basePage pf + idx) * 4096 := by
        have : (basePage pf + idx) * 4096 < 2 ^ 32 := by omega
        rw [hstart, ← Nat.add_mul, Nat.mod_eq_of_lt this]
      dsimp only at h
      rw [haddr, Except.ok_bind] at h
      dsimp only at h
      rw [if_neg (by omega)] at h
      rcases pallocFrom_off hl hb hd ha hn hscan h with ⟨hcard, hr⟩ | ⟨hcard, hr, hlast⟩
      · exact iff_of_true (fun h0 => absurd h0 hr) (.inr hcard)
      · refine iff_of_false ?_ ?_
        · intro hun
          have hsame := (hun hr).vaddr a ha (idx + (n - 1)) (by omega)
          rw [bitmapTestBit_eq, bitmapTestBit_eq, hlast, hclear (n - 1) (by omega)] at hsame
          cases hsame
        · rintro (h1 | h1)
          · cases h1
          · omega

/-- A machine with 64MB, built with `DEBUG` 0. -/
def bootOff : Kernel := { boot 0x4000000 (fun _ => 0#8) 0xC0010000 with debug := false }

theorem fits_64MB : Fits 0x4000000 := ⟨by decide, by decide⟩

theorem bootOff_booted : Booted (layout 0x4000000) bootOff :=
  (boot_inv fits_64MB (fun _ => 0#8) 0xC0010000).booted_off (by decide)

theorem bootOff_free : 0 < bootOff.freeFrames .kernelPool :=
  bootOff_booted.placed.freeFrames_pos.2 ⟨0, by decide, by decide +kernel⟩

/-- The same with 16MB: the address bitmap of the kernel has 1792 bits. -/
def smallOff : Kernel := { boot 0x1000000 (fun _ => 0#8) 0xC0010000 with debug := false }

theorem smallOff_scan : bitmapScan false smallOff.low smallOff.kernelVaddr.bitmap 2000 = some none := by decide +kernel

theorem smallOff_palloc : (smallOff.palloc .kernelPool 2000).map Prod.fst = .ok 0 := by decide +kernel

/-- `palloc` finds no run of 2000 pages. -/
theorem palloc_fails_atomically_noRun : ∃ s', smallOff.palloc .kernelPool 2000 = .ok (0, s') ∧
    Unchanged smallOff s' .kernelPool := by
  obtain ⟨⟨r, s'⟩, h, rfl⟩ := Except.map_eq_ok.1 smallOff_palloc
  have hf : Fits 0x1000000 := ⟨by decide, by decide⟩
  have hb : Booted (layout 0x1000000) smallOff := (boot_inv hf (fun _ => 0#8) 0xC0010000).booted_off (by decide)
  have hkernel : smallOff.HasVaddr .kernelPool smallOff.kernelVaddr := rfl
  exact ⟨s', h, (palloc_fails_atomically_iff hf.sized hb rfl (by decide) (by decide) hkernel h).2 (.inl smallOff_scan) rfl⟩

def fullPool : Kernel :=
  { bootOff with low := fun a => if memBitmapBase ≤ a ∧ a < memBitmapBase + 992 then 0xFF#8 else bootOff.low a }

theorem fullPool_placed : fullPool.Placed (layout 0x4000000) := by
  have hrest : SameRest bootOff fullPool := rfl
  exact bootOff_booted.placed.of_rest hrest

theorem fullPool_full : fullPool.freeFrames .kernelPool = 0 :=
  fullPool_placed.freeFrames_of_scan (by decide +kernel)

/-- One page: `palloc` returns NULL, and the page stays marked. -/
theorem palloc_full_marks : (fullPool.palloc .kernelPool 1).map
    (fun r => (r.1, bitmapTestBit r.2.low fullPool.kernelVaddr.bitmap 0)) = .ok (0, true) := by
  decide +kernel

theorem palloc_fails_not_atomically : ∃ s', fullPool.palloc .kernelPool 1 = .ok (0, s') ∧
    ¬ Unchanged fullPool s' .kernelPool := by
  obtain ⟨⟨r, s'⟩, h, heq⟩ := Except.map_eq_ok.1 palloc_full_marks
  obtain ⟨hr, hmark⟩ := Prod.mk.inj heq
  have hr : r = 0 := hr
  subst hr
  refine ⟨s', h, ?_⟩
  intro hun
  have hsame := hun.vaddr fullPool.kernelVaddr rfl 0 (Nat.zero_le _)
  have hclear : bitmapTestBit fullPool.low fullPool.kernelVaddr.bitmap 0 = false := by decide +kernel
  exact Bool.noConfusion (hmark.symm.trans (hsame.trans hclear))

/-! ## `VirtualAddrMapping` -/

/-- How often the calling thread has the lock of a pool. -/
def lockDepth (s : Kernel) (pf : PoolFlags) : Nat :=
  if (s.pool pf).lock.holder = some s.current then (s.pool pf).lock.holderRepeatRequestSum else 0

/-- The calling thread has the lock as often as before, and with NULL the bitmaps and the page tables are the same. -/
structure Clean (s s' : Kernel) (pf : PoolFlags) (r : Nat) : Prop where
  lock : s'.lockDepth pf = s.lockDepth pf
  bits : r = 0 → s'.userBits = s.userBits ∧ s'.low = s.low
  tables : r = 0 → s'.ram = s.ram

theorem lockDepth_congr (h : s'.pool pf = s.pool pf) (hcur : s'.current = s.current) :
    s'.lockDepth pf = s.lockDepth pf := by
  unfold lockDepth
  rw [h, hcur]

theorem lockPool_depth (h : s.lockPool pf = .ok s') :
    ∃ lock, s' = s.setLock pf lock ∧ lock.holder = some s.current ∧
      lock.holderRepeatRequestSum = (s.lockDepth pf + 1) % 2 ^ 32 := by
  unfold lockPool sysLockLock at h
  split at h
  · rename_i lock status hlock
    cases h
    refine ⟨lock, rfl, ?_⟩
    by_cases hold : (s.pool pf).lock.holder = some s.current
    · rw [if_neg (not_not.2 hold)] at hlock
      cases hlock
      refine ⟨hold, ?_⟩
      rw [lockDepth, if_pos hold]
    · rw [if_pos hold] at hlock
      have hdepth : s.lockDepth pf = 0 := if_neg hold
      unfold Lock.down at hlock
      split at hlock
      · cases hlock
      · cases hlock
      · split at hlock
        · cases hlock
          rw [hdepth]
          exact ⟨rfl, rfl⟩
        · cases hlock
  · cases h
  · cases h

theorem unlockPool_depth (h : s.unlockPool pf = .ok s') :
    s'.lockDepth pf + 1 = (s.pool pf).lock.holderRepeatRequestSum := by
  unfold unlockPool sysLockUnlock at h
  split at h
  · rename_i lock status hlock
    cases h
    have hcur : (s.setLock pf lock).current = s.current := by cases pf <;> rfl
    rw [lockDepth, setLock_pool, hcur]
    split at hlock
    · cases hlock
    · rename_i hold
      split at hlock
      · rename_i hgt
        cases hlock
        rw [if_pos (not_not.1 hold)]
        exact Nat.sub_add_cancel (by omega)
      · split at hlock
        · cases hlock
        · rename_i hgt hone
          split at hlock
          · cases hlock
          · cases hlock
            rw [not_not.1 hone]
            rfl
  · cases h

theorem Placed.setLock (hc : s.Placed l) (pf : PoolFlags) (lock : Lock Nat) : (s.setLock pf lock).Placed l := by
  have hp := SamePaging.setLock s pf lock
  refine ⟨rfl, ?_, ?_, ?_, hp.kvaddr.trans hc.kvaddr⟩
  · intro pf'
    exact (hp.bitmap pf').trans (Config.bitmap hc pf')
  · intro pf'
    exact (hp.start pf').trans (Config.start hc pf')
  · intro pf'
    exact (congrArg (· + 0x200000) (hp.size pf')).trans_le (Config.size hc pf')

theorem freeFrames_setLock (s : Kernel) (pf : PoolFlags) (lock : Lock Nat) :
    (s.setLock pf lock).freeFrames pf = s.freeFrames pf := by
  cases pf <;> rfl

/-- The mark is in no pool's bitmap. -/
theorem markPage_off (hc : s.Placed l) {t : PCB} {v : Nat} (h : s.markPage t pf v = .ok s') :
    SameRest s s' ∧ s'.freeFrames pf = s.freeFrames pf := by
  unfold markPage at h
  split at h
  · obtain ⟨_, -, h⟩ := Except.bind_eq_ok.1 h
    cases h
    exact ⟨rfl, rfl⟩
  · split at h
    · obtain ⟨_, -, h⟩ := Except.bind_eq_ok.1 h
      cases h
      refine ⟨rfl, hc.freeFrames_congr (hc.of_rest rfl) ?_⟩
      intro i hi
      dsimp only
      rw [bitAt_setBit, if_neg (Ne.symm (hc.kernel_last (show s.HasVaddr .kernelPool s.kernelVaddr from rfl) hi _))]
    · cases h

/-- Without `ASSERT`, a call of `VirtualAddrMapping` that returns gives back the lock and what it took, if the pool had
a free frame, and only then. -/
theorem virtualAddrMapping_clean_iff (hl : l.Sized) (hc : s.Placed l) (hd : s.debug = false) {v r : Nat} (hv : 0 < v)
    (hsum : (s.pool pf).lock.holderRepeatRequestSum < 2 ^ 32) (h : s.virtualAddrMapping pf v = .ok (r, s')) :
    Clean s s' pf r ↔ 0 < s.freeFrames pf := by
  unfold virtualAddrMapping at h
  obtain ⟨s1, hlock, h1⟩ := Except.bind_eq_ok.1 h
  obtain ⟨t, -, h2⟩ := Except.bind_eq_ok.1 h1
  obtain ⟨s2, hmark, h3⟩ := Except.bind_eq_ok.1 h2
  clear h h1 h2
  obtain ⟨lock, rfl, hholder, hlocksum⟩ := lockPool_depth hlock
  obtain ⟨hrest, hfree⟩ := markPage_off (hc.setLock pf lock) hmark
  rw [freeFrames_setLock] at hfree
  have hcur : (s.setLock pf lock).current = s.current := by cases pf <;> rfl
  have hdepth : s.lockDepth pf < 2 ^ 32 := by
    unfold lockDepth
    split_ifs
    · exact hsum
    · decide
  have hdebug : s2.debug = false := by
    rw [hrest]
    cases pf <;> exact hd
  rcases getOnePhysicPage_off hl ((hc.setLock pf lock).of_rest hrest) hdebug pf with ⟨hempty, hget⟩ | ⟨i, hi, hclear, hget⟩
  · rw [hget, Except.ok_bind] at h3
    dsimp only at h3
    rw [if_pos rfl] at h3
    cases h3
    refine iff_of_false ?_ ?_
    · -- the lock is still held
      intro hclean
      have hheld := hclean.lock
      rw [lockDepth_congr (hrest.pool pf) hrest.current] at hheld
      rw [lockDepth, setLock_pool, hcur, if_pos hholder, hlocksum] at hheld
      omega
    · rw [← hfree, hempty]
      exact Nat.lt_irrefl 0
  · have hne : (l.start pf + i) * 4096 ≠ 0 := by
      have := l.start_ge pf
      omega
    rw [hget, Except.ok_bind] at h3
    dsimp only at h3
    rw [if_neg hne] at h3
    obtain ⟨s4, hpm, h4⟩ := Except.bind_eq_ok.1 h3
    obtain ⟨s5, hunlock, h5⟩ := Except.bind_eq_ok.1 h4
    cases h5
    refine iff_of_true ⟨?_, fun h0 => absurd h0 (by omega), fun h0 => absurd h0 (by omega)⟩ ?_
    · have hplaced := ((hc.setLock pf lock).of_rest hrest).of_rest
        (show SameRest s2 { s2 with low := bitmapSetBit s2.low (s2.pool pf).poolBitmap i true } from rfl)
      have hpool : s4.pool pf = s2.pool pf := by
        rcases pageMapping_off hl hplaced hdebug hpm with ⟨ram, rfl⟩ | ⟨k, -, ram, rfl⟩ <;> rfl
      have hback := unlockPool_depth hunlock
      rw [hpool, hrest.pool, setLock_pool, hlocksum] at hback
      omega
    · rw [← hfree]
      exact ((hc.setLock pf lock).of_rest hrest).freeFrames_pos.2 ⟨i, hi, hclear⟩

theorem bootOff_mapping : (bootOff.virtualAddrMapping .kernelPool 0xC0101000).map Prod.fst = .ok 0xC0101000 := by
  decide +kernel

/-- With the pool full, NULL comes back with the lock held and the page marked. -/
theorem mapping_full_marks : (fullPool.virtualAddrMapping .kernelPool 0xC0101000).map
    (fun r => (r.1, r.2.lockDepth .kernelPool, bitmapTestBit r.2.low fullPool.kernelVaddr.bitmap 1)) =
      .ok (0, 1, true) := by
  decide +kernel

/-- With a free frame, and without one. -/
theorem virtualAddrMapping_clean_full :
    (∃ r s', bootOff.virtualAddrMapping .kernelPool 0xC0101000 = .ok (r, s') ∧ Clean bootOff s' .kernelPool r) ∧
    ∃ r s', fullPool.virtualAddrMapping .kernelPool 0xC0101000 = .ok (r, s') ∧ ¬ Clean fullPool s' .kernelPool r := by
  constructor
  · obtain ⟨⟨r, s'⟩, h, -⟩ := Except.map_eq_ok.1 bootOff_mapping
    exact ⟨r, s', h, (virtualAddrMapping_clean_iff fits_64MB.sized bootOff_booted.placed rfl (by decide) (by decide) h).2
      bootOff_free⟩
  · obtain ⟨⟨r, s'⟩, h, -⟩ := Except.map_eq_ok.1 mapping_full_marks
    refine ⟨r, s', h, ?_⟩
    rw [virtualAddrMapping_clean_iff fits_64MB.sized fullPool_placed rfl (by decide) (by decide) h, fullPool_full]
    exact Nat.lt_irrefl 0

theorem virtualAddrMapping_not_clean : ∃ s', fullPool.virtualAddrMapping .kernelPool 0xC0101000 = .ok (0, s') ∧
    fullPool.lockDepth .kernelPool = 0 ∧ s'.lockDepth .kernelPool = 1 ∧ ¬ Clean fullPool s' .kernelPool 0 := by
  obtain ⟨⟨r, s'⟩, h, heq⟩ := Except.map_eq_ok.1 mapping_full_marks
  obtain ⟨hr, hrest⟩ := Prod.mk.inj heq
  obtain ⟨hdepth, -⟩ := Prod.mk.inj hrest
  have hr : r = 0 := hr
  subst hr
  have hzero : fullPool.lockDepth .kernelPool = 0 := by decide +kernel
  refine ⟨s', h, hzero, hdepth, ?_⟩
  intro hclean
  exact Nat.one_ne_zero (hdepth.symm.trans (hclean.lock.trans hzero))

end ElephantOS.Kernel
