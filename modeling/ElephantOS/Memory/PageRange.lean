import ElephantOS.Memory.PageOps

/-!
# Page ranges

* `getVirtualPage_sat` : `GetVirtualPage` reserves the first run of pages that are not mapped;
* `palloc_sat` : `palloc` maps such a run, page by page; what stops it is a full bitmap, or the page past
  the end of the address space;
* `pfree_ok` : `pfree` of mapped pages that hold no PCB and no directory never stops, and gives back the
  pages and the bits of their frames.
-/

namespace ElephantOS

theorem bitAt_setBits (m : Bytes) (btmp : Bitmap) (value : Bool) (n idx k : Nat) :
    bitAt (setBits m btmp value n idx) k =
      if btmp.bit idx ≤ k ∧ k < btmp.bit idx + n then value else bitAt m k := by
  induction n generalizing m idx with
  | zero => rw [setBits, if_neg (by omega)]
  | succ n ih =>
    rw [setBits, ih, bitAt_setBit]
    unfold Bitmap.bit
    by_cases h : k = 8 * btmp.bits + idx
    · rw [if_neg (by omega), if_pos h, if_pos (by omega)]
    · rw [if_neg h]
      by_cases hr : 8 * btmp.bits + (idx + 1) ≤ k ∧ k < 8 * btmp.bits + (idx + 1) + n
      · rw [if_pos hr, if_pos (by omega)]
      · rw [if_neg hr, if_neg (by omega)]

def basePage : PoolFlags → Nat
  | .kernelPool => 0xC0100
  | .userPool => userFirst

namespace Kernel
variable {l : Layout} {s s' : Kernel} {pend pend' : Page → Prop} {pf : PoolFlags}

def HasVaddr (s : Kernel) (pf : PoolFlags) (a : VirtualAddr) : Prop :=
  match pf with
  | .kernelPool => a = s.kernelVaddr
  | .userPool => ∃ t, s.pcb s.current = some t ∧ a = t.userprogVaddr

def vbytes (s : Kernel) : PoolFlags → Bytes
  | .kernelPool => s.low
  | .userPool => s.userBits s.current

def setPages (s : Kernel) (pf : PoolFlags) (a : VirtualAddr) (value : Bool) (n idx : Nat) : Kernel :=
  match pf with
  | .kernelPool => { s with low := setBits s.low a.bitmap value n idx }
  | .userPool => { s with userBits := Function.update s.userBits s.current
                            (setBits (s.userBits s.current) a.bitmap value n idx) }

/-- The pages `vp`, …, `vp + n - 1` of the address space a pool flag stands for. -/
def InRange (s : Kernel) (pf : PoolFlags) (vp n : Nat) (pg : Page) : Prop := ∃ k < n, pg = s.pageOf pf (vp + k)

theorem setPages_rest (s : Kernel) (pf : PoolFlags) (a : VirtualAddr) (value : Bool) (n idx : Nat) :
    SameRest s (s.setPages pf a value n idx) := by
  cases pf <;> rfl

theorem setPages_userBits (s : Kernel) (pf : PoolFlags) (a : VirtualAddr) (value : Bool) (n idx : Nat) {q : Nat}
    (hq : q ≠ s.current) : (s.setPages pf a value n idx).userBits q = s.userBits q := by
  cases pf with
  | kernelPool => rfl
  | userPool => simp [setPages, hq]

theorem setPages_ram (s : Kernel) (pf : PoolFlags) (a : VirtualAddr) (value : Bool) (n idx : Nat) :
    (s.setPages pf a value n idx).ram = s.ram := by
  cases pf <;> rfl

theorem vbit_pageOf (hc : s.Config l) {a : VirtualAddr} (ha : s.HasVaddr pf a) (vp : Nat) :
    s.vbit l (s.pageOf pf vp) = bitAt (s.vbytes pf) (a.bitmap.bit (vp - basePage pf)) := by
  cases pf with
  | kernelPool =>
    rw [show a = l.kernelVaddr from ha.trans hc.kvaddr]
    change _ = bitAt s.low (l.kernelVaddr.bitmap.bit (vp - 0xC0100))
    rw [l.pageBit_eq]
    rfl
  | userPool =>
    obtain ⟨t, ht, rfl⟩ := ha
    simp only [vbit, pageOf, ht]
    rfl

theorem bitAt_setPages (s : Kernel) (pf : PoolFlags) (a : VirtualAddr) (value : Bool) (n idx m : Nat) :
    bitAt ((s.setPages pf a value n idx).vbytes pf) m =
      if a.bitmap.bit idx ≤ m ∧ m < a.bitmap.bit idx + n then value else bitAt (s.vbytes pf) m := by
  rw [← bitAt_setBits]
  cases pf with
  | kernelPool => rfl
  | userPool => simp [vbytes, setPages]

theorem vbit_setPages (hc : s.Config l) {a : VirtualAddr} (ha : s.HasVaddr pf a) (value : Bool) {n vp v : Nat}
    (hvp : basePage pf ≤ vp) (hv : basePage pf ≤ v) :
    (s.setPages pf a value n (vp - basePage pf)).vbit l (s.pageOf pf v) =
      if vp ≤ v ∧ v < vp + n then value else s.vbit l (s.pageOf pf v) := by
  have hrest := s.setPages_rest pf a value n (vp - basePage pf)
  have ha' : (s.setPages pf a value n (vp - basePage pf)).HasVaddr pf a := by
    cases pf <;> exact ha
  have hpg : s.pageOf pf v = (s.setPages pf a value n (vp - basePage pf)).pageOf pf v := by
    cases pf <;> rfl
  rw [hpg, vbit_pageOf (hrest.config hc) ha', bitAt_setPages, ← hpg, vbit_pageOf hc ha]
  unfold Bitmap.bit
  by_cases h : vp ≤ v ∧ v < vp + n
  · rw [if_pos h, if_pos (by omega)]
  · rw [if_neg h, if_neg (by omega)]

theorem vbit_setPages_other {a : VirtualAddr} (value : Bool) {n idx : Nat} {pg : Page}
    (hpg : ∀ v, pg ≠ s.pageOf pf v) : (s.setPages pf a value n idx).vbit l pg = s.vbit l pg := by
  cases pf with
  | kernelPool =>
    cases pg with
    | kernel v => exact absurd rfl (hpg v)
    | user p v => rfl
  | userPool =>
    cases pg with
    | kernel v => rfl
    | user p v =>
      have hp : p ≠ s.current := fun h => hpg v (by rw [h]; rfl)
      simp [vbit, setPages, hp]

theorem frameBit_setPages (hc : s.Config l) {a : VirtualAddr} (ha : s.HasVaddr pf a) (value : Bool) (n idx : Nat)
    {pf' : PoolFlags} {i : Nat} (hi : i < l.frames pf') :
    bitAt (s.setPages pf a value n idx).low (l.frameBit pf' i) = bitAt s.low (l.frameBit pf' i) := by
  cases pf with
  | kernelPool =>
    have hlt := l.frameBit_lt_pageBit hi (0xC0100 + idx)
    rw [← l.pageBit_eq, Nat.add_sub_cancel_left, ← hc.kvaddr, ← show a = s.kernelVaddr from ha] at hlt
    change bitAt (setBits _ _ _ _ _) _ = _
    rw [bitAt_setBits, if_neg (by omega)]
  | userPool => rfl

/-- The page tables and the frames do not depend on the address bitmaps. -/
theorem PageInv.of_bits (hi : PageInv l pend s) (hrest : SameRest s s') (hram : s'.ram = s.ram)
    (hlow : ∀ pf i, i < l.frames pf → bitAt s'.low (l.frameBit pf i) = bitAt s.low (l.frameBit pf i))
    (hv : s'.Virt l pend') : PageInv l pend' s' := by
  have hm : SameMaps s s' := maps_other hrest.pcb (fun f _ i => by rw [hram]) (fun p d _ i => by rw [hram])
    fun p j t _ i => by rw [hram]
  refine ⟨hrest.config hi.config, ?_, ?_, ⟨?_, ?_, fun h8 => ?_⟩, hv⟩
  · exact hi.tables.of_dirs hm.dir (fun _ _ _ => by rw [hram]) (by rw [hram])
  · exact hi.threads.of_maps hrest hm.dir fun hsys => by rw [hm.kmap]; exact hi.threads.kmap_system hsys
  · refine hi.frames.kernel.congr (fun o => ?_) fun i hlt => by rw [hlow .kernelPool i hlt]
    cases o with
    | leaf vp => simp only [kown, hm.kmap]
    | tab p j => simp only [kown, hm.tab]
  · intro p vp f h
    rw [hm.umap] at h
    exact hi.frames.urange h
  · refine (hi.frames.user h8).congr (fun o => by simp only [uown, hm.umap]) fun i hlt => ?_
    rw [hlow .userPool i hlt]

theorem map_eq_of_ram (hrest : SameRest s s') (hram : s'.ram = s.ram) :
    s'.map = s.map ∧ s'.dir = s.dir ∧ s'.tab = s.tab := by
  have hm : SameMaps s s' := maps_other hrest.pcb (fun f _ i => by rw [hram]) (fun p d _ i => by rw [hram])
    fun p j t _ i => by rw [hram]
  refine ⟨?_, hm.dir, hm.tab⟩
  funext pg
  cases pg with
  | kernel vp => simp only [map, hm.kmap]
  | user p vp => simp only [map, hm.umap]

/-- A page in reach is one of the address space of `pf`, at or after its first page, or another one. -/
theorem pageOf_or (s : Kernel) (pf : PoolFlags) (pg : Page) :
    (∃ v, pg = s.pageOf pf v) ∨ ∀ v, pg ≠ s.pageOf pf v := by
  by_cases h : ∃ v, pg = s.pageOf pf v
  · exact .inl h
  · exact .inr fun v hv => h ⟨v, hv⟩

theorem Reach.base_le {v : Nat} (h : s.Reach l (s.pageOf pf v)) : basePage pf ≤ v := by
  cases pf with
  | kernelPool => exact h.1
  | userPool => exact h.2.1

theorem Window.base_le {v : Nat} (h : s.Window l (s.pageOf pf v)) : basePage pf ≤ v := by
  cases pf with
  | kernelPool => exact h.1
  | userPool => exact h.2.1

theorem pageOf_inj {v w : Nat} : s.pageOf pf v = s.pageOf pf w ↔ v = w := by
  cases pf <;> simp [pageOf]

theorem inRange_pageOf {vp n v : Nat} : s.InRange pf vp n (s.pageOf pf v) ↔ vp ≤ v ∧ v < vp + n := by
  constructor
  · rintro ⟨k, hk, he⟩
    rw [pageOf_inj] at he
    omega
  · intro h
    exact ⟨v - vp, by omega, by rw [show vp + (v - vp) = v by omega]⟩

theorem Virt.reserve (hc : s.Config l) (hv : s.Virt l Stable) {a : VirtualAddr} (ha : s.HasVaddr pf a) {n vp : Nat}
    (hvp : basePage pf ≤ vp) :
    Virt l (s.InRange pf vp n) (s.setPages pf a true n (vp - basePage pf)) := by
  have hrest := s.setPages_rest pf a true n (vp - basePage pf)
  obtain ⟨hmap, -, -⟩ := map_eq_of_ram hrest (s.setPages_ram pf a true n (vp - basePage pf))
  refine ⟨fun {pg} h => ?_, fun {pg} hw hb => ?_⟩
  · rw [hmap] at h
    obtain ⟨hr, hbit⟩ := hv.mapped h
    refine ⟨hrest.reach.2 hr, ?_⟩
    rcases s.pageOf_or pf pg with ⟨v, rfl⟩ | hother
    · rw [vbit_setPages hc ha true hvp hr.base_le]
      split
      · rfl
      · exact hbit
    · rw [vbit_setPages_other true hother, hbit]
  · rw [hrest.window] at hw
    rw [hmap]
    rcases s.pageOf_or pf pg with ⟨v, rfl⟩ | hother
    · rw [vbit_setPages hc ha true hvp hw.base_le] at hb
      rw [inRange_pageOf]
      split at hb
      · rename_i h
        exact .inr h
      · exact .inl ((hv.set hw hb).resolve_right id)
    · rw [vbit_setPages_other true hother] at hb
      exact .inl ((hv.set hw hb).resolve_right id)

/-- Returning a range of pages that are not mapped. -/
theorem Virt.giveBack (hc : s.Config l) {a : VirtualAddr} (ha : s.HasVaddr pf a) {n vp : Nat}
    (hvp : basePage pf ≤ vp) (hv : s.Virt l (s.InRange pf vp n))
    (hnone : ∀ pg, s.InRange pf vp n pg → s.map pg = none) :
    Virt l Stable (s.setPages pf a false n (vp - basePage pf)) := by
  have hrest := s.setPages_rest pf a false n (vp - basePage pf)
  obtain ⟨hmap, -, -⟩ := map_eq_of_ram hrest (s.setPages_ram pf a false n (vp - basePage pf))
  refine ⟨fun {pg} h => ?_, fun {pg} hw hb => ?_⟩
  · rw [hmap] at h
    obtain ⟨hr, hbit⟩ := hv.mapped h
    refine ⟨hrest.reach.2 hr, ?_⟩
    rcases s.pageOf_or pf pg with ⟨v, rfl⟩ | hother
    · rw [vbit_setPages hc ha false hvp hr.base_le, if_neg]
      · exact hbit
      · exact fun hin => h (hnone _ (inRange_pageOf.2 hin))
    · rw [vbit_setPages_other false hother, hbit]
  · rw [hrest.window] at hw
    rw [hmap]
    rcases s.pageOf_or pf pg with ⟨v, rfl⟩ | hother
    · rw [vbit_setPages hc ha false hvp hw.base_le] at hb
      split at hb
      · cases hb
      · rename_i h
        exact .inl ((hv.set hw hb).resolve_right fun hin => h (inRange_pageOf.1 hin))
    · rw [vbit_setPages_other false hother] at hb
      refine .inl ((hv.set hw hb).resolve_right ?_)
      rintro ⟨k, -, hk⟩
      exact hother _ hk

/-! ## `GetVirtualPage` -/

/-- Where a run of `n` pages that starts at page `vp` can be: the run may end one page past the window, and in
the kernel's address space it may begin at the window of the directory. -/
def RunAt (s : Kernel) (l : Layout) (pf : PoolFlags) (vp n : Nat) : Prop :=
  match pf with
  | .kernelPool => 0xC0100 ≤ vp ∧ vp ≤ 0xFFC00 ∧ vp + n ≤ 0xC0100 + l.kernelFrames + 1
  | .userPool => s.IsProcess s.current ∧ userFirst ≤ vp ∧ vp < userEnd ∧ vp + n ≤ userEnd + 1

theorem Threads.hasVaddr (ht : s.Threads) (pf : PoolFlags) : ∃ a, s.HasVaddr pf a := by
  cases pf with
  | kernelPool => exact ⟨_, rfl⟩
  | userPool =>
    obtain ⟨t, htc⟩ := ht.cur
    exact ⟨_, t, htc, rfl⟩

theorem getVirtualPage_scan {a : VirtualAddr} (ha : s.HasVaddr pf a) (n : Nat) :
    s.getVirtualPage pf n = match bitmapScan s.debug (s.vbytes pf) a.bitmap n with
      | some (some idx) => .ok ((a.vaddrStart + idx * 4096) % 2 ^ 32, s.setPages pf a true n idx)
      | some none => .ok (0, s)
      | none => .error .bitmapFull := by
  cases pf with
  | kernelPool =>
    have ha' : a = s.kernelVaddr := ha
    subst ha'
    rw [getVirtualPage, scan, vbytes]
    cases bitmapScan s.debug s.low s.kernelVaddr.bitmap n with
    | none => rfl
    | some x => cases x <;> rfl
  | userPool =>
    obtain ⟨t, ht, rfl⟩ := ha
    rw [getVirtualPage, getPcb, ht]
    dsimp only
    rw [Except.ok_bind, scan, vbytes]
    cases bitmapScan s.debug (s.userBits s.current) t.userprogVaddr.bitmap n with
    | none => rfl
    | some x => cases x <;> rfl

theorem getVirtualPage_eq (hc : s.Config l) {a : VirtualAddr} (ha : s.HasVaddr pf a) (n : Nat) :
    s.getVirtualPage pf n = match bitmapScan true (s.vbytes pf) a.bitmap n with
      | some (some idx) => .ok ((a.vaddrStart + idx * 4096) % 2 ^ 32, s.setPages pf a true n idx)
      | some none => .ok (0, s)
      | none => .error .bitmapFull := by
  rw [getVirtualPage_scan ha, hc.debug]

/-- The address bitmap starts at the first page; the run the scan finds is in place. -/
theorem scan_runAt (hi : PageInv l Stable s) {a : VirtualAddr} (ha : s.HasVaddr pf a) {n idx : Nat} (hn : 1 ≤ n)
    (hscan : bitmapScan true (s.vbytes pf) a.bitmap n = some (some idx)) :
    a.vaddrStart = basePage pf * 4096 ∧ s.RunAt l pf (basePage pf + idx) n := by
  obtain ⟨-, hend, hone, hmin⟩ := bitmapScan_some hn hscan
  cases pf with
  | kernelPool =>
    have ha' : a = l.kernelVaddr := ha.trans hi.config.kvaddr
    subst ha'
    change idx + n ≤ 8 * l.kernelBitmapLength + 1 at hend
    refine ⟨rfl, by change 0xC0100 ≤ 0xC0100 + idx; omega, ?_, by change 0xC0100 + idx + n ≤ _; unfold Layout.kernelFrames; omega⟩
    change 0xC0100 + idx ≤ 0xFFC00
    by_contra hgt
    -- no page from 0xFFC00 on is marked, so an earlier run would have been found
    refine hmin 0x3FB00 (by omega) fun k hk => ?_
    by_contra hset
    rw [Bool.not_eq_false] at hset
    have hwin : s.Window l (.kernel (0xFFC00 + k)) := ⟨by omega, by unfold Layout.kernelFrames; omega⟩
    have hbit : s.vbit l (.kernel (0xFFC00 + k)) = true := by
      rw [show Page.kernel (0xFFC00 + k) = s.pageOf .kernelPool (0xFFC00 + k) from rfl, vbit_pageOf hi.config ha]
      rw [show 0xFFC00 + k - basePage .kernelPool = 0x3FB00 + k by change 0xFFC00 + k - 0xC0100 = _; omega]
      exact hset
    have hmapped := (hi.virt.set hwin hbit).resolve_right id
    have := (hi.virt.mapped hmapped).1.2.2
    omega
  | userPool =>
    obtain ⟨t, ht, rfl⟩ := ha
    obtain ⟨hlen, hstart⟩ := hi.threads.vaddr ht
    change idx + n ≤ 8 * t.userprogVaddr.bitmapBytesLen + 1 at hend
    change n = 1 → idx < 8 * t.userprogVaddr.bitmapBytesLen at hone
    by_cases hp : t.pdeAddr = 0
    · rw [hlen, if_pos hp] at hend hone
      omega
    · rw [hlen, if_neg hp] at hend hone
      refine ⟨hstart hp, ⟨t, ht, hp⟩, ?_⟩
      change 0x8048 ≤ 0x8048 + idx ∧ 0x8048 + idx < 0xC0000 ∧ 0x8048 + idx + n ≤ 0xC0000 + 1
      omega

/-- What `GetVirtualPage` does when it finds a run. -/
structure Reserved (l : Layout) (s s' : Kernel) (pf : PoolFlags) (vp n : Nat) : Prop where
  rest : SameRest s s'
  ram : s'.ram = s.ram
  bits : ∀ q, q ≠ s.current → s'.userBits q = s.userBits q
  run : s.RunAt l pf vp n
  fresh : ∀ k < n, s.vbit l (s.pageOf pf (vp + k)) = false
  set : ∀ k < n, s'.vbit l (s.pageOf pf (vp + k)) = true
  inv : PageInv l (s.InRange pf vp n) s'

theorem RunAt.base_le {vp n : Nat} (h : s.RunAt l pf vp n) : basePage pf ≤ vp := by
  cases pf with
  | kernelPool => exact h.1
  | userPool => exact h.2.1

/-- The run starts below 4GB, and not at address 0. -/
theorem RunAt.vaddr {vp n : Nat} (h : s.RunAt l pf vp n) : vp * 4096 < 2 ^ 32 ∧ 0 < vp := by
  cases pf with
  | kernelPool =>
    obtain ⟨h1, h2, -⟩ := h
    omega
  | userPool =>
    obtain ⟨-, h1, h2, -⟩ := h
    unfold userFirst at h1
    unfold userEnd at h2
    omega

theorem getVirtualPage_sat (hi : PageInv l Stable s) {n : Nat} (hn : 1 ≤ n) :
    Except.Sat (s.getVirtualPage pf n)
      (fun r => r = (0, s) ∨ ∃ vp, 0 < vp ∧ r.1 = vp * 4096 ∧ Reserved l s r.2 pf vp n) (· = .bitmapFull) := by
  obtain ⟨a, ha⟩ := hi.threads.hasVaddr pf
  rw [getVirtualPage_eq hi.config ha]
  cases hscan : bitmapScan true (s.vbytes pf) a.bitmap n with
  | none => exact rfl
  | some x =>
    cases x with
    | none => exact .inl rfl
    | some idx =>
      obtain ⟨hstart, hrun⟩ := scan_runAt hi ha hn hscan
      obtain ⟨hclear, -⟩ := bitmapScan_some hn hscan
      have hv := hrun.vaddr
      have hidx : basePage pf + idx - basePage pf = idx := Nat.add_sub_cancel_left _ _
      have hset : ∀ k < n, (s.setPages pf a true n idx).vbit l (s.pageOf pf (basePage pf + idx + k)) = true :=
        fun k hk => by
          have := vbit_setPages hi.config ha true (n := n) (Nat.le_add_right (basePage pf) idx)
            (show basePage pf ≤ basePage pf + idx + k by omega)
          rwa [hidx, if_pos (by omega)] at this
      refine .inr ⟨basePage pf + idx, hv.2, ?_, ⟨s.setPages_rest .., s.setPages_ram .., fun q hq => s.setPages_userBits _ _ _ _ _ hq, hrun, fun k hk => ?_, hset, ?_⟩⟩
      · change (a.vaddrStart + idx * 4096) % 2 ^ 32 = _
        rw [hstart, ← Nat.add_mul, Nat.mod_eq_of_lt hv.1]
      · rw [vbit_pageOf hi.config ha, show basePage pf + idx + k - basePage pf = idx + k by omega]
        exact hclear k hk
      · refine hi.of_bits (s.setPages_rest ..) (s.setPages_ram ..)
          (fun pf' i hlt => frameBit_setPages hi.config ha true n idx hlt) ?_
        have := Virt.reserve hi.config hi.virt ha (n := n) (Nat.le_add_right (basePage pf) idx)
        rwa [hidx] at this

/-! ## `palloc` -/

theorem PageInv.weaken (hi : PageInv l pend s) (h : ∀ pg, pend pg → pend' pg) : PageInv l pend' s :=
  ⟨hi.config, hi.tables, hi.threads, hi.frames, hi.virt.mapped,
    fun hw hb => (hi.virt.set hw hb).imp_right (h _)⟩

structure Grown (s s' : Kernel) (pf : PoolFlags) (vp n : Nat) : Prop where
  fresh : ∀ k < n, s.map (s.pageOf pf (vp + k)) = none
  mapped : ∀ k < n, ∃ f, s'.map (s.pageOf pf (vp + k)) = some f
  map : ∀ pg, ¬ s.InRange pf vp n pg → s'.map pg = s.map pg
  dir : s'.dir = s.dir
  tab : ∀ {p j t}, s.tab p j = some t → s'.tab p j = some t
  ktab : pf = .kernelPool → s'.tab = s.tab
  bits : ∀ q, q ≠ s.current → s'.userBits q = s.userBits q

/-- What mapping the pages `vp`, …, `vp + n - 1` changes. -/
structure Allocated (s s' : Kernel) (pf : PoolFlags) (vp n : Nat) : Prop extends Grown s s' pf vp n where
  rest : SameRest s s'

theorem Allocated.zero (s : Kernel) (pf : PoolFlags) (vp : Nat) : Allocated s s pf vp 0 :=
  ⟨⟨fun k hk => absurd hk (Nat.not_lt_zero k), fun k hk => absurd hk (Nat.not_lt_zero k), fun _ _ => rfl, rfl,
    fun h => h, fun _ => rfl, fun _ _ => rfl⟩, .refl s⟩

theorem SameRest.pageOf (h : SameRest s s') (v : Nat) : s'.pageOf pf v = s.pageOf pf v := by
  cases pf with
  | kernelPool => rfl
  | userPool =>
    unfold Kernel.pageOf
    rw [h.current]

theorem Allocated.snoc {s'' : Kernel} {vp n f : Nat} (h : Allocated s s' pf vp n)
    (hnone : s'.map (s.pageOf pf (vp + n)) = none) (hm : MapStep l s' s'' (s.pageOf pf (vp + n)) f) :
    Allocated s s'' pf vp (n + 1) := by
  have hlast : ¬ s.InRange pf vp n (s.pageOf pf (vp + n)) := fun h => by
    have := inRange_pageOf.1 h
    omega
  refine ⟨⟨fun k hk => ?_, fun k hk => ?_, fun pg hpg => ?_, hm.dir.trans h.dir,
    fun ht => hm.tab (h.tab ht), fun hpf => ?_, fun q hq => ?_⟩, h.rest.trans hm.rest⟩
  · rcases Nat.lt_succ_iff_lt_or_eq.1 hk with hlt | rfl
    · exact h.fresh k hlt
    · rw [← h.map _ hlast]
      exact hnone
  · rw [hm.map]
    rcases Nat.lt_succ_iff_lt_or_eq.1 hk with hlt | rfl
    · rw [if_neg fun he => by rw [pageOf_inj] at he; omega]
      exact h.mapped k hlt
    · exact ⟨f, if_pos rfl⟩
  · rw [hm.map, if_neg fun he => hpg ⟨n, by omega, he⟩]
    exact h.map pg fun ⟨k, hk, he⟩ => hpg ⟨k, by omega, he⟩
  · subst hpf
    exact (hm.ktab rfl).trans (h.ktab rfl)
  · rw [hm.bits]
    exact h.bits q hq

/-- The page past the last one that can be mapped. -/
def lastPage : PoolFlags → Nat
  | .kernelPool => 0xFFC00
  | .userPool => 0xC0000

def PallocStop (e : Panic) : Prop :=
  e = .pageCount ∨ e = .bitmapFull ∨ ∃ v, e = .vpageMapped v ∧ (v / 4096 = 0xC0000 ∨ v / 4096 = 0xFFC00)

theorem RunAt.reach {vp n k : Nat} (h : s.RunAt l pf vp n) (hk : k < n) (hlt : vp + k < lastPage pf) :
    s.Reach l (s.pageOf pf (vp + k)) := by
  cases pf with
  | kernelPool =>
    obtain ⟨h1, -, h3⟩ := h
    exact ⟨by omega, by omega, hlt⟩
  | userPool =>
    obtain ⟨h1, h2, -, h3⟩ := h
    exact ⟨h1, by omega, hlt⟩

theorem RunAt.first {vp n : Nat} (h : s.RunAt l pf vp n) : vp ≤ lastPage pf := by
  cases pf with
  | kernelPool => exact h.2.1
  | userPool => exact h.2.2.1.le

theorem lastPage_le (pf : PoolFlags) : lastPage pf ≤ 0xFFC00 := by
  cases pf <;> decide

/-- The pages that the loop of `palloc` is about to map. -/
structure Mappable (l : Layout) (s : Kernel) (pf : PoolFlags) (vp n : Nat) : Prop where
  run : s.RunAt l pf vp n
  set : ∀ k < n, s.vbit l (s.pageOf pf (vp + k)) = true
  fresh : ∀ k < n, s.map (s.pageOf pf (vp + k)) = none

structure Pallocing (l : Layout) (s t : Kernel) (pf : PoolFlags) (vp n j : Nat) : Prop where
  got : Allocated s t pf vp j
  vbit : t.vbit l = s.vbit l
  last : vp + j ≤ lastPage pf
  inv : PageInv l (fun pg => s.InRange pf vp n pg ∧ ¬ s.InRange pf vp j pg) t

section Loop
variable {t : Kernel} {vp n j : Nat}

theorem page_div (v : Nat) : v * 4096 / 4096 = v := Nat.mul_div_cancel v (by decide)

theorem Pallocing.pageOf (h : Pallocing l s t pf vp n j) :
    t.pageOf pf ((vp + j) * 4096 / 4096) = s.pageOf pf (vp + j) := by
  rw [page_div]
  exact h.got.rest.pageOf _

theorem Pallocing.none (hm : Mappable l s pf vp n) (h : Pallocing l s t pf vp n j) (hj : j < n) :
    t.map (s.pageOf pf (vp + j)) = none := by
  rw [h.got.map _ fun hin => by have := inRange_pageOf.1 hin; omega]
  exact hm.fresh j hj

theorem next_vaddr {v : Nat} (h : v < lastPage pf) : (v * 4096 + 4096) % 2 ^ 32 = (v + 1) * 4096 := by
  have hmax := lastPage_le pf
  rw [Nat.mod_eq_of_lt (by omega)]
  omega

theorem Pallocing.snoc (hm : Mappable l s pf vp n) (h : Pallocing l s t pf vp n j) (hj : j < n)
    (hlast : vp + j < lastPage pf) {t' : Kernel} {f : Nat}
    (hi : PageInv l (fun pg => (s.InRange pf vp n pg ∧ ¬ s.InRange pf vp j pg) ∧ pg ≠ s.pageOf pf (vp + j)) t')
    (hstep : MapStep l t t' (s.pageOf pf (vp + j)) f) : Pallocing l s t' pf vp n (j + 1) := by
  refine ⟨h.got.snoc (h.none hm hj) hstep, hstep.vbit.trans h.vbit, hlast, hi.weaken ?_⟩
  intro pg ⟨⟨h1, h2⟩, h3⟩
  refine ⟨h1, ?_⟩
  intro ⟨k, hk, he⟩
  rcases Nat.lt_succ_iff_lt_or_eq.1 hk with hlt | rfl
  · exact h2 ⟨k, hlt, he⟩
  · exact h3 he

theorem Pallocing.pageMapping (hl : l.Sized) (hm : Mappable l s pf vp n) (h : Pallocing l s t pf vp n j) (hj : j < n)
    {i : Nat} (hlt : i < l.frames pf) (hfree : bitAt t.low (l.frameBit pf i) = false) :
    Except.Sat (Kernel.pageMapping { t with low := bitmapSetBit t.low (t.pool pf).poolBitmap i true }
        ((vp + j) * 4096) ((l.start pf + i) * 4096))
      (fun t' => vp + j < lastPage pf ∧ Pallocing l s t' pf vp n (j + 1) ∧
        MapStep l t t' (s.pageOf pf (vp + j)) (l.start pf + i)) PallocStop := by
  have hmax := lastPage_le pf
  have hle := h.last
  have hi := h.inv
  rcases Nat.lt_or_eq_of_le hle with hlast | hlast
  · have hpg := h.pageOf
    have hnone := h.none hm hj
    have hsat := pageMapping_sat hl hi (v := (vp + j) * 4096) (by omega)
      (by rw [hpg, h.got.rest.reach]; exact hm.run.reach hj hlast)
      (by rw [hpg, h.vbit]; exact hm.set j hj) hlt hfree
    rw [hpg] at hsat
    refine hsat.mono (fun t' ⟨_, hi', hstep⟩ => ⟨hlast, h.snoc hm hj hlast hi' hstep, hstep⟩) ?_
    intro e he
    rcases he with he | ⟨-, he⟩
    · exact .inr (.inl he)
    · exact absurd hnone he
  · obtain ⟨ht, hth⟩ := hi.tables_low (bitmapSetBit t.low (t.pool pf).poolBitmap i true)
    have hbound : (vp + j) * 4096 / 4096 = 0xC0000 ∨ (vp + j) * 4096 / 4096 = 0xFFC00 := by
      rw [page_div, hlast]
      cases pf
      · exact .inr rfl
      · exact .inl rfl
    rw [pageMapping_boundary ht hth (by omega) hbound]
    exact .inr (.inr ⟨_, rfl, hbound⟩)

/-- The loop of `palloc`, after `j` pages. -/
theorem pallocFrom_sat (hl : l.Sized) (hm : Mappable l s pf vp n) (todo : Nat) (hj : j + todo = n)
    (h : Pallocing l s t pf vp n j) : Except.Sat (pallocFrom pf (vp * 4096) todo ((vp + j) * 4096) t)
      (fun r => r.1 = vp * 4096 ∧ Allocated s r.2 pf vp n ∧ PageInv l Stable r.2) PallocStop := by
  induction todo generalizing j t with
  | zero =>
    have hjn : j = n := hj
    subst hjn
    exact ⟨rfl, h.got, h.inv.weaken fun pg hpg => hpg.2 hpg.1⟩
  | succ todo ih =>
    have hge := l.start_ge pf
    unfold pallocFrom
    refine ((getOnePhysicPage_sat hl h.inv.config pf).mono (fun _ h => h) fun e he => .inr (.inl he.1)).bind ?_
    intro ⟨pa, t1⟩ ⟨i, hlt, hfree, heq⟩
    cases heq
    dsimp only
    rw [if_neg (by omega)]
    refine (h.pageMapping hl hm (by omega) hlt hfree).bind ?_
    intro t2 ⟨hlast, h2, _⟩
    rw [next_vaddr hlast, Nat.add_assoc]
    exact ih (by omega) h2

end Loop

theorem Allocated.trans_ram {s'' : Kernel} {vp n : Nat} (hrest : SameRest s s') (hram : s'.ram = s.ram)
    (hbits : ∀ q, q ≠ s.current → s'.userBits q = s.userBits q) (h : Allocated s' s'' pf vp n) : Allocated s s'' pf vp n := by
  obtain ⟨hmap, hdir, htab⟩ := map_eq_of_ram hrest hram
  have hpg : ∀ v, s'.pageOf pf v = s.pageOf pf v := fun v => hrest.pageOf v
  refine ⟨⟨fun k hk => ?_, fun k hk => ?_, fun pg hpg' => ?_, h.dir.trans hdir, fun ht => ?_,
    fun hpf => (h.ktab hpf).trans htab, fun q hq => ?_⟩, hrest.trans h.rest⟩
  · rw [← hmap, ← hpg]
    exact h.fresh k hk
  · rw [← hpg]
    exact h.mapped k hk
  · rw [← hmap]
    exact h.map pg fun ⟨k, hk, he⟩ => hpg' ⟨k, hk, by rw [← hpg]; exact he⟩
  · exact h.tab (by rw [htab]; exact ht)
  · rw [h.bits q (by rwa [hrest.current])]
    exact hbits q hq

theorem assert_sat (s : Kernel) (c : Bool) (e : Panic) : Except.Sat (s.assert c e) (fun _ => True) (· = e) := by
  unfold assert
  split
  · trivial
  · rfl

theorem Reserved.start {vp n : Nat} (hi : PageInv l Stable s) (h : Reserved l s s' pf vp n) :
    Mappable l s' pf vp n ∧ Pallocing l s' s' pf vp n 0 := by
  have hpg : ∀ v, s'.pageOf pf v = s.pageOf pf v := fun v => h.rest.pageOf v
  have hrange : ∀ m, s'.InRange pf vp m = s.InRange pf vp m := by
    intro m
    funext pg
    simp only [InRange, hpg]
  obtain ⟨hmap, -, -⟩ := map_eq_of_ram h.rest h.ram
  have hrun : s'.RunAt l pf vp n := by
    have hrun := h.run
    cases pf with
    | kernelPool => exact hrun
    | userPool =>
      unfold RunAt at *
      rwa [h.rest.current, h.rest.isProcess]
  refine ⟨⟨hrun, ?_, ?_⟩, ⟨.zero s' pf vp, rfl, hrun.first, ?_⟩⟩
  · intro k hk
    rw [hpg]
    exact h.set k hk
  · intro k hk
    rw [hpg, hmap]
    by_contra hne
    have := (hi.virt.mapped hne).2
    rw [h.fresh k hk] at this
    cases this
  · apply h.inv.weaken
    intro pg hin
    refine ⟨by rw [hrange]; exact hin, ?_⟩
    intro ⟨k, hk, _⟩
    exact absurd hk (Nat.not_lt_zero k)

/-- `palloc` returns NULL and changes nothing, or maps `n` fresh pages. -/
theorem palloc_sat (hl : l.Sized) (hi : PageInv l Stable s) {n : Nat} (hn : 1 ≤ n) :
    Except.Sat (s.palloc pf n)
      (fun r => r = (0, s) ∨ ∃ vp, 0 < vp ∧ r.1 = vp * 4096 ∧ Allocated s r.2 pf vp n ∧ PageInv l Stable r.2)
      PallocStop := by
  unfold palloc
  refine ((s.assert_sat _ _).mono (fun _ h => h) fun e he => .inl he).bind fun _ _ => ?_
  refine ((getVirtualPage_sat hi hn).mono (fun _ h => h) fun e he => .inr (.inl he)).bind ?_
  rintro ⟨v, s1⟩ (heq | ⟨vp, hpos, rfl, hres⟩)
  · simp only [Prod.mk.injEq] at heq
    obtain ⟨rfl, rfl⟩ := heq
    exact .inl rfl
  · dsimp only at hres ⊢
    rw [if_neg (by omega)]
    obtain ⟨hm, hstart⟩ := hres.start hi
    apply (pallocFrom_sat hl hm n (Nat.zero_add n) hstart).imp
    rintro ⟨v, s2⟩ ⟨rfl, ha, hinv'⟩
    exact .inr ⟨vp, hpos, rfl, ha.trans_ram hres.rest hres.ram hres.bits, hinv'⟩

/-! ## `pfree` -/

structure Unmapped (l : Layout) (s s' : Kernel) (pf : PoolFlags) (vp n : Nat) : Prop where
  rest : SameRest s s'
  vbit : s'.vbit l = s.vbit l
  low : ∀ m, bitAt s'.low m = true ↔
    bitAt s.low m = true ∧ ∀ k < n, ∀ f, s.map (s.pageOf pf (vp + k)) = some f → m ≠ returnBit l f
  none : ∀ pg, s.InRange pf vp n pg → s'.map pg = none
  map : ∀ pg, ¬ s.InRange pf vp n pg → s'.map pg = s.map pg
  dir : s'.dir = s.dir
  tab : s'.tab = s.tab

theorem Unmapped.zero (s : Kernel) (vp : Nat) : Unmapped l s s pf vp 0 :=
  ⟨.refl s, rfl, fun _ => ⟨fun h => ⟨h, fun k hk => absurd hk (Nat.not_lt_zero k)⟩, fun h => h.1⟩,
    fun _ ⟨k, hk, _⟩ => absurd hk (Nat.not_lt_zero k), fun _ _ => rfl, rfl, rfl⟩

theorem Unmapped.snoc {s'' : Kernel} {vp n f : Nat} (h : Unmapped l s s' pf vp n)
    (hf : s.map (s.pageOf pf (vp + n)) = some f) (hm : UnmapStep l s' s'' (s.pageOf pf (vp + n)) f) :
    Unmapped l s s'' pf vp (n + 1) := by
  refine ⟨h.rest.trans hm.rest, hm.vbit.trans h.vbit, fun m => ?_, fun pg hpg => ?_, fun pg hpg => ?_,
    hm.dir.trans h.dir, hm.tab.trans h.tab⟩
  · rw [hm.low]
    by_cases hret : m = returnBit l f
    · rw [if_pos hret]
      refine ⟨fun hb => (Bool.false_ne_true hb).elim, fun ⟨_, hb⟩ => ?_⟩
      exact absurd hret (hb n (Nat.lt_succ_self n) f hf)
    · rw [if_neg hret, h.low]
      refine and_congr_right fun _ => ⟨fun hb k hk g hg => ?_, fun hb k hk => hb k (Nat.lt_succ_of_lt hk)⟩
      rcases Nat.lt_succ_iff_lt_or_eq.1 hk with hlt | rfl
      · exact hb k hlt g hg
      · rw [hf, Option.some.injEq] at hg
        exact hg ▸ hret
  · rw [hm.map]
    split
    · rfl
    · rename_i hne
      obtain ⟨k, hk, rfl⟩ := hpg
      rcases Nat.lt_succ_iff_lt_or_eq.1 hk with hlt | rfl
      · exact h.none _ ⟨k, hlt, rfl⟩
      · exact absurd rfl hne
  · rw [hm.map, if_neg fun he => hpg ⟨n, Nat.lt_succ_self n, he⟩]
    exact h.map pg fun ⟨k, hk, he⟩ => hpg ⟨k, Nat.lt_succ_of_lt hk, he⟩

structure Freed (l : Layout) (s s' : Kernel) (pf : PoolFlags) (vp n : Nat) : Prop where
  rest : SameRest s s'
  frameBit : ∀ pf' i, i < l.frames pf' → (bitAt s'.low (l.frameBit pf' i) = true ↔
    bitAt s.low (l.frameBit pf' i) = true ∧
      ∀ k < n, ∀ f, s.map (s.pageOf pf (vp + k)) = some f → l.frameBit pf' i ≠ returnBit l f)
  vbit : ∀ pg, s.Window l pg → (s'.vbit l pg = true ↔ s.vbit l pg = true ∧ ¬ s.InRange pf vp n pg)
  none : ∀ pg, s.InRange pf vp n pg → s'.map pg = none
  map : ∀ pg, ¬ s.InRange pf vp n pg → s'.map pg = s.map pg
  dir : s'.dir = s.dir
  tab : s'.tab = s.tab

theorem returnVirtualPage_eq {a : VirtualAddr} (ha : s.HasVaddr pf a) (vaddr n : Nat) :
    s.returnVirtualPage pf vaddr n = .ok (s.setPages pf a false n (sub32 vaddr a.vaddrStart / 4096)) := by
  cases pf with
  | kernelPool =>
    have ha' : a = s.kernelVaddr := ha
    subst ha'
    rfl
  | userPool =>
    obtain ⟨t, ht, rfl⟩ := ha
    rw [returnVirtualPage, getPcb, ht]
    rfl

theorem PageInv.vaddrStart (hi : PageInv l pend s) {a : VirtualAddr} (ha : s.HasVaddr pf a) {vp : Nat}
    (hr : s.Reach l (s.pageOf pf vp)) : a.vaddrStart = basePage pf * 4096 := by
  cases pf with
  | kernelPool => rw [show a = l.kernelVaddr from ha.trans hi.config.kvaddr]; rfl
  | userPool =>
    obtain ⟨t, ht, rfl⟩ := ha
    obtain ⟨⟨t', ht', hp⟩, -⟩ := hr
    rw [ht, Option.some.injEq] at ht'
    subst ht'
    exact (hi.threads.vaddr ht).2 hp

theorem SystemPage.congr (h : SameRest s s') {vp : Nat} (hs : s'.SystemPage vp) : s.SystemPage vp := by
  unfold SystemPage pdPage at *
  rwa [h.pcb] at hs

/-- The pages that the loop of `pfree` is about to unmap. -/
structure Freeable (s : Kernel) (pf : PoolFlags) (vp n : Nat) : Prop where
  mapped : ∀ k < n, s.map (s.pageOf pf (vp + k)) ≠ none
  plain : ∀ k < n, pf = .kernelPool → ¬ s.SystemPage (vp + k)

structure Pfreeing (l : Layout) (s t : Kernel) (pf : PoolFlags) (vp j : Nat) : Prop where
  gone : Unmapped l s t pf vp j
  inv : PageInv l (s.InRange pf vp j) t

theorem Pfreeing.zero (hi : PageInv l Stable s) (vp : Nat) : Pfreeing l s s pf vp 0 :=
  ⟨.zero s vp, hi.weaken fun _ h => h.elim⟩

theorem Pfreeing.pfreePage (hl : l.Sized) (hi : PageInv l Stable s) {vp n j : Nat} (hf : Freeable s pf vp n)
    {t : Kernel} (h : Pfreeing l s t pf vp j) (hj : j < n) : ∃ t' f, pageAt (vp * 4096) j = (vp + j) * 4096 ∧
      s.map (s.pageOf pf (vp + j)) = some f ∧ t.map (t.pageOf pf ((vp + j) * 4096 / 4096)) = some f ∧
      t.pfreePage (pf == .userPool) ((vp + j) * 4096) = .ok t' ∧ Pfreeing l s t' pf vp (j + 1) ∧
      UnmapStep l t t' (s.pageOf pf (vp + j)) f := by
  obtain ⟨f, hmap⟩ := Option.ne_none_iff_exists'.1 (hf.mapped j hj)
  have hlt := hi.reach_lt hmap
  have haddr : pageAt (vp * 4096) j = (vp + j) * 4096 := by
    unfold pageAt
    omega
  have hpg : t.pageOf pf ((vp + j) * 4096 / 4096) = s.pageOf pf (vp + j) := by
    rw [page_div]
    exact h.gone.rest.pageOf _
  have hft : t.map (s.pageOf pf (vp + j)) = some f := by
    rw [h.gone.map _ fun h => by have := inRange_pageOf.1 h; omega]
    exact hmap
  have hfp : t.map (t.pageOf pf ((vp + j) * 4096 / 4096)) = some f := by rw [hpg, hft]
  obtain ⟨t', hok, hi', hstep⟩ := pfreePage_ok hl h.inv (Nat.mul_mod_left _ _) hfp
    (fun hpf h' => hf.plain j hj hpf (SystemPage.congr h.gone.rest (by rwa [page_div] at h')))
  rw [hpg] at hi' hstep
  refine ⟨t', f, haddr, hmap, hfp, hok, ⟨h.gone.snoc hmap hstep, hi'.weaken ?_⟩, hstep⟩
  intro pg hpg'
  rcases hpg' with ⟨k, hk, he⟩ | he
  · exact ⟨k, by omega, he⟩
  · exact ⟨j, by omega, he⟩

theorem pfreePages_ok (hl : l.Sized) (hi : PageInv l Stable s) {vp n : Nat} (hf : Freeable s pf vp n) :
    ∃ s', Except.forRange (fun i s => s.pfreePage (pf == .userPool) (pageAt (vp * 4096) i)) n 0 s = .ok s' ∧
      Pfreeing l s s' pf vp n := by
  have h := Except.forRange_ok (f := fun i s => Kernel.pfreePage s (pf == .userPool) (pageAt (vp * 4096) i)) (n := n)
    (i := 0) (s := s) (fun j t => Pfreeing l s t pf vp j) (.zero hi vp) fun j t _ hj ht => ?_
  · rwa [Nat.zero_add] at h
  · obtain ⟨t', f, haddr, -, -, hok, ht', -⟩ := ht.pfreePage hl hi hf (by omega)
    rw [haddr]
    exact ⟨t', hok, ht'⟩

/-- `pfree` of mapped pages that hold no PCB and no directory. -/
theorem pfree_ok (hl : l.Sized) (hi : PageInv l Stable s) {vp n : Nat} (hn : 1 ≤ n) (hfree : Freeable s pf vp n) :
    ∃ s', s.pfree pf (vp * 4096) n = .ok s' ∧ PageInv l Stable s' ∧ Freed l s s' pf vp n := by
  obtain ⟨f, hf⟩ := Option.ne_none_iff_exists'.1 (hfree.mapped 0 hn)
  rw [Nat.add_zero] at hf
  have hne : s.map (s.pageOf pf vp) ≠ none := by simp [hf]
  have hr := (hi.virt.mapped hne).1
  have hlt := hi.reach_lt hf
  have hrange := hi.frame_range hf
  have hge := l.start_ge pf
  have hpage : vp * 4096 / 4096 = vp := Nat.mul_div_cancel _ (by decide)
  obtain ⟨s1, hloop, hu, hi1⟩ := pfreePages_ok hl hi hfree
  obtain ⟨a, ha⟩ := hi1.threads.hasVaddr pf
  have hr1 : s1.Reach l (s1.pageOf pf vp) := by
    rw [hu.rest.pageOf, hu.rest.reach]
    exact hr
  have hstart := hi1.vaddrStart ha hr1
  have hbase := hr.base_le
  have hidx : sub32 (vp * 4096) a.vaddrStart / 4096 = vp - basePage pf := by
    rw [hstart]
    unfold sub32
    omega
  have hin : ∀ pg, s1.InRange pf vp n pg ↔ s.InRange pf vp n pg := fun pg => by
    unfold InRange
    simp only [hu.rest.pageOf]
  have hrest1 := s1.setPages_rest pf a false n (vp - basePage pf)
  have hram1 := s1.setPages_ram pf a false n (vp - basePage pf)
  obtain ⟨hm1, hd1, ht1⟩ := map_eq_of_ram hrest1 hram1
  refine ⟨s1.setPages pf a false n (vp - basePage pf), ?_, ?_, ⟨hu.rest.trans hrest1, fun pf' i hlt' => ?_,
    fun pg hw => ?_, fun pg hpg => ?_, fun pg hpg => ?_, hd1.trans hu.dir, ht1.trans hu.tab⟩⟩
  · have hpa : s.virtualAddrToPhysicAddr (vp * 4096) = .ok (f * 4096) := by
      rw [hi.virtualAddrToPhysicAddr (by rw [hpage]; exact hf), Nat.mul_mod_left, Nat.add_zero]
    have hargs : decide (n ≥ 1 ∧ vp * 4096 % 4096 = 0) = true := by simp [hn]
    have hframe : decide (f * 4096 % 4096 = 0 ∧ f * 4096 > 0x102000) = true := by
      rw [decide_eq_true_eq]
      omega
    rw [pfree, hargs, assert_true, Except.ok_bind, hpa, Except.ok_bind, hframe, assert_true, Except.ok_bind,
      hi.config.frame_pool hrange]
    dsimp only
    rw [hloop, Except.ok_bind, returnVirtualPage_eq ha, hidx]
  · refine hi1.of_bits hrest1 hram1 (fun pf' i hlt' => frameBit_setPages hi1.config ha false n _ hlt') ?_
    refine Virt.giveBack hi1.config ha hbase ?_ fun pg hpg => hu.none pg ((hin pg).1 hpg)
    have := hi1.virt
    exact ⟨this.mapped, fun hw hb => (this.set hw hb).imp_right fun h => (hin _).2 h⟩
  · rw [frameBit_setPages hi1.config ha false n _ hlt', hu.low]
  · rw [← hu.vbit]
    rcases s.pageOf_or pf pg with ⟨v, rfl⟩ | hother
    · rw [← hu.rest.pageOf v, vbit_setPages hi1.config ha false hbase hw.base_le, hu.rest.pageOf v, inRange_pageOf]
      split
      · rename_i h
        simp [h]
      · rename_i h
        simp [h]
    · rw [vbit_setPages_other false fun v => by rw [hu.rest.pageOf]; exact hother v]
      refine ⟨fun h => ⟨h, ?_⟩, fun h => h.1⟩
      rintro ⟨k, -, hk⟩
      exact hother _ hk
  · rw [hm1]
    exact hu.none pg hpg
  · rw [hm1]
    exact hu.map pg hpg

end Kernel

end ElephantOS
