import ElephantOS.Memory.PageRange

/-!
# The calls of the page allocator

* `lockPool_ok`, `unlockPool_ok` : a pool lock that nobody holds is taken and given back at once;
* `memsetPages_ok` : clearing pages changes no mapping;
* `pallocLocked_sat`, `virtualAddrMapping_sat` : `kpalloc`, `upalloc` and `VirtualAddrMapping`.
-/

namespace ElephantOS
namespace Kernel
variable {l : Layout} {s s' : Kernel} {pend : Page → Prop} {pf : PoolFlags}

/-! ## The pool locks -/

def Unlocked (s : Kernel) : Prop := ∀ pf, (s.pool pf).lock = lockInit

def heldBy (t : Nat) : Lock Nat := ⟨some t, ⟨0, []⟩, 1⟩

theorem setLock_pool (s : Kernel) (pf : PoolFlags) (lock : Lock Nat) :
    (s.setLock pf lock).pool pf = { s.pool pf with lock := lock } := by
  cases pf <;> rfl

theorem lockPool_ok (h : s.Unlocked) (pf : PoolFlags) : s.lockPool pf = .ok (s.setLock pf (heldBy s.current)) := by
  rw [lockPool, h pf]
  rfl

theorem unlockPool_ok (h : (s.pool pf).lock = heldBy s.current) : s.unlockPool pf = .ok (s.setLock pf lockInit) := by
  rw [unlockPool, h]
  simp [sysLockUnlock, heldBy, Semaphore.up, lockInit, semaphoreInit]

theorem setLock_setLock (s : Kernel) (pf : PoolFlags) (a b : Lock Nat) :
    (s.setLock pf a).setLock pf b = s.setLock pf b := by
  cases pf <;> rfl

theorem setLock_self (h : s.Unlocked) (pf : PoolFlags) : s.setLock pf lockInit = s := by
  rw [← h pf]
  cases pf <;> rfl

/-! ## Changes that are none of the page allocator's -/

/-- The states agree on what the page allocator keeps and on the words of the page tables. -/
structure SamePaging (s s' : Kernel) : Prop where
  debug : s'.debug = s.debug
  low : s'.low = s.low
  bitmap : ∀ pf, (s'.pool pf).poolBitmap = (s.pool pf).poolBitmap
  start : ∀ pf, (s'.pool pf).physicAddrStart = (s.pool pf).physicAddrStart
  size : ∀ pf, (s'.pool pf).poolSize = (s.pool pf).poolSize
  kvaddr : s'.kernelVaddr = s.kernelVaddr
  cr3 : s'.cr3 = s.cr3
  pcb : s'.pcb = s.pcb
  userBits : s'.userBits = s.userBits
  current : s'.current = s.current
  ramLow : ∀ f < 0x200, ∀ i, s'.ram f i = s.ram f i
  ramDir : ∀ p d, s.dir p = some d → ∀ i, s'.ram d i = s.ram d i
  ramTab : ∀ p j t, s.tab p j = some t → ∀ i, s'.ram t i = s.ram t i

namespace SamePaging

theorem maps (h : SamePaging s s') : SameMaps s s' := maps_other h.pcb h.ramLow h.ramDir h.ramTab

theorem map (h : SamePaging s s') : s'.map = s.map := by
  funext pg
  cases pg with
  | kernel vp => exact congrFun h.maps.kmap vp
  | user p vp => exact congrFun (congrFun h.maps.umap p) vp

theorem trans {s'' : Kernel} (h : SamePaging s s') (h' : SamePaging s' s'') : SamePaging s s'' where
  debug := h'.debug.trans h.debug
  low := h'.low.trans h.low
  bitmap pf := (h'.bitmap pf).trans (h.bitmap pf)
  start pf := (h'.start pf).trans (h.start pf)
  size pf := (h'.size pf).trans (h.size pf)
  kvaddr := h'.kvaddr.trans h.kvaddr
  cr3 := h'.cr3.trans h.cr3
  pcb := h'.pcb.trans h.pcb
  userBits := h'.userBits.trans h.userBits
  current := h'.current.trans h.current
  ramLow f hf i := (h'.ramLow f hf i).trans (h.ramLow f hf i)
  ramDir p d hd i := (h'.ramDir p d (by rw [h.maps.dir]; exact hd) i).trans (h.ramDir p d hd i)
  ramTab p j t ht i := (h'.ramTab p j t (by rw [h.maps.tab]; exact ht) i).trans (h.ramTab p j t ht i)

theorem of_ram (hram : s'.ram = s.ram) (hdebug : s'.debug = s.debug) (hlow : s'.low = s.low)
    (hpool : ∀ pf, (s'.pool pf).poolBitmap = (s.pool pf).poolBitmap ∧
      (s'.pool pf).physicAddrStart = (s.pool pf).physicAddrStart ∧ (s'.pool pf).poolSize = (s.pool pf).poolSize)
    (hkv : s'.kernelVaddr = s.kernelVaddr) (hcr3 : s'.cr3 = s.cr3) (hpcb : s'.pcb = s.pcb)
    (hbits : s'.userBits = s.userBits) (hcur : s'.current = s.current) : SamePaging s s' :=
  ⟨hdebug, hlow, fun pf => (hpool pf).1, fun pf => (hpool pf).2.1, fun pf => (hpool pf).2.2, hkv, hcr3, hpcb, hbits,
    hcur, fun _ _ _ => by rw [hram], fun _ _ _ _ => by rw [hram], fun _ _ _ _ _ => by rw [hram]⟩

theorem refl (s : Kernel) : SamePaging s s :=
  of_ram rfl rfl rfl (fun _ => ⟨rfl, rfl, rfl⟩) rfl rfl rfl rfl rfl

theorem setLock (s : Kernel) (pf : PoolFlags) (lock : Lock Nat) : SamePaging s (s.setLock pf lock) := by
  cases pf with
  | kernelPool => exact of_ram rfl rfl rfl (fun pf => by cases pf <;> exact ⟨rfl, rfl, rfl⟩) rfl rfl rfl rfl rfl
  | userPool => exact of_ram rfl rfl rfl (fun pf => by cases pf <;> exact ⟨rfl, rfl, rfl⟩) rfl rfl rfl rfl rfl

theorem setSpace (s : Kernel) (m : Space) : SamePaging s (s.setSpace m) :=
  of_ram rfl rfl rfl (fun pf => by cases pf <;> exact ⟨rfl, rfl, rfl⟩) rfl rfl rfl rfl rfl

theorem isProcess (h : SamePaging s s') {p : Nat} : s'.IsProcess p ↔ s.IsProcess p := by
  unfold IsProcess
  rw [h.pcb]

theorem reach (h : SamePaging s s') {pg : Page} : s'.Reach l pg ↔ s.Reach l pg := by
  cases pg with
  | kernel vp => exact Iff.rfl
  | user p vp => simp only [Reach, h.isProcess]

theorem window (h : SamePaging s s') {pg : Page} : s'.Window l pg ↔ s.Window l pg := by
  cases pg with
  | kernel vp => exact Iff.rfl
  | user p vp => simp only [Window, h.isProcess]

theorem vbit (h : SamePaging s s') : s'.vbit l = s.vbit l := by
  funext pg
  cases pg with
  | kernel vp => simp only [Kernel.vbit, h.low]
  | user p vp => simp only [Kernel.vbit, h.pcb, h.userBits]

theorem pdPage (h : SamePaging s s') : s'.pdPage = s.pdPage := pdPage_congr h.pcb

theorem systemPage (h : SamePaging s s') {vp : Nat} : s'.SystemPage vp ↔ s.SystemPage vp := by
  unfold SystemPage
  rw [h.pcb, h.pdPage]

theorem pageOf (h : SamePaging s s') (vp : Nat) : s'.pageOf pf vp = s.pageOf pf vp := by
  cases pf with
  | kernelPool => rfl
  | userPool => simp only [Kernel.pageOf, h.current]

theorem inv (h : SamePaging s s') (hi : PageInv l pend s) : PageInv l pend s' := by
  have hm := h.maps
  refine ⟨⟨by rw [h.debug]; exact hi.config.debug, fun pf => by rw [h.bitmap]; exact hi.config.bitmap pf,
    fun pf => by rw [h.start]; exact hi.config.start pf, fun pf => by rw [h.size]; exact hi.config.size pf,
    by rw [h.kvaddr]; exact hi.config.kvaddr⟩, ?_, ?_, ⟨?_, ?_, fun h8 => ?_⟩, ?_, ?_⟩
  · refine hi.tables.of_dirs hm.dir (fun {d} hd j _ => ?_) (h.ramLow _ (by decide) _)
    rcases hd with rfl | ⟨p, hp⟩
    · exact h.ramLow _ (by decide) _
    · exact h.ramDir p d hp _
  · have ht := hi.threads
    refine ⟨?_, fun {t} hc => ?_, fun {p t} hp => ?_, fun {p v} hp => ?_, fun {p t} hp => ?_,
      fun {p q v} hp hq => ?_, fun {p t} hp => ?_⟩
    · rw [h.pcb, h.current]
      exact ht.cur
    · rw [h.pcb, h.current] at hc
      rw [h.cr3, hm.dir, h.current]
      exact ht.cr3 hc
    · rw [h.pcb] at hp
      rw [hm.kmap]
      exact ht.page hp
    · rw [h.pdPage] at hp
      rw [hm.kmap]
      exact ht.pd hp
    · rw [h.pcb] at hp
      exact ht.pdAligned hp
    · rw [h.pdPage] at hp hq
      exact ht.inj hp hq
    · rw [h.pcb] at hp
      exact ht.vaddr hp
  · refine hi.frames.kernel.congr (fun o => ?_) fun i _ => by rw [h.low]
    cases o with
    | leaf vp => simp only [kown, hm.kmap]
    | tab p j => simp only [kown, hm.tab]
  · intro p vp f hf
    rw [hm.umap] at hf
    exact hi.frames.urange hf
  · refine (hi.frames.user h8).congr (fun o => by simp only [uown, hm.umap]) fun i _ => by rw [h.low]
  · intro pg hpg
    rw [h.map] at hpg
    rw [h.reach, h.vbit]
    exact hi.virt.mapped hpg
  · intro pg hw hb
    rw [h.window] at hw
    rw [h.vbit] at hb
    rw [h.map]
    exact hi.virt.set hw hb

end SamePaging

/-! ## Data -/

@[simp] theorem space_setSpace (s : Kernel) (m : Space) : (s.setSpace m).space = m := by
  unfold space setSpace
  simp

theorem setSpace_setSpace (s : Kernel) (m m' : Space) : (s.setSpace m).setSpace m' = s.setSpace m' := by
  unfold setSpace
  congr 1
  funext p a
  by_cases hp : p = s.current <;> simp [hp]

theorem setSpace_space (s : Kernel) : s.setSpace s.space = s := by
  have humem : (fun p a => if p = s.current then s.umem s.current a else s.umem p a) = s.umem := by
    funext p a
    by_cases hp : p = s.current
    · rw [if_pos hp, hp]
    · rw [if_neg hp]
  unfold setSpace space
  rw [humem]

theorem PageInv.leaf_other (hi : PageInv l pend s) {vp f : Nat} (hmap : s.map (s.pageOf pf vp) = some f)
    (hsys : pf = .kernelPool → ¬ s.SystemPage vp) :
    0x200 ≤ f ∧ (∀ p d, s.dir p = some d → d ≠ f) ∧ ∀ p j t, s.tab p j = some t → t ≠ f := by
  have hf := hi.frame_range hmap
  have hge := l.start_ge pf
  refine ⟨by omega, fun p d hd he => ?_, fun p j t ht he => ?_⟩
  · obtain ⟨v, hv, hk⟩ := dir_some hd
    subst he
    cases pf with
    | kernelPool =>
      cases hi.frames.kernel.inj (o := .leaf vp) (q := .leaf v) hmap hk
      exact hsys rfl (.inr ⟨p, hv⟩)
    | userPool =>
      have hlt := (hi.frames.kernel.range (o := .leaf v) hk).2
      have hle := l.frames_le
      change 0x200 + l.kernelFreePages ≤ d ∧ _ at hf
      omega
  · subst he
    cases pf with
    | kernelPool => cases hi.frames.kernel.inj (o := .leaf vp) (q := .tab p j) hmap ht
    | userPool =>
      have hlt := (hi.frames.kernel.range (o := .tab p j) ht).2
      have hle := l.frames_le
      change 0x200 + l.kernelFreePages ≤ t ∧ _ at hf
      omega

theorem PageInv.walk (hi : PageInv l pend s) {v f : Nat} (hmap : s.map (s.pageOf pf (v / 4096)) = some f) :
    ElephantOS.walk s.ram s.cr3 v = some (f * 4096 + v % 4096) := by
  have hlt := hi.reach_lt hmap
  obtain ⟨t, -, hpde, hpte⟩ := hi.leaf hmap
  obtain ⟨h1, h2⟩ := entry_eq_some.1 hpde
  obtain ⟨h3, h4⟩ := entry_eq_some.1 hpte
  rw [ElephantOS.walk, pdeIdx_page (by omega), pteIdx_page]
  simp only [h1, h2, h3, h4, if_true]

/-- The words of a data page can be written: no mapping changes. -/
theorem PageInv.samePaging (hi : PageInv l pend s) {vp f : Nat} (hmap : s.map (s.pageOf pf vp) = some f)
    (hsys : pf = .kernelPool → ¬ s.SystemPage vp) {ram : Ram} (hram : ∀ g, g ≠ f → ∀ i, ram g i = s.ram g i) :
    SamePaging s { s with ram := ram } := by
  obtain ⟨hge, hdir, htab⟩ := hi.leaf_other hmap hsys
  exact ⟨rfl, rfl, fun pf => by cases pf <;> rfl, fun pf => by cases pf <;> rfl, fun pf => by cases pf <;> rfl,
    rfl, rfl, rfl, rfl, rfl, fun g hg i => hram g (by omega) i, fun p d hd i => hram d (hdir p d hd) i,
    fun p j t ht i => hram t (htab p j t ht) i⟩

theorem memsetPage_ok (hi : PageInv l pend s) {v f : Nat} (hv : v % 4096 = 0)
    (hmap : s.map (s.pageOf pf (v / 4096)) = some f) :
    s.memsetPage v = .ok (setSpace { s with ram := clearFrame s.ram f } (s.space.clear v 4096)) := by
  rw [memsetPage, Kernel.clearPage, ElephantOS.clearPage, hi.walk hmap, hv, Option.map_some, Nat.add_zero,
    Nat.mul_div_cancel _ (by decide)]
  rfl

/-- Clearing pages that hold no PCB and no directory. -/
theorem memsetPages_ok (hi : PageInv l pend s) {vp n : Nat} (hfree : Freeable s pf vp n) :
    ∃ ram, s.memsetPages (vp * 4096) n =
        .ok (setSpace { s with ram := ram } (s.space.clear (vp * 4096) (n * 4096))) ∧
      SamePaging s { s with ram := ram } ∧
      ∀ k < n, ∀ f, s.map (s.pageOf pf (vp + k)) = some f → ∀ i, ram f i = 0 := by
  let P : Nat → Kernel → Prop := fun j t => ∃ ram,
    t = setSpace { s with ram := ram } (s.space.clear (vp * 4096) (j * 4096)) ∧
      SamePaging s { s with ram := ram } ∧
      ∀ k < j, ∀ f, s.map (s.pageOf pf (vp + k)) = some f → ∀ i, ram f i = 0
  have h0 : P 0 s := by
    refine ⟨s.ram, ?_, .refl s, fun k hk => absurd hk (Nat.not_lt_zero k)⟩
    rw [Nat.zero_mul, Space.clear_zero]
    exact (setSpace_space s).symm
  have hstep : ∀ j t, 0 ≤ j → j < 0 + n → P j t →
      ∃ t', memsetPage t (pageAt (vp * 4096) j) = .ok t' ∧ P (j + 1) t' := by
    rintro j t - hj ⟨ram, rfl, hpaging, hzero⟩
    obtain ⟨f, hf⟩ := Option.ne_none_iff_exists'.1 (hfree.mapped j (by omega))
    have hlt := hi.reach_lt hf
    have haddr : pageAt (vp * 4096) j = (vp + j) * 4096 := by
      unfold pageAt
      omega
    have hp' := hpaging.trans (.setSpace { s with ram := ram } (s.space.clear (vp * 4096) (j * 4096)))
    have hft : s.map (s.pageOf pf ((vp + j) * 4096 / 4096)) = some f := by
      rw [page_div]
      exact hf
    refine ⟨_, ?_, clearFrame ram f, rfl, ?_, fun k hk g hg i => ?_⟩
    · rw [haddr, memsetPage_ok (hp'.inv hi) (f := f) (Nat.mul_mod_left _ _) (by rw [hp'.map, hp'.pageOf]; exact hft),
        space_setSpace, Nat.add_mul vp j 4096, Space.clear_clear, ← Nat.succ_mul]
      exact congrArg Except.ok (setSpace_setSpace { s with ram := clearFrame ram f } _ _)
    · have hleaf : Kernel.map { s with ram := ram } (Kernel.pageOf { s with ram := ram } pf (vp + j)) = some f := by
        rw [hpaging.map, hpaging.pageOf]
        exact hf
      refine hpaging.trans ((hpaging.inv hi).samePaging hleaf ?_ fun g hg i => clearFrame_frame hg i)
      exact fun hpf h => hfree.plain j (by omega) hpf (hpaging.systemPage.1 h)
    · by_cases hgf : g = f
      · rw [hgf, clearFrame_same]
      · rw [clearFrame_frame hgf]
        rcases Nat.lt_succ_iff_lt_or_eq.1 hk with hlt | rfl
        · exact hzero k hlt g hg i
        · rw [hf, Option.some.injEq] at hg
          exact absurd hg.symm hgf
  obtain ⟨t, hok, ram, rfl, hpaging, hzero⟩ := Except.forRange_ok P h0 hstep
  rw [Nat.zero_add] at hok hzero
  exact ⟨ram, hok, hpaging, hzero⟩

/-! ## `kpalloc` and `upalloc` -/

/-- The states differ in the bitmaps, the page tables and the data only. -/
def SameSys (s s' : Kernel) : Prop :=
  s' = { s with low := s'.low, ram := s'.ram, userBits := s'.userBits, kmem := s'.kmem, umem := s'.umem }

theorem SameSys.trans {s'' : Kernel} (h : SameSys s s') (h' : SameSys s' s'') : SameSys s s'' := by
  unfold SameSys at *
  rw [h'] at *
  rw [h]

theorem SameRest.sys (h : SameRest s s') : SameSys s s' := by
  unfold SameRest at h
  unfold SameSys
  rw [h]

theorem SameSys.setSpace (s : Kernel) (m : Space) : SameSys s (s.setSpace m) := rfl

section SameSys
variable (h : SameSys s s')
include h

theorem SameSys.pcb : s'.pcb = s.pcb := by rw [h]

theorem SameSys.current : s'.current = s.current := by rw [h]

theorem SameSys.pool (pf : PoolFlags) : s'.pool pf = s.pool pf := by
  rw [h]
  rfl

theorem SameSys.descs : s'.kernelArenaDescs = s.kernelArenaDescs := by rw [h]

theorem SameSys.unlocked (hu : s.Unlocked) : s'.Unlocked := fun pf => by
  rw [h.pool]
  exact hu pf

theorem SameSys.isProcess {p : Nat} : s'.IsProcess p ↔ s.IsProcess p := by
  unfold IsProcess
  rw [h.pcb]

theorem SameSys.systemPage {vp : Nat} : s'.SystemPage vp ↔ s.SystemPage vp := by
  unfold SystemPage
  rw [h.pcb, pdPage_congr h.pcb]

theorem SameSys.pageOf (vp : Nat) : s'.pageOf pf vp = s.pageOf pf vp := by
  cases pf with
  | kernelPool => rfl
  | userPool => simp only [Kernel.pageOf, h.current]

end SameSys

/-- What a call that returned the pages `vp`, …, `vp + n - 1`, cleared, has changed. -/
structure Called (l : Layout) (s s' : Kernel) (pf : PoolFlags) (vp n : Nat) : Prop extends Grown s s' pf vp n where
  sys : SameSys s s'
  space : s'.space = s.space.clear (vp * 4096) (n * 4096)
  umem : ∀ q, q ≠ s.current → s'.umem q = s.umem q
  inv : PageInv l Stable s'

/-- The pages that `palloc` returned can be cleared, or freed. -/
theorem Allocated.freeable {vp n : Nat} (hi : PageInv l Stable s) (ha : Allocated s s' pf vp n) :
    Freeable s' pf vp n := by
  refine ⟨?_, ?_⟩
  · intro k hk
    obtain ⟨f, hf⟩ := ha.mapped k hk
    rw [ha.rest.pageOf, hf]
    exact Option.some_ne_none f
  · intro k hk hpf h
    subst hpf
    exact hi.threads.kmap_system (SystemPage.congr ha.rest h) (ha.fresh k hk)

theorem Allocated.memset {vp n : Nat} (hi : PageInv l Stable s) (ha : Allocated s s' pf vp n)
    (hi' : PageInv l Stable s') : ∃ t, s'.memsetPages (vp * 4096) n = .ok t ∧ Called l s t pf vp n ∧
      ∀ k < n, ∀ f, t.map (s.pageOf pf (vp + k)) = some f → ∀ i, t.ram f i = 0 := by
  have hpg : ∀ v, s'.pageOf pf v = s.pageOf pf v := fun v => ha.rest.pageOf v
  obtain ⟨ram, hok, hpaging, hzero⟩ := memsetPages_ok hi' (ha.freeable hi)
  have hp := hpaging.trans (.setSpace { s' with ram := ram } (s'.space.clear (vp * 4096) (n * 4096)))
  refine ⟨_, hok, ⟨⟨ha.fresh, fun k hk => ?_, fun pg hpg => ?_, ?_, fun ht => ?_, fun hpf => ?_, ha.bits⟩, ?_, ?_,
    fun q hq => ?_, hp.inv hi'⟩, fun k hk f hf => ?_⟩
  · rw [hp.map]
    exact ha.mapped k hk
  · rw [hp.map]
    exact ha.map pg hpg
  · rw [hp.maps.dir]
    exact ha.dir
  · rw [hp.maps.tab]
    exact ha.tab ht
  · rw [hp.maps.tab]
    exact ha.ktab hpf
  · refine ha.rest.sys.trans ?_
    rfl
  · rw [space_setSpace, ha.rest.space]
  · have hcur : q ≠ s'.current := by rwa [ha.rest.current]
    simp only [Kernel.setSpace, if_neg hcur]
    exact congrFun ha.rest.umem q
  · rw [hp.map, ← hpg] at hf
    exact hzero k hk f hf

theorem SameSys.setLock (h : SameSys s s') (pf : PoolFlags) (lock : Lock Nat) :
    SameSys (s.setLock pf lock) (s'.setLock pf lock) := by
  unfold SameSys at *
  rw [h]
  cases pf <;> rfl

theorem SameRest.setLock (h : SameRest s s') (pf : PoolFlags) (lock : Lock Nat) :
    SameRest (s.setLock pf lock) (s'.setLock pf lock) := by
  unfold SameRest at *
  rw [h]
  cases pf <;> rfl

theorem SameSys.unlock {lock : Lock Nat} (hu : s.Unlocked) (h : SameSys (s.setLock pf lock) s') :
    SameSys s (s'.setLock pf lockInit) := by
  have hback := h.setLock pf lockInit
  rw [setLock_setLock, setLock_self hu] at hback
  exact hback

theorem SameRest.unlock {lock : Lock Nat} (hu : s.Unlocked) (h : SameRest (s.setLock pf lock) s') :
    SameRest s (s'.setLock pf lockInit) := by
  have hback := h.setLock pf lockInit
  rw [setLock_setLock, setLock_self hu] at hback
  exact hback

theorem Allocated.unlock {vp n : Nat} {lock : Lock Nat} (hu : s.Unlocked)
    (h : Allocated (s.setLock pf lock) s' pf vp n) : Allocated s (s'.setLock pf lockInit) pf vp n := by
  have hp := SamePaging.setLock s pf lock
  have hp' := SamePaging.setLock s' pf lockInit
  have hpg : ∀ v, (s.setLock pf lock).pageOf pf v = s.pageOf pf v := fun v => hp.pageOf v
  refine ⟨⟨fun k hk => ?_, fun k hk => ?_, fun pg hpg' => ?_, ?_, fun ht => ?_, fun hpf => ?_, fun q hq => ?_⟩,
    h.rest.unlock hu⟩
  · rw [← hp.map, ← hpg]
    exact h.fresh k hk
  · rw [hp'.map, ← hpg]
    exact h.mapped k hk
  · rw [hp'.map, ← hp.map]
    exact h.map pg fun ⟨k, hk, he⟩ => hpg' ⟨k, hk, by rw [← hpg]; exact he⟩
  · rw [hp'.maps.dir, h.dir, hp.maps.dir]
  · rw [hp'.maps.tab]
    exact h.tab (by rw [hp.maps.tab]; exact ht)
  · rw [hp'.maps.tab, h.ktab hpf, hp.maps.tab]
  · rw [hp'.userBits, h.bits q (by rwa [hp.current]), hp.userBits]

theorem pallocLocked_sat (hl : l.Sized) (hi : PageInv l Stable s) (hu : s.Unlocked) {n : Nat} (hn : 1 ≤ n) :
    Except.Sat (s.pallocLocked pf n)
      (fun r => r = (0, s) ∨ ∃ vp, 0 < vp ∧ r.1 = vp * 4096 ∧ Called l s r.2 pf vp n ∧
        ∀ k < n, ∀ f, r.2.map (s.pageOf pf (vp + k)) = some f → ∀ i, r.2.ram f i = 0) PallocStop := by
  have hp := SamePaging.setLock s pf (heldBy s.current)
  rw [pallocLocked, lockPool_ok hu, Except.ok_bind]
  refine (palloc_sat hl (hp.inv hi) hn).bind ?_
  rintro ⟨v, s1⟩ (heq | ⟨vp, hpos, rfl, ha, hi1⟩)
  · simp only [Prod.mk.injEq] at heq
    obtain ⟨rfl, rfl⟩ := heq
    dsimp only
    rw [unlockPool_ok (by rw [setLock_pool]; cases pf <;> rfl), Except.ok_bind, setLock_setLock, setLock_self hu]
    exact .inl rfl
  · dsimp only at ha ⊢
    have hheld : (s1.pool pf).lock = heldBy s1.current := by
      rw [ha.rest.pool, ha.rest.current, setLock_pool]
      cases pf <;> rfl
    obtain ⟨t, hok, hcalled⟩ := (ha.unlock hu).memset hi ((SamePaging.setLock s1 pf lockInit).inv hi1)
    rw [unlockPool_ok hheld, Except.ok_bind, if_pos (by omega), hok]
    exact .inr ⟨vp, hpos, rfl, hcalled⟩

/-! ## What allocations leave alone -/

/-- Pages stay where they are, and the words of mapped pages and of the static data of the kernel stay. -/
structure Extends (s s' : Kernel) : Prop where
  map : ∀ {pg f}, s.map pg = some f → s'.map pg = some f
  tab : ∀ {p j t}, s.tab p j = some t → s'.tab p j = some t
  pcb : ∀ {p t}, s.pcb p = some t → s'.pcb p = some t
  kmem : ∀ {a}, a < 0xC0100000 ∨ s.kmap (a / 4096) ≠ none → s'.kmem a = s.kmem a
  umem : ∀ {q a}, s.umap q (a / 4096) ≠ none → s'.umem q a = s.umem q a
  descs : s'.kernelArenaDescs = s.kernelArenaDescs

theorem Extends.refl (s : Kernel) : Extends s s :=
  ⟨fun h => h, fun h => h, fun h => h, fun _ => rfl, fun _ => rfl, rfl⟩

theorem Extends.mapped (h : Extends s s') {pg : Page} (hm : s.map pg ≠ none) : s'.map pg ≠ none := by
  obtain ⟨f, hf⟩ := Option.ne_none_iff_exists'.1 hm
  rw [h.map hf]
  exact Option.some_ne_none f

theorem Extends.mapped_kernel (h : Extends s s') {vp : Nat} (hm : s.kmap vp ≠ none) : s'.kmap vp ≠ none := by
  have hpg : s.map (.kernel vp) ≠ none := hm
  exact h.mapped hpg

theorem Extends.mapped_user (h : Extends s s') {p vp : Nat} (hm : s.umap p vp ≠ none) : s'.umap p vp ≠ none := by
  have hpg : s.map (.user p vp) ≠ none := hm
  exact h.mapped hpg

theorem Extends.trans {s'' : Kernel} (h : Extends s s') (h' : Extends s' s'') : Extends s s'' where
  map hm := h'.map (h.map hm)
  tab ht := h'.tab (h.tab ht)
  pcb hp := h'.pcb (h.pcb hp)
  kmem ha := (h'.kmem (ha.imp_right h.mapped_kernel)).trans (h.kmem ha)
  umem ha := (h'.umem (h.mapped_user ha)).trans (h.umem ha)
  descs := h'.descs.trans h.descs

theorem Grown.map_mono {vp n : Nat} (h : Grown s s' pf vp n) {pg : Page} {f : Nat} (hm : s.map pg = some f) :
    s'.map pg = some f := by
  rw [h.map pg, hm]
  rintro ⟨k, hk, rfl⟩
  rw [h.fresh k hk] at hm
  cases hm

theorem Allocated.extends {vp n : Nat} (h : Allocated s s' pf vp n) : Extends s s' where
  map hm := h.toGrown.map_mono hm
  tab ht := h.tab ht
  pcb hp := by rw [h.rest.pcb]; exact hp
  kmem _ := by rw [h.rest.kmem]
  umem _ := by rw [h.rest.umem]
  descs := h.rest.descs

/-- An address in the pages of a call: its page was not mapped before, and is in reach now. -/
theorem Called.page {vp n a : Nat} (h : Called l s s' pf vp n) (h1 : vp * 4096 ≤ a) (h2 : a < vp * 4096 + n * 4096) :
    s.map (s.pageOf pf (a / 4096)) = none ∧ s'.Reach l (s.pageOf pf (a / 4096)) := by
  obtain ⟨f, hf⟩ := h.mapped (a / 4096 - vp) (by omega)
  have hnone := h.fresh (a / 4096 - vp) (by omega)
  rw [show vp + (a / 4096 - vp) = a / 4096 by omega] at hf hnone
  have hne : s'.map (s.pageOf pf (a / 4096)) ≠ none := by simp [hf]
  exact ⟨hnone, (h.inv.virt.mapped hne).1⟩

/-- The words of the pages of a call are not those of other pages. -/
theorem Called.extends {vp n : Nat} (h : Called l s s' pf vp n) : Extends s s' where
  map hm := h.toGrown.map_mono hm
  tab ht := h.tab ht
  pcb hp := by rw [h.sys.pcb]; exact hp
  kmem {a} ha := by
    have hk : s'.kmem a = (s.space.clear (vp * 4096) (n * 4096)).kern a := by
      rw [← h.space]
      rfl
    rw [hk]
    unfold Space.clear
    dsimp only
    rw [if_neg]
    · rfl
    · rintro ⟨h1, h2, h3⟩
      obtain ⟨hnone, hr⟩ := h.page (a := a) (by omega) (by omega)
      cases pf with
      | kernelPool =>
        obtain ⟨hr1, -⟩ := hr
        rcases ha with ha | ha
        · omega
        · exact ha hnone
      | userPool =>
        have hr2 := hr.2.2
        unfold userEnd at hr2
        omega
  umem {q a} ha := by
    by_cases hq : q = s.current
    · subst hq
      have hu : s'.umem s.current a = (s.space.clear (vp * 4096) (n * 4096)).user a := by
        rw [← h.space]
        unfold Kernel.space
        rw [h.sys.current]
      rw [hu]
      unfold Space.clear
      dsimp only
      rw [if_neg]
      · rfl
      · rintro ⟨h1, h2, h3⟩
        obtain ⟨hnone, hr⟩ := h.page (a := a) (by omega) (by omega)
        cases pf with
        | kernelPool =>
          obtain ⟨hr1, -⟩ := hr
          omega
        | userPool => exact ha hnone
    · rw [h.umem q hq]
  descs := h.sys.descs

/-! ## `VirtualAddrMapping` -/

/-- What can stop `VirtualAddrMapping` of the page of `v`. -/
def MappingStop (s : Kernel) (pf : PoolFlags) (v : Nat) (e : Panic) : Prop :=
  e = .mappingIndex ∨ e = .mappingSpace ∨ e = .bitmapFull ∨
    e = .vpageMapped v ∧ s.map (s.pageOf pf (v / 4096)) ≠ none

theorem markPage_sat (hi : PageInv l Stable s) {v : Nat} (hv : v < 2 ^ 32)
    (hw : s.Window l (s.pageOf pf (v / 4096))) {t : PCB} (ht : s.pcb s.current = some t) :
    Except.Sat (s.markPage t pf v)
      (fun s' => ∃ a, s.HasVaddr pf a ∧ s' = s.setPages pf a true 1 (v / 4096 - basePage pf)) (s.MappingStop pf v) := by
  unfold markPage
  have hbase := hw.base_le
  cases pf with
  | kernelPool =>
    have hidx : sub32 v s.kernelVaddr.vaddrStart / 4096 = v / 4096 - basePage .kernelPool := by
      rw [hi.config.kvaddr]
      change 0xC0100 ≤ v / 4096 at hbase
      change sub32 v 0xC0100000 / 4096 = v / 4096 - 0xC0100
      unfold sub32
      omega
    rw [if_neg (by simp)]
    by_cases hp : t.pdeAddr = 0
    · rw [if_pos ⟨hp, rfl⟩]
      dsimp only
      refine ((s.assert_sat _ _).mono (fun _ h => h) fun e he => .inl he).bind fun _ _ => ?_
      exact ⟨s.kernelVaddr, rfl, by rw [hidx]; rfl⟩
    · rw [if_neg fun h => hp h.1]
      exact .inr (.inl rfl)
  | userPool =>
    obtain ⟨⟨t', ht', hp⟩, -⟩ := hw
    rw [ht, Option.some.injEq] at ht'
    subst ht'
    have hidx : sub32 v t.userprogVaddr.vaddrStart / 4096 = v / 4096 - basePage .userPool := by
      rw [(hi.threads.vaddr ht).2 hp]
      change 0x8048 ≤ v / 4096 at hbase
      change sub32 v 0x8048000 / 4096 = v / 4096 - 0x8048
      unfold sub32
      omega
    rw [if_pos ⟨hp, rfl⟩]
    dsimp only
    refine ((s.assert_sat _ _).mono (fun _ h => h) fun e he => .inl he).bind fun _ _ => ?_
    exact ⟨t.userprogVaddr, ⟨t, ht, rfl⟩, by rw [hidx]; rfl⟩

theorem Window.reach {vp : Nat} (hw : s.Window l (s.pageOf pf vp)) (hlt : vp < 0xFFC00) :
    s.Reach l (s.pageOf pf vp) := by
  cases pf with
  | kernelPool =>
    obtain ⟨h1, h2⟩ := hw
    exact ⟨h1, h2.le, hlt⟩
  | userPool => exact hw

theorem virtualAddrMapping_sat (hl : l.Sized) (hi : PageInv l Stable s) (hu : s.Unlocked) {v : Nat} (hv : v < 2 ^ 32)
    (hw : s.Window l (s.pageOf pf (v / 4096))) (hlt : v / 4096 < 0xFFC00) :
    Except.Sat (s.virtualAddrMapping pf v)
      (fun r => r.1 = v ∧ Allocated s r.2 pf (v / 4096) 1 ∧ PageInv l Stable r.2) (s.MappingStop pf v) := by
  obtain ⟨t, ht⟩ := hi.threads.cur
  have hp := SamePaging.setLock s pf (heldBy s.current)
  have hi0 := hp.inv hi
  have hw0 : (s.setLock pf (heldBy s.current)).Window l ((s.setLock pf (heldBy s.current)).pageOf pf (v / 4096)) := by
    rw [hp.pageOf, hp.window]
    exact hw
  have ht0 : (s.setLock pf (heldBy s.current)).pcb (s.setLock pf (heldBy s.current)).current = some t := by
    rw [hp.pcb, hp.current]
    exact ht
  have hstop : ∀ e, (s.setLock pf (heldBy s.current)).MappingStop pf v e → s.MappingStop pf v e := by
    unfold MappingStop
    rw [hp.map, hp.pageOf]
    exact fun _ h => h
  have hgp : (s.setLock pf (heldBy s.current)).getPcb (s.setLock pf (heldBy s.current)).current = .ok t := by
    rw [getPcb, ht0]
  rw [virtualAddrMapping, lockPool_ok hu, Except.ok_bind, hgp, Except.ok_bind]
  refine ((markPage_sat hi0 hv hw0 ht0).mono (fun _ h => h) hstop).bind ?_
  rintro s1 ⟨a, ha, rfl⟩
  generalize hs0 : s.setLock pf (heldBy s.current) = s0 at *
  have hbase := hw0.base_le
  have hrest := s0.setPages_rest pf a true 1 (v / 4096 - basePage pf)
  have hram := s0.setPages_ram pf a true 1 (v / 4096 - basePage pf)
  obtain ⟨hmap1, -, -⟩ := map_eq_of_ram hrest hram
  have hi1 : PageInv l (s0.InRange pf (v / 4096) 1) (s0.setPages pf a true 1 (v / 4096 - basePage pf)) :=
    hi0.of_bits hrest hram (fun pf' i hlt => frameBit_setPages hi0.config ha true 1 _ hlt)
      (Virt.reserve hi0.config hi0.virt ha hbase)
  have hbit : (s0.setPages pf a true 1 (v / 4096 - basePage pf)).vbit l (s0.pageOf pf (v / 4096)) = true := by
    rw [vbit_setPages hi0.config ha true hbase hbase, if_pos (by omega)]
  have hubits : ∀ q, q ≠ s0.current → (s0.setPages pf a true 1 (v / 4096 - basePage pf)).userBits q = s0.userBits q :=
    fun q hq => s0.setPages_userBits pf a true 1 _ hq
  generalize hs1 : s0.setPages pf a true 1 (v / 4096 - basePage pf) = s1 at *
  have hpg1 : s1.pageOf pf (v / 4096) = s0.pageOf pf (v / 4096) := hrest.pageOf _
  refine ((getOnePhysicPage_sat hl hi1.config pf).mono (fun _ h => h) fun e he => .inr (.inr (.inl he.1))).bind ?_
  rintro ⟨pa, s2⟩ ⟨i, hlt', hfree, heq⟩
  simp only [Prod.mk.injEq] at heq
  obtain ⟨rfl, rfl⟩ := heq
  have hge := l.start_ge pf
  dsimp only
  rw [if_neg (by omega)]
  have hsat := pageMapping_sat hl hi1 hv (by rw [hpg1, hrest.reach]; exact hw0.reach hlt) (by rw [hpg1]; exact hbit)
    hlt' hfree
  rw [hpg1, hmap1] at hsat
  refine (hsat.mono (fun _ h => h) ?_).bind ?_
  · rintro e (he | ⟨he, hne⟩)
    · exact .inr (.inr (.inl he))
    · exact hstop e (.inr (.inr (.inr ⟨he, hne⟩)))
  · rintro s3 ⟨hnone, hi3, hm⟩
    have halloc1 : Allocated s1 s3 pf (v / 4096) (0 + 1) := by
      refine (Allocated.zero s1 pf (v / 4096)).snoc ?_ ?_ (f := l.start pf + i) (l := l)
      · rw [Nat.add_zero, hpg1, hmap1]
        exact hnone
      · rw [Nat.add_zero, hpg1]
        exact hm
    have halloc0 := halloc1.trans_ram hrest hram hubits
    rw [Nat.zero_add] at halloc0
    have hheld : (s3.pool pf).lock = heldBy s3.current := by
      rw [halloc0.rest.pool, halloc0.rest.current, ← hs0, setLock_pool]
      cases pf <;> rfl
    rw [unlockPool_ok hheld, Except.ok_bind]
    rw [← hs0] at halloc0
    refine ⟨rfl, halloc0.unlock hu, (SamePaging.setLock s3 pf lockInit).inv
      (hi3.weaken ?_)⟩
    rintro pg ⟨⟨k, hk, he⟩, hne⟩
    apply hne
    rw [he, show k = 0 by omega, Nat.add_zero]

end Kernel

end ElephantOS
