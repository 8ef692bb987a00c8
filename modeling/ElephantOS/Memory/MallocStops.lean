import ElephantOS.Memory.Guarantees
import ElephantOS.Memory.TlbRuns

/-!
# When `sys_malloc` stops the kernel

With `ASSERT` active, a pool or an address bitmap without a clear bit is not reported by NULL: `BitmapScan`
stops. So does a request for 3840 pages or more, and a run of pages that ends one page past the address bitmap.

* `Kernel.missingTables` : the page tables that a run of user pages needs and the process does not have;
* `Kernel.Room` : what `palloc` for a process needs; `pallocFrom_ok_iff`, `palloc_ok_iff` : it returns exactly then;
* `Kernel.MallocRoom` : what `sys_malloc` needs; `TlbSys.MallocReturns`, `malloc_returns_iff` : it returns, with a block
  that is the process's own, exactly then.

The runs are those of `TlbRuns`, on machines with a whole number of bitmap bytes for the kernel pool: on others
`sys_free` gives away frames in use, and the lists of free blocks may be overwritten.
-/

namespace ElephantOS

namespace Kernel
variable {l : Layout} {s s' : Kernel} {pend : Page → Prop}

/-! ## Missing page tables -/

/-- The page directory entries of the pages `vp`, …, `vp + n - 1` that are not present. -/
def missingTables (k : Kernel) (vp n : Nat) : Nat :=
  (((Finset.range n).image fun i => (vp + i) / 1024).filter fun j => present (k.ram k.cr3 j) = false).card

theorem missingTables_zero (k : Kernel) (vp : Nat) : k.missingTables vp 0 = 0 := rfl

theorem image_succ (vp n : Nat) : ((Finset.range (n + 1)).image fun i => (vp + i) / 1024) =
    insert (vp / 1024) ((Finset.range n).image fun i => (vp + 1 + i) / 1024) := by
  ext j
  simp only [Finset.mem_image, Finset.mem_range, Finset.mem_insert]
  constructor
  · rintro ⟨i, hi, rfl⟩
    cases i with
    | zero => exact .inl rfl
    | succ i => exact .inr ⟨i, by omega, by rw [Nat.add_assoc, Nat.add_comm 1]⟩
  · rintro (rfl | ⟨i, hi, rfl⟩)
    · exact ⟨0, by omega, rfl⟩
    · exact ⟨i + 1, by omega, by rw [Nat.add_assoc, Nat.add_comm 1]⟩

theorem missingTables_present (hp : present (s.ram s.cr3 (vp / 1024)) = true)
    (hdir : ∀ j, present (s'.ram s'.cr3 j) = present (s.ram s.cr3 j)) (n : Nat) :
    s.missingTables vp (n + 1) = s'.missingTables (vp + 1) n := by
  unfold missingTables
  rw [image_succ, Finset.filter_insert, if_neg (by rw [hp]; exact Bool.false_ne_true.symm)]
  simp only [hdir]

theorem missingTables_absent (hp : present (s.ram s.cr3 (vp / 1024)) = false)
    (hdir : ∀ j, present (s'.ram s'.cr3 j) = if j = vp / 1024 then true else present (s.ram s.cr3 j)) (n : Nat) :
    s.missingTables vp (n + 1) = s'.missingTables (vp + 1) n + 1 := by
  unfold missingTables
  rw [image_succ]
  have herase : ((Finset.range n).image fun i => (vp + 1 + i) / 1024).filter
      (fun j => present (s'.ram s'.cr3 j) = false) =
      ((insert (vp / 1024) ((Finset.range n).image fun i => (vp + 1 + i) / 1024)).filter
        fun j => present (s.ram s.cr3 j) = false).erase (vp / 1024) := by
    ext j
    rw [Finset.mem_erase, Finset.mem_filter, Finset.mem_filter, Finset.mem_insert, hdir]
    by_cases hj : j = vp / 1024
    · simp [hj]
    · simp [hj]
  rw [herase]
  symm
  apply Finset.card_erase_add_one
  rw [Finset.mem_filter]
  exact ⟨Finset.mem_insert_self _ _, hp⟩

theorem missingTables_pos (hp : present (s.ram s.cr3 (vp / 1024)) = false) (n : Nat) : 0 < s.missingTables vp (n + 1) := by
  apply Finset.card_pos.2
  refine ⟨vp / 1024, Finset.mem_filter.2 ⟨?_, hp⟩⟩
  exact Finset.mem_image.2 ⟨0, Finset.mem_range.2 (Nat.succ_pos n), rfl⟩

/-! ## One page -/

/-- The counts after a page has been mapped in `s'`: a user frame less, and a kernel frame less if the page had
no table. -/
structure PageTaken (s s' : Kernel) (vp : Nat) : Prop where
  user : s'.freeFrames .userPool + 1 = s.freeFrames .userPool
  tables : ∀ n, s.missingTables vp (n + 1) + s'.freeFrames .kernelPool =
    s'.missingTables (vp + 1) n + s.freeFrames .kernelPool

theorem PageTaken.of_present {vp t i w : Nat} (hc : s.Config l) (hrest : SameRest s s')
    (htook : TookBit l s s' .userPool i) (hlt : i < l.userFrames) (hfree : bitAt s.low (l.frameBit .userPool i) = false)
    (hram : s'.ram = setWord s.ram t (vp % 1024) w) (hne : s.cr3 ≠ t)
    (hpres : present (s.ram s.cr3 (vp / 1024)) = true) : PageTaken s s' vp := by
  have hc' := hrest.config hc
  have hkernel : s'.freeFrames .kernelPool = s.freeFrames .kernelPool :=
    freeFrames_congr hc hc' fun j hj => htook.kernel_of_user hj
  have hdir : ∀ j, present (s'.ram s'.cr3 j) = present (s.ram s.cr3 j) := by
    intro j
    rw [hram, hrest.cr3, setWord_frame hne]
  refine ⟨freeFrames_take hc hc' hlt hfree ?_, ?_⟩
  · intro j _
    rw [htook]
    simp only [frameBit_inj]
  · intro n
    rw [missingTables_present hpres hdir n, hkernel]

theorem PageTaken.of_absent {vp i k w : Nat} (hc : s.Config l) (hrest : SameRest s s')
    (hlow : ∀ n, bitAt s'.low n = if n = l.frameBit .kernelPool k then true
      else if n = l.frameBit .userPool i then true else bitAt s.low n)
    (hlt : i < l.userFrames) (hfree : bitAt s.low (l.frameBit .userPool i) = false)
    (hklt : k < l.kernelFrames) (hkfree : bitAt s.low (l.frameBit .kernelPool k) = false)
    (hram : s'.ram = setWord (clearFrame (setWord s.ram s.cr3 (vp / 1024) ((0x200 + k) * 4096 + 7)) (0x200 + k))
      (0x200 + k) (vp % 1024) w) (hne : s.cr3 ≠ 0x200 + k)
    (hpres : present (s.ram s.cr3 (vp / 1024)) = false) : PageTaken s s' vp := by
  have hc' := hrest.config hc
  have hkernel : s'.freeFrames .kernelPool + 1 = s.freeFrames .kernelPool := by
    apply freeFrames_take hc hc' hklt hkfree
    intro j hj
    rw [hlow, if_neg (frameBit_kernel_ne_user hj)]
    simp only [frameBit_inj]
  have hdir : ∀ j, present (s'.ram s'.cr3 j) = if j = vp / 1024 then true else present (s.ram s.cr3 j) := by
    intro j
    rw [hram, hrest.cr3, setWord_frame hne, clearFrame_frame hne]
    by_cases hj : j = vp / 1024
    · rw [if_pos hj, hj, setWord_same]
      exact (entry_eq_some.1 (entry_flags (0x200 + k) 7 (by decide) (by decide))).1
    · rw [if_neg hj, setWord_word hj]
  refine ⟨freeFrames_take hc hc' hlt hfree ?_, ?_⟩
  · intro j _
    rw [hlow, if_neg fun he => frameBit_kernel_ne_user hklt he.symm]
    simp only [frameBit_inj]
  · intro n
    rw [missingTables_absent hpres hdir n]
    omega

section OnePage
variable {vp i : Nat} (hi : PageInv l pend s) (hvp : userFirst ≤ vp ∧ vp < userEnd) (hp : s.IsProcess s.current)
  (hlt : i < l.userFrames) (hfree : bitAt s.low (l.frameBit .userPool i) = false)
include hi hvp hp hlt hfree

/-- `PageMapping` of a page of the current process that has its page table. -/
theorem mapPage_present (hnone : s.umap s.current vp = none) {t : Nat} (ht : s.tab s.current (vp / 1024) = some t) :
    ∃ s', pageMapping { s with low := bitmapSetBit s.low (s.pool .userPool).poolBitmap i true } (vp * 4096)
      ((l.userStart + i) * 4096) = .ok s' ∧ PageTaken s s' vp ∧
      ∀ j, present (s'.ram s'.cr3 j) = present (s.ram s.cr3 j) := by
  have hend : vp < 0xC0000 := hvp.2
  have hpage : vp * 4096 / 4096 = vp := Nat.mul_div_cancel _ (by decide)
  obtain ⟨htab, hth⟩ := hi.tables_low (bitmapSetBit s.low (s.pool .userPool).poolBitmap i true)
  have hentry : entry (s.ram s.cr3 (vp / 1024)) = some t := by rw [entry_user hi.threads hp hvp, ht]
  have hne : s.cr3 ≠ t := hi.sep.dir_tab (hi.threads.dir_current hp) ht
  have hleaf : entry (s.ram t (vp % 1024)) = none := by rw [← umap_eq ht, hnone]
  have hok : pageMapping { s with low := bitmapSetBit s.low (s.pool .userPool).poolBitmap i true } (vp * 4096)
      ((l.userStart + i) * 4096) = _ :=
    pageMapping_present (htab.selfMapped hth.isDir) (by omega) (by rw [hpage]; exact hentry)
  rw [hpage, if_pos hleaf] at hok
  refine ⟨_, hok, .of_present hi.config rfl (bitAt_taken hi.config .userPool i) hlt hfree rfl hne
    (entry_eq_some.1 hentry).1, ?_⟩
  intro j
  exact congrArg present (setWord_frame hne j)

/-- The same without one: it takes a frame of the kernel pool. -/
theorem mapPage_absent (hl : l.Sized) (ht : s.tab s.current (vp / 1024) = none) :
    Except.Sat (pageMapping { s with low := bitmapSetBit s.low (s.pool .userPool).poolBitmap i true } (vp * 4096)
      ((l.userStart + i) * 4096)) (fun s' => PageTaken s s' vp ∧ 0 < s.freeFrames .kernelPool)
      (fun _ => s.freeFrames .kernelPool = 0) := by
  have hstart : 0x8048 ≤ vp := hvp.1
  have hend : vp < 0xC0000 := hvp.2
  have hpage : vp * 4096 / 4096 = vp := Nat.mul_div_cancel _ (by decide)
  have htook := bitAt_taken hi.config .userPool i
  have hrest : SameRest s { s with low := bitmapSetBit s.low (s.pool .userPool).poolBitmap i true } := rfl
  have hc' := hrest.config hi.config
  obtain ⟨htab, hth⟩ := hi.tables_low (bitmapSetBit s.low (s.pool .userPool).poolBitmap i true)
  have hentry : entry (s.ram s.cr3 (vp / 1024)) = none := by rw [entry_user hi.threads hp hvp, ht]
  have hdir := hi.threads.dir_current hp
  have hown : ∀ k < l.kernelFrames, bitAt s.low (l.frameBit .kernelPool k) = false → s.cr3 ≠ 0x200 + k := by
    intro k hk hbit he
    obtain ⟨w, -, hw⟩ := dir_some hdir
    have := (hi.frames.kernel.used_iff k hk).2 ⟨.leaf w, he ▸ hw⟩
    rw [hbit] at this
    cases this
  have hkbit : ∀ k < l.kernelFrames, bitAt (bitmapSetBit s.low (s.pool .userPool).poolBitmap i true)
      (l.frameBit .kernelPool k) = bitAt s.low (l.frameBit .kernelPool k) := by
    intro k hk
    rw [htook, if_neg (frameBit_kernel_ne_user hk)]
  have hsat : Except.Sat (pageMapping { s with low := bitmapSetBit s.low (s.pool .userPool).poolBitmap i true }
      (vp * 4096) ((l.userStart + i) * 4096)) _ _ :=
    pageMapping_absent hl hc' htab hth (by omega) (by rw [hpage]; omega)
      (fun k hk hb => hown k hk (by rw [← hkbit k hk]; exact hb)) (by rw [hpage]; exact hentry)
  rw [hpage] at hsat
  refine hsat.mono ?_ ?_
  · rintro s' ⟨k, hk, hkfree, rfl⟩
    rw [hkbit k hk] at hkfree
    refine ⟨.of_absent hi.config rfl ?_ hlt hfree hk hkfree rfl (hown k hk hkfree) (entry_eq_none.1 hentry),
      hi.config.freeFrames_pos.2 ⟨k, hk, hkfree⟩⟩
    intro n
    have hktook := bitAt_taken hc' .kernelPool k n
    rw [htook] at hktook
    exact hktook
  · rintro e ⟨-, hfull⟩
    rw [hi.config.freeFrames_zero]
    intro k hk
    rw [← hkbit k hk]
    exact hfull k hk

end OnePage

/-! ## Runs of pages -/

def Room (k : Kernel) (vp n : Nat) : Prop :=
  n ≤ k.freeFrames .userPool ∧ k.missingTables vp n ≤ k.freeFrames .kernelPool

theorem PageTaken.room {vp n : Nat} (h : PageTaken s s' vp) : s'.Room (vp + 1) n ↔ s.Room vp (n + 1) := by
  have huser := h.user
  have htables := h.tables n
  unfold Room
  omega

/-- What the loop of `palloc` maps next, in the address space of the current process. -/
theorem Pallocing.user {t : Kernel} {vp n j : Nat} (hm : Mappable l s .userPool vp n)
    (h : Pallocing l s t .userPool vp n j) (hj : j < n) (hlast : vp + j < 0xC0000) :
    (userFirst ≤ vp + j ∧ vp + j < userEnd) ∧ t.IsProcess t.current ∧ t.umap t.current (vp + j) = .none := by
  have hstart : 0x8048 ≤ vp := hm.run.2.1
  have hnone := h.none hm hj
  rw [← h.got.rest.pageOf] at hnone
  refine ⟨⟨?_, hlast⟩, ?_, hnone⟩
  · unfold userFirst
    omega
  · rw [h.got.rest.current, h.got.rest.isProcess]
    exact hm.run.1

/-- The loop of `palloc` for a process, after `j` pages. -/
theorem pallocFrom_ok_iff (hl : l.Sized) {vp n : Nat} (hm : Mappable l s .userPool vp n) (todo : Nat) {j : Nat}
    {t : Kernel} (hj : j + todo = n) (h : Pallocing l s t .userPool vp n j) :
    (∃ r, pallocFrom .userPool (vp * 4096) todo ((vp + j) * 4096) t = .ok r) ↔
      vp + n ≤ 0xC0000 ∧ t.Room (vp + j) todo := by
  induction todo generalizing j t with
  | zero =>
    have hjn : j = n := hj
    subst hjn
    refine iff_of_true ⟨_, rfl⟩ ⟨h.last, Nat.zero_le _, ?_⟩
    rw [missingTables_zero]
    exact Nat.zero_le _
  | succ todo ih =>
    have hi := h.inv
    have hge := l.start_ge .userPool
    unfold pallocFrom
    have hget := getOnePhysicPage_sat hl hi.config .userPool
    cases hr : t.getOnePhysicPage .userPool with
    | error e =>
      obtain ⟨-, hfull⟩ := hget.of_error hr
      rw [← hi.config.freeFrames_zero] at hfull
      refine iff_of_false ?_ ?_
      · rintro ⟨r, hok⟩
        cases hok
      · rintro ⟨-, hroom, -⟩
        omega
    | ok r =>
      obtain ⟨i, hlt, hfree, rfl⟩ := hget.of_ok hr
      rw [Except.ok_bind]
      dsimp only
      rw [if_neg (by omega)]
      have hsat := h.pageMapping hl hm (by omega) hlt hfree
      rcases Nat.lt_or_eq_of_le h.last with hlast | hlast
      · obtain ⟨hvp, hproc, hu⟩ := h.user hm (by omega) hlast
        -- the page is mapped, and the counts follow
        have hnext : ∀ t2, pageMapping { t with low := bitmapSetBit t.low (t.pool .userPool).poolBitmap i true }
            ((vp + j) * 4096) ((l.start .userPool + i) * 4096) = .ok t2 → PageTaken t t2 (vp + j) →
            ((∃ r, pallocFrom .userPool (vp * 4096) todo (((vp + j) * 4096 + 4096) % 2 ^ 32) t2 = .ok r) ↔
              vp + n ≤ 0xC0000 ∧ t.Room (vp + j) (todo + 1)) := by
          intro t2 hok htaken
          obtain ⟨-, h2, -⟩ := hsat.of_ok hok
          have hnext := ih (j := j + 1) (by omega) h2
          rw [next_vaddr hlast, Nat.add_assoc]
          exact hnext.trans (and_congr_right fun _ => htaken.room)
        cases htab : t.tab t.current ((vp + j) / 1024) with
        | some table =>
          obtain ⟨t2, hok, htaken, -⟩ := mapPage_present hi hvp hproc hlt hfree hu htab
          have := hnext t2 hok htaken
          rw [show l.start .userPool = l.userStart from rfl, hok, Except.ok_bind]
          exact this
        | none =>
          rcases (mapPage_absent hi hvp hproc hlt hfree hl htab).cases with ⟨t2, hm, htaken, -⟩ | ⟨e, hm, hzero⟩
          · have := hnext t2 hm htaken
            rw [show l.start .userPool = l.userStart from rfl, hm, Except.ok_bind]
            exact this
          · rw [show l.start .userPool = l.userStart from rfl, hm]
            refine iff_of_false ?_ ?_
            · rintro ⟨r, hok⟩
              cases hok
            · rintro ⟨-, -, htables⟩
              have hpres : present (t.ram t.cr3 ((vp + j) / 1024)) = false := by
                rw [← entry_eq_none, entry_user hi.threads hproc hvp, htab]
              have hpos := missingTables_pos hpres todo
              omega
      · have hlast' : vp + j = 0xC0000 := hlast
        refine iff_of_false ?_ ?_
        · rintro ⟨r, hok⟩
          obtain ⟨t2, hok2, -⟩ := Except.bind_eq_ok.1 hok
          have := (hsat.of_ok hok2).1
          omega
        · rintro ⟨hlt', -⟩
          omega

/-- What `palloc(USER_POOL, n)` by the process `t` needs: fewer than 3840 pages, an address bitmap that is not full,
and, if `BitmapScan` finds a run of `n` pages, that it ends inside the bitmap and there is room for it. -/
def PallocRoom (k : Kernel) (t : PCB) (n : Nat) : Prop :=
  n < 3840 ∧ match bitmapScan true (k.userBits k.current) t.userprogVaddr.bitmap n with
    | none => False
    | some none => True
    | some (some idx) => idx + n ≤ 8 * t.userprogVaddr.bitmapBytesLen ∧ k.Room (userFirst + idx) n

theorem Config.freeFrames_setPages (hc : s.Config l) {a : VirtualAddr} {pf : PoolFlags} (ha : s.HasVaddr pf a)
    (value : Bool) (n idx : Nat) (pf' : PoolFlags) :
    (s.setPages pf a value n idx).freeFrames pf' = s.freeFrames pf' :=
  freeFrames_congr hc ((s.setPages_rest pf a value n idx).config hc) fun _ hi => frameBit_setPages hc ha value n idx hi

theorem room_setPages (hc : s.Config l) {a : VirtualAddr} (ha : s.HasVaddr .userPool a) (n idx vp m : Nat) :
    (s.setPages .userPool a true n idx).Room vp m ↔ s.Room vp m := by
  unfold Room
  rw [hc.freeFrames_setPages ha, hc.freeFrames_setPages ha]
  rfl

theorem getVirtualPage_user (hi : PageInv l Stable s) {t : PCB} (ht : s.pcb s.current = some t) {n idx : Nat} (hn : 1 ≤ n)
    (hscan : bitmapScan true (s.userBits s.current) t.userprogVaddr.bitmap n = some (some idx)) :
    s.getVirtualPage .userPool n = .ok ((userFirst + idx) * 4096, s.setPages .userPool t.userprogVaddr true n idx) ∧
      Reserved l s (s.setPages .userPool t.userprogVaddr true n idx) .userPool (userFirst + idx) n := by
  have ha : s.HasVaddr .userPool t.userprogVaddr := ⟨t, ht, rfl⟩
  obtain ⟨hstart, hrun⟩ := scan_runAt hi ha hn hscan
  have hv := hrun.vaddr
  have haddr : (t.userprogVaddr.vaddrStart + idx * 4096) % 2 ^ 32 = (userFirst + idx) * 4096 := by
    have hbase : basePage .userPool = userFirst := rfl
    rw [hbase] at hstart hv
    rw [hstart, ← Nat.add_mul, Nat.mod_eq_of_lt hv.1]
  have hok : s.getVirtualPage .userPool n =
      .ok ((userFirst + idx) * 4096, s.setPages .userPool t.userprogVaddr true n idx) := by
    rw [getVirtualPage_eq hi.config ha, show s.vbytes .userPool = s.userBits s.current from rfl, hscan]
    dsimp only
    rw [haddr]
  refine ⟨hok, ?_⟩
  rcases (getVirtualPage_sat hi hn).of_ok hok with hnull | ⟨vp, -, hvp, hres⟩
  · have hzero := congrArg Prod.fst hnull
    dsimp only at hzero
    unfold userFirst at hzero
    omega
  · dsimp only at hvp hres
    have hvp' : vp = userFirst + idx := by omega
    subst hvp'
    exact hres

theorem palloc_ok_iff (hl : l.Sized) (hi : PageInv l Stable s) {t : PCB} (ht : s.pcb s.current = some t)
    (hp : t.pdeAddr ≠ 0) {n : Nat} (hn : 1 ≤ n) : (∃ r, s.palloc .userPool n = .ok r) ↔ s.PallocRoom t n := by
  have ha : s.HasVaddr .userPool t.userprogVaddr := ⟨t, ht, rfl⟩
  have hlen : t.userprogVaddr.bitmapBytesLen = 94199 := by
    rw [(hi.threads.vaddr ht).1, if_neg hp]
  unfold palloc PallocRoom
  by_cases hcnt : n < 3840
  · have hassert : s.assert (decide (n < 3840)) .pageCount = .ok () := by simp [hcnt]
    have heq := getVirtualPage_eq hi.config ha n
    rw [show s.vbytes .userPool = s.userBits s.current from rfl] at heq
    rw [hassert, Except.ok_bind]
    cases hscan : bitmapScan true (s.userBits s.current) t.userprogVaddr.bitmap n with
    | none =>
      rw [heq, hscan]
      refine iff_of_false ?_ fun h => h.2
      rintro ⟨r, hr⟩
      cases hr
    | some x =>
      cases x with
      | none =>
        rw [heq, hscan]
        exact iff_of_true ⟨_, rfl⟩ ⟨hcnt, trivial⟩
      | some idx =>
        obtain ⟨hok, hres⟩ := getVirtualPage_user hi ht hn hscan
        obtain ⟨hm, hbegin⟩ := hres.start hi
        have hloop := pallocFrom_ok_iff hl hm n (Nat.zero_add n) hbegin
        rw [Nat.add_zero, room_setPages hi.config ha] at hloop
        rw [hok, Except.ok_bind]
        dsimp only
        rw [if_neg (by unfold userFirst; omega), hloop, hlen]
        unfold userFirst
        constructor
        · rintro ⟨hend, hroom⟩
          exact ⟨hcnt, by omega, hroom⟩
        · rintro ⟨-, hend, hroom⟩
          exact ⟨by omega, hroom⟩
  · have hassert : s.assert (decide (n < 3840)) .pageCount = .error .pageCount := by
      simp [assert, hcnt, hi.config.debug]
    rw [hassert]
    refine iff_of_false ?_ fun h => hcnt h.1
    rintro ⟨r, hr⟩
    cases hr

/-! ## `sys_malloc` -/

/-- What could stop `sys_malloc` after `palloc`. -/
def LaterStop (e : Panic) : Prop := (∃ v, e = .pageFault v) ∨ e = .elemFind ∨ e = .nullElem ∨ e = .lockAssert

theorem LaterStop.not_palloc {e : Panic} (h : LaterStop e) : ¬ PallocStop e := by
  rintro (hp | hp | ⟨v, hp, -⟩) <;> rcases h with ⟨w, h⟩ | h | h | h <;> rw [h] at hp <;> cases hp

theorem memsetPages_later (s : Kernel) (v n : Nat) : Except.Sat (s.memsetPages v n) (fun _ => True) LaterStop := by
  apply Except.Sat.forRange (fun _ _ => True) trivial
  intro j t _ _ _
  unfold memsetPage Kernel.clearPage
  cases ElephantOS.clearPage t.ram t.cr3 (pageAt v j) with
  | none => exact .inl ⟨_, rfl⟩
  | some ram => trivial

theorem unlockPool_later (s : Kernel) (pf : PoolFlags) : Except.Sat (s.unlockPool pf) (fun _ => True) LaterStop := by
  unfold unlockPool
  split
  · trivial
  · exact .inr (.inr (.inr rfl))

theorem addBlock_later (s : Kernel) (av blockIdx : Nat) :
    Except.Sat (s.addBlock av blockIdx) (fun _ => True) LaterStop := by
  unfold addBlock
  have hfind : Except.Sat (s.assertFind (s.space.desc av) (arena2block s.space av blockIdx) false) (fun _ => True)
      LaterStop := by
    unfold assertFind
    split
    · trivial
    · split
      · trivial
      · exact .inr (.inl rfl)
  apply hfind.bind
  intro _ _
  unfold appendFree
  split
  · trivial
  · exact .inr (.inr (.inl rfl))

/-- A computation that begins with `palloc` and stops only where `palloc` stops returns exactly when `palloc` does. -/
theorem ok_iff_of_later {α β : Type} {x : Except Panic α} {f : α → Except Panic β} {Q : β → Prop}
    (hsat : Except.Sat (x >>= f) Q PallocStop) (hf : ∀ a, Except.Sat (f a) (fun _ => True) LaterStop) :
    (∃ r, x >>= f = .ok r) ↔ ∃ a, x = .ok a := by
  constructor
  · rintro ⟨r, hr⟩
    obtain ⟨a, ha, -⟩ := Except.bind_eq_ok.1 hr
    exact ⟨a, ha⟩
  · rintro ⟨a, rfl⟩
    rw [Except.ok_bind] at hsat ⊢
    rcases hsat.cases with ⟨r, hr, -⟩ | ⟨e, he, hstop⟩
    · exact ⟨r, hr⟩
    · exact absurd hstop ((hf a).of_error he).not_palloc

theorem pallocRoom_setLock (s : Kernel) (pf : PoolFlags) (lock : Lock Nat) (t : PCB) (n : Nat) :
    (s.setLock pf lock).PallocRoom t n ↔ s.PallocRoom t n := by
  cases pf <;> rfl

/-- What `sys_malloc(size)` by the process `t` needs: nothing if the size is refused, or the free list of its class
has a block; the pages of a new arena otherwise. -/
def MallocRoom (k : Kernel) (t : PCB) (size : Nat) : Prop :=
  size = 0 ∨ k.userMemoryPool.poolSize ≤ size ∨
  (size ≤ 1024 ∧ listEmpty k.space (freeList (descAt (userArenaDescs k.current)
    (arenaIdx k.space (userArenaDescs k.current) size arenaSum 0))) = false) ∨
  k.PallocRoom t (if size > 1024 then (size + arenaSize + 4096 - 1) % 2 ^ 32 / 4096 else 1)

section Malloc
variable {t : PCB} (hl : l.Sized) (hi : PageInv l Stable s) (ht : s.pcb s.current = some t) (hp : t.pdeAddr ≠ 0)
include hl hi ht hp

theorem pallocLock_ok_iff {n : Nat} (hn : 1 ≤ n) :
    (∃ r, (s.setLock .userPool (heldBy s.current)).palloc .userPool n = .ok r) ↔ s.PallocRoom t n := by
  have hpaging := SamePaging.setLock s .userPool (heldBy s.current)
  rw [palloc_ok_iff hl (hpaging.inv hi) ht hp hn, pallocRoom_setLock]

theorem sysMalloc_ok_iff (hu : s.Unlocked) {Q : Nat × Kernel → Prop} {size : Nat}
    (hsat : Except.Sat (s.sysMalloc size) Q PallocStop) : (∃ r, s.sysMalloc size = .ok r) ↔ s.MallocRoom t size := by
  have hheap : s.heapOf t = (.userPool, userArenaDescs s.current) := by rw [heapOf, if_neg hp]
  unfold MallocRoom
  unfold sysMalloc at hsat ⊢
  rw [getPcb, ht, Except.ok_bind, hheap] at hsat ⊢
  dsimp only at hsat ⊢
  have hpool : (s.pool .userPool).poolSize = s.userMemoryPool.poolSize := rfl
  rw [hpool] at hsat ⊢
  by_cases hsize : size > 0 ∧ size < s.userMemoryPool.poolSize
  · have hne : ¬ size = 0 ∧ ¬ s.userMemoryPool.poolSize ≤ size := by omega
    rw [if_neg (fun hn => hn hsize), lockPool_ok hu, Except.ok_bind] at hsat ⊢
    simp only [hne.1, hne.2, false_or]
    by_cases hlarge : size > 1024
    · have hsmall : ¬ size ≤ 1024 := by omega
      rw [if_pos hlarge] at hsat ⊢
      rw [if_pos hlarge]
      simp only [hsmall, false_and, false_or]
      have hpages : 1 ≤ (size + arenaSize + 4096 - 1) % 2 ^ 32 / 4096 := by
        have hmax := hi.config.size .userPool
        rw [hpool] at hmax
        unfold arenaSize
        omega
      generalize (size + arenaSize + 4096 - 1) % 2 ^ 32 / 4096 = n at *
      rw [ok_iff_of_later hsat, pallocLock_ok_iff hl hi ht hp hpages]
      rintro ⟨av, s1⟩
      dsimp only
      split
      · apply (memsetPages_later s1 av n).bind
        intro s2 _
        apply (unlockPool_later _ .userPool).bind
        intro s3 _
        trivial
      · apply (unlockPool_later _ .userPool).bind
        intro s3 _
        trivial
    · have hsmall : size ≤ 1024 := by omega
      rw [if_neg hlarge] at hsat ⊢
      rw [if_neg hlarge]
      simp only [hsmall, true_and]
      rw [setLock_space] at hsat ⊢
      generalize descAt (userArenaDescs s.current) (arenaIdx s.space (userArenaDescs s.current) size arenaSum 0) = desc at *
      unfold ensureBlock at hsat ⊢
      rw [setLock_space] at hsat ⊢
      cases hempty : listEmpty s.space (freeList desc) with
      | false =>
        rw [hempty, if_neg Bool.false_ne_true] at hsat
        refine iff_of_true ?_ (.inl rfl)
        rw [if_neg Bool.false_ne_true]
        rcases hsat.cases with ⟨r, hr, -⟩ | ⟨e, he, hstop⟩
        · exact ⟨r, hr⟩
        · have hlater : LaterStop e := by
            refine Except.Sat.of_error (Q := fun _ => True) ?_ he
            apply (unlockPool_later _ .userPool).bind
            intro s3 _
            trivial
          exact absurd hstop hlater.not_palloc
      | true =>
        rw [hempty, if_pos rfl, newArena, bind_assoc] at hsat
        rw [if_pos rfl, newArena, bind_assoc, ok_iff_of_later hsat, pallocLock_ok_iff hl hi ht hp (Nat.le_refl 1)]
        · simp
        · rintro ⟨av, s1⟩
          dsimp only
          split
          · apply (unlockPool_later _ .userPool).bind
            intro s3 _
            trivial
          · rw [bind_assoc]
            apply (memsetPages_later s1 av 1).bind
            intro s2 _
            rw [bind_assoc]
            have hblocks : ∀ m (s3 : Kernel), Except.Sat (Except.forRange (fun blockIdx s => s.addBlock av blockIdx) m 0 s3)
                (fun _ => True) LaterStop := by
              intro m s3
              apply Except.Sat.forRange (fun _ _ => True) trivial
              intro j s4 _ _ _
              exact addBlock_later s4 av j
            apply (hblocks _ _).bind
            intro s3 _
            apply (unlockPool_later _ .userPool).bind
            intro s4 _
            trivial
  · rw [if_pos hsize]
    refine iff_of_true ⟨_, rfl⟩ ?_
    omega

end Malloc

end Kernel

open Kernel Sys

/-- `sys_malloc(size)` by the current process returns, with the locks released: NULL, or a block that overlaps no block
in use, in pages of the process with frames of their own, to which the TLB has no other translation. -/
def TlbSys.MallocReturns (m : TlbSys) (size : Nat) : Prop :=
  ∃ r k', m.sys.k.sysMalloc size = .ok (r, k') ∧ k'.Unlocked ∧ m.Agrees k' ∧
    (r = 0 ∨ (∀ a, r ≤ a → a < r + size → k'.HasOwnFrame (.user m.sys.k.current (a / 4096))) ∧
      ∀ p n, m.sys.live (.user m.sys.k.current) p = some n → r + size ≤ p ∨ p + n ≤ r)

section Returns
variable {l : Layout} {arenas : Heap → Nat → Option Arena} {seq : Heap → Fin 7 → List Nat}

theorem Kernel.heap_process {k : Kernel} {t : PCB} (ht : k.pcb k.current = some t) (hp : t.pdeAddr ≠ 0) :
    k.heap = .user k.current := by
  unfold Kernel.heap
  rw [ht]
  dsimp only
  rw [if_neg hp]

theorem TlbSys.Right.mallocReturns {m : TlbSys} (hright : m.Right) (hl : l.Sized) (h8 : l.kernelFreePages % 8 = 0)
    (hI : m.sys.Inv l arenas seq) {t : PCB} (ht : m.sys.k.pcb m.sys.k.current = some t) (hp : t.pdeAddr ≠ 0) {size r : Nat}
    {k' : Kernel} (hfresh : m.Fresh (.sysMalloc size)) (hok : m.sys.k.sysMalloc size = .ok (r, k')) :
    m.MallocReturns size := by
  obtain ⟨A, q, hnew, hstep⟩ := hI.heapCall hl (c := .sysMalloc size) trivial trivial hok
  refine ⟨r, k', hok, hnew.unlocked, hright.malloc hfresh hok, ?_⟩
  by_cases hr : r = 0
  · exact .inl hr
  · have hheap := Kernel.heap_process ht hp
    have hhas : k'.HasHeap (.user m.sys.k.current) := by
      have hproc : k'.IsProcess m.sys.k.current := by
        rw [hstep.sys.isProcess]
        exact ⟨t, ht, hp⟩
      exact hproc
    have hinv := hnew.heap (.user m.sys.k.current) hhas
    have hlive : ∀ p, (m.sys.after (.sysMalloc size) r k').live (.user m.sys.k.current) p =
        if p = r then some size else m.sys.live (.user m.sys.k.current) p := by
      intro p
      show (if r = 0 then m.sys.live else m.sys.setLive r (some size)) (.user m.sys.k.current) p = _
      rw [if_neg hr, setLive, hheap, Function.update_self]
      by_cases hpr : p = r
      · rw [hpr, Function.update_self, if_pos rfl]
      · rw [Function.update_of_ne hpr, if_neg hpr]
    have hblock : (m.sys.after (.sysMalloc size) r k').live (.user m.sys.k.current) r = some size := by
      rw [hlive, if_pos rfl]
    refine .inr ⟨?_, ?_⟩
    · intro a h1 h2
      have hmapped := hinv.mapped (hinv.rep.live_page hblock h1 h2)
      exact hnew.page.hasOwnFrame (h := .user m.sys.k.current) (.inr h8) hmapped
    · intro p n hpn
      by_cases hpr : p = r
      · subst hpr
        rcases (hI.sysMalloc_sat hl size).of_ok hok with heq | ⟨A', q', hm⟩
        · exact absurd (Prod.mk.inj heq).1 hr
        · have hnone := hm.fresh
          rw [hheap] at hnone
          rw [hnone] at hpn
          cases hpn
      · refine hinv.rep.live_sep hblock ?_ (Ne.symm hpr)
        rw [hlive, if_neg hpr]
        exact hpn

end Returns

/-- A process's `sys_malloc` returns exactly when `MallocRoom` holds; otherwise an `ASSERT` on its path fails. -/
theorem malloc_returns_iff {allMem : Nat} (hused : usedMem ≤ allMem) (hmem : allMem < 0x1575F000)
    (h8 : (layout allMem).kernelFreePages % 8 = 0) {low : Bytes} {D : Nat} (hD : StaticDescs D) {m : TlbSys}
    (hrun : TlbSys.Run (layout allMem) TlbSys.Fresh (TlbSys.init (boot allMem low D)) m) {t : PCB}
    (ht : m.sys.k.pcb m.sys.k.current = some t) (hp : t.pdeAddr ≠ 0) (size : Nat) (hfresh : m.Fresh (.sysMalloc size)) :
    m.MallocReturns size ↔ m.sys.k.MallocRoom t size := by
  have hl : (layout allMem).Sized := Fits.sized ⟨hused, by omega⟩
  obtain ⟨⟨arenas, seq, hI⟩, hright⟩ := TlbSys.boot_run_inv hused hmem hD hrun
  rw [← sysMalloc_ok_iff hl hI.page ht hp hI.unlocked (hI.sysMalloc_sat hl size)]
  constructor
  · rintro ⟨r, k', hok, -⟩
    exact ⟨_, hok⟩
  · rintro ⟨⟨r, k'⟩, hok⟩
    exact hright.mallocReturns hl h8 hI ht hp hfresh hok

/-! ## The first process of a machine with 64MB -/

def boot64MB : TlbSys := TlbSys.init (boot 0x4000000 (fun _ => 0#8) 0xC0010000)

/-- The first process, with two blocks in use: of a page of its own, and of an arena with other blocks. -/
def firstBlocks (m : TlbSys) : Option (Nat × TlbSys) := do
  let (p, m1) ← m.tryCall .execProcess
  let m2 ← m1.trySwitch p 0xC009EFD4
  let (_, m3) ← m2.tryHeap (.user p) (.sysMalloc 2000)
  let (_, m4) ← m3.tryHeap (.user p) (.sysMalloc 1000)
  return (p, m4)

/-- The next block of the arena is handed out, and a request for 15MB, less than the user pool has, stops the kernel. -/
theorem firstBlocks_facts : (firstBlocks boot64MB).map (fun x => (x.1,
    (x.2.tryHeap (.user x.1) (.sysMalloc 700)).map Prod.fst, (x.2.sys.k.sysMalloc 0xF00000).map Prod.fst)) =
    some (0xC0100000, some 0x804940C, .error .pageCount) := by
  decide +kernel

theorem firstBlocks_calls {m m4 : TlbSys} {p : Nat} (h : firstBlocks m = some (p, m4)) : ∃ m1 m2 m3 a b,
    m.tryCall .execProcess = some (p, m1) ∧ m1.trySwitch p 0xC009EFD4 = some m2 ∧
    m2.tryHeap (.user p) (.sysMalloc 2000) = some (a, m3) ∧ m3.tryHeap (.user p) (.sysMalloc 1000) = some (b, m4) := by
  obtain ⟨⟨p, m1⟩, h1, h⟩ := Option.bind_eq_some_iff.1 h
  obtain ⟨m2, h2, h⟩ := Option.bind_eq_some_iff.1 h
  obtain ⟨⟨a, m3⟩, h3, h⟩ := Option.bind_eq_some_iff.1 h
  obtain ⟨⟨b, m4⟩, h4, h⟩ := Option.bind_eq_some_iff.1 h
  cases h
  exact ⟨m1, m2, m3, a, b, h1, h2, h3, h4⟩

theorem Kernel.process_of_heap {k : Kernel} {p : Nat} (h : k.heap = .user p) :
    ∃ t, k.pcb k.current = some t ∧ t.pdeAddr ≠ 0 := by
  unfold Kernel.heap at h
  split at h
  · rename_i t ht
    split at h
    · cases h
    · exact ⟨t, ht, by assumption⟩
  · cases h

theorem firstBlocks_run : ∃ m m' t p, TlbSys.Run (layout 0x4000000) TlbSys.Fresh boot64MB m ∧
    m.sys.k.pcb m.sys.k.current = some t ∧ t.pdeAddr ≠ 0 ∧
    m.tryHeap (.user p) (.sysMalloc 700) = some (0x804940C, m') ∧
    (m.sys.k.sysMalloc 0xF00000).map Prod.fst = .error .pageCount := by
  obtain ⟨⟨p, m⟩, h, hfacts⟩ := Option.map_eq_some_iff.1 firstBlocks_facts
  obtain ⟨m1, m2, m3, a, b, h1, h2, h3, h4⟩ := firstBlocks_calls h
  simp only [Prod.mk.injEq] at hfacts
  obtain ⟨-, hsmall, hlarge⟩ := hfacts
  obtain ⟨⟨q, m'⟩, hnext, rfl⟩ := Option.map_eq_some_iff.1 hsmall
  have hused : usedMem ≤ 0x4000000 := usedMem_le (by decide)
  have hrun3 := ((TlbSys.Run.first h1).trySwitch h2).tryHeap hused (by decide) (by decide) h3 nofun
  have hrun4 := hrun3.tryHeap hused (by decide) (by decide) h4 nofun
  obtain ⟨-, hheap, -⟩ := TlbSys.tryHeap_eq hnext
  obtain ⟨t, ht, hp⟩ := Kernel.process_of_heap hheap
  exact ⟨m, m', t, p, hrun4, ht, hp, hnext, hlarge⟩

/-- It asks for 700 bytes: the next block of the arena. -/
theorem malloc_returns_block : ∃ m t, TlbSys.Run (layout 0x4000000) TlbSys.Fresh boot64MB m ∧
    m.sys.k.pcb m.sys.k.current = some t ∧ t.pdeAddr ≠ 0 ∧ m.Fresh (.sysMalloc 700) ∧ m.MallocReturns 700 ∧
    m.sys.k.MallocRoom t 700 := by
  obtain ⟨m, m', t, p, hrun, ht, hp, hnext, -⟩ := firstBlocks_run
  have hused : usedMem ≤ 0x4000000 := usedMem_le (by decide)
  have hfresh : m.Fresh (.sysMalloc 700) := hrun.fresh_of_tryHeap hused (by decide) (by decide) hnext nofun
  obtain ⟨⟨arenas, seq, hI⟩, hright⟩ := TlbSys.boot_run_inv hused (by decide) (by decide) hrun
  obtain ⟨-, k', hok, -⟩ := TlbSys.tryCall_eq (TlbSys.tryHeap_eq hnext).1
  have hreturns : m.MallocReturns 700 :=
    hright.mallocReturns (Fits.sized ⟨hused, by decide⟩) (by decide) hI ht hp hfresh hok
  exact ⟨m, t, hrun, ht, hp, hfresh, hreturns,
    (malloc_returns_iff hused (by decide) (by decide) (by decide) hrun ht hp 700 hfresh).1 hreturns⟩

/-- It asks for 15MB, less than the user pool has: 3841 pages. -/
theorem not_malloc_returns : ∃ m t size, TlbSys.Run (layout 0x4000000) TlbSys.Fresh boot64MB m ∧
    m.sys.k.pcb m.sys.k.current = some t ∧ t.pdeAddr ≠ 0 ∧ size < 2 ^ 32 ∧ ¬ m.MallocReturns size := by
  obtain ⟨m, -, t, p, hrun, ht, hp, -, hlarge⟩ := firstBlocks_run
  refine ⟨m, t, 0xF00000, hrun, ht, hp, by decide, ?_⟩
  rintro ⟨r, k', hok, -⟩
  rw [hok] at hlarge
  cases hlarge

end ElephantOS
