import ElephantOS.Memory.PageCalls

/-!
# New threads and address spaces

* `creatPDE_sat` : the new directory has the kernel's entries and its own, and no user page table;
* `PageInv.newPcb` : a PCB on a fresh page, with no directory or a new one, keeps the invariant;
* `threadStart_sat`, `execProcess_sat`, `switchTo_ok` : the calls;
* `boot_inv` : the invariant holds after `VmemInit` and `ThreadInit`.
-/

namespace ElephantOS
namespace Kernel
variable {l : Layout} {s s' : Kernel} {pend : Page → Prop}

/-! ## `CreatPDE` -/

structure NewDir (s : Kernel) (f : Nat) : Prop where
  shared : ∀ {j}, 768 ≤ j → j ≤ 1022 → entry (s.ram f j) = some (kernelTable j)
  self : entry (s.ram f 1023) = some f
  zero : entry (s.ram f 0) ≠ none
  empty : ∀ {j}, 1 ≤ j → j < 768 → entry (s.ram f j) = none

theorem load_dir (ht : s.Tables) (hth : s.Threads) {i : Nat} (hi : i < 1024) :
    s.load (0xFFFFF000 + 4 * i) = .ok (s.ram s.cr3 i) := by
  have hself := ht.selfMapped hth.isDir
  have hidx : pdeIdx (i * 2 ^ 22) = i := by
    unfold pdeIdx
    omega
  have haddr : 0xFFFFF000 + 4 * i = getPDEPointer (i * 2 ^ 22) := by
    rw [getPDEPointer, hidx]
    omega
  rw [haddr, load_eq (load_pde hself _), hidx]

theorem PageInv.store_word (hi : PageInv l pend s) {vp f i w : Nat} (hk : s.kmap vp = some f) (hlt : i < 1024) :
    s.store (vp * 4096 + 4 * i) w = .ok { s with ram := setWord s.ram f i w } := by
  have hpage : (vp * 4096 + 4 * i) / 4096 = vp := by omega
  have hoff : (vp * 4096 + 4 * i) % 4096 = 4 * i := by omega
  obtain ⟨hframe, hword⟩ := word_div f i hlt
  have hmap : s.map (s.pageOf .kernelPool ((vp * 4096 + 4 * i) / 4096)) = some f := by
    rw [hpage]
    exact hk
  have hwalk := hi.walk hmap
  rw [Kernel.store, Ram.store, hwalk, hoff, Option.map_some, Nat.mul_comm 4 i, hframe, hword]

theorem PageInv.cr3_ne (hi : PageInv l pend s) {vp f : Nat} (hk : s.kmap vp = some f) (hsys : ¬ s.SystemPage vp) :
    s.cr3 ≠ f := by
  have hmap : s.map (s.pageOf .kernelPool vp) = some f := hk
  obtain ⟨hge, hdir, -⟩ := hi.leaf_other hmap fun _ => hsys
  rcases hi.threads.isDir with h | ⟨p, hp⟩
  · omega
  · exact hdir p _ hp

theorem PageInv.copyWord_ok (hi : PageInv l pend s) {vp f i : Nat} (hk : s.kmap vp = some f) (hlt : i < 1024) :
    s.copyWord (vp * 4096 + 4 * i) (0xFFFFF000 + 4 * i) =
      .ok { s with ram := setWord s.ram f i (s.ram s.cr3 i) } := by
  rw [copyWord, load_dir hi.tables hi.threads hlt, Except.ok_bind, hi.store_word hk hlt]

/-- Words of a data frame are written: nothing else changes. -/
theorem PageInv.dirWords (hi : PageInv l pend s) {vp f : Nat} (hk : s.kmap vp = some f) (hsys : ¬ s.SystemPage vp)
    {ram : Ram} (hram : ∀ g, g ≠ f → ∀ i, ram g i = s.ram g i) : SamePaging s { s with ram := ram } := by
  have hmap : s.map (s.pageOf .kernelPool vp) = some f := hk
  exact hi.samePaging hmap (fun _ => hsys) hram

theorem PageInv.copyWords_ok (hi : PageInv l pend s) {vp f : Nat} (hk : s.kmap vp = some f)
    (hsys : ¬ s.SystemPage vp) :
    ∃ ram, Except.forRange (fun i s => copyWord s (vp * 4096 + 4 * i) (0xFFFFF000 + 4 * i)) 256 0x300 s =
        .ok { s with ram := ram } ∧ (∀ g, g ≠ f → ∀ i, ram g i = s.ram g i) ∧
      ∀ i, ram f i = if 768 ≤ i ∧ i < 1024 then s.ram s.cr3 i else s.ram f i := by
  let P : Nat → Kernel → Prop := fun j t => ∃ ram, t = { s with ram := ram } ∧
    (∀ g, g ≠ f → ∀ i, ram g i = s.ram g i) ∧
    ∀ i, ram f i = if 768 ≤ i ∧ i < j then s.ram s.cr3 i else s.ram f i
  have h0 : P 0x300 s := ⟨s.ram, rfl, fun _ _ _ => rfl, fun i => by rw [if_neg (by omega)]⟩
  have hne := hi.cr3_ne hk hsys
  obtain ⟨t, hok, ram, rfl, hother, hf⟩ := Except.forRange_ok (n := 256)
    (f := fun i s => copyWord s (vp * 4096 + 4 * i) (0xFFFFF000 + 4 * i)) P h0 (by
      rintro j t hj hlt ⟨ram, rfl, hother, hf⟩
      have hp := hi.dirWords hk hsys hother
      have hk' : Kernel.kmap { s with ram := ram } vp = some f := by
        rw [hp.maps.kmap]
        exact hk
      refine ⟨_, (hp.inv hi).copyWord_ok hk' (by omega), setWord ram f j (ram s.cr3 j), rfl, fun g hg i => ?_,
        fun i => ?_⟩
      · rw [setWord_frame hg]
        exact hother g hg i
      · by_cases hij : i = j
        · subst hij
          rw [setWord_same, hother s.cr3 hne, if_pos (by omega)]
        · rw [setWord_word hij, hf]
          by_cases hin : 768 ≤ i ∧ i < j
          · rw [if_pos hin, if_pos (by omega)]
          · rw [if_neg hin, if_neg (by omega)])
  exact ⟨ram, hok, hother, hf⟩

/-- The last entry: 100, 10 and 1 are decimal in `CreatPDE`. -/
theorem or_decimal_flags (f : Nat) : f * 4096 ||| 100 ||| 10 ||| 1 = f * 4096 + 111 := by
  have h := Nat.two_pow_add_eq_or_of_lt (show 111 < 2 ^ 12 by decide) f
  rw [Nat.or_assoc, Nat.or_assoc, show (100 ||| (10 ||| 1)) = 111 by decide, Nat.mul_comm]
  exact h.symm

theorem creatPDE_sat (hl : l.Sized) (hi : PageInv l Stable s) (hu : s.Unlocked) :
    Except.Sat s.creatPDE
      (fun r => r = (0, s) ∨ ∃ vp f, 0 < vp ∧ r.1 = vp * 4096 ∧ Called l s r.2 .kernelPool vp 1 ∧
        r.2.kmap vp = some f ∧ NewDir r.2 f) PallocStop := by
  rw [creatPDE, kpalloc]
  refine (pallocLocked_sat hl hi hu (Nat.le_refl 1)).bind ?_
  rintro ⟨v, s1⟩ (heq | ⟨vp, hpos, rfl, hc, hzero⟩)
  · simp only [Prod.mk.injEq] at heq
    obtain ⟨rfl, rfl⟩ := heq
    exact .inl rfl
  · dsimp only at hc hzero ⊢
    rw [if_neg (by omega)]
    have hi1 := hc.inv
    obtain ⟨f, hk⟩ := hc.mapped 0 (by decide)
    rw [Nat.add_zero] at hk
    replace hk : s1.kmap vp = some f := hk
    have hwords : ∀ i, s1.ram f i = 0 := hzero 0 (by decide) f hk
    have hsys : ¬ s1.SystemPage vp := fun h =>
      hi.threads.kmap_system (hc.sys.systemPage.1 h) (hc.fresh 0 (by decide))
    have hne := hi1.cr3_ne hk hsys
    obtain ⟨ram, hcopy, hother, hf⟩ := hi1.copyWords_ok hk hsys
    have hp := hi1.dirWords hk hsys hother
    have hk2 : Kernel.kmap { s1 with ram := ram } vp = some f := by
      rw [hp.maps.kmap]
      exact hk
    have hzeroth := (hp.inv hi1).copyWord_ok (i := 0) hk2 (by decide)
    rw [Nat.mul_zero, Nat.add_zero, Nat.add_zero] at hzeroth
    have hother3 : ∀ g, g ≠ f → ∀ i, setWord ram f 0 (ram s1.cr3 0) g i = s1.ram g i := fun g hg i => by
      rw [setWord_frame hg]
      exact hother g hg i
    have hp3 := hi1.dirWords hk hsys hother3
    have hk3 : Kernel.kmap { s1 with ram := setWord ram f 0 (ram s1.cr3 0) } vp = some f := by
      rw [hp3.maps.kmap]
      exact hk
    have hmap3 : Kernel.map { s1 with ram := setWord ram f 0 (ram s1.cr3 0) }
        (Kernel.pageOf { s1 with ram := setWord ram f 0 (ram s1.cr3 0) } .kernelPool (vp * 4096 / 4096)) = some f := by
      rw [Nat.mul_div_cancel _ (by decide)]
      exact hk3
    have hpa := (hp3.inv hi1).virtualAddrToPhysicAddr hmap3
    rw [Nat.mul_mod_left, Nat.add_zero] at hpa
    rw [hcopy, Except.ok_bind, hzeroth, Except.ok_bind]
    dsimp only
    rw [hpa, Except.ok_bind, (hp3.inv hi1).store_word hk3 (by decide), Except.ok_bind, or_decimal_flags]
    let last : Ram := setWord (setWord ram f 0 (ram s1.cr3 0)) f 1023 (f * 4096 + 111)
    have hother4 : ∀ g, g ≠ f → ∀ i, last g i = s1.ram g i := fun g hg i => by
      simp only [last]
      rw [setWord_frame hg]
      exact hother3 g hg i
    have hp4 := hi1.dirWords hk hsys hother4
    have hcr3 : s1.IsDir s1.cr3 := hi1.threads.isDir
    refine .inr ⟨vp, f, hpos, rfl, ⟨⟨hc.fresh, fun k hk => ?_, fun pg hpg => ?_, ?_, fun ht => ?_, fun hpf => ?_,
      hc.bits⟩, hc.sys.trans rfl, hc.space, hc.umem, hp4.inv hi1⟩, ?_, ?_⟩
    · rw [hp4.map]
      exact hc.mapped k hk
    · rw [hp4.map]
      exact hc.map pg hpg
    · rw [hp4.maps.dir]
      exact hc.dir
    · rw [hp4.maps.tab]
      exact hc.tab ht
    · rw [hp4.maps.tab]
      exact hc.ktab hpf
    · rw [hp4.maps.kmap]
      exact hk
    · have hlast : ∀ j, last f j = if j = 1023 then f * 4096 + 111 else if j = 0 ∨ 768 ≤ j ∧ j < 1024 then
          s1.ram s1.cr3 j else 0 := by
        intro j
        by_cases h1 : j = 1023
        · rw [if_pos h1, h1]
          exact setWord_same ..
        · rw [if_neg h1]
          simp only [last]
          rw [setWord_word h1]
          by_cases h0 : j = 0
          · rw [if_pos (.inl h0), h0, setWord_same, hother s1.cr3 hne]
          · rw [setWord_word h0, hf, hwords]
            by_cases hin : 768 ≤ j ∧ j < 1024
            · rw [if_pos hin, if_pos (.inr hin)]
            · rw [if_neg hin, if_neg (by omega)]
      refine ⟨fun {j} h1 h2 => ?_, ?_, ?_, fun {j} h1 h2 => ?_⟩
      · change entry (last f j) = _
        rw [hlast, if_neg (by omega), if_pos (by omega)]
        exact hi1.tables.shared hcr3 h1 h2
      · change entry (last f 1023) = _
        rw [hlast, if_pos rfl]
        exact entry_flags f 111 (by decide) (by decide)
      · change entry (last f 0) ≠ _
        rw [hlast, if_neg (by decide), if_pos (.inl rfl)]
        exact hi1.tables.zero hcr3
      · change entry (last f j) = _
        rw [hlast, if_neg (by omega), if_neg (by omega)]
        rfl

/-! ## New PCBs -/

/-- `t` can be the PCB of a new thread: it has no directory, or a new one in a page of its own. -/
def NewSpace (s : Kernel) (p : Nat) (t : PCB) : Prop :=
  t.pdeAddr = 0 ∧ t.userprogVaddr.bitmapBytesLen = 0 ∨
    ∃ vp f, t.pdeAddr = vp * 4096 ∧ 0 < vp ∧ s.kmap vp = some f ∧ NewDir s f ∧ (∀ q, s.pdPage q ≠ some vp) ∧
      t.userprogVaddr.bitmapBytesLen = 94199 ∧ t.userprogVaddr.vaddrStart = 0x8048000 ∧ s.userBits p = fun _ => 0#8

section NewPcb
variable {p : Nat} {t : PCB}

def withPcb (s : Kernel) (p : Nat) (t : PCB) : Kernel := { s with pcb := Function.update s.pcb p (some t) }

theorem withPcb_pcb (s : Kernel) (p : Nat) (t : PCB) (q : Nat) :
    (s.withPcb p t).pcb q = if q = p then some t else s.pcb q := by
  unfold withPcb
  by_cases hq : q = p
  · subst hq
    simp
  · simp [hq]

theorem pdPage_withPcb_ne {q : Nat} (hq : q ≠ p) : (s.withPcb p t).pdPage q = s.pdPage q := by
  unfold pdPage
  rw [withPcb_pcb, if_neg hq]

theorem dir_withPcb_ne {q : Nat} (hq : q ≠ p) : (s.withPcb p t).dir q = s.dir q := by
  unfold dir
  rw [pdPage_withPcb_ne hq]
  rfl

theorem pdPage_none (hnone : s.pcb p = none) : s.pdPage p = none := by
  unfold pdPage
  rw [hnone]

theorem dir_none (hnone : s.pcb p = none) : s.dir p = none := by
  unfold dir
  rw [pdPage_none hnone]
  rfl

theorem dir_withPcb (hnew : s.NewSpace p t) :
    (s.withPcb p t).dir p = none ∨ ∃ f, (s.withPcb p t).dir p = some f ∧ NewDir s f := by
  unfold dir pdPage
  rw [withPcb_pcb, if_pos rfl]
  rcases hnew with ⟨h0, -⟩ | ⟨vp, f, hpd, hpos, hk, hdir, -⟩
  · exact .inl (by simp [h0])
  · refine .inr ⟨f, ?_, hdir⟩
    dsimp only
    rw [if_neg (by omega), hpd, Nat.mul_div_cancel _ (by decide), Option.bind_some]
    exact hk

/-- No page table yet: the new address space has no user page. -/
theorem tab_withPcb (hnone : s.pcb p = none) (hnew : s.NewSpace p t) : (s.withPcb p t).tab = s.tab := by
  funext q j
  unfold tab
  by_cases hq : q = p
  · subst hq
    rw [dir_none hnone, Option.bind_none]
    rcases dir_withPcb hnew with h | ⟨f, h, hdir⟩
    · rw [h, Option.bind_none]
    · rw [h, Option.bind_some]
      split
      · exact hdir.empty (by omega) (by omega)
      · rfl
  · rw [dir_withPcb_ne hq]
    rfl

theorem map_withPcb (hnone : s.pcb p = none) (hnew : s.NewSpace p t) : (s.withPcb p t).map = s.map := by
  funext pg
  cases pg with
  | kernel vp => rfl
  | user q vp =>
    change (s.withPcb p t).umap q vp = s.umap q vp
    unfold umap
    rw [tab_withPcb hnone hnew]
    rfl

theorem vbit_withPcb_ne {q : Nat} (hq : q ≠ p) (vp : Nat) :
    (s.withPcb p t).vbit l (.user q vp) = s.vbit l (.user q vp) := by
  simp only [vbit, withPcb_pcb, if_neg hq]
  rfl

theorem isProcess_withPcb_ne {q : Nat} (hq : q ≠ p) : (s.withPcb p t).IsProcess q ↔ s.IsProcess q := by
  unfold IsProcess
  rw [withPcb_pcb, if_neg hq]

theorem Virt.newPcb (hv : s.Virt l Stable) (hnone : s.pcb p = none) (hnew : s.NewSpace p t) :
    Virt l Stable (s.withPcb p t) := by
  have hmap := map_withPcb hnone hnew
  refine ⟨fun {pg} h => ?_, fun {pg} hw hb => ?_⟩
  · rw [hmap] at h
    obtain ⟨hr, hb⟩ := hv.mapped h
    cases pg with
    | kernel vp => exact ⟨hr, hb⟩
    | user q vp =>
      have hq : q ≠ p := by
        rintro rfl
        obtain ⟨⟨t', ht', -⟩, -⟩ := hr
        rw [hnone] at ht'
        cases ht'
      exact ⟨⟨(isProcess_withPcb_ne hq).2 hr.1, hr.2⟩, by rw [vbit_withPcb_ne hq]; exact hb⟩
  · rw [hmap]
    cases pg with
    | kernel vp => exact hv.set hw hb
    | user q vp =>
      by_cases hq : q = p
      · -- the bitmap of the new process is clear
        subst hq
        exfalso
        obtain ⟨⟨t', ht', hne⟩, -⟩ := hw
        rw [withPcb_pcb, if_pos rfl, Option.some.injEq] at ht'
        subst ht'
        simp only [vbit, withPcb_pcb, if_true] at hb
        rcases hnew with ⟨h0, -⟩ | ⟨_, _, _, _, _, _, _, _, _, hbits⟩
        · exact hne h0
        · rw [show (s.withPcb q t).userBits q = fun _ => 0#8 from hbits] at hb
          simp [bitAt] at hb
      · rw [vbit_withPcb_ne hq] at hb
        exact hv.set ⟨(isProcess_withPcb_ne hq).1 hw.1, hw.2⟩ hb

theorem PageInv.newPcb (hi : PageInv l Stable s) (hnone : s.pcb p = none) (hp : p % 4096 = 0)
    (hk : s.kmap (p / 4096) ≠ none) (hnew : s.NewSpace p t) : PageInv l Stable (s.withPcb p t) := by
  have hmap := map_withPcb hnone hnew
  have htab := tab_withPcb hnone hnew
  have hcur : s.current ≠ p := by
    obtain ⟨t', ht'⟩ := hi.threads.cur
    rintro rfl
    rw [hnone] at ht'
    cases ht'
  have hisDir : ∀ {d}, (s.withPcb p t).IsDir d → s.IsDir d ∨ NewDir s d := by
    rintro d (rfl | ⟨q, hq⟩)
    · exact .inl (.inl rfl)
    · by_cases hqp : q = p
      · subst hqp
        rcases dir_withPcb hnew with h | ⟨f, h, hdir⟩
        · rw [h] at hq
          cases hq
        · rw [h, Option.some.injEq] at hq
          exact .inr (hq ▸ hdir)
      · rw [dir_withPcb_ne hqp] at hq
        exact .inl (.inr ⟨q, hq⟩)
  have hpdp : ∀ {q v}, (s.withPcb p t).pdPage q = some v →
      s.pdPage q = some v ∨ q = p ∧ s.kmap v ≠ none ∧ ∀ q, s.pdPage q ≠ some v := by
    intro q v hq
    by_cases hqp : q = p
    · subst hqp
      unfold pdPage at hq
      rw [withPcb_pcb, if_pos rfl] at hq
      rcases hnew with ⟨h0, -⟩ | ⟨vp, f, hpd, hpos, hk, -, hno, -⟩
      · simp [h0] at hq
      · dsimp only at hq
        rw [if_neg (by omega), hpd, Nat.mul_div_cancel _ (by decide), Option.some.injEq] at hq
        subst hq
        exact .inr ⟨rfl, by simp [hk], hno⟩
    · rw [pdPage_withPcb_ne hqp] at hq
      exact .inl hq
  refine ⟨⟨hi.config.debug, hi.config.bitmap, hi.config.start, hi.config.size, hi.config.kvaddr⟩,
    ⟨fun hd _ h1 h2 => ?_, fun hd => ?_, fun hd => ?_, hi.tables.low⟩, ⟨?_, fun {t'} hc => ?_, fun {q t'} hq => ?_,
    fun {q v} hq => ?_, fun {q t'} hq => ?_, fun {q r v} hq hr => ?_, fun {q t'} hq => ?_⟩, ⟨?_, ?_, fun h8 => ?_⟩,
    hi.virt.newPcb hnone hnew⟩
  · rcases hisDir hd with h | h
    · exact hi.tables.shared h h1 h2
    · exact h.shared h1 h2
  · rcases hisDir hd with h | h
    · exact hi.tables.self h
    · exact h.self
  · rcases hisDir hd with h | h
    · exact hi.tables.zero h
    · exact h.zero
  · obtain ⟨t', ht'⟩ := hi.threads.cur
    refine ⟨t', ?_⟩
    rw [withPcb_pcb]
    exact (if_neg hcur).trans ht'
  · change (s.withPcb p t).pcb s.current = _ at hc
    rw [withPcb_pcb, if_neg hcur] at hc
    change if _ then s.cr3 = _ else (s.withPcb p t).dir s.current = some s.cr3
    rw [dir_withPcb_ne hcur]
    exact hi.threads.cr3 hc
  · rw [withPcb_pcb] at hq
    split at hq
    · rename_i heq
      subst heq
      exact ⟨hp, .inr hk⟩
    · exact hi.threads.page hq
  · rcases hpdp hq with h | ⟨-, h, -⟩
    · exact hi.threads.pd h
    · exact h
  · rw [withPcb_pcb] at hq
    split at hq
    · cases hq
      rcases hnew with ⟨h0, -⟩ | ⟨vp, f, hpd, hpos, hk, -⟩
      · omega
      · have hlt := hi.reach_lt (show s.map (s.pageOf .kernelPool vp) = some f from hk)
        omega
    · exact hi.threads.pdAligned hq
  · rcases hpdp hq with h | ⟨h, -, hno⟩
    · rcases hpdp hr with h' | ⟨-, -, hno'⟩
      · exact hi.threads.inj h h'
      · exact absurd h (hno' q)
    · rcases hpdp hr with h' | ⟨h', -, -⟩
      · exact absurd h' (hno r)
      · rw [h, h']
  · rw [withPcb_pcb] at hq
    split at hq
    · cases hq
      rcases hnew with ⟨h0, hlen⟩ | ⟨vp, f, hpd, hpos, -, -, -, hlen, hstart, -⟩
      · rw [if_pos h0]
        exact ⟨hlen, fun h => absurd h0 h⟩
      · rw [if_neg (by omega)]
        exact ⟨hlen, fun _ => hstart⟩
    · exact hi.threads.vaddr hq
  · refine hi.frames.kernel.congr (fun o => ?_) fun i _ => Iff.rfl
    cases o with
    | leaf vp => rfl
    | tab q j => exact congrFun (congrFun htab q) j
  · intro q vp f h
    have := congrFun hmap (.user q vp)
    exact hi.frames.urange (this.symm.trans h)
  · exact (hi.frames.user h8).congr (fun o => congrFun hmap (.user o.1 o.2)) fun i _ => Iff.rfl

end NewPcb

/-! ## `ArenaInit` -/

theorem write_kern {m : Space} {a w : Nat} (ha : 0xC0000000 ≤ a) :
    m.write a w = { m with kern := fun b => if b = a then w else m.kern b } := by
  rw [Space.write, if_neg (by omega)]

theorem arenaInitDesc_eq (m : Space) (bs : Nat) {desc : Nat} (hd : 0xC0000000 ≤ desc) :
    (arenaInitDesc m desc bs).user = m.user ∧
      ∀ a, a < desc ∨ desc + 24 ≤ a → (arenaInitDesc m desc bs).kern a = m.kern a := by
  unfold arenaInitDesc listInit freeList
  simp only [LinkMem.setPrev, LinkMem.setNext]
  rw [write_kern (m := m) hd]
  repeat rw [write_kern (by omega)]
  refine ⟨rfl, fun a ha => ?_⟩
  dsimp only
  repeat rw [if_neg (by omega)]

/-- `ArenaInit` writes the descriptors only. -/
theorem arenaInitFrom_eq (descs : Nat) (hd : 0xC0000000 ≤ descs) (n idx bs : Nat) (m : Space) :
    (arenaInitFrom descs n idx bs m).user = m.user ∧
      ∀ a, a < descs ∨ descAt descs (idx + n) ≤ a → (arenaInitFrom descs n idx bs m).kern a = m.kern a := by
  unfold descAt
  induction n generalizing idx bs m with
  | zero => exact ⟨rfl, fun _ _ => rfl⟩
  | succ n ih =>
    have hidx : 0xC0000000 ≤ descAt descs idx := by
      unfold descAt
      omega
    obtain ⟨hu, hk⟩ := arenaInitDesc_eq m bs hidx
    obtain ⟨hu', hk'⟩ := ih (idx + 1) (bs * 2) (arenaInitDesc m (descAt descs idx) bs)
    unfold descAt at hk
    refine ⟨hu'.trans hu, fun a ha => ?_⟩
    exact (hk' a (by omega)).trans (hk a (by omega))

theorem arenaInit_eq {m : Space} {descs : Nat} (hd : 0xC0000000 ≤ descs) :
    (arenaInit m descs).user = m.user ∧
      ∀ a, a < descs ∨ descs + 168 ≤ a → (arenaInit m descs).kern a = m.kern a :=
  arenaInitFrom_eq descs hd arenaSum 0 16 m

/-! ## `ThreadStart` and `ExecProcess` -/

/-- What the creation of the thread `p` has changed. -/
structure Spawned (l : Layout) (s s' : Kernel) (p : Nat) : Prop where
  ext : Extends s s'
  inv : PageInv l Stable s'
  unlocked : s'.Unlocked
  fresh : s.pcb p = none
  pcb : ∀ q, q ≠ p → s'.pcb q = s.pcb q
  current : s'.current = s.current
  system : ∀ v, s'.SystemPage v → s.SystemPage v ∨ s.kmap v = none
  heap : s'.IsProcess p → ∃ m : Space, s'.kmem = (arenaInit m (userArenaDescs p)).kern

/-- A page that was not mapped holds no PCB. -/
theorem Threads.pcb_none (ht : s.Threads) {vp : Nat} (hvp : 0xC0100 ≤ vp) (hk : s.kmap vp = none) :
    s.pcb (vp * 4096) = none := by
  by_contra hne
  obtain ⟨t, hp⟩ := Option.ne_none_iff_exists'.1 hne
  rcases (ht.page hp).2 with hm | hm
  · have : Sched.mainPage = 0xC009E000 := rfl
    omega
  · rw [Nat.mul_div_cancel _ (by decide)] at hm
    exact hm hk

theorem Called.kernel_ge {vp n : Nat} (h : Called l s s' .kernelPool vp n) (hn : 0 < n) :
    0xC0100 ≤ vp ∧ s.kmap vp = none ∧ s'.kmap vp ≠ none := by
  obtain ⟨f, hf⟩ := h.mapped 0 hn
  have hne : s'.map (s.pageOf .kernelPool (vp + 0)) ≠ none := by
    rw [hf]
    exact Option.some_ne_none f
  exact ⟨(h.inv.virt.mapped hne).1.1, h.fresh 0 hn, hne⟩

def SpawnStop (e : Panic) : Prop := PallocStop e ∨ e = .noMemory

theorem systemPage_withPcb {p v : Nat} {t : PCB} (h : (s.withPcb p t).SystemPage v) :
    s.SystemPage v ∨ v = p / 4096 ∨ t.pdeAddr ≠ 0 ∧ v = t.pdeAddr / 4096 := by
  rcases h with ⟨q, t', hq, hne, rfl⟩ | ⟨q, hq⟩
  · by_cases hqp : q = p
    · exact .inr (.inl (by rw [hqp]))
    · rw [withPcb_pcb, if_neg hqp] at hq
      exact .inl (.inl ⟨q, t', hq, hne, rfl⟩)
  · by_cases hqp : q = p
    · subst hqp
      unfold pdPage at hq
      rw [withPcb_pcb, if_pos rfl] at hq
      by_cases h0 : t.pdeAddr = 0
      · simp [h0] at hq
      · dsimp only at hq
        rw [if_neg h0, Option.some.injEq] at hq
        exact .inr (.inr ⟨h0, hq.symm⟩)
    · rw [pdPage_withPcb_ne hqp] at hq
      exact .inl (.inr ⟨q, hq⟩)

theorem Extends.withPcb {p : Nat} {t : PCB} (hnone : s.pcb p = none) (hnew : s.NewSpace p t) :
    Extends s (s.withPcb p t) where
  map h := by rw [map_withPcb hnone hnew]; exact h
  tab h := by rw [tab_withPcb hnone hnew]; exact h
  pcb {q t'} h := by
    rw [withPcb_pcb, if_neg]
    · exact h
    · rintro rfl
      rw [hnone] at h
      cases h
  kmem _ := rfl
  umem _ := rfl
  descs := rfl

/-- Whether or not there were pages, `DEBUG` is as it was. -/
theorem debug_of_palloc {r : Nat × Kernel} {n : Nat} {Z : Nat → Prop} (hi : PageInv l Stable s)
    (h : r = (0, s) ∨ ∃ vp, 0 < vp ∧ r.1 = vp * 4096 ∧ Called l s r.2 pf vp n ∧ Z vp) : r.2.debug = true := by
  rcases h with rfl | ⟨vp, -, -, hc, -⟩
  · exact hi.config.debug
  · exact hc.inv.config.debug

theorem assert_ne_zero (hd : s.debug = true) (v : Nat) :
    Except.Sat (s.assert (v ≠ 0) .noMemory) (fun _ => v ≠ 0) SpawnStop := by
  unfold assert
  by_cases hv : v = 0
  · rw [if_neg (by simp [hv, hd])]
    exact .inr rfl
  · rw [if_pos (by simp [hv])]
    exact hv

theorem threadStart_sat (hl : l.Sized) (hi : PageInv l Stable s) (hu : s.Unlocked) (priority : Int) :
    Except.Sat (s.threadStart priority) (fun r => Spawned l s r.2 r.1) SpawnStop := by
  rw [threadStart, kpalloc]
  refine ((pallocLocked_sat hl hi hu (Nat.le_refl 1)).mono (fun _ h => h) fun e he => .inl he).bind ?_
  rintro ⟨v, s1⟩ h
  dsimp only
  have hdebug : s1.debug = true := debug_of_palloc hi h
  refine (assert_ne_zero hdebug v).bind fun _ hv => ?_
  rcases h with heq | ⟨vp, hpos, rfl, hc, -⟩
  · exact absurd (Prod.mk.inj heq).1 hv
  · dsimp only at hc ⊢
    obtain ⟨hge, hnone, hsome⟩ := hc.kernel_ge (by decide)
    have hpcb : s.pcb (vp * 4096) = none := hi.threads.pcb_none hge hnone
    have hp1 : SamePaging s1 { s1 with nextPid := (s1.nextPid + 1) % 65536 } :=
      .of_ram rfl rfl rfl (fun pf => by cases pf <;> exact ⟨rfl, rfl, rfl⟩) rfl rfl rfl rfl rfl
    let s2 : Kernel := { s1 with nextPid := (s1.nextPid + 1) % 65536 }
    have hpcb2 : s2.pcb (vp * 4096) = none := by
      change s1.pcb _ = _
      rw [hc.sys.pcb, hpcb]
    have hnew : s2.NewSpace (vp * 4096) (threadCreate (s1.initPcb (vp * 4096) priority)) := .inl ⟨rfl, rfl⟩
    have hinv := (hp1.inv hc.inv).newPcb hpcb2 (Nat.mul_mod_left _ _)
      (by rw [Nat.mul_div_cancel _ (by decide)]; exact hsome) hnew
    have hext : Extends s1 s2 := ⟨fun h => h, fun h => h, fun h => h, fun _ => rfl, fun _ => rfl, rfl⟩
    refine ⟨hc.extends.trans (hext.trans (.withPcb hpcb2 hnew)), hinv, hc.sys.unlocked hu, hpcb, fun q hq => ?_,
      hc.sys.current, fun v hv => ?_, ?_⟩
    · rw [← hc.sys.pcb]
      exact (withPcb_pcb s2 _ _ q).trans (if_neg hq)
    · rcases systemPage_withPcb (s := s2) hv with h | h | ⟨h, -⟩
      · exact .inl (hc.sys.systemPage.1 h)
      · rw [h, Nat.mul_div_cancel _ (by decide)]
        exact .inr hnone
      · exact absurd rfl h
    · rintro ⟨t, ht, hne⟩
      have hpcb3 : (s2.withPcb (vp * 4096) (threadCreate (s1.initPcb (vp * 4096) priority))).pcb (vp * 4096) = some t := ht
      rw [withPcb_pcb, if_pos rfl, Option.some.injEq] at hpcb3
      rw [← hpcb3] at hne
      exact absurd rfl hne

/-- The words of a page that was not mapped are nobody's. -/
theorem Extends.arenaInit {p : Nat} (h : Extends s s') (hp : p % 4096 = 0) (hge : 0xC0100 ≤ p / 4096)
    (hnone : s.kmap (p / 4096) = none) :
    Extends s (s'.setSpace (ElephantOS.arenaInit s'.space (userArenaDescs p))) := by
  have hd : 0xC0000000 ≤ userArenaDescs p := by
    unfold userArenaDescs
    omega
  obtain ⟨huser, hkern⟩ := arenaInit_eq (m := s'.space) hd
  have hsp := SamePaging.setSpace s' (ElephantOS.arenaInit s'.space (userArenaDescs p))
  refine ⟨fun hm => ?_, fun ht => ?_, fun hq => h.pcb hq, fun {a} ha => ?_, fun {q a} ha => ?_, h.descs⟩
  · rw [hsp.map]
    exact h.map hm
  · rw [hsp.maps.tab]
    exact h.tab ht
  · refine (hkern a ?_).trans (h.kmem ha)
    unfold userArenaDescs
    rcases ha with ha | ha
    · omega
    · have : a / 4096 ≠ p / 4096 := fun he => ha (he ▸ hnone)
      omega
  · rw [← h.umem ha]
    simp only [setSpace]
    split
    · rename_i hq
      rw [huser, hq]
      rfl
    · rfl

theorem PageInv.newBits (hi : PageInv l Stable s) {p : Nat} (hp : s.pcb p = none) (bits : Bytes) :
    PageInv l Stable { s with userBits := Function.update s.userBits p bits } := by
  have hrest : SameRest s { s with userBits := Function.update s.userBits p bits } := rfl
  have hvb : Kernel.vbit { s with userBits := Function.update s.userBits p bits } l = s.vbit l := by
    funext pg
    cases pg with
    | kernel vp => rfl
    | user q vp =>
      by_cases hq : q = p
      · simp only [Kernel.vbit, hq, hp]
      · simp [Kernel.vbit, hq]
  refine hi.of_bits hrest rfl (fun _ _ _ => rfl) ⟨fun h => ?_, fun hw hb => ?_⟩
  · rw [hvb]
    exact hi.virt.mapped h
  · rw [hvb] at hb
    exact hi.virt.set hw hb

theorem execProcess_sat (hl : l.Sized) (hi : PageInv l Stable s) (hu : s.Unlocked) :
    Except.Sat s.execProcess (fun r => Spawned l s r.2 r.1) SpawnStop := by
  rw [execProcess, kpalloc]
  refine ((pallocLocked_sat hl hi hu (Nat.le_refl 1)).mono (fun _ h => h) fun e he => .inl he).bind ?_
  rintro ⟨p, s1⟩ h
  dsimp only
  have hdebug : s1.debug = true := debug_of_palloc hi h
  refine (assert_ne_zero hdebug p).bind fun _ hp => ?_
  rcases h with heq | ⟨vp, hpos, hpe, hc, -⟩
  · exact absurd (Prod.mk.inj heq).1 hp
  change p = vp * 4096 at hpe
  dsimp only at hc
  obtain ⟨hge, hnone, hsome⟩ := hc.kernel_ge (by decide)
  have hpdiv : p / 4096 = vp := by omega
  have hpcb : s.pcb p = none := hpe ▸ hi.threads.pcb_none hge hnone
  let s2 : Kernel := { s1 with nextPid := (s1.nextPid + 1) % 65536 }
  have hp2 : SamePaging s1 s2 :=
    .of_ram rfl rfl rfl (fun pf => by cases pf <;> exact ⟨rfl, rfl, rfl⟩) rfl rfl rfl rfl rfl
  have hext2 : Extends s s2 :=
    hc.extends.trans ⟨fun h => h, fun h => h, fun h => h, fun _ => rfl, fun _ => rfl, rfl⟩
  have hpcb2 : s2.pcb = s.pcb := hc.sys.pcb
  have hu2 : s2.Unlocked := hc.sys.unlocked hu
  change Except.Sat (s2.kpalloc _ >>= _) _ _
  rw [kpalloc]
  refine ((pallocLocked_sat hl (hp2.inv hc.inv) hu2 (by decide)).mono (fun _ h => h) fun e he => .inl he).bind ?_
  rintro ⟨bits, s3⟩ h
  dsimp only
  have hdebug3 : s3.debug = true := by
    rcases h with heq | ⟨vb, hpos, rfl, hc, -⟩
    · rw [(Prod.mk.inj heq).2]
      exact hdebug
    · exact hc.inv.config.debug
  refine (assert_ne_zero hdebug3 bits).bind fun _ hbits => ?_
  rcases h with heq | ⟨vb, hpos3, hbe, hc3, -⟩
  · exact absurd (Prod.mk.inj heq).1 hbits
  dsimp only at hc3
  have hpcb3 : s3.pcb = s.pcb := hc3.sys.pcb.trans hpcb2
  let s4 : Kernel := { s3 with userBits := Function.update s3.userBits p (fun _ => 0#8) }
  have hi4 : PageInv l Stable s4 := hc3.inv.newBits (by rw [hpcb3, hpcb]) _
  have hext4 : Extends s s4 :=
    (hext2.trans hc3.extends).trans ⟨fun h => h, fun h => h, fun h => h, fun _ => rfl, fun _ => rfl, rfl⟩
  have hu4 : s4.Unlocked := hc3.sys.unlocked hu2
  have hcur4 : s4.current = s.current := hc3.sys.current.trans hc.sys.current
  change Except.Sat (s4.creatPDE >>= _) _ _
  refine ((creatPDE_sat hl hi4 hu4).mono (fun _ h => h) fun e he => .inl he).bind ?_
  rintro ⟨pde, s5⟩ h
  dsimp only
  have hdebug5 : (s5.setSpace (arenaInit s5.space (userArenaDescs p))).debug = true := by
    rcases h with heq | ⟨vd, f, hpos, hpe', hc5, -⟩
    · rw [(Prod.mk.inj heq).2]
      exact hi4.config.debug
    · exact hc5.inv.config.debug
  refine (assert_ne_zero hdebug5 pde).bind fun _ hpde => ?_
  rcases h with heq | ⟨vd, f, hpos5, hde, hc5, hk5, hdir5⟩
  · exact absurd (Prod.mk.inj heq).1 hpde
  dsimp only at hc5 hk5 hdir5
  change pde = vd * 4096 at hde
  let s6 : Kernel := s5.setSpace (arenaInit s5.space (userArenaDescs p))
  have hp6 : SamePaging s5 s6 := .setSpace s5 _
  have hpcb6 : s6.pcb = s.pcb := hc5.sys.pcb.trans hpcb3
  have hcur6 : s6.current = s.current := hc5.sys.current.trans hcur4
  have hpmod : p % 4096 = 0 := by omega
  have hext6 : Extends s s6 := (hext4.trans hc5.extends).arenaInit hpmod (by rw [hpdiv]; exact hge)
    (by rw [hpdiv]; exact hnone)
  have hne : p ≠ s4.current := by
    rw [hcur4]
    rintro rfl
    obtain ⟨t, ht⟩ := hi.threads.cur
    rw [hpcb] at ht
    cases ht
  -- the page of the directory was not mapped before, so no other directory is in it
  have hfresh : s4.kmap vd = none := hc5.fresh 0 (by decide)
  have hfresh' : s.kmap vd = none := by
    by_contra h
    exact hext4.mapped_kernel h hfresh
  have hnew : s6.NewSpace p (processPcb (s1.initPcb p 31) bits pde) := by
    refine .inr ⟨vd, f, hde, hpos5, ?_, ⟨hdir5.shared, hdir5.self, hdir5.zero, hdir5.empty⟩, fun q hq => ?_, rfl, rfl, ?_⟩
    · rw [hp6.maps.kmap]
      exact hk5
    · rw [pdPage_congr hpcb6] at hq
      exact hi.threads.pd hq hfresh'
    · change s5.userBits p = _
      rw [hc5.bits p hne]
      exact Function.update_self ..
  have hpcbn : s6.pcb p = none := by rw [hpcb6, hpcb]
  have hsome6 : s6.kmap (p / 4096) ≠ none := by
    rw [hp6.maps.kmap, hpdiv]
    refine hc5.extends.mapped_kernel ?_
    exact hc3.extends.mapped_kernel (s := s2) hsome
  refine ⟨hext6.trans (.withPcb hpcbn hnew), (hp6.inv hc5.inv).newPcb hpcbn hpmod hsome6 hnew,
    hc5.sys.unlocked hu4, hpcb, fun q hq => ?_, hcur6, fun v hv => ?_, fun _ => ⟨s5.space, rfl⟩⟩
  · rw [← hpcb6]
    exact (withPcb_pcb s6 _ _ q).trans (if_neg hq)
  · rcases systemPage_withPcb (s := s6) hv with h | h | ⟨-, h⟩
    · unfold SystemPage at h ⊢
      rw [hpcb6, pdPage_congr hpcb6] at h
      exact .inl h
    · rw [h, hpdiv]
      exact .inr hnone
    · rw [h]
      refine .inr ?_
      change s.kmap (pde / 4096) = none
      rw [hde, Nat.mul_div_cancel _ (by decide)]
      exact hfresh'

/-! ## Switching -/

theorem switchTo_ok (hi : PageInv l Stable s) {next : Nat} {t : PCB} (ht : s.pcb next = some t) :
    ∃ c, s.switchTo next = .ok { s with cr3 := c, current := next } ∧
      PageInv l Stable { s with cr3 := c, current := next } := by
  have hinv : ∀ c, (if t.pdeAddr = 0 then c = 0x100 else s.dir next = some c) →
      PageInv l Stable { s with cr3 := c, current := next } := fun c hc => by
    have hth := hi.threads
    exact ⟨⟨hi.config.debug, hi.config.bitmap, hi.config.start, hi.config.size, hi.config.kvaddr⟩, ⟨hi.tables.shared, hi.tables.self, hi.tables.zero, hi.tables.low⟩,
      ⟨⟨t, ht⟩, fun {t'} ht' => by
        have heq : t' = t := Option.some.inj (ht'.symm.trans ht)
        rw [heq]
        exact hc, hth.page, hth.pd, hth.pdAligned, hth.inj, hth.vaddr⟩,
      ⟨hi.frames.kernel, hi.frames.urange, hi.frames.user⟩, ⟨hi.virt.mapped, hi.virt.set⟩⟩
  rw [switchTo, getPcb, ht]
  dsimp only
  rw [Except.ok_bind, activePDE]
  by_cases h0 : t.pdeAddr = 0
  · rw [if_neg (by simp [h0])]
    exact ⟨0x100, rfl, hinv _ (by rw [if_pos h0])⟩
  · have hpd : s.pdPage next = some (t.pdeAddr / 4096) := by
      unfold pdPage
      rw [ht]
      exact if_neg h0
    obtain ⟨f, hf⟩ := Option.ne_none_iff_exists'.1 (hi.threads.pd hpd)
    have hmap : s.map (s.pageOf .kernelPool (t.pdeAddr / 4096)) = some f := hf
    rw [if_pos h0, hi.virtualAddrToPhysicAddr hmap, (hi.threads.pdAligned ht).1, Nat.add_zero]
    simp only [Except.ok_bind, Except.pure_eq, Nat.mul_div_cancel f (show 0 < 4096 by decide)]
    refine ⟨f, rfl, hinv f ?_⟩
    rw [if_neg h0, dir, hpd, Option.bind_some]
    exact hf

/-! ## Boot -/

section Boot
variable (allMem : Nat) (low : Bytes) (descs : Nat)

theorem boot_pcb (p : Nat) : (boot allMem low descs).pcb p =
    if p = Sched.mainPage then some (initThread Sched.mainPage Sched.mainPage 1 31) else none := by
  unfold boot
  by_cases hp : p = Sched.mainPage
  · subst hp
    simp
  · simp [hp]

theorem boot_pdPage (p : Nat) : (boot allMem low descs).pdPage p = none := by
  unfold pdPage
  rw [boot_pcb]
  by_cases hp : p = Sched.mainPage
  · rw [if_pos hp]
    rfl
  · rw [if_neg hp]

theorem boot_dir (p : Nat) : (boot allMem low descs).dir p = none := by
  rw [dir, boot_pdPage]
  rfl

theorem boot_tab (p j : Nat) : (boot allMem low descs).tab p j = none := by
  rw [tab, boot_dir]
  rfl

theorem boot_kmap (vp : Nat) : (boot allMem low descs).kmap vp = none := by
  unfold kmap
  by_cases hvp : 0xC0100 ≤ vp ∧ vp < 0xFFC00
  · rw [if_pos hvp]
    rw [show (boot allMem low descs).ram = bootRam from rfl]
    unfold bootRam kernelTable
    rw [if_neg (by omega), if_neg (by omega)]
    rfl
  · rw [if_neg hvp]

theorem boot_map (pg : Page) : (boot allMem low descs).map pg = none := by
  cases pg with
  | kernel vp => exact boot_kmap allMem low descs vp
  | user p vp =>
    change (boot allMem low descs).umap p vp = none
    rw [umap, boot_tab]
    rfl

theorem boot_bits {n : Nat} (h1 : 8 * memBitmapBase ≤ n)
    (h2 : n < 8 * memBitmapBase + 2 * (layout allMem).kernelFrames + (layout allMem).userFrames) :
    bitAt (boot allMem low descs).low n = false := by
  change bitAt (bitmapInit (bitmapInit (bitmapInit low (layout allMem).kernelVaddr.bitmap)
    (layout allMem).kernelPool.poolBitmap) (layout allMem).userPool.poolBitmap) n = false
  rw [bitAt_init, bitAt_init, bitAt_init]
  unfold Layout.kernelFrames Layout.userFrames at h2
  unfold Layout.userPool Layout.kernelPool Layout.kernelVaddr VirtualAddr.bitmap
  dsimp only
  generalize memBitmapBase = base at *
  split
  · rfl
  · split
    · rfl
    · rw [if_pos (by omega)]

end Boot

/-- The memory in use before `VmemInit` is there, and the size is a `size_t`. -/
structure Fits (allMem : Nat) : Prop where
  used : usedMem ≤ allMem
  lt : allMem < 2 ^ 32

theorem Fits.sized {allMem : Nat} (h : Fits allMem) : (layout allMem).Sized := by
  refine ⟨?_⟩
  have h1 := h.used
  have h2 := h.lt
  unfold layout
  rw [usedMem_eq] at *
  dsimp only
  unfold sub32
  omega

theorem boot_unlocked (allMem : Nat) (low : Bytes) (descs : Nat) : (boot allMem low descs).Unlocked := fun pf => by
  cases pf <;> rfl

theorem boot_config {allMem : Nat} (hf : Fits allMem) (low : Bytes) (descs : Nat) :
    (boot allMem low descs).Config (layout allMem) := by
  have hlt := hf.sized.lt
  rw [usedMem_eq] at hlt
  refine ⟨rfl, fun pf => by cases pf <;> rfl, fun pf => ?_, fun pf => ?_, rfl⟩
  · cases pf with
    | kernelPool =>
      change usedMem = 0x200 * 4096
      rw [usedMem_eq]
    | userPool =>
      change usedMem + (layout allMem).kernelFreePages * 4096 = (0x200 + (layout allMem).kernelFreePages) * 4096
      rw [usedMem_eq]
      omega
  · cases pf with
    | kernelPool =>
      change (layout allMem).kernelFreePages * 4096 + 0x200000 ≤ 2 ^ 32
      omega
    | userPool =>
      change (layout allMem).userFreePages * 4096 + 0x200000 ≤ 2 ^ 32
      omega

theorem boot_isDir {allMem : Nat} {low : Bytes} {descs d : Nat} (h : (boot allMem low descs).IsDir d) : d = 0x100 := by
  rcases h with rfl | ⟨p, hp⟩
  · rfl
  · rw [boot_dir] at hp
    cases hp

theorem boot_tables (allMem : Nat) (low : Bytes) (descs : Nat) : (boot allMem low descs).Tables := by
  have hram : (boot allMem low descs).ram = bootRam := rfl
  refine ⟨fun hd j h1 h2 => ?_, fun hd => ?_, fun hd => ?_, ?_⟩
  · rw [boot_isDir hd, hram]
    unfold bootRam
    rw [if_pos rfl, if_neg (by omega), if_neg (by omega), if_pos (by omega)]
    exact entry_flags _ _ (by decide) (by decide)
  · rw [boot_isDir hd, hram]
    decide
  · rw [boot_isDir hd, hram]
    decide
  · rw [hram]
    decide

theorem boot_threads (allMem : Nat) (low : Bytes) (descs : Nat) : (boot allMem low descs).Threads := by
  have hmain : ∀ {p t}, (boot allMem low descs).pcb p = some t → p = Sched.mainPage ∧
      t = initThread Sched.mainPage Sched.mainPage 1 31 := fun {p t} h => by
    rw [boot_pcb] at h
    split at h
    · exact ⟨‹_›, (Option.some.inj h).symm⟩
    · cases h
  refine ⟨⟨_, (boot_pcb ..).trans (if_pos rfl)⟩, fun h => ?_, fun h => ?_, fun h => ?_, fun h => ?_, fun h => ?_,
    fun h => ?_⟩
  · rw [(hmain h).2]
    exact (if_pos rfl).symm ▸ rfl
  · rw [(hmain h).1]
    exact ⟨rfl, .inl rfl⟩
  · rw [boot_pdPage] at h
    cases h
  · rw [(hmain h).2]
    exact ⟨rfl, by decide⟩
  · rw [boot_pdPage] at h
    cases h
  · rw [(hmain h).2]
    exact ⟨rfl, fun h => absurd rfl h⟩

/-- No frame is taken and no page is mapped. -/
theorem boot_inv {allMem : Nat} (hf : Fits allMem) (low : Bytes) (descs : Nat) :
    PageInv (layout allMem) Stable (boot allMem low descs) := by
  have hmap := boot_map allMem low descs
  have hfree : ∀ pf i, i < (layout allMem).frames pf →
      bitAt (boot allMem low descs).low ((layout allMem).frameBit pf i) = false := fun pf i hi => by
    cases pf with
    | kernelPool =>
      change i < (layout allMem).kernelFrames at hi
      exact boot_bits _ _ _ (Nat.le_add_right _ _) (by change 8 * memBitmapBase + i < _; omega)
    | userPool =>
      change i < (layout allMem).userFrames at hi
      refine boot_bits _ _ _ ?_ ?_
      · change _ ≤ 8 * memBitmapBase + (layout allMem).kernelFrames + i
        omega
      · change 8 * memBitmapBase + (layout allMem).kernelFrames + i < _
        omega
  have hkown : ∀ o, (boot allMem low descs).kown o = none := fun o => by
    cases o with
    | leaf vp => exact boot_kmap allMem low descs vp
    | tab p j => exact boot_tab allMem low descs p j
  refine ⟨boot_config hf low descs, boot_tables allMem low descs, boot_threads allMem low descs,
    ⟨.empty hkown fun i hi => by simp [hfree .kernelPool i hi], fun {p vp f} h => ?_, fun _ =>
      .empty (fun o => hmap (.user o.1 o.2)) fun i hi => by simp [hfree .userPool i hi]⟩,
    ⟨fun {pg} h => absurd (hmap pg) h, fun {pg} hw hb => ?_⟩⟩
  · have hnone : (boot allMem low descs).umap p vp = none := hmap (.user p vp)
    rw [hnone] at h
    cases h
  · exfalso
    cases pg with
    | kernel vp =>
      obtain ⟨h1, h2⟩ := hw
      unfold vbit Layout.pageBit at hb
      dsimp only at hb
      rw [boot_bits] at hb
      · cases hb
      · omega
      · generalize hk : vp - 0xC0100 = k
        omega
    | user p vp =>
      obtain ⟨⟨t, ht, hne⟩, -⟩ := hw
      rw [boot_pcb] at ht
      split at ht
      · cases ht
        exact hne rfl
      · cases ht

end Kernel

end ElephantOS
