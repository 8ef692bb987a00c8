import ElephantOS.Memory.HeapOps

/-!
# `sys_malloc` and `sys_free`

* `HeapState` : the heap of the calling thread, its arenas in mapped pages;
* `HeapStep` : what a call changes: words and pages of that heap only;
* `sysMalloc_sat`, `sysFree_ok` : the calls.
-/

namespace ElephantOS
namespace Kernel
variable {l : Layout} {s s' s'' : Kernel} {pf : PoolFlags} {D : Nat}
variable {arenas arenas' : Nat → Option Arena} {live : Nat → Option Nat}

/-! ## The heap of the calling thread -/

def ArenaPage (arenas : Nat → Option Arena) (v : Nat) : Prop := ∃ a x, arenas a = some x ∧ a ≤ v ∧ v < a + x.pages

/-- Where the descriptors of a heap are: in the data of the kernel, or in a PCB. -/
def DescsAt (pf : PoolFlags) (D : Nat) : Prop :=
  match pf with
  | .kernelPool => 0xC0000000 ≤ D ∧ D + 168 ≤ 0xC0100000
  | .userPool => 0xC0100000 ≤ D

/-- The arenas are in mapped pages, with no PCB and no directory in them. -/
structure HeapPages (s : Kernel) (pf : PoolFlags) (arenas : Nat → Option Arena) : Prop where
  mapped : ∀ {v}, ArenaPage arenas v → s.map (s.pageOf pf v) ≠ none
  plain : ∀ {v}, ArenaPage arenas v → pf = .kernelPool → ¬ s.SystemPage v

theorem HeapPages.samePaging (hp : SamePaging s s') (h : HeapPages s pf arenas) : HeapPages s' pf arenas where
  mapped {v} hv := by
    rw [hp.map, hp.pageOf]
    exact h.mapped hv
  plain {v} hv hpf := by
    rw [hp.systemPage]
    exact h.plain hv hpf

structure HeapState (s : Kernel) (pf : PoolFlags) (D : Nat) (arenas : Nat → Option Arena) (live : Nat → Option Nat)
    (seq : Fin 7 → List Nat) : Prop where
  rep : HeapRep s.space D arenas live seq
  counted : Counted s.space arenas live
  pages : HeapPages s pf arenas

/-- The calls of one heap change its words and its pages. -/
structure HeapStep (l : Layout) (s s' : Kernel) (pf : PoolFlags) (D : Nat) (arenas arenas' : Nat → Option Arena) :
    Prop where
  sys : SameSys s s'
  inv : PageInv l Stable s'
  out : ∀ w, ¬ HeapWord D arenas w → ¬ HeapWord D arenas' w → s'.space.read w = s.space.read w
  umem : ∀ q, q ≠ s.current → s'.umem q = s.umem q
  map : ∀ pg, (∀ v, pg = s.pageOf pf v → (ArenaPage arenas v ↔ ArenaPage arenas' v)) → s'.map pg = s.map pg
  fresh : ∀ {v}, ArenaPage arenas' v → ArenaPage arenas v ∨ s.map (s.pageOf pf v) = none
  gone : ∀ {v}, ArenaPage arenas v → ¬ ArenaPage arenas' v → s'.map (s.pageOf pf v) = none
  tab : ∀ {p j t}, s.tab p j = some t → s'.tab p j = some t
  ktab : pf = .kernelPool → s'.tab = s.tab

theorem SameSys.refl (s : Kernel) : SameSys s s := rfl

theorem HeapStep.refl (hi : PageInv l Stable s) (pf : PoolFlags) (D : Nat) (arenas : Nat → Option Arena) :
    HeapStep l s s pf D arenas arenas :=
  ⟨.refl s, hi, fun _ _ _ => rfl, fun _ _ => rfl, fun _ _ => rfl, .inl, fun h hn => absurd h hn, fun h => h,
    fun _ => rfl⟩

/-- Two steps of which one keeps the arenas. -/
theorem HeapStep.trans {mid : Nat → Option Arena} (hmid : mid = arenas ∨ mid = arenas')
    (h : HeapStep l s s' pf D arenas mid) (h' : HeapStep l s' s'' pf D mid arenas') :
    HeapStep l s s'' pf D arenas arenas' := by
  have hpg : ∀ v, s'.pageOf pf v = s.pageOf pf v := fun v => h.sys.pageOf v
  have hcur := h.sys.current
  refine ⟨h.sys.trans h'.sys, h'.inv, fun w h1 h2 => ?_, fun q hq => ?_, fun pg hv => ?_, fun {v} hv => ?_,
    fun {v} hv hn => ?_, fun ht => h'.tab (h.tab ht), fun hpf => (h'.ktab hpf).trans (h.ktab hpf)⟩
  · have h3 : ¬ HeapWord D mid w := by
      rcases hmid with rfl | rfl
      · exact h1
      · exact h2
    exact (h'.out w h3 h2).trans (h.out w h1 h3)
  · rw [h'.umem q (by rwa [hcur]), h.umem q hq]
  · rcases hmid with rfl | rfl
    · rw [h'.map pg fun v he => hv v (by rw [← hpg]; exact he), h.map pg fun v _ => Iff.rfl]
    · rw [h'.map pg fun v _ => Iff.rfl, h.map pg hv]
  · rcases hmid with rfl | rfl
    · refine (h'.fresh hv).imp_right fun hnone => ?_
      rw [h.map _ fun v _ => Iff.rfl, hpg] at hnone
      exact hnone
    · exact h.fresh hv
  · rcases hmid with rfl | rfl
    · rw [← hpg]
      exact h'.gone hv hn
    · rw [h'.map _ fun v _ => Iff.rfl]
      exact h.gone hv hn

theorem HeapStep.words (hi : PageInv l Stable s) {m : Space}
    (hout : ∀ w, ¬ HeapWord D arenas w → m.read w = s.space.read w) :
    HeapStep l s (s.setSpace m) pf D arenas arenas := by
  have hp := SamePaging.setSpace s m
  refine ⟨.setSpace s m, hp.inv hi, fun w h1 _ => ?_, fun q hq => ?_, fun pg _ => ?_, .inl,
    fun hv hn => absurd hv hn, fun ht => ?_, fun _ => ?_⟩
  · rw [space_setSpace]
    exact hout w h1
  · simp only [setSpace, if_neg hq]
  · rw [hp.map]
  · rw [hp.maps.tab]
    exact ht
  · rw [hp.maps.tab]

theorem HeapState.words {live' : Nat → Option Nat} {seq seq' : Fin 7 → List Nat} (h : HeapState s pf D arenas live seq)
    {m : Space} (hrep : HeapRep m D arenas live' seq') (hc : Counted m arenas live') :
    HeapState (s.setSpace m) pf D arenas live' seq' := by
  refine ⟨?_, ?_, h.pages.samePaging (.setSpace s m)⟩
  · rw [space_setSpace]
    exact hrep
  · rw [space_setSpace]
    exact hc

/-! ## The lock -/

theorem setLock_space (s : Kernel) (pf : PoolFlags) (lock : Lock Nat) : (s.setLock pf lock).space = s.space := by
  cases pf <;> rfl

theorem setLock_umem (s : Kernel) (pf : PoolFlags) (lock : Lock Nat) : (s.setLock pf lock).umem = s.umem := by
  cases pf <;> rfl

theorem HeapState.setLock {seq : Fin 7 → List Nat} (h : HeapState s pf D arenas live seq) (q : PoolFlags)
    (lock : Lock Nat) : HeapState (s.setLock q lock) pf D arenas live seq := by
  refine ⟨?_, ?_, h.pages.samePaging (.setLock s q lock)⟩
  · rw [setLock_space]
    exact h.rep
  · rw [setLock_space]
    exact h.counted

theorem HeapStep.unlock {lock : Lock Nat} (hu : s.Unlocked) (h : HeapStep l (s.setLock pf lock) s' pf D arenas arenas') :
    HeapStep l s (s'.setLock pf lockInit) pf D arenas arenas' := by
  have hp := SamePaging.setLock s pf lock
  have hp' := SamePaging.setLock s' pf lockInit
  have hpg : ∀ v, (s.setLock pf lock).pageOf pf v = s.pageOf pf v := fun v => hp.pageOf v
  refine ⟨h.sys.unlock hu, hp'.inv h.inv, fun w h1 h2 => ?_, fun q hq => ?_, fun pg hv => ?_, fun {v} hv => ?_,
    fun {v} hv hn => ?_, fun {p j t} ht => ?_, fun hpf => ?_⟩
  · rw [setLock_space, h.out w h1 h2, setLock_space]
  · rw [setLock_umem, h.umem q (by rwa [hp.current]), setLock_umem]
  · rw [hp'.map, h.map pg fun v he => hv v (by rw [← hpg]; exact he), hp.map]
  · have := h.fresh hv
    rwa [hp.map, hpg] at this
  · rw [hp'.map, ← hpg]
    exact h.gone hv hn
  · rw [hp'.maps.tab]
    exact h.tab (by rw [hp.maps.tab]; exact ht)
  · rw [hp'.maps.tab, h.ktab hpf, hp.maps.tab]

theorem HeapStep.unlockPool (h : HeapStep l (s.setLock pf (heldBy s.current)) s' pf D arenas arenas') :
    s'.unlockPool pf = .ok (s'.setLock pf lockInit) := by
  refine unlockPool_ok ?_
  rw [h.sys.pool, h.sys.current, setLock_pool]
  cases pf <;> rfl

/-! ## New arenas -/

section Grow
variable {a : Nat} {x : Arena} {t : Kernel} {seq : Fin 7 → List Nat}

theorem arenaPage_update {v : Nat} (h : ArenaPage (Function.update arenas a (some x)) v) :
    ArenaPage arenas v ∨ a ≤ v ∧ v < a + x.pages := by
  obtain ⟨b, y, hb, h1, h2⟩ := h
  by_cases hba : b = a
  · rw [hba, Function.update_self, Option.some.injEq] at hb
    subst hba hb
    exact .inr ⟨h1, h2⟩
  · rw [Function.update_of_ne hba] at hb
    exact .inl ⟨b, y, hb, h1, h2⟩

theorem arenaPage_new {v : Nat} (h1 : a ≤ v) (h2 : v < a + x.pages) : ArenaPage (Function.update arenas a (some x)) v :=
  ⟨a, x, Function.update_self .., h1, h2⟩

theorem Grown.fresh_at {n v : Nat} (h : Grown s t pf a n) (h1 : a ≤ v) (h2 : v < a + n) :
    s.map (s.pageOf pf v) = none := by
  have := h.fresh (v - a) (by omega)
  rwa [show a + (v - a) = v by omega] at this

theorem Grown.mapped_at {n v : Nat} (h : Grown s t pf a n) (h1 : a ≤ v) (h2 : v < a + n) :
    t.map (s.pageOf pf v) ≠ none := by
  obtain ⟨f, hf⟩ := h.mapped (v - a) (by omega)
  rw [show a + (v - a) = v by omega] at hf
  rw [hf]
  exact Option.some_ne_none f

/-- The pages of a new arena are none of the heap's. -/
theorem HeapState.new_apart (h : HeapState s pf D arenas live seq) (hc : Called l s t pf a x.pages) (hx : 1 ≤ x.pages)
    {b : Nat} {y : Arena} (hb : arenas b = some y) : a + x.pages ≤ b ∨ b + y.pages ≤ a := by
  by_contra hcon
  have hlt : b < a + x.pages ∧ a < b + y.pages := by omega
  by_cases hba : b ≤ a
  · refine h.pages.mapped ⟨b, y, hb, hba, hlt.2⟩ (hc.fresh_at (Nat.le_refl a) ?_)
    omega
  · refine h.pages.mapped ⟨b, y, hb, Nat.le_refl b, ?_⟩ (hc.fresh_at (by omega) hlt.1)
    have := h.rep.pages_pos hb
    omega

theorem Called.place {n : Nat} (hc : Called l s t pf a n) (hD : DescsAt pf D) (hn : 1 ≤ n) (hpos : 0 < a) :
    0 < a ∧ (a + n) * 4096 < 2 ^ 32 ∧ (D + 168 ≤ a * 4096 ∨ (a + n) * 4096 ≤ D) := by
  have hlast := (hc.inv.virt.mapped (hc.mapped_at (v := a + n - 1) (by omega) (by omega))).1
  have hfirst := (hc.inv.virt.mapped (hc.mapped_at (v := a) (Nat.le_refl a) (by omega))).1
  cases pf with
  | kernelPool =>
    have h1 : 0xC0100 ≤ a := hfirst.1
    have h2 : a + n - 1 < 0xFFC00 := hlast.2.2
    obtain ⟨-, hD2⟩ : 0xC0000000 ≤ D ∧ D + 168 ≤ 0xC0100000 := hD
    omega
  | userPool =>
    have h2 : a + n - 1 < 0xC0000 := hlast.2.2
    have hD' : 0xC0100000 ≤ D := hD
    omega

theorem out_new {n w : Nat} (hn : x.pages = n) (hw : ¬ HeapWord D (Function.update arenas a (some x)) w) :
    w < a * 4096 ∨ (a + n) * 4096 ≤ w := by
  subst hn
  by_contra hcon
  exact hw (.inr ⟨a, x, Function.update_self .., by omega, by omega⟩)

theorem Called.heapStep (h : HeapState s pf D arenas live seq) (hc : Called l s t pf a x.pages) (hx : 1 ≤ x.pages)
    {m : Space}
    (hm : ∀ w, ¬ HeapWord D (Function.update arenas a (some x)) w → m.read w = s.space.read w) :
    HeapStep l s (t.setSpace m) pf D arenas (Function.update arenas a (some x)) := by
  have hp := SamePaging.setSpace t m
  refine ⟨hc.sys.trans (.setSpace t m), hp.inv hc.inv, fun w _ h2 => ?_, fun q hq => ?_, fun pg hv => ?_,
    fun {v} hv => ?_, fun {v} hv hn => ?_, fun ht => ?_, fun hpf => ?_⟩
  · rw [space_setSpace]
    exact hm w h2
  · rw [← hc.umem q hq]
    have hcur : q ≠ t.current := by rwa [hc.sys.current]
    simp only [setSpace, if_neg hcur]
  · rw [hp.map]
    refine hc.map pg ?_
    rintro ⟨k, hk, rfl⟩
    have hnew := (hv (a + k) rfl).2 (arenaPage_new (by omega) (by omega))
    exact h.pages.mapped hnew (hc.fresh k hk)
  · rcases arenaPage_update hv with hold | ⟨h1, h2⟩
    · exact .inl hold
    · exact .inr (hc.fresh_at h1 h2)
  · obtain ⟨b, y, hb, h1, h2⟩ := hv
    refine absurd ⟨b, y, ?_, h1, h2⟩ hn
    rw [Function.update_of_ne, hb]
    rintro rfl
    have hpos := h.rep.pages_pos hb
    refine h.pages.mapped ⟨b, y, hb, Nat.le_refl b, by omega⟩ (hc.fresh_at (Nat.le_refl b) ?_)
    omega
  · rw [hp.maps.tab]
    exact hc.tab ht
  · rw [hp.maps.tab]
    exact hc.ktab hpf

theorem Called.heapState {live' : Nat → Option Nat} {seq' : Fin 7 → List Nat} (hi : PageInv l Stable s)
    (h : HeapState s pf D arenas live seq) (hc : Called l s t pf a x.pages) {m : Space}
    (hrep : HeapRep m D (Function.update arenas a (some x)) live' seq')
    (hcnt : Counted m (Function.update arenas a (some x)) live') :
    HeapState (t.setSpace m) pf D (Function.update arenas a (some x)) live' seq' := by
  have hp := SamePaging.setSpace t m
  have hpg : ∀ v, t.pageOf pf v = s.pageOf pf v := fun v => hc.sys.pageOf v
  refine ⟨?_, ?_, ⟨fun {v} hv => ?_, fun {v} hv hpf => ?_⟩⟩
  · rw [space_setSpace]
    exact hrep
  · rw [space_setSpace]
    exact hcnt
  · rw [hp.map, hp.pageOf, hpg]
    rcases arenaPage_update hv with hold | ⟨h1, h2⟩
    · exact hc.extends.mapped (h.pages.mapped hold)
    · exact hc.mapped_at h1 h2
  · rw [hp.systemPage, hc.sys.systemPage]
    rcases arenaPage_update hv with hold | ⟨h1, h2⟩
    · exact h.pages.plain hold hpf
    · intro hsys
      subst hpf
      exact hi.threads.kmap_system hsys (hc.fresh_at h1 h2)

theorem setArena_read (m : Space) (av d c r w : Nat) : (m.setArena av d c r).read w =
    if w = av + 8 then r else if w = av + 4 then c else if w = av then d else m.read w := by
  unfold Space.setArena
  rw [Space.read_write, Space.read_write, Space.read_write]

/-- The space after the pages of a new arena are cleared and its header is written. -/
theorem Called.header_out {n : Nat} (hc : Called l s t pf a n) (hn : 1 ≤ n) (d c r : Nat) {w : Nat}
    (hw : w < a * 4096 ∨ (a + n) * 4096 ≤ w) : (t.space.setArena (a * 4096) d c r).read w = s.space.read w := by
  have hne : w ≠ a * 4096 + 8 ∧ w ≠ a * 4096 + 4 ∧ w ≠ a * 4096 := by omega
  rw [setArena_read, if_neg hne.1, if_neg hne.2.1, if_neg hne.2.2, hc.space]
  rw [Nat.add_mul] at hw
  exact Space.read_clear_of_notMem hw

theorem setArena_desc (m : Space) (av d c r : Nat) : (m.setArena av d c r).desc av = d := by
  rw [Space.desc, setArena_read, if_neg (by omega), if_neg (by omega), if_pos rfl]

theorem setArena_cnt (m : Space) (av d c r : Nat) : (m.setArena av d c r).cnt av = c := by
  rw [Space.cnt, setArena_read, if_neg (by omega), if_pos rfl]

theorem setArena_largeRequest (m : Space) (av d c r : Nat) : (m.setArena av d c r).largeRequest av = r := by
  rw [Space.largeRequest, setArena_read, if_pos rfl]

end Grow

/-! ## `sys_malloc` -/

section Malloc
variable {seq : Fin 7 → List Nat}

theorem HeapState.old_word {a n b o : Nat} {y : Arena} (h : HeapState s pf D arenas live seq)
    (hnew : ∀ {b y}, arenas b = some y → a + n ≤ b ∨ b + y.pages ≤ a) (hb : arenas b = some y) (ho : o < 12) :
    b * 4096 + o < a * 4096 ∨ (a + n) * 4096 ≤ b * 4096 + o := by
  have := hnew hb
  have := h.rep.pages_pos hb
  omega

theorem newArena_sat (hl : l.Sized) (hi : PageInv l Stable s) (h : HeapState s pf D arenas live seq)
    (hD : DescsAt pf D) (k : Fin 7) :
    Except.Sat (s.newArena pf (descAt D k))
      (fun r => r = (false, s) ∨ r.1 = true ∧ ∃ a seq', blockAt a k 0 ∈ seq' k ∧
        HeapStep l s r.2 pf D arenas (Function.update arenas a (some (.small k))) ∧
        HeapState r.2 pf D (Function.update arenas a (some (.small k))) live seq') PallocStop := by
  unfold newArena
  refine (palloc_sat hl hi (Nat.le_refl 1)).bind ?_
  rintro ⟨v, s1⟩ (heq | ⟨a, hpos, rfl, ha, hi1⟩)
  · simp only [Prod.mk.injEq] at heq
    obtain ⟨rfl, rfl⟩ := heq
    exact .inl rfl
  · dsimp only at ha hi1 ⊢
    obtain ⟨t, hok, hc, -⟩ := ha.memset hi hi1
    rw [if_neg (by omega), hok, Except.ok_bind]
    have hcx : Called l s t pf a (Arena.small k).pages := hc
    have hnew : ∀ {b y}, arenas b = some y → a + 1 ≤ b ∨ b + y.pages ≤ a := fun hb =>
      h.new_apart hcx (Nat.le_refl 1) hb
    have hplace := hc.place hD (Nat.le_refl 1) hpos
    have hfree : ∀ i < classSum k, live (blockAt a k i) = none := fun i hlt => by
      have := blockAt_div (a := a) hlt
      exact h.rep.live_none hnew (by omega) (by omega)
    have hsum : t.space.memoryBlocksSum (descAt D k) = classSum k := by
      have hk := k.isLt
      rw [← (h.rep.desc k).2, Space.memoryBlocksSum, Space.memoryBlocksSum, hc.space]
      refine Space.read_clear_of_notMem ?_
      unfold descAt
      omega
    rw [hsum]
    generalize hm1 : t.space.setArena (a * 4096) (descAt D k) (classSum k) 0 = m1
    have hread : ∀ w, w < a * 4096 ∨ (a + 1) * 4096 ≤ w → m1.read w = s.space.read w := fun w hw => by
      rw [← hm1]
      exact hc.header_out (Nat.le_refl 1) _ _ _ hw
    have hcnt1 : m1.cnt (a * 4096) = classSum k := by rw [← hm1, setArena_cnt]
    have hrep1 := h.rep.addSmall (k := k) hnew hplace hread
      ⟨by rw [← hm1, setArena_desc], by rw [← hm1, setArena_largeRequest]⟩
    have hself : Function.update arenas a (some (Arena.small k)) a = some (.small k) := Function.update_self ..
    obtain ⟨m2, seq2, hloop, hrep2, hsame⟩ := addBlocks_ok (s := t) hrep1 hself hfree
    rw [space_setSpace, hcnt1, hloop]
    refine .inr ⟨rfl, a, seq2, hrep2.free.2 ⟨a, 0, hself, (class_facts k).2.2.2.1, rfl, hfree 0 (class_facts k).2.2.2.1⟩,
      hcx.heapStep h (Nat.le_refl 1) fun w hw => ?_, hcx.heapState hi h hrep2 (Counted.addSmall @h.counted hfree (fun {b y} hb hy => ?_) ?_)⟩
    · rw [← hread w (out_new rfl hw)]
      exact hsame.out hw
    · have hb' : Function.update arenas a (some (Arena.small k)) b = some y := by rwa [Function.update_of_ne hb]
      exact (hsame.head hb' 4 (by decide)).trans (hread _ (h.old_word hnew hy (by decide)))
    · exact (hsame.head hself 4 (by decide)).trans hcnt1

/-- `ensureBlock` finds a block, in an arena that is busy as soon as the block is taken. -/
theorem ensureBlock_sat (hl : l.Sized) (hi : PageInv l Stable s) (h : HeapState s pf D arenas live seq)
    (hb : Busy arenas live) (hD : DescsAt pf D) (k : Fin 7) :
    Except.Sat (s.ensureBlock pf (descAt D k))
      (fun r => r = (false, s) ∨ r.1 = true ∧ ∃ arenas' seq' p rest, seq' k = p :: rest ∧
        HeapStep l s r.2 pf D arenas arenas' ∧ HeapState r.2 pf D arenas' live seq' ∧
        ∀ size, Busy arenas' (Function.update live p (some size))) PallocStop := by
  have hempty := listEmpty_isSeq (h.rep.lists.isSeq k)
  unfold ensureBlock
  cases hseq : seq k with
  | cons p rest =>
    rw [if_neg (by rw [hempty, hseq]; exact List.cons_ne_nil p rest)]
    exact .inr ⟨rfl, arenas, seq, p, rest, hseq, .refl hi pf D arenas, h, fun size => Busy.update hb p size⟩
  | nil =>
    rw [if_pos (hempty.2 hseq)]
    refine (newArena_sat hl hi h hD k).imp ?_
    rintro r (hr | ⟨hr, a, seq', hmem, hstep, hstate⟩)
    · exact .inl hr
    · cases hseq' : seq' k with
      | nil =>
        rw [hseq'] at hmem
        cases hmem
      | cons p rest =>
        refine .inr ⟨hr, _, seq', p, rest, hseq', hstep, hstate, fun size => Busy.add hb _ ?_⟩
        -- the old arenas of the class have no free block
        obtain ⟨b, i, hba, hlt, rfl, hfree⟩ := hstate.rep.free.1 (show p ∈ seq' k by simp [hseq'])
        rw [blockAt_div hlt]
        by_contra hne
        rw [Function.update_of_ne hne] at hba
        have hold : blockAt b k i ∈ seq k := h.rep.free.2 ⟨b, i, hba, hlt, rfl, hfree⟩
        rw [hseq] at hold
        cases hold

/-- `sys_malloc` has returned `p`: new, with `size` zero bytes. -/
structure Malloced (l : Layout) (s s' : Kernel) (pf : PoolFlags) (D : Nat) (arenas : Nat → Option Arena)
    (live : Nat → Option Nat) (p size : Nat) (arenas' : Nat → Option Arena) (seq' : Fin 7 → List Nat) : Prop where
  ne : p ≠ 0
  fresh : live p = none
  step : HeapStep l s s' pf D arenas arenas'
  state : HeapState s' pf D arenas' (Function.update live p (some size)) seq'
  busy : Busy arenas' (Function.update live p (some size))
  zero : ∀ w, p ≤ w → w < p + size → s'.space.read w = 0

theorem HeapState.takeBlock (hi : PageInv l Stable s) (h : HeapState s pf D arenas live seq) {k : Fin 7} {p size : Nat}
    {rest : List Nat} (hseq : seq k = p :: rest) (h0 : 0 < size) (hsize : size ≤ classSize k)
    (hb : Busy arenas (Function.update live p (some size))) :
    (ElephantOS.takeBlock s.space (descAt D k)).1 = p ∧
      Malloced l s (s.setSpace (ElephantOS.takeBlock s.space (descAt D k)).2) pf D arenas live p size arenas
        (Function.update seq k rest) := by
  obtain ⟨hp, hrep, hcnt, hzero, hout⟩ := h.rep.take h.counted hseq h0 hsize
  obtain ⟨a, i, ha, hlt, hpe, hfree⟩ := h.rep.free.1 (show p ∈ seq k by simp [hseq])
  refine ⟨hp, ?_, hfree, .words hi hout, h.words hrep hcnt, hb, fun w h1 h2 => ?_⟩
  · rw [hpe]
    unfold blockAt
    omega
  · rw [space_setSpace]
    exact hzero w h1 (by omega)

theorem Malloced.after {mid : Nat → Option Arena} {seq' : Fin 7 → List Nat} {p size : Nat}
    (hstep : HeapStep l s s' pf D arenas mid) (h : Malloced l s' s'' pf D mid live p size mid seq') :
    Malloced l s s'' pf D arenas live p size mid seq' :=
  ⟨h.ne, h.fresh, hstep.trans (.inr rfl) h.step, h.state, h.busy, h.zero⟩

theorem Malloced.unlock {lock : Lock Nat} {arenas' : Nat → Option Arena} {seq' : Fin 7 → List Nat} {p size : Nat}
    (hu : s.Unlocked) (h : Malloced l (s.setLock pf lock) s' pf D arenas live p size arenas' seq') :
    Malloced l s (s'.setLock pf lockInit) pf D arenas live p size arenas' seq' := by
  refine ⟨h.ne, h.fresh, h.step.unlock hu, h.state.setLock pf lockInit, h.busy, ?_⟩
  rw [setLock_space]
  exact h.zero

theorem Called.malloced {t : Kernel} {a n size : Nat} (hi : PageInv l Stable s) (h : HeapState s pf D arenas live seq)
    (hb : Busy arenas live) (hD : DescsAt pf D) (hpos : 0 < a) (hc : Called l s t pf a n) (h0 : 0 < size)
    (hn : size + 12 ≤ n * 4096) :
    Malloced l s (t.setSpace (t.space.setArena (a * 4096) 0 n 1)) pf D arenas live (a * 4096 + 12) size
      (Function.update arenas a (some (.large n))) seq := by
  have h1 : 1 ≤ n := by omega
  have hcx : Called l s t pf a (Arena.large n).pages := hc
  have hnew : ∀ {b y}, arenas b = some y → a + n ≤ b ∨ b + y.pages ≤ a := fun hb => h.new_apart hcx h1 hb
  have hplace := hc.place hD h1 hpos
  generalize hm : t.space.setArena (a * 4096) 0 n 1 = m
  have hread : ∀ w, w < a * 4096 ∨ (a + n) * 4096 ≤ w → m.read w = s.space.read w := fun w hw => by
    rw [← hm]
    exact hc.header_out h1 _ _ _ hw
  have hrep := h.rep.addLarge h1 hnew hplace hread
    ⟨by rw [← hm, setArena_desc], by rw [← hm, setArena_largeRequest], by rw [← hm, setArena_cnt]⟩ h0 hn
  refine ⟨by omega, h.rep.live_none hnew (by omega) (by omega), hcx.heapStep h h1 fun w hw => hread w (out_new rfl hw),
    hcx.heapState hi h hrep fun {b k} hbk => ?_, Busy.add hb _ (by omega), fun w hw1 hw2 => ?_⟩
  · have hba : b ≠ a := by
      rintro rfl
      rw [Function.update_self] at hbk
      cases hbk
    rw [Function.update_of_ne hba] at hbk
    have hne : (a * 4096 + 12) / 4096 ≠ b := by omega
    rw [freeBlocks_congr (update_other hne), ← h.counted hbk]
    exact hread _ (h.old_word hnew hbk (by decide))
  · have hne : w ≠ a * 4096 + 8 ∧ w ≠ a * 4096 + 4 ∧ w ≠ a * 4096 := by omega
    have hin : a * 4096 ≤ w ∧ w < a * 4096 + n * 4096 := by omega
    rw [space_setSpace, ← hm, setArena_read, if_neg hne.1, if_neg hne.2.1, if_neg hne.2.2, hc.space]
    exact Space.read_clear_of_mem hin.1 hin.2

theorem unlock_same (hu : s.Unlocked) : (s.setLock pf (heldBy s.current)).unlockPool pf = .ok s := by
  rw [unlockPool_ok (by rw [setLock_pool]; cases pf <;> rfl), setLock_setLock, setLock_self hu]

theorem sysMalloc_sat (hl : l.Sized) (hi : PageInv l Stable s) (hu : s.Unlocked) {t : PCB}
    (ht : s.pcb s.current = some t) (hheap : s.heapOf t = (pf, D)) (hD : DescsAt pf D)
    (h : HeapState s pf D arenas live seq) (hb : Busy arenas live) (size : Nat) :
    Except.Sat (s.sysMalloc size)
      (fun r => r = (0, s) ∨ ∃ arenas' seq', Malloced l s r.2 pf D arenas live r.1 size arenas' seq') PallocStop := by
  have hp := SamePaging.setLock s pf (heldBy s.current)
  have hi0 := hp.inv hi
  have h0 := h.setLock pf (heldBy s.current)
  unfold sysMalloc
  rw [getPcb, ht, Except.ok_bind, hheap]
  dsimp only
  by_cases hsize : size > 0 ∧ size < (s.pool pf).poolSize
  · have hpool := hi.config.size pf
    rw [if_neg (fun hn => hn hsize), lockPool_ok hu, Except.ok_bind]
    by_cases hlarge : size > 1024
    · rw [if_pos hlarge]
      have hpages : size + 12 ≤ (size + arenaSize + 4096 - 1) % 2 ^ 32 / 4096 * 4096 := by
        unfold arenaSize
        omega
      generalize (size + arenaSize + 4096 - 1) % 2 ^ 32 / 4096 = n at *
      refine (palloc_sat hl hi0 (by omega)).bind ?_
      rintro ⟨v, s1⟩ (heq | ⟨a, hpos, rfl, ha, hi1⟩)
      · simp only [Prod.mk.injEq] at heq
        obtain ⟨rfl, rfl⟩ := heq
        dsimp only
        rw [if_neg (by simp), unlock_same hu, Except.ok_bind]
        exact .inl rfl
      · dsimp only at ha hi1 ⊢
        obtain ⟨t1, hok, hc, -⟩ := ha.memset hi0 hi1
        have hm := hc.malloced hi0 h0 hb hD hpos hsize.1 hpages
        rw [if_pos (by omega), hok, Except.ok_bind, hm.step.unlockPool, Except.ok_bind]
        exact .inr ⟨_, _, hm.unlock hu⟩
    · obtain ⟨k, hidx, hk⟩ := h0.rep.arenaIdx (show size ≤ 1024 by omega)
      rw [if_neg hlarge, hidx]
      refine (ensureBlock_sat hl hi0 h0 hb hD k).bind ?_
      rintro ⟨ok, s1⟩ (heq | ⟨rfl, arenas', seq', p, rest, hseq, hstep, hstate, hbusy⟩)
      · simp only [Prod.mk.injEq] at heq
        obtain ⟨rfl, rfl⟩ := heq
        dsimp only
        rw [if_neg (by simp), unlock_same hu, Except.ok_bind]
        exact .inl rfl
      · dsimp only at hstep hstate ⊢
        obtain ⟨hpe, hm⟩ := hstate.takeBlock hstep.inv hseq hsize.1 hk (hbusy size)
        have hm0 := hm.after hstep
        rw [if_pos rfl, hm0.step.unlockPool, Except.ok_bind, hpe]
        exact .inr ⟨_, _, hm0.unlock hu⟩
  · rw [if_pos hsize]
    exact .inl rfl

end Malloc

/-! ## `sys_free` -/

section Free
variable {seq : Fin 7 → List Nat} {a : Nat} {x : Arena}

theorem arenaPage_drop (h : HeapRep s.space D arenas live seq) (ha : arenas a = some x) {v : Nat}
    (hv : ArenaPage (Function.update arenas a none) v) : ArenaPage arenas v ∧ (v < a ∨ a + x.pages ≤ v) := by
  obtain ⟨b, y, hb, h1, h2⟩ := hv
  have hba : b ≠ a := by
    rintro rfl
    rw [Function.update_self] at hb
    cases hb
  rw [Function.update_of_ne hba] at hb
  have hsep := h.apart hb ha hba
  exact ⟨⟨b, y, hb, h1, h2⟩, by omega⟩

theorem HeapPages.freeable (hpages : HeapPages s pf arenas) (ha : arenas a = some x) : Freeable s pf a x.pages := by
  have hin : ∀ k < x.pages, ArenaPage arenas (a + k) := fun k hk => ⟨a, x, ha, by omega, by omega⟩
  exact ⟨fun k hk => hpages.mapped (hin k hk), fun k hk hpf => hpages.plain (hin k hk) hpf⟩

theorem pfreeArena_ok (hl : l.Sized) (hi : PageInv l Stable s) (hrep : HeapRep s.space D arenas live seq)
    (hpages : HeapPages s pf arenas) (ha : arenas a = some x) :
    ∃ s', s.pfree pf (a * 4096) x.pages = .ok s' ∧ s'.space = s.space ∧
      HeapStep l s s' pf D arenas (Function.update arenas a none) ∧ HeapPages s' pf (Function.update arenas a none) := by
  have hin : ∀ k < x.pages, ArenaPage arenas (a + k) := fun k hk => ⟨a, x, ha, by omega, by omega⟩
  obtain ⟨s', hok, hi', hf⟩ := pfree_ok hl hi (hrep.pages_pos ha) (hpages.freeable ha)
  refine ⟨s', hok, hf.rest.space, ⟨hf.rest.sys, hi', fun w _ _ => by rw [hf.rest.space], fun q _ => by rw [hf.rest.umem],
    fun pg hv => hf.map pg ?_, fun {v} hv => .inl (arenaPage_drop hrep ha hv).1, fun {v} hv hn => hf.none _ ?_, fun ht => by rw [hf.tab]; exact ht,
    fun _ => hf.tab⟩, ⟨fun {v} hv => ?_, fun {v} hv hpf hsys => ?_⟩⟩
  · rintro ⟨k, hk, rfl⟩
    have hdrop := (hv (a + k) rfl).1 (hin k hk)
    have := (arenaPage_drop hrep ha hdrop).2
    omega
  · obtain ⟨b, y, hb, h1, h2⟩ := hv
    by_cases hba : b = a
    · rw [hba, ha, Option.some.injEq] at hb
      subst hba hb
      exact inRange_pageOf.2 ⟨h1, h2⟩
    · exact absurd ⟨b, y, by rwa [Function.update_of_ne hba], h1, h2⟩ hn
  · obtain ⟨hold, hout⟩ := arenaPage_drop hrep ha hv
    rw [hf.rest.pageOf, hf.map]
    · exact hpages.mapped hold
    · rw [inRange_pageOf]
      omega
  · exact hpages.plain (arenaPage_drop hrep ha hv).1 hpf (SystemPage.congr hf.rest hsys)

structure FreedBlock (l : Layout) (s s' : Kernel) (pf : PoolFlags) (D : Nat) (arenas : Nat → Option Arena)
    (live : Nat → Option Nat) (p : Nat) (arenas' : Nat → Option Arena) (seq' : Fin 7 → List Nat) : Prop where
  step : HeapStep l s s' pf D arenas arenas'
  state : HeapState s' pf D arenas' (Function.update live p none) seq'
  busy : Busy arenas' (Function.update live p none)

/-- An arena with no live block is given up. -/
theorem releaseArena_ok (hl : l.Sized) (hi : PageInv l Stable s) (h : HeapState s pf D arenas live seq) {k : Fin 7}
    (ha : arenas a = some (.small k)) (hfree : ∀ i < classSum k, live (blockAt a k i) = none) :
    ∃ s1 s2 seq', Except.forRange (fun blockIdx s => dropBlock s (a * 4096) blockIdx) (classSum k) 0 s = .ok s1 ∧
      s1.pfree pf (a * 4096) 1 = .ok s2 ∧ HeapStep l s s2 pf D arenas (Function.update arenas a none) ∧
      HeapState s2 pf D (Function.update arenas a none) live seq' := by
  obtain ⟨m, seq1, hloop, hrep, hsame⟩ := dropBlocks_ok (s := s) h.rep ha hfree
  rw [setSpace_space] at hloop
  have hstep1 : HeapStep l s (s.setSpace m) pf D arenas arenas := .words hi fun w hw => hsame.out hw
  obtain ⟨s2, hok, hspace, hstep2, hpages⟩ := pfreeArena_ok hl hstep1.inv (by rw [space_setSpace]; exact hrep)
    (h.pages.samePaging (.setSpace s m)) ha
  rw [space_setSpace] at hspace
  refine ⟨_, s2, seq1, hloop, hok, hstep1.trans (.inl rfl) hstep2, ?_, ?_, hpages⟩
  · rw [hspace]
    exact hrep.dropSmall ha fun p hp => h.rep.live_small ha hfree hp
  · rw [hspace]
    exact Counted.drop (Counted.congr @h.counted hsame.head) fun _ _ => rfl

theorem freeBlock_ok (hl : l.Sized) (hi : PageInv l Stable s) (h : HeapState s pf D arenas live seq)
    (hb : Busy arenas live) {k : Fin 7} {i : Nat} (ha : arenas a = some (.small k)) (hlt : i < classSum k)
    (hlive : live (blockAt a k i) ≠ none) :
    ∃ s' arenas' seq', s.freeBlock pf (a * 4096) (blockAt a k i) = .ok s' ∧
      FreedBlock l s s' pf D arenas live (blockAt a k i) arenas' seq' := by
  obtain ⟨m, happ, hrep, hcnt, hout⟩ := h.rep.give h.counted ha hlt hlive
  unfold freeBlock
  dsimp only
  rw [appendFree, happ]
  dsimp only
  rw [Except.ok_bind, space_setSpace, setSpace_setSpace, space_setSpace]
  generalize m.write (a * 4096 + 4) ((m.cnt (a * 4096) + 1) % 2 ^ 32) = m1 at hrep hcnt hout ⊢
  have hstep1 : HeapStep l s (s.setSpace m1) pf D arenas arenas := .words hi hout
  have hstate1 := h.words hrep hcnt
  rw [(hrep.small ha).1, (hrep.desc k).2, hcnt ha]
  rcases card_freeBlocks (Function.update live (blockAt a k i) none) a k with ⟨hcard, hfree⟩ | ⟨hcard, j, hj, hne⟩
  · obtain ⟨s1, s2, seq', hloop, hok, hstep2, hstate2⟩ := releaseArena_ok hl hstep1.inv hstate1 ha hfree
    rw [if_pos hcard, hloop, Except.ok_bind, hok]
    refine ⟨s2, _, seq', rfl, hstep1.trans (.inl rfl) hstep2, hstate2, Busy.drop hb fun p hp => ?_⟩
    refine Function.update_of_ne ?_ _ _
    rintro rfl
    exact hp (blockAt_div hlt)
  · rw [if_neg (by omega)]
    refine ⟨_, arenas, _, rfl, hstep1, hstate1, Busy.erase hb hne ?_⟩
    rw [blockAt_div hj, blockAt_div hlt]

theorem giveBack_ok (hl : l.Sized) (hi : PageInv l Stable s) (h : HeapState s pf D arenas live seq)
    (hb : Busy arenas live) {p : Nat} (hlive : live p ≠ none) :
    ∃ s' arenas' seq', s.giveBack pf (block2arena p) p = .ok s' ∧ FreedBlock l s s' pf D arenas live p arenas' seq' := by
  obtain ⟨size, hs⟩ := Option.ne_none_iff_exists'.1 hlive
  unfold giveBack
  obtain ⟨-, ⟨a, k, i, ha, hlt, rfl, -⟩ | ⟨a, n, ha, rfl, -⟩⟩ := h.rep.live hs
  · rw [block2arena_blockAt hlt, (h.rep.small ha).2, if_neg (by simp)]
    exact freeBlock_ok hl hi h hb ha hlt hlive
  · obtain ⟨h1, h2, h3, h4⟩ := h.rep.large ha
    have hpage : block2arena (a * 4096 + 12) = a * 4096 := by
      unfold block2arena
      omega
    obtain ⟨s', hok, hspace, hstep, hpages⟩ := pfreeArena_ok hl hi h.rep h.pages ha
    have hother : ∀ q, q / 4096 ≠ a → Function.update live (a * 4096 + 12) none q = live q := fun q hq =>
      Function.update_of_ne (by omega) _ _
    rw [hpage, h1, h2, h3, if_pos ⟨rfl, rfl⟩]
    refine ⟨s', _, seq, hok, hstep, ⟨?_, ?_, hpages⟩, Busy.drop hb hother⟩
    · rw [hspace]
      exact h.rep.dropLarge ha
    · rw [hspace]
      exact Counted.drop @h.counted hother

theorem HeapState.live_ge (hi : PageInv l Stable s) (h : HeapState s .kernelPool D arenas live seq) {p : Nat}
    (hlive : live p ≠ none) : kernelHeapBase ≤ p := by
  obtain ⟨y, hy⟩ := h.rep.live_arena hlive
  have hpos := h.rep.pages_pos hy
  have hr := (hi.virt.mapped (h.pages.mapped ⟨_, y, hy, Nat.le_refl _, by omega⟩)).1
  have hge : 0xC0100 ≤ p / 4096 := hr.1
  unfold kernelHeapBase
  omega

theorem FreedBlock.unlock {lock : Lock Nat} {arenas' : Nat → Option Arena} {seq' : Fin 7 → List Nat} {p : Nat}
    (hu : s.Unlocked) (h : FreedBlock l (s.setLock pf lock) s' pf D arenas live p arenas' seq') :
    FreedBlock l s (s'.setLock pf lockInit) pf D arenas live p arenas' seq' :=
  ⟨h.step.unlock hu, h.state.setLock pf lockInit, h.busy⟩

/-- `sys_free` of a live pointer fails no `ASSERT`. -/
theorem sysFree_ok (hl : l.Sized) (hi : PageInv l Stable s) (hu : s.Unlocked) {t : PCB}
    (ht : s.pcb s.current = some t) (hheap : s.heapOf t = (pf, D)) (h : HeapState s pf D arenas live seq)
    (hb : Busy arenas live) {p : Nat} (hlive : live p ≠ none) :
    ∃ s' arenas' seq', s.sysFree p = .ok s' ∧ FreedBlock l s s' pf D arenas live p arenas' seq' := by
  have hp0 : p ≠ 0 := by
    rintro rfl
    exact hlive h.rep.live_zero
  have hassert : decide (t.pdeAddr ≠ 0 ∨ p ≥ kernelHeapBase) = true := by
    rw [decide_eq_true_eq]
    by_cases hpd : t.pdeAddr = 0
    · rw [heapOf, if_pos hpd, Prod.mk.injEq] at hheap
      obtain ⟨rfl, rfl⟩ := hheap
      exact .inr (h.live_ge hi hlive)
    · exact .inl hpd
  have h0 := h.setLock pf (heldBy s.current)
  obtain ⟨s1, arenas', seq', hok, hfreed⟩ := giveBack_ok hl ((SamePaging.setLock s pf _).inv hi) h0 hb hlive
  unfold sysFree
  rw [if_neg hp0, getPcb, ht, Except.ok_bind, hheap]
  dsimp only
  rw [hassert, assert_true, Except.ok_bind, lockPool_ok hu, Except.ok_bind, decide_eq_true (h0.rep.largeRequest hlive),
    assert_true, Except.ok_bind, hok, Except.ok_bind, hfreed.step.unlockPool]
  exact ⟨_, arenas', seq', rfl, hfreed.unlock hu⟩

end Free

end Kernel

end ElephantOS
