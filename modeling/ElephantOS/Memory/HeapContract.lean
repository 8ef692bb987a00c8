import ElephantOS.Memory.Guarantees
import ElephantOS.Memory.TlbRuns

/-!
# The heaps: what callers get, how they are represented, and that nothing leaks

Every run from boot in which no page is given another frame before the next load of CR3, and no frame a second page
(`TlbSys.Sound`), on a machine whose bitmaps end below the PCB of the main thread; for the heaps of processes, one whose
kernel pool has a multiple of 8 pages. A process whose pages share a frame could have its lists of free blocks overwritten
by its own stores, and with them the kernel: so the heap of the kernel needs the condition too.

* `heap_client_contract`, `heap_representation` : the two sides of `sys_malloc` and `sys_free`;
* `kernel_heap_leaks_nothing` : when all is freed, all is as it was;
* `not_heap_client_contract`, `not_heap_representation` : two pages of a process in one frame;
* `not_kernel_heap_leaks_nothing` : a stack pointer in the bitmap of the kernel heap.
-/

namespace ElephantOS
open Kernel Sys

section Heaps
variable {l : Layout} {s : Sys} {arenas : Heap → Nat → Option Arena} {seq : Heap → Fin 7 → List Nat}

theorem Sys.Inv.malloc_zero (hl : l.Sized) (hI : s.Inv l arenas seq) {size p : Nat} {k' : Kernel}
    (hok : s.k.sysMalloc size = .ok (p, k')) (hp : p ≠ 0) {a : Nat} (h1 : p ≤ a) (h2 : a < p + size) :
    (k'.heapSpace s.k.heap).byte a = 0 := by
  obtain ⟨t, ht, hheap, hpage, hhas⟩ := heap_current hI.page.threads
  rcases (hI.sysMalloc_sat hl size).of_ok hok with heq | ⟨A, q, hm⟩
  · exact absurd (Prod.mk.inj heq).1 hp
  · have hlive : Function.update (s.live s.k.heap) p (some size) p = some size := Function.update_self ..
    obtain ⟨b, y, e, hb, h3, -, -, -, h4, -⟩ := hm.state.rep.extent hlive
    have hword : k'.space.read (a / 4 * 4) = 0 := hm.zero _ (by omega) (by omega)
    have hsp := hm.step.sys
    have hge : k'.heap = .kernel → 0xC0000000 ≤ a / 4 * 4 := fun hk => by
      rw [SameSys.heap hsp] at hk
      have hpos := hm.state.rep.pages_pos hb
      have hmap := hm.state.pages.mapped ⟨b, y, hb, Nat.le_refl b, by omega⟩
      rw [SameSys.pageOf hsp, hpage, hk] at hmap
      have hr : 0xC0100 ≤ b := (hm.step.inv.virt.mapped hmap).1.1
      omega
    have := space_heap k' hge
    rw [SameSys.heap hsp] at this
    rw [Space.byte, this, hword, Nat.zero_div, Nat.zero_mod]

end Heaps

/-! ## The contract and the representation -/

/-- The client's side of `sys_malloc` and `sys_free`, for each heap: results are zero, live regions do not overlap, and
they are in pages of arenas, clear of the headers of the arenas and of the nodes of the free lists. The pages of the
arenas have frames of their own, and all accesses use these. -/
theorem heap_client_contract {allMem : Nat} (hused : usedMem ≤ allMem) (hmem : allMem < 0x1575F000) {low : Bytes} {D : Nat}
    (hD : StaticDescs D) {m : TlbSys}
    (hrun : TlbSys.Run (layout allMem) (TlbSys.Sound (layout allMem)) (TlbSys.init (boot allMem low D)) m) {h : Heap}
    (hh : m.sys.k.HasHeap h) (h8 : h = .kernel ∨ (layout allMem).kernelFreePages % 8 = 0) :
    (m.sys.k.heap = h → ∀ size p k', m.Fresh (.sysMalloc size) → m.sys.k.sysMalloc size = .ok (p, k') → p ≠ 0 →
      m.Agrees k' ∧ ∀ a, p ≤ a → a < p + size → (k'.heapSpace h).byte a = 0) ∧
    (∀ p n q r, m.sys.live h p = some n → m.sys.live h q = some r → p ≠ q → p + n ≤ q ∨ q + r ≤ p) ∧
    m.mmu.Coherent Kernel.frame IsAllocated ∧
    ∃ arenas seq, HeapRep (m.sys.k.heapSpace h) (m.sys.k.heapDescs h) arenas (m.sys.live h) seq ∧
      (∀ v, ArenaPage arenas v → m.sys.k.HasOwnFrame (h.page v) ∧ ¬ m.sys.client (h.page v)) ∧
      ∀ p n, m.sys.live h p = some n →
        (∀ a, p ≤ a → a < p + n → ArenaPage arenas (a / 4096)) ∧
        (∀ b y, arenas b = some y → p + n ≤ b * 4096 ∨ b * 4096 + arenaSize ≤ p) ∧
        ∀ k x, x ∈ seq k → p + n ≤ x ∨ x + 8 ≤ p := by
  obtain ⟨⟨arenas, seq, hI⟩, hright⟩ := TlbSys.boot_run_inv hused hmem hD hrun.fresh
  have hheap := hI.heap h hh
  refine ⟨?_, fun p n q r hp hq hne => hheap.rep.live_sep hp hq hne, hright.coherent hI, arenas h, seq h, hheap.rep,
    fun v hv => ⟨hI.page.hasOwnFrame h8 (hheap.mapped hv), hheap.apart hv⟩,
    fun p n hp => ⟨fun a h1 h2 => hheap.rep.live_page hp h1 h2, fun b y hb => hheap.rep.live_header hp hb,
      fun k x hx => hheap.rep.live_node hp hx⟩⟩
  rintro rfl size p k' hfresh hok hp
  refine ⟨hright.malloc hfresh hok, ?_⟩
  intro a h1 h2
  exact hI.malloc_zero (Fits.sized ⟨hused, by omega⟩) hok hp h1 h2

def blocksOn (m : Space) (a : Nat) (xs : List Nat) : Nat :=
  ((Finset.range (m.memoryBlocksSum (m.desc (a * 4096)))).filter fun i => arena2block m (a * 4096) i ∈ xs).card

theorem blocksOn_eq {m : Space} {D : Nat} {arenas : Nat → Option Arena} {live : Nat → Option Nat}
    {seq : Fin 7 → List Nat} (h : HeapRep m D arenas live seq) {a : Nat} {k : Fin 7} (ha : arenas a = some (.small k)) :
    blocksOn m a (seq k) = (freeBlocks live a k).card := by
  unfold blocksOn freeBlocks
  rw [(h.small ha).1, (h.desc k).2]
  congr 1
  refine Finset.filter_congr fun i hi => ?_
  rw [h.arena2block ha, h.free]
  constructor
  · rintro ⟨b, j, hb, hj, he, hl⟩
    exact hl
  · intro hl
    exact ⟨a, i, ha, Finset.mem_range.1 hi, rfl, hl⟩

/-- The representation, for each heap: the free list of a class is well formed, without duplicates, with the blocks of
the arenas of the class that are not live; `cnt` of an arena is the number of its blocks on the list, less than all;
large arenas have their pages in `cnt`; and no `ASSERT` on the lists or on `large_request` fails. The pages of the arenas
have frames of their own, and all accesses use these. -/
theorem heap_representation {allMem : Nat} (hused : usedMem ≤ allMem) (hmem : allMem < 0x1575F000) {low : Bytes} {D : Nat}
    (hD : StaticDescs D) {m : TlbSys}
    (hrun : TlbSys.Run (layout allMem) (TlbSys.Sound (layout allMem)) (TlbSys.init (boot allMem low D)) m) {h : Heap}
    (hh : m.sys.k.HasHeap h) (h8 : h = .kernel ∨ (layout allMem).kernelFreePages % 8 = 0) :
    m.mmu.Coherent Kernel.frame IsAllocated ∧
    ∃ (arenas : Nat → Option Arena) (seq : Fin 7 → List Nat), let sp := m.sys.k.heapSpace h
      (∀ v, ArenaPage arenas v → m.sys.k.HasOwnFrame (h.page v)) ∧
      (∀ k : Fin 7, (LinkMem.IsSeq sp (freeList (descAt (m.sys.k.heapDescs h) k)).head
          (freeList (descAt (m.sys.k.heapDescs h) k)).tail (seq k)) ∧ (seq k).Nodup ∧
        ∀ x, x ∈ seq k ↔ ∃ a i, arenas a = some (.small k) ∧ i < sp.memoryBlocksSum (sp.desc (a * 4096)) ∧
          x = arena2block sp (a * 4096) i ∧ m.sys.live h x = none) ∧
      (∀ a (k : Fin 7), arenas a = some (.small k) → sp.desc (a * 4096) = descAt (m.sys.k.heapDescs h) k ∧
        sp.largeRequest (a * 4096) = 0 ∧ sp.cnt (a * 4096) = blocksOn sp a (seq k) ∧
        sp.cnt (a * 4096) < sp.memoryBlocksSum (sp.desc (a * 4096)) ∧
        ∀ i < sp.memoryBlocksSum (sp.desc (a * 4096)), block2arena (arena2block sp (a * 4096) i) = a * 4096) ∧
      (∀ a n, arenas a = some (.large n) → sp.desc (a * 4096) = 0 ∧ sp.largeRequest (a * 4096) = 1 ∧
        sp.cnt (a * 4096) = n) ∧
      (∀ p size, m.sys.live h p = some size → HasRoom arenas p size) ∧
      (m.sys.k.heap = h → ∀ size, m.Fresh (.sysMalloc size) → ∀ e, m.sys.k.sysMalloc size = .error e →
        e ≠ .elemFind ∧ e ≠ .nullElem ∧ e ≠ .largeRequest ∧ e ≠ .notKernelHeap) ∧
      (m.sys.k.heap = h → ∀ p, p = 0 ∨ m.sys.live h p ≠ none → ∃ k', m.sys.k.sysFree p = .ok k') := by
  obtain ⟨⟨arenas, seq, hI⟩, hright⟩ := TlbSys.boot_run_inv hused hmem hD hrun.fresh
  have hl : (layout allMem).Sized := Fits.sized ⟨hused, by omega⟩
  have hheap := hI.heap h hh
  have hrep := hheap.rep
  have hsum : ∀ {a k}, arenas h a = some (.small k) →
      (m.sys.k.heapSpace h).memoryBlocksSum ((m.sys.k.heapSpace h).desc (a * 4096)) = classSum k := fun ha => by
    rw [(hrep.small ha).1, (hrep.desc _).2]
  refine ⟨hright.coherent hI, arenas h, seq h, fun v hv => hI.page.hasOwnFrame h8 (hheap.mapped hv),
    fun k => ⟨hrep.lists.isSeq k, hrep.lists.nodup k, fun x => ?_⟩, fun a k ha => ?_,
    fun a n ha => ?_, fun p size hp => (hrep.live hp).2, ?_, ?_⟩
  · rw [hrep.free]
    refine exists_congr fun a => exists_congr fun i => and_congr_right fun ha => ?_
    rw [hsum ha, hrep.arena2block ha]
  · have hcnt := hheap.counted ha
    refine ⟨(hrep.small ha).1, (hrep.small ha).2, ?_, ?_, fun i hi => ?_⟩
    · rw [hcnt, blocksOn_eq hrep ha]
    · rw [hcnt, hsum ha]
      rcases card_freeBlocks (m.sys.live h) a k with ⟨-, hall⟩ | ⟨hlt, -⟩
      · obtain ⟨p, hp, hpa⟩ := hheap.busy ha
        exact absurd (hrep.live_small ha hall hpa) hp
      · exact hlt
    · rw [hsum ha] at hi
      rw [hrep.arena2block ha, block2arena_blockAt hi]
  · obtain ⟨h1, h2, h3, -⟩ := hrep.large ha
    exact ⟨h1, h2, h3⟩
  · rintro rfl size - e herr
    rcases hI.stop hl (c := .sysMalloc size) trivial herr with hstop | rfl | rfl | ⟨_, _, hc, -⟩
    · rcases hstop with rfl | rfl | ⟨v, rfl, -⟩ <;> simp
    · simp
    · simp
    · cases hc
  · rintro rfl p hp
    exact hI.sysFree_returns hl hp

/-! ## Small blocks of the main thread, on a machine with 16MB -/

/-- Three small requests, of which the first is freed: two arenas, with a list of free blocks each. -/
def smallBlocks (m : TlbSys) : Option (Nat × Nat × Nat × TlbSys) := do
  let (a, m1) ← m.tryHeap .kernel (.sysMalloc 1000)
  let (b, m2) ← m1.tryHeap .kernel (.sysMalloc 900)
  let (c, m3) ← m2.tryHeap .kernel (.sysMalloc 300)
  let (_, m4) ← m3.tryHeap .kernel (.sysFree a)
  return (a, b, c, m4)

def boot16MB : TlbSys := TlbSys.init (boot 0x1000000 (fun _ => 0#8) 0xC0010000)

theorem smallBlocks_facts : (smallBlocks boot16MB).map (fun x => (x.1, x.2.1, x.2.2.1,
    (x.2.2.2.sys.k.heapSpace .kernel).cnt 0xC0100000, (x.2.2.2.sys.k.heapSpace .kernel).cnt 0xC0101000,
    (x.2.2.2.tryHeap .kernel (.sysMalloc 700)).map Prod.fst)) =
    some (0xC010000C, 0xC010040C, 0xC010100C, 2, 6, some 0xC010080C) := by
  decide +kernel

theorem smallBlocks_calls {m m4 : TlbSys} {a b c : Nat} (h : smallBlocks m = some (a, b, c, m4)) : ∃ m1 m2 m3 r,
    m.tryHeap .kernel (.sysMalloc 1000) = some (a, m1) ∧ m1.tryHeap .kernel (.sysMalloc 900) = some (b, m2) ∧
    m2.tryHeap .kernel (.sysMalloc 300) = some (c, m3) ∧ m3.tryHeap .kernel (.sysFree a) = some (r, m4) := by
  obtain ⟨⟨a, m1⟩, h1, h⟩ := Option.bind_eq_some_iff.1 h
  obtain ⟨⟨b, m2⟩, h2, h⟩ := Option.bind_eq_some_iff.1 h
  obtain ⟨⟨c, m3⟩, h3, h⟩ := Option.bind_eq_some_iff.1 h
  obtain ⟨⟨r, m4⟩, h4, h⟩ := Option.bind_eq_some_iff.1 h
  cases h
  exact ⟨m1, m2, m3, r, h1, h2, h3, h4⟩

theorem boot16MB_tryHeap {m m' : TlbSys} {o : Op} {r : Nat} (hr : TlbSys.Run (layout 0x1000000) TlbSys.Fresh boot16MB m)
    (ht : m.tryHeap .kernel o = some (r, m')) (ho : ∀ pf n, o ≠ .palloc pf n) :
    TlbSys.Run (layout 0x1000000) TlbSys.Fresh boot16MB m' :=
  TlbSys.Run.tryHeap (usedMem_le (by decide)) (by decide) (by decide) hr ht ho

theorem smallBlocks_run : ∃ m, TlbSys.Run (layout 0x1000000) TlbSys.Fresh boot16MB m ∧
    m.sys.live .kernel = Function.update (Function.update (fun _ => none) 0xC010040C (some 900)) 0xC010100C (some 300) ∧
    (m.sys.k.heapSpace .kernel).cnt 0xC0100000 = 2 ∧ (m.sys.k.heapSpace .kernel).cnt 0xC0101000 = 6 ∧
    ∃ m', m.tryHeap .kernel (.sysMalloc 700) = some (0xC010080C, m') := by
  obtain ⟨⟨a, b, c, m⟩, hm, hfacts⟩ := Option.map_eq_some_iff.1 smallBlocks_facts
  obtain ⟨m1, m2, m3, r, h1, h2, h3, h4⟩ := smallBlocks_calls hm
  simp only [Prod.mk.injEq] at hfacts
  obtain ⟨ha, hb, hc, hcnt, hcnt', hnext⟩ := hfacts
  obtain ⟨⟨p, m'⟩, hp, rfl⟩ := Option.map_eq_some_iff.1 hnext
  have hrun1 := boot16MB_tryHeap .refl h1 nofun
  have hrun2 := boot16MB_tryHeap hrun1 h2 nofun
  have hrun3 := boot16MB_tryHeap hrun2 h3 nofun
  refine ⟨m, boot16MB_tryHeap hrun3 h4 nofun, ?_, hcnt, hcnt', m', hp⟩
  rw [(TlbSys.tryHeap_live h4).2 _ rfl, (TlbSys.tryHeap_live h3).1 _ rfl (by omega),
    (TlbSys.tryHeap_live h2).1 _ rfl (by omega), (TlbSys.tryHeap_live h1).1 _ rfl (by omega), ha, hb, hc]
  have hnone : boot16MB.sys.live .kernel = fun _ => none := rfl
  rw [hnone]
  funext p
  simp only [Function.update_apply]
  split_ifs <;> simp_all

/-- Before the block that was freed, the third block of the first arena is handed out, clear. -/
theorem heap_client_contract_blocks : ∃ m k', TlbSys.Run (layout 0x1000000) TlbSys.Fresh boot16MB m ∧
    m.sys.live .kernel 0xC010040C = some 900 ∧ m.sys.live .kernel 0xC010100C = some 300 ∧
    m.sys.k.sysMalloc 700 = .ok (0xC010080C, k') ∧
    (∀ a, 0xC010080C ≤ a → a < 0xC010080C + 700 → (k'.heapSpace .kernel).byte a = 0) ∧
    m.mmu.Coherent Kernel.frame IsAllocated ∧ m.sys.k.HasOwnFrame (.kernel 0xC0100) := by
  obtain ⟨m, hrun, hlive, -, -, m', ht⟩ := smallBlocks_run
  have hfresh : m.Fresh (.sysMalloc 700) := TlbSys.Run.fresh_of_tryHeap (usedMem_le (by decide)) (by decide) (by decide) hrun
    ht nofun
  obtain ⟨hcall, hheap, -⟩ := TlbSys.tryHeap_eq ht
  obtain ⟨-, k', hok, -⟩ := TlbSys.tryCall_eq hcall
  have h900 : m.sys.live .kernel 0xC010040C = some 900 := by
    rw [hlive]
    rfl
  have h300 : m.sys.live .kernel 0xC010100C = some 300 := by
    rw [hlive]
    rfl
  obtain ⟨hzero, -, hcoherent, arenas, seq, -, hframes, hregions⟩ :=
    heap_client_contract (h := .kernel) (usedMem_le (by decide)) (by decide) (by decide) (hrun.sound (by decide)) trivial (.inl rfl)
  have hpage := (hregions _ _ h900).1 0xC010040C (Nat.le_refl _) (by decide)
  exact ⟨m, k', hrun, h900, h300, hok, (hzero hheap 700 _ k' hfresh hok (by decide)).2, hcoherent, (hframes _ hpage).1⟩

/-- The page of the first arena has two blocks on the list of its class. -/
theorem heap_representation_blocks : ∃ m, TlbSys.Run (layout 0x1000000) TlbSys.Fresh boot16MB m ∧
    ∃ (arenas : Nat → Option Arena) (seq : Fin 7 → List Nat) (k : Fin 7), arenas 0xC0100 = some (.small k) ∧
      blocksOn (m.sys.k.heapSpace .kernel) 0xC0100 (seq k) = 2 ∧ (seq k).Nodup ∧
      LinkMem.IsSeq (m.sys.k.heapSpace .kernel) (freeList (descAt (m.sys.k.heapDescs .kernel) k)).head
        (freeList (descAt (m.sys.k.heapDescs .kernel) k)).tail (seq k) := by
  obtain ⟨m, hrun, hlive, hcnt, -⟩ := smallBlocks_run
  obtain ⟨-, arenas, seq, -, hlists, hsmall, -, hroom, -⟩ :=
    heap_representation (h := .kernel) (usedMem_le (by decide)) (by decide) (by decide) (hrun.sound (by decide)) trivial (.inl rfl)
  have h900 : m.sys.live .kernel 0xC010040C = some 900 := by
    rw [hlive]
    rfl
  rcases hroom _ _ h900 with ⟨a, k, i, ha, hi, hp, -⟩ | ⟨a, n, -, hp, -⟩
  · have hpage := block2arena_blockAt (a := a) hi
    rw [← hp] at hpage
    obtain rfl : a = 0xC0100 := by
      unfold block2arena at hpage
      omega
    exact ⟨m, hrun, arenas, seq, k, ha, (hsmall _ k ha).2.2.1.symm.trans hcnt, (hlists k).2.1, (hlists k).1⟩
  · omega

/-! ## Two pages in one frame, on a machine with 4MB and 8KB -/

/-- The kernel pool has 257 pages. The first page of the user pool goes to `a`; `sys_free` clears the bit of the next
page instead, the first of `b`, and `c` gets it. -/
def sharedFrame (m : TlbSys) : Option (Nat × Nat × Nat × Nat × TlbSys) := do
  let (p, m1) ← m.tryCall .execProcess
  let m2 ← m1.trySwitch p 0xC009EFD4
  let (a, m3) ← m2.tryHeap (.user p) (.sysMalloc 2000)
  let (b, m4) ← m3.tryHeap (.user p) (.sysMalloc 8000)
  let (_, m5) ← m4.tryHeap (.user p) (.sysFree a)
  let (c, m6) ← m5.tryHeap (.user p) (.sysMalloc 9000)
  return (p, a, b, c, m6)

def boot4MB : TlbSys := TlbSys.init (boot 0x402000 (fun _ => 0#8) 0xC0010000)

/-- The results, the heap, and the places of four addresses: of the first bytes of `b` and `c` and of their `cnt`. -/
def sharedPlaces (x : Nat × Nat × Nat × Nat × TlbSys) : List Nat × Heap × List (Option Nat) :=
  ([x.1, x.2.1, x.2.2.1, x.2.2.2.1], x.2.2.2.2.sys.k.heap,
    [0x804900C, 0x804B00C, 0x8049004, 0x804B004].map (walk x.2.2.2.2.sys.k.ram x.2.2.2.2.sys.k.cr3))

theorem sharedFrame_facts : (sharedFrame boot4MB).map sharedPlaces =
    some ([0xC0100000, 0x804800C, 0x804900C, 0x804B00C], .user 0xC0100000,
      [some 0x30200C, some 0x30200C, some 0x302004, some 0x302004]) := by
  decide +kernel

theorem sharedFrame_run : ∃ m, TlbSys.Run (layout 0x402000) TlbSys.Fresh boot4MB m ∧
    m.sys.k.heap = .user 0xC0100000 ∧ m.sys.live (.user 0xC0100000) 0x804900C = some 8000 ∧
    m.sys.live (.user 0xC0100000) 0x804B00C = some 9000 ∧
    (walk m.sys.k.ram m.sys.k.cr3 0x804900C = some 0x30200C ∧ walk m.sys.k.ram m.sys.k.cr3 0x804B00C = some 0x30200C) ∧
    walk m.sys.k.ram m.sys.k.cr3 0x8049004 = some 0x302004 ∧ walk m.sys.k.ram m.sys.k.cr3 0x804B004 = some 0x302004 := by
  obtain ⟨⟨p, a, b, c, m⟩, h, hfacts⟩ := Option.map_eq_some_iff.1 sharedFrame_facts
  simp only [sharedPlaces, Prod.mk.injEq, List.map_cons, List.cons.injEq] at hfacts
  obtain ⟨⟨hp, ha, hb, hc, -⟩, hheap, hwb, hwc, hcb, hcc, -⟩ := hfacts
  obtain ⟨⟨p, m1⟩, h1, h⟩ := Option.bind_eq_some_iff.1 h
  obtain ⟨m2, h2, h⟩ := Option.bind_eq_some_iff.1 h
  obtain ⟨⟨a, m3⟩, h3, h⟩ := Option.bind_eq_some_iff.1 h
  obtain ⟨⟨b, m4⟩, h4, h⟩ := Option.bind_eq_some_iff.1 h
  obtain ⟨⟨r, m5⟩, h5, h⟩ := Option.bind_eq_some_iff.1 h
  obtain ⟨⟨c, m6⟩, h6, h⟩ := Option.bind_eq_some_iff.1 h
  cases h
  have hgo : ∀ {m m' : TlbSys} {o : Op} {r : Nat}, TlbSys.Run (layout 0x402000) TlbSys.Fresh boot4MB m →
      m.tryHeap (.user p) o = some (r, m') → (∀ pf n, o ≠ .palloc pf n) →
      TlbSys.Run (layout 0x402000) TlbSys.Fresh boot4MB m' := fun hr ht ho => 
    hr.tryHeap (usedMem_le (by decide)) (by decide) (by decide) ht ho
  have hrun3 := hgo ((TlbSys.Run.first h1).trySwitch h2) h3 nofun
  have hrun6 := hgo (hgo (hgo hrun3 h4 nofun) h5 nofun) h6 nofun
  have hlive : m.sys.live (.user p) = Function.update (Function.update (Function.update (Function.update
      (m2.sys.live (.user p)) a (some 2000)) b (some 8000)) a none) c (some 9000) := by
    rw [(TlbSys.tryHeap_live h6).1 _ rfl (by omega), (TlbSys.tryHeap_live h5).2 _ rfl,
      (TlbSys.tryHeap_live h4).1 _ rfl (by omega), (TlbSys.tryHeap_live h3).1 _ rfl (by omega)]
  rw [hp, ha, hb, hc] at hlive
  refine ⟨m, hrun6, hheap, ?_, ?_, ⟨hwb, hwc⟩, hcb, hcc⟩
  · rw [hlive]
    rfl
  · rw [hlive]
    rfl

/-- The first bytes of two regions in use are the same byte of the memory. -/
theorem not_heap_client_contract : ∃ m p b c pa, TlbSys.Run (layout 0x402000) TlbSys.Fresh boot4MB m ∧
    m.sys.k.heap = .user p ∧ m.sys.live (.user p) b = some 8000 ∧ m.sys.live (.user p) c = some 9000 ∧ b ≠ c ∧
    walk m.sys.k.ram m.sys.k.cr3 b = some pa ∧ walk m.sys.k.ram m.sys.k.cr3 c = some pa := by
  obtain ⟨m, hrun, hheap, hb, hc, ⟨hwb, hwc⟩, -⟩ := sharedFrame_run
  exact ⟨m, _, _, _, _, hrun, hheap, hb, hc, by decide, hwb, hwc⟩

/-- No memory has the number of pages in `cnt` of each large arena: two of them have the same word for it. -/
theorem not_heap_representation : ∃ m p, TlbSys.Run (layout 0x402000) TlbSys.Fresh boot4MB m ∧ m.sys.k.heap = .user p ∧
    ¬ ∃ word : Nat → Nat, ∀ q size, m.sys.live (.user p) q = some size → 1024 < size →
      ∀ pa, walk m.sys.k.ram m.sys.k.cr3 (block2arena q + 4) = some pa → word pa = (size + arenaSize + 4095) / 4096 := by
  obtain ⟨m, hrun, hheap, hb, hc, -, hcb, hcc⟩ := sharedFrame_run
  refine ⟨m, _, hrun, hheap, ?_⟩
  rintro ⟨word, hword⟩
  have h2 : word 0x302004 = 2 := hword _ _ hb (by decide) _ hcb
  have h3 : word 0x302004 = 3 := hword _ _ hc (by decide) _ hcc
  rw [h2] at h3
  cases h3

/-! ## Nothing leaks -/

/-- A call of a kernel thread on its heap, or a thread switch. -/
def OnKernelHeap (m : TlbSys) (c : Call) : Prop := OnHeap c ∧ m.sys.k.heap = .kernel ∨ ∃ next, c = .switchTo next

/-- The kernel's mappings are those of `k0` and the pages of the arenas. -/
structure Since (k0 k : Kernel) (A : Nat → Option Arena) : Prop where
  kmap : ∀ v, ¬ ArenaPage A v → k.kmap v = k0.kmap v
  fresh : ∀ v, ArenaPage A v → k0.kmap v = none
  tab : k.tab = k0.tab

theorem Since.heapStep {l : Layout} {k0 k k' : Kernel} {D : Nat} {A A' : Nat → Option Arena} (h : Since k0 k A)
    (hs : HeapStep l k k' .kernelPool D A A') : Since k0 k' A' where
  kmap v hv := by
    by_cases hA : ArenaPage A v
    · rw [h.fresh v hA]
      exact hs.gone hA hv
    · rw [← h.kmap v hA]
      refine hs.map (.kernel v) fun w hw => ?_
      cases hw
      exact iff_of_false hA hv
  fresh v hv := by
    by_cases hA : ArenaPage A v
    · exact h.fresh v hA
    · rw [← h.kmap v hA]
      exact (hs.fresh hv).resolve_left hA
  tab := (hs.ktab rfl).trans h.tab

section Leaks
variable {l : Layout} {s s' : Sys} {arenas : Heap → Nat → Option Arena} {seq : Heap → Fin 7 → List Nat} {k0 : Kernel}

theorem TlbSys.Step.since (hl : l.Sized) (hb : l.BelowMain) {m m' : TlbSys} (hI : m.sys.Inv l arenas seq)
    (h : Since k0 m.sys.k (arenas .kernel)) {c : Call} (hs : m.Step l c m') (hc : OnKernelHeap m c) :
    ∃ arenas' seq', m'.sys.Inv l arenas' seq' ∧ Since k0 m'.sys.k (arenas' .kernel) := by
  cases hs with
  | call hsw hall hok _ =>
    obtain ⟨hon, hheap⟩ := hc.resolve_right fun ⟨next, he⟩ => hsw next he
    obtain ⟨A, q, hnew, hstep⟩ := hI.heapCall hl hon hall hok
    refine ⟨_, _, hnew, ?_⟩
    rw [hheap] at hstep ⊢
    rw [Function.update_self]
    exact h.heapStep hstep
  | switchTo esp hok _ =>
    obtain ⟨c, rfl, hnew⟩ := TlbSys.switch_inv hb hI hok esp
    exact ⟨arenas, seq, hnew, h.kmap, h.fresh, h.tab⟩

theorem TlbSys.Run.since (hl : l.Sized) (hb : l.BelowMain) {P : TlbSys → Call → Prop} (hP : ∀ m c, P m c → OnKernelHeap m c)
    {m m' : TlbSys} (hI : m.sys.Inv l arenas seq) (h : Since k0 m.sys.k (arenas .kernel)) (hr : TlbSys.Run l P m m') :
    ∃ arenas' seq', m'.sys.Inv l arenas' seq' ∧ Since k0 m'.sys.k (arenas' .kernel) := by
  induction hr with
  | refl => exact ⟨arenas, seq, hI, h⟩
  | tail _ hs ih =>
    obtain ⟨arenas', seq', hI', h'⟩ := ih
    obtain ⟨c, hstep, hc⟩ := hs
    exact hstep.since hl hb hI' h' (hP _ c hc)

theorem Sys.Inv.no_arena (hI : s.Inv l arenas seq) (hlive : ∀ p, s.live .kernel p = none) (a : Nat) :
    arenas .kernel a = none := by
  by_contra hne
  obtain ⟨x, hx⟩ := Option.ne_none_iff_exists'.1 hne
  obtain ⟨p, hp, -⟩ := (hI.heap .kernel trivial).busy hx
  exact hp (hlive p)

theorem Sys.Inv.no_arenaPage (hI : s.Inv l arenas seq) (hlive : ∀ p, s.live .kernel p = none) (v : Nat) :
    ¬ ArenaPage (arenas .kernel) v := by
  rintro ⟨a, x, ha, -⟩
  rw [hI.no_arena hlive a] at ha
  cases ha

/-- The marks of the kernel pool are determined by the mappings. -/
theorem kernel_marks {k k' : Kernel} (hi : PageInv l Stable k) (hi' : PageInv l Stable k') (hk : k'.kmap = k.kmap)
    (ht : k'.tab = k.tab) {i : Nat} (hlt : i < l.kernelFrames) :
    bitAt k'.low (l.frameBit .kernelPool i) = bitAt k.low (l.frameBit .kernelPool i) := by
  rw [Bool.eq_iff_iff, hi.frames.kernel.used_iff i hlt, hi'.frames.kernel.used_iff i hlt]
  refine exists_congr fun o => ?_
  cases o with
  | leaf vp => simp only [kown, hk]
  | tab p j => simp only [kown, ht]

end Leaks

/-- When kernel threads have freed all they got, the free lists are empty, and the bitmaps and the mappings of the
kernel are what they were. -/
theorem kernel_heap_leaks_nothing {allMem : Nat} (hused : usedMem ≤ allMem) (hmem : allMem < 0x1575F000) {low : Bytes}
    {D : Nat} (hD : StaticDescs D) {m m' : TlbSys}
    (hrun : TlbSys.Run (layout allMem) (TlbSys.Sound (layout allMem)) (TlbSys.init (boot allMem low D)) m)
    (hstart : ∀ p, m.sys.live .kernel p = none)
    (hheap : TlbSys.Run (layout allMem) (fun m c => OnKernelHeap m c ∧ m.Fresh c) m m')
    (hend : ∀ p, m'.sys.live .kernel p = none) :
    (∀ k < arenaSum,
      listEmpty (m'.sys.k.heapSpace .kernel) (freeList (descAt m'.sys.k.kernelArenaDescs k)) = true) ∧
    (∀ i < 8 * (m.sys.k.pool .kernelPool).poolBitmap.bytesLen,
      m'.sys.k.frameMark .kernelPool i = m.sys.k.frameMark .kernelPool i) ∧
    (∀ i < 8 * m.sys.k.kernelVaddr.bitmapBytesLen, m'.sys.k.kernelMark i = m.sys.k.kernelMark i) ∧
    m'.sys.k.kmap = m.sys.k.kmap ∧ m'.mmu.Coherent Kernel.frame IsAllocated := by
  obtain ⟨⟨arenas, seq, hI⟩, hright⟩ := TlbSys.boot_run_inv hused hmem hD hrun.fresh
  have hl : (layout allMem).Sized := Fits.sized ⟨hused, by omega⟩
  have hb := layout_belowMain hused hmem
  have hsince : Since m.sys.k m.sys.k (arenas .kernel) :=
    ⟨fun _ _ => rfl, fun v hv => absurd hv (hI.no_arenaPage hstart v), rfl⟩
  obtain ⟨arenas', seq', hI', h⟩ := hheap.since hl hb (fun _ _ hc => hc.1) hI hsince
  obtain ⟨-, hright'⟩ := hheap.inv hl hb (fun _ _ hc => hc.2) hI hright
  have hkmap : m'.sys.k.kmap = m.sys.k.kmap := funext fun v => h.kmap v (hI'.no_arenaPage hend v)
  refine ⟨fun k hk => ?_, fun i hi => ?_, fun i hi => ?_, hkmap, hright'.coherent hI'⟩
  · have hrep := (hI'.heap .kernel trivial).rep
    refine (listEmpty_isSeq (hrep.lists.isSeq ⟨k, hk⟩)).2 (List.eq_nil_iff_forall_not_mem.2 fun x hx => ?_)
    obtain ⟨a, i, ha, -⟩ := hrep.free.1 hx
    rw [hI'.no_arena hend a] at ha
    cases ha
  · rw [hI.page.config.bytesLen] at hi
    rw [frameMark_eq hI'.page.config, frameMark_eq hI.page.config]
    exact kernel_marks hI.page hI'.page hkmap h.tab hi
  · have hw := (window_kernel hI.page.config).2 hi
    have hw' : m'.sys.k.Window (layout allMem) (.kernel (0xC0100 + i)) := hw
    rw [kernelMark_eq hI'.page.config, kernelMark_eq hI.page.config, Bool.eq_iff_iff, hI.page.vbit_iff hw,
      hI'.page.vbit_iff hw']
    change m'.sys.k.kmap _ ≠ none ↔ m.sys.k.kmap _ ≠ none
    rw [hkmap]

/-- The small blocks, one more, and all of them freed. -/
def freedBlocks (m : TlbSys) : Option (List Nat × TlbSys) := do
  let (a, b, c, m4) ← smallBlocks m
  let (d, m5) ← m4.tryHeap .kernel (.sysMalloc 700)
  let (_, m6) ← m5.tryHeap .kernel (.sysFree c)
  let (_, m7) ← m6.tryHeap .kernel (.sysFree d)
  let (_, m8) ← m7.tryHeap .kernel (.sysFree b)
  return ([a, b, c, d], m8)

theorem freedBlocks_facts : (freedBlocks boot16MB).map Prod.fst =
    some [0xC010000C, 0xC010040C, 0xC010100C, 0xC010080C] := by
  decide +kernel

theorem TlbSys.Run.heapCall {m m' : TlbSys} {o : Op} {r : Nat} (hr : TlbSys.Run (layout 0x1000000)
    (fun m c => OnKernelHeap m c ∧ m.Fresh c) boot16MB m) (ht : m.tryHeap .kernel o = some (r, m'))
    (ho : ∀ pf n, o ≠ .palloc pf n) (hon : OnHeap o.call) :
    TlbSys.Run (layout 0x1000000) (fun m c => OnKernelHeap m c ∧ m.Fresh c) boot16MB m' := by
  obtain ⟨hcall, hheap, -⟩ := TlbSys.tryHeap_eq ht
  have hclean : TlbSys.Run (layout 0x1000000) TlbSys.Fresh boot16MB m := hr.mono fun _ _ hc => hc.2
  exact hr.tail ⟨o.call, TlbSys.tryCall_step hcall, .inl ⟨hon, hheap⟩,
    hclean.fresh_of_tryHeap (usedMem_le (by decide)) (by decide) (by decide) ht ho⟩

theorem freedBlocks_calls {m m8 : TlbSys} {blocks : List Nat} (h : freedBlocks m = some (blocks, m8)) :
    ∃ a b c d m4 m5 m6 m7 r s t, smallBlocks m = some (a, b, c, m4) ∧ blocks = [a, b, c, d] ∧
      m4.tryHeap .kernel (.sysMalloc 700) = some (d, m5) ∧ m5.tryHeap .kernel (.sysFree c) = some (r, m6) ∧
      m6.tryHeap .kernel (.sysFree d) = some (s, m7) ∧ m7.tryHeap .kernel (.sysFree b) = some (t, m8) := by
  obtain ⟨⟨a, b, c, m4⟩, hsmall, h⟩ := Option.bind_eq_some_iff.1 h
  obtain ⟨⟨d, m5⟩, h5, h⟩ := Option.bind_eq_some_iff.1 h
  obtain ⟨⟨r, m6⟩, h6, h⟩ := Option.bind_eq_some_iff.1 h
  obtain ⟨⟨s, m7⟩, h7, h⟩ := Option.bind_eq_some_iff.1 h
  obtain ⟨⟨t, m8⟩, h8, h⟩ := Option.bind_eq_some_iff.1 h
  cases h
  exact ⟨a, b, c, d, m4, m5, m6, m7, r, s, t, hsmall, rfl, h5, h6, h7, h8⟩

theorem freedBlocks_run : ∃ m, TlbSys.Run (layout 0x1000000) (fun m c => OnKernelHeap m c ∧ m.Fresh c) boot16MB m ∧
    ∀ p, m.sys.live .kernel p = none := by
  obtain ⟨⟨blocks, m⟩, h, hfacts⟩ := Option.map_eq_some_iff.1 freedBlocks_facts
  obtain ⟨a, b, c, d, m4, m5, m6, m7, r, s, t, hsmall, rfl, h5, h6, h7, h8⟩ := freedBlocks_calls h
  obtain ⟨m1, m2, m3, r', h1, h2, h3, h4⟩ := smallBlocks_calls hsmall
  simp only [List.cons.injEq] at hfacts
  obtain ⟨ha, hb, hc, hd, -⟩ := hfacts
  have hrun3 := ((TlbSys.Run.heapCall .refl h1 nofun trivial).heapCall h2 nofun trivial).heapCall h3 nofun trivial
  have hrun5 := (hrun3.heapCall h4 nofun trivial).heapCall h5 nofun trivial
  refine ⟨m, ((hrun5.heapCall h6 nofun trivial).heapCall h7 nofun trivial).heapCall h8 nofun trivial, ?_⟩
  rw [(TlbSys.tryHeap_live h8).2 _ rfl, (TlbSys.tryHeap_live h7).2 _ rfl, (TlbSys.tryHeap_live h6).2 _ rfl,
    (TlbSys.tryHeap_live h5).1 _ rfl (by omega), (TlbSys.tryHeap_live h4).2 _ rfl,
    (TlbSys.tryHeap_live h3).1 _ rfl (by omega), (TlbSys.tryHeap_live h2).1 _ rfl (by omega),
    (TlbSys.tryHeap_live h1).1 _ rfl (by omega)]
  have hnone : boot16MB.sys.live .kernel = fun _ => none := rfl
  rw [hnone]
  intro p
  simp only [Function.update_apply]
  split_ifs <;> rfl

theorem kernel_heap_leaks_nothing_blocks : ∃ m,
    TlbSys.Run (layout 0x1000000) (fun m c => OnKernelHeap m c ∧ m.Fresh c) boot16MB m ∧
    listEmpty (m.sys.k.heapSpace .kernel) (freeList (descAt m.sys.k.kernelArenaDescs 6)) = true ∧
    m.sys.k.kmap = boot16MB.sys.k.kmap := by
  obtain ⟨m, hrun, hlive⟩ := freedBlocks_run
  have h := kernel_heap_leaks_nothing (usedMem_le (by decide)) (by decide) (by decide) .refl (fun _ => rfl) hrun hlive
  exact ⟨m, hrun, h.1 6 (by decide), h.2.2.2.1⟩

/-! ## A stack pointer in the bitmap, on a machine with 343MB and 384KB -/

/-- The last bytes of the bitmap of the kernel heap are the first of the main thread's PCB. Between `sys_malloc` and
`sys_free` the thread is preempted with another stack pointer than before. -/
def savedPointer (m : TlbSys) : Option (Nat × TlbSys × TlbSys) := do
  let (p, m1) ← m.tryCall (.threadStart 31)
  let m2 ← m1.trySwitch p 0xC009EFD4
  let m3 ← m2.trySwitch Sched.mainPage 0xC0100F00
  let (a, m4) ← m3.tryHeap .kernel (.sysMalloc 2000)
  let m5 ← m4.trySwitch p 0xC009EF84
  let m6 ← m5.trySwitch Sched.mainPage 0xC0100F00
  let (_, m7) ← m6.tryHeap .kernel (.sysFree a)
  return (a, m3, m7)

def boot343MB : TlbSys := TlbSys.init (boot 0x15760000 (fun _ => 0#8) 0xC0010000)

theorem savedPointer_facts : (savedPointer boot343MB).map (fun x => (x.1, x.2.1.sys.k.kernelVaddr.bitmapBytesLen,
    x.2.1.sys.k.kernelMark 43684, x.2.2.sys.k.kernelMark 43684)) = some (0xC010100C, 5462, true, false) := by
  decide +kernel

theorem savedPointer_calls {m0 m m' : TlbSys} {a : Nat} (h : savedPointer m0 = some (a, m, m')) :
    ∃ p m1 m2 m4 m5 m6 r, m0.tryCall (.threadStart 31) = some (p, m1) ∧ m1.trySwitch p 0xC009EFD4 = some m2 ∧
      m2.trySwitch Sched.mainPage 0xC0100F00 = some m ∧ m.tryHeap .kernel (.sysMalloc 2000) = some (a, m4) ∧
      m4.trySwitch p 0xC009EF84 = some m5 ∧ m5.trySwitch Sched.mainPage 0xC0100F00 = some m6 ∧
      m6.tryHeap .kernel (.sysFree a) = some (r, m') := by
  obtain ⟨⟨p, m1⟩, h1, h⟩ := Option.bind_eq_some_iff.1 h
  obtain ⟨m2, h2, h⟩ := Option.bind_eq_some_iff.1 h
  obtain ⟨m3, h3, h⟩ := Option.bind_eq_some_iff.1 h
  obtain ⟨⟨a, m4⟩, h4, h⟩ := Option.bind_eq_some_iff.1 h
  obtain ⟨m5, h5, h⟩ := Option.bind_eq_some_iff.1 h
  obtain ⟨m6, h6, h⟩ := Option.bind_eq_some_iff.1 h
  obtain ⟨⟨r, m7⟩, h7, h⟩ := Option.bind_eq_some_iff.1 h
  cases h
  exact ⟨p, m1, m2, m4, m5, m6, r, h1, h2, h3, h4, h5, h6, h7⟩

/-- A block is got and freed, and another bit of the bitmap of the kernel heap has changed. -/
theorem not_kernel_heap_leaks_nothing : ∃ m m', TlbSys.Run (layout 0x15760000) (fun _ _ => True) boot343MB m ∧
    (∀ p, m.sys.live .kernel p = none) ∧ TlbSys.Run (layout 0x15760000) OnKernelHeap m m' ∧
    (∀ p, m'.sys.live .kernel p = none) ∧
    ∃ i < 8 * m.sys.k.kernelVaddr.bitmapBytesLen, m'.sys.k.kernelMark i ≠ m.sys.k.kernelMark i := by
  obtain ⟨⟨a, m, m'⟩, h, hfacts⟩ := Option.map_eq_some_iff.1 savedPointer_facts
  obtain ⟨p, m1, m2, m4, m5, m6, r, h1, h2, h3, h4, h5, h6, h7⟩ := savedPointer_calls h
  simp only [Prod.mk.injEq] at hfacts
  obtain ⟨ha, hlen, hold, hnew⟩ := hfacts
  have hlive0 : ∀ q, m.sys.live .kernel q = none := by
    rw [TlbSys.trySwitch_live h3, TlbSys.trySwitch_live h2, TlbSys.tryCall_threadStart h1]
    exact fun _ => rfl
  have hlive : ∀ q, m'.sys.live .kernel q = none := by
    rw [(TlbSys.tryHeap_live h7).2 _ rfl, TlbSys.trySwitch_live h6, TlbSys.trySwitch_live h5,
      (TlbSys.tryHeap_live h4).1 _ rfl (by omega)]
    intro q
    rw [Function.update_idem]
    by_cases hq : q = a
    · rw [hq, Function.update_self]
    · rw [Function.update_of_ne hq, hlive0]
  refine ⟨m, m', ?_, hlive0, ?_, hlive, 43684, by omega, by rw [hold, hnew]; decide⟩
  · exact ((Relation.ReflTransGen.single ⟨_, TlbSys.tryCall_step h1, trivial⟩).tail
      ⟨_, TlbSys.trySwitch_step h2, trivial⟩).tail ⟨_, TlbSys.trySwitch_step h3, trivial⟩
  · obtain ⟨hcall4, hheap4, -⟩ := TlbSys.tryHeap_eq h4
    obtain ⟨hcall7, hheap7, -⟩ := TlbSys.tryHeap_eq h7
    exact (((Relation.ReflTransGen.single ⟨_, TlbSys.tryCall_step hcall4, .inl ⟨trivial, hheap4⟩⟩).tail
      ⟨_, TlbSys.trySwitch_step h5, .inr ⟨_, rfl⟩⟩).tail ⟨_, TlbSys.trySwitch_step h6, .inr ⟨_, rfl⟩⟩).tail
      ⟨_, TlbSys.tryCall_step hcall7, .inl ⟨trivial, hheap7⟩⟩

end ElephantOS
