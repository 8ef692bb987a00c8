import ElephantOS.Memory.Translations

/-!
# Runs of the memory system with the TLB

The runs of `System`, on a machine with a TLB, with the stack pointer that `switch_to` stores in the PCB. The data of
`Kernel` is by virtual address, which is right as long as the TLB names the frames of the page tables (`pfree` does not
drop the translations of the pages it unmaps), no frame has two owners, and the bitmaps end below the PCB of the main
thread.

* `TlbSys` : the memory system, its TLB, and the frames the pages have had since CR3 was loaded;
* `TlbSys.Step`, `TlbSys.Run` : one call with any accesses, and runs whose calls meet a condition;
* `TlbSys.Fresh`, `TlbSys.KeepsFirst`, `TlbSys.Sound` : the conditions that no page is given another frame before the
  next load of CR3, and no frame a second page;
* `TlbSys.Run.inv`, `TlbSys.Right.coherent` : in runs of these calls the TLB is right.
-/

namespace ElephantOS
open Kernel Sys

/-- The memory of the bitmaps after `switch_to` has stored ESP in `self_kernel_stack`, the first word of the current
PCB. The main thread's PCB is in that memory, those of the others are in pages of the kernel heap. -/
def Kernel.saveEsp (k : Kernel) (esp : Nat) : Bytes := fun a =>
  if k.current = Sched.mainPage ∧ Sched.mainPage ≤ a ∧ a < Sched.mainPage + 4 then
    BitVec.ofNat 8 (esp / 256 ^ (a - Sched.mainPage))
  else k.low a

structure TlbSys where
  sys : Sys
  /-- the translations cached for the pages of the allocators; the other pages keep their frames -/
  tlb : Nat → Option Nat
  /-- the frames that the pages of the address space have had since CR3 was loaded -/
  had : Nat → Option Nat

namespace TlbSys

/-- After boot no page of the kernel heap has been accessed. -/
def init (k : Kernel) : TlbSys := ⟨Sys.init k, fun _ => none, fun _ => none⟩

def mmu (m : TlbSys) : Tlb.Mmu Kernel Nat Nat := ⟨m.sys.k, m.tlb⟩

/-- One call. Meanwhile pages are accessed, at any time, and the translations from before or after the call are cached,
or dropped. A switch loads CR3. -/
inductive Step (l : Layout) (m : TlbSys) : Call → TlbSys → Prop where
  | call {c : Call} {r : Nat} {k : Kernel} {tlb : Nat → Option Nat} (hsw : ∀ next, c ≠ .switchTo next)
      (hc : m.sys.Allowed l c) (hok : c.exec m.sys.k = .ok (r, k))
      (htlb : ∀ vp f, tlb vp = some f → m.tlb vp = some f ∨ m.sys.k.view vp = some f ∨ k.view vp = some f) :
      Step l m c ⟨m.sys.after c r k, tlb, fun vp => (m.had vp).or (k.view vp)⟩
  | switchTo {next : Nat} {k : Kernel} {tlb : Nat → Option Nat} (esp : Nat) (hok : m.sys.k.switchTo next = .ok k)
      (htlb : ∀ vp f, tlb vp = some f → k.view vp = some f) :
      Step l m (.switchTo next) ⟨m.sys.after (.switchTo next) 0 { k with low := m.sys.k.saveEsp esp }, tlb, k.view⟩

def Run (l : Layout) (P : TlbSys → Call → Prop) : TlbSys → TlbSys → Prop :=
  Relation.ReflTransGen fun m m' => ∃ c, m.Step l c m' ∧ P m c

/-- The call gives no page another frame than one the page has had since CR3 was loaded. -/
def Fresh (m : TlbSys) : Call → Prop
  | .switchTo _ => True
  | c => ∀ r k, c.exec m.sys.k = .ok (r, k) → ∀ vp f g, m.had vp = some f → k.view vp = some g → g = f

/-- `ReturnOnePhysicPage` clears a bit by way of the kernel pool for the first frame of the user pool, which is the right
one if the bitmaps meet at a whole byte. Else the call leaves the page in that frame there. -/
def KeepsFirst (l : Layout) (m : TlbSys) (c : Call) : Prop :=
  l.kernelFreePages % 8 = 0 ∨ ∀ r k, c.exec m.sys.k = .ok (r, k) → ∀ p vp, m.sys.k.umap p vp = some l.userStart →
    k.umap p vp = some l.userStart

/-- A call after which the data is by virtual address if it was before: no two pages come to have one frame, and no page
has another in the TLB. -/
def Sound (l : Layout) (m : TlbSys) (c : Call) : Prop := m.Fresh c ∧ m.KeepsFirst l c

end TlbSys

/-! ## The bitmaps below the PCB of the main thread -/

def Layout.BelowMain (l : Layout) : Prop :=
  memBitmapBase + 2 * l.kernelBitmapLength + l.userBitmapLength < Sched.mainPage

theorem layout_belowMain {allMem : Nat} (hused : usedMem ≤ allMem) (hmem : allMem < 0x1575F000) :
    (layout allMem).BelowMain := by
  unfold Layout.BelowMain Layout.kernelBitmapLength Layout.userBitmapLength layout memBitmapBase Sched.mainPage
  rw [usedMem_eq] at *
  unfold sub32
  dsimp only
  omega

section SaveEsp
variable {l : Layout} {s : Kernel}

theorem bitAt_saveEsp (s : Kernel) (esp : Nat) {n : Nat} (h : n < 8 * Sched.mainPage) :
    bitAt (s.saveEsp esp) n = bitAt s.low n := by
  unfold bitAt saveEsp
  rw [if_neg (by omega)]

/-- A store to the PCB of the main thread leaves the bitmaps alone. -/
theorem Kernel.PageInv.saveEsp (hb : l.BelowMain) (hi : PageInv l Stable s) (x : Kernel) (hx : x.low = s.low) (esp : Nat) :
    PageInv l Stable { s with low := x.saveEsp esp } := by
  have hbit : ∀ n, n < 8 * Sched.mainPage → bitAt (x.saveEsp esp) n = bitAt s.low n := by
    intro n hn
    rw [bitAt_saveEsp x esp hn, hx]
  have hmain : 8 * memBitmapBase + 2 * l.kernelFrames + l.userFrames < 8 * Sched.mainPage := by
    unfold Layout.BelowMain at hb
    unfold Layout.kernelFrames Layout.userFrames
    omega
  have hrest : SameRest s { s with low := x.saveEsp esp } := rfl
  have hpage : ∀ vp, vp ≤ 0xC0100 + l.kernelFrames → bitAt (x.saveEsp esp) (l.pageBit vp) = bitAt s.low (l.pageBit vp) := by
    intro vp hvp
    apply hbit
    unfold Layout.pageBit
    omega
  apply hi.of_bits hrest rfl
  · intro pf i hlt
    apply hbit
    cases pf with
    | kernelPool =>
      change i < l.kernelFrames at hlt
      change 8 * memBitmapBase + i < _
      omega
    | userPool =>
      change i < l.userFrames at hlt
      change 8 * memBitmapBase + l.kernelFrames + i < _
      omega
  · obtain ⟨hmap, -⟩ := map_eq_of_ram hrest rfl
    constructor
    · intro pg hpg
      rw [hmap] at hpg
      obtain ⟨hr, hv⟩ := hi.virt.mapped hpg
      refine ⟨hrest.reach.2 hr, ?_⟩
      cases pg with
      | kernel vp => exact (hpage vp hr.2.1).trans hv
      | user p vp => exact hv
    · intro pg hw hv
      rw [hmap]
      refine hi.virt.set (hrest.window.1 hw) ?_
      cases pg with
      | kernel vp => exact (hpage vp (Nat.le_of_lt hw.2)).symm.trans hv
      | user p vp => exact hv

/-- What the memory of the bitmaps does not say about. -/
theorem Sys.Inv.withLow {s : Sys} {arenas : Heap → Nat → Option Arena} {seq : Heap → Fin 7 → List Nat}
    (hI : s.Inv l arenas seq) {low : Bytes} (hi : PageInv l Stable { s.k with low := low }) :
    Sys.Inv l ⟨{ s.k with low := low }, s.live, s.client⟩ arenas seq := by
  have hrest : SameRest s.k { s.k with low := low } := rfl
  obtain ⟨hmap, -⟩ := map_eq_of_ram hrest rfl
  exact {
    page := hi
    unlocked := fun pf => hI.unlocked pf
    descs := hI.descs
    main := hI.main
    heap := fun h hh => (hI.heap h hh).frame rfl (by cases h <;> rfl) (fun w _ => by cases h <;> rfl)
      (fun v hv => by rw [hmap]; exact (hI.heap h hh).mapped hv) (fun v hv => (hI.heap h hh).apart hv)
      fun v hv hk => (hI.heap h hh).plain hv hk
    noHeap := fun h hh => hI.noHeap h hh
    client := fun hpg => by rw [hmap]; exact hI.client hpg
    clientPlain := fun hv => hI.clientPlain hv }

end SaveEsp

/-! ## What a run keeps -/

namespace TlbSys
variable {l : Layout} {m m' : TlbSys} {arenas : Heap → Nat → Option Arena} {seq : Heap → Fin 7 → List Nat}
  {P : TlbSys → Call → Prop}

/-- The pages are where they have been since CR3 was loaded, and so are the translations in the TLB. -/
structure Right (m : TlbSys) : Prop where
  view : ∀ {vp f}, m.sys.k.view vp = some f → m.had vp = some f
  tlb : ∀ {vp f}, m.tlb vp = some f → m.had vp = some f

/-- The TLB has no other frame than `k` for a page that is allocated in `k`. -/
def Agrees (m : TlbSys) (k : Kernel) : Prop := ∀ vp f g, m.tlb vp = some f → k.view vp = some g → f = g

theorem Right.agrees (h : m.Right) : m.Agrees m.sys.k := by
  intro vp f g hf hg
  have hhad := h.view hg
  rw [h.tlb hf] at hhad
  exact Option.some.inj hhad

theorem Right.coherent (h : m.Right) (hI : m.sys.Inv l arenas seq) : m.mmu.Coherent Kernel.frame IsAllocated := by
  intro vp hvp
  apply (Tlb.Mmu.used_eq_iff (m := m.mmu)).2
  obtain ⟨g, hg⟩ := Option.ne_none_iff_exists'.1 hvp
  have hframe : m.sys.k.frame vp = some g := (hI.page.frame_eq hvp).trans hg
  change m.tlb vp = none ∨ m.tlb vp = m.sys.k.frame vp
  cases ht : m.tlb vp with
  | none => exact .inl rfl
  | some f => exact .inr (by rw [hframe, h.agrees vp f g ht hg])

theorem Fresh.eq {c : Call} (hf : m.Fresh c) (hsw : ∀ next, c ≠ .switchTo next) {r : Nat} {k : Kernel}
    (hok : c.exec m.sys.k = .ok (r, k)) {vp f g : Nat} (hhad : m.had vp = some f) (hv : k.view vp = some g) : g = f := by
  cases c with
  | switchTo next => exact absurd rfl (hsw next)
  | _ => exact hf r k hok vp f g hhad hv

/-- What `sys_malloc` allocates has no translation to another frame in the TLB. -/
theorem Right.malloc (h : m.Right) {size p : Nat} {k : Kernel} (hf : m.Fresh (.sysMalloc size))
    (hok : m.sys.k.sysMalloc size = .ok (p, k)) : m.Agrees k := fun vp f g ht hg => (hf p k hok vp f g (h.tlb ht) hg).symm

/-- A switch is one of the memory system, and a store to the PCB of the main thread. -/
theorem switch_inv (hb : l.BelowMain) (hI : m.sys.Inv l arenas seq) {next : Nat} {k : Kernel}
    (hok : m.sys.k.switchTo next = .ok k) (esp : Nat) : ∃ c, k = { m.sys.k with cr3 := c, current := next } ∧
      Sys.Inv l ⟨{ k with low := m.sys.k.saveEsp esp }, m.sys.live, m.sys.client⟩ arenas seq := by
  have hcall : (Call.switchTo next).exec m.sys.k = .ok (0, k) := by
    show (do return (0, ← m.sys.k.switchTo next) : Except Panic (Nat × Kernel)) = _
    rw [hok]
    rfl
  obtain ⟨c, rfl, hi⟩ := hI.switch hcall
  exact ⟨c, rfl, (hI.switched hi).withLow (hi.saveEsp hb m.sys.k rfl esp)⟩

theorem Step.sysInv (hl : l.Sized) (hb : l.BelowMain) (hI : m.sys.Inv l arenas seq) {c : Call} (hs : m.Step l c m') :
    ∃ arenas' seq', m'.sys.Inv l arenas' seq' := by
  cases hs with
  | call _ hc hok _ => exact (Sys.Step.call _ hc hok).inv hl hI
  | switchTo esp hok _ =>
    obtain ⟨_, -, hnew⟩ := switch_inv hb hI hok esp
    exact ⟨_, _, hnew⟩

theorem Step.right (h : m.Right) {c : Call} (hs : m.Step l c m') (hf : m.Fresh c) : m'.Right := by
  cases hs with
  | @call c r k tlb hsw hc hok htlb =>
    have hview : ∀ {vp f}, k.view vp = some f → (m.had vp).or (k.view vp) = some f := by
      intro vp f hv
      cases hhad : m.had vp with
      | none => rw [Option.none_or, hv]
      | some g => rw [Option.some_or, hf.eq hsw hok hhad hv]
    have hold : ∀ {vp f}, m.had vp = some f → (m.had vp).or (k.view vp) = some f := by
      intro vp f hhad
      rw [hhad, Option.some_or]
    refine ⟨hview, ?_⟩
    intro vp f ht
    rcases htlb vp f ht with h1 | h1 | h1
    · exact hold (h.tlb h1)
    · exact hold (h.view h1)
    · exact hview h1
  | @switchTo next k tlb esp hok htlb =>
    -- CR3 was loaded: nothing is known about the pages but where they are
    have hrest : SameRest k { k with low := m.sys.k.saveEsp esp } := rfl
    refine ⟨?_, fun {vp f} ht => htlb vp f ht⟩
    intro vp f hv
    exact (congrFun (hrest.view rfl) vp).symm.trans hv

theorem Run.mono {Q : TlbSys → Call → Prop} (h : ∀ m c, P m c → Q m c) (hr : Run l P m m') : Run l Q m m' := by
  induction hr with
  | refl => exact .refl
  | tail _ hs ih =>
    obtain ⟨c, hstep, hc⟩ := hs
    exact ih.tail ⟨c, hstep, h _ c hc⟩

theorem Run.fresh (hr : Run l (Sound l) m m') : Run l Fresh m m' := hr.mono fun _ _ h => h.1

theorem Run.sound (h8 : l.kernelFreePages % 8 = 0) (hr : Run l Fresh m m') : Run l (Sound l) m m' :=
  hr.mono fun _ _ h => ⟨h, .inl h8⟩

theorem Run.inv (hl : l.Sized) (hb : l.BelowMain) (hP : ∀ m c, P m c → m.Fresh c) (hI : m.sys.Inv l arenas seq)
    (h : m.Right) (hr : Run l P m m') : (∃ arenas' seq', m'.sys.Inv l arenas' seq') ∧ m'.Right := by
  induction hr with
  | refl => exact ⟨⟨arenas, seq, hI⟩, h⟩
  | tail _ hs ih =>
    obtain ⟨⟨arenas', seq', hI'⟩, h'⟩ := ih
    obtain ⟨c, hstep, hc⟩ := hs
    exact ⟨hstep.sysInv hl hb hI', hstep.right h' (hP _ c hc)⟩

theorem boot_run_inv {allMem : Nat} (hused : usedMem ≤ allMem) (hmem : allMem < 0x1575F000) {low : Bytes} {D : Nat}
    (hD : StaticDescs D) (hr : Run (layout allMem) Fresh (init (boot allMem low D)) m) :
    (∃ arenas seq, m.sys.Inv (layout allMem) arenas seq) ∧ m.Right := by
  have hf : Fits allMem := ⟨hused, by omega⟩
  refine hr.inv hf.sized (layout_belowMain hused hmem) (fun _ _ h => h) (init_inv hf low hD) ⟨?_, ?_⟩
  · intro vp f hv
    have hnone : (boot allMem low D).view vp = none := boot_map allMem low D _
    exact absurd (hnone.symm.trans hv) (Option.some_ne_none f).symm
  · intro vp f hv
    cases hv

/-! ## Carrying out calls -/

section Try

/-- A call other than a thread switch. -/
def tryCall (m : TlbSys) (c : Call) : Option (Nat × TlbSys) :=
  match c with
  | .switchTo _ => none
  | c => (m.sys.tryCall c).map fun x => (x.1, ⟨x.2, fun _ => none, fun vp => (m.had vp).or (x.2.k.view vp)⟩)

def trySwitch (m : TlbSys) (next esp : Nat) : Option TlbSys :=
  match m.sys.k.switchTo next with
  | .ok k => some ⟨m.sys.after (.switchTo next) 0 { k with low := m.sys.k.saveEsp esp }, fun _ => none, k.view⟩
  | .error _ => none

theorem tryCall_eq {c : Call} {r : Nat} (h : m.tryCall c = some (r, m')) :
    ((∀ next, c ≠ .switchTo next) ∧ m.sys.allowed c = true) ∧ ∃ k, c.exec m.sys.k = .ok (r, k) ∧
      m' = ⟨m.sys.after c r k, fun _ => none, fun vp => (m.had vp).or (k.view vp)⟩ := by
  unfold tryCall at h
  split at h
  · cases h
  · rename_i hsw
    obtain ⟨⟨r', s'⟩, hcall, heq⟩ := Option.map_eq_some_iff.1 h
    cases heq
    obtain ⟨hall, k, hok, rfl⟩ := Sys.tryCall_eq hcall
    exact ⟨⟨hsw, hall⟩, k, hok, rfl⟩

theorem tryCall_step {c : Call} {r : Nat} (h : m.tryCall c = some (r, m')) : m.Step l c m' := by
  obtain ⟨⟨hsw, hall⟩, k, hok, rfl⟩ := tryCall_eq h
  exact .call hsw (allowed_of_check hall) hok fun vp f hf => nomatch hf

theorem trySwitch_step {next esp : Nat} (h : m.trySwitch next esp = some m') : m.Step l (.switchTo next) m' := by
  unfold trySwitch at h
  split at h
  · rename_i k hok
    cases h
    exact .switchTo esp hok fun vp f hf => nomatch hf
  · cases h

theorem trySwitch_live {next esp : Nat} (h : m.trySwitch next esp = some m') : m'.sys.live = m.sys.live := by
  unfold trySwitch at h
  split at h
  · cases h
    rfl
  · cases h

theorem tryCall_threadStart {priority : Int} {r : Nat} (h : m.tryCall (.threadStart priority) = some (r, m')) :
    m'.sys.live = m.sys.live := by
  obtain ⟨-, k, -, rfl⟩ := tryCall_eq h
  rfl

/-- The pages whose entries the call writes have the frames they had, or none. -/
def freshEntries (m : TlbSys) (o : Op) (k : Kernel) : Bool :=
  (paging (o.exec m.sys.k).log).all fun
    | .entry vp _ => m.had vp = none ∨ k.view vp = none ∨ m.had vp = k.view vp
    | _ => true

theorem fresh_of_entries (hl : l.Sized) (hI : m.sys.Inv l arenas seq) (h : m.Right) {o : Op}
    (ho : ∀ pf n, o ≠ .palloc pf n) (hall : m.sys.Allowed l o.call) {r : Nat} {k : Kernel}
    (hok : o.call.exec m.sys.k = .ok (r, k)) (hcheck : m.freshEntries o k = true) : m.Fresh o.call := by
  have hres : (o.exec m.sys.k).result = .ok (r, k) := (o.result_call m.sys.k ho).trans hok
  have hmoved : ∀ r' k', o.call.exec m.sys.k = .ok (r', k') → ∀ vp f g, m.had vp = some f → k'.view vp = some g →
      g = f := by
    intro r' k' hok' vp f g hhad hv
    rw [hok] at hok'
    cases hok'
    by_cases hmem : ∃ k1, .entry vp k1 ∈ paging (o.exec m.sys.k).log
    · obtain ⟨k1, hk1⟩ := hmem
      have hor := of_decide_eq_true (List.all_eq_true.1 hcheck _ hk1)
      simpa [hhad, hv, eq_comm] using hor
    · have hw := ((o.follows hl hI hall).of_ok hres).view_other fun k1 hk1 => hmem ⟨k1, hk1⟩
      have hhad' := h.view (hw.symm.trans hv)
      rw [hhad] at hhad'
      exact (Option.some.inj hhad').symm
  cases o with
  | palloc pf n => exact absurd rfl (ho pf n)
  | _ => exact hmoved

/-- A call on the heap `h` that gives no page another frame. -/
def tryHeap (m : TlbSys) (h : Heap) (o : Op) : Option (Nat × TlbSys) :=
  match m.tryCall o.call with
  | some (r, m') => if m.sys.k.heap = h ∧ m.freshEntries o m'.sys.k = true then some (r, m') else none
  | none => none

theorem tryHeap_eq {h : Heap} {o : Op} {r : Nat} (ht : m.tryHeap h o = some (r, m')) :
    m.tryCall o.call = some (r, m') ∧ m.sys.k.heap = h ∧ m.freshEntries o m'.sys.k = true := by
  unfold tryHeap at ht
  split at ht
  · rename_i r1 m1 hcall
    split at ht
    · rename_i hcond
      cases ht
      exact ⟨hcall, hcond.1, hcond.2⟩
    · cases ht
  · cases ht

/-- `sys_malloc` has its result in use, `sys_free` no more. -/
theorem tryHeap_live {h : Heap} {o : Op} {r : Nat} (ht : m.tryHeap h o = some (r, m')) :
    (∀ size, o = .sysMalloc size → r ≠ 0 → m'.sys.live h = Function.update (m.sys.live h) r (some size)) ∧
    ∀ p, o = .sysFree p → m'.sys.live h = Function.update (m.sys.live h) p none := by
  obtain ⟨hcall, rfl, -⟩ := tryHeap_eq ht
  obtain ⟨-, k, -, rfl⟩ := tryCall_eq hcall
  refine ⟨?_, ?_⟩
  · rintro size rfl hr
    show (if r = 0 then m.sys.live else m.sys.setLive r (some size)) _ = _
    rw [if_neg hr]
    exact Function.update_self ..
  · rintro p rfl
    exact Function.update_self ..

section Boot
variable {allMem D : Nat} {low : Bytes}

theorem Run.fresh_of_tryHeap (hused : usedMem ≤ allMem) (hmem : allMem < 0x1575F000) (hD : StaticDescs D)
    (hr : Run (layout allMem) Fresh (init (boot allMem low D)) m) {h : Heap} {o : Op} {r : Nat}
    (ht : m.tryHeap h o = some (r, m')) (ho : ∀ pf n, o ≠ .palloc pf n) : m.Fresh o.call := by
  obtain ⟨hcall, -, hcheck⟩ := tryHeap_eq ht
  obtain ⟨⟨arenas, seq, hI⟩, hright⟩ := boot_run_inv hused hmem hD hr
  obtain ⟨⟨-, hall⟩, k, hok, hm'⟩ := tryCall_eq hcall
  rw [hm'] at hcheck
  exact fresh_of_entries (Fits.sized ⟨hused, by omega⟩) hI hright ho (allowed_of_check hall) hok hcheck

theorem Run.tryHeap (hused : usedMem ≤ allMem) (hmem : allMem < 0x1575F000) (hD : StaticDescs D)
    (hr : Run (layout allMem) Fresh (init (boot allMem low D)) m) {h : Heap} {o : Op} {r : Nat}
    (ht : m.tryHeap h o = some (r, m')) (ho : ∀ pf n, o ≠ .palloc pf n) : Run (layout allMem) Fresh (init (boot allMem low D)) m' :=
  hr.tail ⟨o.call, tryCall_step (tryHeap_eq ht).1, hr.fresh_of_tryHeap hused hmem hD ht ho⟩

/-- The first call after boot. -/
theorem Run.first {c : Call} {r : Nat} (ht : (init (boot allMem low D)).tryCall c = some (r, m)) :
    Run (layout allMem) Fresh (init (boot allMem low D)) m := by
  refine .single ⟨c, tryCall_step ht, ?_⟩
  unfold Fresh
  split
  · trivial
  · intro r' k' _ vp f g hhad
    cases hhad

theorem Run.trySwitch (hr : Run (layout allMem) Fresh (init (boot allMem low D)) m) {next esp : Nat}
    (ht : m.trySwitch next esp = some m') : Run (layout allMem) Fresh (init (boot allMem low D)) m' :=
  hr.tail ⟨.switchTo next, trySwitch_step ht, trivial⟩

end Boot

end Try

end TlbSys

end ElephantOS
