import ElephantOS.Memory.HeapCalls

/-!
# Runs of the memory system

The calls that threads and processes make, in any order, each atomic. Two things are kept beside the state of
the kernel that the code does not keep: which results of `sys_malloc` are in use, by heap, and which pages
were got from `kpalloc`, `upalloc` and `VirtualAddrMapping`.

* `Call`, `Call.exec`, `Call.Allowed` : the calls, and what callers keep to;
* `Sys.Step`, `Sys.Run` : one call that returns, and any number of them;
* `Sys.Inv` : the invariant of the whole system;
* `Step.inv`, `Run.inv` : it is kept.

The results about runs from `boot allMem` are stated for all sizes for which nothing wraps around. The machines among
them on which the bitmaps end below the main thread's PCB are those with `allMem < 0x15760000`; on larger ones `boot`
is not the state of the machine (`layout_sound_iff`).
-/

namespace ElephantOS
open Kernel

/-- A heap: the kernel's, or that of a process. -/
inductive Heap where
  | kernel
  | user (p : Nat)
  deriving DecidableEq

namespace Heap

def page : Heap → Nat → Page
  | .kernel, vp => .kernel vp
  | .user p, vp => .user p vp

def pool : Heap → PoolFlags
  | .kernel => .kernelPool
  | .user _ => .userPool

theorem page_inj {h h' : Heap} {v v' : Nat} (he : h.page v = h'.page v') : h = h' ∧ v = v' := by
  cases h with
  | kernel =>
    cases h' with
    | kernel =>
      cases he
      exact ⟨rfl, rfl⟩
    | user q => cases he
  | user p =>
    cases h' with
    | kernel => cases he
    | user q =>
      cases he
      exact ⟨rfl, rfl⟩

end Heap

namespace Kernel

def heap (k : Kernel) : Heap :=
  match k.pcb k.current with
  | some t => if t.pdeAddr = 0 then .kernel else .user k.current
  | none => .kernel

def heapDescs (k : Kernel) : Heap → Nat
  | .kernel => k.kernelArenaDescs
  | .user p => userArenaDescs p

def heapSpace (k : Kernel) : Heap → Space
  | .kernel => ⟨fun _ => 0, k.kmem⟩
  | .user p => ⟨k.umem p, k.kmem⟩

def HasHeap (k : Kernel) : Heap → Prop
  | .kernel => True
  | .user p => k.IsProcess p

end Kernel

/-- The calls of the memory system, and a client's store. -/
inductive Call where
  | execProcess
  | threadStart (priority : Int)
  | switchTo (next : Nat)
  | kpalloc (pageCnt : Nat)
  | upalloc (pageCnt : Nat)
  | virtualAddrMapping (pf : PoolFlags) (vaddr : Nat)
  | pfree (pf : PoolFlags) (vaddrStart pageCnt : Nat)
  | sysMalloc (size : Nat)
  | sysFree (p : Nat)
  | write (a v : Nat)

/-- What a call returns, 0 where the function is `void`. -/
def Call.exec : Call → Kernel → Except Panic (Nat × Kernel)
  | .execProcess, k => k.execProcess
  | .threadStart priority, k => k.threadStart priority
  | .switchTo next, k => do return (0, ← k.switchTo next)
  | .kpalloc n, k => k.kpalloc n
  | .upalloc n, k => k.upalloc n
  | .virtualAddrMapping pf v, k => k.virtualAddrMapping pf v
  | .pfree pf v n, k => do return (0, ← k.pfree pf v n)
  | .sysMalloc size, k => k.sysMalloc size
  | .sysFree p, k => do return (0, ← k.sysFree p)
  | .write a v, k => .ok (0, k.setSpace (k.space.writeByte a v))

structure Sys where
  k : Kernel
  live : Heap → Nat → Option Nat
  client : Page → Prop

namespace Sys

/-- What the callers keep to: at least one page is asked for, fixed addresses are in the caller's window (and
below the page tables), what is freed was got and is not freed yet, stores go to live regions. -/
def Allowed (l : Layout) (s : Sys) : Call → Prop
  | .kpalloc n => 1 ≤ n
  | .upalloc n => 1 ≤ n
  | .virtualAddrMapping pf v => v < 2 ^ 32 ∧ s.k.Window l (s.k.pageOf pf (v / 4096)) ∧ v / 4096 < 0xFFC00
  | .pfree pf v n => 1 ≤ n ∧ v % 4096 = 0 ∧ ∀ i < n, s.client (s.k.pageOf pf (v / 4096 + i))
  | .sysFree p => p = 0 ∨ s.live s.k.heap p ≠ none
  | .write a _ => ∃ p size, s.live s.k.heap p = some size ∧ p ≤ a ∧ a < p + size
  | _ => True

def setLive (s : Sys) (p : Nat) (x : Option Nat) : Heap → Nat → Option Nat :=
  Function.update s.live s.k.heap (Function.update (s.live s.k.heap) p x)

/-- The state after a call by the thread of `s` that returned `r` in the kernel state `k`. -/
def after (s : Sys) (c : Call) (r : Nat) (k : Kernel) : Sys where
  k := k
  live := match c with
    | .sysMalloc size => if r = 0 then s.live else s.setLive r (some size)
    | .sysFree p => s.setLive p none
    | _ => s.live
  client := match c with
    | .kpalloc n => fun pg => s.client pg ∨ r ≠ 0 ∧ s.k.InRange .kernelPool (r / 4096) n pg
    | .upalloc n => fun pg => s.client pg ∨ r ≠ 0 ∧ s.k.InRange .userPool (r / 4096) n pg
    | .virtualAddrMapping pf v => fun pg => s.client pg ∨ r ≠ 0 ∧ s.k.InRange pf (v / 4096) 1 pg
    | .pfree pf v n => fun pg => s.client pg ∧ ¬ s.k.InRange pf (v / 4096) n pg
    | _ => s.client

/-- One call that returns. A failed `ASSERT` ends the run. -/
inductive Step (l : Layout) (s : Sys) : Sys → Prop where
  | call (c : Call) {r : Nat} {k : Kernel} (hc : s.Allowed l c) (hok : c.exec s.k = .ok (r, k)) : Step l s (s.after c r k)

def Run (l : Layout) : Sys → Sys → Prop := Relation.ReflTransGen (Step l)

def init (k : Kernel) : Sys := ⟨k, fun _ _ => none, fun _ => False⟩

/-! ## Carrying out calls -/

/-- Of what the callers keep to, what can be computed. -/
def allowed (s : Sys) : Call → Bool
  | .execProcess => true
  | .threadStart _ => true
  | .switchTo _ => true
  | .kpalloc n => 1 ≤ n
  | .upalloc n => 1 ≤ n
  | .sysMalloc _ => true
  | .sysFree p => p = 0 ∨ s.live s.k.heap p ≠ none
  | _ => false

def tryCall (s : Sys) (c : Call) : Option (Nat × Sys) :=
  if s.allowed c then
    match c.exec s.k with
    | .ok (r, k) => some (r, s.after c r k)
    | .error _ => none
  else none

theorem tryCall_eq {s s' : Sys} {c : Call} {r : Nat} (h : s.tryCall c = some (r, s')) : s.allowed c = true ∧
    ∃ k, c.exec s.k = .ok (r, k) ∧ s' = s.after c r k := by
  unfold tryCall at h
  split at h
  · rename_i hall
    split at h
    · rename_i r' k hok
      cases h
      exact ⟨hall, k, hok, rfl⟩
    · cases h
  · cases h

theorem allowed_of_check {l : Layout} {s : Sys} {c : Call} (h : s.allowed c = true) : s.Allowed l c := by
  cases c with
  | execProcess => trivial
  | threadStart priority => trivial
  | switchTo next => trivial
  | kpalloc n =>
    have hn : 1 ≤ n := of_decide_eq_true h
    exact hn
  | upalloc n =>
    have hn : 1 ≤ n := of_decide_eq_true h
    exact hn
  | sysMalloc size => trivial
  | sysFree p =>
    have hp : p = 0 ∨ s.live s.k.heap p ≠ none := of_decide_eq_true h
    exact hp
  | _ => cases h

theorem tryCall_step {l : Layout} {s s' : Sys} {c : Call} {r : Nat} (h : s.tryCall c = some (r, s')) : Step l s s' := by
  obtain ⟨hall, k, hok, rfl⟩ := tryCall_eq h
  exact .call c (allowed_of_check hall) hok

/-! ## The invariant -/

/-- The heap `h` with its arenas and free lists. -/
structure HeapInv (s : Sys) (h : Heap) (arenas : Nat → Option Arena) (seq : Fin 7 → List Nat) : Prop where
  rep : HeapRep (s.k.heapSpace h) (s.k.heapDescs h) arenas (s.live h) seq
  counted : Counted (s.k.heapSpace h) arenas (s.live h)
  busy : Busy arenas (s.live h)
  mapped : ∀ {v}, ArenaPage arenas v → s.k.map (h.page v) ≠ none
  apart : ∀ {v}, ArenaPage arenas v → ¬ s.client (h.page v)
  plain : ∀ {v}, ArenaPage arenas v → h = .kernel → ¬ s.k.SystemPage v

structure Inv (l : Layout) (s : Sys) (arenas : Heap → Nat → Option Arena) (seq : Heap → Fin 7 → List Nat) : Prop where
  page : PageInv l Stable s.k
  unlocked : s.k.Unlocked
  descs : 0xC0000000 ≤ s.k.kernelArenaDescs ∧ s.k.kernelArenaDescs + 168 ≤ 0xC0100000
  main : ∃ t, s.k.pcb Sched.mainPage = some t ∧ t.pdeAddr = 0
  heap : ∀ h, s.k.HasHeap h → s.HeapInv h (arenas h) (seq h)
  noHeap : ∀ h, ¬ s.k.HasHeap h → (s.live h = fun _ => none) ∧ (arenas h = fun _ => none) ∧ seq h = fun _ => []
  client : ∀ {pg}, s.client pg → s.k.map pg ≠ none
  clientPlain : ∀ {v}, s.client (.kernel v) → ¬ s.k.SystemPage v

/-! ## Heaps and words -/

/-- The heap `sys_malloc` and `sys_free` work on is that of the calling thread. -/
theorem heap_current {k : Kernel} (hth : k.Threads) : ∃ t, k.pcb k.current = some t ∧
    k.heapOf t = (k.heap.pool, k.heapDescs k.heap) ∧ (∀ v, k.pageOf k.heap.pool v = k.heap.page v) ∧ k.HasHeap k.heap := by
  obtain ⟨t, ht⟩ := hth.cur
  refine ⟨t, ht, ?_⟩
  unfold Kernel.heap heapOf
  rw [ht]
  dsimp only
  by_cases hp : t.pdeAddr = 0
  · rw [if_pos hp, if_pos hp]
    exact ⟨rfl, fun _ => rfl, trivial⟩
  · rw [if_neg hp, if_neg hp]
    exact ⟨rfl, fun _ => rfl, t, ht, hp⟩

section Words
variable {l : Layout} {s s' : Sys} {arenas : Heap → Nat → Option Arena} {seq : Heap → Fin 7 → List Nat}

theorem Inv.process (hI : s.Inv l arenas seq) {p : Nat} (hp : s.k.IsProcess p) :
    p % 4096 = 0 ∧ 0xC0100 ≤ p / 4096 ∧ s.k.kmap (p / 4096) ≠ none ∧ s.k.SystemPage (p / 4096) := by
  obtain ⟨t, ht, hpd⟩ := hp
  have hne : p ≠ Sched.mainPage := by
    rintro rfl
    obtain ⟨t', ht', hpd'⟩ := hI.main
    rw [ht, Option.some.injEq] at ht'
    exact hpd (ht' ▸ hpd')
  obtain ⟨h0, hm⟩ := hI.page.threads.page ht
  have hk := hm.resolve_left hne
  have hmap : s.k.map (.kernel (p / 4096)) ≠ none := hk
  exact ⟨h0, (hI.page.virt.mapped hmap).1.1, hk, .inl ⟨p, t, ht, hne, rfl⟩⟩

theorem Inv.descsAt (hI : s.Inv l arenas seq) {h : Heap} (hh : s.k.HasHeap h) :
    DescsAt h.pool (s.k.heapDescs h) := by
  cases h with
  | kernel => exact hI.descs
  | user p =>
    obtain ⟨h0, h1, -⟩ := hI.process hh
    change 0xC0100000 ≤ p + 64
    omega

theorem Inv.arena_page (hI : s.Inv l arenas seq) {h : Heap} (hh : s.k.HasHeap h) {v : Nat}
    (hv : ArenaPage (arenas h) v) : match h with
      | .kernel => 0xC0100 ≤ v ∧ v < 0xFFC00
      | .user _ => v < 0xC0000 := by
  have hr := (hI.page.virt.mapped ((hI.heap h hh).mapped hv)).1
  cases h with
  | kernel => exact ⟨hr.1, hr.2.2⟩
  | user p => exact hr.2.2

theorem heapWord_arena {D w : Nat} {arenas : Nat → Option Arena} (hw : HeapWord D arenas w) :
    D ≤ w ∧ w < D + 168 ∨ ArenaPage arenas (w / 4096) := by
  rcases hw with hw | ⟨b, y, hb, h1, h2⟩
  · exact .inl hw
  · exact .inr ⟨b, y, hb, by omega, by omega⟩

/-- Where the words of a heap are in the kernel half. -/
def Zone (k : Kernel) : Heap → Nat → Prop
  | .kernel, w => w < 0xC0100000 ∨ ¬ k.SystemPage (w / 4096)
  | .user p, w => w / 4096 = p / 4096

theorem Inv.zone (hI : s.Inv l arenas seq) {h : Heap} (hh : s.k.HasHeap h) {w : Nat} (hge : 0xC0000000 ≤ w)
    (hw : HeapWord (s.k.heapDescs h) (arenas h) w) : Zone s.k h w := by
  cases h with
  | kernel =>
    rcases heapWord_arena hw with ⟨h1, h2⟩ | hv
    · have := hI.descs
      change w < s.k.kernelArenaDescs + 168 at h2
      exact .inl (by omega)
    · exact .inr ((hI.heap .kernel trivial).plain hv rfl)
  | user p =>
    obtain ⟨h0, -⟩ := hI.process hh
    rcases heapWord_arena hw with ⟨h1, h2⟩ | hv
    · change p + 64 ≤ w at h1
      change w < p + 64 + 168 at h2
      change w / 4096 = p / 4096
      omega
    · have : w / 4096 < 0xC0000 := hI.arena_page hh hv
      omega

theorem Inv.zone_apart (hI : s.Inv l arenas seq) {h h' : Heap} (hh : s.k.HasHeap h) (hh' : s.k.HasHeap h')
    (hne : h ≠ h') {w : Nat} (hw : Zone s.k h w) (hw' : Zone s.k h' w) : False := by
  have huser : ∀ p, s.k.IsProcess p → Zone s.k .kernel w → w / 4096 = p / 4096 → False := fun p hp hz he => by
    obtain ⟨-, hge, -, hsys⟩ := hI.process hp
    rcases hz with hz | hz
    · omega
    · exact hz (he ▸ hsys)
  cases h with
  | kernel =>
    cases h' with
    | kernel => exact hne rfl
    | user q => exact huser q hh' hw hw'
  | user p =>
    cases h' with
    | kernel => exact huser p hh hw' hw
    | user q =>
      have hp := (hI.process hh).1
      have hq := (hI.process hh').1
      have he : p / 4096 = q / 4096 := hw.symm.trans hw'
      exact hne (by rw [show p = q by omega])

theorem heapSpace_read {k k' : Kernel} {h : Heap} {w : Nat} (hk : 0xC0000000 ≤ w → k'.kmem w = k.kmem w)
    (hu : w < 0xC0000000 → ∀ p, h = .user p → k'.umem p w = k.umem p w) :
    (k'.heapSpace h).read w = (k.heapSpace h).read w := by
  unfold Space.read heapSpace
  by_cases hw : w < 0xC0000000
  · rw [if_pos hw, if_pos hw]
    cases h with
    | kernel => rfl
    | user p => exact hu hw p rfl
  · rw [if_neg hw, if_neg hw]
    cases h with
    | kernel => exact hk (by omega)
    | user p => exact hk (by omega)

/-! ## A heap through a step -/

theorem HeapInv.frame {h : Heap} {A : Nat → Option Arena} {q : Fin 7 → List Nat} (hh : s.HeapInv h A q)
    (hlive : s'.live h = s.live h) (hdesc : s'.k.heapDescs h = s.k.heapDescs h)
    (hw : ∀ w, HeapWord (s.k.heapDescs h) A w → (s'.k.heapSpace h).read w = (s.k.heapSpace h).read w)
    (hmap : ∀ v, ArenaPage A v → s'.k.map (h.page v) ≠ none)
    (hclient : ∀ v, ArenaPage A v → ¬ s'.client (h.page v))
    (hsys : ∀ v, ArenaPage A v → h = .kernel → ¬ s'.k.SystemPage v) : s'.HeapInv h A q where
  rep := by
    rw [hlive, hdesc]
    exact hh.rep.of_words hw
  counted := by
    rw [hlive]
    exact Counted.of_words @hh.counted hw
  busy := by
    rw [hlive]
    exact @hh.busy
  mapped hv := hmap _ hv
  apart hv := hclient _ hv
  plain hv hk := hsys _ hv hk

theorem heap_or (k : Kernel) : k.heap = .kernel ∨ k.heap = .user k.current := by
  unfold Kernel.heap
  split
  · split
    · exact .inl rfl
    · exact .inr rfl
  · exact .inl rfl

/-- What the calling thread sees of its own heap. -/
theorem space_heap (k : Kernel) {w : Nat} (hw : k.heap = .kernel → 0xC0000000 ≤ w) :
    (k.heapSpace k.heap).read w = k.space.read w := by
  rcases heap_or k with h | h
  · have hge := hw h
    rw [h]
    unfold Space.read heapSpace Kernel.space
    rw [if_neg (by omega), if_neg (by omega)]
  · rw [h]
    rfl

theorem kernel_word {D : Nat} {A : Nat → Option Arena} (hD : 0xC0000000 ≤ D) (hA : ∀ v, ArenaPage A v → 0xC0100 ≤ v)
    {w : Nat} (hw : HeapWord D A w) : 0xC0000000 ≤ w := by
  rcases heapWord_arena hw with ⟨h1, -⟩ | hv
  · omega
  · have := hA _ hv
    omega

theorem Inv.state (hI : s.Inv l arenas seq) : HeapState s.k s.k.heap.pool (s.k.heapDescs s.k.heap) (arenas s.k.heap)
    (s.live s.k.heap) (seq s.k.heap) := by
  obtain ⟨t, -, -, hpage, hhas⟩ := heap_current hI.page.threads
  have hh := hI.heap _ hhas
  have hw : ∀ w, HeapWord (s.k.heapDescs s.k.heap) (arenas s.k.heap) w →
      s.k.space.read w = (s.k.heapSpace s.k.heap).read w := fun w hw => by
    refine (space_heap s.k fun hk => ?_).symm
    rw [hk] at hw
    exact kernel_word hI.descs.1 (fun v hv => (hI.arena_page (h := .kernel) trivial hv).1) hw
  refine ⟨hh.rep.of_words hw, Counted.of_words @hh.counted hw, fun {v} hv => ?_, fun {v} hv hpf => ?_⟩
  · rw [hpage]
    exact hh.mapped hv
  · refine hh.plain hv ?_
    cases hk : s.k.heap with
    | kernel => rfl
    | user p =>
      rw [hk] at hpf
      cases hpf

theorem SameSys.heap {k k' : Kernel} (h : SameSys k k') : k'.heap = k.heap := by
  unfold Kernel.heap
  rw [h.pcb, h.current]

theorem SameSys.heapDescs {k k' : Kernel} (h : SameSys k k') (x : Heap) : k'.heapDescs x = k.heapDescs x := by
  cases x with
  | kernel => exact h.descs
  | user p => rfl

theorem SameSys.hasHeap {k k' : Kernel} (h : SameSys k k') (x : Heap) : k'.HasHeap x ↔ k.HasHeap x := by
  cases x with
  | kernel => exact Iff.rfl
  | user p => exact h.isProcess

/-- The words a call changes are those of the caller's heap. -/
theorem Inv.other_words (hI : s.Inv l arenas seq) {k' : Kernel} {A : Nat → Option Arena}
    (hstep : HeapStep l s.k k' s.k.heap.pool (s.k.heapDescs s.k.heap) (arenas s.k.heap) A)
    (hA : ∀ w, 0xC0000000 ≤ w → HeapWord (s.k.heapDescs s.k.heap) A w → Zone s.k s.k.heap w) {h : Heap}
    (hh : s.k.HasHeap h) (hne : h ≠ s.k.heap) {w : Nat} (hw : HeapWord (s.k.heapDescs h) (arenas h) w) :
    (k'.heapSpace h).read w = (s.k.heapSpace h).read w := by
  obtain ⟨t, ht, -, -, hhas⟩ := heap_current hI.page.threads
  refine heapSpace_read (fun hge => ?_) fun hlt p hp => ?_
  · have hz := hI.zone hh hge hw
    have hout := hstep.out w (fun hw' => hI.zone_apart hh hhas hne hz (hI.zone hhas hge hw'))
      fun hw' => hI.zone_apart hh hhas hne hz (hA w hge hw')
    unfold Space.read Kernel.space at hout
    rwa [if_neg (by omega), if_neg (by omega)] at hout
  · subst hp
    refine congrFun (hstep.umem p ?_) w
    rintro rfl
    -- a process is the owner of its heap
    obtain ⟨t', ht', hpd⟩ := hh
    rw [ht, Option.some.injEq] at ht'
    subst ht'
    refine hne ?_
    unfold Kernel.heap
    rw [ht]
    exact (if_neg hpd).symm

theorem Inv.client_map (hI : s.Inv l arenas seq) {k' : Kernel} {A : Nat → Option Arena}
    (hstep : HeapStep l s.k k' s.k.heap.pool (s.k.heapDescs s.k.heap) (arenas s.k.heap) A) {pg : Page}
    (hpg : s.client pg) : k'.map pg = s.k.map pg := by
  obtain ⟨t, ht, -, hpage, hhas⟩ := heap_current hI.page.threads
  refine hstep.map pg fun v he => ?_
  rw [hpage] at he
  have hold : ¬ ArenaPage (arenas s.k.heap) v := fun hv => (hI.heap _ hhas).apart hv (he ▸ hpg)
  refine iff_of_false hold fun hv => ?_
  rcases hstep.fresh hv with hv' | hnone
  · exact hold hv'
  · rw [hpage, ← he] at hnone
    exact hI.client hpg hnone

/-- The invariant after a call of `sys_malloc` or `sys_free`, or a store of a client. -/
theorem Inv.heapStep (hI : s.Inv l arenas seq) {k' : Kernel} {A : Nat → Option Arena} {live' : Nat → Option Nat}
    {q : Fin 7 → List Nat} (hstep : HeapStep l s.k k' s.k.heap.pool (s.k.heapDescs s.k.heap) (arenas s.k.heap) A)
    (hstate : HeapState k' s.k.heap.pool (s.k.heapDescs s.k.heap) A live' q) (hbusy : Busy A live') :
    Inv l ⟨k', Function.update s.live s.k.heap live', s.client⟩ (Function.update arenas s.k.heap A)
      (Function.update seq s.k.heap q) := by
  obtain ⟨t, ht, -, hpage, hhas⟩ := heap_current hI.page.threads
  have hsys := hstep.sys
  have hpage' : ∀ v, k'.pageOf s.k.heap.pool v = s.k.heap.page v := fun v => by rw [hsys.pageOf, hpage]
  have hpool : s.k.heap = .kernel → s.k.heap.pool = .kernelPool := fun hk => by rw [hk]; rfl
  have hge : s.k.heap = .kernel → ∀ w, HeapWord (s.k.heapDescs s.k.heap) A w → 0xC0000000 ≤ w := fun hk w hw => by
    refine kernel_word ?_ (fun v hv => ?_) hw
    · rw [hk]
      exact hI.descs.1
    · have hm := hstate.pages.mapped hv
      rw [hpage', hk] at hm
      exact (hstep.inv.virt.mapped hm).1.1
  have hzone : ∀ w, 0xC0000000 ≤ w → HeapWord (s.k.heapDescs s.k.heap) A w → Zone s.k s.k.heap w := fun w h1 hw => by
    rcases heapWord_arena hw with hd | hv
    · exact hI.zone hhas h1 (.inl hd)
    · have hm := hstate.pages.mapped hv
      have hr := (hstep.inv.virt.mapped hm).1
      rw [hpage'] at hr
      cases hk : s.k.heap with
      | kernel => exact .inr fun hs => hstate.pages.plain hv (hpool hk) (hsys.systemPage.2 hs)
      | user p =>
        rw [hk] at hr
        have : w / 4096 < 0xC0000 := hr.2.2
        omega
  refine ⟨hstep.inv, hsys.unlocked hI.unlocked, ?_, by rw [hsys.pcb]; exact hI.main, fun h hh => ?_,
    fun h hh => ?_, fun {pg} hpg => ?_, fun {v} hv hs => hI.clientPlain hv (hsys.systemPage.1 hs)⟩
  · change 0xC0000000 ≤ k'.kernelArenaDescs ∧ k'.kernelArenaDescs + 168 ≤ 0xC0100000
    rw [hsys.descs]
    exact hI.descs
  · have hh0 := (SameSys.hasHeap hsys h).1 hh
    by_cases he : h = s.k.heap
    · subst he
      rw [Function.update_self, Function.update_self]
      have hwords : ∀ w, HeapWord (s.k.heapDescs s.k.heap) A w →
          (k'.heapSpace s.k.heap).read w = k'.space.read w := fun w hw => by
        have hheap := SameSys.heap hsys
        have := space_heap k' (w := w) fun hk => hge (by rw [← hheap]; exact hk) w hw
        rwa [hheap] at this
      refine ⟨?_, ?_, ?_, fun {v} hv => ?_, fun {v} hv hpg => ?_, fun {v} hv hk => ?_⟩
      · change HeapRep (k'.heapSpace s.k.heap) (k'.heapDescs s.k.heap) A (Function.update s.live s.k.heap live' s.k.heap) q
        rw [Function.update_self, SameSys.heapDescs hsys]
        exact hstate.rep.of_words hwords
      · change Counted (k'.heapSpace s.k.heap) A (Function.update s.live s.k.heap live' s.k.heap)
        rw [Function.update_self]
        exact Counted.of_words @hstate.counted hwords
      · change Busy A (Function.update s.live s.k.heap live' s.k.heap)
        rw [Function.update_self]
        exact @hbusy
      · have := hstate.pages.mapped hv
        rwa [hpage'] at this
      · have hm := hI.client hpg
        rcases hstep.fresh hv with hv' | hnone
        · exact (hI.heap _ hhas).apart hv' hpg
        · rw [hpage] at hnone
          exact hm hnone
      · exact hstate.pages.plain hv (hpool hk)
    · rw [Function.update_of_ne he, Function.update_of_ne he]
      have hheap := hI.heap h hh0
      refine hheap.frame (Function.update_of_ne he _ _) (SameSys.heapDescs hsys h)
        (fun w hw => hI.other_words hstep hzone hh0 he hw) (fun v hv => ?_) (fun v hv => hheap.apart hv)
        fun v hv hk hs => hheap.plain hv hk (hsys.systemPage.1 hs)
      change k'.map (h.page v) ≠ none
      rw [hstep.map]
      · exact hheap.mapped hv
      · intro v' hpg
        rw [hpage] at hpg
        exact absurd (Heap.page_inj hpg).1 he
  · have hh0 : ¬ s.k.HasHeap h := fun hx => hh ((SameSys.hasHeap hsys h).2 hx)
    have he : h ≠ s.k.heap := by
      rintro rfl
      exact hh0 hhas
    rw [Function.update_of_ne he, Function.update_of_ne he]
    refine ⟨?_, (hI.noHeap h hh0).2⟩
    change Function.update s.live s.k.heap live' h = _
    rw [Function.update_of_ne he]
    exact (hI.noHeap h hh0).1
  · change k'.map pg ≠ none
    rw [hI.client_map hstep hpg]
    exact hI.client hpg

/-! ## The other calls -/

/-- The words of every heap stay when the kernel only gets more. -/
theorem Inv.extends_words (hI : s.Inv l arenas seq) {k' : Kernel} (hx : Extends s.k k') {h : Heap} (hh : s.k.HasHeap h)
    {w : Nat} (hw : HeapWord (s.k.heapDescs h) (arenas h) w) :
    (k'.heapSpace h).read w = (s.k.heapSpace h).read w := by
  refine heapSpace_read (fun hge => hx.kmem ?_) fun hlt p hp => hx.umem ?_
  · rcases heapWord_arena hw with hd | hv
    · cases h with
      | kernel =>
        have h2 := hI.descs.2
        have h3 : w < s.k.kernelArenaDescs + 168 := hd.2
        exact .inl (by omega)
      | user p =>
        obtain ⟨h0, -, hk, -⟩ := hI.process hh
        have h1 : p + 64 ≤ w ∧ w < p + 64 + 168 := hd
        rw [show w / 4096 = p / 4096 by omega]
        exact .inr hk
    · cases h with
      | kernel => exact .inr ((hI.heap .kernel hh).mapped hv)
      | user p =>
        have : w / 4096 < 0xC0000 := hI.arena_page hh hv
        omega
  · subst hp
    rcases heapWord_arena hw with hd | hv
    · have := (hI.process hh).2.1
      have h1 : p + 64 ≤ w := hd.1
      omega
    · exact (hI.heap (.user p) hh).mapped hv

/-- A call that adds pages, threads or processes. -/
theorem Inv.extend (hI : s.Inv l arenas seq) {k' : Kernel} {client' : Page → Prop} (hx : Extends s.k k')
    (hi : PageInv l Stable k') (hu : k'.Unlocked) (hmain : ∃ t, k'.pcb Sched.mainPage = some t ∧ t.pdeAddr = 0)
    (hsys : ∀ v, k'.SystemPage v → s.k.SystemPage v ∨ s.k.kmap v = none)
    (hold : ∀ h, s.k.HasHeap h → k'.HasHeap h)
    (hnew : ∀ h, k'.HasHeap h → s.k.HasHeap h ∨
      HeapRep (k'.heapSpace h) (k'.heapDescs h) (fun _ => none) (fun _ => none) fun _ => [])
    (hclient : ∀ pg, client' pg → s.client pg ∨ s.k.map pg = none ∧ k'.map pg ≠ none)
    (hplain : ∀ v, client' (.kernel v) → s.k.kmap v = none → ¬ k'.SystemPage v) :
    Inv l ⟨k', s.live, client'⟩ arenas seq := by
  have hdescs : ∀ h, k'.heapDescs h = s.k.heapDescs h := fun h => by
    cases h with
    | kernel => exact hx.descs
    | user p => rfl
  refine ⟨hi, hu, ?_, hmain, fun h hh => ?_, fun h hh => hI.noHeap h fun hx => hh (hold h hx), fun {pg} hpg => ?_,
    fun {v} hv hs => ?_⟩
  · change 0xC0000000 ≤ k'.kernelArenaDescs ∧ k'.kernelArenaDescs + 168 ≤ 0xC0100000
    rw [hx.descs]
    exact hI.descs
  · by_cases hh0 : s.k.HasHeap h
    · have hheap := hI.heap h hh0
      refine hheap.frame rfl (hdescs h) (fun w hw => hI.extends_words hx hh0 hw)
        (fun v hv => hx.mapped (hheap.mapped hv)) (fun v hv hpg => ?_) fun v hv hk hs => ?_
      · rcases hclient _ hpg with hc | ⟨hnone, -⟩
        · exact hheap.apart hv hc
        · exact hheap.mapped hv hnone
      · rcases hsys v hs with hs' | hnone
        · exact hheap.plain hv hk hs'
        · subst hk
          exact hheap.mapped hv hnone
    · have hrep := (hnew h hh).resolve_left hh0
      obtain ⟨hlive, harenas, hseq⟩ := hI.noHeap h hh0
      have hnone : ∀ {v}, ¬ ArenaPage (arenas h) v := fun {v} ⟨a, x, ha, _⟩ => by
        rw [harenas] at ha
        cases ha
      refine ⟨?_, ?_, ?_, fun hv => absurd hv hnone, fun hv => absurd hv hnone, fun hv => absurd hv hnone⟩
      · change HeapRep (k'.heapSpace h) (k'.heapDescs h) (arenas h) (s.live h) (seq h)
        rw [hlive, harenas, hseq]
        exact hrep
      · intro a k ha
        rw [harenas] at ha
        cases ha
      · intro a x ha
        rw [harenas] at ha
        cases ha
  · rcases hclient pg hpg with hc | ⟨-, hm⟩
    · exact hx.mapped (hI.client hc)
    · exact hm
  · rcases hclient _ hv with hc | ⟨hnone, -⟩
    · rcases hsys v hs with hs' | hnone
      · exact hI.clientPlain hc hs'
      · exact hI.client hc hnone
    · exact hplain v hv hnone hs

theorem Inv.grown (hI : s.Inv l arenas seq) {k' : Kernel} {pf : PoolFlags} {vp n : Nat} (hx : Extends s.k k')
    (hi : PageInv l Stable k') (hsys : SameSys s.k k') (hg : Grown s.k k' pf vp n) {client' : Page → Prop}
    (hclient : ∀ pg, client' pg → s.client pg ∨ s.k.InRange pf vp n pg) : Inv l ⟨k', s.live, client'⟩ arenas seq := by
  refine hI.extend hx hi (hsys.unlocked hI.unlocked) (by rw [hsys.pcb]; exact hI.main)
    (fun v hs => .inl (hsys.systemPage.1 hs)) (fun h hh => (SameSys.hasHeap hsys h).2 hh)
    (fun h hh => .inl ((SameSys.hasHeap hsys h).1 hh)) (fun pg hpg => ?_) fun v hv hnone hs => ?_
  · refine (hclient pg hpg).imp_right ?_
    rintro ⟨k, hk, rfl⟩
    obtain ⟨f, hf⟩ := hg.mapped k hk
    exact ⟨hg.fresh k hk, by rw [hf]; exact Option.some_ne_none f⟩
  · exact hI.page.threads.kmap_system (hsys.systemPage.1 hs) hnone

theorem Inv.spawned (hI : s.Inv l arenas seq) {k' : Kernel} {p : Nat} (hs : Spawned l s.k k' p) :
    Inv l ⟨k', s.live, s.client⟩ arenas seq := by
  have hproc : ∀ q, q ≠ p → (k'.IsProcess q ↔ s.k.IsProcess q) := fun q hq => by
    unfold IsProcess
    rw [hs.pcb q hq]
  have hmain : p ≠ Sched.mainPage := by
    rintro rfl
    obtain ⟨t, ht, -⟩ := hI.main
    rw [hs.fresh] at ht
    cases ht
  refine hI.extend hs.ext hs.inv hs.unlocked (by rw [hs.pcb _ hmain.symm]; exact hI.main) hs.system (fun h hh => ?_)
    (fun h hh => ?_) (fun pg hpg => .inl hpg) fun v hv hnone => absurd hnone (hI.client hv)
  · cases h with
    | kernel => trivial
    | user q =>
      refine (hproc q ?_).2 hh
      rintro rfl
      obtain ⟨t, ht, -⟩ := hh
      rw [hs.fresh] at ht
      cases ht
  · cases h with
    | kernel => exact .inl trivial
    | user q =>
      by_cases hq : q = p
      · subst hq
        obtain ⟨m, hm⟩ := hs.heap hh
        have hge : ∀ {w}, HeapWord (userArenaDescs q) (fun _ => none) w → 0xC0000000 ≤ w := fun {w} hw => by
          obtain ⟨t, ht, -⟩ := hh
          have hk : k'.map (.kernel (q / 4096)) ≠ none := (hs.inv.threads.page ht).2.resolve_left hmain
          have h1 : 0xC0100 ≤ q / 4096 := (hs.inv.virt.mapped hk).1.1
          rcases hw with ⟨h2, -⟩ | ⟨b, y, hb, -⟩
          · have h3 : q + 64 ≤ w := h2
            omega
          · cases hb
        refine .inr ((arenaInit_rep m (userArenaDescs q)).of_words fun w hw => ?_)
        have := hge hw
        unfold Space.read heapSpace
        rw [if_neg (by omega), if_neg (by omega), hm]
      · exact .inl ((hproc q hq).1 hh)

theorem Inv.freed (hI : s.Inv l arenas seq) {k' : Kernel} {pf : PoolFlags} {vp n : Nat} (hi : PageInv l Stable k')
    (hf : Freed l s.k k' pf vp n) (hc : ∀ k < n, s.client (s.k.pageOf pf (vp + k))) :
    Inv l ⟨k', s.live, fun pg => s.client pg ∧ ¬ s.k.InRange pf vp n pg⟩ arenas seq := by
  have hsys := hf.rest.sys
  refine ⟨hi, hsys.unlocked hI.unlocked, ?_, by rw [hsys.pcb]; exact hI.main, fun h hh => ?_, fun h hh => ?_,
    fun {pg} hpg => ?_, fun {v} hv hs => hI.clientPlain hv.1 (hsys.systemPage.1 hs)⟩
  · change 0xC0000000 ≤ k'.kernelArenaDescs ∧ k'.kernelArenaDescs + 168 ≤ 0xC0100000
    rw [hsys.descs]
    exact hI.descs
  · have hheap := hI.heap h ((SameSys.hasHeap hsys h).1 hh)
    refine hheap.frame rfl (SameSys.heapDescs hsys h) (fun w _ => ?_) (fun v hv => ?_) (fun v hv hpg => hheap.apart hv hpg.1)
      fun v hv hk hs => hheap.plain hv hk (hsys.systemPage.1 hs)
    · exact heapSpace_read (fun _ => congrFun hf.rest.kmem w) fun _ p _ => congrFun (congrFun hf.rest.umem p) w
    · change k'.map (h.page v) ≠ none
      rw [hf.map]
      · exact hheap.mapped hv
      · rintro ⟨k, hk, he⟩
        exact hheap.apart hv (he ▸ hc k hk)
  · exact hI.noHeap h fun hx => hh ((SameSys.hasHeap hsys h).2 hx)
  · change k'.map pg ≠ none
    rw [hf.map pg hpg.2]
    exact hI.client hpg.1

theorem Inv.switched (hI : s.Inv l arenas seq) {c next : Nat} (hi : PageInv l Stable { s.k with cr3 := c, current := next }) :
    Inv l ⟨{ s.k with cr3 := c, current := next }, s.live, s.client⟩ arenas seq where
  page := hi
  unlocked pf := hI.unlocked pf
  descs := hI.descs
  main := hI.main
  heap h hh := (hI.heap h hh).frame rfl (by cases h <;> rfl) (fun w _ => by cases h <;> rfl)
    (fun v hv => (hI.heap h hh).mapped hv) (fun v hv => (hI.heap h hh).apart hv)
    fun v hv hk => (hI.heap h hh).plain hv hk
  noHeap h hh := hI.noHeap h hh
  client hpg := hI.client hpg
  clientPlain hv := hI.clientPlain hv

end Words

/-! ## Every run -/

section Runs
variable {l : Layout} {s s' : Sys} {arenas : Heap → Nat → Option Arena} {seq : Heap → Fin 7 → List Nat}

def OnHeap : Call → Prop
  | .sysMalloc _ => True
  | .sysFree _ => True
  | .write _ _ => True
  | _ => False

theorem Inv.write (hI : s.Inv l arenas seq) (v : Nat) {a p size : Nat} (hlive : s.live s.k.heap p = some size)
    (h1 : p ≤ a) (h2 : a < p + size) :
    HeapStep l s.k (s.k.setSpace (s.k.space.writeByte a v)) s.k.heap.pool (s.k.heapDescs s.k.heap) (arenas s.k.heap)
        (arenas s.k.heap) ∧
      HeapState (s.k.setSpace (s.k.space.writeByte a v)) s.k.heap.pool (s.k.heapDescs s.k.heap) (arenas s.k.heap)
        (s.live s.k.heap) (seq s.k.heap) := by
  have hst := hI.state
  have hp4 : p % 4 = 0 := by
    obtain ⟨-, ⟨b, k, i, -, -, rfl, -⟩ | ⟨b, n, -, rfl, -⟩⟩ := hst.rep.live hlive
    · exact blockAt_mod b k i
    · omega
  have hread : ∀ w, w < p ∨ p + (size + 3) / 4 * 4 ≤ w → (s.k.space.writeByte a v).read w = s.k.space.read w :=
    fun w hw => Space.read_write_ne _ _ (by omega)
  obtain ⟨hrep, hsame⟩ := hst.rep.write_live hlive hread
  exact ⟨.words hI.page fun w hw => hsame.out hw, hst.words hrep (Counted.congr @hst.counted hsame.head)⟩

theorem Inv.sysMalloc_sat (hl : l.Sized) (hI : s.Inv l arenas seq) (size : Nat) :
    Except.Sat (s.k.sysMalloc size) (fun r => r = (0, s.k) ∨ ∃ A q, Malloced l s.k r.2 s.k.heap.pool
      (s.k.heapDescs s.k.heap) (arenas s.k.heap) (s.live s.k.heap) r.1 size A q) PallocStop := by
  obtain ⟨t, ht, hheap, -, hhas⟩ := heap_current hI.page.threads
  exact Kernel.sysMalloc_sat hl hI.page hI.unlocked ht hheap (hI.descsAt hhas) hI.state @(hI.heap _ hhas).busy size

/-- The calls of a heap keep the invariant, and change their heap only. -/
theorem Inv.heapCall (hl : l.Sized) (hI : s.Inv l arenas seq) {c : Call} (hon : OnHeap c) {r : Nat} {k : Kernel}
    (hc : s.Allowed l c) (hok : c.exec s.k = .ok (r, k)) :
    ∃ A q, Inv l (s.after c r k) (Function.update arenas s.k.heap A) (Function.update seq s.k.heap q) ∧
      HeapStep l s.k k s.k.heap.pool (s.k.heapDescs s.k.heap) (arenas s.k.heap) A := by
  obtain ⟨t, ht, hheap, hpage, hhas⟩ := heap_current hI.page.threads
  have hbusy : Busy (arenas s.k.heap) (s.live s.k.heap) := (hI.heap _ hhas).busy
  have hsame : ∀ live', live' = s.live → Inv l ⟨s.k, live', s.client⟩
      (Function.update arenas s.k.heap (arenas s.k.heap)) (Function.update seq s.k.heap (seq s.k.heap)) := by
    rintro live' rfl
    rw [Function.update_eq_self, Function.update_eq_self]
    exact hI
  cases c with
  | sysMalloc size =>
    rcases (hI.sysMalloc_sat hl size).of_ok hok with heq | ⟨A, q, hm⟩
    · simp only [Prod.mk.injEq] at heq
      obtain ⟨rfl, rfl⟩ := heq
      exact ⟨_, _, hsame _ rfl, .refl hI.page _ _ _⟩
    · refine ⟨A, q, ?_, hm.step⟩
      unfold after
      dsimp only
      rw [if_neg hm.ne]
      exact hI.heapStep hm.step hm.state @hm.busy
  | sysFree p =>
    obtain ⟨k1, hfree, heq⟩ := Except.bind_eq_ok.1 hok
    cases heq
    rcases hc with rfl | hlive
    · rw [Kernel.sysFree, if_pos rfl] at hfree
      cases hfree
      refine ⟨_, _, hsame _ ?_, .refl hI.page _ _ _⟩
      dsimp only
      unfold setLive
      rw [← hI.state.rep.live_zero, Function.update_eq_self, Function.update_eq_self]
    · obtain ⟨k2, A, q, hok2, hf⟩ := sysFree_ok hl hI.page hI.unlocked ht hheap hI.state hbusy hlive
      rw [hfree] at hok2
      cases hok2
      exact ⟨A, q, hI.heapStep hf.step hf.state @hf.busy, hf.step⟩
  | write a v =>
    obtain ⟨p, size, hlive, h1, h2⟩ := hc
    obtain ⟨hstep, hstate⟩ := hI.write v hlive h1 h2
    cases hok
    have hnew := hI.heapStep hstep hstate hbusy
    rw [Function.update_eq_self s.k.heap s.live] at hnew
    exact ⟨_, _, hnew, hstep⟩
  | _ => exact hon.elim

theorem Inv.fewer (hI : s.Inv l arenas seq) {client' : Page → Prop} (h : ∀ pg, client' pg → s.client pg) :
    Inv l ⟨s.k, s.live, client'⟩ arenas seq :=
  hI.extend (.refl s.k) hI.page hI.unlocked hI.main (fun _ hs => .inl hs) (fun _ hh => hh) (fun _ hh => .inl hh)
    (fun pg hpg => .inl (h pg hpg)) fun _ hv hnone => absurd hnone (hI.client (h _ hv))

theorem Inv.palloc (hl : l.Sized) (hI : s.Inv l arenas seq) {pf : PoolFlags} {n r : Nat} {k : Kernel} (hn : 1 ≤ n)
    (hok : s.k.pallocLocked pf n = .ok (r, k)) :
    Inv l ⟨k, s.live, fun pg => s.client pg ∨ r ≠ 0 ∧ s.k.InRange pf (r / 4096) n pg⟩ arenas seq := by
  rcases (pallocLocked_sat hl hI.page hI.unlocked hn).of_ok hok with heq | ⟨vp, hpos, hr, hc, -⟩
  · simp only [Prod.mk.injEq] at heq
    obtain ⟨rfl, rfl⟩ := heq
    exact hI.fewer fun pg hpg => hpg.resolve_right fun h => h.1 rfl
  · dsimp only at hr hc
    refine hI.grown hc.extends hc.inv hc.sys hc.toGrown fun pg hpg => hpg.imp_right fun h => ?_
    have hvp : r / 4096 = vp := by rw [hr, Nat.mul_div_cancel _ (by decide)]
    rw [← hvp]
    exact h.2

theorem pallocLocked_extends (hl : l.Sized) {k k' : Kernel} (hi : PageInv l Stable k) (hu : k.Unlocked) {pf : PoolFlags}
    {n r : Nat} (hn : 1 ≤ n) (hok : k.pallocLocked pf n = .ok (r, k')) : Extends k k' := by
  rcases (pallocLocked_sat hl hi hu hn).of_ok hok with heq | ⟨vp, -, -, hc, -⟩
  · rw [(Prod.mk.inj heq).2]
    exact .refl k
  · exact hc.extends

theorem Inv.freeable (hI : s.Inv l arenas seq) {pf : PoolFlags} {v n : Nat} (hc : s.Allowed l (.pfree pf v n)) :
    Freeable s.k pf (v / 4096) n := by
  obtain ⟨-, -, hcl⟩ := hc
  refine ⟨fun i hi => hI.client (hcl i hi), ?_⟩
  intro i hi hpf hs
  subst hpf
  exact hI.clientPlain (hcl i hi) hs

theorem Inv.pfree_ok (hl : l.Sized) (hI : s.Inv l arenas seq) {pf : PoolFlags} {v n : Nat}
    (hc : s.Allowed l (.pfree pf v n)) :
    ∃ k', s.k.pfree pf v n = .ok k' ∧ PageInv l Stable k' ∧ Freed l s.k k' pf (v / 4096) n := by
  have this := Kernel.pfree_ok hl hI.page hc.1 (hI.freeable hc)
  have hv := hc.2.1
  rwa [show v / 4096 * 4096 = v by omega] at this

theorem Inv.switch (hI : s.Inv l arenas seq) {next r : Nat} {k : Kernel}
    (hok : (Call.switchTo next).exec s.k = .ok (r, k)) :
    ∃ c, k = { s.k with cr3 := c, current := next } ∧ PageInv l Stable { s.k with cr3 := c, current := next } := by
  obtain ⟨k1, hsw, heq⟩ := Except.bind_eq_ok.1 hok
  cases heq
  cases hnext : s.k.pcb next with
  | none =>
    rw [Kernel.switchTo, getPcb, hnext] at hsw
    cases hsw
  | some t =>
    obtain ⟨c, hsw', hi⟩ := switchTo_ok hI.page hnext
    rw [hsw'] at hsw
    cases hsw
    exact ⟨c, rfl, hi⟩

/-- One call keeps the invariant. -/
theorem Step.inv (hl : l.Sized) (hI : s.Inv l arenas seq) (hs : Step l s s') : ∃ arenas' seq', s'.Inv l arenas' seq' := by
  obtain ⟨c, hc, hok⟩ := hs
  cases c with
  | execProcess => exact ⟨_, _, hI.spawned ((execProcess_sat hl hI.page hI.unlocked).of_ok hok)⟩
  | threadStart priority => exact ⟨_, _, hI.spawned ((threadStart_sat hl hI.page hI.unlocked priority).of_ok hok)⟩
  | switchTo next =>
    obtain ⟨c, rfl, hi⟩ := hI.switch hok
    exact ⟨_, _, hI.switched hi⟩
  | kpalloc n => exact ⟨_, _, hI.palloc hl hc hok⟩
  | upalloc n => exact ⟨_, _, hI.palloc hl hc hok⟩
  | virtualAddrMapping pf v =>
    obtain ⟨hv, hw, hlt⟩ := hc
    obtain ⟨hr, ha, hi⟩ := (virtualAddrMapping_sat hl hI.page hI.unlocked hv hw hlt).of_ok hok
    exact ⟨_, _, hI.grown ha.extends hi ha.rest.sys ha.toGrown fun pg hpg => hpg.imp_right fun h => h.2⟩
  | pfree pf v n =>
    obtain ⟨k1, hfree, heq⟩ := Except.bind_eq_ok.1 hok
    cases heq
    obtain ⟨k2, hok2, hi, hf⟩ := hI.pfree_ok hl hc
    rw [hfree] at hok2
    cases hok2
    exact ⟨_, _, hI.freed hi hf hc.2.2⟩
  | sysMalloc size =>
    obtain ⟨A, q, hnew, -⟩ := hI.heapCall hl (c := .sysMalloc size) trivial hc hok
    exact ⟨_, _, hnew⟩
  | sysFree p =>
    obtain ⟨A, q, hnew, -⟩ := hI.heapCall hl (c := .sysFree p) trivial hc hok
    exact ⟨_, _, hnew⟩
  | write a v =>
    obtain ⟨A, q, hnew, -⟩ := hI.heapCall hl (c := .write a v) trivial hc hok
    exact ⟨_, _, hnew⟩

theorem Run.inv (hl : l.Sized) (hI : s.Inv l arenas seq) (hr : Run l s s') : ∃ arenas' seq', s'.Inv l arenas' seq' := by
  induction hr with
  | refl => exact ⟨arenas, seq, hI⟩
  | tail _ hs ih =>
    obtain ⟨arenas', seq', hI'⟩ := ih
    exact hs.inv hl hI'

theorem Step.client_map (hl : l.Sized) (hI : s.Inv l arenas seq) (hs : Step l s s') {pg : Page} (hpg : s.client pg)
    (hpg' : s'.client pg) : s'.k.map pg = s.k.map pg := by
  have hx : ∀ {k'}, Extends s.k k' → k'.map pg = s.k.map pg := fun hx => by
    obtain ⟨f, hf⟩ := Option.ne_none_iff_exists'.1 (hI.client hpg)
    rw [hx.map hf, hf]
  obtain ⟨c, hc, hok⟩ := hs
  cases c with
  | execProcess => exact hx ((execProcess_sat hl hI.page hI.unlocked).of_ok hok).ext
  | threadStart priority => exact hx ((threadStart_sat hl hI.page hI.unlocked priority).of_ok hok).ext
  | switchTo next =>
    obtain ⟨c, rfl, -⟩ := hI.switch hok
    rfl
  | kpalloc n => exact hx (pallocLocked_extends hl hI.page hI.unlocked hc hok)
  | upalloc n => exact hx (pallocLocked_extends hl hI.page hI.unlocked hc hok)
  | virtualAddrMapping pf v =>
    obtain ⟨hv, hw, hlt⟩ := hc
    obtain ⟨-, ha, -⟩ := (virtualAddrMapping_sat hl hI.page hI.unlocked hv hw hlt).of_ok hok
    exact hx ha.extends
  | pfree pf v n =>
    obtain ⟨k1, hfree, heq⟩ := Except.bind_eq_ok.1 hok
    cases heq
    obtain ⟨k2, hok2, -, hf⟩ := hI.pfree_ok hl hc
    rw [hfree] at hok2
    cases hok2
    exact hf.map pg hpg'.2
  | sysMalloc size =>
    obtain ⟨A, q, -, hstep⟩ := hI.heapCall hl (c := .sysMalloc size) trivial hc hok
    exact hI.client_map hstep hpg
  | sysFree p =>
    obtain ⟨A, q, -, hstep⟩ := hI.heapCall hl (c := .sysFree p) trivial hc hok
    exact hI.client_map hstep hpg
  | write a v =>
    obtain ⟨A, q, -, hstep⟩ := hI.heapCall hl (c := .write a v) trivial hc hok
    exact hI.client_map hstep hpg

theorem Inv.sysFree_returns (hl : l.Sized) (hI : s.Inv l arenas seq) {p : Nat} (hp : p = 0 ∨ s.live s.k.heap p ≠ none) :
    ∃ k', s.k.sysFree p = .ok k' := by
  obtain ⟨t, ht, hheap, -, hhas⟩ := heap_current hI.page.threads
  rcases hp with rfl | hlive
  · exact ⟨s.k, by rw [Kernel.sysFree, if_pos rfl]; rfl⟩
  · obtain ⟨k', A, q, hok, -⟩ := sysFree_ok hl hI.page hI.unlocked ht hheap hI.state @(hI.heap _ hhas).busy hlive
    exact ⟨k', hok⟩

theorem Inv.stop (hl : l.Sized) (hI : s.Inv l arenas seq) {c : Call} {e : Panic} (hc : s.Allowed l c)
    (herr : c.exec s.k = .error e) :
    PallocStop e ∨ e = .noMemory ∨ e = .wildPcb ∨ ∃ pf v, c = .virtualAddrMapping pf v ∧ s.k.MappingStop pf v e := by
  obtain ⟨t, ht, hheap, -, hhas⟩ := heap_current hI.page.threads
  have hbusy : Busy (arenas s.k.heap) (s.live s.k.heap) := (hI.heap _ hhas).busy
  cases c with
  | execProcess => exact ((execProcess_sat hl hI.page hI.unlocked).of_error herr).imp_right .inl
  | threadStart priority => exact ((threadStart_sat hl hI.page hI.unlocked priority).of_error herr).imp_right .inl
  | switchTo next =>
    change (do return (0, ← s.k.switchTo next) : Except Panic (Nat × Kernel)) = _ at herr
    cases hnext : s.k.pcb next with
    | none =>
      rw [Kernel.switchTo, getPcb, hnext] at herr
      cases herr
      exact .inr (.inr (.inl rfl))
    | some t' =>
      obtain ⟨c, hsw', -⟩ := switchTo_ok hI.page hnext
      rw [hsw'] at herr
      cases herr
  | kpalloc n => exact .inl ((pallocLocked_sat hl hI.page hI.unlocked hc).of_error herr)
  | upalloc n => exact .inl ((pallocLocked_sat hl hI.page hI.unlocked hc).of_error herr)
  | virtualAddrMapping pf v =>
    obtain ⟨hv, hw, hlt⟩ := hc
    exact .inr (.inr (.inr ⟨pf, v, rfl, (virtualAddrMapping_sat hl hI.page hI.unlocked hv hw hlt).of_error herr⟩))
  | pfree pf v n =>
    obtain ⟨k2, hok2, -⟩ := hI.pfree_ok hl hc
    change (do return (0, ← s.k.pfree pf v n) : Except Panic (Nat × Kernel)) = _ at herr
    rw [hok2] at herr
    cases herr
  | sysMalloc size =>
    exact .inl ((hI.sysMalloc_sat hl size).of_error herr)
  | sysFree p =>
    change (do return (0, ← s.k.sysFree p) : Except Panic (Nat × Kernel)) = _ at herr
    obtain ⟨k2, hok2⟩ := hI.sysFree_returns hl hc
    rw [hok2] at herr
    cases herr
  | write a v => cases herr

end Runs

/-! ## Boot -/

/-- `kernel_arena_descs` is linked into the first megabyte. -/
def StaticDescs (D : Nat) : Prop := 0xC0000000 ≤ D ∧ D + 168 ≤ 0xC0100000

instance (D : Nat) : Decidable (StaticDescs D) :=
  inferInstanceAs (Decidable (0xC0000000 ≤ D ∧ D + 168 ≤ 0xC0100000))

theorem boot_noProcess (allMem : Nat) (low : Bytes) (D p : Nat) : ¬ (boot allMem low D).IsProcess p := by
  rintro ⟨t, ht, hpd⟩
  rw [boot_pcb] at ht
  by_cases hp : p = Sched.mainPage
  · rw [if_pos hp, Option.some.injEq] at ht
    exact hpd (by rw [← ht]; rfl)
  · rw [if_neg hp] at ht
    cases ht

theorem init_inv {allMem : Nat} (hf : Fits allMem) (low : Bytes) {D : Nat} (hD : StaticDescs D) :
    Inv (layout allMem) (init (boot allMem low D)) (fun _ _ => none) fun _ _ => [] := by
  refine ⟨boot_inv hf low D, boot_unlocked allMem low D, hD,
    ⟨initThread Sched.mainPage Sched.mainPage 1 31, ?_, rfl⟩, fun h hh => ?_, fun h hh => ⟨rfl, rfl, rfl⟩,
    fun hpg => hpg.elim, fun hv => hv.elim⟩
  · exact (boot_pcb allMem low D _).trans (if_pos rfl)
  · cases h with
    | user p => exact absurd hh (boot_noProcess allMem low D p)
    | kernel =>
      have hnone : ∀ {v}, ¬ ArenaPage (fun _ => none) v := fun {v} ⟨_, _, ha, _⟩ => nomatch ha
      refine ⟨(arenaInit_rep ⟨fun _ => 0, fun _ => 0⟩ D).of_words fun w hw => ?_, fun ha => (nomatch ha),
        fun ha => (nomatch ha), fun hv => absurd hv hnone, fun hv => absurd hv hnone, fun hv => absurd hv hnone⟩
      have hge : 0xC0000000 ≤ w := kernel_word hD.1 (fun v hv => absurd hv hnone) hw
      unfold Space.read
      rw [if_neg (by omega), if_neg (by omega)]
      rfl

/-- The invariant in every state of every run from boot. -/
theorem boot_run_inv {allMem : Nat} (hf : Fits allMem) {low : Bytes} {D : Nat} (hD : StaticDescs D) {s : Sys}
    (hr : Run (layout allMem) (init (boot allMem low D)) s) : ∃ arenas seq, s.Inv (layout allMem) arenas seq :=
  hr.inv hf.sized (init_inv hf low hD)

end Sys

end ElephantOS
