import ElephantOS.Kernel.Malloc
import ElephantOS.Lib.Trace

/-!
# The memory functions with their events (`kernel/memory.c`)

The functions of `Memory` and `Malloc` once more, with what they do to the pool locks, the pool bitmaps,
the page tables and the TLB in the order in which they do it.

* `Event` : the events; an access to a pool bitmap says whether the calling thread holds the pool's lock;
* `Traced.getOnePhysicPage` … `Traced.sysFree` : the functions;
* `Traced.result_pageMapping` … : without the events they are those of `Memory` and `Malloc`.
-/

namespace ElephantOS

inductive Event where
  | lock (pf : PoolFlags)
  | unlock (pf : PoolFlags)
  /-- `BitmapScan` of a pool's bitmap -/
  | scan (pf : PoolFlags) (held : Bool)
  /-- `BitmapSetBit` to 1 -/
  | set (pf : PoolFlags) (held : Bool)
  /-- `BitmapSetBit` to 0 -/
  | clear (pf : PoolFlags) (held : Bool)
  /-- the page table entry of the page `vp` was written -/
  | entry (vp : Nat) (k : Kernel)
  /-- `invlpg` with an operand in the page `vp` -/
  | invlpg (vp : Nat)

/-- The calling thread is the holder of the lock of a pool. -/
def Kernel.holds (s : Kernel) (pf : PoolFlags) : Bool := (s.pool pf).lock.holder = some s.current

abbrev Traced (α : Type) := Trace Event Panic α

namespace Traced
open Trace

/-! ## Frames -/

def getOnePhysicPage (s : Kernel) (pf : PoolFlags) : Traced (Nat × Kernel) := do
  let mPool := s.pool pf
  emit (.scan pf (s.holds pf))
  match ← s.scan s.low mPool.poolBitmap 1 with
  | none => return (0, s)
  | some bitIdx => do
    emit (.set pf (s.holds pf))
    return ((bitIdx * 4096 + mPool.physicAddrStart) % 2 ^ 32,
      { s with low := bitmapSetBit s.low mPool.poolBitmap bitIdx true })

def returnOnePhysicPage (s : Kernel) (pagePhysicAddr : Nat) : Traced Kernel := do
  let pf := if pagePhysicAddr > s.userMemoryPool.physicAddrStart then .userPool else .kernelPool
  emit (.clear pf (s.holds pf))
  return s.returnOnePhysicPage pagePhysicAddr

/-! ## Mappings -/

def pageMapping (s : Kernel) (vaddr physicPageAddr : Nat) : Traced Kernel := do
  let pde ← s.load (getPDEPointer vaddr)
  if present pde then
    let pte ← s.load (getPTEPointer vaddr)
    s.assert (!present pte) (.vpageMapped vaddr)
    if !present pte then
      let s ← s.store (getPTEPointer vaddr) (physicPageAddr ||| 1 ||| 4 ||| 2)
      emit (.entry (vaddr / 4096) s)
      return s
    else lift (.error (.vpageMapped vaddr))
  else
    let (ptePhysicAddr, s) ← getOnePhysicPage s .kernelPool
    let s ← s.store (getPDEPointer vaddr) (ptePhysicAddr ||| 1 ||| 4 ||| 2)
    let s ← s.clearPage (getPTEPointer vaddr / 4096 * 4096)
    let s ← s.store (getPTEPointer vaddr) (physicPageAddr ||| 1 ||| 4 ||| 2)
    emit (.entry (vaddr / 4096) s)
    return s

/-- `PageUnmapping`. The operand of `invlpg` is the variable `v_addr` itself, which is on the stack of the
calling thread, in the page of its PCB. -/
def pageUnmapping (s : Kernel) (vaddr : Nat) : Traced Kernel := do
  let s ← s.pageUnmapping vaddr
  emit (.entry (vaddr / 4096) s)
  emit (.invlpg (s.current / 4096))
  return s

/-! ## Page ranges -/

def pfreePage (s : Kernel) (user : Bool) (vaddr : Nat) : Traced Kernel := do
  let pagePhysicAddr ← s.virtualAddrToPhysicAddr vaddr
  s.assert (decide (pagePhysicAddr ≥ s.userMemoryPool.physicAddrStart) == user) .pfreePool
  let s ← returnOnePhysicPage s pagePhysicAddr
  pageUnmapping s vaddr

def pfree (s : Kernel) (pf : PoolFlags) (vaddrStart pageCnt : Nat) : Traced Kernel := do
  s.assert (pageCnt ≥ 1 ∧ vaddrStart % 4096 = 0) .pfreeArgs
  let pagePhysicAddr ← s.virtualAddrToPhysicAddr vaddrStart
  s.assert (pagePhysicAddr % 4096 = 0 ∧ pagePhysicAddr > 0x102000) .pfreeFrame
  let user : Bool := pagePhysicAddr ≥ s.userMemoryPool.physicAddrStart
  let s ← Trace.forRange (fun i s => pfreePage s user (pageAt vaddrStart i)) pageCnt 0 s
  s.returnVirtualPage pf vaddrStart pageCnt

def pallocFrom (pf : PoolFlags) (vaddrStart : Nat) : Nat → Nat → Kernel → Traced (Nat × Kernel)
  | 0, _, s => pure (vaddrStart, s)
  | pageCnt + 1, vaddr, s => do
    let (pagePhysicAddr, s) ← getOnePhysicPage s pf
    if pagePhysicAddr = 0 then
      let s ← pfree s pf vaddrStart (sub32 vaddr vaddrStart / 4096)
      return (0, s)
    else
      let s ← pageMapping s vaddr pagePhysicAddr
      pallocFrom pf vaddrStart pageCnt ((vaddr + 4096) % 2 ^ 32) s

def palloc (s : Kernel) (pf : PoolFlags) (pageCnt : Nat) : Traced (Nat × Kernel) := do
  s.assert (pageCnt < 3840) .pageCount
  let (vaddrStart, s) ← s.getVirtualPage pf pageCnt
  if vaddrStart = 0 then return (0, s)
  else pallocFrom pf vaddrStart pageCnt vaddrStart s

def lockPool (s : Kernel) (pf : PoolFlags) : Traced Kernel := do
  let s ← s.lockPool pf
  emit (.lock pf)
  return s

def unlockPool (s : Kernel) (pf : PoolFlags) : Traced Kernel := do
  let s ← s.unlockPool pf
  emit (.unlock pf)
  return s

def pallocLocked (s : Kernel) (pf : PoolFlags) (pageCnt : Nat) : Traced (Nat × Kernel) := do
  let s ← lockPool s pf
  let (vaddr, s) ← palloc s pf pageCnt
  let s ← unlockPool s pf
  if vaddr ≠ 0 then
    let s ← s.memsetPages vaddr pageCnt
    return (vaddr, s)
  else
    return (vaddr, s)

def kpalloc (s : Kernel) (pageCnt : Nat) : Traced (Nat × Kernel) := pallocLocked s .kernelPool pageCnt

def upalloc (s : Kernel) (pageCnt : Nat) : Traced (Nat × Kernel) := pallocLocked s .userPool pageCnt

def virtualAddrMapping (s : Kernel) (pf : PoolFlags) (vaddr : Nat) : Traced (Nat × Kernel) := do
  let s ← lockPool s pf
  let t ← s.getPcb s.current
  let s ← s.markPage t pf vaddr
  let (physicPageAddr, s) ← getOnePhysicPage s pf
  if physicPageAddr = 0 then
    return (0, s)
  else
    let s ← pageMapping s vaddr physicPageAddr
    let s ← unlockPool s pf
    return (vaddr, s)

/-! ## The heap -/

def newArena (s : Kernel) (pf : PoolFlags) (desc : Nat) : Traced (Bool × Kernel) := do
  let (av, s) ← palloc s pf 1
  if av = 0 then return (false, s)
  else
    let s ← s.memsetPages av 1
    let s := s.setSpace (s.space.setArena av desc (s.space.memoryBlocksSum desc) 0)
    let s ← lift (Except.forRange (fun blockIdx s => s.addBlock av blockIdx) (s.space.cnt av) 0 s)
    return (true, s)

def ensureBlock (s : Kernel) (pf : PoolFlags) (desc : Nat) : Traced (Bool × Kernel) :=
  if listEmpty s.space (freeList desc) then newArena s pf desc else return (true, s)

/-- `sys_malloc` with the pool's lock held, from the test of `size` against 1024 on. -/
def mallocLocked (s : Kernel) (pf : PoolFlags) (arenas size : Nat) : Traced (Nat × Kernel) := do
  if size > 1024 then
    let pagesNeeded := (size + arenaSize + 4096 - 1) % 2 ^ 32 / 4096
    let (av, s) ← palloc s pf pagesNeeded
    if av ≠ 0 then
      let s ← s.memsetPages av pagesNeeded
      let s := s.setSpace (s.space.setArena av 0 pagesNeeded 1)
      let s ← unlockPool s pf
      return (av + arenaSize, s)
    else
      let s ← unlockPool s pf
      return (0, s)
  else
    let desc := descAt arenas (arenaIdx s.space arenas size arenaSum 0)
    let (ok, s) ← ensureBlock s pf desc
    if ok then
      let (p, m) := takeBlock s.space desc
      let s ← unlockPool (s.setSpace m) pf
      return (p, s)
    else
      let s ← unlockPool s pf
      return (0, s)

def sysMalloc (s : Kernel) (size : Nat) : Traced (Nat × Kernel) := do
  let t ← s.getPcb s.current
  let (pf, arenas) := s.heapOf t
  if ¬ (size > 0 ∧ size < (s.pool pf).poolSize) then return (0, s)
  let s ← lockPool s pf
  mallocLocked s pf arenas size

def freeBlock (s : Kernel) (pf : PoolFlags) (av victim : Nat) : Traced Kernel := do
  let desc := s.space.desc av
  let s ← s.appendFree desc victim
  let s := s.setSpace (s.space.write (av + 4) ((s.space.cnt av + 1) % 2 ^ 32))
  if s.space.cnt av = s.space.memoryBlocksSum (s.space.desc av) then
    let sum := s.space.memoryBlocksSum (s.space.desc av)
    let s ← lift (Except.forRange (fun blockIdx s => s.dropBlock av blockIdx) sum 0 s)
    pfree s pf av 1
  else return s

def giveBack (s : Kernel) (pf : PoolFlags) (av victim : Nat) : Traced Kernel :=
  if s.space.desc av = 0 ∧ s.space.largeRequest av = 1 then pfree s pf av (s.space.cnt av)
  else freeBlock s pf av victim

def sysFree (s : Kernel) (p : Nat) : Traced Kernel := do
  if p = 0 then return s
  let t ← s.getPcb s.current
  let (pf, _) := s.heapOf t
  s.assert (t.pdeAddr ≠ 0 ∨ p ≥ kernelHeapBase) .notKernelHeap
  let s ← lockPool s pf
  let av := block2arena p
  s.assert (s.space.largeRequest av = 1 ∨ s.space.largeRequest av = 0) .largeRequest
  let s ← giveBack s pf av p
  unlockPool s pf

/-! ## Without the events -/

theorem result_getOnePhysicPage (s : Kernel) (pf : PoolFlags) :
    (getOnePhysicPage s pf).result = s.getOnePhysicPage pf := by
  unfold getOnePhysicPage Kernel.getOnePhysicPage
  simp only [result_bind, result_emit, liftM_eq, result_lift, Except.ok_bind]
  congr 1
  funext x
  cases x with
  | none => rfl
  | some bitIdx => rfl

theorem result_pageMapping (s : Kernel) (vaddr pa : Nat) : (pageMapping s vaddr pa).result = s.pageMapping vaddr pa := by
  unfold pageMapping Kernel.pageMapping
  simp only [result_bind, liftM_eq, result_lift]
  congr 1
  funext pde
  split
  · simp only [result_bind, result_lift]
    congr 1
    funext pte
    congr 1
    funext _
    split
    · simp
    · rfl
  · simp only [result_bind, result_lift, result_getOnePhysicPage, result_emit, result_pure, Except.ok_bind,
      Except.bind_ok]

theorem result_pageUnmapping (s : Kernel) (vaddr : Nat) : (pageUnmapping s vaddr).result = s.pageUnmapping vaddr := by
  unfold pageUnmapping
  simp only [result_bind, liftM_eq, result_lift, result_emit, result_pure, Except.ok_bind, Except.bind_ok]

theorem result_pfreePage (s : Kernel) (user : Bool) (vaddr : Nat) :
    (pfreePage s user vaddr).result = s.pfreePage user vaddr := by
  unfold pfreePage Kernel.pfreePage returnOnePhysicPage
  simp only [result_bind, liftM_eq, result_lift, result_emit, result_pure, Except.ok_bind, result_pageUnmapping]

theorem result_pfree (s : Kernel) (pf : PoolFlags) (v n : Nat) : (pfree s pf v n).result = s.pfree pf v n := by
  unfold pfree Kernel.pfree
  simp only [result_bind, liftM_eq, result_lift, result_forRange fun i s => result_pfreePage s _ _]

theorem result_pallocFrom (pf : PoolFlags) (vaddrStart n vaddr : Nat) (s : Kernel) :
    (pallocFrom pf vaddrStart n vaddr s).result = Kernel.pallocFrom pf vaddrStart n vaddr s := by
  induction n generalizing vaddr s with
  | zero => rfl
  | succ n ih =>
    unfold pallocFrom Kernel.pallocFrom
    rw [result_bind, result_getOnePhysicPage]
    congr 1
    funext r
    dsimp only
    split
    · rw [result_bind, result_pfree]
      rfl
    · rw [result_bind, result_pageMapping]
      congr 1
      funext s'
      exact ih _ s'

theorem result_palloc (s : Kernel) (pf : PoolFlags) (n : Nat) : (palloc s pf n).result = s.palloc pf n := by
  unfold palloc Kernel.palloc
  simp only [result_bind, liftM_eq, result_lift]
  congr 1
  funext _
  congr 1
  funext r
  split
  · rfl
  · exact result_pallocFrom _ _ _ _ _

theorem result_lockPool (s : Kernel) (pf : PoolFlags) : (lockPool s pf).result = s.lockPool pf := by
  unfold lockPool
  simp only [result_bind, liftM_eq, result_lift, result_emit, result_pure, Except.ok_bind, Except.bind_ok]

theorem result_unlockPool (s : Kernel) (pf : PoolFlags) : (unlockPool s pf).result = s.unlockPool pf := by
  unfold unlockPool
  simp only [result_bind, liftM_eq, result_lift, result_emit, result_pure, Except.ok_bind, Except.bind_ok]

theorem result_pallocLocked (s : Kernel) (pf : PoolFlags) (n : Nat) :
    (pallocLocked s pf n).result = s.pallocLocked pf n := by
  unfold pallocLocked Kernel.pallocLocked
  simp only [result_bind, result_lockPool, result_palloc, result_unlockPool]
  congr 1
  funext s1
  congr 1
  funext r
  congr 1
  funext s2
  split
  · simp only [result_bind, liftM_eq, result_lift]
    rfl
  · rfl

theorem result_virtualAddrMapping (s : Kernel) (pf : PoolFlags) (v : Nat) :
    (virtualAddrMapping s pf v).result = s.virtualAddrMapping pf v := by
  unfold virtualAddrMapping Kernel.virtualAddrMapping
  simp only [result_bind, liftM_eq, result_lift, result_lockPool, result_getOnePhysicPage]
  congr 1
  funext s1
  congr 1
  funext t
  congr 1
  funext s2
  congr 1
  funext r
  split
  · rfl
  · simp only [result_bind, result_pageMapping, result_unlockPool]
    rfl

theorem result_newArena (s : Kernel) (pf : PoolFlags) (desc : Nat) :
    (newArena s pf desc).result = s.newArena pf desc := by
  unfold newArena Kernel.newArena
  simp only [result_bind, result_palloc]
  congr 1
  funext r
  split
  · rfl
  · simp only [result_bind, liftM_eq, result_lift]
    rfl

theorem result_ensureBlock (s : Kernel) (pf : PoolFlags) (desc : Nat) :
    (ensureBlock s pf desc).result = s.ensureBlock pf desc := by
  unfold ensureBlock Kernel.ensureBlock
  split
  · exact result_newArena s pf desc
  · rfl

theorem result_sysMalloc (s : Kernel) (size : Nat) : (sysMalloc s size).result = s.sysMalloc size := by
  unfold sysMalloc Kernel.sysMalloc mallocLocked
  simp only [result_bind, liftM_eq, result_lift]
  congr 1
  funext t
  split
  · rfl
  · simp only [result_bind, result_lockPool]
    congr 1
    funext s1
    split
    · simp only [result_bind, result_palloc]
      congr 1
      funext r
      split
      · simp only [result_bind, result_unlockPool]
        rfl
      · simp only [result_bind, result_unlockPool]
        rfl
    · simp only [result_bind, result_ensureBlock]
      congr 1
      funext r
      split
      · simp only [result_bind, result_unlockPool]
        rfl
      · simp only [result_bind, result_unlockPool]
        rfl

theorem result_freeBlock (s : Kernel) (pf : PoolFlags) (av victim : Nat) :
    (freeBlock s pf av victim).result = s.freeBlock pf av victim := by
  unfold freeBlock Kernel.freeBlock
  simp only [result_bind, liftM_eq, result_lift]
  congr 1
  funext s1
  split
  · simp only [result_bind, result_lift, result_pfree]
  · rfl

theorem result_giveBack (s : Kernel) (pf : PoolFlags) (av victim : Nat) :
    (giveBack s pf av victim).result = s.giveBack pf av victim := by
  unfold giveBack Kernel.giveBack
  split
  · exact result_pfree _ _ _ _
  · exact result_freeBlock _ _ _ _

theorem result_sysFree (s : Kernel) (p : Nat) : (sysFree s p).result = s.sysFree p := by
  unfold sysFree Kernel.sysFree
  split
  · rfl
  · simp only [result_bind, liftM_eq, result_lift, result_lockPool, result_giveBack, result_unlockPool]

/-! ## The events of one page -/

theorem getOnePhysicPage_events (s : Kernel) (pf : PoolFlags) : (getOnePhysicPage s pf).Sat
    (fun log _ => log = [.scan pf (s.holds pf)] ∨ log = [.scan pf (s.holds pf), .set pf (s.holds pf)])
    fun log _ => log = [.scan pf (s.holds pf)] := by
  unfold getOnePhysicPage
  dsimp only
  cases s.scan s.low (s.pool pf).poolBitmap 1 with
  | error e => exact rfl
  | ok x =>
    cases x with
    | none => exact .inl rfl
    | some bitIdx => exact .inr rfl

theorem pageMapping_fault {s : Kernel} {vaddr pa : Nat} {e : Panic} (h : s.load (getPDEPointer vaddr) = .error e) :
    (pageMapping s vaddr pa).log = [] := by
  unfold pageMapping
  rw [h]
  rfl

/-- With the page table there, only the entry is written. -/
theorem pageMapping_present {s : Kernel} {vaddr pa pde : Nat} (h : s.load (getPDEPointer vaddr) = .ok pde)
    (hp : present pde = true) : (pageMapping s vaddr pa).Sat (fun log s' => log = [.entry (vaddr / 4096) s'])
      fun log _ => log = [] := by
  unfold pageMapping
  rw [h, liftM_eq, lift_ok_bind, if_pos hp]
  cases s.load (getPTEPointer vaddr) with
  | error e => exact rfl
  | ok pte =>
    rw [liftM_eq, lift_ok_bind]
    cases s.assert (!present pte) (.vpageMapped vaddr) with
    | error e => exact rfl
    | ok _ =>
      rw [liftM_eq, lift_ok_bind]
      by_cases hpte : (!present pte) = true
      · rw [if_pos hpte]
        cases s.store (getPTEPointer vaddr) (pa ||| 1 ||| 4 ||| 2) with
        | error e => exact rfl
        | ok s' => exact rfl
      · rw [if_neg hpte]
        exact rfl

/-- Without it, a frame is taken from the kernel pool first. -/
theorem pageMapping_absent {s : Kernel} {vaddr pa pde : Nat} (h : s.load (getPDEPointer vaddr) = .ok pde)
    (hp : present pde = false) : (pageMapping s vaddr pa).Sat
      (fun log s' => ∃ w, log = .scan .kernelPool (s.holds .kernelPool) :: (w ++ [.entry (vaddr / 4096) s']) ∧
        (w = [] ∨ w = [.set .kernelPool (s.holds .kernelPool)]))
      fun log _ => ∃ w, log = .scan .kernelPool (s.holds .kernelPool) :: w ∧
        (w = [] ∨ w = [.set .kernelPool (s.holds .kernelPool)]) := by
  unfold pageMapping
  rw [h, liftM_eq, lift_ok_bind, if_neg (by rw [hp]; exact Bool.false_ne_true)]
  refine Sat.bind (Q := fun log _ => ∃ w, log = .scan .kernelPool (s.holds .kernelPool) :: w ∧
    (w = [] ∨ w = [.set .kernelPool (s.holds .kernelPool)])) ?_ ?_
  · refine (getOnePhysicPage_events s .kernelPool).mono ?_ ?_
    · intro log r hlog
      rcases hlog with rfl | rfl
      · exact ⟨[], rfl, .inl rfl⟩
      · exact ⟨_, rfl, .inr rfl⟩
    · intro log e hlog
      exact ⟨[], hlog, .inl rfl⟩
  · intro log r _ ⟨w, hlog, hw⟩
    obtain ⟨pt, s1⟩ := r
    subst hlog
    dsimp only
    cases s1.store (getPDEPointer vaddr) (pt ||| 1 ||| 4 ||| 2) with
    | error e => exact ⟨w, by simp, hw⟩
    | ok s2 =>
      rw [liftM_eq, lift_ok_bind]
      cases s2.clearPage (getPTEPointer vaddr / 4096 * 4096) with
      | error e => exact ⟨w, by simp, hw⟩
      | ok s3 =>
        rw [liftM_eq, lift_ok_bind]
        cases s3.store (getPTEPointer vaddr) (pa ||| 1 ||| 4 ||| 2) with
        | error e => exact ⟨w, by simp, hw⟩
        | ok s4 => exact ⟨w, rfl, hw⟩

/-- The bitmap that `ReturnOnePhysicPage` writes is told by the frame's address. -/
theorem pfreePage_events {s : Kernel} {user : Bool} {vaddr pa : Nat} (h : s.virtualAddrToPhysicAddr vaddr = .ok pa) :
    let pf := if pa > s.userMemoryPool.physicAddrStart then .userPool else .kernelPool
    (pfreePage s user vaddr).Sat
      (fun log s' => log = [.clear pf (s.holds pf), .entry (vaddr / 4096) s', .invlpg (s'.current / 4096)])
      fun log _ => log = [] ∨ log = [.clear pf (s.holds pf)] := by
  intro pf
  unfold pfreePage
  rw [h, liftM_eq, lift_ok_bind]
  cases s.assert (decide (pa ≥ s.userMemoryPool.physicAddrStart) == user) .pfreePool with
  | error e => exact .inl rfl
  | ok _ =>
    rw [liftM_eq, lift_ok_bind]
    refine Sat.bind (Q := fun log s' => log = [.clear pf (s.holds pf)] ∧ s' = s.returnOnePhysicPage pa) ⟨rfl, rfl⟩ ?_
    intro log s1 _ ⟨hlog, hs1⟩
    subst hlog hs1
    unfold pageUnmapping
    cases (s.returnOnePhysicPage pa).pageUnmapping vaddr with
    | error e => exact .inr rfl
    | ok s' => exact rfl

end Traced

end ElephantOS
