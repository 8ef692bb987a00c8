import ElephantOS.Kernel.Bitmap
import ElephantOS.Kernel.List
import ElephantOS.Kernel.Paging
import ElephantOS.Kernel.Space
import ElephantOS.Lib.Except
import ElephantOS.Thread.Lock
import ElephantOS.Thread.Sched

/-!
# The page allocator (`kernel/memory.c`, `userprog/process.c`)

Addresses and sizes are 32-bit; NULL is 0. Memory is kept by what is in it: the words of page tables by
frame (`ram`), the bytes of the bitmaps of `VmemPoolInit` (`low`) and of each process's address bitmap
(`userBits`), all by virtual address, the PCBs, and the remaining words of the kernel half (`kmem`) and of
each process's user half (`umem`).

* `Panic` : the `ASSERT`s and `PANIC`s, the page fault, and a lock that would make an atomic call wait;
* `getVirtualPage` … `virtualAddrMapping` : the functions of `memory.c`, by the current thread;
* `creatPDE`, `execProcess`, `threadStart`, `activePDE` : what the page allocator is used for when
  threads are made and switched (the thread lists are those of `Sched`);
* `vmemPoolInit`, `boot` : the state after `VmemInit` and `ThreadInit`, with zero RAM above 1MB.

Data by virtual address is what the machine has as long as every page with data has a frame of its own and the TLB
names that frame; `Memory.TlbRuns` has the runs in which it is so, and what is said of the data in the heaps is said of
these. The bitmaps are apart from the PCB of the main thread as long as they end below it, which they do exactly when
there are fewer than 0x15760000 bytes (`layout_sound_iff`); `Kernel.saveEsp` is the store of `switch_to` to that PCB.
-/

namespace ElephantOS

/-- `enum pool_flags`. -/
inductive PoolFlags where
  | kernelPool
  | userPool
  deriving DecidableEq, Repr

inductive Panic where
  /-- `BitmapScan`: `ASSERT(byte_idx < btmp->bitmap_bytes_len)` -/
  | bitmapFull
  /-- `PageMapping`: the page is already mapped -/
  | vpageMapped (vaddr : Nat)
  /-- the MMU finds no present entry -/
  | pageFault (vaddr : Nat)
  /-- `palloc`: `ASSERT(page_cnt < 3840)` -/
  | pageCount
  /-- `pfree`: its argument -/
  | pfreeArgs
  /-- `pfree`: the first frame -/
  | pfreeFrame
  /-- `pfree`: a frame of the other pool -/
  | pfreePool
  /-- `VirtualAddrMapping`: `ASSERT(bitmap_idx > 0)` -/
  | mappingIndex
  /-- `VirtualAddrMapping`: the wrong pool for the thread -/
  | mappingSpace
  /-- `ExecProcess`, `CreatUserVaddrBitmap`: no memory -/
  | noMemory
  /-- an `ASSERT` of the pool lock -/
  | lockAssert
  /-- the pool lock is taken: an atomic call cannot go on -/
  | lockBusy
  /-- a PCB pointer to no thread -/
  | wildPcb
  /-- `sys_malloc`, `sys_free`: an `ASSERT` on `elem_find` -/
  | elemFind
  /-- `list_insert_before`: `ASSERT(elem != NULL)` -/
  | nullElem
  /-- `sys_free`: `ASSERT(av->large_request == 1 || av->large_request == 0)` -/
  | largeRequest
  /-- `sys_free`: `ASSERT((size_t) p >= KERNEL_HEAP_BASE)` -/
  | notKernelHeap
  deriving DecidableEq, Repr

structure MemoryPool where
  poolBitmap : Bitmap
  physicAddrStart : Nat
  poolSize : Nat
  lock : Lock Nat

/-- The words in `kmem` and `umem` are found through the page tables: two pages with one frame have the same words on
the machine, and not here. -/
structure Kernel where
  /-- `DEBUG` of `debug.h`: `ASSERT` is active -/
  debug : Bool
  low : Bytes
  kernelMemoryPool : MemoryPool
  userMemoryPool : MemoryPool
  kernelVaddr : VirtualAddr
  ram : Ram
  /-- the frame of the directory in use -/
  cr3 : Nat
  pcb : Nat → Option PCB
  userBits : Nat → Bytes
  /-- `GetCurrentThreadPCB()` -/
  current : Nat
  nextPid : Nat
  kmem : Nat → Nat
  umem : Nat → Nat → Nat
  /-- the link-time address of `kernel_arena_descs` -/
  kernelArenaDescs : Nat

@[irreducible] def memBitmapBase : Nat := 0xC009A000

def kernelHeapBase : Nat := 0xC0100000

def VirtualAddr.bitmap (v : VirtualAddr) : Bitmap := ⟨v.bitmapBytesLen, v.bits⟩

/-- Subtraction of `size_t`s. -/
def sub32 (a b : Nat) : Nat := (a + 2 ^ 32 - b) % 2 ^ 32

/-- The page `i` pages after `vaddr`. -/
def pageAt (vaddr i : Nat) : Nat := (vaddr + i * 4096) % 2 ^ 32

/-- `n` calls of `BitmapSetBit` for consecutive bits. -/
def setBits (m : Bytes) (btmp : Bitmap) (value : Bool) : Nat → Nat → Bytes
  | 0, _ => m
  | n + 1, bitIdx => setBits (bitmapSetBit m btmp bitIdx value) btmp value n (bitIdx + 1)

/-! ## Arena descriptors -/

/-- `ARENA_SUM`. -/
def arenaSum : Nat := 7

/-- `sizeof(struct arena)`. -/
def arenaSize : Nat := 12

/-- The address of `desc_array[idx]`: `struct arena_desc` has 24 bytes. -/
def descAt (descs idx : Nat) : Nat := descs + 24 * idx

/-- `&desc->free_list`. -/
def freeList (desc : Nat) : KList Nat := ⟨desc + 8, desc + 16⟩

/-- `desc->block_size`. -/
def Space.blockSize (m : Space) (desc : Nat) : Nat := m.read desc

/-- `desc->memory_blocks_sum`. -/
def Space.memoryBlocksSum (m : Space) (desc : Nat) : Nat := m.read (desc + 4)

/-- One pass of the loop of `ArenaInit`. -/
def arenaInitDesc (m : Space) (desc blockSize : Nat) : Space :=
  let m := m.write desc blockSize
  let m := m.write (desc + 4) ((4096 - arenaSize) / blockSize)
  listInit m (freeList desc)

def arenaInitFrom (descArray : Nat) : Nat → Nat → Nat → Space → Space
  | 0, _, _, m => m
  | n + 1, idx, blockSize, m =>
    arenaInitFrom descArray n (idx + 1) (blockSize * 2) (arenaInitDesc m (descAt descArray idx) blockSize)

def arenaInit (m : Space) (descArray : Nat) : Space := arenaInitFrom descArray arenaSum 0 16 m

/-- `PCB.user_arena_descs` is at offset 64. -/
def userArenaDescs (pthread : Nat) : Nat := pthread + 64

namespace Kernel

def assert (s : Kernel) (condition : Bool) (e : Panic) : Except Panic Unit :=
  if condition || !s.debug then .ok () else .error e

def getPcb (s : Kernel) (p : Nat) : Except Panic PCB :=
  match s.pcb p with
  | some t => .ok t
  | none => .error .wildPcb

def scan (s : Kernel) (m : Bytes) (btmp : Bitmap) (cnt : Nat) : Except Panic (Option Nat) :=
  match bitmapScan s.debug m btmp cnt with
  | some r => .ok r
  | none => .error .bitmapFull

def pool (s : Kernel) : PoolFlags → MemoryPool
  | .kernelPool => s.kernelMemoryPool
  | .userPool => s.userMemoryPool

def setLock (s : Kernel) (pf : PoolFlags) (lock : Lock Nat) : Kernel :=
  match pf with
  | .kernelPool => { s with kernelMemoryPool := { s.kernelMemoryPool with lock := lock } }
  | .userPool => { s with userMemoryPool := { s.userMemoryPool with lock := lock } }

/-- `sys_lock_lock` on the lock of a pool. -/
def lockPool (s : Kernel) (pf : PoolFlags) : Except Panic Kernel :=
  match sysLockLock (s.pool pf).lock (fun _ => .running) s.current with
  | some (lock, _, .passed) => .ok (s.setLock pf lock)
  | some (_, _, .blocked) => .error .lockBusy
  | none => .error .lockAssert

def unlockPool (s : Kernel) (pf : PoolFlags) : Except Panic Kernel :=
  match sysLockUnlock (s.pool pf).lock (fun _ => .running) s.current with
  | some (lock, _) => .ok (s.setLock pf lock)
  | none => .error .lockAssert

/-! ## Accesses through the MMU -/

def load (s : Kernel) (v : Nat) : Except Panic Nat :=
  match s.ram.load s.cr3 v with
  | some w => .ok w
  | none => .error (.pageFault v)

def store (s : Kernel) (v w : Nat) : Except Panic Kernel :=
  match s.ram.store s.cr3 v w with
  | some ram => .ok { s with ram := ram }
  | none => .error (.pageFault v)

def clearPage (s : Kernel) (v : Nat) : Except Panic Kernel :=
  match ElephantOS.clearPage s.ram s.cr3 v with
  | some ram => .ok { s with ram := ram }
  | none => .error (.pageFault v)

/-- The data words the current thread sees. -/
def space (s : Kernel) : Space := ⟨s.umem s.current, s.kmem⟩

def setSpace (s : Kernel) (m : Space) : Kernel :=
  { s with umem := fun p a => if p = s.current then m.user a else s.umem p a, kmem := m.kern }

/-- `memset` of the page at `v` to 0: whatever the page will be used for. -/
def memsetPage (s : Kernel) (v : Nat) : Except Panic Kernel := do
  let s ← s.clearPage v
  return s.setSpace (s.space.clear v 4096)

def memsetPages (s : Kernel) (v n : Nat) : Except Panic Kernel :=
  Except.forRange (fun i s => s.memsetPage (pageAt v i)) n 0 s

/-! ## Virtual pages -/

def getVirtualPage (s : Kernel) (pf : PoolFlags) (requestPageCnt : Nat) : Except Panic (Nat × Kernel) :=
  match pf with
  | .kernelPool => do
    match ← s.scan s.low s.kernelVaddr.bitmap requestPageCnt with
    | some idx => return ((s.kernelVaddr.vaddrStart + idx * 4096) % 2 ^ 32,
        { s with low := setBits s.low s.kernelVaddr.bitmap true requestPageCnt idx })
    | none => return (0, s)
  | .userPool => do
    let t ← s.getPcb s.current
    match ← s.scan (s.userBits s.current) t.userprogVaddr.bitmap requestPageCnt with
    | some idx => return ((t.userprogVaddr.vaddrStart + idx * 4096) % 2 ^ 32,
        { s with userBits := Function.update s.userBits s.current
                    (setBits (s.userBits s.current) t.userprogVaddr.bitmap true requestPageCnt idx) })
    | none => return (0, s)

def returnVirtualPage (s : Kernel) (pf : PoolFlags) (vaddr pageCnt : Nat) : Except Panic Kernel :=
  match pf with
  | .kernelPool =>
    let bitIdxStart := sub32 vaddr s.kernelVaddr.vaddrStart / 4096
    return { s with low := setBits s.low s.kernelVaddr.bitmap false pageCnt bitIdxStart }
  | .userPool => do
    let t ← s.getPcb s.current
    let bitIdxStart := sub32 vaddr t.userprogVaddr.vaddrStart / 4096
    return { s with userBits := Function.update s.userBits s.current
                      (setBits (s.userBits s.current) t.userprogVaddr.bitmap false pageCnt bitIdxStart) }

/-! ## Frames -/

/-- `GetOnePhysicPage`: the address of the frame, 0 when the pool has none. -/
def getOnePhysicPage (s : Kernel) (pf : PoolFlags) : Except Panic (Nat × Kernel) := do
  let mPool := s.pool pf
  match ← s.scan s.low mPool.poolBitmap 1 with
  | none => return (0, s)
  | some bitIdx => return ((bitIdx * 4096 + mPool.physicAddrStart) % 2 ^ 32,
      { s with low := bitmapSetBit s.low mPool.poolBitmap bitIdx true })

def returnOnePhysicPage (s : Kernel) (pagePhysicAddr : Nat) : Kernel :=
  let pf := if pagePhysicAddr > s.userMemoryPool.physicAddrStart then .userPool else .kernelPool
  let bitIdx := sub32 pagePhysicAddr (s.pool pf).physicAddrStart / 4096
  { s with low := bitmapSetBit s.low (s.pool pf).poolBitmap bitIdx false }

/-! ## Mappings -/

def virtualAddrToPhysicAddr (s : Kernel) (vaddr : Nat) : Except Panic Nat := do
  let pte ← s.load (getPTEPointer vaddr)
  return frameOf pte * 4096 + vaddr % 4096

def pageMapping (s : Kernel) (vaddr physicPageAddr : Nat) : Except Panic Kernel := do
  let pde ← s.load (getPDEPointer vaddr)
  if present pde then
    let pte ← s.load (getPTEPointer vaddr)
    s.assert (!present pte) (.vpageMapped vaddr)
    if !present pte then s.store (getPTEPointer vaddr) (physicPageAddr ||| 1 ||| 4 ||| 2)
    else .error (.vpageMapped vaddr)
  else
    let (ptePhysicAddr, s) ← s.getOnePhysicPage .kernelPool
    let s ← s.store (getPDEPointer vaddr) (ptePhysicAddr ||| 1 ||| 4 ||| 2)
    let s ← s.clearPage (getPTEPointer vaddr / 4096 * 4096)
    s.store (getPTEPointer vaddr) (physicPageAddr ||| 1 ||| 4 ||| 2)

/-- `PageUnmapping`: `*pte &= PAGE_P_0`. -/
def pageUnmapping (s : Kernel) (vaddr : Nat) : Except Panic Kernel := do
  let pte ← s.load (getPTEPointer vaddr)
  s.store (getPTEPointer vaddr) (pte &&& 0)

/-! ## Page ranges -/

/-- The body of the two loops of `pfree`, which differ in the pool they expect. -/
def pfreePage (s : Kernel) (user : Bool) (vaddr : Nat) : Except Panic Kernel := do
  let pagePhysicAddr ← s.virtualAddrToPhysicAddr vaddr
  s.assert (decide (pagePhysicAddr ≥ s.userMemoryPool.physicAddrStart) == user) .pfreePool
  (s.returnOnePhysicPage pagePhysicAddr).pageUnmapping vaddr

def pfree (s : Kernel) (pf : PoolFlags) (vaddrStart pageCnt : Nat) : Except Panic Kernel := do
  s.assert (pageCnt ≥ 1 ∧ vaddrStart % 4096 = 0) .pfreeArgs
  let pagePhysicAddr ← s.virtualAddrToPhysicAddr vaddrStart
  s.assert (pagePhysicAddr % 4096 = 0 ∧ pagePhysicAddr > 0x102000) .pfreeFrame
  let user : Bool := pagePhysicAddr ≥ s.userMemoryPool.physicAddrStart
  let s ← Except.forRange (fun i s => s.pfreePage user (pageAt vaddrStart i)) pageCnt 0 s
  s.returnVirtualPage pf vaddrStart pageCnt

/-- The loop of `palloc` with `pageCnt` pages to go. -/
def pallocFrom (pf : PoolFlags) (vaddrStart : Nat) : Nat → Nat → Kernel → Except Panic (Nat × Kernel)
  | 0, _, s => .ok (vaddrStart, s)
  | pageCnt + 1, vaddr, s => do
    let (pagePhysicAddr, s) ← s.getOnePhysicPage pf
    if pagePhysicAddr = 0 then
      let s ← s.pfree pf vaddrStart (sub32 vaddr vaddrStart / 4096)
      return (0, s)
    else
      let s ← s.pageMapping vaddr pagePhysicAddr
      pallocFrom pf vaddrStart pageCnt ((vaddr + 4096) % 2 ^ 32) s

def palloc (s : Kernel) (pf : PoolFlags) (pageCnt : Nat) : Except Panic (Nat × Kernel) := do
  s.assert (pageCnt < 3840) .pageCount
  let (vaddrStart, s) ← s.getVirtualPage pf pageCnt
  if vaddrStart = 0 then return (0, s)
  else pallocFrom pf vaddrStart pageCnt vaddrStart s

/-- `kpalloc` and `upalloc`. -/
def pallocLocked (s : Kernel) (pf : PoolFlags) (pageCnt : Nat) : Except Panic (Nat × Kernel) := do
  let s ← s.lockPool pf
  let (vaddr, s) ← s.palloc pf pageCnt
  let s ← s.unlockPool pf
  if vaddr ≠ 0 then
    let s ← s.memsetPages vaddr pageCnt
    return (vaddr, s)
  else
    return (vaddr, s)

def kpalloc (s : Kernel) (pageCnt : Nat) : Except Panic (Nat × Kernel) := s.pallocLocked .kernelPool pageCnt

def upalloc (s : Kernel) (pageCnt : Nat) : Except Panic (Nat × Kernel) := s.pallocLocked .userPool pageCnt

/-- `VirtualAddrMapping` marks the page in the caller's address bitmap. -/
def markPage (s : Kernel) (t : PCB) (pf : PoolFlags) (vaddr : Nat) : Except Panic Kernel :=
  if t.pdeAddr ≠ 0 ∧ pf = .userPool then do
    let bitmapIdx := sub32 vaddr t.userprogVaddr.vaddrStart / 4096
    s.assert (bitmapIdx > 0) .mappingIndex
    return { s with userBits := Function.update s.userBits s.current
                      (bitmapSetBit (s.userBits s.current) t.userprogVaddr.bitmap bitmapIdx true) }
  else if t.pdeAddr = 0 ∧ pf = .kernelPool then do
    let bitmapIdx := sub32 vaddr s.kernelVaddr.vaddrStart / 4096
    s.assert (bitmapIdx > 0) .mappingIndex
    return { s with low := bitmapSetBit s.low s.kernelVaddr.bitmap bitmapIdx true }
  else .error .mappingSpace

def virtualAddrMapping (s : Kernel) (pf : PoolFlags) (vaddr : Nat) : Except Panic (Nat × Kernel) := do
  let s ← s.lockPool pf
  let t ← s.getPcb s.current
  let s ← s.markPage t pf vaddr
  let (physicPageAddr, s) ← s.getOnePhysicPage pf
  if physicPageAddr = 0 then
    -- the lock is not given back here
    return (0, s)
  else
    let s ← s.pageMapping vaddr physicPageAddr
    let s ← s.unlockPool pf
    return (vaddr, s)

/-! ## Threads and processes -/

/-- One word of a `memcpy`. -/
def copyWord (s : Kernel) (dst src : Nat) : Except Panic Kernel := do
  let w ← s.load src
  s.store dst w

/-- `CreatPDE`: the kernel's entries, entry 0 and the directory's own entry 1023. -/
def creatPDE (s : Kernel) : Except Panic (Nat × Kernel) := do
  let (pde, s) ← s.kpalloc 1
  if pde = 0 then return (0, s)
  else
    let s ← Except.forRange (fun i s => s.copyWord (pde + 4 * i) (0xFFFFF000 + 4 * i)) 256 0x300 s
    let s ← s.copyWord pde 0xFFFFF000
    let newPhysicAddr ← s.virtualAddrToPhysicAddr pde
    let s ← s.store (pde + 4 * 1023) (newPhysicAddr ||| 100 ||| 10 ||| 1)
    return (pde, s)

/-- `InitThread` and `ThreadCreate` on the page `p`. -/
def initPcb (s : Kernel) (p : Nat) (priority : Int) : PCB :=
  initThread Sched.mainPage p ((s.nextPid + 1) % 65536) priority

/-- `ThreadStart`, without the thread lists. -/
def threadStart (s : Kernel) (priority : Int) : Except Panic (Nat × Kernel) := do
  let (p, s) ← s.kpalloc 1
  s.assert (p ≠ 0) .noMemory
  return (p, { s with nextPid := (s.nextPid + 1) % 65536
                      pcb := Function.update s.pcb p (some (threadCreate (s.initPcb p priority))) })

/-- `ExecProcess`, without the thread lists. The pages of `kpalloc` are clear, so are the bitmap's. -/
def execProcess (s : Kernel) : Except Panic (Nat × Kernel) := do
  let (p, s) ← s.kpalloc 1
  s.assert (p ≠ 0) .noMemory
  let t := s.initPcb p 31
  let s := { s with nextPid := (s.nextPid + 1) % 65536 }
  let (bits, s) ← s.kpalloc (((0xC0000000 - 0x8048000) / 4096 / 8 + 4096 - 1) / 4096)
  s.assert (bits ≠ 0) .noMemory
  let s := { s with userBits := Function.update s.userBits p (fun _ => 0#8) }
  let (pde, s) ← s.creatPDE
  let s := s.setSpace (arenaInit s.space (userArenaDescs p))
  s.assert (pde ≠ 0) .noMemory
  return (p, { s with pcb := Function.update s.pcb p (some (processPcb t bits pde)) })

/-- `ActivePDE`. -/
def activePDE (s : Kernel) (t : PCB) : Except Panic Kernel := do
  if t.pdeAddr ≠ 0 then
    let pa ← s.virtualAddrToPhysicAddr t.pdeAddr
    return { s with cr3 := pa / 4096 }
  else
    return { s with cr3 := 0x100 }

/-- The switch to another thread in `ScheduleThread`. -/
def switchTo (s : Kernel) (next : Nat) : Except Panic Kernel := do
  let t ← s.getPcb next
  let s ← s.activePDE t
  return { s with current := next }

end Kernel

/-! ## Boot -/

/-- What `SetupPage` leaves in zero RAM: the low megabyte at 0 and at 0xC0000000, the page tables of the
kernel half, the directory in its own entry 1023 (the loader's flags are the decimal 100, 10 and 1). -/
def bootRam : Ram := fun f i =>
  if f = 0x100 then
    if i = 0 then 0x101 * 4096 + 0x6F
    else if i = 1023 then 0x100 * 4096 + 0x6F
    else if 768 ≤ i ∧ i < 1023 then (0x101 + (i - 768)) * 4096 + 0x6F
    else 0
  else if f = 0x101 ∧ i < 256 then i * 4096 + 0x6F
  else 0

/-- The sizes `VmemPoolInit` computes, in its words. -/
structure Layout where
  kernelFreePages : Nat
  userFreePages : Nat
  deriving DecidableEq, Repr

def usedMem : Nat := 4096 * 256 + 0x100000

def layout (allMem : Nat) : Layout :=
  let freePagesSum := sub32 allMem usedMem / 4096
  ⟨freePagesSum / 2, freePagesSum - freePagesSum / 2⟩

def Layout.kernelBitmapLength (l : Layout) : Nat := l.kernelFreePages / 8

def Layout.userBitmapLength (l : Layout) : Nat := l.userFreePages / 8

def Layout.kernelPool (l : Layout) : MemoryPool where
  poolBitmap := ⟨l.kernelBitmapLength, memBitmapBase⟩
  physicAddrStart := usedMem
  poolSize := l.kernelFreePages * 4096
  lock := lockInit

def Layout.userPool (l : Layout) : MemoryPool where
  poolBitmap := ⟨l.userBitmapLength, memBitmapBase + l.kernelBitmapLength⟩
  physicAddrStart := usedMem + l.kernelFreePages * 4096
  poolSize := l.userFreePages * 4096
  lock := lockInit

def Layout.kernelVaddr (l : Layout) : VirtualAddr :=
  ⟨l.kernelBitmapLength, l.kernelBitmapLength + l.userBitmapLength + memBitmapBase, kernelHeapBase⟩

/-- After `VmemInit` and `ThreadInit` on a machine with `allMem` bytes; `low` is what the memory of the
bitmaps and after them held. The PCB of the main thread is in `pcb`, and not in `low`: that is so on machines with
`allMem < 0x15760000`, where no bitmap gets to it. -/
def boot (allMem : Nat) (low : Bytes) (kernelArenaDescs : Nat) : Kernel :=
  let l := layout allMem
  let low := bitmapInit low l.kernelVaddr.bitmap
  let low := bitmapInit low l.kernelPool.poolBitmap
  let low := bitmapInit low l.userPool.poolBitmap
  { debug := true
    low := low
    kernelMemoryPool := l.kernelPool
    userMemoryPool := l.userPool
    kernelVaddr := l.kernelVaddr
    ram := bootRam
    cr3 := 0x100
    pcb := Function.update (fun _ => none) Sched.mainPage (some (initThread Sched.mainPage Sched.mainPage 1 31))
    userBits := fun _ _ => 0#8
    current := Sched.mainPage
    nextPid := 1
    kmem := (arenaInit ⟨fun _ => 0, fun _ => 0⟩ kernelArenaDescs).kern
    umem := fun _ _ => 0
    kernelArenaDescs := kernelArenaDescs }

end ElephantOS
