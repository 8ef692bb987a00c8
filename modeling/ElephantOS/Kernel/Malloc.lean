import ElephantOS.Kernel.Memory

/-!
# The heap (`kernel/memory.c`)

`sys_malloc` and `sys_free` work on the heap of the calling thread: that of the kernel, with
`kernel_arena_descs`, or that of a process, with the descriptors in its PCB. An arena is one page cut into
blocks of one size behind its 12-byte header, or the pages of one large request.

* `Space.desc`, `Space.cnt`, `Space.largeRequest` : the header of an arena;
* `arena2block`, `block2arena`, `newArena`, `sysMalloc`, `sysFree` : the functions.
-/

namespace ElephantOS

/-- `av->desc`. -/
def Space.desc (m : Space) (av : Nat) : Nat := m.read av

/-- `av->cnt`. -/
def Space.cnt (m : Space) (av : Nat) : Nat := m.read (av + 4)

/-- `av->large_request`. -/
def Space.largeRequest (m : Space) (av : Nat) : Nat := m.read (av + 8)

/-- The three fields of an arena, in the order in which `sys_malloc` writes them for a large request. -/
def Space.setArena (m : Space) (av desc cnt largeRequest : Nat) : Space :=
  ((m.write av desc).write (av + 4) cnt).write (av + 8) largeRequest

def arena2block (m : Space) (arena idx : Nat) : Nat := arena + arenaSize + idx * m.blockSize (m.desc arena)

def block2arena (block : Nat) : Nat := block / 4096 * 4096

/-- The loop that finds the size class, with `n` descriptors left. -/
def arenaIdx (m : Space) (arenas size : Nat) : Nat → Nat → Nat
  | 0, idx => idx
  | n + 1, idx => if size ≤ m.blockSize (descAt arenas idx) then idx else arenaIdx m arenas size n (idx + 1)

/-- The first block of a free list, cleared, with its arena's `cnt` decremented. -/
def takeBlock (m : Space) (desc : Nat) : Nat × Space :=
  let (m, p) := listPop m (freeList desc)
  let m := m.clear p (m.blockSize desc)
  let av := block2arena p
  (p, m.write (av + 4) (sub32 (m.cnt av) 1))

namespace Kernel

/-- `ASSERT(elem_find(..))` or `ASSERT(!elem_find(..))` on a free list. -/
def assertFind (s : Kernel) (desc obj : Nat) (expected : Bool) : Except Panic Unit :=
  if !s.debug then .ok ()
  else if elemFind Sched.traversal s.space (freeList desc) obj = some expected then .ok ()
  else .error .elemFind

def appendFree (s : Kernel) (desc elem : Nat) : Except Panic Kernel :=
  match listAppend s.space (freeList desc) elem with
  | some m => .ok (s.setSpace m)
  | none => .error .nullElem

/-- One pass of the loop that puts the blocks of a new arena on the free list. -/
def addBlock (s : Kernel) (av blockIdx : Nat) : Except Panic Kernel := do
  let p := arena2block s.space av blockIdx
  s.assertFind (s.space.desc av) p false
  s.appendFree (s.space.desc av) p

/-- A new arena for an empty free list; `false` when there is no page for it. -/
def newArena (s : Kernel) (pf : PoolFlags) (desc : Nat) : Except Panic (Bool × Kernel) := do
  let (av, s) ← s.palloc pf 1
  if av = 0 then return (false, s)
  else
    let s ← s.memsetPages av 1
    let s := s.setSpace (s.space.setArena av desc (s.space.memoryBlocksSum desc) 0)
    let s ← Except.forRange (fun blockIdx s => s.addBlock av blockIdx) (s.space.cnt av) 0 s
    return (true, s)

/-- The free list of the class has a block, or there is no page for a new arena. -/
def ensureBlock (s : Kernel) (pf : PoolFlags) (desc : Nat) : Except Panic (Bool × Kernel) :=
  if listEmpty s.space (freeList desc) then s.newArena pf desc else return (true, s)

/-- What the calling thread's heap is: its pool and its descriptors. -/
def heapOf (s : Kernel) (t : PCB) : PoolFlags × Nat :=
  if t.pdeAddr = 0 then (.kernelPool, s.kernelArenaDescs) else (.userPool, userArenaDescs s.current)

def sysMalloc (s : Kernel) (size : Nat) : Except Panic (Nat × Kernel) := do
  let t ← s.getPcb s.current
  let (pf, arenas) := s.heapOf t
  if ¬ (size > 0 ∧ size < (s.pool pf).poolSize) then return (0, s)
  let s ← s.lockPool pf
  if size > 1024 then
    let pagesNeeded := (size + arenaSize + 4096 - 1) % 2 ^ 32 / 4096
    let (av, s) ← s.palloc pf pagesNeeded
    if av ≠ 0 then
      let s ← s.memsetPages av pagesNeeded
      let s := s.setSpace (s.space.setArena av 0 pagesNeeded 1)
      let s ← s.unlockPool pf
      return (av + arenaSize, s)
    else
      let s ← s.unlockPool pf
      return (0, s)
  else
    let desc := descAt arenas (arenaIdx s.space arenas size arenaSum 0)
    let (ok, s) ← s.ensureBlock pf desc
    if ok then
      let (p, m) := takeBlock s.space desc
      let s ← (s.setSpace m).unlockPool pf
      return (p, s)
    else
      let s ← s.unlockPool pf
      return (0, s)

/-- One pass of the loop that takes the blocks of an arena off the free list. -/
def dropBlock (s : Kernel) (av blockIdx : Nat) : Except Panic Kernel := do
  let victim := arena2block s.space av blockIdx
  s.assertFind (s.space.desc av) victim true
  return s.setSpace (listRemove s.space victim)

/-- `sys_free` of a block: onto the free list, and its arena back to the pool when that was the last one. -/
def freeBlock (s : Kernel) (pf : PoolFlags) (av victim : Nat) : Except Panic Kernel := do
  let desc := s.space.desc av
  let s ← s.appendFree desc victim
  let s := s.setSpace (s.space.write (av + 4) ((s.space.cnt av + 1) % 2 ^ 32))
  if s.space.cnt av = s.space.memoryBlocksSum (s.space.desc av) then
    let sum := s.space.memoryBlocksSum (s.space.desc av)
    let s ← Except.forRange (fun blockIdx s => s.dropBlock av blockIdx) sum 0 s
    s.pfree pf av 1
  else return s

/-- The pages of a large request back to the pool, or a block to its arena. -/
def giveBack (s : Kernel) (pf : PoolFlags) (av victim : Nat) : Except Panic Kernel :=
  if s.space.desc av = 0 ∧ s.space.largeRequest av = 1 then s.pfree pf av (s.space.cnt av)
  else s.freeBlock pf av victim

def sysFree (s : Kernel) (p : Nat) : Except Panic Kernel := do
  if p = 0 then return s
  let t ← s.getPcb s.current
  let (pf, _) := s.heapOf t
  s.assert (t.pdeAddr ≠ 0 ∨ p ≥ kernelHeapBase) .notKernelHeap
  let s ← s.lockPool pf
  let av := block2arena p
  s.assert (s.space.largeRequest av = 1 ∨ s.space.largeRequest av = 0) .largeRequest
  let s ← s.giveBack pf av p
  s.unlockPool pf

end Kernel

end ElephantOS
