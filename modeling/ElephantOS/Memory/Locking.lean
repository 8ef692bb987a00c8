import ElephantOS.Lib.Guarded
import ElephantOS.Memory.Directories
import ElephantOS.Memory.MallocStops

/-!
# The locks of the memory pools

A call takes the lock of one pool: the kernel's, or the one of user pages. It touches the bitmap of the other pool
in two places. `PageMapping` takes a frame of the kernel pool for a page table that is missing, and
`ReturnOnePhysicPage` takes the first frame of the user pool for one of the kernel's.

* `Held` : all accesses to pool bitmaps are made by the holder of the pool's lock; `Keeps`, `Guards` : the same for
  the locks taken and given back on the way;
* `Kernel.TablesReady`, `PoolCall.Covered` : when a call does not get to these places;
* `pool_locks_iff` : exactly then its accesses are made with the locks, and calls for which that is so can be
  interleaved in any way; it is about machines with `allMem < 0x15760000`, on which the layout is sound.
-/

namespace ElephantOS
open Kernel Sys Guarded

/-! ## Events and locks -/

/-- An access to a pool bitmap is made by the holder of the pool's lock. -/
def Event.held : Event → Bool
  | .scan _ h => h
  | .set _ h => h
  | .clear _ h => h
  | _ => true

def Held (log : List Event) : Prop := ∀ e ∈ log, e.held = true

/-- What concerns the locks and the bitmaps of the pools. -/
def Event.act : Event → Option (Act PoolFlags)
  | .lock pf => some (.acquire pf)
  | .unlock pf => some (.release pf)
  | .scan pf _ => some (.scan pf)
  | .set pf _ => some (.take pf)
  | .clear pf _ => some (.give pf)
  | _ => none

def acts (log : List Event) : List (Act PoolFlags) := log.filterMap Event.act

@[simp] theorem acts_append (a b : List Event) : acts (a ++ b) = acts a ++ acts b := List.filterMap_append

structure Keeps (own : Set PoolFlags) (log : List Event) (own' : Set PoolFlags) : Prop where
  held : Held log
  disciplined : Disciplined own (acts log)
  locks : locks own (acts log) = own'

namespace Keeps
variable {own own' own'' : Set PoolFlags} {log log' : List Event} {pf : PoolFlags}

theorem nil (own : Set PoolFlags) : Keeps own [] own := ⟨by simp [Held], trivial, rfl⟩

theorem append (h : Keeps own log own') (h' : Keeps own' log' own'') : Keeps own (log ++ log') own'' := by
  refine ⟨?_, ?_, ?_⟩
  · intro e he
    rcases List.mem_append.1 he with he | he
    · exact h.held e he
    · exact h'.held e he
  · rw [acts_append, disciplined_append, h.locks]
    exact ⟨h.disciplined, h'.disciplined⟩
  · rw [acts_append, locks_append, h.locks]
    exact h'.locks

def Inside (pf : PoolFlags) : Event → Prop
  | .lock _ => False
  | .unlock _ => False
  | .scan q h => q = pf ∧ h = true
  | .set q h => q = pf ∧ h = true
  | .clear q h => q = pf ∧ h = true
  | _ => True

theorem event {e : Event} (h : Inside pf e) : Keeps {pf} [e] {pf} := by
  have hheld : ∀ b : Bool, e.held = b → b = true → Held [e] := by
    intro b hb htrue e' he'
    rw [List.mem_singleton.1 he', hb, htrue]
  cases e with
  | lock q => exact h.elim
  | unlock q => exact h.elim
  | scan q b =>
    obtain ⟨rfl, rfl⟩ := h
    exact ⟨hheld _ rfl rfl, ⟨rfl, trivial⟩, rfl⟩
  | set q b =>
    obtain ⟨rfl, rfl⟩ := h
    exact ⟨hheld _ rfl rfl, ⟨rfl, trivial⟩, rfl⟩
  | clear q b =>
    obtain ⟨rfl, rfl⟩ := h
    exact ⟨hheld _ rfl rfl, ⟨rfl, trivial⟩, rfl⟩
  | entry vp k => exact ⟨hheld _ rfl rfl, trivial, rfl⟩
  | invlpg vp => exact ⟨hheld _ rfl rfl, trivial, rfl⟩

theorem of_inside (h : ∀ e ∈ log, Inside pf e) : Keeps {pf} log {pf} := by
  induction log with
  | nil => exact .nil _
  | cons e log ih =>
    have hrest := ih fun e' he' => h e' (List.mem_cons_of_mem e he')
    exact (event (h e List.mem_cons_self)).append hrest

end Keeps

/-- The events of `x`, which a thread runs with the locks in `own`. -/
def Guards {α : Type} (own : Set PoolFlags) (x : Traced α) (own' : Set PoolFlags) : Prop :=
  x.Goes Keeps own fun _ => own'

section Rules
variable {α β : Type} {own own' own'' : Set PoolFlags} {x : Traced α} {pf : PoolFlags}

theorem Guards.bind {f : α → Traced β} (hx : Guards own x own')
    (hf : ∀ a, x.result = .ok a → Guards own' (f a) own'') : Guards own (x >>= f) own'' :=
  Trace.Goes.bind Keeps.append hx hf

theorem Guards.bind_ok {f : α → Traced β} {a : α} (hx : Guards own x own') (hr : x.result = .ok a)
    (hf : Guards own' (f a) own'') : Guards own (x >>= f) own'' := by
  apply hx.bind
  intro b hb
  rw [hr] at hb
  cases hb
  exact hf

theorem Guards.of_keeps (h : Keeps own x.log own') : Guards own x own' := .of_log (fun _ _ => h) ⟨_, h⟩

theorem Guards.lift (x : Except Panic α) : Guards own (Trace.lift x) own := .of_keeps (.nil own)

theorem Guards.stop (e : Panic) : Guards own (Trace.lift (.error e) : Traced α) own' := by
  refine .of_log ?_ ⟨own, .nil own⟩
  intro r hr
  cases hr

theorem Guards.pure (a : α) : Guards own (Pure.pure a : Traced α) own := .of_keeps (.nil own)

theorem Guards.forRange {f : Nat → α → Traced α} (P : Nat → α → Prop) {n i : Nat} {s : α} (h0 : P i s)
    (hstep : ∀ j t, j < i + n → P j t → Guards own (f j t) own ∧ ∀ t', (f j t).result = .ok t' → P (j + 1) t') :
    Guards own (Trace.forRange f n i s) own :=
  Trace.Goes.forRange .nil Keeps.append P h0 hstep

theorem guards_lockPool (s : Kernel) (pf : PoolFlags) : Guards ∅ (Traced.lockPool s pf) {pf} := by
  unfold Traced.lockPool
  apply (Guards.lift (s.lockPool pf)).bind
  intro s' _
  apply Guards.of_keeps
  refine ⟨?_, ⟨trivial, trivial⟩, ?_⟩
  · intro e he
    rw [List.mem_singleton.1 he]
    rfl
  · show insert pf ∅ = {pf}
    exact insert_empty_eq pf

theorem guards_unlockPool (s : Kernel) (pf : PoolFlags) : Guards {pf} (Traced.unlockPool s pf) ∅ := by
  unfold Traced.unlockPool
  apply (Guards.lift (s.unlockPool pf)).bind
  intro s' _
  apply Guards.of_keeps
  refine ⟨?_, ⟨rfl, trivial⟩, ?_⟩
  · intro e he
    rw [List.mem_singleton.1 he]
    rfl
  · show ({pf} : Set PoolFlags) \ {pf} = ∅
    exact Set.sdiff_self

end Rules

/-! ## One page -/

section Pages
variable {l : Layout} {s t : Kernel} {pf : PoolFlags}

theorem Kernel.SameRest.holds {s' : Kernel} (h : SameRest s s') (pf : PoolFlags) : s'.holds pf = s.holds pf := by
  unfold Kernel.holds
  rw [h.pool, h.current]

theorem guards_getOnePhysicPage (h : s.holds pf = true) : Guards {pf} (Traced.getOnePhysicPage s pf) {pf} := by
  have hev := Traced.getOnePhysicPage_events s pf
  rw [h] at hev
  apply Guards.of_keeps
  apply Keeps.of_inside
  cases hr : (Traced.getOnePhysicPage s pf).result with
  | ok r =>
    rcases hev.of_ok hr with hlog | hlog
    · rw [hlog]
      simp [Keeps.Inside]
    · rw [hlog]
      simp [Keeps.Inside]
  | error e =>
    rw [hev.of_error hr]
    simp [Keeps.Inside]

/-- `PageMapping` with the lock of the kernel pool, or with the page table there. -/
theorem guards_pageMapping {v pa : Nat} (h : ∀ pde, s.load (getPDEPointer v) = .ok pde → present pde = false →
    pf = .kernelPool ∧ s.holds .kernelPool = true) : Guards {pf} (Traced.pageMapping s v pa) {pf} := by
  apply Guards.of_keeps
  apply Keeps.of_inside
  cases hload : s.load (getPDEPointer v) with
  | error e =>
    rw [Traced.pageMapping_fault hload]
    intro e' he'
    cases he'
  | ok pde =>
    cases hp : present pde with
    | true =>
      have hev : Trace.Sat (Traced.pageMapping s v pa) _ _ := Traced.pageMapping_present hload hp
      cases hr : (Traced.pageMapping s v pa).result with
      | ok s' =>
        rw [hev.of_ok hr]
        simp [Keeps.Inside]
      | error e =>
        rw [hev.of_error hr]
        simp
    | false =>
      obtain ⟨rfl, hholds⟩ := h pde hload hp
      have hev : Trace.Sat (Traced.pageMapping s v pa) _ _ := Traced.pageMapping_absent hload hp
      rw [hholds] at hev
      cases hr : (Traced.pageMapping s v pa).result with
      | ok s' =>
        obtain ⟨w, hlog, hw⟩ := hev.of_ok hr
        rw [hlog]
        rcases hw with rfl | rfl
        · simp [Keeps.Inside]
        · simp [Keeps.Inside]
      | error e =>
        obtain ⟨w, hlog, hw⟩ := hev.of_error hr
        rw [hlog]
        rcases hw with rfl | rfl
        · simp [Keeps.Inside]
        · simp [Keeps.Inside]

theorem unheld_pageMapping {v pa pde : Nat} (hload : s.load (getPDEPointer v) = .ok pde) (hp : present pde = false)
    (hk : s.holds .kernelPool = false) : ¬ Held (Traced.pageMapping s v pa).log := by
  have hev : Trace.Sat (Traced.pageMapping s v pa) _ _ := Traced.pageMapping_absent hload hp
  rw [hk] at hev
  intro hheld
  cases hr : (Traced.pageMapping s v pa).result with
  | ok s' =>
    obtain ⟨w, hlog, -⟩ := hev.of_ok hr
    rw [hlog] at hheld
    exact Bool.false_ne_true (hheld _ List.mem_cons_self)
  | error e =>
    obtain ⟨w, hlog, -⟩ := hev.of_error hr
    rw [hlog] at hheld
    exact Bool.false_ne_true (hheld _ List.mem_cons_self)

theorem Kernel.PageInv.load_pde {pend : Page → Prop} (hi : PageInv l pend s) {v : Nat} (hv : v < 2 ^ 32) :
    s.load (getPDEPointer v) = .ok (s.ram s.cr3 (v / 4096 / 1024)) := by
  have hload := ElephantOS.load_pde (hi.tables.selfMapped hi.threads.isDir) v
  rw [pdeIdx_page hv] at hload
  exact load_eq hload

/-! ## `palloc` -/

theorem Held.left {α β : Type} {x : Traced α} {f : α → Traced β} (h : Held (x >>= f).log) : Held x.log :=
  fun e he => h e (Trace.mem_log_bind_left he f)

theorem Held.right {α β : Type} {x : Traced α} {f : α → Traced β} {a : α} (h : Held (x >>= f).log)
    (hr : x.result = .ok a) : Held (f a).log :=
  fun e he => h e (Trace.mem_log_bind_right hr he)

theorem guards_palloc_zero (own : Set PoolFlags) (s : Kernel) (pf : PoolFlags) : Guards own (Traced.palloc s pf 0) own := by
  unfold Traced.palloc
  apply (Guards.lift (s.assert _ _)).bind
  intro _ _
  apply (Guards.lift (s.getVirtualPage pf 0)).bind
  intro ⟨v, s1⟩ _
  dsimp only
  split
  · exact .pure _
  · exact .pure _

section Loops
variable {vp n j : Nat}

theorem guards_pallocFrom (hl : l.Sized) (hm : Mappable l s .kernelPool vp n) (hs : s.holds .kernelPool = true)
    (todo : Nat) (hj : j + todo = n) (h : Pallocing l s t .kernelPool vp n j) :
    Guards {.kernelPool} (Traced.pallocFrom .kernelPool (vp * 4096) todo ((vp + j) * 4096) t) {.kernelPool} := by
  induction todo generalizing j t with
  | zero => exact .pure _
  | succ todo ih =>
    have hge := l.start_ge .kernelPool
    have ht : t.holds .kernelPool = true := by
      rw [h.got.rest.holds]
      exact hs
    unfold Traced.pallocFrom
    apply (guards_getOnePhysicPage ht).bind
    intro r hr
    rw [Traced.result_getOnePhysicPage] at hr
    obtain ⟨i, hlt, hfree, heq⟩ := (getOnePhysicPage_sat hl h.inv.config .kernelPool).of_ok hr
    subst heq
    dsimp only
    rw [if_neg (by omega)]
    refine (guards_pageMapping ?_).bind ?_
    · intro _ _ _
      exact ⟨rfl, ht⟩
    · intro t2 hr2
      rw [Traced.result_pageMapping] at hr2
      obtain ⟨hlast, h2, -⟩ := (h.pageMapping hl hm (by omega) hlt hfree).of_ok hr2
      rw [next_vaddr hlast, Nat.add_assoc]
      exact ih (by omega) h2

end Loops

theorem guards_palloc (hl : l.Sized) (hi : PageInv l Stable s) (hs : s.holds .kernelPool = true) (n : Nat) :
    Guards {.kernelPool} (Traced.palloc s .kernelPool n) {.kernelPool} := by
  rcases Nat.eq_zero_or_pos n with rfl | hn
  · exact guards_palloc_zero _ s _
  · unfold Traced.palloc
    apply (Guards.lift (s.assert _ _)).bind
    intro _ _
    apply (Guards.lift (s.getVirtualPage .kernelPool n)).bind
    intro ⟨v, s1⟩ hr
    rw [Trace.result_lift] at hr
    rcases (getVirtualPage_sat hi hn).of_ok hr with heq | ⟨vp, hpos, hvp, hres⟩
    · cases heq
      exact .pure _
    · dsimp only at hvp hres ⊢
      subst hvp
      obtain ⟨hm, hstart⟩ := hres.start hi
      have hloop := guards_pallocFrom hl hm (by rw [hres.rest.holds]; exact hs) n (Nat.zero_add n) hstart
      rw [Nat.add_zero] at hloop
      rw [if_neg (by omega)]
      exact hloop

/-! ## `palloc` of user pages -/

/-- The pages of a run for which the user pool has frames have their page tables. -/
def Kernel.HasTables (k : Kernel) (vp n : Nat) : Prop := k.missingTables vp (min n (k.freeFrames .userPool)) = 0

/-- `palloc(USER_POOL, n)` by the process `t` needs no page table: it is refused, or finds no pages, or the pages it
finds have theirs. -/
def Kernel.TablesReady (k : Kernel) (t : PCB) (n : Nat) : Prop :=
  n < 3840 → match bitmapScan true (k.userBits k.current) t.userprogVaddr.bitmap n with
    | some (some idx) => k.HasTables (userFirst + idx) n
    | _ => True

section Loops
variable {vp n j : Nat}

theorem hasTables_succ {todo : Nat} (hp : present (s.ram s.cr3 (vp / 1024)) = true)
    (hdir : ∀ j, present (t.ram t.cr3 j) = present (s.ram s.cr3 j)) (htaken : PageTaken s t vp) :
    s.HasTables vp (todo + 1) ↔ t.HasTables (vp + 1) todo := by
  have huser := htaken.user
  unfold HasTables
  rw [show min (todo + 1) (s.freeFrames .userPool) = min todo (t.freeFrames .userPool) + 1 by omega,
    missingTables_present hp hdir]

theorem hasTables_one (hp : present (s.ram s.cr3 (vp / 1024)) = true) : s.HasTables vp 1 := by
  have hone : s.missingTables vp (0 + 1) = 0 := by
    rw [missingTables_present hp (fun _ => rfl) 0, missingTables_zero]
  unfold HasTables
  rcases Nat.eq_zero_or_pos (s.freeFrames .userPool) with hzero | hpos
  · rw [hzero, Nat.min_zero, missingTables_zero]
  · rw [Nat.min_eq_left hpos]
    exact hone

theorem not_hasTables {todo : Nat} (hp : present (s.ram s.cr3 (vp / 1024)) = false)
    (hpos : 0 < s.freeFrames .userPool) : ¬ s.HasTables vp (todo + 1) := by
  have hmissing := missingTables_pos hp (min todo (s.freeFrames .userPool - 1))
  unfold HasTables
  rw [show min (todo + 1) (s.freeFrames .userPool) = min todo (s.freeFrames .userPool - 1) + 1 by omega]
  omega

/-- The loop of `palloc` for a process, which has the lock of the user pool only. -/
theorem pallocFrom_user (hl : l.Sized) (hm : Mappable l s .userPool vp n) (hs : s.holds .userPool = true)
    (hk : s.holds .kernelPool = false) (todo : Nat) (hj : j + todo = n) (h : Pallocing l s t .userPool vp n j) :
    (t.HasTables (vp + j) todo →
      Guards {.userPool} (Traced.pallocFrom .userPool (vp * 4096) todo ((vp + j) * 4096) t) {.userPool}) ∧
    (Held (Traced.pallocFrom .userPool (vp * 4096) todo ((vp + j) * 4096) t).log → t.HasTables (vp + j) todo) := by
  induction todo generalizing j t with
  | zero =>
    refine ⟨fun _ => .pure _, fun _ => ?_⟩
    unfold HasTables
    rw [Nat.zero_min, missingTables_zero]
  | succ todo ih =>
    have hge := l.start_ge .userPool
    have hi := h.inv
    have hle : vp + j ≤ 0xC0000 := h.last
    have ht : t.holds .userPool = true := by
      rw [h.got.rest.holds]
      exact hs
    have htk : t.holds .kernelPool = false := by
      rw [h.got.rest.holds]
      exact hk
    have hget := getOnePhysicPage_sat hl hi.config .userPool
    unfold Traced.pallocFrom
    cases hr : t.getOnePhysicPage .userPool with
    | error e =>
      obtain ⟨-, hfull⟩ := hget.of_error hr
      rw [← hi.config.freeFrames_zero] at hfull
      refine ⟨fun _ => ?_, fun _ => ?_⟩
      · apply (guards_getOnePhysicPage ht).bind
        intro r hr'
        rw [Traced.result_getOnePhysicPage, hr] at hr'
        cases hr'
      · unfold HasTables
        rw [hfull, Nat.min_zero, missingTables_zero]
    | ok r =>
      have hr' := (Traced.result_getOnePhysicPage t .userPool).trans hr
      obtain ⟨i, hlt, hfree, rfl⟩ := hget.of_ok hr
      have hpos : 0 < t.freeFrames .userPool := hi.config.freeFrames_pos.2 ⟨i, hlt, hfree⟩
      have hmap := h.pageMapping hl hm (by omega) hlt hfree
      have hpde : Kernel.load { t with low := bitmapSetBit t.low (t.pool .userPool).poolBitmap i true }
          (getPDEPointer ((vp + j) * 4096)) = .ok (t.ram t.cr3 ((vp + j) / 1024)) := by
        have hload := hi.load_pde (v := (vp + j) * 4096) (by omega)
        rwa [page_div] at hload
      -- the page has its table
      have hguards : present (t.ram t.cr3 ((vp + j) / 1024)) = true →
          Guards {.userPool} (Traced.pageMapping { t with low := bitmapSetBit t.low (t.pool .userPool).poolBitmap i true }
            ((vp + j) * 4096) ((l.start .userPool + i) * 4096)) {.userPool} := by
        intro hpres
        apply guards_pageMapping
        intro pde hload hp
        rw [hpde] at hload
        cases hload
        rw [hpres] at hp
        cases hp
      have hpa : (l.start .userPool + i) * 4096 ≠ 0 := by omega
      rcases Nat.lt_or_eq_of_le hle with hlast | hlast
      · obtain ⟨hvp, hproc, hu⟩ := h.user hm (by omega) hlast
        have hentry := entry_user hi.threads hproc hvp
        cases htab : t.tab t.current ((vp + j) / 1024) with
        | some table =>
          rw [htab] at hentry
          have hpres := (entry_eq_some.1 hentry).1
          obtain ⟨t2, hok, htaken, hdir⟩ := mapPage_present hi hvp hproc hlt hfree hu htab
          have hok' := (Traced.result_pageMapping _ _ _).trans hok
          obtain ⟨-, h2, -⟩ := hmap.of_ok hok
          obtain ⟨ih1, ih2⟩ := ih (j := j + 1) (by omega) h2
          have hiff : t.HasTables (vp + j) (todo + 1) ↔ t2.HasTables (vp + (j + 1)) todo :=
            hasTables_succ hpres hdir htaken
          have hnext : ((vp + j) * 4096 + 4096) % 2 ^ 32 = (vp + (j + 1)) * 4096 := by omega
          refine ⟨fun hT => (guards_getOnePhysicPage ht).bind_ok hr' ?_, fun hH => hiff.2 (ih2 ?_)⟩
          · dsimp only
            rw [if_neg hpa]
            refine (hguards hpres).bind_ok hok' ?_
            rw [hnext]
            exact ih1 (hiff.1 hT)
          · have hH1 := hH.right hr'
            dsimp only at hH1
            rw [if_neg hpa] at hH1
            have hH2 := hH1.right hok'
            rwa [hnext] at hH2
        | none =>
          rw [htab, entry_eq_none] at hentry
          refine ⟨fun hT => absurd hT (not_hasTables hentry hpos), fun hH => ?_⟩
          have hH1 := hH.right hr'
          dsimp only at hH1
          rw [if_neg hpa] at hH1
          exact absurd hH1.left (unheld_pageMapping hpde hentry htk)
      · -- the page past the end is the kernel's, and has its table
        have hend : vp + n ≤ 0xC0000 + 1 := hm.run.2.2.2
        have hpres : present (t.ram t.cr3 ((vp + j) / 1024)) = true := by
          rw [hlast]
          exact (entry_eq_some.1 (hi.tables.shared hi.threads.isDir (j := 768) (by omega) (by omega))).1
        refine ⟨fun _ => (guards_getOnePhysicPage ht).bind_ok hr' ?_, fun _ => ?_⟩
        · dsimp only
          rw [if_neg hpa]
          apply (hguards hpres).bind
          intro t2 hr2
          rw [Traced.result_pageMapping] at hr2
          have : vp + j < 0xC0000 := (hmap.of_ok hr2).1
          omega
        · rw [show todo = 0 by omega]
          exact hasTables_one hpres

end Loops

theorem tablesReady_zero (k : Kernel) (p : PCB) : k.TablesReady p 0 := by
  intro _
  split
  · unfold HasTables
    rw [Nat.zero_min, missingTables_zero]
  · trivial

theorem palloc_user (hl : l.Sized) (hi : PageInv l Stable s) {p : PCB} (hp : s.pcb s.current = some p)
    (hs : s.holds .userPool = true) (hk : s.holds .kernelPool = false) (n : Nat) :
    (s.TablesReady p n → Guards {.userPool} (Traced.palloc s .userPool n) {.userPool}) ∧
    (Held (Traced.palloc s .userPool n).log → s.TablesReady p n) := by
  rcases Nat.eq_zero_or_pos n with rfl | hn
  · exact ⟨fun _ => guards_palloc_zero _ s _, fun _ => tablesReady_zero s p⟩
  have ha : s.HasVaddr .userPool p.userprogVaddr := ⟨p, hp, rfl⟩
  have heq := getVirtualPage_eq hi.config ha n
  rw [show s.vbytes .userPool = s.userBits s.current from rfl] at heq
  unfold Traced.palloc TablesReady
  by_cases hcnt : n < 3840
  · have hassert : s.assert (decide (n < 3840)) .pageCount = .ok () := by simp [hcnt]
    rw [hassert, Trace.liftM_eq, Trace.lift_ok_bind]
    cases hscan : bitmapScan true (s.userBits s.current) p.userprogVaddr.bitmap n with
    | none =>
      rw [heq, hscan]
      exact ⟨fun _ => .lift _, fun _ _ => trivial⟩
    | some x =>
      cases x with
      | none =>
        rw [heq, hscan]
        exact ⟨fun _ => .pure _, fun _ _ => trivial⟩
      | some idx =>
        obtain ⟨hok, hres⟩ := getVirtualPage_user hi hp hn hscan
        obtain ⟨hm, hbegin⟩ := hres.start hi
        obtain ⟨h1, h2⟩ := pallocFrom_user hl hm (by rw [hres.rest.holds]; exact hs) (by rw [hres.rest.holds]; exact hk)
          n (Nat.zero_add n) hbegin
        have hiff : (s.setPages .userPool p.userprogVaddr true n idx).HasTables (userFirst + idx) n ↔
            s.HasTables (userFirst + idx) n := by
          unfold HasTables
          rw [hi.config.freeFrames_setPages ha]
          rfl
        rw [Nat.add_zero, hiff] at h1 h2
        rw [hok, Trace.liftM_eq, Trace.lift_ok_bind]
        dsimp only
        rw [if_neg (by unfold userFirst; omega)]
        exact ⟨fun hT => h1 (hT hcnt), fun hH _ => h2 hH⟩
  · have hassert : s.assert (decide (n < 3840)) .pageCount = .error .pageCount := by
      simp [assert, hcnt, hi.config.debug]
    rw [hassert]
    exact ⟨fun _ => .lift _, fun _ h => absurd h hcnt⟩

/-! ## `pfree` -/

/-- The pages `vp`, …, `vp + n - 1` are none in the first frame of the user pool. -/
def Kernel.NotFirst (k : Kernel) (pf : PoolFlags) (vp n : Nat) : Prop :=
  ∀ i < n, k.map (k.pageOf pf (vp + i)) ≠ some (k.userMemoryPool.physicAddrStart / 4096)

theorem Kernel.Config.first_frame (hc : s.Config l) : s.userMemoryPool.physicAddrStart = l.userStart * 4096 :=
  hc.start .userPool

/-- The pool that `ReturnOnePhysicPage` gives a frame back to. -/
theorem return_pool (hc : s.Config l) {f : Nat} (hf : l.start pf ≤ f ∧ f < l.start pf + l.frames pf) :
    (if f * 4096 > s.userMemoryPool.physicAddrStart then PoolFlags.userPool else .kernelPool) =
      if f = s.userMemoryPool.physicAddrStart / 4096 then .kernelPool else pf := by
  have hle := l.frames_le
  rw [hc.first_frame, page_div]
  cases pf with
  | kernelPool =>
    change 0x200 ≤ f ∧ f < 0x200 + l.kernelFrames at hf
    have hlt : f < l.userStart := by
      unfold Layout.userStart
      omega
    rw [if_neg (by omega), if_neg (by omega)]
  | userPool =>
    change l.userStart ≤ f ∧ _ at hf
    by_cases heq : f = l.userStart
    · rw [if_pos heq, if_neg (by omega)]
    · rw [if_neg heq, if_pos (by omega)]

/-- One page of `pfree`: the bitmap that is written. -/
theorem Kernel.Pfreeing.log (hl : l.Sized) (hi : PageInv l Stable s) {vp n j : Nat} (hf : Freeable s pf vp n)
    (h : Pfreeing l s t pf vp j) (hj : j < n) :
    ∃ t', (Traced.pfreePage t (pf == .userPool) (pageAt (vp * 4096) j)).result = .ok t' ∧
      Pfreeing l s t' pf vp (j + 1) ∧
      (Traced.pfreePage t (pf == .userPool) (pageAt (vp * 4096) j)).log =
        let q := if s.map (s.pageOf pf (vp + j)) = some (s.userMemoryPool.physicAddrStart / 4096) then .kernelPool else pf
        [.clear q (s.holds q), .entry (vp + j) t', .invlpg (t'.current / 4096)] := by
  obtain ⟨t', f, haddr, hmap, hfp, hok, h', -⟩ := h.pfreePage hl hi hf hj
  have hres := Traced.result_pfreePage t (pf == .userPool) ((vp + j) * 4096)
  rw [hok] at hres
  have hlog := (Traced.pfreePage_events (h.inv.virtualAddrToPhysicAddr hfp)).of_ok hres
  rw [Nat.mul_mod_left, Nat.add_zero, return_pool h.inv.config (h.inv.frame_range hfp), page_div] at hlog
  have huser : t.userMemoryPool = s.userMemoryPool := h.gone.rest.pool .userPool
  refine ⟨t', by rw [haddr]; exact hres, h', ?_⟩
  rw [haddr, hlog, hmap, huser, h.gone.rest.holds]
  simp only [Option.some.injEq]

theorem guards_pfree (hl : l.Sized) (hi : PageInv l Stable s) {vp n : Nat} (hn : 1 ≤ n) (hfree : Freeable s pf vp n)
    (hs : s.holds pf = true) (hne : s.NotFirst pf vp n) : Guards {pf} (Traced.pfree s pf (vp * 4096) n) {pf} := by
  rw [Traced.pfree_eq hi hn hfree]
  refine (Guards.forRange (fun j t => Pfreeing l s t pf vp j) (.zero hi vp) ?_).bind ?_
  · intro j t hj ht
    rw [Nat.zero_add] at hj
    obtain ⟨t', hok, ht', hlog⟩ := ht.log hl hi hfree hj
    rw [if_neg (hne j hj)] at hlog
    dsimp only at hlog
    rw [hs] at hlog
    refine ⟨.of_keeps (.of_inside ?_), ?_⟩
    · rw [hlog]
      simp [Keeps.Inside]
    · intro t2 ht2
      rw [hok] at ht2
      cases ht2
      exact ht'
  · intro s1 _
    exact .lift _

theorem Held.forRange {α : Type} {f : Nat → α → Traced α} (P : Nat → α → Prop) {n i : Nat} {s : α} (h0 : P i s)
    (hstep : ∀ j t, j < i + n → P j t → ∃ t', (f j t).result = .ok t' ∧ P (j + 1) t')
    (h : Held (Trace.forRange f n i s).log) {j : Nat} (hij : i ≤ j) (hj : j < i + n) :
    ∃ t, P j t ∧ Held (f j t).log := by
  induction n generalizing i s with
  | zero => omega
  | succ n ih =>
    rcases Nat.eq_or_lt_of_le hij with rfl | hlt
    · exact ⟨s, h0, h.left⟩
    · obtain ⟨t, hok, ht⟩ := hstep i s (by omega) h0
      refine ih ht ?_ (h.right hok) hlt (by omega)
      intro j' t' hj'
      exact hstep j' t' (by omega)

/-- With the lock of the user pool only, the first frame of the pool is given back to the other one. -/
theorem pfree_notFirst (hl : l.Sized) (hi : PageInv l Stable s) {vp n : Nat} (hn : 1 ≤ n)
    (hfree : Freeable s .userPool vp n) (hk : s.holds .kernelPool = false)
    (h : Held (Traced.pfree s .userPool (vp * 4096) n).log) : s.NotFirst .userPool vp n := by
  rw [Traced.pfree_eq hi hn hfree] at h
  intro j hj hfirst
  obtain ⟨t, ht, hheld⟩ := h.left.forRange (fun j t => Pfreeing l s t .userPool vp j) (.zero hi vp)
    (fun j t hj ht => by
      obtain ⟨t', hok, ht', -⟩ := ht.log hl hi hfree (by omega)
      exact ⟨t', hok, ht'⟩) (Nat.zero_le j) (by omega)
  obtain ⟨t', -, -, hlog⟩ := ht.log hl hi hfree hj
  rw [if_pos hfirst] at hlog
  dsimp only at hlog
  rw [hk] at hlog
  rw [hlog] at hheld
  exact Bool.false_ne_true (hheld _ List.mem_cons_self)

end Pages

/-! ## The calls -/

section Calls
variable {l : Layout} {s : Kernel} {pf : PoolFlags} {p : PCB}

theorem setLock_holds (s : Kernel) (pf : PoolFlags) : (s.setLock pf (heldBy s.current)).holds pf = true := by
  cases pf <;> simp [Kernel.holds, setLock, pool, heldBy]

theorem setLock_holds_other (hu : s.Unlocked) : (s.setLock .userPool (heldBy s.current)).holds .kernelPool = false := by
  have hlock := hu .kernelPool
  unfold Kernel.holds
  change decide ((s.pool .kernelPool).lock.holder = some s.current) = false
  rw [hlock]
  rfl

theorem traced_lockPool (hu : s.Unlocked) (pf : PoolFlags) :
    (Traced.lockPool s pf).result = .ok (s.setLock pf (heldBy s.current)) := by
  rw [Traced.result_lockPool, lockPool_ok hu]

/-- Once `palloc` has returned, `kpalloc` and `upalloc` give the lock back and clear the pages. -/
theorem guards_pallocLocked (hu : s.Unlocked) {n : Nat}
    (h : Guards {pf} (Traced.palloc (s.setLock pf (heldBy s.current)) pf n) {pf}) :
    Guards ∅ (Traced.pallocLocked s pf n) ∅ := by
  unfold Traced.pallocLocked
  apply (guards_lockPool s pf).bind_ok (traced_lockPool hu _)
  apply h.bind
  intro ⟨v, s1⟩ _
  dsimp only
  apply (guards_unlockPool s1 pf).bind
  intro s2 _
  split
  · apply (Guards.lift (s2.memsetPages v n)).bind
    intro s3 _
    exact .pure _
  · exact .pure _

theorem guards_kpalloc (hl : l.Sized) (hi : PageInv l Stable s) (hu : s.Unlocked) (n : Nat) :
    Guards ∅ (Traced.kpalloc s n) ∅ := by
  apply guards_pallocLocked hu
  exact guards_palloc hl ((SamePaging.setLock s _ _).inv hi) (setLock_holds s _) n

theorem upalloc_guards (hl : l.Sized) (hi : PageInv l Stable s) (hu : s.Unlocked) (hp : s.pcb s.current = some p)
    (n : Nat) : (s.TablesReady p n → Guards ∅ (Traced.upalloc s n) ∅) ∧ (Held (Traced.upalloc s n).log → s.TablesReady p n) := by
  have hpaging := SamePaging.setLock s .userPool (heldBy s.current)
  obtain ⟨h1, h2⟩ := palloc_user hl (hpaging.inv hi) (p := p) (by rw [hpaging.pcb, hpaging.current]; exact hp)
    (setLock_holds s _) (setLock_holds_other hu) n
  refine ⟨?_, ?_⟩
  · intro hT
    exact guards_pallocLocked hu (h1 hT)
  · intro hH
    unfold Traced.upalloc Traced.pallocLocked at hH
    exact h2 (hH.right (traced_lockPool hu _)).left

/-! ## `sys_malloc` -/

def Kernel.mallocPages (k : Kernel) (arenas size : Nat) : Nat :=
  if size > 1024 then (size + arenaSize + 4096 - 1) % 2 ^ 32 / 4096
  else if listEmpty k.space (freeList (descAt arenas (arenaIdx k.space arenas size arenaSum 0))) then 1
  else 0

theorem guards_mallocLocked {arenas size : Nat}
    (h : Guards {pf} (Traced.palloc s pf (s.mallocPages arenas size)) {pf}) :
    Guards {pf} (Traced.mallocLocked s pf arenas size) ∅ := by
  unfold mallocPages at h
  unfold Traced.mallocLocked
  split
  · rename_i hlarge
    rw [if_pos hlarge] at h
    apply h.bind
    rintro ⟨av, s1⟩ -
    dsimp only
    split
    · apply (Guards.lift (s1.memsetPages av _)).bind
      intro s2 _
      apply (guards_unlockPool _ pf).bind
      intro s3 _
      exact .pure _
    · apply (guards_unlockPool s1 pf).bind
      intro s2 _
      exact .pure _
  · rename_i hsmall
    rw [if_neg hsmall] at h
    have hblock : Guards {pf} (Traced.ensureBlock s pf (descAt arenas (arenaIdx s.space arenas size arenaSum 0))) {pf} := by
      unfold Traced.ensureBlock
      split
      · rename_i hempty
        rw [if_pos hempty] at h
        unfold Traced.newArena
        apply h.bind
        rintro ⟨av, s1⟩ -
        dsimp only
        split
        · exact .pure _
        · apply (Guards.lift (s1.memsetPages av 1)).bind
          intro s2 _
          apply (Guards.lift (Except.forRange _ _ _ _)).bind
          intro s3 _
          exact .pure _
      · exact .pure _
    apply hblock.bind
    rintro ⟨ok, s1⟩ -
    dsimp only
    split
    · apply (guards_unlockPool _ pf).bind
      intro s2 _
      exact .pure _
    · apply (guards_unlockPool s1 pf).bind
      intro s2 _
      exact .pure _

theorem Held.palloc_of_malloc {arenas size : Nat} (h : Held (Traced.mallocLocked s pf arenas size).log) :
    s.mallocPages arenas size = 0 ∨ Held (Traced.palloc s pf (s.mallocPages arenas size)).log := by
  unfold mallocPages
  unfold Traced.mallocLocked at h
  split
  · rename_i hlarge
    rw [if_pos hlarge] at h
    exact .inr h.left
  · rename_i hsmall
    rw [if_neg hsmall] at h
    have hblock := h.left
    split
    · rename_i hempty
      unfold Traced.ensureBlock Traced.newArena at hblock
      rw [if_pos hempty] at hblock
      exact .inr hblock.left
    · exact .inl rfl

/-- `sys_malloc(size)` by `p` needs no page table: it is a kernel thread, or the request is refused, or the pages
have theirs. -/
def Kernel.MallocReady (k : Kernel) (p : PCB) (size : Nat) : Prop :=
  p.pdeAddr ≠ 0 → 0 < size → size < k.userMemoryPool.poolSize →
    k.TablesReady p (k.mallocPages (userArenaDescs k.current) size)

theorem sysMalloc_guards (hl : l.Sized) (hi : PageInv l Stable s) (hu : s.Unlocked) (hp : s.pcb s.current = some p)
    (size : Nat) : (s.MallocReady p size → Guards ∅ (Traced.sysMalloc s size) ∅) ∧
      (Held (Traced.sysMalloc s size).log → s.MallocReady p size) := by
  unfold Traced.sysMalloc MallocReady
  rw [getPcb, hp]
  dsimp only
  rw [Trace.liftM_eq, Trace.lift_ok_bind]
  unfold heapOf
  by_cases hpd : p.pdeAddr = 0
  · rw [if_pos hpd]
    dsimp only
    refine ⟨fun _ => ?_, fun _ h => absurd hpd h⟩
    split
    · exact .pure _
    · apply (guards_lockPool s .kernelPool).bind_ok (traced_lockPool hu _)
      apply guards_mallocLocked
      exact guards_palloc hl ((SamePaging.setLock s _ _).inv hi) (setLock_holds s _) _
  · rw [if_neg hpd]
    dsimp only
    have hpaging := SamePaging.setLock s .userPool (heldBy s.current)
    obtain ⟨h1, h2⟩ := palloc_user hl (hpaging.inv hi) (p := p) (by rw [hpaging.pcb, hpaging.current]; exact hp)
      (setLock_holds s _) (setLock_holds_other hu) (s.mallocPages (userArenaDescs s.current) size)
    split
    · rename_i hsize
      refine ⟨fun _ => .pure _, fun _ _ hpos hlt => absurd ⟨hpos, hlt⟩ hsize⟩
    · rename_i hsize
      rw [not_not] at hsize
      refine ⟨?_, ?_⟩
      · intro hT
        apply (guards_lockPool s .userPool).bind_ok (traced_lockPool hu _)
        exact guards_mallocLocked (h1 (hT hpd hsize.1 hsize.2))
      · intro hH _ _ _
        rcases (hH.right (traced_lockPool hu _)).palloc_of_malloc with hzero | hheld
        · have hzero' : s.mallocPages (userArenaDescs s.current) size = 0 := hzero
          rw [hzero']
          exact tablesReady_zero s p
        · exact h2 hheld

/-! ## `VirtualAddrMapping` -/

theorem markPage_rest {s' : Kernel} {v : Nat} (h : s.markPage p pf v = .ok s') : SameRest s s' := by
  unfold markPage at h
  split at h
  · obtain ⟨_, -, h⟩ := Except.bind_eq_ok.1 h
    cases h
    rfl
  · split at h
    · obtain ⟨_, -, h⟩ := Except.bind_eq_ok.1 h
      cases h
      rfl
    · cases h

/-- `VirtualAddrMapping` from the point on where the page is marked. -/
def mapMarked (s : Kernel) (pf : PoolFlags) (v : Nat) : Traced (Nat × Kernel) := do
  let (physicPageAddr, s) ← Traced.getOnePhysicPage s pf
  if physicPageAddr = 0 then
    return (0, s)
  else
    let s ← Traced.pageMapping s v physicPageAddr
    let s ← Traced.unlockPool s pf
    return (v, s)

theorem virtualAddrMapping_eq (s : Kernel) (pf : PoolFlags) (v : Nat) : Traced.virtualAddrMapping s pf v = (do
    let s ← Traced.lockPool s pf
    let t ← s.getPcb s.current
    let s ← s.markPage t pf v
    mapMarked s pf v) := rfl

theorem guards_mapMarked (hl : l.Sized) (hc : s.Config l) (hs : s.holds pf = true) {v : Nat}
    (h : 0 < s.freeFrames pf → ∀ pde, s.load (getPDEPointer v) = .ok pde → present pde = false →
      pf = .kernelPool ∧ s.holds .kernelPool = true) : Guards {pf} (mapMarked s pf v) ∅ := by
  have hge := l.start_ge pf
  unfold mapMarked
  apply (guards_getOnePhysicPage hs).bind
  intro r hr
  rw [Traced.result_getOnePhysicPage] at hr
  obtain ⟨i, hlt, hfree, rfl⟩ := (getOnePhysicPage_sat hl hc pf).of_ok hr
  dsimp only
  rw [if_neg (by omega)]
  refine (guards_pageMapping ?_).bind ?_
  · intro pde hload hpres
    exact h (hc.freeFrames_pos.2 ⟨i, hlt, hfree⟩) pde hload hpres
  · intro s1 _
    apply (guards_unlockPool s1 pf).bind
    intro s2 _
    exact .pure _

/-- With the lock of the user pool only, the page has its table. -/
theorem Held.mapMarked (hl : l.Sized) (hc : s.Config l) (hk : s.holds .kernelPool = false)
    (hpos : 0 < s.freeFrames .userPool) {v pde : Nat} (hload : s.load (getPDEPointer v) = .ok pde)
    (h : Held (mapMarked s .userPool v).log) : present pde = true := by
  have hge := l.start_ge .userPool
  unfold ElephantOS.mapMarked at h
  obtain ⟨i, hlt, hbit⟩ := hc.freeFrames_pos.1 hpos
  rcases (getOnePhysicPage_sat hl hc .userPool).cases with ⟨r, hr, j, hj, -, rfl⟩ | ⟨e, -, -, hfull⟩
  · have h1 := h.right ((Traced.result_getOnePhysicPage s .userPool).trans hr)
    dsimp only at h1
    rw [if_neg (by omega)] at h1
    by_contra hpres
    rw [Bool.not_eq_true] at hpres
    have hload' : Kernel.load { s with low := bitmapSetBit s.low (s.pool .userPool).poolBitmap j true }
        (getPDEPointer v) = .ok pde := hload
    exact unheld_pageMapping hload' hpres hk h1.left
  · have := hfull i hlt
    rw [hbit] at this
    cases this

theorem guards_mapping_kernel (hl : l.Sized) (hi : PageInv l Stable s) (hu : s.Unlocked) (v : Nat) :
    Guards ∅ (Traced.virtualAddrMapping s .kernelPool v) ∅ := by
  rw [virtualAddrMapping_eq]
  apply (guards_lockPool s .kernelPool).bind_ok (traced_lockPool hu _)
  apply (Guards.lift (getPcb _ _)).bind
  intro t _
  apply (Guards.lift (markPage _ _ _ _)).bind
  intro s1 hs1
  have hrest := markPage_rest hs1
  have hs : s1.holds .kernelPool = true := by
    rw [hrest.holds]
    exact setLock_holds s _
  apply guards_mapMarked hl (hrest.config ((SamePaging.setLock s _ _).inv hi).config) hs
  intro _ _ _ _
  exact ⟨rfl, hs⟩

/-- `VirtualAddrMapping(USER_POOL, v)` by `p` needs no page table: it is refused, or the user pool has no frame, or
the page has its table. -/
def Kernel.MappingReady (k : Kernel) (p : PCB) (v : Nat) : Prop :=
  p.pdeAddr ≠ 0 → 0 < sub32 v p.userprogVaddr.vaddrStart / 4096 → 0 < k.freeFrames .userPool →
    present (k.ram k.cr3 (v / 4096 / 1024)) = true

theorem markPage_user (hd : s.debug = true) (p : PCB) (v : Nat) :
    (p.pdeAddr ≠ 0 ∧ 0 < sub32 v p.userprogVaddr.vaddrStart / 4096 ∧
      ∃ s', s.markPage p .userPool v = .ok s' ∧ s'.ram = s.ram ∧ s'.low = s.low) ∨
    ¬ (p.pdeAddr ≠ 0 ∧ 0 < sub32 v p.userprogVaddr.vaddrStart / 4096) ∧ ∃ e, s.markPage p .userPool v = .error e := by
  unfold markPage
  by_cases hpd : p.pdeAddr = 0
  · refine .inr ⟨fun h => h.1 hpd, .mappingSpace, ?_⟩
    rw [if_neg fun h => h.1 hpd, if_neg (by simp)]
  · rw [if_pos ⟨hpd, rfl⟩]
    dsimp only
    by_cases hidx : 0 < sub32 v p.userprogVaddr.vaddrStart / 4096
    · rw [decide_eq_true hidx, assert_true]
      exact .inl ⟨hpd, hidx, _, rfl, rfl, rfl⟩
    · rw [decide_eq_false hidx, assert, hd]
      exact .inr ⟨fun h => hidx h.2, .mappingIndex, rfl⟩

theorem mapping_user_guards (hl : l.Sized) (hi : PageInv l Stable s) (hu : s.Unlocked) (hp : s.pcb s.current = some p)
    {v : Nat} (hv : v < 2 ^ 32) : (s.MappingReady p v → Guards ∅ (Traced.virtualAddrMapping s .userPool v) ∅) ∧
      (Held (Traced.virtualAddrMapping s .userPool v).log → s.MappingReady p v) := by
  have hlock := traced_lockPool hu .userPool
  have hi0 := (SamePaging.setLock s .userPool (heldBy s.current)).inv hi
  have hpcb : (s.setLock .userPool (heldBy s.current)).getPcb (s.setLock .userPool (heldBy s.current)).current = .ok p := by
    show s.getPcb s.current = .ok p
    rw [getPcb, hp]
  have hload := hi0.load_pde hv
  have hs := setLock_holds s .userPool
  have hk := setLock_holds_other hu
  have hready : (s.setLock .userPool (heldBy s.current)).MappingReady p v ↔ s.MappingReady p v := Iff.rfl
  rw [virtualAddrMapping_eq, ← hready]
  generalize s.setLock .userPool (heldBy s.current) = s0 at *
  rcases markPage_user hi0.config.debug p v with ⟨hpd, hidx, s1, hmark, hram, hlow⟩ | ⟨hn, e, hmark⟩
  · have hrest := markPage_rest hmark
    have hc := hrest.config hi0.config
    have hfree : s1.freeFrames .userPool = s0.freeFrames .userPool :=
      freeFrames_congr hi0.config hc fun i _ => by rw [hlow]
    have hload1 : s1.load (getPDEPointer v) = .ok (s0.ram s0.cr3 (v / 4096 / 1024)) := by
      rw [← hload, Kernel.load, Kernel.load, hram, hrest.cr3]
    refine ⟨?_, ?_⟩
    · intro hT
      apply (guards_lockPool s .userPool).bind_ok hlock
      rw [hpcb, Trace.liftM_eq, Trace.lift_ok_bind, hmark, Trace.liftM_eq, Trace.lift_ok_bind]
      apply guards_mapMarked hl hc (by rw [hrest.holds]; exact hs)
      intro hpos pde hload' hpres
      rw [hload1] at hload'
      cases hload'
      rw [hT hpd hidx (by rw [← hfree]; exact hpos)] at hpres
      cases hpres
    · intro hH _ _ hpos
      have hH1 := hH.right hlock
      rw [hpcb, Trace.liftM_eq, Trace.lift_ok_bind, hmark, Trace.liftM_eq, Trace.lift_ok_bind] at hH1
      exact hH1.mapMarked hl hc (by rw [hrest.holds]; exact hk) (by rw [hfree]; exact hpos) hload1
  · refine ⟨?_, fun _ hpd hidx => absurd ⟨hpd, hidx⟩ hn⟩
    intro _
    apply (guards_lockPool s .userPool).bind_ok hlock
    rw [hpcb, Trace.liftM_eq, Trace.lift_ok_bind, hmark]
    exact .stop e

/-! ## `sys_free` -/

/-- The pages that `sys_free(q)` gives back: those of a large request, or that of an arena whose other blocks are
free. -/
def freedPages (m : Space) (q : Nat) : Nat :=
  if m.desc (block2arena q) = 0 ∧ m.largeRequest (block2arena q) = 1 then m.cnt (block2arena q)
  else if m.cnt (block2arena q) + 1 = m.memoryBlocksSum (m.desc (block2arena q)) then 1
  else 0

/-- The pages of the kernel are in frames of the kernel pool. -/
theorem Kernel.PageInv.notFirst_kernel {pend : Page → Prop} (hi : PageInv l pend s) (vp n : Nat) :
    s.NotFirst .kernelPool vp n := by
  intro i _ hmap
  have hrange := hi.frame_range hmap
  have hle := l.frames_le
  rw [hi.config.first_frame, page_div] at hrange
  change 0x200 ≤ l.userStart ∧ l.userStart < 0x200 + l.kernelFrames at hrange
  unfold Layout.userStart at hrange
  omega

section Free
variable {D a : Nat} {arenas : Nat → Option Arena} {live : Nat → Option Nat} {seq : Fin 7 → List Nat}

/-- The rest of `freeBlock` after the block is on the free list. -/
theorem freeBlock_log (h : HeapState s pf D arenas live seq) {k : Fin 7} {i : Nat} (ha : arenas a = some (.small k))
    (hlt : i < classSum k) (hlive : live (blockAt a k i) ≠ none) :
    freedPages s.space (blockAt a k i) = 0 ∧ (Traced.freeBlock s pf (a * 4096) (blockAt a k i)).log = [] ∨
    freedPages s.space (blockAt a k i) = 1 ∧ ∃ s1, SameButData s s1 ∧
      Traced.freeBlock s pf (a * 4096) (blockAt a k i) = Traced.pfree s1 pf (a * 4096) 1 := by
  obtain ⟨m, happ, hrep, hcnt, -⟩ := h.rep.give h.counted ha hlt hlive
  have hfreed : freedPages s.space (blockAt a k i) =
      if (freeBlocks (Function.update live (blockAt a k i) none) a k).card = classSum k then 1 else 0 := by
    have hnot : i ∉ freeBlocks live a k := fun hm => hlive (mem_freeBlocks.1 hm).2
    unfold freedPages
    rw [block2arena_blockAt hlt, (h.rep.small ha).2, if_neg (by simp), (h.rep.small ha).1, (h.rep.desc k).2, h.counted ha,
      freeBlocks_give hlt, Finset.card_insert_of_notMem hnot]
  unfold Traced.freeBlock
  dsimp only
  rw [appendFree, happ, Trace.liftM_eq]
  dsimp only
  rw [Trace.lift_ok_bind, space_setSpace, setSpace_setSpace, space_setSpace]
  generalize m.write (a * 4096 + 4) ((m.cnt (a * 4096) + 1) % 2 ^ 32) = m1 at hrep hcnt ⊢
  rw [(hrep.small ha).1, (hrep.desc k).2, hcnt ha, hfreed]
  rcases card_freeBlocks (Function.update live (blockAt a k i) none) a k with ⟨hcard, hfree⟩ | ⟨hcard, -⟩
  · obtain ⟨m2, seq2, hloop, -, -⟩ := dropBlocks_ok (s := s) hrep ha hfree
    rw [if_pos hcard, if_pos hcard, hloop]
    exact .inr ⟨rfl, _, ⟨m2, rfl⟩, rfl⟩
  · rw [if_neg (by omega), if_neg (by omega)]
    exact .inl ⟨rfl, rfl⟩

/-- The events of `giveBack` are those of `pfree` of the pages given back. -/
theorem giveBack_log (h : HeapState s pf D arenas live seq) {q : Nat} (hlive : live q ≠ none) :
    freedPages s.space q = 0 ∧ (Traced.giveBack s pf (block2arena q) q).log = [] ∨
    1 ≤ freedPages s.space q ∧ Freeable s pf (q / 4096) (freedPages s.space q) ∧ ∃ s1, SameButData s s1 ∧
      Traced.giveBack s pf (block2arena q) q = Traced.pfree s1 pf (q / 4096 * 4096) (freedPages s.space q) := by
  obtain ⟨size, hs⟩ := Option.ne_none_iff_exists'.1 hlive
  obtain ⟨-, ⟨a, k, i, ha, hlt, rfl, -⟩ | ⟨a, n, ha, rfl, -⟩⟩ := h.rep.live hs
  · have hgive : Traced.giveBack s pf (block2arena (blockAt a k i)) (blockAt a k i) =
        Traced.freeBlock s pf (a * 4096) (blockAt a k i) := by
      unfold Traced.giveBack
      rw [block2arena_blockAt hlt, (h.rep.small ha).2, if_neg (by simp)]
    rw [hgive, blockAt_div hlt]
    rcases freeBlock_log h ha hlt hlive with hnone | ⟨hone, s1, hdata, heq⟩
    · exact .inl hnone
    · refine .inr ?_
      rw [hone]
      exact ⟨Nat.le_refl 1, h.pages.freeable ha, s1, hdata, heq⟩
  · obtain ⟨h1, h2, h3, h4⟩ := h.rep.large ha
    have hpage : block2arena (a * 4096 + 12) = a * 4096 := by
      unfold block2arena
      omega
    have hdiv : (a * 4096 + 12) / 4096 = a := by omega
    have hfreed : freedPages s.space (a * 4096 + 12) = n := by
      unfold freedPages
      rw [hpage, h1, h2, h3, if_pos ⟨rfl, rfl⟩]
    rw [hfreed, hdiv]
    refine .inr ⟨h.rep.pages_pos ha, h.pages.freeable ha, s, ⟨_, (setSpace_space s).symm⟩, ?_⟩
    unfold Traced.giveBack
    rw [hpage, h1, h2, h3, if_pos ⟨rfl, rfl⟩]

theorem Kernel.SameButData.notFirst {s' : Kernel} (h : SameButData s s') (vp n : Nat) :
    s'.NotFirst pf vp n ↔ s.NotFirst pf vp n := by
  have hp := h.paging
  obtain ⟨m, rfl⟩ := h
  unfold NotFirst
  rw [hp.map]
  cases pf <;> rfl

theorem Kernel.SameButData.holds {s' : Kernel} (h : SameButData s s') (pf : PoolFlags) : s'.holds pf = s.holds pf := by
  obtain ⟨m, rfl⟩ := h
  cases pf <;> rfl

theorem guards_giveBack (hl : l.Sized) (hi : PageInv l Stable s) (h : HeapState s pf D arenas live seq) {q : Nat}
    (hlive : live q ≠ none) (hs : s.holds pf = true) (hne : s.NotFirst pf (q / 4096) (freedPages s.space q)) :
    Guards {pf} (Traced.giveBack s pf (block2arena q) q) {pf} := by
  rcases giveBack_log h hlive with ⟨-, hlog⟩ | ⟨hn, hfree, s1, hdata, heq⟩
  · apply Guards.of_keeps
    rw [hlog]
    exact .nil _
  · have hp := hdata.paging
    rw [heq]
    exact guards_pfree hl (hp.inv hi) hn (hfree.samePaging hp) (by rw [hdata.holds]; exact hs) ((hdata.notFirst _ _).2 hne)

theorem giveBack_notFirst (hl : l.Sized) (hi : PageInv l Stable s) (h : HeapState s .userPool D arenas live seq) {q : Nat}
    (hlive : live q ≠ none) (hk : s.holds .kernelPool = false)
    (hheld : Held (Traced.giveBack s .userPool (block2arena q) q).log) :
    s.NotFirst .userPool (q / 4096) (freedPages s.space q) := by
  rcases giveBack_log h hlive with ⟨hzero, -⟩ | ⟨hn, hfree, s1, hdata, heq⟩
  · rw [hzero]
    intro i hi
    omega
  · have hp := hdata.paging
    rw [heq] at hheld
    exact (hdata.notFirst _ _).1
      (pfree_notFirst hl (hp.inv hi) hn (hfree.samePaging hp) (by rw [hdata.holds]; exact hk) hheld)

/-- `sys_free(q)` by `p` gives back no first frame: it is a kernel thread, or there is nothing to free, or none of the
pages given back is in it. -/
def Kernel.FreeReady (k : Kernel) (p : PCB) (q : Nat) : Prop :=
  p.pdeAddr ≠ 0 → q ≠ 0 → k.NotFirst .userPool (q / 4096) (freedPages k.space q)

theorem sysFree_guards (hl : l.Sized) (hi : PageInv l Stable s) (hu : s.Unlocked) (hp : s.pcb s.current = some p)
    (hheap : s.heapOf p = (pf, D)) (h : HeapState s pf D arenas live seq) {q : Nat} (hq : q = 0 ∨ live q ≠ none) :
    (s.FreeReady p q → Guards ∅ (Traced.sysFree s q) ∅) ∧ (Held (Traced.sysFree s q).log → s.FreeReady p q) := by
  have hpaging := SamePaging.setLock s pf (heldBy s.current)
  have h0 := h.setLock pf (heldBy s.current)
  have hspace := setLock_space s pf (heldBy s.current)
  unfold Traced.sysFree
  by_cases hq0 : q = 0
  · rw [if_pos hq0]
    exact ⟨fun _ => .pure _, fun _ _ hne => absurd hq0 hne⟩
  · have hlive := hq.resolve_left hq0
    rw [if_neg hq0, getPcb, hp]
    dsimp only
    rw [Trace.liftM_eq, Trace.lift_ok_bind, hheap]
    dsimp only
    refine ⟨?_, ?_⟩
    · intro hT
      apply (Guards.lift (s.assert _ _)).bind
      intro _ _
      apply (guards_lockPool s pf).bind_ok (traced_lockPool hu pf)
      apply (Guards.lift (assert _ _ _)).bind
      intro _ _
      refine (guards_giveBack hl (hpaging.inv hi) h0 hlive (setLock_holds s pf) ?_).bind ?_
      · rw [hspace]
        cases pf with
        | kernelPool => exact (hpaging.inv hi).notFirst_kernel _ _
        | userPool =>
          refine hT ?_ hq0
          intro hpd
          rw [heapOf, if_pos hpd] at hheap
          cases hheap
      · intro s1 _
        exact guards_unlockPool s1 pf
    · intro hH hpd _
      rw [heapOf, if_neg hpd] at hheap
      cases hheap
      have hassert : s.assert (decide (p.pdeAddr ≠ 0 ∨ q ≥ kernelHeapBase)) .notKernelHeap = .ok () := by
        rw [decide_eq_true (.inl hpd), assert_true]
      have hlarge := h0.rep.largeRequest hlive
      have hassert' : (s.setLock .userPool (heldBy s.current)).assert
          (decide ((s.setLock .userPool (heldBy s.current)).space.largeRequest (block2arena q) = 1 ∨
            (s.setLock .userPool (heldBy s.current)).space.largeRequest (block2arena q) = 0)) .largeRequest = .ok () := by
        rw [decide_eq_true hlarge, assert_true]
      rw [hassert, Trace.liftM_eq, Trace.lift_ok_bind] at hH
      have hH1 := hH.right (traced_lockPool hu .userPool)
      rw [hassert', Trace.liftM_eq, Trace.lift_ok_bind] at hH1
      have hnot := giveBack_notFirst hl (hpaging.inv hi) h0 hlive (setLock_holds_other hu) hH1.left
      rwa [hspace] at hnot

end Free

end Calls

/-! ## All calls -/

inductive PoolCall where
  | kpalloc (pageCnt : Nat)
  | upalloc (pageCnt : Nat)
  | virtualAddrMapping (pf : PoolFlags) (vaddr : Nat)
  | sysMalloc (size : Nat)
  | sysFree (p : Nat)

namespace PoolCall

def exec : PoolCall → Kernel → Traced (Nat × Kernel)
  | .kpalloc n, k => Traced.kpalloc k n
  | .upalloc n, k => Traced.upalloc k n
  | .virtualAddrMapping pf v, k => Traced.virtualAddrMapping k pf v
  | .sysMalloc size, k => Traced.sysMalloc k size
  | .sysFree p, k => do return (0, ← Traced.sysFree k p)

/-- The address is one of 32 bits, and what is freed was handed out. -/
def Valid (s : Sys) : PoolCall → Prop
  | .virtualAddrMapping _ v => v < 2 ^ 32
  | .sysFree p => p = 0 ∨ s.live s.k.heap p ≠ none
  | _ => True

/-- The call gets neither to a page table of user pages that is missing nor to the first frame of the user pool. -/
def Covered (k : Kernel) (c : PoolCall) : Prop :=
  ∀ t, k.pcb k.current = some t → match c with
    | .upalloc n => k.TablesReady t n
    | .virtualAddrMapping .userPool v => k.MappingReady t v
    | .sysMalloc size => k.MallocReady t size
    | .sysFree p => k.FreeReady t p
    | _ => True

end PoolCall

section Interleavings
variable {l : Layout} {s : Sys} {arenas : Heap → Nat → Option Arena} {seq : Heap → Fin 7 → List Nat}

theorem Guards.held {α : Type} {x : Traced α} {own own' : Set PoolFlags} (h : Guards own x own') : Held x.log := by
  obtain ⟨_, hk⟩ := Trace.Goes.exists h
  exact hk.held

theorem PoolCall.guards (hl : l.Sized) (hI : s.Inv l arenas seq) (c : PoolCall) (hv : c.Valid s) :
    (c.Covered s.k → Guards ∅ (c.exec s.k) ∅) ∧ (Held (c.exec s.k).log → c.Covered s.k) := by
  have hi := hI.page
  have hu := hI.unlocked
  obtain ⟨t, ht, hheap, -, -⟩ := heap_current hi.threads
  have hcovered : ∀ {P : PCB → Prop}, P t → ∀ t', s.k.pcb s.k.current = some t' → P t' := by
    intro P hP t' ht'
    rw [ht, Option.some.injEq] at ht'
    exact ht' ▸ hP
  cases c with
  | kpalloc n => exact ⟨fun _ => guards_kpalloc hl hi hu n, fun _ _ _ => trivial⟩
  | upalloc n =>
    obtain ⟨h1, h2⟩ := upalloc_guards hl hi hu ht n
    exact ⟨fun hc => h1 (hc t ht), fun hH => hcovered (h2 hH)⟩
  | virtualAddrMapping pf v =>
    cases pf with
    | kernelPool => exact ⟨fun _ => guards_mapping_kernel hl hi hu v, fun _ _ _ => trivial⟩
    | userPool =>
      obtain ⟨h1, h2⟩ := mapping_user_guards hl hi hu ht hv
      exact ⟨fun hc => h1 (hc t ht), fun hH => hcovered (h2 hH)⟩
  | sysMalloc size =>
    obtain ⟨h1, h2⟩ := sysMalloc_guards hl hi hu ht size
    exact ⟨fun hc => h1 (hc t ht), fun hH => hcovered (h2 hH)⟩
  | sysFree p =>
    obtain ⟨h1, h2⟩ := sysFree_guards hl hi hu ht hheap hI.state hv
    refine ⟨?_, ?_⟩
    · intro hc
      apply (h1 (hc t ht)).bind
      intro k _
      exact .pure _
    · intro hH
      exact hcovered (h2 hH.left)

/-- What the thread `t` does to the locks and the bitmaps in covered calls of states that are reached; the last call
may not be done yet. -/
inductive ThreadCalls (l : Layout) (k₀ : Kernel) (t : Nat) : List (Act PoolFlags) → Prop where
  | nil : ThreadCalls l k₀ t []
  | call {s : Sys} {c : PoolCall} {r : Nat × Kernel} {es : List (Act PoolFlags)} (hrun : Sys.Run l (init k₀) s)
      (ht : s.k.current = t) (hv : c.Valid s) (hc : c.Covered s.k) (hok : (c.exec s.k).result = .ok r)
      (hrest : ThreadCalls l k₀ t es) : ThreadCalls l k₀ t (acts (c.exec s.k).log ++ es)
  | last {s : Sys} {c : PoolCall} {es : List (Act PoolFlags)} (hrun : Sys.Run l (init k₀) s) (ht : s.k.current = t)
      (hv : c.Valid s) (hc : c.Covered s.k) (hes : es <+: acts (c.exec s.k).log) : ThreadCalls l k₀ t es

theorem ThreadCalls.disciplined (hl : l.Sized) {k₀ : Kernel} {t : Nat} {es : List (Act PoolFlags)}
    (h : ThreadCalls l k₀ t es) (hinv : ∀ s, Sys.Run l (init k₀) s → ∃ arenas seq, s.Inv l arenas seq) :
    Disciplined ∅ es := by
  induction h with
  | nil => trivial
  | @call s c r es hrun _ hv hc hok _ ih =>
    obtain ⟨arenas, seq, hI⟩ := hinv s hrun
    have hkeeps : Keeps ∅ (c.exec s.k).log ∅ :=
      Trace.Goes.of_ok ((c.guards hl hI hv).1 hc) hok
    rw [disciplined_append, hkeeps.locks]
    exact ⟨hkeeps.disciplined, ih⟩
  | @last s c es hrun _ hv hc hes =>
    obtain ⟨arenas, seq, hI⟩ := hinv s hrun
    obtain ⟨_, hkeeps⟩ := Trace.Goes.exists ((c.guards hl hI hv).1 hc)
    obtain ⟨rest, hrest⟩ := hes
    have hd := hkeeps.disciplined
    rw [← hrest, disciplined_append] at hd
    exact hd.1

end Interleavings

end ElephantOS
