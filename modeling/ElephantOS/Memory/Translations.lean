import ElephantOS.Kernel.Traced
import ElephantOS.Lib.Tlb
import ElephantOS.Memory.System

/-!
# The TLB during a time slice

`PageUnmapping` clears the entry of a page and then executes `invlpg` with its own variable `v_addr` as the
operand, which drops the translation of the page the variable is in. Nothing else drops a translation until the
next load of CR3.

* `Kernel.frame`, `Kernel.IsAllocated` : the frame the page tables in use name for a page, and which pages are
  allocated;
* `Writes` : events that write one entry at a time, from one view of the pages to another; `Follows` : the
  events of a function do;
* `Op`, `Slice` : what a thread does between two loads of CR3, with accesses to any pages at any time;
* `translations_current` : no access uses another frame than the one the tables name, as long as no page is
  allocated again after an access to it.
-/

namespace ElephantOS
open Kernel Sys

/-- What concerns the page tables and the TLB. -/
def Event.paging : Event → Option (Tlb.Event Kernel Nat)
  | .entry vp k => some (.entry vp k)
  | .invlpg vp => some (.invlpg vp)
  | _ => none

def paging (log : List Event) : List (Tlb.Event Kernel Nat) := log.filterMap Event.paging

@[simp] theorem paging_nil : paging [] = [] := rfl

@[simp] theorem paging_append (a b : List Event) : paging (a ++ b) = paging a ++ paging b := List.filterMap_append

namespace Kernel

/-- The virtual page `vp` in the address space in use. -/
def here (k : Kernel) (vp : Nat) : Page := if vp < 0xC0000 then .user k.current vp else .kernel vp

def view (k : Kernel) (vp : Nat) : Option Nat := k.map (k.here vp)

def IsAllocated (k : Kernel) (vp : Nat) : Prop := k.view vp ≠ none

instance (k : Kernel) (vp : Nat) : Decidable (k.IsAllocated vp) := inferInstanceAs (Decidable (k.view vp ≠ none))

def frame (k : Kernel) (vp : Nat) : Option Nat := (walk k.ram k.cr3 (vp * 4096)).map (· / 4096)

section
variable {l : Layout} {pend : Page → Prop} {s s' : Kernel} {pf : PoolFlags}

theorem here_pageOf (s : Kernel) (vp : Nat) : ∃ pf, s.here vp = s.pageOf pf vp := by
  unfold here
  split
  · exact ⟨.userPool, rfl⟩
  · exact ⟨.kernelPool, rfl⟩

theorem here_ne {vp w : Nat} (h : w ≠ vp) : s.here w ≠ s.pageOf pf vp := by
  intro he
  unfold here at he
  cases pf with
  | kernelPool =>
    split at he
    · cases he
    · exact h (Page.kernel.inj he)
  | userPool =>
    split at he
    · exact h (Page.user.inj he).2
    · cases he

theorem PageInv.frame_eq (hi : PageInv l pend s) {vp : Nat} (h : s.IsAllocated vp) : s.frame vp = s.view vp := by
  obtain ⟨f, hf⟩ := Option.ne_none_iff_exists'.1 h
  obtain ⟨pf, hpf⟩ := s.here_pageOf vp
  have hmap : s.map (s.pageOf pf (vp * 4096 / 4096)) = some f := by
    rw [page_div, ← hpf]
    exact hf
  have hwalk := hi.walk hmap
  rw [Nat.mul_mod_left, Nat.add_zero] at hwalk
  unfold frame
  rw [hwalk, hf, Option.map_some, page_div]

theorem view_congr (hmap : s'.map = s.map) (hcur : s'.current = s.current) : s'.view = s.view := by
  funext vp
  unfold view here
  rw [hmap, hcur]

theorem SamePaging.view (h : SamePaging s s') : s'.view = s.view := view_congr h.map h.current

/-- The tables do not depend on the bitmaps. -/
theorem SameRest.view (h : SameRest s s') (hram : s'.ram = s.ram) : s'.view = s.view :=
  view_congr (map_eq_of_ram h hram).1 h.current

/-- The other pages when one entry is written. -/
theorem SameRest.view_other {vp : Nat} {f : Option Nat} (h : SameRest s s')
    (hmap : ∀ pg, s'.map pg = if pg = s.pageOf pf vp then f else s.map pg) {w : Nat} (hw : w ≠ vp) :
    s'.view w = s.view w := by
  have hhere : s'.here w = s.here w := by
    unfold here
    rw [h.current]
  unfold Kernel.view
  rw [hhere, hmap, if_neg (here_ne hw)]

theorem MapStep.view {vp f : Nat} (h : MapStep l s s' (s.pageOf pf vp) f) {w : Nat} (hw : w ≠ vp) :
    s'.view w = s.view w := h.rest.view_other h.map hw

theorem UnmapStep.view {vp f : Nat} (h : UnmapStep l s s' (s.pageOf pf vp) f) {w : Nat} (hw : w ≠ vp) :
    s'.view w = s.view w := h.rest.view_other h.map hw

end

end Kernel

/-! ## One entry at a time -/

/-- The events write one entry at a time, in states that keep the invariant of the page allocator, and lead
from one view of the pages to another. -/
inductive Writes (l : Layout) : (Nat → Option Nat) → List (Tlb.Event Kernel Nat) → (Nat → Option Nat) → Prop where
  | nil (V : Nat → Option Nat) : Writes l V [] V
  | entry {V V' : Nat → Option Nat} {vp : Nat} {k : Kernel} {es : List (Tlb.Event Kernel Nat)}
      (hi : ∃ pend, PageInv l pend k) (hother : ∀ w, w ≠ vp → k.view w = V w) (hes : Writes l k.view es V') :
      Writes l V (.entry vp k :: es) V'
  | invlpg {V V' : Nat → Option Nat} (vp : Nat) {es : List (Tlb.Event Kernel Nat)} (hes : Writes l V es V') :
      Writes l V (.invlpg vp :: es) V'
  | access {V V' : Nat → Option Nat} (vp : Nat) (fill : Bool) {es : List (Tlb.Event Kernel Nat)}
      (hes : Writes l V es V') : Writes l V (.access vp fill :: es) V'

section Writes
variable {l : Layout} {V V' V'' : Nat → Option Nat} {es es' : List (Tlb.Event Kernel Nat)}

theorem Writes.append (h : Writes l V es V') (h' : Writes l V' es' V'') : Writes l V (es ++ es') V'' := by
  induction h with
  | nil V => exact h'
  | entry hi hother _ ih => exact .entry hi hother (ih h')
  | invlpg vp _ ih => exact .invlpg vp (ih h')
  | access vp fill _ ih => exact .access vp fill (ih h')

theorem Writes.view_other (h : Writes l V es V') {vp : Nat} (hno : ∀ k, .entry vp k ∉ es) : V' vp = V vp := by
  induction h with
  | nil V => rfl
  | @entry V V' w k es hi hother _ ih =>
    have hne : vp ≠ w := by
      rintro rfl
      exact hno k List.mem_cons_self
    rw [ih fun k hk => hno k (List.mem_cons_of_mem _ hk), hother vp hne]
  | invlpg _ _ ih => exact ih fun k hk => hno k (List.mem_cons_of_mem _ hk)
  | access _ _ _ ih => exact ih fun k hk => hno k (List.mem_cons_of_mem _ hk)

def isAccess : Tlb.Event Kernel Nat → Bool
  | .access _ _ => true
  | _ => false

theorem Writes.interleave (h : Writes l V (es.filter fun e => !isAccess e) V') : Writes l V es V' := by
  induction es generalizing V with
  | nil => exact h
  | cons e es ih =>
    cases e with
    | access vp fill => exact .access vp fill (ih h)
    | invlpg vp =>
      change Writes l V (.invlpg vp :: es.filter _) V' at h
      cases h with
      | invlpg _ h => exact .invlpg vp (ih h)
    | entry vp k =>
      change Writes l V (.entry vp k :: es.filter _) V' at h
      cases h with
      | entry hi hother h => exact .entry hi hother (ih h)

/-- The writes are for one page each. -/
theorem Writes.locals (h : Writes l V es V') {m : Tlb.Mmu Kernel Nat Nat} (hm : ∃ pend, PageInv l pend m.tables)
    (hV : m.tables.view = V) : Tlb.Locals Kernel.frame IsAllocated m es := by
  induction h generalizing m with
  | nil V => trivial
  | @entry V V' vp k es hi hother _ ih =>
    refine ⟨?_, ih hi rfl⟩
    intro w hw hall
    obtain ⟨pend, hi⟩ := hi
    obtain ⟨pend', hm⟩ := hm
    have hview : k.view w = m.tables.view w := by rw [hother w hw, hV]
    have hold : m.tables.IsAllocated w := by
      unfold IsAllocated
      rw [← hview]
      exact hall
    exact ⟨hold, by rw [hi.frame_eq hall, hm.frame_eq hold, hview]⟩
  | invlpg vp _ ih => exact ⟨trivial, ih hm hV⟩
  | access vp fill _ ih =>
    refine ⟨trivial, ih ?_ ?_⟩
    · cases fill <;> exact hm
    · cases fill <;> exact hV

end Writes

/-! ## The functions -/

section Functions
variable {l : Layout} {s : Kernel} {pf : PoolFlags} {α β : Type}

/-- The events of `x`, which starts in `s`, lead to the view of the state it returns. -/
def Follows (l : Layout) (s : Kernel) (x : Traced α) (g : α → Kernel) : Prop :=
  x.Sat (fun log a => Writes l s.view (paging log) (g a).view) fun log _ => ∃ V, Writes l s.view (paging log) V

theorem writes_append {V V' V'' : Nat → Option Nat} {log log' : List Event} (hw : Writes l V (paging log) V')
    (hw' : Writes l V' (paging log') V'') : Writes l V (paging (log ++ log')) V'' := by
  rw [paging_append]
  exact hw.append hw'

theorem Follows.bind {x : Traced α} {f : α → Traced β} {g : α → Kernel} {h : β → Kernel} (hx : Follows l s x g)
    (hf : ∀ a, x.result = .ok a → Follows l (g a) (f a) h) : Follows l s (x >>= f) h := by
  exact Trace.Goes.bind (R := fun V log V' => Writes l V (paging log) V') writes_append hx hf

theorem Follows.quiet {x : Traced α} {g : α → Kernel} (hlog : paging x.log = [])
    (hr : ∀ a, x.result = .ok a → (g a).view = s.view) : Follows l s x g := by
  have hnil : Writes l s.view (paging x.log) s.view := by
    rw [hlog]
    exact .nil _
  refine Trace.Goes.of_log (R := fun V log V' => Writes l V (paging log) V') ?_ ⟨_, hnil⟩
  intro a ha
  rw [hr a ha]
  exact hnil

theorem Follows.lift {x : Except Panic α} {g : α → Kernel} (hr : ∀ a, x = .ok a → (g a).view = s.view) :
    Follows l s (Trace.lift x) g := .quiet rfl hr

theorem Follows.pure {a : α} {g : α → Kernel} (h : (g a).view = s.view) : Follows l s (Pure.pure a : Traced α) g := by
  refine .quiet rfl ?_
  intro b hb
  cases hb
  exact h

/-- The events depend on the view of the first state only. -/
theorem Follows.of_view {s' : Kernel} {x : Traced α} {g : α → Kernel} (hx : Follows l s' x g)
    (h : s'.view = s.view) : Follows l s x g := by
  unfold Follows at *
  rwa [h] at hx

theorem getOnePhysicPage_rest {r : Nat × Kernel} (h : s.getOnePhysicPage pf = .ok r) :
    SameRest s r.2 ∧ r.2.ram = s.ram := by
  obtain ⟨x, -, h⟩ := Except.bind_eq_ok.1 h
  cases x with
  | none =>
    cases h
    exact ⟨rfl, rfl⟩
  | some bitIdx =>
    cases h
    exact ⟨rfl, rfl⟩

theorem paging_getOnePhysicPage (s : Kernel) (pf : PoolFlags) : paging (Traced.getOnePhysicPage s pf).log = [] := by
  have hev := Traced.getOnePhysicPage_events s pf
  cases hr : (Traced.getOnePhysicPage s pf).result with
  | ok r =>
    rcases hev.of_ok hr with h | h
    · rw [h]
      rfl
    · rw [h]
      rfl
  | error e =>
    rw [hev.of_error hr]
    rfl

theorem follows_getOnePhysicPage (s : Kernel) (pf : PoolFlags) : Follows l s (Traced.getOnePhysicPage s pf) Prod.snd := by
  refine .quiet (paging_getOnePhysicPage s pf) ?_
  intro r hr
  rw [Traced.result_getOnePhysicPage] at hr
  obtain ⟨hrest, hram⟩ := getOnePhysicPage_rest hr
  exact hrest.view hram

/-- `PageMapping` writes one entry, or none when it stops. -/
theorem paging_pageMapping (s : Kernel) (v pa : Nat) : (Traced.pageMapping s v pa).Sat
    (fun log s' => paging log = [.entry (v / 4096) s']) fun log _ => paging log = [] := by
  cases hload : s.load (getPDEPointer v) with
  | error e =>
    have hres : (Traced.pageMapping s v pa).result = .error e := by
      rw [Traced.result_pageMapping, pageMapping, hload]
      rfl
    unfold Trace.Sat
    rw [hres, Traced.pageMapping_fault hload]
    rfl
  | ok pde =>
    cases hp : present pde with
    | true =>
      refine (Traced.pageMapping_present hload hp).mono ?_ ?_
      · intro log s' h
        rw [h]
        rfl
      · intro log e h
        rw [h]
        rfl
    | false =>
      refine (Traced.pageMapping_absent hload hp).mono ?_ ?_
      · intro log s' hs'
        obtain ⟨w, h, rfl | rfl⟩ := hs'
        · rw [h]
          rfl
        · rw [h]
          rfl
      · intro log e he
        obtain ⟨w, h, rfl | rfl⟩ := he
        · rw [h]
          rfl
        · rw [h]
          rfl

section Loops
variable {t : Kernel} {vp n j : Nat}

/-- One page of `palloc`. -/
theorem Kernel.Pallocing.follows (hl : l.Sized) (hm : Mappable l s pf vp n) (h : Pallocing l s t pf vp n j) (hj : j < n)
    {i : Nat} (hlt : i < l.frames pf) (hfree : bitAt t.low (l.frameBit pf i) = false) :
    Follows l t (Traced.pageMapping { t with low := bitmapSetBit t.low (t.pool pf).poolBitmap i true }
      ((vp + j) * 4096) ((l.start pf + i) * 4096)) id := by
  have hev := paging_pageMapping { t with low := bitmapSetBit t.low (t.pool pf).poolBitmap i true }
    ((vp + j) * 4096) ((l.start pf + i) * 4096)
  have hsat := h.pageMapping hl hm hj hlt hfree
  rw [← Traced.result_pageMapping] at hsat
  unfold Follows
  cases hr : (Traced.pageMapping { t with low := bitmapSetBit t.low (t.pool pf).poolBitmap i true }
      ((vp + j) * 4096) ((l.start pf + i) * 4096)).result with
  | error e =>
    have hlog := hev.of_error hr
    unfold Trace.Sat
    rw [hr]
    show ∃ V, Writes l t.view (paging _) V
    rw [hlog]
    exact ⟨_, .nil _⟩
  | ok t' =>
    have hlog := hev.of_ok hr
    obtain ⟨-, h', hstep⟩ := hsat.of_ok hr
    rw [page_div] at hlog
    rw [← h.got.rest.pageOf] at hstep
    unfold Trace.Sat
    rw [hr]
    show Writes l t.view (paging _) t'.view
    rw [hlog]
    exact .entry ⟨_, h'.inv⟩ (fun w hw => hstep.view hw) (.nil _)

theorem follows_pallocFrom (hl : l.Sized) (hm : Mappable l s pf vp n) (todo : Nat) (hj : j + todo = n)
    (h : Pallocing l s t pf vp n j) :
    Follows l t (Traced.pallocFrom pf (vp * 4096) todo ((vp + j) * 4096) t) Prod.snd := by
  induction todo generalizing j t with
  | zero => exact .pure rfl
  | succ todo ih =>
    have hge := l.start_ge pf
    unfold Traced.pallocFrom
    refine (follows_getOnePhysicPage t pf).bind ?_
    intro r hr
    rw [Traced.result_getOnePhysicPage] at hr
    obtain ⟨i, hlt, hfree, heq⟩ := (getOnePhysicPage_sat hl h.inv.config pf).of_ok hr
    subst heq
    dsimp only
    rw [if_neg (by omega)]
    refine ((h.follows hl hm (by omega) hlt hfree).of_view rfl).bind ?_
    intro t2 hr2
    rw [Traced.result_pageMapping] at hr2
    obtain ⟨hlast, h2, -⟩ := (h.pageMapping hl hm (by omega) hlt hfree).of_ok hr2
    rw [next_vaddr hlast, Nat.add_assoc]
    exact ih (by omega) h2

end Loops

theorem Follows.forRange {f : Nat → Kernel → Traced Kernel} (P : Nat → Kernel → Prop) {n i : Nat} (h0 : P i s)
    (hstep : ∀ j t, j < i + n → P j t →
      Follows l t (f j t) id ∧ ∀ t', (f j t).result = .ok t' → P (j + 1) t') :
    Follows l s (Trace.forRange f n i s) id :=
  Trace.Goes.forRange (R := fun V log V' => Writes l V (paging log) V') .nil writes_append P h0 hstep

/-- A function without events that leaves the pages alone. -/
theorem Follows.samePaging {x : Except Panic α} {g : α → Kernel} (hr : ∀ a, x = .ok a → SamePaging s (g a)) :
    Follows l s (Trace.lift x) g := .lift fun a ha => (hr a ha).view

/-! ## `palloc` -/

theorem getVirtualPage_rest {n : Nat} {r : Nat × Kernel} (h : s.getVirtualPage pf n = .ok r) :
    SameRest s r.2 ∧ r.2.ram = s.ram := by
  cases pf with
  | kernelPool =>
    obtain ⟨x, -, h⟩ := Except.bind_eq_ok.1 h
    cases x with
    | none =>
      cases h
      exact ⟨rfl, rfl⟩
    | some idx =>
      cases h
      exact ⟨rfl, rfl⟩
  | userPool =>
    obtain ⟨t, -, h⟩ := Except.bind_eq_ok.1 h
    obtain ⟨x, -, h⟩ := Except.bind_eq_ok.1 h
    cases x with
    | none =>
      cases h
      exact ⟨rfl, rfl⟩
    | some idx =>
      cases h
      exact ⟨rfl, rfl⟩

theorem follows_palloc (hl : l.Sized) (hi : PageInv l Stable s) {n : Nat} (hn : 1 ≤ n) :
    Follows l s (Traced.palloc s pf n) Prod.snd := by
  unfold Traced.palloc
  refine (Follows.lift (g := fun _ => s) fun _ _ => rfl).bind ?_
  intro _ _
  refine (Follows.lift (g := Prod.snd) ?_).bind ?_
  · intro r hr
    obtain ⟨hrest, hram⟩ := getVirtualPage_rest hr
    exact hrest.view hram
  · intro r hr
    rcases (getVirtualPage_sat hi hn).of_ok hr with heq | ⟨vp, hpos, hvp, hres⟩
    · rw [heq]
      exact .pure rfl
    · obtain ⟨v, s1⟩ := r
      dsimp only at hvp hres ⊢
      subst hvp
      obtain ⟨hm, hstart⟩ := hres.start hi
      rw [if_neg (by omega)]
      have hloop := follows_pallocFrom hl hm n (Nat.zero_add n) hstart
      rwa [Nat.add_zero] at hloop

/-! ## `pfree` -/

/-- One page of `pfree`: its entry is cleared, and a translation of the page of the PCB is dropped. -/
theorem Kernel.Pfreeing.follows (hl : l.Sized) (hi : PageInv l Stable s) {t : Kernel} {vp n j : Nat}
    (hf : Freeable s pf vp n) (h : Pfreeing l s t pf vp j) (hj : j < n) :
    Follows l t (Traced.pfreePage t (pf == .userPool) (pageAt (vp * 4096) j)) id ∧
      ∀ t', (Traced.pfreePage t (pf == .userPool) (pageAt (vp * 4096) j)).result = .ok t' →
        Pfreeing l s t' pf vp (j + 1) := by
  obtain ⟨t', f, haddr, -, hfp, hok, h', hstep⟩ := h.pfreePage hl hi hf hj
  have hres := Traced.result_pfreePage t (pf == .userPool) ((vp + j) * 4096)
  rw [hok] at hres
  have hlog := (Traced.pfreePage_events (h.inv.virtualAddrToPhysicAddr hfp)).of_ok hres
  rw [page_div] at hlog
  rw [← h.gone.rest.pageOf] at hstep
  rw [haddr]
  refine ⟨?_, ?_⟩
  · unfold Follows Trace.Sat
    rw [hres, hlog]
    exact .entry ⟨_, h'.inv⟩ (fun w hw => hstep.view hw) (.invlpg _ (.nil _))
  · intro t2 ht2
    rw [hres] at ht2
    cases ht2
    exact h'

theorem Traced.pfree_eq (hi : PageInv l Stable s) {vp n : Nat} (hn : 1 ≤ n) (hfree : Freeable s pf vp n) :
    Traced.pfree s pf (vp * 4096) n =
      (Trace.forRange (fun i s => Traced.pfreePage s (pf == .userPool) (pageAt (vp * 4096) i)) n 0 s >>= fun s' =>
        Trace.lift (s'.returnVirtualPage pf (vp * 4096) n)) := by
  obtain ⟨f, hf⟩ := Option.ne_none_iff_exists'.1 (hfree.mapped 0 hn)
  rw [Nat.add_zero, ← page_div vp] at hf
  have hrange := hi.frame_range hf
  have hge := l.start_ge pf
  have hpa : s.virtualAddrToPhysicAddr (vp * 4096) = .ok (f * 4096) := by
    rw [hi.virtualAddrToPhysicAddr hf, Nat.mul_mod_left, Nat.add_zero]
  have hargs : decide (n ≥ 1 ∧ vp * 4096 % 4096 = 0) = true := by simp [hn]
  have hframe : decide (f * 4096 % 4096 = 0 ∧ f * 4096 > 0x102000) = true := by
    rw [decide_eq_true_eq]
    omega
  unfold Traced.pfree
  rw [hargs, assert_true, Trace.liftM_eq, Trace.lift_ok_bind, hpa, Trace.liftM_eq, Trace.lift_ok_bind, hframe, assert_true,
    Trace.liftM_eq, Trace.lift_ok_bind, hi.config.frame_pool hrange]
  rfl

theorem follows_pfree (hl : l.Sized) (hi : PageInv l Stable s) {vp n : Nat} (hn : 1 ≤ n) (hfree : Freeable s pf vp n) :
    Follows l s (Traced.pfree s pf (vp * 4096) n) id := by
  rw [Traced.pfree_eq hi hn hfree]
  refine (Follows.forRange (fun j t => Pfreeing l s t pf vp j) (.zero hi vp) ?_).bind ?_
  · intro j t hj ht
    rw [Nat.zero_add] at hj
    exact ht.follows hl hi hfree hj
  · intro s1 hs1
    rw [Trace.result_forRange fun i s => Traced.result_pfreePage s _ _] at hs1
    obtain ⟨s2, hloop, -, hi1⟩ := pfreePages_ok hl hi hfree
    rw [hs1] at hloop
    cases hloop
    obtain ⟨a, ha⟩ := hi1.threads.hasVaddr pf
    apply Follows.lift
    intro s3 hs3
    rw [returnVirtualPage_eq ha] at hs3
    cases hs3
    exact (s1.setPages_rest ..).view (s1.setPages_ram ..)

/-! ## The calls -/

theorem lockPool_same {s' : Kernel} (h : s.lockPool pf = .ok s') : SamePaging s s' := by
  unfold lockPool at h
  split at h
  · cases h
    exact .setLock ..
  · cases h
  · cases h

theorem unlockPool_same {s' : Kernel} (h : s.unlockPool pf = .ok s') : SamePaging s s' := by
  unfold unlockPool at h
  split at h
  · cases h
    exact .setLock ..
  · cases h

theorem follows_lockPool (s : Kernel) (pf : PoolFlags) : Follows l s (Traced.lockPool s pf) id := by
  unfold Traced.lockPool
  apply (Follows.samePaging (g := id) fun _ h => lockPool_same h).bind
  intro s1 _
  apply Follows.quiet rfl
  intro s2 hs2
  cases hs2
  rfl

theorem follows_unlockPool (s : Kernel) (pf : PoolFlags) : Follows l s (Traced.unlockPool s pf) id := by
  unfold Traced.unlockPool
  apply (Follows.samePaging (g := id) fun _ h => unlockPool_same h).bind
  intro s1 _
  apply Follows.quiet rfl
  intro s2 hs2
  cases hs2
  rfl

theorem Kernel.Freeable.samePaging {s' : Kernel} {vp n : Nat} (h : Freeable s pf vp n) (hp : SamePaging s s') :
    Freeable s' pf vp n where
  mapped k hk := by
    rw [hp.map, hp.pageOf]
    exact h.mapped k hk
  plain k hk hpf := by
    rw [hp.systemPage]
    exact h.plain k hk hpf

theorem memsetPages_same (hi : PageInv l Stable s) {vp n : Nat} (hfree : Freeable s pf vp n) {s' : Kernel}
    (h : s.memsetPages (vp * 4096) n = .ok s') : SamePaging s s' := by
  obtain ⟨ram, hok, hp, -⟩ := memsetPages_ok hi hfree
  rw [h] at hok
  cases hok
  exact hp.trans (.setSpace ..)

/-- The pages that `palloc` returned can be cleared, before or after the lock is given back. -/
theorem palloc_freeable (hl : l.Sized) (hi : PageInv l Stable s) {n v : Nat} (hn : 1 ≤ n) {s1 s2 : Kernel}
    (hok : s.palloc pf n = .ok (v, s1)) (hv : v ≠ 0) (hp : SamePaging s1 s2) :
    ∃ vp, v = vp * 4096 ∧ PageInv l Stable s2 ∧ Freeable s2 pf vp n := by
  rcases (palloc_sat hl hi hn).of_ok hok with heq | ⟨vp, -, hvp, ha, hi1⟩
  · exact absurd (Prod.mk.inj heq).1 hv
  · exact ⟨vp, hvp, hp.inv hi1, (ha.freeable hi).samePaging hp⟩

theorem follows_pallocLocked (hl : l.Sized) (hi : PageInv l Stable s) {n : Nat} (hn : 1 ≤ n) :
    Follows l s (Traced.pallocLocked s pf n) Prod.snd := by
  unfold Traced.pallocLocked
  apply (follows_lockPool s pf).bind
  intro s1 hs1
  rw [Traced.result_lockPool] at hs1
  have hi1 := (lockPool_same hs1).inv hi
  apply (follows_palloc hl hi1 hn).bind
  intro ⟨v, s2⟩ hr
  rw [Traced.result_palloc] at hr
  dsimp only
  apply (follows_unlockPool s2 pf).bind
  intro s3 hs3
  rw [Traced.result_unlockPool] at hs3
  split
  · rename_i hv
    obtain ⟨vp, rfl, hi3, hfree⟩ := palloc_freeable hl hi1 hn hr hv (unlockPool_same hs3)
    apply (Follows.samePaging (g := id) fun _ h => memsetPages_same hi3 hfree h).bind
    intro s4 _
    exact .pure rfl
  · exact .pure rfl

def Kernel.SameButData (s s' : Kernel) : Prop := ∃ m, s' = s.setSpace m

theorem Kernel.SameButData.paging {s' : Kernel} (h : SameButData s s') : SamePaging s s' := by
  obtain ⟨m, rfl⟩ := h
  exact .setSpace s m

theorem appendFree_data {s' : Kernel} {desc elem : Nat} (h : s.appendFree desc elem = .ok s') : SameButData s s' := by
  unfold appendFree at h
  split at h
  · cases h
    exact ⟨_, rfl⟩
  · cases h

theorem addBlock_data {s' : Kernel} {av i : Nat} (h : s.addBlock av i = .ok s') : SameButData s s' := by
  obtain ⟨_, -, h⟩ := Except.bind_eq_ok.1 h
  exact appendFree_data h

theorem dropBlock_data {s' : Kernel} {av i : Nat} (h : s.dropBlock av i = .ok s') : SameButData s s' := by
  obtain ⟨_, -, h⟩ := Except.bind_eq_ok.1 h
  cases h
  exact ⟨_, rfl⟩

theorem forRange_data {f : Nat → Kernel → Except Panic Kernel} (hf : ∀ i s s', f i s = .ok s' → SameButData s s')
    {n i : Nat} {s' : Kernel} (h : Except.forRange f n i s = .ok s') : SameButData s s' := by
  refine (Except.Sat.forRange (E := fun _ => True) (fun _ t => SameButData s t) ⟨_, (setSpace_space s).symm⟩ ?_).of_ok h
  rintro j t - - ⟨m, rfl⟩
  cases hj : f j (s.setSpace m) with
  | ok t' =>
    obtain ⟨m', rfl⟩ := hf j _ t' hj
    exact ⟨m', setSpace_setSpace s m m'⟩
  | error e => trivial

theorem follows_newArena (hl : l.Sized) (hi : PageInv l Stable s) (desc : Nat) :
    Follows l s (Traced.newArena s pf desc) Prod.snd := by
  unfold Traced.newArena
  apply (follows_palloc hl hi (Nat.le_refl 1)).bind
  intro ⟨av, s1⟩ hr
  rw [Traced.result_palloc] at hr
  dsimp only
  split
  · exact .pure rfl
  · rename_i hv
    obtain ⟨vp, rfl, hi1, hfree⟩ := palloc_freeable hl hi (Nat.le_refl 1) hr hv (.refl s1)
    apply (Follows.samePaging (g := id) fun _ h => memsetPages_same hi1 hfree h).bind
    intro s2 _
    apply (Follows.samePaging (g := id) fun _ h =>
      (SamePaging.setSpace s2 _).trans (forRange_data (fun _ _ _ h => addBlock_data h) h).paging).bind
    intro s3 _
    exact .pure rfl

theorem follows_ensureBlock (hl : l.Sized) (hi : PageInv l Stable s) (desc : Nat) :
    Follows l s (Traced.ensureBlock s pf desc) Prod.snd := by
  unfold Traced.ensureBlock
  split
  · exact follows_newArena hl hi desc
  · exact .pure rfl

theorem follows_mallocLocked (hl : l.Sized) (hi : PageInv l Stable s) {arenas size : Nat}
    (hsize : size < (s.pool pf).poolSize) : Follows l s (Traced.mallocLocked s pf arenas size) Prod.snd := by
  have hpool := hi.config.size pf
  unfold Traced.mallocLocked
  split
  · have hn : 1 ≤ (size + arenaSize + 4096 - 1) % 2 ^ 32 / 4096 := by
      unfold arenaSize
      omega
    generalize (size + arenaSize + 4096 - 1) % 2 ^ 32 / 4096 = n at *
    apply (follows_palloc hl hi hn).bind
    intro ⟨av, s1⟩ hr
    rw [Traced.result_palloc] at hr
    dsimp only
    split
    · rename_i hv
      obtain ⟨vp, rfl, hi1, hfree⟩ := palloc_freeable hl hi hn hr hv (.refl s1)
      apply (Follows.samePaging (g := id) fun _ h => memsetPages_same hi1 hfree h).bind
      intro s2 _
      apply ((follows_unlockPool _ pf).of_view (SamePaging.setSpace s2 _).view).bind
      intro s3 _
      exact .pure rfl
    · apply (follows_unlockPool s1 pf).bind
      intro s2 _
      exact .pure rfl
  · apply (follows_ensureBlock hl hi _).bind
    intro ⟨ok, s1⟩ _
    dsimp only
    split
    · apply ((follows_unlockPool _ pf).of_view (SamePaging.setSpace s1 _).view).bind
      intro s2 _
      exact .pure rfl
    · apply (follows_unlockPool s1 pf).bind
      intro s2 _
      exact .pure rfl

theorem follows_sysMalloc (hl : l.Sized) (hi : PageInv l Stable s) (size : Nat) :
    Follows l s (Traced.sysMalloc s size) Prod.snd := by
  unfold Traced.sysMalloc
  refine (Follows.lift (g := fun _ => s) fun _ _ => rfl).bind ?_
  intro t _
  dsimp only
  split
  · exact .pure rfl
  · rename_i hsize
    apply (follows_lockPool s _).bind
    intro s1 hs1
    rw [Traced.result_lockPool] at hs1
    have hp := lockPool_same hs1
    apply follows_mallocLocked hl (hp.inv hi)
    rw [hp.size]
    omega

/-! ## `sys_free` -/

section Free
variable {D : Nat} {arenas : Nat → Option Arena} {live : Nat → Option Nat} {seq : Fin 7 → List Nat}

theorem follows_freeBlock (hl : l.Sized) (hi : PageInv l Stable s) {a victim : Nat} (hfree : Freeable s pf a 1) :
    Follows l s (Traced.freeBlock s pf (a * 4096) victim) id := by
  unfold Traced.freeBlock
  apply (Follows.samePaging (g := id) fun _ h => (appendFree_data h).paging).bind
  intro s1 hs1
  have hp1 := (appendFree_data hs1).paging.trans
    (.setSpace s1 (s1.space.write (a * 4096 + 4) ((s1.space.cnt (a * 4096) + 1) % 2 ^ 32)))
  dsimp only
  split
  · apply (Follows.samePaging (g := id) fun _ h =>
      (SamePaging.setSpace s1 _).trans (forRange_data (fun _ _ _ h => dropBlock_data h) h).paging).bind
    intro s2 hs2
    have hp2 := hp1.trans (forRange_data (fun _ _ _ h => dropBlock_data h) hs2).paging
    exact follows_pfree hl (hp2.inv hi) (Nat.le_refl 1) (hfree.samePaging hp2)
  · exact .pure (SamePaging.setSpace s1 _).view

theorem follows_giveBack (hl : l.Sized) (hi : PageInv l Stable s) (h : HeapState s pf D arenas live seq) {p : Nat}
    (hlive : live p ≠ none) : Follows l s (Traced.giveBack s pf (block2arena p) p) id := by
  obtain ⟨size, hs⟩ := Option.ne_none_iff_exists'.1 hlive
  unfold Traced.giveBack
  obtain ⟨-, ⟨a, k, i, ha, hlt, rfl, -⟩ | ⟨a, n, ha, rfl, -⟩⟩ := h.rep.live hs
  · rw [block2arena_blockAt hlt, (h.rep.small ha).2, if_neg (by simp)]
    exact follows_freeBlock hl hi (h.pages.freeable ha)
  · obtain ⟨h1, h2, h3, h4⟩ := h.rep.large ha
    have hpage : block2arena (a * 4096 + 12) = a * 4096 := by
      unfold block2arena
      omega
    rw [hpage, h1, h2, h3, if_pos ⟨rfl, rfl⟩]
    exact follows_pfree hl hi (h.rep.pages_pos ha) (h.pages.freeable ha)

theorem follows_sysFree (hl : l.Sized) (hi : PageInv l Stable s) {t : PCB} (ht : s.pcb s.current = some t)
    (hheap : s.heapOf t = (pf, D)) (h : HeapState s pf D arenas live seq) {p : Nat} (hp : p = 0 ∨ live p ≠ none) :
    Follows l s (Traced.sysFree s p) id := by
  unfold Traced.sysFree
  split
  · exact .pure rfl
  · rename_i hp0
    rw [getPcb, ht]
    apply (Follows.lift (g := fun _ => s) fun _ _ => rfl).bind
    intro t' ht'
    cases ht'
    rw [hheap]
    dsimp only
    apply (Follows.lift (g := fun _ => s) fun _ _ => rfl).bind
    intro _ _
    apply (follows_lockPool s pf).bind
    intro s1 hs1
    rw [Traced.result_lockPool] at hs1
    unfold lockPool at hs1
    split at hs1
    · cases hs1
      apply (Follows.lift (g := fun _ => s.setLock pf _) fun _ _ => rfl).bind
      intro _ _
      apply (follows_giveBack hl ((SamePaging.setLock s pf _).inv hi) (h.setLock pf _) (hp.resolve_left hp0)).bind
      intro s2 _
      exact follows_unlockPool s2 pf
    · cases hs1
    · cases hs1

end Free

end Functions

/-! ## Time slices -/

/-- What a thread does between two loads of CR3, apart from its accesses: the calls of the allocators, and stores
to its live regions. -/
inductive Op where
  | palloc (pf : PoolFlags) (pageCnt : Nat)
  | kpalloc (pageCnt : Nat)
  | upalloc (pageCnt : Nat)
  | pfree (pf : PoolFlags) (vaddrStart pageCnt : Nat)
  | sysMalloc (size : Nat)
  | sysFree (p : Nat)
  | write (a v : Nat)

namespace Op

def exec : Op → Kernel → Traced (Nat × Kernel)
  | .palloc pf n, k => Traced.palloc k pf n
  | .kpalloc n, k => Traced.kpalloc k n
  | .upalloc n, k => Traced.upalloc k n
  | .pfree pf v n, k => do return (0, ← Traced.pfree k pf v n)
  | .sysMalloc size, k => Traced.sysMalloc k size
  | .sysFree p, k => do return (0, ← Traced.sysFree k p)
  | .write a v, k => pure (0, k.setSpace (k.space.writeByte a v))

/-- The call that says what the caller keeps to and has afterwards; for `palloc` that is the one with the lock. -/
def call : Op → Call
  | .palloc .kernelPool n => .kpalloc n
  | .palloc .userPool n => .upalloc n
  | .kpalloc n => .kpalloc n
  | .upalloc n => .upalloc n
  | .pfree pf v n => .pfree pf v n
  | .sysMalloc size => .sysMalloc size
  | .sysFree p => .sysFree p
  | .write a v => .write a v

end Op

/-- The events are those of the page tables and the TLB in `log`, with accesses to any pages at any time. -/
def Interleaved (log : List Event) (es : List (Tlb.Event Kernel Nat)) : Prop :=
  es.filter (fun e => !isAccess e) = paging log

/-- The events of a time slice of the current thread, from `s` on. A failed `ASSERT` ends it. -/
inductive Slice (l : Layout) : Sys → List (Tlb.Event Kernel Nat) → Prop where
  | accesses {s : Sys} {es : List (Tlb.Event Kernel Nat)} (hes : Interleaved [] es) : Slice l s es
  | op {s : Sys} {es es' : List (Tlb.Event Kernel Nat)} {r : Nat} {k : Kernel} (o : Op) (ho : s.Allowed l o.call)
      (hok : (o.exec s.k).result = .ok (r, k)) (hes : Interleaved (o.exec s.k).log es)
      (hrest : Slice l (s.after o.call r k) es') : Slice l s (es ++ es')
  | stop {s : Sys} {es : List (Tlb.Event Kernel Nat)} {e : Panic} (o : Op) (ho : s.Allowed l o.call)
      (herr : (o.exec s.k).result = .error e) (hes : Interleaved (o.exec s.k).log es) : Slice l s es

def mmuAfter (k : Kernel) (es : List (Tlb.Event Kernel Nat)) : Tlb.Mmu Kernel Nat Nat :=
  (Tlb.Mmu.loadCr3 k).run Kernel.frame es

section Slices
variable {l : Layout} {s : Sys} {arenas : Heap → Nat → Option Arena} {seq : Heap → Fin 7 → List Nat}

theorem Op.follows (hl : l.Sized) (hI : s.Inv l arenas seq) (o : Op) (ho : s.Allowed l o.call) :
    Follows l s.k (o.exec s.k) Prod.snd := by
  have hi := hI.page
  cases o with
  | palloc pf n =>
    have hn : 1 ≤ n := by
      cases pf with
      | kernelPool => exact ho
      | userPool => exact ho
    exact follows_palloc hl hi hn
  | kpalloc n => exact follows_pallocLocked hl hi ho
  | upalloc n => exact follows_pallocLocked hl hi ho
  | pfree pf v n =>
    have hfree := follows_pfree hl hi ho.1 (hI.freeable ho)
    have hv : v / 4096 * 4096 = v := by
      have := ho.2.1
      omega
    rw [hv] at hfree
    apply hfree.bind
    intro k _
    exact .pure rfl
  | sysMalloc size => exact follows_sysMalloc hl hi size
  | sysFree p =>
    obtain ⟨t, ht, hheap, -, -⟩ := heap_current hi.threads
    apply (follows_sysFree hl hi ht hheap hI.state ho).bind
    intro k _
    exact .pure rfl
  | write a v => exact .pure (SamePaging.setSpace s.k _).view

theorem Sys.Inv.afterPalloc (hl : l.Sized) (hI : s.Inv l arenas seq) {pf : PoolFlags} {n r : Nat} {k : Kernel}
    (hn : 1 ≤ n) (hok : s.k.palloc pf n = .ok (r, k)) :
    Inv l ⟨k, s.live, fun pg => s.client pg ∨ r ≠ 0 ∧ s.k.InRange pf (r / 4096) n pg⟩ arenas seq := by
  rcases (palloc_sat hl hI.page hn).of_ok hok with heq | ⟨vp, -, hr, ha, hi⟩
  · cases heq
    exact hI.fewer fun pg hpg => hpg.resolve_right fun h => h.1 rfl
  · dsimp only at hr ha hi
    apply hI.grown ha.extends hi ha.rest.sys ha.toGrown
    intro pg hpg
    rw [hr, page_div] at hpg
    exact hpg.imp_right And.right

theorem Op.result_call (o : Op) (k : Kernel) (h : ∀ pf n, o ≠ .palloc pf n) : (o.exec k).result = o.call.exec k := by
  cases o with
  | palloc pf n => exact absurd rfl (h pf n)
  | kpalloc n => exact Traced.result_pallocLocked k .kernelPool n
  | upalloc n => exact Traced.result_pallocLocked k .userPool n
  | pfree pf v n =>
    show (Traced.pfree k pf v n >>= _).result = _
    rw [Trace.result_bind, Traced.result_pfree]
    rfl
  | sysMalloc size => exact Traced.result_sysMalloc k size
  | sysFree p =>
    show (Traced.sysFree k p >>= _).result = _
    rw [Trace.result_bind, Traced.result_sysFree]
    rfl
  | write a v => rfl

theorem Op.inv (hl : l.Sized) (hI : s.Inv l arenas seq) {o : Op} {r : Nat} {k : Kernel} (ho : s.Allowed l o.call)
    (hok : (o.exec s.k).result = .ok (r, k)) : ∃ arenas' seq', (s.after o.call r k).Inv l arenas' seq' := by
  by_cases hpalloc : ∃ pf n, o = .palloc pf n
  · obtain ⟨pf, n, rfl⟩ := hpalloc
    have hres : s.k.palloc pf n = .ok (r, k) := (Traced.result_palloc s.k pf n).symm.trans hok
    cases pf with
    | kernelPool => exact ⟨_, _, hI.afterPalloc hl ho hres⟩
    | userPool => exact ⟨_, _, hI.afterPalloc hl ho hres⟩
  · rw [o.result_call s.k fun pf n he => hpalloc ⟨pf, n, he⟩] at hok
    exact (Step.call o.call ho hok).inv hl hI

/-- The events of a time slice write one entry at a time. -/
theorem Slice.writes (hl : l.Sized) {es : List (Tlb.Event Kernel Nat)} (hs : Slice l s es)
    (hI : s.Inv l arenas seq) : ∃ V, Writes l s.k.view es V := by
  induction hs generalizing arenas seq with
  | @accesses s es hes =>
    refine ⟨s.k.view, Writes.interleave ?_⟩
    rw [hes]
    exact .nil _
  | op o ho hok hes hrest ih =>
    have hw := (o.follows hl hI ho).of_ok hok
    obtain ⟨arenas', seq', hI'⟩ := Op.inv hl hI ho hok
    obtain ⟨V, hV⟩ := ih hI'
    refine ⟨V, Writes.append (Writes.interleave ?_) hV⟩
    rw [hes]
    exact hw
  | stop o ho herr hes =>
    obtain ⟨V, hV⟩ := (o.follows hl hI ho).of_error herr
    refine ⟨V, Writes.interleave ?_⟩
    rw [hes]
    exact hV

end Slices

/-- In every time slice of every run in which no page gets an entry after an access to it: all accesses to allocated
pages use the frame that the page tables name. -/
theorem translations_current {allMem : Nat} (hused : usedMem ≤ allMem) (hlt : allMem < 2 ^ 32) {low : Bytes} {D : Nat}
    (hD : StaticDescs D) {s : Sys} (hrun : Run (layout allMem) (init (boot allMem low D)) s)
    {es : List (Tlb.Event Kernel Nat)} (hs : Slice (layout allMem) s es)
    (hfresh : Tlb.Fresh Kernel.frame IsAllocated s.k [] es) :
    ∀ pre, pre <+: es → ∀ vp, (mmuAfter s.k pre).tables.IsAllocated vp →
      (mmuAfter s.k pre).used Kernel.frame vp = (mmuAfter s.k pre).tables.frame vp := by
  have hf : Fits allMem := ⟨hused, hlt⟩
  obtain ⟨arenas, seq, hI⟩ := boot_run_inv hf hD hrun
  obtain ⟨V, hV⟩ := hs.writes hf.sized hI
  have hloc := hV.locals (m := .loadCr3 s.k) ⟨_, hI.page⟩ rfl
  exact Tlb.coherent_of_fresh (Tlb.coherent_loadCr3 s.k) (Tlb.covers_loadCr3 s.k) hloc hfresh

/-! ## On a machine with 64MB -/

theorem paging_noAccess (log : List Event) : (paging log).filter (fun e => !isAccess e) = paging log := by
  apply List.filter_eq_self.2
  intro e he
  obtain ⟨x, -, hx⟩ := List.mem_filterMap.1 he
  cases x with
  | entry vp k =>
    cases hx
    rfl
  | invlpg vp =>
    cases hx
    rfl
  | _ => cases hx

theorem interleaved_refl (log : List Event) : Interleaved log (paging log) := paging_noAccess log

theorem interleaved_access (log : List Event) (vp : Nat) (fill : Bool) :
    Interleaved log (paging log ++ [.access vp fill]) := by
  unfold Interleaved
  rw [List.filter_append, paging_noAccess]
  exact List.append_nil _

/-- Four calls of the main thread after boot, with an access after the first: the result of the first call, the
state and the events. The frame of the freed page is used again, at another page. -/
def reuseSlice (k : Kernel) : Except Panic (Nat × Kernel × List (Tlb.Event Kernel Nat)) := do
  let (v, k1) ← (Op.exec (.palloc .kernelPool 1) k).result
  let (_, k2) ← (Op.exec (.palloc .kernelPool 1) k1).result
  let (_, k3) ← (Op.exec (.pfree .kernelPool 0xC0100000 1) k2).result
  let (_, k4) ← (Op.exec (.palloc .kernelPool 2) k3).result
  return (v, k4, (paging (Op.exec (.palloc .kernelPool 1) k).log ++ [.access 0xC0100 true]) ++
    (paging (Op.exec (.palloc .kernelPool 1) k1).log ++ (paging (Op.exec (.pfree .kernelPool 0xC0100000 1) k2).log ++
      paging (Op.exec (.palloc .kernelPool 2) k3).log)))

/-- A fifth call hands the page out again. -/
def staleSlice (k : Kernel) : Except Panic (Nat × List (Tlb.Event Kernel Nat)) := do
  let (v, k4, es) ← reuseSlice k
  let _ ← (Op.exec (.palloc .kernelPool 1) k4).result
  return (v, es ++ paging (Op.exec (.palloc .kernelPool 1) k4).log)

theorem reuseSlice_facts :
    (reuseSlice (boot 0x4000000 (fun _ => 0#8) 0xC0010000)).map (fun x =>
      let es := x.2.2 ++ [.access 0xC0102 true, .access 0xC0101 true]
      let m := mmuAfter (boot 0x4000000 (fun _ => 0#8) 0xC0010000) es
      (x.1, decide (Tlb.Fresh Kernel.frame IsAllocated (boot 0x4000000 (fun _ => 0#8) 0xC0010000) [] es),
        m.tlb 0xC0100, m.tlb 0xC0102)) =
    .ok (0xC0100000, true, some 0x200, some 0x200) := by
  decide +kernel

theorem staleSlice_facts :
    (staleSlice (boot 0x4000000 (fun _ => 0#8) 0xC0010000)).map (fun x =>
      let m := mmuAfter (boot 0x4000000 (fun _ => 0#8) 0xC0010000) x.2
      (x.1, m.used Kernel.frame 0xC0100, m.tables.frame 0xC0100, m.tables.view 0xC0100)) =
    .ok (0xC0100000, some 0x200, some 0x203, some 0x203) := by
  decide +kernel

theorem reuseSlice_slice {l : Layout} {k k4 : Kernel} {es : List (Tlb.Event Kernel Nat)}
    (h : reuseSlice k = .ok (0xC0100000, k4, es)) :
    ∃ s, s.k = k4 ∧ ∀ es', Slice l s es' → Slice l (init k) (es ++ es') := by
  obtain ⟨⟨v, k1⟩, h1, h⟩ := Except.bind_eq_ok.1 h
  obtain ⟨⟨v2, k2⟩, h2, h⟩ := Except.bind_eq_ok.1 h
  obtain ⟨⟨v3, k3⟩, h3, h⟩ := Except.bind_eq_ok.1 h
  obtain ⟨⟨v4, k4'⟩, h4, h⟩ := Except.bind_eq_ok.1 h
  dsimp only at h
  rw [Except.pure_eq, Except.ok.injEq, Prod.mk.injEq, Prod.mk.injEq] at h
  obtain ⟨rfl, rfl, rfl⟩ := h
  have hn : ∀ n, 1 ≤ n + 1 := fun n => Nat.le_add_left 1 n
  let s3 := ((((init k).after (.kpalloc 1) 0xC0100000 k1).after (.kpalloc 1) v2 k2).after
    (.pfree .kernelPool 0xC0100000 1) v3 k3)
  refine ⟨s3.after (.kpalloc 2) v4 k4', rfl, ?_⟩
  intro es' hes'
  have hassoc : ∀ a b c d e : List (Tlb.Event Kernel Nat),
      (a ++ (b ++ (c ++ d))) ++ e = a ++ (b ++ (c ++ (d ++ e))) := by
    intro a b c d e
    simp only [List.append_assoc]
  rw [hassoc]
  refine .op (.palloc .kernelPool 1) (hn 0) h1 (interleaved_access _ _ _) ?_
  refine .op (.palloc .kernelPool 1) (hn 0) h2 (interleaved_refl _) ?_
  refine .op (.pfree .kernelPool 0xC0100000 1) ⟨hn 0, rfl, ?_⟩ h3 (interleaved_refl _) ?_
  · intro i hi
    exact .inl (.inr ⟨by decide, i, hi, rfl⟩)
  · exact .op (.palloc .kernelPool 2) (hn 1) h4 (interleaved_refl _) hes'

theorem staleSlice_slice {l : Layout} {k : Kernel} {es : List (Tlb.Event Kernel Nat)}
    (h : staleSlice k = .ok (0xC0100000, es)) : Slice l (init k) es := by
  obtain ⟨⟨v, k4, es4⟩, h4, h⟩ := Except.bind_eq_ok.1 h
  obtain ⟨⟨v5, k5⟩, h5, h⟩ := Except.bind_eq_ok.1 h
  rw [Except.pure_eq, Except.ok.injEq, Prod.mk.injEq] at h
  obtain ⟨rfl, rfl⟩ := h
  obtain ⟨s, rfl, hs⟩ := reuseSlice_slice (l := l) h4
  apply hs
  rw [← List.append_nil (paging _)]
  exact .op (.palloc .kernelPool 1) (Nat.le_refl 1) h5 (interleaved_refl _) (.accesses rfl)

/-- Frame 0x200 is that of page 0xC0100 first and of page 0xC0102 in the end. -/
theorem translations_current_boot : ∃ es, Slice (layout 0x4000000) (init (boot 0x4000000 (fun _ => 0#8) 0xC0010000)) es ∧
    (mmuAfter (boot 0x4000000 (fun _ => 0#8) 0xC0010000) es).tlb 0xC0100 = some 0x200 ∧
    (mmuAfter (boot 0x4000000 (fun _ => 0#8) 0xC0010000) es).tlb 0xC0102 = some 0x200 ∧
    ∀ pre, pre <+: es → ∀ vp, (mmuAfter (boot 0x4000000 (fun _ => 0#8) 0xC0010000) pre).tables.IsAllocated vp →
      (mmuAfter (boot 0x4000000 (fun _ => 0#8) 0xC0010000) pre).used Kernel.frame vp =
        (mmuAfter (boot 0x4000000 (fun _ => 0#8) 0xC0010000) pre).tables.frame vp := by
  obtain ⟨⟨v, k4, es⟩, hok, h⟩ := Except.map_eq_ok.1 reuseSlice_facts
  dsimp only at h
  simp only [Prod.mk.injEq, decide_eq_true_eq] at h
  obtain ⟨rfl, hfresh, hold, hnew⟩ := h
  obtain ⟨s, rfl, hs⟩ := reuseSlice_slice (l := layout 0x4000000) hok
  have hslice := hs [.access 0xC0102 true, .access 0xC0101 true] (.accesses rfl)
  exact ⟨_, hslice, hold, hnew, translations_current (usedMem_le (by decide)) (by decide)
    (by decide) .refl hslice hfresh⟩

theorem boot_staleSlice : ∃ es, Slice (layout 0x4000000) (init (boot 0x4000000 (fun _ => 0#8) 0xC0010000)) es ∧
    (mmuAfter (boot 0x4000000 (fun _ => 0#8) 0xC0010000) es).used Kernel.frame 0xC0100 = some 0x200 ∧
    (mmuAfter (boot 0x4000000 (fun _ => 0#8) 0xC0010000) es).tables.frame 0xC0100 = some 0x203 ∧
    (mmuAfter (boot 0x4000000 (fun _ => 0#8) 0xC0010000) es).tables.view 0xC0100 = some 0x203 := by
  obtain ⟨⟨v, es⟩, hok, h⟩ := Except.map_eq_ok.1 staleSlice_facts
  dsimp only at h
  simp only [Prod.mk.injEq] at h
  obtain ⟨rfl, hused, hframe, hview⟩ := h
  exact ⟨es, staleSlice_slice hok, hused, hframe, hview⟩

/-- The page 0xC0100 is freed and handed out again with frame 0x203, and accesses still reach frame 0x200, which is
now that of another page. -/
theorem not_translations_current : ∃ es pre vp,
    Slice (layout 0x4000000) (init (boot 0x4000000 (fun _ => 0#8) 0xC0010000)) es ∧ pre <+: es ∧
    (mmuAfter (boot 0x4000000 (fun _ => 0#8) 0xC0010000) pre).tables.IsAllocated vp ∧
    (mmuAfter (boot 0x4000000 (fun _ => 0#8) 0xC0010000) pre).used Kernel.frame vp ≠
      (mmuAfter (boot 0x4000000 (fun _ => 0#8) 0xC0010000) pre).tables.frame vp := by
  obtain ⟨es, hs, hused, hframe, hview⟩ := boot_staleSlice
  refine ⟨es, es, 0xC0100, hs, List.prefix_refl es, ?_, ?_⟩
  · unfold IsAllocated
    rw [hview]
    exact Option.some_ne_none _
  · rw [hused, hframe]
    decide

end ElephantOS
