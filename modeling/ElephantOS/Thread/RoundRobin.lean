import ElephantOS.Lib.RoundRobin
import ElephantOS.Thread.SchedInv

/-!
# Turns of the threads that never block

While no thread blocks, the only events are the timer and `ThreadStart`.

* `ReadyList s rs` : the ready list holds the threads `rs`, in this order;
* `Moves` : what one event does to the ready list and to `cpu_ticks_left`;
* `dispatches` : the threads `ScheduleThread` picks, switch by switch;
* `dispatches_eq_served` : the current thread and the ready list are a queue of round robin;
* `round_robin` : the order of the turns, and when one ends;
* `turn_ticks` : a turn lasts one interrupt longer than `priority`.
-/


namespace ElephantOS
open LinkMem RoundRobin

namespace Sched
variable {S : Type} [DecidableEq S]

def ticksLeft (s : Sched S) (p : Nat) : Nat := ((s.pcb p).map (·.cpuTicksLeft)).getD 0

def priorityOf (s : Sched S) (p : Nat) : Nat := ((s.pcb p).map (·.priority)).getD 0

def ReadyList (s : Sched S) (rs : List Nat) : Prop :=
  ∃ seq, InvAt (some s.current) s seq ∧ seq .ready = rs.map .generalTag

/-! ## Runs -/

/-- The events while no thread blocks; `kpalloc` gives a new thread a page of its own. -/
def CpuBound (s : Sched S) : Event S → Prop
  | .timer => True
  | .threadStart p _ => s.FreshPage p
  | _ => False

def CpuBoundRun (s : Sched S) : List (Event S) → Prop
  | [] => True
  | e :: es => s.CpuBound e ∧ ∀ s', s.step e = .ok s' → s'.CpuBoundRun es

def run (s : Sched S) : List (Event S) → Except Stop (Sched S)
  | [] => .ok s
  | e :: es => s.step e >>= fun s' => s'.run es

/-- `IntTimerHandler` calls `ScheduleThread`. -/
def switches (s : Sched S) : Event S → Bool
  | .timer => s.ticksLeft s.current == 0
  | _ => false

/-- The threads `ScheduleThread` switches to. -/
def dispatches (s : Sched S) : List (Event S) → List Nat
  | [] => []
  | e :: es =>
    match s.step e with
    | .ok s' => if s.switches e then s'.current :: s'.dispatches es else s'.dispatches es
    | .error _ => []

def Event.isTimer : Event S → Bool
  | .timer => true
  | _ => false

/-- How many of the events are timer interrupts. -/
def timers (es : List (Event S)) : Nat := es.countP Event.isTimer

/-- What the events are for the queue of threads. -/
def ops (s : Sched S) : List (Event S) → List (RoundRobin.Op Nat)
  | [] => []
  | e :: es =>
    match s.step e with
    | .ok s' =>
      match e with
      | .timer => if s.switches e then .switch :: s'.ops es else s'.ops es
      | .threadStart p _ => .join p :: s'.ops es
      | _ => s'.ops es
    | .error _ => []

/-! ## One event -/

/-- What an event does: the counter of the current thread goes down, or the current thread goes to the end
of the ready list with a new counter and the first thread of the list gets the CPU, or a new thread enters
the list. Other threads keep their counters. -/
inductive Moves (s : Sched S) (rs : List Nat) : Event S → Sched S → List Nat → Prop
  | tick {s' : Sched S} (hleft : s.ticksLeft s.current = s'.ticksLeft s.current + 1)
      (hcur : s'.current = s.current) (hother : ∀ q ≠ s.current, s'.ticksLeft q = s.ticksLeft q)
      (hprio : ∀ q, s'.priorityOf q = s.priorityOf q) : Moves s rs .timer s' rs
  | switch {s' : Sched S} {ns : List Nat} (hleft : s.ticksLeft s.current = 0)
      (hline : rs ++ [s.current] = s'.current :: ns) (hload : s'.ticksLeft s.current = s.priorityOf s.current)
      (hother : ∀ q ≠ s.current, s'.ticksLeft q = s.ticksLeft q)
      (hprio : ∀ q, s'.priorityOf q = s.priorityOf q) : Moves s rs .timer s' ns
  | start {s' : Sched S} {p : Nat} {priority : Int} (hfresh : s.FreshPage p) (hcur : s'.current = s.current)
      (hload : s'.ticksLeft p = s'.priorityOf p) (hother : ∀ q ≠ p, s'.pcb q = s.pcb q) :
      Moves s rs (.threadStart p priority) s' (rs ++ [p])

section Step
variable {s s' : Sched S} {rs rs' : List Nat} {p : Nat} {t : PCB}

omit [DecidableEq S] in
theorem ticksLeft_of_pcb (ht : s.pcb p = some t) : s.ticksLeft p = t.cpuTicksLeft := by
  simp [ticksLeft, ht]

omit [DecidableEq S] in
theorem priorityOf_of_pcb (ht : s.pcb p = some t) : s.priorityOf p = t.priority := by
  simp [priorityOf, ht]

omit [DecidableEq S] in
theorem ticksLeft_setPcb (s : Sched S) (p q : Nat) (t : PCB) :
    (s.setPcb p t).ticksLeft q = if q = p then t.cpuTicksLeft else s.ticksLeft q := by
  by_cases hq : q = p
  · simp [ticksLeft, setPcb, hq]
  · simp [ticksLeft, setPcb, hq]

omit [DecidableEq S] in
/-- A PCB that keeps its `priority`. -/
theorem priorityOf_setPcb (ht : s.pcb p = some t) (t' : PCB) (hprio : t'.priority = t.priority) (q : Nat) :
    (s.setPcb p t').priorityOf q = s.priorityOf q := by
  by_cases hq : q = p
  · subst hq
    simp [priorityOf, setPcb, ht, hprio]
  · simp [priorityOf, setPcb, hq]

theorem ReadyList.nodup (h : ReadyList s rs) : (s.current :: rs).Nodup := by
  obtain ⟨seq, hi, hseq⟩ := h
  have hnd := hi.family.nodup .ready
  have hcur := hi.running_notMem .ready
  rw [hseq] at hnd hcur
  rw [List.nodup_cons]
  refine ⟨?_, hnd.of_map⟩
  intro hmem
  exact hcur (List.mem_map_of_mem hmem)

theorem ReadyList.ne_current (h : ReadyList s rs) (hp : p ∈ rs) : p ≠ s.current := by
  rintro rfl
  exact (List.nodup_cons.1 h.nodup).1 hp

/-- A page without a thread is not in the queue. -/
theorem ReadyList.fresh (h : ReadyList s rs) (hp : s.FreshPage p) : p ∉ s.current :: rs := by
  obtain ⟨seq, hi, hseq⟩ := h
  have hnone : s.status p = none := by simp [status, hp.unused]
  rw [List.mem_cons, not_or]
  constructor
  · rintro rfl
    rw [(hi.running _).2 rfl] at hnone
    cases hnone
  · intro hmem
    have hin : .generalTag p ∈ seq .ready := by
      rw [hseq]
      exact List.mem_map_of_mem hmem
    obtain ⟨q, hq, hst⟩ := (hi.ready _).1 hin
    cases hq
    rw [hnone] at hst
    cases hst

/-- Starting a thread leaves the counters of the others alone. -/
theorem ReadyList.keeps (h : ReadyList s rs) (hp : s.FreshPage p) (hother : ∀ q ≠ p, s'.pcb q = s.pcb q) {q : Nat}
    (hq : q ∈ s.current :: rs) : s'.ticksLeft q = s.ticksLeft q := by
  have hne : q ≠ p := by
    rintro rfl
    exact h.fresh hp hq
  rw [ticksLeft, ticksLeft, hother q hne]

/-- In every state of the invariant, and so of every run, there is such a list. -/
theorem Inv.readyList (hi : s.Inv) : ∃ rs, ReadyList s rs := by
  obtain ⟨seq, hi⟩ := hi
  have hrange : seq .ready ∈ Set.range (List.map Node.generalTag) := by
    rw [Set.range_list_map]
    intro n hn
    obtain ⟨p, rfl, -⟩ := (hi.ready n).1 hn
    exact ⟨p, rfl⟩
  obtain ⟨rs, hrs⟩ := hrange
  exact ⟨rs, seq, hi, hrs.symm⟩

/-- The first of the ready threads gets the CPU. -/
theorem dispatch_ready {seq : ListId S → List (Node S)} {n : Nat} {ns : List Nat} (hi : InvAt none s seq)
    (hseq : seq .ready = (n :: ns).map .generalTag) :
    ∃ s', s.dispatch = .ok s' ∧ ReadyList s' ns ∧ s'.current = n ∧ (∀ q, s'.ticksLeft q = s.ticksLeft q) ∧
      ∀ q, s'.priorityOf q = s.priorityOf q := by
  rw [List.map_cons] at hseq
  obtain ⟨t, ht⟩ : ∃ t, s.pcb n = some t := by
    obtain ⟨q, hq, hst⟩ := (hi.ready (.generalTag n)).1 (by rw [hseq]; simp)
    cases hq
    exact pcb_of_status (by rw [hst]; simp)
  obtain ⟨links, hdisp, hi'⟩ := dispatch_seq hi hseq ht
  refine ⟨_, hdisp, ⟨_, hi', Function.update_self _ _ _⟩, rfl, ?_, ?_⟩
  · intro q
    have hset := ticksLeft_setPcb s n q { t with status := .running }
    by_cases hq : q = n
    · rw [if_pos hq] at hset
      rw [hq, ticksLeft_of_pcb ht]
      exact hq ▸ hset
    · rw [if_neg hq] at hset
      exact hset
  · exact priorityOf_setPcb ht { t with status := .running } rfl

/-- A thread whose time is over has a new counter, and is the last of the ready ones. -/
theorem ReadyList.requeue (h : ReadyList s rs) :
    ∃ s' seq, s.requeue = .ok s' ∧ InvAt none s' seq ∧ seq .ready = (rs ++ [s.current]).map .generalTag ∧
      s'.ticksLeft s.current = s.priorityOf s.current ∧ (∀ q ≠ s.current, s'.ticksLeft q = s.ticksLeft q) ∧
      ∀ q, s'.priorityOf q = s.priorityOf q := by
  obtain ⟨seq, hi, hseq⟩ := h
  obtain ⟨t, ht, -⟩ := hi.getPcb_current
  let t' : PCB := { t with cpuTicksLeft := t.priority, status := .ready }
  obtain ⟨links, hreq, hi'⟩ := requeue_seq hi ht
  refine ⟨_, _, hreq, hi', ?_, ?_, ?_, ?_⟩
  · rw [Function.update_self, hseq, List.map_append]
    rfl
  · rw [ticksLeft_setPcb, if_pos rfl, priorityOf_of_pcb ht]
  · intro q hq
    rw [ticksLeft_setPcb, if_neg hq]
    rfl
  · exact priorityOf_setPcb ht t' rfl

theorem ReadyList.scheduleThread (h : ReadyList s rs) :
    ∃ s' ns, s.scheduleThread = .ok s' ∧ ReadyList s' ns ∧ rs ++ [s.current] = s'.current :: ns ∧
      s'.ticksLeft s.current = s.priorityOf s.current ∧ (∀ q ≠ s.current, s'.ticksLeft q = s.ticksLeft q) ∧
      ∀ q, s'.priorityOf q = s.priorityOf q := by
  obtain ⟨s1, seq, hreq, hi, hseq, hload, hother, hprio⟩ := h.requeue
  obtain ⟨n, ns, hline⟩ : ∃ n ns, rs ++ [s.current] = n :: ns := List.exists_cons_of_ne_nil (by simp)
  obtain ⟨s', hdisp, hready, hcur, hleft, hprio'⟩ := dispatch_ready hi (hline ▸ hseq)
  refine ⟨s', ns, ?_, hready, by rw [hline, hcur], by rw [hleft, hload], ?_, ?_⟩
  · rw [Sched.scheduleThread, hreq, Except.ok_bind, hdisp]
  · intro q hq
    rw [hleft, hother q hq]
  · intro q
    rw [hprio', hprio]

/-- `IntTimerHandler` on a counter that has run out, and on one that has not. -/
theorem ReadyList.intTimerHandler (h : ReadyList s rs) :
    ∃ s' rs', s.intTimerHandler = .ok s' ∧ ReadyList s' rs' ∧ Moves s rs .timer s' rs' := by
  obtain ⟨seq, hi, hseq⟩ := h
  obtain ⟨t, ht, -⟩ := hi.getPcb_current
  have hcan := hi.canary _ _ ht
  let s1 : Sched S := { s with ticks := (s.ticks + 1) % 2 ^ 32 }
  have hi1 : InvAt (some s1.current) s1 seq := ⟨hi.family, hi.ready, hi.all, hi.waiting, hi.running,
    hi.pages, hi.canary, hi.main⟩
  -- what the handler writes into the PCB of the current thread
  have hset : ∀ t' : PCB, t'.status = t.status → t'.canary = t.canary → t'.priority = t.priority →
      ReadyList (s1.setPcb s.current t') rs ∧ (∀ q ≠ s.current, (s1.setPcb s.current t').ticksLeft q = s.ticksLeft q) ∧
        ∀ q, (s1.setPcb s.current t').priorityOf q = s.priorityOf q := by
    intro t' hst hca hpr
    refine ⟨⟨seq, hi1.setPcb_of_status ht hst hca, hseq⟩, ?_, priorityOf_setPcb (s := s1) ht t' hpr⟩
    intro q hq
    rw [ticksLeft_setPcb, if_neg hq]
    rfl
  by_cases hleft : t.cpuTicksLeft = 0
  · let t' : PCB := { t with cpuTicksElapsed := (t.cpuTicksElapsed + 1) % 256 }
    obtain ⟨hready, hother, hprio⟩ := hset t' rfl rfl rfl
    obtain ⟨s', ns, hsched, hready', hline, hload, hother', hprio'⟩ := hready.scheduleThread
    refine ⟨s', ns, ?_, hready', .switch ?_ hline ?_ ?_ ?_⟩
    · rw [← hsched]
      simp [Sched.intTimerHandler, getPcb_ok ht, hcan, hleft, s1, t']
    · rw [ticksLeft_of_pcb ht, hleft]
    · rw [← hprio]
      exact hload
    · intro q hq
      rw [hother' q hq, hother q hq]
    · intro q
      rw [hprio', hprio]
  · let t' : PCB := { t with cpuTicksElapsed := (t.cpuTicksElapsed + 1) % 256, cpuTicksLeft := t.cpuTicksLeft - 1 }
    obtain ⟨hready, hother, hprio⟩ := hset t' rfl rfl rfl
    refine ⟨s1.setPcb s.current t', rs, ?_, hready, .tick ?_ rfl hother hprio⟩
    · simp [Sched.intTimerHandler, getPcb_ok ht, hcan, hleft, s1, t']
    · have hless : t'.cpuTicksLeft = t.cpuTicksLeft - 1 := rfl
      rw [ticksLeft_setPcb, if_pos rfl, ticksLeft_of_pcb ht]
      omega

theorem ReadyList.threadStart (h : ReadyList s rs) (hp : s.FreshPage p) (priority : Int) :
    ∃ s', s.threadStart p priority = .ok s' ∧ ReadyList s' (rs ++ [p]) ∧
      Moves s rs (.threadStart p priority) s' (rs ++ [p]) := by
  obtain ⟨seq, hi, hseq⟩ := h
  obtain ⟨s', seq', hok, hi', hready, hcur, hpcb⟩ := threadStart_seq hi hp priority
  have ht : s'.pcb p = some (threadCreate (initThread s.mainThread p ((s.nextPid + 1) % 65536) priority)) := by
    rw [hpcb, Function.update_self]
  refine ⟨s', hok, ⟨seq', hi', ?_⟩, .start hp hcur ?_ ?_⟩
  · rw [hready, hseq, List.map_append]
    rfl
  · rw [ticksLeft_of_pcb ht, priorityOf_of_pcb ht]
    rfl
  · intro q hq
    rw [hpcb, Function.update_of_ne hq]

/-- While no thread blocks, no function stops. -/
theorem ReadyList.step {e : Event S} (h : ReadyList s rs) (he : s.CpuBound e) :
    ∃ s' rs', s.step e = .ok s' ∧ ReadyList s' rs' ∧ Moves s rs e s' rs' := by
  cases e with
  | timer => exact h.intTimerHandler
  | threadStart p priority =>
    obtain ⟨s', hok, hready, hmoves⟩ := h.threadStart he priority
    exact ⟨s', _, hok, hready, hmoves⟩
  | execProcess => exact he.elim
  | block => exact he.elim
  | unblock => exact he.elim
  | down => exact he.elim
  | up => exact he.elim
  | retest => exact he.elim

end Step

/-! ## Whole runs -/

section Runs
variable {s s' : Sched S} {rs : List Nat} {e : Event S} {es : List (Event S)}

theorem run_cons (hs : s.step e = .ok s') : s.run (e :: es) = s'.run es := by
  rw [run, hs, Except.ok_bind]

theorem run_append (es es' : List (Event S)) : s.run (es ++ es') = s.run es >>= fun s' => s'.run es' := by
  induction es generalizing s with
  | nil => rfl
  | cons e es ih =>
    cases hs : s.step e with
    | ok s' =>
      rw [List.cons_append, run_cons hs, run_cons hs]
      exact ih
    | error err => rw [List.cons_append, run, run, hs, Except.error_bind, Except.error_bind, Except.error_bind]

theorem dispatches_cons (hs : s.step e = .ok s') :
    s.dispatches (e :: es) = if s.switches e then s'.current :: s'.dispatches es else s'.dispatches es := by
  rw [dispatches, hs]

omit [DecidableEq S] in
theorem switches_of_zero (hleft : s.ticksLeft s.current = 0) : s.switches .timer = true := by
  simp [switches, hleft]

omit [DecidableEq S] in
theorem not_switches {n : Nat} (hleft : s.ticksLeft s.current = n + 1) : s.switches .timer = false := by
  simp [switches, hleft]

theorem CpuBoundRun.append_left {es' : List (Event S)} (h : s.CpuBoundRun (es ++ es')) : s.CpuBoundRun es := by
  induction es generalizing s with
  | nil => trivial
  | cons e es ih => exact ⟨h.1, fun s' hs => ih (h.2 s' hs)⟩

theorem CpuBoundRun.append_right {es' : List (Event S)} (h : s.CpuBoundRun (es ++ es')) (hrun : s.run es = .ok s') :
    s'.CpuBoundRun es' := by
  induction es generalizing s with
  | nil =>
    cases hrun
    exact h
  | cons e es ih =>
    obtain ⟨s1, hs, hrun⟩ := Except.bind_eq_ok.1 hrun
    exact ih (h.2 s1 hs) hrun

omit [DecidableEq S] in
theorem timers_timer (es : List (Event S)) : timers (.timer :: es) = timers es + 1 :=
  List.countP_cons_of_pos rfl

omit [DecidableEq S] in
theorem timers_threadStart (p : Nat) (priority : Int) (es : List (Event S)) :
    timers (.threadStart p priority :: es) = timers es :=
  List.countP_cons_of_neg (by simp [Event.isTimer])

omit [DecidableEq S] in
theorem timers_replicate (n : Nat) : timers (List.replicate n (.timer : Event S)) = n := by
  induction n with
  | zero => rfl
  | succ n ih => rw [List.replicate_succ, timers_timer, ih]

/-- Any number of timer interrupts can come. -/
theorem cpuBoundRun_timers (n : Nat) : s.CpuBoundRun (List.replicate n .timer) := by
  induction n generalizing s with
  | zero => trivial
  | succ n ih => exact ⟨trivial, fun s' _ => ih⟩

theorem cpuBoundRun_turn (m n : Nat) :
    s.CpuBoundRun (List.replicate m .timer ++ .timer :: (List.replicate n .timer ++ [.timer])) := by
  rw [← List.replicate_succ', ← List.replicate_succ, List.replicate_append_replicate]
  exact cpuBoundRun_timers _

/-- A run while no thread blocks: induction over its events. -/
theorem ReadyList.run (h : ReadyList s rs) (hes : s.CpuBoundRun es) :
    ∃ s' rs', s.run es = .ok s' ∧ ReadyList s' rs' := by
  induction es generalizing s rs with
  | nil => exact ⟨s, rs, rfl, h⟩
  | cons e es ih =>
    obtain ⟨s1, rs1, hs, h1, -⟩ := h.step hes.1
    rw [run_cons hs]
    exact ih h1 (hes.2 s1 hs)

/-- The current thread and the ready list are a queue of round robin. -/
theorem dispatches_eq_served (h : ReadyList s rs) (hes : s.CpuBoundRun es) :
    s.dispatches es = served (s.current :: rs) (s.ops es) ∧ Joins (s.current :: rs) (s.ops es) := by
  induction es generalizing s rs with
  | nil => exact ⟨rfl, trivial⟩
  | cons e es ih =>
    obtain ⟨s1, rs1, hs, h1, hmoves⟩ := h.step hes.1
    obtain ⟨hserved, hjoins⟩ := ih h1 (hes.2 s1 hs)
    rw [dispatches_cons hs, ops, hs]
    cases hmoves with
    | tick hleft hcur =>
      rw [hcur] at hserved hjoins
      simp only [not_switches hleft]
      exact ⟨hserved, hjoins⟩
    | switch hleft hline =>
      have hturn : (s.current :: rs).rotate 1 = s1.current :: rs1 := by
        rw [List.rotate_cons_succ, List.rotate_zero, hline]
      simp only [switches_of_zero hleft, if_true]
      rw [served_switch hturn, Joins, hturn, hserved]
      exact ⟨rfl, hjoins⟩
    | start hfresh hcur =>
      rw [hcur] at hserved hjoins
      exact ⟨hserved, h.fresh hfresh, hjoins⟩

/-- Until the next switch the current thread gets as many interrupts as its counter says. -/
theorem dispatches_eq_nil_iff (h : ReadyList s rs) (hes : s.CpuBoundRun es) :
    s.dispatches es = [] ↔ timers es ≤ s.ticksLeft s.current := by
  induction es generalizing s rs with
  | nil => simp [dispatches, timers]
  | cons e es ih =>
    obtain ⟨s1, rs1, hs, h1, hmoves⟩ := h.step hes.1
    have hrest := ih h1 (hes.2 s1 hs)
    rw [dispatches_cons hs]
    cases hmoves with
    | tick hleft hcur =>
      rw [not_switches hleft, if_neg Bool.false_ne_true, hrest, hcur, timers_timer]
      omega
    | switch hleft =>
      rw [switches_of_zero hleft, if_pos rfl, timers_timer, hleft]
      simp
    | start hfresh hcur hload hother =>
      have hsame : s1.ticksLeft s.current = s.ticksLeft s.current := h.keeps hfresh hother (by simp)
      rw [timers_threadStart, ← hsame, ← hcur]
      exact hrest

/-- A ready thread moves up by one place with each switch, and its counter is left alone. -/
theorem ReadyList.waits {k p : Nat} (h : ReadyList s rs) (hes : s.CpuBoundRun es) (hk : rs[k]? = some p)
    (hd : (s.dispatches es).length ≤ k) (hrun : s.run es = .ok s') :
    ∃ rs', ReadyList s' rs' ∧ rs'[k - (s.dispatches es).length]? = some p ∧ s'.ticksLeft p = s.ticksLeft p := by
  induction es generalizing s rs k with
  | nil =>
    cases hrun
    exact ⟨rs, h, hk, rfl⟩
  | cons e es ih =>
    obtain ⟨s1, rs1, hs, h1, hmoves⟩ := h.step hes.1
    have hmem : p ∈ rs := List.mem_of_getElem? hk
    have hlt : k < rs.length := (List.getElem?_eq_some_iff.1 hk).1
    have hne : p ≠ s.current := h.ne_current hmem
    rw [run_cons hs] at hrun
    rw [dispatches_cons hs] at hd ⊢
    cases hmoves with
    | tick hleft hcur hother =>
      rw [not_switches hleft, if_neg Bool.false_ne_true] at hd ⊢
      rw [← hother p hne]
      exact ih h1 (hes.2 s1 hs) hk hd hrun
    | switch hleft hline hload hother =>
      rw [switches_of_zero hleft, if_pos rfl, List.length_cons] at hd ⊢
      obtain ⟨k, rfl⟩ : ∃ n, k = n + 1 := Nat.exists_eq_succ_of_ne_zero (by omega)
      have hup : rs1[k]? = some p := by
        rw [← List.getElem?_cons_succ (a := s1.current), ← hline, List.getElem?_append_left hlt]
        exact hk
      rw [← hother p hne, Nat.add_sub_add_right]
      exact ih h1 (hes.2 s1 hs) hup (Nat.le_of_succ_le_succ hd) hrun
    | @start _ q _ hfresh hcur hload hother =>
      have hsame : s1.ticksLeft p = s.ticksLeft p := h.keeps hfresh hother (by simp [hmem])
      have hup : (rs ++ [q])[k]? = some p := (List.getElem?_append_left hlt).trans hk
      rw [← hsame]
      exact ih h1 (hes.2 s1 hs) hup hd hrun

/-- With the timer alone nobody joins the queue. -/
theorem ops_timers (h : ReadyList s rs) (hes : s.CpuBoundRun es) (htimers : ∀ e ∈ es, e = .timer) :
    ∀ op ∈ s.ops es, op = .switch := by
  induction es generalizing s rs with
  | nil => simp [ops]
  | cons e es ih =>
    obtain rfl := htimers e (by simp)
    obtain ⟨s1, rs1, hs, h1, -⟩ := h.step hes.1
    have hrest := ih h1 (hes.2 s1 hs) fun e he => htimers e (by simp [he])
    rw [ops, hs]
    by_cases hsw : s.switches .timer = true
    · simpa [hsw] using hrest
    · simpa [hsw] using hrest

end Runs

/-! ## The first thread -/

theorem threadInit_pcb {value : S → Nat} {s : Sched S} (h : threadInit value = .ok s) :
    s.current = mainPage ∧ s.pcb = Function.update (fun _ => none) mainPage (some (initThread mainPage mainPage 1 31)) := by
  unfold threadInit at h
  obtain ⟨-, -, happ⟩ := Except.bind_eq_ok.1 h
  obtain ⟨links, rfl⟩ := append_eq happ
  exact ⟨rfl, rfl⟩

/-- `ThreadInit` leaves the main thread alone, with 31 ticks. -/
theorem threadInit_ready (value : S → Nat) :
    ∃ s, threadInit value = .ok s ∧ ReadyList s [] ∧ s.current = mainPage ∧ s.ticksLeft mainPage = 31 ∧
      s.priorityOf mainPage = 31 ∧ ∀ q ≠ mainPage, s.pcb q = none := by
  obtain ⟨s, hs, seq, hi⟩ := threadInit_inv value
  obtain ⟨hcur, hpcb⟩ := threadInit_pcb hs
  have hmain : s.pcb mainPage = some (initThread mainPage mainPage 1 31) := by rw [hpcb, Function.update_self]
  have hnone : ∀ q ≠ mainPage, s.pcb q = none := by
    intro q hq
    rw [hpcb, Function.update_of_ne hq]
  refine ⟨s, hs, ⟨seq, hi, ?_⟩, hcur, ?_, ?_, hnone⟩
  · rw [List.map_nil, List.eq_nil_iff_forall_not_mem]
    intro n hn
    obtain ⟨q, -, hq⟩ := (hi.ready n).1 hn
    have hne : q ≠ mainPage := by
      rintro rfl
      rw [status_of_pcb hmain] at hq
      cases hq
    rw [status, hnone q hne] at hq
    cases hq
  · rw [ticksLeft_of_pcb hmain]
    rfl
  · rw [priorityOf_of_pcb hmain]
    rfl

/-- **Round robin.** The current thread and the threads `rs` of the ready list never block, with any
priorities and counters. Over every sequence of timer interrupts, with any threads started between them,
nothing stops, and

* the `k`-th thread of the ready list is dispatched at the `k`-th switch, and not before;
* with the timer alone the dispatched threads are the queue, round and round;
* nobody is dispatched again before everyone who was in the queue has been;
* the current thread is switched away from by the timer interrupt after those its own counter counts, and so
  is each ready thread once it is on the CPU. -/
theorem round_robin (s : Sched S) (rs : List Nat) (h : ReadyList s rs) (es : List (Event S))
    (hes : s.CpuBoundRun es) :
    (∃ s' rs', s.run es = .ok s' ∧ ReadyList s' rs') ∧
    (∀ k p : Nat, rs[k]? = some p → k < (s.dispatches es).length →
      (s.dispatches es)[k]? = some p ∧ ∀ j < k, (s.dispatches es)[j]? ≠ some p) ∧
    ((∀ e ∈ es, e = .timer) → ∀ k < (s.dispatches es).length,
      (s.dispatches es)[k]? = (s.current :: rs)[(k + 1) % (rs.length + 1)]?) ∧
    (∀ j : Nat, (s.dispatches es)[j]? = some s.current → ∀ q ∈ rs, ∃ m < j, (s.dispatches es)[m]? = some q) ∧
    (∀ i j p : Nat, i < j → (s.dispatches es)[i]? = some p → (s.dispatches es)[j]? = some p →
      ∀ q ∈ s.current :: rs, ∃ m, i < m ∧ m ≤ j ∧ (s.dispatches es)[m]? = some q) ∧
    (s.dispatches es = [] ↔ timers es ≤ s.ticksLeft s.current) ∧
    (∀ (k p : Nat) (pre post : List (Event S)) (s1 s2 : Sched S), rs[k]? = some p → es = pre ++ .timer :: post →
      s.run pre = .ok s1 → (s.dispatches pre).length = k → s1.switches .timer = true → s1.step .timer = .ok s2 →
      s2.current = p ∧ (s2.dispatches post = [] ↔ timers post ≤ s.ticksLeft p)) := by
  obtain ⟨hserved, hjoins⟩ := dispatches_eq_served h hes
  have hnd := h.nodup
  have horder : ∀ k, k < rs.length → k < (s.dispatches es).length → (s.dispatches es)[k]? = rs[k]? := by
    intro k hk hlen
    rw [hserved] at hlen ⊢
    rw [served_getElem (by simpa using hk) hlen, List.getElem?_cons_succ]
  refine ⟨h.run hes, ?_, ?_, ?_, ?_, dispatches_eq_nil_iff h hes, ?_⟩
  · intro k p hk hlen
    have hlt : k < rs.length := (List.getElem?_eq_some_iff.1 hk).1
    refine ⟨by rw [horder k hlt hlen, hk], ?_⟩
    intro j hj hjp
    rw [horder j (Nat.lt_trans hj hlt) (Nat.lt_trans hj hlen)] at hjp
    have hsame := (List.nodup_iff_getElem?_ne_getElem?.1 (List.nodup_cons.1 hnd).2) j k hj hlt
    exact hsame (hjp.trans hk.symm)
  · intro htimers k hlen
    rw [hserved] at hlen ⊢
    exact served_rotate (ops_timers h hes htimers) hlen
  · intro j hj q hq
    rw [hserved] at hj ⊢
    obtain ⟨m, hm, hmq⟩ := served_again hnd hj (List.mem_cons_of_mem _ hq)
    refine ⟨m, Nat.lt_of_le_of_ne hm ?_, hmq⟩
    rintro rfl
    rw [hj] at hmq
    exact h.ne_current hq (Option.some.inj hmq).symm
  · intro i j p hij hi hj q hq
    rw [hserved] at hi hj ⊢
    exact served_between hnd hjoins hij hi hj hq
  · intro k p pre post s1 s2 hk hsplit hrun hlen hsw hstep
    subst hsplit
    obtain ⟨rs1, h1, hfirst, hticks⟩ := h.waits hes.append_left hk (Nat.le_of_eq hlen) hrun
    have hes1 := hes.append_right hrun
    obtain ⟨s', rs2, hs', h2, hmoves⟩ := h1.step (e := .timer) trivial
    cases hstep.symm.trans hs'
    rw [hlen, Nat.sub_self] at hfirst
    cases hmoves with
    | tick hleft => simp [switches, hleft] at hsw
    | switch hleft hline hload hother =>
      have hcur : s2.current = p := by
        have hhead : (rs1 ++ [s1.current])[0]? = some p := by
          rw [List.getElem?_append_left (List.getElem?_eq_some_iff.1 hfirst).1, hfirst]
        rw [hline] at hhead
        simpa using hhead
      have hne : p ≠ s1.current := h1.ne_current (List.mem_of_getElem? hfirst)
      refine ⟨hcur, ?_⟩
      rw [dispatches_eq_nil_iff h2 (hes1.2 s2 hstep), hcur, hother p hne, hticks]

/-- The main thread starts another one, which is on the CPU after 32 interrupts. -/
theorem round_robin_two :
    ∃ s0 s : Sched Unit, threadInit (fun _ => 0) = .ok s0 ∧ s0.threadStart 0xC0100000 1 = .ok s ∧
      s.dispatches (List.replicate 31 .timer) = [] ∧
      (s.dispatches (List.replicate 32 .timer))[0]? = some 0xC0100000 := by
  obtain ⟨s0, hs0, h0, hcur0, hticks0, -, hnone⟩ := threadInit_ready (fun _ : Unit => 0)
  have hfresh : s0.FreshPage 0xC0100000 := ⟨hnone _ (by decide), by decide, by decide, by decide⟩
  obtain ⟨s, hs, h, hmoves⟩ := h0.threadStart hfresh 1
  have hticks : s.ticksLeft s.current = 31 := by
    cases hmoves with
    | start _ hcur _ hother =>
      rw [hcur, h0.keeps hfresh hother (by simp), hcur0, hticks0]
  have hnil := (round_robin s _ h _ (cpuBoundRun_timers 31)).2.2.2.2.2.1
  obtain ⟨-, hpos, -, -, -, hnil', -⟩ := round_robin s _ h _ (cpuBoundRun_timers 32)
  rw [timers_replicate, hticks] at hnil hnil'
  refine ⟨s0, s, hs0, hs, hnil.2 (Nat.le_refl 31), (hpos 0 _ rfl ?_).1⟩
  rw [List.length_pos_iff, Ne, hnil']
  decide

/-! ## How long a turn lasts -/

/-- The ready threads have the counters that `InitThread` and `ScheduleThread` load. -/
def Loaded (s : Sched S) (rs : List Nat) : Prop := ∀ p ∈ rs, s.ticksLeft p = s.priorityOf p

/-- A full turn of the current thread of `s1`: the timer interrupt after `pre` switches to it, none of `turn`
switches away from it, and the next one does. -/
structure FullTurn (s : Sched S) (pre turn : List (Event S)) (s1 : Sched S) : Prop where
  comes : ∃ s0, s.run pre = .ok s0 ∧ s0.switches .timer = true ∧ s0.step .timer = .ok s1
  stays : s1.dispatches turn = []
  goes : ∃ s2, s1.run turn = .ok s2 ∧ s2.switches .timer = true

/-- Every full turn receives `priority` timer interrupts, the one that ends it among them. -/
def TurnsLastPriority (s : Sched S) : Prop :=
  ∀ pre turn s1, s.CpuBoundRun (pre ++ .timer :: (turn ++ [.timer])) → s.FullTurn pre turn s1 →
    timers (turn ++ [.timer]) = s1.priorityOf s1.current

section Turns
variable {s s' : Sched S} {rs rs' : List Nat} {e : Event S} {es : List (Event S)}

omit [DecidableEq S] in
/-- After a switch, the thread on the CPU has a full counter too. -/
theorem Moves.loaded_switch (hload : Loaded s rs) (hsw : s.switches .timer = true)
    (hmoves : Moves s rs .timer s' rs') : Loaded s' (s'.current :: rs') := by
  cases hmoves with
  | tick hleft => simp [switches, hleft] at hsw
  | switch hleft hline hnew hother hprio =>
    intro p hp
    rw [← hline, List.mem_append, List.mem_singleton] at hp
    rw [hprio]
    by_cases hcur : p = s.current
    · rw [hcur, hnew]
    · rw [hother p hcur]
      exact hload p (hp.resolve_right hcur)

theorem Moves.loaded (h : ReadyList s rs) (hload : Loaded s rs) (hmoves : Moves s rs e s' rs') : Loaded s' rs' := by
  cases hmoves with
  | tick hleft hcur hother hprio =>
    intro p hp
    rw [hother p (h.ne_current hp), hprio]
    exact hload p hp
  | switch hleft hline hnew hother hprio =>
    intro p hp
    exact Moves.loaded_switch hload (switches_of_zero hleft) (.switch hleft hline hnew hother hprio) p (List.mem_cons_of_mem _ hp)
  | @start _ q _ hfresh hcur hnew hother =>
    intro p hp
    rw [List.mem_append, List.mem_singleton] at hp
    by_cases hpq : p = q
    · rw [hpq, hnew]
    · have hsame := hload p (hp.resolve_right hpq)
      rwa [ticksLeft, priorityOf, ← hother p hpq] at hsame

theorem ReadyList.run_loaded (h : ReadyList s rs) (hload : Loaded s rs) (hes : s.CpuBoundRun es)
    (hrun : s.run es = .ok s') : ∃ rs', ReadyList s' rs' ∧ Loaded s' rs' := by
  induction es generalizing s rs with
  | nil =>
    cases hrun
    exact ⟨rs, h, hload⟩
  | cons e es ih =>
    obtain ⟨s1, rs1, hs, h1, hmoves⟩ := h.step hes.1
    rw [run_cons hs] at hrun
    exact ih h1 (hmoves.loaded h hload) (hes.2 s1 hs) hrun

/-- Within a turn each timer interrupt takes one tick from the counter. -/
theorem ReadyList.stays (h : ReadyList s rs) (hes : s.CpuBoundRun es) (hstay : s.dispatches es = [])
    (hrun : s.run es = .ok s') :
    s'.current = s.current ∧ s'.ticksLeft s.current + timers es = s.ticksLeft s.current := by
  induction es generalizing s rs with
  | nil =>
    cases hrun
    exact ⟨rfl, rfl⟩
  | cons e es ih =>
    obtain ⟨s1, rs1, hs, h1, hmoves⟩ := h.step hes.1
    rw [run_cons hs] at hrun
    rw [dispatches_cons hs] at hstay
    cases hmoves with
    | tick hleft hcur =>
      rw [not_switches hleft, if_neg Bool.false_ne_true] at hstay
      obtain ⟨hcur', hticks⟩ := ih h1 (hes.2 s1 hs) hstay hrun
      rw [hcur] at hcur' hticks
      rw [timers_timer]
      exact ⟨hcur', by omega⟩
    | switch hleft =>
      rw [switches_of_zero hleft, if_pos rfl] at hstay
      cases hstay
    | start hfresh hcur hload hother =>
      have hsame : s1.ticksLeft s.current = s.ticksLeft s.current := h.keeps hfresh hother (by simp)
      obtain ⟨hcur', hticks⟩ := ih h1 (hes.2 s1 hs) hstay hrun
      rw [hcur] at hcur' hticks
      rw [timers_threadStart, ← hsame]
      exact ⟨hcur', hticks⟩

/-- A thread that has the CPU is switched away from if only the timer goes on. -/
theorem ReadyList.runs_down (h : ReadyList s rs) :
    ∃ s', s.run (List.replicate (s.ticksLeft s.current) .timer) = .ok s' ∧
      s.dispatches (List.replicate (s.ticksLeft s.current) .timer) = [] ∧ s'.switches .timer = true := by
  have hes : s.CpuBoundRun (List.replicate (s.ticksLeft s.current) .timer) := cpuBoundRun_timers _
  obtain ⟨s', rs', hrun, -⟩ := h.run hes
  have hstay : s.dispatches (List.replicate (s.ticksLeft s.current) .timer) = [] := by
    rw [dispatches_eq_nil_iff h hes, timers_replicate]
  obtain ⟨hcur, hticks⟩ := h.stays hes hstay hrun
  rw [timers_replicate] at hticks
  have hzero : s'.ticksLeft s'.current = 0 := by
    rw [hcur]
    omega
  exact ⟨s', hrun, hstay, by simp [switches, hzero]⟩

/-- The thread after the current one has a full turn. -/
theorem ReadyList.exists_turn (h : ReadyList s rs) :
    ∃ s1, s.FullTurn (List.replicate (s.ticksLeft s.current) .timer)
      (List.replicate (s1.ticksLeft s1.current) .timer) s1 := by
  obtain ⟨s0, hrun, -, hsw⟩ := h.runs_down
  obtain ⟨s0', rs0, hrun', h0⟩ := h.run (cpuBoundRun_timers (s.ticksLeft s.current))
  cases hrun.symm.trans hrun'
  obtain ⟨s1, rs1, hs, h1, -⟩ := h0.step (e := .timer) trivial
  obtain ⟨s2, hrun2, hstay, hsw2⟩ := h1.runs_down
  exact ⟨s1, ⟨s0, hrun, hsw, hs⟩, hstay, s2, hrun2, hsw2⟩

/-- A thread alone is put into the ready list and taken out at once. -/
theorem ReadyList.alone (h : ReadyList s []) (n : Nat) (hrun : s.run (List.replicate n .timer) = .ok s') :
    s'.current = s.current ∧ ∀ q, s'.priorityOf q = s.priorityOf q := by
  induction n generalizing s with
  | zero =>
    cases hrun
    exact ⟨rfl, fun _ => rfl⟩
  | succ n ih =>
    obtain ⟨s1, rs1, hs, h1, hmoves⟩ := h.step (e := .timer) trivial
    rw [List.replicate_succ, run_cons hs] at hrun
    cases hmoves with
    | tick hleft hcur hother hprio =>
      obtain ⟨hcur', hprio'⟩ := ih h1 hrun
      exact ⟨hcur'.trans hcur, fun q => (hprio' q).trans (hprio q)⟩
    | switch hleft hline hnew hother hprio =>
      obtain ⟨hcur, rfl⟩ : s.current = s1.current ∧ [] = rs1 := List.cons.inj hline
      obtain ⟨hcur', hprio'⟩ := ih h1 hrun
      exact ⟨hcur'.trans hcur.symm, fun q => (hprio' q).trans (hprio q)⟩

/-- The length of a turn. -/
theorem FullTurn.timers_eq {pre turn : List (Event S)} {s1 : Sched S} (h : ReadyList s rs) (hload : Loaded s rs)
    (hes : s.CpuBoundRun (pre ++ .timer :: (turn ++ [.timer]))) (hturn : s.FullTurn pre turn s1) :
    timers (turn ++ [.timer]) = s1.priorityOf s1.current + 1 := by
  obtain ⟨⟨s0, hrun, hsw, hs⟩, hstay, s2, hrun2, hsw2⟩ := hturn
  obtain ⟨rs0, h0, hload0⟩ := h.run_loaded hload hes.append_left hrun
  have hes0 := hes.append_right hrun
  obtain ⟨s1', rs1, hs', h1, hmoves⟩ := h0.step (e := .timer) trivial
  cases hs.symm.trans hs'
  have hfull := hmoves.loaded_switch hload0 hsw s1.current (by simp)
  obtain ⟨hcur, hticks⟩ := h1.stays (hes0.2 s1 hs).append_left hstay hrun2
  have hzero : s2.ticksLeft s1.current = 0 := by
    rw [← hcur]
    simpa [switches] using hsw2
  have hcount : timers (turn ++ [.timer]) = timers turn + 1 := List.countP_append
  omega

end Turns

/-- **A turn is one interrupt too long.** The threads are started by `ThreadStart`, with any priorities, and no
thread blocks. Then every full turn of every run receives `priority + 1` timer interrupts, since
`IntTimerHandler` tests the counter before it decrements it; and as there always is a full turn to come, the
turns of no set of threads last `priority` ticks. -/
theorem turn_ticks (value : S → Nat) (s0 s : Sched S) (es : List (Event S)) (h0 : threadInit value = .ok s0)
    (hes : s0.CpuBoundRun es) (hrun : s0.run es = .ok s) :
    (∀ pre turn s1, s.CpuBoundRun (pre ++ .timer :: (turn ++ [.timer])) → s.FullTurn pre turn s1 →
      timers (turn ++ [.timer]) = s1.priorityOf s1.current + 1) ∧
    ¬ s.TurnsLastPriority := by
  obtain ⟨s0', hs0, hready0, -⟩ := threadInit_ready value
  cases h0.symm.trans hs0
  obtain ⟨rs, hready, hload⟩ := hready0.run_loaded (by simp [Loaded]) hes hrun
  refine ⟨fun pre turn s1 hes' hturn => hturn.timers_eq hready hload hes', ?_⟩
  intro hall
  obtain ⟨s1, hturn⟩ := hready.exists_turn
  have hexact := hturn.timers_eq hready hload (cpuBoundRun_turn _ _)
  rw [hall _ _ s1 (cpuBoundRun_turn _ _) hturn] at hexact
  omega

/-- With a thread of priority 1 beside the main thread. -/
theorem turn_ticks_two :
    ∃ s0 s : Sched Unit, threadInit (fun _ => 0) = .ok s0 ∧ s0.threadStart 0xC0100000 1 = .ok s ∧
      ¬ s.TurnsLastPriority := by
  obtain ⟨s0, hs0, h0, -, -, -, hnone⟩ := threadInit_ready (fun _ : Unit => 0)
  have hfresh : s0.FreshPage 0xC0100000 := ⟨hnone _ (by decide), by decide, by decide, by decide⟩
  obtain ⟨s, hs, -⟩ := h0.threadStart hfresh 1
  have hes : s0.CpuBoundRun [.threadStart 0xC0100000 1] := ⟨hfresh, fun _ _ => trivial⟩
  have hrun : s0.run [.threadStart 0xC0100000 1] = .ok s := run_cons hs
  exact ⟨s0, s, hs0, hs, (turn_ticks _ s0 s _ hs0 hes hrun).2⟩

/-- The main thread alone, of priority 31: from its first switch to its second it receives 32 interrupts. -/
theorem not_turnsLastPriority :
    ∃ s0 s1 : Sched Unit, threadInit (fun _ => 0) = .ok s0 ∧
      s0.CpuBoundRun (List.replicate 31 .timer ++ .timer :: (List.replicate 31 .timer ++ [.timer])) ∧
      s0.FullTurn (List.replicate 31 .timer) (List.replicate 31 .timer) s1 ∧ s1.current = mainPage ∧
      s1.priorityOf mainPage = 31 ∧ timers (List.replicate 31 (.timer : Event Unit) ++ [.timer]) = 32 ∧
      ¬ s0.TurnsLastPriority := by
  obtain ⟨s0, hs0, h0, hcur0, hticks0, hprio0, -⟩ := threadInit_ready (fun _ : Unit => 0)
  obtain ⟨s1, hturn⟩ := h0.exists_turn
  rw [hcur0, hticks0] at hturn
  obtain ⟨s0', hrun, -, hs⟩ := hturn.comes
  have hrun1 : s0.run (List.replicate 32 .timer) = .ok s1 := by
    rw [List.replicate_succ', run_append, hrun, Except.ok_bind, run_cons hs]
    rfl
  obtain ⟨hcur, hprio⟩ := h0.alone 32 hrun1
  have hmain : s1.current = mainPage := hcur.trans hcur0
  have hprio1 : s1.priorityOf mainPage = 31 := (hprio mainPage).trans hprio0
  have hlast := hturn.timers_eq h0 (by simp [Loaded]) (cpuBoundRun_turn _ _)
  rw [← List.replicate_succ', timers_replicate, hmain, hprio1] at hlast
  have hticks1 : s1.ticksLeft mainPage = 31 := by omega
  rw [hmain, hticks1] at hturn
  have hcount : timers (List.replicate 31 (.timer : Event Unit) ++ [.timer]) = 32 := by
    rw [← List.replicate_succ', timers_replicate]
  refine ⟨s0, s1, hs0, cpuBoundRun_turn 31 31, hturn, hmain, hprio1, hcount, ?_⟩
  intro hall
  have hwrong := hall _ _ s1 (cpuBoundRun_turn 31 31) hturn
  rw [hcount, hmain, hprio1] at hwrong
  omega

end Sched

end ElephantOS
