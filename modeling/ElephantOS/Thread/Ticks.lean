import ElephantOS.Lib.Tally
import ElephantOS.Thread.RoundRobin

/-!
# The tick counters (`device/timer.c`)

`IntTimerHandler` increments `cpu_ticks_elapsed` of the current thread, a `uint8_t`, and `ticks`, a `uint32_t`,
before it may switch to another thread.

* `elapsed` : `cpu_ticks_elapsed` of every thread; `SameTicks` : what all other code does to the counters;
* `Charges`, `step_charges` : what each event does to them;
* `charged` : the current threads at the timer interrupts of a run, in order;
* `Accounted` : every counter agrees with them;
* `ticks_accounted_iff` : in which runs it does.
-/

namespace ElephantOS

namespace Sched
variable {S : Type} [DecidableEq S]

def elapsed (s : Sched S) (p : Nat) : Option Nat := (s.pcb p).map (·.cpuTicksElapsed)

/-- The counters are the same. -/
structure SameTicks (s s' : Sched S) : Prop where
  elapsed : s'.elapsed = s.elapsed
  ticks : s'.ticks = s.ticks

/-- The threads that wait inside `SemaphoreDown` are the same too. -/
structure Keeps (s s' : Sched S) : Prop extends SameTicks s s' where
  inDown : s'.inDown = s.inDown

section Same
variable {s s' s'' : Sched S} {p : Nat} {t : PCB}

omit [DecidableEq S] in
theorem Keeps.refl (s : Sched S) : Keeps s s := ⟨⟨rfl, rfl⟩, rfl⟩

omit [DecidableEq S] in
theorem SameTicks.trans (h : SameTicks s s') (h' : SameTicks s' s'') : SameTicks s s'' :=
  ⟨h'.elapsed.trans h.elapsed, h'.ticks.trans h.ticks⟩

omit [DecidableEq S] in
theorem Keeps.trans (h : Keeps s s') (h' : Keeps s' s'') : Keeps s s'' :=
  ⟨h.toSameTicks.trans h'.toSameTicks, h'.inDown.trans h.inDown⟩

omit [DecidableEq S] in
theorem elapsed_setPcb (s : Sched S) (p : Nat) (t : PCB) :
    (s.setPcb p t).elapsed = Function.update s.elapsed p (some t.cpuTicksElapsed) := by
  funext q
  by_cases hq : q = p
  · subst hq
    simp [elapsed, setPcb]
  · simp [elapsed, setPcb, hq]

omit [DecidableEq S] in
theorem elapsed_of_pcb (ht : s.pcb p = some t) : s.elapsed p = some t.cpuTicksElapsed := by
  rw [elapsed, ht]
  rfl

omit [DecidableEq S] in
theorem elapsed_of_getPcb (h : s.getPcb p = .ok t) : s.elapsed p = some t.cpuTicksElapsed := by
  unfold getPcb at h
  split at h
  · rename_i u hu
    cases h
    exact elapsed_of_pcb hu
  · cases h

omit [DecidableEq S] in
/-- An update of a PCB that keeps the counter. -/
theorem Keeps.setPcb (he : s.elapsed p = some t.cpuTicksElapsed) : Keeps s (s.setPcb p t) := by
  refine ⟨⟨?_, rfl⟩, rfl⟩
  rw [elapsed_setPcb, ← he, Function.update_eq_self]

theorem Keeps.append {l : ListId S} {n : Node S} (h : s.append l n = .ok s') : Keeps s s' := by
  obtain ⟨links, rfl⟩ := append_eq h
  exact ⟨⟨rfl, rfl⟩, rfl⟩

theorem Keeps.push {l : ListId S} {n : Node S} (h : s.push l n = .ok s') : Keeps s s' := by
  unfold Sched.push at h
  split at h
  · cases h
    exact ⟨⟨rfl, rfl⟩, rfl⟩
  · cases h

theorem Keeps.pop {l : ListId S} {x : Sched S × Nat} (h : s.pop l = .ok x) : Keeps s x.1 := by
  unfold Sched.pop at h
  split at h
  · cases h
    exact ⟨⟨rfl, rfl⟩, rfl⟩
  · cases h

theorem Keeps.requeue (h : s.requeue = .ok s') : Keeps s s' := by
  unfold Sched.requeue at h
  obtain ⟨t, ht, h⟩ := Except.bind_eq_ok.1 h
  have he := elapsed_of_getPcb ht
  split at h
  · obtain ⟨-, -, h⟩ := Except.bind_eq_ok.1 h
    obtain ⟨s1, happ, h⟩ := Except.bind_eq_ok.1 h
    obtain ⟨links, rfl⟩ := append_eq happ
    cases h
    exact (Keeps.append happ).trans (Keeps.setPcb he)
  · cases h
    exact Keeps.refl s

theorem Keeps.dispatch (h : s.dispatch = .ok s') : Keeps s s' := by
  unfold Sched.dispatch at h
  split at h
  · cases h
  · obtain ⟨x, hpop, h⟩ := Except.bind_eq_ok.1 h
    obtain ⟨t, ht, h⟩ := Except.bind_eq_ok.1 h
    cases h
    have he := elapsed_of_getPcb ht
    have hset := Keeps.setPcb (t := { t with status := .running }) he
    exact (Keeps.pop hpop).trans ⟨⟨hset.elapsed, hset.ticks⟩, hset.inDown⟩

theorem Keeps.scheduleThread (h : s.scheduleThread = .ok s') : Keeps s s' := by
  obtain ⟨s1, hreq, hdisp⟩ := Except.bind_eq_ok.1 h
  exact (Keeps.requeue hreq).trans (Keeps.dispatch hdisp)

theorem Keeps.blockThread {stat : TaskStatus} (h : s.blockThread stat = .ok s') : Keeps s s' := by
  unfold Sched.blockThread at h
  split at h
  · cases h
  · obtain ⟨t, ht, h⟩ := Except.bind_eq_ok.1 h
    have he := elapsed_of_getPcb ht
    exact (Keeps.setPcb (t := { t with status := stat }) he).trans (Keeps.scheduleThread h)

theorem Keeps.unblockThread (h : s.unblockThread p = .ok s') : Keeps s s' := by
  unfold Sched.unblockThread at h
  obtain ⟨t, ht, h⟩ := Except.bind_eq_ok.1 h
  split at h
  · cases h
  · obtain ⟨-, -, h⟩ := Except.bind_eq_ok.1 h
    obtain ⟨s1, hpush, h⟩ := Except.bind_eq_ok.1 h
    cases h
    have he := elapsed_of_getPcb ht
    have hkeeps := Keeps.push hpush
    rw [← hkeeps.elapsed] at he
    exact hkeeps.trans (Keeps.setPcb he)

theorem SameTicks.semaphoreDown {psema : S} (h : s.semaphoreDown psema = .ok s') : SameTicks s s' := by
  unfold Sched.semaphoreDown at h
  split at h
  · obtain ⟨-, -, h⟩ := Except.bind_eq_ok.1 h
    obtain ⟨s1, happ, h⟩ := Except.bind_eq_ok.1 h
    have hblock := Keeps.blockThread h
    exact (Keeps.append happ).toSameTicks.trans ⟨hblock.elapsed, hblock.ticks⟩
  · cases h
    exact ⟨rfl, rfl⟩

theorem SameTicks.semaphoreUp {psema : S} (h : s.semaphoreUp psema = .ok s') : SameTicks s s' := by
  unfold Sched.semaphoreUp at h
  dsimp only at h
  split at h
  · cases h
    exact ⟨rfl, rfl⟩
  · obtain ⟨x, hpop, h⟩ := Except.bind_eq_ok.1 h
    obtain ⟨s1, hunblock, h⟩ := Except.bind_eq_ok.1 h
    cases h
    have hkeeps := (Keeps.pop hpop).trans (Keeps.unblockThread hunblock)
    exact ⟨hkeeps.elapsed, hkeeps.ticks⟩

theorem Keeps.enlist (h : s.enlist p = .ok s') : Keeps s s' := by
  unfold Sched.enlist at h
  obtain ⟨-, -, h⟩ := Except.bind_eq_ok.1 h
  obtain ⟨s1, happ, h⟩ := Except.bind_eq_ok.1 h
  obtain ⟨-, -, h⟩ := Except.bind_eq_ok.1 h
  exact (Keeps.append happ).trans (Keeps.append h)

end Same

/-! ## What an event does to the counters -/

/-- The thread an event charges. -/
def charge (s : Sched S) : Event S → List Nat
  | .timer => [s.current]
  | _ => []

/-- A timer interrupt charges the current thread, a new thread starts with nothing, and all other events leave the
counters as they are. -/
inductive Charges (s s' : Sched S) : Event S → Prop
  | tick {n : Nat} (hcur : s.elapsed s.current = some n)
      (helapsed : s'.elapsed = Function.update s.elapsed s.current (some ((n + 1) % 256)))
      (hticks : s'.ticks = (s.ticks + 1) % 2 ^ 32) : Charges s s' .timer
  | start {e : Event S} {p : Nat} (he : s.charge e = []) (hnew : s.elapsed p = none)
      (helapsed : s'.elapsed = Function.update s.elapsed p (some 0)) (hticks : s'.ticks = s.ticks) : Charges s s' e
  | other {e : Event S} (he : s.charge e = []) (hsame : SameTicks s s') : Charges s s' e

section Step
variable {s s' : Sched S} {p : Nat} {e : Event S}

/-- The end of `ThreadStart` and of `ExecProcess`, for a PCB that `InitThread` has made. -/
theorem enlist_charges {t : PCB} {priority : Int} (ht : t.cpuTicksElapsed = 0)
    (h : ((s.init p priority).setPcb p t).enlist p = .ok s') :
    s'.elapsed = Function.update s.elapsed p (some 0) ∧ s'.ticks = s.ticks := by
  have hsame := Keeps.enlist h
  refine ⟨?_, hsame.ticks⟩
  rw [hsame.elapsed, elapsed_setPcb, ht]
  funext q
  by_cases hq : q = p
  · rw [hq, Function.update_self, Function.update_self]
  · rw [Function.update_of_ne hq, Function.update_of_ne hq]
    simp [elapsed, init, hq]

theorem timer_charges (h : s.intTimerHandler = .ok s') : Charges s s' .timer ∧ s'.inDown = s.inDown := by
  unfold intTimerHandler at h
  obtain ⟨t, ht, h⟩ := Except.bind_eq_ok.1 h
  have he := elapsed_of_getPcb ht
  dsimp only at h
  split at h
  · cases h
  · split at h
    · have hkeeps := Keeps.scheduleThread h
      refine ⟨.tick he ?_ hkeeps.ticks, hkeeps.inDown⟩
      rw [hkeeps.elapsed, elapsed_setPcb]
      rfl
    · cases h
      refine ⟨.tick he ?_ rfl, rfl⟩
      rw [elapsed_setPcb]
      rfl

theorem step_charges (he : Enabled s e) (hs : s.step e = .ok s') : Charges s s' e := by
  cases e with
  | threadStart p priority =>
    have hs : s.threadStart p priority = .ok s' := hs
    simp only [threadStart, init_getPcb, Except.ok_bind] at hs
    obtain ⟨helapsed, hticks⟩ := enlist_charges rfl hs
    exact .start rfl (by rw [elapsed, he.2.unused]; rfl) helapsed hticks
  | execProcess p bits pde =>
    have hs : s.execProcess p bits pde = .ok s' := hs
    simp only [execProcess, init_getPcb, Except.ok_bind] at hs
    split at hs
    · cases hs
    · split at hs
      · cases hs
      · obtain ⟨helapsed, hticks⟩ := enlist_charges rfl hs
        exact .start rfl (by rw [elapsed, he.2.unused]; rfl) helapsed hticks
  | timer => exact (timer_charges hs).1
  | block stat => exact .other rfl (Keeps.blockThread hs).toSameTicks
  | unblock p => exact .other rfl (Keeps.unblockThread hs).toSameTicks
  | down psema => exact .other rfl (SameTicks.semaphoreDown hs)
  | up psema => exact .other rfl (SameTicks.semaphoreUp hs)
  | retest =>
    obtain ⟨psema, hd⟩ := Option.ne_none_iff_exists'.1 he
    simp only [Sched.step, hd] at hs
    exact .other rfl (SameTicks.semaphoreDown hs)

end Step

/-! ## Runs -/

/-- Every event of the run can happen when its turn comes. -/
def EnabledRun (s : Sched S) (es : List (Event S)) : Prop :=
  ∀ pre e post s1, es = pre ++ e :: post → s.run pre = .ok s1 → s1.Enabled e

/-- No timer interrupt of the run finds the counter of the current thread at its largest value. -/
def NoWrap (s : Sched S) (es : List (Event S)) : Prop :=
  ∀ pre post s1, es = pre ++ .timer :: post → s.run pre = .ok s1 → s1.elapsed s1.current ≠ some 255

/-- The thread that is current when each timer interrupt arrives. -/
def charged (s : Sched S) : List (Event S) → List Nat
  | [] => []
  | e :: es =>
    match s.step e with
    | .ok s' => s.charge e ++ s'.charged es
    | .error _ => []

/-- Every thread has been charged each of its timer interrupts `arrivals`, and the counters of all threads add up to
`ticks`. -/
structure Accounted (s : Sched S) (arrivals : List Nat) : Prop where
  each : ∀ p t, s.pcb p = some t → t.cpuTicksElapsed = arrivals.count p
  total : ∃ threads : Finset Nat, (∀ p, p ∈ threads ↔ s.pcb p ≠ none) ∧
    ∑ p ∈ threads, (s.elapsed p).getD 0 = s.ticks

section Runs
variable {s s1 s' : Sched S} {e : Event S} {es pre post : List (Event S)}

theorem charged_append (hrun : s.run pre = .ok s1) : s.charged (pre ++ post) = s.charged pre ++ s1.charged post := by
  induction pre generalizing s with
  | nil =>
    cases hrun
    rfl
  | cons e pre ih =>
    obtain ⟨s2, hs, hrun⟩ := Except.bind_eq_ok.1 hrun
    simp only [List.cons_append, charged, hs, ih hrun, List.append_assoc]

theorem charged_singleton (hs : s.step e = .ok s') : s.charged [e] = s.charge e := by
  simp only [charged, hs, List.append_nil]

theorem length_charged (hrun : s.run es = .ok s') : (s.charged es).length = timers es := by
  induction es generalizing s with
  | nil => rfl
  | cons e es ih =>
    obtain ⟨s2, hs, hrun⟩ := Except.bind_eq_ok.1 hrun
    have hcharge : (s.charge e).length = if e.isTimer then 1 else 0 := by cases e <;> rfl
    simp only [charged, hs, List.length_append, hcharge, ih hrun]
    rw [timers, timers, List.countP_cons, Nat.add_comm]

/-- `P` holds of every event of the run, in the state in which it happens. -/
def EachStep (P : Sched S → Event S → Prop) (s : Sched S) (es : List (Event S)) : Prop :=
  ∀ pre e post s1, es = pre ++ e :: post → s.run pre = .ok s1 → P s1 e

theorem eachStep_nil (P : Sched S → Event S → Prop) (s : Sched S) : s.EachStep P [] := by
  intro pre e post s1 hsplit
  cases pre <;> cases hsplit

theorem EachStep.cons {P : Sched S → Event S → Prop} (he : P s e)
    (hes : ∀ s1, s.step e = .ok s1 → s1.EachStep P es) : s.EachStep P (e :: es) := by
  intro pre e' post s2 hsplit hrun
  cases pre with
  | nil =>
    cases hsplit
    cases hrun
    exact he
  | cons f pre =>
    cases hsplit
    obtain ⟨s1, hs, hrun⟩ := Except.bind_eq_ok.1 hrun
    exact hes s1 hs pre e' post s2 rfl hrun

theorem EachStep.left {P : Sched S → Event S → Prop} (h : s.EachStep P (pre ++ post)) : s.EachStep P pre := by
  rintro pre' e post' s2 rfl hrun
  exact h pre' e (post' ++ post) s2 (by simp) hrun

theorem enabledRun_iff : s.EnabledRun es ↔ s.EachStep Enabled es := Iff.rfl

theorem noWrap_iff : s.NoWrap es ↔ s.EachStep (fun s1 e => e = .timer → s1.elapsed s1.current ≠ some 255) es := by
  constructor
  · rintro h pre e post s1 hsplit hrun rfl
    exact h pre post s1 hsplit hrun
  · intro h pre post s1 hsplit hrun
    exact h pre .timer post s1 hsplit hrun rfl

theorem EnabledRun.left (h : s.EnabledRun (pre ++ post)) : s.EnabledRun pre :=
  enabledRun_iff.2 (enabledRun_iff.1 h).left

theorem NoWrap.left (h : s.NoWrap (pre ++ post)) : s.NoWrap pre :=
  noWrap_iff.2 (noWrap_iff.1 h).left

theorem Reachable.runs {value : S → Nat} (h : Reachable value s) (hes : s.EnabledRun es) (hrun : s.run es = .ok s') :
    Reachable value s' := by
  induction es using List.reverseRecOn generalizing s' with
  | nil =>
    cases hrun
    exact h
  | append_singleton es e ih =>
    rw [run_append] at hrun
    obtain ⟨s2, hrun2, hstep⟩ := Except.bind_eq_ok.1 hrun
    obtain ⟨s3, hs, hlast⟩ := Except.bind_eq_ok.1 hstep
    cases hlast
    exact .step (ih hes.left hrun2) (hes es e [] s2 rfl hrun2) hs

omit [DecidableEq S] in
/-- The counters of one thread and of the system move together, as long as neither wraps around. -/
theorem Charges.tally {log : List Nat} (h : Charges s s' e) (ht : Tally s.elapsed s.ticks log)
    (hbyte : ∀ p n, s.elapsed p = some n → n < 256) (hwrap : e = .timer → s.elapsed s.current ≠ some 255)
    (hfew : (log ++ s.charge e).length < 2 ^ 32) :
    Tally s'.elapsed s'.ticks (log ++ s.charge e) ∧ ∀ p n, s'.elapsed p = some n → n < 256 := by
  have hupdate : ∀ p k, k < 256 → s'.elapsed = Function.update s.elapsed p (some k) →
      ∀ q n, s'.elapsed q = some n → n < 256 := by
    intro p k hk helapsed q n hq
    rw [helapsed] at hq
    by_cases hqp : q = p
    · rw [hqp, Function.update_self] at hq
      cases hq
      exact hk
    · rw [Function.update_of_ne hqp] at hq
      exact hbyte q n hq
  cases h with
  | @tick n hcur helapsed hticks =>
    have hn : (n + 1) % 256 = n + 1 := by
      have hlt := hbyte _ n hcur
      have hne : n ≠ 255 := fun h => hwrap rfl (h ▸ hcur)
      omega
    have htotal : s'.ticks = s.ticks + 1 := by
      rw [List.length_append, ← ht.total] at hfew
      exact hticks.trans (Nat.mod_eq_of_lt hfew)
    refine ⟨?_, hupdate _ _ (Nat.mod_lt _ (by decide)) helapsed⟩
    rw [helapsed, htotal, hn]
    exact ht.charge hcur
  | start he hnew helapsed hticks =>
    rw [he, List.append_nil, hticks]
    refine ⟨?_, hupdate _ 0 (by decide) helapsed⟩
    rw [helapsed]
    exact ht.enroll hnew
  | other he hsame =>
    rw [he, List.append_nil, hsame.ticks, hsame.elapsed]
    exact ⟨ht, hbyte⟩

theorem threadInit_tally {value : S → Nat} (h : threadInit value = .ok s) : Tally s.elapsed s.ticks [] ∧
    s.elapsed = Function.update (fun _ => none) mainPage (some 0) ∧ s.inDown = fun _ => none := by
  have helapsed : s.elapsed = Function.update (fun _ => none) mainPage (some 0) := by
    funext p
    rw [elapsed, (threadInit_pcb h).2]
    by_cases hp : p = mainPage
    · rw [hp, Function.update_self, Function.update_self]
      rfl
    · rw [Function.update_of_ne hp, Function.update_of_ne hp]
      rfl
  unfold threadInit at h
  obtain ⟨-, -, happ⟩ := Except.bind_eq_ok.1 h
  have hkeeps := Keeps.append happ
  refine ⟨?_, helapsed, hkeeps.inDown⟩
  rw [helapsed, hkeeps.ticks]
  exact Tally.empty.enroll rfl

/-- From `ThreadInit` on, in a run without a counter that wraps around. -/
theorem run_tally {value : S → Nat} (h0 : threadInit value = .ok s) (hes : s.EnabledRun es) (hwrap : s.NoWrap es)
    (hfew : timers es < 2 ^ 32) (hrun : s.run es = .ok s') :
    Tally s'.elapsed s'.ticks (s.charged es) ∧ ∀ p n, s'.elapsed p = some n → n < 256 := by
  induction es using List.reverseRecOn generalizing s' with
  | nil =>
    cases hrun
    obtain ⟨htally, helapsed, -⟩ := threadInit_tally h0
    refine ⟨htally, ?_⟩
    intro p n hp
    rw [htally.each p n hp, List.count_nil]
    decide
  | append_singleton es e ih =>
    have hlen := length_charged hrun
    rw [run_append] at hrun
    obtain ⟨s2, hrun2, hstep⟩ := Except.bind_eq_ok.1 hrun
    obtain ⟨s3, hs, hlast⟩ := Except.bind_eq_ok.1 hstep
    cases hlast
    have hpre : timers es < 2 ^ 32 := by
      rw [timers, List.countP_append] at hfew
      exact Nat.lt_of_le_of_lt (Nat.le_add_right _ _) hfew
    obtain ⟨htally, hbyte⟩ := ih hes.left hwrap.left hpre hrun2
    rw [charged_append hrun2, charged_singleton hs] at hlen ⊢
    apply (step_charges (hes es e [] s2 rfl hrun2) hs).tally htally hbyte
    · rintro rfl
      exact hwrap es [] s2 rfl hrun2
    · rw [hlen]
      exact hfew

theorem Inv.accounted {arrivals : List Nat} (hi : s.Inv) (ht : Tally s.elapsed s.ticks arrivals) :
    s.Accounted arrivals where
  each p t hp := ht.each p _ (elapsed_of_pcb hp)
  total := by
    obtain ⟨seq, hi⟩ := hi
    have hfin : {p | s.pcb p ≠ none}.Finite := by
      apply (Set.finite_Iio (2 ^ 32)).subset
      intro p hp
      obtain ⟨t, ht⟩ := Option.ne_none_iff_exists'.1 hp
      exact (hi.pages p (by rw [status_of_pcb ht]; exact Option.some_ne_none _)).2
    refine ⟨hfin.toFinset, fun p => hfin.mem_toFinset, ht.sum ?_⟩
    intro p
    rw [hfin.mem_toFinset]
    simp [elapsed]

/-- A thread alone is charged every interrupt. -/
theorem ReadyList.alone_ticks (h : ReadyList s []) (hdown : s.inDown = fun _ => none) {k : Nat} (hk : k < 256)
    (hcur : s.elapsed s.current = some k) (n : Nat) : ∃ s', s.run (List.replicate n .timer) = .ok s' ∧
      s.EnabledRun (List.replicate n .timer) ∧ s.charged (List.replicate n .timer) = List.replicate n s.current ∧
      s'.elapsed s.current = some ((k + n) % 256) := by
  induction n generalizing s k with
  | zero =>
    refine ⟨s, rfl, eachStep_nil _ s, rfl, ?_⟩
    rw [hcur, Nat.add_zero, Nat.mod_eq_of_lt hk]
  | succ n ih =>
    obtain ⟨s1, rs1, hs, h1, hmoves⟩ := h.step (e := .timer) trivial
    obtain ⟨hcharges, hdown1⟩ := timer_charges hs
    obtain ⟨hsame, rfl⟩ : s1.current = s.current ∧ rs1 = [] := by
      cases hmoves with
      | tick hleft hcur => exact ⟨hcur, rfl⟩
      | switch hleft hline =>
        obtain ⟨hcur, hnil⟩ : s.current = s1.current ∧ [] = rs1 := List.cons.inj hline
        exact ⟨hcur.symm, hnil.symm⟩
    have hcur1 : s1.elapsed s1.current = some ((k + 1) % 256) := by
      cases hcharges with
      | @tick j hj helapsed =>
        rw [hcur] at hj
        cases hj
        rw [helapsed, hsame, Function.update_self]
      | start he => cases he
      | other he => cases he
    obtain ⟨s', hrun, hes, hcharged, helapsed⟩ := ih h1 (hdown1.trans hdown) (Nat.mod_lt _ (by decide)) hcur1
    rw [List.replicate_succ]
    refine ⟨s', ?_, enabledRun_iff.2 (.cons ?_ ?_), ?_, ?_⟩
    · rw [run_cons hs, hrun]
    · show s.inDown s.current = none
      rw [hdown]
    · intro s2 hs2
      cases hs.symm.trans hs2
      exact hes
    · simp only [charged, hs, hcharged, hsame]
      rfl
    · rw [← hsame, helapsed]
      congr 1
      omega

end Runs

/-- **When no tick is lost.** In every run from `ThreadInit` of fewer than 2^32 timer interrupts, with threads created,
switched, blocked and woken at will: in all of its states every thread's `cpu_ticks_elapsed` is the number of timer
interrupts that arrived while it was the current thread, and they add up to `ticks`, if and only if no timer
interrupt arrives while the current thread's counter, a byte, is at 255. -/
theorem ticks_accounted_iff (value : S → Nat) (s0 s : Sched S) (es : List (Event S)) (h0 : threadInit value = .ok s0)
    (hes : s0.EnabledRun es) (hrun : s0.run es = .ok s) (hfew : timers es < 2 ^ 32) :
    (∀ pre post s1, es = pre ++ post → s0.run pre = .ok s1 → s1.Accounted (s0.charged pre)) ↔ s0.NoWrap es := by
  constructor
  · rintro hacc pre post s1 rfl hpre hwrap
    rw [run_append, hpre, Except.ok_bind] at hrun
    obtain ⟨s2, hs, -⟩ := Except.bind_eq_ok.1 hrun
    have hpre2 : s0.run (pre ++ [.timer]) = .ok s2 := by
      rw [run_append, hpre, Except.ok_bind, run_cons hs]
      rfl
    have hbefore := hacc pre _ s1 rfl hpre
    have hafter := hacc (pre ++ [.timer]) post s2 (by simp) hpre2
    -- the counter is back at 0, after 256 interrupts
    rw [charged_append hpre, charged_singleton hs] at hafter
    obtain ⟨t, ht, hfull⟩ := Option.map_eq_some_iff.1 hwrap
    have hcount := hbefore.each _ t ht
    cases step_charges (hes pre .timer post s1 rfl hpre) hs with
    | @tick n hcur helapsed hticks =>
      have hzero : s2.elapsed s1.current = some 0 := by
        rw [hwrap] at hcur
        cases hcur
        rw [helapsed, Function.update_self]
      obtain ⟨t2, ht2, hzero2⟩ := Option.map_eq_some_iff.1 hzero
      have hcount2 := hafter.each _ t2 ht2
      rw [List.count_append, show s1.charge .timer = [s1.current] from rfl, List.count_singleton_self] at hcount2
      omega
    | start he => cases he
    | other he => cases he
  · rintro hwrap pre post s1 rfl hpre
    have hfew' : timers pre < 2 ^ 32 := by
      rw [timers, List.countP_append] at hfew
      exact Nat.lt_of_le_of_lt (Nat.le_add_right _ _) hfew
    have hreach := (Reachable.init h0).runs hes.left hpre
    exact hreach.inv.accounted (run_tally h0 hes.left hwrap.left hfew' hpre).1

/-- The main thread starts a second one and is then interrupted. -/
theorem ticks_accounted_start : ∃ s0 s : Sched Unit, threadInit (fun _ => 0) = .ok s0 ∧
    s0.run [.threadStart 0xC0100000 31, .timer] = .ok s ∧
    s.Accounted (s0.charged [.threadStart 0xC0100000 31, .timer]) := by
  have h : ∃ s0 s1 s2 : Sched Unit, threadInit (fun _ => 0) = .ok s0 ∧
      s0.step (.threadStart 0xC0100000 31) = .ok s1 ∧ s1.step .timer = .ok s2 ∧
      Enabled s0 (.threadStart 0xC0100000 31) ∧ Enabled s1 .timer ∧ s1.elapsed s1.current = some 0 := by
    refine ⟨_, _, _, rfl, rfl, rfl, ⟨rfl, rfl, by decide, by decide, by decide⟩, rfl, rfl⟩
  obtain ⟨s0, s1, s2, h0, h1, h2, he0, he1, hzero⟩ := h
  have hrun : s0.run [.threadStart 0xC0100000 31, .timer] = .ok s2 := by
    rw [run_cons h1, run_cons h2]
    rfl
  have hes : s0.EnabledRun [.threadStart 0xC0100000 31, .timer] := by
    refine enabledRun_iff.2 (.cons he0 fun s hs => ?_)
    cases h1.symm.trans hs
    exact .cons he1 fun s _ => eachStep_nil _ s
  have hwrap : s0.NoWrap [.threadStart 0xC0100000 31, .timer] := by
    refine noWrap_iff.2 (.cons (fun h => ?_) fun s hs => ?_)
    · cases h
    · cases h1.symm.trans hs
      refine .cons (fun _ => ?_) fun s _ => eachStep_nil _ s
      rw [hzero]
      decide
  have hacc := (ticks_accounted_iff _ s0 s2 _ h0 hes hrun (by decide)).2 hwrap
  exact ⟨s0, s2, h0, hrun, hacc _ [] s2 (by simp) hrun⟩

/-- The main thread alone: after 256 interrupts its counter is 0. -/
theorem ticks_lost : ∃ s0 s : Sched Unit, threadInit (fun _ => 0) = .ok s0 ∧
    s0.EnabledRun (List.replicate 256 .timer) ∧ s0.run (List.replicate 256 .timer) = .ok s ∧
    timers (List.replicate 256 (.timer : Event Unit)) < 2 ^ 32 ∧ s.elapsed mainPage = some 0 ∧
    ¬ s.Accounted (s0.charged (List.replicate 256 .timer)) := by
  obtain ⟨s0, h0, hready, hcur, -⟩ := threadInit_ready (fun _ : Unit => 0)
  obtain ⟨-, helapsed, hdown⟩ := threadInit_tally h0
  have hzero : s0.elapsed s0.current = some 0 := by rw [hcur, helapsed, Function.update_self]
  obtain ⟨s, hrun, hes, hcharged, hlost⟩ := hready.alone_ticks hdown (by decide) hzero 256
  rw [hcur] at hcharged hlost
  refine ⟨s0, s, h0, hes, hrun, ?_, hlost, ?_⟩
  · rw [timers_replicate]
    decide
  · intro hacc
    obtain ⟨t, ht, helapsed⟩ := Option.map_eq_some_iff.1 hlost
    have hcount := hacc.each mainPage t ht
    rw [hcharged, List.count_replicate_self] at hcount
    omega

end Sched

end ElephantOS
