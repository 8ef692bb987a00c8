import ElephantOS.Thread.Lock
import ElephantOS.Thread.SchedInv

/-!
# There is always a thread to run (`thread/sync.c`, `thread/thread.c`)

The scheduler has no idle thread: `ScheduleThread` stops the kernel when the ready list is empty. Here
the semaphores of the scheduler are those of locks, and its threads sleep only in `sys_lock_lock`.

* `Locks` : the scheduler, the fields of the locks, and the statement each thread is about to execute;
  the ghost `taken l` is the thread that decremented the semaphore of `l` and has not incremented it;
* `Locks.step` : a call, a statement or a tick; a tick can come between any two statements except in
  `SemaphoreDown`, which has interrupts off;
* `Locks.Inv` : the unit of a lock is in its semaphore, or a thread has it that is not asleep.
-/


namespace ElephantOS
open LinkMem

namespace Sched
variable {S : Type} [DecidableEq S] {s s' s'' : Sched S}

/-! ## What the scheduler leaves alone -/

/-- Running, or waiting for its turn. -/
def Awake (s : Sched S) (p : Nat) : Prop := s.status p = some .ready ∨ s.status p = some .running

/-- From `s` to `s'` nobody falls asleep. -/
structure Wakes (s s' : Sched S) : Prop where
  value : s'.value = s.value
  inDown : s'.inDown = s.inDown
  status : ∀ p, s'.status p = s.status p ∨ s'.Awake p

omit [DecidableEq S] in
theorem Wakes.refl (s : Sched S) : Wakes s s := ⟨rfl, rfl, fun _ => .inl rfl⟩

omit [DecidableEq S] in
theorem Wakes.awake (h : Wakes s s') {p : Nat} (hp : s.Awake p) : s'.Awake p := by
  rcases h.status p with he | ha
  · unfold Awake
    rw [he]
    exact hp
  · exact ha

omit [DecidableEq S] in
theorem Wakes.trans (h : Wakes s s') (h' : Wakes s' s'') : Wakes s s'' := by
  refine ⟨h'.value.trans h.value, h'.inDown.trans h.inDown, fun p => ?_⟩
  rcases h.status p with he | ha
  · rw [← he]
    exact h'.status p
  · exact .inr (h'.awake ha)

omit [DecidableEq S] in
theorem Wakes.status_ne (h : Wakes s s') {p : Nat} (hp : s.status p ≠ none) : s'.status p ≠ none := by
  rcases h.status p with he | ha | ha
  · rw [he]
    exact hp
  · simp [ha]
  · simp [ha]

omit [DecidableEq S] in
/-- Only one PCB changes, and its thread is awake afterwards. -/
theorem wakes_setPcb {p : Nat} {t : PCB} (hv : s'.value = s.value) (hd : s'.inDown = s.inDown)
    (hpcb : s'.pcb = Function.update s.pcb p (some t)) (ht : t.status = .ready ∨ t.status = .running) :
    Wakes s s' := by
  refine ⟨hv, hd, fun q => ?_⟩
  by_cases hq : q = p
  · subst hq
    right
    simpa [Awake, Sched.status, hpcb] using ht
  · left
    simp [Sched.status, hpcb, hq]

theorem append_wakes {l : ListId S} {n : Node S} (h : s.append l n = .ok s') : Wakes s s' ∧ s'.pcb = s.pcb := by
  obtain ⟨links, rfl⟩ := append_eq h
  exact ⟨⟨rfl, rfl, fun _ => .inl rfl⟩, rfl⟩

theorem push_wakes {l : ListId S} {n : Node S} (h : s.push l n = .ok s') : Wakes s s' ∧ s'.pcb = s.pcb := by
  unfold push at h
  split at h
  · cases h
    exact ⟨⟨rfl, rfl, fun _ => .inl rfl⟩, rfl⟩
  · cases h

theorem pop_wakes {l : ListId S} {p : Nat} (h : s.pop l = .ok (s', p)) : Wakes s s' ∧ s'.pcb = s.pcb := by
  unfold pop at h
  split at h
  · cases h
    exact ⟨⟨rfl, rfl, fun _ => .inl rfl⟩, rfl⟩
  · cases h

theorem requeue_wakes (h : s.requeue = .ok s') : Wakes s s' := by
  obtain ⟨t, -, h⟩ := Except.bind_eq_ok.1 h
  split at h
  · obtain ⟨-, -, h⟩ := Except.bind_eq_ok.1 h
    obtain ⟨s1, happ, h⟩ := Except.bind_eq_ok.1 h
    cases h
    exact (append_wakes happ).1.trans (wakes_setPcb rfl rfl rfl (.inl rfl))
  · cases h
    exact .refl s

theorem dispatch_wakes (h : s.dispatch = .ok s') : Wakes s s' := by
  unfold dispatch at h
  split at h
  · cases h
  · obtain ⟨⟨s1, next⟩, hpop, h⟩ := Except.bind_eq_ok.1 h
    obtain ⟨t, ht, h⟩ := Except.bind_eq_ok.1 h
    cases h
    exact (pop_wakes hpop).1.trans (wakes_setPcb rfl rfl rfl (.inr rfl))

theorem intTimerHandler_wakes (hi : s.Inv) (h : s.intTimerHandler = .ok s') : Wakes s s' := by
  obtain ⟨seq, hi⟩ := hi
  obtain ⟨t, ht, hrun⟩ := hi.getPcb_current
  simp only [intTimerHandler, getPcb_ok ht, Except.ok_bind, hi.canary _ _ ht] at h
  by_cases hleft : t.cpuTicksLeft = 0
  · simp only [hleft, if_true, ne_eq, not_true_eq_false, if_false] at h
    obtain ⟨s1, hreq, hdis⟩ := Except.bind_eq_ok.1 h
    refine Wakes.trans ?_ ((requeue_wakes hreq).trans (dispatch_wakes hdis))
    exact wakes_setPcb rfl rfl rfl (.inr hrun)
  · simp only [hleft, ne_eq, not_true_eq_false, if_false] at h
    cases h
    exact wakes_setPcb rfl rfl rfl (.inr hrun)

theorem unblockThread_wakes {p : Nat} (h : s.unblockThread p = .ok s') : Wakes s s' := by
  obtain ⟨t, -, h⟩ := Except.bind_eq_ok.1 h
  split at h
  · cases h
  · obtain ⟨-, -, h⟩ := Except.bind_eq_ok.1 h
    obtain ⟨s1, hpush, h⟩ := Except.bind_eq_ok.1 h
    cases h
    exact (push_wakes hpush).1.trans (wakes_setPcb rfl rfl rfl (.inl rfl))

/-- `SemaphoreUp` gives the unit back and wakes at most one thread. -/
theorem semaphoreUp_wakes {psema : S} (h : s.semaphoreUp psema = .ok s') :
    ∃ s1, Wakes s s1 ∧ s' = { s1 with value := Function.update s.value psema ((s.value psema + 1) % 256) } := by
  unfold semaphoreUp at h
  dsimp only at h
  split at h
  · cases h
    exact ⟨s, .refl s, rfl⟩
  · obtain ⟨⟨s1, q⟩, hpop, h⟩ := Except.bind_eq_ok.1 h
    obtain ⟨s2, hun, h⟩ := Except.bind_eq_ok.1 h
    have hw := (pop_wakes hpop).1.trans (unblockThread_wakes hun)
    cases h
    exact ⟨s2, hw, by rw [hw.value]⟩

theorem enlist_wakes {p : Nat} (h : s.enlist p = .ok s') : Wakes s s' := by
  obtain ⟨-, -, h⟩ := Except.bind_eq_ok.1 h
  obtain ⟨s1, happ, h⟩ := Except.bind_eq_ok.1 h
  obtain ⟨-, -, h⟩ := Except.bind_eq_ok.1 h
  exact (append_wakes happ).1.trans (append_wakes h).1

omit [DecidableEq S] in
/-- `InitThread` and `ThreadCreate` on a fresh page. -/
theorem init_wakes {p : Nat} {priority : Int} {t : PCB} (ht : t.status = .ready) :
    Wakes s ((s.init p priority).setPcb p t) := by
  refine wakes_setPcb (p := p) (t := t) rfl rfl ?_ (.inl ht)
  simp [setPcb, init]

theorem threadStart_wakes {p : Nat} {priority : Int} (hi : s.Inv) (hp : FreshPage s p)
    (h : s.threadStart p priority = .ok s') : Wakes s s' := by
  obtain ⟨seq, hi⟩ := hi
  simp only [threadStart, init_getPcb, Except.ok_bind] at h
  refine (init_wakes ?_).trans (enlist_wakes h)
  simp [threadCreate, initThread, hi.fresh_ne_main hp]

theorem execProcess_wakes {p bits pde : Nat} (hi : s.Inv) (hp : FreshPage s p)
    (h : s.execProcess p bits pde = .ok s') : Wakes s s' := by
  obtain ⟨seq, hi⟩ := hi
  simp only [execProcess, init_getPcb, Except.ok_bind] at h
  split at h
  · cases h
  split at h
  · cases h
  refine (init_wakes ?_).trans (enlist_wakes h)
  simp [processPcb, threadCreate, initThread, hi.fresh_ne_main hp]

end Sched

/-! ## The locks -/

/-- Why a call does not return: the scheduler stops, or an `ASSERT` of the lock functions fails. -/
inductive LockStop where
  | sched (e : Stop)
  | assert
  deriving DecidableEq, Repr

/-- The threads, and the locks they use. `call p` is the lock and the next statement of a thread inside
one of the two functions. -/
structure Locks (S : Type) where
  sched : Sched S
  holder : S → Option Nat
  holderRepeatRequestSum : S → Nat
  call : Nat → Option (S × LockSys.Pc)
  taken : S → Option Nat

namespace Locks
variable {S : Type} [DecidableEq S]

/-- The current thread goes on to statement `p` of its call on lock `l`. -/
def goto (s : Locks S) (l : S) (p : LockSys.Pc) : Locks S :=
  { s with call := Function.update s.call s.sched.current (some (l, p)) }

/-- The current thread returns. -/
def leave (s : Locks S) : Locks S := { s with call := Function.update s.call s.sched.current none }

def setHolder (s : Locks S) (l : S) (h : Option Nat) : Locks S :=
  { s with holder := Function.update s.holder l h }

def setSum (s : Locks S) (l : S) (n : Nat) : Locks S :=
  { s with holderRepeatRequestSum := Function.update s.holderRepeatRequestSum l n }

/-- The statement of the current thread at `p`, in a call on lock `l`. -/
def exec (s : Locks S) (l : S) : LockSys.Pc → Except LockStop (Locks S)
  | .out => .ok s.leave
  | .lockTest => .ok (s.goto l (if s.holder l ≠ some s.sched.current then .semDown else .incr))
  | .semDown =>
    match s.sched.semaphoreDown l with
    | .error e => .error (.sched e)
    | .ok sched =>
      -- a thread that blocks is at the loop test again when it is woken
      if s.sched.value l = 0 then .ok { s with sched := sched }
      else .ok { s.goto l .setHolder with
        sched := sched, taken := Function.update s.taken l (some s.sched.current) }
  | .setHolder => .ok ((s.setHolder l (some s.sched.current)).goto l .assertZero)
  | .assertZero => if s.holderRepeatRequestSum l = 0 then .ok (s.goto l .setOne) else .error .assert
  | .setOne => .ok (s.setSum l 1).leave
  | .incr => .ok (s.setSum l ((s.holderRepeatRequestSum l + 1) % 2 ^ 32)).leave
  | .assertHolder => if s.holder l = some s.sched.current then .ok (s.goto l .testNested) else .error .assert
  | .testNested => .ok (s.goto l (if s.holderRepeatRequestSum l > 1 then .decr else .assertOne))
  | .decr => .ok (s.setSum l (s.holderRepeatRequestSum l - 1)).leave
  | .assertOne => if s.holderRepeatRequestSum l = 1 then .ok (s.goto l .clearSum) else .error .assert
  | .clearSum => .ok ((s.setSum l 0).goto l .clearHolder)
  | .clearHolder => .ok ((s.setHolder l none).goto l .semUp)
  | .semUp =>
    match s.sched.semaphoreUp l with
    | .error e => .error (.sched e)
    | .ok sched => .ok { s.leave with sched := sched, taken := Function.update s.taken l none }

/-- What the current thread, or the timer, does next. -/
inductive Event (S : Type) where
  | lock (l : S)
  | unlock (l : S)
  | stmt
  | timer
  | threadStart (p : Nat) (priority : Int)
  | execProcess (p bits pde : Nat)

/-- A step of the scheduler alone. -/
def withSched (s : Locks S) (r : Except Stop (Sched S)) : Except LockStop (Locks S) :=
  match r with
  | .ok sched => .ok { s with sched := sched }
  | .error e => .error (.sched e)

def step (s : Locks S) : Event S → Except LockStop (Locks S)
  | .lock l => .ok (s.goto l .lockTest)
  | .unlock l => .ok (s.goto l .assertHolder)
  | .stmt => match s.call s.sched.current with
    | some (l, p) => s.exec l p
    | none => .ok s
  | .timer => s.withSched s.sched.intTimerHandler
  | .threadStart p priority => s.withSched (s.sched.threadStart p priority)
  | .execProcess p bits pde => s.withSched (s.sched.execProcess p bits pde)

/-- When an event can happen. A thread that calls `sys_lock_lock` holds no other lock; the timer is
off between a switch back into `SemaphoreDown` and the loop test there. -/
def Enabled (s : Locks S) : Event S → Prop
  | .lock l => s.call s.sched.current = none ∧ ∀ k ≠ l, s.holder k ≠ some s.sched.current
  | .unlock _ => s.call s.sched.current = none
  | .stmt => s.call s.sched.current ≠ none
  | .timer => s.sched.inDown s.sched.current = none
  | .threadStart p _ => s.call s.sched.current = none ∧ s.sched.FreshPage p
  | .execProcess p _ _ => s.call s.sched.current = none ∧ s.sched.FreshPage p

/-- After `ThreadInit`, with every lock through `LockInit`. -/
def init (sched : Sched S) : Locks S := ⟨sched, fun _ => none, fun _ => 0, fun _ => none, fun _ => none⟩

/-- The states of the runs from `ThreadInit`. -/
inductive Reachable : Locks S → Prop
  | init {sched : Sched S} : Sched.threadInit (fun _ => 1) = .ok sched → Reachable (init sched)
  | step {s s' : Locks S} {e : Event S} : Reachable s → Enabled s e → s.step e = .ok s' → Reachable s'

/-! ## The invariant -/

/-- The statements of the thread that took the unit. -/
def Owner : LockSys.Pc → Prop
  | .out | .lockTest | .semDown | .assertHolder => False
  | _ => True

/-- Of these, the ones with `holder` not set. -/
def Bare : LockSys.Pc → Prop
  | .setHolder | .semUp => True
  | _ => False

/-- In a call on `l`, at a statement in `P`. -/
def At (c : Option (S × LockSys.Pc)) (l : S) (P : LockSys.Pc → Prop) : Prop := ∃ p, c = some (l, p) ∧ P p

/-- Where the holder of `l` can be. Only an `ASSERT` tells it that it unlocks another lock. -/
def HolderAt (c : Option (S × LockSys.Pc)) (l : S) : Prop :=
  c = none ∨ (∃ k, c = some (k, .assertHolder)) ∨ At c l fun p => p = .lockTest ∨ Owner p ∧ ¬ Bare p

structure Unheld (s : Locks S) (l : S) : Prop where
  value : s.sched.value l = 1
  taken : s.taken l = none
  holder : s.holder l = none
  owner : ∀ p, ¬ At (s.call p) l Owner

structure Held (s : Locks S) (l : S) (o : Nat) : Prop where
  value : s.sched.value l = 0
  taken : s.taken l = some o
  thread : s.sched.status o ≠ none
  holder : s.holder l = some o ∧ HolderAt (s.call o) l ∨ s.holder l = none ∧ At (s.call o) l Bare
  owner : ∀ p ≠ o, ¬ At (s.call p) l Owner

structure Inv (s : Locks S) : Prop where
  sched : s.sched.Inv
  down : ∀ p l, s.sched.inDown p = some l → s.call p = some (l, .semDown)
  awake : ∀ p, s.sched.status p = none ∨ s.sched.Awake p ∨ s.sched.inDown p ≠ none
  lock : ∀ l, s.Unheld l ∨ ∃ o, s.Held l o
  one : ∀ k l p, s.holder k = some p → s.holder l = some p → k = l

section Step
variable {s s' : Locks S} {l : S}

/-! ## The locks that a step is not about -/

omit [DecidableEq S] in
theorem not_at_of_ne {c : Option (S × LockSys.Pc)} {k : S} {P : LockSys.Pc → Prop} (h : k ≠ l)
    (hc : c = none ∨ ∃ p, c = some (l, p)) : ¬ At c k P := by
  rintro ⟨p, hp, -⟩
  rcases hc with hc | ⟨q, hc⟩
  · simp [hc] at hp
  · simp only [hc, Option.some.injEq, Prod.mk.injEq] at hp
    exact h hp.1.symm

/-- The current thread, which holds no lock but `l`, goes on in a call on `l`. -/
structure Frame (s s' : Locks S) (l : S) : Prop where
  call : ∀ p ≠ s.sched.current, s'.call p = s.call p
  holder : ∀ k ≠ l, s'.holder k = s.holder k
  taken : ∀ k ≠ l, s'.taken k = s.taken k
  value : ∀ k ≠ l, s'.sched.value k = s.sched.value k
  status : ∀ p, s.sched.status p ≠ none → s'.sched.status p ≠ none
  before : s.call s.sched.current = none ∨ ∃ p, s.call s.sched.current = some (l, p)
  after : s'.call s.sched.current = none ∨ ∃ p, s'.call s.sched.current = some (l, p)
  moves : ∀ k ≠ l, s.holder k = some s.sched.current → HolderAt (s'.call s.sched.current) k

theorem Inv.other (hi : s.Inv) (hf : Frame s s' l) {k : S} (hk : k ≠ l) : s'.Unheld k ∨ ∃ o, s'.Held k o := by
  have howner : ∀ p, ¬ At (s.call p) k Owner → ¬ At (s'.call p) k Owner := by
    intro p hp
    by_cases hc : p = s.sched.current
    · rw [hc]
      exact not_at_of_ne hk hf.after
    · rwa [hf.call p hc]
  rcases hi.lock k with hu | ⟨o, ho⟩
  · refine .inl ⟨?_, ?_, ?_, fun p => howner p (hu.owner p)⟩
    · rw [hf.value k hk, hu.value]
    · rw [hf.taken k hk, hu.taken]
    · rw [hf.holder k hk, hu.holder]
  · refine .inr ⟨o, ?_, ?_, hf.status o ho.thread, ?_, fun p hp => howner p (ho.owner p hp)⟩
    · rw [hf.value k hk, ho.value]
    · rw [hf.taken k hk, ho.taken]
    · rw [hf.holder k hk]
      by_cases hc : o = s.sched.current
      · rcases ho.holder with ⟨hh, -⟩ | ⟨-, hb⟩
        · subst hc
          exact .inl ⟨hh, hf.moves k hk hh⟩
        · rw [hc] at hb
          exact absurd hb (not_at_of_ne hk hf.before)
      · rw [hf.call o hc]
        exact ho.holder

/-! ## Steps of the current thread -/

theorem Inv.held_of_holder (hi : s.Inv) {p : Nat} (h : s.holder l = some p) :
    s.Held l p ∧ HolderAt (s.call p) l := by
  rcases hi.lock l with hu | ⟨o, ho⟩
  · rw [hu.holder] at h
    cases h
  · rcases ho.holder with ⟨hh, hat⟩ | ⟨hh, -⟩
    · rw [hh] at h
      cases h
      exact ⟨ho, hat⟩
    · rw [hh] at h
      cases h

theorem Inv.held_of_at (hi : s.Inv) {p : Nat} (h : At (s.call p) l Owner) : s.Held l p := by
  rcases hi.lock l with hu | ⟨o, ho⟩
  · exact absurd h (hu.owner p)
  · by_cases hp : p = o
    · rw [hp]
      exact ho
    · exact absurd h (ho.owner p hp)

omit [DecidableEq S] in
/-- Who has a unit is not in `SemaphoreDown`. -/
theorem Held.not_semDown {o : Nat} (ho : s.Held l o) (k : S) : s.call o ≠ some (k, .semDown) := by
  intro h
  rcases ho.holder with ⟨-, hat⟩ | ⟨-, p, hp, hb⟩
  · rcases hat with hat | ⟨k', hat⟩ | ⟨p, hp, hat⟩
    · simp [h] at hat
    · simp [h] at hat
    · rw [h] at hp
      cases hp
      simp [Owner] at hat
  · rw [h] at hp
    cases hp
    exact hb

theorem Inv.inDown_held (hi : s.Inv) {o : Nat} (ho : s.Held l o) : s.sched.inDown o = none := by
  cases hd : s.sched.inDown o with
  | none => rfl
  | some k => exact absurd (hi.down o k hd) (ho.not_semDown k)

/-- Past the `ASSERT` on the holder, a thread in a call on `l` holds no other lock. -/
theorem Inv.holds_only (hi : s.Inv) {p : Nat} {pc : LockSys.Pc} (hc : s.call p = some (l, pc))
    (hpc : pc ≠ .assertHolder) {k : S} (hk : k ≠ l) : s.holder k ≠ some p := by
  intro h
  rcases (hi.held_of_holder h).2 with hat | ⟨k', hat⟩ | ⟨q, hat, -⟩
  · simp [hc] at hat
  · simp only [hc, Option.some.injEq, Prod.mk.injEq] at hat
    exact hpc hat.2
  · simp only [hc, Option.some.injEq, Prod.mk.injEq] at hat
    exact hk hat.1.symm

/-- The thread with the unit of `l` goes on; it may set or clear `holder`. -/
theorem Inv.owner_moves (hi : s.Inv) {h : S → Option Nat} {r : S → Nat} {c : Option (S × LockSys.Pc)}
    (hheld : s.Held l s.sched.current)
    (hbefore : s.call s.sched.current = none ∨ ∃ p, s.call s.sched.current = some (l, p))
    (hafter : c = none ∨ ∃ p, c = some (l, p)) (hk : ∀ k ≠ l, s.holder k ≠ some s.sched.current)
    (hh : ∀ k ≠ l, h k = s.holder k)
    (hnew : h l = some s.sched.current ∧ HolderAt c l ∨ h l = none ∧ At c l Bare) :
    Inv { s with holder := h, holderRepeatRequestSum := r, call := Function.update s.call s.sched.current c } := by
  have hframe : Frame s { s with holder := h, holderRepeatRequestSum := r,
                                 call := Function.update s.call s.sched.current c } l :=
    ⟨fun p hp => Function.update_of_ne hp _ _, hh, fun _ _ => rfl, fun _ _ => rfl, fun _ hp => hp, hbefore,
      by simpa using hafter, fun k hkl hhold => absurd hhold (hk k hkl)⟩
  refine ⟨hi.sched, fun p k hd => ?_, hi.awake, fun k => ?_, fun k k' p hp hp' => ?_⟩
  · have hpc : p ≠ s.sched.current := by
      intro hpc
      rw [hpc] at hd
      have := hi.inDown_held hheld
      simp [this] at hd
    dsimp only
    rw [Function.update_of_ne hpc]
    exact hi.down p k hd
  · by_cases hkl : k = l
    · subst hkl
      refine .inr ⟨s.sched.current, hheld.value, hheld.taken, hheld.thread, by simpa using hnew, fun p hp => ?_⟩
      dsimp only
      rw [Function.update_of_ne hp]
      exact hheld.owner p hp
    · exact hi.other hframe hkl
  · -- a lock other than `l` has a holder other than the current thread
    have hl : ∀ k, h k = some p → k ≠ l → s.holder k = some p ∧ p ≠ s.sched.current := by
      intro k hk' hkl
      rw [hh k hkl] at hk'
      exact ⟨hk', fun hpc => hk k hkl (hpc ▸ hk')⟩
    have hcur : h l = some p → p = s.sched.current := by
      intro hlp
      rcases hnew with ⟨hn, -⟩ | ⟨hn, -⟩
      · rw [hn] at hlp
        exact (Option.some.inj hlp).symm
      · rw [hn] at hlp
        cases hlp
    by_cases hkl : k = l
    · by_cases hkl' : k' = l
      · rw [hkl, hkl']
      · exact absurd (hcur (hkl ▸ hp)) (hl k' hp' hkl').2
    · by_cases hkl' : k' = l
      · exact absurd (hcur (hkl' ▸ hp')) (hl k hp hkl).2
      · exact hi.one k k' p (hl k hp hkl).1 (hl k' hp' hkl').1

/-- The current thread goes on outside of what only an owner executes. -/
theorem Inv.stays (hi : s.Inv) {c : Option (S × LockSys.Pc)}
    (hd : ∀ k, s.sched.inDown s.sched.current = some k → c = some (k, .semDown))
    (hbefore : ∀ k, ¬ At (s.call s.sched.current) k Bare) (hc : ∀ k, ¬ At c k Owner)
    (hhold : ∀ k, s.holder k = some s.sched.current → HolderAt c k) :
    Inv { s with call := Function.update s.call s.sched.current c } := by
  have howner : ∀ p k, ¬ At (s.call p) k Owner → ¬ At (Function.update s.call s.sched.current c p) k Owner := by
    intro p k hp
    by_cases hpc : p = s.sched.current
    · rw [hpc, Function.update_self]
      exact hc k
    · rwa [Function.update_of_ne hpc]
  refine ⟨hi.sched, fun p k hdown => ?_, hi.awake, fun k => ?_, hi.one⟩
  · dsimp only at hdown ⊢
    by_cases hpc : p = s.sched.current
    · subst hpc
      rw [Function.update_self]
      exact hd k hdown
    · rw [Function.update_of_ne hpc]
      exact hi.down p k hdown
  · rcases hi.lock k with hu | ⟨o, ho⟩
    · exact .inl ⟨hu.value, hu.taken, hu.holder, fun p => howner p k (hu.owner p)⟩
    · refine .inr ⟨o, ho.value, ho.taken, ho.thread, ?_, fun p hp => howner p k (ho.owner p hp)⟩
      dsimp only
      by_cases hpc : o = s.sched.current
      · subst hpc
        rw [Function.update_self]
        rcases ho.holder with ⟨hh, -⟩ | ⟨-, hb⟩
        · exact .inl ⟨hh, hhold k hh⟩
        · exact absurd hb (hbefore k)
      · rw [Function.update_of_ne hpc]
        exact ho.holder

/-- A step of the scheduler in which nobody falls asleep. -/
theorem Inv.wakes (hi : s.Inv) {sched : Sched S} (hs : sched.Inv) (hw : Sched.Wakes s.sched sched) :
    Inv { s with sched := sched } := by
  refine ⟨hs, fun p k hd => hi.down p k (by rw [← hw.inDown]; exact hd), fun p => ?_, fun k => ?_, hi.one⟩
  · dsimp only
    rw [hw.inDown]
    rcases hi.awake p with h | h | h
    · rcases hw.status p with he | ha
      · exact .inl (he.trans h)
      · exact .inr (.inl ha)
    · exact .inr (.inl (hw.awake h))
    · exact .inr (.inr h)
  · rcases hi.lock k with hu | ⟨o, ho⟩
    · exact .inl ⟨by rw [← hu.value, ← hw.value], hu.taken, hu.holder, hu.owner⟩
    · exact .inr ⟨o, by rw [← ho.value, ← hw.value], ho.taken, hw.status_ne ho.thread, ho.holder, ho.owner⟩

/-! ## The semaphore of a lock -/

/-- The thread that has the unit another thread waits for is ready. -/
theorem Inv.owner_ready (hi : s.Inv) (hc : s.call s.sched.current = some (l, .semDown))
    (hv : s.sched.value l = 0) : ∃ o, s.taken l = some o ∧ o ≠ s.sched.current ∧ s.sched.status o = some .ready := by
  rcases hi.lock l with hu | ⟨o, ho⟩
  · have := hu.value
    omega
  · have hne : o ≠ s.sched.current := by
      rintro rfl
      exact ho.not_semDown l hc
    refine ⟨o, ho.taken, hne, ?_⟩
    rcases hi.awake o with h | (h | h) | h
    · exact absurd h ho.thread
    · exact h
    · obtain ⟨seq, hs⟩ := hi.sched
      exact absurd (Option.some.inj ((hs.running o).1 h)).symm hne
    · exact absurd (hi.inDown_held ho) h

/-- `SemaphoreDown` without a unit: the caller sleeps, and another thread runs. -/
theorem Inv.semDown_blocks (hi : s.Inv) (hc : s.call s.sched.current = some (l, .semDown))
    (hv : s.sched.value l = 0) :
    ∃ sched, s.sched.semaphoreDown l = .ok sched ∧ Inv { s with sched := sched } := by
  obtain ⟨o, -, hne, hready⟩ := hi.owner_ready hc hv
  obtain ⟨seq, hs⟩ := hi.sched
  obtain ⟨s1, seq1, hb, hs1, hvalue, hdown, hstatus⟩ := Sched.semaphoreDown_blocks hs hv
  obtain ⟨sched, hd, hsched⟩ := Sched.dispatch_ok hs1 (p := o) (by rw [hstatus, if_neg hne, hready])
  have hw := Sched.dispatch_wakes hd
  have hold : ∀ p ≠ s.sched.current, s1.status p = s.sched.status p := by
    intro p hp
    rw [hstatus, if_neg hp]
  have hval : sched.value = s.sched.value := hw.value.trans hvalue
  have hin : sched.inDown = Function.update s.sched.inDown s.sched.current (some l) := hw.inDown.trans hdown
  have hthread : ∀ p, s.sched.status p ≠ none → sched.status p ≠ none := by
    intro p hp
    apply hw.status_ne
    by_cases hpc : p = s.sched.current
    · simp [hstatus, hpc]
    · rwa [hold p hpc]
  refine ⟨sched, by rw [hb, hd], hsched, fun p k hdk => ?_, fun p => ?_, fun k => ?_, hi.one⟩
  · dsimp only at hdk ⊢
    rw [hin] at hdk
    by_cases hpc : p = s.sched.current
    · subst hpc
      rw [Function.update_self] at hdk
      rw [hc, Option.some.inj hdk]
    · rw [Function.update_of_ne hpc] at hdk
      exact hi.down p k hdk
  · dsimp only
    rw [hin]
    by_cases hpc : p = s.sched.current
    · subst hpc
      simp
    · rw [Function.update_of_ne hpc]
      rcases hi.awake p with h | h | h
      · rcases hw.status p with he | ha
        · exact .inl (by rw [he, hold p hpc, h])
        · exact .inr (.inl ha)
      · exact .inr (.inl (hw.awake (by unfold Sched.Awake; rw [hold p hpc]; exact h)))
      · exact .inr (.inr h)
  · rcases hi.lock k with hu | ⟨o, ho⟩
    · exact .inl ⟨by rw [← hu.value, ← hval], hu.taken, hu.holder, hu.owner⟩
    · exact .inr ⟨o, by rw [← ho.value, ← hval], ho.taken, hthread o ho.thread, ho.holder, ho.owner⟩

/-- `SemaphoreDown` with the unit there: the caller has it. -/
theorem Inv.semDown_passes (hi : s.Inv) (hc : s.call s.sched.current = some (l, .semDown))
    (hv : s.sched.value l ≠ 0) :
    ∃ sched, s.sched.semaphoreDown l = .ok sched ∧ Inv { s.goto l .setHolder with
      sched := sched, taken := Function.update s.taken l (some s.sched.current) } := by
  obtain ⟨seq, hs⟩ := hi.sched
  obtain ⟨hok, hsched⟩ := Sched.semaphoreDown_passes hs hv
  obtain ⟨t, ht, hrun⟩ := hs.getPcb_current
  have hu : s.Unheld l := by
    rcases hi.lock l with hu | ⟨o, ho⟩
    · exact hu
    · exact absurd ho.value hv
  have hk : ∀ k ≠ l, s.holder k ≠ some s.sched.current := fun k => hi.holds_only hc (by simp)
  have hframe : Frame s { s.goto l .setHolder with
      sched := { s.sched with value := Function.update s.sched.value l (s.sched.value l - 1)
                              inDown := Function.update s.sched.inDown s.sched.current none }
      taken := Function.update s.taken l (some s.sched.current) } l := by
    refine ⟨fun p hp => ?_, fun _ _ => rfl, fun k' hk' => ?_, fun k' hk' => ?_, fun _ hp => hp,
      .inr ⟨_, hc⟩, .inr ⟨.setHolder, by simp [goto]⟩, fun k' hk' hh => absurd hh (hk k' hk')⟩
    · exact Function.update_of_ne hp _ _
    · exact Function.update_of_ne hk' _ _
    · exact Function.update_of_ne hk' _ _
  refine ⟨_, hok, hsched, fun p k hd => ?_, fun p => ?_, fun k => ?_, hi.one⟩
  · dsimp only [goto] at hd ⊢
    by_cases hpc : p = s.sched.current
    · subst hpc
      simp at hd
    · rw [Function.update_of_ne hpc] at hd ⊢
      exact hi.down p k hd
  · by_cases hpc : p = s.sched.current
    · exact .inr (.inl (.inr (by rw [hpc]; exact (Sched.status_of_pcb ht).trans (by rw [hrun]))))
    · dsimp only
      rw [Function.update_of_ne hpc]
      exact hi.awake p
  · by_cases hkl : k = l
    · subst hkl
      refine .inr ⟨s.sched.current, ?_, ?_, ?_, .inr ⟨hu.holder, .setHolder, ?_, trivial⟩, fun p hp => ?_⟩
      · simp [hu.value]
      · simp
      · show s.sched.status s.sched.current ≠ none
        rw [Sched.status_of_pcb ht]
        simp
      · simp [goto]
      · dsimp only [goto]
        rw [Function.update_of_ne hp]
        exact hu.owner p
    · exact hi.other hframe hkl

/-- The outermost `sys_lock_unlock` gives the unit back. -/
theorem Inv.semUp (hi : s.Inv) (hc : s.call s.sched.current = some (l, .semUp)) :
    ∃ sched, s.sched.semaphoreUp l = .ok sched ∧
      Inv { s.leave with sched := sched, taken := Function.update s.taken l none } := by
  have hheld : s.Held l s.sched.current := hi.held_of_at ⟨.semUp, hc, trivial⟩
  have hholder : s.holder l = none := by
    rcases hheld.holder with ⟨-, hat⟩ | ⟨hh, -⟩
    · rcases hat with hat | ⟨k, hat⟩ | ⟨p, hp, hat⟩
      · simp [hc] at hat
      · simp [hc] at hat
      · rw [hc] at hp
        cases hp
        simp [Bare] at hat
    · exact hh
  have hk : ∀ k ≠ l, s.holder k ≠ some s.sched.current := fun k => hi.holds_only hc (by simp)
  obtain ⟨seq, hs⟩ := hi.sched
  obtain ⟨sched, hok, hsched⟩ := Sched.semaphoreUp_ok hs l
  obtain ⟨s1, hw, rfl⟩ := Sched.semaphoreUp_wakes hok
  have hframe : Frame s { s.leave with
      sched := { s1 with value := Function.update s.sched.value l ((s.sched.value l + 1) % 256) }
      taken := Function.update s.taken l none } l := by
    refine ⟨fun p hp => ?_, fun _ _ => rfl, fun k' hk' => ?_, fun k' hk' => ?_, fun _ hp => hw.status_ne hp,
      .inr ⟨_, hc⟩, .inl (by simp [leave]), fun k' hk' hh => absurd hh (hk k' hk')⟩
    · exact Function.update_of_ne hp _ _
    · exact Function.update_of_ne hk' _ _
    · exact Function.update_of_ne hk' _ _
  refine ⟨_, hok, hsched, fun p k hd => ?_, fun p => ?_, fun k => ?_, hi.one⟩
  · dsimp only [leave] at hd ⊢
    rw [hw.inDown] at hd
    have hpc : p ≠ s.sched.current := by
      rintro rfl
      rw [hi.inDown_held hheld] at hd
      cases hd
    rw [Function.update_of_ne hpc]
    exact hi.down p k hd
  · have hs1 : s1.Inv := by
      obtain ⟨seq', h⟩ := hsched
      exact ⟨seq', h.family, h.ready, h.all, h.waiting, h.running, h.pages, h.canary, h.main⟩
    exact (hi.wakes hs1 hw).awake p
  · by_cases hkl : k = l
    · subst hkl
      refine .inl ⟨?_, ?_, hholder, fun p => ?_⟩
      · simp [hheld.value]
      · simp
      · dsimp only [leave]
        by_cases hpc : p = s.sched.current
        · rw [hpc, Function.update_self]
          rintro ⟨q, hq, -⟩
          cases hq
        · rw [Function.update_of_ne hpc]
          exact hheld.owner p hpc
    · exact hi.other hframe hkl

/-! ## Every statement -/

theorem Inv.holder_of_at (hi : s.Inv) {p : Nat} {pc : LockSys.Pc} (hc : s.call p = some (l, pc)) (ho : Owner pc)
    (hb : ¬ Bare pc) : s.holder l = some p := by
  rcases (hi.held_of_at ⟨pc, hc, ho⟩).holder with ⟨hh, -⟩ | ⟨-, q, hq, hbare⟩
  · exact hh
  · rw [hc] at hq
    cases hq
    exact absurd hbare hb

/-- A statement that only the owner executes, and after which it still has the unit. -/
theorem Inv.owner_exec (hi : s.Inv) {pc : LockSys.Pc} (hc : s.call s.sched.current = some (l, pc)) (ho : Owner pc)
    {h : S → Option Nat} (r : S → Nat) {c : Option (S × LockSys.Pc)} (hafter : c = none ∨ ∃ p, c = some (l, p))
    (hh : ∀ k ≠ l, h k = s.holder k)
    (hnew : h l = some s.sched.current ∧ HolderAt c l ∨ h l = none ∧ At c l Bare) :
    Inv { s with holder := h, holderRepeatRequestSum := r, call := Function.update s.call s.sched.current c } := by
  have hne : pc ≠ .assertHolder := by
    rintro rfl
    exact ho
  exact hi.owner_moves (hi.held_of_at ⟨pc, hc, ho⟩) (.inr ⟨pc, hc⟩) hafter (fun k => hi.holds_only hc hne) hh hnew

/-- The same, with `holder` as it is: the owner goes to statement `pc'`, or returns. -/
theorem Inv.owner_next (hi : s.Inv) {pc : LockSys.Pc} (hc : s.call s.sched.current = some (l, pc)) (ho : Owner pc)
    (hb : ¬ Bare pc) (r : S → Nat) {pc' : LockSys.Pc} (ho' : Owner pc') (hb' : ¬ Bare pc') :
    Inv (goto { s with holderRepeatRequestSum := r } l pc') :=
  hi.owner_exec hc ho r (.inr ⟨pc', rfl⟩) (fun _ _ => rfl)
    (.inl ⟨hi.holder_of_at hc ho hb, .inr (.inr ⟨pc', rfl, .inr ⟨ho', hb'⟩⟩)⟩)

theorem Inv.owner_leaves (hi : s.Inv) {pc : LockSys.Pc} (hc : s.call s.sched.current = some (l, pc)) (ho : Owner pc)
    (hb : ¬ Bare pc) (r : S → Nat) : Inv (leave { s with holderRepeatRequestSum := r }) :=
  hi.owner_exec hc ho r (.inl rfl) (fun _ _ => rfl) (.inl ⟨hi.holder_of_at hc ho hb, .inl rfl⟩)

/-- From a statement that neither waits nor needs the lock. -/
theorem Inv.stays_at (hi : s.Inv) {pc : LockSys.Pc} (hc : s.call s.sched.current = some (l, pc)) (hsem : pc ≠ .semDown)
    (hbare : ¬ Bare pc) {c : Option (S × LockSys.Pc)} (howner : ∀ k, ¬ At c k Owner)
    (hhold : ∀ k, s.holder k = some s.sched.current → HolderAt c k) :
    Inv { s with call := Function.update s.call s.sched.current c } := by
  refine hi.stays (fun k hd => ?_) (fun k => ?_) howner hhold
  · have hdown := hi.down _ k hd
    rw [hc, Option.some.injEq, Prod.mk.injEq] at hdown
    exact absurd hdown.2 hsem
  · rintro ⟨p, hp, hb⟩
    rw [hc] at hp
    cases hp
    exact hbare hb

theorem Inv.lockTest (hi : s.Inv) (hc : s.call s.sched.current = some (l, .lockTest)) :
    Inv (s.goto l (if s.holder l ≠ some s.sched.current then .semDown else .incr)) := by
  have hk : ∀ k ≠ l, s.holder k ≠ some s.sched.current := fun k => hi.holds_only hc (by simp)
  by_cases hh : s.holder l = some s.sched.current
  · rw [if_neg (by simp [hh])]
    exact hi.owner_moves (hi.held_of_holder hh).1 (.inr ⟨_, hc⟩) (.inr ⟨.incr, rfl⟩) hk (fun _ _ => rfl)
      (.inl ⟨hh, .inr (.inr ⟨.incr, rfl, .inr ⟨trivial, id⟩⟩)⟩)
  · rw [if_pos hh]
    refine hi.stays_at hc (by simp) id (fun k => ?_) (fun k hhold => ?_)
    · rintro ⟨p, hp, ho⟩
      cases hp
      exact ho
    · by_cases hkl : k = l
      · exact absurd (hkl ▸ hhold) hh
      · exact absurd hhold (hk k hkl)

theorem Inv.assertHolder (hi : s.Inv) (hc : s.call s.sched.current = some (l, .assertHolder))
    (hh : s.holder l = some s.sched.current) : Inv (s.goto l .testNested) := by
  refine hi.owner_moves (hi.held_of_holder hh).1 (.inr ⟨_, hc⟩) (.inr ⟨.testNested, rfl⟩) (fun k hk hhk => ?_)
    (fun _ _ => rfl) (.inl ⟨hh, .inr (.inr ⟨.testNested, rfl, .inr ⟨trivial, id⟩⟩)⟩)
  exact hk (hi.one k l _ hhk hh)

/-- A statement is executed, or an `ASSERT` of the lock functions fails. -/
theorem Inv.exec (hi : s.Inv) {pc : LockSys.Pc} (hc : s.call s.sched.current = some (l, pc)) :
    (∃ s', s.exec l pc = .ok s' ∧ s'.Inv) ∨ s.exec l pc = .error .assert := by
  cases pc with
  | out =>
    refine .inl ⟨_, rfl, hi.stays_at hc (by simp) id (fun k => ?_) fun _ _ => .inl rfl⟩
    rintro ⟨p, hp, -⟩
    cases hp
  | lockTest => exact .inl ⟨_, rfl, hi.lockTest hc⟩
  | semDown =>
    left
    by_cases hv : s.sched.value l = 0
    · obtain ⟨sched, hok, hi'⟩ := hi.semDown_blocks hc hv
      exact ⟨_, by simp [Locks.exec, hok, hv], hi'⟩
    · obtain ⟨sched, hok, hi'⟩ := hi.semDown_passes hc hv
      exact ⟨_, by simp [Locks.exec, hok, hv], hi'⟩
  | setHolder =>
    refine .inl ⟨_, rfl, hi.owner_exec hc trivial s.holderRepeatRequestSum (.inr ⟨.assertZero, rfl⟩)
      (fun k hk => Function.update_of_ne hk _ _) (.inl ⟨Function.update_self _ _ _, .inr (.inr ⟨.assertZero, rfl, ?_⟩)⟩)⟩
    exact .inr ⟨trivial, id⟩
  | assertZero =>
    by_cases h : s.holderRepeatRequestSum l = 0
    · exact .inl ⟨_, if_pos h, hi.owner_next hc trivial id s.holderRepeatRequestSum trivial id⟩
    · exact .inr (if_neg h)
  | setOne => exact .inl ⟨_, rfl, hi.owner_leaves hc trivial id _⟩
  | incr => exact .inl ⟨_, rfl, hi.owner_leaves hc trivial id _⟩
  | assertHolder =>
    by_cases h : s.holder l = some s.sched.current
    · exact .inl ⟨_, if_pos h, hi.assertHolder hc h⟩
    · exact .inr (if_neg h)
  | testNested =>
    refine .inl ⟨_, rfl, ?_⟩
    split
    · exact hi.owner_next hc trivial id s.holderRepeatRequestSum trivial id
    · exact hi.owner_next hc trivial id s.holderRepeatRequestSum trivial id
  | decr => exact .inl ⟨_, rfl, hi.owner_leaves hc trivial id _⟩
  | assertOne =>
    by_cases h : s.holderRepeatRequestSum l = 1
    · exact .inl ⟨_, if_pos h, hi.owner_next hc trivial id s.holderRepeatRequestSum trivial id⟩
    · exact .inr (if_neg h)
  | clearSum => exact .inl ⟨_, rfl, hi.owner_next hc trivial id _ trivial id⟩
  | clearHolder =>
    exact .inl ⟨_, rfl, hi.owner_exec hc trivial s.holderRepeatRequestSum (.inr ⟨.semUp, rfl⟩)
      (fun k hk => Function.update_of_ne hk _ _) (.inr ⟨Function.update_self _ _ _, .semUp, rfl, trivial⟩)⟩
  | semUp =>
    obtain ⟨sched, hok, hi'⟩ := hi.semUp hc
    exact .inl ⟨_, by simp [Locks.exec, hok], hi'⟩

theorem Inv.call (hi : s.Inv) (hc : s.call s.sched.current = none) {pc : LockSys.Pc} (hpc : ¬ Owner pc)
    (hhold : ∀ k, s.holder k = some s.sched.current → HolderAt (some (l, pc)) k) : Inv (s.goto l pc) := by
  refine hi.stays (fun k hd => ?_) (fun k => ?_) (fun k => ?_) hhold
  · have := hi.down _ k hd
    simp [hc] at this
  · rintro ⟨p, hp, -⟩
    simp [hc] at hp
  · rintro ⟨p, hp, ho⟩
    cases hp
    exact hpc ho

/-- How a step can end: in a state of the invariant, on an `ASSERT` of the lock functions, or without
memory for a new process. -/
theorem Inv.step (hi : s.Inv) {e : Event S} (he : Enabled s e) :
    (∃ s', s.step e = .ok s' ∧ s'.Inv) ∨ s.step e = .error .assert ∨ s.step e = .error (.sched .noMemory) := by
  obtain ⟨seq, hs⟩ := hi.sched
  cases e with
  | lock l =>
    refine .inl ⟨_, rfl, hi.call he.1 id fun k hk => ?_⟩
    by_cases hkl : k = l
    · exact .inr (.inr ⟨.lockTest, by rw [hkl], .inl rfl⟩)
    · exact absurd hk (he.2 k hkl)
  | unlock l => exact .inl ⟨_, rfl, hi.call he id fun k _ => .inr (.inl ⟨l, rfl⟩)⟩
  | stmt =>
    obtain ⟨⟨l, pc⟩, hc⟩ := Option.ne_none_iff_exists'.1 he
    simp only [Locks.step, hc]
    rcases hi.exec hc with h | h
    · exact .inl h
    · exact .inr (.inl h)
  | timer =>
    obtain ⟨sched, hok, hsched⟩ := Sched.intTimerHandler_ok hs
    exact .inl ⟨_, by simp [Locks.step, withSched, hok], hi.wakes hsched (Sched.intTimerHandler_wakes hi.sched hok)⟩
  | threadStart p priority =>
    obtain ⟨sched, hok, hsched⟩ := Sched.threadStart_ok hs he.2 priority
    exact .inl ⟨_, by simp [Locks.step, withSched, hok], hi.wakes hsched (Sched.threadStart_wakes hi.sched he.2 hok)⟩
  | execProcess p bits pde =>
    rcases Sched.execProcess_inv hs he.2 bits pde with ⟨sched, hok, hsched⟩ | h
    · exact .inl ⟨_, by simp [Locks.step, withSched, hok], hi.wakes hsched (Sched.execProcess_wakes hi.sched he.2 hok)⟩
    · exact .inr (.inr (by simp [Locks.step, withSched, h]))

end Step

/-! ## Runs -/

theorem inv_init {sched : Sched S} (h : Sched.threadInit (fun _ => 1) = .ok sched) : (init sched).Inv := by
  obtain ⟨sched', h', hs⟩ := Sched.threadInit_inv (fun _ : S => 1)
  cases h.symm.trans h'
  obtain ⟨-, -, happ⟩ := Except.bind_eq_ok.1 h
  obtain ⟨hw, hpcb⟩ := Sched.append_wakes happ
  refine ⟨hs, fun p l hd => ?_, fun p => ?_, fun l => .inl ⟨by rw [init, hw.value]; rfl, rfl, rfl, ?_⟩, ?_⟩
  · rw [init, hw.inDown] at hd
    cases hd
  · by_cases hp : p = Sched.mainPage
    · exact .inr (.inl (.inr (by simp [init, Sched.status, hpcb, Sched.init, initThread, hp])))
    · exact .inl (by simp [init, Sched.status, hpcb, Sched.init, hp])
  · rintro p ⟨q, hq, -⟩
    cases hq
  · intro k l p hk
    cases hk

theorem Reachable.inv {s : Locks S} (h : Reachable s) : s.Inv := by
  induction h with
  | init h => exact inv_init h
  | step _ he hstep ih =>
    rcases ih.step he with ⟨s', hs', hi⟩ | h | h
    · cases hstep.symm.trans hs'
      exact hi
    · cases hstep.symm.trans h
    · cases hstep.symm.trans h

instance [Fintype S] (s : Locks S) : (e : Event S) → Decidable (Enabled s e)
  | .lock l => inferInstanceAs (Decidable (s.call s.sched.current = none ∧ ∀ k ≠ l, s.holder k ≠ some s.sched.current))
  | .unlock _ => inferInstanceAs (Decidable (s.call s.sched.current = none))
  | .stmt => inferInstanceAs (Decidable (s.call s.sched.current ≠ none))
  | .timer => inferInstanceAs (Decidable (s.sched.inDown s.sched.current = none))
  | .threadStart p _ => inferInstanceAs (Decidable (s.call s.sched.current = none ∧ s.sched.FreshPage p))
  | .execProcess p _ _ => inferInstanceAs (Decidable (s.call s.sched.current = none ∧ s.sched.FreshPage p))

/-- Run through events, as long as they are enabled and do not stop the kernel. -/
def run [Fintype S] (s : Locks S) : List (Event S) → Option (Locks S)
  | [] => some s
  | e :: es => if Enabled s e then
      match s.step e with
      | .ok s' => s'.run es
      | .error _ => none
    else none

theorem Reachable.run [Fintype S] {s s' : Locks S} {es : List (Event S)} (h : Reachable s)
    (hrun : s.run es = some s') : Reachable s' := by
  induction es generalizing s with
  | nil =>
    cases hrun
    exact h
  | cons e es ih =>
    unfold Locks.run at hrun
    split at hrun
    · rename_i he
      split at hrun
      · rename_i s1 hs1
        exact ih (h.step he hs1) hrun
      · cases hrun
    · cases hrun

/-- `ScheduleThread` always finds a thread: when the current thread blocks, the one that took the unit
it waits for is in the ready list. -/
theorem always_a_thread_to_run (s : Locks S) (h : Reachable s) :
    (∀ e, Enabled s e → s.step e ≠ .error (.sched .noReadyThread)) ∧
    ∀ l, s.call s.sched.current = some (l, .semDown) → s.sched.value l = 0 →
      ∃ o seq, s.taken l = some o ∧ IsSeq s.sched.links (.head .ready) (.tail .ready) seq ∧
        .generalTag o ∈ seq := by
  have hi := h.inv
  refine ⟨fun e he hstop => ?_, fun l hc hv => ?_⟩
  · rcases hi.step he with ⟨s', hs', -⟩ | h | h
    · cases hstop.symm.trans hs'
    · cases hstop.symm.trans h
    · cases hstop.symm.trans h
  · obtain ⟨o, htaken, -, hready⟩ := hi.owner_ready hc hv
    obtain ⟨seq, hs⟩ := hi.sched
    exact ⟨o, seq .ready, htaken, hs.family.isSeq .ready, (hs.ready _).2 ⟨o, rfl, hready⟩⟩

/-- The second thread takes the lock once the main thread has used up its time, and is preempted; the
main thread is about to block. -/
theorem always_a_thread_to_run_waiter :
    ∃ s : Locks Unit, Reachable s ∧ s.sched.current = Sched.mainPage ∧
      s.call s.sched.current = some ((), .semDown) ∧ s.sched.value () = 0 ∧
      s.step .stmt ≠ .error (.sched .noReadyThread) ∧
      ∃ o seq, s.taken () = some o ∧ IsSeq s.sched.links (.head .ready) (.tail .ready) seq ∧ .generalTag o ∈ seq := by
  let es : List (Event Unit) := .threadStart 0xC0100000 0 :: List.replicate 32 .timer ++
    [.lock (), .stmt, .stmt, .timer, .lock (), .stmt]
  have hfacts : ∃ sched, Sched.threadInit (fun _ : Unit => 1) = .ok sched ∧
      ((init sched).run es).map (fun s => (s.sched.current, s.call s.sched.current, s.sched.value ())) =
        some (Sched.mainPage, some ((), .semDown), 0) := ⟨_, rfl, by decide +kernel⟩
  obtain ⟨sched, hsched, hmap⟩ := hfacts
  obtain ⟨s, hrun, hs⟩ := Option.map_eq_some_iff.1 hmap
  simp only [Prod.mk.injEq] at hs
  obtain ⟨hcur, hc, hv⟩ := hs
  have hreach : Reachable s := (Reachable.init hsched).run hrun
  obtain ⟨hstep, hready⟩ := always_a_thread_to_run s hreach
  exact ⟨s, hreach, hcur, hc, hv, hstep .stmt (by simp [Enabled, hc]), hready () hc hv⟩

end Locks

end ElephantOS
