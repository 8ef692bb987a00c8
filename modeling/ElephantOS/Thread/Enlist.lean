import ElephantOS.Thread.Interrupts
import ElephantOS.Thread.SchedInv

/-!
# New threads enter the lists (`thread/thread.c`, `userprog/process.c`)

`ThreadStart` and `ExecProcess` end with two traversals by `elem_find` and two `list_append`s. The
traversals have the interrupt flag of the caller (`ExecProcess` reads it with `GetIntStatus` and writes it
back at the end); `list_insert_before` turns interrupts off itself. So here a traversal goes node by node and
an insertion statement by statement, and a timer interrupt can come in between when the flag is on. The timer
handler and the functions of the semaphores use the lists with interrupts off (`Code.usesLists_off`), and each
is one step.

* `Insert`, `Stage`, `StartCall` : where in the end of `ThreadStart` or `ExecProcess` a thread is;
* `Starts` : the scheduler, the interrupt flag, and for each thread its place and the flag it goes on with
  when it gets the CPU back (from its interrupt frame or its `old_int_statu`);
* `Reachable ok` : the runs from `ThreadInit` whose steps all satisfy `ok`; `Masked` : a call of one of the
  two functions has interrupts off;
* `Inv` : under `Masked` only the current thread is in one of the two functions, and the rest of it succeeds.
-/

namespace ElephantOS
open LinkMem Masking

namespace Starts

/-- The statements of `list_insert_before` between `DisableInt` and `SetIntStatus`. -/
inductive Insert where
  /-- `ASSERT(elem != NULL)` -/
  | assert
  /-- `before->prev->next = elem` -/
  | prevNext
  /-- `elem->prev = before->prev` -/
  | elemPrev
  /-- `elem->next = before` -/
  | elemNext
  /-- `before->prev = elem` -/
  | beforePrev
  deriving DecidableEq, Repr

/-- What is left of the end of `ThreadStart` or `ExecProcess`. -/
inductive Stage (S : Type) where
  /-- in `elem_find` on the list `l`: before its first read, or at the loop test with `elem` -/
  | find (l : ListId S) (elem : Option (Node S))
  /-- in `list_append` to the list `l`, before `DisableInt` in `list_insert_before` -/
  | disable (l : ListId S)
  /-- inside `list_insert_before`, with its `old_status` and what is left before its `SetIntStatus` -/
  | insert (l : ListId S) (old : IntStatus) (stmts : List Insert)
  /-- `SetIntStatus(old_status)` of `ExecProcess` -/
  | setInt

structure StartCall (S : Type) where
  pthread : Nat
  /-- `old_status` of `ExecProcess` -/
  oldStatus : Option IntStatus
  stage : Stage S

def Insert.exec {S : Type} [DecidableEq S] (before elem : Node S) (m : LinkStore (Node S)) :
    Insert → Option (LinkStore (Node S))
  | .assert => if elem = .null then none else some m
  | .prevNext => some (setNext m (prev m before) elem)
  | .elemPrev => some (setPrev m elem (prev m before))
  | .elemNext => some (setNext m elem before)
  | .beforePrev => some (setPrev m before elem)

def insertStmts : List Insert := [.assert, .prevNext, .elemPrev, .elemNext, .beforePrev]

theorem listInsertBefore_stmts {S : Type} [DecidableEq S] (m : LinkStore (Node S)) (before elem : Node S) :
    listInsertBefore m before elem = insertStmts.foldlM (Insert.exec before elem) m := by
  unfold listInsertBefore insertStmts
  simp only [List.foldlM_cons, List.foldlM_nil, Insert.exec]
  have hnull : LinkMem.null (LinkStore (Node S)) = .null := rfl
  rw [hnull]
  split <;> rfl

/-- The tag of thread `p` in a list. -/
def tag {S : Type} (l : ListId S) (p : Nat) : Node S :=
  match l with
  | .all => .allListTag p
  | _ => .generalTag p

/-- Why a step does not end. -/
inductive StartStop where
  | sched (e : Stop)
  /-- `ASSERT(elem != NULL)` in `elem_find` -/
  | nullElem
  /-- `ASSERT(!elem_find(..))` -/
  | found
  deriving DecidableEq, Repr

end Starts

structure Starts (S : Type) where
  sched : Sched S
  flag : IntStatus
  saved : Nat → IntStatus
  pc : Nat → Option (Starts.StartCall S)

namespace Starts
variable {S : Type} [DecidableEq S]

/-- The flag with which the thread on the CPU goes on. In `SemaphoreDown` it is off until the end. -/
def resumed (saved : Nat → IntStatus) (sched : Sched S) : IntStatus :=
  if sched.inDown sched.current = none then saved sched.current else .off

/-- The scheduler may have switched from `s.current`, which goes on with `flag` later. -/
def switched (s : Starts S) (flag : IntStatus) (sched : Sched S) : Starts S :=
  let saved := Function.update s.saved s.sched.current flag
  { s with sched := sched, saved := saved, flag := resumed saved sched }

def withSched (r : Except Stop (Sched S)) (f : Sched S → Starts S) : Except StartStop (Starts S) :=
  match r with
  | .ok sched => .ok (f sched)
  | .error e => .error (.sched e)

def setPc (s : Starts S) (c : Option (StartCall S)) : Starts S :=
  { s with pc := Function.update s.pc s.sched.current c }

/-- The next statement of the current thread in the end of `ThreadStart` or `ExecProcess`. -/
def next (s : Starts S) (c : StartCall S) : Except StartStop (Starts S) :=
  match c.stage with
  | .find l none => .ok (s.setPc (some { c with stage := .find l (some (LinkMem.next s.sched.links l.list.head)) }))
  | .find l (some elem) =>
    if elem = l.list.tail then .ok (s.setPc (some { c with stage := .disable l }))
    else if elem = .null then .error .nullElem
    else if elem = tag l c.pthread then .error .found
    else .ok (s.setPc (some { c with stage := .find l (some (LinkMem.next s.sched.links elem)) }))
  | .disable l =>
    .ok ({ s with flag := (disableInt s.flag).2 }.setPc
      (some { c with stage := .insert l (disableInt s.flag).1 insertStmts }))
  | .insert l old (i :: stmts) =>
    match i.exec l.list.tail (tag l c.pthread) s.sched.links with
    | some links => .ok ({ s with sched := { s.sched with links := links } }.setPc
        (some { c with stage := .insert l old stmts }))
    | none => .error (.sched .nullElem)
  | .insert l old [] =>
    -- `list_append` returns to its caller
    let s := { s with flag := (setIntStatus old s.flag).2 }
    match l, c.oldStatus with
    | .ready, _ => .ok (s.setPc (some { c with stage := .find .all none }))
    | _, some _ => .ok (s.setPc (some { c with stage := .setInt }))
    | _, none => .ok (s.setPc none)
  | .setInt => .ok { s.setPc none with flag := (setIntStatus (c.oldStatus.getD s.flag) s.flag).2 }

inductive Event (S : Type) where
  | threadStart (p : Nat) (priority : Int)
  | execProcess (p bits pde : Nat)
  | next
  | timer
  | down (psema : S)
  | up (psema : S)
  /-- back from the `BlockThread` inside `SemaphoreDown` -/
  | retest
  /-- `EnableInt` or `DisableInt` -/
  | setInt (i : IntStatus)

/-- `ThreadStart` and `ExecProcess` begin where their calls of `kpalloc` and `AllocatePid` are done. -/
def step (s : Starts S) : Event S → Except StartStop (Starts S)
  | .threadStart p priority =>
    withSched ((s.sched.init p priority).getPcb p |>.map fun t => (s.sched.init p priority).setPcb p (threadCreate t))
      fun sched => { s with sched := sched }.setPc (some ⟨p, none, .find .ready none⟩)
  | .execProcess p bits pde =>
    if bits = 0 ∨ pde = 0 then .error (.sched .noMemory)
    else withSched ((s.sched.init p 31).getPcb p |>.map fun t => (s.sched.init p 31).setPcb p (processPcb t bits pde))
      fun sched => { s with sched := sched }.setPc (some ⟨p, some s.flag, .find .ready none⟩)
  | .next => match s.pc s.sched.current with
    | some c => s.next c
    | none => .ok s
  | .timer => withSched s.sched.intTimerHandler (s.switched s.flag)
  | .down psema => withSched (s.sched.semaphoreDown psema) (s.switched s.flag)
  | .up psema => withSched (s.sched.semaphoreUp psema) fun sched => { s with sched := sched }
  | .retest => match s.sched.inDown s.sched.current with
    | some psema => withSched (s.sched.semaphoreDown psema) (s.switched (s.saved s.sched.current))
    | none => .ok s
  | .setInt i => .ok { s with flag := i }

/-- When an event can happen: a thread is in one function at a time, and the timer interrupts only
while the flag is on. -/
def Enabled (s : Starts S) : Event S → Prop
  | .threadStart p _ => s.pc s.sched.current = none ∧ s.sched.inDown s.sched.current = none ∧ s.sched.FreshPage p
  | .execProcess p _ _ => s.pc s.sched.current = none ∧ s.sched.inDown s.sched.current = none ∧ s.sched.FreshPage p
  | .next => (s.pc s.sched.current).isSome
  | .timer => s.flag = .on
  | .down _ => s.pc s.sched.current = none ∧ s.sched.inDown s.sched.current = none
  | .up _ => s.pc s.sched.current = none ∧ s.sched.inDown s.sched.current = none
  | .retest => s.sched.inDown s.sched.current ≠ none
  | .setInt _ => s.pc s.sched.current = none ∧ s.sched.inDown s.sched.current = none

/-- After `InitAll`: interrupts are off, and a new thread will be entered with interrupts on. -/
def init (sched : Sched S) : Starts S := ⟨sched, .off, fun _ => .on, fun _ => none⟩

/-- The runs whose steps all satisfy `ok`. -/
inductive Reachable (value : S → Nat) (ok : Starts S → Event S → Prop) : Starts S → Prop
  | init {sched : Sched S} : Sched.threadInit value = .ok sched → Reachable value ok (init sched)
  | step {s s' : Starts S} {e : Event S} : Reachable value ok s → Enabled s e → ok s e → s.step e = .ok s' →
      Reachable value ok s'

/-- `ThreadStart` and `ExecProcess` are called with interrupts off. -/
def Masked (s : Starts S) : Event S → Prop
  | .threadStart _ _ => s.flag = .off
  | .execProcess _ _ _ => s.flag = .off
  | _ => True

/-! ## The property -/

def Stage.isFind : Stage S → Bool
  | .find _ _ => true
  | _ => false

omit [DecidableEq S] in
theorem Stage.isFind_iff {c : Stage S} : c.isFind = true ↔ ∃ l elem, c = .find l elem := by
  cases c <;> simp [Stage.isFind]

/-- The thread is in a traversal. -/
def Finding (s : Starts S) (t : Nat) : Prop := ∃ c l elem, s.pc t = some c ∧ c.stage = .find l elem

/-- A traversal is made from start to end with interrupts off: only the thread on the CPU can be in one. -/
def Disciplined (s : Starts S) : Prop := ∀ t, s.Finding t → t = s.sched.current ∧ s.flag = .off

/-- The traversal the current thread is in ends at the tail of its own list, with the right answer: the
new tag is not there. -/
def EndsRight (s : Starts S) : Prop :=
  ∀ c l elem, s.pc s.sched.current = some c → c.stage = .find l (some elem) →
    ∃ xs fuel, IsSeq s.sched.links (.head l) (.tail l) xs ∧ tag l c.pthread ∉ xs ∧
      elemFindFrom s.sched.links (.tail l) (tag l c.pthread) fuel elem = some false

/-- The statements of the two functions that change a list are executed with interrupts off. -/
def UpdatesMasked (s : Starts S) : Prop :=
  ∀ s', Enabled s .next → s.step .next = .ok s' → s'.sched.links ≠ s.sched.links → s.flag = .off

/-- No `ASSERT` on `elem_find`, or in it, fails. -/
def NoFailure (s : Starts S) : Prop :=
  ∀ e, Enabled s e → s.step e ≠ .error .nullElem ∧ s.step e ≠ .error .found ∧ s.step e ≠ .error (.sched .elemFind)

/-! ## The invariant -/

/-- The list `l` is there without the tag of `p`, and `p` can be appended to it, with `Q` afterwards. -/
def Appendable (sched : Sched S) (l : ListId S) (p : Nat) (Q : Sched S → Prop) : Prop :=
  ∃ xs sched', IsSeq sched.links (.head l) (.tail l) xs ∧ xs.length < Sched.traversal ∧ tag l p ∉ xs ∧
    sched.append l (tag l p) = .ok sched' ∧ Q sched'

/-- The traversal from `elem` on. -/
def Ahead (sched : Sched S) (l : ListId S) (p : Nat) : Option (Node S) → Prop
  | none => True
  | some elem => ∃ fuel, elemFindFrom sched.links (.tail l) (tag l p) fuel elem = some false

/-- The statements of `list_insert_before` that are left succeed, with `Q` afterwards. -/
def Inserting (sched : Sched S) (l : ListId S) (p : Nat) (stmts : List Insert) (Q : Sched S → Prop) : Prop :=
  ∃ links, stmts.foldlM (Insert.exec l.list.tail (tag l p)) sched.links = some links ∧ Q { sched with links := links }

/-- What is left to do succeeds. -/
def Rest (sched : Sched S) (c : StartCall S) : Prop :=
  match c.stage with
  | .find .ready elem => Ahead sched .ready c.pthread elem ∧
      Appendable sched .ready c.pthread fun sched => Appendable sched .all c.pthread Sched.Inv
  | .disable .ready => Appendable sched .ready c.pthread fun sched => Appendable sched .all c.pthread Sched.Inv
  | .insert .ready old stmts => old = .off ∧
      Inserting sched .ready c.pthread stmts fun sched => Appendable sched .all c.pthread Sched.Inv
  | .find .all elem => Ahead sched .all c.pthread elem ∧ Appendable sched .all c.pthread Sched.Inv
  | .disable .all => Appendable sched .all c.pthread Sched.Inv
  | .insert .all old stmts => old = .off ∧ Inserting sched .all c.pthread stmts Sched.Inv
  | .setInt => sched.Inv
  | _ => False

structure Inv (s : Starts S) : Prop where
  quiet : ∀ t, t ≠ s.sched.current → s.pc t = none
  masked : s.pc s.sched.current ≠ none → s.flag = .off ∧ s.sched.inDown s.sched.current = none
  idle : s.pc s.sched.current = none → s.sched.Inv
  rest : ∀ c, s.pc s.sched.current = some c → Rest s.sched c

section Step
variable {s s' : Starts S} {sched : Sched S}

/-- Outside the two functions the state is that of the scheduler. -/
theorem inv_of_idle (hpc : ∀ t, s.pc t = none) (hs : s.sched.Inv) : s.Inv := by
  refine ⟨fun t _ => hpc t, fun h => absurd (hpc _) h, fun _ => hs, fun c hc => ?_⟩
  rw [hpc] at hc
  cases hc

theorem Inv.all_idle (hi : s.Inv) (hpc : s.pc s.sched.current = none) (t : Nat) : s.pc t = none := by
  by_cases ht : t = s.sched.current
  · rw [ht, hpc]
  · exact hi.quiet t ht

/-- The current thread, with interrupts off, goes on to what is left. -/
theorem Inv.goto (hi : s.Inv) {c : StartCall S} {flag : IntStatus} (hrest : Rest sched c)
    (hcur : sched.current = s.sched.current) (hdown : sched.inDown s.sched.current = none) (hflag : flag = .off) :
    Inv (setPc { s with sched := sched, flag := flag } (some c)) := by
  refine ⟨fun t ht => ?_, fun _ => ⟨hflag, ?_⟩, fun h => ?_, fun c' hc => ?_⟩
  · have ht' : t ≠ sched.current := ht
    simpa [setPc, Function.update_of_ne ht'] using hi.quiet t (hcur ▸ ht')
  · show sched.inDown sched.current = none
    rw [hcur, hdown]
  · simp [setPc] at h
  · simp only [setPc, Function.update_self, Option.some.injEq] at hc
    exact hc ▸ hrest

/-- The current thread returns. -/
theorem Inv.finish (hi : s.Inv) (hcur : sched.current = s.sched.current) (hs : sched.Inv) (flag : IntStatus) :
    Inv { setPc { s with sched := sched } none with flag := flag } := by
  refine inv_of_idle (fun t => ?_) hs
  by_cases ht : t = sched.current
  · simp [setPc, ht]
  · simpa [setPc, Function.update_of_ne ht] using hi.quiet t (hcur ▸ ht)

/-- The start of a traversal: `elem_find` will not find the new tag. -/
theorem Appendable.first {l : ListId S} {p : Nat} {Q : Sched S → Prop} (h : Appendable sched l p Q) :
    Ahead sched l p (some (LinkMem.next sched.links l.list.head)) := by
  obtain ⟨xs, -, hseq, hlen, hnot, -⟩ := h
  have := elemFind_isSeq (l := l.list) hseq (tag l p) hlen
  rw [decide_eq_false hnot] at this
  exact ⟨Sched.traversal, this⟩

/-- One round of the loop of `elem_find`. -/
theorem Ahead.next {l : ListId S} {p : Nat} {elem : Node S} (h : Ahead sched l p (some elem))
    (htail : elem ≠ l.list.tail) :
    elem ≠ .null ∧ elem ≠ tag l p ∧ Ahead sched l p (some (LinkMem.next sched.links elem)) := by
  obtain ⟨fuel, hf⟩ := h
  cases fuel with
  | zero => cases hf
  | succ fuel =>
    have htail' : elem ≠ .tail l := htail
    unfold elemFindFrom at hf
    rw [if_neg htail'] at hf
    split at hf
    · cases hf
    · rename_i hnull
      split at hf
      · cases hf
      · rename_i hobj
        exact ⟨hnull, hobj, fuel, hf⟩

/-- A step inside a traversal. -/
theorem Inv.find (hi : s.Inv) {c : StartCall S} {l : ListId S} {elem : Option (Node S)}
    (hc : s.pc s.sched.current = some c) (hstage : c.stage = .find l elem) {Q : Sched S → Prop}
    (hahead : Ahead s.sched l c.pthread elem) (happ : Appendable s.sched l c.pthread Q)
    (hfind : ∀ elem', Ahead s.sched l c.pthread elem' → Rest s.sched { c with stage := .find l elem' })
    (hend : Rest s.sched { c with stage := .disable l }) : ∃ s', s.next c = .ok s' ∧ s'.Inv := by
  obtain ⟨hflag, hdown⟩ := hi.masked (by simp [hc])
  cases elem with
  | none =>
    refine ⟨_, by rw [Starts.next, hstage], ?_⟩
    exact hi.goto (hfind _ happ.first) rfl hdown hflag
  | some elem =>
    by_cases htail : elem = l.list.tail
    · refine ⟨_, by rw [Starts.next, hstage]; exact if_pos htail, ?_⟩
      exact hi.goto hend rfl hdown hflag
    · obtain ⟨hnull, hobj, hnext⟩ := hahead.next htail
      refine ⟨s.setPc (some { c with stage := .find l (some (LinkMem.next s.sched.links elem)) }), ?_, ?_⟩
      · rw [Starts.next, hstage]
        simp only [if_neg htail, if_neg hnull, if_neg hobj]
      · exact hi.goto (hfind _ hnext) rfl hdown hflag

/-- `DisableInt`, and the whole insertion is left. -/
theorem Appendable.inserting {l : ListId S} {p : Nat} {Q : Sched S → Prop} (h : Appendable sched l p Q) :
    Inserting sched l p insertStmts Q := by
  obtain ⟨xs, sched', -, -, -, happ, hq⟩ := h
  unfold Sched.append listAppend at happ
  rw [listInsertBefore_stmts] at happ
  split at happ
  · rename_i links hlinks
    cases happ
    exact ⟨links, hlinks, hq⟩
  · cases happ

theorem Inv.disable (hi : s.Inv) {c : StartCall S} {l : ListId S} (hc : s.pc s.sched.current = some c)
    (hstage : c.stage = .disable l) (hrest : Rest s.sched { c with stage := .insert l .off insertStmts }) :
    ∃ s', s.next c = .ok s' ∧ s'.Inv := by
  obtain ⟨hflag, hdown⟩ := hi.masked (by simp [hc])
  have hdis : disableInt s.flag = (.off, .off) := by
    rw [disableInt_eq, hflag]
  refine ⟨{ s with flag := .off }.setPc (some { c with stage := .insert l .off insertStmts }), ?_, ?_⟩
  · rw [Starts.next, hstage]
    dsimp only
    rw [hdis]
  · exact hi.goto hrest rfl hdown rfl

/-- One statement of `list_insert_before`. -/
theorem Inv.insert (hi : s.Inv) {c : StartCall S} {l : ListId S} {i : Insert} {stmts : List Insert} {Q : Sched S → Prop}
    (hc : s.pc s.sched.current = some c) (hstage : c.stage = .insert l .off (i :: stmts))
    (hins : Inserting s.sched l c.pthread (i :: stmts) Q)
    (hrest : ∀ sched, Inserting sched l c.pthread stmts Q → Rest sched { c with stage := .insert l .off stmts }) :
    ∃ s', s.next c = .ok s' ∧ s'.Inv := by
  obtain ⟨hflag, hdown⟩ := hi.masked (by simp [hc])
  obtain ⟨links, hfold, hq⟩ := hins
  rw [List.foldlM_cons] at hfold
  obtain ⟨links1, hexec, hfold⟩ := Option.bind_eq_some_iff.1 hfold
  refine ⟨_, by rw [Starts.next, hstage]; dsimp only; rw [hexec], ?_⟩
  have hrest1 := hrest { s.sched with links := links1 } ⟨links, hfold, hq⟩
  exact hi.goto hrest1 rfl hdown hflag

/-- Every statement of the end of `ThreadStart` and `ExecProcess` succeeds. -/
theorem Inv.next (hi : s.Inv) {c : StartCall S} (hc : s.pc s.sched.current = some c) :
    ∃ s', s.next c = .ok s' ∧ s'.Inv := by
  obtain ⟨hflag, hdown⟩ := hi.masked (by simp [hc])
  have hset : ∀ old, (setIntStatus old s.flag).2 = old := fun old => by rw [setIntStatus_eq]
  have hrest := hi.rest c hc
  unfold Rest at hrest
  split at hrest
  · rename_i elem hstage
    exact hi.find hc hstage hrest.1 hrest.2 (fun elem' h => ⟨h, hrest.2⟩) hrest.2
  · rename_i hstage
    exact hi.disable hc hstage ⟨rfl, hrest.inserting⟩
  · rename_i old stmts hstage
    obtain ⟨rfl, hins⟩ := hrest
    cases stmts with
    | cons i stmts => exact hi.insert hc hstage hins fun sched h => ⟨rfl, h⟩
    | nil =>
      obtain ⟨links, hfold, hq⟩ := hins
      cases hfold
      have hgoal : Rest s.sched { c with stage := .find .all none } := ⟨trivial, hq⟩
      refine ⟨_, by rw [Starts.next, hstage], ?_⟩
      exact hi.goto hgoal rfl hdown (hset .off)
  · rename_i elem hstage
    exact hi.find hc hstage hrest.1 hrest.2 (fun elem' h => ⟨h, hrest.2⟩) hrest.2
  · rename_i hstage
    exact hi.disable hc hstage ⟨rfl, hrest.inserting⟩
  · rename_i old stmts hstage
    obtain ⟨rfl, hins⟩ := hrest
    cases stmts with
    | cons i stmts => exact hi.insert hc hstage hins fun sched h => ⟨rfl, h⟩
    | nil =>
      obtain ⟨links, hfold, hq⟩ := hins
      cases hfold
      cases hold : c.oldStatus with
      | none =>
        refine ⟨_, by rw [Starts.next, hstage]; simp only [hold]; rfl, ?_⟩
        exact hi.finish rfl hq _
      | some i =>
        have hgoal : Rest s.sched { c with stage := .setInt } := hq
        refine ⟨_, by rw [Starts.next, hstage]; simp only [hold]; rfl, ?_⟩
        exact hi.goto hgoal rfl hdown (hset .off)
  · rename_i hstage
    refine ⟨_, by rw [Starts.next, hstage], ?_⟩
    exact hi.finish rfl hrest _
  · exact hrest.elim

/-- A call of one of the two functions with interrupts off. -/
theorem Inv.start (hi : s.Inv) (hpc : s.pc s.sched.current = none) (hdown : s.sched.inDown s.sched.current = none)
    (hflag : s.flag = .off) {p : Nat} (hp : s.sched.FreshPage p) (priority : Int) {t : PCB} (hst : t.status = .ready)
    (hcan : t.canary = stackCanary) (old : Option IntStatus) :
    Inv (setPc { s with sched := (s.sched.init p priority).setPcb p t } (some ⟨p, old, .find .ready none⟩)) := by
  obtain ⟨seq, hs⟩ := hi.idle hpc
  have hparts := Sched.enlist_parts (s := (s.sched.init p priority).setPcb p t) hs hp hst hcan rfl
    (by simp [Sched.setPcb, Sched.init]) rfl rfl rfl
  obtain ⟨seq1, s1, s2, hf, hlen, hnot, happ, hf1, hlen1, hnot1, happ1, -, seq2, hinv, -⟩ := hparts
  have hrest : Rest ((s.sched.init p priority).setPcb p t) ⟨p, old, .find .ready none⟩ :=
    ⟨trivial, seq .ready, s1, hf.isSeq .ready, hlen, hnot, happ, seq1 .all, s2, hf1.isSeq .all, hlen1, hnot1, happ1, seq2, hinv⟩
  exact hi.goto hrest rfl hdown hflag

/-- A step that leaves the current thread, or another one, outside the two functions. -/
theorem Inv.moved (hi : s.Inv) (hpc : s.pc s.sched.current = none) (hs : sched.Inv) (saved : Nat → IntStatus)
    (flag : IntStatus) : Inv { s with sched := sched, saved := saved, flag := flag } :=
  inv_of_idle (hi.all_idle hpc) hs

/-- How a step can end. -/
def Ends (r : Except StartStop (Starts S)) : Prop :=
  (∃ s', r = .ok s' ∧ s'.Inv) ∨ ∃ e, r = .error (.sched e) ∧ e ≠ .elemFind

theorem ends_withSched {r : Except Stop (Sched S)} {f : Sched S → Starts S} (hr : Sched.Ends r)
    (hf : ∀ sched, sched.Inv → (f sched).Inv) : Ends (withSched r f) := by
  rcases hr with ⟨sched, rfl, hs⟩ | rfl | rfl | rfl
  · exact .inl ⟨_, rfl, hf sched hs⟩
  · exact .inr ⟨_, rfl, by simp⟩
  · exact .inr ⟨_, rfl, by simp⟩
  · exact .inr ⟨_, rfl, by simp⟩

theorem Inv.step (hi : s.Inv) {e : Event S} (he : Enabled s e) (hm : Masked s e) : Ends (s.step e) := by
  cases e with
  | threadStart p priority =>
    obtain ⟨hpc, hdown, hp⟩ := he
    obtain ⟨seq, hs⟩ := hi.idle hpc
    refine .inl ⟨_, ?_, hi.start hpc hdown hm hp priority (t := threadCreate (initThread s.sched.mainThread p
      ((s.sched.nextPid + 1) % 65536) priority)) ?_ rfl none⟩
    · simp only [Starts.step, Sched.init_getPcb, Except.map, withSched]
    · simp [threadCreate, initThread, hs.fresh_ne_main hp]
  | execProcess p bits pde =>
    obtain ⟨hpc, hdown, hp⟩ := he
    obtain ⟨seq, hs⟩ := hi.idle hpc
    by_cases hmem : bits = 0 ∨ pde = 0
    · exact .inr ⟨.noMemory, if_pos hmem, by simp⟩
    · refine .inl ⟨_, ?_, hi.start hpc hdown hm hp 31 (t := processPcb (initThread s.sched.mainThread p
        ((s.sched.nextPid + 1) % 65536) 31) bits pde) ?_ rfl (some s.flag)⟩
      · simp only [Starts.step, if_neg hmem, Sched.init_getPcb, Except.map, withSched]
      · simp [processPcb, threadCreate, initThread, hs.fresh_ne_main hp]
  | next =>
    obtain ⟨c, hc⟩ := Option.isSome_iff_exists.1 he
    simp only [Starts.step, hc]
    exact .inl (hi.next hc)
  | timer =>
    have hpc : s.pc s.sched.current = none := by
      by_contra hpc
      have := (hi.masked hpc).1
      rw [show s.flag = .on from he] at this
      cases this
    obtain ⟨seq, hs⟩ := hi.idle hpc
    exact ends_withSched (.inl (Sched.intTimerHandler_ok hs)) fun sched hs => hi.moved hpc hs _ _
  | down psema =>
    obtain ⟨seq, hs⟩ := hi.idle he.1
    exact ends_withSched (Sched.semaphoreDown_ends hs psema) fun sched hs => hi.moved he.1 hs _ _
  | up psema =>
    obtain ⟨seq, hs⟩ := hi.idle he.1
    exact ends_withSched (.inl (Sched.semaphoreUp_ok hs psema)) fun sched hs => hi.moved he.1 hs _ _
  | retest =>
    have hpc : s.pc s.sched.current = none := by
      by_contra hpc
      exact he (hi.masked hpc).2
    obtain ⟨psema, hd⟩ := Option.ne_none_iff_exists'.1 he
    obtain ⟨seq, hs⟩ := hi.idle hpc
    simp only [Starts.step, hd]
    exact ends_withSched (Sched.semaphoreDown_ends hs psema) fun sched hs => hi.moved hpc hs _ _
  | setInt i => exact .inl ⟨_, rfl, hi.moved he.1 (hi.idle he.1) _ _⟩

end Step

/-! ## Runs -/

theorem Reachable.inv {value : S → Nat} {s : Starts S} (h : Reachable value Masked s) : s.Inv := by
  induction h with
  | init h =>
    obtain ⟨sched, h', hs⟩ := Sched.threadInit_inv value
    cases h.symm.trans h'
    exact inv_of_idle (fun _ => rfl) hs
  | step _ he hm hstep ih =>
    rcases ih.step he hm with ⟨s', hs', hi⟩ | ⟨e, herr, -⟩
    · cases hstep.symm.trans hs'
      exact hi
    · cases hstep.symm.trans herr

theorem Inv.disciplined {s : Starts S} (hi : s.Inv) : s.Disciplined := by
  rintro t ⟨c, l, elem, hc, -⟩
  have ht : t = s.sched.current := by
    by_contra ht
    rw [hi.quiet t ht] at hc
    cases hc
  subst ht
  exact ⟨rfl, (hi.masked (by simp [hc])).1⟩

theorem Inv.updatesMasked {s : Starts S} (hi : s.Inv) : s.UpdatesMasked := by
  intro s' he _ _
  have hpc : s.pc s.sched.current ≠ none := by
    rw [← Option.isSome_iff_ne_none]
    exact he
  exact (hi.masked hpc).1

theorem Inv.endsRight {s : Starts S} (hi : s.Inv) : s.EndsRight := by
  intro c l elem hc hstage
  have hrest := hi.rest c hc
  rw [Rest, hstage] at hrest
  cases l with
  | ready =>
    obtain ⟨⟨fuel, hf⟩, xs, -, hseq, -, hnot, -⟩ := hrest
    exact ⟨xs, fuel, hseq, hnot, hf⟩
  | all =>
    obtain ⟨⟨fuel, hf⟩, xs, -, hseq, -, hnot, -⟩ := hrest
    exact ⟨xs, fuel, hseq, hnot, hf⟩
  | waiting psema => exact hrest.elim

theorem Ends.noFailure {r : Except StartStop (Starts S)} (h : Ends r) :
    r ≠ .error .nullElem ∧ r ≠ .error .found ∧ r ≠ .error (.sched .elemFind) := by
  rcases h with ⟨s', rfl, -⟩ | ⟨e, rfl, hne⟩
  · simp
  · simpa using hne

theorem Inv.noFailure {s : Starts S} (hi : s.Inv) : s.NoFailure := by
  intro e he
  cases e with
  | threadStart p priority =>
    -- the call itself traverses nothing, also with interrupts on
    simp [Starts.step, Sched.init_getPcb, Except.map, withSched]
  | execProcess p bits pde =>
    simp only [Starts.step, Sched.init_getPcb, Except.map, withSched]
    split <;> simp
  | next => exact (hi.step he trivial).noFailure
  | timer => exact (hi.step he trivial).noFailure
  | down psema => exact (hi.step he trivial).noFailure
  | up psema => exact (hi.step he trivial).noFailure
  | retest => exact (hi.step he trivial).noFailure
  | setInt i => exact (hi.step he trivial).noFailure

instance (s : Starts S) : (e : Event S) → Decidable (Enabled s e)
  | .threadStart p _ => inferInstanceAs (Decidable (s.pc s.sched.current = none ∧
      s.sched.inDown s.sched.current = none ∧ s.sched.FreshPage p))
  | .execProcess p _ _ => inferInstanceAs (Decidable (s.pc s.sched.current = none ∧
      s.sched.inDown s.sched.current = none ∧ s.sched.FreshPage p))
  | .next => inferInstanceAs (Decidable (s.pc s.sched.current).isSome)
  | .timer => inferInstanceAs (Decidable (s.flag = .on))
  | .down _ => inferInstanceAs (Decidable (s.pc s.sched.current = none ∧ s.sched.inDown s.sched.current = none))
  | .up _ => inferInstanceAs (Decidable (s.pc s.sched.current = none ∧ s.sched.inDown s.sched.current = none))
  | .retest => inferInstanceAs (Decidable (s.sched.inDown s.sched.current ≠ none))
  | .setInt _ => inferInstanceAs (Decidable (s.pc s.sched.current = none ∧ s.sched.inDown s.sched.current = none))

instance (s : Starts S) : (e : Event S) → Decidable (Masked s e)
  | .threadStart _ _ => inferInstanceAs (Decidable (s.flag = .off))
  | .execProcess _ _ _ => inferInstanceAs (Decidable (s.flag = .off))
  | .next | .timer | .down _ | .up _ | .retest | .setInt _ => isTrue trivial

/-- Run through events, as long as they are enabled, satisfy `ok`, and no `ASSERT` fails. -/
def run (ok : Starts S → Event S → Prop) [∀ s e, Decidable (ok s e)] (s : Starts S) : List (Event S) → Option (Starts S)
  | [] => some s
  | e :: es => if Enabled s e ∧ ok s e then
      match s.step e with
      | .ok s' => s'.run ok es
      | .error _ => none
    else none

theorem Reachable.run {value : S → Nat} {ok : Starts S → Event S → Prop} [∀ s e, Decidable (ok s e)] {s s' : Starts S}
    {es : List (Event S)} (h : Reachable value ok s) (hrun : s.run ok es = some s') : Reachable value ok s' := by
  induction es generalizing s with
  | nil =>
    cases hrun
    exact h
  | cons e es ih =>
    unfold Starts.run at hrun
    split at hrun
    · rename_i he
      split at hrun
      · rename_i s1 hs1
        exact ih (h.step he.1 he.2 hs1) hrun
      · cases hrun
    · cases hrun

/-- In a run that calls `ThreadStart` and `ExecProcess` with interrupts off, every traversal of the thread
lists is made with interrupts off, ends at the tail of its list with the right answer, no `ASSERT` on it fails,
and the lists are changed with interrupts off. So are they, whatever the flag at the calls, by the timer handler
and the functions of locks and semaphores. -/
theorem thread_lists_masked (value : S → Nat) (s : Starts S) (h : Reachable value Masked s) :
    s.Disciplined ∧ s.EndsRight ∧ s.NoFailure ∧ s.UpdatesMasked ∧
      ∀ m : Machine (ThreadData S) Nat (Node S) Fn, Code.Reachable m → Code.UsesLists m → m.flag = .off :=
  ⟨h.inv.disciplined, h.inv.endsRight, h.inv.noFailure, h.inv.updatesMasked, fun _ hm hu => Code.usesLists_off hm hu⟩

/-- The second process is put into the lists while the first is there. -/
theorem thread_lists_masked_second :
    ∃ s : Starts Unit, Reachable (fun _ => 1) Masked s ∧ s.Finding s.sched.current ∧
      s.Disciplined ∧ s.EndsRight ∧ s.NoFailure := by
  let es : List (Event Unit) := .execProcess 0xC0100000 0xC0101000 0xC0107000 :: List.replicate 20 .next ++
    [.execProcess 0xC0108000 0xC0109000 0xC010F000, .next]
  have hfacts : ∃ sched, Sched.threadInit (fun _ : Unit => 1) = .ok sched ∧
      (((init sched).run Masked es).bind fun s => s.pc s.sched.current).map (·.stage.isFind) = some true :=
    ⟨_, rfl, by decide +kernel⟩
  obtain ⟨sched, hsched, hmap⟩ := hfacts
  obtain ⟨c, hbind, hfind⟩ := Option.map_eq_some_iff.1 hmap
  obtain ⟨s, hrun, hc⟩ := Option.bind_eq_some_iff.1 hbind
  have hreach : Reachable (fun _ => 1) Masked s := (Reachable.init hsched).run hrun
  obtain ⟨hdisc, hends, hfail, -⟩ := thread_lists_masked (fun _ => 1) s hreach
  exact ⟨s, hreach, ⟨c, (Stage.isFind_iff.1 hfind).imp fun l h => h.imp fun elem h => ⟨hc, h⟩⟩, hdisc, hends, hfail⟩

/-- The order of calls in `_start`: two processes, `EnableInt`, `ThreadStart`. While the main thread is at
the tag of the second process, its time is over; the first process takes a lock, its time is over; the
second blocks on the lock. The main thread goes on into the waiting list, and past its tail to NULL. -/
theorem thread_lists_not_masked :
    ∃ s : Starts Unit, Reachable (fun _ => 1) (fun _ _ => True) s ∧ ¬ s.Disciplined ∧
      s.step .next = .error .nullElem := by
  let es : List (Event Unit) := .execProcess 0xC0100000 0xC0101000 0xC0107000 :: List.replicate 20 .next ++
    .execProcess 0xC0108000 0xC0109000 0xC010F000 :: List.replicate 22 .next ++
    [.setInt .on, .threadStart 0xC0110000 5, .next, .next] ++ List.replicate 32 .timer ++
    .down () :: List.replicate 32 .timer ++ [.down (), .next, .next]
  have hfacts : ∃ sched, Sched.threadInit (fun _ : Unit => 1) = .ok sched ∧
      ((init sched).run (fun _ _ => True) es).map (fun s =>
        (s.flag, (s.pc s.sched.current).map fun c => (c.stage.isFind, s.next c matches .error .nullElem))) =
          some (.on, some (true, true)) := ⟨_, rfl, by decide +kernel⟩
  obtain ⟨sched, hsched, hmap⟩ := hfacts
  obtain ⟨s, hrun, hs⟩ := Option.map_eq_some_iff.1 hmap
  obtain ⟨hflag, hpc⟩ := Prod.mk.inj hs
  obtain ⟨c, hc, hc'⟩ := Option.map_eq_some_iff.1 hpc
  obtain ⟨hfind, hnull⟩ := Prod.mk.inj hc'
  obtain ⟨l, elem, hstage⟩ := Stage.isFind_iff.1 hfind
  refine ⟨s, (Reachable.init hsched).run hrun, fun hd => ?_, ?_⟩
  · have := (hd s.sched.current ⟨c, l, elem, hc, hstage⟩).2
    rw [hflag] at this
    cases this
  · simp only [Starts.step, hc]
    split at hnull
    · assumption
    · cases hnull

end Starts

end ElephantOS
