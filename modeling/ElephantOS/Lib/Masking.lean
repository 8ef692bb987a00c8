import Mathlib.Logic.Function.Basic
import Mathlib.Tactic.Common

/-!
# Code that masks interrupts

Threads share one CPU whose interrupt flag a switch does not save. A function masks interrupts by
saving the flag in a local variable, clearing it, and restoring it before it returns.

* `Cmd` : function bodies over any data; `disable` saves the flag in the local variable of the frame,
  `restore` puts it back;
* `Frame`, `Machine` : one stack of frames for each thread; the ghost `entry` is the flag when the frame
  was made, which an interrupt frame restores itself;
* `Machine.step` : a thread calls a function, executes its next command, or is interrupted;
* `Keeps free k c m m'` : `c` leads from `m` to `m'`, where these say whether interrupts are masked by this
  frame, and `k` that the function is only called with interrupts off; statements that are not `free` are
  executed with interrupts off;
* `Machine.Inv` : every stack continues with the flags its frames expect; `Inv.step`.
-/

namespace Masking

inductive IntStatus where
  | off
  | on
  deriving DecidableEq, Repr

inductive Cmd (D T X F : Type) where
  | skip
  /-- a statement that does not touch the flag; `none` stops the machine -/
  | act (f : T → D → Option D)
  | seq (a b : Cmd D T X F)
  | ite (b : T → D → Bool) (yes no : Cmd D T X F)
  | loop (b : T → D → Bool) (body : Cmd D T X F)
  /-- a value the following code depends on -/
  | read (f : T → D → X) (k : X → Cmd D T X F)
  | call (name : F) (body : Cmd D T X F)
  | disable
  | restore
  | assertOff
  /-- give the CPU to another thread -/
  | switchTo (next : D → Option T)

/-- What a frame is there for: a call, a command of the thread's own code, an interrupt, or the first
entry into a thread. -/
inductive Kind (F : Type) where
  | fn (name : F)
  | own
  | interrupt
  | start
  deriving DecidableEq, Repr

structure Frame (D T X F : Type) where
  kind : Kind F
  entry : IntStatus
  old : IntStatus
  todo : List (Cmd D T X F)

structure Machine (D T X F : Type) where
  flag : IntStatus
  current : T
  data : D
  stack : T → List (Frame D T X F)

variable {D T X F A : Type} [DecidableEq T]

namespace Machine

def setStack (s : Machine D T X F) (fs : List (Frame D T X F)) : Machine D T X F :=
  { s with stack := Function.update s.stack s.current fs }

/-- The next command `c` of the frame `f`, with `cs` behind it. -/
def execCmd (s : Machine D T X F) (f : Frame D T X F) (fs : List (Frame D T X F)) (cs : List (Cmd D T X F)) :
    Cmd D T X F → Option (Machine D T X F)
  | .skip => some (s.setStack ({ f with todo := cs } :: fs))
  | .act g => (g s.current s.data).map fun d => { s.setStack ({ f with todo := cs } :: fs) with data := d }
  | .seq a b => some (s.setStack ({ f with todo := a :: b :: cs } :: fs))
  | .ite b yes no =>
    some (s.setStack ({ f with todo := (if b s.current s.data then yes else no) :: cs } :: fs))
  | .loop b body =>
    some (s.setStack ({ f with todo := if b s.current s.data then body :: .loop b body :: cs else cs } :: fs))
  | .read g k => some (s.setStack ({ f with todo := k (g s.current s.data) :: cs } :: fs))
  | .call name body => some (s.setStack (⟨.fn name, s.flag, s.flag, [body]⟩ :: { f with todo := cs } :: fs))
  | .disable => some { s.setStack ({ f with old := s.flag, todo := cs } :: fs) with flag := .off }
  | .restore => some { s.setStack ({ f with todo := cs } :: fs) with flag := f.old }
  | .assertOff => if s.flag = .off then some (s.setStack ({ f with todo := cs } :: fs)) else none
  | .switchTo next => (next s.data).map fun t => { s.setStack ({ f with todo := cs } :: fs) with current := t }

/-- The current thread goes on in the functions it is in. A thread is entered with interrupts on; the
return from an interrupt restores the flag. -/
def exec (s : Machine D T X F) : Option (Machine D T X F) :=
  match s.stack s.current with
  | [] => none
  | f :: fs =>
    match f.kind, f.todo with
    | .start, _ => some { s.setStack fs with flag := .on }
    | .interrupt, [] => some { s.setStack fs with flag := f.entry }
    | _, [] => some (s.setStack fs)
    | _, c :: cs => s.execCmd f fs cs c

/-- `call`, `set` and `other` are by the thread's own code, outside the functions. -/
inductive Event (D A : Type) where
  | exec
  | call (a : A)
  | interrupt
  | set (i : IntStatus)
  | other (d : D)

/-- `api` are the calls the threads make, `isr` is the interrupt handler. -/
def step (api : A → Cmd D T X F) (isr : Cmd D T X F) (s : Machine D T X F) :
    Event D A → Option (Machine D T X F)
  | .exec => s.exec
  | .call a =>
    if (s.stack s.current).isEmpty then some (s.setStack [⟨.own, s.flag, s.flag, [api a]⟩]) else none
  | .interrupt =>
    if s.flag = .on then
      some { s.setStack (⟨.interrupt, s.flag, s.flag, [isr]⟩ :: s.stack s.current) with flag := .off }
    else none
  | .set i => if (s.stack s.current).isEmpty then some { s with flag := i } else none
  | .other d => if (s.stack s.current).isEmpty then some { s with data := d } else none

/-- One thread runs its own code; the others have not been entered. -/
def init (flag : IntStatus) (main : T) (data : D) : Machine D T X F where
  flag := flag
  current := main
  data := data
  stack t := if t = main then [] else [⟨.start, .off, .off, []⟩]

inductive Reachable (api : A → Cmd D T X F) (isr : Cmd D T X F) : Machine D T X F → Prop
  | init (flag : IntStatus) (main : T) (data : D) : Reachable api isr (init flag main data)
  | step {s s' : Machine D T X F} {e : Event D A} : Reachable api isr s → s.step api isr e = some s' →
      Reachable api isr s'

end Machine

namespace Machine

/-- Run through events, as long as the machine goes on. -/
def run (api : A → Cmd D T X F) (isr : Cmd D T X F) (s : Machine D T X F) :
    List (Event D A) → Option (Machine D T X F)
  | [] => some s
  | e :: es => (s.step api isr e).bind fun s' => s'.run api isr es

theorem Reachable.run {api : A → Cmd D T X F} {isr : Cmd D T X F} {s s' : Machine D T X F} {es : List (Event D A)}
    (h : Reachable api isr s) (hrun : s.run api isr es = some s') : Reachable api isr s' := by
  induction es generalizing s with
  | nil =>
    cases hrun
    exact h
  | cons e es ih =>
    obtain ⟨s1, hs1, hrest⟩ := Option.bind_eq_some_iff.1 hrun
    exact ih (h.step hs1) hrest

end Machine

/-! ## Masking as a property of the code -/

def Keeps (free : (T → D → Option D) → Prop) (k : Bool) : Cmd D T X F → Bool → Bool → Prop
  | .skip, m, m' => m' = m
  | .act f, m, m' => m' = m ∧ ((k || m) = true ∨ free f)
  | .seq a b, m, m' => ∃ n, Keeps free k a m n ∧ Keeps free k b n m'
  | .ite _ yes no, m, m' => Keeps free k yes m m' ∧ Keeps free k no m m'
  | .loop _ body, m, m' => Keeps free k body m m ∧ m' = m
  | .read _ c, m, m' => ∀ x, Keeps free k (c x) m m'
  | .call _ body, m, m' =>
    m' = m ∧ (Keeps free false body false false ∨ (k || m) = true ∧ Keeps free true body false false)
  | .disable, m, m' => m = false ∧ m' = true
  | .restore, m, m' => m = true ∧ m' = false
  | .assertOff, m, m' => m' = m ∧ (k || m) = true
  | .switchTo _, m, m' => m' = m ∧ (k || m) = true

/-- The rest of a function leads back to its caller's flag. -/
def Returns (free : (T → D → Option D) → Prop) (k : Bool) : Bool → List (Cmd D T X F) → Prop
  | m, [] => m = false
  | m, c :: cs => ∃ n, Keeps free k c m n ∧ Returns free k n cs

/-- The flag to which a frame returns: that of its entry, or off in an interrupt handler. -/
def Frame.base (f : Frame D T X F) : IntStatus :=
  match f.kind with
  | .interrupt => .off
  | _ => f.entry

/-- The frame `f` can go on when the flag is `i`. -/
def FrameOk (free : (T → D → Option D) → Prop) (i : IntStatus) (f : Frame D T X F) : Prop :=
  ∃ k m, (k = true → f.base = .off) ∧ (m = false → i = f.base) ∧ (m = true → i = .off ∧ f.old = f.base) ∧
    Returns free k m f.todo

/-- A stack can go on when the flag is `i`. -/
def StackOk (free : (T → D → Option D) → Prop) : IntStatus → List (Frame D T X F) → Prop
  | _, [] => True
  | i, f :: fs =>
    f.kind = .start ∧ f.todo = [] ∧ fs = [] ∨ f.kind ≠ .start ∧ FrameOk free i f ∧ StackOk free f.entry fs

structure Machine.Inv (free : (T → D → Option D) → Prop) (s : Machine D T X F) : Prop where
  current : StackOk free s.flag (s.stack s.current)
  other : ∀ t, t ≠ s.current → StackOk free .off (s.stack t)

section Preservation
variable {s s' : Machine D T X F} {f : Frame D T X F} {fs : List (Frame D T X F)} {i : IntStatus}
  {free : (T → D → Option D) → Prop}

omit [DecidableEq T] in
/-- With interrupts known to be off, they are. -/
theorem known_off {k m : Bool} (hk : k = true → f.base = .off) (hf : m = false → i = f.base)
    (hm : m = true → i = .off ∧ f.old = f.base) (h : (k || m) = true) : i = .off := by
  cases m with
  | false =>
    rw [Bool.or_false] at h
    rw [hf rfl, hk h]
  | true => exact (hm rfl).1

theorem Machine.Inv.setStack (hi : s.Inv free) {d : D} (h : StackOk free i fs) :
    Inv free { s.setStack fs with flag := i, data := d } := by
  refine ⟨?_, fun t ht => ?_⟩
  · simpa [Machine.setStack] using h
  · have ht' : t ≠ s.current := ht
    simpa [Machine.setStack, Function.update_of_ne ht'] using hi.other t ht'

omit [DecidableEq T] in
/-- A new frame for a function that keeps the flag. -/
theorem frameOk_new {kind : Kind F} {body : Cmd D T X F} {k : Bool} (hkind : kind ≠ .interrupt)
    (hk : k = true → i = .off) (hbody : Keeps free k body false false) :
    FrameOk free i (⟨kind, i, i, [body]⟩ : Frame D T X F) := by
  have hbase : Frame.base (⟨kind, i, i, [body]⟩ : Frame D T X F) = i := by
    cases kind <;> simp [Frame.base] at hkind ⊢
  refine ⟨k, false, fun h => hbase.trans (hk h), fun _ => hbase.symm, ?_, false, hbody, rfl⟩
  intro h
  cases h

omit [DecidableEq T] in
/-- The frame `f` goes on to the commands `cs`. -/
theorem stackOk_next {cs : List (Cmd D T X F)} {j old : IntStatus} {k m : Bool} (hkind : f.kind ≠ .start)
    (hfs : StackOk free f.entry fs) (hk : k = true → f.base = .off) (hf : m = false → j = f.base)
    (hm : m = true → j = .off ∧ old = f.base) (hcs : Returns free k m cs) :
    StackOk free j ({ f with old := old, todo := cs } :: fs) :=
  .inr ⟨hkind, ⟨k, m, hk, hf, hm, hcs⟩, hfs⟩

theorem Machine.Inv.execCmd (hi : s.Inv free) {c : Cmd D T X F} {cs : List (Cmd D T X F)} (hkind : f.kind ≠ .start)
    (htodo : f.todo = c :: cs) (hok : FrameOk free s.flag f) (hfs : StackOk free f.entry fs)
    (h : s.execCmd f fs cs c = some s') : s'.Inv free := by
  obtain ⟨k, m, hk, hf, hm, hret⟩ := hok
  rw [htodo] at hret
  obtain ⟨n, hc, hcs⟩ := hret
  cases c with
  | skip =>
    cases h
    cases hc
    exact hi.setStack (stackOk_next hkind hfs hk hf hm hcs)
  | act g =>
    obtain ⟨d, -, rfl⟩ := Option.map_eq_some_iff.1 h
    obtain ⟨rfl, -⟩ := hc
    exact hi.setStack (stackOk_next hkind hfs hk hf hm hcs)
  | seq a b =>
    obtain ⟨n', ha, hb⟩ := hc
    cases h
    exact hi.setStack (stackOk_next hkind hfs hk hf hm ⟨n', ha, n, hb, hcs⟩)
  | ite b yes no =>
    cases h
    refine hi.setStack (stackOk_next hkind hfs hk hf hm ⟨n, ?_, hcs⟩)
    split
    · exact hc.1
    · exact hc.2
  | loop b body =>
    obtain ⟨hbody, rfl⟩ := hc
    cases h
    refine hi.setStack (stackOk_next hkind hfs hk hf hm ?_)
    split
    · exact ⟨n, hbody, n, ⟨hbody, rfl⟩, hcs⟩
    · exact hcs
  | read g c =>
    cases h
    exact hi.setStack (stackOk_next hkind hfs hk hf hm ⟨n, hc _, hcs⟩)
  | call name body =>
    obtain ⟨rfl, hbody⟩ := hc
    cases h
    refine hi.setStack (.inr ⟨by simp, ?_, stackOk_next hkind hfs hk hf hm hcs⟩)
    rcases hbody with hbody | ⟨hoff, hbody⟩
    · exact frameOk_new (by simp) (fun h => absurd h (by simp)) hbody
    · exact frameOk_new (by simp) (fun _ => known_off hk hf hm hoff) hbody
  | disable =>
    obtain ⟨rfl, rfl⟩ := hc
    cases h
    exact hi.setStack (stackOk_next hkind hfs hk (fun h => absurd h (by simp)) (fun _ => ⟨rfl, hf rfl⟩) hcs)
  | restore =>
    obtain ⟨rfl, rfl⟩ := hc
    cases h
    exact hi.setStack (stackOk_next hkind hfs hk (fun _ => (hm rfl).2) (fun h => absurd h (by simp)) hcs)
  | assertOff =>
    obtain ⟨rfl, -⟩ := hc
    simp only [Machine.execCmd] at h
    split at h
    · cases h
      exact hi.setStack (stackOk_next hkind hfs hk hf hm hcs)
    · cases h
  | switchTo next =>
    obtain ⟨rfl, hoff⟩ := hc
    obtain ⟨t, -, rfl⟩ := Option.map_eq_some_iff.1 h
    have hflag := known_off hk hf hm hoff
    have hnext : StackOk free .off ({ f with todo := cs } :: fs) :=
      hflag ▸ stackOk_next hkind hfs hk hf hm hcs
    have hall : ∀ u, StackOk free .off (Function.update s.stack s.current ({ f with todo := cs } :: fs) u) := by
      intro u
      by_cases hu : u = s.current
      · rw [hu, Function.update_self]
        exact hnext
      · rw [Function.update_of_ne hu]
        exact hi.other u hu
    refine ⟨?_, fun u _ => hall u⟩
    show StackOk free s.flag _
    rw [hflag]
    exact hall t

theorem Machine.Inv.exec (hi : s.Inv free) (h : s.exec = some s') : s'.Inv free := by
  unfold Machine.exec at h
  have hcur := hi.current
  split at h
  · cases h
  · rename_i f fs hstack
    rw [hstack] at hcur
    rcases hcur with ⟨hstart, -, rfl⟩ | ⟨hkind, hok, hfs⟩
    · rw [hstart] at h
      cases h
      exact hi.setStack trivial
    · split at h
      · contradiction
      · cases h
        exact hi.setStack hfs
      · rename_i htodo _ hne
        cases h
        obtain ⟨k, m, -, hf, -, hret⟩ := hok
        rw [htodo] at hret
        have hbase : f.base = f.entry := by
          unfold Frame.base
          split
          · rename_i hint
            exact absurd hint hne
          · rfl
        refine hi.setStack ?_
        rw [hf hret, hbase]
        exact hfs
      · exact hi.execCmd hkind (by assumption) hok hfs h

theorem Machine.Inv.step {api : A → Cmd D T X F} {isr : Cmd D T X F} {e : Machine.Event D A} (hi : s.Inv free)
    (hapi : ∀ a, Keeps free false (api a) false false) (hisr : Keeps free true isr false false)
    (h : s.step api isr e = some s') : s'.Inv free := by
  cases e with
  | exec => exact hi.exec h
  | call a =>
    simp only [Machine.step] at h
    split at h
    · cases h
      exact hi.setStack (.inr ⟨by simp, frameOk_new (by simp) (fun h => absurd h (by simp)) (hapi a), trivial⟩)
    · cases h
  | interrupt =>
    simp only [Machine.step] at h
    split at h
    · cases h
      refine hi.setStack (.inr ⟨by simp, ⟨true, false, fun _ => rfl, fun _ => rfl, ?_, false, hisr, rfl⟩, hi.current⟩)
      intro h
      cases h
    · cases h
  | set i =>
    simp only [Machine.step] at h
    split at h
    · rename_i hempty
      cases h
      refine ⟨?_, hi.other⟩
      show StackOk free i (s.stack s.current)
      rw [List.isEmpty_iff.1 hempty]
      trivial
    · cases h
  | other d =>
    simp only [Machine.step] at h
    split at h
    · cases h
      exact ⟨hi.current, hi.other⟩
    · cases h

theorem Machine.Reachable.inv {api : A → Cmd D T X F} {isr : Cmd D T X F} (h : Reachable api isr s)
    (hapi : ∀ a, Keeps free false (api a) false false) (hisr : Keeps free true isr false false) : s.Inv free := by
  induction h with
  | init flag main data =>
    refine ⟨?_, fun t ht => ?_⟩
    · simp [Machine.init, StackOk]
    · have ht' : t ≠ main := ht
      simp [Machine.init, ht', StackOk]
  | step _ hstep ih => exact ih.step hapi hisr hstep

/-! ## What follows for the flag -/

omit [DecidableEq T] in
/-- A function that returns leaves the flag as it was at its call. -/
theorem Machine.Inv.flag_eq_entry (hi : s.Inv free) {name : F} (hstack : s.stack s.current = f :: fs)
    (hname : f.kind = .fn name) (htodo : f.todo = []) : s.flag = f.entry := by
  have hcur := hi.current
  rw [hstack] at hcur
  rcases hcur with ⟨hstart, -⟩ | ⟨-, ⟨k, m, -, hf, -, hret⟩, -⟩
  · rw [hname] at hstart
    cases hstart
  · rw [htodo] at hret
    have hbase : f.base = f.entry := by simp [Frame.base, hname]
    rw [hf hret, hbase]

omit [DecidableEq T] in
/-- Interrupts are off where the code asks for it. -/
theorem Machine.Inv.flag_off (hi : s.Inv free) {c : Cmd D T X F} {cs : List (Cmd D T X F)}
    (hstack : s.stack s.current = f :: fs) (htodo : f.todo = c :: cs)
    (hc : ∀ k m m', Keeps free k c m m' → (k || m) = true) : s.flag = .off := by
  have hcur := hi.current
  rw [hstack] at hcur
  rcases hcur with ⟨-, hnil, -⟩ | ⟨-, ⟨k, m, hk, hf, hm, hret⟩, -⟩
  · rw [htodo] at hnil
    cases hnil
  · rw [htodo] at hret
    obtain ⟨n, hkeeps, -⟩ := hret
    exact known_off hk hf hm (hc k m n hkeeps)

end Preservation

end Masking
