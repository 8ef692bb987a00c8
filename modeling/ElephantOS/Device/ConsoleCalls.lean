import ElephantOS.Device.Print
import ElephantOS.Lib.Resumption
import ElephantOS.Thread.Lock

/-!
# Threads that print (`device/console.c`)

The functions of `console.c` print under `console_lock`. A thread can be preempted between any two statements of the
lock's functions and between any two accesses of `sys_putchar` to the display.

* `Access`, `exec` : the instructions of `sys_putchar` that access the display; `sysPutchar` : the routine as code
  that makes them one at a time, which does at once what `Screen.sysPutchar` does (`run_sysPutchar`);
* `Call`, `Call.body` : the four functions, and what each does between taking and giving back the lock;
* `ConsoleSys`, `ConsoleSys.Step` : any number of threads that call them;
* `console_calls_serial` : the calls are made one after another.
-/


namespace ElephantOS
open Bytes (Word Mem)

namespace Console

/-- The accesses to the display, each one instruction. -/
inductive Access where
  | out (port : Nat) (b : UInt8)
  | inData
  | writeGs (off : Nat) (b : UInt8)
  /-- one pass of `rep movsd`, which can be interrupted after each -/
  | movsd (i : Nat)
  | clearWord (i : Nat)
  /-- no access: a loop was cut off -/
  | cutOff

def exec : Access → Screen → Except ConsoleFault (Screen × UInt8)
  | .out port b, s => .ok (s.outb port b, 0)
  | .inData, s => .ok (s, s.inData)
  | .writeGs off b, s => (s.writeGs off b).result.map fun s => (s, 0)
  | .movsd i, s => (s.movsd i).result.map fun s => (s, 0)
  | .clearWord i, s => (s.clearWord i).result.map fun s => (s, 0)
  | .cutOff, _ => .error .unfinished

abbrev Code (α : Type) := Resumption Access UInt8 α

/-- An access whose answer is not used. -/
def perform (x : Access) : Code Unit := .act x fun _ => .ret ()

def out (port : Nat) (b : UInt8) : Code Unit := perform (.out port b)

def setCursor (bx : BitVec 16) : Code Unit := do
  out 0x3D4 0x0E
  out 0x3D5 ⟨bx.extractLsb' 8 8⟩
  out 0x3D4 0x0F
  out 0x3D5 ⟨bx.extractLsb' 0 8⟩

def rollOneLine : Code Unit := do
  Resumption.forRange (fun i => perform (.movsd i)) 960 0
  Resumption.forRange (fun i => perform (.clearWord i)) 80 0
  setCursor 1920

def lineFeed (ax bx : BitVec 16) : Code Unit :=
  let dx := ax % 80
  let bx := bx - dx
  let bx := bx + 80
  if bx.slt 2000 then setCursor bx else rollOneLine

def backSpace (bx : BitVec 16) : Code Unit := do
  let bx := bx - 1
  let bx := bx <<< 1
  perform (.writeGs bx.toNat 0x20)
  let bx := bx + 1
  perform (.writeGs bx.toNat 0x07)
  let bx := bx >>> 1
  setCursor bx

def anyOther (ax bx : BitVec 16) (cl : UInt8) : Code Unit := do
  let bx := bx <<< 1
  perform (.writeGs bx.toNat cl)
  let bx := bx + 1
  perform (.writeGs bx.toNat 0x07)
  let bx := bx + 1
  let bx := bx >>> 1
  if bx.slt 2000 then setCursor bx else lineFeed ax bx

/-- `sys_putchar`. The registers belong to the thread, and so are the same after an interrupt. -/
def sysPutchar (cl : UInt8) : Code Unit := do
  out 0x3D4 0x0E
  let ah ← Resumption.perform .inData
  out 0x3D4 0x0F
  let al ← Resumption.perform .inData
  let ax : BitVec 16 := ah.toBitVec ++ al.toBitVec
  let bx := ax
  if cl = 0x0d then lineFeed ax bx
  else if cl = 0x0a then lineFeed ax bx
  else if cl = 0x08 then backSpace bx
  else anyOther ax bx cl

def putNext (mem : Mem) : Nat → Word → Word → Code Word
  | 0, _, _ => .act .cutOff fun _ => .ret 0
  | fuel + 1, ebx, eax =>
    if mem ebx = 0 then .ret eax
    else do
      sysPutchar ⟨mem ebx⟩
      putNext mem fuel (ebx + 1) (eax + 1)

/-! ## Without interrupts -/

/-- Not interrupted, the code does to the display what `f` does. -/
def Does (c : Code Unit) (f : Screen → Draw Screen) : Prop :=
  ∀ s, c.run exec s = (f s).result.map fun s => (s, ())

theorem Does.bind {c : Code Unit} {f : Screen → Draw Screen} {k : Unit → Code Unit} {g : Screen → Draw Screen}
    (hc : Does c f) (hk : Does (k ()) g) : Does (c >>= k) fun s => f s >>= g := by
  intro s
  rw [Resumption.run_bind, hc s, Trace.result_bind]
  cases (f s).result with
  | ok s' => exact hk s'
  | error e => rfl

theorem does_writeGs (off : Nat) (b : UInt8) : Does (perform (.writeGs off b)) fun s => s.writeGs off b := by
  intro s
  show (exec (.writeGs off b) s >>= fun r => Except.ok (r.1, ())) = _
  simp only [exec]
  cases (s.writeGs off b).result with
  | ok s' => rfl
  | error e => rfl

theorem does_setCursor (bx : BitVec 16) : Does (setCursor bx) fun s => pure (s.setCursor bx) := fun _ => rfl

theorem does_forRange {f : Nat → Screen → Draw Screen} {x : Nat → Access}
    (h : ∀ i s, exec (x i) s = (f i s).result.map fun s => (s, 0)) (n : Nat) :
    Does (Resumption.forRange (fun i => perform (x i)) n 0) (Trace.forRange f n 0) := by
  intro s
  have hpass : ∀ i s, (perform (x i)).run exec s = ((f i s).result).map fun s => (s, ()) := by
    intro i s
    show (exec (x i) s >>= fun r => Except.ok (r.1, ())) = _
    rw [h]
    cases (f i s).result with
    | ok s' => rfl
    | error e => rfl
  rw [Resumption.run_forRange exec hpass, Trace.result_forRange fun _ _ => rfl]

theorem does_rollOneLine : Does rollOneLine Screen.rollOneLine :=
  (does_forRange (fun _ _ => rfl) 960).bind ((does_forRange (fun _ _ => rfl) 80).bind (does_setCursor 1920))

theorem does_lineFeed (ax bx : BitVec 16) : Does (lineFeed ax bx) fun s => s.lineFeed ax bx := by
  intro s
  unfold lineFeed Screen.lineFeed
  dsimp only
  by_cases h : (bx - ax % 80 + 80).slt 2000 = true
  · rw [if_pos h, if_pos h]
    rfl
  · rw [if_neg h, if_neg h]
    exact does_rollOneLine s

theorem does_backSpace (bx : BitVec 16) : Does (backSpace bx) fun s => s.backSpace bx :=
  (does_writeGs _ _).bind ((does_writeGs _ _).bind (does_setCursor _))

theorem does_anyOther (ax bx : BitVec 16) (cl : UInt8) : Does (anyOther ax bx cl) fun s => s.anyOther ax bx cl := by
  apply (does_writeGs _ _).bind
  apply (does_writeGs _ _).bind
  intro s
  dsimp only
  by_cases h : ((bx <<< 1 + 1 + 1) >>> 1).slt 2000 = true
  · rw [if_pos h, if_pos h]
    rfl
  · rw [if_neg h, if_neg h]
    exact does_lineFeed _ _ s

theorem run_sysPutchar (cl : UInt8) : Does (sysPutchar cl) fun s => s.sysPutchar cl := by
  intro s
  have hread : (sysPutchar cl).run exec s = Resumption.run exec
      (let ax : BitVec 16 := (s.crtc 0x0E).toBitVec ++ (s.crtc 0x0F).toBitVec
       if cl = 0x0d then lineFeed ax ax else if cl = 0x0a then lineFeed ax ax
       else if cl = 0x08 then backSpace ax else anyOther ax ax cl)
      ((s.outb 0x3D4 0x0E).outb 0x3D4 0x0F) := rfl
  have hsys : s.sysPutchar cl = (let ax : BitVec 16 := (s.crtc 0x0E).toBitVec ++ (s.crtc 0x0F).toBitVec
      let s₁ := (s.outb 0x3D4 0x0E).outb 0x3D4 0x0F
      if cl = 0x0d then s₁.lineFeed ax ax else if cl = 0x0a then s₁.lineFeed ax ax
      else if cl = 0x08 then s₁.backSpace ax else s₁.anyOther ax ax cl) := rfl
  show _ = (s.sysPutchar cl).result.map _
  rw [hread, hsys]
  dsimp only
  split_ifs
  · exact does_lineFeed _ _ _
  · exact does_lineFeed _ _ _
  · exact does_backSpace _ _
  · exact does_anyOther _ _ _ _

theorem run_putNext (mem : Mem) (fuel : Nat) (ebx eax : Word) (s : Screen) :
    (putNext mem fuel ebx eax).run exec s = (Screen.putNext mem fuel s ebx eax).result := by
  induction fuel generalizing ebx eax s with
  | zero => rfl
  | succ fuel ih =>
    unfold putNext Screen.putNext
    by_cases h : mem ebx = 0
    · rw [if_pos h, if_pos h]
      rfl
    · rw [if_neg h, if_neg h, Resumption.run_bind, run_sysPutchar, Trace.result_bind]
      cases (s.sysPutchar ⟨mem ebx⟩).result with
      | ok s' => exact ih _ _ s'
      | error e => rfl

/-- More fuel than the string has bytes makes no difference. -/
theorem putNext_fuel {mem : Mem} {bs : List UInt8} {a : Word} (hstr : Screen.IsString mem a bs) {fuel : Nat}
    (hf : bs.length < fuel) (eax : Word) : putNext mem fuel a eax = putNext mem (bs.length + 1) a eax := by
  induction bs generalizing a fuel eax with
  | nil =>
    obtain ⟨fuel, rfl⟩ := Nat.exists_eq_add_of_lt hf
    unfold putNext
    rw [if_pos (show mem a = 0 from hstr), if_pos (show mem a = 0 from hstr)]
  | cons b bs ih =>
    obtain ⟨fuel, rfl⟩ := Nat.exists_eq_add_of_lt hf
    rw [List.length_cons, show bs.length + 1 + fuel + 1 = (bs.length + fuel + 1) + 1 by omega]
    unfold putNext
    rw [ih hstr.2.2 (by omega)]

/-! ## The functions of `console.c` -/

/-- A string in memory. It is not written to while it is printed. -/
structure Str where
  mem : Mem
  str : Word
  text : List UInt8
  isString : Screen.IsString mem str text

def sysPutstr (s : Str) : Code Word := putNext s.mem (s.text.length + 1) s.str 0

/-- A call of one of the functions. For a number it comes with the buffer that `sys_putint` and `sys_puthex` leave on
the caller's stack, where no other thread writes. -/
inductive Call where
  | putstr (s : Str)
  | putchar (charAsi : UInt8)
  | putint (num : Word) (mem : Mem) (buf : Str) (h : Loop.Ends (Print.putintChars mem buf.str num) buf.mem)
  | puthex (num : Word) (mem : Mem) (buf : Str)
      (h : num ≠ 0 → Loop.Ends (Print.puthexChars mem buf.str num) buf.mem)

namespace Call

def body : Call → Code Word
  | .putstr s => sysPutstr s
  | .putchar charAsi => do
    sysPutchar charAsi
    return 0
  | .putint _ _ buf _ => sysPutstr buf
  | .puthex num _ buf _ =>
    if num = 0 then do
      sysPutchar 0x30
      return 1
    else sysPutstr buf

/-- The routine that a call makes, as one. -/
def routine (fuel : Nat) (screen : Screen) : Call → Option (Draw (Screen × Word))
  | .putstr s => some (screen.sysPutstr s.mem fuel s.str)
  | .putchar charAsi => some do
    let screen ← screen.sysPutchar charAsi
    return (screen, 0)
  | .putint num mem buf _ => Print.sysPutint mem buf.str fuel screen num
  | .puthex num mem buf _ => Print.sysPuthex mem buf.str fuel screen num

def text : Call → List UInt8
  | .putstr s => s.text
  | .putchar charAsi => [charAsi]
  | .putint _ _ buf _ => buf.text
  | .puthex num _ buf _ => if num = 0 then [0x30] else buf.text

def count : Call → Word
  | .putchar _ => 0
  | c => BitVec.ofNat 32 c.text.length

end Call

theorem exists_putint (num : Word) (mem : Mem) (strNum : Word) :
    ∃ buf : Str, buf.str = strNum ∧ Loop.Ends (Print.putintChars mem buf.str num) buf.mem := by
  by_cases hnum : num = BitVec.intMin 32
  · subst hnum
    obtain ⟨m, hends, hstr⟩ := Print.isString_putint_min mem strNum
    exact ⟨⟨m, strNum, _, hstr⟩, rfl, hends⟩
  · obtain ⟨m, bs, -, hends, hstr, -⟩ := Print.printsInt_of_ne mem strNum hnum
    exact ⟨⟨m, strNum, bs, hstr⟩, rfl, hends⟩

theorem exists_puthex {num : Word} (hnum : num ≠ 0) (mem : Mem) (strNum : Word) :
    ∃ buf : Str, buf.str = strNum ∧ Loop.Ends (Print.puthexChars mem buf.str num) buf.mem := by
  obtain ⟨bs, hbuf, -⟩ := Print.printsHex mem strNum num
  obtain ⟨m, hends, hstr⟩ := hbuf hnum
  exact ⟨⟨m, strNum, bs, hstr⟩, rfl, hends⟩

theorem run_sysPutstr (s : Str) {fuel : Nat} (hf : s.text.length < fuel) (screen : Screen) :
    (sysPutstr s).run exec screen = (screen.sysPutstr s.mem fuel s.str).result := by
  unfold sysPutstr
  rw [← putNext_fuel s.isString hf]
  exact run_putNext s.mem fuel s.str 0 screen

theorem run_sysPutchar_ret (cl : UInt8) (n : Word) (screen : Screen) :
    (do sysPutchar cl; return n : Code Word).run exec screen =
      (do let screen ← screen.sysPutchar cl; return (screen, n) : Draw (Screen × Word)).result := by
  rw [Resumption.run_bind, run_sysPutchar, Trace.result_bind]
  cases (screen.sysPutchar cl).result with
  | ok s' => rfl
  | error e => rfl

theorem Call.run_body (c : Call) (screen : Screen) :
    ∃ k, ∀ fuel, k ≤ fuel → ∃ x, c.routine fuel screen = some x ∧ c.body.run exec screen = x.result := by
  cases c with
  | putstr s => exact ⟨s.text.length + 1, fun fuel hf => ⟨_, rfl, run_sysPutstr s (by omega) screen⟩⟩
  | putchar charAsi => exact ⟨0, fun fuel _ => ⟨_, rfl, run_sysPutchar_ret charAsi 0 screen⟩⟩
  | putint num mem buf h =>
    obtain ⟨k, hk⟩ := h
    refine ⟨max k (buf.text.length + 1), ?_⟩
    intro fuel hf
    refine ⟨screen.sysPutstr buf.mem fuel buf.str, ?_, run_sysPutstr buf (by omega) screen⟩
    simp only [routine, Print.sysPutint, hk fuel (by omega)]
    rfl
  | puthex num mem buf h =>
    by_cases hnum : num = 0
    · refine ⟨0, fun fuel _ => ⟨_, if_pos hnum, ?_⟩⟩
      simp only [body, if_pos hnum]
      exact run_sysPutchar_ret 0x30 1 screen
    · obtain ⟨k, hk⟩ := h hnum
      refine ⟨max k (buf.text.length + 1), ?_⟩
      intro fuel hf
      refine ⟨screen.sysPutstr buf.mem fuel buf.str, ?_, ?_⟩
      · simp only [routine, Print.sysPuthex, if_neg hnum, hk fuel (by omega)]
        rfl
      · simp only [body, if_neg hnum]
        exact run_sysPutstr buf (by omega) screen

theorem Call.run_terminal (c : Call) (h8 : 0x08 ∉ c.text) {screen : Screen} {t : Terminal 25 80 Screen.Cell}
    (h : Screen.Shows screen.cursor screen.video t) : ∃ screen', c.body.run exec screen = .ok (screen', c.count) ∧
      Screen.Shows screen'.cursor screen'.video (c.text.foldl Screen.refTerminal t) := by
  have hstr : ∀ s : Str, 0x08 ∉ s.text → ∃ screen', (sysPutstr s).run exec screen =
      .ok (screen', BitVec.ofNat 32 s.text.length) ∧
      Screen.Shows screen'.cursor screen'.video (s.text.foldl Screen.refTerminal t) := by
    intro s hs
    obtain ⟨screen', hrun, hshows⟩ :=
      Screen.putNext_refTerminal s.isString hs h (Nat.lt_succ_self s.text.length) 0
    rw [show (0 : Word) + BitVec.ofNat 32 s.text.length = BitVec.ofNat 32 s.text.length from BitVec.zero_add _] at hrun
    exact ⟨screen', (run_putNext _ _ _ _ _).trans hrun, hshows⟩
  have hchar : ∀ (cl : UInt8) (n : Word), 0x08 ≠ cl → ∃ screen',
      (do sysPutchar cl; return n : Code Word).run exec screen = .ok (screen', n) ∧
      Screen.Shows screen'.cursor screen'.video (Screen.refTerminal t cl) := by
    intro cl n hcl
    obtain ⟨screen', hrun, hshows, -⟩ := (Screen.draws_refTerminal h (Ne.symm hcl)).exists_ok
    refine ⟨screen', ?_, hshows⟩
    rw [run_sysPutchar_ret, Trace.result_bind, hrun]
    rfl
  cases c with
  | putstr s => exact hstr s h8
  | putchar charAsi => exact hchar charAsi 0 (by simpa [text] using h8)
  | putint num mem buf _ => exact hstr buf h8
  | puthex num mem buf _ =>
    by_cases hnum : num = 0
    · simp only [body, text, count, if_pos hnum]
      exact hchar 0x30 1 (by decide)
    · simp only [text, if_neg hnum] at h8
      simp only [body, text, count, if_neg hnum]
      exact hstr buf h8

/-! ## The threads -/

/-- Where a thread is in one of the functions. -/
inductive Task where
  | idle
  /-- inside `ConsoleLockAcquire` -/
  | acquiring (c : Call)
  /-- the rest of the body -/
  | printing (code : Code Word)
  /-- inside `ConsoleLockRelease`, with the value to return -/
  | releasing (outputNum : Word)

def Task.pending : Task → List Call
  | .acquiring c => [c]
  | _ => []

end Console

open Console in
/-- The threads that use the console. The ghosts: `called t` are the calls of `t`, `calls` those that have taken the
lock and those of interrupt handlers (`none`), in that order, and `results` what those that are done have returned. -/
structure ConsoleSys (T : Type*) where
  lock : LockSys T
  screen : Screen
  task : T → Task
  called : T → List Call
  calls : List (Option T × Call)
  results : List Word

namespace ConsoleSys
open Console
variable {T : Type*} [DecidableEq T]

def init (screen : Screen) : ConsoleSys T := ⟨LockSys.init, screen, fun _ => .idle, fun _ => [], [], []⟩

def setTask (s : ConsoleSys T) (t : T) (k : Task) : ConsoleSys T := { s with task := Function.update s.task t k }

def call (s : ConsoleSys T) (t : T) (c : Call) : ConsoleSys T :=
  { s.setTask t (.acquiring c) with
    lock := s.lock.goto t .lockTest, called := Function.update s.called t (s.called t ++ [c]) }

/-- An interrupt handler has printed, and left the display as `screen`. -/
def handlerPrinted (s : ConsoleSys T) (c : Call) (screen : Screen) (n : Word) : ConsoleSys T :=
  { s with screen := screen, calls := s.calls ++ [(none, c)], results := s.results ++ [n] }

/-- The lock's functions have brought thread `t` to `l`; when it is out of them it goes on. -/
def afterStmt (s : ConsoleSys T) (t : T) (l : LockSys T) : ConsoleSys T :=
  if l.pc t = .out then
    match s.task t with
    | .acquiring c => { s.setTask t (.printing c.body) with lock := l, calls := s.calls ++ [(some t, c)] }
    | _ => { s.setTask t .idle with lock := l }
  else { s with lock := l }

/-- A runnable thread makes a call, executes a statement of the lock's functions, makes an access to the display, or
comes to the end of the body. An interrupt handler prints only while no thread is in the middle of a body. -/
inductive Step (s : ConsoleSys T) : ConsoleSys T → Prop
  | call (t : T) (c : Call) (hs : s.lock.status t = .ready) (hk : s.task t = .idle) : Step s (s.call t c)
  | stmt (t : T) {l : LockSys T} (hs : s.lock.status t = .ready) (hpc : s.lock.pc t ≠ .out)
      (h : s.lock.stmt t = some l) : Step s (s.afterStmt t l)
  | access (t : T) {code code' : Code Word} {screen : Screen} (hs : s.lock.status t = .ready)
      (hk : s.task t = .printing code) (h : code.step exec s.screen = some (.ok (screen, code'))) :
      Step s { s.setTask t (.printing code') with screen := screen }
  | release (t : T) {n : Word} (hs : s.lock.status t = .ready) (hk : s.task t = .printing (.ret n)) :
      Step s { s.setTask t (.releasing n) with
        lock := s.lock.goto t .assertHolder, results := s.results ++ [n] }
  /-- an interrupt handler prints, with interrupts off and without the lock -/
  | message (c : Call) {screen : Screen} {n : Word} (hquiet : ∀ t code, s.task t ≠ .printing code)
      (h : c.body.run exec s.screen = .ok (screen, n)) :
      Step s (s.handlerPrinted c screen n)

def Reachable (screen : Screen) : ConsoleSys T → Prop := Relation.ReflTransGen Step (init screen)

/-! ## Where the threads are in the lock's functions -/

/-- A thread with a task is at one of these statements, and has the lock so many times. -/
def At : Task → LockSys.Pc → Nat → Prop
  | .idle, p, d => p = .out ∧ d = 0
  | .acquiring _, p, d =>
    (p = .lockTest ∨ p = .semDown ∨ p = .setHolder ∨ p = .assertZero ∨ p = .setOne) ∧ d = 0
  | .printing _, p, d => p = .out ∧ d = 1
  | .releasing _, p, d =>
    (p = .assertHolder ∨ p = .testNested ∨ p = .assertOne ∨ p = .clearSum ∨ p = .clearHolder ∨ p = .semUp) ∧ d = 1

/-- The invariant of one lock and one task for each thread. -/
structure Inv (s : ConsoleSys T) : Prop where
  lock : s.lock.Inv
  tasks : ∀ t, At (s.task t) (s.lock.pc t) (s.lock.depth t)
  /-- the calls of a thread take the lock in the order they are made -/
  called : ∀ t, s.called t = ((s.calls.filter fun x => x.1 = some t).map Prod.snd) ++ (s.task t).pending
  /-- the thread that prints made the last call -/
  last : ∀ t code, s.task t = .printing code → ∃ cs c, s.calls = cs ++ [(some t, c)]

theorem stmt_other {s l : LockSys T} {t u : T} (h : s.stmt t = some l) (hu : u ≠ t) :
    l.pc u = s.pc u ∧ l.depth u = s.depth u := by
  unfold LockSys.stmt at h
  split at h
  all_goals try split at h
  all_goals first
    | cases h; done
    | cases h; simp [LockSys.goto, LockSys.leave, Function.update_of_ne hu]

/-- A statement of `ConsoleLockAcquire`: the lock is not taken twice. -/
theorem stmt_acquiring {s l : LockSys T} (hl : l.Inv) {t : T} (h : s.stmt t = some l) {c : Call}
    (hk : At (.acquiring c) (s.pc t) (s.depth t)) :
    l.pc t = .out ∧ l.depth t = 1 ∨ l.pc t ≠ .out ∧ At (.acquiring c) (l.pc t) (l.depth t) := by
  obtain ⟨hp, hd⟩ := hk
  have hincr : l.pc t = .incr → 0 < l.depth t := by
    intro hpc
    have hown := (hl.held_of_not_free (t := t) (.inl (by simp [hpc, LockSys.Free]))).2.1
    rw [hpc] at hown
    exact hown.2.2.1
  rcases hp with hp | hp | hp | hp | hp
  · simp only [LockSys.stmt, hp, Option.some.injEq] at h
    subst h
    by_cases hh : s.lock.holder ≠ some t
    · right
      simp [LockSys.goto, At, hh, hd]
    · simp [LockSys.goto, hh, hd] at hincr
  · simp only [LockSys.stmt, hp] at h
    split at h
    · cases h
    · cases h
      right
      simp [LockSys.goto, At, hd]
    · cases h
      right
      simp [At, hp, hd]
  · simp only [LockSys.stmt, hp, Option.some.injEq] at h
    subst h
    right
    simp [LockSys.goto, At, hd]
  · simp only [LockSys.stmt, hp] at h
    split at h
    · cases h
      right
      simp [LockSys.goto, At, hd]
    · cases h
  · simp only [LockSys.stmt, hp, Option.some.injEq] at h
    subst h
    left
    simp [LockSys.leave, hd]

/-- A statement of `ConsoleLockRelease`: the lock is given back, not counted down. -/
theorem stmt_releasing {s l : LockSys T} (hl : l.Inv) {t : T} (h : s.stmt t = some l) {n : Word}
    (hk : At (.releasing n) (s.pc t) (s.depth t)) :
    l.pc t = .out ∧ l.depth t = 0 ∨ l.pc t ≠ .out ∧ At (.releasing n) (l.pc t) (l.depth t) := by
  obtain ⟨hp, hd⟩ := hk
  have hdecr : l.pc t = .decr → 1 < l.depth t := by
    intro hpc
    have hown := (hl.held_of_not_free (t := t) (.inl (by simp [hpc, LockSys.Free]))).2.1
    rw [hpc] at hown
    exact hown.2.2
  rcases hp with hp | hp | hp | hp | hp | hp
  · simp only [LockSys.stmt, hp] at h
    split at h
    · cases h
      right
      simp [LockSys.goto, At, hd]
    · cases h
  · simp only [LockSys.stmt, hp, Option.some.injEq] at h
    subst h
    by_cases hh : s.lock.holderRepeatRequestSum > 1
    · simp [LockSys.goto, hh, hd] at hdecr
    · right
      simp [LockSys.goto, At, hh, hd]
  · simp only [LockSys.stmt, hp] at h
    split at h
    · cases h
      right
      simp [LockSys.goto, At, hd]
    · cases h
  · simp only [LockSys.stmt, hp, Option.some.injEq] at h
    subst h
    right
    simp [LockSys.goto, At, hd]
  · simp only [LockSys.stmt, hp, Option.some.injEq] at h
    subst h
    right
    simp [LockSys.goto, At, hd]
  · simp only [LockSys.stmt, hp] at h
    split at h
    · cases h
    · cases h
      left
      simp [LockSys.leave, hd]

/-- What a statement of the lock's functions does to the task of its thread. -/
theorem afterStmt_cases {s : ConsoleSys T} {l : LockSys T} (hl : l.Inv) {t : T} (hpc : s.lock.pc t ≠ .out)
    (hk : At (s.task t) (s.lock.pc t) (s.lock.depth t)) (h : s.lock.stmt t = some l) :
    (∃ c, s.task t = .acquiring c ∧ l.pc t = .out ∧ l.depth t = 1 ∧
      s.afterStmt t l = { s.setTask t (.printing c.body) with lock := l, calls := s.calls ++ [(some t, c)] }) ∨
    (∃ n, s.task t = .releasing n ∧ l.pc t = .out ∧ l.depth t = 0 ∧
      s.afterStmt t l = { s.setTask t .idle with lock := l }) ∨
    At (s.task t) (l.pc t) (l.depth t) ∧ s.afterStmt t l = { s with lock := l } := by
  cases htask : s.task t with
  | idle =>
    rw [htask] at hk
    exact absurd hk.1 hpc
  | printing code =>
    rw [htask] at hk
    exact absurd hk.1 hpc
  | acquiring c =>
    rw [htask] at hk
    obtain ⟨hout, hd⟩ | ⟨hout, hat⟩ := stmt_acquiring hl h hk
    · exact .inl ⟨c, rfl, hout, hd, by rw [afterStmt, if_pos hout, htask]⟩
    · exact .inr (.inr ⟨hat, by rw [afterStmt, if_neg hout]⟩)
  | releasing n =>
    rw [htask] at hk
    obtain ⟨hout, hd⟩ | ⟨hout, hat⟩ := stmt_releasing hl h hk
    · exact .inr (.inl ⟨n, rfl, hout, hd, by rw [afterStmt, if_pos hout, htask]⟩)
    · exact .inr (.inr ⟨hat, by rw [afterStmt, if_neg hout]⟩)

theorem tasks_update {s : ConsoleSys T} (hi : s.Inv) {t : T} {k : Task} {l : LockSys T}
    (hother : ∀ u, u ≠ t → l.pc u = s.lock.pc u ∧ l.depth u = s.lock.depth u) (hk : At k (l.pc t) (l.depth t)) (u : T) :
    At (Function.update s.task t k u) (l.pc u) (l.depth u) := by
  by_cases hu : u = t
  · subst hu
    rwa [Function.update_self]
  · rw [Function.update_of_ne hu, (hother u hu).1, (hother u hu).2]
    exact hi.tasks u

theorem called_update {s : ConsoleSys T} (hi : s.Inv) {t : T} {k : Task} (hold : (s.task t).pending = [])
    (hnew : k.pending = []) (u : T) : s.called u =
      ((s.calls.filter fun x => x.1 = some u).map Prod.snd) ++ (Function.update s.task t k u).pending := by
  rw [hi.called u]
  by_cases hu : u = t
  · subst hu
    rw [Function.update_self, hold, hnew]
  · rw [Function.update_of_ne hu]

theorem last_update {s : ConsoleSys T} (hi : s.Inv) {t : T} {k : Task}
    (hk : ∀ code, k = .printing code → ∃ code', s.task t = .printing code') (u : T) (code : Code Word)
    (hu : Function.update s.task t k u = .printing code) : ∃ cs c, s.calls = cs ++ [(some u, c)] := by
  by_cases hut : u = t
  · subst hut
    rw [Function.update_self] at hu
    obtain ⟨code', hcode'⟩ := hk code hu
    exact hi.last u code' hcode'
  · rw [Function.update_of_ne hut] at hu
    exact hi.last u code hu

/-- When a thread has taken the lock, no other prints. -/
theorem Inv.quiet_of_taken {s : ConsoleSys T} (hi : s.Inv) {l : LockSys T} (hl : l.Inv) {t : T}
    (h : s.lock.stmt t = some l) (hd : l.depth t = 1) (u : T) (code : Code Word) (hu : u ≠ t) :
    s.task u ≠ .printing code := by
  intro hprint
  have hheld := hl.held_of_not_free (t := t) (.inr (by rw [hd]; decide))
  have hat := hi.tasks u
  rw [hprint] at hat
  have h0 := (hheld.2.2 u hu).2
  rw [(stmt_other h hu).2, hat.2] at h0
  cases h0

theorem inv_init (screen : Screen) : Inv (init screen : ConsoleSys T) :=
  ⟨LockSys.inv_init, fun _ => ⟨rfl, rfl⟩, fun _ => rfl, fun _ _ h => by cases h⟩

theorem Inv.step {s s' : ConsoleSys T} (hi : s.Inv) (h : Step s s') : s'.Inv := by
  have hgoto : ∀ (t u : T) (p : LockSys.Pc), u ≠ t →
      (s.lock.goto t p).pc u = s.lock.pc u ∧ (s.lock.goto t p).depth u = s.lock.depth u := by
    intro t u p hu
    exact ⟨Function.update_of_ne hu _ _, rfl⟩
  cases h with
  | call t c hs hk =>
    have hat := hi.tasks t
    rw [hk] at hat
    have hd : s.lock.depth t = 0 := hat.2
    refine ⟨hi.lock.step (.lock t hs hat.1 (by rw [hd]; decide) rfl), ?_, ?_, ?_⟩
    · exact tasks_update hi (fun u => hgoto t u _) ⟨.inl (Function.update_self ..), hd⟩
    · intro u
      show Function.update s.called t _ u = _ ++ (Function.update s.task t _ u).pending
      by_cases hu : u = t
      · subst hu
        rw [Function.update_self, Function.update_self, hi.called u, hk]
        simp [Task.pending, call, setTask]
      · rw [Function.update_of_ne hu, Function.update_of_ne hu]
        exact hi.called u
    · exact last_update hi (by simp)
  | @stmt t l hs hpc h =>
    have hl := hi.lock.stmt hs h
    have hother := fun u => stmt_other (u := u) h
    obtain ⟨c, hk, hout, hd, heq⟩ | ⟨n, hk, hout, hd, heq⟩ | ⟨hat, heq⟩ := afterStmt_cases hl hpc (hi.tasks t) h
    · rw [heq]
      refine ⟨hl, tasks_update hi hother ⟨hout, hd⟩, ?_, ?_⟩
      case refine_2 =>
        intro u code hu
        by_cases hut : u = t
        · exact ⟨s.calls, c, by rw [hut]⟩
        · have hu' : Function.update s.task t (.printing c.body) u = .printing code := hu
          rw [Function.update_of_ne hut] at hu'
          exact absurd hu' (hi.quiet_of_taken hl h hd u code hut)
      intro u
      show s.called u = (((s.calls ++ [(some t, c)]).filter fun x => x.1 = some u).map Prod.snd) ++
        (Function.update s.task t _ u).pending
      rw [hi.called u]
      by_cases hu : u = t
      · subst hu
        simp [Function.update_self, hk, Task.pending]
      · rw [Function.update_of_ne hu]
        simp [Ne.symm hu]
    · rw [heq]
      exact ⟨hl, tasks_update hi hother ⟨hout, hd⟩, called_update hi (by rw [hk]; rfl) rfl, last_update hi (by simp)⟩
    · rw [heq]
      refine ⟨hl, ?_, hi.called, hi.last⟩
      have htasks := tasks_update hi hother hat
      rwa [Function.update_eq_self] at htasks
  | access t hs hk h =>
    have hat := hi.tasks t
    rw [hk] at hat
    exact ⟨hi.lock, tasks_update hi (fun _ _ => ⟨rfl, rfl⟩) hat, called_update hi (by rw [hk]; rfl) rfl,
      last_update hi fun _ _ => ⟨_, hk⟩⟩
  | @release t n hs hk =>
    have hat := hi.tasks t
    rw [hk] at hat
    have hd : s.lock.depth t = 1 := hat.2
    refine ⟨hi.lock.step (.unlock t hs hat.1 (by omega) rfl), ?_, called_update hi (by rw [hk]; rfl) rfl,
      last_update hi (by simp)⟩
    exact tasks_update hi (fun u => hgoto t u _) ⟨.inl (Function.update_self ..), hd⟩
  | message c hquiet h =>
    refine ⟨hi.lock, hi.tasks, ?_, fun t code ht => absurd ht (hquiet t code)⟩
    intro t
    simp [handlerPrinted, hi.called t]

theorem Inv.printing_unique {s : ConsoleSys T} (hi : s.Inv) {t u : T} {c c' : Code Word}
    (ht : s.task t = .printing c) (hu : s.task u = .printing c') : t = u := by
  have hat := hi.tasks t
  rw [ht] at hat
  have hau := hi.tasks u
  rw [hu] at hau
  have hheld := hi.lock.held_of_not_free (t := t) (.inr (by rw [hat.2]; decide))
  by_contra hne
  have h0 := (hheld.2.2 u (Ne.symm hne)).2
  rw [hau.2] at h0
  cases h0

/-! ## One call after another -/

/-- The console as a monitor: the thread that prints is inside. -/
structure Sim (s : ConsoleSys T) (m : Monitor Access UInt8 Word Screen Call) : Prop where
  dev : m.dev = s.screen
  log : m.log = s.calls.map Prod.snd
  results : m.results = s.results
  inside : ∀ c, m.inside = some c ↔ ∃ t, s.task t = .printing c

omit [DecidableEq T] in
theorem Sim.inside_none {s : ConsoleSys T} {m : Monitor Access UInt8 Word Screen Call} (hm : Sim s m)
    (hquiet : ∀ t code, s.task t ≠ .printing code) : m.inside = none := by
  rw [Option.eq_none_iff_forall_ne_some]
  intro code hcode
  obtain ⟨t, ht⟩ := (hm.inside code).1 hcode
  exact hquiet t code ht

/-- The tasks of a state where thread `t` has the task `k` and nobody else prints. -/
theorem inside_update {s : ConsoleSys T} {t : T} {k : Task} (hother : ∀ u c, u ≠ t → s.task u ≠ .printing c)
    (c : Code Word) : (∃ u, Function.update s.task t k u = .printing c) ↔ k = .printing c := by
  constructor
  · intro ⟨u, hu⟩
    by_cases hut : u = t
    · rwa [hut, Function.update_self] at hu
    · rw [Function.update_of_ne hut] at hu
      exact absurd hu (hother u c hut)
  · intro hk
    exact ⟨t, by rw [Function.update_self, hk]⟩

theorem inside_quiet {s : ConsoleSys T} {t : T} {k : Task} (hold : ∀ c, s.task t ≠ .printing c)
    (hnew : ∀ c, k ≠ .printing c) (c : Code Word) :
    (∃ u, Function.update s.task t k u = .printing c) ↔ ∃ u, s.task u = .printing c := by
  have hne : ∀ u, (Function.update s.task t k u = .printing c ↔ s.task u = .printing c) := by
    intro u
    by_cases hut : u = t
    · subst hut
      rw [Function.update_self]
      exact ⟨fun h => absurd h (hnew c), fun h => absurd h (hold c)⟩
    · rw [Function.update_of_ne hut]
  exact exists_congr hne

theorem Inv.others_quiet {s : ConsoleSys T} (hi : s.Inv) {t : T} {c : Code Word} (ht : s.task t = .printing c)
    (u : T) (c' : Code Word) (hu : u ≠ t) : s.task u ≠ .printing c' :=
  fun h => hu (hi.printing_unique h ht)

open Relation in
/-- A step of the threads is a step of the monitor or none, and a message is a whole call. -/
theorem Sim.step {s s' : ConsoleSys T} (hi : s.Inv) {m : Monitor Access UInt8 Word Screen Call} (hm : Sim s m)
    (h : Step s s') : ∃ m', ReflTransGen (Monitor.Step exec Call.body) m m' ∧ Sim s' m' := by
  cases h with
  | call t c hs hk =>
    refine ⟨m, .refl, hm.dev, hm.log, hm.results, fun code => (hm.inside code).trans ?_⟩
    exact (inside_quiet (fun c => by rw [hk]; simp) (fun c => by simp) code).symm
  | @stmt t l hs hpc h =>
    have hl := hi.lock.stmt hs h
    obtain ⟨c, hk, hout, hd, heq⟩ | ⟨n, hk, -, -, heq⟩ | ⟨-, heq⟩ := afterStmt_cases hl hpc (hi.tasks t) h
    · -- the lock has been taken: no other thread has it, so that none prints
      have hother := hi.quiet_of_taken hl h hd
      have hnone : m.inside = none := by
        apply hm.inside_none
        intro u code hu
        by_cases hut : u = t
        · rw [hut, hk] at hu
          cases hu
        · exact hother u code hut hu
      refine ⟨_, .single (.enter c hnone), ?_⟩
      rw [heq]
      refine ⟨hm.dev, ?_, hm.results, fun code => ?_⟩
      · show m.log ++ [c] = (s.calls ++ [(some t, c)]).map Prod.snd
        rw [hm.log, List.map_append]
        rfl
      · exact Iff.trans (by simp) (inside_update hother code).symm
    · rw [heq]
      refine ⟨m, .refl, hm.dev, hm.log, hm.results, fun code => (hm.inside code).trans ?_⟩
      exact (inside_quiet (fun c => by rw [hk]; simp) (fun c => by simp) code).symm
    · rw [heq]
      exact ⟨m, .refl, hm.dev, hm.log, hm.results, hm.inside⟩
  | access t hs hk h =>
    rw [← hm.dev] at h
    refine ⟨_, .single (.access ((hm.inside _).2 ⟨t, hk⟩) h), rfl, hm.log, hm.results, fun code => ?_⟩
    exact Iff.trans (by simp) (inside_update (hi.others_quiet hk) code).symm
  | release t hs hk =>
    refine ⟨_, .single (.exit ((hm.inside _).2 ⟨t, hk⟩)), hm.dev, hm.log, ?_, fun code => ?_⟩
    · show m.results ++ _ = s.results ++ _
      rw [hm.results]
    · exact Iff.trans (by simp) (inside_update (hi.others_quiet hk) code).symm
  | message c hquiet h =>
    rw [← hm.dev] at h
    have hnone := hm.inside_none hquiet
    refine ⟨_, Monitor.whole_call hnone h, rfl, ?_, ?_, hm.inside⟩
    · show m.log ++ [c] = (s.calls ++ [(none, c)]).map Prod.snd
      rw [hm.log, List.map_append]
      rfl
    · show m.results ++ _ = s.results ++ _
      rw [hm.results]

open Relation in
theorem Reachable.sim {screen : Screen} {s : ConsoleSys T} (h : Reachable screen s) :
    s.Inv ∧ ∃ m, ReflTransGen (Monitor.Step exec Call.body) (Monitor.init screen) m ∧ Sim s m := by
  induction h with
  | refl => exact ⟨inv_init screen, _, .refl, rfl, rfl, rfl, fun c => by simp [Monitor.init, init]⟩
  | tail _ hstep ih =>
    obtain ⟨hi, m, hrun, hm⟩ := ih
    obtain ⟨m', hm', hsim⟩ := hm.step hi hstep
    exact ⟨hi.step hstep, m', hrun.trans hm', hsim⟩

theorem serial_terminal {cs : List Call} (h8 : ∀ c ∈ cs, 0x08 ∉ c.text) {screen : Screen}
    {t : Terminal 25 80 Screen.Cell} (h : Screen.Shows screen.cursor screen.video t) :
    ∃ screen', Resumption.serial exec Call.body cs screen = .ok (screen', cs.map Call.count) ∧
      Screen.Shows screen'.cursor screen'.video ((cs.flatMap Call.text).foldl Screen.refTerminal t) := by
  induction cs generalizing screen t with
  | nil => exact ⟨screen, rfl, h⟩
  | cons c cs ih =>
    obtain ⟨screen₁, hrun, hshows⟩ := c.run_terminal (h8 c (by simp)) h
    obtain ⟨screen₂, hserial, hshows₂⟩ := ih (fun c' hc' => h8 c' (by simp [hc'])) hshows
    refine ⟨screen₂, ?_, ?_⟩
    · rw [Resumption.serial, hrun, Except.ok_bind, hserial]
      rfl
    · rw [List.flatMap_cons, List.foldl_append]
      exact hshows₂

theorem Reachable.serial_of_quiet {screen : Screen} {s : ConsoleSys T} (h : Reachable screen s)
    (hquiet : ∀ t code, s.task t ≠ .printing code) :
    Resumption.serial exec Call.body (s.calls.map Prod.snd) screen = .ok (s.screen, s.results) := by
  obtain ⟨-, m, hrun, hm⟩ := h.sim
  have hdone := (Monitor.serial_of_run hrun).of_none (hm.inside_none hquiet)
  rwa [hm.log, hm.dev, hm.results] at hdone

/-- While thread `t` prints, its call is the last one, and ends as if it had been made after the others. -/
theorem Reachable.serial_of_printing {screen : Screen} {s : ConsoleSys T} (h : Reachable screen s) {t : T}
    {code : Code Word} (ht : s.task t = .printing code) : ∃ cs c screen', s.calls = cs ++ [(some t, c)] ∧
      Resumption.serial exec Call.body (cs.map Prod.snd) screen = .ok (screen', s.results) ∧
      code.run exec s.screen = c.body.run exec screen' := by
  obtain ⟨hi, m, hrun, hm⟩ := h.sim
  obtain ⟨ops, o, screen', hlog, hdone, hrest⟩ :=
    (Monitor.serial_of_run hrun).of_some ((hm.inside code).2 ⟨t, ht⟩)
  obtain ⟨cs, c, hcalls⟩ := hi.last t code ht
  have hsplit : cs.map Prod.snd ++ [c] = ops ++ [o] := by
    rw [← hlog, hm.log, hcalls, List.map_append]
    rfl
  obtain ⟨rfl, hc⟩ := List.append_inj' hsplit rfl
  obtain rfl := List.singleton_inj.1 hc
  rw [hm.results] at hdone
  rw [hm.dev] at hrest
  exact ⟨cs, c, screen', hcalls, hdone, hrest⟩

theorem Reachable.terminal_of_quiet {screen : Screen} {s : ConsoleSys T} (h : Reachable screen s)
    (hquiet : ∀ t code, s.task t ≠ .printing code) (hc : screen.cursor < 2000)
    (h8 : ∀ c ∈ s.calls.map Prod.snd, 0x08 ∉ c.text) : ∃ h' : s.screen.cursor < 2000, s.screen.terminal h' =
      ((s.calls.map Prod.snd).flatMap Call.text).foldl Screen.refTerminal (screen.terminal hc) ∧
      s.results = (s.calls.map Prod.snd).map Call.count := by
  obtain ⟨screen', hserial, hshows⟩ := serial_terminal h8 (Screen.shows_terminal screen hc)
  rw [h.serial_of_quiet hquiet] at hserial
  obtain ⟨rfl, hresults⟩ := Prod.mk.inj (Except.ok.inj hserial)
  exact ⟨hshows.lt, hshows.terminal_eq, hresults⟩

/-! ## A thread that runs -/

theorem step_inside {s : ConsoleSys T} {t : T} {l : LockSys T} (hs : s.lock.status t = .ready)
    (hpc : s.lock.pc t ≠ .out) (h : s.lock.stmt t = some l) (hl : l.pc t ≠ .out) : Step s { s with lock := l } := by
  have hstep := Step.stmt t hs hpc h
  rwa [afterStmt, if_neg hl] at hstep

/-- Thread `t` is at statement `p` of the lock's functions, and the fields of the lock are `l`. -/
def lockAt (s : ConsoleSys T) (t : T) (p : LockSys.Pc) (l : Lock T) : ConsoleSys T :=
  { s with lock := { s.lock with lock := l }.goto t p }

theorem lockAt_step {s : ConsoleSys T} {t : T} (hs : s.lock.status t = .ready) {p p' : LockSys.Pc} {l l' : Lock T}
    (hp : p ≠ .out) (hp' : p' ≠ .out) (h : (s.lockAt t p l).lock.stmt t = some (s.lockAt t p' l').lock) :
    Step (s.lockAt t p l) (s.lockAt t p' l') := by
  refine step_inside (s := s.lockAt t p l) hs ?_ h ?_
  · simpa [lockAt, LockSys.goto] using hp
  · simpa [lockAt, LockSys.goto] using hp'

/-- The lock that thread `t` has taken once, with nobody waiting for it. -/
def takenBy (t : T) : Lock T := ⟨some t, ⟨0, []⟩, 1⟩

open Relation in
theorem take_free {s : ConsoleSys T} {t : T} (hu : s.lock.lock = lockInit) (hs : s.lock.status t = .ready)
    (hk : s.task t = .idle) (c : Call) : ∃ s', ReflTransGen Step s s' ∧
      s'.task = Function.update s.task t (.printing c.body) ∧ s'.screen = s.screen ∧ s'.calls = s.calls ++ [(some t, c)] ∧
      s'.lock.status = s.lock.status ∧ s'.lock.lock = takenBy t := by
  -- the caller at the statements of `ConsoleLockAcquire`
  let s₁ : ConsoleSys T :=
    { s.setTask t (.acquiring c) with called := Function.update s.called t (s.called t ++ [c]) }
  have hs₁ : s₁.lock.status t = .ready := hs
  have h1 : Step s (s₁.lockAt t .lockTest lockInit) := by
    rw [← hu]
    exact .call t c hs hk
  have h2 : Step (s₁.lockAt t .lockTest lockInit) (s₁.lockAt t .semDown lockInit) := by
    apply lockAt_step hs₁ (by decide) (by decide)
    simp [LockSys.stmt, lockAt, LockSys.goto, lockInit]
  have h3 : Step (s₁.lockAt t .semDown lockInit) (s₁.lockAt t .setHolder ⟨none, ⟨0, []⟩, 0⟩) := by
    apply lockAt_step hs₁ (by decide) (by decide)
    simp [LockSys.stmt, lockAt, LockSys.goto, Semaphore.down, lockInit, semaphoreInit]
  have h4 : Step (s₁.lockAt t .setHolder ⟨none, ⟨0, []⟩, 0⟩) (s₁.lockAt t .assertZero ⟨some t, ⟨0, []⟩, 0⟩) := by
    apply lockAt_step hs₁ (by decide) (by decide)
    simp [LockSys.stmt, lockAt, LockSys.goto]
  have h5 : Step (s₁.lockAt t .assertZero ⟨some t, ⟨0, []⟩, 0⟩) (s₁.lockAt t .setOne ⟨some t, ⟨0, []⟩, 0⟩) := by
    apply lockAt_step hs₁ (by decide) (by decide)
    simp [LockSys.stmt, lockAt, LockSys.goto]
  have h6 := Step.stmt (s := s₁.lockAt t .setOne ⟨some t, ⟨0, []⟩, 0⟩) t hs₁ (by simp [lockAt, LockSys.goto]) (by
    simp only [LockSys.stmt, lockAt, LockSys.goto, Function.update_self]; rfl)
  rw [afterStmt, if_pos (by simp [LockSys.leave])] at h6
  simp only [lockAt, s₁, setTask, Function.update_self, Function.update_idem] at h6
  exact ⟨_, (((((ReflTransGen.single h1).tail h2).tail h3).tail h4).tail h5).tail h6, rfl, rfl, rfl, rfl, rfl⟩

open Relation in
theorem give_back {s : ConsoleSys T} {t : T} (hu : s.lock.lock = takenBy t) (hs : s.lock.status t = .ready) {n : Word}
    (hk : s.task t = .printing (.ret n)) : ∃ s', ReflTransGen Step s s' ∧
      s'.task = Function.update s.task t .idle ∧ s'.screen = s.screen ∧ s'.calls = s.calls ∧
      s'.lock.status = s.lock.status ∧ s'.lock.lock = lockInit := by
  -- the caller at the statements of `ConsoleLockRelease`
  let s₁ : ConsoleSys T := { s.setTask t (.releasing n) with results := s.results ++ [n] }
  have hs₁ : s₁.lock.status t = .ready := hs
  have h1 : Step s (s₁.lockAt t .assertHolder (takenBy t)) := by
    rw [← hu]
    exact .release t hs hk
  have h2 : Step (s₁.lockAt t .assertHolder (takenBy t)) (s₁.lockAt t .testNested (takenBy t)) := by
    apply lockAt_step hs₁ (by decide) (by decide)
    simp [LockSys.stmt, lockAt, LockSys.goto, takenBy]
  have h3 : Step (s₁.lockAt t .testNested (takenBy t)) (s₁.lockAt t .assertOne (takenBy t)) := by
    apply lockAt_step hs₁ (by decide) (by decide)
    simp [LockSys.stmt, lockAt, LockSys.goto, takenBy]
  have h4 : Step (s₁.lockAt t .assertOne (takenBy t)) (s₁.lockAt t .clearSum (takenBy t)) := by
    apply lockAt_step hs₁ (by decide) (by decide)
    simp [LockSys.stmt, lockAt, LockSys.goto, takenBy]
  have h5 : Step (s₁.lockAt t .clearSum (takenBy t)) (s₁.lockAt t .clearHolder ⟨some t, ⟨0, []⟩, 0⟩) := by
    apply lockAt_step hs₁ (by decide) (by decide)
    simp [LockSys.stmt, lockAt, LockSys.goto, takenBy]
  have h6 : Step (s₁.lockAt t .clearHolder ⟨some t, ⟨0, []⟩, 0⟩) (s₁.lockAt t .semUp ⟨none, ⟨0, []⟩, 0⟩) := by
    apply lockAt_step hs₁ (by decide) (by decide)
    simp [LockSys.stmt, lockAt, LockSys.goto]
  have h7 := Step.stmt (s := s₁.lockAt t .semUp ⟨none, ⟨0, []⟩, 0⟩) t hs₁ (by simp [lockAt, LockSys.goto]) (by
    simp only [LockSys.stmt, lockAt, LockSys.goto, Function.update_self, Semaphore.up]; rfl)
  rw [afterStmt, if_pos (by simp [LockSys.leave])] at h7
  simp only [lockAt, s₁, setTask, Function.update_self, Function.update_idem] at h7
  exact ⟨_, ((((((ReflTransGen.single h1).tail h2).tail h3).tail h4).tail h5).tail h6).tail h7, rfl, rfl, rfl, rfl, rfl⟩

open Relation in
theorem printing_ends {s : ConsoleSys T} {t : T} {code : Code Word} (hs : s.lock.status t = .ready)
    (hk : s.task t = .printing code) {screen : Screen} {n : Word} (hrun : code.run exec s.screen = .ok (screen, n)) :
    ReflTransGen Step s { s.setTask t (.printing (.ret n)) with screen := screen } := by
  induction code generalizing s with
  | ret m =>
    obtain ⟨rfl, rfl⟩ := Prod.mk.inj (Except.ok.inj hrun)
    rw [setTask, ← hk, Function.update_eq_self]
  | act x k ih =>
    obtain ⟨⟨screen', b⟩, hx, hrest⟩ := Except.bind_eq_ok.1
      (show (exec x s.screen >>= fun r => (k r.2).run exec r.1) = .ok (screen, n) from hrun)
    have hstep : Step s { s.setTask t (.printing (k b)) with screen := screen' } := by
      apply Step.access t hs hk
      rw [Resumption.step, hx]
      rfl
    have hgo := ih b (s := { s.setTask t (.printing (k b)) with screen := screen' }) hs
      (Function.update_self ..) hrest
    simp only [setTask, Function.update_idem] at hgo
    exact .head hstep hgo

/-! ## The results -/

/-- **Calls to the console are made one after another.** Any number of threads call the functions of `console.c`, and
are preempted wherever they are: between any two statements of the lock's functions and between any two accesses to
the display; interrupt handlers print without the lock, while no thread is in the middle of a body. In every state
reached the display, and what the calls that are done returned, are those of the calls made one after another in the
order they took the lock, with the handlers' in between; the call of the thread that prints ends, if it is let go on, as if
it had been made after them without interruption; the calls of each thread took the lock in the order it made them,
but for one it still waits to make; and no `ASSERT` of the lock fails. -/
theorem console_calls_serial (screen : Screen) (s : ConsoleSys T) (h : Reachable screen s) :
    ((∀ t code, s.task t ≠ .printing code) →
      Resumption.serial exec Call.body (s.calls.map Prod.snd) screen = .ok (s.screen, s.results)) ∧
    (∀ t code, s.task t = .printing code → ∃ cs c screen', s.calls = cs ++ [(some t, c)] ∧
      Resumption.serial exec Call.body (cs.map Prod.snd) screen = .ok (screen', s.results) ∧
      code.run exec s.screen = c.body.run exec screen') ∧
    (∀ t, s.called t = ((s.calls.filter fun x => x.1 = some t).map Prod.snd) ++ (s.task t).pending) ∧
    (∀ t, s.lock.status t = .ready → s.lock.pc t ≠ .out → ∃ l, s.lock.stmt t = some l) := by
  have hi := h.sim.1
  exact ⟨h.serial_of_quiet, fun t code ht => h.serial_of_printing ht, hi.called,
    fun t hs hpc => hi.lock.stmt_isSome hs hpc⟩

/-- Thread 0 has the lock for the letter `A` and has made one access, when thread 1 calls for a line feed. -/
theorem console_calls_serial_preempted : ∃ s : ConsoleSys (Fin 2), Reachable Screen.cleared s ∧
    s.called 1 = [.putchar 0x0a] ∧ ∃ code cs c screen', s.task 0 = .printing code ∧
      s.calls = cs ++ [(some 0, c)] ∧
      Resumption.serial exec Call.body (cs.map Prod.snd) Screen.cleared = .ok (screen', s.results) ∧
      code.run exec s.screen = c.body.run exec screen' := by
  have hfree : (init Screen.cleared : ConsoleSys (Fin 2)).lock.lock = lockInit := rfl
  obtain ⟨s, hreach, htask, -, hcalls, hstatus, -⟩ := take_free (t := 0) hfree rfl rfl (.putchar 0x41)
  have h0 : s.task 0 = .printing (Call.putchar 0x41).body := by rw [htask, Function.update_self]
  have h1 : s.task 1 = .idle := by
    rw [htask]
    rfl
  have hready : ∀ t, s.lock.status t = .ready := fun t => by rw [hstatus]; rfl
  have hcall := (hreach.tail (.access 0 (hready 0) h0 rfl)).tail (.call 1 (.putchar 0x0a) (hready 1) h1)
  obtain ⟨-, hprint, hcalled, -⟩ := console_calls_serial Screen.cleared _ hcall
  obtain ⟨cs, c, screen', hlast, hserial, hrest⟩ := hprint 0 _ rfl
  refine ⟨_, hcall, ?_, _, cs, c, screen', rfl, hlast, hserial, hrest⟩
  rw [hcalled 1]
  simp [call, setTask, hcalls, init, Task.pending]

/-- **What the threads print is what the display shows.** From a display with the cursor on it, and with calls that
print no backspace, in every state reached: while nobody prints, the display is the terminal fed with the texts of the
calls, in the order they took the lock, and each call has returned the number of its characters; the next access of a
thread that prints does not fault, and let go on, it comes to the end of its call with the display as the terminal fed
with all the texts. -/
theorem console_shows_texts (screen : Screen) (hc : screen.cursor < 2000) (s : ConsoleSys T)
    (h : Reachable screen s) (h8 : ∀ x ∈ s.calls, 0x08 ∉ x.2.text) :
    ((∀ t code, s.task t ≠ .printing code) → ∃ h' : s.screen.cursor < 2000, s.screen.terminal h' =
      ((s.calls.map Prod.snd).flatMap Call.text).foldl Screen.refTerminal (screen.terminal hc) ∧
      s.results = (s.calls.map Prod.snd).map Call.count) ∧
    (∀ t code, s.task t = .printing code →
      ((∃ n, code = .ret n) ∨ ∃ screen' code', code.step exec s.screen = some (.ok (screen', code'))) ∧
      (s.lock.status t = .ready → ∃ screen' n, ∃ h' : screen'.cursor < 2000,
        Relation.ReflTransGen Step s { s.setTask t (.printing (.ret n)) with screen := screen' } ∧
        screen'.terminal h' =
          ((s.calls.map Prod.snd).flatMap Call.text).foldl Screen.refTerminal (screen.terminal hc))) := by
  have h8' : ∀ c ∈ s.calls.map Prod.snd, 0x08 ∉ c.text := by
    intro c hmem
    obtain ⟨x, hx, rfl⟩ := List.mem_map.1 hmem
    exact h8 x hx
  refine ⟨fun hquiet => h.terminal_of_quiet hquiet hc h8', ?_⟩
  intro t code ht
  obtain ⟨cs, c, screen₁, hcalls, hserial, hrest⟩ := h.serial_of_printing ht
  rw [hcalls, List.map_append] at h8'
  obtain ⟨screen₁', hserial', hshows⟩ :=
    serial_terminal (fun c hc => h8' c (List.mem_append_left _ hc)) (Screen.shows_terminal screen hc)
  rw [hserial] at hserial'
  obtain ⟨rfl, -⟩ := Prod.mk.inj (Except.ok.inj hserial')
  obtain ⟨screen', hrun, hshows'⟩ := c.run_terminal (h8' c (by simp)) hshows
  rw [← hrest] at hrun
  refine ⟨Resumption.exists_step hrun, fun hs => ⟨screen', _, hshows'.lt, printing_ends hs ht hrun, ?_⟩⟩
  rw [hshows'.terminal_eq, hcalls]
  simp

theorem cleared_on_screen : Screen.cleared.cursor < 2000 := by decide

/-- Thread 0 has printed the letter `A`, and thread 1 has the lock for `B`. -/
theorem two_callers : ∃ s : ConsoleSys (Fin 2), Reachable Screen.cleared s ∧
    s.calls = [(some 0, .putchar 0x41), (some 1, .putchar 0x42)] ∧ (∀ t, s.lock.status t = .ready) ∧
    s.task 1 = .printing (Call.putchar 0x42).body := by
  have hfree : (init Screen.cleared : ConsoleSys (Fin 2)).lock.lock = lockInit := rfl
  obtain ⟨s₁, hreach₁, htask₁, hscreen₁, hcalls₁, hstatus₁, htaken⟩ := take_free (t := 0) hfree rfl rfl (.putchar 0x41)
  have h0 : s₁.task 0 = .printing (Call.putchar 0x41).body := by rw [htask₁, Function.update_self]
  have hready₁ : ∀ t, s₁.lock.status t = .ready := fun t => by rw [hstatus₁]; rfl
  have hshows : Screen.Shows s₁.screen.cursor s₁.screen.video (Screen.cleared.terminal cleared_on_screen) := by
    rw [hscreen₁]
    exact Screen.shows_terminal Screen.cleared cleared_on_screen
  obtain ⟨screen, hrun, -⟩ := (Call.putchar 0x41).run_terminal (by decide) hshows
  have hprinted := printing_ends (hready₁ 0) h0 hrun
  have hdone : (s₁.setTask 0 (.printing (.ret (Call.putchar 0x41).count))).task 0 =
      .printing (.ret (Call.putchar 0x41).count) := by simp [setTask]
  obtain ⟨s₂, hback, htask₂, -, hcalls₂, hstatus₂, hfree₂⟩ := give_back
    (s := { s₁.setTask 0 (.printing (.ret (Call.putchar 0x41).count)) with screen := screen }) (t := 0) htaken (hready₁ 0)
    hdone
  have h1 : s₂.task 1 = .idle := by simp [htask₂, setTask, htask₁, init]
  have hready₂ : ∀ t, s₂.lock.status t = .ready := fun t => by rw [hstatus₂]; exact hready₁ t
  obtain ⟨s, hreach, htask, -, hcalls, hstatus, -⟩ := take_free hfree₂ (hready₂ 1) h1 (.putchar 0x42)
  refine ⟨s, ((hreach₁.trans hprinted).trans hback).trans hreach, ?_, ?_, ?_⟩
  · rw [hcalls, hcalls₂]
    show s₁.calls ++ _ = _
    rw [hcalls₁]
    rfl
  · intro t
    rw [hstatus]
    exact hready₂ t
  · rw [htask, Function.update_self]

/-- Let go on, thread 1 has `B` on the display behind the `A` of thread 0. -/
theorem console_shows_texts_two : ∃ s : ConsoleSys (Fin 2), Reachable Screen.cleared s ∧
    s.calls = [(some 0, .putchar 0x41), (some 1, .putchar 0x42)] ∧ ∃ screen' n, ∃ h' : screen'.cursor < 2000,
      Relation.ReflTransGen Step s { s.setTask 1 (.printing (.ret n)) with screen := screen' } ∧
      screen'.terminal h' = [0x41, 0x42].foldl Screen.refTerminal (Screen.cleared.terminal cleared_on_screen) := by
  obtain ⟨s, hreach, hcalls, hready, h1⟩ := two_callers
  have h8 : ∀ x ∈ s.calls, 0x08 ∉ x.2.text := by
    rw [hcalls]
    simp [Call.text]
  obtain ⟨screen', n, h', hgo, hterminal⟩ :=
    ((console_shows_texts Screen.cleared cleared_on_screen s hreach h8).2 1 _ h1).2 (hready 1)
  rw [hcalls] at hterminal
  exact ⟨s, hreach, hcalls, screen', n, h', hgo, hterminal⟩

end ConsoleSys

end ElephantOS
