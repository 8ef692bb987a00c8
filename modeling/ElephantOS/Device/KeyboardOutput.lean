import ElephantOS.Device.ConsoleCalls
import ElephantOS.Device.KeyStream

/-!
# From the keyboard to the display (`kernel/main.c`, `device/keyboard.c`, `device/console.c`)

The thread of `KeyboardOutput` takes the characters from `keyboard_IO_buf`, with interrupts off, and calls
`console_putchar` for each; other threads print too.

* `Echo`, `Echo.keyboardOutput` : the two devices, and one pass of the thread's loop;
* `Echo.Reached kout buf screen seen chars s` : the bytes `seen` (the newest first) have come from the controller, and
  `Keyboard.typed` gives `chars` for them;
* `typed_is_shown` : what is typed is printed, in order, or in the ring.
-/

namespace ElephantOS
open Console

/-- The keyboard with its queue, and the console. -/
structure Echo (T : Type*) where
  kbd : Keyboard T
  con : ConsoleSys T

def unknownKey : List UInt8 :=
  [0x75, 0x6e, 0x6b, 0x6e, 0x6f, 0x77, 0x6e, 0x20, 0x6b, 0x65, 0x79, 0x21, 0x0a]

namespace Echo
variable {T : Type*} [DecidableEq T]

/-- One pass of the loop of `KeyboardOutput`, in thread `t`, until the call of `console_putchar`. -/
def keyboardOutput (s : Echo T) (t : T) : Except IoSys.Failed (Echo T) :=
  if !s.kbd.io.queue.ioqueueEmpty then
    match s.kbd.io.exec (.call t .getchar) with
    | .error f => .error f
    | .ok io => .ok ⟨{ s.kbd with io := io }, s.con.call t (.putchar ((io.received t).getLastD 0))⟩
  else .ok s

/-- Bytes come from the controller, the thread `kout` makes passes of its loop, and the threads go on in the console's
functions, in any order. The handler prints with interrupts off; it does so while no thread is in the middle of
printing. -/
inductive Reached (kout : T) (buf : Nat → UInt8) (screen : Screen) : List UInt8 → List UInt8 → Echo T → Prop
  | init : Reached kout buf screen [] [] ⟨Keyboard.keyboardInit buf, ConsoleSys.init screen⟩
  | byte {seen chars : List UInt8} {s : Echo T} {k : Keyboard T} (t : T) (b : UInt8)
      (h : Reached kout buf screen seen chars s) (hb : s.kbd.intKeyboardHandler t b = .ok k)
      (hp : k.printed = s.kbd.printed) :
      Reached kout buf screen (b :: seen) (chars ++ Keyboard.typed seen s.kbd b) { s with kbd := k }
  | unknown {seen chars : List UInt8} {s : Echo T} {k : Keyboard T} (t : T) (b : UInt8) (str : Str) {screen' : Screen}
      {n : Bytes.Word} (h : Reached kout buf screen seen chars s) (hb : s.kbd.intKeyboardHandler t b = .ok k)
      (hp : k.printed = s.kbd.printed ++ ["unknown key!\n"]) (hstr : str.text = unknownKey)
      (hquiet : ∀ t code, s.con.task t ≠ .printing code)
      (hrun : (Call.putstr str).body.run exec s.con.screen = .ok (screen', n)) :
      Reached kout buf screen (b :: seen) (chars ++ Keyboard.typed seen s.kbd b)
        ⟨k, s.con.handlerPrinted (.putstr str) screen' n⟩
  | pass {seen chars : List UInt8} {s s' : Echo T} (h : Reached kout buf screen seen chars s)
      (hs : s.con.lock.status kout = .ready) (hk : s.con.task kout = .idle) (hpass : s.keyboardOutput kout = .ok s') :
      Reached kout buf screen seen chars s'
  | step {seen chars : List UInt8} {s : Echo T} {con : ConsoleSys T} (h : Reached kout buf screen seen chars s)
      (hcon : s.con.Step con) (hcalled : con.called kout = s.con.called kout) :
      Reached kout buf screen seen chars { s with con := con }

structure Inv (kout : T) (buf : Nat → UInt8) (screen : Screen) (seen chars : List UInt8) (s : Echo T) : Prop where
  kbd : Keyboard.Runs buf seen chars (s.kbd.io.received kout) s.kbd
  con : ConsoleSys.Reachable screen s.con
  /-- the thread prints what it gets -/
  called : s.con.called kout = (s.kbd.io.received kout).map .putchar

/-- A byte, with what its handler does to the display. -/
theorem Inv.byte {kout : T} {buf : Nat → UInt8} {screen : Screen} {seen chars : List UInt8} {s : Echo T}
    (hi : Inv kout buf screen seen chars s) {k : Keyboard T} {t : T} {b : UInt8}
    (hb : s.kbd.intKeyboardHandler t b = .ok k) {con : ConsoleSys T} (hcon : ConsoleSys.Reachable screen con)
    (hcalled : con.called = s.con.called) :
    Inv kout buf screen (b :: seen) (chars ++ Keyboard.typed seen s.kbd b) ⟨k, con⟩ := by
  obtain ⟨k', hk', hputs, -⟩ := hi.kbd.typing.byte t b
  rw [hb] at hk'
  obtain rfl := Except.ok.inj hk'
  have hreceived : k.io.received kout = s.kbd.io.received kout := by rw [hputs.received]
  refine ⟨?_, hcon, ?_⟩
  · show Keyboard.Runs buf _ _ (k.io.received kout) k
    rw [hreceived]
    exact hi.kbd.byte t b hb
  · show con.called kout = (k.io.received kout).map _
    rw [hreceived, hcalled]
    exact hi.called

/-- A pass that finds a character: it is the oldest in the ring. -/
theorem Inv.pass {kout : T} {buf : Nat → UInt8} {screen : Screen} {seen chars : List UInt8} {s : Echo T}
    (hi : Inv kout buf screen seen chars s) (hs : s.con.lock.status kout = .ready) (hk : s.con.task kout = .idle) :
    ∃ s', s.keyboardOutput kout = .ok s' ∧ Inv kout buf screen seen chars s' := by
  obtain ⟨xs, -, hxs⟩ := hi.kbd.typing.ring
  unfold keyboardOutput
  cases he : s.kbd.io.queue.ioqueueEmpty with
  | true => exact ⟨s, rfl, hi⟩
  | false =>
    obtain ⟨c, xs, rfl⟩ : ∃ c ys, xs = c :: ys := by
      cases xs with
      | nil =>
        rw [hxs.empty_iff.2 rfl] at he
        cases he
      | cons c ys => exact ⟨c, ys, rfl⟩
    obtain ⟨io, hexec, hreceived, -⟩ := hxs.getchar kout
    have hlast : (io.received kout).getLastD 0 = c := by rw [hreceived, List.getLastD_concat]
    rw [Bool.not_false, if_pos rfl, hexec]
    refine ⟨_, rfl, ?_, hi.con.tail (.call kout _ hs hk), ?_⟩
    · show Keyboard.Runs buf seen chars (io.received kout) { s.kbd with io := io }
      rw [hreceived]
      exact hi.kbd.getchar kout c he hexec hreceived
    · show Function.update s.con.called kout _ kout = (io.received kout).map _
      rw [Function.update_self, hlast, hreceived, List.map_append, hi.called]
      rfl

theorem Reached.inv {kout : T} {buf : Nat → UInt8} {screen : Screen} {seen chars : List UInt8} {s : Echo T}
    (h : Reached kout buf screen seen chars s) : Inv kout buf screen seen chars s := by
  induction h with
  | init => exact ⟨.init, .refl, rfl⟩
  | byte t b _ hb _ ih => exact ih.byte hb ih.con rfl
  | unknown t b str _ hb _ _ hquiet hrun ih => exact ih.byte hb (ih.con.tail (.message _ hquiet hrun)) rfl
  | pass _ hs hk hpass ih =>
    obtain ⟨s', hs', hi⟩ := ih.pass hs hk
    rw [hpass] at hs'
    obtain rfl := Except.ok.inj hs'
    exact hi
  | step _ hcon hcalled ih => exact ⟨ih.kbd, ih.con.tail hcon, hcalled.trans ih.called⟩

theorem text_putchars (cs : List UInt8) : (cs.map Call.putchar).flatMap Call.text = cs := by
  rw [List.flatMap_map]
  exact List.flatMap_singleton' cs

/-- **What is typed is shown.** Whatever bytes have come from the keyboard, whatever the other threads print and
wherever the threads are preempted (the handler's own message for an unknown key comes while no thread is in the middle
of printing): the characters typed, without those that came while the ring was full, are, in order, those
`KeyboardOutput` has printed, at most one that it waits to print, and those in the ring, at most 63; the handler returns
from the next byte, a pass of the loop does not fail, and neither does an `ASSERT` of the console's lock. On a display
whose cursor was on the screen at first, and as long as no text printed has a backspace (the keyboard can type one), all
of it is there while nobody prints: the terminal fed with the texts of all the calls, in the order they took the lock. -/
theorem typed_is_shown {kout : T} {buf : Nat → UInt8} {screen : Screen} {seen chars : List UInt8} {s : Echo T}
    (h : Reached kout buf screen seen chars s) :
    (∃ xs, chars = ((s.con.calls.filter fun x => x.1 = some kout).map Prod.snd).flatMap Call.text ++
        (s.con.task kout).pending.flatMap Call.text ++ xs ∧ xs.length ≤ 63 ∧
      ∀ i (hi : i < xs.length), s.kbd.io.queue.buf ((s.kbd.io.queue.tail + i) % 64) = xs[i]) ∧
    (∀ t b, ∃ k, s.kbd.intKeyboardHandler t b = .ok k) ∧
    (s.con.lock.status kout = .ready → s.con.task kout = .idle → ∃ s', s.keyboardOutput kout = .ok s') ∧
    (∀ t, s.con.lock.status t = .ready → s.con.lock.pc t ≠ .out → ∃ l, s.con.lock.stmt t = some l) ∧
    (∀ hc : screen.cursor < 2000, (∀ x ∈ s.con.calls, 0x08 ∉ x.2.text) →
      (∀ t code, s.con.task t ≠ .printing code) → ∃ h' : s.con.screen.cursor < 2000, s.con.screen.terminal h' =
        ((s.con.calls.map Prod.snd).flatMap Call.text).foldl Screen.refTerminal (screen.terminal hc)) := by
  have hi := h.inv
  have hcon := hi.con.sim.1
  obtain ⟨xs, hchars, hxs⟩ := hi.kbd.typing.ring
  refine ⟨⟨xs, ?_, Nat.le_of_lt_succ hxs.ring.room, hxs.ring.cell⟩, ?_, ?_, ?_, ?_⟩
  · rw [← List.flatMap_append, ← hcon.called kout, hi.called, text_putchars]
    exact hchars
  · intro t b
    obtain ⟨k, hk, -⟩ := hi.kbd.typing.byte t b
    exact ⟨k, hk⟩
  · intro hs hk
    obtain ⟨s', hs', -⟩ := hi.pass hs hk
    exact ⟨s', hs'⟩
  · intro t hs hpc
    exact hcon.lock.stmt_isSome hs hpc
  · intro hc h8 hquiet
    obtain ⟨h', hterm, -⟩ := hi.con.terminal_of_quiet hquiet hc (List.forall_mem_map.2 fun x hx => h8 x hx)
    exact ⟨h', hterm⟩

/-- The key of `a` goes down and the thread calls for its character. -/
theorem typed_is_shown_a : ∃ s : Echo (Fin 2), Reached 0 (fun _ => 0) Screen.cleared [0x1E] [0x61] s ∧
    (s.con.task 0).pending.flatMap Call.text = [0x61] ∧ ∀ t b, ∃ k, s.kbd.intKeyboardHandler t b = .ok k := by
  have h0 : Reached (0 : Fin 2) (fun _ => 0) Screen.cleared [] [] _ := .init
  have h1 := h0.byte 1 0x1E rfl rfl
  have h2 := h1.pass rfl rfl rfl
  exact ⟨_, h2, rfl, (typed_is_shown h2).2.1⟩

end Echo

end ElephantOS
