import ElephantOS.Device.IoFifo
import Mathlib.Data.FinEnum

/-!
# The keyboard interrupt (`device/keyboard.c`)

`IntKeyboardHandler` takes one byte from the controller per interrupt. A code is one byte, or two with
`E0` first; the handler keeps the prefix in `ext_scancode` until the next interrupt.

* `KeyFlags` : the static variables; `KeyFlags.breakCode`, `KeyFlags.makeCode` : what they become;
* `keymap`, `shiftMode` : the table and the choice of its column;
* `intKeyboardHandler` : the handler, run in the thread `t` it interrupts;
* `KeyFlags.next` : the flags after a byte, whatever happens to the queue;
* `Key`, `KeyCode`, `held` : keys, their codes, and the keys that are down after some codes;
* `modifier_flags_track_iff` : when the flags are right after every code.
-/


namespace ElephantOS

/-- The static variables of `keyboard.c`. -/
structure KeyFlags where
  ctrlStatus : UInt8
  shiftStatus : UInt8
  altStatus : UInt8
  capsLockStatus : UInt8
  extScancode : UInt8
  deriving DecidableEq, Repr

def shiftLMake : UInt16 := 0x2a
def shiftRMake : UInt16 := 0x36
def altLMake : UInt16 := 0x38
def altRMake : UInt16 := 0xe038
def ctrlLMake : UInt16 := 0x1d
def ctrlRMake : UInt16 := 0xe01d
def capsLockMake : UInt16 := 0x3a

def keyRow (plain shifted : Char) : UInt8 × UInt8 := (plain.toUInt8, shifted.toUInt8)

/-- `keymap`, by make code. The characters are ASCII; `0` stands for `char_invisible`. -/
def keymap : List (UInt8 × UInt8) := [
  (0, 0),
  (0x1b, 0x1b), -- esc
  keyRow '1' '!', keyRow '2' '@', keyRow '3' '#', keyRow '4' '$', keyRow '5' '%',
  keyRow '6' '^', keyRow '7' '&', keyRow '8' '*', keyRow '9' '(', keyRow '0' ')',
  keyRow '-' '_', keyRow '=' '+',
  (0x08, 0x08), -- backspace
  (0x09, 0x09), -- tab
  keyRow 'q' 'Q', keyRow 'w' 'W', keyRow 'e' 'E', keyRow 'r' 'R', keyRow 't' 'T',
  keyRow 'y' 'Y', keyRow 'u' 'U', keyRow 'i' 'I', keyRow 'o' 'O', keyRow 'p' 'P',
  (0x5b, 0x7b), -- brackets and braces
  (0x5d, 0x7d),
  (0x0d, 0x0d), -- enter
  (0, 0), -- 0x1d, ctrl_l_char
  keyRow 'a' 'A', keyRow 's' 'S', keyRow 'd' 'D', keyRow 'f' 'F', keyRow 'g' 'G',
  keyRow 'h' 'H', keyRow 'j' 'J', keyRow 'k' 'K', keyRow 'l' 'L',
  keyRow ';' ':',
  (0x27, 0x22), -- the quotes
  (0x60, 0x7e), -- backquote and tilde
  (0, 0), -- 0x2a, shift_l_char
  (0x5c, 0x7c), -- backslash and bar
  keyRow 'z' 'Z', keyRow 'x' 'X', keyRow 'c' 'C', keyRow 'v' 'V', keyRow 'b' 'B',
  keyRow 'n' 'N', keyRow 'm' 'M',
  keyRow ',' '<', keyRow '.' '>', keyRow '/' '?',
  (0, 0), -- 0x36, shift_r_char
  keyRow '*' '*',
  (0, 0), -- 0x38, alt_l_char
  keyRow ' ' ' ',
  (0, 0)] -- 0x3a, caps_lock_char

namespace KeyFlags

/-- `scan_code` once a pending prefix is added. -/
def scanCode (f : KeyFlags) (b : UInt8) : UInt16 :=
  if f.extScancode ≠ 0 then 0xE000 ||| b.toUInt16 else b.toUInt16

/-- The break branch: each of its three tests stands alone. -/
def breakCode (f : KeyFlags) (makeCode : UInt16) : KeyFlags :=
  let f := if makeCode = ctrlLMake ∨ makeCode = ctrlRMake then { f with ctrlStatus := 0 } else f
  let f := if makeCode = shiftLMake ∨ makeCode = shiftRMake then { f with shiftStatus := 0 } else f
  if makeCode = altLMake ∨ makeCode = altRMake then { f with altStatus := 0 } else f

/-- The end of the make branch, where `scan_code` has lost its prefix. -/
def makeCode (f : KeyFlags) (scanCode : UInt16) : KeyFlags :=
  if scanCode = ctrlLMake ∨ scanCode = ctrlRMake then { f with ctrlStatus := 1 }
  else if scanCode = shiftLMake ∨ scanCode = shiftRMake then { f with shiftStatus := 1 }
  else if scanCode = altLMake ∨ scanCode = altRMake then { f with altStatus := 1 }
  else if scanCode = capsLockMake then
    { f with capsLockStatus := if f.capsLockStatus = 0 then 1 else 0 }
  else f

end KeyFlags

/-- The test of the make branch. -/
def isMake (scanCode : UInt16) : Bool :=
  (0x00 < scanCode && scanCode < 0x3B) || scanCode == altRMake || scanCode == ctrlRMake

/-- The keys whose two characters Caps Lock does not exchange. -/
def isTwoChar (scanCode : UInt16) : Bool :=
  scanCode < 0x0e || scanCode == 0x29 || scanCode == 0x1a || scanCode == 0x1b || scanCode == 0x2b ||
    scanCode == 0x27 || scanCode == 0x28 || scanCode == 0x33 || scanCode == 0x34 || scanCode == 0x35

def shiftMode (f : KeyFlags) (scanCode : UInt16) : Bool :=
  if isTwoChar scanCode then f.shiftStatus != 0 else f.shiftStatus ^^^ f.capsLockStatus != 0

/-- The keyboard's variables, `keyboard_IO_buf` with the threads that use it, and the texts the handler
has printed. -/
structure Keyboard (T : Type*) where
  flags : KeyFlags
  io : IoSys T
  printed : List String

namespace Keyboard
variable {T : Type*} [DecidableEq T]

/-- What can go wrong in the handler: an index past the end of `keymap`, or a failed `ASSERT` of the
queue. -/
inductive Fault where
  | keymap (idx : Nat)
  | queue (f : IoSys.Failed)
  deriving DecidableEq, Repr

def keyboardInit (buf : Nat → UInt8) : Keyboard T := ⟨⟨0, 0, 0, 0, 0⟩, IoSys.init buf, []⟩

/-- The part of the make branch that stores the character. -/
def putKey (k : Keyboard T) (t : T) (currentIdx : Nat) (mode : Bool) : Except Fault (Keyboard T) :=
  match keymap[currentIdx]? with
  | none => .error (.keymap currentIdx)
  | some row =>
    let currentChar := if mode then row.2 else row.1
    if currentChar ≠ 0 then
      if !k.io.queue.ioqueueFull then
        match k.io.exec (.call t (.putchar currentChar)) with
        | .error f => .error (.queue f)
        | .ok io => .ok { k with io := io }
      else .ok k
    else .ok k

/-- `IntKeyboardHandler`, interrupting `t`, with `b` in the controller's buffer. -/
def intKeyboardHandler (k : Keyboard T) (t : T) (b : UInt8) : Except Fault (Keyboard T) :=
  if b.toUInt16 = 0xE0 then .ok { k with flags := { k.flags with extScancode := 1 } }
  else
    let scanCode := k.flags.scanCode b
    let k := if k.flags.extScancode ≠ 0 then { k with flags := { k.flags with extScancode := 0 } } else k
    if scanCode &&& 0x0080 ≠ 0 then .ok { k with flags := k.flags.breakCode (scanCode &&& 0xFF7F) }
    else if isMake scanCode then
      let mode := shiftMode k.flags scanCode
      -- from here on the source has masked the prefix out of `scan_code`
      let scanCode := scanCode &&& 0x00FF
      match k.putKey t scanCode.toUInt8.toNat mode with
      | .error f => .error f
      | .ok k => .ok { k with flags := k.flags.makeCode scanCode }
    else .ok { k with printed := k.printed ++ ["unknown key!\n"] }

end Keyboard

/-! ## The flags after a byte -/

namespace KeyFlags

/-- What a byte makes of the flags. -/
def next (f : KeyFlags) (b : UInt8) : KeyFlags :=
  if b = 0xE0 then { f with extScancode := 1 }
  else if f.scanCode b &&& 0x0080 ≠ 0 then
    breakCode { f with extScancode := 0 } (f.scanCode b &&& 0xFF7F)
  else if isMake (f.scanCode b) then makeCode { f with extScancode := 0 } (f.scanCode b &&& 0x00FF)
  else { f with extScancode := 0 }

def after (bs : List UInt8) : KeyFlags := bs.foldl next ⟨0, 0, 0, 0, 0⟩

theorem after_snoc (bs : List UInt8) (b : UInt8) : after (bs ++ [b]) = (after bs).next b := by
  simp [after]

end KeyFlags

/-- The position in `keymap` that a scan code selects. -/
def keyIdx (scanCode : UInt16) : Nat := (scanCode &&& 0x00FF).toUInt8.toNat

/-- Both forms of `scan_code` that pass the test of the make branch give an index inside the table. -/
theorem keyIdx_lt : ∀ b : UInt8, (isMake b.toUInt16 = true → keyIdx b.toUInt16 < 0x3B) ∧
    (isMake (0xE000 ||| b.toUInt16) = true → keyIdx (0xE000 ||| b.toUInt16) < 0x3B) := by
  decide +kernel

theorem KeyFlags.keyIdx_scanCode_lt (f : KeyFlags) {b : UInt8} (h : isMake (f.scanCode b) = true) :
    keyIdx (f.scanCode b) < 0x3B := by
  unfold KeyFlags.scanCode at h ⊢
  split_ifs at h ⊢
  · exact (keyIdx_lt b).2 h
  · exact (keyIdx_lt b).1 h

theorem toUInt16_eq_prefix : ∀ b : UInt8, b.toUInt16 = 0xE0 ↔ b = 0xE0 := by decide +kernel

namespace Keyboard
variable {T : Type*} [DecidableEq T]

omit [DecidableEq T] in
theorem clear_ext (k : Keyboard T) :
    (if k.flags.extScancode ≠ 0 then { k with flags := { k.flags with extScancode := 0 } } else k) =
      { k with flags := { k.flags with extScancode := 0 } } := by
  by_cases hext : k.flags.extScancode = 0
  · rw [if_neg (not_not.2 hext), ← hext]
  · rw [if_pos hext]

theorem putKey_flags {k k' : Keyboard T} {t : T} {idx : Nat} {mode : Bool} (h : k.putKey t idx mode = .ok k') :
    k'.flags = k.flags := by
  unfold putKey at h
  split at h
  · cases h
  · dsimp only at h
    split_ifs at h
    all_goals try split at h
    all_goals cases h
    all_goals rfl

theorem intKeyboardHandler_flags {k k' : Keyboard T} {t : T} {b : UInt8}
    (h : k.intKeyboardHandler t b = .ok k') : k'.flags = k.flags.next b := by
  unfold intKeyboardHandler at h
  unfold KeyFlags.next
  simp only [clear_ext, toUInt16_eq_prefix] at h
  by_cases hpre : b = 0xE0
  · rw [if_pos hpre] at h ⊢
    cases h
    rfl
  rw [if_neg hpre] at h ⊢
  by_cases hbrk : k.flags.scanCode b &&& 0x0080 ≠ 0
  · rw [if_pos hbrk] at h ⊢
    cases h
    rfl
  rw [if_neg hbrk] at h ⊢
  by_cases hmake : isMake (k.flags.scanCode b) = true
  · rw [if_pos hmake] at h ⊢
    split at h
    · cases h
    · rename_i k₁ hput
      cases h
      show k₁.flags.makeCode _ = _
      rw [putKey_flags hput]
  · rw [if_neg hmake] at h ⊢
    cases h
    rfl

/-- The bytes `bs` have come since `KeyboardInit`, and the handler has returned from each; what the
threads do with the queue between two interrupts is left open. -/
inductive Delivers : List UInt8 → Keyboard T → Prop
  | init (buf : Nat → UInt8) : Delivers [] (keyboardInit buf)
  | byte {bs : List UInt8} {k k' : Keyboard T} (io : IoSys T) (t : T) (b : UInt8) : Delivers bs k →
      intKeyboardHandler { k with io := io } t b = .ok k' → Delivers (bs ++ [b]) k'

theorem Delivers.flags_eq {bs : List UInt8} {k : Keyboard T} (h : Delivers bs k) :
    k.flags = KeyFlags.after bs := by
  induction h with
  | init buf => rfl
  | byte io t b _ hb ih =>
    rw [intKeyboardHandler_flags hb, KeyFlags.after_snoc, ← ih]

/-! ## The handler returns -/

/-- What the handler does to a queue that nobody sleeps on: it stores `cs`, and touches no thread. -/
structure Puts (k k' : Keyboard T) (t : T) (cs : List UInt8) : Prop where
  stores : ∀ xs, k.io.Stores xs → k'.io.Stores (xs ++ cs)
  status : k'.io.status = k.io.status
  pc : k'.io.pc = k.io.pc ∨ k'.io.pc = Function.update k.io.pc t .idle
  received : k'.io.received = k.io.received

theorem Puts.nil (k k' : Keyboard T) (t : T) (h : k'.io = k.io) : Puts k k' t [] where
  stores := by
    intro xs hs
    rw [List.append_nil, h]
    exact hs
  status := by rw [h]
  pc := by
    left
    rw [h]
  received := by rw [h]

def charOf (k : Keyboard T) (row : UInt8 × UInt8) (mode : Bool) : List UInt8 :=
  if (if mode then row.2 else row.1) ≠ 0 ∧ k.io.queue.ioqueueFull = false then
    [if mode then row.2 else row.1]
  else []

theorem putKey_ok {k : Keyboard T} {xs : List UInt8} (hs : k.io.Stores xs) (t : T) {idx : Nat}
    {row : UInt8 × UInt8} (hrow : keymap[idx]? = some row) (mode : Bool) :
    ∃ k', k.putKey t idx mode = .ok k' ∧ Puts k k' t (k.charOf row mode) := by
  unfold putKey charOf
  simp only [hrow]
  generalize (if mode = true then row.2 else row.1) = c
  by_cases hc : c = 0
  · rw [if_neg (not_not.2 hc), if_neg (by simp [hc])]
    exact ⟨k, rfl, Puts.nil k k t rfl⟩
  rw [if_pos hc]
  by_cases hf : k.io.queue.ioqueueFull = true
  · rw [hf, if_neg (by simp), if_neg (by simp)]
    exact ⟨k, rfl, Puts.nil k k t rfl⟩
  have hf : k.io.queue.ioqueueFull = false := Bool.eq_false_of_not_eq_true hf
  rw [hf, if_pos (show (!false) = true from rfl), if_pos ⟨hc, rfl⟩, IoSys.exec_putchar hf hs.consumer]
  refine ⟨_, rfl, ?_, rfl, Or.inr rfl, rfl⟩
  intro ys hys
  obtain ⟨s', hexec, hs'⟩ := hys.putchar hf t c
  rw [IoSys.exec_putchar hf hs.consumer] at hexec
  cases hexec
  exact hs'

def appended (k : Keyboard T) (b : UInt8) : List UInt8 :=
  if b = 0xE0 ∨ k.flags.scanCode b &&& 0x0080 ≠ 0 ∨ isMake (k.flags.scanCode b) = false then []
  else
    match keymap[keyIdx (k.flags.scanCode b)]? with
    | none => []
    | some row => k.charOf row (shiftMode k.flags (k.flags.scanCode b))

/-- On a queue that nobody sleeps on the handler returns, from whatever byte. -/
theorem intKeyboardHandler_ok {k : Keyboard T} {xs : List UInt8} (hs : k.io.Stores xs) (t : T) (b : UInt8) :
    ∃ k', k.intKeyboardHandler t b = .ok k' ∧ Puts k k' t (k.appended b) := by
  unfold intKeyboardHandler appended
  simp only [clear_ext, toUInt16_eq_prefix]
  by_cases hpre : b = 0xE0
  · rw [if_pos hpre, if_pos (Or.inl hpre)]
    exact ⟨_, rfl, Puts.nil _ _ t rfl⟩
  rw [if_neg hpre]
  by_cases hbrk : k.flags.scanCode b &&& 0x0080 ≠ 0
  · rw [if_pos hbrk, if_pos (Or.inr (Or.inl hbrk))]
    exact ⟨_, rfl, Puts.nil _ _ t rfl⟩
  rw [if_neg hbrk]
  by_cases hmake : isMake (k.flags.scanCode b) = true
  · rw [if_pos hmake, if_neg (by simp [hpre, hbrk, hmake])]
    have hlt := k.flags.keyIdx_scanCode_lt hmake
    have hrow : keymap[keyIdx (k.flags.scanCode b)]? = some (keymap.get ⟨_, hlt⟩) :=
      List.getElem?_eq_getElem hlt
    -- the flags differ from `k`'s only in the prefix, which neither the column nor the queue depends on
    obtain ⟨k', hput, hputs⟩ := putKey_ok
      (k := { k with flags := { k.flags with extScancode := 0 } }) hs t hrow (shiftMode k.flags (k.flags.scanCode b))
    have hput' : putKey { k with flags := { k.flags with extScancode := 0 } } t
        (k.flags.scanCode b &&& 0x00FF).toUInt8.toNat
        (shiftMode { k.flags with extScancode := 0 } (k.flags.scanCode b)) = .ok k' := hput
    rw [hput', hrow]
    exact ⟨_, rfl, hputs.stores, hputs.status, hputs.pc, hputs.received⟩
  · rw [if_neg hmake, if_pos (Or.inr (Or.inr (Bool.eq_false_of_not_eq_true hmake)))]
    exact ⟨_, rfl, Puts.nil _ _ t rfl⟩

theorem Delivers.exists_of [Inhabited T] (bs : List UInt8) : ∃ k : Keyboard T, Delivers bs k := by
  induction bs using List.reverseRecOn with
  | nil => exact ⟨_, .init (fun _ => 0)⟩
  | append_singleton bs b ih =>
    obtain ⟨k, hk⟩ := ih
    have hs : IoSys.Stores (IoSys.init (fun _ => 0) : IoSys T) [] := IoSys.stores_init _
    obtain ⟨k', hb, -⟩ := intKeyboardHandler_ok (k := { k with io := IoSys.init (fun _ => 0) }) hs default b
    exact ⟨k', hk.byte _ default b hb⟩

end Keyboard

/-! ## Keys and their codes -/

/-- The keys that `ctrl_status`, `shift_status` and `alt_status` are about. -/
inductive Modifier where
  | shift
  | ctrl
  | alt
  deriving DecidableEq, Repr

/-- A one-byte code that is no modifier's. The break code of `60` would be the prefix. -/
def isPlain (c : UInt8) : Bool :=
  c < 0x80 && c != 0x2a && c != 0x36 && c != 0x1d && c != 0x38 && c != 0x60

/-- The second byte of a two-byte code that is no modifier's. -/
def isExt (c : UInt8) : Bool := c < 0x80 && c != 0x1d && c != 0x38 && c != 0x60

inductive Key where
  | shiftL
  | shiftR
  | ctrlL
  | ctrlR
  | altL
  | altR
  | plain (c : UInt8) (h : isPlain c = true)
  | ext (c : UInt8) (h : isExt c = true)
  deriving DecidableEq, Repr

namespace Key

def modifier : Key → Option Modifier
  | shiftL | shiftR => some .shift
  | ctrlL | ctrlR => some .ctrl
  | altL | altR => some .alt
  | plain _ _ | ext _ _ => none

/-- The make code's bytes; in a break code bit 7 of the last byte is set. -/
def makeCode : Key → List UInt8
  | shiftL => [0x2a]
  | shiftR => [0x36]
  | ctrlL => [0x1d]
  | ctrlR => [0xE0, 0x1d]
  | altL => [0x38]
  | altR => [0xE0, 0x38]
  | plain c _ => [c]
  | ext c _ => [0xE0, c]

def breakCode : Key → List UInt8
  | shiftL => [0xaa]
  | shiftR => [0xb6]
  | ctrlL => [0x9d]
  | ctrlR => [0xE0, 0x9d]
  | altL => [0xb8]
  | altR => [0xE0, 0xb8]
  | plain c _ => [c ||| 0x80]
  | ext c _ => [0xE0, c ||| 0x80]

end Key

/-- What a keyboard sends: a key goes down (or repeats), or up. -/
inductive KeyCode where
  | press (key : Key)
  | release (key : Key)
  deriving DecidableEq, Repr

namespace KeyCode

def bytes : KeyCode → List UInt8
  | press key => key.makeCode
  | release key => key.breakCode

def key : KeyCode → Key
  | press key => key
  | release key => key

def isDown : KeyCode → Bool
  | press _ => true
  | release _ => false

def stream (cs : List KeyCode) : List UInt8 := cs.flatMap bytes

def held (cs : List KeyCode) : Key → Bool :=
  cs.foldl (fun d c => Function.update d c.key c.isDown) (fun _ => false)

/-- Only keys that are down go up. -/
def WellFormed (cs : List KeyCode) : Prop :=
  ∀ p key, p ++ [.release key] <+: cs → held p key = true

theorem held_snoc (cs : List KeyCode) (c : KeyCode) :
    held (cs ++ [c]) = Function.update (held cs) c.key c.isDown := by
  simp [held]

theorem stream_snoc (cs : List KeyCode) (c : KeyCode) : stream (cs ++ [c]) = stream cs ++ c.bytes := by
  simp [stream]

end KeyCode

/-! ## The modifier flags -/

namespace KeyFlags

def status (f : KeyFlags) : Modifier → UInt8
  | .shift => f.shiftStatus
  | .ctrl => f.ctrlStatus
  | .alt => f.altStatus

/-- The flag of each modifier is 1 exactly when one of its keys is down. -/
def Tracks (f : KeyFlags) (down : Key → Bool) : Prop :=
  ∀ m, f.status m = 1 ↔ ∃ key : Key, key.modifier = some m ∧ down key = true

end KeyFlags

def isModifierCode (sc : UInt16) : Bool :=
  sc == ctrlLMake || sc == ctrlRMake || sc == shiftLMake || sc == shiftRMake || sc == altLMake ||
    sc == altRMake

namespace KeyFlags

theorem breakCode_other (f : KeyFlags) {sc : UInt16} (h : isModifierCode sc = false) : f.breakCode sc = f := by
  simp only [isModifierCode, Bool.or_eq_false_iff, beq_eq_false_iff_ne] at h
  simp [breakCode, h]

theorem makeCode_other (f : KeyFlags) {sc : UInt16} (h : isModifierCode sc = false) :
    (f.makeCode sc).extScancode = f.extScancode ∧ ∀ m, (f.makeCode sc).status m = f.status m := by
  simp only [isModifierCode, Bool.or_eq_false_iff, beq_eq_false_iff_ne] at h
  simp only [makeCode, h, or_self, if_false]
  split
  · refine ⟨rfl, ?_⟩
    intro m
    cases m <;> rfl
  · exact ⟨rfl, fun m => rfl⟩

/-- What a byte `b`, decoded as `sc`, does when it is no modifier's. -/
theorem next_other (f : KeyFlags) {b : UInt8} (hb : b ≠ 0xE0)
    (hbrk : isModifierCode (f.scanCode b &&& 0xFF7F) = false)
    (hmake : isMake (f.scanCode b) = true → isModifierCode (f.scanCode b &&& 0x00FF) = false) :
    (f.next b).extScancode = 0 ∧ ∀ m, (f.next b).status m = f.status m := by
  have hclear : ∀ m, status { f with extScancode := 0 } m = f.status m := by
    intro m
    cases m <;> rfl
  unfold next
  rw [if_neg hb]
  split
  · rw [breakCode_other _ hbrk]
    exact ⟨rfl, hclear⟩
  · split
    · rename_i hm
      obtain ⟨hext, hst⟩ := makeCode_other { f with extScancode := 0 } (hmake hm)
      exact ⟨hext, fun m => (hst m).trans (hclear m)⟩
    · exact ⟨rfl, hclear⟩

end KeyFlags

/-- A one-byte code that is no modifier's, and its break code, pass none of the tests for modifiers. -/
theorem isPlain_other : ∀ c : UInt8, isPlain c = true →
    (c ≠ 0xE0 ∧ c ||| 0x80 ≠ 0xE0) ∧
    (isModifierCode (c.toUInt16 &&& 0xFF7F) = false ∧ isModifierCode (c.toUInt16 &&& 0x00FF) = false) ∧
    (isModifierCode ((c ||| 0x80).toUInt16 &&& 0xFF7F) = false ∧
      isMake (c ||| 0x80).toUInt16 = false) := by
  decide +kernel

theorem isExt_other : ∀ c : UInt8, isExt c = true →
    (c ≠ 0xE0 ∧ c ||| 0x80 ≠ 0xE0) ∧
    (isModifierCode ((0xE000 ||| c.toUInt16) &&& 0xFF7F) = false ∧ isMake (0xE000 ||| c.toUInt16) = false) ∧
    (isModifierCode ((0xE000 ||| (c ||| 0x80).toUInt16) &&& 0xFF7F) = false ∧
      isMake (0xE000 ||| (c ||| 0x80).toUInt16) = false) := by
  decide +kernel

namespace KeyFlags

/-- A two-byte code of some other key: the prefix is kept, and used up by the second byte. -/
theorem next_ext_other (f : KeyFlags) {b : UInt8} (hb : b ≠ 0xE0)
    (hbrk : isModifierCode ((0xE000 ||| b.toUInt16) &&& 0xFF7F) = false)
    (hmake : isMake (0xE000 ||| b.toUInt16) = false) :
    ((f.next 0xE0).next b).extScancode = 0 ∧ ∀ m, ((f.next 0xE0).next b).status m = f.status m := by
  have hsc : (f.next 0xE0).scanCode b = 0xE000 ||| b.toUInt16 := rfl
  have hst : ∀ m, (f.next 0xE0).status m = f.status m := by
    intro m
    cases m <;> rfl
  rw [← hsc] at hbrk hmake
  obtain ⟨hext, hnext⟩ := (f.next 0xE0).next_other hb hbrk (fun h => absurd h (by simp [hmake]))
  exact ⟨hext, fun m => (hnext m).trans (hst m)⟩

theorem foldl_bytes (f : KeyFlags) (hf : f.extScancode = 0) (c : KeyCode) :
    (c.bytes.foldl next f).extScancode = 0 ∧
    ∀ m, (c.bytes.foldl next f).status m =
      if c.key.modifier = some m then (if c.isDown then 1 else 0) else f.status m := by
  have hsc : ∀ b, f.scanCode b = b.toUInt16 := by
    intro b
    rw [scanCode, if_neg (not_not.2 hf)]
  cases c with
  | press key =>
    cases key with
    | plain c h =>
      obtain ⟨⟨hne, -⟩, ⟨hbrk, hmake⟩, -⟩ := isPlain_other c h
      rw [← hsc c] at hbrk hmake
      exact next_other _ hne hbrk (fun _ => hmake)
    | ext c h =>
      obtain ⟨⟨hne, -⟩, ⟨hbrk, hmake⟩, -⟩ := isExt_other c h
      exact next_ext_other _ hne hbrk hmake
    | _ =>
      constructor
      · simp +decide [KeyCode.bytes, Key.makeCode, next, scanCode, makeCode, hf]
      · intro m
        cases m <;>
          simp +decide [KeyCode.bytes, Key.makeCode, next, scanCode, makeCode, status, hf]
  | release key =>
    cases key with
    | plain c h =>
      obtain ⟨⟨-, hne⟩, -, hbrk, hmake⟩ := isPlain_other c h
      rw [← hsc (c ||| 0x80)] at hbrk hmake
      exact next_other _ hne hbrk (fun hm => absurd hm (by simp [hmake]))
    | ext c h =>
      obtain ⟨⟨-, hne⟩, -, hbrk, hmake⟩ := isExt_other c h
      exact next_ext_other _ hne hbrk hmake
    | _ =>
      constructor
      · simp +decide [KeyCode.bytes, Key.breakCode, next, scanCode, breakCode, hf]
      · intro m
        cases m <;>
          simp +decide [KeyCode.bytes, Key.breakCode, next, scanCode, breakCode, status, hf]

theorem after_ext (cs : List KeyCode) : (after (KeyCode.stream cs)).extScancode = 0 := by
  induction cs using List.reverseRecOn with
  | nil => rfl
  | append_singleton cs c ih =>
    rw [KeyCode.stream_snoc, after, List.foldl_append]
    exact (foldl_bytes _ ih c).1

theorem after_status (cs : List KeyCode) (c : KeyCode) (m : Modifier) :
    (after (KeyCode.stream (cs ++ [c]))).status m =
      if c.key.modifier = some m then (if c.isDown then 1 else 0) else (after (KeyCode.stream cs)).status m := by
  rw [KeyCode.stream_snoc, after, List.foldl_append]
  exact (foldl_bytes _ (after_ext cs) c).2 m

theorem tracks_step {cs : List KeyCode} {c : KeyCode} (h : (after (KeyCode.stream cs)).Tracks (KeyCode.held cs))
    (hc : c.isDown = false → c.key.modifier ≠ none →
      ∀ key ≠ c.key, key.modifier = c.key.modifier → KeyCode.held cs key = false) :
    (after (KeyCode.stream (cs ++ [c]))).Tracks (KeyCode.held (cs ++ [c])) := by
  intro m
  rw [after_status, KeyCode.held_snoc]
  by_cases hm : c.key.modifier = some m
  · rw [if_pos hm]
    cases hd : c.isDown with
    | true =>
      simp only [if_true, true_iff]
      exact ⟨c.key, hm, by simp⟩
    | false =>
      simp only [Bool.false_eq_true, if_false, show (0 : UInt8) ≠ 1 by decide, false_iff]
      intro ⟨key, hkey, hdown⟩
      by_cases heq : key = c.key
      · simp [heq] at hdown
      · rw [Function.update_of_ne heq, hc hd (by simp [hm]) key heq (hkey.trans hm.symm)] at hdown
        cases hdown
  · rw [if_neg hm, h m]
    -- the code's key is not one of `m`'s
    have hsame : ∀ key : Key, key.modifier = some m →
        Function.update (KeyCode.held cs) c.key c.isDown key = KeyCode.held cs key := by
      intro key hkey
      apply Function.update_of_ne
      intro heq
      rw [heq] at hkey
      exact hm hkey
    constructor
    · intro ⟨key, hkey, hdown⟩
      exact ⟨key, hkey, (hsame key hkey).trans hdown⟩
    · intro ⟨key, hkey, hdown⟩
      exact ⟨key, hkey, (hsame key hkey).symm.trans hdown⟩

end KeyFlags

/-- **When the modifier flags are right.** Whatever codes the keyboard sends (each key of a well-formed
sequence goes up only after it went down), and whatever the threads do with the queue in the meantime:
after every complete code each of `shift_status`, `ctrl_status` and `alt_status` is 1 exactly while one of
its two keys is down, if and only if no key of a modifier is released while the other one is down. The
break branch clears the flag that the two keys share. -/
theorem modifier_flags_track_iff {T : Type*} [DecidableEq T] [Inhabited T] (cs : List KeyCode) :
    (∀ p, p <+: cs → ∀ k : Keyboard T, k.Delivers (KeyCode.stream p) → k.flags.Tracks (KeyCode.held p)) ↔
    ∀ p key, p ++ [.release key] <+: cs → key.modifier ≠ none →
      ∀ other ≠ key, other.modifier = key.modifier → KeyCode.held p other = false := by
  constructor
  · intro htracks p key hp hmod other hne hother
    obtain ⟨m, hm⟩ := Option.ne_none_iff_exists'.1 hmod
    obtain ⟨k, hk⟩ := Keyboard.Delivers.exists_of (T := T) (KeyCode.stream (p ++ [.release key]))
    have h := htracks _ hp k hk m
    rw [hk.flags_eq, KeyFlags.after_status, if_pos (show (KeyCode.release key).key.modifier = some m from hm),
      KeyCode.held_snoc] at h
    apply Bool.eq_false_of_not_eq_true
    intro hdown
    have hstill : Function.update (KeyCode.held p) key false other = true := by
      rwa [Function.update_of_ne hne]
    have hone : (0 : UInt8) = 1 := h.2 ⟨other, hother.trans hm, hstill⟩
    exact absurd hone (by decide)
  · intro hfree p hp k hk
    rw [hk.flags_eq]
    clear hk k
    induction p using List.reverseRecOn with
    | nil =>
      intro m
      cases m <;> simp [KeyFlags.after, KeyCode.stream, KeyCode.held, KeyFlags.status]
    | append_singleton p c ih =>
      apply KeyFlags.tracks_step (ih ((List.prefix_append p [c]).trans hp))
      intro hup hmod
      cases c with
      | press key => cases hup
      | release key => exact hfree p key hp hmod

/-- Both Shift keys go down and the left one goes up: `shift_status` is 0 with the right one down. -/
theorem shift_released_while_other_down :
    ∃ cs : List KeyCode, KeyCode.WellFormed cs ∧ KeyCode.held cs .shiftR = true ∧
      ∃ k : Keyboard Unit, k.Delivers (KeyCode.stream cs) ∧ k.flags.shiftStatus = 0 := by
  refine ⟨[.press .shiftL, .press .shiftR, .release .shiftL], ?_, by decide, ?_⟩
  · intro p key hp
    rw [← List.mem_inits] at hp
    simp only [List.inits, List.map, List.mem_cons, List.not_mem_nil, or_false] at hp
    obtain hp | hp | hp | hp := hp
    · simp at hp
    · have := List.append_inj_right' (hp.trans (List.nil_append [KeyCode.press Key.shiftL]).symm) rfl
      simp at this
    · have := List.append_inj_right' (show p ++ _ = [KeyCode.press Key.shiftL] ++ [KeyCode.press .shiftR] from hp) rfl
      simp at this
    · have h := List.append_inj' (show p ++ _ =
        [KeyCode.press Key.shiftL, KeyCode.press .shiftR] ++ [KeyCode.release .shiftL] from hp) rfl
      obtain ⟨rfl, h⟩ := h
      cases h
      decide
  · obtain ⟨k, hk⟩ := Keyboard.Delivers.exists_of (T := Unit) (KeyCode.stream [.press .shiftL, .press .shiftR, .release .shiftL])
    refine ⟨k, hk, ?_⟩
    rw [hk.flags_eq]
    decide

end ElephantOS
