import ElephantOS.Device.Keyboard

/-!
# What the keyboard types (`device/keyboard.c`)

Any bytes come from the controller, and threads take characters from `keyboard_IO_buf` without waiting.

* `capsPresses`, `typed` : what each byte should append, from the bytes before it, `shift_status` and
  whether the ring is full;
* `Runs buf seen chars gets k` : the bytes `seen` (the newest first) have come, `typed` has given `chars`
  for them, and the threads have got `gets`;
* `Typing` : what such a run keeps;
* `keyboard_stream` : the ring holds what was typed and not yet taken, and the handler returns from every
  byte without blocking.
-/


namespace ElephantOS

/-! ## What a byte should type -/

/-- The bytes `3A` without a prefix among those that came, the newest first. -/
def capsPresses : List UInt8 → Nat
  | [] => 0
  | b :: seen => capsPresses seen + if b = 0x3A ∧ seen.head? ≠ some 0xE0 then 1 else 0

/-- The keys of the digits and of the punctuation. -/
def isDigitOrPunct (c : UInt8) : Bool :=
  (0x02 ≤ c && c ≤ 0x0D) || [0x1A, 0x1B, 0x27, 0x28, 0x29, 0x2B, 0x33, 0x34, 0x35].contains c

/-- The column of `keymap`, from Shift and Caps Lock. -/
def isShifted (shift caps : Bool) (c : UInt8) : Bool := if isDigitOrPunct c then shift else shift ^^ caps

def visible (row : Option (UInt8 × UInt8)) (mode : Bool) : List UInt8 :=
  match row with
  | none => []
  | some row => if (if mode then row.2 else row.1) ≠ 0 then [if mode then row.2 else row.1] else []

namespace Keyboard
variable {T : Type*} [DecidableEq T]

/-- What the byte `c` should append to the queue, after the bytes `seen`. -/
def typed (seen : List UInt8) (k : Keyboard T) (c : UInt8) : List UInt8 :=
  if 0x01 ≤ c ∧ c ≤ 0x3A ∧ seen.head? ≠ some 0xE0 ∧ k.io.queue.ioqueueFull = false then
    visible keymap[c.toNat]? (isShifted (k.flags.shiftStatus == 1) (capsPresses seen % 2 == 1) c)
  else []

/-- The bytes `seen` have come since `KeyboardInit` and the handler has returned from each, `typed` gives
`chars` for them, and the calls of `ioqueue_getchar`, made when there was a character, have returned
`gets`. -/
inductive Runs (buf : Nat → UInt8) : List UInt8 → List UInt8 → List UInt8 → Keyboard T → Prop
  | init : Runs buf [] [] [] (keyboardInit buf)
  | byte {seen chars gets : List UInt8} {k k' : Keyboard T} (t : T) (b : UInt8) : Runs buf seen chars gets k →
      k.intKeyboardHandler t b = .ok k' → Runs buf (b :: seen) (chars ++ typed seen k b) gets k'
  | getchar {seen chars gets : List UInt8} {k : Keyboard T} {io : IoSys T} (t : T) (byte : UInt8) :
      Runs buf seen chars gets k → k.io.queue.ioqueueEmpty = false → k.io.exec (.call t .getchar) = .ok io →
      io.received t = k.io.received t ++ [byte] → Runs buf seen chars (gets ++ [byte]) { k with io := io }

end Keyboard

/-! ## The decoding of a byte -/

/-- A byte without a prefix that passes the tests of the make branch. -/
theorem isMake_iff : ∀ b : UInt8, (b = 0xE0 ∨ b.toUInt16 &&& 0x0080 ≠ 0 ∨ isMake b.toUInt16 = false) ↔
    ¬ (0x01 ≤ b ∧ b ≤ 0x3A) := by
  decide +kernel

theorem visible_shiftMode : ∀ b : UInt8, 0x01 ≤ b ∧ b ≤ 0x3A → ∀ shift caps : Bool,
    visible keymap[keyIdx b.toUInt16]? (if isTwoChar b.toUInt16 then shift else shift ^^ caps) =
      visible keymap[b.toNat]? (isShifted shift caps b) := by
  decide +kernel

/-- A code with a prefix that passes the tests belongs to a key without a character. -/
theorem visible_ext : ∀ b : UInt8, isMake (0xE000 ||| b.toUInt16) = true → ∀ mode : Bool,
    visible keymap[keyIdx (0xE000 ||| b.toUInt16)]? mode = [] := by
  decide +kernel

/-- The letters stand in the table with their capitals, and Caps Lock acts on them. -/
theorem visible_letter : ∀ c : UInt8, 0x61 ≤ (keymap[c.toNat]?.getD (0, 0)).1 ∧
    (keymap[c.toNat]?.getD (0, 0)).1 ≤ 0x7A → (0x01 ≤ c ∧ c ≤ 0x3A) ∧ ∀ shift caps : Bool,
    visible keymap[c.toNat]? (isShifted shift caps c) =
      [if shift ^^ caps then (keymap[c.toNat]?.getD (0, 0)).1 - 0x20
        else (keymap[c.toNat]?.getD (0, 0)).1] := by
  decide +kernel

namespace KeyFlags

theorem breakCode_kept (f : KeyFlags) (sc : UInt16) :
    (f.breakCode sc).extScancode = f.extScancode ∧ (f.breakCode sc).capsLockStatus = f.capsLockStatus := by
  unfold breakCode
  dsimp only
  split_ifs <;> exact ⟨rfl, rfl⟩

theorem makeCode_kept (f : KeyFlags) (sc : UInt16) :
    (f.makeCode sc).extScancode = f.extScancode ∧ (f.makeCode sc).capsLockStatus =
      if sc = capsLockMake then (if f.capsLockStatus = 0 then 1 else 0) else f.capsLockStatus := by
  unfold makeCode
  split_ifs with h₁ h₂ h₃ h₄ h₅
  all_goals first
    | exact ⟨rfl, rfl⟩
    | simp_all +decide

theorem next_ext (f : KeyFlags) (b : UInt8) : (f.next b).extScancode = if b = 0xE0 then 1 else 0 := by
  unfold next
  split_ifs
  · rfl
  · exact (breakCode_kept _ _).1
  · exact (makeCode_kept _ _).1
  · rfl

/-- Only `3A` without a prefix passes for Caps Lock. -/
theorem capsLock_code : ∀ b : UInt8,
    (b.toUInt16 &&& 0x0080 = 0 ∧ isMake b.toUInt16 = true ∧ b.toUInt16 &&& 0x00FF = capsLockMake ↔ b = 0x3A) ∧
    ¬ (isMake (0xE000 ||| b.toUInt16) = true ∧ (0xE000 ||| b.toUInt16) &&& 0x00FF = capsLockMake) := by
  decide +kernel

theorem next_caps (f : KeyFlags) (b : UInt8) : (f.next b).capsLockStatus =
    if b = 0x3A ∧ f.extScancode = 0 then (if f.capsLockStatus = 0 then 1 else 0) else f.capsLockStatus := by
  obtain ⟨hplain, hpre⟩ := capsLock_code b
  by_cases hext : f.extScancode = 0
  · have hsc : f.scanCode b = b.toUInt16 := by rw [scanCode, if_neg (not_not.2 hext)]
    unfold next
    rw [hsc]
    by_cases hb : b = 0x3A
    · obtain ⟨hbrk, hmake, hcode⟩ := hplain.2 hb
      have hne : b ≠ 0xE0 := by
        rw [hb]
        decide
      rw [if_neg hne, if_neg (not_not.2 hbrk), if_pos hmake, (makeCode_kept _ _).2, if_pos hcode,
        if_pos (show b = 0x3A ∧ f.extScancode = 0 from ⟨hb, hext⟩)]
    · rw [if_neg (show ¬ (b = 0x3A ∧ f.extScancode = 0) from fun h => hb h.1)]
      split_ifs with h₁ h₂ h₃
      · rfl
      · exact (breakCode_kept _ _).2
      · rw [(makeCode_kept _ _).2, if_neg]
        intro hcode
        exact hb (hplain.1 ⟨not_not.1 h₂, h₃, hcode⟩)
      · rfl
  · have hsc : f.scanCode b = 0xE000 ||| b.toUInt16 := by rw [scanCode, if_pos hext]
    unfold next
    rw [hsc, if_neg (show ¬ (b = 0x3A ∧ f.extScancode = 0) from fun h => hext h.2)]
    split_ifs with h₁ h₂ h₃
    · rfl
    · exact (breakCode_kept _ _).2
    · rw [(makeCode_kept _ _).2, if_neg (fun hcode => hpre ⟨h₃, hcode⟩)]
    · rfl

theorem next_shift (f : KeyFlags) (b : UInt8) (h : f.shiftStatus = 0 ∨ f.shiftStatus = 1) :
    (f.next b).shiftStatus = 0 ∨ (f.next b).shiftStatus = 1 := by
  unfold next breakCode makeCode
  dsimp only
  split_ifs
  all_goals first
    | exact h
    | exact Or.inl rfl
    | exact Or.inr rfl

end KeyFlags

namespace Keyboard
variable {T : Type*} [DecidableEq T]

/-! ## What a run keeps -/

structure Typing (seen chars gets : List UInt8) (k : Keyboard T) : Prop where
  /-- the prefix flag is the last byte's -/
  ext : k.flags.extScancode = if seen.head? = some 0xE0 then 1 else 0
  /-- `caps_lock_status` is the parity of the presses -/
  caps : k.flags.capsLockStatus = if capsPresses seen % 2 = 1 then 1 else 0
  shift : k.flags.shiftStatus = 0 ∨ k.flags.shiftStatus = 1
  ring : ∃ xs, chars = gets ++ xs ∧ k.io.Stores xs
  idle : ∀ u, k.io.status u = .ready ∧ k.io.pc u = .idle

omit [DecidableEq T] in
theorem appended_eq_visible (k : Keyboard T) (b : UInt8) (hf : k.io.queue.ioqueueFull = false) :
    k.appended b =
      if b = 0xE0 ∨ k.flags.scanCode b &&& 0x0080 ≠ 0 ∨ isMake (k.flags.scanCode b) = false then []
      else visible keymap[keyIdx (k.flags.scanCode b)]? (shiftMode k.flags (k.flags.scanCode b)) := by
  unfold appended visible charOf
  cases keymap[keyIdx (k.flags.scanCode b)]? with
  | none => rfl
  | some key => simp only [hf, and_true]

omit [DecidableEq T] in
theorem appended_full (k : Keyboard T) (b : UInt8) (hf : k.io.queue.ioqueueFull = true) : k.appended b = [] := by
  unfold appended charOf
  simp only [hf, Bool.true_eq_false, and_false, if_false]
  split_ifs
  · rfl
  · split <;> rfl

theorem shiftMode_eq {f : KeyFlags} (hs : f.shiftStatus = 0 ∨ f.shiftStatus = 1) {caps : Bool}
    (hc : f.capsLockStatus = if caps then 1 else 0) (sc : UInt16) :
    shiftMode f sc = if isTwoChar sc then f.shiftStatus == 1 else (f.shiftStatus == 1) ^^ caps := by
  unfold shiftMode
  rw [hc]
  obtain hs | hs := hs
  · rw [hs]
    cases caps <;> simp +decide
  · rw [hs]
    cases caps <;> simp +decide

omit [DecidableEq T] in
theorem Typing.appended_eq {seen chars gets : List UInt8} {k : Keyboard T} (h : Typing seen chars gets k)
    (b : UInt8) : k.appended b = typed seen k b := by
  unfold typed
  cases hf : k.io.queue.ioqueueFull with
  | true => simp [appended_full k b hf]
  | false =>
    rw [appended_eq_visible k b hf]
    by_cases hpre : seen.head? = some 0xE0
    · have hsc : k.flags.scanCode b = 0xE000 ||| b.toUInt16 := by
        rw [KeyFlags.scanCode, h.ext, if_pos hpre, if_pos (by decide)]
      rw [hsc, if_neg (show ¬ (0x01 ≤ b ∧ b ≤ 0x3A ∧ seen.head? ≠ some 0xE0 ∧ false = false) from
        fun h => h.2.2.1 hpre)]
      split_ifs with hnot
      · rfl
      · apply visible_ext
        simp only [not_or, Bool.not_eq_false] at hnot
        exact hnot.2.2
    · have hsc : k.flags.scanCode b = b.toUInt16 := by
        rw [KeyFlags.scanCode, h.ext, if_neg hpre, if_neg (by decide)]
      have hcaps : k.flags.capsLockStatus = if (capsPresses seen % 2 == 1) = true then 1 else 0 := by
        rw [h.caps]
        simp
      rw [hsc, shiftMode_eq h.shift hcaps]
      simp only [isMake_iff, ne_eq, hpre, not_false_eq_true, and_true]
      by_cases hr : 0x01 ≤ b ∧ b ≤ 0x3A
      · rw [if_neg (not_not.2 hr), if_pos hr, visible_shiftMode b hr]
      · rw [if_pos hr, if_neg hr]

theorem Puts.idle {k k' : Keyboard T} {t : T} {cs : List UInt8} (h : Puts k k' t cs)
    (hidle : ∀ u, k.io.status u = .ready ∧ k.io.pc u = .idle) (u : T) :
    k'.io.status u = .ready ∧ k'.io.pc u = .idle := by
  refine ⟨by rw [h.status]; exact (hidle u).1, ?_⟩
  obtain hpc | hpc := h.pc
  · rw [hpc]
    exact (hidle u).2
  · rw [hpc, Function.update_apply]
    split_ifs
    · rfl
    · exact (hidle u).2

theorem Typing.byte {seen chars gets : List UInt8} {k : Keyboard T} (h : Typing seen chars gets k) (t : T)
    (b : UInt8) : ∃ k', k.intKeyboardHandler t b = .ok k' ∧ Puts k k' t (typed seen k b) ∧
      Typing (b :: seen) (chars ++ typed seen k b) gets k' := by
  obtain ⟨xs, hchars, hxs⟩ := h.ring
  obtain ⟨k', hk', hputs⟩ := intKeyboardHandler_ok hxs t b
  rw [h.appended_eq] at hputs
  have hflags := intKeyboardHandler_flags hk'
  refine ⟨k', hk', hputs, ?_, ?_, ?_, ⟨_, by rw [hchars, List.append_assoc], hputs.stores xs hxs⟩,
    hputs.idle h.idle⟩
  · rw [hflags, KeyFlags.next_ext]
    simp
  · have hext : k.flags.extScancode = 0 ↔ seen.head? ≠ some 0xE0 := by
      rw [h.ext]
      split_ifs with hpre <;> simp +decide [hpre]
    rw [hflags, KeyFlags.next_caps, capsPresses, h.caps]
    simp only [hext]
    by_cases hb : b = 0x3A ∧ seen.head? ≠ some 0xE0
    · rw [if_pos hb, if_pos hb]
      by_cases hodd : capsPresses seen % 2 = 1
      · rw [if_pos hodd, if_neg (by decide), if_neg (by omega)]
      · rw [if_neg hodd, if_pos rfl, if_pos (by omega)]
    · rw [if_neg hb, if_neg hb, Nat.add_zero]
  · rw [hflags]
    exact KeyFlags.next_shift _ b h.shift

theorem Runs.typing {buf : Nat → UInt8} {seen chars gets : List UInt8} {k : Keyboard T}
    (h : Runs buf seen chars gets k) : Typing seen chars gets k := by
  induction h with
  | init => exact ⟨rfl, rfl, Or.inl rfl, ⟨[], rfl, IoSys.stores_init buf⟩, fun _ => ⟨rfl, rfl⟩⟩
  | @byte seen chars gets k k' t b _ hb ih =>
    obtain ⟨k'', hb', -, htyping⟩ := ih.byte t b
    rw [hb] at hb'
    cases hb'
    exact htyping
  | @getchar seen chars gets k io t byte _ he hexec hbyte ih =>
    obtain ⟨xs, hchars, hxs⟩ := ih.ring
    rw [IoSys.exec_getchar he hxs.producer] at hexec
    refine ⟨ih.ext, ih.caps, ih.shift, ?_, ?_⟩
    · cases xs with
      | nil =>
        rw [hxs.empty_iff.2 rfl] at he
        cases he
      | cons a xs =>
        obtain ⟨io', hexec', hbyte', hxs'⟩ := hxs.getchar t
        rw [IoSys.exec_getchar he hxs.producer, hexec] at hexec'
        cases hexec'
        rw [hbyte] at hbyte'
        have hab : byte = a := by
          have := List.append_cancel_left hbyte'
          simpa using this
        exact ⟨xs, by rw [hchars, hab, List.append_assoc, List.singleton_append], hxs'⟩
    · intro u
      cases hexec
      refine ⟨(ih.idle u).1, ?_⟩
      show Function.update k.io.pc t .idle u = .idle
      rw [Function.update_apply]
      split_ifs
      · rfl
      · exact (ih.idle u).2

/-- **What the keyboard types.** Whatever bytes have come since `KeyboardInit`, and whatever calls of
`ioqueue_getchar` found a character in between: the characters typed by the bytes are, in order, those the
threads got and those in the ring, at most 63; no thread has been blocked; on the next byte, whatever it is
and whichever thread it interrupts, the handler returns without blocking, having appended what the byte
types; its index into `keymap` is below `3B`; and a letter is a capital exactly when Shift and Caps Lock
disagree. -/
theorem keyboard_stream {buf : Nat → UInt8} {seen chars gets : List UInt8} {k : Keyboard T}
    (h : Runs buf seen chars gets k) :
    (∃ xs, chars = gets ++ xs ∧ xs.length ≤ 63 ∧ (k.io.queue.ioqueueFull = true ↔ xs.length = 63) ∧
      ∀ i (hi : i < xs.length), k.io.queue.buf ((k.io.queue.tail + i) % 64) = xs[i]) ∧
    (∀ u, k.io.status u = .ready ∧ k.io.pc u = .idle) ∧
    (∀ t b, ∃ k', k.intKeyboardHandler t b = .ok k' ∧
      Runs buf (b :: seen) (chars ++ typed seen k b) gets k' ∧
      (∀ u, k'.io.status u = .ready ∧ k'.io.pc u = .idle)) ∧
    (∀ b, isMake (k.flags.scanCode b) = true → keyIdx (k.flags.scanCode b) < 0x3B) ∧
    (∀ c row, keymap[c.toNat]? = some row → 0x61 ≤ row.1 ∧ row.1 ≤ 0x7A → seen.head? ≠ some 0xE0 →
      k.io.queue.ioqueueFull = false → typed seen k c =
        [if (k.flags.shiftStatus == 1) ^^ (capsPresses seen % 2 == 1) then row.1 - 0x20 else row.1]) := by
  have htyping := h.typing
  obtain ⟨xs, hchars, hxs⟩ := htyping.ring
  refine ⟨⟨xs, hchars, Nat.le_of_lt_succ hxs.ring.room, hxs.full_iff, hxs.ring.cell⟩, htyping.idle, ?_,
    fun b hb => k.flags.keyIdx_scanCode_lt hb, ?_⟩
  · intro t b
    obtain ⟨k', hk', hputs, -⟩ := htyping.byte t b
    exact ⟨k', hk', h.byte t b hk', hputs.idle htyping.idle⟩
  · intro c row hrow hletter hpre hf
    have hget : keymap[c.toNat]?.getD (0, 0) = row := by rw [hrow, Option.getD_some]
    rw [← hget] at hletter
    obtain ⟨⟨h₁, h₂⟩, hvis⟩ := visible_letter c hletter
    rw [typed, if_pos ⟨h₁, h₂, hpre, hf⟩, hvis, hget]

/-- Shift goes down, the key of `a` goes down and the character is taken. -/
theorem keyboard_stream_shift_a : ∃ k : Keyboard (Fin 2), Runs (fun _ => 0) [0x1E, 0x2A] [0x41] [0x41] k ∧
    (∀ b, isMake (k.flags.scanCode b) = true → keyIdx (k.flags.scanCode b) < 0x3B) := by
  have h0 : Runs (fun _ => 0) [] [] [] (keyboardInit (fun _ => 0) : Keyboard (Fin 2)) := .init
  have h1 := h0.byte 0 0x2A rfl
  have h2 := h1.byte 0 0x1E rfl
  have h3 := h2.getchar 1 0x41 (by decide) rfl (by rfl)
  exact ⟨_, h3, (keyboard_stream h3).2.2.2.1⟩

end Keyboard

end ElephantOS
