import ElephantOS.Lib.Bytes
import ElephantOS.Lib.Terminal
import ElephantOS.Lib.Trace
import Mathlib.Data.List.Induction

/-!
# The console (`lib/kernel/print_asm.S`)

`sys_putchar` reads the cursor from the display controller, writes through the segment `gs` with a 16-bit
offset in `bx`, and sets the cursor again.

* `Screen` : video memory and the controller; `outb`, `inb`, `writeGs`;
* `sysPutchar`, `sysPutstr` : the two routines, with the offsets they write to as events;
* `Draws` : a piece of code returns, having written inside the 4000 bytes of the screen;
* `cursor_on_screen_iff` : when the cursor and the writes stay on the screen;
* `Shows` : the screen shows a terminal; `sysPutstr_refines_terminal`.
-/

namespace ElephantOS

/-- The only fault of these routines: a general protection exception. -/
inductive ConsoleFault where
  | generalProtection
  /-- not a fault of the machine: the loop of `sys_putstr` was cut off -/
  | unfinished
  deriving DecidableEq, Repr

/-- Video memory by offset from `0xC00B8000`, the controller's address register and its data registers. -/
structure Screen where
  video : Nat → UInt8
  address : UInt8
  crtc : UInt8 → UInt8

/-- Code that logs the offsets it writes to. -/
abbrev Draw (α : Type) := Trace Nat ConsoleFault α

namespace Screen

def outb (s : Screen) (port : Nat) (b : UInt8) : Screen :=
  if port = 0x3D4 then { s with address := b }
  else if port = 0x3D5 then { s with crtc := Function.update s.crtc s.address b }
  else s

/-- `in al,dx` with `dx = 0x3D5`. -/
def inData (s : Screen) : UInt8 := s.crtc s.address

def cursor (s : Screen) : Nat := (s.crtc 0x0E).toNat * 256 + (s.crtc 0x0F).toNat

/-- The last byte of the segment `VIDEO_DESC` of the loader: 8 pages. -/
def videoLimit : Nat := 0x7FFF

def poke (s : Screen) (off : Nat) (b : UInt8) : Screen := { s with video := Function.update s.video off b }

/-- `mov byte [gs:off],b`. -/
def writeGs (s : Screen) (off : Nat) (b : UInt8) : Draw Screen :=
  if off ≤ videoLimit then do
    Trace.emit off
    return s.poke off b
  else Trace.lift (.error .generalProtection)

def setCursor (s : Screen) (bx : BitVec 16) : Screen :=
  let s := s.outb 0x3D4 0x0E
  let s := s.outb 0x3D5 ⟨bx.extractLsb' 8 8⟩
  let s := s.outb 0x3D4 0x0F
  s.outb 0x3D5 ⟨bx.extractLsb' 0 8⟩

/-- One `movsd` of `rep movsd`, from the row below; `esi` and `edi` are at offsets `160 + 4 * i` and `4 * i`. -/
def movsd (i : Nat) (s : Screen) : Draw Screen := do
  Trace.emit (4 * i)
  Trace.emit (4 * i + 1)
  Trace.emit (4 * i + 2)
  Trace.emit (4 * i + 3)
  return { s with video := fun off => if 4 * i ≤ off ∧ off < 4 * i + 4 then s.video (off + 160) else s.video off }

/-- `mov word [gs:ebx],0x0720`, with `ebx = 3840 + 2 * i`. -/
def clearWord (i : Nat) (s : Screen) : Draw Screen := do
  let s ← s.writeGs (3840 + 2 * i) 0x20
  s.writeGs (3840 + 2 * i + 1) 0x07

def rollOneLine (s : Screen) : Draw Screen := do
  let s ← Trace.forRange movsd 960 0 s
  let s ← Trace.forRange clearWord 80 0 s
  return s.setCursor 1920

/-- `.sys_putchar_LineFeed`, the same place as `.sys_putchar_CarriageReturn`. It divides `ax`. -/
def lineFeed (s : Screen) (ax bx : BitVec 16) : Draw Screen :=
  let dx := ax % 80
  let bx := bx - dx
  let bx := bx + 80
  if bx.slt 2000 then return s.setCursor bx else s.rollOneLine

def backSpace (s : Screen) (bx : BitVec 16) : Draw Screen := do
  let bx := bx - 1
  let bx := bx <<< 1
  let s ← s.writeGs bx.toNat 0x20
  let bx := bx + 1
  let s ← s.writeGs bx.toNat 0x07
  let bx := bx >>> 1
  return s.setCursor bx

def anyOther (s : Screen) (ax bx : BitVec 16) (cl : UInt8) : Draw Screen := do
  let bx := bx <<< 1
  let s ← s.writeGs bx.toNat cl
  let bx := bx + 1
  let s ← s.writeGs bx.toNat 0x07
  let bx := bx + 1
  let bx := bx >>> 1
  if bx.slt 2000 then return s.setCursor bx else s.lineFeed ax bx

def sysPutchar (s : Screen) (cl : UInt8) : Draw Screen :=
  let s := s.outb 0x3D4 0x0E
  let ah := s.inData
  let s := s.outb 0x3D4 0x0F
  let al := s.inData
  let ax : BitVec 16 := ah.toBitVec ++ al.toBitVec
  let bx := ax
  if cl = 0x0d then s.lineFeed ax bx
  else if cl = 0x0a then s.lineFeed ax bx
  else if cl = 0x08 then s.backSpace bx
  else s.anyOther ax bx cl

/-- The loop of `sys_putstr`, for at most `fuel` passes: `ebx` points into the string, `eax` counts. -/
def putNext (mem : Bytes.Mem) : Nat → Screen → Bytes.Word → Bytes.Word → Draw (Screen × Bytes.Word)
  | 0, _, _, _ => Trace.lift (.error .unfinished)
  | fuel + 1, s, ebx, eax =>
    if mem ebx = 0 then return (s, eax)
    else do
      let s ← s.sysPutchar ⟨mem ebx⟩
      putNext mem fuel s (ebx + 1) (eax + 1)

/-- `sys_putstr`. The string does not stand in video memory, so that printing leaves it as it is. -/
def sysPutstr (mem : Bytes.Mem) (fuel : Nat) (s : Screen) (str : Bytes.Word) : Draw (Screen × Bytes.Word) :=
  putNext mem fuel s str 0

def sysPutchars (s : Screen) (cls : List UInt8) : Draw Screen :=
  cls.foldl (fun x cl => x >>= fun s => s.sysPutchar cl) (pure s)

/-! ## Registers -/

theorem toNat_shl {bx : BitVec 16} (h : bx.toNat < 2 ^ 15) : (bx <<< 1).toNat = 2 * bx.toNat := by
  rw [BitVec.toNat_shiftLeft, Nat.shiftLeft_eq]
  omega

theorem toNat_shr (bx : BitVec 16) : (bx >>> 1).toNat = bx.toNat / 2 := by
  rw [BitVec.toNat_ushiftRight, Nat.shiftRight_eq_div_pow]

theorem slt_iff {bx : BitVec 16} (h : bx.toNat < 2 ^ 15) : bx.slt 2000 = true ↔ bx.toNat < 2000 := by
  rw [BitVec.slt_iff_toInt_lt, BitVec.toInt_eq_toNat_of_lt (by omega)]
  show (bx.toNat : Int) < 2000 ↔ _
  omega

@[simp] theorem video_setCursor (s : Screen) (bx : BitVec 16) : (s.setCursor bx).video = s.video := rfl

@[simp] theorem cursor_setCursor (s : Screen) (bx : BitVec 16) : (s.setCursor bx).cursor = bx.toNat := by
  have hhi : (s.setCursor bx).crtc 0x0E = ⟨bx.extractLsb' 8 8⟩ := rfl
  have hlo : (s.setCursor bx).crtc 0x0F = ⟨bx.extractLsb' 0 8⟩ := rfl
  have hbx := bx.isLt
  rw [cursor, hhi, hlo]
  show (bx.extractLsb' 8 8).toNat * 256 + (bx.extractLsb' 0 8).toNat = _
  rw [BitVec.extractLsb'_toNat, BitVec.extractLsb'_toNat, Nat.shiftRight_eq_div_pow, Nat.shiftRight_eq_div_pow]
  omega

theorem toNat_ax (s : Screen) :
    ((s.crtc 0x0E).toBitVec ++ (s.crtc 0x0F).toBitVec).toNat = s.cursor := by
  rw [BitVec.toNat_append, Nat.shiftLeft_eq]
  have h := (s.crtc 0x0F).toBitVec.isLt
  rw [Nat.mul_comm, ← Nat.two_pow_add_eq_or_of_lt h]
  show _ = (s.crtc 0x0E).toNat * 256 + (s.crtc 0x0F).toNat
  rw [Nat.mul_comm]
  rfl

/-! ## Code that writes on the screen only -/

/-- The code returns a screen with `Q`, having written only to the 4000 bytes of the screen. -/
structure Draws (x : Draw Screen) (Q : Screen → Prop) : Prop where
  sat : x.Sat (fun w s => (∀ off ∈ w, off < 4000) ∧ Q s) fun _ _ => False

theorem draws_pure {s : Screen} {Q : Screen → Prop} (h : Q s) : Draws (pure s) Q :=
  ⟨⟨by simp, h⟩⟩

theorem Draws.bind {x : Draw Screen} {f : Screen → Draw Screen} {P Q : Screen → Prop} (hx : Draws x P)
    (hf : ∀ s, x.result = .ok s → P s → Draws (f s) Q) : Draws (x >>= f) Q := by
  refine ⟨Trace.Sat.bind hx.sat ?_⟩
  intro w s hr ⟨hw, hs⟩
  refine (hf s hr hs).sat.mono ?_ (fun _ _ h => h)
  intro w' s' ⟨hw', hs'⟩
  refine ⟨?_, hs'⟩
  intro off hoff
  rw [List.mem_append] at hoff
  exact hoff.elim (hw off) (hw' off)

theorem Draws.mono {x : Draw Screen} {P Q : Screen → Prop} (hx : Draws x P) (h : ∀ s, P s → Q s) : Draws x Q :=
  ⟨hx.sat.mono (fun _ s hs => ⟨hs.1, h s hs.2⟩) fun _ _ h => h⟩

theorem Draws.forRange {f : Nat → Screen → Draw Screen} (P : Nat → Screen → Prop) {n : Nat} {s : Screen}
    (h0 : P 0 s) (hstep : ∀ j s, j < n → P j s → Draws (f j s) (P (j + 1))) :
    Draws (Trace.forRange f n 0 s) (P n) := by
  have hpass : ∀ j w s, 0 ≤ j → j < 0 + n → ((∀ off ∈ w, off < 4000) ∧ P j s) →
      (f j s).Sat (fun w' s' => (∀ off ∈ w ++ w', off < 4000) ∧ P (j + 1) s') fun _ _ => False := by
    intro j w s _ hj ⟨hw, hs⟩
    refine (hstep j s (by omega) hs).sat.mono ?_ (fun _ _ h => h)
    intro w' s' ⟨hw', hs'⟩
    refine ⟨?_, hs'⟩
    intro off hoff
    rw [List.mem_append] at hoff
    exact hoff.elim (hw off) (hw' off)
  have h := Trace.Sat.forRange (E := fun _ _ => False) (fun j w s => (∀ off ∈ w, off < 4000) ∧ P j s)
    (show (∀ off ∈ ([] : List Nat), off < 4000) ∧ P 0 s from ⟨by simp, h0⟩) hpass
  rw [Nat.zero_add] at h
  exact ⟨h⟩

theorem draws_writeGs (s : Screen) {off : Nat} (b : UInt8) (h : off < 4000) {Q : Screen → Prop}
    (hQ : Q (s.poke off b)) : Draws (s.writeGs off b) Q := by
  unfold writeGs videoLimit
  rw [if_pos (by omega)]
  refine ⟨⟨?_, hQ⟩⟩
  intro o ho
  have : o = off := by simpa using ho
  omega

/-! ## The pieces of `sys_putchar` -/

/-- A byte of the cells that are cleared. -/
def blankByte (off : Nat) : UInt8 := if off % 2 = 0 then 0x20 else 0x07

def rolled (v : Nat → UInt8) (off : Nat) : UInt8 :=
  if off < 3840 then v (off + 160) else if off < 4000 then blankByte off else v off

theorem rolled_up (v : Nat → UInt8) {off : Nat} (h : off < 3840) : rolled v off = v (off + 160) := if_pos h

theorem rolled_last (v : Nat → UInt8) {off : Nat} (h : ¬ off < 3840) (h' : off < 4000) :
    rolled v off = blankByte off := by
  rw [rolled, if_neg h, if_pos h']

theorem draws_movsd (s : Screen) {n : Nat} (hn : n ≤ 960) : Draws (Trace.forRange movsd n 0 s) fun s' =>
    ∀ off, s'.video off = if off < 4 * n then s.video (off + 160) else s.video off := by
  refine Draws.forRange
    (fun j s' => ∀ off, s'.video off = if off < 4 * j then s.video (off + 160) else s.video off) ?_ ?_
  · intro off
    rw [if_neg (by omega)]
  · intro j s₁ hj hv
    refine ⟨⟨?_, ?_⟩⟩
    · intro off hoff
      have : off = 4 * j ∨ off = 4 * j + 1 ∨ off = 4 * j + 2 ∨ off = 4 * j + 3 := by
        simpa [movsd] using hoff
      omega
    · intro off
      show (if 4 * j ≤ off ∧ off < 4 * j + 4 then s₁.video (off + 160) else s₁.video off) = _
      rw [hv, hv]
      -- the row below has not been reached yet
      by_cases hin : 4 * j ≤ off ∧ off < 4 * j + 4
      · rw [if_pos hin, if_neg (by omega), if_pos (by omega)]
      · rw [if_neg hin]
        by_cases hlt : off < 4 * j
        · rw [if_pos hlt, if_pos (by omega)]
        · rw [if_neg hlt, if_neg (by omega)]

theorem draws_clear (s : Screen) {n : Nat} (hn : n ≤ 80) : Draws (Trace.forRange clearWord n 0 s) fun s' =>
    ∀ off, s'.video off = if 3840 ≤ off ∧ off < 3840 + 2 * n then blankByte off else s.video off := by
  refine Draws.forRange (fun j s' => ∀ off, s'.video off =
    if 3840 ≤ off ∧ off < 3840 + 2 * j then blankByte off else s.video off) ?_ ?_
  · intro off
    rw [if_neg (by omega)]
  · intro j s₁ hj hv
    refine Draws.bind (draws_writeGs s₁ 0x20 (by omega) rfl) ?_
    rintro s₂ - rfl
    refine draws_writeGs _ 0x07 (by omega) ?_
    intro off
    show Function.update (Function.update s₁.video _ _) _ _ off = _
    rw [Function.update_apply, Function.update_apply]
    by_cases h₁ : off = 3840 + 2 * j + 1
    · rw [if_pos h₁, if_pos (by omega), blankByte, if_neg (by omega)]
    · rw [if_neg h₁]
      by_cases h₀ : off = 3840 + 2 * j
      · rw [if_pos h₀, if_pos (by omega), blankByte, if_pos (by omega)]
      · rw [if_neg h₀, hv]
        by_cases hin : 3840 ≤ off ∧ off < 3840 + 2 * j
        · rw [if_pos hin, if_pos (by omega)]
        · rw [if_neg hin, if_neg (by omega)]

theorem draws_rollOneLine (s : Screen) :
    Draws s.rollOneLine fun s' => s'.cursor = 1920 ∧ s'.video = rolled s.video := by
  unfold rollOneLine
  apply Draws.bind
  · exact draws_movsd s (Nat.le_refl 960)
  intro s₁ _ h₁
  apply Draws.bind
  · exact draws_clear s₁ (Nat.le_refl 80)
  intro s₂ _ h₂
  refine draws_pure ⟨cursor_setCursor s₂ 1920, ?_⟩
  funext off
  rw [video_setCursor, h₂, h₁, rolled]
  by_cases hlt : off < 3840
  · rw [if_neg (by omega), if_pos hlt, if_pos hlt]
  · by_cases hin : off < 4000
    · rw [if_pos (by omega), if_neg hlt, if_pos hin]
    · rw [if_neg (by omega), if_neg hlt, if_neg hlt, if_neg hin]

/-- Go on at position `n`, or at the start of the last row of a rolled screen. -/
def AtOrRolled (n : Nat) (v : Nat → UInt8) (s' : Screen) : Prop :=
  if n < 2000 then s'.cursor = n ∧ s'.video = v else s'.cursor = 1920 ∧ s'.video = rolled v

theorem atOrRolled_at {n : Nat} {v : Nat → UInt8} {s' : Screen} (hn : n < 2000) (hc : s'.cursor = n)
    (hv : s'.video = v) : AtOrRolled n v s' := by
  rw [AtOrRolled, if_pos hn]
  exact ⟨hc, hv⟩

theorem atOrRolled_iff_rolled {n : Nat} {v : Nat → UInt8} {s' : Screen} (hn : ¬ n < 2000) :
    AtOrRolled n v s' ↔ s'.cursor = 1920 ∧ s'.video = rolled v := by
  rw [AtOrRolled, if_neg hn]

theorem AtOrRolled.cursor_lt {n : Nat} {v : Nat → UInt8} {s' : Screen} (h : AtOrRolled n v s') :
    s'.cursor < 2000 := by
  unfold AtOrRolled at h
  split_ifs at h with hn
  · omega
  · omega

theorem draws_lineFeed (s : Screen) {ax bx : BitVec 16} (hle : ax.toNat % 80 ≤ bx.toNat) (hbx : bx.toNat ≤ 2000) :
    Draws (s.lineFeed ax bx) (AtOrRolled (bx.toNat - ax.toNat % 80 + 80) s.video) := by
  have hdx : (ax % 80).toNat = ax.toNat % 80 := by rw [BitVec.toNat_umod]; rfl
  have hnext : (bx - ax % 80 + 80).toNat = bx.toNat - ax.toNat % 80 + 80 := by
    rw [BitVec.toNat_add, BitVec.toNat_sub, hdx]
    show _ % 2 ^ 16 = _
    have h80 : (80 : BitVec 16).toNat = 80 := rfl
    rw [h80]
    omega
  unfold lineFeed
  dsimp only
  rw [← hnext]
  by_cases hlt : (bx - ax % 80 + 80).toNat < 2000
  · rw [if_pos ((slt_iff (by omega)).2 hlt)]
    exact draws_pure (atOrRolled_at hlt (cursor_setCursor s _) rfl)
  · rw [if_neg (fun h => hlt ((slt_iff (by omega)).1 h))]
    exact (draws_rollOneLine s).mono fun s' => (atOrRolled_iff_rolled hlt).2

/-- The cell at position `n` has been written. -/
def written (v : Nat → UInt8) (n : Nat) (b : UInt8) : Nat → UInt8 :=
  Function.update (Function.update v (2 * n) b) (2 * n + 1) 0x07

theorem written_at (v : Nat → UInt8) (n : Nat) (b : UInt8) :
    written v n b (2 * n) = b ∧ written v n b (2 * n + 1) = 0x07 := by
  unfold written
  rw [Function.update_of_ne (by omega), Function.update_self, Function.update_self]
  exact ⟨rfl, rfl⟩

theorem written_ne (v : Nat → UInt8) {m n : Nat} (h : m ≠ n) (b : UInt8) :
    written v n b (2 * m) = v (2 * m) ∧ written v n b (2 * m + 1) = v (2 * m + 1) := by
  unfold written
  constructor
  · rw [Function.update_of_ne (by omega), Function.update_of_ne (by omega)]
  · rw [Function.update_of_ne (by omega), Function.update_of_ne (by omega)]

theorem draws_anyOther (s : Screen) {ax : BitVec 16} (h : ax.toNat < 2000) (cl : UInt8) :
    Draws (s.anyOther ax ax cl) (AtOrRolled (ax.toNat + 1) (written s.video ax.toNat cl)) := by
  have hshl := toNat_shl (show ax.toNat < 2 ^ 15 by omega)
  have hone : (ax <<< 1 + 1).toNat = 2 * ax.toNat + 1 := by
    rw [BitVec.toNat_add, hshl]
    show (2 * ax.toNat + 1) % 2 ^ 16 = _
    omega
  have htwo : (ax <<< 1 + 1 + 1).toNat = 2 * ax.toNat + 2 := by
    rw [BitVec.toNat_add, hone]
    show (2 * ax.toNat + 1 + 1) % 2 ^ 16 = _
    omega
  have hnext : ((ax <<< 1 + 1 + 1) >>> 1).toNat = ax.toNat + 1 := by
    rw [toNat_shr, htwo]
    omega
  unfold anyOther
  dsimp only
  apply Draws.bind
  · exact draws_writeGs s cl (by omega) rfl
  rintro s₁ - rfl
  apply Draws.bind
  · exact draws_writeGs _ 0x07 (by omega) rfl
  rintro s₂ - rfl
  have hvideo : ((s.poke (ax <<< 1).toNat cl).poke (ax <<< 1 + 1).toNat 0x07).video =
      written s.video ax.toNat cl := by
    rw [hshl, hone]
    rfl
  by_cases hlt : ax.toNat + 1 < 2000
  · rw [if_pos ((slt_iff (by omega)).2 (by omega))]
    exact draws_pure (atOrRolled_at hlt ((cursor_setCursor _ _).trans hnext) hvideo)
  · rw [if_neg (fun h => hlt (by rw [← hnext]; exact (slt_iff (by omega)).1 h))]
    -- `ax` is still 1999, so the division gives 79 and the sum passes the end again
    have hfeed := draws_lineFeed ((s.poke (ax <<< 1).toNat cl).poke (ax <<< 1 + 1).toNat 0x07)
      (show ax.toNat % 80 ≤ ((ax <<< 1 + 1 + 1) >>> 1).toNat by omega) (by omega)
    rw [hnext, hvideo] at hfeed
    apply hfeed.mono
    intro s' hs'
    rw [atOrRolled_iff_rolled (by omega)] at hs' ⊢
    exact hs'

theorem draws_backSpace (s : Screen) {bx : BitVec 16} (h : bx.toNat < 2000) (h0 : bx.toNat ≠ 0) :
    Draws (s.backSpace bx) fun s' =>
      s'.cursor = bx.toNat - 1 ∧ s'.video = written s.video (bx.toNat - 1) 0x20 := by
  have hdec : (bx - 1).toNat = bx.toNat - 1 := by
    rw [BitVec.toNat_sub]
    show (2 ^ 16 - 1 + bx.toNat) % 2 ^ 16 = _
    omega
  have hshl := toNat_shl (show (bx - 1).toNat < 2 ^ 15 by omega)
  have hone : ((bx - 1) <<< 1 + 1).toNat = 2 * (bx.toNat - 1) + 1 := by
    rw [BitVec.toNat_add, hshl, hdec]
    show (2 * (bx.toNat - 1) + 1) % 2 ^ 16 = _
    omega
  unfold backSpace
  dsimp only
  apply Draws.bind
  · exact draws_writeGs s 0x20 (by omega) rfl
  rintro s₁ - rfl
  apply Draws.bind
  · exact draws_writeGs _ 0x07 (by omega) rfl
  rintro s₂ - rfl
  refine draws_pure ⟨?_, ?_⟩
  · rw [cursor_setCursor, toNat_shr, hone]
    omega
  · rw [video_setCursor, hshl, hone, hdec]
    rfl

/-! ## `sys_putchar` -/

theorem sysPutchar_eq (s : Screen) (cl : UInt8) : ∃ (s₁ : Screen) (ax : BitVec 16),
    ax.toNat = s.cursor ∧ s₁.video = s.video ∧ s.sysPutchar cl =
      if cl = 0x0d then s₁.lineFeed ax ax else if cl = 0x0a then s₁.lineFeed ax ax
      else if cl = 0x08 then s₁.backSpace ax else s₁.anyOther ax ax cl := by
  refine ⟨(s.outb 0x3D4 0x0E).outb 0x3D4 0x0F, (s.crtc 0x0E).toBitVec ++ (s.crtc 0x0F).toBitVec, toNat_ax s,
    rfl, ?_⟩
  unfold sysPutchar
  rfl

theorem draws_newline {s : Screen} (h : s.cursor < 2000) {cl : UInt8} (hcl : cl = 0x0d ∨ cl = 0x0a) :
    Draws (s.sysPutchar cl) (AtOrRolled (s.cursor - s.cursor % 80 + 80) s.video) := by
  obtain ⟨s₁, ax, hax, hv, heq⟩ := sysPutchar_eq s cl
  have hfeed : s.sysPutchar cl = s₁.lineFeed ax ax := by
    rw [heq]
    obtain rfl | rfl := hcl
    · rfl
    · rfl
  rw [hfeed, ← hax, ← hv]
  exact draws_lineFeed s₁ (Nat.mod_le _ _) (by omega)

theorem draws_glyph {s : Screen} (h : s.cursor < 2000) {cl : UInt8} (hcl : ¬ (cl = 0x0d ∨ cl = 0x0a))
    (h8 : cl ≠ 0x08) : Draws (s.sysPutchar cl) (AtOrRolled (s.cursor + 1) (written s.video s.cursor cl)) := by
  obtain ⟨s₁, ax, hax, hv, heq⟩ := sysPutchar_eq s cl
  rw [heq, if_neg (fun h => hcl (Or.inl h)), if_neg (fun h => hcl (Or.inr h)), if_neg h8, ← hax, ← hv]
  exact draws_anyOther s₁ (by omega) cl

theorem draws_backspace {s : Screen} (h : s.cursor < 2000) (h0 : s.cursor ≠ 0) :
    Draws (s.sysPutchar 0x08) fun s' =>
      s'.cursor = s.cursor - 1 ∧ s'.video = written s.video (s.cursor - 1) 0x20 := by
  obtain ⟨s₁, ax, hax, hv, heq⟩ := sysPutchar_eq s 0x08
  rw [heq, ← hax, ← hv]
  rw [← hax] at h h0
  exact draws_backSpace s₁ h h0

/-- A backspace at the start of the screen addresses offset `FFFE`, which is past the segment's limit. -/
theorem backspace_at_zero {s : Screen} (h : s.cursor = 0) :
    (s.sysPutchar 0x08).result = .error .generalProtection := by
  obtain ⟨s₁, ax, hax, -, heq⟩ := sysPutchar_eq s 0x08
  have hzero : ax = 0 := by
    apply BitVec.eq_of_toNat_eq
    rw [hax, h]
    rfl
  rw [heq, hzero]
  rfl

theorem draws_sysPutchar {s : Screen} (h : s.cursor < 2000) {cl : UInt8} (hcl : cl = 0x08 → s.cursor ≠ 0) :
    Draws (s.sysPutchar cl) fun s' => s'.cursor < 2000 := by
  by_cases hnl : cl = 0x0d ∨ cl = 0x0a
  · exact (draws_newline h hnl).mono fun s' hs' => hs'.cursor_lt
  by_cases h8 : cl = 0x08
  · subst h8
    apply (draws_backspace h (hcl rfl)).mono
    intro s' hs'
    omega
  · exact (draws_glyph h hnl h8).mono fun s' hs' => hs'.cursor_lt

/-! ## Staying on the screen -/

theorem sysPutchars_snoc (s : Screen) (p : List UInt8) (cl : UInt8) :
    s.sysPutchars (p ++ [cl]) = s.sysPutchars p >>= fun s' => s'.sysPutchar cl := by
  simp [sysPutchars]

theorem Draws.exists_ok {x : Draw Screen} {Q : Screen → Prop} (h : Draws x Q) :
    ∃ s', x.result = .ok s' ∧ Q s' ∧ ∀ off ∈ x.log, off < 4000 := by
  cases hr : x.result with
  | ok s' => exact ⟨s', rfl, (h.sat.of_ok hr).2, (h.sat.of_ok hr).1⟩
  | error e => exact (h.sat.of_error hr).elim

/-- After each of the characters the routine has returned, the cursor is on the screen, and so is every byte
written. -/
def OnScreen (s : Screen) (cls : List UInt8) : Prop :=
  ∀ p, p <+: cls → ∃ s', (s.sysPutchars p).result = .ok s' ∧ s'.cursor < 2000 ∧
    ∀ off ∈ (s.sysPutchars p).log, off < 4000

/-- **When the console stays on the screen.** From any screen with the cursor on it, any bytes are printed
with the cursor on the screen after each one, and all writes inside the 4000 bytes of the screen, if and only
if no backspace is printed with the cursor at position 0. -/
theorem cursor_on_screen_iff (s : Screen) (h : s.cursor < 2000) (cls : List UInt8) :
    s.OnScreen cls ↔
    ∀ p, p ++ [0x08] <+: cls → ∀ s', (s.sysPutchars p).result = .ok s' → s'.cursor ≠ 0 := by
  constructor
  · intro hon p hp s' hs' h0
    obtain ⟨s'', hs'', -⟩ := hon _ hp
    rw [sysPutchars_snoc, Trace.result_bind, hs', Except.ok_bind, backspace_at_zero h0] at hs''
    cases hs''
  · intro hback p hp
    have hdraws : Draws (s.sysPutchars p) fun s' => s'.cursor < 2000 := by
      induction p using List.reverseRecOn with
      | nil => exact draws_pure h
      | append_singleton p cl ih =>
        have ih := ih ((List.prefix_append p [cl]).trans hp)
        rw [sysPutchars_snoc]
        apply ih.bind
        intro s₁ hs₁ hlt
        apply draws_sysPutchar hlt
        intro hcl
        rw [hcl] at hp
        exact hback p hp s₁ hs₁
    exact hdraws.exists_ok

/-- A cleared display with the cursor at position 0. -/
def cleared : Screen := ⟨blankByte, 0, fun _ => 0⟩

/-- `A`, a backspace over it and `B`. -/
theorem cursor_on_screen_backspace : cleared.cursor < 2000 ∧ cleared.OnScreen [0x41, 0x08, 0x42] := by
  refine ⟨by decide, (cursor_on_screen_iff cleared (by decide) [0x41, 0x08, 0x42]).2 ?_⟩
  intro p hp s' hs'
  -- the only backspace is behind the `A`
  obtain rfl : p = [0x41] := by
    have htake := List.prefix_iff_eq_take.1 hp
    have hle := hp.length_le
    rw [List.length_append] at htake hle
    have hlast := congrArg List.getLast? htake
    have hdrop := congrArg List.dropLast htake
    rw [List.getLast?_concat] at hlast
    rw [List.dropLast_concat] at hdrop
    have hle2 : p.length + 1 ≤ 3 := hle
    obtain hlen | hlen | hlen : p.length = 0 ∨ p.length = 1 ∨ p.length = 2 := by omega
    · rw [hlen] at hlast
      exact absurd hlast (by decide)
    · rw [hlen] at hdrop
      exact hdrop
    · rw [hlen] at hlast
      exact absurd hlast (by decide)
  have hletter : Draws (cleared.sysPutchar 0x41) (AtOrRolled 1 (written cleared.video 0 0x41)) :=
    draws_glyph (s := cleared) (by decide) (by decide) (by decide)
  have hok : (cleared.sysPutchar 0x41).result = .ok s' := hs'
  have hat := (hletter.sat.of_ok hok).2
  unfold AtOrRolled at hat
  rw [if_pos (by decide)] at hat
  rw [hat.1]
  decide

/-- A backspace on a cleared display, as when the first key echoed is Backspace. -/
theorem backspace_leaves_screen : cleared.cursor < 2000 ∧ ¬ cleared.OnScreen [0x08] := by
  refine ⟨by decide, ?_⟩
  intro hon
  obtain ⟨s', hs', -⟩ := hon [0x08] (List.prefix_refl _)
  have hfault : (cleared.sysPutchars [0x08]).result = .error .generalProtection := by
    show (cleared.sysPutchars ([] ++ [0x08])).result = _
    rw [sysPutchars_snoc]
    exact backspace_at_zero rfl
  rw [hfault] at hs'
  cases hs'

/-! ## The console as a terminal -/

abbrev Cell := UInt8 × UInt8

/-- What the console should do with a byte other than a backspace. -/
def refTerminal (t : Terminal 25 80 Cell) (b : UInt8) : Terminal 25 80 Cell :=
  t.feed (0x20, 0x07) (fun b => b == 0x0d || b == 0x0a) (fun b => (b, 0x07)) b

def terminal (s : Screen) (h : s.cursor < 2000) : Terminal 25 80 Cell where
  cell r c := (s.video (2 * (80 * r + c)), s.video (2 * (80 * r + c) + 1))
  row := ⟨s.cursor / 80, by omega⟩
  col := ⟨s.cursor % 80, by omega⟩

/-- Video memory `v` and the cursor position `n` show the terminal `t`. -/
structure Shows (n : Nat) (v : Nat → UInt8) (t : Terminal 25 80 Cell) : Prop where
  cursor : n = 80 * t.row + t.col
  cell : ∀ (r : Fin 25) (c : Fin 80), v (2 * (80 * r + c)) = (t.cell r c).1 ∧ v (2 * (80 * r + c) + 1) = (t.cell r c).2

theorem shows_terminal (s : Screen) (h : s.cursor < 2000) : Shows s.cursor s.video (s.terminal h) :=
  ⟨(Nat.div_add_mod _ _).symm, fun _ _ => ⟨rfl, rfl⟩⟩

theorem Shows.lt {n : Nat} {v : Nat → UInt8} {t : Terminal 25 80 Cell} (h : Shows n v t) : n < 2000 := by
  have := h.cursor
  have := t.row.isLt
  have := t.col.isLt
  omega

theorem Shows.terminal_eq {s : Screen} {t : Terminal 25 80 Cell} (h : Shows s.cursor s.video t) :
    s.terminal h.lt = t := by
  obtain ⟨cell, row, col⟩ := t
  have hcur : s.cursor = 80 * row + col := h.cursor
  unfold terminal
  congr 1
  · funext r c
    exact Prod.ext (h.cell r c).1 (h.cell r c).2
  · apply Fin.ext
    show s.cursor / 80 = row
    omega
  · apply Fin.ext
    show s.cursor % 80 = col
    omega

theorem Shows.rolled {n : Nat} {v : Nat → UInt8} {t : Terminal 25 80 Cell} (h : Shows n v t) (r : Fin 25)
    (c : Fin 80) : rolled v (2 * (80 * r + c)) = ((t.scroll (0x20, 0x07)).cell r c).1 ∧
      rolled v (2 * (80 * r + c) + 1) = ((t.scroll (0x20, 0x07)).cell r c).2 := by
  have hc := c.isLt
  unfold Terminal.scroll
  dsimp only
  by_cases hr : (r : Nat) + 1 < 25
  · rw [dif_pos hr, rolled_up v (by omega), rolled_up v (by omega)]
    rw [show 2 * (80 * (r : Nat) + c) + 160 = 2 * (80 * (r + 1) + c) by omega,
      show 2 * (80 * (r : Nat) + c) + 1 + 160 = 2 * (80 * (r + 1) + c) + 1 by omega]
    exact h.cell ⟨r + 1, hr⟩ c
  · have hr' := r.isLt
    rw [dif_neg hr, rolled_last v (by omega) (by omega), rolled_last v (by omega) (by omega), blankByte, blankByte,
      if_pos (by omega), if_neg (by omega)]
    exact ⟨rfl, rfl⟩

theorem Shows.newline {n : Nat} {v : Nat → UInt8} {t : Terminal 25 80 Cell} (h : Shows n v t) {s' : Screen}
    (hs' : AtOrRolled (80 * t.row + 80) v s') : Shows s'.cursor s'.video (t.newline (0x20, 0x07)) := by
  unfold Terminal.newline
  by_cases hr : (t.row : Nat) + 1 < 25
  · rw [dif_pos hr]
    rw [AtOrRolled, if_pos (by omega)] at hs'
    obtain ⟨hc, hv⟩ := hs'
    rw [hc, hv]
    refine ⟨?_, h.cell⟩
    show 80 * (t.row : Nat) + 80 = 80 * (t.row + 1) + 0
    omega
  · have hrow := t.row.isLt
    rw [dif_neg hr]
    rw [atOrRolled_iff_rolled (by omega)] at hs'
    obtain ⟨hc, hv⟩ := hs'
    rw [hc, hv]
    refine ⟨?_, h.rolled⟩
    show 1920 = 80 * (t.row : Nat) + 0
    omega

theorem Shows.write {n : Nat} {v : Nat → UInt8} {t : Terminal 25 80 Cell} (h : Shows n v t) (b : UInt8) :
    Shows n (written v n b) (t.write (b, 0x07)) := by
  refine ⟨h.cursor, ?_⟩
  intro r c
  have hcur := h.cursor
  have hc := c.isLt
  have hcol := t.col.isLt
  unfold Terminal.write
  dsimp only
  by_cases hat : r = t.row ∧ c = t.col
  · rw [if_pos hat, hat.1, hat.2, ← hcur]
    exact written_at v n b
  · have hne : 80 * (r : Nat) + c ≠ n := by
      intro heq
      apply hat
      constructor
      · apply Fin.ext
        omega
      · apply Fin.ext
        omega
    rw [if_neg hat, (written_ne v hne b).1, (written_ne v hne b).2]
    exact h.cell r c

theorem Shows.advance {n : Nat} {v : Nat → UInt8} {t : Terminal 25 80 Cell} (h : Shows n v t) {s' : Screen}
    (hs' : AtOrRolled (n + 1) v s') : Shows s'.cursor s'.video (t.advance (0x20, 0x07)) := by
  have hcur := h.cursor
  unfold Terminal.advance
  by_cases hc : (t.col : Nat) + 1 < 80
  · have hrow := t.row.isLt
    rw [dif_pos hc]
    rw [AtOrRolled, if_pos (by omega)] at hs'
    obtain ⟨hc', hv⟩ := hs'
    rw [hc', hv]
    refine ⟨?_, h.cell⟩
    show n + 1 = 80 * (t.row : Nat) + (t.col + 1)
    omega
  · have hcol := t.col.isLt
    rw [dif_neg hc]
    apply h.newline
    rwa [show 80 * (t.row : Nat) + 80 = n + 1 by omega]

theorem draws_refTerminal {s : Screen} {t : Terminal 25 80 Cell} (h : Shows s.cursor s.video t) {b : UInt8}
    (h8 : b ≠ 0x08) : Draws (s.sysPutchar b) fun s' => Shows s'.cursor s'.video (refTerminal t b) := by
  have hcur := h.cursor
  have hcol := t.col.isLt
  unfold refTerminal Terminal.feed
  by_cases hnl : b = 0x0d ∨ b = 0x0a
  · rw [if_pos (by simpa using hnl)]
    apply (draws_newline h.lt hnl).mono
    intro s' hs'
    apply h.newline
    rwa [show 80 * (t.row : Nat) + 80 = s.cursor - s.cursor % 80 + 80 by omega]
  · rw [if_neg (by simpa using hnl)]
    exact (draws_glyph h.lt hnl h8).mono fun s' hs' => (h.write b).advance hs'

/-! ## `sys_putstr` -/

/-- At `a` stands the string `bs`, ended by a zero byte. -/
def IsString (mem : Bytes.Mem) : Bytes.Word → List UInt8 → Prop
  | a, [] => mem a = 0
  | a, b :: bs => mem a = b.toBitVec ∧ b ≠ 0 ∧ IsString mem (a + 1) bs

theorem IsString.byte_ne {mem : Bytes.Mem} {bs : List UInt8} {a : Bytes.Word} (h : IsString mem a bs) {i : Nat}
    (hi : i < bs.length) : mem (a + BitVec.ofNat 32 i) ≠ 0 := by
  induction bs generalizing a i with
  | nil => cases hi
  | cons b bs ih =>
    obtain ⟨hb, hne, htl⟩ := h
    cases i with
    | zero =>
      rw [BitVec.ofNat_eq_ofNat, BitVec.add_zero, hb]
      intro h0
      exact hne (UInt8.toBitVec_inj.1 h0)
    | succ i =>
      rw [List.length_cons] at hi
      rw [Bytes.add_ofNat_succ]
      exact ih htl (by omega)

theorem IsString.end_eq {mem : Bytes.Mem} {bs : List UInt8} {a : Bytes.Word} (h : IsString mem a bs) :
    mem (a + BitVec.ofNat 32 bs.length) = 0 := by
  induction bs generalizing a with
  | nil =>
    rw [List.length_nil, BitVec.ofNat_eq_ofNat, BitVec.add_zero]
    exact h
  | cons b bs ih =>
    rw [List.length_cons, Bytes.add_ofNat_succ]
    exact ih h.2.2

theorem IsString.length_lt {mem : Bytes.Mem} {bs : List UInt8} {a : Bytes.Word} (h : IsString mem a bs) :
    bs.length < 2 ^ 32 := by
  by_contra hle
  apply h.byte_ne (i := bs.length - 2 ^ 32) (by omega)
  have hwrap : BitVec.ofNat 32 (bs.length - 2 ^ 32) = BitVec.ofNat 32 bs.length := by
    apply BitVec.eq_of_toNat_eq
    rw [BitVec.toNat_ofNat, BitVec.toNat_ofNat]
    omega
  rw [hwrap]
  exact h.end_eq

theorem putNext_refTerminal {mem : Bytes.Mem} {bs : List UInt8} {a : Bytes.Word} (hstr : IsString mem a bs)
    (h8 : 0x08 ∉ bs) {s : Screen} {t : Terminal 25 80 Cell} (hs : Shows s.cursor s.video t) {fuel : Nat}
    (hf : bs.length < fuel) (eax : Bytes.Word) : ∃ s', (putNext mem fuel s a eax).result =
      .ok (s', eax + BitVec.ofNat 32 bs.length) ∧ Shows s'.cursor s'.video (bs.foldl refTerminal t) := by
  induction bs generalizing a s t fuel eax with
  | nil =>
    obtain ⟨fuel, rfl⟩ := Nat.exists_eq_add_of_lt hf
    rw [List.length_nil, BitVec.add_zero, Nat.zero_add, putNext, if_pos (show mem a = 0 from hstr)]
    exact ⟨s, rfl, hs⟩
  | cons b bs ih =>
    obtain ⟨hb, hne, htl⟩ := hstr
    rw [List.mem_cons, not_or] at h8
    cases fuel with
    | zero => cases hf
    | succ fuel =>
      have hnz : mem a ≠ 0 := by
        rw [hb]
        intro h0
        exact hne (UInt8.toBitVec_inj.1 h0)
      have hbyte : (⟨mem a⟩ : UInt8) = b := by rw [hb]
      obtain ⟨s₁, hs₁, hshows, -⟩ := (draws_refTerminal hs (fun h => h8.1 h.symm)).exists_ok
      rw [putNext, if_neg hnz, hbyte, Trace.result_bind, hs₁, Except.ok_bind, List.length_cons, Nat.add_comm,
        BitVec.ofNat_add, ← BitVec.add_assoc]
      exact ih htl h8.2 hshows (Nat.lt_of_succ_lt_succ hf) (eax + 1)

/-- **The console is a terminal.** From any screen with the cursor on it, `sys_putstr` of any string without a
backspace returns the number of its bytes, and leaves the display as the terminal of 25 rows and 80 columns
would be: each byte is written with attribute `07` at the cursor, which advances; CR and LF both go to the start
of the next row; past the last row, the rows move up, the last one is filled with `0720` and the cursor stands
at its start. -/
theorem sysPutstr_refines_terminal {mem : Bytes.Mem} {str : Bytes.Word} {bs : List UInt8}
    (hstr : IsString mem str bs) (h8 : 0x08 ∉ bs) (s : Screen) (h : s.cursor < 2000) {fuel : Nat}
    (hf : bs.length < fuel) :
    ∃ (s' : Screen) (n : Bytes.Word) (h' : s'.cursor < 2000), (sysPutstr mem fuel s str).result = .ok (s', n) ∧
      s'.terminal h' = bs.foldl refTerminal (s.terminal h) ∧ n.toNat = bs.length := by
  obtain ⟨s', hs', hshows⟩ := putNext_refTerminal hstr h8 (shows_terminal s h) hf 0
  refine ⟨s', _, hshows.lt, hs', hshows.terminal_eq, ?_⟩
  rw [show (0 : Bytes.Word) + BitVec.ofNat 32 bs.length = BitVec.ofNat 32 bs.length from BitVec.zero_add _,
    BitVec.toNat_ofNat, Nat.mod_eq_of_lt hstr.length_lt]

theorem sysPutstr_refines_terminal_line :
    ∃ (s' : Screen) (n : Bytes.Word) (h' : s'.cursor < 2000),
      (sysPutstr (fun a => if a = 0 then 0x41 else if a = 1 then 0x0a else 0) 3 cleared 0).result = .ok (s', n) ∧
      s'.terminal h' = [0x41, 0x0a].foldl refTerminal (cleared.terminal (by decide)) ∧ n.toNat = 2 := by
  have hstr : IsString (fun a => if a = 0 then 0x41 else if a = 1 then 0x0a else 0) 0 [0x41, 0x0a] :=
    ⟨by decide, by decide, by decide, by decide, rfl⟩
  exact sysPutstr_refines_terminal hstr (by decide) cleared (by decide) (by decide)

end Screen

end ElephantOS
