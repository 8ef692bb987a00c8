import ElephantOS.Device.Print
import ElephantOS.Kernel.StringWrites
import ElephantOS.Thread.Switch

/-!
# The bytes of a PCB (`thread/thread.c`)

`InitThread` clears the PCB, copies the thread's name into its 16 bytes with `strcpy`, and assigns most of the fields
after that.

* `initThread` : the function, byte for byte, with the offsets of the fields of `struct task_struct`;
* `pcbByte`, `byteAt_initThread` : what it leaves at each offset from the PCB;
* `initThread_any_name` : what a name that is too long does, and what the canary says about it.
-/

namespace ElephantOS
open Bytes (Word Mem byteAt load store write wordByte)

namespace PcbBytes
open Strings

/-- `STACK_CANARY`. -/
def stackCanary : Word := 0x32512332

/-- The bytes of a `uint16_t`. -/
def halfBytes (v : BitVec 16) : List (BitVec 8) := [v.extractLsb' 0 8, v.extractLsb' 8 8]

/-- `InitThread`. `pid` is what `AllocatePid` returned; a priority is cut to its byte. -/
def initThread (mem : Mem) (fuel : Nat) (mainThread pthread name : Word) (pid : BitVec 16) (priority : Word) :
    Except StringFault Mem := do
  let mem ← memset mem pthread 0 (BitVec.ofNat 32 Context.pcbSize)
  let mem := write mem (pthread + 4) (halfBytes pid)
  let r ← strcpy mem fuel (pthread + 13) name
  let mem := r.1
  let mem := if pthread = mainThread then store mem (pthread + 8) 0 else store mem (pthread + 8) 1
  let mem := write mem (pthread + 12) [priority.setWidth 8]
  let mem := write mem (pthread + 29) [priority.setWidth 8]
  let mem := write mem (pthread + 30) [0]
  let mem := store mem (pthread + 48) 0
  let mem := store mem pthread (pthread + 4096)
  return store mem (pthread + 232) stackCanary

/-! ## The bytes it leaves -/

/-- What `InitThread` leaves at offset `k` of the PCB `p`, for the name `bs`; the bytes after a long name's end and
those of a field that is not assigned are 0, those after the PCB are the old ones. -/
def pcbByte (mem : Mem) (mainThread p : Word) (pid : BitVec 16) (priority : Word) (bs : List UInt8) (k : Nat) : BitVec 8 :=
  if 232 ≤ k ∧ k < 236 then wordByte stackCanary (k - 232)
  else if k < 4 then wordByte (p + 4096) k
  else if 48 ≤ k ∧ k < 52 then wordByte 0 (k - 48)
  else if k = 30 then 0
  else if k = 29 then priority.setWidth 8
  else if k = 12 then priority.setWidth 8
  else if 8 ≤ k ∧ k < 12 then wordByte (if p = mainThread then 0 else 1) (k - 8)
  else if 13 ≤ k ∧ k < 14 + bs.length then (bs.map UInt8.toBitVec ++ [0])[k - 13]?.getD 0
  else if 4 ≤ k ∧ k < 6 then (halfBytes pid)[k - 4]?.getD 0
  else if k < 236 then 0
  else byteAt mem p k

theorem memsetFrom_apply (value : BitVec 8) {n : Nat} (hn : n ≤ 2 ^ 32) (m : Mem) (p b : Word) :
    memsetFrom value n m p b = if (b - p).toNat < n then value else m b := by
  induction n generalizing m p with
  | zero => rw [if_neg (Nat.not_lt_zero _)]; rfl
  | succ n ih =>
    rw [memsetFrom, ih (by omega), Function.update_apply]
    by_cases hb : b = p
    · have h0 : (b - p).toNat = 0 := by rw [hb, BitVec.sub_self]; rfl
      have h1 : (b - (p + 1)).toNat = 2 ^ 32 - 1 := by rw [hb]; bv_omega
      rw [h1, if_neg (by omega), if_pos hb, h0, if_pos (Nat.succ_pos n)]
    · have hpos : (b - p).toNat ≠ 0 := by
        intro h0
        apply hb
        bv_omega
      have hpred : (b - (p + 1)).toNat = (b - p).toNat - 1 := by bv_omega
      rw [hpred, if_neg hb]
      by_cases hlt : (b - p).toNat < n + 1
      · rw [if_pos hlt, if_pos (by omega)]
      · rw [if_neg hlt, if_neg (by omega)]

/-- The name stands apart from the bytes that `InitThread` writes. -/
structure NameAt (mem : Mem) (p name : Word) (bs : List UInt8) : Prop where
  isString : Screen.IsString mem name bs
  nonnull : name ≠ 0
  apart : ∀ i ≤ bs.length, max 236 (14 + bs.length) ≤ (name + BitVec.ofNat 32 i - p).toNat

theorem NameAt.length_lt {mem : Mem} {p name : Word} {bs : List UInt8} (h : NameAt mem p name bs) :
    14 + bs.length < 2 ^ 32 := by
  have h0 := h.apart 0 (Nat.zero_le _)
  have hlt := (name + BitVec.ofNat 32 0 - p).isLt
  omega

theorem NameAt.behind {mem : Mem} {p name : Word} {bs : List UInt8} (h : NameAt mem p name bs) :
    Behind (p + 13) name bs := by
  right
  by_contra hle
  have hmeet : name + BitVec.ofNat 32 (p + 13 - name).toNat - p = 13 := by
    rw [BitVec.ofNat_toNat, BitVec.setWidth_eq]
    bv_omega
  have hfar := h.apart (p + 13 - name).toNat (Nat.le_of_not_lt hle)
  rw [hmeet, show (13 : Word).toNat = 13 from rfl] at hfar
  omega

/-- The memory when `strcpy` is called. -/
def cleared (mem : Mem) (p : Word) (pid : BitVec 16) : Mem := write (memsetFrom 0 236 mem p) (p + 4) (halfBytes pid)

theorem byteAt_cleared (mem : Mem) (p : Word) (pid : BitVec 16) {k : Nat} (hk : k < 2 ^ 32) :
    byteAt (cleared mem p pid) p k =
      if 4 ≤ k ∧ k < 6 then (halfBytes pid)[k - 4]?.getD 0 else if k < 236 then 0 else byteAt mem p k := by
  have h : byteAt (write (memsetFrom 0 236 mem p) (p + BitVec.ofNat 32 4) (halfBytes pid)) p k = _ :=
    Bytes.byteAt_write_off _ p (show 4 + 2 ≤ 2 ^ 32 by decide) hk
  have hset : byteAt (memsetFrom 0 236 mem p) p k = if k < 236 then 0 else byteAt mem p k := by
    show memsetFrom 0 236 mem p (p + BitVec.ofNat 32 k) = _
    rw [memsetFrom_apply 0 (by decide), Bytes.sub_ofNat p hk]
    rfl
  rw [hset] at h
  exact h

theorem NameAt.cleared {mem : Mem} {p name : Word} {bs : List UInt8} (h : NameAt mem p name bs) (pid : BitVec 16) :
    Screen.IsString (cleared mem p pid) name bs := by
  apply isString_copy h.isString
  intro i hi
  have hfar := h.apart i hi
  have hb := byteAt_cleared mem p pid (name + BitVec.ofNat 32 i - p).isLt
  rw [if_neg (by omega), if_neg (by omega)] at hb
  unfold byteAt at hb
  rw [BitVec.ofNat_toNat, BitVec.setWidth_eq, show p + (name + BitVec.ofNat 32 i - p) = name + BitVec.ofNat 32 i by
    rw [BitVec.add_comm, BitVec.sub_add_cancel]] at hb
  exact hb

/-- The assignments after `strcpy`. -/
def assigned (mem : Mem) (mainThread p : Word) (priority : Word) : Mem :=
  let mem := if p = mainThread then store mem (p + 8) 0 else store mem (p + 8) 1
  let mem := write mem (p + 12) [priority.setWidth 8]
  let mem := write mem (p + 29) [priority.setWidth 8]
  let mem := write mem (p + 30) [0]
  let mem := store mem (p + 48) 0
  let mem := store mem p (p + 4096)
  store mem (p + 232) stackCanary

theorem byteAt_store_zero (m : Mem) (p v : Word) {k : Nat} (hk : k < 2 ^ 32) :
    byteAt (store m p v) p k = if k < 4 then wordByte v k else byteAt m p k := by
  have h := Bytes.byteAt_store_off m p v (o := 0) (by decide) hk
  rw [BitVec.add_zero] at h
  simpa using h

theorem byteAt_byte (m : Mem) (p : Word) {o k : Nat} (ho : o < 2 ^ 32) (c : BitVec 8) (hk : k < 2 ^ 32) :
    byteAt (write m (p + BitVec.ofNat 32 o) [c]) p k = if k = o then c else byteAt m p k := by
  rw [Bytes.byteAt_write_off m p (show o + 1 ≤ 2 ^ 32 from ho) hk]
  by_cases h : k = o
  · rw [if_pos h, if_pos (by simp; omega), h, Nat.sub_self]
    rfl
  · rw [if_neg h, if_neg (by simp; omega)]

theorem byteAt_assigned (m : Mem) (mainThread p priority : Word) {k : Nat} (hk : k < 2 ^ 32) :
    byteAt (assigned m mainThread p priority) p k =
      if 232 ≤ k ∧ k < 236 then wordByte stackCanary (k - 232)
      else if k < 4 then wordByte (p + 4096) k
      else if 48 ≤ k ∧ k < 52 then wordByte 0 (k - 48)
      else if k = 30 then 0
      else if k = 29 then priority.setWidth 8
      else if k = 12 then priority.setWidth 8
      else if 8 ≤ k ∧ k < 12 then wordByte (if p = mainThread then 0 else 1) (k - 8)
      else byteAt m p k := by
  have hstatus : (if p = mainThread then store m (p + 8) 0 else store m (p + 8) 1) =
      store m (p + BitVec.ofNat 32 8) (if p = mainThread then 0 else 1) := by
    split_ifs
    · rfl
    · rfl
  unfold assigned
  dsimp only
  rw [hstatus]
  refine (Bytes.byteAt_store_off _ p _ (o := 232) (by decide) hk).trans ?_
  rw [byteAt_store_zero _ _ _ hk]
  congr 1
  congr 1
  refine (Bytes.byteAt_store_off _ p _ (o := 48) (by decide) hk).trans ?_
  congr 1
  refine (byteAt_byte _ p (o := 30) (by decide) _ hk).trans ?_
  congr 1
  refine (byteAt_byte _ p (o := 29) (by decide) _ hk).trans ?_
  congr 1
  refine (byteAt_byte _ p (o := 12) (by decide) _ hk).trans ?_
  congr 1
  exact Bytes.byteAt_store_off _ p _ (by decide) hk

variable {mem : Mem} {p name : Word} {bs : List UInt8}

/-- `InitThread` returns, and leaves these bytes. -/
theorem byteAt_initThread (hp : p.toNat % 4096 = 0) (h0 : p ≠ 0) (hname : NameAt mem p name bs) {fuel : Nat}
    (hf : bs.length < fuel) (mainThread : Word) (pid : BitVec 16) (priority : Word) :
    ∃ mem', initThread mem fuel mainThread p name pid priority = .ok mem' ∧
      ∀ k < 2 ^ 32, byteAt mem' p k = pcbByte mem mainThread p pid priority bs k := by
  have hdst : p + 13 ≠ 0 := by bv_omega
  have hset : memset mem p 0 (BitVec.ofNat 32 Context.pcbSize) = .ok (memsetFrom 0 236 mem p) := if_pos h0
  have hcpy : strcpy (cleared mem p pid) fuel (p + 13) name =
      .ok (write (cleared mem p pid) (p + 13) (bs.map UInt8.toBitVec ++ [0]), p + 13) := by
    unfold strcpy
    rw [if_pos ⟨hdst, hname.nonnull⟩, strcpyFrom_behind (hname.cleared pid) hname.behind hf]
    rfl
  refine ⟨assigned (write (cleared mem p pid) (p + 13) (bs.map UInt8.toBitVec ++ [0])) mainThread p priority, ?_, ?_⟩
  · unfold initThread
    rw [hset, Except.ok_bind]
    show strcpy (cleared mem p pid) fuel (p + 13) name >>= _ = _
    rw [hcpy]
    rfl
  · intro k hk
    have hlen : (bs.map UInt8.toBitVec ++ [0]).length = bs.length + 1 := by simp
    have hbytes : byteAt (write (cleared mem p pid) (p + BitVec.ofNat 32 13) (bs.map UInt8.toBitVec ++ [0])) p k = _ :=
      Bytes.byteAt_write_off _ p (by have := hname.length_lt; omega) hk
    rw [byteAt_cleared mem p pid hk, hlen] at hbytes
    rw [byteAt_assigned _ _ _ _ hk]
    rw [show (13 : Nat) + (bs.length + 1) = 14 + bs.length by omega] at hbytes
    rw [show byteAt (write (cleared mem p pid) (p + 13) (bs.map UInt8.toBitVec ++ [0])) p k = _ from hbytes]
    rfl

/-! ## Names of any length -/

/-- The string at `name` after `InitThread`: `cpu_ticks_left` stands after the 16 bytes of the name, and a byte 0 after
that. -/
def nameRead (bs : List UInt8) (priority : UInt8) : List UInt8 :=
  if bs.length ≤ 15 then bs else bs.take 16 ++ if priority = 0 then [] else [priority]

/-- What `InitThread` makes of `mem`, for the name `bs`. -/
structure Leaves (mem mem' : Mem) (mainThread p : Word) (pid : BitVec 16) (priority : Word) (bs : List UInt8) : Prop where
  selfKernelStack : load mem' p = p + 4096
  pidBytes : mem' (p + 4) = pid.extractLsb' 0 8 ∧ mem' (p + 5) = pid.extractLsb' 8 8
  status : load mem' (p + 8) = if p = mainThread then 0 else 1
  priorityByte : mem' (p + 12) = priority.setWidth 8
  cpuTicks : mem' (p + 29) = priority.setWidth 8 ∧ mem' (p + 30) = 0
  pdeAddr : load mem' (p + 48) = 0
  canary : load mem' (p + 232) = stackCanary
  name : Screen.IsString mem' (p + 13) (nameRead bs ⟨priority.setWidth 8⟩)
  /-- the tags, `userprog_vaddr` and `user_arena_descs` are cleared, unless the name runs into them -/
  others : (∀ k, 32 ≤ k → k < 232 → ¬ (48 ≤ k ∧ k < 52) → byteAt mem' p k = 0) ↔ bs.length ≤ 19
  /-- the rest of a long name is behind the PCB -/
  behind : ∀ k (hk : k < bs.length), 223 ≤ k → byteAt mem' p (13 + k) = bs[k].toBitVec
  /-- at 223 characters it is the first byte behind the PCB -/
  terminator : 223 ≤ bs.length → byteAt mem' p (13 + bs.length) = 0
  frame : ∀ k < 2 ^ 32, 236 ≤ k → 14 + bs.length ≤ k → byteAt mem' p k = byteAt mem p k
  /-- the function as the context switch sees it -/
  context : bs.length ≤ 222 → mem' = Context.initThread mem' mem p

section
variable {mem' : Mem} {mainThread priority : Word} {pid : BitVec 16}

theorem pcbByte_name {k : Nat} (hk : k ≤ bs.length) (h : k < 16 ∨ 18 ≤ k ∧ k < 35 ∨ 39 ≤ k ∧ k < 219 ∨ 223 ≤ k) :
    pcbByte mem mainThread p pid priority bs (13 + k) = (bs.map UInt8.toBitVec ++ [0])[k]?.getD 0 := by
  unfold pcbByte
  rw [if_neg (by omega), if_neg (by omega), if_neg (by omega), if_neg (by omega), if_neg (by omega), if_neg (by omega),
    if_neg (by omega), if_pos (by omega), Nat.add_sub_cancel_left]

theorem nameByte {k : Nat} (hk : k < bs.length) : (bs.map UInt8.toBitVec ++ [0])[k]?.getD 0 = bs[k].toBitVec := by
  rw [List.getElem?_append_left (by simpa using hk), List.getElem?_map, List.getElem?_eq_getElem hk]
  rfl

theorem nameByte_end : (bs.map UInt8.toBitVec ++ [0])[bs.length]?.getD 0 = 0 := by
  rw [List.getElem?_append_right (by simp)]
  simp

/-- The name as it is read back. -/
theorem isString_nameRead (hne : ∀ c ∈ bs, c ≠ 0)
    (hb : ∀ k < 2 ^ 32, byteAt mem' p k = pcbByte mem mainThread p pid priority bs k) :
    Screen.IsString mem' (p + 13) (nameRead bs ⟨priority.setWidth 8⟩) := by
  have hat : ∀ k < 2 ^ 31, mem' (p + 13 + BitVec.ofNat 32 k) = pcbByte mem mainThread p pid priority bs (13 + k) := by
    intro k hk
    rw [← hb (13 + k) (by omega), byteAt, BitVec.ofNat_add, ← BitVec.add_assoc]
    rfl
  unfold nameRead
  by_cases hlen : bs.length ≤ 15
  · rw [if_pos hlen]
    apply Print.isString_of_byteAt hne
    · intro i hi
      rw [hat i (by omega), pcbByte_name (by omega) (.inl (by omega)), nameByte hi]
    · rw [hat _ (by omega), pcbByte_name (Nat.le_refl _) (.inl (by omega)), nameByte_end]
  · rw [if_neg hlen]
    have hticks : mem' (p + 13 + BitVec.ofNat 32 16) = priority.setWidth 8 := hat 16 (by decide)
    have helapsed : mem' (p + 13 + BitVec.ofNat 32 17) = 0 := hat 17 (by decide)
    have htake : ∀ i (hi : i < (bs.take 16).length), mem' (p + 13 + BitVec.ofNat 32 i) = (bs.take 16)[i].toBitVec := by
      intro i hi
      rw [List.length_take] at hi
      rw [hat i (by omega), pcbByte_name (by omega) (.inl (by omega)), nameByte (by omega), List.getElem_take]
    have hlen16 : (bs.take 16).length = 16 := by
      rw [List.length_take]
      omega
    have hne16 : ∀ c ∈ bs.take 16, c ≠ 0 := fun c hc => hne c (List.mem_of_mem_take hc)
    by_cases hprio : (⟨priority.setWidth 8⟩ : UInt8) = 0
    · rw [if_pos hprio, List.append_nil]
      apply Print.isString_of_byteAt hne16 htake
      rw [hlen16, hticks]
      exact congrArg UInt8.toBitVec hprio
    · rw [if_neg hprio]
      apply Print.isString_of_byteAt
      · intro c hc
        rcases List.mem_append.1 hc with hc | hc
        · exact hne16 c hc
        · rw [List.mem_singleton.1 hc]
          exact hprio
      · intro i hi
        by_cases hi16 : i < (bs.take 16).length
        · rw [List.getElem_append_left hi16]
          exact htake i hi16
        · rw [List.length_append, List.length_singleton] at hi
          rw [List.getElem_append_right (by omega), List.getElem_singleton, show i = 16 by omega]
          exact hticks
      · rw [List.length_append, List.length_singleton, hlen16]
        exact helapsed

theorem others_iff (hne : ∀ c ∈ bs, c ≠ 0)
    (hb : ∀ k < 2 ^ 32, byteAt mem' p k = pcbByte mem mainThread p pid priority bs k) :
    (∀ k, 32 ≤ k → k < 232 → ¬ (48 ≤ k ∧ k < 52) → byteAt mem' p k = 0) ↔ bs.length ≤ 19 := by
  constructor
  · intro hzero
    by_contra hlen
    have h32 := hzero 32 (by decide) (by decide) (by decide)
    rw [hb 32 (by decide), pcbByte_name (k := 19) (by omega) (by omega), nameByte (by omega)] at h32
    exact hne _ (List.getElem_mem _) (UInt8.toBitVec_inj.1 h32)
  · intro hlen k hlo hhi hpde
    rw [hb k (by omega)]
    by_cases hname : k ≤ 13 + bs.length
    · -- only the terminator of a name of 19 characters is there
      obtain ⟨j, rfl⟩ := Nat.exists_eq_add_of_le (show 13 ≤ k by omega)
      rw [pcbByte_name (by omega) (by omega), show j = bs.length by omega, nameByte_end]
    · unfold pcbByte
      rw [if_neg (by omega), if_neg (by omega), if_neg (by omega), if_neg (by omega), if_neg (by omega),
        if_neg (by omega), if_neg (by omega), if_neg (by omega), if_neg (by omega), if_pos (by omega)]

end

/-- A name that ends in the PCB changes the PCB only. -/
theorem eq_context_initThread {mem' : Mem} {mainThread priority : Word} {pid : BitVec 16} (hlen : bs.length ≤ 222)
    (hb : ∀ k < 2 ^ 32, byteAt mem' p k = pcbByte mem mainThread p pid priority bs k) :
    mem' = Context.initThread mem' mem p := by
  funext b
  obtain ⟨k, hk, rfl⟩ : ∃ k < 2 ^ 32, b = p + BitVec.ofNat 32 k := by
    refine ⟨(b - p).toNat, (b - p).isLt, ?_⟩
    rw [BitVec.ofNat_toNat, BitVec.setWidth_eq, BitVec.add_comm, BitVec.sub_add_cancel]
  have hbyte := hb k hk
  have hstore := byteAt_store_zero (fun b => if (b - p).toNat < Context.pcbSize then mem' b else mem b) p (p + 4096) hk
  refine Eq.trans ?_ hstore.symm
  show byteAt mem' p k = _
  by_cases h4 : k < 4
  · rw [if_pos h4, hbyte, pcbByte, if_neg (by omega), if_pos h4]
  · rw [if_neg h4]
    show _ = if (p + BitVec.ofNat 32 k - p).toNat < 236 then byteAt mem' p k else byteAt mem p k
    rw [Bytes.sub_ofNat p hk]
    by_cases h236 : k < 236
    · rw [if_pos h236]
    · rw [if_neg h236, hbyte, pcbByte, if_neg (by omega), if_neg (by omega), if_neg (by omega), if_neg (by omega),
        if_neg (by omega), if_neg (by omega), if_neg (by omega), if_neg (by omega), if_neg (by omega), if_neg (by omega)]

theorem isString_ne {mem : Mem} {a : Word} {bs : List UInt8} (h : Screen.IsString mem a bs) : ∀ c ∈ bs, c ≠ 0 := by
  induction bs generalizing a with
  | nil => simp
  | cons b bs ih =>
    intro c hc
    rcases List.mem_cons.1 hc with rfl | hc
    · exact h.2.1
    · exact ih h.2.2 c hc

/-- **Any name, and the canary does not see it.** `InitThread` of any PCB and any name, however long, that stands apart
from the bytes it writes returns, with every field it assigns read back as assigned, the canary among them: a name that
runs over the rest of the PCB and behind it is not noticed. The name is read back cut to 16 characters, and from 16 on
with `cpu_ticks_left` as one more; the tags, `userprog_vaddr` and `user_arena_descs` are cleared if and only if the name
has at most 19 characters; behind the PCB only a name of at least 223 characters is written, of one of 223 its
terminator; and with a name of at most 222 it is the `InitThread` of the context switch. -/
theorem initThread_any_name (hp : p.toNat % 4096 = 0) (h0 : p ≠ 0) (hname : NameAt mem p name bs) {fuel : Nat}
    (hf : bs.length < fuel) (mainThread : Word) (pid : BitVec 16) (priority : Word) :
    ∃ mem', initThread mem fuel mainThread p name pid priority = .ok mem' ∧
      Leaves mem mem' mainThread p pid priority bs := by
  obtain ⟨mem', hret, hb⟩ := byteAt_initThread hp h0 hname hf mainThread pid priority
  have hne := isString_ne hname.isString
  have hlen := hname.length_lt
  have hword : ∀ {o : Nat} {v : Word}, o ≤ 232 →
      (∀ j < 4, pcbByte mem mainThread p pid priority bs (o + j) = wordByte v j) → load mem' (p + BitVec.ofNat 32 o) = v := by
    intro o v ho h
    apply Bytes.load_of_byteAt (by omega)
    intro j hj
    rw [hb _ (by omega), h j hj]
  refine ⟨mem', hret, ?_, ⟨?_, ?_⟩, ?_, ?_, ⟨?_, ?_⟩, ?_, ?_, isString_nameRead hne hb, others_iff hne hb, ?_, ?_,
    ?_, fun h222 => eq_context_initThread h222 hb⟩
  · rw [← hword (o := 0) (by decide) (v := p + 4096) ?_, BitVec.add_zero]
    intro j hj
    rw [pcbByte, if_neg (by omega), if_pos (by omega), Nat.zero_add]
  · exact hb 4 (by decide)
  · exact hb 5 (by decide)
  · refine hword (o := 8) (by decide) ?_
    intro j hj
    rw [pcbByte, if_neg (by omega), if_neg (by omega), if_neg (by omega), if_neg (by omega), if_neg (by omega),
      if_neg (by omega), if_pos (by omega), Nat.add_sub_cancel_left]
  · exact hb 12 (by decide)
  · exact hb 29 (by decide)
  · exact hb 30 (by decide)
  · refine hword (o := 48) (by decide) ?_
    intro j hj
    rw [pcbByte, if_neg (by omega), if_neg (by omega), if_pos (by omega), Nat.add_sub_cancel_left]
  · refine hword (o := 232) (by decide) ?_
    intro j hj
    rw [pcbByte, if_pos (by omega), Nat.add_sub_cancel_left]
  · intro k hk h223
    rw [hb _ (by omega), pcbByte_name (by omega) (by omega), nameByte hk]
  · intro h223
    rw [hb _ (by omega), pcbByte_name (Nat.le_refl _) (by omega), nameByte_end]
  · intro k hk h236 hend
    rw [hb k hk]
    unfold pcbByte
    rw [if_neg (by omega), if_neg (by omega), if_neg (by omega), if_neg (by omega), if_neg (by omega),
      if_neg (by omega), if_neg (by omega), if_neg (by omega), if_neg (by omega), if_neg (by omega)]

/-- The name `main` at `0xC0002000` in a memory of zeros, for the PCB at `0xC009E000`. -/
theorem initThread_any_name_main : ∃ mem mem' : Mem, NameAt mem 0xC009E000 0xC0002000 [0x6d, 0x61, 0x69, 0x6e] ∧
    initThread mem 5 0xC009E000 0xC009E000 0xC0002000 1 31 = .ok mem' ∧ load mem' (0xC009E000 + 232) = stackCanary := by
  have hname : NameAt (write (fun _ => 0) 0xC0002000 [0x6d, 0x61, 0x69, 0x6e]) 0xC009E000 0xC0002000
      [0x6d, 0x61, 0x69, 0x6e] := by
    refine ⟨⟨by decide, by decide, by decide, by decide, by decide, by decide, by decide, by decide, rfl⟩,
      by decide, ?_⟩
    decide
  obtain ⟨mem', hret, hleaves⟩ := initThread_any_name (by decide) (by decide) hname (show 4 < 5 by decide) 0xC009E000 1 31
  exact ⟨_, mem', hname, hret, hleaves.canary⟩

end PcbBytes

end ElephantOS
