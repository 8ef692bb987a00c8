import ElephantOS.Thread.Switch
import ElephantOS.Kernel.IntEntry

/-!
# The first steps of a user process (`userprog/process.c`)

A new process runs `KernelThread`, which enables interrupts, and then `StartProcess`, up to where it takes
`self_kernel_stack` for the address of the `INT_stack` to fill.

* `Starting` : the threads, with how far the process `p` has come and how often it was preempted;
* `Step.own` : code of the process; `Step.tick` : a timer interrupt that ends in `switch_to`;
  `Step.other` : anything the other threads do;
* `Step.load`, `Step.store` : the two accesses of `self_kernel_stack += sizeof(struct thread_stack)`;
  `processStack` : what is read next;
* `StartsRight` : that is the slot `ThreadCreate` reserved, clear of the live stack;
* `process_starts_right_iff` : exactly if each preemption is between the two accesses.
-/

namespace ElephantOS.Context
open Bytes

/-- Bytes from the interrupted stack pointer to the one `switch_to` is entered with, less the frames of
`IntTimerHandler` and `ScheduleThread`: the interrupt frame with the vector number and the return address (72), the
return address of `ScheduleThread` (4), the arguments and the return address of `switch_to` (12). -/
def tickFrame : Nat := 88

/-- The 72 bytes: an interrupt of kernel code by the timer. -/
theorem timer_entry_esp (tss : IntEntry.Tss) (entry ret handler err : Word) (c : IntEntry.Cpu)
    (hc : IntEntry.rpl c.cs = 0) :
    (IntEntry.enter tss entry ret handler 0x20 err c).esp = c.esp - 72 := by
  obtain ⟨d, h⟩ := IntEntry.enter_has tss entry ret handler 0x20 err c
  have hbase : IntEntry.base tss c = c.esp := if_pos hc
  have hlen := IntEntry.frame_length 0x20 err c d
  have hsize : IntEntry.frameSize c 0x20 = 16 := by
    simp [IntEntry.frameSize, IntEntry.hasErrorCode, hc]
  rw [h.esp_eq, hbase, List.length_cons, List.length_cons, hlen, hsize]
  rfl

/-- How far `StartProcess` is with `self_kernel_stack += sizeof(struct thread_stack)`. -/
inductive Progress where
  | before
  | loaded (field : Word)
  | stored

structure Starting where
  sys : Switching
  progress : Progress
  /-- preemptions between the load and the store -/
  inside : Nat
  /-- the other preemptions -/
  outside : Nat

/-- What code of the thread `p` may do until it calls `switch_to`: it leaves `self_kernel_stack` alone, and what the
other threads have saved, and its stack is below the arguments of `KernelThread`. -/
structure OwnCode (p : Word) (s : Switching) (cpu : Cpu) : Prop where
  current : s.current = p
  others : ∀ q a, s.last q ≠ none → Protected s.cpu.mem q a → cpu.mem a = s.cpu.mem a
  field : load cpu.mem p = load s.cpu.mem p
  stack : (cpu.regs .esp).toNat ≤ p.toNat + 3684

namespace Starting

/-- `ExecProcess` has made the process `p`, and nobody has switched to it. -/
def started (kernelThread : Word) (s₀ : Switching) (pcb : Mem) (p startProcess filename : Word) : Starting where
  sys := s₀.create kernelThread pcb p startProcess filename
  progress := .before
  inside := 0
  outside := 0

/-- A preemption of the process, with the threads in the state `sys` after it. -/
def preempt (s : Starting) (sys : Switching) : Starting :=
  match s.progress with
  | .loaded _ => { s with sys := sys, inside := s.inside + 1 }
  | _ => { s with sys := sys, outside := s.outside + 1 }

inductive Step (kernelThread p : Word) (s : Starting) : Starting → Prop
  | own (cpu : Cpu) : OwnCode p s.sys cpu → Step kernelThread p s { s with sys := { s.sys with cpu := cpu } }
  | tick (cpu : Cpu) (frames : Nat) (next : Word) : OwnCode p s.sys cpu →
      (cpu.regs .esp).toNat + tickFrame + frames = (s.sys.cpu.regs .esp).toNat →
      Switching.Entry { s.sys with cpu := cpu } next →
      Step kernelThread p s (s.preempt (Switching.switch { s.sys with cpu := cpu } next))
  | other (sys : Switching) : s.sys.current ≠ p → Switching.Step kernelThread s.sys sys →
      Step kernelThread p s { s with sys := sys }
  | load : s.sys.current = p → s.progress = .before →
      Step kernelThread p s { s with progress := .loaded (Bytes.load s.sys.cpu.mem p) }
  | store (field : Word) : s.sys.current = p → s.progress = .loaded field →
      Step kernelThread p s { s with
        sys := { s.sys with cpu := { s.sys.cpu with mem := Bytes.store s.sys.cpu.mem p (field + 4 * 32) } }
        progress := .stored }

inductive Run (kernelThread p : Word) (s₀ : Starting) : Starting → Prop
  | refl : Run kernelThread p s₀ s₀
  | step {s s' : Starting} : Run kernelThread p s₀ s → Step kernelThread p s s' → Run kernelThread p s₀ s'

/-- `process_stack`, read when the process runs after the store. -/
def processStack (p : Word) (s : Starting) : Word := load s.sys.cpu.mem p

/-- The process is about to fill the `INT_stack`. -/
structure Fills (p : Word) (s : Starting) : Prop where
  current : s.sys.current = p
  stored : s.progress = .stored

/-- The `INT_stack` of 76 bytes is `sizeof(struct thread_stack)` words above `stack`, and has no byte of the stack
in use, which ends with the arguments of `KernelThread`. -/
structure StartsRight (p stack : Word) (s : Starting) : Prop where
  reserved : processStack p s = stack + 4 * 32
  apart : ∀ a : Word, (s.sys.cpu.regs .esp).toNat ≤ a.toNat → a.toNat < stack.toNat + 32 →
    a.toNat < (processStack p s).toNat ∨ (processStack p s).toNat + 76 ≤ a.toNat

/-! ## What a preemption does to `self_kernel_stack` -/

/-- The value of `self_kernel_stack` after `n` preemptions. -/
structure Field (p : Word) (n : Nat) (field : Word) : Prop where
  fresh : n = 0 → field = p + 3664
  preempted : n ≠ 0 → field.toNat < p.toNat + 3664

theorem Field.below {p : Word} {n : Nat} {field : Word} (hn : n ≠ 0) (h : field.toNat < p.toNat + 3664) : Field p n field :=
  ⟨fun h0 => absurd h0 hn, fun _ => h⟩

/-- The field of the process: as `ThreadCreate` left it, and below that from the first preemption on. A preemption
between the load and the store lowers it too, but not the word that was loaded. -/
structure Inv (kernelThread p : Word) (s : Starting) : Prop where
  sys : Switching.Inv kernelThread s.sys
  page : p.toNat % 4096 = 0
  thread : s.sys.current ≠ p → s.sys.last p ≠ none
  stack : s.sys.current = p → (s.sys.cpu.regs .esp).toNat ≤ p.toNat + 3684
  out : s.sys.current ≠ p → (load s.sys.cpu.mem p).toNat ≤ p.toNat + 3664
  before : s.progress = .before → Field p s.outside (load s.sys.cpu.mem p)
  loaded : ∀ {w}, s.progress = .loaded w → Field p s.outside w
  stored : s.progress = .stored → (load s.sys.cpu.mem p = p + 3792 ↔ s.outside = 0)

section Steps
variable {kernelThread p : Word} {s s' : Starting}

/-- The stack `switch_to(current, next)` goes on with. -/
theorem switch_esp {t : Switching} (hi : Switching.Inv kernelThread t) {next : Word} (he : Switching.Entry t next) :
    (t.switch next).cpu.mem = savedMem t.cpu t.current ∧
      (t.switch next).cpu.regs .esp = load (savedMem t.cpu t.current) next + 20 := by
  obtain ⟨hmem, -, -, -, -, -, hesp⟩ := switchTo_eq he.stack he.arg1 he.arg2 (page_le hi.aligned) rfl
  exact ⟨hmem, hesp⟩

/-- The other threads leave `self_kernel_stack` of a switched-out thread alone. -/
theorem field_of_other {t t' : Switching} (hi : Switching.Inv kernelThread t) (hp : p.toNat % 4096 = 0)
    (hc : t.current ≠ p) (ht : t.last p ≠ none) (h : Switching.Step kernelThread t t') :
    load t'.cpu.mem p = load t.cpu.mem p := by
  have hpage := page_le hp
  apply load_eq_of_range (by omega)
  intro a hlo hhi
  cases h with
  | run cpu hm => exact hm p a ht (.inl ⟨hlo, hhi⟩)
  | create pcb q function funcArg hq _ hnone =>
    have hne : q ≠ p := by
      intro h
      rw [h] at hnone
      exact ht hnone
    exact threadCreate_of_lt (page_le hq) (Switching.page_apart hq hp hne ⟨hlo, by omega⟩)
  | switch next he =>
    rw [(switch_esp hi he).1]
    have hapart := Switching.page_apart hi.aligned hp hc ⟨hlo, by omega⟩
    obtain ⟨h1, h2⟩ := he.stack
    exact savedMem_of_not he.stack (by omega) (by omega)

theorem Inv.own (hi : Inv kernelThread p s) {cpu : Cpu} (h : OwnCode p s.sys cpu) :
    Inv kernelThread p { s with sys := { s.sys with cpu := cpu } } where
  sys := hi.sys.step (.run cpu h.others)
  page := hi.page
  thread hc := absurd h.current hc
  stack _ := h.stack
  out hc := absurd h.current hc
  before hb := by
    show Field p s.outside (load cpu.mem p)
    rw [h.field]
    exact hi.before hb
  loaded hl := hi.loaded hl
  stored hs := by
    rw [← hi.stored hs]
    exact Eq.congr_left h.field

theorem preempt_sys (s : Starting) (sys : Switching) : (s.preempt sys).sys = sys := by
  unfold preempt
  split <;> rfl

theorem preempt_progress (s : Starting) (sys : Switching) : (s.preempt sys).progress = s.progress := by
  unfold preempt
  split <;> rfl

theorem preempt_outside {s : Starting} (sys : Switching) (h : ∀ w, s.progress ≠ .loaded w) :
    (s.preempt sys).outside = s.outside + 1 := by
  unfold preempt
  split
  · rename_i w hw
    exact absurd hw (h w)
  · rfl

theorem preempt_loaded {s : Starting} (sys : Switching) {w : Word} (h : s.progress = .loaded w) :
    (s.preempt sys).outside = s.outside := by
  unfold preempt
  rw [h]

/-- `switch_to` from the process, called below an interrupt frame. -/
theorem Inv.switchOut (hi : Inv kernelThread p s) (hcur : s.sys.current = p)
    (hesp : (s.sys.cpu.regs .esp).toNat + tickFrame ≤ p.toNat + 3684) {next : Word}
    (he : Switching.Entry s.sys next) : Inv kernelThread p (s.preempt (s.sys.switch next)) := by
  have hpage := page_le hi.page
  obtain ⟨hmem, hsp⟩ := switch_esp hi.sys he
  rw [hcur] at hmem hsp
  -- the saved stack pointer is below the interrupted one
  have hfield : load (s.sys.switch next).cpu.mem p = s.sys.cpu.regs .esp - 16 := by
    rw [hmem]
    exact savedMem_self
  have hlow : (s.sys.cpu.regs .esp - 16).toNat < p.toNat + 3664 := by
    have hstack := he.stack.1
    have := (esp_sub (e := s.sys.cpu.regs .esp) (by omega)).2.2.2
    unfold tickFrame at hesp
    omega
  refine ⟨?_, hi.page, ?_, ?_, ?_, ?_, ?_, ?_⟩
  · rw [preempt_sys]
    exact hi.sys.switch he
  · rw [preempt_sys]
    intro hne
    rw [Switching.switch_last, if_neg (fun h => hne h.symm), if_pos hcur.symm]
    exact Option.some_ne_none _
  · rw [preempt_sys]
    intro hnext
    rw [hsp, show next = p from hnext, savedMem_self]
    bv_omega
  · rw [preempt_sys, hfield]
    intro _
    omega
  · rw [preempt_progress, preempt_sys, hfield]
    intro hb
    rw [preempt_outside _ (by rw [hb]; exact fun _ h => nomatch h)]
    exact .below (Nat.succ_ne_zero _) hlow
  · rw [preempt_progress]
    intro w hw
    rw [preempt_loaded _ hw]
    exact hi.loaded hw
  · rw [preempt_progress, preempt_sys, hfield]
    intro hs
    rw [preempt_outside _ (by rw [hs]; exact fun _ h => nomatch h)]
    refine iff_of_false ?_ (Nat.succ_ne_zero _)
    intro h
    rw [h] at hlow
    bv_omega

theorem Inv.tick (hi : Inv kernelThread p s) {cpu : Cpu} {frames : Nat} {next : Word} (h : OwnCode p s.sys cpu)
    (hesp : (cpu.regs .esp).toNat + tickFrame + frames = (s.sys.cpu.regs .esp).toNat)
    (he : Switching.Entry { s.sys with cpu := cpu } next) :
    Inv kernelThread p (s.preempt (Switching.switch { s.sys with cpu := cpu } next)) := by
  have hlow : (cpu.regs .esp).toNat + tickFrame ≤ p.toNat + 3684 := by
    have := hi.stack h.current
    omega
  exact (hi.own h).switchOut h.current hlow he

theorem Inv.other (hi : Inv kernelThread p s) (hc : s.sys.current ≠ p) {sys : Switching}
    (h : Switching.Step kernelThread s.sys sys) : Inv kernelThread p { s with sys := sys } := by
  have ht := hi.thread hc
  have hfield := field_of_other hi.sys hi.page hc ht h
  have hout := hi.out hc
  refine ⟨hi.sys.step h, hi.page, ?_, ?_, ?_, ?_, ?_, ?_⟩
  · intro hne
    cases h with
    | run cpu hm => exact ht
    | create pcb q function funcArg hq _ hnone =>
      show (Switching.create kernelThread s.sys pcb q function funcArg).last p ≠ none
      rw [Switching.create_last]
      split_ifs
      · exact Option.some_ne_none _
      · exact ht
    | switch next he =>
      show (Switching.switch s.sys next).last p ≠ none
      rw [Switching.switch_last, if_neg (fun h => hne h.symm), if_neg (Ne.symm hc)]
      exact ht
  · intro hcur
    cases h with
    | run cpu hm => exact absurd hcur hc
    | create pcb q function funcArg hq _ hnone => exact absurd hcur hc
    | switch next he =>
      obtain ⟨hmem, hsp⟩ := switch_esp hi.sys he
      have hnext : next = p := hcur
      rw [← hmem, show load (s.sys.switch next).cpu.mem next = load s.sys.cpu.mem p by rw [← hfield, hnext]] at hsp
      show ((Switching.switch s.sys next).cpu.regs .esp).toNat ≤ _
      rw [hsp]
      bv_omega
  · intro _
    rw [hfield]
    exact hout
  · intro hb
    rw [hfield]
    exact hi.before hb
  · exact hi.loaded
  · intro hs
    rw [hfield]
    exact hi.stored hs

theorem Inv.load (hi : Inv kernelThread p s) (hb : s.progress = .before) :
    Inv kernelThread p { s with progress := .loaded (Bytes.load s.sys.cpu.mem p) } := by
  refine ⟨hi.sys, hi.page, hi.thread, hi.stack, hi.out, ?_, ?_, ?_⟩
  · intro h
    cases h
  · intro w h
    cases h
    exact hi.before hb
  · intro h
    cases h

/-- Whatever the field was in the meantime, it becomes the sum. -/
theorem Inv.store (hi : Inv kernelThread p s) {field : Word} (hc : s.sys.current = p)
    (hl : s.progress = .loaded field) :
    Inv kernelThread p { s with
      sys := { s.sys with cpu := { s.sys.cpu with mem := Bytes.store s.sys.cpu.mem p (field + 4 * 32) } }
      progress := .stored } := by
  have hpage := page_le hi.page
  have hmem : ∀ a : Word, (a.toNat < p.toNat ∨ p.toNat + 4096 ≤ a.toNat) →
      Bytes.store s.sys.cpu.mem p (field + 4 * 32) a = s.sys.cpu.mem a := by
    intro a ha
    exact store_of_lt (by omega) (by omega)
  refine ⟨?_, hi.page, fun hne => absurd hc hne, fun _ => hi.stack hc, fun hne => absurd hc hne, ?_, ?_, ?_⟩
  · refine ⟨hi.sys.aligned, hi.sys.current, hi.sys.page, ?_⟩
    intro q o hq
    have hne : p ≠ q := by
      intro h
      have hnone := hi.sys.current
      rw [hc, h] at hnone
      exact Option.some_ne_none _ (hq.symm.trans hnone)
    exact hi.sys.saved_other hq hi.page hne hmem
  · intro h
    cases h
  · intro w h
    cases h
  · intro _
    show Bytes.load (Bytes.store s.sys.cpu.mem p (field + 4 * 32)) p = _ ↔ _
    rw [load_store]
    have hfield := hi.loaded hl
    by_cases hn : s.outside = 0
    · rw [hfield.fresh hn]
      refine ⟨fun _ => hn, fun _ => ?_⟩
      show p + 3664 + 128 = p + 3792
      bv_omega
    · have hlow := hfield.preempted hn
      refine ⟨fun h => ?_, fun h => absurd h hn⟩
      have h128 : field + 128 = p + 3792 := h
      bv_omega

theorem Inv.step (hi : Inv kernelThread p s) (h : Step kernelThread p s s') : Inv kernelThread p s' := by
  cases h with
  | own cpu hown => exact hi.own hown
  | tick cpu frames next hown hesp he => exact hi.tick hown hesp he
  | other sys hc hstep => exact hi.other hc hstep
  | load hc hb => exact hi.load hb
  | store field hc hl => exact hi.store hc hl

/-- Writes in the page of the current thread leave the others alone. -/
theorem others_of_page {t : Switching} (hi : Switching.Inv kernelThread t) {m : Mem}
    (hm : ∀ a : Word, (a.toNat < t.current.toNat ∨ t.current.toNat + 4096 ≤ a.toNat) → m a = t.cpu.mem a) (q a : Word)
    (hq : t.last q ≠ none) (ha : Protected t.cpu.mem q a) : m a = t.cpu.mem a := by
  obtain ⟨o, ho⟩ := Option.ne_none_iff_exists'.1 hq
  have hpage := hi.page q hq
  have hne : t.current ≠ q := by
    intro h
    rw [← h] at hq
    exact hq hi.current
  exact hm a (Switching.page_apart hi.aligned hpage hne ((hi.saved q o ho).protected_page (page_le hpage) ha))

theorem ownCode_regs {t : Switching} (hc : t.current = p) {regs : Reg → Word} (h : (regs .esp).toNat ≤ p.toNat + 3684) :
    OwnCode p t { t.cpu with regs := regs } :=
  ⟨hc, fun _ _ _ _ => rfl, rfl, h⟩

theorem Run.inv {s₀ : Starting} (h₀ : Inv kernelThread p s₀) (h : Run kernelThread p s₀ s) : Inv kernelThread p s := by
  induction h with
  | refl => exact h₀
  | step _ hstep ih => exact ih.step hstep

/-- `self_kernel_stack` after `ThreadCreate`. -/
theorem started_field (kernelThread : Word) (s₀ : Switching) (pcb : Mem) (startProcess filename : Word)
    (hp : p.toNat % 4096 = 0) :
    load (started kernelThread s₀ pcb p startProcess filename).sys.cpu.mem p = p + 3664 :=
  (threadCreate_saved (page_le hp)).1

theorem started_inv {s₀ : Switching} (h₀ : Switching.Reachable kernelThread s₀) {pcb : Mem}
    {startProcess filename : Word} (hp : p.toNat % 4096 = 0) (hne : p ≠ s₀.current) :
    Inv kernelThread p (started kernelThread s₀ pcb p startProcess filename) := by
  have hfield := started_field kernelThread s₀ pcb startProcess filename hp
  refine ⟨h₀.inv.create hp hne, hp, ?_, fun hc => absurd hc.symm hne, ?_, ?_, ?_, ?_⟩
  · intro _
    show (Switching.create kernelThread s₀ pcb p startProcess filename).last p ≠ none
    rw [Switching.create_last, if_pos rfl]
    exact Option.some_ne_none _
  · intro _
    apply Nat.le_of_eq
    rw [hfield, (page_offsets (page_le hp)).1]
  · intro _
    exact ⟨fun _ => hfield, fun hn => absurd rfl hn⟩
  · intro w h
    cases h
  · intro h
    cases h

end Steps

/-- Whatever the process and the other threads do: the `INT_stack` the process fills is the one reserved for it
exactly if no preemption came outside of the load and the store of `self_kernel_stack`. -/
theorem process_starts_right_iff {kernelThread : Word} {s₀ : Switching} (h₀ : Switching.Reachable kernelThread s₀)
    (pcb : Mem) {p : Word} (startProcess filename : Word) (hp : p.toNat % 4096 = 0) (hne : p ≠ s₀.current)
    {s : Starting}
    (h : Run kernelThread p (started kernelThread s₀ pcb p startProcess filename) s) (hf : Fills p s) :
    StartsRight p (load (started kernelThread s₀ pcb p startProcess filename).sys.cpu.mem p) s ↔
      s.outside = 0 := by
  have hi := h.inv (started_inv h₀ hp hne)
  have hpage := page_le hp
  have h128 : p + 3664 + 4 * 32 = p + 3792 := by
    show p + 3664 + 128 = p + 3792
    bv_omega
  rw [started_field _ _ _ _ _ hp]
  constructor
  · intro hs
    exact (hi.stored hf.stored).1 (hs.reserved.trans h128)
  · intro hn
    have hfield : processStack p s = p + 3792 := (hi.stored hf.stored).2 hn
    refine ⟨hfield.trans h128.symm, ?_⟩
    intro a _ ha
    left
    rw [hfield]
    bv_omega

/-! ### A process made by the main thread -/

/-- The main thread calls `switch_to(main, p)`. -/
def mainCpu : Cpu :=
  ⟨fun r => if r = .esp then 0xC009EF00 else 7, 0, store (store (fun _ => 0) 0xC009EF04 0xC009E000) 0xC009EF08 0xC0100000⟩

def mainThread : Switching := Switching.init mainCpu 0xC009E000

def newProcess : Starting := started 0xC0001500 mainThread (fun _ => 1) 0xC0100000 0xC0003000 0x2A

theorem mainThread_reachable : Switching.Reachable 0xC0001500 mainThread := .init mainCpu 0xC009E000 (by decide)

theorem newProcess_inv : Inv 0xC0001500 0xC0100000 newProcess :=
  started_inv mainThread_reachable (by decide) (by decide)

/-- The process runs. -/
def running : Starting := { newProcess with sys := newProcess.sys.switch 0xC0100000 }

theorem newProcess_runs : Run 0xC0001500 0xC0100000 newProcess running := by
  have he : Switching.Entry newProcess.sys 0xC0100000 :=
    ⟨by decide +kernel, by decide +kernel, by unfold OnStack; decide +kernel,
      .inr (newProcess_inv.thread (by decide))⟩
  exact .step .refl (.other _ (by decide) (.switch _ he))

/-- A tick in `KernelThread` or `StartProcess`, with 40 bytes of frames, at the call `switch_to(p, main)`. -/
def tickCpu : Cpu :=
  ⟨Function.update running.sys.cpu.regs .esp 0xC0100DE4, running.sys.cpu.eip,
    store (store running.sys.cpu.mem 0xC0100DE8 0xC0100000) 0xC0100DEC 0xC009E000⟩

def preempted : Switching := Switching.switch { running.sys with cpu := tickCpu } 0xC009E000

/-- The main thread switches back, and the interrupt returns. -/
def resumed : Switching :=
  Switching.switch { preempted with cpu := { preempted.cpu with regs := mainCpu.regs } } 0xC0100000

def returned : Switching := { resumed with cpu := { resumed.cpu with regs := running.sys.cpu.regs } }

section Preempted
variable {s : Starting}

theorem run_preempted (h : Run 0xC0001500 0xC0100000 newProcess s) (hs : s.sys = running.sys) :
    Run 0xC0001500 0xC0100000 newProcess (s.preempt preempted) := by
  have hi := h.inv newProcess_inv
  obtain ⟨sys, progress, inside, outside⟩ := s
  obtain rfl : sys = running.sys := hs
  have hmem : ∀ a : Word, (a.toNat < running.sys.current.toNat ∨ running.sys.current.toNat + 4096 ≤ a.toNat) →
      tickCpu.mem a = running.sys.cpu.mem a := by
    intro a ha
    have hcur : running.sys.current.toNat = 0xC0100000 := rfl
    rw [hcur] at ha
    exact (store_of_lt (show _ ∨ _ from by simp; omega) (by decide)).trans (store_of_lt (by simp; omega) (by decide))
  have hown : OwnCode 0xC0100000 running.sys tickCpu :=
    ⟨rfl, others_of_page hi.sys hmem, by decide +kernel, by decide +kernel⟩
  have hmain : running.sys.last 0xC009E000 = some (.called newProcess.sys.cpu) :=
    (Switching.switch_last newProcess.sys 0xC0100000 0xC009E000).trans ((if_neg (by decide)).trans (if_pos rfl))
  have he : Switching.Entry { running.sys with cpu := tickCpu } 0xC009E000 :=
    ⟨by decide +kernel, by decide +kernel, by unfold OnStack; decide +kernel,
      .inr fun hnone => Option.some_ne_none _ (hmain.symm.trans hnone)⟩
  have hesp : (tickCpu.regs .esp).toNat + tickFrame + 40 = (running.sys.cpu.regs .esp).toNat := by decide +kernel
  exact h.step (.tick tickCpu 40 0xC009E000 hown hesp he)

theorem run_returned (h : Run 0xC0001500 0xC0100000 newProcess s) (hs : s.sys = running.sys) :
    Run 0xC0001500 0xC0100000 newProcess (s.preempt returned) := by
  have hout := run_preempted h hs
  have hi := hout.inv newProcess_inv
  have hsys : s.preempt returned = { s.preempt preempted with sys := returned } := by
    unfold preempt
    split <;> rfl
  have hpre := preempt_sys s preempted
  rw [hsys]
  generalize s.preempt preempted = t at *
  obtain ⟨sys, progress, inside, outside⟩ := t
  obtain rfl : sys = preempted := hpre
  have hmain : preempted.current ≠ 0xC0100000 := by decide
  have h1 := hout.step (.other { preempted with cpu := { preempted.cpu with regs := mainCpu.regs } } hmain
    (.run _ fun _ _ _ _ => rfl))
  have he : Switching.Entry { preempted with cpu := { preempted.cpu with regs := mainCpu.regs } } 0xC0100000 :=
    ⟨by decide +kernel, by decide +kernel, by unfold OnStack; decide +kernel, .inr (hi.thread hmain)⟩
  have h2 := h1.step (.other resumed hmain (.switch _ he))
  have hown : OwnCode 0xC0100000 resumed { resumed.cpu with regs := running.sys.cpu.regs } :=
    ownCode_regs (t := resumed) (p := 0xC0100000) rfl
      (show (running.sys.cpu.regs .esp).toNat ≤ (0xC0100000 : Word).toNat + 3684 by decide +kernel)
  exact h2.step (.own _ hown)

end Preempted

/-- A tick between the load and the store does no harm. -/
theorem process_starts_right_inside : ∃ s, Run 0xC0001500 0xC0100000 newProcess s ∧ s.inside = 1 ∧
    StartsRight 0xC0100000 (load newProcess.sys.cpu.mem 0xC0100000) s := by
  have h := (run_returned (newProcess_runs.step (.load rfl rfl)) rfl).step (.store _ rfl rfl)
  exact ⟨_, h, rfl, (process_starts_right_iff mainThread_reachable (fun _ => 1) 0xC0003000 0x2A (by decide) (by decide) h
    ⟨rfl, rfl⟩).2 rfl⟩

/-- One tick before the load, and the `INT_stack` is not the reserved one: it covers the arguments of `KernelThread`. -/
theorem preempted_process_starts_wrong : ∃ s, Run 0xC0001500 0xC0100000 newProcess s ∧ Fills 0xC0100000 s ∧
    processStack 0xC0100000 s = 0xC0100E54 ∧
    ¬ StartsRight 0xC0100000 (load newProcess.sys.cpu.mem 0xC0100000) s := by
  refine ⟨_, ((run_returned newProcess_runs rfl).step (.load rfl rfl)).step (.store _ rfl rfl), ⟨rfl, rfl⟩,
    by decide +kernel, ?_⟩
  intro h
  exact absurd h.reserved (by decide +kernel)

end Starting

end ElephantOS.Context
