import ElephantOS.Thread.Sched
import Mathlib.Data.Finset.Card
import Mathlib.Order.Interval.Finset.Nat

/-!
# The invariant of the scheduler

* `InvAt r s seq` : the lists hold the sequences `seq`, and these hold the tags their threads' statuses
  call for; `r` is the thread on the CPU, `none` in the middle of a switch;
* `requeue_seq`, `dispatch_seq` : the two halves of `ScheduleThread`;
* `Ends` : a function ends in a state of the invariant, or stops without a failed `elem_find`;
* `scheduler_invariant` : what holds in every state of every run.
-/


namespace ElephantOS
open LinkMem

namespace Sched
variable {S : Type} [DecidableEq S]

def status (s : Sched S) (p : Nat) : Option TaskStatus := (s.pcb p).map (·.status)

structure InvAt (r : Option Nat) (s : Sched S) (seq : ListId S → List (Node S)) : Prop where
  family : IsFamily s.links ListId.list seq
  ready : ∀ n, n ∈ seq .ready ↔ ∃ p, n = .generalTag p ∧ s.status p = some .ready
  all : ∀ n, n ∈ seq .all ↔ ∃ p, n = .allListTag p ∧ s.status p ≠ none
  waiting : ∀ psema n, n ∈ seq (.waiting psema) ↔
    ∃ p, n = .generalTag p ∧ s.status p = some .blockd ∧ s.inDown p = some psema
  running : ∀ p, s.status p = some .running ↔ r = some p
  pages : ∀ p, s.status p ≠ none → 0 < p ∧ p < 2 ^ 32
  canary : ∀ p t, s.pcb p = some t → t.canary = stackCanary
  main : s.mainThread = mainPage

def Inv (s : Sched S) : Prop := ∃ seq, InvAt (some s.current) s seq

omit [DecidableEq S] in
@[simp] theorem status_setPcb (s : Sched S) (p q : Nat) (t : PCB) :
    (s.setPcb p t).status q = if q = p then some t.status else s.status q := by
  by_cases h : q = p
  · subst h
    simp [status, setPcb]
  · simp [status, setPcb, h]

omit [DecidableEq S] in
theorem status_of_pcb {s : Sched S} {p : Nat} {t : PCB} (h : s.pcb p = some t) :
    s.status p = some t.status := by
  simp [status, h]

omit [DecidableEq S] in
theorem pcb_of_status {s : Sched S} {p : Nat} (h : s.status p ≠ none) : ∃ t, s.pcb p = some t := by
  cases hp : s.pcb p with
  | none => simp [status, hp] at h
  | some t => exact ⟨t, rfl⟩

omit [DecidableEq S] in
theorem getPcb_ok {s : Sched S} {p : Nat} {t : PCB} (h : s.pcb p = some t) : s.getPcb p = .ok t := by
  simp [getPcb, h]

/-! ## The list operations on the family -/

section Lists
variable {s : Sched S} {seq : ListId S → List (Node S)}

omit [DecidableEq S] in
/-- A sentinel is no tag. -/
theorem mem_nodes_of_tag {l : ListId S} {n : Node S} {xs : List (Node S)}
    (hn : ∀ l, n ≠ .head l ∧ n ≠ .tail l) : n ∈ l.list.nodes xs ↔ n ∈ xs := by
  rw [KList.mem_nodes]
  simp [ListId.list, (hn l).1, (hn l).2]

/-- Nodes named by distinct addresses of a 32-bit space are fewer than `traversal`. -/
theorem length_lt {A : Type*} [DecidableEq A] {xs : List A} (f : Nat → A) (hnd : xs.Nodup)
    (h : ∀ n ∈ xs, ∃ p, n = f p ∧ 0 < p ∧ p < 2 ^ 32) : xs.length < traversal := by
  have hsub : xs.toFinset ⊆ (Finset.Ioo 0 (2 ^ 32)).image f := by
    intro n hn
    obtain ⟨p, rfl, hp⟩ := h n (List.mem_toFinset.1 hn)
    exact Finset.mem_image_of_mem f (Finset.mem_Ioo.2 hp)
  calc xs.length = xs.toFinset.card := (List.toFinset_card_of_nodup hnd).symm
    _ ≤ ((Finset.Ioo 0 (2 ^ 32)).image f).card := Finset.card_le_card hsub
    _ ≤ (Finset.Ioo 0 (2 ^ 32)).card := Finset.card_image_le
    _ = 2 ^ 32 - 0 - 1 := Nat.card_Ioo 0 (2 ^ 32)
    _ < traversal := by unfold traversal; omega

theorem InvAt.length_lt {r : Option Nat} (hi : InvAt r s seq) (l : ListId S) :
    (seq l).length < traversal := by
  have hnd := hi.family.nodup l
  cases l with
  | ready =>
    refine Sched.length_lt .generalTag hnd fun n hn => ?_
    obtain ⟨p, rfl, hp⟩ := (hi.ready n).1 hn
    exact ⟨p, rfl, hi.pages p (by simp [hp])⟩
  | all =>
    refine Sched.length_lt .allListTag hnd fun n hn => ?_
    obtain ⟨p, rfl, hp⟩ := (hi.all n).1 hn
    exact ⟨p, rfl, hi.pages p hp⟩
  | waiting psema =>
    refine Sched.length_lt .generalTag hnd fun n hn => ?_
    obtain ⟨p, rfl, hp, -⟩ := (hi.waiting psema n).1 hn
    exact ⟨p, rfl, hi.pages p (by simp [hp])⟩

theorem assertNotFound_ok (hf : IsFamily s.links ListId.list seq) {l : ListId S} {n : Node S}
    (hlen : (seq l).length < traversal) (hn : n ∉ seq l) : s.assertNotFound l n = .ok () := by
  have h := elemFind_isSeq (hf.isSeq l) n hlen
  simp [assertNotFound, h, hn]

theorem append_eq {s' : Sched S} {l : ListId S} {n : Node S} (h : s.append l n = .ok s') :
    ∃ links, s' = { s with links := links } := by
  unfold append at h
  split at h
  · cases h
    exact ⟨_, rfl⟩
  · cases h

theorem append_ok (hf : IsFamily s.links ListId.list seq) {n : Node S} (l : ListId S)
    (htag : ∀ l, n ≠ .head l ∧ n ≠ .tail l) (hnull : n ≠ .null) (hn : ∀ l, n ∉ seq l) :
    ∃ links, s.append l n = .ok { s with links := links } ∧
      IsFamily links ListId.list (Function.update seq l (seq l ++ [n])) := by
  obtain ⟨links, hl, hf', -⟩ := hf.append l (e := n)
    (fun j a ha hae => hn j ((mem_nodes_of_tag htag).1 (hae ▸ ha))) hnull
  exact ⟨links, by simp [append, hl], hf'⟩

theorem push_ok (hf : IsFamily s.links ListId.list seq) {n : Node S} (l : ListId S)
    (htag : ∀ l, n ≠ .head l ∧ n ≠ .tail l) (hnull : n ≠ .null) (hn : ∀ l, n ∉ seq l) :
    ∃ links, s.push l n = .ok { s with links := links } ∧
      IsFamily links ListId.list (Function.update seq l (n :: seq l)) := by
  obtain ⟨links, hl, hf', -⟩ := hf.push l (e := n)
    (fun j a ha hae => hn j ((mem_nodes_of_tag htag).1 (hae ▸ ha))) hnull
  exact ⟨links, by simp [push, hl], hf'⟩

theorem pop_ok (hf : IsFamily s.links ListId.list seq) {l : ListId S} {p : Nat} {xs : List (Node S)}
    (hl : seq l = .generalTag p :: xs) :
    ∃ links, s.pop l = .ok ({ s with links := links }, p) ∧
      IsFamily links ListId.list (Function.update seq l xs) := by
  obtain ⟨hpop, hf', -⟩ := hf.pop l hl
  exact ⟨_, by simp [pop, hpop, Node.entry], hf'⟩

end Lists

/-! ## Switching -/

section Switch
variable {s : Sched S} {seq : ListId S → List (Node S)}

/-- Where a general tag can be. -/
theorem InvAt.generalTag_mem {r : Option Nat} (hi : InvAt r s seq) {l : ListId S} {p : Nat}
    (h : .generalTag p ∈ seq l) :
    s.status p = some .ready ∨ s.status p = some .blockd ∧ s.inDown p ≠ none := by
  cases l with
  | ready =>
    obtain ⟨q, hq, hs⟩ := (hi.ready _).1 h
    cases hq
    exact .inl hs
  | all =>
    obtain ⟨q, hq, -⟩ := (hi.all _).1 h
    cases hq
  | waiting psema =>
    obtain ⟨q, hq, hs, hd⟩ := (hi.waiting psema _).1 h
    cases hq
    exact .inr ⟨hs, by simp [hd]⟩

/-- The thread on the CPU is in no list. -/
theorem InvAt.running_notMem {p : Nat} (hi : InvAt (some p) s seq) (l : ListId S) :
    .generalTag p ∉ seq l := by
  intro h
  have hrun := (hi.running p).2 rfl
  rcases hi.generalTag_mem h with h | ⟨h, -⟩ <;> simp [hrun] at h

/-- A change of the ticks of a thread. -/
theorem InvAt.setPcb_of_status {r : Option Nat} (hi : InvAt r s seq) {p : Nat} {t t' : PCB}
    (ht : s.pcb p = some t) (hst : t'.status = t.status) (hca : t'.canary = t.canary) :
    InvAt r (s.setPcb p t') seq := by
  have hstatus : (s.setPcb p t').status = s.status := by
    funext q
    by_cases hq : q = p
    · subst hq
      simp [status_of_pcb ht, hst]
    · simp [hq]
  refine ⟨hi.family, ?_, ?_, ?_, ?_, ?_, fun q u hu => ?_, hi.main⟩
  · rw [hstatus]; exact hi.ready
  · rw [hstatus]; exact hi.all
  · rw [hstatus]; exact hi.waiting
  · rw [hstatus]; exact hi.running
  · rw [hstatus]; exact hi.pages
  · by_cases hq : q = p
    · subst hq
      simp only [setPcb, Function.update_self, Option.some.injEq] at hu
      rw [← hu, hca]
      exact hi.canary q t ht
    · exact hi.canary q u (by simpa [setPcb, hq] using hu)

/-- Where the tags of thread `p` belong when its PCB is `t` and its `SemaphoreDown` is `down`. -/
structure Placed (seq : ListId S → List (Node S)) (p : Nat) (t : PCB) (down : Option S) : Prop where
  ready : .generalTag p ∈ seq .ready ↔ t.status = .ready
  waiting : ∀ psema, .generalTag p ∈ seq (.waiting psema) ↔ t.status = .blockd ∧ down = some psema
  general : .generalTag p ∉ seq .all
  all : ∀ l, .allListTag p ∈ seq l ↔ l = .all

/-- One thread changes: its PCB, its place in the lists, and which thread is on the CPU. -/
theorem InvAt.update {r r' : Option Nat} (hi : InvAt r s seq) {s' : Sched S}
    {seq' : ListId S → List (Node S)} (p : Nat) (t : PCB)
    (hpcb : s'.pcb = Function.update s.pcb p (some t)) (hmain : s'.mainThread = s.mainThread) (hdown : ∀ q ≠ p, s'.inDown q = s.inDown q)
    (hf : IsFamily s'.links ListId.list seq')
    (hother : ∀ l n, n ≠ .generalTag p → n ≠ .allListTag p → (n ∈ seq' l ↔ n ∈ seq l))
    (hp : Placed seq' p t (s'.inDown p)) (hrun : ∀ q ≠ p, s.status q = some .running ↔ r' = some q)
    (hrunp : t.status = .running ↔ r' = some p) (hpage : 0 < p ∧ p < 2 ^ 32)
    (hcanary : t.canary = stackCanary) : InvAt r' s' seq' := by
  have hself : s'.status p = some t.status := by simp [status, hpcb]
  have hne : ∀ q ≠ p, s'.status q = s.status q := fun q hq => by simp [status, hpcb, hq]
  have hgen : ∀ q ≠ p, ∀ l, (.generalTag q ∈ seq' l ↔ .generalTag q ∈ seq l) := fun q hq l =>
    hother l _ (by simpa using hq) (by simp)
  have hallTag : ∀ q ≠ p, ∀ l, (.allListTag q ∈ seq' l ↔ .allListTag q ∈ seq l) := fun q hq l =>
    hother l _ (by simp) (by simpa using hq)
  have hrest : ∀ l n, n ∈ seq' l → (∃ q, n = .generalTag q) ∨ ∃ q, n = .allListTag q := by
    intro l n hn
    by_cases hg : n = .generalTag p
    · exact .inl ⟨p, hg⟩
    by_cases ha : n = .allListTag p
    · exact .inr ⟨p, ha⟩
    have hn := (hother l n hg ha).1 hn
    cases l with
    | ready => exact .inl ((hi.ready n).1 hn |>.imp fun _ h => h.1)
    | all => exact .inr ((hi.all n).1 hn |>.imp fun _ h => h.1)
    | waiting psema => exact .inl ((hi.waiting psema n).1 hn |>.imp fun _ h => h.1)
  have hready : ∀ q, .generalTag q ∈ seq' .ready ↔ s'.status q = some .ready := by
    intro q
    by_cases hq : q = p
    · subst hq
      simp [hp.ready, hself]
    · rw [hgen q hq, hi.ready, hne q hq]
      simp
  have hwait : ∀ psema q, .generalTag q ∈ seq' (.waiting psema) ↔
      s'.status q = some .blockd ∧ s'.inDown q = some psema := by
    intro psema q
    by_cases hq : q = p
    · subst hq
      simp [hp.waiting, hself]
    · rw [hgen q hq, hi.waiting, hne q hq, hdown q hq]
      simp
  have hall : ∀ q l, .allListTag q ∈ seq' l ↔ l = .all ∧ s'.status q ≠ none := by
    intro q l
    by_cases hq : q = p
    · subst hq
      simp [hp.all, hself]
    · rw [hallTag q hq, hne q hq]
      cases l <;> simp [hi.ready, hi.all, hi.waiting]
  have hgenAll : ∀ q, .generalTag q ∉ seq' .all := by
    intro q
    by_cases hq : q = p
    · subst hq
      exact hp.general
    · rw [hgen q hq, hi.all]
      simp
  refine ⟨hf, fun n => ⟨fun hn => ?_, ?_⟩, fun n => ⟨fun hn => ?_, ?_⟩,
    fun psema n => ⟨fun hn => ?_, ?_⟩, fun q => ?_, fun q hq => ?_, fun q u hu => ?_,
    hmain.trans hi.main⟩
  · rcases hrest _ n hn with ⟨q, rfl⟩ | ⟨q, rfl⟩
    · exact ⟨q, rfl, (hready q).1 hn⟩
    · simp [hall] at hn
  · rintro ⟨q, rfl, hq⟩
    exact (hready q).2 hq
  · rcases hrest _ n hn with ⟨q, rfl⟩ | ⟨q, rfl⟩
    · exact absurd hn (hgenAll q)
    · exact ⟨q, rfl, ((hall q _).1 hn).2⟩
  · rintro ⟨q, rfl, hq⟩
    exact (hall q _).2 ⟨rfl, hq⟩
  · rcases hrest _ n hn with ⟨q, rfl⟩ | ⟨q, rfl⟩
    · exact ⟨q, rfl, (hwait psema q).1 hn⟩
    · simp [hall] at hn
  · rintro ⟨q, rfl, hq⟩
    exact (hwait psema q).2 hq
  · by_cases hq : q = p
    · subst hq
      rw [hself, ← hrunp]
      simp
    · rw [hne q hq]
      exact hrun q hq
  · by_cases hqp : q = p
    · exact hqp ▸ hpage
    · rw [hne q hqp] at hq
      exact hi.pages q hq
  · by_cases hq : q = p
    · subst hq
      rw [hpcb, Function.update_self, Option.some.injEq] at hu
      exact hu ▸ hcanary
    · rw [hpcb, Function.update_of_ne hq] at hu
      exact hi.canary q u hu

/-- The place of a thread in the lists of the invariant. -/
theorem InvAt.placed {r : Option Nat} (hi : InvAt r s seq) {p : Nat} {t : PCB} (ht : s.pcb p = some t) :
    Placed seq p t (s.inDown p) where
  ready := by simp [hi.ready, status_of_pcb ht]
  waiting psema := by simp [hi.waiting, status_of_pcb ht]
  general := by simp [hi.all]
  all l := by cases l <;> simp [hi.ready, hi.waiting, hi.all, status_of_pcb ht]

/-- A node that a change of the list at `l` does not concern. -/
theorem mem_update_iff {l : ListId S} {n : Node S} {xs : List (Node S)} (h : n ∈ xs ↔ n ∈ seq l)
    (k : ListId S) : n ∈ Function.update seq l xs k ↔ n ∈ seq k := by
  by_cases hk : k = l
  · subst hk
    rw [Function.update_self, h]
  · rw [Function.update_of_ne hk]

/-- `ScheduleThread` puts the thread whose time is over at the end of the ready list. -/
theorem requeue_seq (hi : InvAt (some s.current) s seq) {t : PCB} (ht : s.pcb s.current = some t) :
    ∃ links, s.requeue = .ok (setPcb { s with links := links } s.current
        { t with cpuTicksLeft := t.priority, status := .ready }) ∧
      InvAt none (setPcb { s with links := links } s.current { t with cpuTicksLeft := t.priority, status := .ready })
        (Function.update seq .ready (seq .ready ++ [.generalTag s.current])) := by
  have hrun := (hi.running s.current).2 rfl
  have hst : t.status = .running := by simpa [status_of_pcb ht] using hrun
  have hnot := hi.running_notMem
  obtain ⟨links, happ, hf⟩ := append_ok hi.family (n := .generalTag s.current) .ready (by simp) (by simp) hnot
  let t' : PCB := { t with cpuTicksLeft := t.priority, status := .ready }
  refine ⟨links, ?_,
    hi.update s.current t' rfl rfl (fun _ _ => rfl) hf (fun l n hn _ => mem_update_iff (by simp [hn]) l)
      ⟨by simp [t'], fun psema => ?_, by simpa using hnot _, fun l => ?_⟩ (fun q hq => ?_)
      (by simp [t']) (hi.pages _ (by simp [hrun])) (hi.canary s.current t ht :)⟩
  · simp [requeue, getPcb_ok ht, hst, assertNotFound_ok hi.family (hi.length_lt _) (hnot _), happ]
  · simpa [t'] using hnot _
  · rw [mem_update_iff (by simp)]
    exact (hi.placed ht).all l
  · simp [hi.running, hq.symm]

/-- The switch itself: the first ready thread gets the CPU. -/
theorem dispatch_seq (hi : InvAt none s seq) {p : Nat} {xs : List (Node S)} (hl : seq .ready = .generalTag p :: xs)
    {t : PCB} (ht : s.pcb p = some t) :
    ∃ links, s.dispatch = .ok { setPcb { s with links := links } p { t with status := .running } with current := p } ∧
      InvAt (some p) { setPcb { s with links := links } p { t with status := .running } with current := p }
        (Function.update seq .ready xs) := by
  have hp : s.status p = some .ready := by
    obtain ⟨q, hq, hst⟩ := (hi.ready (.generalTag p)).1 (by simp [hl])
    cases hq
    exact hst
  have hempty : listEmpty s.links (ListId.list (S := S) .ready) = false := by
    rw [← Bool.not_eq_true, listEmpty_isSeq (hi.family.isSeq .ready), hl]
    simp
  obtain ⟨links, hpop, hf⟩ := pop_ok hi.family hl
  have hnd := hi.family.nodup .ready
  rw [hl, List.nodup_cons] at hnd
  have hpl := hi.placed ht
  have hst : t.status = .ready := by simpa [status_of_pcb ht] using hp
  let t' : PCB := { t with status := .running }
  refine ⟨links, ?_, hi.update p t' rfl rfl (fun _ _ => rfl) hf
      (fun l n hn _ => mem_update_iff (by simp [hl, hn]) l)
      ⟨by simpa [t'] using hnd.1, fun psema => ?_, by simpa using hpl.general, fun l => ?_⟩
      (fun q hq => ?_) (by simp [t']) (hi.pages _ (by simp [hp])) (hi.canary p t ht :)⟩
  · have ht' : getPcb { s with links := links } p = .ok t := getPcb_ok ht
    simp [dispatch, hempty, hpop, ht']
  · simpa [t', hst] using hpl.waiting psema
  · rw [mem_update_iff (by simp [hl])]
    exact hpl.all l
  · simp [hi.running, hq.symm]

/-- With an empty ready list the kernel stops, otherwise the first ready thread is on the CPU. -/
theorem dispatch_inv (hi : InvAt none s seq) :
    s.dispatch = .error .noReadyThread ∧ (∀ p, s.status p ≠ some .ready) ∨
      ∃ s', s.dispatch = .ok s' ∧ s'.Inv := by
  cases hl : seq .ready with
  | nil =>
    have hempty := (listEmpty_isSeq (l := ListId.list (S := S) .ready) (hi.family.isSeq .ready)).2 hl
    left
    refine ⟨by simp [dispatch, hempty], fun p hp => ?_⟩
    have := (hi.ready (.generalTag p)).2 ⟨p, rfl, hp⟩
    simp [hl] at this
  | cons n xs =>
    obtain ⟨p, rfl, hp⟩ := (hi.ready n).1 (by simp [hl])
    obtain ⟨t, ht⟩ := pcb_of_status (by simp [hp] : s.status p ≠ none)
    obtain ⟨links, hdisp, hi'⟩ := dispatch_seq hi hl ht
    exact .inr ⟨_, hdisp, _, hi'⟩

/-- How the functions end: in a state of the invariant, or without a thread to run, without memory for
a new process, or on a wrong argument of `BlockThread`. -/
def Ends (r : Except Stop (Sched S)) : Prop :=
  (∃ s', r = .ok s' ∧ s'.Inv) ∨ r = .error .noReadyThread ∨ r = .error .noMemory ∨ r = .error .blockStatus

theorem InvAt.getPcb_current (hi : InvAt (some s.current) s seq) :
    ∃ t, s.pcb s.current = some t ∧ t.status = .running := by
  have hrun := (hi.running s.current).2 rfl
  obtain ⟨t, ht⟩ := pcb_of_status (by simp [hrun] : s.status s.current ≠ none)
  exact ⟨t, ht, by simpa [status_of_pcb ht] using hrun⟩

theorem dispatch_ends (hi : InvAt none s seq) : Ends s.dispatch := by
  rcases dispatch_inv hi with ⟨h, -⟩ | h
  · exact .inr (.inl h)
  · exact .inl h

theorem dispatch_ok (hi : InvAt none s seq) {p : Nat} (hp : s.status p = some .ready) :
    ∃ s', s.dispatch = .ok s' ∧ s'.Inv := by
  rcases dispatch_inv hi with ⟨-, h⟩ | h
  · exact absurd hp (h p)
  · exact h

/-- A running thread gives up the CPU: it is ready itself. -/
theorem scheduleThread_ok (hi : InvAt (some s.current) s seq) :
    ∃ s', s.scheduleThread = .ok s' ∧ s'.Inv := by
  obtain ⟨t, ht, -⟩ := hi.getPcb_current
  obtain ⟨links, hreq, hi'⟩ := requeue_seq hi ht
  rw [scheduleThread, hreq, Except.ok_bind]
  exact dispatch_ok hi' (p := s.current) (by simp)

/-- A thread that is no longer running is not put back. -/
theorem scheduleThread_of_none (hi : InvAt none s seq) {t : PCB} (ht : s.pcb s.current = some t) :
    s.scheduleThread = s.dispatch := by
  have hne : t.status ≠ .running := by
    intro h
    have := (hi.running s.current).1 (by rw [status_of_pcb ht, h])
    cases this
  have hreq : s.requeue = .ok s := by simp [requeue, getPcb_ok ht, hne]
  rw [scheduleThread, hreq, Except.ok_bind]

/-! ## The operations -/

theorem TaskStatus.asleep_ne {st : TaskStatus} (h : st.asleep = true) : st ≠ .ready ∧ st ≠ .running := by
  cases st <;> simp [TaskStatus.asleep] at h ⊢

theorem blockThread_ends (hi : InvAt (some s.current) s seq) (hd : s.inDown s.current = none)
    (stat : TaskStatus) : Ends (s.blockThread stat) := by
  by_cases hst : stat.asleep = true
  · obtain ⟨t, ht, hrun⟩ := hi.getPcb_current
    have hnot := hi.running_notMem
    have hne := TaskStatus.asleep_ne hst
    let t' : PCB := { t with status := stat }
    have hi' : InvAt none (s.setPcb s.current t') seq :=
      hi.update s.current t' rfl rfl (fun _ _ => rfl) hi.family (fun _ _ _ _ => Iff.rfl)
        ⟨by simp [hnot, t', hne.1], fun psema => by simp [hnot, setPcb, hd], hnot _, (hi.placed ht).all⟩
        (fun q hq => by simp [hi.running, hq.symm]) (by simp [t', hne.2])
        (hi.pages _ (by simp [status_of_pcb ht])) (hi.canary s.current t ht :)
    have hb : s.blockThread stat = (s.setPcb s.current t').scheduleThread := by
      simp [blockThread, hst, getPcb_ok ht, t']
    rw [hb, scheduleThread_of_none hi' (t := t') (by simp [setPcb])]
    exact dispatch_ends hi'
  · exact .inr (.inr (.inr (by simp [blockThread, hst])))

/-- What `UnblockThread` does for a sleeping thread whose tag is in no list. -/
theorem unblockThread_ok {p : Nat} {t : PCB} (hf : IsFamily s.links ListId.list seq)
    (hlen : (seq .ready).length < traversal) (ht : s.pcb p = some t) (hst : t.status.asleep = true)
    (hn : ∀ l, .generalTag p ∉ seq l) :
    ∃ links, s.unblockThread p = .ok (setPcb { s with links := links } p { t with status := .ready }) ∧
      IsFamily links ListId.list (Function.update seq .ready (.generalTag p :: seq .ready)) := by
  obtain ⟨links, hpush, hf'⟩ := push_ok hf (n := .generalTag p) .ready (by simp) (by simp) hn
  exact ⟨links, by simp [unblockThread, getPcb_ok ht, hst, assertNotFound_ok hf hlen (hn _), hpush], hf'⟩

theorem unblockThread_ends (hi : InvAt (some s.current) s seq) {p : Nat} {t : PCB}
    (ht : s.pcb p = some t) (hst : t.status.asleep = true) (hd : s.inDown p = none) :
    Ends (s.unblockThread p) := by
  have hne := TaskStatus.asleep_ne hst
  have hn : ∀ l, Node.generalTag p ∉ seq l := by
    intro l h
    rcases hi.generalTag_mem h with h | ⟨-, h⟩
    · exact hne.1 (by simpa [status_of_pcb ht] using h)
    · exact h hd
  obtain ⟨links, hu, hf⟩ := unblockThread_ok hi.family (hi.length_lt _) ht hst hn
  have hcur : p ≠ s.current := by
    rintro rfl
    exact hne.2 (by simpa [status_of_pcb ht] using (hi.running _).2 rfl)
  let t' : PCB := { t with status := .ready }
  refine .inl ⟨_, hu, _, hi.update p t' rfl rfl (fun _ _ => rfl) hf
    (fun l n hg _ => mem_update_iff (by simp [hg]) l)
    ⟨by simp [t'], fun psema => by simp [hn, t'], by simp [hn], fun l => ?_⟩ (fun q _ => hi.running q)
    (by simp [t', setPcb, hcur.symm]) (hi.pages _ (by simp [status_of_pcb ht])) (hi.canary p t ht :)⟩
  rw [mem_update_iff (by simp)]
  exact (hi.placed ht).all l

/-- `SemaphoreDown` with no unit left: the caller is in the waiting list when another thread gets the CPU. -/
theorem semaphoreDown_blocks (hi : InvAt (some s.current) s seq) {psema : S} (hv : s.value psema = 0) :
    ∃ s' seq', s.semaphoreDown psema = s'.dispatch ∧ InvAt none s' seq' ∧ s'.value = s.value ∧
      s'.inDown = Function.update s.inDown s.current (some psema) ∧
      ∀ q, s'.status q = if q = s.current then some .blockd else s.status q := by
  obtain ⟨t, ht, hrun⟩ := hi.getPcb_current
  have hnot := hi.running_notMem
  obtain ⟨links, happ, hf⟩ :=
    append_ok hi.family (n := .generalTag s.current) (.waiting psema) (by simp) (by simp) hnot
  let t' : PCB := { t with status := .blockd }
  let s' : Sched S := { s with links := links, inDown := Function.update s.inDown s.current (some psema) }
  have hi' : InvAt none (s'.setPcb s.current t') (Function.update seq (.waiting psema)
      (seq (.waiting psema) ++ [.generalTag s.current])) := by
    refine hi.update s.current t' rfl rfl (fun q hq => by simp [s', setPcb, hq]) hf
      (fun l n hg _ => mem_update_iff (by simp [hg]) l)
      ⟨by simpa [t'] using hnot _, fun σ => ?_, by simpa using hnot _, fun l => ?_⟩
      (fun q hq => by simp [hi.running, hq.symm]) (by simp [t']) (hi.pages s.current (by simp [status_of_pcb ht]))
      (hi.canary s.current t ht :)
    · by_cases hσ : σ = psema
      · simp [hσ, t', s', setPcb]
      · simpa [hσ, t', s', setPcb, Ne.symm hσ] using hnot _
    · rw [mem_update_iff (by simp)]
      exact (hi.placed ht).all l
  have hb : s.semaphoreDown psema = (s'.setPcb s.current t').scheduleThread := by
    have ht' : s'.getPcb s.current = .ok t := getPcb_ok ht
    simp [semaphoreDown, hv, assertNotFound_ok hi.family (hi.length_lt _) (hnot _), happ]
    simp [blockThread, TaskStatus.asleep, ht', s', t']
  refine ⟨s'.setPcb s.current t', _, ?_, hi', rfl, rfl, fun q => status_setPcb s' s.current q t'⟩
  rw [hb, scheduleThread_of_none hi' (t := t') (by simp [setPcb, s'])]

/-- With a unit left the caller takes it. -/
theorem semaphoreDown_passes (hi : InvAt (some s.current) s seq) {psema : S} (hv : s.value psema ≠ 0) :
    s.semaphoreDown psema = .ok { s with value := Function.update s.value psema (s.value psema - 1)
                                         inDown := Function.update s.inDown s.current none } ∧
      Inv { s with value := Function.update s.value psema (s.value psema - 1)
                   inDown := Function.update s.inDown s.current none } := by
  obtain ⟨t, ht, hrun⟩ := hi.getPcb_current
  have hnot := hi.running_notMem
  refine ⟨by simp [semaphoreDown, hv], seq,
    hi.update s.current t (Function.update_eq_self_iff.2 ht.symm).symm rfl (fun q hq => by simp [hq])
      hi.family (fun _ _ _ _ => Iff.rfl)
      ⟨by simp [hnot, hrun], fun σ => by simp [hnot], hnot _, (hi.placed ht).all⟩
      (fun q _ => hi.running q) (by simp [hrun]) (hi.pages s.current (by simp [status_of_pcb ht]))
      (hi.canary s.current t ht)⟩

/-- `SemaphoreDown` from its loop test on. -/
theorem semaphoreDown_ends (hi : InvAt (some s.current) s seq) (psema : S) :
    Ends (s.semaphoreDown psema) := by
  by_cases hv : s.value psema = 0
  · obtain ⟨s', seq', hb, hi', -⟩ := semaphoreDown_blocks hi hv
    rw [hb]
    exact dispatch_ends hi'
  · exact .inl ⟨_, semaphoreDown_passes hi hv⟩

/-- `SemaphoreUp`: the first waiter moves to the front of the ready list. -/
theorem semaphoreUp_ok (hi : InvAt (some s.current) s seq) (psema : S) :
    ∃ s', s.semaphoreUp psema = .ok s' ∧ s'.Inv := by
  cases hl : seq (.waiting psema) with
  | nil =>
    have hempty := (listEmpty_isSeq (hi.family.isSeq (.waiting psema))).2 hl
    exact ⟨{ s with value := Function.update s.value psema ((s.value psema + 1) % 256) },
      by simp [semaphoreUp, hempty], seq, hi.family, hi.ready, hi.all, hi.waiting, hi.running, hi.pages,
      hi.canary, hi.main⟩
  | cons n xs =>
    obtain ⟨p, rfl, hp, hd⟩ := (hi.waiting psema n).1 (by simp [hl])
    obtain ⟨t, ht⟩ := pcb_of_status (by simp [hp] : s.status p ≠ none)
    have hst : t.status = .blockd := by simpa [status_of_pcb ht] using hp
    have hpl := hi.placed ht
    have hempty : listEmpty s.links (ListId.list (.waiting psema)) = false := by
      rw [← Bool.not_eq_true, listEmpty_isSeq (hi.family.isSeq (.waiting psema)), hl]
      simp
    obtain ⟨links, hpop, hf⟩ := pop_ok hi.family hl
    have hnd := hi.family.nodup (.waiting psema)
    rw [hl, List.nodup_cons] at hnd
    have hn : ∀ l, Node.generalTag p ∉ Function.update seq (.waiting psema) xs l := by
      intro l
      by_cases hlw : l = .waiting psema
      · simpa [hlw] using hnd.1
      · rw [Function.update_of_ne hlw]
        cases l with
        | ready => simp [hpl.ready, hst]
        | all => exact hpl.general
        | waiting σ =>
          have hσ : psema ≠ σ := fun h => hlw (by rw [h])
          simp [hpl.waiting, hd, hσ]
    have hlen : (Function.update seq (.waiting psema) xs .ready).length < traversal := by
      simpa using hi.length_lt .ready
    obtain ⟨links', hu, hf'⟩ := unblockThread_ok (s := { s with links := links }) hf hlen ht
      (by simp [hst, TaskStatus.asleep]) hn
    let t' : PCB := { t with status := .ready }
    refine ⟨{ setPcb { s with links := links' } p t' with
        value := Function.update s.value psema ((s.value psema + 1) % 256) }, ?_, _,
      hi.update p t' rfl rfl (fun _ _ => rfl) hf' (fun l n hg _ => ?_)
        ⟨by simp [t'], fun σ => ?_, ?_, fun l => ?_⟩ (fun q _ => hi.running q) ?_
        (hi.pages _ (by simp [hp])) (hi.canary p t ht :)⟩
    · simp [semaphoreUp, hempty, hpop, hu, t', setPcb]
    · rw [mem_update_iff (by simp [hg]), mem_update_iff (by simp [hl, hg])]
    · simpa [t'] using hn (.waiting σ)
    · simpa using hn .all
    · rw [mem_update_iff (by simp), mem_update_iff (by simp [hl])]
      exact hpl.all l
    · have hcur : p ≠ s.current := by
        rintro rfl
        simp [(hi.running _).2 rfl] at hp
      simp [t', setPcb, hcur.symm]

theorem intTimerHandler_ok (hi : InvAt (some s.current) s seq) :
    ∃ s', s.intTimerHandler = .ok s' ∧ s'.Inv := by
  obtain ⟨t, ht, hrun⟩ := hi.getPcb_current
  have hcan := hi.canary _ _ ht
  let s1 : Sched S := { s with ticks := (s.ticks + 1) % 2 ^ 32 }
  have hi1 : InvAt (some s1.current) s1 seq := ⟨hi.family, hi.ready, hi.all, hi.waiting, hi.running,
    hi.pages, hi.canary, hi.main⟩
  by_cases hleft : t.cpuTicksLeft = 0
  · have hb : s.intTimerHandler = (s1.setPcb s.current
        { t with cpuTicksElapsed := (t.cpuTicksElapsed + 1) % 256 }).scheduleThread := by
      simp [intTimerHandler, getPcb_ok ht, hcan, hleft, s1]
    rw [hb]
    exact scheduleThread_ok (hi1.setPcb_of_status ht rfl rfl)
  · refine ⟨s1.setPcb s.current { t with cpuTicksElapsed := (t.cpuTicksElapsed + 1) % 256
                                         cpuTicksLeft := t.cpuTicksLeft - 1 }, ?_, seq,
      hi1.setPcb_of_status ht rfl rfl⟩
    simp [intTimerHandler, getPcb_ok ht, hcan, hleft, s1]

/-- A new thread enters the ready list and the list of all threads, in neither of which it is. -/
theorem enlist_parts {p : Nat} {s0 : Sched S} (hi : InvAt (some s0.current) s0 seq) (hp : FreshPage s0 p)
    {t : PCB} (hst : t.status = .ready) (hcan : t.canary = stackCanary) (hlinks : s.links = s0.links)
    (hpcb : s.pcb = Function.update s0.pcb p (some t)) (hdown : s.inDown = s0.inDown)
    (hcur : s.current = s0.current) (hmain : s.mainThread = s0.mainThread) :
    ∃ seq1 s1 s2, IsFamily s.links ListId.list seq ∧ (seq .ready).length < traversal ∧
      .generalTag p ∉ seq .ready ∧ s.append .ready (.generalTag p) = .ok s1 ∧
      IsFamily s1.links ListId.list seq1 ∧ (seq1 .all).length < traversal ∧ .allListTag p ∉ seq1 .all ∧
      s1.append .all (.allListTag p) = .ok s2 ∧ (∃ links, s2 = { s with links := links }) ∧
      ∃ seq2, InvAt (some s2.current) s2 seq2 ∧ seq2 .ready = seq .ready ++ [.generalTag p] := by
  have hnone : s0.status p = none := by simp [status, hp.unused]
  have hg : ∀ l, Node.generalTag p ∉ seq l := by
    intro l h
    rcases hi.generalTag_mem h with h | ⟨h, -⟩ <;> simp [hnone] at h
  have ha : ∀ l, Node.allListTag p ∉ seq l := by
    intro l
    cases l <;> simp [hi.ready, hi.all, hi.waiting, hnone]
  have hf : IsFamily s.links ListId.list seq := hlinks ▸ hi.family
  obtain ⟨links, happ, hf1⟩ := append_ok hf (n := .generalTag p) .ready (by simp) (by simp) hg
  have ha1 : ∀ l, Node.allListTag p ∉ Function.update seq .ready (seq .ready ++ [.generalTag p]) l :=
    fun l => by rw [mem_update_iff (by simp)]; exact ha l
  obtain ⟨links', happ', hf2⟩ :=
    append_ok (s := { s with links := links }) hf1 (n := .allListTag p) .all (by simp) (by simp) ha1
  refine ⟨_, _, { s with links := links' }, hf, hi.length_lt _, hg _, happ, hf1, ?_, ha1 _, happ', ⟨_, rfl⟩, _,
    hi.update p t hpcb hmain (fun q _ => by rw [hdown]) hf2 (fun l n hng hna => ?_)
      ⟨?_, fun psema => ?_, ?_, fun l => ?_⟩ (fun q _ => ?_) ?_ ⟨Nat.lt_of_lt_of_le (by decide) hp.heap, hp.small⟩
      hcan, by simp⟩
  · simpa using hi.length_lt .all
  · rw [mem_update_iff (by simp [hna]), mem_update_iff (by simp [hng])]
  · simp [hst]
  · simp [hst, hg]
  · simp [hg]
  · by_cases hl : l = .all
    · simp [hl]
    · rw [Function.update_of_ne hl]
      simp [ha1 l, hl]
  · rw [hi.running, hcur]
  · have hpc : s0.current ≠ p := by
      intro h
      simp [← h, (hi.running _).2 rfl] at hnone
    simp [hst, hcur, hpc]

theorem enlist_seq {p : Nat} {s0 : Sched S} (hi : InvAt (some s0.current) s0 seq) (hp : FreshPage s0 p)
    {t : PCB} (hst : t.status = .ready) (hcan : t.canary = stackCanary) (hlinks : s.links = s0.links)
    (hpcb : s.pcb = Function.update s0.pcb p (some t)) (hdown : s.inDown = s0.inDown)
    (hcur : s.current = s0.current) (hmain : s.mainThread = s0.mainThread) :
    ∃ links seq', s.enlist p = .ok { s with links := links } ∧
      InvAt (some s.current) { s with links := links } seq' ∧ seq' .ready = seq .ready ++ [.generalTag p] := by
  obtain ⟨seq1, s1, s2, hf, hlen, hg, happ, hf1, hlen1, ha, happ', ⟨links, rfl⟩, seq2, hi', hready⟩ :=
    enlist_parts hi hp hst hcan hlinks hpcb hdown hcur hmain
  refine ⟨links, seq2, ?_, hi', hready⟩
  simp [enlist, assertNotFound_ok hf hlen hg, happ, assertNotFound_ok hf1 hlen1 ha, happ']

theorem InvAt.fresh_ne_main {r : Option Nat} (hi : InvAt r s seq) {p : Nat} (hp : FreshPage s p) :
    p ≠ s.mainThread := by
  have := hp.heap
  rw [hi.main, mainPage]
  omega

omit [DecidableEq S] in
theorem init_getPcb (s : Sched S) (p : Nat) (priority : Int) :
    (s.init p priority).getPcb p = .ok (initThread s.mainThread p ((s.nextPid + 1) % 65536) priority) :=
  getPcb_ok (by simp [init])

theorem threadStart_seq (hi : InvAt (some s.current) s seq) {p : Nat} (hp : FreshPage s p) (priority : Int) :
    ∃ s' seq', s.threadStart p priority = .ok s' ∧ InvAt (some s'.current) s' seq' ∧
      seq' .ready = seq .ready ++ [.generalTag p] ∧ s'.current = s.current ∧
      s'.pcb = Function.update s.pcb p
        (some (threadCreate (initThread s.mainThread p ((s.nextPid + 1) % 65536) priority))) := by
  simp only [threadStart, init_getPcb, Except.ok_bind]
  let t : PCB := threadCreate (initThread s.mainThread p ((s.nextPid + 1) % 65536) priority)
  obtain ⟨links, seq', hok, hi', hready⟩ := enlist_seq (s := (s.init p priority).setPcb p t) (t := t) hi hp
    (by simp [t, threadCreate, initThread, hi.fresh_ne_main hp]) rfl rfl (by simp [setPcb, init]) rfl rfl rfl
  exact ⟨_, seq', hok, hi', hready, rfl, by simp [setPcb, init, t]⟩

theorem threadStart_ok (hi : InvAt (some s.current) s seq) {p : Nat} (hp : FreshPage s p)
    (priority : Int) : ∃ s', s.threadStart p priority = .ok s' ∧ s'.Inv := by
  obtain ⟨s', seq', hok, hi', -⟩ := threadStart_seq hi hp priority
  exact ⟨s', hok, seq', hi'⟩

theorem execProcess_inv (hi : InvAt (some s.current) s seq) {p : Nat} (hp : FreshPage s p) (bits pde : Nat) :
    (∃ s', s.execProcess p bits pde = .ok s' ∧ s'.Inv) ∨ s.execProcess p bits pde = .error .noMemory := by
  simp only [execProcess, init_getPcb, Except.ok_bind]
  by_cases hb : bits = 0
  · exact .inr (by simp [hb])
  by_cases hpde : pde = 0
  · exact .inr (by simp [hb, hpde])
  rw [if_neg hb, if_neg hpde]
  let t : PCB := processPcb (initThread s.mainThread p ((s.nextPid + 1) % 65536) 31) bits pde
  obtain ⟨links, seq', hok, hi', -⟩ := enlist_seq (s := (s.init p 31).setPcb p t) (t := t) hi hp
    (by simp [t, processPcb, threadCreate, initThread, hi.fresh_ne_main hp]) rfl rfl
    (by simp [setPcb, init]) rfl rfl rfl
  exact .inl ⟨_, hok, seq', hi'⟩

theorem Inv.step_ends (hi : s.Inv) {e : Event S} (he : Enabled s e) : Ends (s.step e) := by
  obtain ⟨seq, hi⟩ := hi
  cases e with
  | threadStart p priority => exact .inl (threadStart_ok hi he.2 priority)
  | execProcess p bits pde =>
    rcases execProcess_inv hi he.2 bits pde with h | h
    · exact .inl h
    · exact .inr (.inr (.inl h))
  | timer => exact .inl (intTimerHandler_ok hi)
  | block stat => exact blockThread_ends hi he stat
  | unblock p =>
    obtain ⟨-, hd, t, ht, hst⟩ := he
    exact unblockThread_ends hi ht hst hd
  | down psema => exact semaphoreDown_ends hi psema
  | up psema => exact .inl (semaphoreUp_ok hi psema)
  | retest =>
    obtain ⟨psema, hd⟩ := Option.ne_none_iff_exists'.1 he
    simp only [Sched.step, hd]
    exact semaphoreDown_ends hi psema

end Switch

/-! ## Runs -/

theorem semaphoreLists_isSeq (psema : S) :
    IsSeq (semaphoreLists (S := S)) (.head (.waiting psema)) (.tail (.waiting psema)) [] where
  chain := by
    simp only [List.nil_append, List.cons_append, List.isChain_cons_cons, List.isChain_singleton, and_true]
    exact ⟨rfl, rfl⟩
  apart := by simp [LinkMem.Apart]
  nonnull := by simp [LinkMem.null, OfNat.ofNat, Zero.zero]
  first := rfl
  last := rfl

theorem isFamily_init :
    IsFamily (listInit (listInit (semaphoreLists (S := S)) (ListId.list .ready)) (ListId.list .all))
      ListId.list (fun _ => []) := by
  obtain ⟨hr, hframe⟩ := listInit_isSeq (semaphoreLists (S := S)) (ListId.list .ready)
    (by simp [ListId.list, LinkMem.Apart]) (by simp [ListId.list, LinkMem.null, OfNat.ofNat, Zero.zero])
    (by simp [ListId.list, LinkMem.null, OfNat.ofNat, Zero.zero])
  obtain ⟨ha, hframe'⟩ := listInit_isSeq (listInit (semaphoreLists (S := S)) (ListId.list .ready))
    (ListId.list .all) (by simp [ListId.list, LinkMem.Apart])
    (by simp [ListId.list, LinkMem.null, OfNat.ofNat, Zero.zero])
    (by simp [ListId.list, LinkMem.null, OfNat.ofNat, Zero.zero])
  refine ⟨fun l => ?_, fun i j hij a ha b hb => ?_⟩
  · cases l with
    | ready => exact hr.congr (by simp [ListId.list, LinkMem.Apart] at hframe' ⊢; simp [hframe'])
    | all => exact ha
    | waiting psema =>
      refine (semaphoreLists_isSeq psema).congr fun a ha => ?_
      have hne : ∀ l : ListId S, l ≠ .waiting psema → Node.head l ≠ a ∧ Node.tail l ≠ a := by
        intro l hl
        simp only [List.nil_append, List.cons_append, List.mem_cons, List.not_mem_nil, or_false] at ha
        rcases ha with rfl | rfl <;> simp [hl]
      exact (hframe a (hne .ready (by simp)).1 (hne .ready (by simp)).2).trans
        (hframe' a (hne .all (by simp)).1 (hne .all (by simp)).2)
  · rw [KList.mem_nodes] at ha hb
    simp only [List.not_mem_nil, false_or] at ha hb
    rcases ha with rfl | rfl <;> rcases hb with rfl | rfl <;> simp [ListId.list, LinkMem.Apart, hij]

theorem threadInit_inv (value : S → Nat) : ∃ s, threadInit value = .ok s ∧ s.Inv := by
  -- before `CreateMainThread` there is no thread, and every list is empty
  let s0 : Sched S := ⟨listInit (listInit semaphoreLists (ListId.list .ready)) (ListId.list .all),
    fun _ => none, mainPage, mainPage, 0, 0, value, fun _ => none⟩
  have hi : InvAt none s0 (fun _ => []) :=
    ⟨isFamily_init, by simp [status, s0], by simp [status, s0], by simp [status, s0],
      by simp [status, s0], by simp [status, s0], by simp [s0], rfl⟩
  let s1 := s0.init mainPage 31
  have hf : IsFamily s1.links ListId.list (fun _ => []) := isFamily_init
  obtain ⟨links, happ, hf'⟩ := append_ok hf (n := .allListTag mainPage) .all (by simp) (by simp) (by simp)
  have hfind : s1.assertNotFound .all (.allListTag mainPage) = .ok () :=
    assertNotFound_ok hf (by simp [traversal]) (by simp)
  let t : PCB := initThread mainPage mainPage 1 31
  refine ⟨{ s1 with links := links }, ?_, _, hi.update mainPage t (by simp [s1, s0, init, t]) rfl
    (fun _ _ => rfl) hf' (fun l n _ hn => mem_update_iff (by simp [hn]) l)
    ⟨by simp [t, initThread], by simp [t, initThread], by simp, fun l => ?_⟩
    (fun q hq => by simp [s0, status, s1, init, hq.symm]) (by simp [t, initThread, s1, s0, init])
    (by decide) rfl⟩
  · simp only [threadInit]
    rw [hfind, Except.ok_bind, happ]
  · by_cases hl : l = .all
    · simp [hl]
    · simp [hl]

theorem Reachable.inv {value : S → Nat} {s : Sched S} (h : Reachable value s) : s.Inv := by
  induction h with
  | init h =>
    obtain ⟨s', hs', hi⟩ := threadInit_inv value
    cases h.symm.trans hs'
    exact hi
  | step _ he hstep ih =>
    rcases ih.step_ends he with ⟨s', hs', hi⟩ | h | h | h
    · cases hstep.symm.trans hs'
      exact hi
    · cases hstep.symm.trans h
    · cases hstep.symm.trans h
    · cases hstep.symm.trans h

/-- **The scheduler's lists and statuses agree.** In every state of every run from `ThreadInit`, over any
number of semaphores: all lists are well formed; exactly the current thread is TASK_RUNNING and its
general tag is in no list; the ready list holds the general tags of exactly the TASK_READY threads, each
once; a sleeping thread is not in the ready list and in at most one waiting list, once; the list of all
threads holds each once. Whatever happens next, no `ASSERT` on `elem_find` fails: the function returns,
or finds no thread to run, no memory for a process, or a status `BlockThread` does not accept. -/
theorem scheduler_invariant (value : S → Nat) (s : Sched S) (h : Reachable value s) :
    ∃ seq : ListId S → List (Node S),
      (∀ l, IsSeq s.links (.head l) (.tail l) (seq l) ∧ (seq l).Nodup) ∧
      (∀ p, s.status p = some .running ↔ p = s.current) ∧
      (∀ l, .generalTag s.current ∉ seq l) ∧
      (∀ n, n ∈ seq .ready ↔ ∃ p, n = .generalTag p ∧ s.status p = some .ready) ∧
      (∀ p st, s.status p = some st → st.asleep = true → .generalTag p ∉ seq .ready ∧
        ∀ σ τ, .generalTag p ∈ seq (.waiting σ) → .generalTag p ∈ seq (.waiting τ) → σ = τ) ∧
      (∀ n, n ∈ seq .all ↔ ∃ p, n = .allListTag p ∧ s.status p ≠ none) ∧
      (∀ e, Enabled s e → s.step e ≠ .error .elemFind ∧ ((∃ s', s.step e = .ok s') ∨
        s.step e = .error .noReadyThread ∨ s.step e = .error .noMemory ∨
        s.step e = .error .blockStatus)) := by
  obtain ⟨seq, hi⟩ := h.inv
  refine ⟨seq, fun l => ⟨hi.family.isSeq l, hi.family.nodup l⟩, fun p => ?_, hi.running_notMem, hi.ready,
    fun p st hst hsl => ⟨fun hmem => ?_, fun σ τ hσ hτ => ?_⟩, hi.all, fun e he => ?_⟩
  · rw [hi.running, Option.some.injEq, eq_comm]
  · obtain ⟨q, hq, hr⟩ := (hi.ready _).1 hmem
    cases hq
    rw [hst, Option.some.injEq] at hr
    exact (TaskStatus.asleep_ne hsl).1 hr
  · obtain ⟨q, hq, -, hdσ⟩ := (hi.waiting σ _).1 hσ
    cases hq
    obtain ⟨q, hq, -, hdτ⟩ := (hi.waiting τ _).1 hτ
    cases hq
    exact Option.some.inj (hdσ.symm.trans hdτ)
  · rcases Inv.step_ends ⟨seq, hi⟩ he with ⟨s', hs', -⟩ | hr | hr | hr
    · exact ⟨by simp [hs'], .inl ⟨s', hs'⟩⟩
    · exact ⟨by simp [hr], .inr (.inl hr)⟩
    · exact ⟨by simp [hr], .inr (.inr (.inl hr))⟩
    · exact ⟨by simp [hr], .inr (.inr (.inr hr))⟩

/-- The main thread starts a second thread and waits for a semaphore at 0: the second thread runs. -/
theorem scheduler_invariant_waiter :
    ∃ s : Sched Unit, Reachable (fun _ => 0) s ∧ s.current = 0xC0100000 ∧
      s.status mainPage = some .blockd ∧ ∃ seq : ListId Unit → List (Node Unit),
        (∀ l, IsSeq s.links (.head l) (.tail l) (seq l) ∧ (seq l).Nodup) ∧
        ∀ l, .generalTag s.current ∉ seq l := by
  have h : ∃ s0 s1 s2 : Sched Unit, threadInit (fun _ => 0) = .ok s0 ∧
      s0.step (.threadStart 0xC0100000 31) = .ok s1 ∧ s1.step (.down ()) = .ok s2 ∧
      Enabled s0 (.threadStart 0xC0100000 31) ∧ Enabled s1 (.down ()) ∧
      s2.current = 0xC0100000 ∧ s2.status mainPage = some .blockd := by
    refine ⟨_, _, _, rfl, rfl, rfl, ⟨rfl, rfl, by decide, by decide, by decide⟩, rfl, rfl, rfl⟩
  obtain ⟨s0, s1, s2, h0, h1, h2, he0, he1, hcur, hst⟩ := h
  have hr : Reachable (fun _ => 0) s2 := .step (.step (.init h0) he0 h1) he1 h2
  obtain ⟨seq, hseq, -, hnot, -⟩ := scheduler_invariant _ s2 hr
  exact ⟨s2, hr, hcur, hst, seq, hseq, hnot⟩

end Sched

end ElephantOS
