import ElephantOS.Device.IoQueue
import ElephantOS.Lib.Ring

/-!
# The ring of the character queue (`device/ioqueue.c`)

The operations while nobody has to wait: `ioqueue_putchar` on a queue that is not full, and
`ioqueue_getchar` on one that is not empty, by any threads in any order.

* `Serves buf puts gets s` : after `ioqueueInit` and such calls the state is `s`; `puts` are the bytes
  put and `gets` the bytes returned, in order;
* `Stores s xs` : nobody sleeps, and the ring holds the sequence `xs`;
* `ioqueue_refines_fifo` : the queue is a FIFO of capacity 63.
-/


namespace ElephantOS

namespace IoSys
variable {T : Type*} [DecidableEq T]

/-- The runs in which no call waits. The byte an `ioqueue_getchar` returns is the one its caller's
`received` ends with. -/
inductive Serves (buf : Nat → UInt8) : List UInt8 → List UInt8 → IoSys T → Prop
  | init : Serves buf [] [] (init buf)
  | putchar {puts gets : List UInt8} {s s' : IoSys T} (t : T) (byte : UInt8) : Serves buf puts gets s →
      s.queue.ioqueueFull = false → s.exec (.call t (.putchar byte)) = .ok s' →
      Serves buf (puts ++ [byte]) gets s'
  | getchar {puts gets : List UInt8} {s s' : IoSys T} (t : T) (byte : UInt8) : Serves buf puts gets s →
      s.queue.ioqueueEmpty = false → s.exec (.call t .getchar) = .ok s' →
      s'.received t = s.received t ++ [byte] → Serves buf puts (gets ++ [byte]) s'

structure Stores (s : IoSys T) (xs : List UInt8) : Prop where
  ring : Ring.Rep bufsize s.queue.buf s.queue.head s.queue.tail xs
  producer : s.queue.sleepingProducer = none
  consumer : s.queue.sleepingConsumer = none

omit [DecidableEq T] in
theorem stores_init (buf : Nat → UInt8) : Stores (init buf : IoSys T) [] :=
  ⟨Ring.rep_nil (by decide) buf, rfl, rfl⟩

omit [DecidableEq T] in
theorem Stores.empty_iff {s : IoSys T} {xs : List UInt8} (h : s.Stores xs) :
    s.queue.ioqueueEmpty = true ↔ xs.length = 0 := by
  rw [← h.ring.empty_iff]
  simp [IoQueue.ioqueueEmpty]

omit [DecidableEq T] in
theorem Stores.full_iff {s : IoSys T} {xs : List UInt8} (h : s.Stores xs) :
    s.queue.ioqueueFull = true ↔ xs.length = 63 := by
  show _ ↔ xs.length = bufsize - 1
  rw [← h.ring.full_iff]
  simp [IoQueue.ioqueueFull, ptrNextPos]

theorem exec_putchar {s : IoSys T} (hf : s.queue.ioqueueFull = false) (hc : s.queue.sleepingConsumer = none)
    (t : T) (byte : UInt8) : s.exec (.call t (.putchar byte)) = .ok
      { s with queue := { s.queue with buf := Function.update s.queue.buf s.queue.head byte
                                       head := ptrNextPos s.queue.head }
               pc := Function.update s.pc t .idle } := by
  simp [exec, loop, Op.mustWait, hf, finish, hc]

/-- `ioqueue_putchar` on a queue that is not full returns, and appends its byte. -/
theorem Stores.putchar {s : IoSys T} {xs : List UInt8} (h : s.Stores xs) (hf : s.queue.ioqueueFull = false)
    (t : T) (byte : UInt8) : ∃ s', s.exec (.call t (.putchar byte)) = .ok s' ∧ s'.Stores (xs ++ [byte]) := by
  have hlen : xs.length ≠ bufsize - 1 := by
    intro hl
    rw [h.full_iff.2 hl] at hf
    cases hf
  exact ⟨_, exec_putchar hf h.consumer t byte, h.ring.push hlen byte, h.producer, h.consumer⟩

theorem exec_getchar {s : IoSys T} (he : s.queue.ioqueueEmpty = false) (hp : s.queue.sleepingProducer = none)
    (t : T) : s.exec (.call t .getchar) = .ok
      { s with queue := { s.queue with tail := ptrNextPos s.queue.tail }
               pc := Function.update s.pc t .idle
               received := Function.update s.received t (s.received t ++ [s.queue.buf s.queue.tail]) } := by
  simp [exec, loop, Op.mustWait, he, finish, hp]

/-- `ioqueue_getchar` on a queue that is not empty returns the first byte stored. -/
theorem Stores.getchar {s : IoSys T} {xs : List UInt8} {a : UInt8} (h : s.Stores (a :: xs)) (t : T) :
    ∃ s', s.exec (.call t .getchar) = .ok s' ∧ s'.received t = s.received t ++ [a] ∧ s'.Stores xs := by
  have he : s.queue.ioqueueEmpty = false := by
    apply Bool.eq_false_of_not_eq_true
    intro he
    have := h.empty_iff.1 he
    simp at this
  obtain ⟨hbyte, hring⟩ := h.ring.pop
  refine ⟨_, exec_getchar he h.producer t, ?_, hring, h.producer, h.consumer⟩
  show Function.update s.received t (s.received t ++ [s.queue.buf s.queue.tail]) t = _
  rw [Function.update_self, hbyte]

theorem Serves.stores {buf : Nat → UInt8} {puts gets : List UInt8} {s : IoSys T} (h : Serves buf puts gets s) :
    ∃ xs, puts = gets ++ xs ∧ s.Stores xs := by
  induction h with
  | init => exact ⟨[], rfl, stores_init buf⟩
  | @putchar puts gets s s' t byte _ hf hexec ih =>
    obtain ⟨xs, rfl, hs⟩ := ih
    obtain ⟨s'', hexec', hs''⟩ := hs.putchar hf t byte
    rw [hexec] at hexec'
    cases hexec'
    exact ⟨xs ++ [byte], by rw [List.append_assoc], hs''⟩
  | @getchar puts gets s s' t byte _ he hexec hbyte ih =>
    obtain ⟨xs, rfl, hs⟩ := ih
    cases xs with
    | nil =>
      rw [hs.empty_iff.2 rfl] at he
      cases he
    | cons a xs =>
      obtain ⟨s'', hexec', hbyte', hs''⟩ := hs.getchar t
      rw [hexec] at hexec'
      cases hexec'
      rw [hbyte] at hbyte'
      have hab : byte = a := by
        have := List.append_cancel_left hbyte'
        simpa using this
      subst hab
      exact ⟨xs, by simp, hs''⟩

/-- **The ring is a bounded FIFO.** Whatever the calls since `ioqueueInit`, none of them made when it
would have to wait: both indices are below 64; the bytes returned are the first ones put, in order, and
the rest, at most 63 of them, are in the buffer from `tail` on; the two tests say whether there are 0 or
63 of these; and the next call does what a FIFO does, a `putchar` returning with its byte stored last and
a `getchar` with the oldest byte. -/
theorem ioqueue_refines_fifo {buf : Nat → UInt8} {puts gets : List UInt8} {s : IoSys T}
    (h : Serves buf puts gets s) :
    s.queue.head < 64 ∧ s.queue.tail < 64 ∧
    ∃ xs, puts = gets ++ xs ∧ xs.length ≤ 63 ∧
      (∀ i (hi : i < xs.length), s.queue.buf ((s.queue.tail + i) % 64) = xs[i]) ∧
      (s.queue.ioqueueEmpty = true ↔ xs.length = 0) ∧ (s.queue.ioqueueFull = true ↔ xs.length = 63) ∧
      (xs.length < 63 → ∀ t byte, ∃ s', s.exec (.call t (.putchar byte)) = .ok s' ∧
        Serves buf (puts ++ [byte]) gets s') ∧
      (∀ a ys, xs = a :: ys → ∀ t, ∃ s', s.exec (.call t .getchar) = .ok s' ∧
        s'.received t = s.received t ++ [a] ∧ Serves buf puts (gets ++ [a]) s') := by
  obtain ⟨xs, hput, hs⟩ := h.stores
  refine ⟨hs.ring.head_lt, hs.ring.tail_lt, xs, hput, Nat.le_of_lt_succ hs.ring.room, hs.ring.cell,
    hs.empty_iff, hs.full_iff, ?_, ?_⟩
  · intro hlt t byte
    have hf : s.queue.ioqueueFull = false := by
      apply Bool.eq_false_of_not_eq_true
      intro hf
      have := hs.full_iff.1 hf
      omega
    obtain ⟨s', hexec, -⟩ := hs.putchar hf t byte
    exact ⟨s', hexec, h.putchar t byte hf hexec⟩
  · intro a ys hxs t
    subst hxs
    have he : s.queue.ioqueueEmpty = false := by
      apply Bool.eq_false_of_not_eq_true
      intro he
      have := hs.empty_iff.1 he
      simp at this
    obtain ⟨s', hexec, hbyte, -⟩ := hs.getchar t
    exact ⟨s', hexec, hbyte, h.getchar t a he hexec hbyte⟩

theorem ioqueue_refines_fifo_two : ∃ s : IoSys (Fin 2), Serves (fun _ => 0) [97, 98] [97] s ∧
    s.queue.head < 64 ∧ s.queue.tail < 64 := by
  have h0 : Serves (fun _ => 0) [] [] (init (fun _ => 0) : IoSys (Fin 2)) := .init
  have h1 := h0.putchar 0 97 (by decide) rfl
  have h2 := h1.putchar 0 98 (by decide) rfl
  have h3 := h2.getchar 1 97 (by decide) rfl (by rfl)
  exact ⟨_, h3, (ioqueue_refines_fifo h3).1, (ioqueue_refines_fifo h3).2.1⟩

end IoSys

end ElephantOS
