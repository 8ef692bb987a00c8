import Mathlib.Data.List.Rotate
import Mathlib.Tactic.Common

/-!
# Round robin

Those who take turns stand in a queue, the one whose turn it is at its head.

* `Op` : the head goes to the end of the queue, or someone joins it there;
* `served queue ops` : who comes to the head, switch by switch;
* `Joins queue ops` : who joins is not in the queue yet;
* `served_getElem` : everyone in the queue is served first, in its order;
* `served_rotate` : when nobody joins, the queue goes round;
* `served_between` : between two turns of one, everyone else has a turn.
-/

namespace RoundRobin

inductive Op (T : Type*) where
  | switch
  | join (x : T)

variable {T : Type*} {queue xs : List T} {x y : T} {ops : List (Op T)} {i j k : Nat}

def served (queue : List T) : List (Op T) → List T
  | [] => []
  | .switch :: ops =>
    match queue.rotate 1 with
    | [] => []
    | y :: ys => y :: served (y :: ys) ops
  | .join x :: ops => served (queue ++ [x]) ops

def Joins (queue : List T) : List (Op T) → Prop
  | [] => True
  | .switch :: ops => Joins (queue.rotate 1) ops
  | .join x :: ops => x ∉ queue ∧ Joins (queue ++ [x]) ops

theorem served_switch {ys : List T} (h : queue.rotate 1 = y :: ys) (ops : List (Op T)) :
    served queue (.switch :: ops) = y :: served (y :: ys) ops := by
  rw [served, h]

/-- There is someone at the head after a switch if there was before. -/
theorem rotate_ne_nil (h : queue ≠ []) : ∃ y ys, queue.rotate 1 = y :: ys := by
  apply List.exists_cons_of_ne_nil
  rw [Ne, List.rotate_eq_nil_iff]
  exact h

/-- A switch moves everyone by one place. -/
theorem getElem_switch {ys : List T} (h : queue.rotate 1 = ys) (hk : k < queue.length) :
    ys[k]? = queue[(k + 1) % queue.length]? := by
  rw [← h, List.getElem?_rotate hk]

/-! ## The order of service -/

theorem served_getElem (hk : k + 1 < queue.length) (hs : k < (served queue ops).length) :
    (served queue ops)[k]? = queue[k + 1]? := by
  induction ops generalizing queue k with
  | nil => simp [served] at hs
  | cons op ops ih =>
    cases op with
    | switch =>
      obtain ⟨y, ys, hy⟩ := rotate_ne_nil (List.ne_nil_of_length_pos (Nat.zero_lt_of_lt hk))
      have hlen : (y :: ys).length = queue.length := by rw [← hy, List.length_rotate]
      have hmoved : (y :: ys)[k]? = queue[k + 1]? := by
        rw [getElem_switch hy (Nat.lt_of_succ_lt hk), Nat.mod_eq_of_lt hk]
      rw [served_switch hy] at hs ⊢
      cases k with
      | zero => exact hmoved
      | succ k =>
        rw [List.getElem?_cons_succ, ih (by omega) (by simpa using hs)]
        exact hmoved
    | join x =>
      rw [served] at hs ⊢
      rw [ih (by rw [List.length_append]; omega) hs, List.getElem?_append_left hk]

/-- When nobody joins, the queue goes round. -/
theorem served_rotate (hops : ∀ op ∈ ops, op = .switch) (hs : k < (served queue ops).length) :
    (served queue ops)[k]? = queue[(k + 1) % queue.length]? := by
  induction ops generalizing queue k with
  | nil => simp [served] at hs
  | cons op ops ih =>
    obtain rfl := hops op (by simp)
    by_cases hne : queue = []
    · subst hne
      simp [served] at hs
    · obtain ⟨y, ys, hy⟩ := rotate_ne_nil hne
      have hlen : (y :: ys).length = queue.length := by rw [← hy, List.length_rotate]
      have hpos : 0 < queue.length := List.length_pos_of_ne_nil hne
      rw [served_switch hy] at hs ⊢
      cases k with
      | zero =>
        have hmoved := getElem_switch hy hpos
        exact hmoved
      | succ k =>
        rw [List.getElem?_cons_succ, ih (fun op h => hops op (by simp [h])) (by simpa using hs), hlen,
          getElem_switch hy (Nat.mod_lt _ hpos), Nat.mod_add_mod]

/-! ## Fairness -/

/-- Who has the turn gets the next one after everyone else. -/
theorem served_again (hnd : (x :: xs).Nodup) (hj : (served (x :: xs) ops)[j]? = some x) (hy : y ∈ x :: xs) :
    ∃ m, m ≤ j ∧ (served (x :: xs) ops)[m]? = some y := by
  have hlen : j < (served (x :: xs) ops).length := (List.getElem?_eq_some_iff.1 hj).1
  have hback : xs.length ≤ j := by
    by_contra hlt
    have hmem : x ∈ xs := by
      rw [served_getElem (by rw [List.length_cons]; omega) hlen, List.getElem?_cons_succ] at hj
      exact List.mem_of_getElem? hj
    exact (List.nodup_cons.1 hnd).1 hmem
  rcases List.mem_cons.1 hy with rfl | hy
  · exact ⟨j, Nat.le_refl j, hj⟩
  · obtain ⟨m, hm, rfl⟩ := List.getElem_of_mem hy
    refine ⟨m, by omega, ?_⟩
    rw [served_getElem (by rw [List.length_cons]; omega) (by omega), List.getElem?_cons_succ,
      List.getElem?_eq_getElem hm]

/-- Between two turns of `x` everyone who was in the queue has one. -/
theorem served_between (hnd : queue.Nodup) (hjoins : Joins queue ops) (hij : i < j)
    (hi : (served queue ops)[i]? = some x) (hj : (served queue ops)[j]? = some x) (hy : y ∈ queue) :
    ∃ m, i < m ∧ m ≤ j ∧ (served queue ops)[m]? = some y := by
  induction ops generalizing queue i j with
  | nil => simp [served] at hi
  | cons op ops ih =>
    cases op with
    | switch =>
      obtain ⟨z, zs, hz⟩ := rotate_ne_nil (List.ne_nil_of_mem hy)
      have hnd' : (z :: zs).Nodup := by rwa [← hz, List.nodup_rotate]
      have hy' : y ∈ z :: zs := by rwa [← hz, List.mem_rotate]
      rw [Joins, hz] at hjoins
      rw [served_switch hz] at hi hj ⊢
      obtain ⟨j, rfl⟩ : ∃ n, j = n + 1 := Nat.exists_eq_succ_of_ne_zero (Nat.ne_zero_of_lt hij)
      rw [List.getElem?_cons_succ] at hj
      cases i with
      | zero =>
        obtain rfl : z = x := by simpa using hi
        obtain ⟨m, hm, hmy⟩ := served_again hnd' hj hy'
        exact ⟨m + 1, by omega, by omega, by simpa using hmy⟩
      | succ i =>
        obtain ⟨m, him, hmj, hmy⟩ := ih hnd' hjoins (Nat.lt_of_succ_lt_succ hij) (by simpa using hi) hj hy'
        exact ⟨m + 1, by omega, by omega, by simpa using hmy⟩
    | join z =>
      rw [Joins] at hjoins
      rw [served] at hi hj ⊢
      have hnd' : (queue ++ [z]).Nodup := by
        rw [← List.concat_eq_append, List.nodup_concat]
        exact ⟨hjoins.1, hnd⟩
      exact ih hnd' hjoins.2 hij hi hj (List.mem_append_left _ hy)

end RoundRobin
