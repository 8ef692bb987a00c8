import Mathlib.Algebra.Group.Nat.Defs
import Mathlib.Data.List.Chain
import Mathlib.Data.List.Nodup
import Mathlib.Tactic.Common

/-!
# Doubly linked sequences in a memory of `prev`/`next` fields

* `LinkMem M A` : a memory `M` in which the nodes at addresses `A` have two fields. `Apart a b` says
  that writing the fields of one node leaves those of the other alone (distinct addresses in a memory
  of nodes, distant ones in a memory of words);
* `Link m x y` : `y` follows `x`, both ways; a linked run of nodes is `l.IsChain (Link m)`;
* `chain_insert`, `chain_remove` : what must be known of the new memory when a node is linked in
  between two others, or unlinked;
* `IsSeq m h t xs` : the nodes `xs` sit in order between the sentinels `h` and `t`; `IsSeq.walk` : the rule for loops
  over them;
* `LinkStore A` : the memory of nodes, as a function.
-/

universe u v

/-- A memory with a `prev` and a `next` field at every node. -/
class LinkMem (M : Type u) (A : outParam (Type v)) where
  null : A
  prev : M → A → A
  next : M → A → A
  setPrev : M → A → A → M
  setNext : M → A → A → M
  Apart : A → A → Prop
  apart_symm : ∀ {a b}, Apart a b → Apart b a
  apart_ne : ∀ {a b}, Apart a b → a ≠ b
  prev_setPrev_self : ∀ m a v, prev (setPrev m a v) a = v
  next_setPrev_self : ∀ m a v, next (setPrev m a v) a = next m a
  next_setNext_self : ∀ m a v, next (setNext m a v) a = v
  prev_setNext_self : ∀ m a v, prev (setNext m a v) a = prev m a
  prev_setPrev : ∀ m {a b} v, Apart a b → prev (setPrev m a v) b = prev m b
  next_setPrev : ∀ m {a b} v, Apart a b → next (setPrev m a v) b = next m b
  prev_setNext : ∀ m {a b} v, Apart a b → prev (setNext m a v) b = prev m b
  next_setNext : ∀ m {a b} v, Apart a b → next (setNext m a v) b = next m b

namespace LinkMem

attribute [simp] prev_setPrev_self next_setPrev_self next_setNext_self prev_setNext_self

variable {M : Type u} {A : Type v} [LinkMem M A]

/-- `y` follows `x`. -/
def Link (m : M) (x y : A) : Prop := next m x = y ∧ prev m y = x

/-- The fields of `a` are the same in both memories. -/
def Agree (m m' : M) (a : A) : Prop := prev m' a = prev m a ∧ next m' a = next m a

theorem Agree.trans {m₁ m₂ m₃ : M} {a : A} (h : Agree m₁ m₂ a) (h' : Agree m₂ m₃ a) : Agree m₁ m₃ a :=
  ⟨h'.1.trans h.1, h'.2.trans h.2⟩

theorem agree_setPrev (m : M) {a b : A} (v : A) (h : Apart M a b) : Agree m (setPrev m a v) b :=
  ⟨prev_setPrev m v h, next_setPrev m v h⟩

theorem agree_setNext (m : M) {a b : A} (v : A) (h : Apart M a b) : Agree m (setNext m a v) b :=
  ⟨prev_setNext m v h, next_setNext m v h⟩

/-! ## Linked runs -/

theorem chain_congr {m m' : M} {l : List A} (h : l.IsChain (Link m)) (ha : ∀ a ∈ l, Agree m m' a) :
    l.IsChain (Link m') := by
  refine h.imp_of_mem_imp fun a b hma hmb hab => ⟨?_, ?_⟩
  · rw [(ha a hma).2, hab.1]
  · rw [(ha b hmb).1, hab.2]

/-- A run up to `x` does not read the `next` field of `x`. -/
theorem chain_snoc_congr {m m' : M} {pre : List A} {x : A} (h : (pre ++ [x]).IsChain (Link m))
    (ha : ∀ a ∈ pre, Agree m m' a) (hx : prev m' x = prev m x) : (pre ++ [x]).IsChain (Link m') := by
  induction pre with
  | nil => exact List.isChain_singleton x
  | cons a pre ih =>
    rw [List.cons_append, List.isChain_cons] at h ⊢
    refine ⟨fun y hy => ?_, ih h.2 fun b hb => ha b (List.mem_cons_of_mem a hb)⟩
    have hlink := h.1 y hy
    have hprev : prev m' y = prev m y := by
      rcases List.mem_append.1 (List.mem_of_mem_head? hy) with hy' | hy'
      · exact (ha y (List.mem_cons_of_mem a hy')).1
      · rw [List.mem_singleton.1 hy', hx]
    exact ⟨(ha a List.mem_cons_self).2.trans hlink.1, hprev.trans hlink.2⟩

/-- A run from `z` does not read the `prev` field of `z`. -/
theorem chain_cons_congr {m m' : M} {post : List A} {z : A} (h : (z :: post).IsChain (Link m))
    (ha : ∀ a ∈ post, Agree m m' a) (hz : next m' z = next m z) : (z :: post).IsChain (Link m') := by
  cases post with
  | nil => exact List.isChain_singleton z
  | cons a post =>
    rw [List.isChain_cons_cons] at h ⊢
    exact ⟨⟨hz.trans h.1.1, (ha a List.mem_cons_self).1.trans h.1.2⟩, chain_congr h.2 ha⟩

/-- Link `e` in between `x` and `z`. -/
theorem chain_insert {m m' : M} {pre post : List A} {x e z : A}
    (h : (pre ++ x :: z :: post).IsChain (Link m)) (hpre : ∀ a ∈ pre, Agree m m' a)
    (hpost : ∀ a ∈ post, Agree m m' a) (hx : prev m' x = prev m x) (hz : next m' z = next m z)
    (hxe : Link m' x e) (hez : Link m' e z) : (pre ++ x :: e :: z :: post).IsChain (Link m') := by
  rw [List.isChain_append_cons_cons] at h ⊢
  refine ⟨chain_snoc_congr h.1 hpre hx, hxe, ?_⟩
  rw [List.isChain_cons_cons]
  exact ⟨hez, chain_cons_congr h.2.2 hpost hz⟩

/-- Unlink `e` from between `x` and `z`. -/
theorem chain_remove {m m' : M} {pre post : List A} {x e z : A}
    (h : (pre ++ x :: e :: z :: post).IsChain (Link m)) (hpre : ∀ a ∈ pre, Agree m m' a)
    (hpost : ∀ a ∈ post, Agree m m' a) (hx : prev m' x = prev m x) (hz : next m' z = next m z)
    (hxz : Link m' x z) : (pre ++ x :: z :: post).IsChain (Link m') := by
  rw [List.isChain_append_cons_cons] at h ⊢
  refine ⟨chain_snoc_congr h.1 hpre hx, hxz, ?_⟩
  rw [List.isChain_cons_cons] at h
  exact chain_cons_congr h.2.2.2 hpost hz

/-- One step along a run of nodes. -/
theorem chain_next {m : M} {x t : A} {xs : List A} (hc : (x :: xs ++ [t]).IsChain (Link m)) :
    next m x = (xs ++ [t]).head (by simp) ∧ (xs ++ [t]).IsChain (Link m) := by
  rw [List.cons_append, List.isChain_cons] at hc
  exact ⟨(hc.1 _ (List.head_mem_head? (by simp))).1, hc.2⟩

/-! ## Sequences between sentinels -/

/-- The nodes `xs` sit in order between the sentinels `h` and `t`. -/
structure IsSeq (m : M) (h t : A) (xs : List A) : Prop where
  chain : (h :: xs ++ [t]).IsChain (Link m)
  apart : (h :: xs ++ [t]).Pairwise (Apart M)
  nonnull : ∀ a ∈ h :: xs ++ [t], a ≠ null M
  first : prev m h = null M
  last : next m t = null M

theorem IsSeq.congr {m m' : M} {h t : A} {xs : List A} (hs : IsSeq m h t xs)
    (ha : ∀ a ∈ h :: xs ++ [t], Agree m m' a) : IsSeq m' h t xs where
  chain := chain_congr hs.chain ha
  apart := hs.apart
  nonnull := hs.nonnull
  first := (ha h (by simp)).1.trans hs.first
  last := (ha t (by simp)).2.trans hs.last

theorem IsSeq.nodup {m : M} {h t : A} {xs : List A} (hs : IsSeq m h t xs) : (h :: xs ++ [t]).Nodup :=
  hs.apart.imp apart_ne

theorem IsSeq.tail_notMem {m : M} {h t : A} {xs : List A} (hs : IsSeq m h t xs) : t ∉ h :: xs := by
  have := hs.nodup
  rw [List.nodup_append] at this
  exact fun ht => this.2.2 t ht t (by simp) rfl

/-- The node after the head. -/
theorem IsSeq.next_head {m : M} {h t : A} {xs : List A} (hs : IsSeq m h t xs) :
    next m h = (xs ++ [t]).head (by simp) :=
  (chain_next hs.chain).1

/-- The rule for a loop from the first node to the tail: `P fuel elem ys` says what it does at `elem` with the
nodes `ys` left. -/
theorem IsSeq.walk {m : M} {h t : A} {xs : List A} (hs : IsSeq m h t xs) {P : Nat → A → List A → Prop}
    (stop : ∀ fuel, P (fuel + 1) t [])
    (step : ∀ fuel x ys, x ∈ xs → x ≠ t → P fuel (next m x) ys → P (fuel + 1) x (x :: ys))
    {fuel : Nat} (hf : xs.length < fuel) : P fuel (next m h) xs := by
  have hrest : ∀ ys : List A, (ys ++ [t]).IsChain (Link m) → (∀ y ∈ ys, y ∈ xs) → ∀ fuel, ys.length < fuel →
      P fuel ((ys ++ [t]).head (by simp)) ys := by
    intro ys
    induction ys with
    | nil =>
      intro _ _ fuel hf
      obtain ⟨fuel, rfl⟩ := Nat.exists_eq_succ_of_ne_zero (Nat.ne_of_gt hf)
      exact stop fuel
    | cons y ys ih =>
      intro hc hmem fuel hf
      obtain ⟨fuel, rfl⟩ := Nat.exists_eq_succ_of_ne_zero (Nat.ne_of_gt (Nat.zero_lt_of_lt hf))
      obtain ⟨hnext, hc⟩ := chain_next hc
      have hy : y ∈ xs := hmem y List.mem_cons_self
      have hyt : y ≠ t := fun h => hs.tail_notMem (by simp [← h, hy])
      apply step fuel y ys hy hyt
      rw [hnext]
      exact ih hc (fun z hz => hmem z (List.mem_cons_of_mem y hz)) fuel (Nat.lt_of_succ_lt_succ hf)
  rw [hs.next_head]
  exact hrest xs (chain_next hs.chain).2 (fun _ hy => hy) fuel hf

end LinkMem

/-! ## A memory of nodes -/

/-- The two fields of a node. -/
structure Links (A : Type u) where
  prev : A
  next : A

/-- Nodes by address. -/
structure LinkStore (A : Type u) where
  node : A → Links A

namespace LinkStore
variable {A : Type u} [DecidableEq A]

def setPrev (m : LinkStore A) (a v : A) : LinkStore A :=
  ⟨fun b => if b = a then { m.node b with prev := v } else m.node b⟩

def setNext (m : LinkStore A) (a v : A) : LinkStore A :=
  ⟨fun b => if b = a then { m.node b with next := v } else m.node b⟩

instance [Zero A] : LinkMem (LinkStore A) A where
  null := 0
  prev m a := (m.node a).prev
  next m a := (m.node a).next
  setPrev := setPrev
  setNext := setNext
  Apart a b := a ≠ b
  apart_symm h := h.symm
  apart_ne h := h
  prev_setPrev_self m a v := by simp [setPrev]
  next_setPrev_self m a v := by simp [setPrev]
  next_setNext_self m a v := by simp [setNext]
  prev_setNext_self m a v := by simp [setNext]
  prev_setPrev m a b v h := by simp [setPrev, h.symm]
  next_setPrev m a b v h := by simp [setPrev, h.symm]
  prev_setNext m a b v h := by simp [setNext, h.symm]
  next_setNext m a b v h := by simp [setNext, h.symm]

end LinkStore
