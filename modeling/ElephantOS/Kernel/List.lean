import ElephantOS.Lib.Links
import ElephantOS.Lib.Loop

/-!
# Intrusive lists (`lib/kernel/list.c`)

The functions over any memory of `prev`/`next` fields. `none` is a failed `ASSERT`, or a traversal
that has not ended after `fuel` nodes.

* `listInit`, `listInsertBefore`, `listPush`, `listAppend`, `listRemove`, `listPop`, `listEmpty`,
  `elemFind`, `listTraversal`, `listLen` : the functions of the file;
* `*_isSeq` : what each does to the sequence of nodes between the two sentinels, with the frame:
  nodes apart from those of the list (and from the new one) keep their fields;
* `IsFamily m L seq` : node-disjoint lists, one for each index. `Turns` : one of them changes;
* `lists_refine_sequences` : every function against its operation on sequences.
-/

namespace ElephantOS
open LinkMem Loop

variable {M A : Type*} [LinkMem M A] [DecidableEq A]

/-- The addresses of the two sentinels of a `struct list`. -/
structure KList (A : Type*) where
  head : A
  tail : A
  deriving DecidableEq, Repr

/-- All nodes of a list: the sentinels and what is between them. -/
def KList.nodes {A : Type*} (plist : KList A) (xs : List A) : List A := plist.head :: xs ++ [plist.tail]

theorem KList.mem_nodes {A : Type*} {plist : KList A} {xs : List A} {a : A} :
    a ∈ plist.nodes xs ↔ a = plist.head ∨ a ∈ xs ∨ a = plist.tail := by
  simp [KList.nodes]

def listInit (m : M) (plist : KList A) : M :=
  let m := setPrev m plist.head (null M)
  let m := setNext m plist.head plist.tail
  let m := setPrev m plist.tail plist.head
  setNext m plist.tail (null M)

def listInsertBefore (m : M) (before elem : A) : Option M :=
  if elem = null M then none
  else
    let m := setNext m (prev m before) elem
    let m := setPrev m elem (prev m before)
    let m := setNext m elem before
    some (setPrev m before elem)

def listPush (m : M) (plist : KList A) (elem : A) : Option M :=
  listInsertBefore m (next m plist.head) elem

def listAppend (m : M) (plist : KList A) (elem : A) : Option M :=
  listInsertBefore m plist.tail elem

def listRemove (m : M) (pelem : A) : M :=
  let m := setNext m (prev m pelem) (next m pelem)
  setPrev m (next m pelem) (prev m pelem)

def listPop (m : M) (plist : KList A) : M × A :=
  (listRemove m (next m plist.head), next m plist.head)

def listEmpty (m : M) (plist : KList A) : Bool := next m plist.head = plist.tail

/-- The loop of `elem_find` from node `elem` on. -/
def elemFindFrom (m : M) (tail obj : A) : Nat → A → Option Bool
  | 0, _ => none
  | fuel + 1, elem =>
    if elem = tail then some false
    else if elem = null M then none
    else if elem = obj then some true
    else elemFindFrom m tail obj fuel (next m elem)

def elemFind (fuel : Nat) (m : M) (plist : KList A) (objElem : A) : Option Bool :=
  elemFindFrom m plist.tail objElem fuel (next m plist.head)

/-- The loop of `list_traversal` from node `elem` on. -/
def listTraversalFrom (m : M) (tail : A) (func : A → BitVec 32 → BitVec 32) (arg : BitVec 32) : Nat → A → Option A
  | 0, _ => none
  | fuel + 1, elem =>
    if elem = tail then some (null M)
    else if func elem arg ≠ 0 then some elem
    else listTraversalFrom m tail func arg fuel (next m elem)

def listTraversal (fuel : Nat) (m : M) (plist : KList A) (func : A → BitVec 32 → BitVec 32) (arg : BitVec 32) :
    Option A :=
  let elem := next m plist.head
  if listEmpty m plist then some (null M)
  else listTraversalFrom m plist.tail func arg fuel elem

/-- The loop of `list_len` from node `elem` on. -/
def listLenFrom (m : M) (tail : A) : Nat → A → BitVec 32 → Option (BitVec 32)
  | 0, _, _ => none
  | fuel + 1, elem, length =>
    if elem = tail then some length else listLenFrom m tail fuel (next m elem) (length + 1)

def listLen (fuel : Nat) (m : M) (plist : KList A) : Option (BitVec 32) :=
  listLenFrom m plist.tail fuel (next m plist.head) 0

/-! ## The functions on sequences -/

omit [DecidableEq A] in
theorem listInit_isSeq (m : M) (l : KList A) (hne : Apart M l.head l.tail)
    (hh : l.head ≠ null M) (ht : l.tail ≠ null M) :
    IsSeq (listInit m l) l.head l.tail [] ∧
      ∀ a, Apart M l.head a → Apart M l.tail a → Agree m (listInit m l) a := by
  have hne' := apart_symm hne
  refine ⟨⟨?_, by simpa using hne, by simp [hh, ht], ?_, ?_⟩, fun a hha hta => ?_⟩
  · simp only [List.nil_append, List.cons_append, List.isChain_cons_cons, List.isChain_singleton,
      and_true]
    simp [Link, listInit, next_setNext _ _ hne', next_setPrev _ _ hne']
  · simp [listInit, prev_setNext _ _ hne', prev_setPrev _ _ hne']
  · simp [listInit]
  · unfold listInit
    exact (((agree_setPrev _ _ hha).trans (agree_setNext _ _ hha)).trans (agree_setPrev _ _ hta)).trans
      (agree_setNext _ _ hta)

/-- The fields after linking `e` in between two neighbours. -/
theorem listInsertBefore_fields {m : M} {x e z : A} (hlink : Link m x z) (hxe : Apart M x e)
    (hez : Apart M e z) (hxz : Apart M x z) (he : e ≠ null M) :
    ∃ m', listInsertBefore m z e = some m' ∧ Link m' x e ∧ Link m' e z ∧
      prev m' x = prev m x ∧ next m' z = next m z ∧
      ∀ a, Apart M x a → Apart M e a → Apart M z a → Agree m m' a := by
  have hxe' := apart_symm hxe
  have hez' := apart_symm hez
  have hxz' := apart_symm hxz
  refine ⟨_, if_neg he, ?_⟩
  simp only [hlink.2, prev_setNext _ _ hxz]
  refine ⟨⟨?_, ?_⟩, ⟨?_, ?_⟩, ?_, ?_, fun a hxa hea hza => ?_⟩
  · simp [next_setPrev _ _ hxz', next_setNext _ _ hxe', next_setPrev _ _ hxe']
  · simp [prev_setPrev _ _ hez']
  · simp [next_setPrev _ _ hez']
  · simp
  · simp [prev_setPrev _ _ hxz', prev_setNext _ _ hxe', prev_setPrev _ _ hxe']
  · simp [next_setNext _ _ hez, next_setPrev _ _ hez, next_setNext _ _ hxz]
  · exact (((agree_setNext _ _ hxa).trans (agree_setPrev _ _ hea)).trans (agree_setNext _ _ hea)).trans
      (agree_setPrev _ _ hza)

omit [DecidableEq A] in
/-- The fields after unlinking `e` from between its neighbours. -/
theorem listRemove_fields {m : M} {x e z : A} (hxe : Link m x e) (hez : Link m e z)
    (hx : Apart M x e) (hxz : Apart M x z) :
    Link (listRemove m e) x z ∧ prev (listRemove m e) x = prev m x ∧
      next (listRemove m e) z = next m z ∧
      ∀ a, Apart M x a → Apart M z a → Agree m (listRemove m e) a := by
  have hxz' := apart_symm hxz
  simp only [listRemove, hxe.2, hez.1, next_setNext _ _ hx, prev_setNext _ _ hx]
  refine ⟨⟨?_, ?_⟩, ?_, ?_, fun a hxa hza => ?_⟩
  · simp [next_setPrev _ _ hxz']
  · simp
  · simp [prev_setPrev _ _ hxz']
  · simp [next_setNext _ _ hxz]
  · exact (agree_setNext _ _ hxa).trans (agree_setPrev _ _ hza)

omit [DecidableEq A] in
/-- What a change around the neighbours `x` and `z` of a list keeps of its two ends. -/
theorem ends_of_agree {m m' : M} {h t x z : A} {xs pre ys post : List A} (hx : h :: xs = pre ++ [x])
    (hz : ys ++ [t] = z :: post) (hpre : ∀ a ∈ pre, Agree m m' a) (hpost : ∀ a ∈ post, Agree m m' a)
    (hpx : prev m' x = prev m x) (hnz : next m' z = next m z) :
    prev m' h = prev m h ∧ next m' t = next m t := by
  constructor
  · cases pre with
    | nil =>
      simp only [List.nil_append, List.cons.injEq] at hx
      rw [hx.1, hpx]
    | cons a pre =>
      simp only [List.cons_append, List.cons.injEq] at hx
      rw [hx.1]
      exact (hpre a List.mem_cons_self).1
  · have htail : t ∈ z :: post := hz ▸ by simp
    rcases List.mem_cons.1 htail with rfl | htp
    · exact hnz
    · exact (hpost t htp).2

omit [DecidableEq A] in
/-- The nodes on both sides of a place in the list, without and with a node at that place. -/
theorem nodes_split (h t e : A) (xs ys : List A) : ∃ pre x z post, h :: xs = pre ++ [x] ∧ ys ++ [t] = z :: post ∧
    h :: (xs ++ ys) ++ [t] = pre ++ x :: z :: post ∧ h :: (xs ++ e :: ys) ++ [t] = pre ++ x :: e :: z :: post := by
  obtain ⟨pre, x, hx⟩ : ∃ pre x, h :: xs = pre ++ [x] :=
    ⟨(h :: xs).dropLast, (h :: xs).getLast (by simp), (List.dropLast_append_getLast (by simp)).symm⟩
  obtain ⟨z, post, hz⟩ : ∃ z post, ys ++ [t] = z :: post := List.exists_cons_of_ne_nil (by simp)
  refine ⟨pre, x, z, post, hx, hz, ?_, ?_⟩
  · rw [List.cons_append, List.append_assoc, hz, ← List.cons_append, hx]
    simp
  · rw [List.cons_append, List.append_assoc, List.cons_append, hz, ← List.cons_append, hx]
    simp

/-- `list_insert_before` in front of the first node of `ys`, or of the tail. -/
theorem listInsertBefore_isSeq {m : M} {h t e : A} (xs ys : List A) (hs : IsSeq m h t (xs ++ ys))
    (he : ∀ a ∈ h :: (xs ++ ys) ++ [t], Apart M a e) (hnull : e ≠ null M) :
    ∃ m', listInsertBefore m ((ys ++ [t]).head (by simp)) e = some m' ∧ IsSeq m' h t (xs ++ e :: ys) ∧
      ∀ a, (∀ b ∈ h :: (xs ++ ys) ++ [t], Apart M b a) → Apart M e a → Agree m m' a := by
  obtain ⟨pre, x, z, post, hx, hz, hnodes, hnodes'⟩ := nodes_split h t e xs ys
  have hchain := hs.chain
  have hapart := hs.apart
  rw [hnodes] at he hchain hapart
  have hlink := (List.isChain_append_cons_cons.1 hchain).2.1
  obtain ⟨hpre, hrest, hcross⟩ := List.pairwise_append.1 hapart
  obtain ⟨hxz, hzpost⟩ := List.pairwise_cons.1 hrest
  obtain ⟨hzp, -⟩ := List.pairwise_cons.1 hzpost
  obtain ⟨m', hm', hxe, hez, hpx, hnz, hframe⟩ := listInsertBefore_fields hlink (he x (by simp))
    (apart_symm (he z (by simp))) (hxz z (by simp)) hnull
  have hapre : ∀ a ∈ pre, Agree m m' a := fun a ha =>
    hframe a (apart_symm (hcross a ha x (by simp))) (apart_symm (he a (by simp [ha])))
      (apart_symm (hcross a ha z (by simp)))
  have hapost : ∀ a ∈ post, Agree m m' a := fun a ha =>
    hframe a (hxz a (by simp [ha])) (apart_symm (he a (by simp [ha]))) (hzp a ha)
  have hends := ends_of_agree hx hz hapre hapost hpx hnz
  refine ⟨m', ?_, ⟨?_, ?_, ?_, hends.1.trans hs.first, hends.2.trans hs.last⟩, fun a ha hea => ?_⟩
  · simpa only [hz, List.head_cons] using hm'
  · rw [hnodes']
    exact chain_insert hchain hapre hapost hpx hnz hxe hez
  · rw [hnodes', List.pairwise_append]
    refine ⟨hpre, ?_, fun a ha b hb => ?_⟩
    · rw [List.pairwise_cons, List.pairwise_cons]
      refine ⟨fun b hb => ?_, fun b hb => apart_symm (he b ?_), hzpost⟩
      · rcases List.mem_cons.1 hb with rfl | hb
        · exact he x (by simp)
        · exact hxz b hb
      · exact List.mem_append_right _ (List.mem_cons_of_mem _ hb)
    · simp only [List.mem_cons] at hb
      rcases hb with rfl | rfl | hb
      · exact hcross a ha b (by simp)
      · exact he a (by simp [ha])
      · exact hcross a ha b (by simp [hb])
  · intro a ha
    have hmem : a = e ∨ a ∈ h :: (xs ++ ys) ++ [t] := by
      simp only [List.cons_append, List.append_assoc, List.mem_cons, List.mem_append] at ha ⊢
      tauto
    rcases hmem with rfl | hmem
    · exact hnull
    · exact hs.nonnull a hmem
  · rw [hnodes] at ha
    exact hframe a (ha x (by simp)) hea (ha z (by simp))

theorem listPush_isSeq {m : M} {l : KList A} {e : A} {xs : List A} (hs : IsSeq m l.head l.tail xs)
    (he : ∀ a ∈ l.nodes xs, Apart M a e) (hnull : e ≠ null M) :
    ∃ m', listPush m l e = some m' ∧ IsSeq m' l.head l.tail (e :: xs) ∧
      ∀ a, (∀ b ∈ l.nodes xs, Apart M b a) → Apart M e a → Agree m m' a := by
  have := listInsertBefore_isSeq [] xs hs he hnull
  rwa [← hs.next_head] at this

theorem listAppend_isSeq {m : M} {l : KList A} {e : A} {xs : List A} (hs : IsSeq m l.head l.tail xs)
    (he : ∀ a ∈ l.nodes xs, Apart M a e) (hnull : e ≠ null M) :
    ∃ m', listAppend m l e = some m' ∧ IsSeq m' l.head l.tail (xs ++ [e]) ∧
      ∀ a, (∀ b ∈ l.nodes xs, Apart M b a) → Apart M e a → Agree m m' a := by
  rw [← List.append_nil xs] at hs he
  have := listInsertBefore_isSeq xs [] hs he hnull
  rwa [List.append_nil] at this

omit [DecidableEq A] in
/-- `list_remove` of a member. Its own fields are left as they are. -/
theorem listRemove_isSeq {m : M} {h t e : A} (xs ys : List A) (hs : IsSeq m h t (xs ++ e :: ys)) :
    IsSeq (listRemove m e) h t (xs ++ ys) ∧
      ∀ a, (∀ b ∈ h :: (xs ++ ys) ++ [t], Apart M b a) → Agree m (listRemove m e) a := by
  obtain ⟨pre, x, z, post, hx, hz, hnodes, hnodes'⟩ := nodes_split h t e xs ys
  have hchain := hs.chain
  have hapart := hs.apart
  rw [hnodes'] at hchain hapart
  obtain ⟨-, hxe, hrun⟩ := List.isChain_append_cons_cons.1 hchain
  have hez := (List.isChain_cons_cons.1 hrun).1
  obtain ⟨hpre, hrest, hcross⟩ := List.pairwise_append.1 hapart
  obtain ⟨hxa, heall⟩ := List.pairwise_cons.1 hrest
  obtain ⟨-, hzpost⟩ := List.pairwise_cons.1 heall
  obtain ⟨hzp, -⟩ := List.pairwise_cons.1 hzpost
  obtain ⟨hlink, hpx, hnz, hframe⟩ :=
    listRemove_fields hxe hez (hxa e (by simp)) (hxa z (by simp))
  have hapre : ∀ a ∈ pre, Agree m (listRemove m e) a := fun a ha =>
    hframe a (apart_symm (hcross a ha x (by simp))) (apart_symm (hcross a ha z (by simp)))
  have hapost : ∀ a ∈ post, Agree m (listRemove m e) a := fun a ha =>
    hframe a (hxa a (by simp [ha])) (hzp a ha)
  have hends := ends_of_agree hx hz hapre hapost hpx hnz
  refine ⟨⟨?_, ?_, fun a ha => hs.nonnull a ?_, hends.1.trans hs.first, hends.2.trans hs.last⟩,
    fun a ha => ?_⟩
  · rw [hnodes]
    exact chain_remove hchain hapre hapost hpx hnz hlink
  · rw [hnodes, List.pairwise_append]
    refine ⟨hpre, List.pairwise_cons.2 ⟨fun b hb => hxa b (by simp [hb]), hzpost⟩, fun a ha b hb => ?_⟩
    simp only [List.mem_cons] at hb
    exact hcross a ha b (by simp only [List.mem_cons]; tauto)
  · simp only [List.cons_append, List.append_assoc, List.mem_cons, List.mem_append] at ha ⊢
    tauto
  · rw [hnodes] at ha
    exact hframe a (ha x (by simp)) (ha z (by simp))

omit [DecidableEq A] in
theorem listPop_isSeq {m : M} {l : KList A} {e : A} {xs : List A}
    (hs : IsSeq m l.head l.tail (e :: xs)) :
    (listPop m l).2 = e ∧ IsSeq (listPop m l).1 l.head l.tail xs ∧
      ∀ a, (∀ b ∈ l.nodes xs, Apart M b a) → Agree m (listPop m l).1 a := by
  have hnext : next m l.head = e := hs.next_head
  simp only [listPop, hnext, true_and]
  exact listRemove_isSeq [] xs hs

theorem listEmpty_isSeq {m : M} {l : KList A} {xs : List A} (hs : IsSeq m l.head l.tail xs) :
    listEmpty m l = true ↔ xs = [] := by
  rw [listEmpty, decide_eq_true_iff, hs.next_head]
  cases xs with
  | nil => simp
  | cons x xs =>
    have hne : x ≠ l.tail := fun h => hs.tail_notMem (by simp [h])
    simpa using hne

theorem elemFind_isSeq {m : M} {l : KList A} {xs : List A} (hs : IsSeq m l.head l.tail xs) (obj : A)
    {fuel : Nat} (hf : xs.length < fuel) : elemFind fuel m l obj = some (decide (obj ∈ xs)) := by
  refine hs.walk (P := fun fuel elem ys => elemFindFrom m l.tail obj fuel elem = some (decide (obj ∈ ys))) ?_ ?_ hf
  · intro fuel
    simp [elemFindFrom]
  · intro fuel x ys hx hxt ih
    have hnull : x ≠ null M := hs.nonnull x (by simp [hx])
    simp only [elemFindFrom, hxt, if_false, hnull]
    by_cases hobj : x = obj
    · simp [hobj]
    · rw [if_neg hobj, ih]
      simp [Ne.symm hobj]

/-- With fuel for every node `list_traversal` returns the first node the callback accepts. -/
theorem listTraversal_isSeq {m : M} {l : KList A} {xs : List A} (hs : IsSeq m l.head l.tail xs)
    (func : A → BitVec 32 → BitVec 32) (arg : BitVec 32) {fuel : Nat} (hf : xs.length < fuel) :
    listTraversal fuel m l func arg = some ((xs.find? fun e => func e arg != 0).getD (null M)) := by
  rw [listTraversal]
  by_cases hempty : listEmpty m l = true
  · rw [if_pos hempty, (listEmpty_isSeq hs).1 hempty]
    rfl
  rw [if_neg hempty]
  refine hs.walk (P := fun fuel elem ys => listTraversalFrom m l.tail func arg fuel elem =
    some ((ys.find? fun e => func e arg != 0).getD (null M))) ?_ ?_ hf
  · intro fuel
    simp [listTraversalFrom]
  · intro fuel x ys _ hxt ih
    simp only [listTraversalFrom, hxt, if_false, ih]
    by_cases hfunc : func x arg = 0
    · rw [if_neg (not_not_intro hfunc), List.find?_cons_of_neg (by simpa using hfunc)]
    · rw [if_pos hfunc, List.find?_cons_of_pos (by simpa using hfunc)]
      rfl

theorem listLen_isSeq {m : M} {l : KList A} {xs : List A} (hs : IsSeq m l.head l.tail xs) {fuel : Nat}
    (hf : xs.length < fuel) : listLen fuel m l = some (BitVec.ofNat 32 xs.length) := by
  have hloop := hs.walk (P := fun fuel elem ys => ∀ length, listLenFrom m l.tail fuel elem length =
    some (length + BitVec.ofNat 32 ys.length)) ?_ ?_ hf
  · rw [listLen, hloop]
    exact congrArg some (BitVec.zero_add _)
  · intro fuel length
    simp [listLenFrom]
  · intro fuel x ys _ hxt ih length
    simp only [listLenFrom, hxt, if_false, ih]
    rw [BitVec.add_assoc, List.length_cons, Nat.add_comm ys.length 1, BitVec.ofNat_add]
    rfl

omit [DecidableEq A] in
/-- The nodes have distinct 32-bit addresses, so the count of a list does not wrap. -/
theorem length_lt_of_isSeq {m : M} {h t : A} {xs : List A} (hs : IsSeq m h t xs) (addr : A ↪ BitVec 32) :
    xs.length < 2 ^ 32 := by
  have hnodup : ((h :: xs ++ [t]).map fun a => (addr a).toFin).Nodup := by
    apply hs.nodup.map
    intro a b hab
    exact addr.injective (BitVec.eq_of_toFin_eq hab)
  have hcard := hnodup.length_le_card
  rw [Fintype.card_fin, List.length_map] at hcard
  simp only [List.cons_append, List.length_cons, List.length_append] at hcard
  omega

/-! ## Families of node-disjoint lists -/

section Family
variable {I : Type*} [DecidableEq I]

/-- The list at each index represents its sequence, and no two of them share a node. -/
structure IsFamily (m : M) (L : I → KList A) (seq : I → List A) : Prop where
  isSeq : ∀ i, IsSeq m (L i).head (L i).tail (seq i)
  apart : ∀ i j, i ≠ j → ∀ a ∈ (L i).nodes (seq i), ∀ b ∈ (L j).nodes (seq j), Apart M a b

variable {m : M} {L : I → KList A} {seq : I → List A}

omit [DecidableEq A] [DecidableEq I] in
theorem IsFamily.congr {m' : M} (hf : IsFamily m L seq)
    (ha : ∀ i, ∀ a ∈ (L i).nodes (seq i), Agree m m' a) : IsFamily m' L seq :=
  ⟨fun i => (hf.isSeq i).congr (ha i), hf.apart⟩

omit [DecidableEq A] [DecidableEq I] in
theorem IsFamily.nodup (hf : IsFamily m L seq) (i : I) : (seq i).Nodup := by
  have h := (hf.isSeq i).nodup
  rw [List.cons_append, List.nodup_cons, List.nodup_append] at h
  exact h.2.1

omit [DecidableEq A] in
/-- Replace the sequence of one list by one over its own nodes and nodes apart from all lists. -/
theorem IsFamily.update {m' : M} (hf : IsFamily m L seq) (i : I) (xs : List A)
    (hseq : IsSeq m' (L i).head (L i).tail xs)
    (hframe : ∀ a, (∀ j ≠ i, ∀ b ∈ (L j).nodes (seq j), b ≠ a) ∨ Agree m m' a)
    (hxs : ∀ a ∈ xs, a ∈ seq i ∨ ∀ j, ∀ b ∈ (L j).nodes (seq j), Apart M b a) :
    IsFamily m' L (Function.update seq i xs) := by
  have hnodes : ∀ a ∈ (L i).nodes xs, a ∈ (L i).nodes (seq i) ∨
      ∀ j, ∀ b ∈ (L j).nodes (seq j), Apart M b a := by
    intro a ha
    rw [KList.mem_nodes] at ha ⊢
    rcases ha with ha | ha | ha
    · exact .inl (.inl ha)
    · exact (hxs a ha).imp_left fun h => .inr (.inl h)
    · exact .inl (.inr (.inr ha))
  have hcross : ∀ j ≠ i, ∀ a ∈ (L i).nodes xs, ∀ b ∈ (L j).nodes (seq j), Apart M a b := by
    intro j hj a ha b hb
    rcases hnodes a ha with ha | ha
    · exact hf.apart i j hj.symm a ha b hb
    · exact apart_symm (ha j b hb)
  refine ⟨fun j => ?_, fun j k hjk a ha b hb => ?_⟩
  · by_cases hj : j = i
    · subst hj
      rwa [Function.update_self]
    · rw [Function.update_of_ne hj]
      refine (hf.isSeq j).congr fun a ha => (hframe a).resolve_left fun h => h j hj a ha rfl
  · by_cases hj : j = i
    · subst hj
      rw [Function.update_self] at ha
      rw [Function.update_of_ne hjk.symm] at hb
      exact hcross k hjk.symm a ha b hb
    · rw [Function.update_of_ne hj] at ha
      by_cases hk : k = i
      · subst hk
        rw [Function.update_self] at hb
        exact apart_symm (hcross j hj b hb a ha)
      · rw [Function.update_of_ne hk] at hb
        exact hf.apart j k hjk a ha b hb

omit [DecidableEq A] in
/-- A change of the list at `i` that may only touch its own nodes and a new node `e`. -/
theorem IsFamily.of_frame {m' : M} {e : A} (hf : IsFamily m L seq) (i : I) (xs : List A)
    (hseq : IsSeq m' (L i).head (L i).tail xs)
    (hframe : ∀ a, (∀ b ∈ (L i).nodes (seq i), Apart M b a) → Apart M e a → Agree m m' a)
    (he : ∀ j, ∀ b ∈ (L j).nodes (seq j), Apart M b e) (hxs : ∀ a ∈ xs, a = e ∨ a ∈ seq i) :
    IsFamily m' L (Function.update seq i xs) := by
  refine hf.update i xs hseq (fun a => ?_) fun a ha => ?_
  · by_cases ha : ∃ j ≠ i, a ∈ (L j).nodes (seq j)
    · obtain ⟨j, hj, haj⟩ := ha
      exact .inr (hframe a (fun b hb => hf.apart i j hj.symm b hb a haj) (apart_symm (he j a haj)))
    · exact .inl fun j hj b hb hba => ha ⟨j, hj, hba ▸ hb⟩
  · rcases hxs a ha with rfl | h
    · exact .inr he
    · exact .inl h

theorem IsFamily.append {e : A} (hf : IsFamily m L seq) (i : I)
    (he : ∀ j, ∀ a ∈ (L j).nodes (seq j), Apart M a e) (hnull : e ≠ null M) :
    ∃ m', listAppend m (L i) e = some m' ∧ IsFamily m' L (Function.update seq i (seq i ++ [e])) ∧
      ∀ a, (∀ b ∈ (L i).nodes (seq i), Apart M b a) → Apart M e a → Agree m m' a := by
  obtain ⟨m', hm', hseq, hframe⟩ := listAppend_isSeq (hf.isSeq i) (he i) hnull
  refine ⟨m', hm', hf.of_frame i _ hseq hframe he fun a ha => ?_, hframe⟩
  simp only [List.mem_append, List.mem_singleton] at ha
  exact ha.symm

theorem IsFamily.push {e : A} (hf : IsFamily m L seq) (i : I)
    (he : ∀ j, ∀ a ∈ (L j).nodes (seq j), Apart M a e) (hnull : e ≠ null M) :
    ∃ m', listPush m (L i) e = some m' ∧ IsFamily m' L (Function.update seq i (e :: seq i)) ∧
      ∀ a, (∀ b ∈ (L i).nodes (seq i), Apart M b a) → Apart M e a → Agree m m' a := by
  obtain ⟨m', hm', hseq, hframe⟩ := listPush_isSeq (hf.isSeq i) (he i) hnull
  exact ⟨m', hm', hf.of_frame i _ hseq hframe he fun a ha => List.mem_cons.1 ha, hframe⟩

omit [DecidableEq A] in
/-- A shrinking change of the list at `i`. -/
theorem IsFamily.shrink {m' : M} (hf : IsFamily m L seq) (i : I) (xs : List A)
    (hseq : IsSeq m' (L i).head (L i).tail xs) (hsub : xs ⊆ seq i)
    (hframe : ∀ a, (∀ b ∈ (L i).nodes xs, Apart M b a) → Agree m m' a) :
    IsFamily m' L (Function.update seq i xs) := by
  refine hf.update i xs hseq (fun a => ?_) fun a ha => .inl (hsub ha)
  by_cases ha : ∃ j ≠ i, a ∈ (L j).nodes (seq j)
  · obtain ⟨j, hj, haj⟩ := ha
    refine .inr (hframe a fun b hb => hf.apart i j hj.symm b ?_ a haj)
    rw [KList.mem_nodes] at hb ⊢
    exact hb.imp_right (Or.imp_left fun h => hsub h)
  · exact .inl fun j hj b hb hba => ha ⟨j, hj, hba ▸ hb⟩

omit [DecidableEq A] in
theorem IsFamily.remove {e : A} {xs ys : List A} (hf : IsFamily m L seq) (i : I)
    (hi : seq i = xs ++ e :: ys) :
    IsFamily (listRemove m e) L (Function.update seq i (xs ++ ys)) ∧
      ∀ a, (∀ b ∈ (L i).nodes (xs ++ ys), Apart M b a) → Agree m (listRemove m e) a := by
  obtain ⟨hseq, hframe⟩ := listRemove_isSeq xs ys (hi ▸ hf.isSeq i)
  refine ⟨hf.shrink i _ hseq (fun a ha => ?_) hframe, hframe⟩
  rw [hi]
  simp only [List.mem_append, List.mem_cons] at ha ⊢
  exact ha.imp_right .inr

omit [DecidableEq A] in
theorem IsFamily.pop {e : A} {xs : List A} (hf : IsFamily m L seq) (i : I) (hi : seq i = e :: xs) :
    (listPop m (L i)).2 = e ∧ IsFamily (listPop m (L i)).1 L (Function.update seq i xs) ∧
      ∀ a, (∀ b ∈ (L i).nodes xs, Apart M b a) → Agree m (listPop m (L i)).1 a := by
  obtain ⟨hpop, hseq, hframe⟩ := listPop_isSeq (hi ▸ hf.isSeq i)
  exact ⟨hpop, hf.shrink i _ hseq (by simp [hi]) hframe, hframe⟩

/-- `list_insert_before` in front of a member of the list at `i`, or of its tail. -/
theorem IsFamily.insertBefore {e : A} {xs ys : List A} (hf : IsFamily m L seq) (i : I) (hi : seq i = xs ++ ys)
    (he : ∀ j, ∀ a ∈ (L j).nodes (seq j), Apart M a e) (hnull : e ≠ null M) :
    ∃ m', listInsertBefore m ((ys ++ [(L i).tail]).head (by simp)) e = some m' ∧
      IsFamily m' L (Function.update seq i (xs ++ e :: ys)) ∧
      ∀ a, (∀ b ∈ (L i).nodes (seq i), Apart M b a) → Apart M e a → Agree m m' a := by
  have hei := he i
  rw [hi] at hei
  obtain ⟨m', hm', hseq, hframe⟩ := listInsertBefore_isSeq xs ys (hi ▸ hf.isSeq i) hei hnull
  have hframe' : ∀ a, (∀ b ∈ (L i).nodes (seq i), Apart M b a) → Apart M e a → Agree m m' a := by
    rw [hi]
    exact hframe
  refine ⟨m', hm', hf.of_frame i _ hseq hframe' he fun a ha => ?_, hframe'⟩
  rw [hi]
  simp only [List.mem_append, List.mem_cons] at ha ⊢
  tauto

omit [DecidableEq A] in
/-- `list_init` of a list of the family. -/
theorem IsFamily.init (hf : IsFamily m L seq) (i : I) :
    IsFamily (listInit m (L i)) L (Function.update seq i []) ∧
      ∀ a, (∀ b ∈ (L i).nodes [], Apart M b a) → Agree m (listInit m (L i)) a := by
  have hs := hf.isSeq i
  have hapart : Apart M (L i).head (L i).tail := (List.pairwise_cons.1 hs.apart).1 _ (by simp)
  obtain ⟨hseq, hframe⟩ := listInit_isSeq m (L i) hapart (hs.nonnull _ (by simp)) (hs.nonnull _ (by simp))
  have hframe' : ∀ a, (∀ b ∈ (L i).nodes [], Apart M b a) → Agree m (listInit m (L i)) a := by
    intro a ha
    exact hframe a (ha _ (by simp [KList.nodes])) (ha _ (by simp [KList.nodes]))
  exact ⟨hf.shrink i [] hseq (by simp) hframe', hframe'⟩

omit [DecidableEq A] [DecidableEq I] in
/-- `list_init` of a list whose sentinels belong to no list of the family. -/
theorem IsFamily.init_new {l : KList A} (hf : IsFamily m L seq) (hl : Apart M l.head l.tail)
    (hne : ∀ a ∈ l.nodes [], a ≠ null M)
    (hapart : ∀ i, ∀ a ∈ (L i).nodes (seq i), ∀ b ∈ l.nodes [], Apart M a b) :
    IsFamily (listInit m l) (fun i : Option I => i.elim l L) (fun i : Option I => i.elim [] seq) ∧
      ∀ i, ∀ a ∈ (L i).nodes (seq i), Agree m (listInit m l) a := by
  obtain ⟨hseq, hframe⟩ := listInit_isSeq m l hl (hne _ (by simp [KList.nodes])) (hne _ (by simp [KList.nodes]))
  have hagree : ∀ i, ∀ a ∈ (L i).nodes (seq i), Agree m (listInit m l) a := by
    intro i a ha
    exact hframe a (apart_symm (hapart i a ha _ (by simp [KList.nodes])))
      (apart_symm (hapart i a ha _ (by simp [KList.nodes])))
  refine ⟨⟨fun i => ?_, fun i j hij a ha b hb => ?_⟩, hagree⟩
  · cases i with
    | none => exact hseq
    | some i => exact (hf.isSeq i).congr (hagree i)
  · cases i with
    | none =>
      cases j with
      | none => exact absurd rfl hij
      | some j => exact apart_symm (hapart j b hb a ha)
    | some i =>
      cases j with
      | none => exact hapart i a ha b hb
      | some j => exact hf.apart i j (fun h => hij (congrArg some h)) a ha b hb

end Family

/-! ## Lists refine sequences -/

section Refinement
variable {M A I : Type} [LinkMem M A] [DecidableEq A] [DecidableEq I]

/-- A node in no list. -/
def Unlisted (M : Type) [LinkMem M A] (L : I → KList A) (seq : I → List A) (e : A) : Prop :=
  e ≠ null M ∧ ∀ i, ∀ a ∈ (L i).nodes (seq i), Apart M a e

/-- From `m` to `m'` the list at `i` becomes `xs` and the nodes of every other list keep their fields. -/
structure Turns (L : I → KList A) (seq : I → List A) (m m' : M) (i : I) (xs : List A) : Prop where
  family : IsFamily m' L (Function.update seq i xs)
  others : ∀ j ≠ i, ∀ a ∈ (L j).nodes (seq j), Agree m m' a

variable {m m' : M} {L : I → KList A} {seq : I → List A} {i : I} {xs : List A}

omit [DecidableEq A] in
theorem IsFamily.turns_of_frame {e : A} (hf : IsFamily m L seq) (he : Unlisted M L seq e)
    (hfam : IsFamily m' L (Function.update seq i xs))
    (hframe : ∀ a, (∀ b ∈ (L i).nodes (seq i), Apart M b a) → Apart M e a → Agree m m' a) :
    Turns L seq m m' i xs := by
  refine ⟨hfam, ?_⟩
  intro j hj a ha
  apply hframe a
  · intro b hb
    exact hf.apart i j hj.symm b hb a ha
  · exact apart_symm (he.2 j a ha)

omit [DecidableEq A] in
theorem IsFamily.turns_of_shrink (hf : IsFamily m L seq) (hsub : xs ⊆ seq i)
    (hfam : IsFamily m' L (Function.update seq i xs))
    (hframe : ∀ a, (∀ b ∈ (L i).nodes xs, Apart M b a) → Agree m m' a) : Turns L seq m m' i xs := by
  refine ⟨hfam, ?_⟩
  intro j hj a ha
  apply hframe a
  intro b hb
  apply hf.apart i j hj.symm b _ a ha
  rw [KList.mem_nodes] at hb ⊢
  exact hb.imp_right (Or.imp_left fun h => hsub h)

/-- The functions that link a new node in. -/
theorem IsFamily.insertions (hf : IsFamily m L seq) (i : I) {e : A} (he : Unlisted M L seq e) :
    (∃ m', listPush m (L i) e = some m' ∧ Turns L seq m m' i (e :: seq i)) ∧
    (∃ m', listAppend m (L i) e = some m' ∧ Turns L seq m m' i (seq i ++ [e])) ∧
    ∀ xs ys, seq i = xs ++ ys → ∃ m', listInsertBefore m ((ys ++ [(L i).tail]).head (by simp)) e = some m' ∧
      Turns L seq m m' i (xs ++ e :: ys) := by
  refine ⟨?_, ?_, ?_⟩
  · obtain ⟨m', hm', hfam, hframe⟩ := hf.push i he.2 he.1
    exact ⟨m', hm', hf.turns_of_frame he hfam hframe⟩
  · obtain ⟨m', hm', hfam, hframe⟩ := hf.append i he.2 he.1
    exact ⟨m', hm', hf.turns_of_frame he hfam hframe⟩
  · intro xs ys hi
    obtain ⟨m', hm', hfam, hframe⟩ := hf.insertBefore i hi he.2 he.1
    exact ⟨m', hm', hf.turns_of_frame he hfam hframe⟩

theorem IsFamily.turns_remove (hf : IsFamily m L seq) {e : A} (he : e ∈ seq i) :
    Turns L seq m (listRemove m e) i ((seq i).erase e) := by
  obtain ⟨xs, ys, -, hi, herase⟩ := List.exists_erase_eq he
  obtain ⟨hfam, hframe⟩ := hf.remove i hi
  rw [herase]
  apply hf.turns_of_shrink _ hfam hframe
  rw [hi]
  intro a ha
  simp only [List.mem_append, List.mem_cons] at ha ⊢
  exact ha.imp_right .inr

omit [DecidableEq A] in
theorem IsFamily.turns_pop (hf : IsFamily m L seq) {e : A} (hi : seq i = e :: xs) :
    (listPop m (L i)).2 = e ∧ Turns L seq m (listPop m (L i)).1 i xs := by
  obtain ⟨hpop, hfam, hframe⟩ := hf.pop i hi
  exact ⟨hpop, hf.turns_of_shrink (by simp [hi]) hfam hframe⟩

omit [DecidableEq A] in
theorem IsFamily.turns_init (hf : IsFamily m L seq) : Turns L seq m (listInit m (L i)) i [] := by
  obtain ⟨hfam, hframe⟩ := hf.init i
  exact hf.turns_of_shrink (by simp) hfam hframe

/-- The functions of `list.c` over a memory of any number of node-disjoint lists, against the operations on
their sequences. The addresses of the nodes are distinct 32-bit words (`addr`); `list_init` also makes a
list of two sentinels that no list has. -/
theorem lists_refine_sequences (addr : A ↪ BitVec 32) (hf : IsFamily m L seq) (i : I) :
    Turns L seq m (listInit m (L i)) i [] ∧
    (∀ l : KList A, Apart M l.head l.tail → (∀ a ∈ l.nodes [], Unlisted M L seq a) →
      IsFamily (listInit m l) (fun j : Option I => j.elim l L) (fun j : Option I => j.elim [] seq) ∧
      ∀ j, ∀ a ∈ (L j).nodes (seq j), Agree m (listInit m l) a) ∧
    (∀ e, Unlisted M L seq e →
      (∃ m', listPush m (L i) e = some m' ∧ Turns L seq m m' i (e :: seq i)) ∧
      (∃ m', listAppend m (L i) e = some m' ∧ Turns L seq m m' i (seq i ++ [e])) ∧
      ∀ xs ys, seq i = xs ++ ys → ∃ m', listInsertBefore m ((ys ++ [(L i).tail]).head (by simp)) e = some m' ∧
        Turns L seq m m' i (xs ++ e :: ys)) ∧
    (∀ e ∈ seq i, Turns L seq m (listRemove m e) i ((seq i).erase e)) ∧
    (∀ e xs, seq i = e :: xs → (listPop m (L i)).2 = e ∧ Turns L seq m (listPop m (L i)).1 i xs) ∧
    (listEmpty m (L i) = true ↔ seq i = []) ∧
    (∃ n : BitVec 32, Ends (fun fuel => listLen fuel m (L i)) n ∧ n.toNat = (seq i).length) ∧
    (∀ obj, Ends (fun fuel => elemFind fuel m (L i) obj) (decide (obj ∈ seq i))) ∧
    ∀ (func : A → BitVec 32 → BitVec 32) (arg : BitVec 32), Ends (fun fuel => listTraversal fuel m (L i) func arg)
      (((seq i).find? fun e => func e arg != 0).getD (null M)) := by
  have hs := hf.isSeq i
  refine ⟨hf.turns_init, ?_, fun e he => hf.insertions i he, fun e he => hf.turns_remove he,
    fun e xs hi => hf.turns_pop hi, listEmpty_isSeq hs, ?_, ?_, ?_⟩
  · intro l hl hnew
    apply hf.init_new hl
    · intro a ha
      exact (hnew a ha).1
    · intro j a ha b hb
      exact (hnew b hb).2 j a ha
  · refine ⟨BitVec.ofNat 32 (seq i).length, ⟨(seq i).length + 1, fun fuel hfuel => listLen_isSeq hs hfuel⟩, ?_⟩
    rw [BitVec.toNat_ofNat, Nat.mod_eq_of_lt (length_lt_of_isSeq hs addr)]
  · intro obj
    exact ⟨(seq i).length + 1, fun fuel hfuel => elemFind_isSeq hs obj hfuel⟩
  · intro func arg
    exact ⟨(seq i).length + 1, fun fuel hfuel => listTraversal_isSeq hs func arg hfuel⟩

end Refinement

/-- An empty list between the nodes 1 and 2, and the node 5 between 3 and 4. -/
def twoLists : LinkStore (BitVec 32) where
  node a := if a = 1 then ⟨0, 2⟩ else if a = 2 then ⟨1, 0⟩ else if a = 3 then ⟨0, 5⟩
    else if a = 5 then ⟨3, 4⟩ else if a = 4 then ⟨5, 0⟩ else ⟨0, 0⟩

def twoSentinels (b : Bool) : KList (BitVec 32) := if b then ⟨3, 4⟩ else ⟨1, 2⟩

def twoSeqs (b : Bool) : List (BitVec 32) := if b then [5] else []

theorem twoLists_isFamily : IsFamily twoLists twoSentinels twoSeqs where
  isSeq b := by
    cases b with
    | false => exact ⟨by simp [Link, twoSeqs]; decide, by simp [Apart, twoSentinels, twoSeqs],
        by simp [null, twoSentinels, twoSeqs], rfl, rfl⟩
    | true => exact ⟨by simp [Link, twoSeqs]; decide, by simp [Apart, twoSentinels, twoSeqs],
        by simp [null, twoSentinels, twoSeqs], rfl, rfl⟩
  apart := by simp [Bool.forall_bool, KList.nodes, twoSentinels, twoSeqs, Apart]

/-- Node 6 is pushed in front of node 5; the empty list stays as it is. -/
theorem lists_refine_sequences_push : Unlisted (LinkStore (BitVec 32)) twoSentinels twoSeqs 6 ∧
    ∃ m', listPush twoLists (twoSentinels true) 6 = some m' ∧
      Turns twoSentinels twoSeqs twoLists m' true [6, 5] := by
  have hnew : Unlisted (LinkStore (BitVec 32)) twoSentinels twoSeqs 6 := by
    simp [Unlisted, Bool.forall_bool, KList.nodes, twoSentinels, twoSeqs, Apart, null]
  obtain ⟨-, -, hinsert, -⟩ :=
    lists_refine_sequences (Function.Embedding.refl (BitVec 32)) twoLists_isFamily true
  exact ⟨hnew, (hinsert 6 hnew).1⟩

end ElephantOS
