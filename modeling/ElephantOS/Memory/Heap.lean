import ElephantOS.Kernel.Malloc
import ElephantOS.Thread.SchedInv

/-!
# The words of a heap

What `sys_malloc` and `sys_free` keep in memory, apart from where the pages come from.

* `Arena` : the ghost of an arena, blocks of one size class or the pages of a large request;
* `HeapRep m D arenas live seq` : the descriptors at `D`, the headers of the arenas and the free lists of the
  memory `m` say which blocks are live;
* `HeapRep.take`, `HeapRep.give`, `HeapRep.addSmall`, `HeapRep.dropSmall`, `HeapRep.addLarge`,
  `HeapRep.dropLarge` : the steps of the two functions;
* `HeapRep.congr` : the words the representation depends on.
-/

namespace ElephantOS
open LinkMem

/-! ## Size classes -/

/-- `desc->block_size` of class `k`. -/
def classSize (k : Nat) : Nat := 16 * 2 ^ k

/-- `desc->memory_blocks_sum` of class `k`. -/
def classSum (k : Nat) : Nat := (4096 - arenaSize) / classSize k

theorem class_facts (k : Fin 7) : 16 ≤ classSize k ∧ classSize k ≤ 1024 ∧ classSize k % 4 = 0 ∧ 1 ≤ classSum k ∧
    classSum k ≤ 255 ∧ classSum k * classSize k ≤ 4084 := by
  revert k
  decide

/-- The address of block `i` of an arena of class `k` in page `a`. -/
def blockAt (a k i : Nat) : Nat := a * 4096 + 12 + i * classSize k

section Blocks
variable {k : Fin 7} {a b i j : Nat}

theorem block_end (hi : i < classSum k) : i * classSize k + classSize k ≤ 4084 := by
  obtain ⟨-, -, -, -, -, h⟩ := class_facts k
  calc i * classSize k + classSize k = (i + 1) * classSize k := (Nat.succ_mul i _).symm
    _ ≤ classSum k * classSize k := Nat.mul_le_mul_right _ hi
    _ ≤ 4084 := h

theorem block_lt (k : Nat) (hij : i < j) : i * classSize k + classSize k ≤ j * classSize k := by
  calc i * classSize k + classSize k = (i + 1) * classSize k := (Nat.succ_mul i _).symm
    _ ≤ j * classSize k := Nat.mul_le_mul_right _ hij

theorem block2arena_blockAt (hi : i < classSum k) : block2arena (blockAt a k i) = a * 4096 := by
  have hend := block_end hi
  obtain ⟨h16, -⟩ := class_facts k
  unfold block2arena blockAt
  generalize i * classSize k = o at *
  omega

theorem blockAt_div (hi : i < classSum k) : blockAt a k i / 4096 = a := by
  have hend := block_end hi
  obtain ⟨h16, -⟩ := class_facts k
  unfold blockAt
  generalize i * classSize k = o at *
  omega

theorem blockAt_mod (a k i : Nat) : blockAt a k i % 4 = 0 := by
  have h : classSize k % 4 = 0 := by
    unfold classSize
    omega
  have h' : i * classSize k % 4 = 0 := by
    rw [Nat.mul_mod, h, Nat.mul_zero, Nat.zero_mod]
  unfold blockAt
  omega

theorem blockAt_inj (k : Fin 7) (h : blockAt a k i = blockAt a k j) : i = j := by
  obtain ⟨h16, -⟩ := class_facts k
  unfold blockAt at h
  rcases Nat.lt_trichotomy i j with hij | hij | hij
  · have := block_lt k hij
    omega
  · exact hij
  · have := block_lt k hij
    omega

end Blocks

/-! ## Lists in memory -/

section Lists
variable {m m' : Space} {plist : KList Nat} {xs : List Nat} {e a : Nat}

theorem prev_tail_mem (hs : IsSeq m plist.head plist.tail xs) : prev m plist.tail ∈ plist.nodes xs := by
  obtain ⟨init, x, hx⟩ : ∃ init x, plist.head :: xs = init ++ [x] :=
    ⟨_, _, (List.dropLast_append_getLast (List.cons_ne_nil _ _)).symm⟩
  have hchain := hs.chain
  rw [hx, List.append_assoc, List.singleton_append] at hchain
  have hlink := (List.isChain_append_cons_cons.1 hchain).2.1
  rw [hlink.2, KList.nodes, hx]
  simp

theorem neighbours (hs : IsSeq m plist.head plist.tail xs) (he : e ∈ xs) :
    prev m e ∈ plist.nodes xs ∧ next m e ∈ plist.nodes xs ∧ prev m e ≠ e := by
  obtain ⟨pre, post, rfl⟩ := List.append_of_mem he
  obtain ⟨init, x, hx⟩ : ∃ init x, plist.head :: pre = init ++ [x] :=
    ⟨_, _, (List.dropLast_append_getLast (List.cons_ne_nil _ _)).symm⟩
  obtain ⟨z, rest, hz⟩ : ∃ z rest, post ++ [plist.tail] = z :: rest := List.exists_cons_of_ne_nil (by simp)
  have hnodes : plist.nodes (pre ++ e :: post) = init ++ x :: e :: z :: rest := by
    rw [KList.nodes, List.cons_append, List.append_assoc, List.cons_append, hz, ← List.cons_append, hx]
    simp
  have hchain := hs.chain
  have hnodup := hs.nodup
  change (plist.nodes (pre ++ e :: post)).IsChain _ at hchain
  change (plist.nodes (pre ++ e :: post)).Nodup at hnodup
  rw [hnodes] at hchain hnodup ⊢
  obtain ⟨-, hxe, hrest⟩ := List.isChain_append_cons_cons.1 hchain
  have hez := (List.isChain_cons_cons.1 hrest).1
  rw [hxe.2, hez.1]
  refine ⟨by simp, by simp, ?_⟩
  rintro rfl
  have := (List.nodup_append.1 hnodup).2.1
  simp at this

/-- `list_append` writes words of nodes only. -/
theorem listAppend_read (hs : IsSeq m plist.head plist.tail xs) (h : listAppend m plist e = some m')
    (ha : ∀ x ∈ plist.nodes xs, a ≠ x ∧ a ≠ x + 4) (he : a ≠ e ∧ a ≠ e + 4) : m'.read a = m.read a := by
  have hprev := prev_tail_mem hs
  have htail : plist.tail ∈ plist.nodes xs := KList.mem_nodes.2 (.inr (.inr rfl))
  unfold listAppend listInsertBefore at h
  split at h
  · cases h
  · cases h
    simp only [setPrev, setNext]
    rw [Space.read_write_ne _ _ (ha _ htail).1, Space.read_write_ne _ _ he.2, Space.read_write_ne _ _ he.1,
      Space.read_write_ne _ _ (ha _ hprev).2]

theorem listRemove_read (hs : IsSeq m plist.head plist.tail xs) (he : e ∈ xs)
    (ha : ∀ x ∈ plist.nodes xs, a ≠ x ∧ a ≠ x + 4) : (listRemove m e).read a = m.read a := by
  obtain ⟨hprev, hnext, hne⟩ := neighbours hs he
  have hnext' : next (setNext m (prev m e) (next m e)) e = next m e :=
    Space.read_write_ne m _ (fun h => hne (Nat.add_right_cancel h).symm)
  unfold listRemove
  dsimp only
  rw [hnext']
  simp only [setPrev, setNext]
  rw [Space.read_write_ne _ _ (ha _ hnext).1, Space.read_write_ne _ _ (ha _ hprev).2]

end Lists

/-! ## The representation -/

inductive Arena where
  /-- blocks of class `k` -/
  | small (k : Fin 7)
  /-- one request, with `n` pages -/
  | large (n : Nat)
  deriving DecidableEq

def Arena.pages : Arena → Nat
  | .small _ => 1
  | .large n => n

def freeBlocks (live : Nat → Option Nat) (a k : Nat) : Finset Nat :=
  (Finset.range (classSum k)).filter fun i => live (blockAt a k i) = none

def HasRoom (arenas : Nat → Option Arena) (p size : Nat) : Prop :=
  (∃ a k i, arenas a = some (.small k) ∧ i < classSum k ∧ p = blockAt a k i ∧ size ≤ classSize k) ∨
    ∃ a n, arenas a = some (.large n) ∧ p = a * 4096 + 12 ∧ size + 12 ≤ n * 4096

/-- The heap with descriptors at `D`: `arenas` are its arenas by page, `live` the results in use with the sizes
asked for, `seq` the free lists. What `cnt` says is apart, in `Counted`. -/
structure HeapRep (m : Space) (D : Nat) (arenas : Nat → Option Arena) (live : Nat → Option Nat)
    (seq : Fin 7 → List Nat) : Prop where
  desc : ∀ k : Fin 7, m.blockSize (descAt D k) = classSize k ∧ m.memoryBlocksSum (descAt D k) = classSum k
  lists : IsFamily m (fun k : Fin 7 => freeList (descAt D k)) seq
  free : ∀ {k x}, x ∈ seq k ↔ ∃ a i, arenas a = some (.small k) ∧ i < classSum k ∧ x = blockAt a k i ∧ live x = none
  small : ∀ {a k}, arenas a = some (.small k) → m.desc (a * 4096) = descAt D k ∧ m.largeRequest (a * 4096) = 0
  large : ∀ {a n}, arenas a = some (.large n) → m.desc (a * 4096) = 0 ∧ m.largeRequest (a * 4096) = 1 ∧
    m.cnt (a * 4096) = n ∧ 1 ≤ n
  live : ∀ {p size}, live p = some size → 0 < size ∧ HasRoom arenas p size
  apart : ∀ {a b x y}, arenas a = some x → arenas b = some y → a ≠ b → a + x.pages ≤ b ∨ b + y.pages ≤ a
  place : ∀ {a x}, arenas a = some x → 0 < a ∧ (a + x.pages) * 4096 < 2 ^ 32 ∧
    (D + 168 ≤ a * 4096 ∨ (a + x.pages) * 4096 ≤ D)

/-- `cnt` is the number of free blocks. -/
def Counted (m : Space) (arenas : Nat → Option Arena) (live : Nat → Option Nat) : Prop :=
  ∀ {a k}, arenas a = some (.small k) → m.cnt (a * 4096) = (freeBlocks live a k).card

def Busy (arenas : Nat → Option Arena) (live : Nat → Option Nat) : Prop :=
  ∀ {a x}, arenas a = some x → ∃ p, live p ≠ none ∧ p / 4096 = a

/-- The words of a heap: its descriptors and the pages of its arenas. -/
def HeapWord (D : Nat) (arenas : Nat → Option Arena) (w : Nat) : Prop :=
  D ≤ w ∧ w < D + 168 ∨ ∃ b y, arenas b = some y ∧ b * 4096 ≤ w ∧ w < (b + y.pages) * 4096

structure SameHeaders (D : Nat) (arenas : Nat → Option Arena) (m m' : Space) : Prop where
  head : ∀ {b y}, arenas b = some y → ∀ o < 12, m'.read (b * 4096 + o) = m.read (b * 4096 + o)
  out : ∀ {w}, ¬ HeapWord D arenas w → m'.read w = m.read w

theorem SameHeaders.refl (D : Nat) (arenas : Nat → Option Arena) (m : Space) : SameHeaders D arenas m m :=
  ⟨fun _ _ _ => rfl, fun _ => rfl⟩

theorem SameHeaders.trans {D : Nat} {arenas : Nat → Option Arena} {m m' m'' : Space} (h : SameHeaders D arenas m m')
    (h' : SameHeaders D arenas m' m'') : SameHeaders D arenas m m'' :=
  ⟨fun hb o ho => (h'.head hb o ho).trans (h.head hb o ho), fun hw => (h'.out hw).trans (h.out hw)⟩

namespace HeapRep
variable {m m' : Space} {D : Nat} {arenas : Nat → Option Arena} {live : Nat → Option Nat} {seq : Fin 7 → List Nat}
variable (h : HeapRep m D arenas live seq)
include h

theorem node_cases {k : Fin 7} {x : Nat} (hx : x ∈ (freeList (descAt D k)).nodes (seq k)) :
    x = D + 24 * k + 8 ∨ x = D + 24 * k + 16 ∨
      ∃ a i, arenas a = some (.small k) ∧ i < classSum k ∧ x = blockAt a k i ∧ live x = none := by
  rcases KList.mem_nodes.1 hx with hx | hx | hx
  · exact .inl hx
  · exact .inr (.inr (h.free.1 hx))
  · exact .inr (.inl hx)

theorem arena_unique {a b : Nat} {x y : Arena} (ha : arenas a = some x) (hb : arenas b = some y)
    (h1 : a < b + y.pages) (h2 : b < a + x.pages) : a = b := by
  by_contra hne
  have := h.apart ha hb hne
  omega

theorem pages_pos {a : Nat} {x : Arena} (ha : arenas a = some x) : 1 ≤ x.pages := by
  cases x with
  | small k => exact Nat.le_refl 1
  | large n => exact (h.large ha).2.2.2

theorem header_sep {b o : Nat} {y : Arena} (hb : arenas b = some y) (ho : o < 12) {a i : Nat} {k : Fin 7}
    (ha : arenas a = some (.small k)) (hi : i < classSum k) :
    b * 4096 + o < blockAt a k i ∨ blockAt a k i + classSize k ≤ b * 4096 + o := by
  have hpos := h.pages_pos hb
  have hend := block_end hi
  unfold blockAt
  generalize i * classSize k = q at *
  by_cases hab : a = b
  · omega
  · have hsep := h.apart ha hb hab
    change a + 1 ≤ b ∨ _ at hsep
    omega

theorem desc_sep {w a i : Nat} (h1 : D ≤ w) (h2 : w < D + 168) {k : Fin 7} (ha : arenas a = some (.small k))
    (hi : i < classSum k) : w < blockAt a k i ∨ blockAt a k i + classSize k ≤ w := by
  have hend := block_end hi
  obtain ⟨-, -, hplace⟩ := h.place ha
  change _ ∨ (a + 1) * 4096 ≤ D at hplace
  unfold blockAt
  generalize i * classSize k = q at *
  omega

/-- The words of a header are no words of nodes. -/
theorem header_ne {b o : Nat} {y : Arena} (hb : arenas b = some y) (ho : o < 12) {k : Fin 7} {x : Nat}
    (hx : x ∈ (freeList (descAt D k)).nodes (seq k)) : b * 4096 + o ≠ x ∧ b * 4096 + o ≠ x + 4 := by
  have hk := k.isLt
  have hpos := h.pages_pos hb
  obtain ⟨-, -, hplace⟩ := h.place hb
  rcases h.node_cases hx with rfl | rfl | ⟨a, i, ha, hi, rfl, -⟩
  · omega
  · omega
  · obtain ⟨h16, -⟩ := class_facts k
    have := h.header_sep hb ho ha hi
    omega

theorem descField_ne (k' : Fin 7) {o : Nat} (ho : o < 8) {k : Fin 7} {x : Nat}
    (hx : x ∈ (freeList (descAt D k)).nodes (seq k)) : descAt D k' + o ≠ x ∧ descAt D k' + o ≠ x + 4 := by
  have hk := k'.isLt
  unfold descAt
  rcases h.node_cases hx with rfl | rfl | ⟨a, i, ha, hi, rfl, -⟩
  · omega
  · omega
  · obtain ⟨h16, -⟩ := class_facts k
    have := h.desc_sep (w := D + 24 * k' + o) (by omega) (by omega) ha hi
    omega

theorem block_sep {a b i j : Nat} {k k' : Fin 7} (ha : arenas a = some (.small k)) (hb : arenas b = some (.small k'))
    (hi : i < classSum k) (hj : j < classSum k') (hne : blockAt a k i ≠ blockAt b k' j) :
    blockAt a k i + classSize k ≤ blockAt b k' j ∨ blockAt b k' j + classSize k' ≤ blockAt a k i := by
  have hiend := block_end hi
  have hjend := block_end hj
  by_cases hab : a = b
  · subst hab
    have hk : k = k' := by
      rw [ha] at hb
      cases hb
      rfl
    subst hk
    unfold blockAt at *
    rcases Nat.lt_trichotomy i j with hij | rfl | hij
    · have := block_lt k hij
      omega
    · exact absurd rfl hne
    · have := block_lt k hij
      omega
  · have hsep := h.apart ha hb hab
    change a + 1 ≤ b ∨ b + 1 ≤ a at hsep
    unfold blockAt
    generalize i * classSize k = q at *
    generalize j * classSize k' = r at *
    omega

theorem node_heapWord {k : Fin 7} {x : Nat} (hx : x ∈ (freeList (descAt D k)).nodes (seq k)) :
    HeapWord D arenas x ∧ HeapWord D arenas (x + 4) := by
  have hk := k.isLt
  rcases h.node_cases hx with rfl | rfl | ⟨a, i, ha, hi, rfl, -⟩
  · exact ⟨.inl (by omega), .inl (by omega)⟩
  · exact ⟨.inl (by omega), .inl (by omega)⟩
  · have hend := block_end hi
    obtain ⟨h16, -⟩ := class_facts k
    have hpages : (Arena.small k).pages = 1 := rfl
    unfold blockAt
    generalize i * classSize k = q at *
    exact ⟨.inr ⟨a, _, ha, by omega, by rw [hpages]; omega⟩, .inr ⟨a, _, ha, by omega, by rw [hpages]; omega⟩⟩

/-- New lists and new marks over the same arenas and headers. -/
theorem relist {live' : Nat → Option Nat} {seq' : Fin 7 → List Nat}
    (hlists : IsFamily m' (fun k : Fin 7 => freeList (descAt D k)) seq')
    (hdesc : ∀ (k : Fin 7), ∀ o < 8, m'.read (descAt D k + o) = m.read (descAt D k + o))
    (hhead : ∀ {b y}, arenas b = some y → ∀ o < 12, m'.read (b * 4096 + o) = m.read (b * 4096 + o))
    (hfree : ∀ {k x}, x ∈ seq' k ↔
      ∃ a i, arenas a = some (.small k) ∧ i < classSum k ∧ x = blockAt a k i ∧ live' x = none)
    (hlive : ∀ {p size}, live' p = some size → 0 < size ∧ HasRoom arenas p size) : HeapRep m' D arenas live' seq' where
  desc k := ⟨(hdesc k 0 (by decide)).trans (h.desc k).1, (hdesc k 4 (by decide)).trans (h.desc k).2⟩
  lists := hlists
  free := hfree
  small {a k} ha := by
    obtain ⟨h1, h2⟩ := h.small ha
    have h0 := hhead ha 0 (by decide)
    rw [Nat.add_zero] at h0
    exact ⟨h0.trans h1, (hhead ha 8 (by decide)).trans h2⟩
  large {a n} ha := by
    obtain ⟨h1, h2, h3, h4⟩ := h.large ha
    have h0 := hhead ha 0 (by decide)
    rw [Nat.add_zero] at h0
    exact ⟨h0.trans h1, (hhead ha 8 (by decide)).trans h2, (hhead ha 4 (by decide)).trans h3, h4⟩
  live := hlive
  apart := h.apart
  place := h.place

theorem congr (hdesc : ∀ w, D ≤ w → w < D + 168 → m'.read w = m.read w)
    (hhead : ∀ {b y}, arenas b = some y → ∀ o < 12, m'.read (b * 4096 + o) = m.read (b * 4096 + o))
    (hfree : ∀ {k x}, x ∈ seq k → m'.read x = m.read x ∧ m'.read (x + 4) = m.read (x + 4)) :
    HeapRep m' D arenas live seq := by
  refine h.relist (h.lists.congr fun k x hx => ?_) (fun k o ho => ?_) hhead h.free h.live
  · have hk := k.isLt
    rw [Space.agree_iff]
    rcases KList.mem_nodes.1 hx with rfl | hx | rfl
    · change m'.read (descAt D k + 8) = _ ∧ m'.read (descAt D k + 8 + 4) = _
      unfold descAt
      exact ⟨hdesc _ (by omega) (by omega), hdesc _ (by omega) (by omega)⟩
    · exact hfree hx
    · change m'.read (descAt D k + 16) = _ ∧ m'.read (descAt D k + 16 + 4) = _
      unfold descAt
      exact ⟨hdesc _ (by omega) (by omega), hdesc _ (by omega) (by omega)⟩
  · have hk := k.isLt
    unfold descAt
    exact hdesc _ (by omega) (by omega)

theorem block_apart {a i : Nat} {k : Fin 7} (ha : arenas a = some (.small k)) (hi : i < classSum k)
    (hl : live (blockAt a k i) ≠ none) {k' : Fin 7} {x : Nat} (hx : x ∈ (freeList (descAt D k')).nodes (seq k')) :
    Apart Space x (blockAt a k i) := by
  have hk := k'.isLt
  obtain ⟨h16, -⟩ := class_facts k
  change x ≠ blockAt a k i ∧ x + 4 ≠ blockAt a k i ∧ blockAt a k i + 4 ≠ x
  rcases h.node_cases hx with rfl | rfl | ⟨b, j, hb, hj, rfl, hfree⟩
  · have h1 := h.desc_sep (w := D + 24 * k' + 8) (by omega) (by omega) ha hi
    have h2 := h.desc_sep (w := D + 24 * k' + 8 + 4) (by omega) (by omega) ha hi
    omega
  · have h1 := h.desc_sep (w := D + 24 * k' + 16) (by omega) (by omega) ha hi
    have h2 := h.desc_sep (w := D + 24 * k' + 16 + 4) (by omega) (by omega) ha hi
    omega
  · obtain ⟨h16', -⟩ := class_facts k'
    have hne : blockAt b k' j ≠ blockAt a k i := fun he => hl (he ▸ hfree)
    have := h.block_sep hb ha hj hi hne
    omega

omit h in
theorem class_unique {a i b j : Nat} {k k' : Fin 7} (ha : arenas a = some (.small k)) (hi : i < classSum k)
    (hb : arenas b = some (.small k')) (hj : j < classSum k') (he : blockAt a k i = blockAt b k' j) : k = k' := by
  have hdiv : a = b := by
    rw [← blockAt_div (a := a) hi, he, blockAt_div hj]
  subst hdiv
  rw [ha] at hb
  cases hb
  rfl

theorem append {a i : Nat} {k : Fin 7} (ha : arenas a = some (.small k)) (hi : i < classSum k)
    (hl : live (blockAt a k i) ≠ none) :
    ∃ m', listAppend m (freeList (descAt D k)) (blockAt a k i) = some m' ∧
      HeapRep m' D arenas (Function.update live (blockAt a k i) none)
        (Function.update seq k (seq k ++ [blockAt a k i])) ∧ SameHeaders D arenas m m' := by
  obtain ⟨h16, -⟩ := class_facts k
  have hnull : blockAt a k i ≠ null Space := by
    change blockAt a k i ≠ 0
    unfold blockAt
    omega
  obtain ⟨m', hok, hlists, -⟩ := h.lists.append k (fun k' x hx => h.block_apart ha hi hl hx) hnull
  have hread : ∀ {w}, (∀ x ∈ (freeList (descAt D k)).nodes (seq k), w ≠ x ∧ w ≠ x + 4) → w ≠ blockAt a k i →
      w ≠ blockAt a k i + 4 → m'.read w = m.read w := fun hx h1 h2 =>
    listAppend_read (h.lists.isSeq k) hok hx ⟨h1, h2⟩
  have hhead : ∀ {b y}, arenas b = some y → ∀ o < 12, m'.read (b * 4096 + o) = m.read (b * 4096 + o) :=
    fun hb o ho => by
      have := h.header_sep hb ho ha hi
      exact hread (fun x hx => h.header_ne hb ho hx) (by omega) (by omega)
  have hdesc : ∀ (k' : Fin 7), ∀ o < 8, m'.read (descAt D k' + o) = m.read (descAt D k' + o) := fun k' o ho => by
    have hk := k'.isLt
    have hsep := h.desc_sep (w := descAt D k' + o) (by unfold descAt; omega) (by unfold descAt; omega) ha hi
    exact hread (fun x hx => h.descField_ne k' ho hx) (by omega) (by omega)
  refine ⟨m', hok, h.relist hlists hdesc hhead ?_ ?_, hhead, fun {w} hw => ?_⟩
  · intro k' x
    by_cases hk : k' = k
    · subst hk
      rw [Function.update_self, List.mem_append, List.mem_singleton, h.free]
      constructor
      · rintro (⟨b, j, hb, hj, rfl, hx⟩ | rfl)
        · refine ⟨b, j, hb, hj, rfl, ?_⟩
          rw [Function.update_of_ne (fun he => by rw [he] at hx; exact hl hx), hx]
        · exact ⟨a, i, ha, hi, rfl, Function.update_self ..⟩
      · rintro ⟨b, j, hb, hj, rfl, hx⟩
        by_cases he : blockAt b k' j = blockAt a k' i
        · exact .inr he
        · rw [Function.update_of_ne he] at hx
          exact .inl ⟨b, j, hb, hj, rfl, hx⟩
    · rw [Function.update_of_ne hk, h.free]
      refine exists_congr fun b => exists_congr fun j => and_congr_right fun hb => and_congr_right fun hj =>
        and_congr_right fun hx => ?_
      rw [Function.update_of_ne]
      intro he
      exact hk (class_unique hb hj ha hi (hx.symm.trans he))
  · intro x size hx
    by_cases he : x = blockAt a k i
    · rw [he, Function.update_self] at hx
      cases hx
    · rw [Function.update_of_ne he] at hx
      exact h.live hx
  · have hblock : ∀ o < classSize k, w ≠ blockAt a k i + o := fun o ho he => by
      have hend := block_end hi
      refine hw (.inr ⟨a, _, ha, ?_, ?_⟩)
      · rw [he]
        unfold blockAt
        omega
      · change w < (a + 1) * 4096
        rw [he]
        unfold blockAt
        generalize i * classSize k = q at *
        omega
    have h0 := hblock 0 (by omega)
    rw [Nat.add_zero] at h0
    refine hread (fun x hx => ?_) h0 (hblock 4 (by omega))
    obtain ⟨h1, h2⟩ := h.node_heapWord hx
    exact ⟨fun he => hw (he ▸ h1), fun he => hw (he ▸ h2)⟩

theorem remove {k : Fin 7} {p size : Nat} (hp : p ∈ seq k) (h0 : 0 < size) (hsize : size ≤ classSize k) :
    HeapRep (listRemove m p) D arenas (Function.update live p (some size)) (Function.update seq k ((seq k).erase p)) ∧
      SameHeaders D arenas m (listRemove m p) := by
  obtain ⟨a, i, ha, hi, hpe, hlive⟩ := h.free.1 hp
  obtain ⟨xs, ys, -, hsplit, herase⟩ := List.exists_erase_eq hp
  obtain ⟨hlists, -⟩ := h.lists.remove k hsplit
  rw [← herase] at hlists
  have hread : ∀ {w}, (∀ x ∈ (freeList (descAt D k)).nodes (seq k), w ≠ x ∧ w ≠ x + 4) →
      (listRemove m p).read w = m.read w := fun hx => listRemove_read (h.lists.isSeq k) hp hx
  have hhead : ∀ {b y}, arenas b = some y → ∀ o < 12, (listRemove m p).read (b * 4096 + o) = m.read (b * 4096 + o) :=
    fun hb o ho => hread fun x hx => h.header_ne hb ho hx
  refine ⟨h.relist hlists (fun k' o ho => hread fun x hx => h.descField_ne k' ho hx) hhead ?_ ?_, hhead,
    fun {w} hw => hread fun x hx => ?_⟩
  · intro k' x
    by_cases hk : k' = k
    · subst hk
      rw [Function.update_self, (h.lists.nodup k').mem_erase_iff, h.free]
      constructor
      · rintro ⟨hne, b, j, hb, hj, hx, hfree⟩
        exact ⟨b, j, hb, hj, hx, by rw [Function.update_of_ne hne]; exact hfree⟩
      · rintro ⟨b, j, hb, hj, hx, hfree⟩
        have hne : x ≠ p := by
          rintro rfl
          rw [Function.update_self] at hfree
          cases hfree
        rw [Function.update_of_ne hne] at hfree
        exact ⟨hne, b, j, hb, hj, hx, hfree⟩
    · rw [Function.update_of_ne hk, h.free]
      refine exists_congr fun b => exists_congr fun j => and_congr_right fun hb => and_congr_right fun hj =>
        and_congr_right fun hx => ?_
      rw [Function.update_of_ne]
      intro he
      exact hk (class_unique hb hj ha hi (hx.symm.trans (he.trans hpe)))
  · intro x size' hx
    by_cases he : x = p
    · rw [he, Function.update_self, Option.some.injEq] at hx
      subst hx
      rw [he]
      exact ⟨h0, .inl ⟨a, k, i, ha, hi, hpe, hsize⟩⟩
    · rw [Function.update_of_ne he] at hx
      exact h.live hx
  · obtain ⟨h1, h2⟩ := h.node_heapWord hx
    exact ⟨fun he => hw (he ▸ h1), fun he => hw (he ▸ h2)⟩

/-- The words the representation does not depend on: the contents of the blocks that are not free, of large
arenas, and `cnt` of small arenas. -/
theorem write_block {a i : Nat} {k : Fin 7} (ha : arenas a = some (.small k)) (hi : i < classSum k)
    (hl : live (blockAt a k i) ≠ none)
    (hread : ∀ w, w < blockAt a k i ∨ blockAt a k i + classSize k ≤ w → m'.read w = m.read w) :
    HeapRep m' D arenas live seq ∧ SameHeaders D arenas m m' := by
  obtain ⟨h16, -⟩ := class_facts k
  have hhead : ∀ {b y}, arenas b = some y → ∀ o < 12, m'.read (b * 4096 + o) = m.read (b * 4096 + o) :=
    fun hb o ho => hread _ (h.header_sep hb ho ha hi)
  refine ⟨h.congr (fun w h1 h2 => hread w (h.desc_sep h1 h2 ha hi)) hhead fun {k' x} hx => ?_, hhead, fun {w} hw => ?_⟩
  · obtain ⟨b, j, hb, hj, rfl, hfree⟩ := h.free.1 hx
    obtain ⟨h16', -⟩ := class_facts k'
    have := h.block_sep hb ha hj hi fun he => hl (he ▸ hfree)
    exact ⟨hread _ (by omega), hread _ (by omega)⟩
  · refine hread w ?_
    by_contra hcon
    have hend := block_end hi
    refine hw (.inr ⟨a, _, ha, ?_, ?_⟩)
    · unfold blockAt at hcon
      omega
    · change w < (a + 1) * 4096
      unfold blockAt at hcon
      generalize i * classSize k = q at *
      omega

theorem setCnt {a : Nat} {k : Fin 7} (ha : arenas a = some (.small k))
    (hread : ∀ w, w ≠ a * 4096 + 4 → m'.read w = m.read w) : HeapRep m' D arenas live seq := by
  have hdesc : ∀ w, D ≤ w → w < D + 168 → m'.read w = m.read w := fun w h1 h2 => by
    obtain ⟨-, -, hplace⟩ := h.place ha
    change _ ∨ (a + 1) * 4096 ≤ D at hplace
    exact hread w (by omega)
  refine ⟨fun k' => ?_, h.lists.congr fun k' x hx => ?_, h.free, fun {b k'} hb => ?_, fun {b n} hb => ?_, h.live, h.apart,
    h.place⟩
  · have hk := k'.isLt
    obtain ⟨h1, h2⟩ := h.desc k'
    exact ⟨(hdesc _ (by unfold descAt; omega) (by unfold descAt; omega)).trans h1,
      (hdesc _ (by unfold descAt; omega) (by unfold descAt; omega)).trans h2⟩
  · have := h.header_ne ha (o := 4) (by decide) hx
    exact ⟨hread _ this.1.symm, hread _ this.2.symm⟩
  · obtain ⟨h1, h2⟩ := h.small hb
    exact ⟨(hread _ (by omega)).trans h1, (hread _ (by omega)).trans h2⟩
  · have hab : b ≠ a := by
      rintro rfl
      rw [ha] at hb
      cases hb
    obtain ⟨h1, h2, h3, h4⟩ := h.large hb
    exact ⟨(hread _ (by omega)).trans h1, (hread _ (by omega)).trans h2, (hread _ (by omega)).trans h3, h4⟩

theorem live_arena {p : Nat} (hp : live p ≠ none) : ∃ y, arenas (p / 4096) = some y := by
  obtain ⟨size, hs⟩ := Option.ne_none_iff_exists'.1 hp
  obtain ⟨-, ⟨a, k, i, ha, hi, rfl, -⟩ | ⟨a, n, ha, rfl, -⟩⟩ := h.live hs
  · rw [blockAt_div hi]
    exact ⟨_, ha⟩
  · rw [show (a * 4096 + 12) / 4096 = a by omega]
    exact ⟨_, ha⟩

/-- Nothing is live in pages that are not the heap's. -/
theorem live_none {a n p : Nat} (hnew : ∀ {b y}, arenas b = some y → a + n ≤ b ∨ b + y.pages ≤ a)
    (h1 : a * 4096 ≤ p) (h2 : p < (a + n) * 4096) : live p = none := by
  by_contra hp
  obtain ⟨y, hy⟩ := h.live_arena hp
  have := hnew hy
  have := h.pages_pos hy
  omega

/-- A new arena, in pages that are not the heap's; none of its blocks is on a free list yet. -/
theorem add {a : Nat} {x : Arena} {live' : Nat → Option Nat} (hx : 1 ≤ x.pages)
    (hnew : ∀ {b y}, arenas b = some y → a + x.pages ≤ b ∨ b + y.pages ≤ a)
    (hplace : 0 < a ∧ (a + x.pages) * 4096 < 2 ^ 32 ∧ (D + 168 ≤ a * 4096 ∨ (a + x.pages) * 4096 ≤ D))
    (hread : ∀ w, w < a * 4096 ∨ (a + x.pages) * 4096 ≤ w → m'.read w = m.read w)
    (hsmall : ∀ {k}, x = .small k → m'.desc (a * 4096) = descAt D k ∧ m'.largeRequest (a * 4096) = 0 ∧
      ∀ i < classSum k, live' (blockAt a k i) ≠ none)
    (hlarge : ∀ {n}, x = .large n → m'.desc (a * 4096) = 0 ∧ m'.largeRequest (a * 4096) = 1 ∧ m'.cnt (a * 4096) = n)
    (hout : ∀ p, p < a * 4096 ∨ (a + x.pages) * 4096 ≤ p → live' p = live p)
    (hin : ∀ {p size}, a * 4096 ≤ p → p < (a + x.pages) * 4096 → live' p = some size →
      0 < size ∧ HasRoom (Function.update arenas a (some x)) p size) :
    HeapRep m' D (Function.update arenas a (some x)) live' seq := by
  have hnone : arenas a = none := by
    by_contra hne
    obtain ⟨y, hy⟩ := Option.ne_none_iff_exists'.1 hne
    have := hnew hy
    have := h.pages_pos hy
    omega
  have hold : ∀ {b y}, arenas b = some y → b ≠ a := fun hb he => by
    rw [he, hnone] at hb
    cases hb
  have harena : ∀ {b y}, arenas b = some y → Function.update arenas a (some x) b = some y := fun hb => by
    rw [Function.update_of_ne (hold hb), hb]
  have hcases : ∀ {b y}, Function.update arenas a (some x) b = some y → b = a ∧ y = x ∨ b ≠ a ∧ arenas b = some y := by
    intro b y hb
    by_cases hba : b = a
    · rw [hba, Function.update_self, Option.some.injEq] at hb
      exact .inl ⟨hba, hb.symm⟩
    · rw [Function.update_of_ne hba] at hb
      exact .inr ⟨hba, hb⟩
  have hblock : ∀ {b i : Nat} {k : Fin 7}, arenas b = some (.small k) → i < classSum k →
      blockAt b k i + classSize k ≤ a * 4096 ∨ (a + x.pages) * 4096 ≤ blockAt b k i := fun {b i k} hb hi => by
    have hend := block_end hi
    have hsep := hnew hb
    change _ ∨ b + 1 ≤ a at hsep
    unfold blockAt
    generalize i * classSize k = q at *
    omega
  have hhead : ∀ {b y}, arenas b = some y → ∀ o < 12, m'.read (b * 4096 + o) = m.read (b * 4096 + o) := fun hb o ho => by
    have := hnew hb
    have := h.pages_pos hb
    exact hread _ (by omega)
  have hdesc : ∀ w, D ≤ w → w < D + 168 → m'.read w = m.read w := fun w h1 h2 => hread _ (by omega)
  have hfree : ∀ {k y}, y ∈ seq k → m'.read y = m.read y ∧ m'.read (y + 4) = m.read (y + 4) := fun {k y} hy => by
    obtain ⟨b, i, hb, hi, rfl, -⟩ := h.free.1 hy
    obtain ⟨h16, -⟩ := class_facts k
    have := hblock hb hi
    exact ⟨hread _ (by omega), hread _ (by omega)⟩
  have hm := h.congr hdesc hhead hfree
  refine ⟨hm.desc, hm.lists, fun {k y} => ?_, fun {b k} hb => ?_, fun {b n} hb => ?_, fun {p size} hp => ?_,
    fun {b c y z} hb hc hne => ?_, fun {b y} hb => ?_⟩
  · rw [h.free]
    constructor
    · rintro ⟨b, i, hb, hi, rfl, hf⟩
      obtain ⟨h16, -⟩ := class_facts k
      have := hblock hb hi
      exact ⟨b, i, harena hb, hi, rfl, by rw [hout _ (by omega)]; exact hf⟩
    · rintro ⟨b, i, hb, hi, rfl, hf⟩
      rcases hcases hb with ⟨rfl, hxk⟩ | ⟨-, hb⟩
      · exact absurd hf ((hsmall hxk.symm).2.2 i hi)
      · obtain ⟨h16, -⟩ := class_facts k
        have := hblock hb hi
        rw [hout _ (by omega)] at hf
        exact ⟨b, i, hb, hi, rfl, hf⟩
  · rcases hcases hb with ⟨rfl, hxk⟩ | ⟨-, hb⟩
    · exact ⟨(hsmall hxk.symm).1, (hsmall hxk.symm).2.1⟩
    · exact hm.small hb
  · rcases hcases hb with ⟨rfl, hxk⟩ | ⟨-, hb⟩
    · obtain ⟨h1, h2, h3⟩ := hlarge hxk.symm
      exact ⟨h1, h2, h3, by rw [← hxk] at hx; exact hx⟩
    · exact hm.large hb
  · by_cases hpin : a * 4096 ≤ p ∧ p < (a + x.pages) * 4096
    · exact hin hpin.1 hpin.2 hp
    · rw [hout p (by omega)] at hp
      obtain ⟨h0, hroom⟩ := h.live hp
      refine ⟨h0, hroom.imp ?_ ?_⟩
      · rintro ⟨b, k, i, hb, rest⟩
        exact ⟨b, k, i, harena hb, rest⟩
      · rintro ⟨b, n, hb, rest⟩
        exact ⟨b, n, harena hb, rest⟩
  · rcases hcases hb with ⟨hba, hyx⟩ | ⟨-, hb'⟩
    · rcases hcases hc with ⟨hca, -⟩ | ⟨-, hc'⟩
      · exact absurd (hba.trans hca.symm) hne
      · rw [hba, hyx]
        exact hnew hc'
    · rcases hcases hc with ⟨hca, hzx⟩ | ⟨-, hc'⟩
      · rw [hca, hzx]
        exact (hnew hb').symm
      · exact h.apart hb' hc' hne
  · rcases hcases hb with ⟨hba, hyx⟩ | ⟨-, hb'⟩
    · rw [hba, hyx]
      exact hplace
    · exact h.place hb'

/-- An arena none of whose blocks is on a free list is given up. -/
theorem drop {a : Nat} {x : Arena} {live' : Nat → Option Nat} (ha : arenas a = some x)
    (hfull : ∀ {k}, x = .small k → ∀ i < classSum k, live (blockAt a k i) ≠ none)
    (hout : ∀ p, p < a * 4096 ∨ (a + x.pages) * 4096 ≤ p → live' p = live p)
    (hin : ∀ p, a * 4096 ≤ p → p < (a + x.pages) * 4096 → live' p = none) :
    HeapRep m D (Function.update arenas a none) live' seq := by
  have hcases : ∀ {b y}, Function.update arenas a none b = some y → b ≠ a ∧ arenas b = some y := by
    intro b y hb
    by_cases hba : b = a
    · rw [hba, Function.update_self] at hb
      cases hb
    · rw [Function.update_of_ne hba] at hb
      exact ⟨hba, hb⟩
  have hblock : ∀ {b i : Nat} {k : Fin 7}, b ≠ a → arenas b = some (.small k) → i < classSum k →
      blockAt b k i < a * 4096 ∨ (a + x.pages) * 4096 ≤ blockAt b k i := fun {b i k} hne hb hi => by
    have hend := block_end hi
    obtain ⟨h16, -⟩ := class_facts k
    have hsep := h.apart hb ha hne
    change b + 1 ≤ a ∨ _ at hsep
    unfold blockAt
    generalize i * classSize k = q at *
    omega
  refine ⟨h.desc, h.lists, fun {k y} => ?_, fun {b k} hb => h.small (hcases hb).2, fun {b n} hb => h.large (hcases hb).2,
    fun {p size} hp => ?_, fun {b c y z} hb hc hne => h.apart (hcases hb).2 (hcases hc).2 hne,
    fun {b y} hb => h.place (hcases hb).2⟩
  · rw [h.free]
    constructor
    · rintro ⟨b, i, hb, hi, rfl, hf⟩
      have hba : b ≠ a := by
        rintro rfl
        rw [ha, Option.some.injEq] at hb
        exact hfull hb i hi hf
      exact ⟨b, i, by rw [Function.update_of_ne hba]; exact hb, hi, rfl,
        by rw [hout _ (hblock hba hb hi)]; exact hf⟩
    · rintro ⟨b, i, hb, hi, rfl, hf⟩
      obtain ⟨hba, hb⟩ := hcases hb
      rw [hout _ (hblock hba hb hi)] at hf
      exact ⟨b, i, hb, hi, rfl, hf⟩
  · have hpout : p < a * 4096 ∨ (a + x.pages) * 4096 ≤ p := by
      by_contra hcon
      rw [hin p (by omega) (by omega)] at hp
      cases hp
    rw [hout p hpout] at hp
    obtain ⟨h0, hroom⟩ := h.live hp
    have hpage := h.pages_pos ha
    refine ⟨h0, hroom.imp ?_ ?_⟩
    · rintro ⟨b, k, i, hb, hi, rfl, hs⟩
      have hba : b ≠ a := by
        rintro rfl
        rw [ha, Option.some.injEq] at hb
        have hend := block_end hi
        obtain ⟨h16, -⟩ := class_facts k
        unfold blockAt at hpout
        generalize i * classSize k = q at *
        omega
      exact ⟨b, k, i, by rw [Function.update_of_ne hba]; exact hb, hi, rfl, hs⟩
    · rintro ⟨b, n, hb, rfl, hs⟩
      have hba : b ≠ a := by
        rintro rfl
        omega
      exact ⟨b, n, by rw [Function.update_of_ne hba]; exact hb, rfl, hs⟩

end HeapRep

theorem Counted.congr {m m' : Space} {arenas : Nat → Option Arena} {live : Nat → Option Nat} (h : Counted m arenas live)
    (hhead : ∀ {b y}, arenas b = some y → ∀ o < 12, m'.read (b * 4096 + o) = m.read (b * 4096 + o)) :
    Counted m' arenas live := fun ha => (hhead ha 4 (by decide)).trans (h ha)

/-! ## Counting free blocks -/

section Count
variable {live : Nat → Option Nat} {a b i : Nat} {k k' : Fin 7}

theorem mem_freeBlocks {live : Nat → Option Nat} {a i k : Nat} :
    i ∈ freeBlocks live a k ↔ i < classSum k ∧ live (blockAt a k i) = none := by
  simp [freeBlocks]

theorem card_freeBlocks_le (live : Nat → Option Nat) (a : Nat) (k : Fin 7) : (freeBlocks live a k).card ≤ classSum k := by
  have := Finset.card_filter_le (Finset.range (classSum k)) fun i => live (blockAt a k i) = none
  rwa [Finset.card_range] at this

theorem card_freeBlocks (live : Nat → Option Nat) (a : Nat) (k : Fin 7) :
    ((freeBlocks live a k).card = classSum k ∧ ∀ i < classSum k, live (blockAt a k i) = none) ∨
      (freeBlocks live a k).card < classSum k ∧ ∃ i < classSum k, live (blockAt a k i) ≠ none := by
  by_cases hall : ∀ i < classSum k, live (blockAt a k i) = none
  · refine .inl ⟨?_, hall⟩
    rw [freeBlocks, Finset.filter_true_of_mem fun i hi => hall i (Finset.mem_range.1 hi), Finset.card_range]
  · push Not at hall
    obtain ⟨i, hi, hl⟩ := hall
    refine .inr ⟨?_, i, hi, hl⟩
    have hlt := Finset.card_lt_card (s := freeBlocks live a k) (t := Finset.range (classSum k)) ?_
    · rwa [Finset.card_range] at hlt
    · refine ⟨Finset.filter_subset _ _, fun hsub => ?_⟩
      exact hl (mem_freeBlocks.1 (hsub (Finset.mem_range.2 hi))).2

theorem freeBlocks_take (size : Nat) :
    freeBlocks (Function.update live (blockAt a k i) (some size)) a k = (freeBlocks live a k).erase i := by
  ext j
  rw [Finset.mem_erase, mem_freeBlocks, mem_freeBlocks]
  by_cases hij : j = i
  · subst hij
    simp
  · rw [Function.update_of_ne fun he => hij (blockAt_inj k he)]
    simp [hij]

theorem freeBlocks_give (hi : i < classSum k) :
    freeBlocks (Function.update live (blockAt a k i) none) a k = insert i (freeBlocks live a k) := by
  ext j
  rw [Finset.mem_insert, mem_freeBlocks, mem_freeBlocks]
  by_cases hij : j = i
  · subst hij
    simp [hi]
  · rw [Function.update_of_ne fun he => hij (blockAt_inj k he)]
    simp [hij]

theorem freeBlocks_congr {live' : Nat → Option Nat} (h : ∀ p, p / 4096 = b → live' p = live p) :
    freeBlocks live' b k' = freeBlocks live b k' := by
  ext j
  rw [mem_freeBlocks, mem_freeBlocks]
  refine and_congr_right fun hj => ?_
  rw [h _ (blockAt_div hj)]

end Count

/-! ## One block -/

section OneBlock
variable {m : Space} {D : Nat} {arenas : Nat → Option Arena} {live : Nat → Option Nat} {seq : Fin 7 → List Nat}
variable {k : Fin 7}

theorem update_other {p b : Nat} {x : Option Nat} (hp : p / 4096 ≠ b) :
    ∀ q, q / 4096 = b → Function.update live p x q = live q := fun q hq =>
  Function.update_of_ne (fun he => by rw [he] at hq; exact hp hq) _ _

/-- `takeBlock` hands out the first block of the list, cleared. -/
theorem HeapRep.take (h : HeapRep m D arenas live seq) (hc : Counted m arenas live) {p size : Nat} {rest : List Nat}
    (hseq : seq k = p :: rest) (h0 : 0 < size) (hsize : size ≤ classSize k) :
    (takeBlock m (descAt D k)).1 = p ∧
      HeapRep (takeBlock m (descAt D k)).2 D arenas (Function.update live p (some size)) (Function.update seq k rest) ∧
      Counted (takeBlock m (descAt D k)).2 arenas (Function.update live p (some size)) ∧
      (∀ w, p ≤ w → w < p + classSize k → (takeBlock m (descAt D k)).2.read w = 0) ∧
      ∀ w, ¬ HeapWord D arenas w → (takeBlock m (descAt D k)).2.read w = m.read w := by
  obtain ⟨a, i, ha, hi, hpe, hfree⟩ := h.free.1 (show p ∈ seq k by simp [hseq])
  have hnext : next m (freeList (descAt D k)).head = p := by
    have := (h.lists.isSeq k).next_head
    simpa [hseq] using this
  obtain ⟨hrep1, hsame1⟩ := h.remove (show p ∈ seq k by simp [hseq]) h0 hsize
  rw [hseq, List.erase_cons_head] at hrep1
  have hlive1 : Function.update live p (some size) (blockAt a k i) ≠ none := by
    rw [← hpe, Function.update_self]
    exact Option.some_ne_none size
  have hclear : ∀ w, w < blockAt a k i ∨ blockAt a k i + classSize k ≤ w →
      ((listRemove m p).clear p (classSize k)).read w = (listRemove m p).read w := fun w hw =>
    Space.read_clear_of_notMem (by rw [hpe]; exact hw)
  obtain ⟨hrep2, hsame2⟩ := hrep1.write_block ha hi hlive1 hclear
  have hsame := hsame1.trans hsame2
  have hcnt : ((listRemove m p).clear p (classSize k)).cnt (a * 4096) = (freeBlocks live a k).card :=
    (hsame.head ha 4 (by decide)).trans (hc ha)
  have htake : takeBlock m (descAt D k) = (p, ((listRemove m p).clear p (classSize k)).write (a * 4096 + 4)
      (sub32 (freeBlocks live a k).card 1)) := by
    simp only [takeBlock, listPop, hnext, (hrep1.desc k).1]
    rw [hpe, block2arena_blockAt hi, ← hpe, hcnt]
  rw [htake]
  have hmem : i ∈ freeBlocks live a k := mem_freeBlocks.2 ⟨hi, by rw [← hpe]; exact hfree⟩
  have hpos : 0 < (freeBlocks live a k).card := Finset.card_pos.2 ⟨i, hmem⟩
  have hle := card_freeBlocks_le live a k
  obtain ⟨-, -, -, -, h255, -⟩ := class_facts k
  refine ⟨rfl, hrep2.setCnt ha fun w hw => Space.read_write_ne _ _ hw, fun {b k'} hb => ?_, fun w h1 h2 => ?_,
    fun w hw => ?_⟩
  · by_cases hba : b = a
    · subst hba
      rw [ha, Option.some.injEq, Arena.small.injEq] at hb
      subst hb
      rw [hpe, freeBlocks_take, Finset.card_erase_of_mem hmem]
      refine (Space.read_write_self _ _ _).trans ?_
      unfold sub32
      omega
    · have hpa : p / 4096 ≠ b := by
        rw [hpe, blockAt_div hi]
        exact fun he => hba he.symm
      rw [freeBlocks_congr (update_other hpa), ← hc hb]
      refine (Space.read_write_ne _ _ (by omega)).trans ?_
      exact hsame.head hb 4 (by decide)
  · have hne : w ≠ a * 4096 + 4 := by
      rw [hpe] at h1
      unfold blockAt at h1
      omega
    rw [Space.read_write_ne _ _ hne]
    exact Space.read_clear_of_mem h1 h2
  · have hne : w ≠ a * 4096 + 4 := fun he => hw (.inr ⟨a, _, ha, by omega, by change w < (a + 1) * 4096; omega⟩)
    rw [Space.read_write_ne _ _ hne]
    exact hsame.out hw

/-- A live block goes back to its list, and its arena's `cnt` is incremented. -/
theorem HeapRep.give (h : HeapRep m D arenas live seq) (hc : Counted m arenas live) {a i : Nat}
    (ha : arenas a = some (.small k)) (hi : i < classSum k) (hl : live (blockAt a k i) ≠ none) :
    ∃ m', listAppend m (freeList (m.desc (a * 4096))) (blockAt a k i) = some m' ∧
      HeapRep (m'.write (a * 4096 + 4) ((m'.cnt (a * 4096) + 1) % 2 ^ 32)) D arenas
        (Function.update live (blockAt a k i) none) (Function.update seq k (seq k ++ [blockAt a k i])) ∧
      Counted (m'.write (a * 4096 + 4) ((m'.cnt (a * 4096) + 1) % 2 ^ 32)) arenas
        (Function.update live (blockAt a k i) none) ∧
      ∀ w, ¬ HeapWord D arenas w →
        (m'.write (a * 4096 + 4) ((m'.cnt (a * 4096) + 1) % 2 ^ 32)).read w = m.read w := by
  rw [(h.small ha).1]
  obtain ⟨m', hok, hrep, hsame⟩ := h.append ha hi hl
  have hcnt : m'.cnt (a * 4096) = (freeBlocks live a k).card := (hsame.head ha 4 (by decide)).trans (hc ha)
  have hnot : i ∉ freeBlocks live a k := fun hm => hl (mem_freeBlocks.1 hm).2
  have hle := card_freeBlocks_le live a k
  obtain ⟨-, -, -, -, h255, -⟩ := class_facts k
  refine ⟨m', hok, hrep.setCnt ha fun w hw => Space.read_write_ne _ _ hw, fun {b k'} hb => ?_, fun w hw => ?_⟩
  · by_cases hba : b = a
    · subst hba
      rw [ha, Option.some.injEq, Arena.small.injEq] at hb
      subst hb
      rw [freeBlocks_give hi, Finset.card_insert_of_notMem hnot]
      refine (Space.read_write_self _ _ _).trans ?_
      rw [hcnt]
      omega
    · have hpa : blockAt a k i / 4096 ≠ b := by
        rw [blockAt_div hi]
        exact fun he => hba he.symm
      rw [freeBlocks_congr (update_other hpa), ← hc hb]
      refine (Space.read_write_ne _ _ (by omega)).trans ?_
      exact hsame.head hb 4 (by decide)
  · have hne : w ≠ a * 4096 + 4 := fun he => hw (.inr ⟨a, _, ha, by omega, by change w < (a + 1) * 4096; omega⟩)
    rw [Space.read_write_ne _ _ hne]
    exact hsame.out hw

end OneBlock

end ElephantOS
