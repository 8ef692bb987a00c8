import ElephantOS.Memory.Heap
import ElephantOS.Memory.Processes

/-!
# Operations on a heap

While its blocks are put on the free list one by one, or taken off it, an arena is kept as one whose other
blocks are live (`liveFrom`, `liveUpTo`).

* `HeapRep.addSmall`, `HeapRep.addLarge` : new arenas;
* `assertFind_ok` : `elem_find` on a free list finds exactly the free blocks;
* `addBlocks_ok`, `dropBlocks_ok` : the two loops;
* `arenaInit_rep` : `ArenaInit` makes an empty heap;
* `HeapRep.live_sep`, `HeapRep.live_header`, `HeapRep.live_node` : where live regions are.
-/

namespace ElephantOS
open LinkMem

/-- Blocks `j`, `j + 1`, … of the arena are taken for live. -/
def liveFrom (a k j : Nat) (live : Nat → Option Nat) : Nat → Option Nat := fun x =>
  if ∃ i < classSum k, j ≤ i ∧ x = blockAt a k i then some 1 else live x

/-- The blocks before block `j` are. -/
def liveUpTo (a k j : Nat) (live : Nat → Option Nat) : Nat → Option Nat := fun x =>
  if ∃ i < j, x = blockAt a k i then some 1 else live x

section Marks
variable {live : Nat → Option Nat} {a j : Nat} {k : Fin 7}

theorem liveFrom_block (hj : j < classSum k) : liveFrom a k j live (blockAt a k j) ≠ none := by
  rw [liveFrom, if_pos ⟨j, hj, Nat.le_refl j, rfl⟩]
  exact Option.some_ne_none 1

theorem liveFrom_succ (hj : j < classSum k) (hfree : ∀ i < classSum k, live (blockAt a k i) = none) :
    Function.update (liveFrom a k j live) (blockAt a k j) none = liveFrom a k (j + 1) live := by
  funext x
  unfold liveFrom
  by_cases hx : x = blockAt a k j
  · subst hx
    rw [Function.update_self, if_neg, hfree j hj]
    rintro ⟨i, -, hji, he⟩
    have := blockAt_inj k he
    omega
  · rw [Function.update_of_ne hx]
    by_cases h : ∃ i < classSum k, j ≤ i ∧ x = blockAt a k i
    · obtain ⟨i, hi, hji, rfl⟩ := h
      have hne : i ≠ j := fun he => hx (by rw [he])
      rw [if_pos ⟨i, hi, hji, rfl⟩, if_pos ⟨i, hi, by omega, rfl⟩]
    · rw [if_neg h, if_neg]
      rintro ⟨i, hi, hji, rfl⟩
      exact h ⟨i, hi, by omega, rfl⟩

theorem liveFrom_end : liveFrom a k (classSum k) live = live := by
  funext x
  rw [liveFrom, if_neg]
  rintro ⟨i, hi, hji, -⟩
  omega

theorem liveUpTo_zero : liveUpTo a k 0 live = live := by
  funext x
  rw [liveUpTo, if_neg]
  rintro ⟨i, hi, -⟩
  omega

theorem liveUpTo_succ : Function.update (liveUpTo a k j live) (blockAt a k j) (some 1) = liveUpTo a k (j + 1) live := by
  funext x
  unfold liveUpTo
  by_cases hx : x = blockAt a k j
  · subst hx
    rw [Function.update_self, if_pos ⟨j, Nat.lt_succ_self j, rfl⟩]
  · rw [Function.update_of_ne hx]
    by_cases h : ∃ i < j, x = blockAt a k i
    · obtain ⟨i, hi, rfl⟩ := h
      rw [if_pos ⟨i, hi, rfl⟩, if_pos ⟨i, by omega, rfl⟩]
    · rw [if_neg h, if_neg]
      rintro ⟨i, hi, rfl⟩
      refine h ⟨i, ?_, rfl⟩
      have hne : i ≠ j := fun he => hx (by rw [he])
      omega

theorem liveUpTo_block (hfree : ∀ i < classSum k, live (blockAt a k i) = none) (hj : j < classSum k) :
    liveUpTo a k j live (blockAt a k j) = none := by
  rw [liveUpTo, if_neg, hfree j hj]
  rintro ⟨i, hi, he⟩
  have := blockAt_inj k he
  omega

end Marks

section Loops
variable {m : Space} {D : Nat} {arenas : Nat → Option Arena} {live : Nat → Option Nat} {seq : Fin 7 → List Nat}
variable {a : Nat} {k : Fin 7}

theorem HeapRep.length_lt (h : HeapRep m D arenas live seq) (k : Fin 7) : (seq k).length < Sched.traversal := by
  refine Sched.length_lt id (h.lists.nodup k) fun x hx => ?_
  obtain ⟨a, i, ha, hi, rfl, -⟩ := h.free.1 hx
  have hend := block_end hi
  obtain ⟨h16, -⟩ := class_facts k
  obtain ⟨h0, h1, -⟩ := h.place ha
  have h2 : (a + 1) * 4096 < 2 ^ 32 := h1
  refine ⟨_, rfl, ?_⟩
  generalize i * classSize k = q at *
  omega

theorem HeapRep.elemFind (h : HeapRep m D arenas live seq) (k : Fin 7) (p : Nat) :
    ElephantOS.elemFind Sched.traversal m (freeList (descAt D k)) p = some (decide (p ∈ seq k)) :=
  elemFind_isSeq (h.lists.isSeq k) p (h.length_lt k)

theorem HeapRep.addSmall (h : HeapRep m D arenas live seq) {m' : Space}
    (hnew : ∀ {b y}, arenas b = some y → a + 1 ≤ b ∨ b + y.pages ≤ a)
    (hplace : 0 < a ∧ (a + 1) * 4096 < 2 ^ 32 ∧ (D + 168 ≤ a * 4096 ∨ (a + 1) * 4096 ≤ D))
    (hread : ∀ w, w < a * 4096 ∨ (a + 1) * 4096 ≤ w → m'.read w = m.read w)
    (hhead : m'.desc (a * 4096) = descAt D k ∧ m'.largeRequest (a * 4096) = 0) :
    HeapRep m' D (Function.update arenas a (some (.small k))) (liveFrom a k 0 live) seq := by
  have hblock : ∀ i < classSum k, a * 4096 ≤ blockAt a k i ∧ blockAt a k i < (a + 1) * 4096 := fun i hi => by
    have := blockAt_div (a := a) hi
    omega
  refine h.add (x := .small k) (Nat.le_refl 1) hnew hplace hread (fun {k'} he => ?_) (fun {n} he => ?_) (fun p hp => ?_)
    fun {p size} h1 h2 hp => ?_
  · cases he
    refine ⟨hhead.1, hhead.2, fun i hi => ?_⟩
    rw [liveFrom, if_pos ⟨i, hi, Nat.zero_le i, rfl⟩]
    exact Option.some_ne_none 1
  · cases he
  · change p < a * 4096 ∨ (a + 1) * 4096 ≤ p at hp
    rw [liveFrom, if_neg]
    rintro ⟨i, hi, -, rfl⟩
    have := hblock i hi
    omega
  · unfold liveFrom at hp
    split at hp
    · rename_i hex
      obtain ⟨i, hi, -, rfl⟩ := hex
      obtain ⟨h16, -⟩ := class_facts k
      rw [Option.some.injEq] at hp
      exact ⟨by omega, .inl ⟨a, k, i, Function.update_self .., hi, rfl, by omega⟩⟩
    · rw [h.live_none hnew h1 h2] at hp
      cases hp

theorem HeapRep.addLarge (h : HeapRep m D arenas live seq) {m' : Space} {n size : Nat} (hn : 1 ≤ n)
    (hnew : ∀ {b y}, arenas b = some y → a + n ≤ b ∨ b + y.pages ≤ a)
    (hplace : 0 < a ∧ (a + n) * 4096 < 2 ^ 32 ∧ (D + 168 ≤ a * 4096 ∨ (a + n) * 4096 ≤ D))
    (hread : ∀ w, w < a * 4096 ∨ (a + n) * 4096 ≤ w → m'.read w = m.read w)
    (hhead : m'.desc (a * 4096) = 0 ∧ m'.largeRequest (a * 4096) = 1 ∧ m'.cnt (a * 4096) = n)
    (h0 : 0 < size) (hsize : size + 12 ≤ n * 4096) :
    HeapRep m' D (Function.update arenas a (some (.large n))) (Function.update live (a * 4096 + 12) (some size)) seq := by
  refine h.add (x := .large n) hn hnew hplace hread (fun {k'} he => ?_) (fun {n'} he => ?_) (fun p hp => ?_)
    fun {p size'} h1 h2 hp => ?_
  · cases he
  · cases he
    exact hhead
  · change p < a * 4096 ∨ (a + n) * 4096 ≤ p at hp
    exact Function.update_of_ne (by omega) _ _
  · by_cases hpa : p = a * 4096 + 12
    · rw [hpa, Function.update_self, Option.some.injEq] at hp
      subst hp
      exact ⟨h0, .inr ⟨a, n, Function.update_self .., hpa, hsize⟩⟩
    · rw [Function.update_of_ne hpa, h.live_none hnew h1 h2] at hp
      cases hp

theorem Counted.addSmall (hc : Counted m arenas live) {m' : Space}
    (hfree : ∀ i < classSum k, live (blockAt a k i) = none)
    (hold : ∀ {b y}, b ≠ a → arenas b = some y → m'.cnt (b * 4096) = m.cnt (b * 4096))
    (hcnt : m'.cnt (a * 4096) = classSum k) : Counted m' (Function.update arenas a (some (.small k))) live := by
  intro b k' hb
  by_cases hba : b = a
  · rw [hba, Function.update_self, Option.some.injEq, Arena.small.injEq] at hb
    subst hba hb
    rcases card_freeBlocks live b k with ⟨hcard, -⟩ | ⟨-, i, hi, hne⟩
    · rw [hcnt, hcard]
    · exact absurd (hfree i hi) hne
  · rw [Function.update_of_ne hba] at hb
    rw [hold hba hb]
    exact hc hb

theorem Busy.update (hb : Busy arenas live) (p size : Nat) : Busy arenas (Function.update live p (some size)) := by
  intro a x ha
  obtain ⟨q, hq, hqa⟩ := hb ha
  refine ⟨q, ?_, hqa⟩
  by_cases hqp : q = p
  · rw [hqp, Function.update_self]
    exact Option.some_ne_none size
  · rwa [Function.update_of_ne hqp]

theorem Busy.add (hb : Busy arenas live) {a p size : Nat} (x : Arena) (hp : p / 4096 = a) :
    Busy (Function.update arenas a (some x)) (Function.update live p (some size)) := by
  intro b y hy
  by_cases hba : b = a
  · refine ⟨p, ?_, by rw [hp, hba]⟩
    rw [Function.update_self]
    exact Option.some_ne_none size
  · rw [Function.update_of_ne hba] at hy
    exact Busy.update hb p size hy

theorem HeapRep.arenaIdx {m : Space} (h : HeapRep m D arenas live seq) {size : Nat} (hsize : size ≤ 1024) :
    ∃ k : Fin 7, ElephantOS.arenaIdx m D size arenaSum 0 = k ∧ size ≤ classSize k := by
  have hfind : ∀ n idx, 1 ≤ n → n + idx = 7 →
      ∃ k : Fin 7, ElephantOS.arenaIdx m D size n idx = k ∧ size ≤ classSize k := by
    intro n
    induction n with
    | zero => intro idx hn
              omega
    | succ n ih =>
      intro idx _ hidx
      rw [ElephantOS.arenaIdx, (h.desc ⟨idx, by omega⟩).1]
      by_cases hle : size ≤ classSize idx
      · rw [if_pos hle]
        exact ⟨⟨idx, by omega⟩, rfl, hle⟩
      · rw [if_neg hle]
        by_cases hn : n = 0
        · -- the last class has room for every small request
          have h6 : idx = 6 := by omega
          rw [h6] at hle
          exact absurd hsize hle
        · exact ih (idx + 1) (by omega) (by omega)
  exact hfind arenaSum 0 (by decide) rfl

/-- Nothing is live in the page of a small arena with no live block. -/
theorem HeapRep.live_small (h : HeapRep m D arenas live seq) (ha : arenas a = some (.small k))
    (hfree : ∀ i < classSum k, live (blockAt a k i) = none) {p : Nat} (hp : p / 4096 = a) : live p = none := by
  by_contra hne
  obtain ⟨size, hs⟩ := Option.ne_none_iff_exists'.1 hne
  obtain ⟨-, ⟨b, k', i, hb, hi, rfl, -⟩ | ⟨b, n, hb, rfl, -⟩⟩ := h.live hs
  · rw [blockAt_div hi] at hp
    subst hp
    rw [ha, Option.some.injEq, Arena.small.injEq] at hb
    subst hb
    exact hne (hfree i hi)
  · have hba : b = a := by omega
    rw [hba, ha] at hb
    cases hb

/-- A small arena with no live block is given up, its blocks taken off the list. -/
theorem HeapRep.dropSmall (h : HeapRep m D arenas (liveUpTo a k (classSum k) live) seq)
    (ha : arenas a = some (.small k)) (hnone : ∀ p, p / 4096 = a → live p = none) :
    HeapRep m D (Function.update arenas a none) live seq := by
  refine h.drop ha (fun {k'} he i hi => ?_) (fun p hp => ?_) fun p h1 h2 => ?_
  · cases he
    rw [liveUpTo, if_pos ⟨i, hi, rfl⟩]
    exact Option.some_ne_none 1
  · change p < a * 4096 ∨ (a + 1) * 4096 ≤ p at hp
    rw [liveUpTo, if_neg]
    rintro ⟨i, hi, rfl⟩
    have := blockAt_div (a := a) hi
    omega
  · change p < (a + 1) * 4096 at h2
    exact hnone p (by omega)

theorem HeapRep.dropLarge (h : HeapRep m D arenas live seq) {n : Nat} (ha : arenas a = some (.large n)) :
    HeapRep m D (Function.update arenas a none) (Function.update live (a * 4096 + 12) none) seq := by
  refine h.drop ha (fun {k'} he => by cases he) (fun p hp => ?_) fun p h1 h2 => ?_
  · change p < a * 4096 ∨ (a + n) * 4096 ≤ p at hp
    have := (h.large ha).2.2.2
    exact Function.update_of_ne (by omega) _ _
  · change p < (a + n) * 4096 at h2
    by_contra hne
    by_cases hpa : p = a * 4096 + 12
    · rw [hpa, Function.update_self] at hne
      exact hne rfl
    · rw [Function.update_of_ne hpa] at hne
      obtain ⟨y, hy⟩ := h.live_arena hne
      have hpage : a = p / 4096 := h.arena_unique ha hy (by have := h.pages_pos hy; omega)
        (by change p / 4096 < a + n; omega)
      obtain ⟨size, hs⟩ := Option.ne_none_iff_exists'.1 hne
      obtain ⟨-, ⟨b, k', i, hb, hi, rfl, -⟩ | ⟨b, n', hb, rfl, -⟩⟩ := h.live hs
      · rw [blockAt_div hi] at hpage
        rw [← hpage, ha] at hb
        cases hb
      · exact hpa (by omega)

theorem Counted.drop (hc : Counted m arenas live) {live' : Nat → Option Nat}
    (hlive : ∀ p, p / 4096 ≠ a → live' p = live p) : Counted m (Function.update arenas a none) live' := by
  intro b k' hb
  have hba : b ≠ a := by
    rintro rfl
    rw [Function.update_self] at hb
    cases hb
  rw [Function.update_of_ne hba] at hb
  rw [freeBlocks_congr fun p hp => hlive p (by omega)]
  exact hc hb

theorem Busy.drop (hb : Busy arenas live) {live' : Nat → Option Nat} (hlive : ∀ p, p / 4096 ≠ a → live' p = live p) :
    Busy (Function.update arenas a none) live' := by
  intro b y hy
  have hba : b ≠ a := by
    rintro rfl
    rw [Function.update_self] at hy
    cases hy
  rw [Function.update_of_ne hba] at hy
  obtain ⟨p, hp, hpb⟩ := hb hy
  exact ⟨p, by rwa [hlive p (by omega)], hpb⟩

theorem Busy.erase (hb : Busy arenas live) {p q : Nat} (hq : Function.update live p none q ≠ none)
    (hpq : q / 4096 = p / 4096) : Busy arenas (Function.update live p none) := by
  intro b y hy
  by_cases hbp : b = p / 4096
  · exact ⟨q, hq, by omega⟩
  · obtain ⟨r, hr, hrb⟩ := hb hy
    exact ⟨r, by rwa [Function.update_of_ne (by rintro rfl; omega)], hrb⟩

theorem HeapRep.live_zero (h : HeapRep m D arenas live seq) : live 0 = none := by
  by_contra hne
  obtain ⟨y, hy⟩ := h.live_arena hne
  have := (h.place hy).1
  omega

/-- The header of a live result's arena says one of two things. -/
theorem HeapRep.largeRequest (h : HeapRep m D arenas live seq) {p : Nat} (hlive : live p ≠ none) :
    m.largeRequest (block2arena p) = 1 ∨ m.largeRequest (block2arena p) = 0 := by
  obtain ⟨y, hy⟩ := h.live_arena hlive
  unfold block2arena
  cases y with
  | small k => exact .inr (h.small hy).2
  | large n => exact .inl (h.large hy).2.1

theorem HeapRep.of_words (h : HeapRep m D arenas live seq) {m' : Space}
    (hw : ∀ w, HeapWord D arenas w → m'.read w = m.read w) : HeapRep m' D arenas live seq := by
  refine h.congr (fun w h1 h2 => hw w (.inl ⟨h1, h2⟩)) (fun {b y} hb o ho => hw _ (.inr ⟨b, y, hb, by omega, ?_⟩))
    fun {k x} hx => ?_
  · have := h.pages_pos hb
    omega
  · obtain ⟨h1, h2⟩ := h.node_heapWord (KList.mem_nodes.2 (.inr (.inl hx)))
    exact ⟨hw _ h1, hw _ h2⟩

theorem Counted.of_words (hc : Counted m arenas live) {m' : Space}
    (hw : ∀ w, HeapWord D arenas w → m'.read w = m.read w) : Counted m' arenas live := by
  intro a k ha
  rw [← hc ha]
  exact hw _ (.inr ⟨a, _, ha, by omega, by change _ < (a + 1) * 4096; omega⟩)

/-- Words inside a live region are the client's. -/
theorem HeapRep.write_live (h : HeapRep m D arenas live seq) {p size : Nat} (hlive : live p = some size) {m' : Space}
    (hread : ∀ w, w < p ∨ p + (size + 3) / 4 * 4 ≤ w → m'.read w = m.read w) :
    HeapRep m' D arenas live seq ∧ SameHeaders D arenas m m' := by
  obtain ⟨h0, ⟨a, k, i, ha, hi, rfl, hs⟩ | ⟨a, n, ha, rfl, hs⟩⟩ := h.live hlive
  · obtain ⟨-, -, h4, -⟩ := class_facts k
    refine h.write_block ha hi (by rw [hlive]; exact Option.some_ne_none size) fun w hw => hread w ?_
    omega
  · have hround : 12 + (size + 3) / 4 * 4 ≤ n * 4096 := by omega
    generalize (size + 3) / 4 * 4 = r at hread hround
    have hout : ∀ w, w < a * 4096 + 12 ∨ (a + n) * 4096 ≤ w → m'.read w = m.read w := fun w hw => by
      refine hread w ?_
      rcases hw with hw | hw
      · exact .inl hw
      · refine .inr (le_trans ?_ hw)
        rw [Nat.add_mul, Nat.add_assoc]
        exact Nat.add_le_add_left hround _
    have hhead : ∀ {b y}, arenas b = some y → ∀ o < 12, m'.read (b * 4096 + o) = m.read (b * 4096 + o) :=
      fun {b y} hb o ho => by
        refine hout _ ?_
        have hpos := h.pages_pos hb
        by_cases hba : b = a
        · omega
        · have hsep := h.apart hb ha hba
          change _ ∨ a + n ≤ b at hsep
          omega
    refine ⟨h.congr (fun w h1 h2 => ?_) hhead fun {k x} hx => ?_, hhead, fun {w} hw => hout w ?_⟩
    · obtain ⟨-, -, hplace⟩ := h.place ha
      change _ ∨ (a + n) * 4096 ≤ D at hplace
      exact hout w (by omega)
    · obtain ⟨b, i, hb, hi, rfl, -⟩ := h.free.1 hx
      have hba : b ≠ a := by
        rintro rfl
        rw [ha] at hb
        cases hb
      have hsep := h.apart hb ha hba
      change b + 1 ≤ a ∨ a + n ≤ b at hsep
      have hend := block_end hi
      obtain ⟨h16, -⟩ := class_facts k
      unfold blockAt
      generalize i * classSize k = q at *
      exact ⟨hout _ (by omega), hout _ (by omega)⟩
    · by_contra hcon
      exact hw (.inr ⟨a, _, ha, by omega, by change w < (a + n) * 4096; omega⟩)

def DescInit (m : Space) (D k : Nat) : Prop :=
  m.blockSize (descAt D k) = classSize k ∧ m.memoryBlocksSum (descAt D k) = classSum k ∧
    IsSeq m (freeList (descAt D k)).head (freeList (descAt D k)).tail []

theorem arenaInitDesc_read (m : Space) (desc bs : Nat) {w : Nat} (hw : w < desc ∨ desc + 24 ≤ w) :
    (arenaInitDesc m desc bs).read w = m.read w := by
  unfold arenaInitDesc listInit freeList
  simp only [LinkMem.setPrev, LinkMem.setNext]
  repeat rw [Space.read_write_ne _ _ (by omega)]

theorem arenaInitDesc_init (m : Space) (k : Nat) :
    DescInit (arenaInitDesc m (descAt D k) (classSize k)) D k := by
  have happart : Apart Space (descAt D k + 8) (descAt D k + 16) :=
    show descAt D k + 8 ≠ descAt D k + 16 ∧ descAt D k + 8 + 4 ≠ descAt D k + 16 ∧
      descAt D k + 16 + 4 ≠ descAt D k + 8 by omega
  have hnull : descAt D k + 8 ≠ null Space ∧ descAt D k + 16 ≠ null Space :=
    show descAt D k + 8 ≠ 0 ∧ descAt D k + 16 ≠ 0 by omega
  refine ⟨?_, ?_, (listInit_isSeq _ (freeList (descAt D k)) happart hnull.1 hnull.2).1⟩
  · unfold arenaInitDesc listInit freeList Space.blockSize
    simp only [LinkMem.setPrev, LinkMem.setNext]
    repeat rw [Space.read_write_ne _ _ (by omega)]
    exact Space.read_write_self ..
  · unfold arenaInitDesc listInit freeList Space.memoryBlocksSum
    simp only [LinkMem.setPrev, LinkMem.setNext]
    repeat rw [Space.read_write_ne _ _ (by omega)]
    exact Space.read_write_self ..

theorem DescInit.congr {m' : Space} {k : Nat} (h : DescInit m D k)
    (hw : ∀ o < 24, m'.read (descAt D k + o) = m.read (descAt D k + o)) : DescInit m' D k := by
  obtain ⟨h1, h2, h3⟩ := h
  have h0 := hw 0 (by decide)
  rw [Nat.add_zero] at h0
  refine ⟨h0.trans h1, (hw 4 (by decide)).trans h2, h3.congr fun x hx => ?_⟩
  rw [Space.agree_iff]
  simp only [freeList, List.cons_append, List.nil_append, List.mem_cons, List.not_mem_nil, or_false] at hx
  rcases hx with rfl | rfl
  · exact ⟨hw 8 (by decide), hw 12 (by decide)⟩
  · exact ⟨hw 16 (by decide), hw 20 (by decide)⟩

/-- The loop of `ArenaInit`, with the descriptors before `idx` done. -/
theorem arenaInitFrom_init (n idx : Nat) (m : Space) (h : ∀ k < idx, DescInit m D k) :
    ∀ k < idx + n, DescInit (arenaInitFrom D n idx (classSize idx) m) D k := by
  induction n generalizing idx m with
  | zero => exact h
  | succ n ih =>
    have hnext : classSize idx * 2 = classSize (idx + 1) := by
      unfold classSize
      rw [pow_succ]
      omega
    intro k hk
    rw [arenaInitFrom, hnext]
    refine ih (idx + 1) _ (fun j hj => ?_) k (by omega)
    by_cases hji : j = idx
    · rw [hji]
      exact arenaInitDesc_init m idx
    · refine (h j (by omega)).congr fun o ho => arenaInitDesc_read m _ _ ?_
      unfold descAt
      omega

theorem arenaInit_rep (m : Space) (D : Nat) :
    HeapRep (arenaInit m D) D (fun _ => none) (fun _ => none) fun _ => [] := by
  have hinit : ∀ k : Fin 7, DescInit (arenaInit m D) D k := fun k =>
    arenaInitFrom_init 7 0 m (fun k hk => absurd hk (Nat.not_lt_zero k)) k (by omega)
  refine ⟨fun k => ⟨(hinit k).1, (hinit k).2.1⟩, ⟨fun k => (hinit k).2.2, fun i j hij x hx y hy => ?_⟩,
    fun {k x} => ⟨fun hx => absurd hx List.not_mem_nil, fun ⟨_, _, ha, _⟩ => nomatch ha⟩, fun ha => (nomatch ha),
    fun ha => (nomatch ha), fun ha => (nomatch ha), fun ha => (nomatch ha), fun ha => (nomatch ha)⟩
  have hne : (i : Nat) ≠ j := fun he => hij (Fin.ext he)
  have hx' : x = D + 24 * i + 8 ∨ x = D + 24 * i + 16 := by
    rcases KList.mem_nodes.1 hx with hx | hx | hx
    · exact .inl hx
    · cases hx
    · exact .inr hx
  have hy' : y = D + 24 * j + 8 ∨ y = D + 24 * j + 16 := by
    rcases KList.mem_nodes.1 hy with hy | hy | hy
    · exact .inl hy
    · cases hy
    · exact .inr hy
  change x ≠ y ∧ x + 4 ≠ y ∧ y + 4 ≠ x
  omega

theorem HeapRep.arena2block (h : HeapRep m D arenas live seq) (ha : arenas a = some (.small k)) (i : Nat) :
    ElephantOS.arena2block m (a * 4096) i = blockAt a k i := by
  rw [ElephantOS.arena2block, (h.small ha).1, (h.desc k).1]
  rfl

namespace Kernel
variable {s : Kernel}

theorem assertFind_ok (h : HeapRep m D arenas live seq) (k : Fin 7) {p : Nat} {expected : Bool}
    (hp : decide (p ∈ seq k) = expected) : (s.setSpace m).assertFind (descAt D k) p expected = .ok () := by
  unfold assertFind
  split
  · rfl
  · rw [space_setSpace, h.elemFind, hp, if_pos rfl]

theorem addBlock_ok (h : HeapRep m D arenas live seq) (ha : arenas a = some (.small k)) {i : Nat}
    (hi : i < classSum k) (hl : live (blockAt a k i) ≠ none) :
    ∃ m' seq', (s.setSpace m).addBlock (a * 4096) i = .ok (s.setSpace m') ∧
      HeapRep m' D arenas (Function.update live (blockAt a k i) none) seq' ∧ SameHeaders D arenas m m' := by
  obtain ⟨m', hok, hrep, hsame⟩ := h.append ha hi hl
  have hnot : decide (blockAt a k i ∈ seq k) = false := by
    rw [decide_eq_false_iff_not]
    intro hmem
    obtain ⟨_, _, _, _, _, hfree⟩ := h.free.1 hmem
    exact hl hfree
  refine ⟨m', _, ?_, hrep, hsame⟩
  rw [addBlock, space_setSpace, h.arena2block ha, (h.small ha).1]
  rw [assertFind_ok h k hnot, Except.ok_bind, appendFree, space_setSpace, hok]
  dsimp only
  rw [setSpace_setSpace]

/-- A loop over the blocks of an arena: before pass `j` the live blocks are `L j`. -/
theorem forBlocks_ok {f : Nat → Kernel → Except Panic Kernel} {L : Nat → Nat → Option Nat}
    (h : HeapRep m D arenas (L 0) seq)
    (hstep : ∀ j < classSum k, ∀ m1 seq1, HeapRep m1 D arenas (L j) seq1 → ∃ m2 seq2,
      f j (s.setSpace m1) = .ok (s.setSpace m2) ∧ HeapRep m2 D arenas (L (j + 1)) seq2 ∧ SameHeaders D arenas m1 m2) :
    ∃ m' seq', Except.forRange f (classSum k) 0 (s.setSpace m) = .ok (s.setSpace m') ∧
      HeapRep m' D arenas (L (classSum k)) seq' ∧ SameHeaders D arenas m m' := by
  let P : Nat → Kernel → Prop := fun j t => ∃ m' seq', t = s.setSpace m' ∧
    HeapRep m' D arenas (L j) seq' ∧ SameHeaders D arenas m m'
  obtain ⟨t, hok, m', seq', rfl, hrep, hsame⟩ := Except.forRange_ok (n := classSum k) (i := 0) (f := f) P
    ⟨m, seq, rfl, h, .refl D arenas m⟩ (by
      rintro j t - hj ⟨m1, seq1, rfl, hrep, hsame⟩
      rw [Nat.zero_add] at hj
      obtain ⟨m2, seq2, hok, hrep2, hsame2⟩ := hstep j hj m1 seq1 hrep
      exact ⟨_, hok, m2, seq2, rfl, hrep2, hsame.trans hsame2⟩)
  rw [Nat.zero_add] at hrep
  exact ⟨m', seq', hok, hrep, hsame⟩

theorem addBlocks_ok (h : HeapRep m D arenas (liveFrom a k 0 live) seq) (ha : arenas a = some (.small k))
    (hfree : ∀ i < classSum k, live (blockAt a k i) = none) :
    ∃ m' seq', Except.forRange (fun i s => addBlock s (a * 4096) i) (classSum k) 0 (s.setSpace m) =
        .ok (s.setSpace m') ∧ HeapRep m' D arenas live seq' ∧ SameHeaders D arenas m m' := by
  obtain ⟨m', seq', hok, hrep, hsame⟩ := forBlocks_ok (s := s) (k := k) (f := fun i s => addBlock s (a * 4096) i)
    (L := fun j => liveFrom a k j live) h (by
      intro j hj m1 seq1 hrep
      obtain ⟨m2, seq2, hok, hrep2, hsame2⟩ := addBlock_ok (s := s) hrep ha hj (liveFrom_block hj)
      rw [liveFrom_succ hj hfree] at hrep2
      exact ⟨m2, seq2, hok, hrep2, hsame2⟩)
  rw [liveFrom_end] at hrep
  exact ⟨m', seq', hok, hrep, hsame⟩

theorem dropBlock_ok (h : HeapRep m D arenas live seq) (ha : arenas a = some (.small k)) {i : Nat}
    (hi : i < classSum k) (hl : live (blockAt a k i) = none) :
    ∃ m' seq', (s.setSpace m).dropBlock (a * 4096) i = .ok (s.setSpace m') ∧
      HeapRep m' D arenas (Function.update live (blockAt a k i) (some 1)) seq' ∧ SameHeaders D arenas m m' := by
  have hmem : blockAt a k i ∈ seq k := h.free.2 ⟨a, i, ha, hi, rfl, hl⟩
  obtain ⟨h16, -⟩ := class_facts k
  obtain ⟨hrep, hsame⟩ := h.remove hmem Nat.one_pos (by omega)
  refine ⟨_, _, ?_, hrep, hsame⟩
  rw [dropBlock, space_setSpace, h.arena2block ha, (h.small ha).1]
  rw [assertFind_ok h k (decide_eq_true hmem), Except.ok_bind, setSpace_setSpace]
  rfl

/-- The loop of `sys_free` over the blocks of an arena that is given up. -/
theorem dropBlocks_ok (h : HeapRep m D arenas live seq) (ha : arenas a = some (.small k))
    (hfree : ∀ i < classSum k, live (blockAt a k i) = none) :
    ∃ m' seq', Except.forRange (fun i s => dropBlock s (a * 4096) i) (classSum k) 0 (s.setSpace m) =
        .ok (s.setSpace m') ∧ HeapRep m' D arenas (liveUpTo a k (classSum k) live) seq' ∧ SameHeaders D arenas m m' := by
  refine forBlocks_ok (L := fun j => liveUpTo a k j live) (by rw [liveUpTo_zero]; exact h) ?_
  intro j hj m1 seq1 hrep
  obtain ⟨m2, seq2, hok, hrep2, hsame2⟩ := dropBlock_ok (s := s) hrep ha hj (liveUpTo_block hfree hj)
  rw [liveUpTo_succ] at hrep2
  exact ⟨m2, seq2, hok, hrep2, hsame2⟩

end Kernel

/-! ## Live regions -/

/-- The bytes a result can use: its block, or the pages of its arena behind the header. -/
theorem HeapRep.extent (h : HeapRep m D arenas live seq) {p size : Nat} (hp : live p = some size) :
    ∃ a y e, arenas a = some y ∧ a * 4096 + 12 ≤ p ∧ p + size ≤ e ∧ e ≤ (a + y.pages) * 4096 ∧ 0 < size ∧ p % 4 = 0 ∧
      ((∃ k i, y = .small k ∧ i < classSum k ∧ p = blockAt a k i ∧ e = p + classSize k) ∨ ∃ n, y = .large n ∧ p = a * 4096 + 12) := by
  obtain ⟨h0, ⟨a, k, i, ha, hi, hpe, hs⟩ | ⟨a, n, ha, hpe, hs⟩⟩ := h.live hp
  · have hend := block_end hi
    have hmod := blockAt_mod a k i
    refine ⟨a, .small k, p + classSize k, ha, ?_, by omega, ?_, h0, by rw [hpe]; exact hmod, .inl ⟨k, i, rfl, hi, hpe, rfl⟩⟩
    · rw [hpe]
      unfold blockAt
      omega
    · change p + classSize k ≤ (a + 1) * 4096
      rw [hpe]
      unfold blockAt
      generalize i * classSize k = q at *
      omega
  · refine ⟨a, .large n, (a + n) * 4096, ha, by omega, by omega, Nat.le_refl _, h0, by omega, .inr ⟨n, rfl, hpe⟩⟩

theorem HeapRep.live_sep (h : HeapRep m D arenas live seq) {p q n r : Nat} (hp : live p = some n) (hq : live q = some r)
    (hne : p ≠ q) : p + n ≤ q ∨ q + r ≤ p := by
  obtain ⟨a, y, e, ha, h1, h2, h3, -, -, hy⟩ := h.extent hp
  obtain ⟨b, z, f, hb, h4, h5, h6, -, -, hz⟩ := h.extent hq
  by_cases hab : a = b
  · subst hab
    have hyz : y = z := by
      rw [ha, Option.some.injEq] at hb
      exact hb
    subst hyz
    rcases hy with ⟨k, i, rfl, hi, hpe, he⟩ | ⟨n', rfl, hpe⟩
    · rcases hz with ⟨k', j, hk', hj, hqe, hf⟩ | ⟨n', hn, -⟩
      · cases hk'
        have := h.block_sep ha ha hi hj (by rw [← hpe, ← hqe]; exact hne)
        rw [← hpe, ← hqe] at this
        omega
      · cases hn
    · rcases hz with ⟨k', j, hk', -⟩ | ⟨n'', hn, hqe⟩
      · cases hk'
      · omega
  · have := h.apart ha hb hab
    omega

theorem HeapRep.live_page (h : HeapRep m D arenas live seq) {p n a : Nat} (hp : live p = some n) (h1 : p ≤ a)
    (h2 : a < p + n) : ∃ b y, arenas b = some y ∧ b ≤ a / 4096 ∧ a / 4096 < b + y.pages := by
  obtain ⟨b, y, e, hb, h3, h4, h5, -⟩ := h.extent hp
  exact ⟨b, y, hb, by omega, by omega⟩

theorem HeapRep.live_header (h : HeapRep m D arenas live seq) {p n b : Nat} {y : Arena} (hp : live p = some n)
    (hb : arenas b = some y) : p + n ≤ b * 4096 ∨ b * 4096 + 12 ≤ p := by
  obtain ⟨a, x, e, ha, h1, h2, h3, -⟩ := h.extent hp
  have hpos := h.pages_pos hb
  by_cases hab : a = b
  · omega
  · have := h.apart ha hb hab
    omega

theorem HeapRep.live_node (h : HeapRep m D arenas live seq) {p n x : Nat} {k : Fin 7} (hp : live p = some n)
    (hx : x ∈ seq k) : p + n ≤ x ∨ x + 8 ≤ p := by
  obtain ⟨b, j, hb, hj, rfl, hfree⟩ := h.free.1 hx
  obtain ⟨a, y, e, ha, h1, h2, h3, h0, -, hy⟩ := h.extent hp
  obtain ⟨h16, -⟩ := class_facts k
  have hend := block_end hj
  by_cases hab : a = b
  · subst hab
    rw [ha, Option.some.injEq] at hb
    subst hb
    rcases hy with ⟨k', i, hk', hi, hpe, he⟩ | ⟨n', hn, -⟩
    · cases hk'
      have hne : p ≠ blockAt a k j := by
        rintro rfl
        rw [hp] at hfree
        cases hfree
      have := h.block_sep ha ha hi hj (by rw [← hpe]; exact hne)
      rw [← hpe] at this
      omega
    · cases hn
  · have hsep := h.apart ha hb hab
    change _ ∨ b + 1 ≤ a at hsep
    unfold blockAt
    generalize j * classSize k = q at *
    omega

end Loops

end ElephantOS
