import ElephantOS.Memory.PageInv

/-!
# Page walks and the functions that know about them

* `pteOf` : the page-table entry a walk ends at;
* `getPTEPointerC`, `getPDEPointerC` : the two functions as the source computes them, with masks and shifts of 32-bit
  words; `toNat_getPTEPointerC`, `toNat_getPDEPointerC` : they are `getPTEPointer` and `getPDEPointer`;
* `translation_agrees` : the entries and addresses they lead to are those of the hardware walk;
* `pageMapping_present`, `pageMapping_absent` : the words that `PageMapping` writes;
* `pageMapping_one_translation` : it changes one translation.
-/

namespace ElephantOS
open Kernel

/-! ## Masks and shifts -/

def pteIdxC (addr : BitVec 32) : BitVec 32 := (addr &&& 0x003FF000) >>> 12

def pdeIdxC (addr : BitVec 32) : BitVec 32 := (addr &&& 0xFFC00000) >>> 22

def getPTEPointerC (vaddr : BitVec 32) : BitVec 32 :=
  (0xFFC00000 : BitVec 32) + ((vaddr &&& 0xFFC00000) >>> 10) + pteIdxC vaddr * 4

def getPDEPointerC (vaddr : BitVec 32) : BitVec 32 := 0xFFFFF000 + pdeIdxC vaddr * 4

theorem toNat_pteIdxC (v : BitVec 32) : (pteIdxC v).toNat = pteIdx v.toNat := by
  unfold pteIdxC pteIdx
  rw [BitVec.ushiftRight_and_distrib, BitVec.toNat_and, BitVec.toNat_ushiftRight, Nat.shiftRight_eq_div_pow,
    show ((0x003FF000 : BitVec 32) >>> 12).toNat = 2 ^ 10 - 1 from rfl, Nat.and_two_pow_sub_one_eq_mod]

theorem toNat_pdeIdxC (v : BitVec 32) : (pdeIdxC v).toNat = pdeIdx v.toNat := by
  unfold pdeIdxC pdeIdx
  rw [BitVec.ushiftRight_and_distrib, BitVec.toNat_and, BitVec.toNat_ushiftRight, Nat.shiftRight_eq_div_pow,
    show ((0xFFC00000 : BitVec 32) >>> 22).toNat = 2 ^ 10 - 1 from rfl, Nat.and_two_pow_sub_one_eq_mod]

/-- `(vaddr & 0xFFC00000) >> 10` is the directory index times the size of a page. -/
theorem mask_shift (v : BitVec 32) : (v &&& 0xFFC00000) >>> 10 = pdeIdxC v * 4096 := by
  unfold pdeIdxC
  apply BitVec.eq_of_getLsbD_eq
  intro i hi
  rw [show ((v &&& 0xFFC00000) >>> 22) * (4096 : BitVec 32) = ((v &&& 0xFFC00000) >>> 22) <<< 12 by
    rw [BitVec.shiftLeft_eq_mul_twoPow]; rfl]
  simp only [BitVec.getLsbD_ushiftRight, BitVec.getLsbD_shiftLeft, BitVec.getLsbD_and]
  by_cases h : i < 12
  · have hmask : ∀ j < 12, (0xFFC00000#32).getLsbD (10 + j) = false := by decide
    simp [h, hmask i h]
  · rw [show 22 + (i - 12) = 10 + i by omega]
    simp [hi, h]

theorem toNat_getPTEPointerC (v : BitVec 32) : (getPTEPointerC v).toNat = getPTEPointer v.toNat := by
  have h1 := toNat_pteIdxC v
  have h2 := toNat_pdeIdxC v
  have hlt1 := pteIdx_lt v.toNat
  have hlt2 := pdeIdx_lt v.toNat
  have hv := v.isLt
  unfold getPTEPointerC getPTEPointer
  rw [mask_shift]
  have hdir : v.toNat / 2 ^ 22 = pdeIdx v.toNat := by
    unfold pdeIdx
    omega
  rw [hdir]
  simp only [BitVec.toNat_add, BitVec.toNat_mul, h1, h2, BitVec.ofNat_eq_ofNat, BitVec.toNat_ofNat]
  omega

theorem toNat_getPDEPointerC (v : BitVec 32) : (getPDEPointerC v).toNat = getPDEPointer v.toNat := by
  have h2 := toNat_pdeIdxC v
  have hlt2 := pdeIdx_lt v.toNat
  unfold getPDEPointerC getPDEPointer
  simp only [BitVec.toNat_add, BitVec.toNat_mul, h2, BitVec.ofNat_eq_ofNat, BitVec.toNat_ofNat]
  omega

/-! ## Translations -/

/-- The page-table entry the walk of `v` ends at. -/
def pteOf (ram : Ram) (d v : Nat) : Option Nat :=
  if present (ram d (pdeIdx v)) then
    if present (ram (frameOf (ram d (pdeIdx v))) (pteIdx v)) then some (ram (frameOf (ram d (pdeIdx v))) (pteIdx v))
    else none
  else none

section Walks
variable {ram ram' : Ram} {d v : Nat}

theorem walk_eq (ram : Ram) (d v : Nat) : walk ram d v = (pteOf ram d v).map fun pte => frameOf pte * 4096 + v % 4096 := by
  unfold walk pteOf
  dsimp only
  split_ifs <;> rfl

theorem pteOf_congr (hpde : ram' d (pdeIdx v) = ram d (pdeIdx v)) (hpte : present (ram d (pdeIdx v)) = true →
    ram' (frameOf (ram d (pdeIdx v))) (pteIdx v) = ram (frameOf (ram d (pdeIdx v))) (pteIdx v)) :
    pteOf ram' d v = pteOf ram d v := by
  unfold pteOf
  rw [hpde]
  by_cases hp : present (ram d (pdeIdx v)) = true
  · rw [if_pos hp, if_pos hp, hpte hp]
  · rw [if_neg hp, if_neg hp]

theorem pteOf_absent (hp : present (ram d (pdeIdx v)) = false) : pteOf ram d v = none := by
  unfold pteOf
  rw [if_neg (by rw [hp]; decide)]

theorem pteOf_present {e : Nat} (hp : present (ram d (pdeIdx v)) = true)
    (hpte : ram (frameOf (ram d (pdeIdx v))) (pteIdx v) = e) : pteOf ram d v = if present e then some e else none := by
  unfold pteOf
  rw [if_pos hp, hpte]

/-- Two addresses with the same indices are in one page. -/
theorem page_of_idx {v w : Nat} (hv : v < 2 ^ 32) (hw : w < 2 ^ 32) (h1 : pdeIdx w = pdeIdx v) (h2 : pteIdx w = pteIdx v) :
    w / 4096 = v / 4096 := by
  unfold pdeIdx at h1
  unfold pteIdx at h2
  omega

end Walks

/-- In every memory whose directory names itself in entry 1023, and for every address with a page table: the pointers
reach the entries of the address, and the software translation is that of the hardware. -/
theorem translation_agrees (s : Kernel) (hself : SelfMapped s.ram s.cr3) (v : BitVec 32)
    (hpde : present (s.ram s.cr3 (pdeIdx v.toNat)) = true) :
    walk s.ram s.cr3 (getPDEPointerC v).toNat = some (s.cr3 * 4096 + pdeIdx v.toNat * 4) ∧
    walk s.ram s.cr3 (getPTEPointerC v).toNat =
      some (frameOf (s.ram s.cr3 (pdeIdx v.toNat)) * 4096 + pteIdx v.toNat * 4) ∧
    ∀ pa, walk s.ram s.cr3 v.toNat = some pa → s.virtualAddrToPhysicAddr v.toNat = .ok pa := by
  refine ⟨?_, ?_, ?_⟩
  · rw [toNat_getPDEPointerC]
    exact walk_getPDEPointer hself v.toNat
  · rw [toNat_getPTEPointerC]
    exact walk_getPTEPointer hself v.isLt hpde
  · intro pa hpa
    have hload := load_eq (load_pte hself v.isLt hpde)
    rw [walk_eq, pteOf_present hpde rfl] at hpa
    obtain ⟨pte, hpte, rfl⟩ := Option.map_eq_some_iff.1 hpa
    split_ifs at hpte with hp
    cases hpte
    unfold virtualAddrToPhysicAddr
    rw [hload]
    rfl

/-- Also in the window: the last page is the directory. -/
theorem translation_agrees_window :
    (boot 0x4000000 (fun _ => 0#8) 0xC0010000).virtualAddrToPhysicAddr 0xFFFFF004 = .ok 0x100004 :=
  (translation_agrees (boot 0x4000000 (fun _ => 0#8) 0xC0010000) ⟨by decide +kernel, by decide +kernel⟩ 0xFFFFF004
    (by decide +kernel)).2.2 _ (by decide +kernel)

/-! ## `PageMapping` -/

theorem frameOf_flags (pa : Nat) : frameOf (pa ||| 1 ||| 4 ||| 2) = pa / 4096 := by
  unfold frameOf
  rw [show 4096 = 2 ^ 12 from rfl, Nat.or_div_two_pow, Nat.or_div_two_pow, Nat.or_div_two_pow]
  simp

theorem present_flags (pa : Nat) : present (pa ||| 1 ||| 4 ||| 2) = true := by
  have h : (pa ||| 1 ||| 4 ||| 2).testBit 0 = true := by simp
  rw [Nat.testBit_zero] at h
  exact h

section Mapping
variable {s s' s₁ : Kernel} {v p pa : Nat}

theorem pageMapping_of_present (hself : SelfMapped s.ram s.cr3) (hv : v < 2 ^ 32)
    (hp : present (s.ram s.cr3 (pdeIdx v)) = true)
    (hpte : present (s.ram (frameOf (s.ram s.cr3 (pdeIdx v))) (pteIdx v)) = false) :
    s.pageMapping v p = .ok { s with
      ram := setWord s.ram (frameOf (s.ram s.cr3 (pdeIdx v))) (pteIdx v) (p ||| 1 ||| 4 ||| 2) } := by
  unfold pageMapping
  rw [load_eq (load_pde hself v), Except.ok_bind, if_pos hp, load_eq (load_pte hself hv hp), Except.ok_bind, hpte]
  show (do s.assert true _; if (!false) = true then s.store _ _ else _) = _
  rw [assert, Bool.true_or, if_pos rfl, Except.ok_bind, if_pos (show (!false) = true from rfl), store,
    store_pte hself hv hp]

theorem selfMapped_setWord (hself : SelfMapped s.ram s.cr3) {i w : Nat} (hi : i ≠ 1023) :
    SelfMapped (setWord s.ram s.cr3 i w) s.cr3 := by
  refine ⟨?_, ?_⟩
  · rw [setWord_word hi.symm]
    exact hself.present
  · rw [setWord_word hi.symm]
    exact hself.frame

theorem selfMapped_clearFrame {ram : Ram} {d f : Nat} (hself : SelfMapped ram d) (hf : d ≠ f) :
    SelfMapped (clearFrame ram f) d := by
  refine ⟨?_, ?_⟩
  · rw [clearFrame_frame hf]
    exact hself.present
  · rw [clearFrame_frame hf]
    exact hself.frame

/-- The memory after a page table in frame `f` has been made for `v`. -/
def newTable (ram : Ram) (d v f pde pte : Nat) : Ram :=
  setWord (clearFrame (setWord ram d (pdeIdx v) pde) f) f (pteIdx v) pte

/-- Without one, a frame of the kernel pool becomes the page table. -/
theorem pageMapping_of_absent (hself : SelfMapped s.ram s.cr3) (hv : v < 0xFFC00000)
    (hp : present (s.ram s.cr3 (pdeIdx v)) = false) (hone : s.getOnePhysicPage .kernelPool = .ok (pa, s₁))
    (hram : s₁.ram = s.ram) (hcr3 : s₁.cr3 = s.cr3) (hf : s.cr3 ≠ pa / 4096) :
    s.pageMapping v p = .ok { s₁ with
      ram := newTable s.ram s.cr3 v (pa / 4096) (pa ||| 1 ||| 4 ||| 2) (p ||| 1 ||| 4 ||| 2) } := by
  have hv' : v < 2 ^ 32 := by omega
  have hidx : pdeIdx v ≠ 1023 := by
    unfold pdeIdx
    omega
  have hself1 : SelfMapped s₁.ram s₁.cr3 := by
    rw [hram, hcr3]
    exact hself
  have hself2 := selfMapped_setWord hself1 (w := pa ||| 1 ||| 4 ||| 2) hidx
  have hdir : setWord s₁.ram s₁.cr3 (pdeIdx v) (pa ||| 1 ||| 4 ||| 2) s₁.cr3 (pdeIdx v) = pa ||| 1 ||| 4 ||| 2 :=
    setWord_same _ _ _ _
  have hp2 : present (setWord s₁.ram s₁.cr3 (pdeIdx v) (pa ||| 1 ||| 4 ||| 2) s₁.cr3 (pdeIdx v)) = true := by
    rw [hdir, present_flags]
  have hf1 : s₁.cr3 ≠ pa / 4096 := hcr3 ▸ hf
  have hclear := clearPage_pte hself2 hv' hp2
  rw [hdir, frameOf_flags] at hclear
  have hself3 := selfMapped_clearFrame hself2 hf1
  have hdir3 : clearFrame (setWord s₁.ram s₁.cr3 (pdeIdx v) (pa ||| 1 ||| 4 ||| 2)) (pa / 4096) s₁.cr3 (pdeIdx v) =
      pa ||| 1 ||| 4 ||| 2 := (clearFrame_frame hf1 _).trans hdir
  have hp3 : present (clearFrame (setWord s₁.ram s₁.cr3 (pdeIdx v) (pa ||| 1 ||| 4 ||| 2)) (pa / 4096) s₁.cr3 (pdeIdx v)) =
      true := by
    rw [hdir3, present_flags]
  have hstore := store_pte hself3 hv' hp3 (p ||| 1 ||| 4 ||| 2)
  rw [hdir3, frameOf_flags] at hstore
  unfold pageMapping
  rw [load_eq (load_pde hself v), Except.ok_bind, if_neg (by rw [hp]; decide), hone, Except.ok_bind]
  dsimp only
  rw [store, store_pde hself1, Except.ok_bind, Kernel.clearPage]
  dsimp only
  rw [hclear, Except.ok_bind, store]
  dsimp only
  rw [hstore, newTable, hram, hcr3]

/-- No mapping and no table uses the frame `f`; the directory is the table of entry 1023. -/
def Unused (ram : Ram) (d f : Nat) : Prop :=
  ∀ i < 1024, present (ram d i) = true → frameOf (ram d i) ≠ f ∧
    ∀ j < 1024, present (ram (frameOf (ram d i)) j) = true → frameOf (ram (frameOf (ram d i)) j) ≠ f

/-- The memory changed by a mapping of `v` to `p`: the entry of `v`, or the directory entry of `v` and a new page
table with its bit in the kernel pool. The data of the pages, the PCBs and all else stay (`rest`). -/
structure OneMapping (s s' : Kernel) (v p : Nat) : Prop where
  rest : s' = { s with low := s'.low, ram := s'.ram }
  entry : pteOf s'.ram s.cr3 v = some (p + 7)
  others : ∀ w < 0xFFC00000, w / 4096 ≠ v / 4096 → pteOf s'.ram s.cr3 w = pteOf s.ram s.cr3 w
  old : present (s.ram s.cr3 (pdeIdx v)) = true → s'.low = s.low ∧
    ∀ g i, ¬ (g = frameOf (s.ram s.cr3 (pdeIdx v)) ∧ i = pteIdx v) → s'.ram g i = s.ram g i
  new : present (s.ram s.cr3 (pdeIdx v)) = false → ∃ pa s₁, s.getOnePhysicPage .kernelPool = .ok (pa, s₁) ∧
    s'.low = s₁.low ∧ (∀ j ≠ pteIdx v, s'.ram (pa / 4096) j = 0) ∧
    ∀ g i, g ≠ pa / 4096 → ¬ (g = s.cr3 ∧ i = pdeIdx v) → s'.ram g i = s.ram g i

theorem OneMapping.cr3 (h : OneMapping s s' v p) : s'.cr3 = s.cr3 := by
  rw [h.rest]

theorem aligned_flags (hp : p % 4096 = 0) : p ||| 1 ||| 4 ||| 2 = p + 7 := by
  have h := or_flags (p / 4096)
  rwa [Nat.div_mul_cancel (Nat.dvd_of_mod_eq_zero hp)] at h

theorem present_aligned (hp : p % 4096 = 0) : present (p + 7) = true := by
  rw [← aligned_flags hp]
  exact present_flags p

theorem oneMapping_of_present (hself : SelfMapped s.ram s.cr3) (hv : v < 0xFFC00000) (hpa : p % 4096 = 0)
    (hp : present (s.ram s.cr3 (pdeIdx v)) = true)
    (htable : ∀ j < 1024, j ≠ pdeIdx v → present (s.ram s.cr3 j) = true →
      frameOf (s.ram s.cr3 j) ≠ frameOf (s.ram s.cr3 (pdeIdx v)))
    (hram : s'.ram = setWord s.ram (frameOf (s.ram s.cr3 (pdeIdx v))) (pteIdx v) (p ||| 1 ||| 4 ||| 2))
    (hrest : s' = { s with low := s'.low, ram := s'.ram }) (hlow : s'.low = s.low) : OneMapping s s' v p := by
  have hdir : s.cr3 ≠ frameOf (s.ram s.cr3 (pdeIdx v)) := by
    have h := htable 1023 (by decide) (by unfold pdeIdx; omega) hself.present
    rwa [hself.frame] at h
  rw [aligned_flags hpa] at hram
  refine ⟨hrest, ?_, ?_, ?_, ?_⟩
  · have hpde : setWord s.ram (frameOf (s.ram s.cr3 (pdeIdx v))) (pteIdx v) (p + 7) s.cr3 (pdeIdx v) =
        s.ram s.cr3 (pdeIdx v) := setWord_frame hdir _
    rw [hram, pteOf_present (e := p + 7) (by rw [hpde]; exact hp) (by rw [hpde, setWord_same]), if_pos (present_aligned hpa)]
  · intro w hw hne
    rw [hram]
    apply pteOf_congr (setWord_frame hdir _)
    intro hpw
    by_cases hidx : pdeIdx w = pdeIdx v
    · rw [hidx]
      apply setWord_word
      exact fun h => hne (page_of_idx (by omega) (by omega) hidx h)
    · exact setWord_frame (htable _ (pdeIdx_lt w) hidx hpw) _
  · intro _
    refine ⟨hlow, ?_⟩
    intro g i hgi
    rw [hram]
    exact if_neg hgi
  · intro habs
    rw [hp] at habs
    cases habs

theorem oneMapping_of_absent (hself : SelfMapped s.ram s.cr3) (hv : v < 0xFFC00000) (hpa : p % 4096 = 0)
    (hp : present (s.ram s.cr3 (pdeIdx v)) = false)
    (hdir : ∀ j < 1023, present (s.ram s.cr3 j) = true → frameOf (s.ram s.cr3 j) ≠ s.cr3)
    (hone : s.getOnePhysicPage .kernelPool = .ok (pa, s₁)) (hunused : Unused s.ram s.cr3 (pa / 4096))
    (hram : s'.ram = newTable s.ram s.cr3 v (pa / 4096) (pa ||| 1 ||| 4 ||| 2) (p ||| 1 ||| 4 ||| 2))
    (hrest : s' = { s with low := s'.low, ram := s'.ram }) (hlow : s'.low = s₁.low) : OneMapping s s' v p := by
  have hf : s.cr3 ≠ pa / 4096 := by
    have h := (hunused 1023 (by decide) hself.present).1
    rwa [hself.frame] at h
  have hframe : ∀ {g}, g ≠ pa / 4096 → ∀ i, newTable s.ram s.cr3 v (pa / 4096) (pa ||| 1 ||| 4 ||| 2) (p + 7) g i =
      setWord s.ram s.cr3 (pdeIdx v) (pa ||| 1 ||| 4 ||| 2) g i := by
    intro g hg i
    rw [newTable, setWord_frame hg, clearFrame_frame hg]
  have hpde : newTable s.ram s.cr3 v (pa / 4096) (pa ||| 1 ||| 4 ||| 2) (p + 7) s.cr3 (pdeIdx v) = pa ||| 1 ||| 4 ||| 2 := by
    rw [hframe hf, setWord_same]
  rw [aligned_flags hpa] at hram
  refine ⟨hrest, ?_, ?_, ?_, ?_⟩
  · have hpte : newTable s.ram s.cr3 v (pa / 4096) (pa ||| 1 ||| 4 ||| 2) (p + 7) (pa / 4096) (pteIdx v) = p + 7 :=
      setWord_same _ _ _ _
    rw [hram, pteOf_present (e := p + 7) (by rw [hpde]; exact present_flags pa) (by rw [hpde, frameOf_flags]; exact hpte),
      if_pos (present_aligned hpa)]
  · intro w hw hne
    rw [hram]
    by_cases hidx : pdeIdx w = pdeIdx v
    · have hpte : newTable s.ram s.cr3 v (pa / 4096) (pa ||| 1 ||| 4 ||| 2) (p + 7) (pa / 4096) (pteIdx w) = 0 := by
        rw [newTable, setWord_word fun h => hne (page_of_idx (by omega) (by omega) hidx h), clearFrame_same]
      have habs : pteOf s.ram s.cr3 w = none := pteOf_absent (by rw [hidx]; exact hp)
      rw [habs, pteOf_present (e := 0)
        (by rw [hidx, hpde]; exact present_flags pa) (by rw [hidx, hpde, frameOf_flags]; exact hpte)]
      rfl
    · apply pteOf_congr
      · rw [hframe hf, setWord_word hidx]
      · intro hpw
        have hlt : pdeIdx w < 1023 := by
          unfold pdeIdx
          omega
        rw [hframe (hunused _ (pdeIdx_lt w) hpw).1, setWord_frame (hdir _ hlt hpw)]
  · intro hpres
    rw [hp] at hpres
    cases hpres
  · intro _
    refine ⟨pa, s₁, hone, hlow, ?_, ?_⟩
    · intro j hj
      rw [hram, newTable, setWord_word hj, clearFrame_same]
    · intro g i hg hgi
      rw [hram, hframe hg]
      exact if_neg hgi

theorem getOnePhysicPage_low (h : s.getOnePhysicPage .kernelPool = .ok (pa, s₁)) : s₁ = { s with low := s₁.low } := by
  obtain ⟨r, -, h⟩ := Except.bind_eq_ok.1 h
  cases r with
  | none =>
    cases h
    rfl
  | some i =>
    cases h
    rfl

end Mapping

/-- If `PageMapping` of a page that is not present completes, it changes one translation, and only the entries that
this needs. The page table is that of no other directory entry; where there is none, the directory is that of entry
1023 only, and the frame that is taken is not in use. -/
theorem pageMapping_one_translation {s s' : Kernel} (hself : SelfMapped s.ram s.cr3) {v p : Nat} (hv : v < 0xFFC00000)
    (hva : v % 4096 = 0) (hpa : p % 4096 = 0) (hnone : walk s.ram s.cr3 v = none)
    (htable : present (s.ram s.cr3 (pdeIdx v)) = true → ∀ j < 1024, j ≠ pdeIdx v → present (s.ram s.cr3 j) = true →
      frameOf (s.ram s.cr3 j) ≠ frameOf (s.ram s.cr3 (pdeIdx v)))
    (hdir : present (s.ram s.cr3 (pdeIdx v)) = false → ∀ j < 1023, present (s.ram s.cr3 j) = true →
      frameOf (s.ram s.cr3 j) ≠ s.cr3)
    (hfresh : present (s.ram s.cr3 (pdeIdx v)) = false → ∀ pa s₁, s.getOnePhysicPage .kernelPool = .ok (pa, s₁) →
      Unused s.ram s.cr3 (pa / 4096))
    (hok : s.pageMapping v p = .ok s') :
    OneMapping s s' v p ∧ ∀ o < 4096, walk s'.ram s'.cr3 (v + o) = some (p + o) := by
  have hone : OneMapping s s' v p := by
    cases hp : present (s.ram s.cr3 (pdeIdx v)) with
    | true =>
      have hpte : present (s.ram (frameOf (s.ram s.cr3 (pdeIdx v))) (pteIdx v)) = false := by
        rw [walk_eq, Option.map_eq_none_iff, pteOf_present hp rfl] at hnone
        split_ifs at hnone with h
        exact Bool.eq_false_iff.2 h
      rw [pageMapping_of_present hself (by omega) hp hpte] at hok
      cases hok
      exact oneMapping_of_present hself hv hpa hp (htable hp) rfl rfl rfl
    | false =>
      have hok' := hok
      unfold pageMapping at hok
      rw [load_eq (load_pde hself v), Except.ok_bind, if_neg (by rw [hp]; decide)] at hok
      obtain ⟨⟨pa, s₁⟩, hpage, -⟩ := Except.bind_eq_ok.1 hok
      have hlow := getOnePhysicPage_low hpage
      have hram : s₁.ram = s.ram := by
        rw [hlow]
      have hcr3 : s₁.cr3 = s.cr3 := by
        rw [hlow]
      have hunused := hfresh hp pa s₁ hpage
      have hf : s.cr3 ≠ pa / 4096 := by
        have h := (hunused 1023 (by decide) hself.present).1
        rwa [hself.frame] at h
      rw [pageMapping_of_absent hself hv hp hpage hram hcr3 hf] at hok'
      cases hok'
      refine oneMapping_of_absent hself hv hpa hp (hdir hp) hpage hunused rfl ?_ rfl
      rw [hlow]
  refine ⟨hone, ?_⟩
  intro o ho
  have hidx : pdeIdx (v + o) = pdeIdx v ∧ pteIdx (v + o) = pteIdx v := by
    unfold pdeIdx pteIdx
    omega
  have hentry : pteOf s'.ram s.cr3 (v + o) = some (p + 7) := by
    rw [← hone.entry]
    unfold pteOf
    rw [hidx.1, hidx.2]
  rw [hone.cr3, walk_eq, hentry, Option.map_some, Option.some.injEq]
  unfold frameOf
  omega

theorem boot_mapping : ∃ s', (boot 0x4000000 (fun _ => 0#8) 0xC0010000).pageMapping 0xC0400000 0x300000 = .ok s' := by
  have h : ((boot 0x4000000 (fun _ => 0#8) 0xC0010000).pageMapping 0xC0400000 0x300000).map (fun _ => ()) = .ok () := by
    decide +kernel
  obtain ⟨s', hs', -⟩ := Except.map_eq_ok.1 h
  exact ⟨s', hs'⟩

/-- A page of the kernel heap of a machine with 64MB. -/
theorem pageMapping_one_translation_heap : ∃ s',
    (boot 0x4000000 (fun _ => 0#8) 0xC0010000).pageMapping 0xC0400000 0x300000 = .ok s' ∧
    OneMapping (boot 0x4000000 (fun _ => 0#8) 0xC0010000) s' 0xC0400000 0x300000 := by
  obtain ⟨s', hs'⟩ := boot_mapping
  have hp : present ((boot 0x4000000 (fun _ => 0#8) 0xC0010000).ram (boot 0x4000000 (fun _ => 0#8) 0xC0010000).cr3
      (pdeIdx 0xC0400000)) = true := by
    decide +kernel
  refine ⟨s', hs', (pageMapping_one_translation ⟨by decide +kernel, by decide +kernel⟩ (by decide) (by decide) (by decide)
    (by decide +kernel) (fun _ => by decide +kernel) ?_ ?_ hs').1⟩
  · intro habs
    rw [hp] at habs
    cases habs
  · intro habs
    rw [hp] at habs
    cases habs

/-- A machine of 64MB with the directory in entry 0 as well. -/
def aliased : Kernel := { boot 0x4000000 (fun _ => 0#8) 0xC0010000 with
  ram := fun f i => if f = 0x100 ∧ (i = 0 ∨ i = 1023) then 0x100007 else 0 }

theorem aliased_facts :
    (aliased.getOnePhysicPage .kernelPool).map Prod.fst = .ok 0x200000 ∧
    (aliased.pageMapping 0x400000 0x300000).map (fun s' => walk s'.ram s'.cr3 0x1000) = .ok (some 0x200000) := by
  decide +kernel

theorem aliased_unused : Unused aliased.ram aliased.cr3 0x200 := by
  have hword : ∀ f i, present (aliased.ram f i) = true → aliased.ram f i = 0x100007 := by
    intro f i h
    change present (if f = 0x100 ∧ (i = 0 ∨ i = 1023) then 0x100007 else 0) = true at h
    show (if f = 0x100 ∧ (i = 0 ∨ i = 1023) then 0x100007 else 0) = 0x100007
    split_ifs at h with hc
    · rw [if_pos hc]
    · cases h
  intro i _ hi
  refine ⟨?_, ?_⟩
  · rw [hword _ _ hi]
    decide
  · intro j _ hj
    rw [hword _ _ hj]
    decide

/-- Where entry 0 of the directory names the directory too, a new page table for 0x400000 also becomes the page at
0x1000. -/
theorem not_one_translation : ∃ s', SelfMapped aliased.ram aliased.cr3 ∧ walk aliased.ram aliased.cr3 0x400000 = none ∧
    present (aliased.ram aliased.cr3 (pdeIdx 0x400000)) = false ∧
    (∀ pa s₁, aliased.getOnePhysicPage .kernelPool = .ok (pa, s₁) → pa = 0x200000 ∧
      Unused aliased.ram aliased.cr3 (pa / 4096)) ∧
    aliased.pageMapping 0x400000 0x300000 = .ok s' ∧
    walk aliased.ram aliased.cr3 0x1000 = none ∧ walk s'.ram s'.cr3 0x1000 = some 0x200000 := by
  obtain ⟨hpage, hmap⟩ := aliased_facts
  obtain ⟨s', hs', hwalk⟩ := Except.map_eq_ok.1 hmap
  refine ⟨s', ⟨by decide +kernel, by decide +kernel⟩, by decide +kernel, by decide +kernel, ?_, hs', by decide +kernel, hwalk⟩
  intro pa s₁ h
  rw [h] at hpage
  cases hpage
  exact ⟨rfl, aliased_unused⟩

end ElephantOS
