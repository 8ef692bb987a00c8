import Mathlib.Data.List.Basic
import Mathlib.Logic.Function.Basic
import Mathlib.Tactic.Common

/-!
# Page tables and a TLB

The page tables are in some state of a type `σ`, of which only two things matter: the frame the tables name
for a page, and which pages are allocated. The TLB is a partial map from pages to frames.

* `Event` : an entry is written, an entry of the TLB is dropped, a page is accessed (and its translation
  cached, or not);
* `Mmu.used` : an access uses the cached entry when there is one;
* `Mmu.Coherent` : for every allocated page that is the frame the tables name;
* `Clean` : the page whose entry is written has no other frame cached;
* `Fresh` : no page is allocated again after an access to it;
* `coherent_of_fresh` : when every write is for one page, all states of a fresh run that starts with an empty TLB
  are coherent.
-/

namespace Tlb
variable {σ V F : Type} [DecidableEq V]

inductive Event (σ V : Type) where
  /-- the entry of `v` was written, the tables are now `s` -/
  | entry (v : V) (s : σ)
  | invlpg (v : V)
  | access (v : V) (fill : Bool)

structure Mmu (σ V F : Type) where
  tables : σ
  tlb : V → Option F

/-- After a load of CR3. -/
def Mmu.loadCr3 (s : σ) : Mmu σ V F := ⟨s, fun _ => none⟩

section
variable (frame : σ → V → Option F) (Allocated : σ → V → Prop)

namespace Mmu

/-- The frame an access to `v` uses. -/
def used (m : Mmu σ V F) (v : V) : Option F := (m.tlb v).or (frame m.tables v)

def step (m : Mmu σ V F) : Event σ V → Mmu σ V F
  | .entry _ s => { m with tables := s }
  | .invlpg v => { m with tlb := Function.update m.tlb v none }
  | .access v fill => if fill then { m with tlb := Function.update m.tlb v (m.used frame v) } else m

def run (m : Mmu σ V F) (es : List (Event σ V)) : Mmu σ V F := es.foldl (step frame) m

def Coherent (m : Mmu σ V F) : Prop := ∀ v, Allocated m.tables v → m.used frame v = frame m.tables v

end Mmu

/-- The page whose entry is written has no translation to another frame in the TLB. -/
def Clean (m : Mmu σ V F) : Event σ V → Prop
  | .entry v s => Allocated s v → m.tlb v = none ∨ m.tlb v = frame s v
  | _ => True

/-- The allocated pages whose entry is not written stay where they are. -/
def Local (s : σ) : Event σ V → Prop
  | .entry v s' => ∀ w, w ≠ v → Allocated s' w → Allocated s w ∧ frame s' w = frame s w
  | _ => True

end

variable {frame : σ → V → Option F} {Allocated : σ → V → Prop} {m : Mmu σ V F}

omit [DecidableEq V] in
theorem Mmu.used_eq_iff {s : σ} {v : V} :
    (Mmu.mk s m.tlb).used frame v = frame s v ↔ m.tlb v = none ∨ m.tlb v = frame s v := by
  unfold used
  cases h : m.tlb v with
  | none => simp
  | some f => simp

/-- Only the writes can make a coherent TLB incoherent. -/
theorem coherent_step (hm : m.Coherent frame Allocated) {e : Event σ V} (hl : Local frame Allocated m.tables e) :
    (m.step frame e).Coherent frame Allocated ↔ Clean frame Allocated m e := by
  cases e with
  | entry v s =>
    constructor
    · intro h hv
      exact Mmu.used_eq_iff.1 (h v hv)
    · intro h w hw
      apply Mmu.used_eq_iff.2
      by_cases hwv : w = v
      · subst hwv
        exact h hw
      · obtain ⟨hold, hframe⟩ := hl w hwv hw
        rw [hframe]
        exact Mmu.used_eq_iff.1 (hm w hold)
  | invlpg v =>
    refine iff_of_true ?_ trivial
    intro w hw
    show (Function.update m.tlb v none w).or (frame m.tables w) = frame m.tables w
    by_cases hwv : w = v
    · rw [hwv, Function.update_self, Option.none_or]
    · rw [Function.update_of_ne hwv]
      exact hm w hw
  | access v fill =>
    refine iff_of_true ?_ trivial
    cases fill with
    | false => exact hm
    | true =>
      intro w hw
      show (Function.update m.tlb v (m.used frame v) w).or (frame m.tables w) = frame m.tables w
      by_cases hwv : w = v
      · subst hwv
        rw [Function.update_self, hm w hw, Option.or_self]
      · rw [Function.update_of_ne hwv]
        exact hm w hw

/-- Every write of a run is for one page. -/
def Locals (frame : σ → V → Option F) (Allocated : σ → V → Prop) (m : Mmu σ V F) : List (Event σ V) → Prop
  | [] => True
  | e :: es => Local frame Allocated m.tables e ∧ Locals frame Allocated (m.step frame e) es

/-- The pages in `acc` are not allocated anew: no page gets an entry after an access to it. `s` is the state of the
tables. -/
def Fresh (frame : σ → V → Option F) (Allocated : σ → V → Prop) : σ → List V → List (Event σ V) → Prop
  | _, _, [] => True
  | _, acc, .entry v s :: es => (Allocated s v → v ∉ acc) ∧ Fresh frame Allocated s acc es
  | s, acc, .invlpg _ :: es => Fresh frame Allocated s acc es
  -- an access to a page that is not present caches nothing
  | s, acc, .access v _ :: es => Fresh frame Allocated s (if (frame s v).isSome then v :: acc else acc) es

instance Fresh.decidable [∀ s v, Decidable (Allocated s v)] :
    ∀ s (acc : List V) es, Decidable (Fresh frame Allocated s acc es)
  | _, _, [] => .isTrue trivial
  | _, acc, .entry _ s :: es =>
    have := Fresh.decidable s acc es
    inferInstanceAs (Decidable (_ ∧ _))
  | s, acc, .invlpg _ :: es => Fresh.decidable s acc es
  | s, _, .access _ _ :: es => Fresh.decidable s _ es

/-- Only pages that were accessed are cached. -/
def Covers (acc : List V) (m : Mmu σ V F) : Prop := ∀ v, m.tlb v ≠ none → v ∈ acc

theorem Covers.access {acc : List V} (h : Covers acc m) (v : V) (fill : Bool) :
    Covers (if (frame m.tables v).isSome then v :: acc else acc) (m.step frame (.access v fill)) := by
  have hkeep : ∀ w, w ∈ acc → w ∈ if (frame m.tables v).isSome then v :: acc else acc := by
    intro w hw
    split
    · exact List.mem_cons_of_mem v hw
    · exact hw
  intro w hw
  cases fill with
  | false => exact hkeep w (h w hw)
  | true =>
    change Function.update m.tlb v (m.used frame v) w ≠ none at hw
    by_cases hwv : w = v
    · subst hwv
      rw [Function.update_self] at hw
      -- the translation comes from the TLB or from the tables
      cases htlb : m.tlb w with
      | some f => exact hkeep w (h w (by rw [htlb]; exact Option.some_ne_none f))
      | none =>
        unfold Mmu.used at hw
        rw [htlb, Option.none_or] at hw
        rw [if_pos (Option.isSome_iff_ne_none.2 hw)]
        exact List.mem_cons_self
    · rw [Function.update_of_ne hwv] at hw
      exact hkeep w (h w hw)

theorem Covers.invlpg {acc : List V} (h : Covers acc m) (v : V) : Covers acc (m.step frame (.invlpg v)) := by
  intro w hw
  change Function.update m.tlb v none w ≠ none at hw
  by_cases hwv : w = v
  · subst hwv
    rw [Function.update_self] at hw
    exact absurd rfl hw
  · rw [Function.update_of_ne hwv] at hw
    exact h w hw

/-- Induction on the events: a write is clean, as the page it allocates is not cached. -/
theorem coherent_of_fresh {es : List (Event σ V)} {acc : List V} (hm : m.Coherent frame Allocated)
    (hc : Covers acc m) (hl : Locals frame Allocated m es) (hf : Fresh frame Allocated m.tables acc es) :
    ∀ pre, pre <+: es → (m.run frame pre).Coherent frame Allocated := by
  induction es generalizing m acc with
  | nil =>
    intro pre hpre
    rw [List.prefix_nil.1 hpre]
    exact hm
  | cons e es ih =>
    obtain ⟨hle, hls⟩ := hl
    have hstep := coherent_step hm hle
    have hrest : ∀ pre, pre <+: es → ((m.step frame e).run frame pre).Coherent frame Allocated := by
      cases e with
      | entry v s =>
        refine ih (hstep.2 ?_) hc hls hf.2
        intro hv
        by_contra hn
        exact hf.1 hv (hc v fun htlb => hn (.inl htlb))
      | invlpg v => exact ih (hstep.2 trivial) (hc.invlpg v) hls hf
      | access v fill =>
        refine ih (hstep.2 trivial) (hc.access v fill) hls ?_
        cases fill <;> exact hf
    intro pre hpre
    cases pre with
    | nil => exact hm
    | cons e1 pre =>
      obtain ⟨he, htail⟩ := List.cons_prefix_cons.1 hpre
      subst he
      exact hrest pre htail

omit [DecidableEq V] in
theorem covers_loadCr3 (s : σ) : Covers [] (Mmu.loadCr3 s : Mmu σ V F) := fun _ h => absurd rfl h

omit [DecidableEq V] in
theorem coherent_loadCr3 (s : σ) : (Mmu.loadCr3 s : Mmu σ V F).Coherent frame Allocated := fun _ _ => rfl

end Tlb
