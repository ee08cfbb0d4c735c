import Mathlib.Algebra.Order.BigOperators.Group.List
import Mathlib.Tactic

/-! Loops that add to an accumulator of a bounded type. An addition that leaves the bounds has
no result (`none`). Where the bound of one summand, times their number, still fits, the loop
computes the sum itself. -/

namespace Workplace.Lib
variable {M α : Type*} [AddCommMonoid M] [PartialOrder M] [IsOrderedAddMonoid M]

theorem sum_map_nonneg_le {f : α → M} {k : M} {l : List α} (hf : ∀ a ∈ l, 0 ≤ f a ∧ f a ≤ k) :
    0 ≤ (l.map f).sum ∧ (l.map f).sum ≤ l.length • k := by
  refine ⟨List.sum_nonneg (List.forall_mem_map.mpr fun a ha => (hf a ha).1), ?_⟩
  have hle := List.sum_le_card_nsmul (l.map f) k (List.forall_mem_map.mpr fun a ha => (hf a ha).2)
  rwa [List.length_map] at hle

/-- The body of the loop has to be right only while there is room for one more summand. -/
theorem foldlM_eq_sum {body : M → α → Option M} {f : α → M} {k hi : M} {l : List α}
    (hf : ∀ a ∈ l, 0 ≤ f a ∧ f a ≤ k)
    (hbody : ∀ a ∈ l, ∀ acc, 0 ≤ acc → acc + k ≤ hi → body acc a = some (acc + f a))
    {acc : M} (hacc : 0 ≤ acc) (hroom : acc + l.length • k ≤ hi) :
    l.foldlM body acc = some (acc + (l.map f).sum) := by
  induction l generalizing acc with
  | nil =>
    rw [List.map_nil, List.sum_nil, add_zero]
    rfl
  | cons a l ih =>
    obtain ⟨⟨hnonneg, hle⟩, hrest⟩ := List.forall_mem_cons.mp hf
    obtain ⟨hfirst, hbody⟩ := List.forall_mem_cons.mp hbody
    have hk : 0 ≤ l.length • k := nsmul_nonneg (hnonneg.trans hle) _
    rw [List.length_cons, succ_nsmul', ← add_assoc] at hroom
    have hfits : acc + k ≤ hi := (le_add_of_nonneg_right hk).trans hroom
    have hnext : acc + f a + l.length • k ≤ hi :=
      (add_le_add_left (add_le_add_right hle acc) _).trans hroom
    rw [List.foldlM_cons, hfirst acc hacc hfits, Option.bind_eq_bind, Option.bind_some,
      ih hrest hbody (add_nonneg hacc hnonneg) hnext, List.map_cons, List.sum_cons, add_assoc]

end Workplace.Lib
