import Mathlib.Data.List.Basic
import Mathlib.Tactic

/-! Histories: lists of events, the latest one last, each judged by the ones before it. -/

namespace Workplace.Lib
variable {ε α : Type} {ok : List ε → ε → Prop} {f : ε → Option α} {log es : List ε} {e : ε}

def EachAfter (ok : List ε → ε → Prop) (log : List ε) : Prop :=
  ∀ before e after, log = before ++ e :: after → ok before e

theorem eachAfter_nil : EachAfter ok [] := by
  intro before e after h
  exact absurd h (by simp)

theorem EachAfter.concat (h : EachAfter ok log) (he : ok log e) : EachAfter ok (log ++ [e]) := by
  intro before e' after heq
  rcases List.eq_nil_or_concat after with rfl | ⟨after, e'', rfl⟩
  · obtain ⟨rfl, hlast⟩ := List.append_inj' heq rfl
    exact (List.cons.inj hlast).1 ▸ he
  · rw [List.concat_eq_append, ← List.cons_append, ← List.append_assoc] at heq
    exact h before e' after (List.append_inj' heq rfl).1

/-- The value that the latest event gives of those that give one. -/
def latestOf (f : ε → Option α) (log : List ε) : Option α := (log.filterMap f).getLast?

theorem latestOf_concat {x : α} (he : f e = some x) : latestOf f (log ++ [e]) = some x := by
  have hlast : [e].filterMap f = [x] := by rw [List.filterMap_cons_some he, List.filterMap_nil]
  rw [latestOf, List.filterMap_append, hlast, List.getLast?_concat]

theorem latestOf_append_of_none (hes : ∀ e ∈ es, f e = none) :
    latestOf f (log ++ es) = latestOf f log := by
  rw [latestOf, List.filterMap_append, List.filterMap_eq_nil_iff.mpr hes, List.append_nil, latestOf]

end Workplace.Lib
