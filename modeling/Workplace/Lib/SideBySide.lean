import Workplace.Lib.PrivateEntries

/-! Machines side by side, one for each key, that answer an input with a list of outputs. An
input is for one of them; what a machine makes of its own inputs does not depend on the rest. -/

namespace Workplace.Lib
variable {κ σ ι ε : Type} [DecidableEq κ] (step : σ → ι → σ × List ε)

def after (s : σ) (is : List ι) : σ := is.foldl (fun s i => (step s i).1) s

def outputs (s : σ) : List ι → List ε
  | [] => []
  | i :: is => (step s i).2 ++ outputs (step s i).1 is

/-- All of them as one machine, whose inputs and outputs carry a key. -/
def stepAt (s : κ → σ) (i : κ × ι) : (κ → σ) × List (κ × ε) :=
  (Function.update s i.1 (step (s i.1) i.2).1, (step (s i.1) i.2).2.map (Prod.mk i.1))

variable {step}

theorem ownTurns_map_mk (k k' : κ) (es : List ε) :
    ownTurns k (es.map (Prod.mk k')) = if k' = k then es else [] := by
  induction es with
  | nil => exact (ite_self _).symm
  | cons e es ih =>
    rw [List.map_cons, ownTurns_cons, ih]
    split_ifs <;> rfl

/-- The outputs of one machine among those of all are its outputs for its own inputs. -/
theorem ownTurns_outputs (step : σ → ι → σ × List ε) (s : κ → σ) (is : List (κ × ι)) (k : κ) :
    ownTurns k (outputs (stepAt step) s is) = outputs step (s k) (ownTurns k is) := by
  induction is generalizing s with
  | nil => rfl
  | cons i is ih =>
    rw [outputs, ownTurns_append, ih, ownTurns_cons]
    change ownTurns k ((step (s i.1) i.2).2.map (Prod.mk i.1)) ++
      outputs step (Function.update s i.1 (step (s i.1) i.2).1 k) (ownTurns k is) = _
    rw [ownTurns_map_mk]
    split_ifs with h
    · subst h
      rw [Function.update_self, outputs]
    · rw [Function.update_of_ne (Ne.symm h), List.nil_append]

end Workplace.Lib
