import Mathlib.Logic.Function.Basic
import Mathlib.Tactic

/-! A system with one entry for each key, of which a step plays with one at most. The entry of a
key then is what the steps on that key make of it alone. -/

namespace Workplace.Lib
variable {σ ι κ τ E : Type} [DecidableEq κ] {step : σ → ι → σ} {turn : σ → ι → Option (κ × τ)}
  {play : τ → E → E}

/-- The entry after a step that takes the turn `t`, if it takes one. -/
def playAt (play : τ → E → E) (t : Option (κ × τ)) (k : κ) (e : E) : E :=
  match t with
  | some (k', t) => if k' = k then play t e else e
  | none => e

/-- The turns that a run takes. -/
def turnsOf (step : σ → ι → σ) (turn : σ → ι → Option (κ × τ)) (s : σ) : List ι → List (κ × τ)
  | [] => []
  | i :: is => (turn s i).toList ++ turnsOf step turn (step s i) is

/-- Those of one key. -/
def ownTurns (k : κ) (turns : List (κ × τ)) : List τ :=
  turns.filterMap fun t => if t.1 = k then some t.2 else none

theorem playAt_eq_foldl (t : Option (κ × τ)) (k : κ) (e : E) :
    playAt play t k e = (ownTurns k t.toList).foldl (fun e t => play t e) e := by
  rcases t with _ | ⟨k', t⟩
  · rfl
  · by_cases hk : k' = k
    · simp [playAt, ownTurns, hk]
    · simp [playAt, ownTurns, hk]

theorem ownTurns_cons (k : κ) (t : κ × τ) (ts : List (κ × τ)) :
    ownTurns k (t :: ts) = if t.1 = k then t.2 :: ownTurns k ts else ownTurns k ts := by
  unfold ownTurns
  split_ifs with h
  · exact List.filterMap_cons_some (if_pos h)
  · exact List.filterMap_cons_none (if_neg h)

theorem ownTurns_append (k : κ) (ts us : List (κ × τ)) :
    ownTurns k (ts ++ us) = ownTurns k ts ++ ownTurns k us := List.filterMap_append

/-- What a step keeps between the state and the entries, each of them played with by its own turns,
a run keeps. -/
theorem entries_invariant {I : σ → (κ → E) → Prop}
    (hstep : ∀ s i entries, I s entries →
      I (step s i) fun k => playAt play (turn s i) k (entries k))
    (is : List ι) {s : σ} {entries : κ → E} (h : I s entries) :
    I (is.foldl step s) fun k =>
      (ownTurns k (turnsOf step turn s is)).foldl (fun e t => play t e) (entries k) := by
  induction is generalizing s entries with
  | nil => exact h
  | cons i is ih =>
    have hnext := ih (hstep s i entries h)
    simp only [playAt_eq_foldl, ← List.foldl_append, ← ownTurns_append] at hnext
    exact hnext

/-- The entry after a run is what its own turns make of it. -/
theorem view_foldl (view : σ → κ → E) (play : τ → E → E)
    (hstep : ∀ s i k, view (step s i) k = playAt play (turn s i) k (view s k))
    (is : List ι) (s : σ) (k : κ) : view (is.foldl step s) k =
      (ownTurns k (turnsOf step turn s is)).foldl (fun e t => play t e) (view s k) := by
  have hkeeps : ∀ s i (entries : κ → E), (∀ k, view s k = entries k) →
      ∀ k, view (step s i) k = playAt play (turn s i) k (entries k) := by
    intro s i entries h k
    rw [hstep, h k]
  exact entries_invariant (I := fun s entries => ∀ k, view s k = entries k) hkeeps is
    (fun _ => rfl) k

end Workplace.Lib
