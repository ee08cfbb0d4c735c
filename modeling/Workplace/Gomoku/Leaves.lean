import Workplace.Gomoku.Minimax

/-! Where the search stops. Its test reads `gameOver_` and `moveCount_` of the game, which the
stones that it puts on the board and takes back do not change. -/

namespace Workplace.Gomoku
open Workplace.Lib

/-! ## What a call explores -/

/-- The cells that the loop of `minimax` puts a stone on, up to its break. -/
def triedCells (maximizing : Bool) (score : Cell → Int → Int → Int) :
    List Cell → Int → Int → Int → List Cell
  | [], _, _, _ => []
  | c :: cs, best, alpha, beta =>
    let s := score c alpha beta
    let best := if maximizing then max best s else min best s
    let alpha := if maximizing then max alpha best else alpha
    let beta := if maximizing then beta else min beta best
    if beta ≤ alpha then [c] else c :: triedCells maximizing score cs best alpha beta

/-- The moves of `minimax` at this board. -/
def explored (S : StdSort Cell) (ended : Bool) : Nat → Board → Bool → Int → Int → List Cell
  | 0, _, _, _, _ => []
  | depth + 1, b, maximizing, alpha, beta =>
    if ended then []
    else
      triedCells maximizing
        (fun c alpha beta =>
          minimax S ended depth (b.place c (mover maximizing)) (!maximizing) alpha beta)
        (sortedCandidates S maximizing b) (if maximizing then INT_MIN else INT_MAX) alpha beta

/-- The boards that `minimax` is called on, from the board of the game, and whether it is the
computer that moves there. -/
inductive Simulated (b₀ : Board) : Bool → Board → Prop where
  | root {c : Cell} (hc : c ∈ candidates b₀) : Simulated b₀ false (b₀.place c .AI_PLAYER)
  | reply {maximizing : Bool} {b : Board} {c : Cell} (h : Simulated b₀ maximizing b)
      (hc : c ∈ candidates b) : Simulated b₀ (!maximizing) (b.place c (mover maximizing))

/-- Five in a row of either colour, or no empty cell. -/
def Finished (b : Board) : Prop :=
  (∃ p, p ≠ .EMPTY ∧ HasLine b p) ∨ emptyCells b = []

theorem triedCells_eq_nil {maximizing : Bool} {score : Cell → Int → Int → Int} {cs : List Cell}
    {best alpha beta : Int} (h : triedCells maximizing score cs best alpha beta = []) :
    cs = [] := by
  cases cs with
  | nil => rfl
  | cons c cs =>
    simp only [triedCells] at h
    split_ifs at h

variable {S : StdSort Cell}

/-- Above depth zero every candidate list that is not empty is explored. -/
theorem candidates_of_explored {depth : Nat} {b : Board} {maximizing : Bool} {alpha beta : Int}
    (h : explored S false (depth + 1) b maximizing alpha beta = []) : candidates b = [] := by
  simp only [explored, Bool.false_eq_true, if_false] at h
  have hsorted : sortedCandidates S maximizing b = [] := triedCells_eq_nil h
  exact List.Perm.eq_nil (hsorted ▸ (S.perm _ _).symm)

/-- A board without candidates is worth one end of `int`. -/
theorem minimax_of_no_candidates {depth : Nat} {b : Board} {maximizing : Bool}
    {alpha beta : Int} (h : candidates b = []) :
    minimax S false (depth + 1) b maximizing alpha beta =
      if maximizing then INT_MIN else INT_MAX := by
  have hsorted (less : Cell → Cell → Bool) : S.sort less [] = [] := (S.perm less []).eq_nil
  simp only [minimax, Bool.false_eq_true, if_false, h, hsorted, searchLoop]

/-- **The search stops at depth zero only**, whatever the board. -/
theorem leaf_iff {depth : Nat} {b : Board} {maximizing : Bool} {alpha beta : Int} :
    (minimax S false depth b maximizing alpha beta = staticEvaluation b ∧
      explored S false depth b maximizing alpha beta = []) ↔ depth = 0 := by
  refine ⟨fun ⟨hvalue, hnone⟩ => ?_, ?_⟩
  · cases depth with
    | zero => rfl
    | succ depth =>
      rw [minimax_of_no_candidates (candidates_of_explored hnone)] at hvalue
      have hbounds := staticEvaluation_bounds b
      cases maximizing with
      | true => exact absurd hvalue hbounds.1.ne
      | false => exact absurd hvalue hbounds.2.ne'
  · rintro rfl
    exact ⟨rfl, rfl⟩

/-- **A finished board is a leaf of the search at depth zero and nowhere else.** -/
theorem finished_leaf_iff (S : StdSort Cell) (moves : List AiGame.Move) (g : AiGame) :
    Lib.run (AiGame.step S) {} moves = some g → (g.gameOver_ || g.isDraw) = false →
    ∀ maximizing b, Simulated g.board_ maximizing b → Finished b →
    ∀ depth alpha beta,
      (minimax S (g.gameOver_ || g.isDraw) depth b maximizing alpha beta = staticEvaluation b ∧
        explored S (g.gameOver_ || g.isDraw) depth b maximizing alpha beta = []) ↔ depth = 0 := by
  intro _ hend maximizing b _ _ depth alpha beta
  rw [hend]
  exact leaf_iff

/-! The human has three stones in a row; four plies into the search there are five. -/

def threeStones : Board :=
  ((Board.empty.place (7, 5) .HUMAN_PLAYER).place (7, 6) .HUMAN_PLAYER).place (7, 7) .HUMAN_PLAYER

def fiveStones : Board :=
  (((threeStones.place (6, 5) .AI_PLAYER).place (7, 8) .HUMAN_PLAYER).place (6, 6)
    .AI_PLAYER).place (7, 4) .HUMAN_PLAYER

theorem simulated_fiveStones : Simulated threeStones true fiveStones :=
  .reply (.reply (.reply (.root (by decide +kernel)) (by decide +kernel)) (by decide +kernel))
    (by decide +kernel)

theorem finished_fiveStones : Finished fiveStones :=
  .inl ⟨.HUMAN_PLAYER, by decide, (7, 4), (0, 1), by decide, by decide +kernel⟩

theorem run_threeStones : Lib.run (AiGame.step (StdSort.stable Cell)) {}
    [.humanMove 7 5, .humanMove 7 6, .humanMove 7 7] =
      some { board_ := threeStones, moveCount_ := 3, lastMove_ := (7, 7) } := rfl

theorem finished_leaf_iff_fiveStones :
    minimax (StdSort.stable Cell) false 0 fiveStones true INT_MIN INT_MAX =
      staticEvaluation fiveStones :=
  ((finished_leaf_iff (StdSort.stable Cell) _ _ run_threeStones rfl true fiveStones
    simulated_fiveStones finished_fiveStones 0 INT_MIN INT_MAX).mpr rfl).1

/-- With one ply left the search puts stones beside the five in a row. -/
theorem finished_explored :
    ∃ moves g, Lib.run (AiGame.step (StdSort.stable Cell)) {} moves = some g ∧
      (g.gameOver_ || g.isDraw) = false ∧
      ∃ b, Simulated g.board_ true b ∧ HasLine b .HUMAN_PLAYER ∧
        explored (StdSort.stable Cell) (g.gameOver_ || g.isDraw) 1 b true INT_MIN INT_MAX ≠ [] := by
  have hline : HasLine fiveStones .HUMAN_PLAYER := ⟨(7, 4), (0, 1), by decide, by decide +kernel⟩
  refine ⟨_, _, run_threeStones, rfl, fiveStones, simulated_fiveStones, hline, fun h => ?_⟩
  have hmem : ((6, 4) : Cell) ∈ candidates fiveStones := by decide +kernel
  rw [candidates_of_explored h] at hmem
  exact List.not_mem_nil hmem

end Workplace.Gomoku
