import Workplace.Gomoku.Game
import Workplace.Lib.AlphaBeta
import Workplace.Lib.CheckedSum

/-! The search of the computer against minimax without pruning, over the same cells and with
the same evaluation of the last boards. -/

namespace Workplace.Gomoku
open Workplace.Lib

/-- What `minimax` returns where it does not look further. -/
def staticEvaluation (b : Board) : Int := evaluateBoard b .AI_PLAYER - evaluateBoard b .HUMAN_PLAYER

/-- Minimax over the candidate cells in the order of the board, without a window. -/
def unpruned : Nat → Bool → Board → Int
  | 0, _, b => staticEvaluation b
  | depth + 1, true, b => (candidates b).foldl
      (fun best c => max best (unpruned depth false (b.place c .AI_PLAYER))) INT_MIN
  | depth + 1, false, b => (candidates b).foldl
      (fun best c => min best (unpruned depth true (b.place c .HUMAN_PLAYER))) INT_MAX

/-! ## The evaluation is far from the ends of `int` -/

theorem patternScore_bounds {t : PatternType} {v : Int} (h : PATTERN_SCORE t = some v) :
    10 ≤ v ∧ v ≤ 1000000 := by
  cases t <;> simp only [PATTERN_SCORE, Option.some.injEq, reduceCtorEq] at h <;> omega

theorem evaluateLine_bounds (b : Board) (p : Stone) (c d : Cell) :
    0 ≤ evaluateLine b p c d ∧ evaluateLine b p c d ≤ 1000000 := by
  have hscore := patternScore_bounds (some_evaluateLine b p c d).symm
  exact ⟨(by decide : (0 : Int) ≤ 10).trans hscore.1, hscore.2⟩

/-- The scores of a stone in the four directions. -/
theorem evaluateCell_bounds (b : Board) (p : Stone) (c : Cell) :
    0 ≤ (if b c = p then (dirs.map fun d => evaluateLine b p c d).sum else 0) ∧
      (if b c = p then (dirs.map fun d => evaluateLine b p c d).sum else 0) ≤ 4000000 := by
  split_ifs
  · have hlines := sum_map_nonneg_le (l := dirs) fun d _ => evaluateLine_bounds b p c d
    exact hlines
  · decide

theorem evaluateBoard_bounds (b : Board) (p : Stone) :
    0 ≤ evaluateBoard b p ∧ evaluateBoard b p ≤ 900000000 := by
  have hcells := sum_map_nonneg_le (l := cells) fun c _ => evaluateCell_bounds b p c
  rw [length_cells] at hcells
  exact hcells

theorem staticEvaluation_bounds (b : Board) :
    INT_MIN < staticEvaluation b ∧ staticEvaluation b < INT_MAX := by
  have ha := evaluateBoard_bounds b .AI_PLAYER
  have hh := evaluateBoard_bounds b .HUMAN_PLAYER
  rw [staticEvaluation, INT_MIN, INT_MAX]
  omega

/-! ## The search is alpha-beta -/

open AlphaBeta

def mover (maximizing : Bool) : Stone := if maximizing then .AI_PLAYER else .HUMAN_PLAYER

/-- The moves in the order that `std::sort` gives them. -/
def sortedCandidates (S : StdSort Cell) (maximizing : Bool) (b : Board) : List Cell :=
  let score (c : Cell) : Int :=
    evaluateBoard (b.place c (mover maximizing)) (mover maximizing)
  S.sort (fun x y =>
    if maximizing then decide (score x > score y) else decide (score x < score y)) (candidates b)

def searched (S : StdSort Cell) : AlphaBeta.Game Board Cell Int where
  leaf := staticEvaluation
  moves := sortedCandidates S
  play maximizing b c := b.place c (mover maximizing)

def plain : AlphaBeta.Game Board Cell Int where
  leaf := staticEvaluation
  moves _ := candidates
  play maximizing b c := b.place c (mover maximizing)

theorem plain_minimax (depth : Nat) (side : Bool) (b : Board) :
    plain.minimax INT_MIN INT_MAX depth side b = unpruned depth side b := by
  induction depth generalizing side b with
  | zero => rfl
  | succ depth ih => cases side <;> simp only [AlphaBeta.Game.minimax, unpruned, ih] <;> rfl

theorem searchLoop_true (score : Cell → Int → Int → Int) (cs : List Cell) (best alpha beta : Int) :
    searchLoop true score cs best alpha beta = loop score cs best alpha beta := by
  induction cs generalizing best alpha with
  | nil => rfl
  | cons c cs ih => simp only [searchLoop, loop, if_true, ih]

open OrderDual in
theorem searchLoop_false (score : Cell → Int → Int → Int) (cs : List Cell)
    (best alpha beta : Int) :
    searchLoop false score cs best alpha beta =
      ofDual (loop (fun c (beta alpha : Intᵒᵈ) => toDual (score c (ofDual alpha) (ofDual beta)))
        cs (toDual best) (toDual beta) (toDual alpha)) := by
  induction cs generalizing best beta with
  | nil => rfl
  | cons c cs ih =>
    simp only [searchLoop, loop, Bool.false_eq_true, if_false, ih]
    rw [apply_ite ofDual]
    rfl

theorem minimax_eq_alphaBeta (S : StdSort Cell) (depth : Nat) (b : Board) (side : Bool)
    (alpha beta : Int) :
    minimax S false depth b side alpha beta =
      (searched S).alphaBeta INT_MIN INT_MAX depth side b alpha beta := by
  induction depth generalizing b side alpha beta with
  | zero => rfl
  | succ depth ih =>
    cases side with
    | true =>
      simp only [minimax, Bool.false_eq_true, if_false, if_true, searchLoop_true, ih]
      rfl
    | false =>
      simp only [minimax, Bool.false_eq_true, if_false, searchLoop_false, ih]
      rfl

/-- **Pruning changes nothing**: the search over the full window returns the minimax value. -/
theorem minimax_eq_unpruned (S : StdSort Cell) (depth : Nat) (b : Board) (side : Bool) :
    minimax S false depth b side INT_MIN INT_MAX = unpruned depth side b := by
  have hleaf (b : Board) : INT_MIN ≤ staticEvaluation b ∧ staticEvaluation b ≤ INT_MAX :=
    ⟨(staticEvaluation_bounds b).1.le, (staticEvaluation_bounds b).2.le⟩
  calc minimax S false depth b side INT_MIN INT_MAX
      = (searched S).alphaBeta INT_MIN INT_MAX depth side b INT_MIN INT_MAX :=
        minimax_eq_alphaBeta S depth b side _ _
    _ = (searched S).minimax INT_MIN INT_MAX depth side b :=
        AlphaBeta.Game.alphaBeta_eq_minimax (by decide) hleaf depth side b
    _ = plain.minimax INT_MIN INT_MAX depth side b :=
        AlphaBeta.Game.minimax_congr (searched S) plain rfl rfl (fun _ _ => S.perm _ _) depth side b
    _ = unpruned depth side b := plain_minimax depth side b

/-! ## The chosen move -/

/-- The fold of `bestCandidate` from any best so far. -/
theorem foldl_best (score : Cell → Int) (cs : List Cell) (best : Int × Cell) :
    let last := cs.foldl (fun best c => if score c > best.1 then (score c, c) else best) best
    best.1 ≤ last.1 ∧ (∀ d ∈ cs, score d ≤ last.1) ∧
      (last = best ∨ last.2 ∈ cs ∧ last.1 = score last.2) := by
  induction cs generalizing best with
  | nil => exact ⟨le_rfl, fun d hd => absurd hd List.not_mem_nil, .inl rfl⟩
  | cons c cs ih =>
    obtain ⟨hle, hmax, hlast⟩ := ih (if score c > best.1 then (score c, c) else best)
    rw [List.foldl_cons]
    have hstep : best.1 ≤ (if score c > best.1 then (score c, c) else best).1 ∧
        score c ≤ (if score c > best.1 then (score c, c) else best).1 := by
      split_ifs with hgt
      · exact ⟨hgt.le, le_rfl⟩
      · exact ⟨le_rfl, not_lt.mp hgt⟩
    refine ⟨hstep.1.trans hle, fun d hd => ?_, ?_⟩
    · rcases List.mem_cons.mp hd with rfl | hd
      · exact hstep.2.trans hle
      · exact hmax d hd
    · rcases hlast with hlast | ⟨hmem, heq⟩
      · rw [hlast]
        split_ifs
        · exact .inr ⟨List.mem_cons_self, rfl⟩
        · exact .inl rfl
      · exact .inr ⟨List.mem_cons_of_mem c hmem, heq⟩

theorem bestCandidate_max (score : Cell → Int) {cs : List Cell} {c : Cell} (hc : c ∈ cs)
    (hscore : INT_MIN < score c) :
    bestCandidate score cs ∈ cs ∧ ∀ d ∈ cs, score d ≤ score (bestCandidate score cs) := by
  obtain ⟨-, hmax, hlast⟩ := foldl_best score cs (INT_MIN, (-1, -1))
  rcases hlast with hlast | ⟨hmem, heq⟩
  · refine absurd (hmax c hc) (not_le.mpr ?_)
    rwa [hlast]
  · exact ⟨hmem, fun d hd => (hmax d hd).trans heq.le⟩

theorem winningCell_eq_none {b : Board} {p : Stone}
    (h : ∀ c ∈ emptyCells b, checkwin (b.place c p) c p = false) : winningCell b p = none := by
  refine List.find?_eq_none.mpr fun c hc hp => ?_
  simp only [Bool.and_eq_true, decide_eq_true_eq] at hp
  rw [h c (List.mem_filter.mpr ⟨hc, by simpa using hp.1⟩)] at hp
  exact Bool.false_ne_true hp.2

/-- **The search is plain minimax**, and where no cell wins at once for either side the move
of the computer is a candidate of the highest minimax value. -/
theorem minimax_eq (S : StdSort Cell) (g : AiGame) (hover : g.gameOver_ = false)
    (hcount : g.moveCount_ < BOARD_SIZE * BOARD_SIZE) :
    (∀ (depth : Nat) (b : Board) (maximizing : Bool),
      minimax S (g.gameOver_ || g.isDraw) depth b maximizing INT_MIN INT_MAX =
        unpruned depth maximizing b) ∧
    (∀ (b : Board) (rand : Nat),
      let value (c : Cell) : Int :=
        unpruned ((if g.moveCount_ < 10 then 5 else 3) - 1) false (b.place c .AI_PLAYER)
      let move := getBestMove S (g.gameOver_ || g.isDraw) g.moveCount_ b rand
      (∀ p, p ≠ .EMPTY → ∀ c ∈ emptyCells b, checkwin (b.place c p) c p = false) →
      (∃ c ∈ candidates b, INT_MIN < value c) →
      move ∈ candidates b ∧ ∀ c ∈ candidates b, value c ≤ value move) := by
  have hended : (g.gameOver_ || g.isDraw) = false := by
    rw [hover, Bool.false_or]
    exact decide_eq_false (not_le.mpr hcount)
  rw [hended]
  refine ⟨fun depth b maximizing => minimax_eq_unpruned S depth b maximizing, ?_⟩
  intro b rand value move hquiet ⟨c, hc, hvalue⟩
  have hsort := S.perm (fun x y => decide (evaluateBoard (b.place x .AI_PLAYER) .AI_PLAYER >
    evaluateBoard (b.place y .AI_PLAYER) .AI_PLAYER)) (candidates b)
  have hsearch : searchMove S false g.moveCount_ b ∈ candidates b ∧
      ∀ d ∈ candidates b, value d ≤ value (searchMove S false g.moveCount_ b) := by
    obtain ⟨hmem, hmax⟩ := bestCandidate_max value (hsort.mem_iff.mpr hc) hvalue
    have heq : searchMove S false g.moveCount_ b = bestCandidate value (S.sort _ (candidates b)) :=
      congrArg (bestCandidate · _) (funext fun d => minimax_eq_unpruned S _ _ _)
    rw [heq]
    exact ⟨hsort.mem_iff.mp hmem, fun d hd => hmax d (hsort.mem_iff.mpr hd)⟩
  have hin : isInBoard (searchMove S false g.moveCount_ b) = true :=
    mem_cells.mp (List.mem_filter.mp hsearch.1).1
  have hmove : move = searchMove S false g.moveCount_ b := by
    simp only [move, getBestMove, winningCell_eq_none (hquiet .AI_PLAYER (by decide)),
      winningCell_eq_none (hquiet .HUMAN_PLAYER (by decide))]
    refine if_neg fun h => ?_
    simp only [isInBoard, h, decide_eq_true_eq] at hin
    omega
  rw [hmove]
  exact hsearch

/-- All cells but the first are taken, and nowhere by more than two of a kind in a line. -/
def lastCell : Board := fun c =>
  if c = (0, 0) then .EMPTY else if (c.1 + 2 * c.2) % 4 < 2 then .AI_PLAYER else .HUMAN_PLAYER

theorem minimax_eq_lastCell :
    minimax (StdSort.stable Cell) false 4 lastCell true INT_MIN INT_MAX =
        unpruned 4 true lastCell ∧
      getBestMove (StdSort.stable Cell) false 224 lastCell 0 = (0, 0) := by
  have hempty : emptyCells lastCell = [(0, 0)] := by decide +kernel
  have hcandidates : candidates lastCell = [(0, 0)] := by decide +kernel
  have hfull : candidates (lastCell.place (0, 0) .AI_PLAYER) = [] := by decide +kernel
  have hquiet : ∀ p, p ≠ .EMPTY → ∀ c ∈ emptyCells lastCell,
      checkwin (lastCell.place c p) c p = false := by
    rw [hempty]
    rintro p - c hc
    rw [List.mem_singleton.mp hc]
    cases p <;> decide +kernel
  obtain ⟨hvalue, hmove⟩ := minimax_eq (StdSort.stable Cell)
    { board_ := lastCell, moveCount_ := 224 } rfl (by decide)
  refine ⟨hvalue 4 lastCell true, List.mem_singleton.mp (hcandidates ▸ (hmove lastCell 0 hquiet
    ⟨(0, 0), hcandidates ▸ List.mem_singleton_self _, ?_⟩).1)⟩
  show INT_MIN < unpruned 2 false (lastCell.place (0, 0) .AI_PLAYER)
  rw [unpruned, hfull]
  decide

end Workplace.Gomoku
