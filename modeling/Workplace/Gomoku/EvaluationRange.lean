import Workplace.Gomoku.Minimax

/-! `evaluateBoard` in the arithmetic of the source, where `PATTERN_SCORE.at` may find no entry
and an `int` may overflow. -/

namespace Workplace.Gomoku
open Workplace.Lib

/-- An expression of the type `int`. Where it overflows, its value is not defined. -/
def int (v : Int) : Option Int := if INT_MIN ≤ v ∧ v ≤ INT_MAX then some v else none

/-- What the two scans of a line come to, with `count` an `int`. -/
def lineType (b : Board) (player : Stone) (c d : Cell) : Option PatternType :=
  let (left, leftBlock) := extend b player ((List.range' 1 4).map fun i : Nat => along c d (-i))
  let (right, rightBlock) := extend b player ((List.range' 1 4).map fun i : Nat => along c d i)
  (int ((1 + left + right : Nat) : Int)).map fun _ =>
    patternType (1 + left + right) leftBlock rightBlock

/-- `score += PATTERN_SCORE.at(type)` -/
def addLine (b : Board) (player : Stone) (c : Cell) (score : Int) (d : Cell) : Option Int := do
  let type ← lineType b player c d
  let value ← PATTERN_SCORE type
  int (score + value)

/-- The body of the two outer loops. -/
def addCell (b : Board) (player : Stone) (score : Int) (c : Cell) : Option Int :=
  if b c = player then dirs.foldlM (addLine b player c) score else some score

/-- `evaluateBoard` with its loops. -/
def evaluateBoardInt (b : Board) (player : Stone) : Option Int :=
  cells.foldlM (addCell b player) 0

/-- What `minimax` returns where it does not look further. -/
def leafInt (b : Board) : Option Int := do
  let ai ← evaluateBoardInt b .AI_PLAYER
  let human ← evaluateBoardInt b .HUMAN_PLAYER
  int (ai - human)

theorem int_eq_some {v : Int} (hmin : INT_MIN ≤ v) (hmax : v ≤ INT_MAX) : int v = some v :=
  if_pos ⟨hmin, hmax⟩

theorem extend_le_length (b : Board) (p : Stone) (ns : List Cell) :
    (extend b p ns).1 ≤ ns.length := by
  induction ns with
  | nil => exact Nat.zero_le _
  | cons n ns ih =>
    unfold extend
    extract_lets opponent
    split_ifs
    · exact Nat.zero_le _
    · exact Nat.zero_le _
    · exact Nat.succ_le_succ ih

theorem addLine_eq (b : Board) (p : Stone) (c d : Cell) {score : Int} (hscore : 0 ≤ score)
    (hroom : score + 1000000 ≤ INT_MAX) :
    addLine b p c score d = some (score + evaluateLine b p c d) := by
  have hleft := extend_le_length b p ((List.range' 1 4).map fun i : Nat => along c d (-i))
  have hright := extend_le_length b p ((List.range' 1 4).map fun i : Nat => along c d i)
  have hvalue := some_evaluateLine b p c d
  obtain ⟨hnonneg, hle⟩ := evaluateLine_bounds b p c d
  rw [List.length_map, List.length_range'] at hleft hright
  unfold addLine lineType
  dsimp only at hvalue ⊢
  rw [int_eq_some (by unfold INT_MIN; omega) (by unfold INT_MAX; omega), Option.map_some,
    Option.bind_eq_bind, Option.bind_some, ← hvalue, Option.bind_eq_bind, Option.bind_some]
  refine int_eq_some ?_ (by omega)
  unfold INT_MIN
  omega

theorem addCell_eq (b : Board) (p : Stone) (c : Cell) {score : Int} (hscore : 0 ≤ score)
    (hroom : score + 4000000 ≤ INT_MAX) : addCell b p score c =
      some (score + if b c = p then (dirs.map fun d => evaluateLine b p c d).sum else 0) := by
  unfold addCell
  split_ifs
  · exact foldlM_eq_sum (fun d _ => evaluateLine_bounds b p c d)
      (fun d _ acc hacc hfits => addLine_eq b p c d hacc hfits) hscore hroom
  · rw [add_zero]

/-- The loops compute the sum: nine hundred millions fit. -/
theorem evaluateBoardInt_eq (b : Board) (p : Stone) :
    evaluateBoardInt b p = some (evaluateBoard b p) := by
  have hroom : (0 : Int) + cells.length • 4000000 ≤ INT_MAX := by
    rw [length_cells]
    decide
  have hloop := foldlM_eq_sum (fun c _ => evaluateCell_bounds b p c)
    (fun c _ acc hacc hfits => addCell_eq b p c hacc hfits) (le_refl 0) hroom
  rw [zero_add] at hloop
  exact hloop

theorem leafInt_eq (b : Board) : leafInt b = some (staticEvaluation b) := by
  obtain ⟨hmin, hmax⟩ := staticEvaluation_bounds b
  unfold leafInt
  rw [evaluateBoardInt_eq, evaluateBoardInt_eq]
  exact int_eq_some hmin.le hmax.le

/-- **The evaluation is safe** in an `int`, and a leaf is not one of the first bounds of the
search. -/
theorem evaluation_in_range (b : Board) :
    (∀ p, evaluateBoardInt b p = some (evaluateBoard b p)) ∧
      leafInt b = some (staticEvaluation b) ∧
        INT_MIN < staticEvaluation b ∧ staticEvaluation b < INT_MAX :=
  ⟨evaluateBoardInt_eq b, leafInt_eq b, staticEvaluation_bounds b⟩

end Workplace.Gomoku
