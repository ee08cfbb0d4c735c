import Workplace.Gomoku.Board
import Workplace.Lib.Restoring

/-! The search of the computer player: the evaluation of a board, `minimax` with its pruning,
and `getBestMove`. The source places stones on the board and takes them back; here a board
with one stone more is another board. -/

namespace Workplace.Gomoku
open Workplace.Lib

/-- `std::sort`: a rearrangement in order, with equal elements in whatever order it leaves. -/
structure StdSort (α : Type) where
  sort : (α → α → Bool) → List α → List α
  perm : ∀ less l, (sort less l).Perm l
  sorted : ∀ less l, IsStrictWeakOrder α (fun a b => less a b = true) →
    (sort less l).Pairwise fun a b => less b a = false

def StdSort.stable (α : Type) : StdSort α where
  sort less l := l.mergeSort fun a b => !less b a
  perm less l := List.mergeSort_perm l _
  sorted less l h := by
    refine (List.pairwise_mergeSort ?_ ?_ l).imp fun hle => by simpa using hle
    · intro a b c hab hbc
      simp only [Bool.not_eq_true'] at hab hbc ⊢
      exact notAfter_trans h hab hbc
    · intro a b
      simpa using notAfter_total h a b

/-! ## Evaluation -/

inductive PatternType where
  | LIVE_ONE
  | LIVE_TWO
  | LIVE_THREE
  | LIVE_FOUR
  | BLOCKED_ONE
  | BLOCKED_TWO
  | BLOCKED_THREE
  | BLOCKED_FOUR
  | FIVE
  deriving DecidableEq, Repr

/-- The table has no entry for `BLOCKED_ONE`. -/
def PATTERN_SCORE : PatternType → Option Int
  | .LIVE_ONE => some 10
  | .LIVE_TWO => some 100
  | .LIVE_THREE => some 1000
  | .LIVE_FOUR => some 100000
  | .BLOCKED_ONE => none
  | .BLOCKED_TWO => some 50
  | .BLOCKED_THREE => some 500
  | .BLOCKED_FOUR => some 50000
  | .FIVE => some 1000000

/-- How far the stones of `player` go on over the next positions, and whether they are
blocked there by the border or by a stone of the opponent. -/
def extend (b : Board) (player : Stone) : List Cell → Nat × Bool
  | [] => (0, false)
  | n :: ns =>
    let opponent : Stone := if player = .HUMAN_PLAYER then .AI_PLAYER else .HUMAN_PLAYER
    if isInBoard n = false ∨ b n = opponent then (0, true)
    else if b n = .EMPTY then (0, false)
    else
      let (count, block) := extend b player ns
      (count + 1, block)

def patternType (count : Nat) (leftBlock rightBlock : Bool) : PatternType :=
  if 5 ≤ count then .FIVE
  else if count = 4 then
    if !leftBlock && !rightBlock then .LIVE_FOUR else .BLOCKED_FOUR
  else if count = 3 then
    if !leftBlock && !rightBlock then .LIVE_THREE else .BLOCKED_THREE
  else if count = 2 then
    if !leftBlock && !rightBlock then .LIVE_TWO else .BLOCKED_TWO
  else .LIVE_ONE

/-- `PATTERN_SCORE.at` always finds its key. -/
theorem isSome_patternScore (count : Nat) (leftBlock rightBlock : Bool) :
    (PATTERN_SCORE (patternType count leftBlock rightBlock)).isSome := by
  rw [patternType]
  split_ifs <;> rfl

def evaluateLine (b : Board) (player : Stone) (c d : Cell) : Int :=
  let (left, leftBlock) := extend b player ((List.range' 1 4).map fun i : Nat => along c d (-i))
  let (right, rightBlock) := extend b player ((List.range' 1 4).map fun i : Nat => along c d i)
  (PATTERN_SCORE (patternType (1 + left + right) leftBlock rightBlock)).get
    (isSome_patternScore _ _ _)

/-- The score of a line, from its two scans. -/
theorem some_evaluateLine (b : Board) (p : Stone) (c d : Cell) :
    let left := extend b p ((List.range' 1 4).map fun i : Nat => along c d (-i))
    let right := extend b p ((List.range' 1 4).map fun i : Nat => along c d i)
    some (evaluateLine b p c d) =
      PATTERN_SCORE (patternType (1 + left.1 + right.1) left.2 right.2) := Option.some_get _

def evaluateBoard (b : Board) (player : Stone) : Int :=
  (cells.map fun c =>
    if b c = player then (dirs.map fun d => evaluateLine b player c d).sum else 0).sum

/-! ## Search -/

def INT_MIN : Int := -2 ^ 31
def INT_MAX : Int := 2 ^ 31 - 1

def isNearOccupied (b : Board) (c : Cell) : Bool :=
  [((-1 : Int), (-1 : Int)), (-1, 0), (-1, 1), (0, -1), (0, 1), (1, -1), (1, 0), (1, 1)].any
    fun d => isInBoard (along c d 1) && b (along c d 1) ≠ .EMPTY

def candidates (b : Board) : List Cell :=
  cells.filter fun c => b c = .EMPTY && isNearOccupied b c

/-- The loop of `minimax` over its candidates, with the break of the pruning. -/
def searchLoop (maximizing : Bool) (score : Cell → Int → Int → Int) :
    List Cell → Int → Int → Int → Int
  | [], best, _, _ => best
  | c :: cs, best, alpha, beta =>
    let s := score c alpha beta
    let best := if maximizing then max best s else min best s
    let alpha := if maximizing then max alpha best else alpha
    let beta := if maximizing then beta else min beta best
    if beta ≤ alpha then best else searchLoop maximizing score cs best alpha beta

/-- `isGameOver() || isDraw()` is `ended`: the search does not touch the fields it reads. -/
def minimax (S : StdSort Cell) (ended : Bool) : Nat → Board → Bool → Int → Int → Int
  | 0, b, _, _, _ => evaluateBoard b .AI_PLAYER - evaluateBoard b .HUMAN_PLAYER
  | depth + 1, b, maximizing, alpha, beta =>
    if ended then evaluateBoard b .AI_PLAYER - evaluateBoard b .HUMAN_PLAYER
    else
      let currentPlayer : Stone := if maximizing then .AI_PLAYER else .HUMAN_PLAYER
      let score (c : Cell) : Int := evaluateBoard (b.place c currentPlayer) currentPlayer
      let less (x y : Cell) : Bool :=
        if maximizing then decide (score x > score y) else decide (score x < score y)
      searchLoop maximizing
        (fun c alpha beta =>
          minimax S ended depth (b.place c currentPlayer) (!maximizing) alpha beta)
        (S.sort less (candidates b)) (if maximizing then INT_MIN else INT_MAX) alpha beta

/-- The first empty cell, in the order of the loops, on which a stone of `player` wins. -/
def winningCell (b : Board) (player : Stone) : Option Cell :=
  cells.find? fun c => b c = .EMPTY && checkwin (b.place c player) c player

/-- Step 5 of `getBestMove`: the first candidate with the highest score above the lowest
`int`, or `(-1, -1)`. -/
def bestCandidate (score : Cell → Int) (cs : List Cell) : Cell :=
  (cs.foldl (fun best c => if score c > best.1 then (score c, c) else best)
    (INT_MIN, ((-1 : Int), (-1 : Int)))).2

def emptyCells (b : Board) : List Cell := cells.filter fun c => b c = .EMPTY

def searchMove (S : StdSort Cell) (ended : Bool) (moveCount_ : Nat) (b : Board) : Cell :=
  let score (c : Cell) : Int := evaluateBoard (b.place c .AI_PLAYER) .AI_PLAYER
  let MAX_DEPTH := if moveCount_ < 10 then 5 else 3
  bestCandidate
    (fun c => minimax S ended (MAX_DEPTH - 1) (b.place c .AI_PLAYER) false INT_MIN INT_MAX)
    (S.sort (fun x y => decide (score x > score y)) (candidates b))

/-- The first two steps look for a cell that wins for the computer, then for the human. -/
def getBestMove (S : StdSort Cell) (ended : Bool) (moveCount_ : Nat) (b : Board) (rand : Nat) :
    Cell :=
  match winningCell b .AI_PLAYER with
  | some c => c
  | none =>
    match winningCell b .HUMAN_PLAYER with
    | some c => c
    | none =>
      let bestMove := searchMove S ended moveCount_ b
      if bestMove.1 = -1 then
        -- no candidate, or none above the lowest `int`
        ((emptyCells b)[rand % (emptyCells b).length]?).getD bestMove
      else bestMove

/-! ## The move is on an empty cell -/

theorem winningCell_mem {b : Board} {p : Stone} {c : Cell} (h : winningCell b p = some c) :
    c ∈ emptyCells b := by
  have hp := List.find?_some h
  simp only [Bool.and_eq_true, decide_eq_true_eq] at hp
  exact List.mem_filter.mpr ⟨List.mem_of_find?_eq_some h, by simpa using hp.1⟩

theorem bestCandidate_mem (score : Cell → Int) (cs : List Cell) :
    bestCandidate score cs ∈ cs ∨ bestCandidate score cs = (-1, -1) := by
  suffices h : ∀ best : Int × Cell, (cs.foldl (fun best c =>
      if score c > best.1 then (score c, c) else best) best).2 ∈ cs ∨
        (cs.foldl (fun best c => if score c > best.1 then (score c, c) else best) best).2 =
          best.2 from h _
  induction cs with
  | nil => exact fun best => .inr rfl
  | cons c cs ih =>
    intro best
    rw [List.foldl_cons]
    rcases ih (if score c > best.1 then (score c, c) else best) with h | h
    · exact .inl (List.mem_cons_of_mem c h)
    · rw [h]
      split_ifs
      · exact .inl List.mem_cons_self
      · exact .inr rfl

theorem mem_emptyCells {b : Board} {c : Cell} :
    c ∈ emptyCells b ↔ isInBoard c = true ∧ b c = .EMPTY := by
  rw [emptyCells, List.mem_filter, mem_cells, decide_eq_true_eq]

theorem searchMove_mem (S : StdSort Cell) (ended : Bool) (moveCount_ : Nat) (b : Board) :
    searchMove S ended moveCount_ b ∈ emptyCells b ∨
      searchMove S ended moveCount_ b = (-1, -1) := by
  refine (bestCandidate_mem _ _).imp_left fun hm => ?_
  have hc := List.mem_filter.mp ((S.perm _ _).subset hm)
  simp only [Bool.and_eq_true, decide_eq_true_eq] at hc
  exact mem_emptyCells.mpr ⟨mem_cells.mp hc.1, hc.2.1⟩

/-- **`getBestMove` finds an empty cell** whenever there is one. -/
theorem getBestMove_mem (S : StdSort Cell) (ended : Bool) (moveCount_ : Nat) (b : Board)
    (rand : Nat) (hb : emptyCells b ≠ []) :
    getBestMove S ended moveCount_ b rand ∈ emptyCells b := by
  rw [getBestMove]
  rcases hai : winningCell b .AI_PLAYER with _ | c
  · rcases hh : winningCell b .HUMAN_PLAYER with _ | c
    · simp only
      split_ifs with hbest
      · -- the fallback picks one of the empty cells
        have hlt : rand % (emptyCells b).length < (emptyCells b).length :=
          Nat.mod_lt _ (List.length_pos_iff.mpr hb)
        rw [List.getElem?_eq_getElem hlt, Option.getD_some]
        exact List.getElem_mem hlt
      · refine (searchMove_mem S ended moveCount_ b).resolve_right fun hm => hbest ?_
        rw [hm]
    · exact winningCell_mem hh
  · exact winningCell_mem hai

end Workplace.Gomoku
