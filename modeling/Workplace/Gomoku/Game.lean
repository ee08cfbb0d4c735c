import Workplace.Gomoku.Search
import Workplace.Lib.Runs

/-! One game, `AiGame`: the moves of the two players in any order, and what the board then
says about the winner. -/

namespace Workplace.Gomoku
open Workplace.Lib

inductive Winner where
  | none
  | human
  | ai
  deriving DecidableEq, Repr

structure AiGame where
  board_ : Board := Board.empty
  gameOver_ : Bool := false
  moveCount_ : Nat := 0
  winner_ : Winner := .none
  lastMove_ : Cell := (-1, -1)

namespace AiGame

def isDraw (g : AiGame) : Bool := decide (BOARD_SIZE * BOARD_SIZE ≤ g.moveCount_)

def isValidMove (g : AiGame) (c : Cell) : Bool :=
  isInBoard c && g.board_ c = .EMPTY && !(g.gameOver_ || g.isDraw)

/-- The end of `humanMove` and of `aiMove`: a stone of `player`, who would be `winner`. -/
def put (g : AiGame) (c : Cell) (player : Stone) (winner : Winner) : AiGame :=
  let g := { g with
    board_ := g.board_.place c player
    lastMove_ := c
    moveCount_ := g.moveCount_ + 1 }
  if checkwin g.board_ c player then { g with gameOver_ := true, winner_ := winner } else g

@[simp] theorem put_board_ (g : AiGame) (c : Cell) (p : Stone) (w : Winner) :
    (g.put c p w).board_ = g.board_.place c p := by
  simp only [put]
  split_ifs <;> rfl

@[simp] theorem put_lastMove_ (g : AiGame) (c : Cell) (p : Stone) (w : Winner) :
    (g.put c p w).lastMove_ = c := by
  simp only [put]
  split_ifs <;> rfl

def humanMove (g : AiGame) (x y : Int) : Bool × AiGame :=
  if g.isValidMove (x, y) = false then (false, g)
  else (true, g.put (x, y) .HUMAN_PLAYER .human)

/-- `none` is a write out of the board. -/
def aiMove (S : StdSort Cell) (g : AiGame) (rand : Nat) : Option AiGame :=
  if g.gameOver_ || g.isDraw then some g
  else
    let c := getBestMove S (g.gameOver_ || g.isDraw) g.moveCount_ g.board_ rand
    if isInBoard c then some (g.put c .AI_PLAYER .ai) else none

/-- A call on the game; the one of the computer with what `rand` returns in it. -/
inductive Move where
  | humanMove (x y : Int)
  | aiMove (rand : Nat)

def step (S : StdSort Cell) (g : AiGame) : Move → Option AiGame
  | .humanMove x y => some (g.humanMove x y).2
  | .aiMove rand => g.aiMove S rand

/-! ## The invariant -/

def occupied (b : Board) : List Cell := cells.filter fun c => b c ≠ .EMPTY

/-- What `gameOver_` and `winner_` say is what the board shows. -/
inductive Verdict (b : Board) : Bool → Winner → Prop where
  | undecided (hh : ¬ HasLine b .HUMAN_PLAYER) (ha : ¬ HasLine b .AI_PLAYER) :
      Verdict b false .none
  | human (hh : HasLine b .HUMAN_PLAYER) (ha : ¬ HasLine b .AI_PLAYER) : Verdict b true .human
  | ai (hh : ¬ HasLine b .HUMAN_PLAYER) (ha : HasLine b .AI_PLAYER) : Verdict b true .ai

structure Sound (g : AiGame) : Prop where
  verdict : Verdict g.board_ g.gameOver_ g.winner_
  count : g.moveCount_ = (occupied g.board_).length

variable {g g' : AiGame} {c : Cell}

theorem sound_new : Sound {} where
  verdict := .undecided (not_hasLine_empty (by simp)) (not_hasLine_empty (by simp))
  count := by
    rw [occupied, List.filter_eq_nil_iff.mpr (by simp [Board.empty])]
    rfl

theorem length_occupied_add (b : Board) :
    (occupied b).length + (emptyCells b).length = BOARD_SIZE * BOARD_SIZE := by
  have h := List.length_eq_length_filter_add (l := cells) (fun c => decide (b c = .EMPTY))
  rw [← length_cells, h, add_comm]
  simp only [occupied, emptyCells, ne_eq, decide_not]

theorem emptyCells_place (b : Board) (c : Cell) {p : Stone} (hp : p ≠ .EMPTY) :
    emptyCells (b.place c p) = (emptyCells b).erase c := by
  have hnodup : (emptyCells b).Nodup := nodup_cells.filter _
  rw [hnodup.erase_eq_filter, emptyCells, emptyCells, List.filter_filter]
  refine List.filter_congr fun d _ => ?_
  by_cases hd : d = c
  · simp [hd, hp]
  · simp [hd, Board.place_ne b p hd]

theorem length_occupied_place {b : Board} (hc : c ∈ emptyCells b) {p : Stone} (hp : p ≠ .EMPTY) :
    (occupied (b.place c p)).length = (occupied b).length + 1 := by
  have hbefore := length_occupied_add b
  have hafter := length_occupied_add (b.place c p)
  rw [emptyCells_place b c hp, List.length_erase_of_mem hc] at hafter
  have hpos := List.length_pos_of_mem hc
  omega

theorem Sound.emptyCells_ne_nil (h : Sound g) (hd : g.isDraw = false) :
    emptyCells g.board_ ≠ [] := by
  intro hnil
  have hsum := length_occupied_add g.board_
  rw [hnil, ← h.count] at hsum
  simp only [isDraw, decide_eq_false_iff_not] at hd
  simp only [List.length_nil] at hsum
  omega

/-- Nobody has five in a row while the game goes on. -/
theorem Sound.undecided (h : Sound g) (hover : g.gameOver_ = false) :
    ¬ HasLine g.board_ .HUMAN_PLAYER ∧ ¬ HasLine g.board_ .AI_PLAYER ∧ g.winner_ = .none := by
  have hv := h.verdict
  rw [hover] at hv
  generalize g.winner_ = w at hv
  cases hv with
  | undecided hh ha => exact ⟨hh, ha, rfl⟩

/-- **A stone on an empty cell** of an undecided game is followed by the right verdict. -/
theorem Sound.put (h : Sound g) (hover : g.gameOver_ = false) (hc : c ∈ emptyCells g.board_)
    {p : Stone} {w : Winner} (hpw : p = .HUMAN_PLAYER ∧ w = .human ∨ p = .AI_PLAYER ∧ w = .ai) :
    Sound (g.put c p w) := by
  have hp : p ≠ .EMPTY := by rcases hpw with ⟨rfl, -⟩ | ⟨rfl, -⟩ <;> simp
  have hin := (mem_emptyCells.mp hc).1
  obtain ⟨hh, ha, hw⟩ := h.undecided hover
  have hcount : g.moveCount_ + 1 = (occupied (g.board_.place c p)).length := by
    rw [length_occupied_place hc hp, h.count]
  rw [AiGame.put]
  by_cases hwin : checkwin (g.board_.place c p) c p = true
  · rw [if_pos hwin]
    refine ⟨?_, hcount⟩
    rcases hpw with ⟨rfl, rfl⟩ | ⟨rfl, rfl⟩
    · exact .human ((checkwin_place hin hh).mp hwin) fun hl => ha (hl.of_place (by simp))
    · exact .ai (fun hl => hh (hl.of_place (by simp))) ((checkwin_place hin ha).mp hwin)
  · rw [if_neg hwin]
    refine ⟨?_, hcount⟩
    show Verdict _ g.gameOver_ g.winner_
    rw [hover, hw]
    rcases hpw with ⟨rfl, rfl⟩ | ⟨rfl, rfl⟩
    · exact .undecided (fun hl => hwin ((checkwin_place hin hh).mpr hl))
        fun hl => ha (hl.of_place (by simp))
    · exact .undecided (fun hl => hh (hl.of_place (by simp)))
        fun hl => hwin ((checkwin_place hin ha).mpr hl)

theorem humanMove_cases (g : AiGame) (x y : Int) :
    g.humanMove x y = (false, g) ∨
      (x, y) ∈ emptyCells g.board_ ∧ (g.gameOver_ || g.isDraw) = false ∧
        g.humanMove x y = (true, g.put (x, y) .HUMAN_PLAYER .human) := by
  unfold AiGame.humanMove
  split_ifs with hv
  · exact .inl rfl
  · simp only [isValidMove, Bool.not_eq_false, Bool.and_eq_true, decide_eq_true_eq,
      Bool.not_eq_true'] at hv
    exact .inr ⟨mem_emptyCells.mpr hv.1, hv.2, rfl⟩

/-- The stone of the computer is on an empty cell, the one that `getBestMove` names. -/
theorem Sound.aiMove_eq_put (h : Sound g) (hend : (g.gameOver_ || g.isDraw) = false)
    (S : StdSort Cell) (rand : Nat) :
    getBestMove S (g.gameOver_ || g.isDraw) g.moveCount_ g.board_ rand ∈ emptyCells g.board_ ∧
      g.aiMove S rand = some (g.put
        (getBestMove S (g.gameOver_ || g.isDraw) g.moveCount_ g.board_ rand) .AI_PLAYER .ai) := by
  have hmem := getBestMove_mem S (g.gameOver_ || g.isDraw) g.moveCount_ g.board_ rand
    (h.emptyCells_ne_nil (Bool.or_eq_false_iff.mp hend).2)
  have hin := (mem_emptyCells.mp hmem).1
  refine ⟨hmem, ?_⟩
  unfold AiGame.aiMove
  rw [if_neg (by simp [hend])]
  exact if_pos hin

theorem aiMove_of_end (hend : (g.gameOver_ || g.isDraw) = true) (S : StdSort Cell)
    (rand : Nat) : g.aiMove S rand = some g := if_pos hend

theorem Sound.humanMove (h : Sound g) (x y : Int) : Sound (g.humanMove x y).2 := by
  rcases humanMove_cases g x y with heq | ⟨hc, hend, heq⟩
  · rw [heq]
    exact h
  · rw [heq]
    exact h.put (Bool.or_eq_false_iff.mp hend).1 hc (.inl ⟨rfl, rfl⟩)

theorem Sound.aiMove (h : Sound g) (S : StdSort Cell) (rand : Nat) :
    ∃ g', g.aiMove S rand = some g' ∧ Sound g' := by
  rcases hend : g.gameOver_ || g.isDraw with _ | _
  · obtain ⟨hc, heq⟩ := h.aiMove_eq_put hend S rand
    exact ⟨_, heq, h.put (Bool.or_eq_false_iff.mp hend).1 hc (.inr ⟨rfl, rfl⟩)⟩
  · exact ⟨g, aiMove_of_end hend S rand, h⟩

theorem Sound.step (h : Sound g) (S : StdSort Cell) (m : Move) :
    ∃ g', g.step S m = some g' ∧ Sound g' := by
  cases m with
  | humanMove x y => exact ⟨_, rfl, h.humanMove x y⟩
  | aiMove rand => exact h.aiMove S rand

theorem Sound.run (h : Sound g) (S : StdSort Cell) (moves : List Move) :
    ∃ g', Lib.run (AiGame.step S) g moves = some g' ∧ Sound g' := by
  induction moves generalizing g with
  | nil => exact ⟨g, rfl, h⟩
  | cons m moves ih =>
    obtain ⟨g₁, hm, h₁⟩ := h.step S m
    obtain ⟨g₂, hrun, h₂⟩ := ih h₁
    exact ⟨g₂, by rw [Lib.run, hm, Option.bind_some, hrun], h₂⟩

/-- **The win check is sound and complete over whole games**: whatever the moves, whatever
`rand` returns and however `std::sort` orders equal scores. -/
theorem gameOver_iff_hasLine (S : StdSort Cell) (moves : List Move) :
    ∃ g, Lib.run (step S) {} moves = some g ∧
      (g.gameOver_ = true ↔ ∃ p, p ≠ .EMPTY ∧ HasLine g.board_ p) ∧
      (HasLine g.board_ .HUMAN_PLAYER → g.winner_ = .human) ∧
      (HasLine g.board_ .AI_PLAYER → g.winner_ = .ai) ∧
      ¬ (HasLine g.board_ .HUMAN_PLAYER ∧ HasLine g.board_ .AI_PLAYER) ∧
      (g.gameOver_ = false → g.winner_ = .none) := by
  obtain ⟨g, hrun, h⟩ := sound_new.run S moves
  refine ⟨g, hrun, ?_⟩
  have hv := h.verdict
  generalize g.gameOver_ = over_, g.winner_ = w at hv
  have hsplit : (∃ p, p ≠ .EMPTY ∧ HasLine g.board_ p) ↔
      HasLine g.board_ .HUMAN_PLAYER ∨ HasLine g.board_ .AI_PLAYER := by
    refine ⟨fun ⟨p, hp, hl⟩ => ?_, fun hl => ?_⟩
    · cases p with
      | EMPTY => exact absurd rfl hp
      | AI_PLAYER => exact .inr hl
      | HUMAN_PLAYER => exact .inl hl
    · exact hl.elim (fun hl => ⟨_, by simp, hl⟩) fun hl => ⟨_, by simp, hl⟩
  rw [hsplit]
  cases hv with
  | undecided hh ha => simp [hh, ha]
  | human hh ha => simp [hh, ha]
  | ai hh ha => simp [hh, ha]

end AiGame
end Workplace.Gomoku
