import Workplace.Gomoku.Symmetry
import Workplace.Gomoku.Threats

/-! What the move of the computer is worth, and that a turned or mirrored board is played no
worse: its best moves are those of the board, turned and mirrored with it. -/

namespace Workplace.Gomoku
open Workplace.Lib

/-! ## Maps of the board that the rules of the game do not notice -/

/-- What the search and the rules look at stays the same under `g`. -/
structure Keeps (g : Cell → Cell) : Prop where
  bijective : Function.Bijective g
  isInBoard : ∀ c, isInBoard (g c) = isInBoard c
  cells : (cells.map g).Perm cells
  near : ∀ (b : Board) c, isNearOccupied (b ∘ g) c = isNearOccupied b (g c)
  hasLine : ∀ (b : Board) p, HasLine (b ∘ g) p ↔ HasLine b p
  evaluateBoard : ∀ (b : Board) p, evaluateBoard (b ∘ g) p = evaluateBoard b p

theorem keeps_id : Keeps id :=
  ⟨Function.bijective_id, fun _ => rfl, .of_eq (List.map_id _), fun _ _ => rfl, fun _ _ => .rfl,
    fun _ _ => rfl⟩

theorem Keeps.comp {g h : Cell → Cell} (hg : Keeps g) (hh : Keeps h) : Keeps (g ∘ h) where
  bijective := hg.bijective.comp hh.bijective
  isInBoard c := (hg.isInBoard (h c)).trans (hh.isInBoard c)
  cells := by
    rw [← List.map_map]
    exact (hh.cells.map g).trans hg.cells
  near b c := (hh.near (b ∘ g) c).trans (hg.near b (h c))
  hasLine b p := (hh.hasLine (b ∘ g) p).trans (hg.hasLine b p)
  evaluateBoard b p := (hh.evaluateBoard (b ∘ g) p).trans (hg.evaluateBoard b p)

theorem Keeps.iterate {g : Cell → Cell} (hg : Keeps g) (k : Nat) : Keeps g^[k] := by
  induction k with
  | zero => exact keeps_id
  | succ k ih => exact ih.comp hg

/-- The cells around one, as `isNearOccupied` lists them. -/
def around : List Cell :=
  [(-1, -1), (-1, 0), (-1, 1), (0, -1), (0, 1), (1, -1), (1, 0), (1, 1)]

section LineMap
variable {g m : Cell → Cell} (h : LineMap g m)
include h

theorem isNearOccupied_comp (hm : (around.map m).Perm around) (b : Board) (c : Cell) :
    isNearOccupied (b ∘ g) c = isNearOccupied b (g c) := by
  let occupied (d : Cell) : Bool := isInBoard (along (g c) d 1) && b (along (g c) d 1) ≠ .EMPTY
  have hall : isNearOccupied (b ∘ g) c = around.any fun d => occupied (m d) := by
    simp only [occupied, ← h.along, h.isInBoard]
    rfl
  have hperm := hm.any_eq (f := occupied)
  rw [List.any_map] at hperm
  exact hall.trans hperm

theorem hasLine_of_comp (hm : ∀ d ∈ dirs, m d ∈ dirs ∨ opposite (m d) ∈ dirs) {b : Board}
    {p : Stone} (hline : HasLine (b ∘ g) p) : HasLine b p := by
  obtain ⟨c, d, hd, hall⟩ := hline
  have hholds : ∀ i : Nat, i ≤ 4 → b.holds p (along (g c) (m d) i) = true := by
    intro i hi
    rw [← h.along, Board.holds, h.isInBoard]
    exact hall i hi
  rcases hm d hd with hmd | hmd
  · exact ⟨g c, m d, hmd, hholds⟩
  · -- the same cells from the other end
    refine ⟨along (g c) (m d) 4, opposite (m d), hmd, fun i hi => ?_⟩
    rw [along_opposite, along_along]
    have hcell := hholds (4 - i) (Nat.sub_le 4 i)
    rwa [Nat.cast_sub hi] at hcell

end LineMap

theorem turn_four (c : Cell) : turn^[4] c = c :=
  Prod.ext (sub_sub_cancel _ c.1) (sub_sub_cancel _ c.2)

theorem mirror_mirror (c : Cell) : mirror (mirror c) = c := Prod.ext rfl (sub_sub_cancel _ c.2)

theorem keeps_turn : Keeps turn := by
  have hline : ∀ {b : Board} {p : Stone}, HasLine (b ∘ turn) p → HasLine b p :=
    fun {_ _} hl => hasLine_of_comp lineMap_turn (by decide) hl
  refine ⟨lineMap_turn.bijective, lineMap_turn.isInBoard, lineMap_turn.cells,
    isNearOccupied_comp lineMap_turn (by decide), fun b p => ⟨hline, fun hl => ?_⟩,
    evaluateBoard_comp lineMap_turn⟩
  -- three turns more and the board is back
  have hback : b = ((b ∘ turn) ∘ turn) ∘ turn ∘ turn :=
    funext fun c => congrArg b (turn_four c).symm
  rw [hback] at hl
  exact hline (hline (hline hl))

theorem keeps_mirror : Keeps mirror := by
  have hline : ∀ {b : Board} {p : Stone}, HasLine (b ∘ mirror) p → HasLine b p :=
    fun {_ _} hl => hasLine_of_comp lineMap_mirror (by decide) hl
  refine ⟨lineMap_mirror.bijective, lineMap_mirror.isInBoard, lineMap_mirror.cells,
    isNearOccupied_comp lineMap_mirror (by decide), fun b p => ⟨hline, fun hl => ?_⟩,
    evaluateBoard_comp lineMap_mirror⟩
  have hback : b = (b ∘ mirror) ∘ mirror := funext fun c => congrArg b (mirror_mirror c).symm
  rw [hback] at hl
  exact hline hl

theorem keeps_apply (g : Symmetry) : Keeps g.apply := by
  obtain ⟨turns, mirrored⟩ := g
  cases mirrored with
  | false => exact keeps_turn.iterate turns
  | true => exact (keeps_turn.iterate turns).comp keeps_mirror

/-! ## Best moves -/

/-- What the search says of a move of the computer. -/
def value (depth : Nat) (b : Board) (c : Cell) : Int := unpruned depth false (b.place c .AI_PLAYER)

/-- A cell that wins at once, else one on which the human would win, else a candidate that the
search values highest. -/
@[mk_iff]
structure BestMove (depth : Nat) (b : Board) (c : Cell) : Prop where
  wins : (∃ d, Completes b .AI_PLAYER d) → Completes b .AI_PLAYER c
  stops : (¬ ∃ d, Completes b .AI_PLAYER d) → (∃ d, Completes b .HUMAN_PLAYER d) →
    Completes b .HUMAN_PLAYER c
  searched : (¬ ∃ d, Completes b .AI_PLAYER d) → (¬ ∃ d, Completes b .HUMAN_PLAYER d) →
    c ∈ candidates b ∧ ∀ d ∈ candidates b, value depth b d ≤ value depth b c

section Comp
variable {g : Cell → Cell} (h : Keeps g) (b : Board) (p : Stone) (c : Cell)
include h

theorem place_comp : Board.place (b ∘ g) c p = b.place (g c) p ∘ g :=
  (Function.update_comp_eq_of_injective b h.bijective.injective c p).symm

theorem candidates_comp : ((candidates (b ∘ g)).map g).Perm (candidates b) := by
  have hfilter := h.cells.filter fun c => b c = .EMPTY && isNearOccupied b c
  rw [List.filter_map] at hfilter
  have hcandidates : candidates (b ∘ g) =
      cells.filter ((fun c => decide (b c = .EMPTY) && isNearOccupied b c) ∘ g) :=
    List.filter_congr fun d _ => congrArg (_ && ·) (h.near b d)
  rw [hcandidates]
  exact hfilter

theorem mem_candidates_comp : c ∈ candidates (b ∘ g) ↔ g c ∈ candidates b := by
  rw [← (candidates_comp h b).mem_iff, List.mem_map_of_injective h.bijective.injective]

theorem unpruned_comp (depth : Nat) (side : Bool) :
    unpruned depth side (b ∘ g) = unpruned depth side b := by
  rw [← plain_minimax, ← plain_minimax]
  refine AlphaBeta.Game.minimax_of_related (R := fun b b' => b = b' ∘ g) g ?_ ?_ ?_ depth side rfl
  · rintro _ b rfl
    exact congrArg₂ (· - ·) (h.evaluateBoard b .AI_PLAYER) (h.evaluateBoard b .HUMAN_PLAYER)
  · rintro _ b rfl -
    exact candidates_comp h b
  · rintro _ b rfl side c
    exact place_comp h b (mover side) c

theorem value_comp (depth : Nat) : value depth (b ∘ g) c = value depth b (g c) := by
  rw [value, place_comp h, unpruned_comp h]
  rfl

theorem completes_comp : Completes (b ∘ g) p c ↔ Completes b p (g c) := by
  rw [Completes, Completes, place_comp h, h.hasLine, mem_emptyCells, mem_emptyCells, h.isInBoard]
  rfl

theorem exists_completes_comp : (∃ c, Completes (b ∘ g) p c) ↔ ∃ c, Completes b p c := by
  simp only [completes_comp h]
  exact h.bijective.surjective.exists.symm

/-- The best moves move with the board. -/
theorem bestMove_comp (depth : Nat) : BestMove depth (b ∘ g) c ↔ BestMove depth b (g c) := by
  have hmax : (∀ d ∈ candidates (b ∘ g), value depth (b ∘ g) d ≤ value depth (b ∘ g) c) ↔
      ∀ d ∈ candidates b, value depth b d ≤ value depth b (g c) := by
    rw [h.bijective.surjective.forall (p := fun d => d ∈ candidates b → _)]
    simp only [mem_candidates_comp h, value_comp h]
  rw [bestMove_iff, bestMove_iff, exists_completes_comp h, exists_completes_comp h,
    completes_comp h, completes_comp h, mem_candidates_comp h, hmax]

end Comp

/-! ## The search has something to choose -/

/-- What spreads from a cell to the cells around it is everywhere on the board. -/
theorem everywhere_of_spreads {P : Cell → Prop}
    (hspread : ∀ c, ∀ d ∈ around, P c → isInBoard (along c d 1) = true → P (along c d 1))
    {c c' : Cell} (hc : isInBoard c = true) (hP : P c) (hc' : isInBoard c' = true) : P c' := by
  obtain ⟨n, hn⟩ : ∃ n, n = (c'.1 - c.1).natAbs + (c'.2 - c.2).natAbs := ⟨_, rfl⟩
  induction n generalizing c with
  | zero =>
    have hcc : c' = c := Prod.ext (by omega) (by omega)
    rwa [hcc]
  | succ n ih =>
    -- one step towards the cell, along a row or a column
    obtain ⟨d, hd, hstep⟩ : ∃ d ∈ around, isInBoard (along c d 1) = true ∧
        n = (c'.1 - (along c d 1).1).natAbs + (c'.2 - (along c d 1).2).natAbs := by
      simp only [isInBoard, decide_eq_true_eq] at hc hc'
      simp only [isInBoard, decide_eq_true_eq, along, one_mul]
      rcases lt_trichotomy c.1 c'.1 with hlt | heq | hlt
      · exact ⟨(1, 0), by decide, by omega, by omega⟩
      · rcases lt_trichotomy c.2 c'.2 with hlt' | heq' | hlt'
        · exact ⟨(0, 1), by decide, by omega, by omega⟩
        · omega
        · exact ⟨(0, -1), by decide, by omega, by omega⟩
      · exact ⟨(-1, 0), by decide, by omega, by omega⟩
    exact ih hstep.1 (hspread c d hd hP hstep.1) hstep.2

theorem isNearOccupied_of_around {b : Board} {c d : Cell} (hd : d ∈ around)
    (hin : isInBoard c = true) (hc : b c ≠ .EMPTY) : isNearOccupied b (along c d 1) = true := by
  have hback : along (along c d 1) (opposite d) 1 = c := by
    rw [along_opposite, along_along, add_neg_cancel, along_zero]
  have hopposite : ∀ d ∈ around, opposite d ∈ around := by decide
  refine List.any_eq_true.mpr ⟨opposite d, hopposite d hd, ?_⟩
  rw [hback, hin]
  exact decide_eq_true hc

/-- Some empty cell is next to a stone, unless the board is empty or full. -/
theorem candidates_ne_nil {b : Board} {c c' : Cell} (hc : isInBoard c = true)
    (hstone : b c ≠ .EMPTY) (hc' : c' ∈ emptyCells b) : candidates b ≠ [] := by
  intro hnil
  obtain ⟨hin', hempty⟩ := mem_emptyCells.mp hc'
  have hall : isInBoard c' = true ∧ b c' ≠ .EMPTY := by
    refine everywhere_of_spreads (P := fun c => isInBoard c = true ∧ b c ≠ .EMPTY)
      (fun c d hd hP hin => ⟨hin, fun hcell => ?_⟩) hc ⟨hc, hstone⟩ hin'
    have hmem : along c d 1 ∈ candidates b := by
      refine List.mem_filter.mpr ⟨mem_cells.mpr hin, ?_⟩
      rw [isNearOccupied_of_around hd hP.1 hP.2, decide_eq_true hcell]
      rfl
    rw [hnil] at hmem
    exact List.not_mem_nil hmem
  exact hall.2 hempty

theorem mem_emptyCells_of_mem_candidates {b : Board} {c : Cell} (hc : c ∈ candidates b) :
    c ∈ emptyCells b := by
  obtain ⟨hcell, hempty⟩ := List.mem_filter.mp hc
  exact List.mem_filter.mpr ⟨hcell, (Bool.and_eq_true_iff.mp hempty).1⟩

/-- The search finds a value above the lowest `int` as long as the cells last. -/
theorem lt_unpruned (depth : Nat) (side : Bool) {b : Board} {c : Cell} (hc : isInBoard c = true)
    (hstone : b c ≠ .EMPTY) (hroom : depth ≤ (emptyCells b).length) :
    INT_MIN < unpruned depth side b := by
  induction depth generalizing side b c with
  | zero => exact (staticEvaluation_bounds b).1
  | succ depth ih =>
    have hvalue : ∀ d ∈ candidates b,
        INT_MIN < unpruned depth (!side) (b.place d (mover side)) := by
      intro d hd
      have hmem := mem_emptyCells_of_mem_candidates hd
      have hmover : mover side ≠ .EMPTY := by cases side <;> decide
      refine ih (!side) (c := d) (mem_emptyCells.mp hmem).1 (by rwa [Board.place_self]) ?_
      rw [AiGame.emptyCells_place b d hmover, List.length_erase_of_mem hmem]
      omega
    cases side with
    | true =>
      have hne : candidates b ≠ [] := by
        obtain ⟨c', hc'⟩ := List.exists_mem_of_length_pos (Nat.zero_lt_of_lt hroom)
        exact candidates_ne_nil hc hstone hc'
      obtain ⟨d, ds, hds⟩ := List.exists_cons_of_ne_nil hne
      rw [unpruned, hds, List.foldl_cons]
      have hd := hvalue d (hds ▸ List.mem_cons_self)
      exact hd.trans_le ((le_max_right _ _).trans (AlphaBeta.le_foldl_max _ ds _))
    | false =>
      have hle : INT_MIN + 1 ≤ unpruned (depth + 1) false b :=
        AlphaBeta.foldl_max_le (α := Intᵒᵈ) _ _ (show INT_MIN + 1 ≤ INT_MAX by decide)
          fun d hd => Int.add_one_le_of_lt (hvalue d hd)
      exact Int.lt_of_add_one_le hle

/-- The loop over the sorted candidates finds one of the highest value. -/
theorem searchMove_max (S : StdSort Cell) (moveCount_ : Nat) {b : Board} {c : Cell}
    (hc : c ∈ candidates b)
    (hvalue : INT_MIN < value ((if moveCount_ < 10 then 5 else 3) - 1) b c) :
    searchMove S false moveCount_ b ∈ candidates b ∧ ∀ d ∈ candidates b,
      value ((if moveCount_ < 10 then 5 else 3) - 1) b d ≤
        value ((if moveCount_ < 10 then 5 else 3) - 1) b (searchMove S false moveCount_ b) := by
  have hsort := S.perm (fun x y => decide (evaluateBoard (b.place x .AI_PLAYER) .AI_PLAYER >
    evaluateBoard (b.place y .AI_PLAYER) .AI_PLAYER)) (candidates b)
  have heq : searchMove S false moveCount_ b = bestCandidate
      (value ((if moveCount_ < 10 then 5 else 3) - 1) b) (S.sort _ (candidates b)) :=
    congrArg (bestCandidate · _) (funext fun d => minimax_eq_unpruned S _ _ _)
  obtain ⟨hmem, hmax⟩ := bestCandidate_max _ (hsort.mem_iff.mpr hc) hvalue
  rw [heq]
  exact ⟨hsort.mem_iff.mp hmem, fun d hd => hmax d (hsort.mem_iff.mpr hd)⟩

/-- **The computer plays a best move** where the search finds one above the lowest `int`. -/
theorem getBestMove_best (S : StdSort Cell) (moveCount_ : Nat) {b : Board} (rand : Nat)
    (hh : ¬ HasLine b .HUMAN_PLAYER) (ha : ¬ HasLine b .AI_PLAYER) {c : Cell}
    (hc : c ∈ candidates b)
    (hvalue : INT_MIN < value ((if moveCount_ < 10 then 5 else 3) - 1) b c) :
    BestMove ((if moveCount_ < 10 then 5 else 3) - 1) b
      (getBestMove S false moveCount_ b rand) := by
  rw [getBestMove]
  rcases hai : winningCell b .AI_PLAYER with _ | d
  · have hno : ¬ ∃ d, Completes b .AI_PLAYER d := by
      rintro ⟨d, hd⟩
      exact not_completes_of_winningCell ha hai hd
    rcases hhuman : winningCell b .HUMAN_PLAYER with _ | d
    · have hno' : ¬ ∃ d, Completes b .HUMAN_PLAYER d := by
        rintro ⟨d, hd⟩
        exact not_completes_of_winningCell hh hhuman hd
      have hsearch := searchMove_max S moveCount_ hc hvalue
      have hin := (mem_emptyCells.mp (mem_emptyCells_of_mem_candidates hsearch.1)).1
      have hrow : (searchMove S false moveCount_ b).1 ≠ -1 := by
        intro hrow
        simp only [isInBoard, hrow, decide_eq_true_eq] at hin
        omega
      simp only [if_neg hrow]
      exact ⟨fun hwin => absurd hwin hno, fun _ hstop => absurd hstop hno', fun _ _ => hsearch⟩
    · exact ⟨fun hwin => absurd hwin hno, fun _ _ => completes_of_winningCell hh hhuman,
        fun _ hno' => absurd ⟨d, completes_of_winningCell hh hhuman⟩ hno'⟩
  · have hd := completes_of_winningCell ha hai
    exact ⟨fun _ => hd, fun hno => absurd ⟨d, hd⟩ hno, fun hno => absurd ⟨d, hd⟩ hno⟩

/-- While more than two cells are left, the search values every candidate above the lowest
`int`, and there is one. -/
theorem AiGame.Sound.exists_valued {g : AiGame} (h : g.Sound) (hstone : 0 < g.moveCount_)
    (hroom : g.moveCount_ + 2 < BOARD_SIZE * BOARD_SIZE) :
    ∃ c ∈ candidates g.board_,
      INT_MIN < value ((if g.moveCount_ < 10 then 5 else 3) - 1) g.board_ c := by
  have hsum := length_occupied_add g.board_
  have hsize : BOARD_SIZE * BOARD_SIZE = 225 := rfl
  rw [← h.count] at hsum
  obtain ⟨c, hc⟩ := List.exists_mem_of_length_pos (h.count ▸ hstone)
  obtain ⟨c', hc'⟩ : ∃ c', c' ∈ emptyCells g.board_ :=
    List.exists_mem_of_length_pos (by omega)
  obtain ⟨hcell, hstone'⟩ := List.mem_filter.mp hc
  obtain ⟨d, hd⟩ := List.exists_mem_of_ne_nil _
    (candidates_ne_nil (mem_cells.mp hcell) (of_decide_eq_true hstone') hc')
  have hmem := mem_emptyCells_of_mem_candidates hd
  refine ⟨d, hd, lt_unpruned _ _ (mem_emptyCells.mp hmem).1 ?_ ?_⟩
  · rw [Board.place_self]
    decide
  · rw [emptyCells_place _ _ (by decide), List.length_erase_of_mem hmem]
    split_ifs <;> omega

/-- **The computer plays a best move, however the board lies.** In every game that goes on,
with a stone on the board and more than two cells left, the move that `getBestMove` finds on the
turned or mirrored board is, turned back, a best move on the board. -/
theorem plays_best_turned (S S' : StdSort Cell) (moves : List AiGame.Move) {g : AiGame}
    (hrun : run (AiGame.step S) {} moves = some g) (hover : g.gameOver_ = false)
    (hstone : 0 < g.moveCount_) (hroom : g.moveCount_ + 2 < BOARD_SIZE * BOARD_SIZE)
    (s : Symmetry) (rand : Nat) :
    BestMove ((if g.moveCount_ < 10 then 5 else 3) - 1) g.board_
      (s.apply (getBestMove S' (g.gameOver_ || g.isDraw) g.moveCount_ (g.board_.moved s) rand)) := by
  obtain ⟨g', hrun', hsound⟩ := AiGame.sound_new.run S moves
  obtain rfl := Option.some.inj (hrun.symm.trans hrun')
  obtain ⟨hh, ha, -⟩ := hsound.undecided hover
  have hended : (g.gameOver_ || g.isDraw) = false := by
    rw [hover, Bool.false_or]
    exact decide_eq_false (by omega)
  have hkeeps := keeps_apply s
  obtain ⟨c, hc, hvalue⟩ := hsound.exists_valued hstone hroom
  obtain ⟨c, rfl⟩ := hkeeps.bijective.surjective c
  rw [hended, ← bestMove_comp hkeeps]
  exact getBestMove_best S' g.moveCount_ rand (mt (hkeeps.hasLine _ _).mp hh)
    (mt (hkeeps.hasLine _ _).mp ha) ((mem_candidates_comp hkeeps _ c).mpr hc)
    ((value_comp hkeeps _ c _).symm ▸ hvalue)

/-- The human has begun in the middle of the first row. -/
theorem plays_best_turned_begun :
    BestMove 4 (Board.empty.place (0, 7) .HUMAN_PLAYER) (Symmetry.apply ⟨1, true⟩
      (getBestMove (StdSort.stable Cell) false 1
        ((Board.empty.place (0, 7) .HUMAN_PLAYER).moved ⟨1, true⟩) 0)) := by
  have hrun : run (AiGame.step (StdSort.stable Cell)) {} [.humanMove 0 7] =
      some { board_ := Board.empty.place (0, 7) .HUMAN_PLAYER, moveCount_ := 1,
             lastMove_ := (0, 7) } := rfl
  exact plays_best_turned _ (StdSort.stable Cell) _ hrun rfl (by decide) (by decide) ⟨1, true⟩ 0

end Workplace.Gomoku
