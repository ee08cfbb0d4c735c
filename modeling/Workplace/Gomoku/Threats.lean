import Workplace.Gomoku.Game

/-! The first two steps of `getBestMove`: a cell that wins for the computer, and then one that
would win for the human. -/

namespace Workplace.Gomoku
open Workplace.Lib

/-- A stone of `p` on the empty cell `c` makes five in a row. -/
def Completes (b : Board) (p : Stone) (c : Cell) : Prop :=
  c ∈ emptyCells b ∧ HasLine (b.place c p) p

variable {b : Board} {p : Stone} {c d : Cell}

theorem completes_iff (hb : ¬ HasLine b p) :
    Completes b p c ↔ c ∈ emptyCells b ∧ checkwin (b.place c p) c p = true :=
  and_congr_right fun hc => (checkwin_place (mem_emptyCells.mp hc).1 hb).symm

def threats (b : Board) (p : Stone) : List Cell :=
  (emptyCells b).filter fun c => checkwin (b.place c p) c p

theorem mem_threats (hb : ¬ HasLine b p) : c ∈ threats b p ↔ Completes b p c := by
  rw [threats, List.mem_filter, completes_iff hb]

/-- The scan over the board finds a completing cell, if there is one. -/
theorem completes_of_winningCell (hb : ¬ HasLine b p) (h : winningCell b p = some c) :
    Completes b p c := by
  have hp := List.find?_some h
  simp only [Bool.and_eq_true, decide_eq_true_eq] at hp
  exact (completes_iff hb).mpr ⟨winningCell_mem h, hp.2⟩

theorem not_completes_of_winningCell (hb : ¬ HasLine b p) (h : winningCell b p = none) :
    ¬ Completes b p c := by
  intro hc
  obtain ⟨hmem, hwin⟩ := (completes_iff hb).mp hc
  have hnone := List.find?_eq_none.mp h c (List.mem_filter.mp hmem).1
  simp only [Bool.and_eq_true, decide_eq_true_eq, not_and] at hnone
  exact hnone (mem_emptyCells.mp hmem).2 hwin

theorem Board.place_comm (b : Board) (p q : Stone) (h : c ≠ d) :
    (b.place c p).place d q = (b.place d q).place c p := by
  rw [Board.place, Board.place, Board.place, Board.place, Function.update_comm h.symm]

/-- A stone of the other colour makes no new threat, and takes away the one on its cell. -/
theorem Completes.of_place {q : Stone} (hq : q ≠ .EMPTY) (hqp : q ≠ p)
    (h : Completes (b.place c q) p d) : d ≠ c ∧ Completes b p d := by
  obtain ⟨hmem, hline⟩ := h
  rw [AiGame.emptyCells_place b c hq] at hmem
  have hne : d ≠ c := by
    rintro rfl
    exact (nodup_cells.filter _).not_mem_erase hmem
  rw [Board.place_comm b q p hne.symm] at hline
  exact ⟨hne, List.mem_of_mem_erase hmem, hline.of_place hqp⟩

namespace AiGame

variable {g : AiGame}

theorem put_of_win {w : Winner} (h : checkwin (g.board_.place c p) c p = true) :
    (g.put c p w).gameOver_ = true ∧ (g.put c p w).winner_ = w := by
  simp only [put, h, if_true, and_self]

theorem put_of_not_win {w : Winner} (h : checkwin (g.board_.place c p) c p = false) :
    (g.put c p w).gameOver_ = g.gameOver_ := by
  simp only [put, h, Bool.false_eq_true, if_false]

theorem Sound.aiMove_win (h : Sound g) (hover : g.gameOver_ = false) (hdraw : g.isDraw = false)
    (S : StdSort Cell) (rand : Nat) (hc : Completes g.board_ .AI_PLAYER c) :
    ∃ g', g.aiMove S rand = some g' ∧ g'.gameOver_ = true ∧ g'.winner_ = .ai := by
  obtain ⟨-, heq⟩ := h.aiMove_eq_put (by rw [hover, hdraw]; rfl) S rand
  obtain ⟨-, ha, -⟩ := h.undecided hover
  rw [getBestMove] at heq
  rcases hfind : winningCell g.board_ .AI_PLAYER with _ | d
  · exact absurd hc (not_completes_of_winningCell ha hfind)
  · rw [hfind] at heq
    have hd := (completes_iff ha).mp (completes_of_winningCell ha hfind)
    exact ⟨_, heq, put_of_win hd.2⟩

theorem Sound.aiMove_block (h : Sound g) (hover : g.gameOver_ = false)
    (hdraw : g.isDraw = false) (S : StdSort Cell) (rand : Nat)
    (hnone : ∀ c, ¬ Completes g.board_ .AI_PLAYER c)
    (hone : ∃! c, Completes g.board_ .HUMAN_PLAYER c) :
    ∃ g', g.aiMove S rand = some g' ∧ g'.gameOver_ = false ∧
      ∀ c, ¬ Completes g'.board_ .HUMAN_PLAYER c := by
  obtain ⟨-, heq⟩ := h.aiMove_eq_put (by rw [hover, hdraw]; rfl) S rand
  obtain ⟨hh, ha, -⟩ := h.undecided hover
  obtain ⟨c, hc, hunique⟩ := hone
  rw [getBestMove] at heq
  rcases hfind : winningCell g.board_ .AI_PLAYER with _ | d
  · rcases hfind' : winningCell g.board_ .HUMAN_PLAYER with _ | d
    · exact absurd hc (not_completes_of_winningCell hh hfind')
    · obtain rfl := hunique d (completes_of_winningCell hh hfind')
      rw [hfind, hfind'] at heq
      refine ⟨_, heq, ?_, fun e he => ?_⟩
      · rw [put_of_not_win, hover]
        refine Bool.eq_false_iff.mpr fun hwin => hnone d ?_
        exact (completes_iff ha).mpr ⟨hc.1, hwin⟩
      · rw [put_board_] at he
        obtain ⟨hne, he⟩ := he.of_place (by decide) (by decide)
        exact hne (hunique e he)
  · exact absurd (completes_of_winningCell ha hfind) (hnone d)

/-- **The computer takes a win and stops a single threat**, in every game that goes on. -/
theorem aiMove_threats (S : StdSort Cell) (moves : List Move)
    (hrun : Lib.run (step S) {} moves = some g) (hover : g.gameOver_ = false)
    (hdraw : g.isDraw = false) (rand : Nat) :
    ∃ g', g.aiMove S rand = some g' ∧
      ((∃ c, Completes g.board_ .AI_PLAYER c) → g'.gameOver_ = true ∧ g'.winner_ = .ai) ∧
      ((¬ ∃ c, Completes g.board_ .AI_PLAYER c) → (∃! c, Completes g.board_ .HUMAN_PLAYER c) →
        g'.gameOver_ = false ∧ ∀ c, ¬ Completes g'.board_ .HUMAN_PLAYER c) := by
  obtain ⟨g₁, hrun', h⟩ := sound_new.run S moves
  obtain rfl := Option.some.inj (hrun.symm.trans hrun')
  obtain ⟨g', hmove, -⟩ := h.aiMove S rand
  refine ⟨g', hmove, fun ⟨c, hc⟩ => ?_, fun hnone hone => ?_⟩
  · obtain ⟨g₂, heq, hwin⟩ := h.aiMove_win hover hdraw S rand hc
    obtain rfl := Option.some.inj (hmove.symm.trans heq)
    exact hwin
  · obtain ⟨g₂, heq, hblock⟩ := h.aiMove_block hover hdraw S rand (not_exists.mp hnone) hone
    obtain rfl := Option.some.inj (hmove.symm.trans heq)
    exact hblock

/-- Four stones of the human at the border, with one cell left to make five. -/
def fourInARow : Board :=
  (((Board.empty.place (0, 0) .HUMAN_PLAYER).place (0, 1) .HUMAN_PLAYER).place (0, 2)
    .HUMAN_PLAYER).place (0, 3) .HUMAN_PLAYER

theorem aiMove_threats_fourInARow :
    ∃ g', aiMove (StdSort.stable Cell)
        { board_ := fourInARow, moveCount_ := 4, lastMove_ := (0, 3) } 0 = some g' ∧
      g'.gameOver_ = false ∧ ∀ c, ¬ Completes g'.board_ .HUMAN_PLAYER c := by
  have hrun : Lib.run (step (StdSort.stable Cell)) {} [.humanMove 0 0, .humanMove 0 1,
      .humanMove 0 2, .humanMove 0 3] =
        some { board_ := fourInARow, moveCount_ := 4, lastMove_ := (0, 3) } := rfl
  obtain ⟨g', hmove, -, hblock⟩ := aiMove_threats _ _ hrun rfl (by decide) 0
  obtain ⟨g, hrun', hsound⟩ := sound_new.run (StdSort.stable Cell) _
  obtain rfl := Option.some.inj (hrun.symm.trans hrun')
  obtain ⟨hh, ha, -⟩ := hsound.undecided rfl
  have hhuman : threats fourInARow .HUMAN_PLAYER = [(0, 4)] := by decide +kernel
  have hai : threats fourInARow .AI_PLAYER = [] := by decide +kernel
  refine ⟨g', hmove, hblock ?_ ⟨(0, 4), (mem_threats hh).mp ?_, fun c hc => ?_⟩⟩
  · rintro ⟨c, hc⟩
    exact List.not_mem_nil (hai ▸ (mem_threats ha).mpr hc)
  · exact hhuman ▸ List.mem_singleton_self _
  · exact List.mem_singleton.mp (hhuman ▸ (mem_threats hh).mpr hc)

end AiGame
end Workplace.Gomoku
