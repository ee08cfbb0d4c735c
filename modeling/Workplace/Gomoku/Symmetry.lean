import Workplace.Gomoku.Minimax

/-! The evaluation of a board that is turned, reflected, or has its colours exchanged. Turning
takes the four directions to each other up to their sense, and neither the order of the two
scans of a line nor that of the cells counts. -/

namespace Workplace.Gomoku

/-- A quarter turn of the square. -/
def turn (c : Cell) : Cell := (c.2, BOARD_SIZE - 1 - c.1)

def mirror (c : Cell) : Cell := (c.1, BOARD_SIZE - 1 - c.2)

/-- The rotations and the reflections of the square. -/
structure Symmetry where
  turns : Fin 4
  mirrored : Bool
  deriving DecidableEq, Fintype

def Symmetry.apply (g : Symmetry) (c : Cell) : Cell :=
  turn^[g.turns] (if g.mirrored then mirror c else c)

namespace Board

def moved (b : Board) (g : Symmetry) : Board := b ∘ g.apply

end Board

def Stone.swap : Stone → Stone
  | .EMPTY => .EMPTY
  | .AI_PLAYER => .HUMAN_PLAYER
  | .HUMAN_PLAYER => .AI_PLAYER

def Board.swapped (b : Board) : Board := Stone.swap ∘ b

example : Function.Injective fun g : Symmetry => g.apply (0, 1) := by decide

/-! ## Directions -/

def opposite (d : Cell) : Cell := (-d.1, -d.2)

theorem along_opposite (c d : Cell) (i : Int) : along c (opposite d) i = along c d (-i) := by
  simp only [along, opposite, mul_neg, neg_mul]

theorem patternType_symm (left right : Nat) (leftBlock rightBlock : Bool) :
    patternType (1 + right + left) rightBlock leftBlock =
      patternType (1 + left + right) leftBlock rightBlock := by
  rw [Nat.add_right_comm]
  unfold patternType
  rw [Bool.and_comm]

theorem evaluateLine_opposite (b : Board) (p : Stone) (c d : Cell) :
    evaluateLine b p c (opposite d) = evaluateLine b p c d := by
  apply Option.some_injective
  rw [some_evaluateLine, some_evaluateLine]
  simp only [along_opposite, neg_neg]
  rw [patternType_symm]

/-! ## Maps of the board -/

/-- A map of the cells that takes the lines in the direction `d` to those in the direction
`m d`. -/
structure LineMap (g m : Cell → Cell) : Prop where
  bijective : Function.Bijective g
  isInBoard : ∀ c, isInBoard (g c) = isInBoard c
  along : ∀ c d i, g (along c d i) = along (g c) (m d) i
  dirs : ∀ f : Cell → Int, (∀ d, f (opposite d) = f d) →
    (dirs.map fun d => f (m d)).sum = (dirs.map f).sum

section LineMap
variable {g m : Cell → Cell} (h : LineMap g m)
include h

theorem LineMap.cells : (cells.map g).Perm cells := by
  have hnodup := nodup_cells.map h.bijective.injective
  refine (List.perm_ext_iff_of_nodup hnodup nodup_cells).mpr fun c => ?_
  rw [List.mem_map, mem_cells]
  constructor
  · rintro ⟨c', hc', rfl⟩
    rw [h.isInBoard]
    exact mem_cells.mp hc'
  · intro hc
    obtain ⟨c', rfl⟩ := h.bijective.surjective c
    rw [h.isInBoard] at hc
    exact ⟨c', mem_cells.mpr hc, rfl⟩

theorem extend_comp (b : Board) (p : Stone) (ns : List Cell) :
    extend (b ∘ g) p ns = extend b p (ns.map g) := by
  induction ns with
  | nil => rfl
  | cons n ns ih =>
    simp only [List.map_cons, extend, ih, h.isInBoard]
    rfl

theorem evaluateLine_comp (b : Board) (p : Stone) (c d : Cell) :
    evaluateLine (b ∘ g) p c d = evaluateLine b p (g c) (m d) := by
  apply Option.some_injective
  rw [some_evaluateLine, some_evaluateLine]
  simp only [extend_comp h, List.map_map]
  simp only [Function.comp_def, h.along]

theorem evaluateBoard_comp (b : Board) (p : Stone) :
    evaluateBoard (b ∘ g) p = evaluateBoard b p := by
  let value (c : Cell) : Int :=
    if b c = p then (dirs.map fun d => evaluateLine b p c d).sum else 0
  have hcell (c : Cell) :
      (dirs.map fun d => evaluateLine (b ∘ g) p c d).sum =
        (dirs.map fun d => evaluateLine b p (g c) d).sum := by
    simp only [evaluateLine_comp h]
    exact h.dirs _ fun d => evaluateLine_opposite b p (g c) d
  have hsum := (h.cells.map value).sum_eq
  rw [List.map_map] at hsum
  unfold evaluateBoard
  simp only [hcell]
  exact hsum

end LineMap

theorem lineMap_turn : LineMap turn fun d => (d.2, -d.1) where
  bijective := by
    refine Function.bijective_iff_has_inverse.mpr ⟨fun c => (BOARD_SIZE - 1 - c.2, c.1), ?_, ?_⟩
    · intro c
      exact Prod.ext (sub_sub_cancel _ c.1) rfl
    · intro c
      exact Prod.ext rfl (sub_sub_cancel _ c.2)
  isInBoard := by
    intro c
    unfold isInBoard turn BOARD_SIZE
    rw [decide_eq_decide]
    dsimp only
    omega
  along := by
    intro c d i
    unfold turn along
    refine Prod.ext rfl ?_
    dsimp only
    ring
  dirs := by
    intro f hf
    have hvertical : f (0, -1) = f (0, 1) := hf (0, 1)
    have hdiagonal : f (-1, -1) = f (1, 1) := hf (1, 1)
    change f (0, -1) + (f (1, 0) + (f (1, -1) + (f (-1, -1) + 0))) =
      f (1, 0) + (f (0, 1) + (f (1, 1) + (f (1, -1) + 0)))
    rw [hvertical, hdiagonal]
    ring

theorem lineMap_mirror : LineMap mirror fun d => (d.1, -d.2) where
  bijective := by
    have hinvolutive : Function.Involutive mirror := by
      intro c
      exact Prod.ext rfl (sub_sub_cancel _ c.2)
    exact hinvolutive.bijective
  isInBoard := by
    intro c
    unfold isInBoard mirror BOARD_SIZE
    rw [decide_eq_decide]
    dsimp only
    omega
  along := by
    intro c d i
    unfold mirror along
    refine Prod.ext rfl ?_
    dsimp only
    ring
  dirs := by
    intro f hf
    have hvertical : f (0, -1) = f (0, 1) := hf (0, 1)
    change f (1, 0) + (f (0, -1) + (f (1, -1) + (f (1, 1) + 0))) =
      f (1, 0) + (f (0, 1) + (f (1, 1) + (f (1, -1) + 0)))
    rw [hvertical]
    ring

theorem evaluateBoard_turns (b : Board) (p : Stone) (k : Nat) :
    evaluateBoard (b ∘ turn^[k]) p = evaluateBoard b p := by
  induction k generalizing b with
  | zero => rfl
  | succ k ih =>
    rw [Function.iterate_succ', ← Function.comp_assoc, ih]
    exact evaluateBoard_comp lineMap_turn b p

theorem evaluateBoard_moved (b : Board) (g : Symmetry) (p : Stone) :
    evaluateBoard (b.moved g) p = evaluateBoard b p := by
  obtain ⟨turns, mirrored⟩ := g
  cases mirrored with
  | false => exact evaluateBoard_turns b p turns
  | true =>
    have hmirror := evaluateBoard_comp lineMap_mirror (b ∘ turn^[turns]) p
    exact hmirror.trans (evaluateBoard_turns b p turns)

/-! ## Colours -/

theorem swapped_eq_mover (b : Board) (maximizing : Bool) (c : Cell) :
    b.swapped c = mover !maximizing ↔ b c = mover maximizing := by
  have hstone : b.swapped c = (b c).swap := rfl
  rw [hstone]
  cases maximizing <;> cases b c <;> decide

theorem swapped_eq_empty (b : Board) (c : Cell) : b.swapped c = .EMPTY ↔ b c = .EMPTY := by
  have hstone : b.swapped c = (b c).swap := rfl
  rw [hstone]
  cases b c <;> decide

/-- The opponent of the one player is the other. -/
theorem extend_mover (b : Board) (maximizing : Bool) (n : Cell) (ns : List Cell) :
    extend b (mover maximizing) (n :: ns) =
      if isInBoard n = false ∨ b n = mover !maximizing then (0, true)
      else if b n = .EMPTY then (0, false)
      else ((extend b (mover maximizing) ns).1 + 1, (extend b (mover maximizing) ns).2) := by
  cases maximizing with
  | false => rfl
  | true => rfl

theorem extend_swapped (b : Board) (maximizing : Bool) (ns : List Cell) :
    extend b.swapped (mover !maximizing) ns = extend b (mover maximizing) ns := by
  induction ns with
  | nil => rfl
  | cons n ns ih =>
    rw [extend_mover, extend_mover, ih]
    simp only [swapped_eq_mover, swapped_eq_empty]

theorem evaluateLine_swapped (b : Board) (maximizing : Bool) (c d : Cell) :
    evaluateLine b.swapped (mover !maximizing) c d = evaluateLine b (mover maximizing) c d := by
  apply Option.some_injective
  rw [some_evaluateLine, some_evaluateLine]
  simp only [extend_swapped]

theorem evaluateBoard_swapped (b : Board) (maximizing : Bool) :
    evaluateBoard b.swapped (mover !maximizing) = evaluateBoard b (mover maximizing) := by
  unfold evaluateBoard
  simp only [swapped_eq_mover, evaluateLine_swapped]

/-- **The evaluation has no bias** of direction or of colour. -/
theorem evaluateBoard_unbiased (b : Board) (maximizing : Bool) :
    (∀ g, evaluateBoard (b.moved g) (mover maximizing) = evaluateBoard b (mover maximizing)) ∧
      evaluateBoard b.swapped (mover !maximizing) = evaluateBoard b (mover maximizing) :=
  ⟨fun g => evaluateBoard_moved b g _, evaluateBoard_swapped b maximizing⟩

end Workplace.Gomoku
