import Workplace.Lib.Window

/-! The board of `AiGame` and its win check, `AiGame::checkwin`, which looks only along the
lines through the last stone. -/

namespace Workplace.Gomoku
open Workplace.Lib

inductive Stone where
  | EMPTY
  | AI_PLAYER
  | HUMAN_PLAYER
  deriving DecidableEq, Repr

def BOARD_SIZE : Nat := 15

abbrev Cell := Int × Int

/-- What the cells hold. Only the cells of `cells` are there. -/
abbrev Board := Cell → Stone

/-- The cells in the order of the two nested loops of the source. -/
def cells : List Cell :=
  (List.range BOARD_SIZE).flatMap fun i : Nat =>
    (List.range BOARD_SIZE).map fun j : Nat => ((i : Int), (j : Int))

def isInBoard (c : Cell) : Bool :=
  decide (0 ≤ c.1 ∧ c.1 < BOARD_SIZE ∧ 0 ≤ c.2 ∧ c.2 < BOARD_SIZE)

theorem mem_cells {c : Cell} : c ∈ cells ↔ isInBoard c = true := by
  obtain ⟨x, y⟩ := c
  simp only [cells, isInBoard, List.mem_flatMap, List.mem_map, List.mem_range, Prod.mk.injEq,
    decide_eq_true_eq]
  constructor
  · rintro ⟨i, hi, j, hj, rfl, rfl⟩
    omega
  · rintro ⟨hx, hx', hy, hy'⟩
    exact ⟨x.toNat, by omega, y.toNat, by omega, by omega, by omega⟩

theorem length_cells : cells.length = BOARD_SIZE * BOARD_SIZE := by
  simp [cells, BOARD_SIZE]

theorem nodup_cells : cells.Nodup := by
  have hcells : cells = (List.product (List.range BOARD_SIZE) (List.range BOARD_SIZE)).map
      (Prod.map Nat.cast Nat.cast) := by
    simp [cells, List.product, List.map_flatMap, Function.comp_def]
  rw [hcells]
  exact (List.nodup_range.product List.nodup_range).map
    (Nat.cast_injective.prodMap Nat.cast_injective)

namespace Board

def empty : Board := fun _ => .EMPTY

def place (b : Board) (c : Cell) (player : Stone) : Board := Function.update b c player

@[simp] theorem place_self (b : Board) (c : Cell) (p : Stone) : b.place c p c = p := by
  simp only [place, Function.update_self]

theorem place_ne (b : Board) {c d : Cell} (p : Stone) (h : d ≠ c) : b.place c p d = b d := by
  simp only [place, Function.update_of_ne h]

def holds (b : Board) (player : Stone) (c : Cell) : Bool := isInBoard c && b c = player

end Board

/-! ## Lines -/

/-- Row, column and the two diagonals, as `dx` and `dy` of the source give them. -/
def dirs : List Cell := [(1, 0), (0, 1), (1, 1), (1, -1)]

def along (c d : Cell) (i : Int) : Cell := (c.1 + i * d.1, c.2 + i * d.2)

def checkwin (b : Board) (c : Cell) (player : Stone) : Bool :=
  dirs.any fun d =>
    let count := 1 + Window.reach 4 (fun i => b.holds player (along c d i)) +
      Window.reach 4 (fun i => b.holds player (along c d (-i)))
    5 ≤ count

/-- Five consecutive stones of `player`, anywhere on the board. -/
def HasLine (b : Board) (player : Stone) : Prop :=
  ∃ c, ∃ d ∈ dirs, ∀ i : Nat, i ≤ 4 → b.holds player (along c d i) = true

theorem along_along (c d : Cell) (i j : Int) : along (along c d i) d j = along c d (i + j) := by
  simp only [along, Prod.mk.injEq]
  constructor <;> ring

theorem along_zero (c d : Cell) : along c d 0 = c := by
  simp [along]

/-- The check counts the runs through `c`, and takes `c` itself for granted. -/
theorem checkwin_iff {b : Board} {c : Cell} {p : Stone} (hc : b.holds p c = true) :
    checkwin b c p = true ↔
      ∃ d ∈ dirs, ∃ k : Nat, k ≤ 4 ∧
        ∀ i : Nat, i ≤ 4 → b.holds p (along c d (i - k)) = true := by
  simp only [checkwin, List.any_eq_true, decide_eq_true_eq]
  refine exists_congr fun d => and_congr_right fun _ => ?_
  rw [show (5 : Nat) = 4 + 1 from rfl, Window.window_iff (fun i => b.holds p (along c d i)) 4]
  refine exists_congr fun k => and_congr_right fun _ => ⟨fun h i hi => ?_, fun h i hi _ => h i hi⟩
  by_cases hik : i = k
  · rw [hik, sub_self, along_zero]
    exact hc
  · exact h i hi hik

/-- A line that a stone completes goes through that stone. -/
theorem checkwin_place {b : Board} {c : Cell} {p : Stone} (hc : isInBoard c = true)
    (hb : ¬ HasLine b p) : checkwin (b.place c p) c p = true ↔ HasLine (b.place c p) p := by
  rw [checkwin_iff (by simp [Board.holds, hc])]
  constructor
  · rintro ⟨d, hd, k, -, h⟩
    refine ⟨along c d (-k), d, hd, fun i hi => ?_⟩
    rw [along_along, neg_add_eq_sub]
    exact h i hi
  · rintro ⟨s, d, hd, h⟩
    obtain ⟨k, hk, rfl⟩ : ∃ k : Nat, k ≤ 4 ∧ along s d k = c := by
      by_contra hnone
      push Not at hnone
      refine hb ⟨s, d, hd, fun i hi => ?_⟩
      have hi' := h i hi
      rwa [Board.holds, Board.place_ne b p (hnone i hi), ← Board.holds] at hi'
    refine ⟨d, hd, k, hk, fun i hi => ?_⟩
    rw [along_along, add_sub_cancel]
    exact h i hi

theorem HasLine.of_place {b : Board} {c : Cell} {p q : Stone} (hpq : p ≠ q)
    (h : HasLine (b.place c p) q) : HasLine b q := by
  obtain ⟨s, d, hd, h⟩ := h
  refine ⟨s, d, hd, fun i hi => ?_⟩
  have hi' := h i hi
  have hne : along s d i ≠ c := by
    rintro rfl
    simp [Board.holds, hpq] at hi'
  rwa [Board.holds, Board.place_ne b p hne, ← Board.holds] at hi'

theorem not_hasLine_empty {p : Stone} (hp : p ≠ .EMPTY) : ¬ HasLine Board.empty p := by
  rintro ⟨s, d, -, h⟩
  have h0 := h 0 (by decide)
  simp [Board.holds, Board.empty, hp.symm] at h0

end Workplace.Gomoku
