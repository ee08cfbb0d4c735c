import Workplace.Gomoku.Game

/-! The search as the source runs it: on the board of the game itself, with stones put down
and taken back in the scans, in the comparisons of `std::sort` and in `minimax`. Every path
gives the board back, with the result of the search on boards of its own. -/

namespace Workplace.Gomoku
open Workplace.Lib

def stdSort (S : Sorting Cell) : StdSort Cell where
  sort less l := (S.start l).eval less
  perm := S.perm
  sorted := S.sorted

namespace Live

/-- A stone of `player` on `c` for the time of `act`; then `c` is empty. -/
def withStone {α : Type} (c : Cell) (player : Stone) (act : StateM Board α) : StateM Board α := do
  modify (·.place c player)
  let r ← act
  modify (·.place c .EMPTY)
  return r

def winningCell (player : Stone) : List Cell → StateM Board (Option Cell)
  | [] => return none
  | c :: cs => do
    if (← get) c = .EMPTY then
      if ← withStone c player (do return checkwin (← get) c player) then return some c
      else winningCell player cs
    else winningCell player cs

/-- The comparison of the two sorts. -/
def compare (player : Stone) (maximizing : Bool) (x y : Cell) : StateM Board Bool := do
  let scoreA ← withStone x player (do return evaluateBoard (← get) player)
  let scoreB ← withStone y player (do return evaluateBoard (← get) player)
  return if maximizing then decide (scoreA > scoreB) else decide (scoreA < scoreB)

def sortedCandidates (S : Sorting Cell) (player : Stone) (maximizing : Bool) :
    StateM Board (List Cell) := do
  (S.start (candidates (← get))).evalM (compare player maximizing)

def searchLoop (maximizing : Bool) (player : Stone) (score : Int → Int → StateM Board Int) :
    List Cell → Int → Int → Int → StateM Board Int
  | [], best, _, _ => return best
  | c :: cs, best, alpha, beta => do
    let s ← withStone c player (score alpha beta)
    let best := if maximizing then max best s else min best s
    let alpha := if maximizing then max alpha best else alpha
    let beta := if maximizing then beta else min beta best
    if beta ≤ alpha then return best
    else searchLoop maximizing player score cs best alpha beta

def evaluate : StateM Board Int := do
  return evaluateBoard (← get) .AI_PLAYER - evaluateBoard (← get) .HUMAN_PLAYER

def minimax (S : Sorting Cell) (ended : Bool) : Nat → Bool → Int → Int → StateM Board Int
  | 0, _, _, _ => evaluate
  | depth + 1, maximizing, alpha, beta =>
    if ended then evaluate
    else do
      let currentPlayer : Stone := if maximizing then .AI_PLAYER else .HUMAN_PLAYER
      let cs ← sortedCandidates S currentPlayer maximizing
      searchLoop maximizing currentPlayer (minimax S ended depth (!maximizing)) cs
        (if maximizing then INT_MIN else INT_MAX) alpha beta

/-- The loop of step 5 of `getBestMove`, with `bestScore` and `bestMove`. -/
def bestCandidate (score : StateM Board Int) : List Cell → Int × Cell → StateM Board Cell
  | [], best => return best.2
  | c :: cs, best => do
    let s ← withStone c .AI_PLAYER score
    bestCandidate score cs (if s > best.1 then (s, c) else best)

def searchMove (S : Sorting Cell) (ended : Bool) (moveCount_ : Nat) : StateM Board Cell := do
  let MAX_DEPTH := if moveCount_ < 10 then 5 else 3
  let cs ← sortedCandidates S .AI_PLAYER true
  bestCandidate (minimax S ended (MAX_DEPTH - 1) false INT_MIN INT_MAX) cs (INT_MIN, (-1, -1))

def getBestMove (S : Sorting Cell) (ended : Bool) (moveCount_ : Nat) (rand : Nat) :
    StateM Board Cell := do
  match ← winningCell .AI_PLAYER cells with
  | some c => return c
  | none =>
    match ← winningCell .HUMAN_PLAYER cells with
    | some c => return c
    | none =>
      let bestMove ← searchMove S ended moveCount_
      if bestMove.1 = -1 then
        let empty := emptyCells (← get)
        return (empty[rand % empty.length]?).getD bestMove
      else return bestMove

/-! ## Every path restores the board -/

variable {α : Type} {b : Board} {c : Cell} {player : Stone} {S : Sorting Cell} {ended : Bool}

theorem place_place_empty (hc : b c = .EMPTY) (player : Stone) :
    (b.place c player).place c .EMPTY = b := by
  unfold Board.place
  rw [Function.update_idem, ← hc, Function.update_eq_self]

theorem withStone_restores {act : StateM Board α} {v : α} (hc : b c = .EMPTY)
    (hact : Restores act (b.place c player) v) : Restores (withStone c player act) b v :=
  Restores.between (place_place_empty hc player) hact

theorem winningCell_restores (b : Board) (player : Stone) (cs : List Cell) :
    Restores (winningCell player cs) b
      (cs.find? fun c => b c = .EMPTY && checkwin (b.place c player) c player) := by
  induction cs with
  | nil => exact Restores.pure b none
  | cons c cs ih =>
    apply (Restores.get b).bind
    by_cases hc : b c = .EMPTY
    · have hwin : Restores (withStone c player (do return checkwin (← get) c player)) b
          (checkwin (b.place c player) c player) :=
        withStone_restores hc (Restores.read _ fun b => checkwin b c player)
      rw [if_pos hc]
      apply hwin.bind
      by_cases hw : checkwin (b.place c player) c player = true
      · rw [if_pos hw, List.find?_cons_of_pos (by simp [hc, hw])]
        exact Restores.pure b (some c)
      · rw [if_neg hw, List.find?_cons_of_neg (by simp [hw])]
        exact ih
    · rw [if_neg hc, List.find?_cons_of_neg (by simp [hc])]
      exact ih

/-- The comparison that the search on boards of its own sorts by. -/
def less (b : Board) (player : Stone) (maximizing : Bool) (x y : Cell) : Bool :=
  if maximizing then
    decide (evaluateBoard (b.place x player) player > evaluateBoard (b.place y player) player)
  else decide (evaluateBoard (b.place x player) player < evaluateBoard (b.place y player) player)

theorem compare_restores {x y : Cell} (hx : b x = .EMPTY) (hy : b y = .EMPTY) (player : Stone)
    (maximizing : Bool) :
    Restores (compare player maximizing x y) b (less b player maximizing x y) := by
  have hscore {z : Cell} (hz : b z = .EMPTY) :
      Restores (withStone z player (do return evaluateBoard (← get) player)) b
        (evaluateBoard (b.place z player) player) :=
    withStone_restores hz (Restores.read _ fun b => evaluateBoard b player)
  apply (hscore hx).bind
  apply (hscore hy).bind
  exact Restores.pure b _

theorem empty_of_mem_candidates (hc : c ∈ candidates b) : b c = .EMPTY := by
  have h := (List.mem_filter.mp hc).2
  simp only [Bool.and_eq_true, decide_eq_true_eq] at h
  exact h.1

theorem sortedCandidates_restores (S : Sorting Cell) (b : Board) (player : Stone)
    (maximizing : Bool) :
    Restores (sortedCandidates S player maximizing) b
      ((stdSort S).sort (less b player maximizing) (candidates b)) := by
  apply (Restores.get b).bind
  refine Comparing.evalM_restores (fun x y hx hy => ?_) (S.about (candidates b))
  exact compare_restores (empty_of_mem_candidates hx) (empty_of_mem_candidates hy) player
    maximizing

theorem searchLoop_restores {maximizing : Bool} {scoreM : Int → Int → StateM Board Int}
    {score : Cell → Int → Int → Int} {cs : List Cell} (hcs : ∀ c ∈ cs, b c = .EMPTY)
    (hscore : ∀ c ∈ cs, ∀ alpha beta,
      Restores (scoreM alpha beta) (b.place c player) (score c alpha beta))
    (best alpha beta : Int) :
    Restores (searchLoop maximizing player scoreM cs best alpha beta) b
      (Gomoku.searchLoop maximizing score cs best alpha beta) := by
  induction cs generalizing best alpha beta with
  | nil => exact Restores.pure b best
  | cons c cs ih =>
    have hcs' := List.forall_mem_cons.mp hcs
    have hscore' := List.forall_mem_cons.mp hscore
    apply (withStone_restores hcs'.1 (hscore'.1 alpha beta)).bind
    apply Restores.ite
    · exact fun _ => Restores.pure b _
    · exact fun _ => ih hcs'.2 hscore'.2 _ _ _

theorem evaluate_restores (b : Board) :
    Restores evaluate b (evaluateBoard b .AI_PLAYER - evaluateBoard b .HUMAN_PLAYER) := rfl

theorem empty_of_mem_sort {less : Cell → Cell → Bool}
    (hc : c ∈ (stdSort S).sort less (candidates b)) : b c = .EMPTY :=
  empty_of_mem_candidates (((stdSort S).perm _ _).subset hc)

/-- **`minimax` gives the board back** at every depth, pruned or not. -/
theorem minimax_restores (S : Sorting Cell) (ended : Bool) (depth : Nat) (b : Board)
    (maximizing : Bool) (alpha beta : Int) :
    Restores (minimax S ended depth maximizing alpha beta) b
      (Gomoku.minimax (stdSort S) ended depth b maximizing alpha beta) := by
  induction depth generalizing b maximizing alpha beta with
  | zero => exact evaluate_restores b
  | succ depth ih =>
    apply Restores.ite
    · exact fun _ => evaluate_restores b
    · intro _
      apply (sortedCandidates_restores S b _ maximizing).bind
      apply searchLoop_restores
      · exact fun c hc => empty_of_mem_sort hc
      · exact fun c _ alpha beta => ih _ _ alpha beta

theorem bestCandidate_restores {scoreM : StateM Board Int} {score : Cell → Int} {cs : List Cell}
    (hcs : ∀ c ∈ cs, b c = .EMPTY)
    (hscore : ∀ c ∈ cs, Restores scoreM (b.place c .AI_PLAYER) (score c)) (best : Int × Cell) :
    Restores (bestCandidate scoreM cs best) b
      (cs.foldl (fun best c => if score c > best.1 then (score c, c) else best) best).2 := by
  induction cs generalizing best with
  | nil => exact Restores.pure b best.2
  | cons c cs ih =>
    have hcs' := List.forall_mem_cons.mp hcs
    have hscore' := List.forall_mem_cons.mp hscore
    apply (withStone_restores hcs'.1 hscore'.1).bind
    exact ih hcs'.2 hscore'.2 _

theorem searchMove_restores (S : Sorting Cell) (ended : Bool) (moveCount_ : Nat) (b : Board) :
    Restores (searchMove S ended moveCount_) b
      (Gomoku.searchMove (stdSort S) ended moveCount_ b) := by
  apply (sortedCandidates_restores S b .AI_PLAYER true).bind
  apply bestCandidate_restores
  · exact fun c hc => empty_of_mem_sort hc
  · exact fun c _ => minimax_restores S ended _ _ false INT_MIN INT_MAX

/-- **`getBestMove` gives the board back**, with the move found on boards of its own. -/
theorem getBestMove_restores (S : Sorting Cell) (ended : Bool) (moveCount_ rand : Nat)
    (b : Board) :
    Restores (getBestMove S ended moveCount_ rand) b
      (Gomoku.getBestMove (stdSort S) ended moveCount_ b rand) := by
  unfold getBestMove Gomoku.getBestMove
  have hscan (player : Stone) :
      Restores (winningCell player cells) b (Gomoku.winningCell b player) :=
    winningCell_restores b player cells
  apply (hscan .AI_PLAYER).bind
  rcases Gomoku.winningCell b .AI_PLAYER with _ | c
  · apply (hscan .HUMAN_PLAYER).bind
    rcases Gomoku.winningCell b .HUMAN_PLAYER with _ | c
    · apply (searchMove_restores S ended moveCount_ b).bind
      apply Restores.ite
      · exact fun _ => Restores.read b _
      · exact fun _ => Restores.pure b _
    · exact Restores.pure b c
  · exact Restores.pure b c

/-! ## Whole games -/

def aiMove (S : Sorting Cell) (g : AiGame) (rand : Nat) : Option AiGame :=
  if g.gameOver_ || g.isDraw then some g
  else
    let (c, board) := (getBestMove S (g.gameOver_ || g.isDraw) g.moveCount_ rand).run g.board_
    if isInBoard c then some ({ g with board_ := board }.put c .AI_PLAYER .ai) else none

def step (S : Sorting Cell) (g : AiGame) : AiGame.Move → Option AiGame
  | .humanMove x y => some (g.humanMove x y).2
  | .aiMove rand => aiMove S g rand

open AiGame (Move Sound occupied)

variable {g g' : AiGame}

theorem aiMove_eq (S : Sorting Cell) (g : AiGame) (rand : Nat) :
    aiMove S g rand = g.aiMove (stdSort S) rand := by
  unfold aiMove AiGame.aiMove
  split_ifs with hend
  · rfl
  · have hbest := getBestMove_restores S (g.gameOver_ || g.isDraw) g.moveCount_ rand g.board_
    unfold Restores at hbest
    rw [hbest]

theorem step_eq (S : Sorting Cell) : step S = AiGame.step (stdSort S) := by
  funext g m
  cases m with
  | humanMove x y => rfl
  | aiMove rand => exact aiMove_eq S g rand

theorem step_cases (h : Sound g) (m : Move) (hs : step S g m = some g') :
    g' = g ∨ ∃ d p w, d ∈ emptyCells g.board_ ∧ p ≠ .EMPTY ∧ g' = g.put d p w := by
  rw [step_eq] at hs
  cases m with
  | humanMove x y =>
    obtain rfl := Option.some.inj hs
    rcases g.humanMove_cases x y with heq | ⟨hd, -, heq⟩
    · exact .inl (congrArg Prod.snd heq)
    · exact .inr ⟨_, _, _, hd, by simp, congrArg Prod.snd heq⟩
  | aiMove rand =>
    have hai : g.aiMove (stdSort S) rand = some g' := hs
    rcases hend : g.gameOver_ || g.isDraw with _ | _
    · obtain ⟨hd, heq⟩ := h.aiMove_eq_put hend (stdSort S) rand
      rw [heq] at hai
      exact .inr ⟨_, .AI_PLAYER, .ai, hd, by simp, (Option.some.inj hai).symm⟩
    · rw [AiGame.aiMove_of_end hend] at hai
      exact .inl (Option.some.inj hai).symm

/-- The runs from a new game, each with the cell whose content changed last. -/
inductive ChangedLast (S : Sorting Cell) : List Move → AiGame → Option Cell → Prop
  | new : ChangedLast S [] {} none
  | same {moves g g' m last} (h : ChangedLast S moves g last) (hm : step S g m = some g')
      (hb : g'.board_ = g.board_) : ChangedLast S (moves ++ [m]) g' last
  | changed {moves g g' m last c} (h : ChangedLast S moves g last) (hm : step S g m = some g')
      (hb : ∀ d, g'.board_ d ≠ g.board_ d ↔ d = c) : ChangedLast S (moves ++ [m]) g' (some c)

theorem place_ne_iff (hc : b c = .EMPTY) (hp : player ≠ .EMPTY) (d : Cell) :
    b.place c player d ≠ b d ↔ d = c := by
  by_cases hd : d = c
  · simp [hd, hc, hp]
  · simp [hd, Board.place_ne b player hd]

theorem ChangedLast.step {moves : List Move} {last : Option Cell} {m : Move}
    (hlast : ChangedLast S moves g last) (h : Sound g) (heq : g.lastMove_ = last.getD (-1, -1))
    (hm : step S g m = some g') :
    ∃ last', ChangedLast S (moves ++ [m]) g' last' ∧ g'.lastMove_ = last'.getD (-1, -1) := by
  rcases step_cases h m hm with rfl | ⟨d, p, w, hd, hp, rfl⟩
  · exact ⟨last, hlast.same hm rfl, heq⟩
  · refine ⟨some d, hlast.changed hm fun e => ?_, by simp⟩
    rw [AiGame.put_board_]
    exact place_ne_iff (mem_emptyCells.mp hd).2 hp e

theorem exists_changedLast (S : Sorting Cell) (moves : List Move) :
    ∃ g last, run (step S) {} moves = some g ∧ Sound g ∧ ChangedLast S moves g last ∧
      g.lastMove_ = last.getD (-1, -1) := by
  induction moves using List.reverseRecOn with
  | nil => exact ⟨{}, none, rfl, AiGame.sound_new, .new, rfl⟩
  | append_singleton moves m ih =>
    obtain ⟨g, last, hrun, h, hlast, heq⟩ := ih
    obtain ⟨g', hm, h'⟩ := h.step (stdSort S) m
    rw [← step_eq] at hm
    obtain ⟨last', hlast', heq'⟩ := hlast.step h heq hm
    refine ⟨g', last', ?_, h', hlast', heq'⟩
    rw [run_append, hrun, Option.bind_some, run, hm]
    rfl

/-- **The board over whole games**: the count is the number of stones, `lastMove_` the cell
changed last, a refused move does nothing, and the computer, if it moves, puts one stone on the
empty cell of the board that `getBestMove` returns. -/
theorem board_integrity (S : Sorting Cell) (moves : List Move) :
    ∃ g, run (step S) {} moves = some g ∧
      g.moveCount_ = (occupied g.board_).length ∧
      (∃ last, ChangedLast S moves g last ∧ g.lastMove_ = last.getD (-1, -1)) ∧
      (∀ x y, (g.humanMove x y).1 = false → (g.humanMove x y).2 = g) ∧
      ∀ rand,
        ((g.gameOver_ || g.isDraw) = true ∧ aiMove S g rand = some g) ∨
        ((g.gameOver_ || g.isDraw) = false ∧
          ∃ c g', getBestMove S false g.moveCount_ rand g.board_ = (c, g.board_) ∧
            isInBoard c = true ∧ g.board_ c = .EMPTY ∧ aiMove S g rand = some g' ∧
            g'.board_ c = .AI_PLAYER ∧ ∀ d, d ≠ c → g'.board_ d = g.board_ d) := by
  obtain ⟨g, last, hrun, h, hlast, heq⟩ := exists_changedLast S moves
  refine ⟨g, hrun, h.count, ⟨last, hlast, heq⟩, fun x y hfalse => ?_, fun rand => ?_⟩
  · rcases g.humanMove_cases x y with hmove | ⟨-, -, hmove⟩
    · rw [hmove]
    · rw [hmove] at hfalse
      cases hfalse
  · rcases hend : g.gameOver_ || g.isDraw with _ | _
    · obtain ⟨hc, hmove⟩ := h.aiMove_eq_put hend (stdSort S) rand
      rw [hend] at hc hmove
      obtain ⟨hin, hempty⟩ := mem_emptyCells.mp hc
      refine .inr ⟨rfl, _, _, getBestMove_restores S false g.moveCount_ rand g.board_, hin, hempty,
        (aiMove_eq S g rand).trans hmove, by simp, fun d hd => ?_⟩
      rw [AiGame.put_board_, Board.place_ne _ _ hd]
    · exact .inl ⟨rfl, (aiMove_eq S g rand).trans (AiGame.aiMove_of_end hend (stdSort S) rand)⟩

end Live
end Workplace.Gomoku
