import Workplace.Gomoku.JsonText
import Workplace.Gomoku.PrivateGames
import Workplace.Gomoku.Responses

/-! The page of the game, `ChessGameVsAi.html`, and the server behind it: the page keeps a board
of its own, and the two are one game. -/

namespace Workplace.Gomoku
open Workplace.Http Workplace.Lib

/-! ## The script of the page -/

namespace Json

/-- `data[key]`; `none` is `undefined`. -/
def field : Json → Bytes → Option Json
  | .obj entries, key => (entries.find? fun e => e.1 = key).map Prod.snd
  | _, _ => none

def text : Option Json → Option Bytes
  | some (.str s) => some s
  | _ => none

def number : Option Json → Option Int
  | some (.int i) => some i
  | _ => none

theorem field_self (key : Bytes) (v : Json) (entries : List (Bytes × Json)) :
    field (.obj ((key, v) :: entries)) key = some v := by
  simp [field]

theorem field_ne {key key' : Bytes} (h : key' ≠ key) (v : Json) (entries : List (Bytes × Json)) :
    field (.obj ((key', v) :: entries)) key = field (.obj entries) key := by
  simp [field, h]

theorem field_nil (key : Bytes) : field (.obj []) key = none := rfl

end Json

/-- The black stones are those of the human. `isGameActive` is always true and
`currentPlayer` is never read. -/
structure Page where
  boardState : Board := Board.empty
  isGameOver : Bool := false
  isThinking : Bool := false
  -- the cells have their listener
  listening : Bool := true
  -- calls of `setTimeout` whose callback has not run
  timeouts : Nat := 0

namespace Page

def isValidMove (p : Page) (c : Cell) : Bool := isInBoard c && p.boardState c = .EMPTY

/-- The page after a click on the cell, and the body of its `fetch`. -/
def handleCellClick (p : Page) (c : Cell) : Page × Option Cell :=
  if !p.listening || p.isGameOver || p.isThinking then (p, none)
  else if p.isValidMove c = false then (p, none)
  else
    ({ p with boardState := p.boardState.place c .HUMAN_PLAYER, isThinking := true }, some c)

/-- The stone of the computer; `none` is a `TypeError`. -/
def showMove (p : Page) (data : Json) : Option Page := do
  let aiMove ← data.field (bytes "last_move")
  let x ← Json.number (aiMove.field (bytes "x"))
  let y ← Json.number (aiMove.field (bytes "y"))
  if isInBoard (x, y) then some { p with boardState := p.boardState.place (x, y) .AI_PLAYER }
  else none

/-- What follows the check for a winner. -/
def showAnswer (p : Page) (data : Json) : Page :=
  if Json.text (data.field (bytes "status")) = some (bytes "error") then p
  else (p.showMove data).getD p

/-- The callback of `fetch`. A `TypeError` ends it, with what it has set so far. -/
def receive (p : Page) (data : Json) : Page :=
  let p := { p with isThinking := false }
  let winner := Json.text (data.field (bytes "winner"))
  if winner = some (bytes "none") then p.showAnswer data
  else
    let p := { p with isGameOver := true }
    if winner = some (bytes "human") then { p with timeouts := p.timeouts + 1 }.showAnswer data
    else
      match p.showMove data with
      | none => p
      | some p => { p with timeouts := p.timeouts + 1 }.showAnswer data

/-- The callback of `setTimeout`. -/
def disableBoard (p : Page) : Page := { p with listening := false, timeouts := p.timeouts - 1 }

def restartGame (p : Page) : Page := { timeouts := p.timeouts }

end Page

/-! ## The page and the server -/

section Source
variable (J : JsonLib) (S : StdSort Cell)

/-- The response to a request. -/
def response (s : GomokuServer) (r : Env × HttpRequest) : HttpResponse :=
  (handle J S r.1 r.2 { server := s, resp := { closeConnection_ := wantsClose r.2 } }).resp

/-- The page of the user, its requests and the bodies of the responses that are under way. -/
structure Play where
  server : GomokuServer
  page : Page := {}
  requests : List Cell := []
  responses : List Bytes := []

inductive PlayAct where
  | click (c : Cell)
  -- a request of the page
  | serve (r : Env × HttpRequest)
  -- a request that is not about the user's game
  | other (r : Env × HttpRequest)
  | receive (body : Bytes)
  | disableBoard
  | restartGame

/-- `json` is `response.json()`, and `u` the user of the page. -/
def Play.step (json : Bytes → Option Json) (u : Int) (s : Play) : PlayAct → Option Play
  | .click c =>
    if isInBoard c then
      let (page, sent) := s.page.handleCellClick c
      some { s with page, requests := s.requests ++ sent.toList }
    else none
  | .serve r =>
    match turnOf J s.server r with
    | some (v, .move x y _) =>
      if v = u ∧ (x, y) ∈ s.requests then
        some { s with
          server := Gomoku.serve J S s.server r
          requests := s.requests.erase (x, y)
          responses := s.responses ++ [(response J S s.server r).body_] }
      else none
    | _ => none
  | .other r =>
    if (turnOf J s.server r).map Prod.fst = some u then none
    else some { s with server := Gomoku.serve J S s.server r }
  | .receive body =>
    if body ∈ s.responses then
      some { s with
        page := (json body).elim s.page s.page.receive
        responses := s.responses.erase body }
    else none
  | .disableBoard =>
    if 0 < s.page.timeouts then some { s with page := s.page.disableBoard } else none
  | .restartGame => some { s with page := s.page.restartGame }

end Source

/-- `json` gives back the documents that are dumped. -/
def ReadsBack (J : JsonLib) (json : Bytes → Option Json) : Prop :=
  ∀ document body, document.Dumpable → document.dump J none 0 = .ok body →
    json body = some document

/-! ## The answer to a move -/

/-- The document of a game that the human has ended. -/
def finishedDocument (game : Game) (winner : Json) : Json :=
  .obj [(bytes "board", game.getBoard), (bytes "next_turn", .str (bytes "none")),
    (bytes "status", .str (bytes "ok")), (bytes "winner", winner)]

def answeredDocument (game : Game) (next_turn : Bytes) (winner : Json) : Json :=
  .obj [(bytes "board", game.getBoard), (bytes "last_move", game.getLastMove),
    (bytes "next_turn", .str next_turn), (bytes "status", .str (bytes "ok")),
    (bytes "winner", winner)]

/-- What the server says about a move that it took. -/
def moveDocument (S : StdSort Cell) (rand : Nat) (moved : Game) : Json :=
  if moved.state.gameOver_ then finishedDocument moved moved.getWinner
  else if moved.state.isDraw then finishedDocument moved (.str (bytes "draw"))
  else
    let game := moved.aiMove S rand
    if game.state.gameOver_ then answeredDocument game (bytes "none") game.getWinner
    else if game.state.isDraw then answeredDocument game (bytes "none") (.str (bytes "draw"))
    else answeredDocument game (bytes "human") (.str (bytes "none"))

theorem dumpable_moveDocument {S : StdSort Cell} (rand : Nat) (moved : Game) :
    (moveDocument S rand moved).Dumpable := by
  have hwin := dumpable_getWinner
  unfold moveDocument
  dsimp only
  split_ifs
  · exact dumpable_finished _ (hwin _)
  · exact dumpable_finished _ (.str (by decide))
  · exact dumpable_answered _ (by decide) (hwin _)
  · exact dumpable_answered _ (by decide) (.str (by decide))
  · exact dumpable_answered _ (by decide) (.str (by decide))

section Answers
variable {J : JsonLib} {S : StdSort Cell} {env : Env} {x : Exchange GomokuServer}
  {req : HttpRequest}

theorem ends_moveReply_body {document : Json} (hd : document.Dumpable)
    {Q : Unit → Exchange GomokuServer → Prop} {E : Bytes → Exchange GomokuServer → Prop}
    (hQ : ∀ x', document.dump J none 0 = .ok x'.resp.body_ → Q () x') :
    Ends (moveReply J req document) x Q E := by
  unfold moveReply
  rw [ends_bind, ends_dumped_of_dumpable J hd]
  obtain ⟨t, ht⟩ : ∃ t, document.dump J none 0 = .ok t := hd.exists_dump 0
  exact ⟨t, ht, hQ _ ht⟩

theorem body_answerMove (v : Int) (moved : Game) {E : Bytes → Exchange GomokuServer → Prop} :
    Ends (answerMove J S env req v moved) x
      (fun _ x' => (moveDocument S env.rand moved).dump J none 0 = .ok x'.resp.body_) E := by
  have hwin := dumpable_getWinner
  unfold answerMove
  simp only [ends_ite, ends_bind, ends_setGame]
  split_ifs with hover hdraw hover' hdraw'
  · have hdoc : moveDocument S env.rand moved = finishedDocument moved moved.getWinner :=
      if_pos hover
    rw [hdoc]
    exact ends_moveReply_body (dumpable_finished _ (hwin _)) fun _ h => h
  · have hdoc : moveDocument S env.rand moved = finishedDocument moved (.str (bytes "draw")) := by
      rw [moveDocument, if_neg hover, if_pos hdraw]
    rw [hdoc]
    exact ends_moveReply_body (dumpable_finished _ (.str (by decide))) fun _ h => h
  all_goals
    simp only [moveDocument, if_neg hover, if_neg hdraw]
  · rw [if_pos hover']
    exact ends_moveReply_body (dumpable_answered _ (by decide) (hwin _)) fun _ h => h
  · rw [if_neg hover', if_pos hdraw']
    exact ends_moveReply_body (dumpable_answered _ (by decide) (.str (by decide))) fun _ h => h
  · rw [if_neg hover', if_neg hdraw']
    exact ends_moveReply_body (dumpable_answered _ (by decide) (.str (by decide))) fun _ h => h

theorem of_turnOf_move {s : GomokuServer} {v xm ym : Int} {rand : Nat}
    (h : turnOf J s (env, req) = some (v, .move xm ym rand)) :
    routeOf req.method_ req.path_ = some .move ∧ isLoggedIn (sessionOf env s req) = true ∧
      userOf env s req = some v ∧ moveOf J req = .ok (xm, ym) ∧ rand = env.rand := by
  unfold turnOf at h
  dsimp only at h
  split at h
  · split_ifs at h
    obtain ⟨u, -, hu⟩ := Option.map_eq_some_iff.mp h
    cases hu
  · split_ifs at h
    obtain ⟨u, -, hu⟩ := Option.map_eq_some_iff.mp h
    cases hu
  · next hroute =>
    split_ifs at h with hlogin
    obtain ⟨u, huser, h⟩ := Option.bind_eq_some_iff.mp h
    obtain ⟨move, hmove, h⟩ := Option.bind_eq_some_iff.mp h
    cases h
    refine ⟨hroute, hlogin, huser, ?_, rfl⟩
    cases hm : moveOf J req with
    | error what =>
      rw [hm] at hmove
      cases hmove
    | ok move' =>
      rw [hm] at hmove
      exact congrArg Except.ok (Option.some.inj hmove)
  · split_ifs at h
    obtain ⟨u, -, h⟩ := Option.bind_eq_some_iff.mp h
    obtain ⟨gameType, -, h⟩ := Option.bind_eq_some_iff.mp h
    split_ifs at h
    cases h
  · cases h

variable (J S) in
/-- The body of the response to a move that the game takes. -/
theorem body_response {s : GomokuServer} {r : Env × HttpRequest} {v xm ym : Int} {rand : Nat}
    (hturn : turnOf J s r = some (v, .move xm ym rand))
    (hmoved : (((s.game_map_.lookup v).getD .new).humanMove xm ym).1 = true) :
    (moveDocument S rand (((s.game_map_.lookup v).getD .new).humanMove xm ym).2).dump J none 0 =
      .ok (response J S s r).body_ := by
  obtain ⟨env, req⟩ := r
  obtain ⟨hroute, hlogin, huser, hmove, rfl⟩ := of_turnOf_move hturn
  unfold response
  refine (handle_iff J S env req _ fun x => _ = Except.ok x.resp.body_).mpr ?_
  have hopt : req.method_ ≠ .kOptions := by
    intro hopt
    rw [hopt] at hroute
    cases hroute
  rw [if_neg hopt, hroute]
  show Ends (aiMoveHandler J S env req) _ _ _
  unfold aiMoveHandler
  rw [ends_tryCatch, ends_bind, ends_getSession, ends_ite, hlogin, if_neg Bool.false_ne_true.symm]
  have hid : stoiText ((sessionOf env s req).getValue (bytes "userId")) = .ok v := by
    unfold userOf at huser
    cases hid : stoiText ((sessionOf env s req).getValue (bytes "userId")) with
    | error what =>
      rw [hid] at huser
      cases huser
    | ok v' =>
      rw [hid] at huser
      exact congrArg Except.ok (Option.some.inj huser)
  rw [ends_bind, hid, ends_lift_ok, ends_bind, hmove, ends_lift_ok]
  unfold takeMove
  rw [ends_bind, ends_get, ends_bind, ends_setGame, ends_ite]
  split_ifs with hrefused
  · cases hmoved.symm.trans hrefused
  · exact body_answerMove _ _

end Answers

/-! ## What the page makes of it -/

section Documents
variable (game : Game) (turn : Bytes) (winner : Json) (p : Page)

theorem finished_winner : (finishedDocument game winner).field (bytes "winner") = some winner := by
  rw [finishedDocument, Json.field_ne (by decide), Json.field_ne (by decide),
    Json.field_ne (by decide), Json.field_self]

theorem finished_last_move : (finishedDocument game winner).field (bytes "last_move") = none := by
  rw [finishedDocument, Json.field_ne (by decide), Json.field_ne (by decide),
    Json.field_ne (by decide), Json.field_ne (by decide), Json.field_nil]

theorem answered_winner :
    (answeredDocument game turn winner).field (bytes "winner") = some winner := by
  rw [answeredDocument, Json.field_ne (by decide), Json.field_ne (by decide),
    Json.field_ne (by decide), Json.field_ne (by decide), Json.field_self]

theorem answered_status :
    (answeredDocument game turn winner).field (bytes "status") = some (.str (bytes "ok")) := by
  rw [answeredDocument, Json.field_ne (by decide), Json.field_ne (by decide),
    Json.field_ne (by decide), Json.field_self]

theorem answered_last_move :
    (answeredDocument game turn winner).field (bytes "last_move") = some game.getLastMove := by
  rw [answeredDocument, Json.field_ne (by decide), Json.field_self]

theorem showMove_finished : p.showMove (finishedDocument game winner) = none := by
  rw [Page.showMove, finished_last_move]
  rfl

theorem showMove_answered (hin : isInBoard game.state.lastMove_ = true) :
    p.showMove (answeredDocument game turn winner) = some
      { p with boardState := p.boardState.place game.state.lastMove_ .AI_PLAYER } := by
  have hx : game.getLastMove.field (bytes "x") = some (.int game.state.lastMove_.1) := by
    rw [Game.getLastMove, Json.field_self]
  have hy : game.getLastMove.field (bytes "y") = some (.int game.state.lastMove_.2) := by
    rw [Game.getLastMove, Json.field_ne (by decide), Json.field_self]
  rw [Page.showMove, answered_last_move]
  simp only [Option.bind_eq_bind, Option.bind_some, hx, hy, Json.number, Prod.mk.eta]
  exact if_pos hin

theorem showAnswer_answered (hin : isInBoard game.state.lastMove_ = true) :
    p.showAnswer (answeredDocument game turn winner) =
      { p with boardState := p.boardState.place game.state.lastMove_ .AI_PLAYER } := by
  have hok : ¬ Json.text (some (.str (bytes "ok"))) = some (bytes "error") := by decide
  rw [Page.showAnswer, answered_status, if_neg hok, showMove_answered _ _ _ _ hin]
  rfl

/-- The board stays: the human's stone is on it. -/
theorem receive_finished {w : Bytes} (hw : w ≠ bytes "none") :
    let p' := p.receive (finishedDocument game (.str w))
    p'.isThinking = false ∧ p'.isGameOver = true ∧ p'.boardState = p.boardState := by
  have hnone : ¬ Json.text (some (.str w)) = some (bytes "none") := fun h => hw (Option.some.inj h)
  intro p'
  have hp' : p' = p.receive (finishedDocument game (.str w)) := rfl
  rw [Page.receive] at hp'
  simp only [finished_winner, if_neg hnone, Page.showAnswer, showMove_finished,
    Option.getD_none, ite_self] at hp'
  rw [hp']
  split_ifs <;> exact ⟨rfl, rfl, rfl⟩

theorem receive_answered {w : Bytes} (hin : isInBoard game.state.lastMove_ = true) :
    let p' := p.receive (answeredDocument game turn (.str w))
    p'.isThinking = false ∧ p'.isGameOver = (p.isGameOver || decide (w ≠ bytes "none")) ∧
      p'.boardState = p.boardState.place game.state.lastMove_ .AI_PLAYER := by
  intro p'
  have hp' : p' = p.receive (answeredDocument game turn (.str w)) := rfl
  rw [Page.receive] at hp'
  simp only [answered_winner, showAnswer_answered _ _ _ _ hin, showMove_answered _ _ _ _ hin,
    Json.text, Option.some.injEq] at hp'
  by_cases hnone : w = bytes "none"
  · rw [if_pos hnone] at hp'
    rw [hp', decide_eq_false (not_not.mpr hnone), Bool.or_false]
    exact ⟨rfl, rfl, rfl⟩
  · rw [if_neg hnone] at hp'
    rw [decide_eq_true hnone, Bool.or_true, hp']
    have hidem : (p.boardState.place game.state.lastMove_ .AI_PLAYER).place
        game.state.lastMove_ .AI_PLAYER = p.boardState.place game.state.lastMove_ .AI_PLAYER :=
      Function.update_idem _ _ _
    split_ifs
    · exact ⟨rfl, rfl, rfl⟩
    · exact ⟨rfl, rfl, hidem⟩

end Documents

/-! ## One game on both sides -/

/-- Nobody can move on: somebody has five in a row, or the board is full. -/
def Over (b : Board) : Prop := HasLine b .HUMAN_PLAYER ∨ HasLine b .AI_PLAYER ∨ emptyCells b = []

/-- The page waits for the human, or shows how the game ended, which is out of the table. -/
def Page.Shows (p : Page) (entry : Option Game) : Prop :=
  p.isThinking = false ∧
    if p.isGameOver then entry = none ∧ Over p.boardState
    else p.boardState = (entry.getD .new).state.board_

theorem Page.Shows.over {p : Page} {entry : Option Game} (hthink : p.isThinking = false)
    (hover : p.isGameOver = true) (hentry : entry = none) (hb : Over p.boardState) :
    p.Shows entry := by
  refine ⟨hthink, ?_⟩
  rw [if_pos hover]
  exact ⟨hentry, hb⟩

theorem Page.Shows.onTurn {p : Page} {entry : Option Game} (hthink : p.isThinking = false)
    (hover : p.isGameOver = false) (hb : p.boardState = (entry.getD .new).state.board_) :
    p.Shows entry := by
  refine ⟨hthink, ?_⟩
  rw [if_neg (Bool.eq_false_iff.mp hover)]
  exact hb

namespace Game
variable {game : Game}

theorem over_of_gameOver (h : game.state.gameOver_ = true) : Over game.state.board_ := by
  have hv := game.sound.verdict
  rw [h] at hv
  generalize game.state.winner_ = winner at hv
  cases hv with
  | human hh ha => exact .inl hh
  | ai hh ha => exact .inr (.inl ha)

theorem over_of_isDraw (h : game.state.isDraw = true) : Over game.state.board_ := by
  have hcount : BOARD_SIZE * BOARD_SIZE ≤ game.state.moveCount_ := of_decide_eq_true h
  have hsum := AiGame.length_occupied_add game.state.board_
  rw [← game.sound.count] at hsum
  exact .inr (.inr (List.eq_nil_of_length_eq_zero (by omega)))

/-- Who has won is named. -/
theorem exists_getWinner (h : game.state.gameOver_ = true) :
    ∃ w, game.getWinner = .str w ∧ w ≠ bytes "none" := by
  have hv := game.sound.verdict
  rw [h] at hv
  unfold getWinner
  generalize game.state.winner_ = winner at hv
  cases hv with
  | human hh ha => exact ⟨_, rfl, by decide⟩
  | ai hh ha => exact ⟨_, rfl, by decide⟩

end Game

variable {S : StdSort Cell}

/-- **The page shows what the server has done** with a move: the stone of the computer is where
the server has put it, and the game is over on the page if it is out of the table. -/
theorem shows_receive {p : Page} {moved : Game} (rand : Nat)
    (hb : p.boardState = moved.state.board_) (hover : p.isGameOver = false) :
    (p.receive (moveDocument S rand moved)).Shows (afterMove S rand moved) := by
  have hstop {winner : Json} (hw : ∃ w, winner = .str w ∧ w ≠ bytes "none")
      (hend : Over moved.state.board_) (hentry : afterMove S rand moved = none) :
      (p.receive (finishedDocument moved winner)).Shows (afterMove S rand moved) := by
    obtain ⟨w, rfl, hw⟩ := hw
    obtain ⟨hthink, hover', hb'⟩ := receive_finished moved p hw
    refine Page.Shows.over hthink hover' hentry ?_
    rw [hb', hb]
    exact hend
  unfold moveDocument
  split_ifs with hgame hdraw
  · exact hstop (Game.exists_getWinner hgame) (Game.over_of_gameOver hgame)
      (if_pos (by simp [Game.ended, hgame]))
  · exact hstop ⟨_, rfl, by decide⟩ (Game.over_of_isDraw hdraw)
      (if_pos (by simp [Game.ended, hdraw]))
  · have hended : (moved.state.gameOver_ || moved.state.isDraw) = false := by simp [hgame, hdraw]
    obtain ⟨hc, hai⟩ := moved.sound.aiMove_eq_put hended S rand
    rw [Game.state_aiMove, Option.some.injEq] at hai
    have hlast : isInBoard (moved.aiMove S rand).state.lastMove_ = true := by
      rw [hai, AiGame.put_lastMove_]
      exact (mem_emptyCells.mp hc).1
    have hplace : moved.state.board_.place (moved.aiMove S rand).state.lastMove_ .AI_PLAYER =
        (moved.aiMove S rand).state.board_ := by
      rw [hai, AiGame.put_lastMove_, AiGame.put_board_]
    have hafter : afterMove S rand moved =
        if (moved.aiMove S rand).ended then none else some (moved.aiMove S rand) :=
      if_neg (Bool.eq_false_iff.mp hended)
    dsimp only
    split_ifs with hgame' hdraw'
    · obtain ⟨w, hwinner, hw⟩ := Game.exists_getWinner hgame'
      rw [hwinner]
      obtain ⟨hthink, hover', hb'⟩ := receive_answered _ (bytes "none") p (w := w) hlast
      refine Page.Shows.over hthink (by rw [hover', decide_eq_true hw, Bool.or_true]) ?_ ?_
      · rw [hafter, if_pos (by simp [Game.ended, hgame'])]
      · rw [hb', hb, hplace]
        exact Game.over_of_gameOver hgame'
    · obtain ⟨hthink, hover', hb'⟩ := receive_answered _ (bytes "none") p (w := bytes "draw") hlast
      have hne : bytes "draw" ≠ bytes "none" := by decide
      refine Page.Shows.over hthink (by rw [hover', decide_eq_true hne, Bool.or_true]) ?_ ?_
      · rw [hafter, if_pos (by simp [Game.ended, hdraw'])]
      · rw [hb', hb, hplace]
        exact Game.over_of_isDraw hdraw'
    · obtain ⟨hthink, hover', hb'⟩ := receive_answered _ (bytes "human") p (w := bytes "none") hlast
      refine Page.Shows.onTurn hthink (by rw [hover', hover]; simp) ?_
      rw [hafter, if_neg (by simp [Game.ended, hgame', hdraw']), hb', hb, hplace]
      rfl

/-! ## Runs -/

section Runs
variable {J : JsonLib} {json : Bytes → Option Json} {u : Int} {s s' : Play}

namespace Play

def entry (s : Play) (u : Int) : Option Game := s.server.game_map_.lookup u

/-- Where the one move is that can be under way, and that the page shows it already. -/
inductive Agrees (J : JsonLib) (S : StdSort Cell) (u : Int) (s : Play) : Prop
  | settled (hreq : s.requests = []) (hresp : s.responses = [])
      (h : s.page.Shows (s.entry u)) : Agrees J S u s
  | asked (c : Cell) (hreq : s.requests = [c]) (hresp : s.responses = [])
      (hthink : s.page.isThinking = true) (hover : s.page.isGameOver = false)
      (hmoved : (((s.entry u).getD .new).humanMove c.1 c.2).1 = true)
      (hb : s.page.boardState = (((s.entry u).getD .new).humanMove c.1 c.2).2.state.board_) :
      Agrees J S u s
  | answered (body : Bytes) (rand : Nat) (moved : Game) (hreq : s.requests = [])
      (hresp : s.responses = [body]) (hthink : s.page.isThinking = true)
      (hover : s.page.isGameOver = false)
      (hdump : (moveDocument S rand moved).dump J none 0 = .ok body)
      (hb : s.page.boardState = moved.state.board_)
      (hentry : s.entry u = afterMove S rand moved) : Agrees J S u s

end Play

theorem Page.handleCellClick_cases (p : Page) (c : Cell) :
    p.handleCellClick c = (p, none) ∨
      p.isGameOver = false ∧ p.isThinking = false ∧ isInBoard c = true ∧
        p.boardState c = .EMPTY ∧
        p.handleCellClick c = ({ p with
          boardState := p.boardState.place c .HUMAN_PLAYER, isThinking := true }, some c) := by
  unfold handleCellClick
  split_ifs with hbusy hvalid
  · exact .inl rfl
  · exact .inl rfl
  · simp only [Bool.or_eq_true, not_or, Bool.not_eq_true] at hbusy
    simp only [isValidMove, Bool.not_eq_false, Bool.and_eq_true, decide_eq_true_eq] at hvalid
    exact .inr ⟨hbusy.1.2, hbusy.2, hvalid.1, hvalid.2, rfl⟩

/-- A game on turn takes every move on an empty cell. -/
theorem Game.humanMove_of_onTurn {game : Game} {c : Cell} (h : OnTurn game.state)
    (hin : isInBoard c = true) (hempty : game.state.board_ c = .EMPTY) :
    (game.humanMove c.1 c.2).1 = true ∧
      (game.humanMove c.1 c.2).2.state.board_ = game.state.board_.place c .HUMAN_PLAYER := by
  have hdraw : game.state.isDraw = false := by
    have hroom := h.room
    rw [← game.sound.count] at hroom
    exact decide_eq_false (by simp only [BOARD_SIZE]; omega)
  have hvalid : game.state.isValidMove (c.1, c.2) = true := by
    simp [AiGame.isValidMove, hin, hempty, h.unfinished, hdraw]
  have hmove : game.state.humanMove c.1 c.2 =
      (true, game.state.put c .HUMAN_PLAYER .human) := by
    rw [AiGame.humanMove, if_neg (by simp [hvalid])]
  refine ⟨congrArg Prod.fst hmove, ?_⟩
  have hstate : (game.humanMove c.1 c.2).2.state = game.state.put c .HUMAN_PLAYER .human :=
    congrArg Prod.snd hmove
  rw [hstate, AiGame.put_board_]

namespace Play.Agrees

theorem click (hon : AllOnTurn s.server.game_map_) (h : Agrees J S u s) (c : Cell) :
    Agrees J S u { s with
      page := (s.page.handleCellClick c).1
      requests := s.requests ++ (s.page.handleCellClick c).2.toList } := by
  rcases s.page.handleCellClick_cases c with heq | ⟨hover, hthink, hin, hempty, heq⟩
  · rw [heq]
    simpa using h
  · rw [heq]
    cases h with
    | settled hreq hresp h =>
      have hb : s.page.boardState = ((s.entry u).getD .new).state.board_ := by
        have hshown := h.2
        rwa [if_neg (Bool.eq_false_iff.mp hover)] at hshown
      rw [hb] at hempty
      obtain ⟨hmoved, hboard⟩ := Game.humanMove_of_onTurn (hon.getD u) hin hempty
      refine .asked c (by rw [hreq]; rfl) hresp rfl hover hmoved ?_
      refine Eq.trans ?_ hboard.symm
      exact congrArg (fun b : Board => b.place c .HUMAN_PLAYER) hb
    | asked c' hreq hresp hthink' => exact absurd (hthink.symm.trans hthink') Bool.false_ne_true
    | answered body rand moved hreq hresp hthink' =>
      exact absurd (hthink.symm.trans hthink') Bool.false_ne_true

theorem serve (h : Agrees J S u s) {r : Env × HttpRequest} {xm ym : Int} {rand : Nat}
    (hturn : turnOf J s.server r = some (u, .move xm ym rand)) (hmem : (xm, ym) ∈ s.requests) :
    Agrees J S u { s with
      server := Gomoku.serve J S s.server r
      requests := s.requests.erase (xm, ym)
      responses := s.responses ++ [(response J S s.server r).body_] } := by
  cases h with
  | settled hreq hresp h =>
    rw [hreq] at hmem
    exact absurd hmem List.not_mem_nil
  | asked c hreq hresp hthink hover hmoved hb =>
    rw [hreq] at hmem
    obtain rfl := List.mem_singleton.mp hmem
    refine .answered _ rand _ ?_ ?_ hthink hover (body_response J S hturn hmoved) hb ?_
    · rw [hreq, List.erase_cons_head]
    · rw [hresp, List.nil_append]
    · refine (lookup_serve J S s.server r u).trans ?_
      rw [hturn, playAt, if_pos rfl, play_move, if_neg (by rw [← entry, hmoved]; decide)]
  | answered body rand moved hreq =>
    rw [hreq] at hmem
    exact absurd hmem List.not_mem_nil

/-- Another user's request, and one that asks nothing of the game. -/
theorem other (h : Agrees J S u s) {r : Env × HttpRequest}
    (hturn : (turnOf J s.server r).map Prod.fst ≠ some u) :
    Agrees J S u { s with server := Gomoku.serve J S s.server r } := by
  have hentry : entry { s with server := Gomoku.serve J S s.server r } u = s.entry u := by
    refine (lookup_serve J S s.server r u).trans ?_
    cases ht : turnOf J s.server r with
    | none => rfl
    | some t =>
      rw [ht] at hturn
      exact if_neg fun hu => hturn (congrArg some hu)
  cases h with
  | settled hreq hresp h => exact .settled hreq hresp (by rwa [hentry])
  | asked c hreq hresp hthink hover hmoved hb =>
    exact .asked c hreq hresp hthink hover (by rwa [hentry]) (by rwa [hentry])
  | answered body rand moved hreq hresp hthink hover hdump hb h =>
    exact .answered body rand moved hreq hresp hthink hover hdump hb (hentry.trans h)

theorem receive (hjson : ReadsBack J json) (h : Agrees J S u s) {body : Bytes}
    (hmem : body ∈ s.responses) :
    Agrees J S u { s with
      page := (json body).elim s.page s.page.receive
      responses := s.responses.erase body } := by
  cases h with
  | settled hreq hresp h =>
    rw [hresp] at hmem
    exact absurd hmem List.not_mem_nil
  | asked c hreq hresp =>
    rw [hresp] at hmem
    exact absurd hmem List.not_mem_nil
  | answered body' rand moved hreq hresp hthink hover hdump hb hentry =>
    rw [hresp] at hmem
    obtain rfl := List.mem_singleton.mp hmem
    refine .settled hreq ?_ ?_
    · rw [hresp, List.erase_cons_head]
    · have hshows := shows_receive (S := S) rand hb hover
      rw [← hentry] at hshows
      rw [hjson _ _ (dumpable_moveDocument rand moved) hdump]
      exact hshows

theorem disableBoard (h : Agrees J S u s) :
    Agrees J S u { s with page := s.page.disableBoard } := by
  cases h with
  | settled hreq hresp h => exact .settled hreq hresp h
  | asked c hreq hresp hthink hover hmoved hb => exact .asked c hreq hresp hthink hover hmoved hb
  | answered body rand moved hreq hresp hthink hover hdump hb hentry =>
    exact .answered body rand moved hreq hresp hthink hover hdump hb hentry

theorem restartGame (h : Agrees J S u s) (hover : s.page.isGameOver = true) :
    Agrees J S u { s with page := s.page.restartGame } := by
  cases h with
  | settled hreq hresp h =>
    obtain ⟨-, h⟩ := h
    rw [if_pos hover] at h
    refine .settled hreq hresp (Page.Shows.onTurn rfl rfl ?_)
    have hentry : entry { s with page := s.page.restartGame } u = none := h.1
    rw [hentry]
    rfl
  | asked c hreq hresp hthink hover' => exact absurd (hover'.symm.trans hover) Bool.false_ne_true
  | answered body rand moved hreq hresp hthink hover' =>
    exact absurd (hover'.symm.trans hover) Bool.false_ne_true

end Play.Agrees

namespace Play

/-- The page and the server agree, and the table is in order. -/
def Sound (J : JsonLib) (S : StdSort Cell) (u : Int) (s : Play) : Prop :=
  AllOnTurn s.server.game_map_ ∧ Agrees J S u s

/-- **A step keeps the agreement**, if the page is not restarted while its game goes on. -/
theorem Sound.step (hjson : ReadsBack J json) (h : Sound J S u s) {a : PlayAct}
    (hg : a = .restartGame → s.page.isGameOver = true)
    (hs : s.step J S json u a = some s') : Sound J S u s' := by
  obtain ⟨hon, h⟩ := h
  have hserve (r : Env × HttpRequest) : AllOnTurn (Gomoku.serve J S s.server r).game_map_ :=
    (tableStep_serve J S s.server r.1 r.2).allOnTurn hon
  cases a with
  | click c =>
    obtain ⟨-, hs⟩ := Option.ite_none_right_eq_some.mp hs
    obtain rfl := Option.some.inj hs
    exact ⟨hon, h.click hon c⟩
  | serve r =>
    rw [Play.step] at hs
    split at hs
    · next v xm ym rand hturn =>
      obtain ⟨hown, hserved⟩ := Option.ite_none_right_eq_some.mp hs
      obtain rfl := Option.some.inj hserved
      obtain ⟨rfl, hmem⟩ := hown
      exact ⟨hserve r, h.serve hturn hmem⟩
    · cases hs
  | other r =>
    obtain ⟨hturn, hs⟩ := Option.ite_none_left_eq_some.mp hs
    obtain rfl := Option.some.inj hs
    exact ⟨hserve r, h.other hturn⟩
  | receive body =>
    obtain ⟨hmem, hs⟩ := Option.ite_none_right_eq_some.mp hs
    obtain rfl := Option.some.inj hs
    exact ⟨hon, h.receive hjson hmem⟩
  | disableBoard =>
    obtain ⟨-, hs⟩ := Option.ite_none_right_eq_some.mp hs
    obtain rfl := Option.some.inj hs
    exact ⟨hon, h.disableBoard⟩
  | restartGame =>
    obtain rfl := Option.some.inj hs
    exact ⟨hon, h.restartGame (hg rfl)⟩

end Play

variable (J S) in
/-- Whatever came before, a request that starts a game for the user leaves the table so. -/
theorem start_serve (requests : List (Env × HttpRequest)) {r : Env × HttpRequest}
    (hturn : turnOf J (requests.foldl (serve J S) {}) r = some (u, .start)) :
    let server := serve J S (requests.foldl (serve J S) {}) r
    AllOnTurn server.game_map_ ∧ server.game_map_.lookup u = some .new := by
  intro server
  have hon : AllOnTurn (requests.foldl (serve J S) {}).game_map_ := by
    refine allOnTurn_run J S (fun v game hgame => ?_) requests
    cases hgame
  refine ⟨(tableStep_serve J S _ r.1 r.2).allOnTurn hon, (lookup_serve J S _ r u).trans ?_⟩
  rw [hturn, playAt, if_pos rfl]
  rfl

/-- The server with one game, just begun, and its page after a click into the middle. -/
def begun : GomokuServer := { game_map_ := Finmap.insert 1 .new ∅ }

/-- Restarted while a move is under way, the page asks for one twice. The server refuses the
second. -/
example : ∃ s, run (Play.step noJson (StdSort.stable Cell) Json.read 1) { server := begun }
    [.click (7, 7), .restartGame, .click (7, 7)] = some s ∧ s.requests = [(7, 7), (7, 7)] :=
  ⟨_, rfl, rfl⟩

end Runs

end Workplace.Gomoku
