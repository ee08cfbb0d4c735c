import Workplace.Gomoku.Table
import Workplace.Lib.Potential
import Workplace.Lib.PrivateEntries

/-! The table of games as the users see it: each plays a game of their own, whatever the
requests of the others are. -/

namespace Workplace.Gomoku
open Workplace.Http Workplace.Lib

/-! ## The game of one user -/

/-- What a request asks of the user's game. -/
inductive Turn where
  -- `/aiBot/start` and `/aiBot/restart`
  | start
  | move (x y : Int) (rand : Nat)
  -- a logout that names the kind of game
  | leave
  deriving DecidableEq, Repr

def Game.ended (game : Game) : Bool := game.state.gameOver_ || game.state.isDraw

/-- The computer answers a move that does not end the game. A game that has ended is gone, and
who moves without a game gets a new one. -/
def Turn.play (S : StdSort Cell) : Turn → Option Game → Option Game
  | .start, _ => some .new
  | .leave, _ => none
  | .move x y rand, entry =>
    let moved := (entry.getD .new).humanMove x y
    if moved.1 = false then some moved.2
    else if moved.2.ended then none
    else
      let answered := moved.2.aiMove S rand
      if answered.ended then none else some answered

/-! ## The turn that a request takes -/

section Requests
variable (J : JsonLib) (S : StdSort Cell)

def turnOf (s : GomokuServer) (r : Env × HttpRequest) : Option (Int × Turn) :=
  let (env, req) := r
  let loggedIn := isLoggedIn (sessionOf env s req)
  match routeOf req.method_ req.path_ with
  | some .start | some .restart =>
    if loggedIn then (userOf env s req).map fun v => (v, .start) else none
  | some .move =>
    if loggedIn then do
      let v ← userOf env s req
      let (x, y) ← (moveOf J req).toOption
      return (v, .move x y env.rand)
    else none
  | some .logout =>
    if isJsonRequest req then do
      let v ← userOf env s req
      let gameType ← (gameTypeOf J req).toOption
      if gameType = MAN_VS_AI then some (v, .leave) else none
    else none
  | _ => none

end Requests

/-- The table after the turn. -/
def Played (S : StdSort Cell) (t : Option (Int × Turn)) (m m' : Table) : Prop :=
  ∀ w, m'.lookup w = playAt (Turn.play S) t w (m.lookup w)

section Handlers
variable {J : JsonLib} {S : StdSort Cell} {env : Env} {x : Exchange GomokuServer}
  {req : HttpRequest} {m m' : Table} {v : Int} {t : Option (Int × Turn)}

theorem played_none (m : Table) : Played S none m m := fun _ => rfl

theorem played_of_sameBut {turn : Turn} (h : SameBut v m m')
    (hv : m'.lookup v = turn.play S (m.lookup v)) : Played S (some (v, turn)) m m' := by
  intro w
  by_cases hw : v = w
  · rw [← hw, hv, playAt, if_pos rfl]
  · rw [h w (Ne.symm hw), playAt, if_neg hw]

abbrev PlaysTable (S : StdSort Cell) (t : Option (Int × Turn)) (m : Table) {α : Type}
    (prog : Act α) (x : Exchange GomokuServer) : Prop :=
  Ends prog x (fun _ x' => Played S t m x'.server.game_map_)
    fun _ x' => Played S t m x'.server.game_map_

theorem plays_startGame {rest : Unit → Act Unit} (hx : x.server.game_map_ = m)
    (hrest : ∀ a, KeepsTable (Played S (some (v, .start)) m) (rest a)) :
    PlaysTable S (some (v, .start)) m (startGame v >>= rest) x := by
  have hplayed : Played S (some (v, .start)) m ((m.erase v).insert v .new) := by
    apply played_of_sameBut
    · exact (SameBut.refl v m).erase.insert .new
    · exact Finmap.lookup_insert _
  rw [PlaysTable, ends_bind]
  exact hrest () _ (hx ▸ hplayed)

/-- The turn of a request that needs its user. -/
theorem plays_session {next : Int → Act Unit} {own : Int → Option (Int × Turn)}
    (hnext : ∀ v (x' : Exchange GomokuServer), x'.server.game_map_ = x.server.game_map_ →
      PlaysTable S (own v) x.server.game_map_ (next v) x') :
    PlaysTable S ((userOf env x.server req).bind own) x.server.game_map_
      (lift (stoiText ((sessionOf env x.server req).getValue (bytes "userId"))) >>= next)
      (withSession env req x) := by
  unfold userOf
  cases stoiText ((sessionOf env x.server req).getValue (bytes "userId")) with
  | error what => exact played_none _
  | ok v => exact hnext v (withSession env req x) rfl

theorem plays_start (hroute : routeOf req.method_ req.path_ = some .start) :
    PlaysTable S (turnOf J x.server (env, req)) x.server.game_map_
      (aiGameStartHandler J env req) x := by
  unfold PlaysTable aiGameStartHandler
  rw [ends_bind, ends_getSession, ends_ite]
  simp only [turnOf, hroute]
  by_cases hlogin : isLoggedIn (sessionOf env x.server req) = false
  · rw [if_pos hlogin, hlogin, if_neg Bool.false_ne_true]
    apply keepsTable_dumped_packageResp
    exact played_none _
  · rw [if_neg hlogin, if_pos (Bool.eq_true_of_not_eq_false hlogin), Option.map_eq_bind]
    refine plays_session fun v x' hx' => plays_startGame hx' fun _ => ?_
    apply (keepsTable_readFile _).bind
    exact fun _ => keepsTable_reply _ _ _ _ _ _

theorem plays_restart (hroute : routeOf req.method_ req.path_ = some .restart) :
    PlaysTable S (turnOf J x.server (env, req)) x.server.game_map_
      (restartChessGameVsAi J env req) x := by
  unfold PlaysTable restartChessGameVsAi
  rw [ends_bind, ends_getSession, ends_ite]
  simp only [turnOf, hroute]
  by_cases hlogin : isLoggedIn (sessionOf env x.server req) = false
  · rw [if_pos hlogin, hlogin, if_neg Bool.false_ne_true]
    apply keepsTable_dumped_packageResp
    exact played_none _
  · rw [if_neg hlogin, if_pos (Bool.eq_true_of_not_eq_false hlogin), Option.map_eq_bind]
    refine plays_session fun v x' hx' => plays_startGame hx' fun _ => ?_
    exact keepsTable_dumped_packageResp _ _ _ _ _ _ _ _ _

theorem plays_logout (hroute : routeOf req.method_ req.path_ = some .logout) :
    PlaysTable S (turnOf J x.server (env, req)) x.server.game_map_
      (logoutHandler J env req) x := by
  unfold PlaysTable logoutHandler
  rw [ends_ite]
  simp only [turnOf, hroute]
  by_cases hjson : isJsonRequest req = false
  · rw [if_pos hjson, hjson, if_neg Bool.false_ne_true]
    exact played_none _
  · rw [if_neg hjson, if_pos (Bool.eq_true_of_not_eq_false hjson)]
    apply Ends.tryCatch
    · rw [ends_bind, ends_getSession]
      refine plays_session fun v x' hx' => ?_
      rw [PlaysTable, ends_bind, ends_modifyServer, ends_bind, ends_modifyServer, ends_bind]
      cases hg : gameTypeOf J req with
      | error what =>
        intro w
        exact congrArg (Finmap.lookup w) hx'
      | ok gameType =>
        rw [ends_lift_ok, ends_bind, ends_modifyServer, ends_bind, ends_modifyServer]
        apply keepsTable_dumped_reply
        change Played S (if gameType = MAN_VS_AI then some (v, .leave) else none) _ _
        dsimp only
        split_ifs
        · rw [hx']
          exact played_of_sameBut (SameBut.refl v _).erase (Finmap.lookup_erase _ _)
        · rw [hx']
          exact played_none _
    · intro what
      exact keepsTable_dumped_reply _ _ _ _ _ _ _

/-! ### A move -/

/-- The game after a move that it took. -/
def afterMove (S : StdSort Cell) (rand : Nat) (moved : Game) : Option Game :=
  if moved.ended then none
  else if (moved.aiMove S rand).ended then none else some (moved.aiMove S rand)

theorem plays_answerMove {moved : Game} (hx : SameBut v m x.server.game_map_)
    {E : Bytes → Exchange GomokuServer → Prop} :
    Ends (answerMove J S env req v moved) x (fun _ x' => SameBut v m x'.server.game_map_ ∧
      x'.server.game_map_.lookup v = afterMove S env.rand moved) E := by
  have herase {document : Json} {x : Exchange GomokuServer} {entry : Option Game}
      (hd : document.Dumpable) (hx : SameBut v m x.server.game_map_) (hnone : entry = none) :
      Ends (moveReply J req document) x (fun _ x' => Ends (eraseGame v) x'
        (fun _ x' => SameBut v m x'.server.game_map_ ∧
          x'.server.game_map_.lookup v = entry) E) E := by
    refine ends_moveReply hd fun x' hx' => ?_
    change SameBut v m (x'.server.game_map_.erase v) ∧
      (x'.server.game_map_.erase v).lookup v = entry
    rw [hx', hnone]
    exact ⟨hx.erase, Finmap.lookup_erase _ _⟩
  have hwin := dumpable_getWinner
  unfold answerMove
  simp only [ends_ite, ends_bind, ends_setGame]
  split_ifs with hover hdraw hover' hdraw'
  · exact herase (dumpable_finished _ (hwin _)) hx (if_pos (by simp [Game.ended, hover]))
  · exact herase (dumpable_finished _ (.str (by decide))) hx
      (if_pos (by simp [Game.ended, hdraw]))
  · refine herase (dumpable_answered _ (by decide) (hwin _)) (hx.insert _) ?_
    simp [afterMove, Game.ended, hover']
  · refine herase (dumpable_answered _ (by decide) (.str (by decide))) (hx.insert _) ?_
    simp [afterMove, Game.ended, hdraw']
  · refine ends_moveReply (dumpable_answered _ (by decide) (.str (by decide))) fun x' hx' => ?_
    rw [hx']
    refine ⟨hx.insert _, (Finmap.lookup_insert _).trans ?_⟩
    simp [afterMove, Game.ended, hover, hdraw, hover', hdraw']

theorem play_move (entry : Option Game) (xm ym : Int) (rand : Nat) :
    (Turn.move xm ym rand).play S entry =
      if ((entry.getD .new).humanMove xm ym).1 = false then
        some ((entry.getD .new).humanMove xm ym).2
      else afterMove S rand ((entry.getD .new).humanMove xm ym).2 := rfl

theorem plays_takeMove (hx : x.server.game_map_ = m) (xm ym : Int) :
    PlaysTable S (some (v, .move xm ym env.rand)) m (takeMove J S env req v xm ym) x := by
  have hsame : SameBut v m x.server.game_map_ := by
    rw [hx]
    exact SameBut.refl v m
  unfold PlaysTable takeMove
  rw [ends_bind, ends_get, hx, ends_bind, ends_setGame, ends_ite]
  split_ifs with hmoved
  · apply keepsTable_dumped_reply
    apply played_of_sameBut
    · exact hsame.insert _
    · rw [play_move, if_pos hmoved]
      exact Finmap.lookup_insert _
  · apply (plays_answerMove (hsame.insert _)).imp
    · rintro _ x' ⟨hsame', hv'⟩
      apply played_of_sameBut hsame'
      rw [hv', play_move, if_neg hmoved]
    · exact fun _ _ h => h

theorem plays_move (hroute : routeOf req.method_ req.path_ = some .move) :
    PlaysTable S (turnOf J x.server (env, req)) x.server.game_map_
      (aiMoveHandler J S env req) x := by
  unfold PlaysTable aiMoveHandler
  simp only [turnOf, hroute]
  apply Ends.tryCatch
  · rw [ends_bind, ends_getSession, ends_ite]
    by_cases hlogin : isLoggedIn (sessionOf env x.server req) = false
    · rw [if_pos hlogin, hlogin, if_neg Bool.false_ne_true]
      apply keepsTable_dumped_packageResp
      exact played_none _
    · rw [if_neg hlogin, if_pos (Bool.eq_true_of_not_eq_false hlogin)]
      refine plays_session fun v x' hx' => ?_
      rw [PlaysTable, ends_bind]
      cases moveOf J req with
      | error what =>
        intro w
        exact congrArg (Finmap.lookup w) hx'
      | ok move => exact plays_takeMove hx' move.1 move.2
  · intro what
    exact keepsTable_dumped_packageResp _ _ _ _ _ _ _ _ _

theorem plays_handler {r : Route} (hroute : routeOf req.method_ req.path_ = some r) :
    PlaysTable S (turnOf J x.server (env, req)) x.server.game_map_ (r.handler J S env req) x := by
  cases r with
  | logout => exact plays_logout hroute
  | start => exact plays_start hroute
  | move => exact plays_move hroute
  | restart => exact plays_restart hroute
  | entry | login | register | menu | backend | backendData =>
    simp only [turnOf, hroute]
    exact keepsTable_handler _ req (by decide) x (played_none _)

end Handlers

/-! ## Whole runs -/

variable (J : JsonLib) (S : StdSort Cell)

theorem played_serve (s : GomokuServer) (r : Env × HttpRequest) :
    Played S (turnOf J s r) s.game_map_ (serve J S s r).game_map_ := by
  obtain ⟨env, req⟩ := r
  unfold serve onRequest
  refine (handle_iff J S env req _ fun x =>
    Played S (turnOf J s (env, req)) s.game_map_ x.server.game_map_).mpr ?_
  split_ifs with hopt
  · simp only [turnOf, hopt, routeOf]
    exact played_none _
  · cases hroute : routeOf req.method_ req.path_ with
    | none =>
      simp only [turnOf, hroute]
      exact played_none _
    | some r => exact plays_handler hroute

theorem lookup_serve (s : GomokuServer) (r : Env × HttpRequest) (w : Int) :
    (serve J S s r).game_map_.lookup w =
      playAt (Turn.play S) (turnOf J s r) w (s.game_map_.lookup w) := played_serve J S s r w

/-- **Everyone plays a game of their own.** After any requests, of any users and in any order,
the entry of a user is what the user's own starts, moves and logouts make of it: the requests of
the others neither change the game nor lose one. -/
theorem games_are_private (s : GomokuServer) (requests : List (Env × HttpRequest)) (v : Int) :
    (requests.foldl (serve J S) s).game_map_.lookup v =
      (ownTurns v (turnsOf (serve J S) (turnOf J) s requests)).foldl
        (fun entry turn => turn.play S entry) (s.game_map_.lookup v) :=
  view_foldl (fun s w => s.game_map_.lookup w) (Turn.play S) (lookup_serve J S) requests s v

/-! ## How long a game lasts -/

namespace Turn

/-- The game takes the move. -/
def accepted (entry : Option Game) : Turn → Bool
  | .move x y _ => ((entry.getD .new).humanMove x y).1
  | _ => false

/-- The user gets a new game, and moves in it at once if it is for a move. -/
def begins (entry : Option Game) : Turn → Bool
  | .start => true
  | .move _ _ _ => entry.isNone
  | .leave => false

end Turn

def Game.free (game : Game) : ℕ := (emptyCells game.state.board_).length

/-- The moves that the human can still make: the computer takes every other cell. -/
def movesLeft : Option Game → ℕ
  | none => 0
  | some game => (game.free + 1) / 2

theorem movesLeft_some (game : Game) : movesLeft (some game) = (game.free + 1) / 2 := rfl

theorem movesLeft_new : movesLeft (some .new) = 113 := by decide +kernel

section Lengths
variable {S : StdSort Cell} {game : Game}

theorem free_of_put {game' : Game} {c : Cell} {p : Stone} {who : Winner}
    (hc : c ∈ emptyCells game.state.board_) (hp : p ≠ .EMPTY)
    (h : game'.state = game.state.put c p who) : game'.free + 1 = game.free := by
  have hlength : 0 < (emptyCells game.state.board_).length := List.length_pos_of_mem hc
  rw [Game.free, Game.free, h, AiGame.put_board_, AiGame.emptyCells_place _ _ hp,
    List.length_erase_of_mem hc]
  omega

theorem free_humanMove {xm ym : Int} (h : (game.humanMove xm ym).1 = true) :
    (game.humanMove xm ym).2.free + 1 = game.free := by
  obtain ⟨hc, -, hstate⟩ := Game.humanMove_eq_put h
  exact free_of_put hc (by decide) hstate

theorem free_aiMove (h : game.ended = false) (rand : Nat) :
    (game.aiMove S rand).free + 1 = game.free := by
  obtain ⟨hc, hai⟩ := game.sound.aiMove_eq_put h S rand
  rw [Game.state_aiMove, Option.some.injEq] at hai
  exact free_of_put hc (by decide) hai

theorem movesLeft_play (entry : Option Game) (turn : Turn) :
    movesLeft (turn.play S entry) + (turn.accepted entry).toNat ≤
      movesLeft entry + 113 * (turn.begins entry).toNat := by
  cases turn with
  | start =>
    change movesLeft (some .new) + 0 ≤ movesLeft entry + 113 * 1
    rw [movesLeft_new]
    omega
  | leave => exact Nat.zero_le _
  | move xm ym rand =>
    have hentry : movesLeft (some (entry.getD .new)) ≤
        movesLeft entry + 113 * entry.isNone.toNat := by
      cases entry with
      | none => exact movesLeft_new.le
      | some game => exact Nat.le_add_right _ _
    simp only [play_move, Turn.accepted, Turn.begins]
    generalize entry.getD .new = game at hentry ⊢
    refine le_trans ?_ hentry
    cases hmoved : (game.humanMove xm ym).1 with
    | false => rw [if_pos rfl, Game.humanMove_refused hmoved, Bool.toNat_false, Nat.add_zero]
    | true =>
      have hhuman := free_humanMove hmoved
      rw [if_neg Bool.noConfusion, Bool.toNat_true, afterMove, movesLeft_some]
      split_ifs with hended hended'
      · change 0 + 1 ≤ _
        omega
      · change 0 + 1 ≤ _
        omega
      · have hai := free_aiMove (S := S) (Bool.eq_false_of_not_eq_true hended) rand
        rw [movesLeft_some]
        omega

end Lengths

/-- **Games end.** In any run of requests, a user makes at most 113 moves that a game takes, for
each game that the user begins; and as many less as the game in the table has still room for. -/
theorem moves_of_a_game (s : GomokuServer) (requests : List (Env × HttpRequest)) (v : Int) :
    let turns := ownTurns v (turnsOf (serve J S) (turnOf J) s requests)
    let play (entry : Option Game) (turn : Turn) := turn.play S entry
    movesLeft ((requests.foldl (serve J S) s).game_map_.lookup v) +
        tally play Turn.accepted (s.game_map_.lookup v) turns ≤
      movesLeft (s.game_map_.lookup v) +
        113 * tally play Turn.begins (s.game_map_.lookup v) turns := by
  intro turns play
  have hrun := view_foldl (fun s w => s.game_map_.lookup w) (Turn.play S) (lookup_serve J S)
    requests s v
  rw [hrun]
  exact tally_potential movesLeft Turn.accepted Turn.begins 113 movesLeft_play turns _

end Workplace.Gomoku
