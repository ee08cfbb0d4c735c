import Workplace.Gomoku.Server

/-! The table of games over whole runs of requests: every game in it waits for its human, and
a request touches the entry of its own user only. -/

namespace Workplace.Gomoku
open Workplace.Http Workplace.Lib

/-! ## Games that wait for the human -/

def stones (b : Board) (player : Stone) : Nat :=
  (cells.toFinset.filter fun c => b c = player).card

theorem stones_place {b : Board} {c : Cell} {p : Stone} (hc : c ∈ emptyCells b)
    (hp : p ≠ .EMPTY) : stones (b.place c p) p = stones b p + 1 := by
  obtain ⟨hin, hempty⟩ := mem_emptyCells.mp hc
  have hfilter : (cells.toFinset.filter fun d => b.place c p d = p) =
      insert c (cells.toFinset.filter fun d => b d = p) := by
    ext d
    by_cases hd : d = c
    · simp [hd, mem_cells.mpr hin]
    · simp [hd, Board.place_ne b p hd]
  rw [stones, hfilter, Finset.card_insert_of_notMem (by simp [hempty, hp.symm]), stones]

theorem stones_place_of_ne {b : Board} {c : Cell} {p q : Stone} (hc : c ∈ emptyCells b)
    (hpq : p ≠ q) (hq : q ≠ .EMPTY) : stones (b.place c p) q = stones b q := by
  have hempty := (mem_emptyCells.mp hc).2
  have hfilter : (cells.toFinset.filter fun d => b.place c p d = q) =
      cells.toFinset.filter fun d => b d = q := by
    refine Finset.filter_congr fun d _ => ?_
    by_cases hd : d = c
    · simp [hd, hempty, hpq, hq.symm]
    · rw [Board.place_ne b p hd]
  rw [stones, hfilter, stones]

/-- Unfinished, without a line, with as many stones of both colours and room for one more. -/
structure OnTurn (g : AiGame) : Prop where
  unfinished : g.gameOver_ = false
  noLine : ∀ p, p ≠ .EMPTY → ¬ HasLine g.board_ p
  even : stones g.board_ .HUMAN_PLAYER = stones g.board_ .AI_PLAYER
  room : (AiGame.occupied g.board_).length ≤ 224

namespace OnTurn

variable {g : AiGame}

theorem of_sound (h : g.Sound) (hover : g.gameOver_ = false) (hdraw : g.isDraw = false)
    (heven : stones g.board_ .HUMAN_PLAYER = stones g.board_ .AI_PLAYER) : OnTurn g where
  unfinished := hover
  noLine p hp := by
    have hv := h.verdict
    rw [hover] at hv
    generalize g.winner_ = w at hv
    cases hv with
    | undecided hh ha =>
      cases p with
      | EMPTY => exact absurd rfl hp
      | AI_PLAYER => exact ha
      | HUMAN_PLAYER => exact hh
  even := heven
  room := by
    rw [← h.count]
    have hlt : ¬ 15 * 15 ≤ g.moveCount_ := of_decide_eq_false hdraw
    omega

theorem new : OnTurn {} where
  unfinished := rfl
  noLine p hp := not_hasLine_empty hp
  even := rfl
  room := by
    rw [← AiGame.sound_new.count]
    exact Nat.zero_le _

/-- One more stone of the human, then one more of the computer. -/
theorem stones_after {c d : Cell}
    (heven : stones g.board_ .HUMAN_PLAYER = stones g.board_ .AI_PLAYER)
    (hc : c ∈ emptyCells g.board_)
    (hd : d ∈ emptyCells (g.board_.place c .HUMAN_PLAYER)) :
    stones ((g.board_.place c .HUMAN_PLAYER).place d .AI_PLAYER) .HUMAN_PLAYER =
      stones ((g.board_.place c .HUMAN_PLAYER).place d .AI_PLAYER) .AI_PLAYER := by
  rw [stones_place hd (by simp), stones_place_of_ne hd (by simp) (by simp),
    stones_place hc (by simp), stones_place_of_ne hc (by simp) (by simp), heven]

end OnTurn

theorem Game.humanMove_eq_put {game : Game} {x y : Int}
    (hmoved : (game.humanMove x y).1 = true) :
    (x, y) ∈ emptyCells game.state.board_ ∧
      (game.state.gameOver_ || game.state.isDraw) = false ∧
      (game.humanMove x y).2.state = game.state.put (x, y) .HUMAN_PLAYER .human := by
  rcases game.state.humanMove_cases x y with heq | ⟨hc, hend, heq⟩
  · have hrefused : (game.humanMove x y).1 = false := congrArg Prod.fst heq
    rw [hrefused] at hmoved
    cases hmoved
  · exact ⟨hc, hend, congrArg Prod.snd heq⟩

/-- A move of the human that does not end the game, and the computer's answer, if that does not
end it either. -/
theorem Game.onTurn_answer {game : Game} {x y : Int} (h : OnTurn game.state)
    (hmoved : (game.humanMove x y).1 = true) (S : StdSort Cell) (rand : Nat)
    (hover : (game.humanMove x y).2.state.gameOver_ = false)
    (hdraw : (game.humanMove x y).2.state.isDraw = false)
    (hover' : ((game.humanMove x y).2.aiMove S rand).state.gameOver_ = false)
    (hdraw' : ((game.humanMove x y).2.aiMove S rand).state.isDraw = false) :
    OnTurn ((game.humanMove x y).2.aiMove S rand).state := by
  refine OnTurn.of_sound (Game.sound _) hover' hdraw' ?_
  obtain ⟨hc, -, hstate⟩ := Game.humanMove_eq_put hmoved
  obtain ⟨hd, hai⟩ := (game.humanMove x y).2.sound.aiMove_eq_put
    (Bool.or_eq_false_iff.mpr ⟨hover, hdraw⟩) S rand
  rw [Game.state_aiMove, Option.some.injEq] at hai
  rw [hai, AiGame.put_board_]
  rw [hstate, AiGame.put_board_] at hd ⊢
  exact OnTurn.stones_after h.even hc hd

/-! ## The table -/

abbrev Table := Finmap (fun _ : Int => Game)

def AllOnTurn (m : Table) : Prop := ∀ v game, m.lookup v = some game → OnTurn game.state

def SameBut (v : Int) (m m' : Table) : Prop := ∀ w, w ≠ v → m'.lookup w = m.lookup w

namespace SameBut

variable {v : Int} {m m' : Table}

theorem refl (v : Int) (m : Table) : SameBut v m m := fun _ _ => rfl

theorem insert (h : SameBut v m m') (game : Game) : SameBut v m (m'.insert v game) := by
  intro w hw
  rw [Finmap.lookup_insert_of_ne _ hw]
  exact h w hw

theorem erase (h : SameBut v m m') : SameBut v m (m'.erase v) := by
  intro w hw
  rw [Finmap.lookup_erase_ne hw]
  exact h w hw

end SameBut

/-- What a request of the user `u` may do to the table. -/
def TableStep (u : Option Int) (m m' : Table) : Prop :=
  m' = m ∨ ∃ v, u = some v ∧ SameBut v m m' ∧
    (AllOnTurn m → ∀ game, m'.lookup v = some game → OnTurn game.state)

namespace TableStep

variable {u : Option Int} {v : Int} {m m' : Table}

theorem allOnTurn (h : TableStep u m m') (hm : AllOnTurn m) : AllOnTurn m' := by
  rcases h with rfl | ⟨v, -, hsame, hv⟩
  · exact hm
  · intro w game hw
    by_cases hwv : w = v
    · subst hwv
      exact hv hm game hw
    · rw [hsame w hwv] at hw
      exact hm w game hw

theorem lookup_of_ne (h : TableStep u m m') (hu : u ≠ some v) : m'.lookup v = m.lookup v := by
  rcases h with rfl | ⟨w, hw, hsame, -⟩
  · rfl
  · refine hsame v fun hvw => hu ?_
    rw [hw, hvw]

theorem erase (h : SameBut v m m') : TableStep (some v) m (m'.erase v) := by
  refine .inr ⟨v, rfl, h.erase, fun _ game hgame => ?_⟩
  rw [Finmap.lookup_erase] at hgame
  cases hgame

theorem erase_self (h : TableStep (some v) m m') : TableStep (some v) m (m'.erase v) := by
  rcases h with rfl | ⟨w, hw, hsame, -⟩
  · exact erase (SameBut.refl v _)
  · obtain rfl := Option.some.inj hw
    exact erase hsame

theorem insert (h : SameBut v m m') {game : Game} (hgame : AllOnTurn m → OnTurn game.state) :
    TableStep (some v) m (m'.insert v game) := by
  refine .inr ⟨v, rfl, h.insert game, fun hm game' hgame' => ?_⟩
  rw [Finmap.lookup_insert] at hgame'
  cases hgame'
  exact hgame hm

end TableStep

/-! ## What the handlers do to it -/

section Handlers

variable {J : JsonLib} {S : StdSort Cell} {env : Env} {P : Table → Prop}

/-- A program that keeps what holds of the table, because it does not touch it. -/
abbrev KeepsTable (P : Table → Prop) {α : Type} (prog : Act α) : Prop :=
  Keeps (fun x : Exchange GomokuServer => P x.server.game_map_) prog

theorem keepsTable_getSession (req : HttpRequest) : KeepsTable P (getSession env req) :=
  fun _ h => h

theorem keepsTable_setValue (session : Session) (key value : Bytes) :
    KeepsTable P (setValue session key value) := fun _ h => h

theorem keepsTable_readFile (file : Option Bytes) : KeepsTable P (readFile file) :=
  keepsServer_readFile (P := fun s => P s.game_map_) file

theorem keepsTable_reply (version : Bytes) (code : HttpStatusCode) (message : Bytes)
    (close : Bool) (type text : Bytes) :
    KeepsTable P (reply version code message close type text) := fun _ h => h

theorem keepsTable_dumped_reply (indent : Option Nat) (document : Json) (version : Bytes)
    (code : HttpStatusCode) (message : Bytes) (close : Bool) (type : Bytes) : KeepsTable P
      (dumped J indent document >>= fun text => reply version code message close type text) :=
  keepsServer_dumped_reply (P := fun s => P s.game_map_) indent document _ _ _ _ _

theorem keepsTable_dumped_packageResp (indent : Option Nat) (document : Json) (version : Bytes)
    (code : HttpStatusCode) (message : Bytes) (close : Bool) (body type : Bytes → Bytes)
    (n : Bytes → Int) : KeepsTable P (dumped J indent document >>= fun text =>
      packageResp version code message close (body text) (type text) (n text)) :=
  keepsServer_dumped_packageResp (P := fun s => P s.game_map_) indent document _ _ _ _ _ _ _

theorem keepsTable_login (req : HttpRequest) : KeepsTable P (loginHandler J env req) := by
  apply Keeps.ite (keepsTable_reply _ _ _ _ _ _)
  apply Keeps.tryCatch
  · apply Keeps.bind (Keeps.lift _)
    intro account
    apply Keeps.bind (Keeps.lift _)
    intro userId
    apply Keeps.ite
    · apply (keepsTable_getSession req).bind
      intro session
      apply (keepsTable_setValue _ _ _).bind
      intro session
      apply (keepsTable_setValue _ _ _).bind
      intro session
      apply (keepsTable_setValue _ _ _).bind
      intro session
      apply Keeps.bind Keeps.get
      intro x
      apply Keeps.ite
      · apply Keeps.bind
        · exact fun _ h => h
        intro _
        apply Keeps.bind
        · exact fun _ h => h
        intro _
        exact keepsTable_dumped_reply _ _ _ _ _ _ _
      · exact keepsTable_dumped_reply _ _ _ _ _ _ _
    · exact keepsTable_dumped_reply _ _ _ _ _ _ _
  · intro what
    exact keepsTable_dumped_reply _ _ _ _ _ _ _

theorem keepsTable_handler (r : Route) (req : HttpRequest)
    (hr : r ≠ .logout ∧ r ≠ .start ∧ r ≠ .move ∧ r ≠ .restart) :
    KeepsTable P (r.handler J S env req) := by
  by_cases hlogin : r = .login
  · subst hlogin
    exact keepsTable_login req
  · exact keepsServer_handler (P := fun s => P s.game_map_) r req ⟨hlogin, hr⟩

/-- The user whose session a request names. -/
def userOf (env : Env) (s : GomokuServer) (req : HttpRequest) : Option Int :=
  (stoiText ((sessionOf env s req).getValue (bytes "userId"))).toOption

variable {x : Exchange GomokuServer} {req : HttpRequest}

/-- A handler that does to the table what a request of its user may do. -/
def StepsTable (env : Env) (x : Exchange GomokuServer) (req : HttpRequest) (prog : Act Unit) :
    Prop :=
  let Ok (x' : Exchange GomokuServer) :=
    TableStep (userOf env x.server req) x.server.game_map_ x'.server.game_map_
  Ends prog x (fun _ => Ok) fun _ => Ok

/-- What follows the session and its user: nothing, if there is no user. -/
theorem stepsTable_session {next : Int → Act Unit}
    (hnext : ∀ v, userOf env x.server req = some v →
      ∀ x' : Exchange GomokuServer, x'.server.game_map_ = x.server.game_map_ →
        Ends (next v) x'
          (fun _ x'' => TableStep (some v) x.server.game_map_ x''.server.game_map_)
          fun _ x'' => TableStep (some v) x.server.game_map_ x''.server.game_map_) :
    Ends (lift (stoiText ((sessionOf env x.server req).getValue (bytes "userId"))) >>= next)
      (withSession env req x)
      (fun _ x' => TableStep (userOf env x.server req) x.server.game_map_ x'.server.game_map_)
      fun _ x' => TableStep (userOf env x.server req) x.server.game_map_ x'.server.game_map_ := by
  unfold userOf at hnext ⊢
  cases hv : stoiText ((sessionOf env x.server req).getValue (bytes "userId")) with
  | error what => exact .inl rfl
  | ok v =>
    rw [hv] at hnext
    exact hnext v rfl (withSession env req x) rfl

theorem ends_startGame {m : Table} {v : Int} {rest : Unit → Act Unit}
    (hx : x.server.game_map_ = m) (hrest : ∀ a, KeepsTable (TableStep (some v) m) (rest a)) :
    Ends (startGame v >>= rest) x
      (fun _ x' => TableStep (some v) m x'.server.game_map_)
      fun _ x' => TableStep (some v) m x'.server.game_map_ := by
  have hstep : TableStep (some v) m ((x.server.game_map_.erase v).insert v .new) := by
    rw [hx]
    exact TableStep.insert (SameBut.refl v m).erase fun _ => OnTurn.new
  rw [ends_bind]
  exact hrest () _ hstep

theorem stepsTable_start (req : HttpRequest) :
    StepsTable env x req (aiGameStartHandler J env req) := by
  unfold StepsTable aiGameStartHandler
  rw [ends_bind, ends_getSession, ends_ite]
  split_ifs with hlogin
  · apply keepsTable_dumped_packageResp
    exact .inl rfl
  · refine stepsTable_session fun v _ x' hx' => ends_startGame hx' fun _ => ?_
    apply (keepsTable_readFile _).bind
    exact fun _ => keepsTable_reply _ _ _ _ _ _

theorem stepsTable_restart (req : HttpRequest) :
    StepsTable env x req (restartChessGameVsAi J env req) := by
  unfold StepsTable restartChessGameVsAi
  rw [ends_bind, ends_getSession, ends_ite]
  split_ifs with hlogin
  · apply keepsTable_dumped_packageResp
    exact .inl rfl
  · refine stepsTable_session fun v _ x' hx' => ends_startGame hx' fun _ => ?_
    exact keepsTable_dumped_packageResp _ _ _ _ _ _ _ _ _

theorem stepsTable_logout (req : HttpRequest) :
    StepsTable env x req (logoutHandler J env req) := by
  unfold StepsTable logoutHandler
  rw [ends_ite]
  split_ifs with hjson
  · exact .inl rfl
  · apply Ends.tryCatch
    · rw [ends_bind, ends_getSession]
      refine stepsTable_session fun v _ x' hx' => ?_
      apply Keeps.bind
      · exact fun _ h => h
      · intro _
        apply Keeps.bind
        · exact fun _ h => h
        · intro _
          apply Keeps.bind (Keeps.lift _)
          intro gameType
          apply Keeps.bind
          · exact fun _ h => h
          · intro _
            apply Keeps.bind
            · intro x'' h
              rw [ends_modifyServer]
              dsimp only
              split_ifs
              · exact h.erase_self
              · exact h
            · intro _
              exact keepsTable_dumped_reply _ _ _ _ _ _ _
      · exact .inl hx'
    · intro what
      exact keepsTable_dumped_reply _ _ _ _ _ _ _

/-- A logout whose body cannot be read leaves the game where it is. -/
theorem keepsTable_logout {what : Bytes} (h : gameTypeOf J req = .error what) :
    KeepsTable P (logoutHandler J env req) := by
  apply Keeps.ite (keepsTable_reply _ _ _ _ _ _)
  apply Keeps.tryCatch
  · apply (keepsTable_getSession req).bind
    intro session
    apply Keeps.bind (Keeps.lift _)
    intro userId
    apply Keeps.bind
    · exact fun _ h => h
    intro _
    apply Keeps.bind
    · exact fun _ h => h
    intro _ x hx
    rw [ends_bind, h, ends_lift_error]
    exact hx
  · intro what
    exact keepsTable_dumped_reply _ _ _ _ _ _ _

/-! ## A move -/

theorem dumpable_getBoard (game : Game) : game.getBoard.Dumpable := by
  refine .arr fun row hrow => ?_
  obtain ⟨i, -, rfl⟩ := List.mem_map.mp hrow
  refine .arr fun cell hcell => ?_
  obtain ⟨j, -, rfl⟩ := List.mem_map.mp hcell
  refine .str ?_
  cases game.state.board_ ((i : Int), (j : Int)) <;> decide

theorem dumpable_getWinner (game : Game) : game.getWinner.Dumpable := by
  unfold Game.getWinner
  cases game.state.winner_ <;> exact .str (by decide)

theorem dumpable_getLastMove (game : Game) : game.getLastMove.Dumpable :=
  .cons (by decide) (.int _) (.cons (by decide) (.int _) .nil)

theorem ends_setGame {v : Int} {game : Game} {Q : Unit → Exchange GomokuServer → Prop}
    {E : Bytes → Exchange GomokuServer → Prop} :
    Ends (setGame v game) x Q E ↔ Q () { x with
      server := { x.server with game_map_ := x.server.game_map_.insert v game } } := Iff.rfl

theorem ends_moveReply {document : Json} (hd : document.Dumpable)
    {Q : Unit → Exchange GomokuServer → Prop} {E : Bytes → Exchange GomokuServer → Prop}
    (hQ : ∀ x' : Exchange GomokuServer, x'.server = x.server → Q () x') :
    Ends (moveReply J req document) x Q E := by
  unfold moveReply
  rw [ends_bind, ends_dumped_of_dumpable J hd]
  obtain ⟨t, ht⟩ : ∃ t, document.dump J none 0 = .ok t := hd.exists_dump 0
  exact ⟨t, ht, hQ _ rfl⟩

/-- The document of a finished game, and of one that the human has ended. -/
theorem dumpable_finished (game : Game) {winner : Json} (hw : winner.Dumpable) :
    (Json.obj [(bytes "board", game.getBoard), (bytes "next_turn", .str (bytes "none")),
      (bytes "status", .str (bytes "ok")), (bytes "winner", winner)]).Dumpable :=
  .cons (by decide) (dumpable_getBoard game) (.cons (by decide) (.str (by decide))
    (.cons (by decide) (.str (by decide)) (.cons (by decide) hw .nil)))

theorem dumpable_answered (game : Game) {turn : Bytes} {winner : Json}
    (hturn : Json.isUtf8 turn = true) (hw : winner.Dumpable) :
    (Json.obj [(bytes "board", game.getBoard), (bytes "last_move", game.getLastMove),
      (bytes "next_turn", .str turn), (bytes "status", .str (bytes "ok")),
      (bytes "winner", winner)]).Dumpable :=
  .cons (by decide) (dumpable_getBoard game) (.cons (by decide) (dumpable_getLastMove game)
    (.cons (by decide) (.str hturn) (.cons (by decide) (.str (by decide))
      (.cons (by decide) hw .nil))))

/-- **The answer to a move comes back**, with the game out of the table or on turn. -/
theorem ends_answerMove {m : Table} {v : Int} {game : Game} {xm ym : Int}
    (hx : SameBut v m x.server.game_map_) (hon : AllOnTurn m → OnTurn game.state)
    (hmoved : (game.humanMove xm ym).1 = true) {E : Bytes → Exchange GomokuServer → Prop} :
    Ends (answerMove J S env req v (game.humanMove xm ym).2) x
      (fun _ x' => TableStep (some v) m x'.server.game_map_) E := by
  have herase {document : Json} {x : Exchange GomokuServer} (hd : document.Dumpable)
      (hx : SameBut v m x.server.game_map_) :
      Ends (moveReply J req document) x (fun _ x' => Ends (eraseGame v) x'
        (fun _ x' => TableStep (some v) m x'.server.game_map_) E) E := by
    refine ends_moveReply hd fun x' hx' => ?_
    show TableStep (some v) m (x'.server.game_map_.erase v)
    rw [hx']
    exact TableStep.erase hx
  have hwin := dumpable_getWinner
  unfold answerMove
  simp only [ends_ite, ends_bind, ends_setGame]
  split_ifs with hover hdraw hover' hdraw'
  · exact herase (dumpable_finished _ (hwin _)) hx
  · exact herase (dumpable_finished _ (.str (by decide))) hx
  · exact herase (dumpable_answered _ (by decide) (hwin _)) (hx.insert _)
  · exact herase (dumpable_answered _ (by decide) (.str (by decide))) (hx.insert _)
  · refine ends_moveReply (dumpable_answered _ (by decide) (.str (by decide))) fun x' hx' => ?_
    rw [hx']
    refine TableStep.insert hx fun hm => ?_
    rw [Bool.not_eq_true] at hover hdraw hover' hdraw'
    exact Game.onTurn_answer (hon hm) hmoved S env.rand hover hdraw hover' hdraw'

theorem AllOnTurn.getD {m : Table} (hm : AllOnTurn m) (v : Int) :
    OnTurn ((m.lookup v).getD .new).state := by
  cases hv : m.lookup v with
  | none => exact OnTurn.new
  | some game => exact hm v game hv

theorem Game.humanMove_refused {game : Game} {xm ym : Int}
    (h : (game.humanMove xm ym).1 = false) : (game.humanMove xm ym).2 = game := by
  rcases game.state.humanMove_cases xm ym with heq | ⟨-, -, heq⟩
  · have hstate : (game.humanMove xm ym).2.state = game.state := congrArg Prod.snd heq
    exact Game.ext hstate
  · have htrue : (game.humanMove xm ym).1 = true := congrArg Prod.fst heq
    rw [htrue] at h
    cases h

theorem ends_takeMove {m : Table} {v : Int} (hx : x.server.game_map_ = m) (xm ym : Int) :
    Ends (takeMove J S env req v xm ym) x
      (fun _ x' => TableStep (some v) m x'.server.game_map_)
      fun _ x' => TableStep (some v) m x'.server.game_map_ := by
  have hsame : SameBut v m x.server.game_map_ := by
    rw [hx]
    exact SameBut.refl v m
  unfold takeMove
  rw [ends_bind, ends_get, hx, ends_bind, ends_setGame, ends_ite]
  split_ifs with hmoved
  · apply keepsTable_dumped_reply
    refine TableStep.insert hsame fun hm => ?_
    rw [Game.humanMove_refused hmoved]
    exact hm.getD v
  · rw [Bool.not_eq_false] at hmoved
    exact ends_answerMove (hsame.insert _) (fun hm => hm.getD v) hmoved

theorem stepsTable_move (req : HttpRequest) :
    StepsTable env x req (aiMoveHandler J S env req) := by
  unfold StepsTable aiMoveHandler
  apply Ends.tryCatch
  · rw [ends_bind, ends_getSession, ends_ite]
    split_ifs with hlogin
    · apply keepsTable_dumped_packageResp
      exact .inl rfl
    · refine stepsTable_session fun v _ x' hx' => ?_
      rw [ends_bind]
      cases moveOf J req with
      | error what => exact .inl hx'
      | ok move =>
        rw [ends_lift_ok]
        exact ends_takeMove hx' move.1 move.2
  · intro what
    exact keepsTable_dumped_packageResp _ _ _ _ _ _ _ _ _

theorem stepsTable_handler (r : Route) (req : HttpRequest) :
    StepsTable env x req (r.handler J S env req) := by
  cases r with
  | logout => exact stepsTable_logout req
  | start => exact stepsTable_start req
  | move => exact stepsTable_move req
  | restart => exact stepsTable_restart req
  | entry | login | register | menu | backend | backendData =>
    exact keepsTable_handler _ req (by decide) x (.inl rfl)

/-- No board has changed; a user without a game may have got a new one. -/
def BoardsKept (m m' : Table) : Prop :=
  ∀ w, m'.lookup w = m.lookup w ∨ m.lookup w = none ∧ m'.lookup w = some .new

theorem boardsKept_insert (m : Table) (v : Int) :
    BoardsKept m (m.insert v ((m.lookup v).getD .new)) := by
  intro w
  by_cases hw : w = v
  · rw [hw, Finmap.lookup_insert]
    cases m.lookup v with
    | none => exact .inr ⟨rfl, rfl⟩
    | some game => exact .inl rfl
  · exact .inl (Finmap.lookup_insert_of_ne _ hw)

/-- The body of a move cannot be read, or the game does not take the move. -/
def RefusesMove (J : JsonLib) (env : Env) (s : GomokuServer) (req : HttpRequest) : Prop :=
  ∀ v xm ym, userOf env s req = some v → moveOf J req = .ok (xm, ym) →
    (((s.game_map_.lookup v).getD .new).humanMove xm ym).1 = false

theorem boardsKept_move (h : RefusesMove J env x.server req) :
    Ends (aiMoveHandler J S env req) x
      (fun _ x' => BoardsKept x.server.game_map_ x'.server.game_map_)
      fun _ x' => BoardsKept x.server.game_map_ x'.server.game_map_ := by
  unfold aiMoveHandler
  apply Ends.tryCatch
  · rw [ends_bind, ends_getSession, ends_ite]
    split_ifs with hlogin
    · apply keepsTable_dumped_packageResp
      exact fun w => .inl rfl
    · unfold RefusesMove userOf at h
      rw [ends_bind]
      cases hv : stoiText ((sessionOf env x.server req).getValue (bytes "userId")) with
      | error what => exact fun w => .inl rfl
      | ok v =>
        rw [ends_lift_ok, ends_bind]
        cases hmove : moveOf J req with
        | error what => exact fun w => .inl rfl
        | ok move =>
          have hrefused := h v move.1 move.2 (by rw [hv]; rfl) hmove
          rw [ends_lift_ok]
          show Ends (takeMove J S env req v move.1 move.2) (withSession env req x) _ _
          unfold takeMove
          rw [ends_bind, ends_get, game_map_withSession, ends_bind, ends_setGame, ends_ite,
            if_pos hrefused]
          apply keepsTable_dumped_reply
          show BoardsKept _ (x.server.game_map_.insert v _)
          rw [Game.humanMove_refused hrefused]
          exact boardsKept_insert _ v
  · intro what
    exact keepsTable_dumped_packageResp _ _ _ _ _ _ _ _ _

end Handlers

/-! ## Whole runs -/

variable (J : JsonLib) (S : StdSort Cell)

/-- The server after one request, with what the request meets outside. -/
def serve (s : GomokuServer) (r : Env × HttpRequest) : GomokuServer :=
  (onRequest (handle J S r.1) r.2 s).2

theorem tableStep_serve (s : GomokuServer) (env : Env) (req : HttpRequest) :
    TableStep (userOf env s req) s.game_map_ (serve J S s (env, req)).game_map_ := by
  unfold serve onRequest
  refine (handle_iff J S env req _ fun x =>
    TableStep (userOf env s req) s.game_map_ x.server.game_map_).mpr ?_
  split_ifs
  · exact .inl rfl
  · cases routeOf req.method_ req.path_ with
    | none => exact .inl rfl
    | some r => exact stepsTable_handler r req

theorem boardsKept_serve {s : GomokuServer} {env : Env} {req : HttpRequest}
    (hroute : routeOf req.method_ req.path_ = some .move) (h : RefusesMove J env s req) :
    BoardsKept s.game_map_ (serve J S s (env, req)).game_map_ := by
  unfold serve onRequest
  refine (handle_iff J S env req _ fun x =>
    BoardsKept s.game_map_ x.server.game_map_).mpr ?_
  split_ifs
  · exact fun w => .inl rfl
  · rw [hroute]
    exact boardsKept_move h

theorem table_logout_serve {s : GomokuServer} {env : Env} {req : HttpRequest} {what : Bytes}
    (hroute : routeOf req.method_ req.path_ = some .logout)
    (h : gameTypeOf J req = .error what) :
    (serve J S s (env, req)).game_map_ = s.game_map_ := by
  unfold serve onRequest
  refine (handle_iff J S env req _ fun x => x.server.game_map_ = s.game_map_).mpr ?_
  split_ifs
  · rfl
  · rw [hroute]
    exact @keepsTable_logout J env (· = s.game_map_) req what h _ rfl

theorem allOnTurn_run {s : GomokuServer} (hs : AllOnTurn s.game_map_)
    (requests : List (Env × HttpRequest)) :
    AllOnTurn (requests.foldl (serve J S) s).game_map_ := by
  induction requests generalizing s with
  | nil => exact hs
  | cons r requests ih => exact ih ((tableStep_serve J S s r.1 r.2).allOnTurn hs)

/-- **The table of games**: after any requests, of any users and in any order, every game in it
is unfinished and even, with the human on turn; a move that is refused and a logout that cannot
be read change no board; and a request leaves the entries of all other users as they are. -/
theorem games_wait_for_their_users (server : GomokuServer) (requests : List (Env × HttpRequest)) :
    let s := requests.foldl (serve J S) { server with game_map_ := ∅ }
    (∀ u game, s.game_map_.lookup u = some game → OnTurn game.state) ∧
    (∀ env req, routeOf req.method_ req.path_ = some .move → RefusesMove J env s req →
      BoardsKept s.game_map_ (serve J S s (env, req)).game_map_) ∧
    (∀ env req what, routeOf req.method_ req.path_ = some .logout →
      gameTypeOf J req = .error what → (serve J S s (env, req)).game_map_ = s.game_map_) ∧
    ∀ env req v, userOf env s req ≠ some v →
      (serve J S s (env, req)).game_map_.lookup v = s.game_map_.lookup v := by
  intro s
  refine ⟨?_, fun env req hroute h => boardsKept_serve J S hroute h,
    fun env req what hroute h => table_logout_serve J S hroute h, fun env req v hv => ?_⟩
  · refine allOnTurn_run J S (fun u game hgame => ?_) requests
    rw [Finmap.lookup_empty] at hgame
    cases hgame
  · exact (tableStep_serve J S s env req).lookup_of_ne hv

end Workplace.Gomoku
