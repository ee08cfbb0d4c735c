import Workplace.Gomoku.Game
import Workplace.Gomoku.Json
import Workplace.Http.Server

/-! `GomokuServer`: its state, its handlers and its routes. One request is handled at a time,
with the outside world as the request meets it in `Env`. -/

namespace Workplace.Gomoku
open Workplace.Http Workplace.Lib

/-- A game of the table, which only its own moves have changed. -/
@[ext] structure Game where
  state : AiGame
  sound : state.Sound

namespace Game

def new : Game := ⟨{}, AiGame.sound_new⟩

def humanMove (game : Game) (x y : Int) : Bool × Game :=
  ((game.state.humanMove x y).1, ⟨(game.state.humanMove x y).2, game.sound.humanMove x y⟩)

theorem isSome_aiMove (game : Game) (S : StdSort Cell) (rand : Nat) :
    (game.state.aiMove S rand).isSome := by
  obtain ⟨g', h, -⟩ := game.sound.aiMove S rand
  exact Option.isSome_of_eq_some h

/-- The write of `aiMove` is on the board, so that the call comes back. -/
def aiMove (game : Game) (S : StdSort Cell) (rand : Nat) : Game where
  state := (game.state.aiMove S rand).get (game.isSome_aiMove S rand)
  sound := by
    obtain ⟨g', h, hsound⟩ := game.sound.aiMove S rand
    simp only [h, Option.get_some]
    exact hsound

theorem state_aiMove (game : Game) (S : StdSort Cell) (rand : Nat) :
    game.state.aiMove S rand = some (game.aiMove S rand).state :=
  (Option.some_get _).symm

def getBoard (game : Game) : Json :=
  let text : Stone → Bytes
    | .EMPTY => bytes " "
    | .AI_PLAYER => bytes "white"
    | .HUMAN_PLAYER => bytes "black"
  .arr ((List.range BOARD_SIZE).map fun i : Nat => .arr ((List.range BOARD_SIZE).map
    fun j : Nat => .str (text (game.state.board_ ((i : Int), (j : Int))))))

def getWinner (game : Game) : Json :=
  match game.state.winner_ with
  | .none => .str (bytes "none")
  | .human => .str (bytes "human")
  | .ai => .str (bytes "ai")

def getLastMove (game : Game) : Json :=
  .obj [(bytes "x", .int game.state.lastMove_.1), (bytes "y", .int game.state.lastMove_.2)]

end Game

structure GomokuServer where
  sessions : SessionManager := {}
  game_map_ : Finmap (fun _ : Int => Game) := ∅
  online_users : Finmap (fun _ : Int => Bool) := ∅
  maxOnline_ : Int := 0

/-- What one request meets outside: the clock, the random numbers, the files and the database.
A query answers the number in the first row, if there is a row. -/
structure Env where
  now : Nat
  generated : Bytes
  rand : Nat
  file : Bytes → Option Bytes
  executeQuery : Bytes → Except Bytes (Option Int)
  executeUpdate : Bytes → Except Bytes Unit

abbrev Act := Action GomokuServer

section Handlers

variable (J : JsonLib) (S : StdSort Cell) (env : Env)

/-! ## What the handlers share -/

def modifyServer (f : GomokuServer → GomokuServer) : Act Unit :=
  modify fun x => { x with server := f x.server }

def getSession (req : HttpRequest) : Act Session := do
  let x ← get
  let (session, sessions, resp) := x.server.sessions.getSession env.now env.generated req x.resp
  set { x with server := { x.server with sessions }, resp }
  return session

def setValue (session : Session) (key value : Bytes) : Act Session := do
  let x ← get
  let (session, sessions) := x.server.sessions.setValue session key value
  set { x with server := { x.server with sessions } }
  return session

/-- `std::stoi`, with the text of its exceptions. -/
def stoiText (s : Bytes) : Except Bytes Int := (stoi s).mapError fun _ => bytes "stoi"

/-- `document.dump(indent)`; the text is what the response is about. -/
def dumped (indent : Option Nat) (document : Json) : Act Bytes := do
  let text ← lift (document.dump J indent 0)
  modify fun x => { x with text := some text }
  return text

/-- `FileUtil` on a path, or on the page that stands in for it. -/
def openFile (path : Bytes) : Option Bytes :=
  (env.file path).or (env.file (bytes "/Gomoku/GomokuServer/resource/NotFound.html"))

/-- The position at the end of the file; that of a file that is not open is -1. -/
def fileSize (file : Option Bytes) : Nat := (file.map List.length).getD (2 ^ 64 - 1)

/-- A buffer of `fileSize` bytes, filled from the file. -/
def readFile (file : Option Bytes) : Act Bytes := do
  let content ← lift (if 2 ^ 63 - 1 < fileSize file then
      .error (bytes "cannot create std::vector larger than max_size()") else .ok (file.getD []))
  modify fun x => { x with text := some content }
  return content

def resource (name : String) : Bytes :=
  bytes ("/home/yebidang/workplace/HttpServer/WebAPP/Gomoku/resource/" ++ name)

/-- The setters that most handlers call, with the text of the response once for the body and
once for its length. -/
def replied (version : Bytes) (code : HttpStatusCode) (message : Bytes) (close : Bool)
    (contentType text : Bytes) (resp : HttpResponse) : HttpResponse :=
  let resp := (resp.setStatusLine code message version).setCloseConnection close
  ((resp.setContentType contentType).setContentLength text.length).setBody text

def reply (version : Bytes) (code : HttpStatusCode) (message : Bytes) (close : Bool)
    (contentType text : Bytes) : Act Unit :=
  modify fun x => { x with resp := replied version code message close contentType text x.resp }

/-- A length as an `int`. -/
def asInt (n : Nat) : Int := Int.bmod n (2 ^ 32)

/-- The parameters of `packageResp` are the body and then the type, as the source has them. -/
def packaged (version : Bytes) (code : HttpStatusCode) (message : Bytes) (close : Bool)
    (body contentType : Bytes) (contentlength : Int) (resp : HttpResponse) : HttpResponse :=
  let resp := (resp.setStatusLine code message version).setContentType contentType
  let resp := ((resp.setStatusCode code).setBody body).setContentLength (toUInt64 contentlength)
  (resp.setStatusMessage message).setCloseConnection close

def packageResp (version : Bytes) (code : HttpStatusCode) (message : Bytes) (close : Bool)
    (body contentType : Bytes) (contentlength : Int) : Act Unit :=
  modify fun x =>
    { x with resp := packaged version code message close body contentType contentlength x.resp }

def textHtml : Bytes := bytes "text/html"
def applicationJson : Bytes := bytes "application/json"

/-- `status` and `message`, in the order of the keys. -/
def statusDocument (status message : Bytes) : Json :=
  .obj [(bytes "message", .str message), (bytes "status", .str status)]

def isLoggedIn (session : Session) : Bool := session.getValue (bytes "isLoggedIn") = bytes "true"

/-! ## Pages -/

def entryHandler (req : HttpRequest) : Act Unit := do
  let file := openFile env (resource "entry.html")
  if fileSize file = 0 ∨ 2 ^ 31 - 1 < fileSize file then
    modify fun x =>
      let resp := x.resp.setStatusCode .k500InternalServerError
      { x with
        resp := (resp.setStatusMessage (bytes "Invalid File Size")).setCloseConnection true }
  else
    let htmlContent ← readFile file
    packageResp req.version_ .k200Ok (bytes "OK") false textHtml htmlContent
      (asInt htmlContent.length)

/-- `MenuHandler` and `GameBackendHandler`: a page from a file. -/
def pageHandler (name : String) (req : HttpRequest) : Act Unit := do
  let buf ← readFile (openFile env (resource name))
  reply req.version_ .k200Ok (bytes "OK") false textHtml buf

def menuHandler : Handler GomokuServer := pageHandler env "menu.html"

def gameBackendHandler : Handler GomokuServer := pageHandler env "Backend.html"

/-! ## Users -/

def queryUser (username password : Bytes) : Except Bytes Int := do
  let row ← env.executeQuery (bytes "SELECT * FROM users WHERE username = '" ++ username ++
    bytes "' AND password = '" ++ password ++ bytes "'")
  return row.getD (-1)

def isUserExit (username : Bytes) : Except Bytes Bool := do
  let row ← env.executeQuery (bytes "SELECT * FROM users WHERE username = '" ++ username ++
    bytes "'")
  return row.isSome

def insertUser (username password : Bytes) : Except Bytes Int := do
  if ← isUserExit env username then return -1
  else
    env.executeUpdate (bytes "INSERT INTO users (username, password) VALUES ('" ++ username ++
      bytes "', '" ++ password ++ bytes "')")
    let row ← env.executeQuery (bytes "SELECT id FROM users WHERE username = '" ++ username ++
      bytes "'")
    return row.getD (-1)

def getUserTotal : Except Bytes Int := do
  let row ← env.executeQuery (bytes "SELECT COUNT(*) as count FROM users")
  return row.getD 0

/-- The account is logged in at another place already. -/
def loggedInElsewhere : Bytes :=
  [0xE8, 0xB4, 0xA6, 0xE5, 0x8F, 0xB7, 0xE5, 0xB7, 0xB2, 0xE5, 0x9C, 0xA8, 0xE5, 0x85, 0xB6,
    0xE4, 0xBB, 0x96, 0xE5, 0x9C, 0xB0, 0xE6, 0x96, 0xB9, 0xE7, 0x99, 0xBB, 0xE5, 0xBD, 0x95]

/-- The check that `LoginHandler` and `LogoutHandler` begin with. -/
def isJsonRequest (req : HttpRequest) : Bool :=
  req.getHeader (bytes "Content-Type") = applicationJson && req.content_ ≠ []

def badRequest (req : HttpRequest) : Act Unit :=
  reply req.version_ .k400BadRequest (bytes "Bad Request") true applicationJson []

/-- The body of a request to `/login` or `/register`. -/
def credentials (req : HttpRequest) : Except Bytes (Bytes × Bytes) := do
  let parsed ← J.parse req.content_
  let username ← J.getString parsed (bytes "username")
  let password ← J.getString parsed (bytes "password")
  return (username, password)

def loginHandler (req : HttpRequest) : Act Unit := do
  if isJsonRequest req = false then badRequest req
  else
    tryCatch (do
      let (username, password) ← lift (credentials J req)
      let userId ← lift (queryUser env username password)
      if userId ≠ -1 then
        let session ← getSession env req
        let session ← setValue session (bytes "userId") (bytes (toString userId))
        let session ← setValue session (bytes "username") username
        let _ ← setValue session (bytes "isLoggedIn") (bytes "true")
        let x ← get
        if (x.server.online_users.lookup userId).getD false = false then
          modifyServer fun s => { s with online_users := s.online_users.insert userId true }
          modifyServer fun s => { s with maxOnline_ := max s.maxOnline_ s.online_users.keys.card }
          let successBody ← dumped J (some 4)
            (.obj [(bytes "success", .bool true), (bytes "userId", .int userId)])
          reply req.version_ .k200Ok (bytes "OK") false applicationJson successBody
        else
          let failureBody ← dumped J (some 4)
            (.obj [(bytes "error", .str loggedInElsewhere), (bytes "success", .bool false)])
          reply req.version_ .k403Forbidden (bytes "Forbidden") true applicationJson failureBody
      else
        let failureBody ← dumped J (some 4)
          (statusDocument (bytes "error") (bytes "Invalid username or password"))
        reply req.version_ .k401Unauthorized (bytes "Unauthorized") false applicationJson
          failureBody)
      fun what => do
        let failureBody ← dumped J (some 4) (statusDocument (bytes "error") what)
        reply req.version_ .k400BadRequest (bytes "Bad Request") true applicationJson failureBody

def registerHandler (req : HttpRequest) : Act Unit := do
  let (username, password) ← lift (credentials J req)
  let userId ← lift (insertUser env username password)
  if userId = -1 then
    let errorBody ← dumped J (some 4)
      (statusDocument (bytes "error") (bytes "username already exists"))
    packageResp req.version_ .k409Conflict (bytes "Confilct") false applicationJson errorBody
      (asInt errorBody.length)
  else
    let successBody ← dumped J (some 4)
      (.obj [(bytes "message", .str (bytes "register success")),
        (bytes "status", .str (bytes "success")), (bytes "userId", .int userId)])
    packageResp req.version_ .k200Ok (bytes "OK") false applicationJson successBody
      (asInt successBody.length)

def MAN_VS_AI : Int := 1

def gameTypeOf (req : HttpRequest) : Except Bytes Int := do
  let parsed ← J.parse req.content_
  J.getInt parsed (bytes "gameType")

def logoutHandler (req : HttpRequest) : Act Unit := do
  if isJsonRequest req = false then badRequest req
  else
    tryCatch (do
      let session ← getSession env req
      let userId ← lift (stoiText (session.getValue (bytes "userId")))
      modifyServer fun s => { s with sessions := s.sessions.save session.clear }
      modifyServer fun s => { s with sessions := s.sessions.destroySession session.sessionId_ }
      let gameType ← lift (gameTypeOf J req)
      modifyServer fun s => { s with online_users := s.online_users.erase userId }
      modifyServer fun s =>
        if gameType = MAN_VS_AI then { s with game_map_ := s.game_map_.erase userId } else s
      let responseBody ← dumped J (some 4)
        (.obj [(bytes "message", .str (bytes "Logout successful"))])
      reply req.version_ .k200Ok (bytes "OK") true applicationJson responseBody)
      fun what => do
        let responseBody ← dumped J (some 4) (statusDocument (bytes "error") what)
        reply req.version_ .k500InternalServerError (bytes "Internal Server Error") true
          applicationJson responseBody

def getBackendData (req : HttpRequest) : Act Unit :=
  tryCatch (do
    let x ← get
    let totalUsers ← lift (getUserTotal env)
    let respBodyStr ← dumped J (some 4)
      (.obj [(bytes "currentOnline", .int x.server.online_users.keys.card),
        (bytes "maxOnline", .int x.server.maxOnline_), (bytes "totalUsers", .int totalUsers)])
    reply req.version_ .k200Ok (bytes "OK") false applicationJson respBodyStr)
    fun what => do
      let errorBodyStr ← dumped J (some 4)
        (.obj [(bytes "error", .str (bytes "Internal Server Error")),
          (bytes "message", .str what)])
      reply req.version_ .k500InternalServerError (bytes "Internal Server Error") true
        applicationJson errorBodyStr

/-! ## Games -/

def startGame (userId : Int) : Act Unit := do
  modifyServer fun s => { s with game_map_ := s.game_map_.erase userId }
  modifyServer fun s => { s with game_map_ := s.game_map_.insert userId .new }

def aiGameStartHandler (req : HttpRequest) : Act Unit := do
  let session ← getSession env req
  if isLoggedIn session = false then
    let errorRespStr ← dumped J (some 4) (statusDocument (bytes "error") (bytes "Unauthorized"))
    packageResp req.version_ .k400BadRequest (bytes "Unauthorized") true errorRespStr
      applicationJson (asInt errorRespStr.length)
  else
    let userId ← lift (stoiText (session.getValue (bytes "userId")))
    startGame userId
    let htmlContent ← readFile (openFile env (resource "ChessGameVsAi.html"))
    reply req.version_ .k200Ok (bytes "OK") false textHtml htmlContent

def restartChessGameVsAi (req : HttpRequest) : Act Unit := do
  let session ← getSession env req
  if isLoggedIn session = false then
    let errorBody ← dumped J (some 4) (statusDocument (bytes "error") (bytes "Unauthorized"))
    packageResp req.version_ .k401Unauthorized (bytes "Unauthorized") true applicationJson
      errorBody (asInt errorBody.length)
  else
    let userId ← lift (stoiText (session.getValue (bytes "userId")))
    startGame userId
    let successBody ← dumped J (some 4)
      (statusDocument (bytes "ok") (bytes "Restarted chess game vs AI"))
    packageResp req.version_ .k200Ok (bytes "OK") true applicationJson successBody
      (asInt successBody.length)

/-- The answer to a move that the game took. -/
def moveReply (req : HttpRequest) (document : Json) : Act Unit := do
  let respBodyStr ← dumped J none document
  reply req.version_ .k200Ok (bytes "OK") false applicationJson respBodyStr

def setGame (userId : Int) (game : Game) : Act Unit :=
  modifyServer fun s => { s with game_map_ := s.game_map_.insert userId game }

def eraseGame (userId : Int) : Act Unit :=
  modifyServer fun s => { s with game_map_ := s.game_map_.erase userId }

/-- The part of `AiMoveHandler::handle` after the human's stone. -/
def answerMove (req : HttpRequest) (userId : Int) (game : Game) : Act Unit := do
  let document (game : Game) (winner : Json) : Json :=
    .obj [(bytes "board", game.getBoard), (bytes "next_turn", .str (bytes "none")),
      (bytes "status", .str (bytes "ok")), (bytes "winner", winner)]
  if game.state.gameOver_ then
    moveReply J req (document game game.getWinner)
    eraseGame userId
  else if game.state.isDraw then
    moveReply J req (document game (.str (bytes "draw")))
    eraseGame userId
  else
    let game := game.aiMove S env.rand
    setGame userId game
    let document (next_turn : Bytes) (winner : Json) : Json :=
      .obj [(bytes "board", game.getBoard), (bytes "last_move", game.getLastMove),
        (bytes "next_turn", .str next_turn), (bytes "status", .str (bytes "ok")),
        (bytes "winner", winner)]
    if game.state.gameOver_ then
      moveReply J req (document (bytes "none") game.getWinner)
      eraseGame userId
    else if game.state.isDraw then
      moveReply J req (document (bytes "none") (.str (bytes "draw")))
      eraseGame userId
    else moveReply J req (document (bytes "human") (.str (bytes "none")))

/-- The part after the body is read: a user without a game gets one. -/
def takeMove (req : HttpRequest) (userId x y : Int) : Act Unit := do
  let exchange ← get
  let game := (exchange.server.game_map_.lookup userId).getD .new
  let moved := game.humanMove x y
  setGame userId moved.2
  if moved.1 = false then
    let errorBody ← dumped J none (statusDocument (bytes "error") (bytes "Invalid move"))
    reply req.version_ .k400BadRequest (bytes "Bad Request") false applicationJson errorBody
  else answerMove J S env req userId moved.2

/-- The body of a request to `/aiBot/move`. -/
def moveOf (req : HttpRequest) : Except Bytes (Int × Int) := do
  let request ← J.parse req.content_
  let x ← J.getInt request (bytes "x")
  let y ← J.getInt request (bytes "y")
  return (x, y)

def aiMoveHandler (req : HttpRequest) : Act Unit :=
  tryCatch (do
    let session ← getSession env req
    if isLoggedIn session = false then
      let errorBody ← dumped J (some 4) (statusDocument (bytes "error") (bytes "Unauthorized"))
      packageResp req.version_ .k401Unauthorized (bytes "Unauthorized") true applicationJson
        errorBody (asInt errorBody.length)
    else
      let userId ← lift (stoiText (session.getValue (bytes "userId")))
      let (x, y) ← lift (moveOf J req)
      takeMove J S env req userId x y)
    fun what => do
      let errorBody ← dumped J none (statusDocument (bytes "error") what)
      packageResp req.version_ .k500InternalServerError (bytes "Internal Server Error") false
        applicationJson errorBody (asInt errorBody.length)

/-! ## Routes -/

def router : Router GomokuServer :=
  let r : Router GomokuServer := {}
  let r := r.registerHandler .kGet (bytes "/") (entryHandler env)
  let r := r.registerHandler .kGet (bytes "/entry") (entryHandler env)
  let r := r.registerHandler .kPost (bytes "/login") (loginHandler J env)
  let r := r.registerHandler .kPost (bytes "/register") (registerHandler J env)
  let r := r.registerHandler .kPost (bytes "/user/logout") (logoutHandler J env)
  let r := r.registerHandler .kGet (bytes "/menu") (menuHandler env)
  let r := r.registerHandler .kGet (bytes "/aiBot/start") (aiGameStartHandler J env)
  let r := r.registerHandler .kPost (bytes "/aiBot/move") (aiMoveHandler J S env)
  let r := r.registerCallBack .kGet (bytes "/aiBot/restart") (restartChessGameVsAi J env)
  let r := r.registerHandler .kGet (bytes "/backend") (gameBackendHandler env)
  r.registerCallBack .kGet (bytes "/backend_data") (getBackendData J env)

def middlewares : List Middleware := [corsMiddleware .defaultConfig]

def handle (req : HttpRequest) (x : Exchange GomokuServer) : Exchange GomokuServer :=
  handleRequest middlewares (router J S env) req x

end Handlers

/-! ## The routes as a table -/

inductive Route where
  | entry
  | login
  | register
  | logout
  | menu
  | start
  | move
  | restart
  | backend
  | backendData
  deriving DecidableEq, Repr

/-- The handlers come before the callbacks, and what was registered last comes first. -/
def routeOf (method : Method) (path : Bytes) : Option Route :=
  match method with
  | .kGet =>
    if path = bytes "/backend" then some .backend
    else if path = bytes "/aiBot/start" then some .start
    else if path = bytes "/menu" then some .menu
    else if path = bytes "/entry" then some .entry
    else if path = bytes "/" then some .entry
    else if path = bytes "/backend_data" then some .backendData
    else if path = bytes "/aiBot/restart" then some .restart
    else none
  | .kPost =>
    if path = bytes "/aiBot/move" then some .move
    else if path = bytes "/user/logout" then some .logout
    else if path = bytes "/register" then some .register
    else if path = bytes "/login" then some .login
    else none
  | _ => none

variable (J : JsonLib) (S : StdSort Cell) (env : Env)

def Route.handler : Route → Handler GomokuServer
  | .entry => entryHandler env
  | .login => loginHandler J env
  | .register => registerHandler J env
  | .logout => logoutHandler J env
  | .menu => menuHandler env
  | .start => aiGameStartHandler J env
  | .move => aiMoveHandler J S env
  | .restart => restartChessGameVsAi J env
  | .backend => gameBackendHandler env
  | .backendData => getBackendData J env

theorem target_router (req : HttpRequest) :
    (router J S env).target req =
      (routeOf req.method_ req.path_).map fun r => (r.handler J S env, req) := by
  simp only [Router.target, router, Router.registerHandler, Router.registerCallBack,
    Function.update_apply, Router.findRegex, Prod.mk.injEq]
  generalize req.method_ = method, req.path_ = path
  cases method <;> simp only [routeOf, reduceCtorEq, false_and, if_false, true_and, Option.map_none]
  all_goals split_ifs <;> rfl

/-- The headers that the middleware adds to a response. -/
def withCors (x : Exchange GomokuServer) : Exchange GomokuServer :=
  { x with resp := CorsMiddleware.after .defaultConfig x.resp }

/-- **What a request ends with**: the answer to a preflight, no route, or one of the two exits
of a handler. -/
theorem handle_iff (req : HttpRequest) (x : Exchange GomokuServer)
    (P : Exchange GomokuServer → Prop) :
    P (handle J S env req x) ↔
      if req.method_ = .kOptions then
        P { x with resp := CorsMiddleware.handlePrefightRequest .defaultConfig req {} }
      else
        match routeOf req.method_ req.path_ with
        | none => P (withCors (notFound x))
        | some r => Ends (r.handler J S env req) x (fun _ x' => P (withCors x'))
            fun _ x' => P (internalError x') := by
  by_cases hopt : req.method_ = .kOptions
  · have hbefore : processBefore middlewares req =
        .error (.response (CorsMiddleware.handlePrefightRequest .defaultConfig req {})) := by
      simp only [processBefore, middlewares, corsMiddleware, List.foldlM_cons,
        CorsMiddleware.before, if_pos hopt]
      rfl
    rw [if_pos hopt, handle, handleRequest, hbefore]
  · have hbefore : processBefore middlewares req = .ok req := by
      simp only [processBefore, middlewares, corsMiddleware, List.foldlM_cons,
        CorsMiddleware.before, if_neg hopt]
      rfl
    rw [if_neg hopt, handle, handleRequest, hbefore]
    simp only [Router.route, target_router]
    cases routeOf req.method_ req.path_ with
    | none => exact Iff.rfl
    | some r =>
      simp only [Option.map_some, Ends, EStateM.run_bind]
      cases (r.handler J S env req).run x <;> exact Iff.rfl

/-! ## The shared parts -/

section Shared

variable {x : Exchange GomokuServer} {E : Bytes → Exchange GomokuServer → Prop}

/-- The session of a request, and what looking it up does to the store and to the response. -/
def sessionOf (s : GomokuServer) (req : HttpRequest) : Session :=
  (s.sessions.getSession env.now env.generated req {}).1

def withSession (req : HttpRequest) (x : Exchange GomokuServer) : Exchange GomokuServer :=
  let found := x.server.sessions.getSession env.now env.generated req x.resp
  { x with server := { x.server with sessions := found.2.1 }, resp := found.2.2 }

theorem game_map_withSession (req : HttpRequest) :
    (withSession env req x).server.game_map_ = x.server.game_map_ := rfl

@[simp] theorem ends_getSession {req : HttpRequest}
    {Q : Session → Exchange GomokuServer → Prop} :
    Ends (getSession env req) x Q E ↔ Q (sessionOf env x.server req) (withSession env req x) :=
  Iff.rfl

@[simp] theorem ends_setValue {session : Session} {key value : Bytes}
    {Q : Session → Exchange GomokuServer → Prop} :
    Ends (setValue session key value) x Q E ↔
      Q (x.server.sessions.setValue session key value).1 { x with
        server := { x.server with
          sessions := (x.server.sessions.setValue session key value).2 } } :=
  Iff.rfl

@[simp] theorem ends_modifyServer {f : GomokuServer → GomokuServer}
    {Q : Unit → Exchange GomokuServer → Prop} :
    Ends (modifyServer f) x Q E ↔ Q () { x with server := f x.server } := Iff.rfl

@[simp] theorem ends_reply {version message type text : Bytes} {code : HttpStatusCode}
    {close : Bool} {Q : Unit → Exchange GomokuServer → Prop} :
    Ends (reply version code message close type text) x Q E ↔
      Q () { x with resp := replied version code message close type text x.resp } := Iff.rfl

@[simp] theorem ends_packageResp {version message body type : Bytes} {code : HttpStatusCode}
    {close : Bool} {n : Int} {Q : Unit → Exchange GomokuServer → Prop} :
    Ends (packageResp version code message close body type n) x Q E ↔
      Q () { x with resp := packaged version code message close body type n x.resp } := Iff.rfl

theorem ends_readFile {file : Option Bytes} {Q : Bytes → Exchange GomokuServer → Prop} :
    Ends (readFile file) x Q E ↔
      if 2 ^ 63 - 1 < fileSize file then
        E (bytes "cannot create std::vector larger than max_size()") x
      else Q (file.getD []) { x with text := some (file.getD []) } := by
  unfold readFile
  rw [ends_bind]
  split_ifs <;> rfl

theorem ends_dumped {indent : Option Nat} {document : Json}
    {Q : Bytes → Exchange GomokuServer → Prop} :
    Ends (dumped J indent document) x Q E ↔
      Ends (lift (document.dump J indent 0)) x (fun t x => Q t { x with text := some t }) E := by
  unfold dumped
  rw [ends_bind]
  exact Iff.rfl

theorem ends_dumped_of_dumpable {indent : Option Nat} {document : Json}
    {Q : Bytes → Exchange GomokuServer → Prop} (hd : document.Dumpable) :
    Ends (dumped J indent document) x Q E ↔
      ∃ t, document.dump J indent 0 = .ok t ∧ Q t { x with text := some t } := by
  obtain ⟨t, ht⟩ : ∃ t, document.dump J indent 0 = .ok t := hd.exists_dump 0
  rw [ends_dumped, ht]
  simp

end Shared

/-! ## Parts that leave the server alone -/

section Keeping

variable {J : JsonLib} {S : StdSort Cell} {env : Env} {P : GomokuServer → Prop}

/-- A program that keeps what holds of the server. -/
abbrev KeepsServer (P : GomokuServer → Prop) {α : Type} (prog : Act α) : Prop :=
  Keeps (fun x : Exchange GomokuServer => P x.server) prog

theorem keepsServer_dumped (indent : Option Nat) (document : Json) :
    KeepsServer P (dumped J indent document) := by
  apply Keeps.bind (Keeps.lift _)
  exact fun _ _ h => h

theorem keepsServer_readFile (file : Option Bytes) : KeepsServer P (readFile file) := by
  apply Keeps.bind (Keeps.lift _)
  exact fun _ _ h => h

theorem keepsServer_reply (version : Bytes) (code : HttpStatusCode) (message : Bytes)
    (close : Bool) (type text : Bytes) :
    KeepsServer P (reply version code message close type text) := fun _ h => h

theorem keepsServer_packageResp (version : Bytes) (code : HttpStatusCode) (message : Bytes)
    (close : Bool) (body type : Bytes) (n : Int) :
    KeepsServer P (packageResp version code message close body type n) := fun _ h => h

theorem keepsServer_dumped_reply (indent : Option Nat) (document : Json) (version : Bytes)
    (code : HttpStatusCode) (message : Bytes) (close : Bool) (type : Bytes) : KeepsServer P
      (dumped J indent document >>= fun text => reply version code message close type text) :=
  (keepsServer_dumped indent document).bind fun _ => keepsServer_reply _ _ _ _ _ _

theorem keepsServer_dumped_packageResp (indent : Option Nat) (document : Json) (version : Bytes)
    (code : HttpStatusCode) (message : Bytes) (close : Bool) (body type : Bytes → Bytes)
    (n : Bytes → Int) : KeepsServer P (dumped J indent document >>= fun text =>
      packageResp version code message close (body text) (type text) (n text)) :=
  (keepsServer_dumped indent document).bind fun _ => keepsServer_packageResp _ _ _ _ _ _ _

/-- The handlers that only show something, or know only the database. -/
theorem keepsServer_handler (r : Route) (req : HttpRequest)
    (hr : r ≠ .login ∧ r ≠ .logout ∧ r ≠ .start ∧ r ≠ .move ∧ r ≠ .restart) :
    KeepsServer P (r.handler J S env req) := by
  cases r with
  | entry =>
    apply Keeps.ite
    · exact Keeps.modify fun _ h => h
    · apply (keepsServer_readFile _).bind
      exact fun _ => keepsServer_packageResp _ _ _ _ _ _ _
  | register =>
    apply Keeps.bind (Keeps.lift _)
    intro account
    apply Keeps.bind (Keeps.lift _)
    intro userId
    apply Keeps.ite
    all_goals
      exact keepsServer_dumped_packageResp _ _ _ _ _ _ _ _ _
  | menu =>
    apply (keepsServer_readFile _).bind
    exact fun _ => keepsServer_reply _ _ _ _ _ _
  | backend =>
    apply (keepsServer_readFile _).bind
    exact fun _ => keepsServer_reply _ _ _ _ _ _
  | backendData =>
    apply Keeps.tryCatch
    · apply Keeps.bind Keeps.get
      intro x
      apply Keeps.bind (Keeps.lift _)
      intro totalUsers
      exact keepsServer_dumped_reply _ _ _ _ _ _ _
    · intro what
      exact keepsServer_dumped_reply _ _ _ _ _ _ _
  | login => exact absurd rfl hr.1
  | logout => exact absurd rfl hr.2.1
  | start => exact absurd rfl hr.2.2.1
  | move => exact absurd rfl hr.2.2.2.1
  | restart => exact absurd rfl hr.2.2.2.2

end Keeping
end Workplace.Gomoku
