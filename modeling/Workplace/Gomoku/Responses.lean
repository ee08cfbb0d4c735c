import Workplace.Gomoku.Table

/-! The responses of the server. Each way through a handler leaves a response of one of three
shapes; which one follows from the request and the state, and decides whether the client can
read the stream and whether the connection is closed. -/

namespace Workplace.Gomoku
open Workplace.Http Workplace.Lib

/-! ## Framing -/

def isTokenByte (b : UInt8) : Bool :=
  isdigit b || (65 ≤ b && b ≤ 90) || (97 ≤ b && b ≤ 122) ||
    [33, 35, 36, 37, 38, 39, 42, 43, 45, 46, 94, 95, 96, 124, 126].contains b

/-- `type/subtype`, with parameters after a semicolon, and no line break. -/
def isMediaType (v : Bytes) : Bool :=
  match cut 47 v with
  | some (type, rest) =>
    let subtype := rest.takeWhile (· ≠ 59)
    !type.isEmpty && type.all isTokenByte && !subtype.isEmpty && subtype.all isTokenByte &&
      v.all fun b => b ≠ CR && b ≠ LF
  | none => false

/-- The length is that of the body and is there unless the connection closes; the type is a
media type; and the page or the JSON text is the body. -/
structure Framed (x : Exchange GomokuServer) : Prop where
  length : ∀ v, x.resp.contentLength? = some v → v = bytes (toString x.resp.body_.length)
  keepAlive : x.resp.closeConnection_ = false → x.resp.contentLength? ≠ none
  type : ∀ v, x.resp.contentType? = some v → isMediaType v = true
  body : ∀ t, x.text = some t → x.resp.body_ = t

/-- `bare`: a status and nothing else, but for the flag of the connection. -/
inductive Shape where
  | whole (close : Bool)
  | crossed (close : Bool)
  | bare (close : Bool)
  deriving DecidableEq

namespace Shape

def close : Shape → Bool
  | .whole c => c
  | .crossed c => c
  | .bare c => c

def framed : Shape → Bool
  | .whole _ => true
  | .crossed _ => false
  | .bare c => c

def Fits (sh : Shape) (x : Exchange GomokuServer) : Prop :=
  x.resp.closeConnection_ = sh.close ∧
    match sh with
    | .whole _ => Framed x
    | .crossed _ => ¬ Framed x
    | .bare _ => x.resp.contentLength? = none ∧ x.resp.contentType? = none ∧ x.text = none

variable {sh : Shape} {x : Exchange GomokuServer}

theorem Fits.framed_iff (h : sh.Fits x) : Framed x ↔ sh.framed = true := by
  cases sh with
  | whole c => exact iff_of_true h.2 rfl
  | crossed c => exact iff_of_false h.2 (by simp [framed])
  | bare c =>
    obtain ⟨hclose, hlength, htype, htext⟩ := h
    constructor
    · intro hx
      by_contra hc
      rw [framed, Bool.not_eq_true] at hc
      exact hx.keepAlive (hclose.trans hc) hlength
    · intro hc
      refine ⟨?_, ?_, ?_, ?_⟩
      · simp [hlength]
      · have hc' : c = true := hc
        simp [hclose, close, hc']
      · simp [htype]
      · simp [htext]

/-- Only the lengths, the types, the bodies and the flags count. -/
theorem Fits.congr {y : Exchange GomokuServer} (h : sh.Fits x)
    (hlength : y.resp.contentLength? = x.resp.contentLength?)
    (htype : y.resp.contentType? = x.resp.contentType?) (hbody : y.resp.body_ = x.resp.body_)
    (hclose : y.resp.closeConnection_ = x.resp.closeConnection_) (htext : y.text = x.text) :
    sh.Fits y := by
  have hframed : Framed y ↔ Framed x := by
    constructor
    · rintro ⟨h1, h2, h3, h4⟩
      rw [hlength, hbody] at h1
      rw [hlength, hclose] at h2
      rw [htype] at h3
      rw [htext, hbody] at h4
      exact ⟨h1, h2, h3, h4⟩
    · rintro ⟨h1, h2, h3, h4⟩
      rw [← hlength, ← hbody] at h1
      rw [← hlength, ← hclose] at h2
      rw [← htype] at h3
      rw [← htext, ← hbody] at h4
      exact ⟨h1, h2, h3, h4⟩
  refine ⟨hclose.trans h.1, ?_⟩
  cases sh with
  | whole c => exact hframed.mpr h.2
  | crossed c => exact fun hy => h.2 (hframed.mp hy)
  | bare c => exact ⟨hlength.trans h.2.1, htype.trans h.2.2.1, htext.trans h.2.2.2⟩

theorem Fits.addHeader (h : sh.Fits x) (key value : Bytes) (hlength : bytes "Content-Length" ≠ key)
    (htype : bytes "Content-Type" ≠ key) : sh.Fits { x with resp := x.resp.addHeader key value } :=
  h.congr (x.resp.contentLength?_addHeader hlength value)
    (x.resp.contentType?_addHeader htype value) rfl rfl rfl

theorem Fits.ite {p : Prop} [Decidable p] {r r' : HttpResponse}
    (h : sh.Fits { x with resp := r }) (h' : sh.Fits { x with resp := r' }) :
    sh.Fits { x with resp := if p then r else r' } := by
  split_ifs
  · exact h
  · exact h'

theorem fits_addCorsHeaders (config : CorsConfig) (origin : Bytes) (h : sh.Fits x) :
    sh.Fits { x with resp := CorsMiddleware.addCorsHeaders config x.resp origin } := by
  have horigin := h.addHeader (bytes "Access-Control-Allow-Origin") origin (by decide) (by decide)
  have hcredentials := Fits.ite (p := config.allowCredentials)
    (horigin.addHeader (bytes "Access-Control-Allow-Credentials") (bytes "true") (by decide)
      (by decide)) horigin
  have hmethods := Fits.ite (p := config.allowedMethod.isEmpty) hcredentials
    (hcredentials.addHeader (bytes "Access-Control-Allow-Methods")
      (CorsMiddleware.join config.allowedMethod (bytes ", ")) (by decide) (by decide))
  have hheaders := Fits.ite (p := config.allowedHeaders.isEmpty) hmethods
    (hmethods.addHeader (bytes "Access-Control-Allow-Headers")
      (CorsMiddleware.join config.allowedHeaders (bytes ", ")) (by decide) (by decide))
  exact hheaders.addHeader (bytes "Access-Control-Max-Age") (bytes (toString config.maxAge))
    (by decide) (by decide)

theorem Fits.withCors (h : sh.Fits x) : sh.Fits (withCors x) := by
  exact fits_addCorsHeaders .defaultConfig (bytes "*") h

theorem Fits.setStatusCode (h : sh.Fits x) (code : HttpStatusCode) :
    sh.Fits { x with resp := x.resp.setStatusCode code } := h.congr rfl rfl rfl rfl rfl

theorem Fits.internalError (h : sh.Fits x) : sh.Fits (internalError x) :=
  h.congr rfl rfl rfl rfl rfl

end Shape

/-! ## The places where responses are put together -/

section Sites

variable {x : Exchange GomokuServer} {version message type text : Bytes} {code : HttpStatusCode}
  {close : Bool}

theorem Framed.of_fields (hlength : x.resp.contentLength? =
      some (bytes (toString x.resp.body_.length)))
    (htype : x.resp.contentType? = some type) (hmedia : isMediaType type = true)
    (hbody : ∀ t, x.text = some t → x.resp.body_ = t) : Framed x where
  length v hv := (Option.some.inj (hlength.symm.trans hv)).symm
  keepAlive _ := by simp [hlength]
  type v hv := by
    rw [← Option.some.inj (htype.symm.trans hv)]
    exact hmedia
  body := hbody

theorem fits_replied (hmedia : isMediaType type = true)
    (htext : ∀ t, x.text = some t → text = t) :
    (Shape.whole close).Fits
      { x with resp := replied version code message close type text x.resp } := by
  have hheaders : (replied version code message close type text x.resp).headers_ =
      ((x.resp.setContentType type).setContentLength text.length).headers_ := rfl
  obtain ⟨hl, ht⟩ := HttpResponse.fields_of_headers hheaders
  refine ⟨rfl, Framed.of_fields ?_ ?_ hmedia htext⟩
  · rw [hl, HttpResponse.contentLength?_setContentLength]
    rfl
  · rw [ht, HttpResponse.contentType?_setContentLength, HttpResponse.contentType?_setContentType]

/-- The body and its type in the order of the parameters. -/
theorem fits_packaged (hmedia : isMediaType type = true) (htext : x.text = some text)
    (hlength : toUInt64 (asInt text.length) = text.length) :
    (Shape.whole close).Fits { x with
      resp := packaged version code message close text type (asInt text.length) x.resp } := by
  have hheaders : (packaged version code message close text type (asInt text.length)
      x.resp).headers_ = ((x.resp.setContentType type).setContentLength
        (toUInt64 (asInt text.length))).headers_ := rfl
  obtain ⟨hl, ht⟩ := HttpResponse.fields_of_headers hheaders
  refine ⟨rfl, Framed.of_fields ?_ ?_ hmedia fun t ht => Option.some.inj (htext.symm.trans ht)⟩
  · rw [hl, HttpResponse.contentLength?_setContentLength, hlength]
    rfl
  · rw [ht, HttpResponse.contentType?_setContentLength, HttpResponse.contentType?_setContentType]

/-- The type as the body, and the text as its type. -/
theorem fits_crossed {n : Int} (htext : x.text = some text) (hne : type ≠ text) :
    (Shape.crossed close).Fits
      { x with resp := packaged version code message close type text n x.resp } :=
  ⟨rfl, fun h => hne (h.body text htext)⟩

end Sites

/-- The program ends with a response of shape `sh`, whichever way it ends. -/
def Leaves (prog : Act Unit) (x : Exchange GomokuServer) (sh : Shape) : Prop :=
  Ends prog x (fun _ x' => sh.Fits x') fun _ x' => sh.Fits x'

section Parts

variable {J : JsonLib} {env : Env} {x : Exchange GomokuServer} {req : HttpRequest}
  {version message : Bytes} {code : HttpStatusCode} {close c : Bool} {indent : Option Nat}

theorem isMediaType_json : isMediaType applicationJson = true := by decide

theorem isMediaType_html : isMediaType textHtml = true := by decide

theorem ends_dumped_reply {document : Json} (hd : document.Dumpable)
    {E : Bytes → Exchange GomokuServer → Prop} :
    Ends (do
      let text ← dumped J indent document
      reply version code message close applicationJson text) x
      (fun _ x' => (Shape.whole close).Fits x') E := by
  rw [ends_bind, ends_dumped_of_dumpable J hd]
  obtain ⟨t, ht⟩ : ∃ t, document.dump J indent 0 = .ok t := hd.exists_dump 0
  exact ⟨t, ht, fits_replied isMediaType_json fun u hu => Option.some.inj hu⟩

/-- No JSON object is the text `application/json`. -/
theorem ends_dumped_crossed {entries : List (Bytes × Json)}
    (hd : (Json.obj entries).Dumpable) {E : Bytes → Exchange GomokuServer → Prop} :
    Ends (do
      let text ← dumped J indent (.obj entries)
      packageResp version code message close applicationJson text (asInt text.length)) x
      (fun _ x' => (Shape.crossed close).Fits x') E := by
  rw [ends_bind, ends_dumped_of_dumpable J hd]
  obtain ⟨t, ht⟩ : ∃ t, (Json.obj entries).dump J indent 0 = .ok t := hd.exists_dump 0
  refine ⟨t, ht, fits_crossed rfl fun hjson => ?_⟩
  have hhead := Json.head_dump_obj ht
  rw [← hjson] at hhead
  exact absurd hhead (by decide)

/-- The text of an exception that is not UTF-8 makes its own document fail. -/
theorem dump_statusDocument {what : Bytes} (hw : Json.isUtf8 what = false) (status : Bytes) :
    ∃ e, (statusDocument status what).dump J indent 0 = .error e := by
  have hkey : Json.isUtf8 (bytes "message") = true := by decide
  refine ⟨J.dumpError what, ?_⟩
  simp only [statusDocument, Json.dump, Json.dumpEntries, Json.dumpString, if_pos hkey, hw]
  rfl

theorem dumpable_statusDocument {status what : Bytes} (hs : Json.isUtf8 status = true)
    (hw : Json.isUtf8 what = true) : (statusDocument status what).Dumpable :=
  .cons (by decide) (.str hw) (.cons (by decide) (.str hs) .nil)

theorem leaves_error {what : Bytes} {next : Bytes → Act Unit} {document : Json} {sh : Shape}
    (hx : (Shape.bare c).Fits x)
    (hok : Json.isUtf8 what = true → Leaves (dumped J indent document >>= next) x sh)
    (herror : Json.isUtf8 what = false → ∃ e, document.dump J indent 0 = .error e) :
    Leaves (dumped J indent document >>= next) x
      (if Json.isUtf8 what = true then sh else .bare c) := by
  split_ifs with hw
  · exact hok hw
  · rw [Bool.not_eq_true] at hw
    obtain ⟨e, he⟩ := herror hw
    unfold Leaves
    rw [ends_bind, ends_dumped, he]
    exact hx

/-- A new session adds its cookie, and nothing else. -/
theorem fits_withSession (hx : (Shape.bare c).Fits x) :
    (Shape.bare c).Fits (withSession env req x) := by
  rcases x.server.sessions.getSession_resp env.now env.generated req x.resp with hresp | hresp
  · have hw : (withSession env req x).resp = x.resp := hresp
    apply hx.congr <;> first | rw [hw] | rfl
  · have hw : (withSession env req x).resp =
        SessionManager.setSessionCookie env.generated x.resp := hresp
    apply hx.congr
    · rw [hw, contentLength?_setSessionCookie]
    · rw [hw, contentType?_setSessionCookie]
    · rw [hw]
      rfl
    · rw [hw]
      rfl
    · rfl

/-! ## The branches -/

def loginId (J : JsonLib) (env : Env) (req : HttpRequest) : Except Bytes Int := do
  let account ← credentials J req
  queryUser env account.1 account.2

theorem loginId_of_error {J : JsonLib} {env : Env} {req : HttpRequest} {what : Bytes}
    (h : credentials J req = .error what) : loginId J env req = .error what := by
  rw [loginId, h]
  rfl

theorem loginId_of_ok {J : JsonLib} {env : Env} {req : HttpRequest} {account : Bytes × Bytes}
    (h : credentials J req = .ok account) :
    loginId J env req = queryUser env account.1 account.2 := by
  rw [loginId, h]
  rfl

def registerId (J : JsonLib) (env : Env) (req : HttpRequest) : Except Bytes Int := do
  let account ← credentials J req
  insertUser env account.1 account.2

def userId (env : Env) (s : GomokuServer) (req : HttpRequest) : Except Bytes Int :=
  stoiText ((sessionOf env s req).getValue (bytes "userId"))

def logoutType (J : JsonLib) (env : Env) (s : GomokuServer) (req : HttpRequest) :
    Except Bytes Int := do
  let _ ← userId env s req
  gameTypeOf J req

def movesTo (J : JsonLib) (env : Env) (s : GomokuServer) (req : HttpRequest) :
    Except Bytes (Int × Int) := do
  let _ ← userId env s req
  moveOf J req

def pageSize (env : Env) (name : String) : Nat := fileSize (openFile env (resource name))

/-- The shape of the response, as the request and the state decide it; `c` is what the client
wants of the connection. -/
def branch (J : JsonLib) (env : Env) (s : GomokuServer) (req : HttpRequest) (c : Bool) :
    Route → Shape
  | .entry =>
    if pageSize env "entry.html" = 0 ∨ 2 ^ 31 - 1 < pageSize env "entry.html" then .bare true
    else if openFile env (resource "entry.html") = some textHtml then .whole false
    else .crossed false
  | .menu => if 2 ^ 63 - 1 < pageSize env "menu.html" then .bare c else .whole false
  | .backend => if 2 ^ 63 - 1 < pageSize env "Backend.html" then .bare c else .whole false
  | .login =>
    if isJsonRequest req = false then .whole true
    else
      match loginId J env req with
      | .error what => if Json.isUtf8 what = true then .whole true else .bare c
      | .ok id => .whole (decide (id ≠ -1) && (s.online_users.lookup id).getD false)
  | .register =>
    match registerId J env req with
    | .error _ => .bare c
    | .ok _ => .crossed false
  | .logout =>
    if isJsonRequest req = false then .whole true
    else
      match logoutType J env s req with
      | .error what => if Json.isUtf8 what = true then .whole true else .bare c
      | .ok _ => .whole true
  | .start =>
    if isLoggedIn (sessionOf env s req) = false then .whole true
    else
      match userId env s req with
      | .error _ => .bare c
      | .ok _ => if 2 ^ 63 - 1 < pageSize env "ChessGameVsAi.html" then .bare c else .whole false
  | .restart =>
    if isLoggedIn (sessionOf env s req) = false then .crossed true
    else
      match userId env s req with
      | .error _ => .bare c
      | .ok _ => .crossed true
  | .move =>
    if isLoggedIn (sessionOf env s req) = false then .crossed true
    else
      match movesTo J env s req with
      | .error what => if Json.isUtf8 what = true then .crossed false else .bare c
      | .ok _ => .whole false
  | .backendData =>
    match getUserTotal env with
    | .error what => if Json.isUtf8 what = true then .whole true else .bare c
    | .ok _ => .whole false

/-- The end of `MenuHandler`, `GameBackendHandler` and `AiGameStartHandler`. -/
theorem leaves_page (hx : (Shape.bare c).Fits x) (name : String) :
    Leaves (do
      let text ← readFile (openFile env (resource name))
      reply version code message close textHtml text) x
      (if 2 ^ 63 - 1 < pageSize env name then .bare c else .whole close) := by
  unfold Leaves pageSize
  rw [ends_bind, ends_readFile]
  split_ifs with hsize
  · exact hx
  · exact fits_replied isMediaType_html fun u hu => Option.some.inj hu

theorem leaves_entry (hx : (Shape.bare c).Fits x) :
    Leaves (entryHandler env req) x (branch J env x.server req c .entry) := by
  unfold Leaves entryHandler
  rw [ends_ite, branch]
  unfold pageSize
  split_ifs with hsize hpage
  · exact ⟨rfl, hx.2⟩
  · rw [hpage, ends_bind, ends_readFile, if_neg (by decide)]
    exact fits_packaged isMediaType_html rfl (by decide)
  · push Not at hsize
    rw [ends_bind, ends_readFile, if_neg (by omega)]
    refine fits_crossed rfl fun htext => hpage ?_
    -- a file that is not open has no size in range
    cases hfile : openFile env (resource "entry.html") with
    | none =>
      rw [hfile] at hsize
      exact absurd hsize.2 (by decide)
    | some content =>
      rw [hfile] at htext
      rw [htext]
      rfl

theorem fits_badRequest (hx : (Shape.bare c).Fits x) :
    Ends (badRequest req) x (fun _ x' => (Shape.whole true).Fits x')
      fun _ x' => (Shape.whole true).Fits x' :=
  fits_replied isMediaType_json fun _ ht => absurd (hx.2.2.2.symm.trans ht) (by simp)

/-- The handlers of the exceptions in `LoginHandler` and `LogoutHandler`. -/
theorem leaves_exception (hx : (Shape.bare c).Fits x) (what : Bytes) :
    Leaves (do
      let text ← dumped J (some 4) (statusDocument (bytes "error") what)
      reply version code message true applicationJson text) x
      (if Json.isUtf8 what = true then .whole true else .bare c) :=
  leaves_error hx
    (fun hw => ends_dumped_reply (dumpable_statusDocument (by decide) hw))
    fun hw => dump_statusDocument hw _

theorem ends_loggedIn {E : Bytes → Exchange GomokuServer → Prop} (id : Int) (username : Bytes) :
    Ends (do
      let session ← getSession env req
      let session ← setValue session (bytes "userId") (bytes (toString id))
      let session ← setValue session (bytes "username") username
      let _ ← setValue session (bytes "isLoggedIn") (bytes "true")
      let x ← get
      if (x.server.online_users.lookup id).getD false = false then
        modifyServer fun s => { s with online_users := s.online_users.insert id true }
        modifyServer fun s => { s with maxOnline_ := max s.maxOnline_ s.online_users.keys.card }
        let successBody ← dumped J (some 4)
          (.obj [(bytes "success", .bool true), (bytes "userId", .int id)])
        reply req.version_ .k200Ok (bytes "OK") false applicationJson successBody
      else
        let failureBody ← dumped J (some 4)
          (.obj [(bytes "error", .str loggedInElsewhere), (bytes "success", .bool false)])
        reply req.version_ .k403Forbidden (bytes "Forbidden") true applicationJson failureBody) x
      (fun _ x' => (Shape.whole ((x.server.online_users.lookup id).getD false)).Fits x') E := by
  rw [ends_bind, ends_getSession, ends_bind, ends_setValue, ends_bind, ends_setValue, ends_bind,
    ends_setValue, ends_bind, ends_get, ends_ite]
  show if (x.server.online_users.lookup id).getD false = false then _ else _
  split_ifs with honline
  · rw [honline, ends_bind, ends_modifyServer, ends_bind, ends_modifyServer]
    exact ends_dumped_reply (.cons (by decide) (.bool _) (.cons (by decide) (.int _) .nil))
  · rw [Bool.not_eq_false] at honline
    rw [honline]
    exact ends_dumped_reply
      (.cons (by decide) (.str (by decide)) (.cons (by decide) (.bool _) .nil))

theorem leaves_login (hx : (Shape.bare c).Fits x) :
    Leaves (loginHandler J env req) x (branch J env x.server req c .login) := by
  unfold Leaves loginHandler
  rw [ends_ite, branch]
  split_ifs with hjson
  · exact fits_badRequest hx
  · rw [ends_tryCatch, ends_bind]
    cases hcred : credentials J req with
    | error what =>
      rw [loginId_of_error hcred]
      exact leaves_exception hx what
    | ok account =>
      rw [ends_lift_ok, loginId_of_ok hcred]
      show Ends (lift (queryUser env account.1 account.2) >>= _) _ _ _
      rw [ends_bind]
      cases queryUser env account.1 account.2 with
      | error what => exact leaves_exception hx what
      | ok id =>
        rw [ends_lift_ok, ends_ite]
        dsimp only
        split_ifs with hone
        · rw [decide_eq_true hone, Bool.true_and]
          exact ends_loggedIn id account.1
        · rw [decide_eq_false hone, Bool.false_and]
          exact ends_dumped_reply (dumpable_statusDocument (by decide) (by decide))

theorem leaves_register (hx : (Shape.bare c).Fits x) :
    Leaves (registerHandler J env req) x (branch J env x.server req c .register) := by
  unfold Leaves registerHandler
  rw [branch, ends_bind]
  cases hcred : credentials J req with
  | error what =>
    have hid : registerId J env req = .error what := by
      rw [registerId, hcred]
      rfl
    rw [hid]
    exact hx
  | ok account =>
    have hid : registerId J env req = insertUser env account.1 account.2 := by
      rw [registerId, hcred]
      rfl
    rw [ends_lift_ok, hid]
    show Ends (lift (insertUser env account.1 account.2) >>= _) _ _ _
    rw [ends_bind]
    cases insertUser env account.1 account.2 with
    | error what => exact hx
    | ok id =>
      rw [ends_lift_ok, ends_ite]
      split_ifs
      · exact ends_dumped_crossed (dumpable_statusDocument (by decide) (by decide))
      · exact ends_dumped_crossed (.cons (by decide) (.str (by decide))
          (.cons (by decide) (.str (by decide)) (.cons (by decide) (.int _) .nil)))

theorem leaves_logout (hx : (Shape.bare c).Fits x) :
    Leaves (logoutHandler J env req) x (branch J env x.server req c .logout) := by
  unfold Leaves logoutHandler
  rw [ends_ite, branch]
  split_ifs with hjson
  · exact fits_badRequest hx
  · rw [ends_tryCatch, ends_bind, ends_getSession, ends_bind]
    cases huser : userId env x.server req with
    | error what =>
      have htype : logoutType J env x.server req = .error what := by
        rw [logoutType, huser]
        rfl
      unfold userId at huser
      rw [htype, huser]
      exact leaves_exception (fits_withSession hx) what
    | ok id =>
      have htype : logoutType J env x.server req = gameTypeOf J req := by
        rw [logoutType, huser]
        rfl
      unfold userId at huser
      rw [htype, huser, ends_lift_ok, ends_bind, ends_modifyServer, ends_bind, ends_modifyServer,
        ends_bind]
      cases gameTypeOf J req with
      | error what =>
        rw [ends_lift_error]
        apply leaves_exception
        exact fits_withSession hx
      | ok gameType =>
        rw [ends_lift_ok, ends_bind, ends_modifyServer, ends_bind, ends_modifyServer]
        exact ends_dumped_reply (.cons (by decide) (.str (by decide)) .nil)

/-- The text is short enough for its length to be an `int`. -/
theorem dump_unauthorized (J : JsonLib) :
    ∃ t, (statusDocument (bytes "error") (bytes "Unauthorized")).dump J (some 4) 0 = .ok t ∧
      toUInt64 (asInt t.length) = t.length := ⟨_, rfl, by decide⟩

theorem leaves_start (hx : (Shape.bare c).Fits x) :
    Leaves (aiGameStartHandler J env req) x (branch J env x.server req c .start) := by
  unfold Leaves aiGameStartHandler
  rw [ends_bind, ends_getSession, ends_ite, branch]
  by_cases hlogin : isLoggedIn (sessionOf env x.server req) = false
  · simp only [if_pos hlogin]
    obtain ⟨t, ht, hlength⟩ := dump_unauthorized J
    rw [ends_bind, ends_dumped, ht]
    exact fits_packaged isMediaType_json rfl hlength
  · simp only [if_neg hlogin]
    rw [ends_bind]
    show Ends (lift (userId env x.server req)) _ _ _
    cases userId env x.server req with
    | error what => exact fits_withSession hx
    | ok id =>
      rw [ends_lift_ok]
      unfold startGame
      rw [ends_bind, ends_bind, ends_modifyServer, ends_modifyServer]
      apply leaves_page
      exact fits_withSession hx

theorem leaves_restart (hx : (Shape.bare c).Fits x) :
    Leaves (restartChessGameVsAi J env req) x (branch J env x.server req c .restart) := by
  unfold Leaves restartChessGameVsAi
  rw [ends_bind, ends_getSession, ends_ite, branch]
  split_ifs with hlogin
  · exact ends_dumped_crossed (dumpable_statusDocument (by decide) (by decide))
  · rw [ends_bind]
    show Ends (lift (userId env x.server req)) _ _ _
    cases userId env x.server req with
    | error what => exact fits_withSession hx
    | ok id =>
      rw [ends_lift_ok]
      unfold startGame
      rw [ends_bind, ends_bind, ends_modifyServer, ends_modifyServer]
      exact ends_dumped_crossed (dumpable_statusDocument (by decide) (by decide))

theorem leaves_backendData (hx : (Shape.bare c).Fits x) :
    Leaves (getBackendData J env req) x (branch J env x.server req c .backendData) := by
  unfold Leaves getBackendData
  rw [ends_tryCatch, ends_bind, ends_get, ends_bind, branch]
  cases getUserTotal env with
  | error what =>
    rw [ends_lift_error]
    refine leaves_error hx (fun hw => ends_dumped_reply ?_) fun hw => ⟨J.dumpError what, ?_⟩
    · exact .cons (by decide) (.str (by decide)) (.cons (by decide) (.str hw) .nil)
    · have hkey : Json.isUtf8 (bytes "error") = true := by decide
      have hkey' : Json.isUtf8 (bytes "message") = true := by decide
      have htext : Json.isUtf8 (bytes "Internal Server Error") = true := by decide
      simp only [Json.dump, Json.dumpEntries, Json.dumpString, if_pos hkey, if_pos hkey',
        if_pos htext, hw]
      rfl
  | ok total =>
    rw [ends_lift_ok]
    exact ends_dumped_reply (.cons (by decide) (.int _)
      (.cons (by decide) (.int _) (.cons (by decide) (.int _) .nil)))

theorem fits_moveReply {document : Json} (hd : document.Dumpable)
    {Q : Unit → Exchange GomokuServer → Prop} {E : Bytes → Exchange GomokuServer → Prop}
    (hQ : ∀ x' : Exchange GomokuServer, (Shape.whole false).Fits x' → Q () x') :
    Ends (moveReply J req document) x Q E :=
  (ends_dumped_reply hd).imp (fun _ x' h => hQ x' h) fun _ _ h => h

theorem fits_answerMove {S : StdSort Cell} (id : Int) (game : Game)
    {E : Bytes → Exchange GomokuServer → Prop} :
    Ends (answerMove J S env req id game) x (fun _ x' => (Shape.whole false).Fits x') E := by
  have herase {document : Json} {x : Exchange GomokuServer} (hd : document.Dumpable) :
      Ends (moveReply J req document) x (fun _ x' => Ends (eraseGame id) x'
        (fun _ x' => (Shape.whole false).Fits x') E) E := by
    refine fits_moveReply hd fun x' h => ?_
    show (Shape.whole false).Fits { x' with
      server := { x'.server with game_map_ := x'.server.game_map_.erase id } }
    exact h.congr rfl rfl rfl rfl rfl
  have hwin := dumpable_getWinner
  unfold answerMove
  simp only [ends_ite, ends_bind, ends_setGame]
  split_ifs
  · exact herase (dumpable_finished _ (hwin _))
  · exact herase (dumpable_finished _ (.str (by decide)))
  · exact herase (dumpable_answered _ (by decide) (hwin _))
  · exact herase (dumpable_answered _ (by decide) (.str (by decide)))
  · exact fits_moveReply (dumpable_answered _ (by decide) (.str (by decide))) fun _ h => h

theorem leaves_move {S : StdSort Cell} (hx : (Shape.bare c).Fits x) :
    Leaves (aiMoveHandler J S env req) x (branch J env x.server req c .move) := by
  have hcatch {y : Exchange GomokuServer} (hy : (Shape.bare c).Fits y) (what : Bytes) :
      Leaves (do
        let errorBody ← dumped J none (statusDocument (bytes "error") what)
        packageResp req.version_ .k500InternalServerError (bytes "Internal Server Error") false
          applicationJson errorBody (asInt errorBody.length)) y
        (if Json.isUtf8 what = true then .crossed false else .bare c) :=
    leaves_error hy (fun hw => ends_dumped_crossed (dumpable_statusDocument (by decide) hw))
      fun hw => dump_statusDocument hw _
  unfold Leaves aiMoveHandler
  rw [ends_tryCatch, ends_bind, ends_getSession, ends_ite, branch]
  by_cases hlogin : isLoggedIn (sessionOf env x.server req) = false
  · simp only [if_pos hlogin]
    exact ends_dumped_crossed (dumpable_statusDocument (by decide) (by decide))
  · simp only [if_neg hlogin]
    rw [ends_bind]
    cases huser : userId env x.server req with
    | error what =>
      have hmove : movesTo J env x.server req = .error what := by
        rw [movesTo, huser]
        rfl
      unfold userId at huser
      rw [hmove, huser, ends_lift_error]
      exact hcatch (fits_withSession hx) what
    | ok id =>
      have hmove : movesTo J env x.server req = moveOf J req := by
        rw [movesTo, huser]
        rfl
      unfold userId at huser
      rw [hmove, huser, ends_lift_ok, ends_bind]
      cases moveOf J req with
      | error what =>
        rw [ends_lift_error]
        exact hcatch (fits_withSession hx) what
      | ok move =>
        rw [ends_lift_ok]
        show Ends (takeMove J S env req id move.1 move.2) _ _ _
        unfold takeMove
        rw [ends_bind, ends_get, ends_bind, ends_setGame, ends_ite]
        split_ifs
        · exact ends_dumped_reply (dumpable_statusDocument (by decide) (by decide))
        · exact fits_answerMove _ _

/-- **Each handler leaves the shape of its branch.** -/
theorem leaves_handler {S : StdSort Cell} (hx : (Shape.bare c).Fits x) (r : Route) :
    Leaves (r.handler J S env req) x (branch J env x.server req c r) := by
  cases r with
  | entry => exact leaves_entry hx
  | login => exact leaves_login hx
  | register => exact leaves_register hx
  | logout => exact leaves_logout hx
  | menu => exact leaves_page hx "menu.html"
  | start => exact leaves_start hx
  | move => exact leaves_move hx
  | restart => exact leaves_restart hx
  | backend => exact leaves_page hx "Backend.html"
  | backendData => exact leaves_backendData hx

end Parts

/-! ## Every request -/

variable (J : JsonLib) (S : StdSort Cell) (env : Env) (s : GomokuServer) (req : HttpRequest)

def answer : Exchange GomokuServer :=
  handle J S env req { server := s, resp := { closeConnection_ := wantsClose req } }

def shapeOf : Shape :=
  if req.method_ = .kOptions then .bare true
  else
    match routeOf req.method_ req.path_ with
    | none => .bare true
    | some r => branch J env s req (wantsClose req) r

theorem fits_answer : (shapeOf J env s req).Fits (answer J S env s req) := by
  have hbare (c : Bool) : (Shape.bare c).Fits { server := s, resp := { closeConnection_ := c } } :=
    ⟨rfl, rfl, rfl, rfl⟩
  unfold answer shapeOf
  refine (handle_iff J S env req _ _).mpr ?_
  split_ifs
  · unfold CorsMiddleware.handlePrefightRequest
    dsimp only
    split_ifs
    · have hcors := Shape.fits_addCorsHeaders .defaultConfig (req.getHeader (bytes "Origin"))
        (hbare true)
      exact hcors.setStatusCode .k204NoContent
    · exact (hbare true).setStatusCode .k403Forbidden
  · cases routeOf req.method_ req.path_ with
    | none => exact Shape.Fits.withCors (hbare true)
    | some r =>
      refine (leaves_handler (hbare _) r).imp (fun _ _ h => ?_) fun _ _ h => ?_
      · exact h.withCors
      · exact h.internalError

/-- A library that reads no document. -/
def noJson : JsonLib where
  Value := Unit
  parse _ := .error (bytes "parse error")
  getInt _ _ := .error (bytes "type error")
  getString _ _ := .error (bytes "type error")
  dumpError _ := bytes "invalid UTF-8"

/-- A machine on which every page is there and the database answers nothing. -/
def pagesEnv : Env where
  now := 0
  generated := bytes "0"
  rand := 0
  file _ := some (bytes "<html></html>")
  executeQuery _ := .ok none
  executeUpdate _ := .ok ()

/-- When the response of a route is framed. Four routes hand the text and its type over in the
wrong order; on the others it is an exception out of the handler that leaves no length. -/
def FramedWhen : Route → Prop
  | .entry =>
    pageSize env "entry.html" = 0 ∨ 2 ^ 31 - 1 < pageSize env "entry.html" ∨
      openFile env (resource "entry.html") = some textHtml
  | .menu => wantsClose req = true ∨ pageSize env "menu.html" ≤ 2 ^ 63 - 1
  | .backend => wantsClose req = true ∨ pageSize env "Backend.html" ≤ 2 ^ 63 - 1
  | .login => wantsClose req = true ∨ isJsonRequest req = false ∨
      ∀ what, loginId J env req = .error what → Json.isUtf8 what = true
  | .logout => wantsClose req = true ∨ isJsonRequest req = false ∨
      ∀ what, logoutType J env s req = .error what → Json.isUtf8 what = true
  | .backendData => wantsClose req = true ∨
      ∀ what, getUserTotal env = .error what → Json.isUtf8 what = true
  | .register => wantsClose req = true ∧ ∃ what, registerId J env req = .error what
  | .start => isLoggedIn (sessionOf env s req) = false ∨ wantsClose req = true ∨
      (∃ id, userId env s req = .ok id) ∧ pageSize env "ChessGameVsAi.html" ≤ 2 ^ 63 - 1
  | .restart => isLoggedIn (sessionOf env s req) = true ∧ wantsClose req = true ∧
      ∃ what, userId env s req = .error what
  | .move => isLoggedIn (sessionOf env s req) = true ∧
      ((∃ move, movesTo J env s req = .ok move) ∨ wantsClose req = true ∧
        ∃ what, movesTo J env s req = .error what ∧ Json.isUtf8 what = false)

theorem framed_branch (r : Route) :
    (branch J env s req (wantsClose req) r).framed = true ↔ FramedWhen J env s req r := by
  cases r <;> grind [branch, FramedWhen, Shape.framed]

/-- **When the client can read the stream**: exactly for a preflight, for a request without a
route, and on a route under its condition. -/
theorem framed_answer_iff :
    Framed (answer J S env s req) ↔ req.method_ = .kOptions ∨
      ∀ r, routeOf req.method_ req.path_ = some r → FramedWhen J env s req r := by
  rw [(fits_answer J S env s req).framed_iff, shapeOf]
  by_cases hopt : req.method_ = .kOptions
  · simp [hopt, Shape.framed]
  · cases hroute : routeOf req.method_ req.path_ with
    | none => simp [hopt, Shape.framed]
    | some r =>
      simp only [hopt, if_false, false_or, Option.some.injEq, forall_eq']
      exact framed_branch J env s req r

/-- `GET /` sends the page as the type, and the type as the body. -/
theorem entry_not_framed :
    ¬ Framed (answer noJson (StdSort.stable Cell) pagesEnv {}
      { method_ := .kGet, path_ := bytes "/", version_ := bytes "HTTP/1.1" }) := by
  rw [(fits_answer _ _ _ _ _).framed_iff]
  decide

/-- When a client that wants the connection closed sees it closed. -/
def ClosesWhen : Route → Prop
  | .entry => pageSize env "entry.html" = 0 ∨ 2 ^ 31 - 1 < pageSize env "entry.html"
  | .menu => 2 ^ 63 - 1 < pageSize env "menu.html"
  | .backend => 2 ^ 63 - 1 < pageSize env "Backend.html"
  | .login => isJsonRequest req = false ∨ (∃ what, loginId J env req = .error what) ∨
      ∃ id, loginId J env req = .ok id ∧ id ≠ -1 ∧ s.online_users.lookup id = some true
  | .logout => True
  | .backendData => ∃ what, getUserTotal env = .error what
  | .register => ∃ what, registerId J env req = .error what
  | .start => isLoggedIn (sessionOf env s req) = false ∨
      (∃ what, userId env s req = .error what) ∨
      2 ^ 63 - 1 < pageSize env "ChessGameVsAi.html"
  | .restart => True
  | .move => isLoggedIn (sessionOf env s req) = false ∨
      ∃ what, movesTo J env s req = .error what ∧ Json.isUtf8 what = false

theorem getD_lookup_eq_true {m : Finmap fun _ : Int => Bool} {u : Int} :
    (m.lookup u).getD false = true ↔ m.lookup u = some true := by
  cases m.lookup u with
  | none => exact iff_of_false Bool.false_ne_true (Option.some_ne_none _).symm
  | some online => exact Option.some_inj.symm

theorem close_branch (r : Route) :
    (branch J env s req true r).close = true ↔ ClosesWhen J env s req r := by
  cases r <;> grind [branch, ClosesWhen, Shape.close, getD_lookup_eq_true]

/-- What `onRequest` sends announces the end of the connection, and the connection is shut
down after it. -/
def Closed : Prop :=
  let sent := (onRequest (handle J S env) req s).1
  (answer J S env s req).resp.statusLine ++ HttpResponse.connectionLine true <+: sent.bytes ∧
    sent.shutdown = true

theorem closed_iff_shape :
    Closed J S env s req ↔ (shapeOf J env s req).close = true := by
  rw [← (fits_answer J S env s req).1]
  exact (and_congr_left' (HttpResponse.connectionLine_isPrefix _)).trans and_self_iff

/-- **When a wish to close is honoured**: the handlers that set the flag themselves do it only
where `ClosesWhen` says so. -/
theorem closed_iff (hclose : wantsClose req = true) :
    Closed J S env s req ↔ req.method_ = .kOptions ∨
      ∀ r, routeOf req.method_ req.path_ = some r → ClosesWhen J env s req r := by
  rw [closed_iff_shape, shapeOf, hclose]
  by_cases hopt : req.method_ = .kOptions
  · simp [hopt, Shape.close]
  · cases hroute : routeOf req.method_ req.path_ with
    | none => simp [hopt, Shape.close]
    | some r =>
      simp only [hopt, if_false, false_or, Option.some.injEq, forall_eq']
      exact close_branch J env s req r

/-- A request for a page, from a client that wants the connection closed after it. -/
def closing (path : String) : HttpRequest where
  method_ := .kGet
  path_ := bytes path
  version_ := bytes "HTTP/1.1"
  headers_ := (∅ : StrMap).insert (bytes "Connection") (bytes "close")

theorem closed_restart :
    wantsClose (closing "/aiBot/restart") = true ∧
      Closed noJson (StdSort.stable Cell) pagesEnv {} (closing "/aiBot/restart") := by
  have hclose : wantsClose (closing "/aiBot/restart") = true := by decide
  refine ⟨hclose, (closed_iff noJson _ pagesEnv {} _ hclose).mpr (.inr fun r hr => ?_)⟩
  have hroute : routeOf (closing "/aiBot/restart").method_ (closing "/aiBot/restart").path_ =
      some .restart := by decide
  obtain rfl := Option.some.inj (hr.symm.trans hroute)
  trivial

/-- `MenuHandler` answers `Keep-Alive` to a client that asked for `close`. -/
theorem menu_not_closed :
    wantsClose (closing "/menu") = true ∧
      ¬ Closed noJson (StdSort.stable Cell) pagesEnv {} (closing "/menu") := by
  rw [closed_iff_shape]
  decide

end Workplace.Gomoku
