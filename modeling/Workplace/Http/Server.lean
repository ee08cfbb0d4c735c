import Workplace.Http.Session
import Workplace.Lib.Throwing

/-! From a parsed request to the response that is sent: the middlewares, the router,
`HttpServer::handleRequest` and `HttpServer::onRequest`. A handler works on the state of its
server and on the response, and may throw a `std::exception`, of which `what()` is kept. -/

namespace Workplace.Http

/-- The state of the server and the response to one request. -/
structure Exchange (τ : Type) where
  server : τ
  resp : HttpResponse
  -- the page or the JSON text that the handler has put a response together for
  text : Option Bytes := none

abbrev Action (τ : Type) := EStateM Bytes (Exchange τ)

abbrev Handler (τ : Type) := HttpRequest → Action τ Unit

/-! ## Routes -/

/-- A regular expression, as the captures of a match with a whole path. -/
abbrev Pattern := Bytes → Option (List Bytes)

structure Router (τ : Type) where
  handlers_ : Method × Bytes → Option (Handler τ) := fun _ => none
  callbacks_ : Method × Bytes → Option (Handler τ) := fun _ => none
  regexHandlers_ : List (Method × Pattern × Handler τ) := []
  regexCallbacks_ : List (Method × Pattern × Handler τ) := []

namespace Router

variable {τ : Type}

def registerHandler (r : Router τ) (method : Method) (path : Bytes) (handler : Handler τ) :
    Router τ :=
  { r with handlers_ := Function.update r.handlers_ (method, path) (some handler) }

def registerCallBack (r : Router τ) (method : Method) (path : Bytes) (callback : Handler τ) :
    Router τ :=
  { r with callbacks_ := Function.update r.callbacks_ (method, path) (some callback) }

def extractPathParameters (captures : List Bytes) (req : HttpRequest) : HttpRequest :=
  captures.zipIdx.foldl
    (fun req p => req.setPathParameters (bytes ("param" ++ toString (p.2 + 1))) p.1) req

/-- The first of the dynamic routes with the method of the request that matches its path. -/
def findRegex (req : HttpRequest) :
    List (Method × Pattern × Handler τ) → Option (Handler τ × HttpRequest)
  | [] => none
  | (method, pattern, handler) :: routes =>
    match if method = req.method_ then pattern req.path_ else none with
    | some captures => some (handler, extractPathParameters captures req)
    | none => findRegex req routes

/-- What `route` calls, and with which request. -/
def target (r : Router τ) (req : HttpRequest) : Option (Handler τ × HttpRequest) :=
  match r.handlers_ (req.method_, req.path_) with
  | some handler => some (handler, req)
  | none =>
    match r.callbacks_ (req.method_, req.path_) with
    | some callback => some (callback, req)
    | none =>
      match findRegex req r.regexHandlers_ with
      | some found => some found
      | none => findRegex req r.regexCallbacks_

def route (r : Router τ) (req : HttpRequest) : Action τ Bool :=
  match r.target req with
  | some (handler, req) => do
    handler req
    return true
  | none => return false

end Router

/-! ## Middlewares -/

/-- A preflight is answered by throwing its response. -/
inductive Thrown where
  | response (res : HttpResponse)
  | exception (what : Bytes)

structure Middleware where
  before : HttpRequest → Except Thrown HttpRequest
  after : EStateM Bytes HttpResponse Unit

def processBefore (middlewares : List Middleware) (req : HttpRequest) :
    Except Thrown HttpRequest :=
  middlewares.foldlM (fun req m => m.before req) req

/-- The hooks of the list, up to the first that throws. -/
def runAfter : List Middleware → HttpResponse → HttpResponse
  | [], resp => resp
  | m :: ms, resp =>
    match m.after.run resp with
    | .ok _ resp => runAfter ms resp
    | .error _ resp => resp

def processAfter (middlewares : List Middleware) (resp : HttpResponse) : HttpResponse :=
  runAfter middlewares.reverse resp

structure CorsConfig where
  allowedOrigins : List Bytes := []
  allowedMethod : List Bytes := []
  allowedHeaders : List Bytes := []
  allowCredentials : Bool := false
  maxAge : Int := 3600

def CorsConfig.defaultConfig : CorsConfig where
  allowedOrigins := [bytes "*"]
  allowedMethod := [bytes "GET", bytes "POST", bytes "PUT", bytes "DELETE", bytes "OPTIONS"]
  allowedHeaders := [bytes "Content-Type", bytes "Authorization"]

namespace CorsMiddleware

def join (strings : List Bytes) (delimiter : Bytes) : Bytes := delimiter.intercalate strings

def isOrigrinAllowed (config : CorsConfig) (origin : Bytes) : Bool :=
  config.allowedOrigins.isEmpty || config.allowedOrigins.contains (bytes "*") ||
    config.allowedOrigins.contains origin

def addCorsHeaders (config : CorsConfig) (resp : HttpResponse) (origin : Bytes) :
    HttpResponse :=
  let resp := resp.addHeader (bytes "Access-Control-Allow-Origin") origin
  let resp := if config.allowCredentials then
      resp.addHeader (bytes "Access-Control-Allow-Credentials") (bytes "true") else resp
  let resp := if config.allowedMethod.isEmpty then resp else
      resp.addHeader (bytes "Access-Control-Allow-Methods")
        (join config.allowedMethod (bytes ", "))
  let resp := if config.allowedHeaders.isEmpty then resp else
      resp.addHeader (bytes "Access-Control-Allow-Headers")
        (join config.allowedHeaders (bytes ", "))
  resp.addHeader (bytes "Access-Control-Max-Age") (bytes (toString config.maxAge))

def handlePrefightRequest (config : CorsConfig) (req : HttpRequest) (resp : HttpResponse) :
    HttpResponse :=
  let origin := req.getHeader (bytes "Origin")
  if isOrigrinAllowed config origin then
    (addCorsHeaders config resp origin).setStatusCode .k204NoContent
  else resp.setStatusCode .k403Forbidden

def before (config : CorsConfig) (req : HttpRequest) : Except Thrown HttpRequest :=
  if req.method_ = .kOptions then .error (.response (handlePrefightRequest config req {}))
  else .ok req

def after (config : CorsConfig) (resp : HttpResponse) : HttpResponse :=
  match config.allowedOrigins with
  | [] => resp
  | first :: _ =>
    if config.allowedOrigins.contains (bytes "*") then addCorsHeaders config resp (bytes "*")
    else addCorsHeaders config resp first

end CorsMiddleware

def corsMiddleware (config : CorsConfig) : Middleware where
  before := CorsMiddleware.before config
  after := modify (CorsMiddleware.after config)

/-! ## One request -/

variable {τ : Type}

/-- The exception stays out of the response, but for the status. -/
def internalError (x : Exchange τ) : Exchange τ :=
  let resp := x.resp.setStatusCode .k500InternalServerError
  { x with resp := resp.setStatusMessage (bytes "Internal Server Error") }

def notFound (x : Exchange τ) : Exchange τ :=
  let resp := (x.resp.setStatusCode .k404NotFound).setStatusMessage (bytes "Not Found")
  { x with resp := resp.setCloseConnection true }

def handleRequest (middlewares : List Middleware) (router : Router τ) (req : HttpRequest)
    (x : Exchange τ) : Exchange τ :=
  match processBefore middlewares req with
  | .error (.response res) => { x with resp := res }
  | .error (.exception _) => internalError x
  | .ok mutableReq =>
    match (router.route mutableReq).run x with
    | .error _ x => internalError x
    | .ok found x =>
      let x := if found then x else notFound x
      { x with resp := processAfter middlewares x.resp }

def wantsClose (req : HttpRequest) : Bool :=
  req.getHeader (bytes "Connection") = bytes "close" ||
    (req.version_ = bytes "HTTP/1.0" && req.getHeader (bytes "Connection") ≠ bytes "Keep-Alive")

/-- What a plain connection sends for one request, and whether it is shut down then. -/
structure Sent where
  bytes : Bytes
  shutdown : Bool

def onRequest (httpCallback_ : HttpRequest → Exchange τ → Exchange τ) (req : HttpRequest)
    (server : τ) : Sent × τ :=
  let x := httpCallback_ req { server, resp := { closeConnection_ := wantsClose req } }
  ({ bytes := x.resp.appendToBuffer, shutdown := x.resp.closeConnection_ }, x.server)

end Workplace.Http
