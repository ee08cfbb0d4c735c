import Workplace.Http.ResponseGrammar
import Workplace.Http.Server
import Workplace.Lib.Incremental

/-! The responses of a keep-alive connection, which a client tells apart by their declared
lengths. What stands in the status line is left to the client. -/

namespace Workplace.Http
open Workplace.Lib

structure Message where
  statusLine : Bytes
  headers : List (Bytes × Bytes)
  body : Bytes
  deriving DecidableEq

/-! ## The client -/

namespace HttpResponse
variable {resp : HttpResponse}

/-- The response as a client reads it. -/
def message (resp : HttpResponse) : Message where
  statusLine := resp.httpVersion_ ++
    32 :: (bytes (toString resp.statusCode_.code) ++ resp.statusMessage_)
  headers := resp.parts.headers.map fun h => (h.1, trimOWS h.2)
  body := resp.body_

end HttpResponse

/-! ## A connection -/

section Connection
variable {τ : Type} (httpCallback_ : HttpRequest → Exchange τ → Exchange τ)

/-- The exchange of `onRequest`. -/
def exchange (server : τ) (req : HttpRequest) : Exchange τ :=
  httpCallback_ req { server, resp := { closeConnection_ := wantsClose req } }

/-- The responses to the requests of one connection, up to the one that closes it. -/
def responses (server : τ) : List HttpRequest → List HttpResponse
  | [] => []
  | req :: reqs =>
    let x := exchange httpCallback_ server req
    x.resp :: if x.resp.closeConnection_ then [] else responses x.server reqs

end Connection

/-- A callback that answers `hi`, and closes the connection where the client wants it to. -/
def greet (_ : HttpRequest) (x : Exchange Unit) : Exchange Unit :=
  let resp := x.resp.setStatusLine .k200Ok (bytes "OK") (bytes "HTTP/1.1")
  { x with resp := (resp.setContentLength 2).setBody (bytes "hi") }

end Workplace.Http
