import Workplace.Http.Request

/-! `HttpResponse`: the record a handler fills in, its setters, and the bytes that
`appendToBuffer` sends. -/

namespace Workplace.Http

inductive HttpStatusCode where
  | kUnknow
  | k200Ok
  | k204NoContent
  | k301MovedPermanently
  | k400BadRequest
  | k401Unauthorized
  | k403Forbidden
  | k404NotFound
  | k409Conflict
  | k500InternalServerError
  deriving DecidableEq, Repr

def HttpStatusCode.code : HttpStatusCode → Nat
  | .kUnknow => 0
  | .k200Ok => 200
  | .k204NoContent => 204
  | .k301MovedPermanently => 301
  | .k400BadRequest => 400
  | .k401Unauthorized => 401
  | .k403Forbidden => 403
  | .k404NotFound => 404
  | .k409Conflict => 409
  | .k500InternalServerError => 500

def crlf : Bytes := [CR, LF]

/-- The entries of a `std::map`, in the order of its keys. -/
def StrMap.entries (m : StrMap) : List (Bytes × Bytes) :=
  m.keys.sort.map fun key => (key, StrMap.get m key)

structure HttpResponse where
  statusCode_ : HttpStatusCode := .kUnknow
  statusMessage_ : Bytes := []
  httpVersion_ : Bytes := []
  headers_ : StrMap := ∅
  body_ : Bytes := []
  closeConnection_ : Bool := true
  deriving DecidableEq

namespace HttpResponse

def setStatusCode (resp : HttpResponse) (code : HttpStatusCode) : HttpResponse :=
  { resp with statusCode_ := code }

def setStatusMessage (resp : HttpResponse) (message : Bytes) : HttpResponse :=
  { resp with statusMessage_ := message }

def setCloseConnection (resp : HttpResponse) (on : Bool) : HttpResponse :=
  { resp with closeConnection_ := on }

def addHeader (resp : HttpResponse) (key value : Bytes) : HttpResponse :=
  { resp with headers_ := resp.headers_.insert key value }

def setContentLength (resp : HttpResponse) (length : Nat) : HttpResponse :=
  resp.addHeader (bytes "Content-Length") (bytes (toString length))

def setContentType (resp : HttpResponse) (contentType : Bytes) : HttpResponse :=
  resp.addHeader (bytes "Content-Type") contentType

def setBody (resp : HttpResponse) (body : Bytes) : HttpResponse := { resp with body_ := body }

def setStatusLine (resp : HttpResponse) (code : HttpStatusCode) (message version : Bytes) :
    HttpResponse :=
  { resp with httpVersion_ := version, statusCode_ := code, statusMessage_ := message }

/-- The version and the code go through a buffer of 32 characters, with the end mark; the
message follows the code directly. -/
def statusLine (resp : HttpResponse) : Bytes :=
  (resp.httpVersion_.takeWhile (· ≠ 0) ++ bytes " " ++
    bytes (toString resp.statusCode_.code)).take 31 ++ resp.statusMessage_ ++ crlf

def connectionLine (close : Bool) : Bytes :=
  if close then bytes "Connection: close" ++ crlf else bytes "Connection: Keep-Alive" ++ crlf

def appendToBuffer (resp : HttpResponse) : Bytes :=
  resp.statusLine ++ connectionLine resp.closeConnection_ ++
    resp.headers_.entries.flatMap (fun h => h.1 ++ bytes ": " ++ h.2 ++ crlf) ++ crlf ++ resp.body_

def contentLength? (resp : HttpResponse) : Option Bytes :=
  resp.headers_.lookup (bytes "Content-Length")

def contentType? (resp : HttpResponse) : Option Bytes :=
  resp.headers_.lookup (bytes "Content-Type")

variable (resp : HttpResponse)

theorem fields_of_headers {resp r : HttpResponse} (h : resp.headers_ = r.headers_) :
    resp.contentLength? = r.contentLength? ∧ resp.contentType? = r.contentType? := by
  rw [contentLength?, contentType?, h]
  exact ⟨rfl, rfl⟩

theorem lookup_addHeader (key value field : Bytes) :
    (resp.addHeader key value).headers_.lookup field =
      if field = key then some value else resp.headers_.lookup field := by
  split_ifs with h
  · rw [h]
    exact Finmap.lookup_insert _
  · exact Finmap.lookup_insert_of_ne _ h

theorem contentLength?_addHeader {key : Bytes} (h : bytes "Content-Length" ≠ key)
    (value : Bytes) : (resp.addHeader key value).contentLength? = resp.contentLength? :=
  (lookup_addHeader resp key value _).trans (if_neg h)

theorem contentType?_addHeader {key : Bytes} (h : bytes "Content-Type" ≠ key)
    (value : Bytes) : (resp.addHeader key value).contentType? = resp.contentType? :=
  (lookup_addHeader resp key value _).trans (if_neg h)

@[simp] theorem contentLength?_setContentLength (n : Nat) :
    (resp.setContentLength n).contentLength? = some (bytes (toString n)) :=
  (lookup_addHeader resp _ _ _).trans (if_pos rfl)

@[simp] theorem contentType?_setContentType (v : Bytes) :
    (resp.setContentType v).contentType? = some v :=
  (lookup_addHeader resp _ _ _).trans (if_pos rfl)

@[simp] theorem contentType?_setContentLength (n : Nat) :
    (resp.setContentLength n).contentType? = resp.contentType? :=
  resp.contentType?_addHeader (by decide) _

/-- The line after the status line says `close` exactly when the flag is set. -/
theorem connectionLine_isPrefix :
    resp.statusLine ++ connectionLine true <+: resp.appendToBuffer ↔
      resp.closeConnection_ = true := by
  unfold appendToBuffer
  rw [List.append_assoc, List.append_assoc, List.append_assoc, List.prefix_append_right_inj]
  cases resp.closeConnection_ with
  | true => exact iff_of_true (List.prefix_append _ _) rfl
  | false =>
    refine iff_of_false (fun h => ?_) (by simp)
    have htake := h.take 13
    rw [List.take_append_of_le_length (by decide)] at htake
    exact absurd htake (by decide)

end HttpResponse
end Workplace.Http
