import Workplace.Http.Text

/-! `HttpRequest`: the record a connection's parser fills in, with the setters the
parser calls. A setter that asserts answers `none` when its assertion fails. -/

namespace Workplace.Http

inductive Method where
  | kInvalid
  | kGet
  | kPost
  | kDelete
  | kPut
  | kHead
  | kOptions
  deriving DecidableEq, Repr

/-- `muduo::Timestamp`, in microseconds since the epoch. -/
abbrev Timestamp := Nat

structure HttpRequest where
  method_ : Method := .kInvalid
  version_ : Bytes := bytes "Unknow"
  path_ : Bytes := []
  pathParameters_ : StrMap := ∅
  queryParameters_ : StrMap := ∅
  headers_ : StrMap := ∅
  contentLength_ : Nat := 0
  content_ : Bytes := []
  receiveTime_ : Timestamp := 0
  deriving DecidableEq

namespace HttpRequest

def methodOf (m : Bytes) : Method :=
  if m = bytes "GET" then .kGet
  else if m = bytes "POST" then .kPost
  else if m = bytes "HEAD" then .kHead
  else if m = bytes "PUT" then .kPut
  else if m = bytes "DELETE" then .kDelete
  else .kInvalid

def setMethod (req : HttpRequest) (m : Bytes) : Option (Bool × HttpRequest) :=
  if req.method_ = .kInvalid then
    some (methodOf m ≠ .kInvalid, { req with method_ := methodOf m })
  else none

def setPath (req : HttpRequest) (path : Bytes) : HttpRequest := { req with path_ := path }

def setVersion (req : HttpRequest) (version : Bytes) : HttpRequest :=
  { req with version_ := version }

def setReceiveTime (req : HttpRequest) (t : Timestamp) : HttpRequest :=
  { req with receiveTime_ := t }

def setContentLength (req : HttpRequest) (length : Nat) : HttpRequest :=
  { req with contentLength_ := length }

def setBody (req : HttpRequest) (body : Bytes) : HttpRequest := { req with content_ := body }

def setPathParameters (req : HttpRequest) (key value : Bytes) : HttpRequest :=
  { req with pathParameters_ := req.pathParameters_.insert key value }

def getPathParameters (req : HttpRequest) (key : Bytes) : Bytes :=
  StrMap.get req.pathParameters_ key

def getQueryParameters (req : HttpRequest) (key : Bytes) : Bytes :=
  StrMap.get req.queryParameters_ key

def getHeader (req : HttpRequest) (field : Bytes) : Bytes := StrMap.get req.headers_ field

/-- One piece between two `&`: a piece without `=` is dropped. -/
def addPair (params : StrMap) (pair : Bytes) : StrMap :=
  match cut 61 pair with
  | some (key, value) => params.insert key value
  | none => params

/-- `setQueryPathParameters` on the bytes after the `?`; an empty range is refused. -/
def setQueryPathParameters (req : HttpRequest) (args : Bytes) : HttpRequest :=
  if args = [] then req
  else { req with queryParameters_ := (args.splitOn 38).foldl addPair req.queryParameters_ }

/-- `addHeader` on the bytes before the colon and those after it: the value loses the
blanks at both ends, and a later field of the same name replaces an earlier one. -/
def addHeader (req : HttpRequest) (field value : Bytes) : HttpRequest :=
  { req with headers_ := req.headers_.insert field ((value.dropWhile isspace).rdropWhile isspace) }

/-- `swap`: what `*this` is afterwards. `contentLength_` and `content_` are not in the
list of exchanged members. -/
def swap (req that : HttpRequest) : HttpRequest :=
  { that with contentLength_ := req.contentLength_, content_ := req.content_ }

def forgetTime (req : HttpRequest) : HttpRequest := { req with receiveTime_ := 0 }

def withBody (n : Nat) (b : Bytes) (req : HttpRequest) : HttpRequest :=
  { req with contentLength_ := n, content_ := b }

end HttpRequest
end Workplace.Http
