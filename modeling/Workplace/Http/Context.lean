import Workplace.Http.Request

/-! `HttpContext`: the request parser of one connection. `parseStep` is one round of the
`while (hasMore)` loop of `parseRequest`; `parseLoop` iterates it. -/

namespace Workplace.Http

inductive HttpRequestParseState where
  | kExpectRequestLine
  | kExpectHeaders
  | kExpectBody
  | kGotAll
  deriving DecidableEq, Repr

structure HttpContext where
  state_ : HttpRequestParseState := .kExpectRequestLine
  request_ : HttpRequest := {}
  deriving DecidableEq

namespace HttpContext
open HttpRequestParseState

def gotAll (ctx : HttpContext) : Bool := ctx.state_ = kGotAll

def reset (ctx : HttpContext) : HttpContext :=
  { state_ := kExpectRequestLine, request_ := ctx.request_.swap {} }

/-- `*(end-1)` of a version of eight bytes that starts with `HTTP/1.`. -/
def versionOf (version : Bytes) : Option Bytes :=
  if version.length = 8 ∧ version.take 7 = bytes "HTTP/1." then
    if version.getLast? = some 49 then some (bytes "HTTP/1.1")
    else if version.getLast? = some 48 then some (bytes "HTTP/1.0")
    else none
  else none

def setTarget (req : HttpRequest) (target : Bytes) : HttpRequest :=
  match cut 63 target with
  | some (path, args) => (req.setPath path).setQueryPathParameters args
  | none => req.setPath target

/-- `processRequestLine` on the bytes up to the CR LF: the answer and the request as it
is left, also where the line is refused. `none` is the failed assertion of `setMethod`. -/
def processRequestLine (req : HttpRequest) (line : Bytes) : Option (Bool × HttpRequest) :=
  match cut 32 line with
  | none => some (false, req)
  | some (m, afterMethod) =>
    match req.setMethod m with
    | none => none
    | some (false, req) => some (false, req)
    | some (true, req) =>
      match cut 32 afterMethod with
      | none => some (false, req)
      | some (target, version) =>
        match versionOf version with
        | some v => some (true, (setTarget req target).setVersion v)
        | none => some (false, setTarget req target)

/-- A change of fields that the request line does not set passes through it. -/
theorem processRequestLine_map {f : HttpRequest → HttpRequest}
    (hm : ∀ req m, (f req).setMethod m = (req.setMethod m).map fun p => (p.1, f p.2))
    (ht : ∀ req target, setTarget (f req) target = f (setTarget req target))
    (hv : ∀ req v, (f req).setVersion v = f (req.setVersion v))
    (req : HttpRequest) (line : Bytes) :
    processRequestLine (f req) line =
      (processRequestLine req line).map fun p => (p.1, f p.2) := by
  unfold processRequestLine
  rcases cut 32 line with _ | ⟨m, after⟩
  · rfl
  dsimp only
  rw [hm]
  rcases req.setMethod m with _ | ⟨_ | _, req'⟩
  · rfl
  · rfl
  dsimp only [Option.map_some]
  rcases cut 32 after with _ | ⟨target, version⟩
  · rfl
  dsimp only
  rw [ht]
  rcases versionOf version with _ | v
  · rfl
  · simp only [hv, Option.map_some]

theorem processRequestLine_forgetTime (req : HttpRequest) (line : Bytes) :
    processRequestLine req.forgetTime line =
      (processRequestLine req line).map fun p => (p.1, p.2.forgetTime) := by
  apply processRequestLine_map
  · intro req m
    unfold HttpRequest.setMethod HttpRequest.forgetTime
    split_ifs <;> rfl
  · intro req target
    unfold setTarget HttpRequest.setQueryPathParameters
    rcases cut 63 target with _ | ⟨path, args⟩
    · rfl
    · dsimp only
      split_ifs <;> rfl
  · intro req v
    rfl

theorem processRequestLine_withBody (n : Nat) (b : Bytes) (req : HttpRequest) (line : Bytes) :
    processRequestLine (req.withBody n b) line =
      (processRequestLine req line).map fun p => (p.1, p.2.withBody n b) := by
  apply processRequestLine_map
  · intro req m
    unfold HttpRequest.setMethod HttpRequest.withBody
    split_ifs <;> rfl
  · intro req target
    unfold setTarget HttpRequest.setQueryPathParameters
    rcases cut 63 target with _ | ⟨path, args⟩
    · rfl
    · dsimp only
      split_ifs <;> rfl
  · intro req v
    rfl

/-- How a call of `parseRequest` ends: it returns, `std::stoi` throws out of it, or an
assertion kills the process. -/
inductive ParseResult where
  | ret (ok : Bool) (ctx : HttpContext) (buf : Bytes)
  | throw (e : StdException) (ctx : HttpContext) (buf : Bytes)
  | abort
  deriving DecidableEq

inductive LoopStep where
  | again (ctx : HttpContext) (buf : Bytes)
  | done (r : ParseResult)
  deriving DecidableEq

/-- The blank line: whether a body follows depends on the method and on Content-Length.
`std::stoi` throws before `retrieveUntil`, so the blank line is then still unread. -/
def endOfHeaders (ctx : HttpContext) (buf rest : Bytes) : LoopStep :=
  if ctx.request_.method_ = .kPost ∨ ctx.request_.method_ = .kPut then
    let contentLength := ctx.request_.getHeader (bytes "Content-Length")
    if contentLength = [] then .done (.ret false ctx rest)
    else
      match stoi contentLength with
      | .error e => .done (.throw e ctx buf)
      | .ok n =>
        let req := ctx.request_.setContentLength (toUInt64 n)
        if 0 < req.contentLength_ then .again { state_ := kExpectBody, request_ := req } rest
        else .done (.ret true { state_ := kGotAll, request_ := req } rest)
  else .done (.ret true { ctx with state_ := kGotAll } rest)

/-- One round of the loop of `parseRequest`. In `kGotAll` no branch is taken and
`hasMore` stays true. -/
def parseStep (receiveTime : Timestamp) (ctx : HttpContext) (buf : Bytes) : LoopStep :=
  match ctx.state_ with
  | kExpectRequestLine =>
    match findCRLF buf with
    | none => .done (.ret true ctx buf)
    | some crlf =>
      match processRequestLine ctx.request_ (buf.take crlf) with
      | none => .done .abort
      | some (true, req) =>
        .again { state_ := kExpectHeaders, request_ := req.setReceiveTime receiveTime }
          (buf.drop (crlf + 2))
      | some (false, req) => .done (.ret false { ctx with request_ := req } buf)
  | kExpectHeaders =>
    match findCRLF buf with
    | none => .done (.ret true ctx buf)
    | some crlf =>
      match cut 58 (buf.take crlf) with
      | some (field, value) =>
        .again { ctx with request_ := ctx.request_.addHeader field value } (buf.drop (crlf + 2))
      | none =>
        if crlf = 0 then endOfHeaders ctx buf (buf.drop (crlf + 2))
        else .done (.ret false ctx (buf.drop (crlf + 2)))
  | kExpectBody =>
    if buf.length < ctx.request_.contentLength_ then .done (.ret true ctx buf)
    else
      .done (.ret true
        { state_ := kGotAll
          request_ := ctx.request_.setBody (buf.take ctx.request_.contentLength_) }
        (buf.drop ctx.request_.contentLength_))
  | kGotAll => .again ctx buf

inductive Round (t : Timestamp) (ctx : HttpContext) (buf : Bytes) : LoopStep → Prop where
  | waitLine (hs : ctx.state_ = kExpectRequestLine ∨ ctx.state_ = kExpectHeaders)
      (hf : findCRLF buf = none) : Round t ctx buf (.done (.ret true ctx buf))
  | lineAssert {i : Nat} (hs : ctx.state_ = kExpectRequestLine) (hf : findCRLF buf = some i)
      (hp : processRequestLine ctx.request_ (buf.take i) = none) :
      Round t ctx buf (.done .abort)
  | lineAccepted {i : Nat} {req : HttpRequest} (hs : ctx.state_ = kExpectRequestLine)
      (hf : findCRLF buf = some i)
      (hp : processRequestLine ctx.request_ (buf.take i) = some (true, req)) :
      Round t ctx buf (.again { state_ := kExpectHeaders, request_ := req.setReceiveTime t }
        (buf.drop (i + 2)))
  | lineRefused {i : Nat} {req : HttpRequest} (hs : ctx.state_ = kExpectRequestLine)
      (hf : findCRLF buf = some i)
      (hp : processRequestLine ctx.request_ (buf.take i) = some (false, req)) :
      Round t ctx buf (.done (.ret false { state_ := kExpectRequestLine, request_ := req } buf))
  | header {i : Nat} {field value : Bytes} (hs : ctx.state_ = kExpectHeaders)
      (hf : findCRLF buf = some i) (hc : cut 58 (buf.take i) = some (field, value)) :
      Round t ctx buf (.again
        { state_ := kExpectHeaders, request_ := ctx.request_.addHeader field value }
        (buf.drop (i + 2)))
  | headerRefused {i : Nat} (hs : ctx.state_ = kExpectHeaders) (hf : findCRLF buf = some i)
      (hc : cut 58 (buf.take i) = none) (hi : i ≠ 0) :
      Round t ctx buf (.done (.ret false ctx (buf.drop (i + 2))))
  | lengthMissing (hs : ctx.state_ = kExpectHeaders) (hf : findCRLF buf = some 0)
      (hm : ctx.request_.method_ = .kPost ∨ ctx.request_.method_ = .kPut)
      (hl : ctx.request_.getHeader (bytes "Content-Length") = []) :
      Round t ctx buf (.done (.ret false ctx (buf.drop 2)))
  | lengthThrows {e : StdException} (hs : ctx.state_ = kExpectHeaders)
      (hf : findCRLF buf = some 0)
      (hm : ctx.request_.method_ = .kPost ∨ ctx.request_.method_ = .kPut)
      (hl : ctx.request_.getHeader (bytes "Content-Length") ≠ [])
      (hn : stoi (ctx.request_.getHeader (bytes "Content-Length")) = .error e) :
      Round t ctx buf (.done (.throw e ctx buf))
  | bodyFollows {n : Int} (hs : ctx.state_ = kExpectHeaders) (hf : findCRLF buf = some 0)
      (hm : ctx.request_.method_ = .kPost ∨ ctx.request_.method_ = .kPut)
      (hl : ctx.request_.getHeader (bytes "Content-Length") ≠ [])
      (hn : stoi (ctx.request_.getHeader (bytes "Content-Length")) = .ok n)
      (hpos : 0 < toUInt64 n) :
      Round t ctx buf (.again
        { state_ := kExpectBody, request_ := ctx.request_.setContentLength (toUInt64 n) }
        (buf.drop 2))
  | bodyEmpty {n : Int} (hs : ctx.state_ = kExpectHeaders) (hf : findCRLF buf = some 0)
      (hm : ctx.request_.method_ = .kPost ∨ ctx.request_.method_ = .kPut)
      (hl : ctx.request_.getHeader (bytes "Content-Length") ≠ [])
      (hn : stoi (ctx.request_.getHeader (bytes "Content-Length")) = .ok n)
      (hz : toUInt64 n = 0) :
      Round t ctx buf (.done (.ret true
        { state_ := kGotAll, request_ := ctx.request_.setContentLength 0 } (buf.drop 2)))
  | noBody (hs : ctx.state_ = kExpectHeaders) (hf : findCRLF buf = some 0)
      (hm : ¬ (ctx.request_.method_ = .kPost ∨ ctx.request_.method_ = .kPut)) :
      Round t ctx buf (.done (.ret true { ctx with state_ := kGotAll } (buf.drop 2)))
  | waitBody (hs : ctx.state_ = kExpectBody)
      (hb : buf.length < ctx.request_.contentLength_) :
      Round t ctx buf (.done (.ret true ctx buf))
  | body (hs : ctx.state_ = kExpectBody) (hb : ctx.request_.contentLength_ ≤ buf.length) :
      Round t ctx buf (.done (.ret true
        { state_ := kGotAll
          request_ := ctx.request_.setBody (buf.take ctx.request_.contentLength_) }
        (buf.drop ctx.request_.contentLength_)))
  | spin (hs : ctx.state_ = kGotAll) : Round t ctx buf (.again ctx buf)

@[simp] theorem cut_nil (c : UInt8) : cut c [] = none := rfl

theorem parseStep_round (t : Timestamp) (ctx : HttpContext) (buf : Bytes) :
    Round t ctx buf (parseStep t ctx buf) := by
  unfold parseStep
  cases hst : ctx.state_ with
  | kExpectRequestLine =>
    rcases hf : findCRLF buf with _ | i
    · exact .waitLine (.inl hst) hf
    dsimp only
    rcases hp : processRequestLine ctx.request_ (buf.take i) with _ | ⟨_ | _, req⟩
    · exact .lineAssert hst hf hp
    · exact .lineRefused hst hf hp
    · exact .lineAccepted hst hf hp
  | kExpectHeaders =>
    rcases hf : findCRLF buf with _ | i
    · exact .waitLine (.inr hst) hf
    dsimp only
    rcases hc : cut 58 (buf.take i) with _ | ⟨field, value⟩
    · dsimp only
      split_ifs with hi
      · subst hi
        unfold endOfHeaders
        split_ifs with hm
        · dsimp only
          split_ifs with hl
          · exact .lengthMissing hst hf hm hl
          rcases hn : stoi (ctx.request_.getHeader (bytes "Content-Length")) with e | n
          · exact .lengthThrows hst hf hm hl hn
          dsimp only
          by_cases hpos : 0 < toUInt64 n
          · rw [if_pos (show 0 < (ctx.request_.setContentLength (toUInt64 n)).contentLength_ from
              hpos)]
            exact .bodyFollows hst hf hm hl hn hpos
          · have hz : toUInt64 n = 0 := by omega
            rw [hz, if_neg (show ¬ 0 < (ctx.request_.setContentLength 0).contentLength_ from
              Nat.lt_irrefl 0)]
            exact .bodyEmpty hst hf hm hl hn hz
        · exact .noBody hst hf hm
      · exact .headerRefused hst hf hc hi
    · exact .header hst hf hc
  | kExpectBody =>
    dsimp only
    split_ifs with hb
    · exact .waitBody hst hb
    · exact .body hst (by omega)
  | kGotAll => exact .spin hst

theorem Round.eq {t : Timestamp} {ctx : HttpContext} {buf : Bytes} {s : LoopStep}
    (h : Round t ctx buf s) : parseStep t ctx buf = s := by
  cases h with
  | waitLine hs hf => rcases hs with hs | hs <;> simp [parseStep, hs, hf]
  | lineAssert hs hf hp => simp [parseStep, hs, hf, hp]
  | lineAccepted hs hf hp => simp [parseStep, hs, hf, hp]
  | lineRefused hs hf hp => simp [parseStep, hs, hf, hp]
  | header hs hf hc => simp [parseStep, hs, hf, hc]
  | headerRefused hs hf hc hi => simp [parseStep, hs, hf, hc, hi]
  | lengthMissing hs hf hm hl => simp [parseStep, endOfHeaders, hs, hf, hm, hl]
  | lengthThrows hs hf hm hl hn => simp [parseStep, endOfHeaders, hs, hf, hm, hl, hn]
  | bodyFollows hs hf hm hl hn hpos =>
    simp [parseStep, endOfHeaders, hs, hf, hm, hl, hn, HttpRequest.setContentLength, hpos]
  | bodyEmpty hs hf hm hl hn hz =>
    simp [parseStep, endOfHeaders, hs, hf, hm, hl, hn, HttpRequest.setContentLength, hz]
  | noBody hs hf hm => simp [parseStep, endOfHeaders, hs, hf, hm]
  | waitBody hs hb => simp [parseStep, hs, hb]
  | body hs hb => simp [parseStep, hs, Nat.not_lt.mpr hb]
  | spin hs => simp [parseStep, hs]

/-- `parseRequest` with at most `fuel` rounds; `none` when they do not suffice. -/
def parseLoop (receiveTime : Timestamp) : Nat → HttpContext → Bytes → Option ParseResult
  | 0, _, _ => none
  | fuel + 1, ctx, buf =>
    match parseStep receiveTime ctx buf with
    | .again ctx' buf' => parseLoop receiveTime fuel ctx' buf'
    | .done r => some r

/-- `parseRequest`: a round that goes on eats at least a CR LF, so a round per byte
and one more are enough wherever the loop ends at all. -/
def parseRequest (ctx : HttpContext) (buf : Bytes) (receiveTime : Timestamp) :
    Option ParseResult := parseLoop receiveTime (buf.length + 1) ctx buf

end HttpContext
end Workplace.Http
