import Workplace.Http.Response

/-! Sessions: the store, the cookie that names one, and `SessionManager::getSession`. The
clock is read as `now`, in nanoseconds, and `generated` is the id that `generateSessionId`
would return. -/

namespace Workplace.Http

structure Session where
  sessionId_ : Bytes
  data_ : StrMap := ∅
  expiryTime_ : Nat := 0
  maxAge_ : Nat := 3600
  deriving DecidableEq

namespace Session

def isExpired (session : Session) (now : Nat) : Bool := decide (session.expiryTime_ < now)

def refresh (session : Session) (now : Nat) : Session :=
  { session with expiryTime_ := now + session.maxAge_ * 10 ^ 9 }

def getValue (session : Session) (key : Bytes) : Bytes := StrMap.get session.data_ key

def clear (session : Session) : Session := { session with data_ := ∅ }

theorem refresh_keeps (session : Session) (now : Nat) :
    (session.refresh now).sessionId_ = session.sessionId_ ∧
      (session.refresh now).data_ = session.data_ := by
  unfold refresh
  -- the kernel would otherwise count to the number of nanoseconds
  generalize now + session.maxAge_ * 10 ^ 9 = expiryTime
  exact ⟨rfl, rfl⟩

end Session

/-- `std::string::find` of a string: what stands after its first occurrence. -/
def findAfter (needle : Bytes) : Bytes → Option Bytes
  | [] => if needle = [] then some [] else none
  | b :: bs =>
    if needle.isPrefixOf (b :: bs) then some ((b :: bs).drop needle.length)
    else findAfter needle bs

/-- `SessionManager` with its storage. A session is named by the id it is stored under. -/
structure SessionManager where
  sessions_ : Finmap (fun _ : Bytes => Session) := ∅

namespace SessionManager

def save (m : SessionManager) (session : Session) : SessionManager :=
  { m with sessions_ := m.sessions_.insert session.sessionId_ session }

/-- An expired session is removed when it is asked for. -/
def load (m : SessionManager) (now : Nat) (sessionId : Bytes) : Option Session × SessionManager :=
  match m.sessions_.lookup sessionId with
  | some session =>
    if session.isExpired now then (none, { m with sessions_ := m.sessions_.erase sessionId })
    else (some session, m)
  | none => (none, m)

def destroySession (m : SessionManager) (sessionId : Bytes) : SessionManager :=
  { m with sessions_ := m.sessions_.erase sessionId }

def getSessionIdFromCookie (req : HttpRequest) : Bytes :=
  match findAfter (bytes "sessionId=") (req.getHeader (bytes "Cookie")) with
  | some rest =>
    match cut 59 rest with
    | some (sessionId, _) => sessionId
    | none => rest
  | none => []

def setSessionCookie (sessionId : Bytes) (resp : HttpResponse) : HttpResponse :=
  resp.addHeader (bytes "Set-Cookie")
    (bytes "sessionId=" ++ sessionId ++ bytes "; Path=/; HttpOnly")

def getSession (m : SessionManager) (now : Nat) (generated : Bytes) (req : HttpRequest)
    (resp : HttpResponse) : Session × SessionManager × HttpResponse :=
  let sessionId := getSessionIdFromCookie req
  let (found, m) := if sessionId = [] then (none, m) else m.load now sessionId
  let session := (found.getD { sessionId_ := generated }).refresh now
  let resp := if found.isSome then resp else setSessionCookie generated resp
  (session, m.save session, resp)

theorem getSession_resp (m : SessionManager) (now : Nat) (generated : Bytes) (req : HttpRequest)
    (resp : HttpResponse) :
    (m.getSession now generated req resp).2.2 = resp ∨
      (m.getSession now generated req resp).2.2 = setSessionCookie generated resp := by
  simp only [getSession]
  split_ifs
  all_goals first | exact .inl rfl | exact .inr rfl

/-- `Session::setValue`, which saves the session again. -/
def setValue (m : SessionManager) (session : Session) (key value : Bytes) :
    Session × SessionManager :=
  let session := { session with data_ := session.data_.insert key value }
  (session, m.save session)

end SessionManager

open SessionManager in
@[simp] theorem contentLength?_setSessionCookie (sessionId : Bytes) (resp : HttpResponse) :
    (setSessionCookie sessionId resp).contentLength? = resp.contentLength? :=
  resp.contentLength?_addHeader (by decide) _

open SessionManager in
@[simp] theorem contentType?_setSessionCookie (sessionId : Bytes) (resp : HttpResponse) :
    (setSessionCookie sessionId resp).contentType? = resp.contentType? :=
  resp.contentType?_addHeader (by decide) _

end Workplace.Http
