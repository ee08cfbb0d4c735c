import Workplace.Gomoku.OnlineUsers

/-! What a login that is refused leaves behind, and what a logout that fails has already done.
Both handlers write to the session first and find out later whether they go on. -/

namespace Workplace.Gomoku
open Workplace.Http Workplace.Lib

/-! ## The last part of a handler -/

section Answers

variable {J : JsonLib} {x : Exchange GomokuServer} {document : Json} {version message type : Bytes}
  {code : HttpStatusCode} {close : Bool} {indent : Option Nat}
  {Q : GomokuServer → HttpStatusCode → Prop} {E : GomokuServer → Prop}

theorem ends_answer_iff :
    Ends (do
      let text ← dumped J indent document
      reply version code message close type text) x
      (fun _ x' => Q x'.server x'.resp.statusCode_) (fun _ x' => E x'.server) ↔
      match document.dump J indent 0 with
      | .ok _ => Q x.server code
      | .error _ => E x.server := by
  rw [ends_bind, ends_dumped]
  cases document.dump J indent 0 <;> exact Iff.rfl

theorem ends_answer_of_dumpable (hd : document.Dumpable)
    {E : Bytes → Exchange GomokuServer → Prop} :
    Ends (do
      let text ← dumped J indent document
      reply version code message close type text) x
      (fun _ x' => Q x'.server x'.resp.statusCode_) E ↔ Q x.server code := by
  obtain ⟨t, ht⟩ : ∃ t, document.dump J indent 0 = .ok t := hd.exists_dump 0
  rw [ends_bind, ends_dumped, ht]
  exact Iff.rfl

theorem ends_answer (hQ : Q x.server code) (hE : E x.server) :
    Ends (do
      let text ← dumped J indent document
      reply version code message close type text) x
      (fun _ x' => Q x'.server x'.resp.statusCode_) (fun _ x' => E x'.server) := by
  rw [ends_answer_iff]
  split
  · exact hQ
  · exact hE

end Answers

/-! ## A login -/

def storedValue (m : SessionManager) (id key : Bytes) : Option Bytes :=
  (m.sessions_.lookup id).bind fun session => session.data_.lookup key

/-- Nobody came online, and every stored session has what it had of the values of a login. -/
structure NoTrace (s s' : GomokuServer) : Prop where
  online_users : s'.online_users = s.online_users
  maxOnline_ : s'.maxOnline_ = s.maxOnline_
  values : ∀ id ∈ s'.sessions.sessions_,
    ∀ key ∈ [bytes "userId", bytes "username", bytes "isLoggedIn"],
      storedValue s'.sessions id key = storedValue s.sessions id key

theorem NoTrace.refl (s : GomokuServer) : NoTrace s s := ⟨rfl, rfl, fun _ _ _ _ => rfl⟩

/-- At either exit of the handler, unless the status is 200. An exception that leaves it is
answered with 500. -/
def RefusesCleanly (J : JsonLib) (env : Env) (req : HttpRequest) (x : Exchange GomokuServer) :
    Prop :=
  Ends (loginHandler J env req) x
    (fun _ x' => x'.resp.statusCode_ ≠ .k200Ok → NoTrace x.server x'.server)
    (fun _ x' => NoTrace x.server x'.server)

/-- Where the right credentials are those of a user who is online, the session of the request
has the values of this login already. -/
def MarkedBefore (J : JsonLib) (env : Env) (s : GomokuServer) (req : HttpRequest) : Prop :=
  isJsonRequest req = true → ∀ username password u,
    credentials J req = .ok (username, password) → queryUser env username password = .ok u →
    u ≠ -1 → s.online_users.lookup u = some true →
    ∀ value ∈ loginValues u username,
      storedValue s.sessions (sessionOf env s req).sessionId_ value.1 = some value.2

section Login

variable {J : JsonLib} {env : Env} {x : Exchange GomokuServer} {req : HttpRequest}
  {s : GomokuServer}

/-- The store once a login has written to its session. -/
theorem lookup_marked (env : Env) (s : GomokuServer) (req : HttpRequest)
    (values : List (Bytes × Bytes)) :
    let m := ((visited env s req).setValues (sessionOf env s req) values).2
    m.sessions_.lookup (sessionOf env s req).sessionId_ =
        some { sessionOf env s req with
          data_ := SessionManager.withValues (sessionOf env s req).data_ values } ∧
      ∀ k, k ≠ (sessionOf env s req).sessionId_ → ∀ session, m.sessions_.lookup k = some session →
        s.sessions.sessions_.lookup k = some session := by
  have heq : visited env s req =
      (s.sessions.afterLoad env.now req).save (sessionOf env s req) := by
    rw [visited, SessionManager.getSession_eq, sessionOf_eq]
  obtain ⟨-, hself, hothers⟩ := SessionManager.setValues_spec values
    (heq ▸ SessionManager.lookup_save_self (s.sessions.afterLoad env.now req) (sessionOf env s req))
  refine ⟨hself, fun k hk session hl => ?_⟩
  rw [hothers k hk, heq, SessionManager.lookup_save_ne hk] at hl
  exact SessionManager.lookup_afterLoad_of_some hl

theorem lookup_withValues {data : StrMap} {u : Int} {username : Bytes} {value : Bytes × Bytes}
    (h : value ∈ loginValues u username) :
    (SessionManager.withValues data (loginValues u username)).lookup value.1 = some value.2 := by
  have hname : bytes "userId" ≠ bytes "username" := by decide
  have hin : bytes "userId" ≠ bytes "isLoggedIn" := by decide
  have hin' : bytes "username" ≠ bytes "isLoggedIn" := by decide
  simp only [loginValues, List.mem_cons, List.not_mem_nil, or_false] at h
  rcases h with rfl | rfl | rfl <;>
    simp only [SessionManager.withValues, loginValues, List.foldl_cons, List.foldl_nil,
      Finmap.lookup_insert, Finmap.lookup_insert_of_ne _ hname, Finmap.lookup_insert_of_ne _ hin,
      Finmap.lookup_insert_of_ne _ hin']

/-- Writing the values of a login leaves no trace where they are there already. -/
theorem noTrace_marked_iff (env : Env) (s : GomokuServer) (req : HttpRequest) (u : Int)
    (username : Bytes) :
    NoTrace s { s with sessions :=
        ((visited env s req).setValues (sessionOf env s req) (loginValues u username)).2 } ↔
      ∀ value ∈ loginValues u username,
        storedValue s.sessions (sessionOf env s req).sessionId_ value.1 = some value.2 := by
  obtain ⟨hself, hothers⟩ := lookup_marked env s req (loginValues u username)
  set m := ((visited env s req).setValues (sessionOf env s req) (loginValues u username)).2
  have hmarked : ∀ value ∈ loginValues u username,
      storedValue m (sessionOf env s req).sessionId_ value.1 = some value.2 := by
    intro value hvalue
    rw [storedValue, hself]
    exact lookup_withValues hvalue
  have hkey : ∀ key ∈ [bytes "userId", bytes "username", bytes "isLoggedIn"],
      ∃ value ∈ loginValues u username, value.1 = key := by
    simp [loginValues]
  constructor
  · intro h value hvalue
    rw [← hmarked value hvalue]
    refine (h.values _ (Finmap.mem_iff.mpr ⟨_, hself⟩) value.1 ?_).symm
    simp only [loginValues, List.mem_cons, List.not_mem_nil, or_false] at hvalue ⊢
    rcases hvalue with rfl | rfl | rfl <;> simp
  · refine fun h => ⟨rfl, rfl, fun id hid key hkeys => ?_⟩
    by_cases hk : id = (sessionOf env s req).sessionId_
    · obtain ⟨value, hvalue, rfl⟩ := hkey key hkeys
      rw [hk, h value hvalue]
      exact hmarked value hvalue
    · obtain ⟨session, hl⟩ := Finmap.mem_iff.mp hid
      show storedValue m id key = _
      rw [storedValue, storedValue, hl, hothers id hk session hl]

theorem dumpable_success (u : Int) : (Json.obj [(bytes "success", .bool true),
    (bytes "userId", .int u)]).Dumpable :=
  .cons (by decide) (.bool _) (.cons (by decide) (.int _) .nil)

theorem dumpable_loggedInElsewhere : (Json.obj [(bytes "error", .str loggedInElsewhere),
    (bytes "success", .bool false)]).Dumpable :=
  .cons (by decide) (.str (by decide)) (.cons (by decide) (.bool _) .nil)

/-- With the account known there is only one user to look at. -/
theorem markedBefore_iff {username password : Bytes} {u : Int} (hjson : isJsonRequest req = true)
    (hcred : credentials J req = .ok (username, password))
    (hquery : queryUser env username password = .ok u) :
    MarkedBefore J env s req ↔ (u ≠ -1 → s.online_users.lookup u = some true →
      ∀ value ∈ loginValues u username,
        storedValue s.sessions (sessionOf env s req).sessionId_ value.1 = some value.2) := by
  constructor
  · intro h
    exact h hjson username password u hcred hquery
  · rintro h - username' password' u' hcred' hquery'
    cases hcred.symm.trans hcred'
    cases hquery.symm.trans hquery'
    exact h

/-- **A refused login leaves no trace** exactly when it does not come to the exit for a user
who is online, or finds the values there that it has written. -/
theorem login_noTrace_iff (J : JsonLib) (env : Env) (req : HttpRequest)
    (x : Exchange GomokuServer) :
    RefusesCleanly J env req x ↔ MarkedBefore J env x.server req := by
  -- the two exits, as a property of the server and of the status
  set Q : GomokuServer → HttpStatusCode → Prop := fun s' code =>
    code ≠ .k200Ok → NoTrace x.server s' with hQ
  have hsame (code : HttpStatusCode) : Q x.server code := fun _ => .refl _
  have hrefl := NoTrace.refl x.server
  show Ends _ x (fun _ x' => Q x'.server x'.resp.statusCode_)
    (fun _ x' => NoTrace x.server x'.server) ↔ _
  unfold loginHandler
  rw [ends_ite]
  split_ifs with hjson
  · exact iff_of_true (hsame _) fun h => absurd h (by rw [hjson]; decide)
  rw [Bool.not_eq_false] at hjson
  rw [ends_tryCatch, ends_bind]
  cases hcred : credentials J req with
  | error what =>
    rw [ends_lift_error]
    refine iff_of_true (ends_answer (hsame _) hrefl) fun _ _ _ _ h => ?_
    cases hcred.symm.trans h
  | ok account =>
    obtain ⟨username, password⟩ := account
    rw [ends_lift_ok]
    show Ends (lift (queryUser env username password) >>= _) _ _ _ ↔ _
    rw [ends_bind]
    cases hquery : queryUser env username password with
    | error what =>
      rw [ends_lift_error]
      refine iff_of_true (ends_answer (hsame _) hrefl) fun _ _ _ _ h hq => ?_
      cases hcred.symm.trans h
      cases hquery.symm.trans hq
    | ok u =>
      rw [ends_lift_ok, ends_ite, markedBefore_iff hjson hcred hquery]
      split_ifs with hu
      · rw [ends_bind, ends_getSession, ends_bind, ends_setValue, ends_bind, ends_setValue,
          ends_bind, ends_setValue, ends_bind, ends_get, ends_ite]
        show (if (x.server.online_users.lookup u).getD false = false then _ else _) ↔ _
        split_ifs with honline
        · rw [ends_bind, ends_modifyServer, ends_bind, ends_modifyServer]
          refine iff_of_true ((ends_answer_of_dumpable (dumpable_success u)).mpr ?_) ?_
          · exact fun h => absurd rfl h
          · intro _ hlookup
            rw [getD_lookup_eq_true.mpr hlookup] at honline
            cases honline
        · rw [Bool.not_eq_false, getD_lookup_eq_true] at honline
          refine (ends_answer_of_dumpable dumpable_loggedInElsewhere).trans ?_
          -- the status is 403, and the session has been written to
          have hmarked := noTrace_marked_iff env x.server req u username
          constructor
          · intro h _ _
            exact hmarked.mp (h (by decide))
          · intro h _
            exact hmarked.mpr (h hu honline)
      · refine iff_of_true ((ends_answer_of_dumpable ?_).mpr (hsame _)) fun h => absurd h hu
        exact dumpable_statusDocument (by decide) (by decide)

/-- Bob again, from a machine that has no session yet. -/
def bobElsewhere : Env × HttpRequest where
  fst := { pagesEnv with generated := bytes "1", executeQuery := fun _ => .ok (some 7) }
  snd := { (bobRequest "/login" "").2 with
    headers_ := (∅ : StrMap).insert (bytes "Content-Type") applicationJson }

/-- Bob is online; the login is refused with 403, and its new session is logged in as bob. -/
theorem login_marks_session : ¬ ∀ (J : JsonLib) (env : Env) (req : HttpRequest)
    (x : Exchange GomokuServer), RefusesCleanly J env req x := by
  intro h
  have hend := h (bobJson (.ok 1)) bobElsewhere.1 bobElsewhere.2
    { server := bobOnline (.ok 1), resp := {} }
  have htrace : NoTrace (bobOnline (.ok 1)) { bobOnline (.ok 1) with sessions :=
      ((visited bobElsewhere.1 (bobOnline (.ok 1)) bobElsewhere.2).setValues
        (sessionOf bobElsewhere.1 (bobOnline (.ok 1)) bobElsewhere.2)
        (loginValues 7 (bytes "bob"))).2 } := hend (by decide)
  have hstored := (noTrace_marked_iff _ _ _ _ _).mp htrace
    (bytes "isLoggedIn", bytes "true") (by decide)
  exact absurd hstored (by decide)

end Login

/-! ## A logout -/

/-- Every session is stored under its own id. -/
def Named (m : SessionManager) : Prop :=
  ∀ id session, m.sessions_.lookup id = some session → session.sessionId_ = id

/-- The session is gone, with its values, and so are the user and the game of the body's type. -/
structure LoggedOut (J : JsonLib) (env : Env) (req : HttpRequest) (s s' : GomokuServer) :
    Prop where
  session : s'.sessions.sessions_.lookup (sessionOf env s req).sessionId_ = none
  user : ∃ v, userId env s req = .ok v ∧ v ∉ s'.online_users ∧
    (gameTypeOf J req = .ok MAN_VS_AI → v ∉ s'.game_map_)

/-- Everything is as it was. Looking up the session renews its time, or stores a new one. -/
structure Undone (env : Env) (req : HttpRequest) (s s' : GomokuServer) : Prop where
  sessions : s'.sessions = s.sessions ∨ s'.sessions = visited env s req
  online_users : s'.online_users = s.online_users
  game_map_ : s'.game_map_ = s.game_map_

def AllOrNothing (J : JsonLib) (env : Env) (req : HttpRequest) (s s' : GomokuServer)
    (code : HttpStatusCode) : Prop :=
  code = .k200Ok ∧ LoggedOut J env req s s' ∨ code ≠ .k200Ok ∧ Undone env req s s'

def SettlesLogout (J : JsonLib) (env : Env) (req : HttpRequest) (x : Exchange GomokuServer) :
    Prop :=
  Ends (logoutHandler J env req) x
    (fun _ x' => AllOrNothing J env req x.server x'.server x'.resp.statusCode_)
    (fun _ x' => Undone env req x.server x'.server)

/-- The server once the session is destroyed, and nothing else has happened. -/
def withoutSession (env : Env) (req : HttpRequest) (s : GomokuServer) : GomokuServer :=
  let session := sessionOf env s req
  { s with sessions := ((visited env s req).save session.clear).destroySession session.sessionId_ }

/-- The server once the two tables are updated as well. -/
def withoutUser (env : Env) (req : HttpRequest) (s : GomokuServer) (v gameType : Int) :
    GomokuServer :=
  let s := { withoutSession env req s with online_users := s.online_users.erase v }
  if gameType = MAN_VS_AI then { s with game_map_ := s.game_map_.erase v } else s

section Logout

variable {J : JsonLib} {env : Env} {x : Exchange GomokuServer} {req : HttpRequest}
  {s : GomokuServer}

theorem lookup_withoutSession (env : Env) (req : HttpRequest) (s : GomokuServer) :
    (withoutSession env req s).sessions.sessions_.lookup (sessionOf env s req).sessionId_ = none :=
  Finmap.lookup_erase _ _

/-- A session with a user id has been stored before. -/
theorem lookup_of_userId {v : Int} (hid : userId env s req = .ok v) (hnamed : Named s.sessions) :
    ∃ session, s.sessions.sessions_.lookup (sessionOf env s req).sessionId_ = some session := by
  rw [userId, sessionOf_eq] at hid
  rw [sessionOf_eq, (Session.refresh_keeps _ _).1]
  cases hfound : s.sessions.found env.now req with
  | none =>
    rw [hfound, Option.getD_none, Session.getValue, (Session.refresh_keeps _ _).2] at hid
    cases hid
  | some session =>
    obtain ⟨-, hl, -⟩ := SessionManager.found_eq_some.mp hfound
    refine ⟨session, ?_⟩
    rw [Option.getD_some, hnamed _ session hl]
    exact hl

theorem not_undone {v : Int} (hid : userId env s req = .ok v) (hnamed : Named s.sessions) :
    ¬ Undone env req s (withoutSession env req s) := by
  intro h
  have hnone := lookup_withoutSession env req s
  rcases h.sessions with heq | heq
  · obtain ⟨session, hl⟩ := lookup_of_userId hid hnamed
    rw [heq, hl] at hnone
    cases hnone
  · have hstored := (lookup_marked env s req []).1
    rw [heq] at hnone
    cases hnone.symm.trans hstored

theorem loggedOut_withoutUser {v gameType : Int} (hid : userId env s req = .ok v)
    (hbody : gameTypeOf J req = .ok gameType) :
    LoggedOut J env req s (withoutUser env req s v gameType) := by
  have herased {α : Type} (m : Finmap fun _ : Int => α) : v ∉ m.erase v :=
    fun h => (Finmap.mem_erase.mp h).1 rfl
  unfold withoutUser
  split_ifs with hgame
  · exact ⟨lookup_withoutSession _ _ _, v, hid, herased _, fun _ => herased _⟩
  · refine ⟨lookup_withoutSession _ _ _, v, hid, herased _, fun h => ?_⟩
    exact absurd (Except.ok.inj (hbody.symm.trans h)) hgame

theorem dumpable_loggedOut :
    (Json.obj [(bytes "message", .str (bytes "Logout successful"))]).Dumpable :=
  .cons (by decide) (.str (by decide)) .nil

/-- **A logout does all or nothing** exactly when its body can be read, or it fails before it
comes to the body. -/
theorem logout_allOrNothing_iff (J : JsonLib) (env : Env) (req : HttpRequest)
    (x : Exchange GomokuServer) (hnamed : Named x.server.sessions) :
    SettlesLogout J env req x ↔
      (isJsonRequest req = true → ∀ v, userId env x.server req = .ok v →
        ∃ gameType, gameTypeOf J req = .ok gameType) := by
  have hsame {c : HttpStatusCode} (h : c ≠ .k200Ok) :
      AllOrNothing J env req x.server x.server c := .inr ⟨h, .inl rfl, rfl, rfl⟩
  unfold SettlesLogout logoutHandler
  rw [ends_ite]
  split_ifs with hjson
  · exact iff_of_true (hsame (c := .k400BadRequest) (by decide)) fun h =>
      absurd h (by rw [hjson]; decide)
  rw [Bool.not_eq_false] at hjson
  rw [ends_tryCatch, ends_bind, ends_getSession, ends_bind]
  cases hid : userId env x.server req with
  | error what =>
    have hid' := hid
    unfold userId at hid
    have hundone : Undone env req x.server (withSession env req x).server := ⟨.inr rfl, rfl, rfl⟩
    rw [hid, ends_lift_error]
    exact iff_of_true (ends_answer (.inr ⟨by decide, hundone⟩) hundone) nofun
  | ok v =>
    have hid' := hid
    unfold userId at hid
    rw [hid, ends_lift_ok, ends_bind, ends_modifyServer, ends_bind, ends_modifyServer, ends_bind]
    cases hbody : gameTypeOf J req with
    | error what =>
      rw [ends_lift_error]
      have hgone := not_undone hid' hnamed
      refine iff_of_false (fun h => ?_) fun h => ?_
      · have h' := ends_answer_iff.mp h
        split at h'
        · rcases h' with ⟨hcode, -⟩ | ⟨-, hundone⟩
          · cases hcode
          · exact hgone hundone
        · exact hgone h'
      · obtain ⟨gameType, hok⟩ := h hjson v rfl
        cases hok
    | ok gameType =>
      rw [ends_lift_ok, ends_bind, ends_modifyServer, ends_bind, ends_modifyServer]
      have hdone := loggedOut_withoutUser hid' hbody
      exact iff_of_true ((ends_answer_of_dumpable dumpable_loggedOut).mpr (.inl ⟨rfl, hdone⟩))
        fun _ _ _ => ⟨gameType, rfl⟩

theorem named_bobOnline (gameType : Except Bytes Int) :
    Named (bobOnline gameType).sessions := by
  intro id session hl
  obtain ⟨rfl, rfl⟩ := eq_of_lookup_bobOnline hl
  rfl

/-- The logout of bob with a body whose game type is what the library makes of it. -/
def bobLogsOut (gameType : Except Bytes Int) : Prop :=
  SettlesLogout (bobJson gameType) (bobRequest "/user/logout" "").1
    (bobRequest "/user/logout" "").2 { server := bobOnline gameType, resp := {} }

theorem logout_allOrNothing_bob : bobLogsOut (.ok 1) := by
  refine (logout_allOrNothing_iff _ _ _ _ ?_).mpr fun _ _ _ => ⟨1, rfl⟩
  exact named_bobOnline (.ok 1)

/-- The body lacks the game type: the answer is 500, the session is gone, and bob is online. -/
theorem logout_half_done : ¬ ∀ (J : JsonLib) (env : Env) (req : HttpRequest)
    (x : Exchange GomokuServer), Named x.server.sessions → SettlesLogout J env req x := by
  intro h
  have hnamed := named_bobOnline (.error (bytes "type error"))
  have hend : bobLogsOut (.error (bytes "type error")) := by
    refine h _ _ _ _ ?_
    exact hnamed
  rcases hend with ⟨hcode, -⟩ | ⟨-, hundone⟩
  · cases hcode
  · have hid : userId (bobRequest "/user/logout" "").1 (bobOnline (.error (bytes "type error")))
      (bobRequest "/user/logout" "").2 = .ok 7 := rfl
    exact not_undone hid hnamed hundone

end Logout

end Workplace.Gomoku
