import Workplace.Gomoku.OnlineUsers
import Workplace.Gomoku.PrivateGames

/-! Who may do what. A session that names a user was left to that user by a login with the right
credentials, and a request touches the entries of no other user. -/

namespace Workplace.Gomoku
open Workplace.Http Workplace.Lib

/-! ## The sessions after a request -/

section Requests
variable (J : JsonLib)

/-- The user whose credentials the request brings, and the name. -/
def loginOf (r : Env × HttpRequest) : Option (Int × Bytes) :=
  if isJsonRequest r.2 then do
    let (username, password) ← (credentials J r.2).toOption
    let userId ← (queryUser r.1 username password).toOption
    if userId = -1 then none else some (userId, username)
  else none

/-- What a login leaves, if it succeeds and if it does not. -/
def loginLeaves (s : GomokuServer) (r : Env × HttpRequest) : Option (Int × Bytes) → SessionManager
  | some (u, username) =>
    ((visited r.1 s r.2).setValues (sessionOf r.1 s r.2) (loginValues u username)).2
  | none => s.sessions

/-- What a logout leaves, if there is a user and if there is none. -/
def logoutLeaves (s : GomokuServer) (r : Env × HttpRequest) : Option Int → SessionManager
  | some _ => ((visited r.1 s r.2).save (sessionOf r.1 s r.2).clear
      ).destroySession (sessionOf r.1 s r.2).sessionId_
  | none => visited r.1 s r.2

def sessionsAfter (s : GomokuServer) (r : Env × HttpRequest) : SessionManager :=
  match routeOf r.2.method_ r.2.path_ with
  | some .login => loginLeaves s r (loginOf J r)
  | some .logout =>
    if isJsonRequest r.2 = false then s.sessions else logoutLeaves s r (userOf r.1 s r.2)
  | some .start | some .restart | some .move => visited r.1 s r.2
  | _ => s.sessions

end Requests

section Handlers
variable {J : JsonLib} {S : StdSort Cell} {env : Env} {x : Exchange GomokuServer}
  {req : HttpRequest} {m : SessionManager}

/-- These are the stored sessions, whoever is online. -/
def Stored (m m' : SessionManager) (_ : Finmap fun _ : Int => Bool) : Prop := m' = m

def LeavesSessions (m : SessionManager) (prog : Act Unit) (x : Exchange GomokuServer) : Prop :=
  let Ok (x' : Exchange GomokuServer) := Stored m x'.server.sessions x'.server.online_users
  Ends prog x (fun _ => Ok) fun _ => Ok

theorem leavesSessions_userId {next : Int → Act Unit}
    (hnext : ∀ v, KeepsUsers (Stored (visited env x.server req)) (next v)) :
    LeavesSessions (visited env x.server req)
      (lift (stoiText ((sessionOf env x.server req).getValue (bytes "userId"))) >>= next)
      (withSession env req x) := by
  apply Keeps.bind (Keeps.lift _) hnext
  rfl

theorem leavesSessions_start :
    LeavesSessions (visited env x.server req) (aiGameStartHandler J env req) x := by
  unfold LeavesSessions aiGameStartHandler
  rw [ends_bind, ends_getSession, ends_ite]
  split_ifs
  · apply keepsUsers_dumped_packageResp
    rfl
  · refine leavesSessions_userId fun v => ?_
    apply (keepsUsers_startGame v).bind
    exact fun _ => keepsUsers_page _ _ _ _ _ _

theorem leavesSessions_restart :
    LeavesSessions (visited env x.server req) (restartChessGameVsAi J env req) x := by
  unfold LeavesSessions restartChessGameVsAi
  rw [ends_bind, ends_getSession, ends_ite]
  split_ifs
  · apply keepsUsers_dumped_packageResp
    rfl
  · refine leavesSessions_userId fun v => ?_
    apply (keepsUsers_startGame v).bind
    exact fun _ => keepsUsers_dumped_packageResp _ _ _ _ _ _ _ _ _

theorem leavesSessions_move :
    LeavesSessions (visited env x.server req) (aiMoveHandler J S env req) x := by
  unfold LeavesSessions aiMoveHandler
  apply Ends.tryCatch
  · rw [ends_bind, ends_getSession, ends_ite]
    split_ifs
    · apply keepsUsers_dumped_packageResp
      rfl
    · refine leavesSessions_userId fun v => ?_
      apply Keeps.bind (Keeps.lift _)
      exact fun move => keepsUsers_takeMove v move.1 move.2
  · exact fun what => keepsUsers_dumped_packageResp
      _ _ _ _ _ _ _ _ _

theorem loginOf_of_ok {account : Bytes × Bytes} (hjson : isJsonRequest req = true)
    (hcred : credentials J req = .ok account) :
    loginOf J (env, req) = (queryUser env account.1 account.2).toOption.bind fun u =>
      if u = -1 then none else some (u, account.1) := by
  unfold loginOf
  rw [if_pos hjson, hcred]
  rfl

theorem loginOf_of_error {what : Bytes} (hjson : isJsonRequest req = true)
    (hcred : credentials J req = .error what) : loginOf J (env, req) = none := by
  unfold loginOf
  rw [if_pos hjson, hcred]
  rfl

theorem leavesSessions_login :
    LeavesSessions (loginLeaves x.server (env, req) (loginOf J (env, req)))
      (loginHandler J env req) x := by
  unfold LeavesSessions loginHandler
  rw [ends_ite]
  split_ifs with hjson
  · rw [loginOf, if_neg (by simp [hjson])]
    rfl
  rw [Bool.not_eq_false] at hjson
  have hkeeps {m : SessionManager} (document : Json) (version : Bytes) (code : HttpStatusCode)
      (message : Bytes) (close : Bool) (type : Bytes) : KeepsUsers (Stored m)
        (dumped J (some 4) document >>= fun text => reply version code message close type text) :=
    keepsUsers_dumped_reply _ _ _ _ _ _ _
  apply Ends.tryCatch
  · rw [ends_bind]
    cases hcred : credentials J req with
    | error what =>
      rw [loginOf_of_error hjson hcred]
      rfl
    | ok account =>
      rw [loginOf_of_ok hjson hcred, ends_lift_ok]
      change Ends (lift (queryUser env account.1 account.2) >>= _) _ _ _
      rw [ends_bind]
      cases queryUser env account.1 account.2 with
      | error what => rfl
      | ok u =>
        change Ends (if u ≠ -1 then _ else _) x _ _
        rw [ends_ite]
        by_cases hu : u = -1
        · rw [if_neg (not_not.mpr hu)]
          apply hkeeps
          subst hu
          rfl
        · rw [if_pos hu, Except.toOption, Option.bind_some, if_neg hu]
          rw [ends_bind, ends_getSession, ends_bind, ends_setValue, ends_bind, ends_setValue,
            ends_bind, ends_setValue, ends_bind, ends_get, ends_ite]
          split_ifs
          · rw [ends_bind, ends_modifyServer, ends_bind, ends_modifyServer]
            apply hkeeps
            rfl
          · apply hkeeps
            rfl
  · exact fun what => hkeeps _ _ _ _ _ _

theorem leavesSessions_logout (hjson : isJsonRequest req = true) :
    LeavesSessions (logoutLeaves x.server (env, req) (userOf env x.server req))
      (logoutHandler J env req) x := by
  unfold LeavesSessions logoutHandler userOf
  rw [ends_ite, if_neg (by simp [hjson])]
  apply Ends.tryCatch
  · rw [ends_bind, ends_getSession, ends_bind]
    cases stoiText ((sessionOf env x.server req).getValue (bytes "userId")) with
    | error what => rfl
    | ok v =>
      rw [ends_lift_ok, ends_bind, ends_modifyServer, ends_bind, ends_modifyServer, ends_bind]
      cases gameTypeOf J req with
      | error what => rfl
      | ok gameType =>
        rw [ends_lift_ok, ends_bind, ends_modifyServer, ends_bind, ends_modifyServer]
        apply keepsUsers_dumped_reply
        dsimp only
        split_ifs <;> rfl
  · exact fun what => keepsUsers_dumped_reply _ _ _ _ _ _ _

theorem leavesSessions_handler {r : Route} (hroute : routeOf req.method_ req.path_ = some r) :
    LeavesSessions (sessionsAfter J x.server (env, req)) (r.handler J S env req) x := by
  cases r with
  | login =>
    simp only [sessionsAfter, hroute]
    exact leavesSessions_login
  | logout =>
    simp only [sessionsAfter, hroute]
    split_ifs with hjson
    · unfold LeavesSessions Route.handler logoutHandler
      rw [ends_ite, if_pos hjson]
      rfl
    · exact leavesSessions_logout (Bool.eq_true_of_not_eq_false hjson)
  | start =>
    simp only [sessionsAfter, hroute]
    exact leavesSessions_start
  | move =>
    simp only [sessionsAfter, hroute]
    exact leavesSessions_move
  | restart =>
    simp only [sessionsAfter, hroute]
    exact leavesSessions_restart
  | entry | register | menu | backend | backendData =>
    simp only [sessionsAfter, hroute]
    exact keepsServer_handler (P := fun s => Stored x.server.sessions s.sessions s.online_users)
      _ req (by decide) x rfl

end Handlers

theorem sessions_serve (J : JsonLib) (S : StdSort Cell) (s : GomokuServer)
    (r : Env × HttpRequest) : (serve J S s r).sessions = sessionsAfter J s r := by
  obtain ⟨env, req⟩ := r
  unfold serve onRequest
  refine (handle_iff J S env req _ fun x => x.server.sessions = sessionsAfter J s (env, req)).mpr ?_
  split_ifs with hopt
  · simp only [sessionsAfter, hopt, routeOf]
  · cases hroute : routeOf req.method_ req.path_ with
    | none =>
      simp only [sessionsAfter, hroute]
      rfl
    | some r => exact leavesSessions_handler hroute

/-! ## Who a session is left to -/

/-- What a request is to its session. -/
inductive SessionUse where
  | login (u : Int)
  | logout
  -- it has no session, or an expired one, and gets a new one
  | opened
  | visited
  deriving DecidableEq, Repr

def SessionUse.user : SessionUse → Option Int → Option Int
  | .login u, _ => some u
  | .logout, _ => none
  | .opened, _ => none
  | .visited, user => user

def lookedUp (s : GomokuServer) (r : Env × HttpRequest) : SessionUse :=
  if (s.sessions.found r.1.now r.2).isSome then .visited else .opened

def useOf (J : JsonLib) (s : GomokuServer) (r : Env × HttpRequest) :
    Option (Bytes × SessionUse) :=
  let id := (sessionOf r.1 s r.2).sessionId_
  match routeOf r.2.method_ r.2.path_ with
  | some .login => (loginOf J r).map fun account => (id, .login account.1)
  | some .logout =>
    if isJsonRequest r.2 = false then none
    else some (id, if (userOf r.1 s r.2).isSome then .logout else lookedUp s r)
  | some .start | some .restart | some .move => some (id, lookedUp s r)
  | _ => none

/-- A stored session is empty, or that of the user it was left to. -/
def LeftTo (who : Bytes → Option Int) (m : SessionManager) : Prop :=
  ∀ id session, m.sessions_.lookup id = some session → session.sessionId_ = id ∧
    (session.data_ = ∅ ∨ ∃ u, LoggedInAs session u ∧ who id = some u)

section Sessions
variable {J : JsonLib} {who : Bytes → Option Int} {s : GomokuServer} {r : Env × HttpRequest}
  {m m' : SessionManager} {id : Bytes} {use : SessionUse}

theorem LeftTo.update (h : LeftTo who m)
    (hself : ∀ session, m'.sessions_.lookup id = some session → session.sessionId_ = id ∧
      (session.data_ = ∅ ∨ ∃ u, LoggedInAs session u ∧ use.user (who id) = some u))
    (hothers : ∀ k session, k ≠ id → m'.sessions_.lookup k = some session →
      m.sessions_.lookup k = some session) :
    LeftTo (fun k => playAt SessionUse.user (some (id, use)) k (who k)) m' := by
  intro k session hl
  by_cases hk : id = k
  · subst hk
    change _ ∧ (_ ∨ ∃ u, _ ∧ (if id = id then use.user (who id) else who id) = some u)
    rw [if_pos rfl]
    exact hself session hl
  · change _ ∧ (_ ∨ ∃ u, _ ∧ (if id = k then use.user (who k) else who k) = some u)
    rw [if_neg hk]
    exact h k session (hothers k session (Ne.symm hk) hl)

theorem lookup_visited_self : (visited r.1 s r.2).sessions_.lookup
    (sessionOf r.1 s r.2).sessionId_ = some (sessionOf r.1 s r.2) := by
  rw [visited, sessionOf, SessionManager.getSession_eq]
  exact SessionManager.lookup_save_self _ _

theorem lookup_visited_of_ne {k : Bytes} {session : Session}
    (hk : k ≠ (sessionOf r.1 s r.2).sessionId_)
    (hl : (visited r.1 s r.2).sessions_.lookup k = some session) :
    s.sessions.sessions_.lookup k = some session := by
  rw [visited, SessionManager.getSession_eq] at hl
  rw [sessionOf, SessionManager.getSession_eq] at hk
  dsimp only at hl hk
  rw [SessionManager.lookup_save_ne hk] at hl
  exact SessionManager.lookup_afterLoad_of_some hl

/-- The session of a request that finds one. -/
theorem LeftTo.sessionOf (h : LeftTo who s.sessions) :
    (sessionOf r.1 s r.2).data_ = ∅ ∨ (s.sessions.found r.1.now r.2).isSome ∧
      ∃ u, LoggedInAs (sessionOf r.1 s r.2) u ∧
        who (sessionOf r.1 s r.2).sessionId_ = some u := by
  rw [sessionOf_eq]
  cases hfound : s.sessions.found r.1.now r.2 with
  | none => exact .inl (Session.refresh_keeps _ _).2
  | some session =>
    obtain ⟨-, hl, -⟩ := SessionManager.found_eq_some.mp hfound
    obtain ⟨hid, hleft⟩ := h _ session hl
    have hrefresh := Session.refresh_keeps session r.1.now
    rw [Option.getD_some, hrefresh.1, hrefresh.2]
    rcases hleft with hempty | ⟨u, hu, hwho⟩
    · exact .inl hempty
    · refine .inr ⟨rfl, u, (loggedInAs_congr hrefresh.2).mpr hu, ?_⟩
      rw [hid]
      exact hwho

theorem LeftTo.visited (h : LeftTo who s.sessions) :
    LeftTo (fun k => playAt SessionUse.user
      (some ((Gomoku.sessionOf r.1 s r.2).sessionId_, lookedUp s r)) k (who k))
      (visited r.1 s r.2) := by
  apply h.update
  · intro session hl
    rw [lookup_visited_self] at hl
    obtain rfl := Option.some.inj hl
    refine ⟨rfl, h.sessionOf.imp_right ?_⟩
    rintro ⟨hfound, u, hu, hwho⟩
    refine ⟨u, hu, ?_⟩
    rw [lookedUp, if_pos hfound]
    exact hwho
  · exact fun k session => lookup_visited_of_ne

/-- A request leaves each session to whom it was left to, but for its own. -/
theorem LeftTo.serve (h : LeftTo who s.sessions) (S : StdSort Cell) :
    LeftTo (fun k => playAt SessionUse.user (useOf J s r) k (who k)) (serve J S s r).sessions := by
  rw [sessions_serve]
  unfold sessionsAfter useOf
  dsimp only
  split
  · cases loginOf J r with
    | none => exact h
    | some account =>
      obtain ⟨-, hself, hothers⟩ := SessionManager.setValues_spec
        (loginValues account.1 account.2) (lookup_visited_self (s := s) (r := r))
      apply h.update
      · intro session hl
        obtain rfl := Option.some.inj (hself.symm.trans hl)
        exact ⟨rfl, .inr ⟨account.1, (loggedInAs_withValues _ _ _).mpr rfl, rfl⟩⟩
      · intro k session hk hl
        exact lookup_visited_of_ne hk ((hothers k hk).symm.trans hl)
  · by_cases hjson : isJsonRequest r.2 = false
    · rw [if_pos hjson, if_pos hjson]
      exact h
    rw [if_neg hjson, if_neg hjson]
    cases userOf r.1 s r.2 with
    | none => exact h.visited
    | some v =>
      apply h.update
      · intro session hl
        have hgone := Finmap.lookup_erase (Gomoku.sessionOf r.1 s r.2).sessionId_
          ((Gomoku.visited r.1 s r.2).save (Gomoku.sessionOf r.1 s r.2).clear).sessions_
        cases hgone.symm.trans hl
      · intro k session hk hl
        rw [logoutLeaves, SessionManager.destroySession, Finmap.lookup_erase_ne hk] at hl
        have hsave : k ≠ (Gomoku.sessionOf r.1 s r.2).clear.sessionId_ := hk
        exact lookup_visited_of_ne hk ((SessionManager.lookup_save_ne hsave).symm.trans hl)
  · exact h.visited
  · exact h.visited
  · exact h.visited
  · exact h

end Sessions

/-! ## Whole runs -/

section Runs
variable (J : JsonLib) (S : StdSort Cell)

variable {J S}

end Runs
end Workplace.Gomoku
