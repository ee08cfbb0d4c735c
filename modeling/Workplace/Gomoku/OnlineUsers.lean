import Workplace.Gomoku.Responses
import Workplace.Gomoku.Logins
import Workplace.Http.SessionRuns

/-! The users who are online, and the sessions they are logged in with. No handler looks at
both: a login writes its session and then `online_users`, and a logout destroys its session
before it reads the body and comes to `online_users`. -/

namespace Workplace.Gomoku
open Workplace.Http Workplace.Lib

def LoggedInAs (session : Session) (u : Int) : Prop :=
  isLoggedIn session = true ∧ session.getValue (bytes "userId") = bytes (toString u)

/-- Some stored session is logged in as the user. -/
def HasSession (m : SessionManager) (u : Int) : Prop :=
  ∃ id session, m.sessions_.lookup id = some session ∧ LoggedInAs session u

/-- So is one that is not stored under `id`. -/
def HasOther (m : SessionManager) (id : Bytes) (u : Int) : Prop :=
  ∃ k session, k ≠ id ∧ m.sessions_.lookup k = some session ∧ LoggedInAs session u

/-- The users who are online are those who are logged in with a session. -/
def TablesAgree (s : GomokuServer) : Prop := ∀ u, u ∈ s.online_users ↔ HasSession s.sessions u

/-- The clock and the generator leave the stored sessions alone. -/
structure Undisturbed (s : GomokuServer) (r : Env × HttpRequest) : Prop where
  unexpired : ∀ {id session}, s.sessions.sessions_.lookup id = some session →
    session.isExpired r.1.now = false
  unused : s.sessions.found r.1.now r.2 = none →
    s.sessions.sessions_.lookup r.1.generated = none

/-- A login does not take the last session of another user, and a logout takes the user off
the list, its body being readable, exactly if it takes the last session of the user. -/
structure InStep (J : JsonLib) (s : GomokuServer) (r : Env × HttpRequest) : Prop where
  login : routeOf r.2.method_ r.2.path_ = some .login → isJsonRequest r.2 = true →
    ∀ {u v}, loginId J r.1 r.2 = .ok u → u ≠ -1 → LoggedInAs (sessionOf r.1 s r.2) v →
      v = u ∨ HasOther s.sessions (sessionOf r.1 s r.2).sessionId_ v
  logout : routeOf r.2.method_ r.2.path_ = some .logout → isJsonRequest r.2 = true →
    ∀ {v}, LoggedInAs (sessionOf r.1 s r.2) v → userId r.1 s r.2 = .ok v →
      ((∃ gameType, gameTypeOf J r.2 = .ok gameType) ↔
        ¬ HasOther s.sessions (sessionOf r.1 s r.2).sessionId_ v)

/-! ## What a request does to the two tables -/

section Effects

variable {J : JsonLib} {S : StdSort Cell} {env : Env} {x : Exchange GomokuServer}
  {req : HttpRequest} {s : GomokuServer}

def visited (env : Env) (s : GomokuServer) (req : HttpRequest) : SessionManager :=
  (s.sessions.getSession env.now env.generated req {}).2.1

/-- What a login writes to its session. -/
def loginValues (u : Int) (username : Bytes) : List (Bytes × Bytes) :=
  [(bytes "userId", bytes (toString u)), (bytes "username", username),
    (bytes "isLoggedIn", bytes "true")]

/-- Both tables after a request. -/
inductive UsersStep (J : JsonLib) (env : Env) (s : GomokuServer) (req : HttpRequest) :
    SessionManager → (Finmap fun _ : Int => Bool) → Prop
  | same : UsersStep J env s req s.sessions s.online_users
  | visited : UsersStep J env s req (visited env s req) s.online_users
  | login {u : Int} (username : Bytes) (hroute : routeOf req.method_ req.path_ = some .login)
      (hjson : isJsonRequest req = true) (hid : loginId J env req = .ok u) (hu : u ≠ -1) :
      UsersStep J env s req
        ((Gomoku.visited env s req).setValues (sessionOf env s req) (loginValues u username)).2
        (login.atomic u s.online_users).1
  | unread {v : Int} {what : Bytes} (hroute : routeOf req.method_ req.path_ = some .logout)
      (hjson : isJsonRequest req = true) (hid : userId env s req = .ok v)
      (hbody : gameTypeOf J req = .error what) :
      UsersStep J env s req (((Gomoku.visited env s req).save (sessionOf env s req).clear
        ).destroySession (sessionOf env s req).sessionId_) s.online_users
  | logout {v gameType : Int} (hroute : routeOf req.method_ req.path_ = some .logout)
      (hjson : isJsonRequest req = true) (hid : userId env s req = .ok v)
      (hbody : gameTypeOf J req = .ok gameType) :
      UsersStep J env s req (((Gomoku.visited env s req).save (sessionOf env s req).clear
        ).destroySession (sessionOf env s req).sessionId_) (s.online_users.erase v)

/-- A handler that does to the two tables what its request may do. -/
def StepsUsers (J : JsonLib) (env : Env) (req : HttpRequest) (x : Exchange GomokuServer)
    (prog : Act Unit) : Prop :=
  let Ok (x' : Exchange GomokuServer) :=
    UsersStep J env x.server req x'.server.sessions x'.server.online_users
  Ends prog x (fun _ => Ok) fun _ => Ok

/-- A program that keeps what holds of the two tables. -/
abbrev KeepsUsers (P : SessionManager → (Finmap fun _ : Int => Bool) → Prop) {α : Type}
    (prog : Act α) : Prop :=
  Keeps (fun x : Exchange GomokuServer => P x.server.sessions x.server.online_users) prog

variable {P : SessionManager → (Finmap fun _ : Int => Bool) → Prop}

theorem keepsUsers_dumped_reply (indent : Option Nat) (document : Json) (version : Bytes)
    (code : HttpStatusCode) (message : Bytes) (close : Bool) (type : Bytes) : KeepsUsers P
      (dumped J indent document >>= fun text => reply version code message close type text) :=
  keepsServer_dumped_reply (P := fun s => P s.sessions s.online_users) indent document _ _ _ _ _

theorem keepsUsers_dumped_packageResp (indent : Option Nat) (document : Json) (version : Bytes)
    (code : HttpStatusCode) (message : Bytes) (close : Bool) (body type : Bytes → Bytes)
    (n : Bytes → Int) : KeepsUsers P (dumped J indent document >>= fun text =>
      packageResp version code message close (body text) (type text) (n text)) :=
  keepsServer_dumped_packageResp (P := fun s => P s.sessions s.online_users) indent document
    _ _ _ _ _ _ _

theorem keepsUsers_page (file : Option Bytes) (version : Bytes) (code : HttpStatusCode)
    (message : Bytes) (close : Bool) (type : Bytes) : KeepsUsers P
      (readFile file >>= fun text => reply version code message close type text) :=
  (keepsServer_readFile (P := fun s => P s.sessions s.online_users) file).bind
    fun _ => keepsServer_reply (P := fun s => P s.sessions s.online_users) _ _ _ _ _ _

theorem keepsUsers_startGame (v : Int) : KeepsUsers P (startGame v) := fun _ h => h

theorem keepsUsers_setGame (v : Int) (game : Game) : KeepsUsers P (setGame v game) :=
  fun _ h => h

theorem keepsUsers_eraseGame (v : Int) : KeepsUsers P (eraseGame v) := fun _ h => h

theorem keepsUsers_moveReply (document : Json) : KeepsUsers P (moveReply J req document) :=
  keepsUsers_dumped_reply _ _ _ _ _ _ _

theorem keepsUsers_takeMove (v xm ym : Int) : KeepsUsers P (takeMove J S env req v xm ym) := by
  have hover (document : Json) :
      KeepsUsers P (moveReply J req document >>= fun _ => eraseGame v) :=
    (keepsUsers_moveReply document).bind fun _ => keepsUsers_eraseGame v
  apply Keeps.bind Keeps.get
  intro exchange
  apply (keepsUsers_setGame _ _).bind
  intro _
  apply Keeps.ite
  · exact keepsUsers_dumped_reply _ _ _ _ _ _ _
  · apply Keeps.ite (hover _)
    apply Keeps.ite (hover _)
    apply (keepsUsers_setGame _ _).bind
    intro _
    apply Keeps.ite (hover _)
    apply Keeps.ite (hover _)
    exact keepsUsers_moveReply _

theorem steps_userId {next : Int → Act Unit}
    (hnext : ∀ v, KeepsUsers (UsersStep J env x.server req) (next v)) :
    Ends (lift (stoiText ((sessionOf env x.server req).getValue (bytes "userId"))) >>= next)
      (withSession env req x)
      (fun _ x' => UsersStep J env x.server req x'.server.sessions x'.server.online_users)
      fun _ x' => UsersStep J env x.server req x'.server.sessions x'.server.online_users := by
  apply Keeps.bind (Keeps.lift _) hnext
  exact .visited

/-- The handlers of a game look up the session, and then leave both tables alone. -/
theorem stepsUsers_start : StepsUsers J env req x (aiGameStartHandler J env req) := by
  unfold StepsUsers aiGameStartHandler
  rw [ends_bind, ends_getSession, ends_ite]
  split_ifs
  · apply keepsUsers_dumped_packageResp
    exact .visited
  · refine steps_userId fun v => ?_
    apply (keepsUsers_startGame v).bind
    exact fun _ => keepsUsers_page _ _ _ _ _ _

theorem stepsUsers_restart : StepsUsers J env req x (restartChessGameVsAi J env req) := by
  unfold StepsUsers restartChessGameVsAi
  rw [ends_bind, ends_getSession, ends_ite]
  split_ifs
  · apply keepsUsers_dumped_packageResp
    exact .visited
  · refine steps_userId fun v => ?_
    apply (keepsUsers_startGame v).bind
    exact fun _ => keepsUsers_dumped_packageResp _ _ _ _ _ _ _ _ _

theorem stepsUsers_move : StepsUsers J env req x (aiMoveHandler J S env req) := by
  unfold StepsUsers aiMoveHandler
  apply Ends.tryCatch
  · rw [ends_bind, ends_getSession, ends_ite]
    split_ifs
    · apply keepsUsers_dumped_packageResp
      exact .visited
    · refine steps_userId fun v => ?_
      apply Keeps.bind (Keeps.lift _)
      exact fun move => keepsUsers_takeMove v move.1 move.2
  · exact fun what => keepsUsers_dumped_packageResp _ _ _ _ _ _ _ _ _

theorem stepsUsers_login (hroute : routeOf req.method_ req.path_ = some .login) :
    StepsUsers J env req x (loginHandler J env req) := by
  unfold StepsUsers loginHandler
  rw [ends_ite]
  split_ifs with hjson
  · exact .same
  rw [Bool.not_eq_false] at hjson
  apply Ends.tryCatch
  · rw [ends_bind]
    cases hcred : credentials J req with
    | error what => exact .same
    | ok account =>
      have hid := @loginId_of_ok J env req account hcred
      rw [ends_lift_ok]
      show Ends (lift (queryUser env account.1 account.2) >>= _) _ _ _
      rw [ends_bind]
      cases hquery : queryUser env account.1 account.2 with
      | error what => exact .same
      | ok u =>
        rw [hquery] at hid
        rw [ends_lift_ok, ends_ite]
        split_ifs with hu
        · have hstep := UsersStep.login (s := x.server) account.1 hroute hjson hid hu
          rw [ends_bind, ends_getSession, ends_bind, ends_setValue, ends_bind, ends_setValue,
            ends_bind, ends_setValue, ends_bind, ends_get, ends_ite]
          show if (x.server.online_users.lookup u).getD false = false then _ else _
          unfold login SplitUpdate.atomic at hstep
          split_ifs with honline
          · rw [ends_bind, ends_modifyServer, ends_bind, ends_modifyServer]
            simp only [honline] at hstep
            apply keepsUsers_dumped_reply
            exact hstep
          · rw [Bool.not_eq_false] at honline
            simp only [honline] at hstep
            apply keepsUsers_dumped_reply
            exact hstep
        · apply keepsUsers_dumped_reply
          exact .same
  · exact fun what => keepsUsers_dumped_reply _ _ _ _ _ _ _

theorem stepsUsers_logout (hroute : routeOf req.method_ req.path_ = some .logout) :
    StepsUsers J env req x (logoutHandler J env req) := by
  unfold StepsUsers logoutHandler
  rw [ends_ite]
  split_ifs with hjson
  · exact .same
  rw [Bool.not_eq_false] at hjson
  apply Ends.tryCatch
  · rw [ends_bind, ends_getSession, ends_bind]
    cases hid : userId env x.server req with
    | error what =>
      unfold userId at hid
      rw [hid]
      exact .visited
    | ok v =>
      have hid' := hid
      unfold userId at hid
      rw [hid, ends_lift_ok, ends_bind, ends_modifyServer, ends_bind, ends_modifyServer,
        ends_bind]
      cases hbody : gameTypeOf J req with
      | error what => exact .unread hroute hjson hid' hbody
      | ok gameType =>
        have hstep := UsersStep.logout (s := x.server) hroute hjson hid' hbody
        rw [ends_lift_ok, ends_bind, ends_modifyServer, ends_bind, ends_modifyServer]
        apply keepsUsers_dumped_reply
        dsimp only
        split_ifs
        all_goals exact hstep
  · exact fun what => keepsUsers_dumped_reply _ _ _ _ _ _ _

theorem stepsUsers_handler (r : Route) (hroute : routeOf req.method_ req.path_ = some r) :
    StepsUsers J env req x (r.handler J S env req) := by
  cases r with
  | login => exact stepsUsers_login hroute
  | logout => exact stepsUsers_logout hroute
  | start => exact stepsUsers_start
  | move => exact stepsUsers_move
  | restart => exact stepsUsers_restart
  | entry | register | menu | backend | backendData =>
    exact keepsServer_handler (P := fun s => UsersStep J env x.server req s.sessions s.online_users)
      _ req (by decide) x .same

variable (J S)

theorem usersStep_serve (s : GomokuServer) (env : Env) (req : HttpRequest) :
    UsersStep J env s req (serve J S s (env, req)).sessions
      (serve J S s (env, req)).online_users := by
  unfold serve onRequest
  refine (handle_iff J S env req _ fun x =>
    UsersStep J env s req x.server.sessions x.server.online_users).mpr ?_
  split_ifs
  · exact .same
  · cases hroute : routeOf req.method_ req.path_ with
    | none => exact .same
    | some r => exact stepsUsers_handler r hroute

end Effects

/-! ## Sessions -/

section Sessions

variable {m m' : SessionManager} {id : Bytes} {o : Option Session} {session : Session} {u v : Int}

theorem LoggedInAs.eq (hu : LoggedInAs session u) (hv : LoggedInAs session v) : u = v :=
  bytes_toString_injective (hu.2.symm.trans hv.2)

theorem not_loggedInAs (h : session.data_ = ∅) : ¬ LoggedInAs session u := by
  intro hu
  have hin := hu.1
  rw [isLoggedIn, Session.getValue, StrMap.get, h] at hin
  cases hin

theorem LoggedInAs.stoiText_eq (h : LoggedInAs session u)
    (hv : stoiText (session.getValue (bytes "userId")) = .ok v) : v = u := by
  rw [h.2, stoiText, stoi_toString] at hv
  split_ifs at hv
  · cases hv
  · exact (Except.ok.inj hv).symm

/-- After a login the session is logged in as its user, and as no other. -/
theorem loggedInAs_withValues (session : Session) (u : Int) (username : Bytes) :
    LoggedInAs { session with
      data_ := SessionManager.withValues session.data_ (loginValues u username) } v ↔ v = u := by
  have hname : bytes "userId" ≠ bytes "username" := by decide
  have hin : bytes "userId" ≠ bytes "isLoggedIn" := by decide
  simp only [LoggedInAs, isLoggedIn, Session.getValue, StrMap.get, SessionManager.withValues,
    loginValues, List.foldl_cons, List.foldl_nil, Finmap.lookup_insert, Option.getD_some,
    Finmap.lookup_insert_of_ne _ hname, Finmap.lookup_insert_of_ne _ hin, decide_true, true_and]
  exact ⟨fun h => (bytes_toString_injective h).symm, fun h => h ▸ rfl⟩

structure Updates (m : SessionManager) (id : Bytes) (o : Option Session) (m' : SessionManager) :
    Prop where
  self : m'.sessions_.lookup id = o
  others : ∀ k, k ≠ id → m'.sessions_.lookup k = m.sessions_.lookup k

theorem Updates.hasOther_iff (h : Updates m id o m') : HasOther m' id u ↔ HasOther m id u := by
  constructor
  · rintro ⟨k, session, hk, hl, hin⟩
    exact ⟨k, session, hk, h.others k hk ▸ hl, hin⟩
  · rintro ⟨k, session, hk, hl, hin⟩
    exact ⟨k, session, hk, (h.others k hk).trans hl, hin⟩

theorem Updates.hasSession_iff (h : Updates m id o m') :
    HasSession m' u ↔ (∃ session, o = some session ∧ LoggedInAs session u) ∨ HasOther m id u := by
  rw [← h.hasOther_iff, ← h.self]
  constructor
  · rintro ⟨k, session, hl, hin⟩
    by_cases hk : k = id
    · exact .inl ⟨session, hk ▸ hl, hin⟩
    · exact .inr ⟨k, session, hk, hl, hin⟩
  · rintro (⟨session, hl, hin⟩ | ⟨k, session, -, hl, hin⟩)
    · exact ⟨id, session, hl, hin⟩
    · exact ⟨k, session, hl, hin⟩

theorem Updates.setValues (h : Updates m session.sessionId_ (some session) m')
    (values : List (Bytes × Bytes)) : Updates m session.sessionId_
      (some { session with data_ := SessionManager.withValues session.data_ values })
      (m'.setValues session values).2 := by
  obtain ⟨-, hself, hothers⟩ := SessionManager.setValues_spec values h.self
  exact ⟨hself, fun k hk => (hothers k hk).trans (h.others k hk)⟩

theorem Updates.destroySession (h : Updates m session.sessionId_ (some session) m') :
    Updates m session.sessionId_ none
      ((m'.save session.clear).destroySession session.sessionId_) := by
  refine ⟨Finmap.lookup_erase _ _, fun k hk => ?_⟩
  rw [SessionManager.destroySession, Finmap.lookup_erase_ne hk, ← h.others k hk]
  exact SessionManager.lookup_save_ne hk

end Sessions

/-! ## Whole runs -/

/-- What the requests keep: a stored session is new or that of a user, and the tables agree. -/
structure Consistent (s : GomokuServer) : Prop where
  named : ∀ {id session}, s.sessions.sessions_.lookup id = some session → session.sessionId_ = id
  whole : ∀ {id session}, s.sessions.sessions_.lookup id = some session →
    session.data_ = ∅ ∨ ∃ u, LoggedInAs session u
  agree : TablesAgree s

section Runs

variable {J : JsonLib} {S : StdSort Cell} {s s' : GomokuServer} {r : Env × HttpRequest}
  {id : Bytes} {o : Option Session} {u : Int}

theorem sessionOf_eq (env : Env) (s : GomokuServer) (req : HttpRequest) : sessionOf env s req =
    ((s.sessions.found env.now req).getD { sessionId_ := env.generated }).refresh env.now := by
  rw [sessionOf, SessionManager.getSession_eq]

theorem Undisturbed.updates (h : Undisturbed s r) :
    Updates s.sessions (sessionOf r.1 s r.2).sessionId_ (some (sessionOf r.1 s r.2))
      (visited r.1 s r.2) := by
  have heq : visited r.1 s r.2 =
      (s.sessions.afterLoad r.1.now r.2).save (sessionOf r.1 s r.2) := by
    rw [visited, SessionManager.getSession_eq, sessionOf_eq]
  rw [heq]
  refine ⟨SessionManager.lookup_save_self _ _, fun k hk => ?_⟩
  rw [SessionManager.lookup_save_ne hk]
  refine Option.ext fun session => ⟨SessionManager.lookup_afterLoad_of_some, fun hl => ?_⟩
  exact SessionManager.lookup_afterLoad hl (h.unexpired hl)

/-- The session of a request is as it is stored, or new. -/
theorem Consistent.sessionOf_cases (h : Consistent s) (hr : Undisturbed s r) :
    (sessionOf r.1 s r.2).data_ = ∅ ∧
        s.sessions.sessions_.lookup (sessionOf r.1 s r.2).sessionId_ = none ∨
      ∃ session, s.sessions.sessions_.lookup (sessionOf r.1 s r.2).sessionId_ = some session ∧
        session.data_ = (sessionOf r.1 s r.2).data_ := by
  rw [sessionOf_eq, (Session.refresh_keeps _ _).1, (Session.refresh_keeps _ _).2]
  cases hfound : s.sessions.found r.1.now r.2 with
  | none => exact .inl ⟨rfl, hr.unused hfound⟩
  | some session =>
    obtain ⟨-, hl, -⟩ := SessionManager.found_eq_some.mp hfound
    refine .inr ⟨session, ?_, rfl⟩
    rw [Option.getD_some, h.named hl]
    exact hl

theorem loggedInAs_congr {a b : Session} (h : a.data_ = b.data_) :
    LoggedInAs a u ↔ LoggedInAs b u := by
  unfold LoggedInAs isLoggedIn Session.getValue
  rw [h]

theorem Consistent.whole_sessionOf (h : Consistent s) (hr : Undisturbed s r) :
    (sessionOf r.1 s r.2).data_ = ∅ ∨ ∃ u, LoggedInAs (sessionOf r.1 s r.2) u := by
  rcases h.sessionOf_cases hr with ⟨hempty, -⟩ | ⟨session, hl, hdata⟩
  · exact .inl hempty
  · rcases h.whole hl with hempty | ⟨u, hu⟩
    · exact .inl (hdata ▸ hempty)
    · exact .inr ⟨u, (loggedInAs_congr hdata).mp hu⟩

/-- Who is online, by the session of the request and the others. -/
theorem Consistent.mem_iff (h : Consistent s) (hr : Undisturbed s r) :
    u ∈ s.online_users ↔ LoggedInAs (sessionOf r.1 s r.2) u ∨
      HasOther s.sessions (sessionOf r.1 s r.2).sessionId_ u := by
  have hself : Updates s.sessions (sessionOf r.1 s r.2).sessionId_
      (s.sessions.sessions_.lookup (sessionOf r.1 s r.2).sessionId_) s.sessions :=
    ⟨rfl, fun _ _ => rfl⟩
  rw [h.agree u, hself.hasSession_iff]
  refine or_congr_left ?_
  rcases h.sessionOf_cases hr with ⟨hempty, hl⟩ | ⟨session, hl, hdata⟩
  · rw [hl]
    exact ⟨nofun, fun hu => absurd hu (not_loggedInAs hempty)⟩
  · rw [hl, ← loggedInAs_congr hdata]
    simp

theorem Consistent.update (h : Consistent s) (hm : Updates s.sessions id o s'.sessions)
    (hnew : ∀ session, o = some session → session.sessionId_ = id ∧
      (session.data_ = ∅ ∨ ∃ u, LoggedInAs session u))
    (hagree : ∀ u, u ∈ s'.online_users ↔
      (∃ session, o = some session ∧ LoggedInAs session u) ∨ HasOther s.sessions id u) :
    Consistent s' where
  named := by
    intro k session hl
    by_cases hk : k = id
    · subst hk
      exact (hnew session (hm.self ▸ hl)).1
    · exact h.named (hm.others k hk ▸ hl)
  whole := by
    intro k session hl
    by_cases hk : k = id
    · subst hk
      exact (hnew session (hm.self ▸ hl)).2
    · exact h.whole (hm.others k hk ▸ hl)
  agree u := (hagree u).trans hm.hasSession_iff.symm

theorem mem_login_atomic {online_users : Finmap fun _ : Int => Bool} {v : Int} :
    v ∈ (login.atomic u online_users).1 ↔ v = u ∨ v ∈ online_users := by
  unfold login SplitUpdate.atomic
  dsimp only
  split_ifs with honline
  · have hu : u ∈ online_users := by
      by_contra hno
      rw [Finmap.lookup_eq_none.mpr hno] at honline
      cases honline
    exact ⟨.inr, fun h => h.elim (fun heq => heq ▸ hu) fun h => h⟩
  · exact Finmap.mem_insert

/-- The session that a logout destroys is one of its user, and of no other. -/
theorem Consistent.loggedInAs_iff (h : Consistent s) (hr : Undisturbed s r)
    (hid : userId r.1 s r.2 = .ok u) {v : Int} :
    LoggedInAs (sessionOf r.1 s r.2) v ↔ v = u := by
  rcases h.whole_sessionOf hr with hempty | ⟨w, hw⟩
  · rw [userId, Session.getValue, StrMap.get, hempty] at hid
    cases hid
  · obtain rfl := hw.stoiText_eq hid
    exact ⟨fun hv => hv.eq hw, fun hv => hv ▸ hw⟩

/-- **One request keeps the tables in step**, whatever it is. -/
theorem Consistent.step (h : Consistent s) (hr : Undisturbed s r) (hstep : InStep J s r)
    (key : UsersStep J r.1 s r.2 s'.sessions s'.online_users) : Consistent s' := by
  have hvisited := hr.updates
  have hmem (v : Int) := h.mem_iff (u := v) hr
  generalize hm : s'.sessions = m at key
  generalize husers : s'.online_users = users at key
  cases key with
  | same =>
    refine ⟨fun hl => h.named (hm ▸ hl), fun hl => h.whole (hm ▸ hl), fun u => ?_⟩
    rw [husers, hm]
    exact h.agree u
  | visited =>
    refine h.update (hm ▸ hvisited) ?_ fun w => ?_
    · rintro _ ⟨⟩
      exact ⟨rfl, h.whole_sessionOf hr⟩
    · rw [husers, hmem w]
      simp
  | @login u username hroute hjson hid hu =>
    refine h.update (hm ▸ hvisited.setValues (loginValues u username)) ?_ fun w => ?_
    · rintro _ ⟨⟩
      exact ⟨rfl, .inr ⟨u, (loggedInAs_withValues _ u username).mpr rfl⟩⟩
    · simp only [husers, mem_login_atomic, hmem w, Option.some.injEq, exists_eq_left',
        loggedInAs_withValues]
      refine ⟨?_, Or.imp_right .inr⟩
      rintro (heq | hw | hother)
      · exact .inl heq
      · exact hstep.login hroute hjson hid hu hw
      · exact .inr hother
  | @unread u what hroute hjson hid hbody =>
    have hiff (w : Int) := h.loggedInAs_iff hr hid (v := w)
    have hother := hstep.logout hroute hjson ((hiff u).mpr rfl) hid
    refine h.update (hm ▸ hvisited.destroySession) (fun _ hnone => ?_) fun w => ?_
    · cases hnone
    rw [husers, hmem w, hiff w]
    refine ⟨?_, fun hw => .inr (hw.resolve_left nofun)⟩
    rintro (rfl | hw)
    · refine .inr (by_contra fun hno => ?_)
      obtain ⟨gameType, hok⟩ := hother.mpr hno
      rw [hbody] at hok
      cases hok
    · exact .inr hw
  | @logout u gameType hroute hjson hid hbody =>
    have hiff (w : Int) := h.loggedInAs_iff hr hid (v := w)
    have hother := (hstep.logout hroute hjson ((hiff u).mpr rfl) hid).mp ⟨gameType, hbody⟩
    refine h.update (hm ▸ hvisited.destroySession) (fun _ hnone => ?_) fun w => ?_
    · cases hnone
    rw [husers, Finmap.mem_erase, hmem w, hiff w]
    constructor
    · rintro ⟨hne, hw⟩
      exact .inr (hw.resolve_left hne)
    · rintro (⟨_, hno, -⟩ | hw)
      · cases hno
      · exact ⟨fun heq => hother (heq ▸ hw), .inr hw⟩

/-- **The list and the sessions agree** after any requests that stay in step: with no session
expired and no id given out twice, the logins and logouts are the only danger. -/
theorem online_iff_loggedIn (server : GomokuServer) (requests : List (Env × HttpRequest))
    (hg : Guarded (fun s r => Undisturbed s r ∧ InStep J s r) (fun s r => some (serve J S s r))
      { server with sessions := {}, online_users := ∅ } requests) :
    TablesAgree
      (requests.foldl (serve J S) { server with sessions := {}, online_users := ∅ }) := by
  have hstart : Consistent { server with sessions := {}, online_users := ∅ } := by
    refine ⟨fun hl => ?_, fun hl => ?_, fun u => ?_⟩
    · cases hl
    · cases hl
    · refine ⟨fun hu => absurd hu Finmap.notMem_empty, ?_⟩
      rintro ⟨id, session, hl, -⟩
      cases hl
  have key := run_invariant requests (fun hs hr h => ?_) hstart hg (run_some _ _ _)
  · exact key.agree
  · obtain rfl := Option.some.inj h
    exact hs.step hr.1 hr.2 (usersStep_serve J S _ _ _)

end Runs

/-! ## A login and a logout -/

/-- A library to which every body is the login of bob, who is playing what `gameType` says. -/
def bobJson (gameType : Except Bytes Int) : JsonLib where
  Value := Unit
  parse _ := .ok ()
  getInt _ _ := gameType
  getString _ _ := .ok (bytes "bob")
  dumpError _ := bytes "invalid UTF-8"

/-- A request of bob, whose session has the id that is generated, on a machine whose database
knows him. -/
def bobRequest (path gameType : String) : Env × HttpRequest where
  fst := { pagesEnv with executeQuery := fun _ => .ok (some 7) }
  snd := {
    method_ := .kPost
    path_ := bytes path
    version_ := bytes "HTTP/1.1"
    headers_ := ((∅ : StrMap).insert (bytes "Content-Type") applicationJson).insert
      (bytes "Cookie") (bytes "sessionId=0")
    content_ :=
      bytes ("\x7b\"username\": \"bob\", \"password\": \"bob\"" ++ gameType ++ "\x7d") }

def bobSession : Session where
  sessionId_ := bytes "0"
  data_ := SessionManager.withValues ∅ (loginValues 7 (bytes "bob"))
  expiryTime_ := 3600 * 10 ^ 9

/-- The server once bob is logged in. -/
def bobOnline (gameType : Except Bytes Int) : GomokuServer :=
  serve (bobJson gameType) (StdSort.stable Cell) {} (bobRequest "/login" "")

theorem eq_of_lookup_bobOnline {gameType : Except Bytes Int} {id : Bytes} {session : Session}
    (h : (bobOnline gameType).sessions.sessions_.lookup id = some session) :
    id = bytes "0" ∧ session = bobSession := by
  have hsessions : (bobOnline gameType).sessions.sessions_ =
      (∅ : Finmap fun _ : Bytes => Session).insert (bytes "0") bobSession := rfl
  rw [hsessions] at h
  by_cases hid : id = bytes "0"
  · subst hid
    rw [Finmap.lookup_insert] at h
    exact ⟨rfl, (Option.some.inj h).symm⟩
  · rw [Finmap.lookup_insert_of_ne _ hid, Finmap.lookup_empty] at h
    cases h

theorem undisturbed_login : Undisturbed {} (bobRequest "/login" "") := ⟨nofun, fun _ => rfl⟩

theorem undisturbed_logout {gameType : Except Bytes Int} {text : String} :
    Undisturbed (bobOnline gameType) (bobRequest "/user/logout" text) := by
  refine ⟨fun hl => ?_, fun hfound => ?_⟩
  · rw [(eq_of_lookup_bobOnline hl).2]
    show bobSession.isExpired 0 = false
    decide
  · have hsome : (bobOnline gameType).sessions.found 0 (bobRequest "/user/logout" text).2 =
        some bobSession := rfl
    exact nomatch hsome.symm.trans hfound

/-- Bob logs in, and logs out with a body that says what he played. -/
theorem online_iff_loggedIn_bob :
    TablesAgree ([bobRequest "/login" "", bobRequest "/user/logout" ", \"gameType\": 1"].foldl
      (serve (bobJson (.ok 1)) (StdSort.stable Cell)) {}) := by
  have hg : Guarded (fun s r => Undisturbed s r ∧ InStep (bobJson (.ok 1)) s r)
      (fun s r => some (serve (bobJson (.ok 1)) (StdSort.stable Cell) s r)) {}
      [bobRequest "/login" "", bobRequest "/user/logout" ", \"gameType\": 1"] := by
    refine .of_step ⟨undisturbed_login, ⟨fun _ _ => ?_, ?_⟩⟩ rfl
      (.of_step ⟨undisturbed_logout, ⟨?_, fun _ _ => ?_⟩⟩ rfl trivial)
    · exact fun _ _ hin => absurd hin (not_loggedInAs rfl)
    · exact nofun
    · exact nofun
    · refine fun _ _ => ⟨?_, fun _ => ⟨1, rfl⟩⟩
      rintro - ⟨k, session, hk, hl, -⟩
      exact hk (eq_of_lookup_bobOnline hl).1
  exact online_iff_loggedIn {} _ hg

/-- Bob logs out with a body that does not say it: his session is gone, and he is online. -/
theorem online_without_session : ¬ ∀ (J : JsonLib) (S : StdSort Cell) (server : GomokuServer)
    (requests : List (Env × HttpRequest)),
    Guarded Undisturbed (fun s r => some (serve J S s r))
      { server with sessions := {}, online_users := ∅ } requests →
    TablesAgree
      (requests.foldl (serve J S) { server with sessions := {}, online_users := ∅ }) := by
  intro h
  have hg : Guarded Undisturbed
      (fun s r => some (serve (bobJson (.error (bytes "type error"))) (StdSort.stable Cell) s r))
      {} [bobRequest "/login" "", bobRequest "/user/logout" ""] :=
    .of_step undisturbed_login rfl (.of_step undisturbed_logout rfl trivial)
  obtain ⟨id, session, hl, -⟩ := (h _ _ {} _ hg 7).mp (by decide)
  have hsessions : ([bobRequest "/login" "", bobRequest "/user/logout" ""].foldl
    (serve (bobJson (.error (bytes "type error"))) (StdSort.stable Cell)) {}).sessions.sessions_ =
      ∅ := rfl
  rw [hsessions, Finmap.lookup_empty] at hl
  cases hl

end Workplace.Gomoku
