import Workplace.Gomoku.Authentication

/-! The numbers that `/backend_data` shows: how many users are online, and how many there were at
most. -/

namespace Workplace.Gomoku
open Workplace.Http Workplace.Lib

def currentOnline (s : GomokuServer) : Int := s.online_users.keys.card

/-- The counter goes up with the list, and with nothing else. -/
def Counts (s s' : GomokuServer) : Prop :=
  currentOnline s ≤ s.maxOnline_ → s'.maxOnline_ = max s.maxOnline_ (currentOnline s')

/-! ## What the handlers do to the counter -/

section Handlers
variable {J : JsonLib} {S : StdSort Cell} {env : Env} {x : Exchange GomokuServer}
  {req : HttpRequest} {s s' : GomokuServer}

theorem counts_of_erased (hmax : s'.maxOnline_ = s.maxOnline_)
    (honline : currentOnline s' ≤ currentOnline s) : Counts s s' := by
  intro hle
  rw [hmax, max_eq_left (honline.trans hle)]

def CountsHandler (prog : Act Unit) (x : Exchange GomokuServer) : Prop :=
  Ends prog x (fun _ x' => Counts x.server x'.server) fun _ x' => Counts x.server x'.server

/-- Neither the list nor the counter has changed. -/
def SameCounts (s s' : GomokuServer) : Prop :=
  s'.online_users = s.online_users ∧ s'.maxOnline_ = s.maxOnline_

theorem SameCounts.counts (h : SameCounts s s') : Counts s s' := by
  apply counts_of_erased h.2
  rw [currentOnline, h.1]
  rfl

theorem CountsHandler.of_keeps {prog : Act Unit} (h : KeepsServer (SameCounts x.server) prog) :
    CountsHandler prog x :=
  (h x ⟨rfl, rfl⟩).imp (fun _ _ h => h.counts) fun _ _ h => h.counts

/-! ### The games -/

variable {P : GomokuServer → Prop}

theorem keepsServer_takeMove (hgames : ∀ s m, P s → P { s with game_map_ := m }) (v xm ym : Int) :
    KeepsServer P (takeMove J S env req v xm ym) := by
  have hreply (document : Json) : KeepsServer P (moveReply J req document) :=
    keepsServer_dumped_reply _ _ _ _ _ _ _
  have hset (game : Game) : KeepsServer P (setGame v game) := fun x h => hgames _ _ h
  have hover (document : Json) :
      KeepsServer P (moveReply J req document >>= fun _ => eraseGame v) := by
    apply (hreply document).bind
    exact fun _ x h => hgames _ _ h
  apply Keeps.bind Keeps.get
  intro exchange
  apply (hset _).bind
  intro _
  apply Keeps.ite
  · exact keepsServer_dumped_reply _ _ _ _ _ _ _
  · apply Keeps.ite (hover _)
    apply Keeps.ite (hover _)
    apply (hset _).bind
    intro _
    apply Keeps.ite (hover _)
    apply Keeps.ite (hover _)
    exact hreply _

/-- What knows neither of the sessions nor of the games is left alone by who plays. -/
theorem keepsServer_player (hsessions : ∀ s m, P s → P { s with sessions := m })
    (hgames : ∀ s m, P s → P { s with game_map_ := m }) {r : Route}
    (hr : r = .start ∨ r = .restart ∨ r = .move) :
    KeepsServer P (r.handler J S env req) := by
  have hsession : KeepsServer P (getSession env req) := fun x h => hsessions _ _ h
  have hstart (v : Int) : KeepsServer P (startGame v) := by
    intro x h
    apply hgames
    exact hgames _ _ h
  rcases hr with rfl | rfl | rfl
  · apply hsession.bind
    intro session
    apply Keeps.ite
    · exact keepsServer_dumped_packageResp _ _ _ _ _ _ _ _ _
    · apply Keeps.bind (Keeps.lift _)
      intro v
      apply (hstart v).bind
      intro _
      apply (keepsServer_readFile _).bind
      exact fun _ => keepsServer_reply _ _ _ _ _ _
  · apply hsession.bind
    intro session
    apply Keeps.ite
    · exact keepsServer_dumped_packageResp _ _ _ _ _ _ _ _ _
    · apply Keeps.bind (Keeps.lift _)
      intro v
      apply (hstart v).bind
      exact fun _ => keepsServer_dumped_packageResp _ _ _ _ _ _ _ _ _
  · apply Keeps.tryCatch
    · apply hsession.bind
      intro session
      apply Keeps.ite
      · exact keepsServer_dumped_packageResp _ _ _ _ _ _ _ _ _
      · apply Keeps.bind (Keeps.lift _)
        intro v
        apply Keeps.bind (Keeps.lift _)
        exact fun move => keepsServer_takeMove hgames v move.1 move.2
    · exact fun what => keepsServer_dumped_packageResp _ _ _ _ _ _ _ _ _

/-! ### The users -/

theorem currentOnline_erase_le (s : GomokuServer) (v : Int) :
    currentOnline { s with online_users := s.online_users.erase v } ≤ currentOnline s := by
  unfold currentOnline
  have hsub : (s.online_users.erase v).keys ⊆ s.online_users.keys := by
    rw [Finmap.keys_erase]
    exact Finset.erase_subset _ _
  exact_mod_cast Finset.card_le_card hsub

theorem counts_logout : CountsHandler (logoutHandler J env req) x := by
  unfold CountsHandler logoutHandler
  have hsame : ∀ s, SameCounts x.server s → Counts x.server s := fun _ h => h.counts
  rw [ends_ite]
  split_ifs
  · exact hsame _ ⟨rfl, rfl⟩
  apply Ends.tryCatch
  · rw [ends_bind, ends_getSession, ends_bind]
    cases stoiText ((sessionOf env x.server req).getValue (bytes "userId")) with
    | error what => exact hsame _ ⟨rfl, rfl⟩
    | ok v =>
      rw [ends_lift_ok, ends_bind, ends_modifyServer, ends_bind, ends_modifyServer, ends_bind]
      cases gameTypeOf J req with
      | error what => exact hsame _ ⟨rfl, rfl⟩
      | ok gameType =>
        rw [ends_lift_ok, ends_bind, ends_modifyServer, ends_bind, ends_modifyServer]
        apply keepsServer_dumped_reply
        have herased := currentOnline_erase_le x.server v
        dsimp only
        split_ifs
        · exact counts_of_erased rfl herased
        · exact counts_of_erased rfl herased
  · exact fun what => keepsServer_dumped_reply _ _ _ _ _ _ _

theorem counts_login : CountsHandler (loginHandler J env req) x := by
  unfold CountsHandler loginHandler
  have hsame : ∀ s, SameCounts x.server s → Counts x.server s := fun _ h => h.counts
  rw [ends_ite]
  split_ifs
  · exact hsame _ ⟨rfl, rfl⟩
  apply Ends.tryCatch
  · rw [ends_bind]
    cases credentials J req with
    | error what => exact hsame _ ⟨rfl, rfl⟩
    | ok account =>
      rw [ends_lift_ok]
      change Ends (lift (queryUser env account.1 account.2) >>= _) _ _ _
      rw [ends_bind]
      cases queryUser env account.1 account.2 with
      | error what => exact hsame _ ⟨rfl, rfl⟩
      | ok u =>
        rw [ends_lift_ok, ends_ite]
        split_ifs
        · rw [ends_bind, ends_getSession, ends_bind, ends_setValue, ends_bind, ends_setValue,
            ends_bind, ends_setValue, ends_bind, ends_get, ends_ite]
          split_ifs
          · rw [ends_bind, ends_modifyServer, ends_bind, ends_modifyServer]
            apply keepsServer_dumped_reply
            exact fun _ => rfl
          · apply keepsServer_dumped_reply
            exact hsame _ ⟨rfl, rfl⟩
        · apply keepsServer_dumped_reply
          exact hsame _ ⟨rfl, rfl⟩
  · exact fun what => keepsServer_dumped_reply _ _ _ _ _ _ _

theorem counts_handler (r : Route) : CountsHandler (r.handler J S env req) x := by
  have hplayer : r = .start ∨ r = .restart ∨ r = .move →
      CountsHandler (r.handler J S env req) x := fun hr =>
    .of_keeps (keepsServer_player (fun _ _ h => h) (fun _ _ h => h) hr)
  cases r with
  | login => exact counts_login
  | logout => exact counts_logout
  | start => exact hplayer (.inl rfl)
  | restart => exact hplayer (.inr (.inl rfl))
  | move => exact hplayer (.inr (.inr rfl))
  | entry | register | menu | backend | backendData =>
    exact .of_keeps (keepsServer_handler _ req (by decide))

end Handlers

/-! ## Whole runs -/

section Runs
variable (J : JsonLib) (S : StdSort Cell)

theorem counts_serve (s : GomokuServer) (r : Env × HttpRequest) : Counts s (serve J S s r) := by
  obtain ⟨env, req⟩ := r
  have hsame : Counts s s := SameCounts.counts ⟨rfl, rfl⟩
  unfold serve onRequest
  refine (handle_iff J S env req _ fun x => Counts s x.server).mpr ?_
  split_ifs
  · exact hsame
  · cases routeOf req.method_ req.path_ with
    | none => exact hsame
    | some r => exact counts_handler r

/-- **The counter is the peak.** After any requests, handled one at a time, the most users that
were ever online are as many as the counter says: so many were, after one of the requests, and
never more. -/
theorem maxOnline_is_peak (server : GomokuServer) (requests : List (Env × HttpRequest)) :
    let start : GomokuServer := { server with online_users := ∅, maxOnline_ := 0 }
    IsGreatest {n | ∃ before, before <+: requests ∧
        n = currentOnline (before.foldl (serve J S) start)}
      (requests.foldl (serve J S) start).maxOnline_ := by
  intro start
  induction requests using List.reverseRecOn with
  | nil =>
    constructor
    · exact ⟨[], List.nil_prefix, rfl⟩
    · rintro n ⟨before, hbefore, rfl⟩
      rw [List.prefix_nil.mp hbefore]
      exact le_refl (0 : Int)
  | append_singleton requests r ih =>
    obtain ⟨⟨before, hbefore, hmax⟩, hle⟩ := ih
    have hcounts := counts_serve J S (requests.foldl (serve J S) start) r
      (hle ⟨requests, List.prefix_rfl, rfl⟩)
    rw [List.foldl_append, List.foldl_cons, List.foldl_nil, hcounts]
    constructor
    · rcases max_choice (requests.foldl (serve J S) start).maxOnline_
        (currentOnline (serve J S (requests.foldl (serve J S) start) r)) with h | h
      · exact ⟨before, hbefore.trans (List.prefix_append _ _), h.trans hmax⟩
      · refine ⟨requests ++ [r], List.prefix_rfl, h.trans ?_⟩
        rw [List.foldl_append, List.foldl_cons, List.foldl_nil]
    · rintro n ⟨before', hbefore', rfl⟩
      rcases List.prefix_concat_iff.mp hbefore' with rfl | hbefore'
      · rw [List.foldl_append, List.foldl_cons, List.foldl_nil]
        exact le_max_right _ _
      · exact (hle ⟨before', hbefore', rfl⟩).trans (le_max_left _ _)

end Runs
end Workplace.Gomoku
