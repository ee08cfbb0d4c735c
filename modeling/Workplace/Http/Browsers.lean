import Workplace.Http.Cookies
import Workplace.Http.SessionRuns

/-! Browsers and their sessions. The server keeps one table of sessions, and a cookie names one
of them; to each browser that is a store of its own, which no other browser reads or changes. -/

namespace Workplace.Http
open Workplace.Lib

/-! ## The stores that the browsers should have -/

/-- What a browser has stored, and when it was last there. -/
structure Own where
  last : Nat
  data : StrMap

abbrev PrivateStores (B : Type) := B → Option Own

namespace PrivateStores
variable {B : Type}

/-- What the browser finds: its own values, or nothing an hour after it was last there. -/
def data (p : PrivateStores B) (b : B) (now : Nat) : StrMap :=
  match p b with
  | some own => if now ≤ own.last + SessionLog.maxAge then own.data else ∅
  | none => ∅

def visit [DecidableEq B] (p : PrivateStores B) (bv : B × Visit) : PrivateStores B :=
  Function.update p bv.1 (if bv.2.destroys then none else
    some { last := bv.2.now
           data := SessionManager.withValues (p.data bv.1 bv.2.now) bv.2.values })

end PrivateStores

/-! ## The cookies that they have -/

namespace Cookie

def ofPair (name value : Bytes) : Option Cookie :=
  if h : (61 ∉ name ∧ 59 ∉ name) ∧ 59 ∉ value then some ⟨name, value, h.1, h.2⟩ else none

/-- The cookie in a `Set-Cookie` header; its attributes stand behind the first semicolon. -/
def ofSetCookie (text : Bytes) : Option Cookie :=
  let pair := match cut 59 text with
    | some (pair, _) => pair
    | none => text
  (cut 61 pair).bind fun (name, value) => ofPair name value

/-- A browser keeps one cookie of a name. -/
def receive (jar : List Cookie) (resp : HttpResponse) : List Cookie :=
  match (resp.headers_.lookup (bytes "Set-Cookie")).bind ofSetCookie with
  | some c => jar.filter (fun c' => c'.name ≠ c.name) ++ [c]
  | none => jar

variable {jar : List Cookie} {ck : Cookie}

theorem receive_of_none {resp : HttpResponse}
    (h : resp.headers_.lookup (bytes "Set-Cookie") = none) : receive jar resp = jar := by
  rw [receive, h]
  rfl

theorem ofSetCookie_setSessionCookie (h : ck.IsSessionId) :
    ofSetCookie (ck.text ++ bytes "; Path=/; HttpOnly") = some ck := by
  have hclean : (61 ∉ ck.name ∧ 59 ∉ ck.name) ∧ 59 ∉ ck.value := ⟨ck.name_clean, ck.value_clean⟩
  rw [ofSetCookie, (cut_setSessionCookie h {}).2, text]
  change (cut 61 (ck.name ++ 61 :: ck.value)).bind _ = _
  rw [cut_append ck.name_clean.1, Option.bind_some]
  exact dif_pos hclean

theorem receive_setSessionCookie (h : ck.IsSessionId) (resp : HttpResponse) :
    receive jar (SessionManager.setSessionCookie ck.value resp) =
      jar.filter (fun c => c.name ≠ ck.name) ++ [ck] := by
  rw [receive, (cut_setSessionCookie h resp).1, Option.bind_some, ofSetCookie_setSessionCookie h]

theorem sessionIdOf_replaced (h : ck.IsSessionId) :
    sessionIdOf (jar.filter (fun c => c.name ≠ ck.name) ++ [ck]) = ck.value := by
  have hnone : (jar.filter fun c => c.name ≠ ck.name).find? (fun c => c.IsSessionId) = none := by
    rw [List.find?_eq_none]
    intro c hc hid
    have hne : c.name ≠ ck.name := by simpa using (List.mem_filter.mp hc).2
    exact hne ((of_decide_eq_true hid).trans h.symm)
  rw [sessionIdOf, List.find?_append, hnone, Option.none_or, List.find?_singleton,
    if_pos (decide_eq_true h), Option.map_some, Option.getD_some]

/-- No cookie but the one of the session has `sessionId=` in its text. -/
def Tidy (jar : List Cookie) : Prop := ∀ c ∈ jar, c.IsSessionId ∨ c.behind = none

theorem Tidy.replaced (h : Tidy jar) (hck : ck.IsSessionId) :
    Tidy (jar.filter (fun c => c.name ≠ ck.name) ++ [ck]) := by
  intro c hc
  rcases List.mem_append.mp hc with hc | hc
  · exact h c (List.mem_of_mem_filter hc)
  · rw [List.mem_singleton.mp hc]
    exact .inl hck

theorem Tidy.readable (h : Tidy jar) : Readable jar := by
  intro c hc
  have hsome : c.behind.isSome = true :=
    List.find?_some (p := fun c : Cookie => c.behind.isSome) hc
  refine .inl ((h c (List.mem_of_find?_eq_some hc)).resolve_right fun hnone => ?_)
  rw [hnone] at hsome
  exact absurd hsome Bool.false_ne_true

/-- The server reads the id from such a jar. -/
theorem Tidy.getSessionIdFromCookie (h : Tidy jar) {req : HttpRequest}
    (hreq : req.getHeader (bytes "Cookie") = header jar) :
    SessionManager.getSessionIdFromCookie req = sessionIdOf jar := by
  change sessionIdIn (req.getHeader (bytes "Cookie")) = sessionIdOf jar
  rw [hreq, sessionIdIn_header, (readable_iff jar).mpr h.readable]

end Cookie

theorem hexDigit_ne_semicolon : ∀ d : Fin 16, hexDigit d ≠ 59 := by decide

theorem SessionManager.not_mem_generateSessionId (dist : Nat → Fin 16) :
    59 ∉ SessionManager.generateSessionId dist := by
  intro hmem
  obtain ⟨i, -, hi⟩ := List.mem_map.mp hmem
  exact hexDigit_ne_semicolon (dist i) hi

theorem Cookie.exists_generated (v : Visit) :
    ∃ ck : Cookie, ck.IsSessionId ∧ ck.value = SessionLog.generated v := by
  have hclean := SessionManager.not_mem_generateSessionId v.dist
  exact ⟨⟨bytes "sessionId", SessionLog.generated v, by decide, hclean⟩, rfl, rfl⟩

/-! ## Browsers and the server -/

structure Browsers (B : Type) where
  server : SessionLog := {}
  jar : B → List Cookie

namespace Browsers
variable {B : Type} {s s' : Browsers B} {p : PrivateStores B} {b b' : B} {v : Visit}

/-- The request carries the cookies of the browser, and its response is to have no other. -/
structure Sends (s : Browsers B) (bv : B × Visit) : Prop where
  allowed : s.server.Allowed bv.2
  cookies : bv.2.req.getHeader (bytes "Cookie") = Cookie.header (s.jar bv.1)
  resp : bv.2.resp.headers_.lookup (bytes "Set-Cookie") = none

def sid (s : Browsers B) (b : B) : Bytes := Cookie.sessionIdOf (s.jar b)

/-- The session of each browser is what its own last request left, and is no other browser's. -/
structure Private (s : Browsers B) (p : PrivateStores B) : Prop where
  tracks : s.server.Tracks
  tidy : ∀ b, Cookie.Tidy (s.jar b)
  own : ∀ b, s.sid b = [] ∧ p b = none ∨
    ∃ r, SessionLog.last s.server.history (s.sid b) = some r ∧
      p b = if r.visit.destroys then none else some { last := r.visit.now, data := r.data }
  apart : ∀ b b', s.sid b = s.sid b' → s.sid b ≠ [] → b = b'

theorem Private.getSessionIdFromCookie (h : s.Private p) (hs : s.Sends (b, v)) :
    SessionManager.getSessionIdFromCookie v.req = s.sid b :=
  (h.tidy b).getSessionIdFromCookie hs.cookies

theorem Private.named (h : s.Private p) (hs : s.Sends (b, v)) :
    s.server.Named v ↔ SessionLog.Live s.server.history (s.sid b) v.now := by
  rw [SessionLog.Named, h.getSessionIdFromCookie hs]

theorem private_init {jar : B → List Cookie} (hjar : ∀ b, ∀ c ∈ jar b, c.behind = none) :
    Private ({ jar } : Browsers B) fun _ => none := by
  have hnone : ∀ b, Cookie.sessionIdOf (jar b) = [] := by
    intro b
    have hfind : (jar b).find? (fun c => c.IsSessionId) = none := by
      rw [List.find?_eq_none]
      intro c hc hid
      have hbehind := Cookie.behind_of_isSessionId (of_decide_eq_true hid)
      rw [hjar b c hc] at hbehind
      cases hbehind
    rw [Cookie.sessionIdOf, hfind]
    rfl
  exact ⟨SessionLog.tracks_init, fun b c hc => .inr (hjar b c hc), fun b => .inl ⟨hnone b, rfl⟩,
    fun b _ _ hne => absurd (hnone b) hne⟩

/-- The browser gets what its own store should hold. -/
theorem Private.data_eq (h : s.Private p) (hs : s.Sends (b, v)) :
    (s.server.session v).1.data_ = p.data b v.now := by
  have hserves := h.tracks.serves hs.allowed
  by_cases hnamed : s.server.Named v
  · obtain ⟨r, hr, -, hdata, -⟩ := hserves.intact hnamed
    rw [h.getSessionIdFromCookie hs] at hr
    have hlive := (h.named hs).mp hnamed
    obtain ⟨hmem, hrid⟩ := SessionLog.mem_of_last hr
    have hkept : r.visit.destroys = false := by
      by_contra hno
      exact hlive.kept ⟨r, hmem, Bool.eq_true_of_not_eq_false hno, hrid⟩
    obtain ⟨r', hr', hrecent⟩ := hlive.recent
    obtain rfl := Option.some.inj (hr.symm.trans hr')
    rcases h.own b with ⟨hnil, -⟩ | ⟨r', hr', hp⟩
    · exact absurd hnil hlive.issued.ne_nil
    · obtain rfl := Option.some.inj (hr.symm.trans hr')
      rw [hkept] at hp
      simp only [PrivateStores.data, hp, Bool.false_eq_true, if_false]
      rw [if_pos hrecent, hdata]
  · rw [(hserves.fresh hnamed).2.2.1]
    rcases h.own b with ⟨-, hp⟩ | ⟨r, hr, hp⟩
    · simp only [PrivateStores.data, hp]
    · cases hd : r.visit.destroys with
      | true =>
        rw [hd, if_pos rfl] at hp
        simp only [PrivateStores.data, hp]
      | false =>
        rw [hd, if_neg Bool.false_ne_true] at hp
        simp only [PrivateStores.data, hp]
        split_ifs with hrecent
        · -- the session would be live
          obtain ⟨hmem, hrid⟩ := SessionLog.mem_of_last hr
          refine absurd ((h.named hs).mpr ⟨?_, fun hdestroyed => ?_, r, hr, hrecent⟩) hnamed
          · exact hrid ▸ h.tracks.issued r hmem
          · obtain ⟨r', hr', hd'⟩ := h.tracks.destroyed hdestroyed
            obtain rfl := Option.some.inj (hr.symm.trans hr')
            exact absurd (hd.symm.trans hd') Bool.false_ne_true
        · rfl

/-! ### A request -/

variable [DecidableEq B]

def visit (s : Browsers B) (bv : B × Visit) : Browsers B where
  server := s.server.visit bv.2
  jar := Function.update s.jar bv.1 (Cookie.receive (s.jar bv.1) (s.server.session bv.2).2.2)

def step (s : Browsers B) (bv : B × Visit) : Option (Browsers B) := some (s.visit bv)

/-- Afterwards the browser has the cookie of the session that it got, and no other has. -/
theorem Private.turn (h : s.Private p) (hs : s.Sends (b, v)) :
    (s.visit (b, v)).sid b = (s.server.record v).id ∧ (s.server.record v).id ≠ [] ∧
      Cookie.Tidy ((s.visit (b, v)).jar b) ∧
      ∀ b', b' ≠ b → s.sid b' ≠ [] → s.sid b' ≠ (s.server.record v).id := by
  have hserves := h.tracks.serves hs.allowed
  have hjar : (s.visit (b, v)).jar b =
      Cookie.receive (s.jar b) (s.server.session v).2.2 := Function.update_self ..
  have hrecord : (s.server.record v).id = (s.server.session v).1.sessionId_ := by
    rw [SessionLog.record]
  rw [sid, hjar, hrecord]
  by_cases hnamed : s.server.Named v
  · obtain ⟨r, -, hid, -, hresp⟩ := hserves.intact hnamed
    rw [hresp, Cookie.receive_of_none hs.resp, hid, h.getSessionIdFromCookie hs]
    refine ⟨rfl, ((h.named hs).mp hnamed).issued.ne_nil, h.tidy b, fun b' hb' hne heq => ?_⟩
    exact hb' (h.apart b' b heq hne)
  · obtain ⟨hid, hunused, -, hresp⟩ := hserves.fresh hnamed
    obtain ⟨ck, hck, hvalue⟩ := Cookie.exists_generated v
    rw [hresp, hid, ← hvalue, Cookie.receive_setSessionCookie hck]
    rw [← hvalue] at hunused
    refine ⟨Cookie.sessionIdOf_replaced hck, hvalue ▸ SessionManager.generateSessionId_ne_nil _,
      (h.tidy b).replaced hck, fun b' _ hne heq => ?_⟩
    rcases h.own b' with ⟨hnil, -⟩ | ⟨r, hr, -⟩
    · exact hne hnil
    · obtain ⟨hmem, hrid⟩ := SessionLog.mem_of_last hr
      exact hunused r hmem (hrid.trans heq)

theorem jar_visit_ne (hb : b' ≠ b) : (s.visit (b, v)).jar b' = s.jar b' :=
  Function.update_of_ne hb _ _

theorem sid_visit_ne (hb : b' ≠ b) : (s.visit (b, v)).sid b' = s.sid b' := by
  rw [sid, jar_visit_ne hb, sid]

theorem Private.visit (h : s.Private p) (hs : s.Sends (b, v)) :
    (s.visit (b, v)).Private (p.visit (b, v)) := by
  obtain ⟨hsid, hne, htidy, hothers⟩ := h.turn hs
  have hlast : ∀ id, SessionLog.last (s.visit (b, v)).server.history id =
      if (s.server.record v).id = id then some (s.server.record v)
      else SessionLog.last s.server.history id := by
    intro id
    have hhistory : (s.visit (b, v)).server.history = s.server.record v :: s.server.history :=
      (SessionLog.visit_spec s.server v).1
    rw [hhistory, SessionLog.last_cons]
  have hself : ∀ b', b' ≠ b → s.sid b' ≠ [] → s.sid b' ≠ (s.visit (b, v)).sid b := by
    rw [hsid]
    exact hothers
  refine ⟨h.tracks.visit hs.allowed, fun b' => ?_, fun b' => ?_, fun b₁ b₂ heq hnil => ?_⟩
  · by_cases hb : b' = b
    · exact hb ▸ htidy
    · rw [jar_visit_ne hb]
      exact h.tidy b'
  · by_cases hb : b' = b
    · subst hb
      refine .inr ⟨s.server.record v, ?_, ?_⟩
      · rw [hlast, hsid, if_pos rfl]
      · rw [PrivateStores.visit, Function.update_self, ← h.data_eq hs]
        rfl
    · have hp : p.visit (b, v) b' = p b' := Function.update_of_ne hb ..
      rw [hp, sid_visit_ne hb]
      refine (h.own b').imp id fun ⟨r, hr, hpr⟩ => ⟨r, ?_, hpr⟩
      rw [hlast, if_neg, hr]
      intro hid
      have hnil : s.sid b' ≠ [] := hid ▸ hne
      exact hothers b' hb hnil hid.symm
  · by_cases h₁ : b₁ = b
    · by_cases h₂ : b₂ = b
      · rw [h₁, h₂]
      · rw [h₁, sid_visit_ne h₂] at heq
        rw [h₁, heq] at hnil
        exact absurd heq.symm (hself b₂ h₂ hnil)
    · rw [sid_visit_ne h₁] at heq hnil
      by_cases h₂ : b₂ = b
      · rw [h₂] at heq
        exact absurd heq (hself b₁ h₁ hnil)
      · rw [sid_visit_ne h₂] at heq
        exact h.apart b₁ b₂ heq hnil

/-- **Sessions are private.** Browsers that send back the cookies they were given find, in
whatever order their requests come, each what a store of its own would hold: the values of its
own requests since its last logout, and nothing once it was away for more than an hour. -/
theorem sessions_are_private {jar : B → List Cookie} (hjar : ∀ b, ∀ c ∈ jar b, c.behind = none)
    {visits : List (B × Visit)} (hg : Guarded Sends step { jar } visits)
    (hrun : run step { jar } visits = some s) (hs : s.Sends (b, v)) :
    (s.server.session v).1.data_ =
      (visits.foldl PrivateStores.visit fun _ => none).data b v.now := by
  suffices hall : ∀ (s₀ : Browsers B) (p₀ : PrivateStores B), s₀.Private p₀ →
      Guarded Sends step s₀ visits → run step s₀ visits = some s →
        s.Private (visits.foldl PrivateStores.visit p₀) by
    exact (hall _ _ (private_init hjar) hg hrun).data_eq hs
  clear hrun hg
  induction visits with
  | nil =>
    intro s₀ p₀ h₀ _ hrun
    exact Option.some.inj hrun ▸ h₀
  | cons bv visits ih =>
    intro s₀ p₀ h₀ hg hrun
    exact ih (s₀.visit bv) (p₀.visit bv) (h₀.visit hg.1) (hg.2 _ rfl) hrun

/-- A browser with a cookie of its own comes back at the last instant. -/
theorem sessions_are_private_second :
    let first : Visit := { now := 5, dist := fun _ => 0, req := {}, values := [([107], [118])] }
    let second : Visit := {
      now := 5 + SessionLog.maxAge
      dist := fun _ => 1
      req := { headers_ := Finmap.insert (bytes "Cookie")
                (bytes "lang=de; sessionId=0000000000000000000000000000000") ∅ } }
    ∃ s, run step { jar := fun _ : Bool => [Cookie.lang] }
        [(true, { first with req := Cookie.withCookie [Cookie.lang] })] = some s ∧
      (s.server.session second).1.data_ = (List.foldl PrivateStores.visit (fun _ : Bool => none)
        [(true, { first with req := Cookie.withCookie [Cookie.lang] })]).data true second.now := by
  intro first second
  let s₀ : Browsers Bool := { jar := fun _ => [Cookie.lang] }
  let visit : Visit := { first with req := Cookie.withCookie [Cookie.lang] }
  have hjar : ∀ b, ∀ c ∈ s₀.jar b, c.behind = none := by
    intro b c hc
    rw [List.mem_singleton.mp hc]
    decide
  have hfirst : s₀.Sends (true, visit) :=
    ⟨⟨Nat.zero_le _, fun _ r hr => absurd hr List.not_mem_nil⟩, by decide, by decide⟩
  have hsecond : (s₀.visit (true, visit)).Sends (true, second) := by
    refine ⟨⟨Nat.le_add_right _ _, fun hfound => ?_⟩, by decide, by decide⟩
    exact absurd hfound (by decide)
  exact ⟨_, rfl, sessions_are_private hjar (.of_step hfirst rfl trivial) rfl hsecond⟩

end Browsers
end Workplace.Http
