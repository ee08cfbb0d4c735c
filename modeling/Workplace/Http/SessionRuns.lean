import Workplace.Http.Session
import Workplace.Lib.Runs

/-! The session store over a sequence of requests. Every request gets its session, may store
values in it, and may log it out; whether a session is there for the next one is decided by
the cookie, the store and the clock. The requests are recorded, the latest first. -/

namespace Workplace.Http
open Workplace.Lib

/-- `std::hex` of a digit. -/
def hexDigit (d : Fin 16) : UInt8 :=
  if d.val < 10 then UInt8.ofNat (48 + d.val) else UInt8.ofNat (87 + d.val)

/-- The loop runs from 1 to 31; `dist` is what the generator gives in it. -/
def SessionManager.generateSessionId (dist : Nat → Fin 16) : Bytes :=
  (List.range' 1 31).map fun i => hexDigit (dist i)

/-- A request as far as sessions go: `getSession`, `setValue` for each of `values`, and, if it
`destroys` the session, `clear` and `destroySession`. -/
structure Visit where
  now : Nat
  dist : Nat → Fin 16
  req : HttpRequest
  resp : HttpResponse := {}
  values : List (Bytes × Bytes) := []
  destroys : Bool := false

/-- What came of a request: the session it had and what it left in it. -/
structure VisitRecord where
  visit : Visit
  id : Bytes
  isNew : Bool
  data : StrMap

structure SessionLog where
  manager : SessionManager := {}
  clock : Nat := 0
  history : List VisitRecord := []

namespace SessionManager

def found (m : SessionManager) (now : Nat) (req : HttpRequest) : Option Session :=
  if getSessionIdFromCookie req = [] then none else (m.load now (getSessionIdFromCookie req)).1

def setValues (m : SessionManager) (session : Session) (values : List (Bytes × Bytes)) :
    Session × SessionManager :=
  values.foldl (fun p kv => p.2.setValue p.1 kv.1 kv.2) (session, m)

end SessionManager

namespace SessionLog

def generated (v : Visit) : Bytes := SessionManager.generateSessionId v.dist

def session (s : SessionLog) (v : Visit) : Session × SessionManager × HttpResponse :=
  s.manager.getSession v.now (generated v) v.req v.resp

def visit (s : SessionLog) (v : Visit) : SessionLog :=
  let (session, manager, _) := s.session v
  let (session, manager) := manager.setValues session v.values
  let manager := if v.destroys then
      -- the store holds the session itself, and `clear` is seen there
      (manager.save session.clear).destroySession session.sessionId_
    else manager
  let record := { visit := v, id := session.sessionId_,
                  isNew := (s.manager.found v.now v.req).isNone, data := session.data_ }
  { manager, clock := v.now, history := record :: s.history }

/-- The clock does not go back, and an id that is generated has not been used. -/
def Allowed (s : SessionLog) (v : Visit) : Prop :=
  s.clock ≤ v.now ∧
    (s.manager.found v.now v.req = none → ∀ r ∈ s.history, r.id ≠ generated v)

/-! ## What the record says of an id -/

def Issued (history : List VisitRecord) (id : Bytes) : Prop :=
  ∃ r ∈ history, r.isNew = true ∧ r.id = id ∧ id = generated r.visit

def Destroyed (history : List VisitRecord) (id : Bytes) : Prop :=
  ∃ r ∈ history, r.visit.destroys = true ∧ r.id = id

/-- The last request that had the session. -/
def last (history : List VisitRecord) (id : Bytes) : Option VisitRecord :=
  history.find? fun r => r.id = id

/-- `maxAge_` in nanoseconds. -/
def maxAge : Nat := 3600 * 10 ^ 9

structure Live (history : List VisitRecord) (id : Bytes) (now : Nat) : Prop where
  issued : Issued history id
  kept : ¬ Destroyed history id
  recent : ∃ r, last history id = some r ∧ now ≤ r.visit.now + maxAge

end SessionLog

/-! ## The operations -/

namespace SessionManager
variable {m : SessionManager} {now : Nat} {id k : Bytes} {session : Session} {req : HttpRequest}

theorem generateSessionId_ne_nil (dist : Nat → Fin 16) : generateSessionId dist ≠ [] := by
  rw [generateSessionId, ne_eq, List.map_eq_nil_iff]
  decide

/-- The store after the `load` of `getSession`. -/
def afterLoad (m : SessionManager) (now : Nat) (req : HttpRequest) : SessionManager :=
  if getSessionIdFromCookie req = [] then m else (m.load now (getSessionIdFromCookie req)).2

theorem load_eq_some : (m.load now id).1 = some session ↔
    m.sessions_.lookup id = some session ∧ session.isExpired now = false := by
  rw [load]
  cases hl : m.sessions_.lookup id with
  | none => simp
  | some x =>
    dsimp only
    split_ifs with hx
    · simp only [Option.some.injEq, false_iff]
      rintro ⟨rfl, hno⟩
      rw [hx] at hno
      cases hno
    · simp only [Option.some.injEq]
      refine ⟨fun h => ⟨h, ?_⟩, And.left⟩
      subst h
      exact Bool.eq_false_of_not_eq_true hx

theorem lookup_load_of_some (h : (m.load now id).2.sessions_.lookup k = some session) :
    m.sessions_.lookup k = some session := by
  rw [load] at h
  cases hl : m.sessions_.lookup id with
  | none =>
    rw [hl] at h
    exact h
  | some x =>
    rw [hl] at h
    dsimp only at h
    split_ifs at h
    · by_cases hk : k = id
      · rw [hk, Finmap.lookup_erase] at h
        cases h
      · rw [Finmap.lookup_erase_ne hk] at h
        exact h
    · exact h

theorem lookup_load (h : m.sessions_.lookup k = some session)
    (hlive : session.isExpired now = false) :
    (m.load now id).2.sessions_.lookup k = some session := by
  rw [load]
  cases hl : m.sessions_.lookup id with
  | none => exact h
  | some x =>
    dsimp only
    split_ifs with hx
    · have hk : k ≠ id := by
        rintro rfl
        rw [h] at hl
        obtain rfl := Option.some.inj hl
        rw [hx] at hlive
        cases hlive
      rw [Finmap.lookup_erase_ne hk]
      exact h
    · exact h

theorem lookup_afterLoad_of_some (h : (m.afterLoad now req).sessions_.lookup k = some session) :
    m.sessions_.lookup k = some session := by
  rw [afterLoad] at h
  split_ifs at h
  · exact h
  · exact lookup_load_of_some h

theorem lookup_afterLoad (h : m.sessions_.lookup k = some session)
    (hlive : session.isExpired now = false) :
    (m.afterLoad now req).sessions_.lookup k = some session := by
  rw [afterLoad]
  split_ifs
  · exact h
  · exact lookup_load h hlive

theorem found_eq_some : m.found now req = some session ↔ getSessionIdFromCookie req ≠ [] ∧
    m.sessions_.lookup (getSessionIdFromCookie req) = some session ∧
      session.isExpired now = false := by
  rw [found]
  split_ifs with hid
  · simp [hid]
  · rw [load_eq_some, and_iff_right hid]

theorem getSession_eq (m : SessionManager) (now : Nat) (generated : Bytes) (req : HttpRequest)
    (resp : HttpResponse) : m.getSession now generated req resp =
      let session := ((m.found now req).getD { sessionId_ := generated }).refresh now
      (session, (m.afterLoad now req).save session,
        if (m.found now req).isSome then resp else setSessionCookie generated resp) := by
  simp only [getSession, found, afterLoad]
  split_ifs <;> rfl

theorem lookup_save_self (m : SessionManager) (session : Session) :
    (m.save session).sessions_.lookup session.sessionId_ = some session := Finmap.lookup_insert _

theorem lookup_save_ne (hk : k ≠ session.sessionId_) :
    (m.save session).sessions_.lookup k = m.sessions_.lookup k := Finmap.lookup_insert_of_ne _ hk

/-- The data of a session after `setValue` for each of `values`. -/
def withValues (data : StrMap) (values : List (Bytes × Bytes)) : StrMap :=
  values.foldl (fun data kv => data.insert kv.1 kv.2) data

theorem setValues_spec (values : List (Bytes × Bytes))
    (h : m.sessions_.lookup session.sessionId_ = some session) :
    (m.setValues session values).1 =
        { session with data_ := withValues session.data_ values } ∧
      (m.setValues session values).2.sessions_.lookup session.sessionId_ =
        some { session with data_ := withValues session.data_ values } ∧
      ∀ k, k ≠ session.sessionId_ →
        (m.setValues session values).2.sessions_.lookup k = m.sessions_.lookup k := by
  induction values generalizing session m with
  | nil => exact ⟨rfl, h, fun _ _ => rfl⟩
  | cons kv values ih =>
    set next : Session := { session with data_ := session.data_.insert kv.1 kv.2 } with hnext
    obtain ⟨hsession, hself, hothers⟩ := ih (lookup_save_self m next)
    refine ⟨hsession, hself, fun k hk => ?_⟩
    have hne : k ≠ next.sessionId_ := hk
    exact (hothers k hne).trans (lookup_save_ne hne)

end SessionManager

namespace SessionLog
variable {s : SessionLog} {v : Visit} {id k : Bytes} {session : Session}

def left (s : SessionLog) (v : Visit) : Session :=
  { (s.session v).1 with data_ := SessionManager.withValues (s.session v).1.data_ v.values }

def record (s : SessionLog) (v : Visit) : VisitRecord where
  visit := v
  id := (s.session v).1.sessionId_
  isNew := (s.manager.found v.now v.req).isNone
  data := (s.left v).data_

theorem visit_spec (s : SessionLog) (v : Visit) :
    (s.visit v).history = s.record v :: s.history ∧
      (s.visit v).manager.sessions_.lookup (s.record v).id =
        (if v.destroys then none else some (s.left v)) ∧
      ∀ k, k ≠ (s.record v).id → (s.visit v).manager.sessions_.lookup k =
        (s.manager.afterLoad v.now v.req).sessions_.lookup k := by
  have heq : s.session v = ((s.session v).1,
      (s.manager.afterLoad v.now v.req).save (s.session v).1, (s.session v).2.2) := by
    rw [session, SessionManager.getSession_eq]
  have hstored : (s.session v).2.1.sessions_.lookup (s.session v).1.sessionId_ =
      some (s.session v).1 := by
    rw [heq]
    exact SessionManager.lookup_save_self _ _
  obtain ⟨hsession, hself, hothers⟩ := SessionManager.setValues_spec v.values hstored
  have hleft : ((s.session v).2.1.setValues (s.session v).1 v.values).1 = s.left v := hsession
  have hid : (s.left v).sessionId_ = (s.record v).id := rfl
  have hsave : ∀ k, k ≠ (s.record v).id →
      (s.session v).2.1.sessions_.lookup k =
        (s.manager.afterLoad v.now v.req).sessions_.lookup k := by
    intro k hk
    rw [heq]
    exact SessionManager.lookup_save_ne hk
  refine ⟨?_, ?_, fun k hk => ?_⟩
  · simp only [visit, hleft]
    rfl
  · simp only [visit, hleft]
    split_ifs
    · exact Finmap.lookup_erase _ _
    · exact hself
  · simp only [visit, hleft]
    split_ifs
    · rw [SessionManager.destroySession, Finmap.lookup_erase_ne (hid ▸ hk)]
      have hne : k ≠ (s.left v).clear.sessionId_ := hk
      rw [SessionManager.lookup_save_ne hne, hothers k hk, hsave k hk]
    · rw [hothers k hk, hsave k hk]

/-! ## The store and the record -/

/-- The store holds a session exactly as the last request with it has left it, and has lost
none that is still within its time. -/
structure Tracks (s : SessionLog) : Prop where
  stored : ∀ {id session}, s.manager.sessions_.lookup id = some session →
    ∃ r, last s.history id = some r ∧ r.visit.destroys = false ∧
      session = { sessionId_ := id, data_ := r.data, expiryTime_ := r.visit.now + maxAge }
  kept : ∀ {id r}, last s.history id = some r → r.visit.destroys = false →
    s.clock ≤ r.visit.now + maxAge → ∃ session, s.manager.sessions_.lookup id = some session
  issued : ∀ r ∈ s.history, Issued s.history r.id
  destroyed : ∀ {id}, Destroyed s.history id →
    ∃ r, last s.history id = some r ∧ r.visit.destroys = true

theorem mem_of_last {history : List VisitRecord} {r : VisitRecord} (h : last history id = some r) :
    r ∈ history ∧ r.id = id := by
  have hid := List.find?_some h
  exact ⟨List.mem_of_find?_eq_some h, of_decide_eq_true hid⟩

theorem Issued.ne_nil {history : List VisitRecord} (h : Issued history id) : id ≠ [] := by
  obtain ⟨r, -, -, -, rfl⟩ := h
  exact SessionManager.generateSessionId_ne_nil _

def Named (s : SessionLog) (v : Visit) : Prop :=
  Live s.history (SessionManager.getSessionIdFromCookie v.req) v.now

theorem Tracks.isExpired (h : s.Tracks) (hl : s.manager.sessions_.lookup id = some session)
    {r : VisitRecord} (hr : last s.history id = some r) {now : Nat} :
    session.isExpired now = false ↔ now ≤ r.visit.now + maxAge := by
  obtain ⟨r', hr', -, rfl⟩ := h.stored hl
  obtain rfl : r = r' := Option.some.inj (hr.symm.trans hr')
  rw [Session.isExpired, decide_eq_false_iff_not, not_lt]

/-- `getSession` finds the session if and only if it is live, and then as it was left. -/
theorem Tracks.found_of_named (h : s.Tracks) (hclock : s.clock ≤ v.now) (hnamed : s.Named v) :
    ∃ r, last s.history (SessionManager.getSessionIdFromCookie v.req) = some r ∧
      s.manager.found v.now v.req = some {
        sessionId_ := SessionManager.getSessionIdFromCookie v.req
        data_ := r.data
        expiryTime_ := r.visit.now + maxAge } := by
  obtain ⟨r, hr, hrecent⟩ := hnamed.recent
  obtain ⟨hmem, hid⟩ := mem_of_last hr
  have hdestroys : r.visit.destroys = false := by
    by_contra hno
    exact hnamed.kept ⟨r, hmem, Bool.eq_true_of_not_eq_false hno, hid⟩
  obtain ⟨session, hl⟩ := h.kept hr hdestroys (hclock.trans hrecent)
  have hlive : session.isExpired v.now = false := (h.isExpired hl hr).mpr hrecent
  obtain ⟨r', hr', -, rfl⟩ := h.stored hl
  obtain rfl : r = r' := Option.some.inj (hr.symm.trans hr')
  exact ⟨r, hr, SessionManager.found_eq_some.mpr ⟨hnamed.issued.ne_nil, hl, hlive⟩⟩

theorem Tracks.named_of_found (h : s.Tracks)
    (hfound : s.manager.found v.now v.req = some session) : s.Named v := by
  obtain ⟨-, hl, hlive⟩ := SessionManager.found_eq_some.mp hfound
  obtain ⟨r, hr, hdestroys, -⟩ := h.stored hl
  obtain ⟨hmem, hid⟩ := mem_of_last hr
  refine ⟨hid ▸ h.issued r hmem, fun hd => ?_, r, hr, (h.isExpired hl hr).mp hlive⟩
  obtain ⟨r', hr', hdestroys'⟩ := h.destroyed hd
  obtain rfl : r = r' := Option.some.inj (hr.symm.trans hr')
  rw [hdestroys] at hdestroys'
  cases hdestroys'

theorem session_of_not_found (hfound : s.manager.found v.now v.req = none) :
    (s.session v).1 = { sessionId_ := generated v, expiryTime_ := v.now + maxAge } ∧
      (s.session v).2.2 = SessionManager.setSessionCookie (generated v) v.resp := by
  rw [session, SessionManager.getSession_eq, hfound]
  exact ⟨rfl, rfl⟩

theorem session_of_found (hfound : s.manager.found v.now v.req = some session) :
    (s.session v).1 = session.refresh v.now ∧ (s.session v).2.2 = v.resp := by
  rw [SessionLog.session, SessionManager.getSession_eq, hfound]
  exact ⟨rfl, rfl⟩

/-- The session of a request is as good as new, whether it is a new one or not. -/
theorem Tracks.session_time (h : s.Tracks) (v : Visit) :
    (s.session v).1.expiryTime_ = v.now + maxAge ∧ (s.session v).1.maxAge_ = 3600 := by
  cases hfound : s.manager.found v.now v.req with
  | none =>
    rw [(session_of_not_found hfound).1]
    exact ⟨rfl, rfl⟩
  | some session =>
    obtain ⟨-, hl, -⟩ := SessionManager.found_eq_some.mp hfound
    obtain ⟨r, -, -, rfl⟩ := h.stored hl
    rw [(session_of_found hfound).1]
    exact ⟨rfl, rfl⟩

theorem last_cons (r : VisitRecord) (history : List VisitRecord) (id : Bytes) :
    last (r :: history) id = if r.id = id then some r else last history id := by
  rw [last, List.find?_cons]
  split_ifs with hid
  · simp [hid]
  · simp [hid, last]

theorem Issued.cons {history : List VisitRecord} (h : Issued history id) (r : VisitRecord) :
    Issued (r :: history) id := by
  obtain ⟨r', hmem, hr'⟩ := h
  exact ⟨r', List.mem_cons_of_mem r hmem, hr'⟩

theorem Tracks.issued_record (h : s.Tracks) : Issued (s.record v :: s.history) (s.record v).id := by
  cases hfound : s.manager.found v.now v.req with
  | none =>
    have hid : (s.record v).id = generated v :=
      congrArg Session.sessionId_ (session_of_not_found hfound).1
    refine ⟨s.record v, List.mem_cons_self, ?_, rfl, hid⟩
    rw [record, hfound]
    rfl
  | some session =>
    obtain ⟨-, hl, -⟩ := SessionManager.found_eq_some.mp hfound
    obtain ⟨r, hr, -, rfl⟩ := h.stored hl
    have hid : (s.record v).id = SessionManager.getSessionIdFromCookie v.req :=
      congrArg Session.sessionId_ (session_of_found hfound).1
    obtain ⟨hmem, hrid⟩ := mem_of_last hr
    rw [hid, ← hrid]
    exact (h.issued r hmem).cons _

theorem Tracks.not_destroyed_record (h : s.Tracks) (ha : s.Allowed v) :
    ¬ Destroyed s.history (s.record v).id := by
  intro hd
  cases hfound : s.manager.found v.now v.req with
  | none =>
    have hid : (s.record v).id = generated v :=
      congrArg Session.sessionId_ (session_of_not_found hfound).1
    obtain ⟨r, hmem, -, hrid⟩ := hd
    exact ha.2 hfound r hmem (hrid.trans hid)
  | some session =>
    have hnamed := h.named_of_found hfound
    obtain ⟨-, hl, -⟩ := SessionManager.found_eq_some.mp hfound
    obtain ⟨r, -, -, rfl⟩ := h.stored hl
    have hid : (s.record v).id = SessionManager.getSessionIdFromCookie v.req :=
      congrArg Session.sessionId_ (session_of_found hfound).1
    exact hnamed.kept (hid ▸ hd)

theorem Tracks.visit (h : s.Tracks) (ha : s.Allowed v) : (s.visit v).Tracks := by
  obtain ⟨hhistory, hself, hothers⟩ := visit_spec s v
  have hlast : ∀ id, last (s.visit v).history id =
      if (s.record v).id = id then some (s.record v) else last s.history id := by
    intro id
    rw [hhistory, last_cons]
  refine ⟨fun {id session} hl => ?_, fun {id r} hr hdestroys hclock => ?_, fun r hr => ?_,
    fun {id} hd => ?_⟩
  · rw [hlast]
    by_cases hid : (s.record v).id = id
    · subst hid
      rw [hself] at hl
      split_ifs at hl with hdestroys
      obtain rfl := Option.some.inj hl
      refine ⟨s.record v, if_pos rfl, Bool.eq_false_of_not_eq_true hdestroys, ?_⟩
      obtain ⟨htime, hage⟩ := h.session_time v
      simp only [left, record, htime, hage]
    · rw [if_neg hid]
      rw [hothers id (Ne.symm hid)] at hl
      exact h.stored (SessionManager.lookup_afterLoad_of_some hl)
  · rw [hlast] at hr
    split_ifs at hr with hid
    · obtain rfl := Option.some.inj hr
      subst hid
      have hv : v.destroys = false := hdestroys
      exact ⟨s.left v, by rw [hself, hv]; rfl⟩
    · have hclock' : v.now ≤ r.visit.now + maxAge := hclock
      obtain ⟨session, hl⟩ := h.kept hr hdestroys (ha.1.trans hclock')
      have hlive : session.isExpired v.now = false := (h.isExpired hl hr).mpr hclock'
      exact ⟨session, (hothers id (Ne.symm hid)).trans (SessionManager.lookup_afterLoad hl hlive)⟩
  · rw [hhistory] at hr ⊢
    rcases List.mem_cons.mp hr with rfl | hr
    · exact h.issued_record
    · exact (h.issued r hr).cons _
  · rw [hlast]
    rw [hhistory] at hd
    obtain ⟨r, hr, hdestroys, rfl⟩ := hd
    rcases List.mem_cons.mp hr with rfl | hr
    · exact ⟨s.record v, if_pos rfl, hdestroys⟩
    · have hd : Destroyed s.history r.id := ⟨r, hr, hdestroys, rfl⟩
      have hne : (s.record v).id ≠ r.id := fun he => h.not_destroyed_record ha (he ▸ hd)
      rw [if_neg hne]
      exact h.destroyed hd

theorem tracks_init : ({} : SessionLog).Tracks := by
  refine ⟨fun hl => ?_, fun hr => ?_, fun r hr => absurd hr List.not_mem_nil, fun hd => ?_⟩
  · rw [Finmap.lookup_empty] at hl
    cases hl
  · cases hr
  · obtain ⟨r, hr, -⟩ := hd
    exact absurd hr List.not_mem_nil

/-! ## Runs -/

def step (s : SessionLog) (v : Visit) : Option SessionLog := some (s.visit v)

/-- What a request gets from `getSession` in the state `s`. -/
structure Serves (s : SessionLog) (v : Visit) : Prop where
  existing : Issued s.history (s.session v).1.sessionId_ ↔ s.Named v
  intact : s.Named v → ∃ r,
    last s.history (SessionManager.getSessionIdFromCookie v.req) = some r ∧
      (s.session v).1.sessionId_ = SessionManager.getSessionIdFromCookie v.req ∧
      (s.session v).1.data_ = r.data ∧ (s.session v).2.2 = v.resp
  fresh : ¬ s.Named v → (s.session v).1.sessionId_ = generated v ∧
    (∀ r ∈ s.history, r.id ≠ generated v) ∧ (s.session v).1.data_ = ∅ ∧
      (s.session v).2.2 = SessionManager.setSessionCookie (generated v) v.resp
  stored : (s.session v).2.1.sessions_.lookup (s.session v).1.sessionId_ = some (s.session v).1
  unexpired : (s.session v).1.isExpired v.now = false

theorem Tracks.serves (h : s.Tracks) (ha : s.Allowed v) : s.Serves v := by
  have hintact : s.Named v → ∃ r,
      last s.history (SessionManager.getSessionIdFromCookie v.req) = some r ∧
        (s.session v).1.sessionId_ = SessionManager.getSessionIdFromCookie v.req ∧
        (s.session v).1.data_ = r.data ∧ (s.session v).2.2 = v.resp := by
    intro hnamed
    obtain ⟨r, hr, hfound⟩ := h.found_of_named ha.1 hnamed
    obtain ⟨hsession, hresp⟩ := session_of_found hfound
    rw [hsession]
    exact ⟨r, hr, rfl, rfl, hresp⟩
  have hfresh : ¬ s.Named v → (s.session v).1.sessionId_ = generated v ∧
      (∀ r ∈ s.history, r.id ≠ generated v) ∧ (s.session v).1.data_ = ∅ ∧
        (s.session v).2.2 = SessionManager.setSessionCookie (generated v) v.resp := by
    intro hnamed
    have hfound : s.manager.found v.now v.req = none := by
      by_contra hsome
      obtain ⟨session, hsession⟩ := Option.ne_none_iff_exists'.mp hsome
      exact hnamed (h.named_of_found hsession)
    obtain ⟨hsession, hresp⟩ := session_of_not_found hfound
    rw [hsession]
    exact ⟨rfl, ha.2 hfound, rfl, hresp⟩
  refine ⟨⟨fun hissued => ?_, fun hnamed => ?_⟩, hintact, hfresh, ?_, ?_⟩
  · by_contra hnamed
    obtain ⟨hid, hunused, -⟩ := hfresh hnamed
    obtain ⟨r, hr, -, hrid, -⟩ := hissued
    exact hunused r hr (hrid.trans hid)
  · obtain ⟨r, hr, hid, -⟩ := hintact hnamed
    rw [hid]
    exact hnamed.issued
  · rw [session, SessionManager.getSession_eq]
    exact SessionManager.lookup_save_self _ _
  · rw [Session.isExpired, (h.session_time v).1, decide_eq_false_iff_not, not_lt]
    exact Nat.le_add_right _ _

/-- **The session store.** The keys are ids that were generated, each that of its session; and
a request gets the session that its cookie names as long as that is live, or a new one. -/
theorem session_store {visits : List Visit} (hg : Guarded Allowed step {} visits)
    (hrun : run step {} visits = some s) :
    (∀ id session, s.manager.sessions_.lookup id = some session →
      session.sessionId_ = id ∧ Issued s.history id) ∧ ∀ v, s.Allowed v → s.Serves v := by
  have hstep : ∀ {s : SessionLog} {v s'}, s.Tracks → s.Allowed v → s.step v = some s' →
      s'.Tracks := by
    intro s v s' h ha hs
    obtain rfl := Option.some.inj hs
    exact h.visit ha
  have h : s.Tracks := run_invariant visits hstep tracks_init hg hrun
  refine ⟨fun id session hl => ?_, fun v ha => h.serves ha⟩
  obtain ⟨r, hr, -, rfl⟩ := h.stored hl
  obtain ⟨hmem, hid⟩ := mem_of_last hr
  exact ⟨rfl, hid ▸ h.issued r hmem⟩

/-- The second request comes at the last instant at which the session is live. -/
theorem session_store_two_requests :
    let first : Visit := { now := 5, dist := fun _ => 0, req := {}, values := [([107], [118])] }
    let second : Visit := {
      now := 5 + maxAge
      dist := fun _ => 1
      req := { headers_ := Finmap.insert (bytes "Cookie")
                (bytes "lang=en; sessionId=0000000000000000000000000000000") ∅ } }
    ∃ s, run step {} [first] = some s ∧ s.Allowed second ∧ s.Serves second ∧
      (s.session second).1.getValue [107] = [118] := by
  intro first second
  have hfirst : Allowed {} first :=
    ⟨Nat.zero_le _, fun _ r hr => absurd hr List.not_mem_nil⟩
  have hg : Guarded Allowed step {} [first] := .of_step hfirst rfl trivial
  have hsecond : (visit {} first).Allowed second := by
    refine ⟨Nat.le_add_right _ _, fun hfound => ?_⟩
    exact absurd hfound (by decide)
  exact ⟨_, rfl, hsecond, (session_store hg rfl).2 second hsecond, by decide⟩

end SessionLog
end Workplace.Http
