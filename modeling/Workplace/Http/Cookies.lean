import Workplace.Http.Session

/-! The cookies of a request. `getSessionIdFromCookie` looks for the text `sessionId=` anywhere
in the header, and not for a cookie with that name. -/

namespace Workplace.Http

structure Cookie where
  name : Bytes
  value : Bytes
  name_clean : 61 ∉ name ∧ 59 ∉ name
  value_clean : 59 ∉ value

namespace Cookie

def text (c : Cookie) : Bytes := c.name ++ 61 :: c.value

/-- The header as a browser writes it. -/
def header (cookies : List Cookie) : Bytes := (bytes "; ").intercalate (cookies.map text)

def IsSessionId (c : Cookie) : Prop := c.name = bytes "sessionId"

instance (c : Cookie) : Decidable c.IsSessionId := inferInstanceAs (Decidable (_ = _))

/-- The value of the first cookie with the name. -/
def sessionIdOf (cookies : List Cookie) : Bytes :=
  ((cookies.find? fun c => c.IsSessionId).map value).getD []

/-- What stands behind the first `sessionId=` in the text of a cookie: its value, where the
name ends with `sessionId`, or else a part of the value. -/
def behind (c : Cookie) : Option Bytes :=
  if bytes "sessionId" <:+ c.name then some c.value else findAfter (bytes "sessionId=") c.value

/-- The first cookie with a `sessionId=` in it has the name, or what stands behind that text is
the value of the first cookie that has it (and empty, if none has). -/
def Readable (cookies : List Cookie) : Prop :=
  ∀ c, cookies.find? (fun c => c.behind.isSome) = some c →
    c.IsSessionId ∨ c.behind = some (sessionIdOf cookies)

end Cookie

/-! ## The search -/

variable {needle as bs : Bytes} {b c : UInt8}

theorem findAfter_here (h : needle <+: b :: bs) :
    findAfter needle (b :: bs) = some ((b :: bs).drop needle.length) := by
  rw [findAfter, if_pos (List.isPrefixOf_iff_prefix.mpr h)]

theorem findAfter_later (h : ¬ needle <+: b :: bs) :
    findAfter needle (b :: bs) = findAfter needle bs := by
  rw [findAfter, if_neg fun hp => h (List.isPrefixOf_iff_prefix.mp hp)]

/-- No occurrence goes over a byte that the text looked for does not have. -/
theorem findAfter_append_cons (hne : needle ≠ []) (hc : c ∉ needle) :
    findAfter needle (as ++ c :: bs) =
      ((findAfter needle as).map (· ++ c :: bs)).or (findAfter needle bs) := by
  induction as with
  | nil =>
    have hnot : ¬ needle <+: [] ++ c :: bs := by
      rw [prefix_append_cons hc [] bs, List.prefix_nil]
      exact hne
    rw [List.nil_append] at hnot ⊢
    rw [findAfter_later hnot, findAfter, if_neg hne]
    rfl
  | cons a as ih =>
    have hiff := prefix_append_cons hc (a :: as) bs
    rw [List.cons_append] at hiff ⊢
    by_cases h : needle <+: a :: as
    · rw [findAfter_here h, findAfter_here (hiff.mpr h), ← List.cons_append,
        List.drop_append_of_le_length h.length_le]
      rfl
    · rw [findAfter_later h, findAfter_later fun hp => h (hiff.mp hp), ih]

/-- The text looked for ends at the first `c`, or stands behind it. -/
theorem findAfter_name {key name value : Bytes} (hkey : c ∉ key) (hname : c ∉ name) :
    findAfter (key ++ [c]) (name ++ c :: value) =
      if key <:+ name then some value else findAfter (key ++ [c]) value := by
  have hstart {xs : Bytes} (hxs : c ∉ xs) : key ++ [c] <+: xs ++ c :: value ↔ key = xs := by
    constructor
    · rintro ⟨t, ht⟩
      rw [List.append_assoc] at ht
      have hcut := cut_append hkey t
      rw [show key ++ c :: t = xs ++ c :: value from ht, cut_append hxs] at hcut
      exact ((Prod.mk.inj (Option.some.inj hcut)).1).symm
    · rintro rfl
      exact ⟨value, by simp⟩
  induction name with
  | nil =>
    by_cases h : key = []
    · subst h
      rw [if_pos List.suffix_rfl]
      exact findAfter_here ⟨value, rfl⟩
    · rw [if_neg fun hs => h (List.suffix_nil.mp hs)]
      exact findAfter_later fun hp => h ((hstart List.not_mem_nil).mp hp)
  | cons a name ih =>
    have hiff := hstart hname
    rw [List.cons_append] at hiff ⊢
    by_cases hk : key = a :: name
    · subst hk
      rw [if_pos List.suffix_rfl, findAfter_here (hiff.mpr rfl)]
      simp
    · rw [findAfter_later fun hp => hk (hiff.mp hp),
        ih (List.not_mem_of_not_mem_cons hname)]
      simp only [List.suffix_cons_iff, hk, false_or]

namespace Cookie

theorem findAfter_text (ck : Cookie) :
    findAfter (bytes "sessionId=") ck.text = ck.behind := by
  have hkey : bytes "sessionId=" = bytes "sessionId" ++ [61] := by decide
  rw [behind, text, hkey, findAfter_name (by decide) ck.name_clean.1]

theorem behind_of_isSessionId {ck : Cookie} (h : ck.IsSessionId) : ck.behind = some ck.value := by
  rw [behind, if_pos]
  rw [show ck.name = bytes "sessionId" from h]

theorem findAfter_suffix {rest : Bytes} (h : findAfter needle as = some rest) :
    rest <:+ as := by
  induction as with
  | nil =>
    rw [findAfter] at h
    split_ifs at h
    cases h
    exact List.suffix_rfl
  | cons a as ih =>
    rw [findAfter] at h
    split_ifs at h
    · cases h
      exact List.drop_suffix _ _
    · exact (ih h).trans (List.suffix_cons a as)

theorem not_mem_behind {ck : Cookie} {rest : Bytes} (h : ck.behind = some rest) : 59 ∉ rest := by
  rw [behind] at h
  split_ifs at h
  · cases h
    exact ck.value_clean
  · exact fun hm => ck.value_clean ((findAfter_suffix h).subset hm)

/-- `getSessionIdFromCookie` on the value of the header. -/
def sessionIdIn (cookie : Bytes) : Bytes :=
  match findAfter (bytes "sessionId=") cookie with
  | some rest =>
    match cut 59 rest with
    | some (sessionId, _) => sessionId
    | none => rest
  | none => []

/-- What a browser keeps of the header that `setSessionCookie` writes is a cookie of the name. -/
theorem cut_setSessionCookie {ck : Cookie} (h : ck.IsSessionId) (resp : HttpResponse) :
    (SessionManager.setSessionCookie ck.value resp).headers_.lookup (bytes "Set-Cookie") =
        some (ck.text ++ bytes "; Path=/; HttpOnly") ∧
      cut 59 (ck.text ++ bytes "; Path=/; HttpOnly") =
        some (ck.text, bytes " Path=/; HttpOnly") := by
  have htext : ck.text = bytes "sessionId=" ++ ck.value := by
    rw [text, show ck.name = bytes "sessionId" from h]
    rfl
  constructor
  · rw [htext]
    exact Finmap.lookup_insert _
  · refine cut_append ?_ _
    rw [htext, List.mem_append, not_or]
    exact ⟨by decide, ck.value_clean⟩

/-- The code reads what stands behind the first `sessionId=`, in whichever cookie it is. -/
theorem sessionIdIn_header (cookies : List Cookie) :
    sessionIdIn (header cookies) = (cookies.findSome? behind).getD [] := by
  induction cookies with
  | nil => rfl
  | cons ck cookies ih =>
    cases cookies with
    | nil =>
      rw [header, List.map_singleton, List.intercalate_singleton, sessionIdIn, findAfter_text,
        List.findSome?_singleton]
      cases hb : ck.behind with
      | none => rfl
      | some rest => simp only [cut_eq_none.mpr (not_mem_behind hb), Option.getD_some]
    | cons ck' cookies =>
      have hheader : header (ck :: ck' :: cookies) =
          ck.text ++ 59 :: ([] ++ 32 :: header (ck' :: cookies)) := by
        simp only [header, List.map_cons, List.intercalate_cons_cons, List.append_assoc]
        rfl
      rw [sessionIdIn, hheader, findAfter_append_cons (by decide) (by decide), findAfter_text,
        findAfter_append_cons (by decide) (by decide), List.findSome?_cons]
      cases hb : ck.behind with
      | none => exact ih
      | some rest => simp [cut_append (not_mem_behind hb)]

/-- The code and the claim part only at the first cookie with `sessionId=` in its text. -/
theorem readable_iff (cookies : List Cookie) :
    (cookies.findSome? behind).getD [] = sessionIdOf cookies ↔ Readable cookies := by
  induction cookies with
  | nil => exact iff_of_true rfl nofun
  | cons ck cookies ih =>
    cases hb : ck.behind with
    | none =>
      have hnot : ¬ ck.IsSessionId := fun h => nomatch hb.symm.trans (behind_of_isSessionId h)
      simpa only [Readable, sessionIdOf, List.findSome?_cons, List.find?_cons, hb, hnot,
        decide_false, Option.isSome_none] using ih
    | some rest =>
      have hfirst : Readable (ck :: cookies) ↔
          ck.IsSessionId ∨ rest = sessionIdOf (ck :: cookies) := by
        simp only [Readable, List.find?_cons, hb, Option.isSome_some, Option.some.injEq,
          forall_eq']
      rw [hfirst, List.findSome?_cons, hb, Option.getD_some]
      refine ⟨.inr, fun h => h.elim (fun hid => ?_) fun heq => heq⟩
      have hvalue : rest = ck.value := by
        exact Option.some.inj (hb.symm.trans (behind_of_isSessionId hid))
      simp only [sessionIdOf, List.find?_cons, hid, decide_true, hvalue, Option.map_some,
        Option.getD_some]

/-- **The session id is read** exactly where no cookie before it has `sessionId=` in its text,
or the value is the same. -/
theorem getSessionIdFromCookie_iff (req : HttpRequest) (cookies : List Cookie)
    (h : req.getHeader (bytes "Cookie") = header cookies) :
    SessionManager.getSessionIdFromCookie req = sessionIdOf cookies ↔ Readable cookies := by
  have hread : SessionManager.getSessionIdFromCookie req =
      sessionIdIn (req.getHeader (bytes "Cookie")) := rfl
  rw [hread, h, sessionIdIn_header, readable_iff]

def withCookie (cookies : List Cookie) : HttpRequest where
  headers_ := (∅ : StrMap).insert (bytes "Cookie") (header cookies)

def lang : Cookie := ⟨bytes "lang", bytes "de", by decide, by decide⟩
def visitor : Cookie := ⟨bytes "xsessionId", bytes "7", by decide, by decide⟩
def session : Cookie := ⟨bytes "sessionId", bytes "0f", by decide, by decide⟩

theorem getSessionIdFromCookie_lang :
    SessionManager.getSessionIdFromCookie (withCookie [lang, session, visitor]) = bytes "0f" :=
  (getSessionIdFromCookie_iff _ [lang, session, visitor] (by decide)).mpr
    fun c hc => .inl (by cases hc; decide)

/-- The cookie of a visitor counter, before the one of the session. -/
theorem session_lost : ¬ ∀ (req : HttpRequest) (cookies : List Cookie),
    req.getHeader (bytes "Cookie") = header cookies →
      SessionManager.getSessionIdFromCookie req = sessionIdOf cookies := by
  intro h
  exact absurd (h (withCookie [visitor, session]) [visitor, session] (by decide)) (by decide)

end Cookie
end Workplace.Http
