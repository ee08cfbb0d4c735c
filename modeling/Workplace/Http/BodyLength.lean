import Workplace.Http.Rendering

/-! The length of a body. `std::stoi` takes the number at the front of a text and does not look
at what comes behind it, so a Content-Length that is no numeral can announce a body. -/

namespace Workplace.Http
open HttpContext HttpRequestParseState

/-! ## What `std::stoi` reads -/

def signed (sign digits : Bytes) : Int :=
  if sign = [45] then -(decimal digits : Int) else decimal digits

/-- Blanks, a sign and digits, with a value in the range of an `int`; anything may follow that
does not begin with a digit. -/
inductive Scans : Bytes → Int → Prop where
  | mk {blanks sign digits tail : Bytes} (hblanks : ∀ b ∈ blanks, isspace b = true)
      (hsign : sign = [] ∨ sign = [43] ∨ sign = [45]) (hdigits : Numeral digits)
      (htail : ∀ b ∈ tail.head?, isdigit b = false)
      (hlow : -2 ^ 31 ≤ signed sign digits) (hhigh : signed sign digits ≤ 2 ^ 31 - 1) :
      Scans (blanks ++ (sign ++ (digits ++ tail))) (signed sign digits)

/-- The sign at the front, if there is one, and what is behind it. -/
def SignedText (s sign rest : Bytes) : Prop :=
  s = sign ++ rest ∧
    (sign = [43] ∨ sign = [45] ∨ sign = [] ∧ rest.head? ≠ some 43 ∧ rest.head? ≠ some 45)

theorem exists_signedText (s : Bytes) : ∃ sign rest, SignedText s sign rest := by
  by_cases hplus : s.head? = some 43
  · obtain ⟨rest, rfl⟩ := List.head?_eq_some_iff.mp hplus
    exact ⟨[43], rest, rfl, .inl rfl⟩
  by_cases hminus : s.head? = some 45
  · obtain ⟨rest, rfl⟩ := List.head?_eq_some_iff.mp hminus
    exact ⟨[45], rest, rfl, .inr (.inl rfl)⟩
  · exact ⟨[], s, rfl, .inr (.inr ⟨rfl, hplus, hminus⟩)⟩

theorem SignedText.stoi {v sign rest : Bytes} (h : SignedText (v.dropWhile isspace) sign rest) :
    stoi v =
      if rest.takeWhile isdigit = [] then .error .invalidArgument
      else if signed sign (rest.takeWhile isdigit) < -2 ^ 31 ∨
          2 ^ 31 - 1 < signed sign (rest.takeWhile isdigit) then .error .outOfRange
      else .ok (signed sign (rest.takeWhile isdigit)) := by
  obtain ⟨hs, hsign⟩ := h
  dsimp only [Http.stoi]
  rw [hs]
  obtain rfl | rfl | ⟨rfl, hplus, hminus⟩ := hsign
  · rfl
  · rfl
  · rw [List.nil_append, if_neg (not_or.mpr ⟨hminus, hplus⟩)]
    simp only [if_neg hminus]
    rfl

theorem takeWhile_isdigit {digits tail : Bytes} (hd : Numeral digits)
    (ht : ∀ b ∈ tail.head?, isdigit b = false) :
    (digits ++ tail).takeWhile isdigit = digits := by
  have htail : tail.takeWhile isdigit = [] := by
    cases tail with
    | nil => rfl
    | cons b bs => exact List.takeWhile_cons_of_neg (by simp [ht b rfl])
  rw [List.takeWhile_append_of_pos hd.2, htail, List.append_nil]

theorem dropWhile_blanks {blanks s : Bytes} (hb : ∀ b ∈ blanks, isspace b = true)
    (hs : ∀ b ∈ s.head?, isspace b = false) : (blanks ++ s).dropWhile isspace = s := by
  rw [List.dropWhile_append_of_pos hb]
  cases s with
  | nil => rfl
  | cons b bs => exact List.dropWhile_cons_of_neg (by simp [hs b rfl])

theorem Scans.stoi {v : Bytes} {n : Int} (h : Scans v n) : stoi v = .ok n := by
  obtain @⟨blanks, sign, digits, tail, hblanks, hsign, hdigits, htail, hlow, hhigh⟩ := h
  have htake := takeWhile_isdigit hdigits htail
  obtain ⟨d, hd, hhead⟩ : ∃ d, isdigit d = true ∧ (digits ++ tail).head? = some d := by
    obtain ⟨d, ds, rfl⟩ := List.exists_cons_of_ne_nil hdigits.1
    exact ⟨d, hdigits.2 d List.mem_cons_self, rfl⟩
  obtain ⟨hspace, hminus, hplus⟩ := not_special_of_isdigit hd
  have hfront : ∀ b ∈ (sign ++ (digits ++ tail)).head?, isspace b = false := by
    obtain rfl | rfl | rfl := hsign
    · simpa [hhead] using hspace
    · simp [isspace]
    · simp [isspace]
  have hsigned : SignedText (sign ++ (digits ++ tail)) sign (digits ++ tail) := by
    refine ⟨rfl, ?_⟩
    obtain rfl | rfl | rfl := hsign
    · exact .inr (.inr ⟨rfl, by simpa [hhead] using hplus, by simpa [hhead] using hminus⟩)
    · exact .inl rfl
    · exact .inr (.inl rfl)
  rw [← dropWhile_blanks hblanks hfront] at hsigned
  rw [hsigned.stoi, htake, if_neg hdigits.1, if_neg (by omega)]

theorem scans_of_stoi {v : Bytes} {n : Int} (h : stoi v = .ok n) : Scans v n := by
  obtain ⟨sign, rest, hsigned⟩ := exists_signedText (v.dropWhile isspace)
  rw [hsigned.stoi] at h
  split_ifs at h with hne hrange
  obtain rfl := Except.ok.inj h
  obtain ⟨hrest, hsign⟩ := hsigned
  have hv : v = v.takeWhile isspace ++ (sign ++
      (rest.takeWhile isdigit ++ rest.dropWhile isdigit)) := by
    rw [List.takeWhile_append_dropWhile, ← hrest, List.takeWhile_append_dropWhile]
  have hdigits : Numeral (rest.takeWhile isdigit) := ⟨hne, fun b => List.mem_takeWhile_imp⟩
  have htail : ∀ b ∈ (rest.dropWhile isdigit).head?, isdigit b = false := by
    intro b hb
    have hnot := List.head?_dropWhile_not isdigit rest
    rwa [Option.mem_def.mp hb] at hnot
  rw [hv]
  exact .mk (fun b => List.mem_takeWhile_imp) (by tauto) hdigits htail (by omega) (by omega)

/-- A number is read off the front of a text that is none. -/
def Misread (v : Bytes) : Prop := ¬ Numeral v ∧ ∃ n, Scans v n

/-! ## Heads that announce a body -/

namespace RequestHead

theorem lines_refused (t : Timestamp) (req : HttpRequest) {lines : List Bytes} (rest : Bytes)
    (hl : ∀ line ∈ lines, line ≠ [] ∧ findCRLF line = none) (hc : ∃ line ∈ lines, 58 ∉ line) :
    ∃ req' buf buf', Rounds t { state_ := kExpectHeaders, request_ := req }
        (linesText lines ++ rest) { state_ := kExpectHeaders, request_ := req' } buf ∧
      parseStep t { state_ := kExpectHeaders, request_ := req' } buf =
        .done (.ret false { state_ := kExpectHeaders, request_ := req' } buf') := by
  induction lines generalizing req with
  | nil => simp at hc
  | cons line lines ih =>
    obtain ⟨⟨hne, hline⟩, hlines⟩ := List.forall_mem_cons.mp hl
    rw [linesText_cons]
    by_cases hcolon : 58 ∈ line
    · have hc' : ∃ line ∈ lines, 58 ∉ line :=
        ((List.exists_mem_cons_iff ..).mp hc).resolve_left fun h => h hcolon
      obtain ⟨req', buf, buf', hrounds, hstep⟩ := ih _ hlines hc'
      exact ⟨req', buf, buf', (rounds_line t req _ hline hcolon).trans hrounds, hstep⟩
    · have hcut : cut 58 ((line ++ CR :: LF :: (linesText lines ++ rest)).take line.length) =
          none := (take_line _ _).1.symm ▸ cut_eq_none.mpr hcolon
      have hround : Round t { state_ := kExpectHeaders, request_ := req } _ _ :=
        .headerRefused rfl (findCRLF_line hline _) hcut
          fun h0 => hne (List.length_eq_zero_iff.mp h0)
      exact ⟨req, _, _, .refl _ _, hround.eq⟩

variable (h : RequestHead)

theorem parseRequest_colonless (hc : ∃ line ∈ h.lines, 58 ∉ line) (t : Timestamp)
    (rest : Bytes) : ∃ ctx buf, parseRequest {} (h.text ++ rest) t = some (.ret false ctx buf) ∧
      ctx.state_ = kExpectHeaders := by
  obtain ⟨req, buf, buf', hrounds, hstep⟩ := lines_refused t { h.request t with headers_ := ∅ }
    (CR :: LF :: rest) h.notBlank hc
  exact ⟨_, buf', ((h.rounds_requestLine t rest).trans hrounds).parseRequest_eq (by decide) hstep,
    rfl⟩

theorem parseRequest_refused (hcolon : ∀ line ∈ h.lines, 58 ∈ line)
    (hm : h.method = .kPost ∨ h.method = .kPut) {e : StdException}
    (hv : stoi h.contentLength = .error e) (t : Timestamp) (rest : Bytes) :
    parseRequest {} (h.text ++ rest) t = some (if h.contentLength = []
      then .ret false (h.atBlank t) rest else .throw e (h.atBlank t) (CR :: LF :: rest)) := by
  refine (h.rounds hcolon t rest).parseRequest_eq (by decide) ?_
  split_ifs with hnil
  · have hround : Round t (h.atBlank t) (CR :: LF :: rest) _ := .lengthMissing rfl rfl hm hnil
    exact hround.eq
  · have hround : Round t (h.atBlank t) (CR :: LF :: rest) _ := .lengthThrows rfl rfl hm hnil hv
    exact hround.eq

end RequestHead

def PastBlank (ctx : HttpContext) : Prop := ctx.state_ = kExpectBody ∨ ctx.state_ = kGotAll

theorem RequestHead.parseRequest_scanned (h : RequestHead) (hcolon : ∀ line ∈ h.lines, 58 ∈ line)
    (hm : h.method = .kPost ∨ h.method = .kPut) {n : Int} (hv : Scans h.contentLength n)
    (t : Timestamp) (rest : Bytes) : ∃ ctx buf,
      parseRequest {} (h.text ++ rest) t = some (.ret true ctx buf) ∧ PastBlank ctx := by
  have hrounds := h.rounds hcolon t rest
  have hne : h.contentLength ≠ [] := by
    intro hnil
    have hstoi := hv.stoi
    rw [hnil] at hstoi
    have hnone : stoi [] = .error .invalidArgument := rfl
    cases hnone.symm.trans hstoi
  rcases Nat.eq_zero_or_pos (toUInt64 n) with hzero | hpos
  · have hround : Round t (h.atBlank t) (CR :: LF :: rest) _ :=
      .bodyEmpty rfl rfl hm hne hv.stoi hzero
    exact ⟨_, _, hrounds.parseRequest_eq (by decide) hround.eq, .inr rfl⟩
  · have hround : Round t (h.atBlank t) (CR :: LF :: rest) _ :=
      .bodyFollows rfl rfl hm hne hv.stoi hpos
    have hbody := hrounds.trans (.step hround.eq (.refl _ _))
    by_cases hlen : toUInt64 n ≤ rest.length
    · exact ⟨_, _, hbody.parseRequest_eq (by decide) (Round.body rfl hlen).eq, .inr rfl⟩
    · exact ⟨_, _, hbody.parseRequest_eq (by decide)
        (Round.waitBody rfl (Nat.lt_of_not_le hlen)).eq, .inl rfl⟩

/-! ## The discipline, however the bytes arrive -/

/-- With the value `v` for the length and `rest` behind the blank line. -/
structure LengthDisciplined (v rest : Bytes) (fed : Fed) : Prop where
  numeral : PastBlank fed.context → Numeral v
  exact : PastBlank fed.context → (fed.outcome = .complete ↔ decimal v ≤ rest.length) ∧
    (fed.outcome = .complete → fed.context.request_.content_ = rest.take (decimal v))
  refused : ¬ Numeral v →
    fed.context.state_ = kExpectHeaders ∧
      (fed.outcome = .rejected ∨ ∃ e, fed.outcome = .exception e)

theorem lengthDisciplined_of_refused {v rest : Bytes} {fed : Fed}
    (hs : fed.context.state_ = kExpectHeaders)
    (ho : fed.outcome = .rejected ∨ ∃ e, fed.outcome = .exception e) :
    LengthDisciplined v rest fed := by
  have hpast : ¬ PastBlank fed.context := by simp [PastBlank, hs]
  exact ⟨fun h => absurd h hpast, fun h => absurd h hpast, fun _ => ⟨hs, ho⟩⟩

/-- What is seen of one call. -/
def Fed.ofResult : ParseResult → Fed
  | .ret true ctx buf =>
    { outcome := if ctx.gotAll then .complete else .waiting, context := ctx, unread := buf }
  | .ret false ctx buf => { outcome := .rejected, context := ctx, unread := buf }
  | .throw e ctx buf => { outcome := .exception e, context := ctx, unread := buf }
  | .abort => { outcome := .aborted }

theorem feed_one {s : Bytes} {r : ParseResult} (h : parseRequest {} s 0 = some r) :
    feed {} [] [(s, 0)] = Fed.ofResult r := by
  rw [feed, List.nil_append, h]
  rcases r with ⟨_ | _, ctx, buf⟩ | ⟨e, ctx, buf⟩ | _
  · simp [Fed.ofResult]
  · cases hg : ctx.gotAll <;> simp [feed, hg, Fed.ofResult]
  · simp [Fed.ofResult]
  · rfl

/-- One call on all the bytes decides for every way they can arrive. -/
theorem lengthDisciplined_of_parse {cs : List (Bytes × Timestamp)} {v rest s : Bytes}
    {r : ParseResult} (hs : (cs.map Prod.fst).flatten = s) (hr : parseRequest {} s 0 = some r)
    (hd : LengthDisciplined v rest (Fed.ofResult r)) :
    LengthDisciplined v rest (feed {} [] cs) := by
  have hforget : (feed {} [] cs).forgetTime = (feed {} [] [(s, 0)]).forgetTime :=
    (feed_eq_of_flatten_eq cs [(s, 0)] (by simp [hs])).1
  rw [feed_one hr] at hforget
  have hd' : LengthDisciplined v rest (feed {} [] cs).forgetTime := by
    rw [hforget]
    exact ⟨hd.numeral, hd.exact, hd.refused⟩
  exact ⟨hd'.numeral, hd'.exact, hd'.refused⟩

/-- A numeral announces its own number of bytes, or is out of range. -/
theorem RequestHead.numeral_disciplined (h : RequestHead) (hcolon : ∀ line ∈ h.lines, 58 ∈ line)
    (hm : h.method = .kPost ∨ h.method = .kPut) (hv : Numeral h.contentLength) (rest : Bytes) :
    ∃ r, parseRequest {} (h.text ++ rest) 0 = some r ∧
      LengthDisciplined h.contentLength rest (Fed.ofResult r) := by
  by_cases hmax : decimal h.contentLength ≤ 2 ^ 31 - 1
  · by_cases hrest : decimal h.contentLength ≤ rest.length
    · refine ⟨_, h.parseRequest_body hcolon hm hv hmax 0 hrest, fun _ => hv, fun _ => ?_,
        fun hnum => absurd hv hnum⟩
      exact ⟨iff_of_true rfl hrest, fun _ => rfl⟩
    · refine ⟨_, h.parseRequest_short hcolon hm hv hmax 0 (Nat.lt_of_not_le hrest), fun _ => hv,
        fun _ => ?_, fun hnum => absurd hv hnum⟩
      have hwaiting : (Outcome.waiting : Outcome) ≠ .complete := by decide
      exact ⟨iff_of_false hwaiting hrest, fun hcomplete => absurd hcomplete hwaiting⟩
  · have hstoi : stoi h.contentLength = .error .outOfRange := hv.stoi.trans (if_pos (by omega))
    have hparse := h.parseRequest_refused hcolon hm hstoi 0 rest
    rw [if_neg hv.1] at hparse
    exact ⟨_, hparse, lengthDisciplined_of_refused rfl (.inr ⟨_, rfl⟩)⟩

/-- **The length of a body is what its numeral says**, for every head but those with a value
that is misread. -/
theorem lengthDisciplined_iff (h : RequestHead) (hm : h.method = .kPost ∨ h.method = .kPut) :
    (∀ (cs : List (Bytes × Timestamp)) (rest : Bytes),
      (cs.map Prod.fst).flatten = h.text ++ rest →
        LengthDisciplined h.contentLength rest (feed {} [] cs)) ↔
      (∃ line ∈ h.lines, 58 ∉ line) ∨ ¬ Misread h.contentLength := by
  constructor
  · intro hall
    by_contra hcon
    obtain ⟨hcolon, hmisread⟩ := not_or.mp hcon
    push Not at hcolon
    obtain ⟨hnum, n, hscans⟩ := not_not.mp hmisread
    obtain ⟨ctx, buf, hparse, hpast⟩ := h.parseRequest_scanned hcolon hm hscans 0 []
    have hd := hall [(h.text ++ [], 0)] [] (by simp)
    rw [feed_one hparse] at hd
    exact hnum (hd.numeral hpast)
  · intro hcond cs rest hcs
    by_cases hcolon : ∃ line ∈ h.lines, 58 ∉ line
    · obtain ⟨ctx, buf, hparse, hstate⟩ := h.parseRequest_colonless hcolon 0 rest
      exact lengthDisciplined_of_parse hcs hparse
        (lengthDisciplined_of_refused hstate (.inl rfl))
    have hread := hcond.resolve_left hcolon
    push Not at hcolon
    by_cases hv : Numeral h.contentLength
    · obtain ⟨r, hparse, hd⟩ := h.numeral_disciplined hcolon hm hv rest
      exact lengthDisciplined_of_parse hcs hparse hd
    · rcases hstoi : stoi h.contentLength with e | n
      · have hparse := h.parseRequest_refused hcolon hm hstoi 0 rest
        refine lengthDisciplined_of_parse hcs hparse ?_
        split_ifs
        · exact lengthDisciplined_of_refused rfl (.inl rfl)
        · exact lengthDisciplined_of_refused rfl (.inr ⟨e, rfl⟩)
      · exact absurd ⟨hv, n, scans_of_stoi hstoi⟩ hread

def postHead (value : Bytes) (hvalue : findCRLF (bytes "Content-Length: " ++ value) = none) :
    RequestHead where
  name := bytes "POST"
  method := .kPost
  target := bytes "/a"
  version := bytes "HTTP/1.1"
  lines := [bytes "Content-Length: " ++ value]
  named := by decide
  noSpace := by decide
  oneLine := by decide
  versioned := http11_mem
  notBlank := by
    refine List.forall_mem_singleton.mpr ⟨?_, hvalue⟩
    exact List.append_ne_nil_of_left_ne_nil (by decide) _

/-- A numeral with zeros at its front, and one byte more than it announces. -/
theorem lengthDisciplined_iff_numeral :
    let h := postHead (bytes "007") (by decide)
    h.contentLength = bytes "007" ∧
      LengthDisciplined (bytes "007") (bytes "abcdefgh")
        (feed {} [] [(h.text ++ bytes "abc", 1), (bytes "defgh", 2)]) := by
  intro h
  have hlength : h.contentLength = bytes "007" := by decide
  have hread : ¬ Misread h.contentLength := fun hmis => hmis.1 (by rw [hlength]; decide)
  refine ⟨hlength, hlength ▸ (lengthDisciplined_iff h (.inl rfl)).mpr (.inr hread) _ _ ?_⟩
  decide

/-- A number below zero goes past the blank line, with nearly `2 ^ 64` bytes to wait for. -/
theorem length_misread :
    ¬ ∀ h : RequestHead, h.method = .kPost ∨ h.method = .kPut →
      ∀ (cs : List (Bytes × Timestamp)) (rest : Bytes),
        (cs.map Prod.fst).flatten = h.text ++ rest →
          LengthDisciplined h.contentLength rest (feed {} [] cs) := by
  intro hall
  have hd := hall (postHead (bytes "-5") (by decide)) (.inl rfl)
    [((postHead (bytes "-5") (by decide)).text, 1)] [] (by decide)
  have hnum := hd.numeral (.inl (by decide))
  revert hnum
  decide

end Workplace.Http
