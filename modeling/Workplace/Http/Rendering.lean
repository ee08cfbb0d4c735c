import Workplace.Http.Grammar
import Workplace.Http.Chunking

/-! Requests as texts. A head is a request line and header lines that the parser can take apart
again; with a body behind it, the parser gives back the request that was rendered. -/

namespace Workplace.Http
open HttpContext HttpRequestParseState

/-- The lines up to the blank one, of a request with one of the known methods. -/
structure RequestHead where
  name : Bytes
  method : Method
  target : Bytes
  version : Bytes
  lines : List Bytes
  named : (name, method) ∈ methodNames
  noSpace : 32 ∉ target
  oneLine : findCRLF target = none
  versioned : version ∈ httpVersions
  notBlank : ∀ line ∈ lines, line ≠ [] ∧ findCRLF line = none

def linesText (lines : List Bytes) : Bytes := lines.flatMap (· ++ [CR, LF])

theorem linesText_cons (line : Bytes) (lines : List Bytes) (rest : Bytes) :
    linesText (line :: lines) ++ rest = line ++ CR :: LF :: (linesText lines ++ rest) := by
  simp [linesText]

namespace RequestHead

def requestLine (h : RequestHead) : Bytes := h.name ++ 32 :: (h.target ++ 32 :: h.version)

/-- With the blank line. -/
def text (h : RequestHead) : Bytes :=
  h.requestLine ++ CR :: LF :: (linesText h.lines ++ [CR, LF])

end RequestHead

/-- What a header line does to the headers. -/
def insertLine (headers : StrMap) (line : Bytes) : StrMap :=
  match cut 58 line with
  | some (field, value) => headers.insert field ((value.dropWhile isspace).rdropWhile isspace)
  | none => headers

/-! ## The rounds over a head -/

namespace HttpContext

theorem Rounds.trans {t : Timestamp} {ctx ctx₁ ctx₂ : HttpContext} {buf buf₁ buf₂ : Bytes}
    (h : Rounds t ctx buf ctx₁ buf₁) (h' : Rounds t ctx₁ buf₁ ctx₂ buf₂) :
    Rounds t ctx buf ctx₂ buf₂ := by
  induction h with
  | refl => exact h'
  | step hp _ ih => exact .step hp (ih h')

theorem take_line (line rest : Bytes) :
    (line ++ CR :: LF :: rest).take line.length = line ∧
      (line ++ CR :: LF :: rest).drop (line.length + 2) = rest := by
  refine ⟨List.take_left, ?_⟩
  rw [← List.drop_drop, List.drop_left]
  rfl

theorem rounds_line (t : Timestamp) (req : HttpRequest) {line : Bytes} (rest : Bytes)
    (hl : findCRLF line = none) (hc : 58 ∈ line) :
    Rounds t { state_ := kExpectHeaders, request_ := req } (line ++ CR :: LF :: rest)
      { state_ := kExpectHeaders
        request_ := { req with headers_ := insertLine req.headers_ line } } rest := by
  obtain ⟨field, value, hcut⟩ : ∃ field value, cut 58 line = some (field, value) := by
    rcases hcut : cut 58 line with _ | ⟨field, value⟩
    · exact absurd hc (cut_eq_none.mp hcut)
    · exact ⟨field, value, rfl⟩
  obtain ⟨htake, hdrop⟩ := take_line line rest
  have hround : Round t { state_ := kExpectHeaders, request_ := req } _ _ :=
    .header rfl (findCRLF_line hl rest) (htake.symm ▸ hcut)
  have hstep := hround.eq
  rw [hdrop] at hstep
  have hreq : req.addHeader field value =
      { req with headers_ := insertLine req.headers_ line } := by
    rw [insertLine, hcut]
    rfl
  exact .step hstep (hreq ▸ .refl _ _)

theorem rounds_lines (t : Timestamp) (req : HttpRequest) {lines : List Bytes} (rest : Bytes)
    (hl : ∀ line ∈ lines, findCRLF line = none ∧ 58 ∈ line) :
    Rounds t { state_ := kExpectHeaders, request_ := req } (linesText lines ++ rest)
      { state_ := kExpectHeaders
        request_ := { req with headers_ := lines.foldl insertLine req.headers_ } } rest := by
  induction lines generalizing req with
  | nil => exact .refl _ _
  | cons line lines ih =>
    obtain ⟨⟨hline, hcolon⟩, hlines⟩ := List.forall_mem_cons.mp hl
    rw [linesText_cons]
    exact (rounds_line t req _ hline hcolon).trans (ih _ hlines)

end HttpContext

theorem findCRLF_parts {name target version : Bytes} (hname : findCRLF name = none)
    (htarget : findCRLF target = none) (hversion : version ∈ httpVersions) :
    findCRLF (name ++ 32 :: (target ++ 32 :: version)) = none := by
  have hversions : ∀ v ∈ httpVersions, findCRLF v = none := by decide
  rw [findCRLF_between (by decide) (by decide), findCRLF_between (by decide) (by decide)]
  exact ⟨hname, htarget, hversions _ hversion⟩

namespace RequestHead

variable (h : RequestHead)

theorem findCRLF_requestLine : findCRLF h.requestLine = none := by
  have hnames : ∀ p ∈ methodNames, findCRLF p.1 = none := by decide
  exact findCRLF_parts (hnames _ h.named) h.oneLine h.versioned

/-- The request when the header lines are read. -/
def request (t : Timestamp) : HttpRequest :=
  { lineRequest h.method h.target h.version with
    headers_ := h.lines.foldl insertLine ∅, receiveTime_ := t }

theorem rounds_requestLine (t : Timestamp) (rest : Bytes) :
    Rounds t {} (h.text ++ rest) { state_ := kExpectHeaders
                                   request_ := { h.request t with headers_ := ∅ } }
      (linesText h.lines ++ CR :: LF :: rest) := by
  have htext : h.text ++ rest =
      h.requestLine ++ CR :: LF :: (linesText h.lines ++ CR :: LF :: rest) := by
    simp [text]
  obtain ⟨htake, hdrop⟩ := take_line h.requestLine (linesText h.lines ++ CR :: LF :: rest)
  have haccept := (requestLine_grammar.1 h.requestLine _).mpr
    ⟨h.name, h.method, h.target, h.version, rfl, h.named, h.noSpace, h.versioned, rfl⟩
  have hround : Round t {} _ _ :=
    .lineAccepted rfl (findCRLF_line h.findCRLF_requestLine _) (htake.symm ▸ haccept)
  have hstep := hround.eq
  rw [hdrop] at hstep
  rw [htext]
  exact .step hstep (.refl _ _)

def atBlank (t : Timestamp) : HttpContext :=
  { state_ := kExpectHeaders, request_ := h.request t }

theorem rounds (hcolon : ∀ line ∈ h.lines, 58 ∈ line) (t : Timestamp) (rest : Bytes) :
    Rounds t {} (h.text ++ rest) (h.atBlank t) (CR :: LF :: rest) :=
  (h.rounds_requestLine t rest).trans (rounds_lines t _ _ fun line hline =>
    ⟨(h.notBlank line hline).2, hcolon line hline⟩)

/-! ### Behind the blank line -/

theorem parseRequest_noBody (hcolon : ∀ line ∈ h.lines, 58 ∈ line)
    (hm : ¬ (h.method = .kPost ∨ h.method = .kPut)) (t : Timestamp) (rest : Bytes) :
    parseRequest {} (h.text ++ rest) t =
      some (.ret true { state_ := kGotAll, request_ := h.request t } rest) := by
  have hround : Round t (h.atBlank t) (CR :: LF :: rest) _ := .noBody rfl rfl hm
  exact (h.rounds hcolon t rest).parseRequest_eq (by decide) hround.eq

/-- The value that announces the body. -/
def contentLength : Bytes := StrMap.get (h.lines.foldl insertLine ∅) (bytes "Content-Length")

theorem toUInt64_natCast {n : Nat} (hn : n ≤ 2 ^ 31 - 1) : toUInt64 n = n := by
  unfold toUInt64
  omega

theorem rounds_body (hcolon : ∀ line ∈ h.lines, 58 ∈ line)
    (hm : h.method = .kPost ∨ h.method = .kPut) (hv : Numeral h.contentLength)
    (hpos : 0 < decimal h.contentLength) (hmax : decimal h.contentLength ≤ 2 ^ 31 - 1)
    (t : Timestamp) (rest : Bytes) :
    Rounds t {} (h.text ++ rest)
      { state_ := kExpectBody
        request_ := (h.request t).setContentLength (decimal h.contentLength) } rest := by
  have hlength := toUInt64_natCast hmax
  have hround : Round t (h.atBlank t) (CR :: LF :: rest) _ :=
    .bodyFollows rfl rfl hm hv.1 (hv.stoi.trans (if_neg (by omega))) (hlength.symm ▸ hpos)
  have hstep := hround.eq
  rw [hlength] at hstep
  exact (h.rounds hcolon t rest).trans (.step hstep (.refl _ _))

theorem parseRequest_body (hcolon : ∀ line ∈ h.lines, 58 ∈ line)
    (hm : h.method = .kPost ∨ h.method = .kPut) (hv : Numeral h.contentLength)
    (hmax : decimal h.contentLength ≤ 2 ^ 31 - 1) (t : Timestamp) {rest : Bytes}
    (hrest : decimal h.contentLength ≤ rest.length) :
    parseRequest {} (h.text ++ rest) t = some (.ret true
      { state_ := kGotAll
        request_ := (h.request t).withBody (decimal h.contentLength)
          (rest.take (decimal h.contentLength)) } (rest.drop (decimal h.contentLength))) := by
  rcases Nat.eq_zero_or_pos (decimal h.contentLength) with hzero | hpos
  · have hround : Round t (h.atBlank t) (CR :: LF :: rest) _ :=
      .bodyEmpty rfl rfl hm hv.1 (hv.stoi.trans (if_neg (by omega)))
        ((toUInt64_natCast hmax).trans hzero)
    rw [hzero]
    exact (h.rounds hcolon t rest).parseRequest_eq (by decide) hround.eq
  · exact (h.rounds_body hcolon hm hv hpos hmax t rest).parseRequest_eq (by decide)
      (Round.body rfl hrest).eq

theorem parseRequest_short (hcolon : ∀ line ∈ h.lines, 58 ∈ line)
    (hm : h.method = .kPost ∨ h.method = .kPut) (hv : Numeral h.contentLength)
    (hmax : decimal h.contentLength ≤ 2 ^ 31 - 1) (t : Timestamp) {rest : Bytes}
    (hrest : rest.length < decimal h.contentLength) :
    parseRequest {} (h.text ++ rest) t = some (.ret true
      { state_ := kExpectBody
        request_ := (h.request t).setContentLength (decimal h.contentLength) } rest) :=
  (h.rounds_body hcolon hm hv (by omega) hmax t rest).parseRequest_eq (by decide)
    (Round.waitBody rfl hrest).eq

end RequestHead

/-! ## Whole requests -/

structure QueryPair where
  key : Bytes
  value : Bytes
  keyPlain : 38 ∉ key ∧ 61 ∉ key ∧ 32 ∉ key ∧ findCRLF key = none
  valuePlain : 38 ∉ value ∧ 32 ∉ value ∧ findCRLF value = none

structure HeaderField where
  field : Bytes
  value : Bytes
  fieldPlain : 58 ∉ field ∧ findCRLF field = none
  oneLine : findCRLF value = none
  trimmed : (∀ b ∈ value.head?, isspace b = false) ∧ ∀ b ∈ value.getLast?, isspace b = false

/-- The parts of a request. A body stands only behind a POST or a PUT, and a Content-Length
announces it. -/
structure RequestText where
  name : Bytes
  method : Method
  path : Bytes
  query : List QueryPair
  version : Bytes
  headers : List HeaderField
  body : Bytes
  named : (name, method) ∈ methodNames
  pathPlain : 32 ∉ path ∧ 63 ∉ path ∧ findCRLF path = none
  keysDistinct : (query.map QueryPair.key).Nodup
  versioned : version ∈ httpVersions
  fieldsDistinct : (headers.map HeaderField.field).Nodup
  announced : if method = .kPost ∨ method = .kPut
    then body.length ≤ 2 ^ 31 - 1 ∧ ∃ h ∈ headers, h.field = bytes "Content-Length" ∧
      Numeral h.value ∧ decimal h.value = body.length
    else body = []

def QueryPair.text (p : QueryPair) : Bytes := p.key ++ 61 :: p.value

def HeaderField.text (h : HeaderField) : Bytes := h.field ++ 58 :: 32 :: h.value

def queryText (query : List QueryPair) : Bytes :=
  if query = [] then [] else 63 :: [38].intercalate (query.map QueryPair.text)

/-! ### What the parts are read as -/

theorem lookup_foldl_insert {α : Type} (key value : α → Bytes) {l : List α}
    (hl : (l.map key).Nodup) (m : StrMap) (k v : Bytes) :
    (l.foldl (fun m a => m.insert (key a) (value a)) m).lookup k = some v ↔
      (∃ a ∈ l, key a = k ∧ value a = v) ∨ k ∉ l.map key ∧ m.lookup k = some v := by
  induction l generalizing m with
  | nil => simp
  | cons a l ih =>
    obtain ⟨ha, hl⟩ := List.nodup_cons.mp hl
    rw [List.foldl_cons, ih hl, List.map_cons, List.mem_cons, not_or, List.exists_mem_cons_iff]
    by_cases hk : k = key a
    · subst hk
      have hnone : ¬ ∃ b ∈ l, key b = key a ∧ value b = v := fun ⟨b, hb, he, _⟩ =>
        ha (he ▸ List.mem_map_of_mem hb)
      simp [Finmap.lookup_insert, ha, hnone]
    · rw [Finmap.lookup_insert_of_ne _ hk]
      simp [hk, Ne.symm hk]

theorem QueryPair.addPair (p : QueryPair) (params : StrMap) :
    HttpRequest.addPair params p.text = params.insert p.key p.value := by
  rw [HttpRequest.addPair, text, cut_append p.keyPlain.2.1]

theorem HeaderField.trim (h : HeaderField) :
    ((32 :: h.value).dropWhile isspace).rdropWhile isspace = h.value := by
  have hfront : (32 :: h.value).dropWhile isspace = h.value := by
    rw [List.dropWhile_cons_of_pos (by decide)]
    refine List.dropWhile_eq_self_iff.mpr fun hl => ?_
    rw [Bool.not_eq_true]
    exact h.trimmed.1 _ (by rw [List.head?_eq_getElem?]; exact List.getElem?_eq_getElem hl)
  rw [hfront, List.rdropWhile_eq_self_iff]
  intro hne
  rw [Bool.not_eq_true]
  exact h.trimmed.2 _ (List.getLast?_eq_some_getLast hne)

theorem HeaderField.insertLine (h : HeaderField) (headers : StrMap) :
    insertLine headers h.text = headers.insert h.field h.value := by
  rw [Http.insertLine, text, cut_append h.fieldPlain.1]
  dsimp only
  rw [h.trim]

theorem HeaderField.text_line (h : HeaderField) :
    findCRLF h.text = none ∧ 58 ∈ h.text ∧ h.text ≠ [] := by
  refine ⟨?_, by simp [text], by simp [text]⟩
  rw [text, findCRLF_between (by decide) (by decide)]
  exact ⟨h.fieldPlain.2, findCRLF_cons_eq_none.mpr ⟨fun h => absurd h.1 (by decide), h.oneLine⟩⟩

theorem QueryPair.text_plain (p : QueryPair) :
    38 ∉ p.text ∧ 32 ∉ p.text ∧ findCRLF p.text = none := by
  obtain ⟨hk38, -, hk32, hkcr⟩ := p.keyPlain
  obtain ⟨hv38, hv32, hvcr⟩ := p.valuePlain
  refine ⟨by simp [text, hk38, hv38], by simp [text, hk32, hv32], ?_⟩
  rw [text, findCRLF_between (by decide) (by decide)]
  exact ⟨hkcr, hvcr⟩

/-- The pairs joined again by `&` keep out of the bytes that delimit the query. -/
theorem queryText_plain (query : List QueryPair) :
    32 ∉ queryText query ∧ findCRLF (queryText query) = none := by
  unfold queryText
  split_ifs with hq
  · exact ⟨List.not_mem_nil, rfl⟩
  suffices h : 32 ∉ [38].intercalate (query.map QueryPair.text) ∧
      findCRLF ([38].intercalate (query.map QueryPair.text)) = none from
    ⟨List.not_mem_cons_of_ne_of_not_mem (by decide) h.1,
      findCRLF_cons_eq_none.mpr ⟨fun h => absurd h.1 (by decide), h.2⟩⟩
  clear hq
  induction query with
  | nil => exact ⟨List.not_mem_nil, rfl⟩
  | cons p query ih =>
    obtain ⟨-, hspace, hline⟩ := p.text_plain
    cases query with
    | nil => simpa using ⟨hspace, hline⟩
    | cons p' query =>
      rw [List.map_cons, List.map_cons, List.intercalate_cons_cons] at *
      rw [List.append_assoc, List.singleton_append, findCRLF_between (by decide) (by decide)]
      exact ⟨by simpa [hspace] using ih.1, hline, ih.2⟩

theorem queryOf_queryText (query : List QueryPair) : queryOf (queryText query).tail =
    query.foldl (fun params p => params.insert p.key p.value) ∅ := by
  rw [queryOf, ← foldl_addPair, queryText]
  split_ifs with hq
  · subst hq
    rfl
  · have hpieces : ∀ l ∈ query.map QueryPair.text, (38 : UInt8) ∉ l :=
      List.forall_mem_map.mpr fun p _ => p.text_plain.1
    rw [List.tail_cons, List.splitOn_intercalate _ hpieces (by simpa using hq), List.foldl_map]
    simp only [QueryPair.addPair]

namespace RequestText

variable (r : RequestText)

def target : Bytes := r.path ++ queryText r.query

theorem target_oneLine : findCRLF r.target = none := by
  have hquery := (queryText_plain r.query).2
  unfold target
  unfold queryText at hquery ⊢
  split_ifs at hquery ⊢
  · rw [List.append_nil]
    exact r.pathPlain.2.2
  · rw [findCRLF_between (by decide) (by decide)]
    exact ⟨r.pathPlain.2.2, (findCRLF_cons_eq_none.mp hquery).2⟩

theorem target_split :
    r.target.takeWhile (· ≠ 63) = r.path ∧ r.target.dropWhile (· ≠ 63) = queryText r.query := by
  have hall : ∀ b ∈ r.path, decide (b ≠ 63) = true := fun b hb =>
    decide_eq_true fun hq => r.pathPlain.2.1 (hq ▸ hb)
  rw [target, List.takeWhile_append_of_pos hall, List.dropWhile_append_of_pos hall]
  unfold queryText
  split_ifs <;> simp

def head : RequestHead where
  name := r.name
  method := r.method
  target := r.target
  version := r.version
  lines := r.headers.map HeaderField.text
  named := r.named
  noSpace := by simp [target, r.pathPlain.1, (queryText_plain r.query).1]
  oneLine := r.target_oneLine
  versioned := r.versioned
  notBlank := List.forall_mem_map.mpr fun h _ => ⟨h.text_line.2.2, h.text_line.1⟩

def text : Bytes := r.head.text ++ r.body

theorem lookup_headers (t : Timestamp) (k v : Bytes) :
    (r.head.request t).headers_.lookup k = some v ↔ ∃ h ∈ r.headers, h.field = k ∧ h.value = v := by
  have hfold : (r.head.request t).headers_ =
      r.headers.foldl (fun m h => m.insert h.field h.value) ∅ := by
    simp only [RequestHead.request, head, List.foldl_map, HeaderField.insertLine]
  rw [hfold, lookup_foldl_insert _ _ r.fieldsDistinct]
  simp

theorem lookup_query (t : Timestamp) (k v : Bytes) :
    (r.head.request t).queryParameters_.lookup k = some v ↔
      ∃ p ∈ r.query, p.key = k ∧ p.value = v := by
  have hfold : (r.head.request t).queryParameters_ =
      r.query.foldl (fun m p => m.insert p.key p.value) ∅ := by
    rw [← queryOf_queryText, ← r.target_split.2]
    rfl
  rw [hfold, lookup_foldl_insert _ _ r.keysDistinct]
  simp

theorem contentLength_eq {h : HeaderField} (hmem : h ∈ r.headers)
    (hfield : h.field = bytes "Content-Length") : r.head.contentLength = h.value := by
  have hlookup := (r.lookup_headers 0 _ _).mpr ⟨h, hmem, hfield, rfl⟩
  exact congrArg (·.getD []) hlookup

theorem parseRequest_eq (t : Timestamp) (rest : Bytes) : ∃ n,
    parseRequest {} (r.text ++ rest) t = some (.ret true
      { state_ := kGotAll, request_ := (r.head.request t).withBody n r.body } rest) := by
  have hcolon : ∀ line ∈ r.head.lines, 58 ∈ line :=
    List.forall_mem_map.mpr fun h _ => h.text_line.2.1
  have hannounced := r.announced
  rw [text, List.append_assoc]
  split_ifs at hannounced with hm
  · obtain ⟨hmax, h, hmem, hfield, hnum, hlen⟩ := hannounced
    rw [← r.contentLength_eq hmem hfield] at hnum hlen
    have hrest : decimal r.head.contentLength ≤ (r.body ++ rest).length := by
      rw [hlen, List.length_append]
      omega
    have hparse := r.head.parseRequest_body hcolon hm hnum (hlen ▸ hmax) t hrest
    rw [hlen, List.take_left, List.drop_left] at hparse
    exact ⟨_, hparse⟩
  · refine ⟨0, ?_⟩
    rw [hannounced]
    exact r.head.parseRequest_noBody hcolon hm t rest

end RequestText

/-- **Parsing undoes rendering.** From a fresh context, whatever comes behind the request. -/
theorem parseRequest_render (r : RequestText) (rest : Bytes) (t : Timestamp) :
    ∃ req, parseRequest {} (r.text ++ rest) t =
        some (.ret true { state_ := kGotAll, request_ := req } rest) ∧
      req.method_ = r.method ∧ req.version_ = r.version ∧ req.path_ = r.path ∧
      (∀ k v, req.queryParameters_.lookup k = some v ↔
        ∃ p ∈ r.query, p.key = k ∧ p.value = v) ∧
      (∀ k v, req.headers_.lookup k = some v ↔ ∃ h ∈ r.headers, h.field = k ∧ h.value = v) ∧
      req.content_ = r.body := by
  obtain ⟨n, hparse⟩ := r.parseRequest_eq t rest
  exact ⟨_, hparse, rfl, rfl, r.target_split.1, r.lookup_query t, r.lookup_headers t, rfl⟩

example : ∃ r : RequestText, r.text =
    bytes "PUT /a?k=v&=x=y HTTP/1.0\r\nHost: h : 1\r\nContent-Length: 03\r\n\r\nb\r\n" := by
  let query : List QueryPair :=
    [⟨bytes "k", bytes "v", by decide, by decide⟩, ⟨[], bytes "x=y", by decide, by decide⟩]
  let host : HeaderField :=
    ⟨bytes "Host", bytes "h : 1", by decide, by decide, by rintro _ ⟨⟩; rfl, by rintro _ ⟨⟩; rfl⟩
  let length : HeaderField := ⟨bytes "Content-Length", bytes "03", by decide, by decide,
    by rintro _ ⟨⟩; rfl, by rintro _ ⟨⟩; rfl⟩
  refine ⟨⟨bytes "PUT", .kPut, bytes "/a", query, bytes "HTTP/1.0", [host, length], bytes "b\r\n",
    by decide, by decide, by decide, by decide, by decide, ?_⟩, ?_⟩
  · exact ⟨by decide, length, List.mem_cons_of_mem _ List.mem_cons_self, rfl, by decide, by decide⟩
  · decide

end Workplace.Http
