import Workplace.Gomoku.Server
import Workplace.Lib.SqlText

/-! The statements that `LoginHandler` and `RegisterHandler` put together from what the user
sends. Username and password go between the quotes as they are. -/

namespace Workplace.Gomoku
open Workplace.Http Workplace.Lib.SqlText

/-! ## The statements -/

section Statements
variable (username password : Bytes)

def queryUserSql : Bytes :=
  bytes "SELECT * FROM users WHERE username = '" ++ username ++ bytes "' AND password = '" ++
    password ++ bytes "'"

def isUserExitSql : Bytes :=
  bytes "SELECT * FROM users WHERE username = '" ++ username ++ bytes "'"

def insertSql : Bytes :=
  bytes "INSERT INTO users (username, password) VALUES ('" ++ username ++ bytes "', '" ++
    password ++ bytes "')"

def selectIdSql : Bytes :=
  bytes "SELECT id FROM users WHERE username = '" ++ username ++ bytes "'"

theorem queryUser_eq (env : Env) : queryUser env username password =
    (env.executeQuery (queryUserSql username password)).bind fun row => return row.getD (-1) := rfl

theorem isUserExit_eq (env : Env) : isUserExit env username =
    (env.executeQuery (isUserExitSql username)).bind fun row => return row.isSome := rfl

theorem insertUser_eq (env : Env) : insertUser env username password =
    (isUserExit env username).bind fun found =>
      if found then return -1
      else (env.executeUpdate (insertSql username password)).bind fun _ =>
        (env.executeQuery (selectIdSql username)).bind fun row => return row.getD (-1) := rfl

/-! ## The templates -/

def words (s : String) : List Token := (bytes s).map .byte

def queryUserTokens : List Token :=
  words "SELECT * FROM users WHERE username = " ++
    .literal username :: (words " AND password = " ++ [.literal password])

def isUserExitTokens : List Token :=
  words "SELECT * FROM users WHERE username = " ++ [.literal username]

def insertTokens : List Token :=
  words "INSERT INTO users (username, password) VALUES (" ++
    .literal username :: (words ", " ++ .literal password :: words ")")

def selectIdTokens : List Token :=
  words "SELECT id FROM users WHERE username = " ++ [.literal username]

end Statements

/-! ## How the statements are read -/

theorem plain_words : ∀ s ∈ ["SELECT * FROM users WHERE username = ", " AND password = ",
    "INSERT INTO users (username, password) VALUES (", ", ", ")",
    "SELECT id FROM users WHERE username = ", ""], Plain (bytes s) := by
  simp only [plain_iff]
  decide

section Values
variable {front between back : String} (username password : Bytes)

theorem lex_one_iff (hfront : Plain (bytes front)) :
    lex (bytes (front ++ "'") ++ username ++ bytes "'") =
        some (words front ++ [.literal username]) ↔
      Verbatim 39 username := by
  have hfill : bytes (front ++ "'") ++ username ++ bytes "'" =
      bytes front ++ fill 39 [⟨username, []⟩] := by
    have hquote : bytes "'" = [39] := rfl
    simp [bytes_append, hquote, fill]
  have hslots := lex_statement_iff (q := 39) (.inl rfl) hfront
    (List.forall_mem_singleton.mpr (by simp [Plain]) : ∀ s ∈ [Slot.mk username []], Plain s.after)
    (by simp)
  rw [List.forall_mem_singleton] at hslots
  rw [hfill, ← hslots]
  rfl

/-- A statement with two values, which a text that is not empty keeps apart. -/
theorem lex_two_iff (hfront : Plain (bytes front)) (hbetween : Plain (bytes between))
    (hback : Plain (bytes back)) (hne : bytes between ≠ []) :
    lex (bytes (front ++ "'") ++ username ++ bytes ("'" ++ between ++ "'") ++ password ++
        bytes ("'" ++ back)) =
        some (words front ++ .literal username :: (words between ++
          .literal password :: words back)) ↔
      Verbatim 39 username ∧ Verbatim 39 password := by
  let slots : List Slot := [⟨username, bytes between⟩, ⟨password, bytes back⟩]
  have hfill : bytes (front ++ "'") ++ username ++ bytes ("'" ++ between ++ "'") ++ password ++
      bytes ("'" ++ back) = bytes front ++ fill 39 slots := by
    have hquote : bytes "'" = [39] := rfl
    simp [bytes_append, hquote, slots, fill]
  have htokens : tokensOf slots = .literal username :: (words between ++
      .literal password :: words back) := by
    simp [slots, tokensOf, words]
  have hslots := lex_statement_iff (q := 39) (.inl rfl) hfront
    (List.forall_mem_cons.mpr ⟨hbetween, List.forall_mem_singleton.mpr hback⟩ :
      ∀ s ∈ slots, Plain s.after) (by simpa [slots] using hne)
  rw [List.forall_mem_cons, List.forall_mem_singleton, htokens] at hslots
  rw [hfill]
  exact hslots

end Values

/-- **Credentials stay literals.** Each statement is its template with the username, and with
the password, for its literals exactly if they have no quote, and no backslash but in front of a
wildcard. -/
theorem credentials_stay_literals_iff (username password : Bytes) :
    (lex (queryUserSql username password) = some (queryUserTokens username password) ↔
      Verbatim 39 username ∧ Verbatim 39 password) ∧
    (lex (isUserExitSql username) = some (isUserExitTokens username) ↔ Verbatim 39 username) ∧
    (lex (insertSql username password) = some (insertTokens username password) ↔
      Verbatim 39 username ∧ Verbatim 39 password) ∧
    (lex (selectIdSql username) = some (selectIdTokens username) ↔ Verbatim 39 username) := by
  have hselect := plain_words "SELECT * FROM users WHERE username = " (by simp)
  have hand := plain_words " AND password = " (by simp)
  have hinsert := plain_words "INSERT INTO users (username, password) VALUES (" (by simp)
  have hcomma := plain_words ", " (by simp)
  have hclose := plain_words ")" (by simp)
  have hid := plain_words "SELECT id FROM users WHERE username = " (by simp)
  have hnil := plain_words "" (by simp)
  have hquery := lex_two_iff username password hselect hand hnil (by decide)
  have hexit := lex_one_iff username hselect
  have hadd := lex_two_iff username password hinsert hcomma hclose (by decide)
  have hselectId := lex_one_iff username hid
  exact ⟨hquery, hexit, hadd, hselectId⟩

/-- A password that ends its literal, with a condition behind it that always holds. -/
theorem password_leaves_literal : ¬ ∀ username password : Bytes,
    lex (queryUserSql username password) = some (queryUserTokens username password) ∧
      lex (isUserExitSql username) = some (isUserExitTokens username) ∧
      lex (insertSql username password) = some (insertTokens username password) ∧
      lex (selectIdSql username) = some (selectIdTokens username) := by
  intro h
  have hlex := (h (bytes "a") (bytes "' OR '1'='1")).1
  have hquery := lex_two_iff (bytes "a") (bytes "' OR '1'='1")
    (plain_words "SELECT * FROM users WHERE username = " (by simp))
    (plain_words " AND password = " (by simp)) (plain_words "" (by simp)) (by decide)
  exact (hquery.mp hlex).2.1 (by decide)

end Workplace.Gomoku
