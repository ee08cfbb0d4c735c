import Mathlib.Data.List.Basic
import Mathlib.Tactic

/-! Loops that consume a growing input. A turn of the loop either asks for more
input, consumes a piece and goes round again, or leaves the loop with an answer.
When the last two are decided by the input already there, cutting the input into
chunks changes nothing. -/

namespace Workplace.Lib

inductive Turn (σ ω β : Type) where
  | starve
  | more (s : σ) (rest : List β)
  | halt (out : ω) (s : σ) (rest : List β)

/-- A loop body whose decisions survive input arriving later. -/
structure Consumer (σ ω β : Type) where
  turn : σ → List β → Turn σ ω β
  more_append : ∀ {s s' b r} (x : List β),
    turn s b = .more s' r → turn s (b ++ x) = .more s' (r ++ x)
  halt_append : ∀ {s o s' b r} (x : List β),
    turn s b = .halt o s' r → turn s (b ++ x) = .halt o s' (r ++ x)
  more_shrinks : ∀ {s s' b r}, turn s b = .more s' r → r.length < b.length

namespace Consumer
variable {σ ω β : Type} (m : Consumer σ ω β)

/-- At most `n` turns; `none` when the loop starves (or the turns run out). -/
def drive : Nat → σ → List β → Option ω × σ × List β
  | 0, s, b => (none, s, b)
  | n + 1, s, b =>
    match m.turn s b with
    | .starve => (none, s, b)
    | .more s' r => drive n s' r
    | .halt o s' r => (some o, s', r)

def runLoop (s : σ) (b : List β) : Option ω × σ × List β := m.drive (b.length + 1) s b

theorem drive_fuel {n k : Nat} {s : σ} {b : List β} (hn : b.length < n) (hk : b.length < k) :
    m.drive n s b = m.drive k s b := by
  induction n generalizing k s b with
  | zero => omega
  | succ n ih =>
    cases k with
    | zero => omega
    | succ k =>
      simp only [drive]
      cases h : m.turn s b with
      | starve => rfl
      | more s' r =>
        have hr := m.more_shrinks h
        exact ih (by omega) (by omega)
      | halt o s' r => rfl

theorem runLoop_starve {s : σ} {b : List β} (h : m.turn s b = .starve) :
    m.runLoop s b = (none, s, b) := by
  simp only [runLoop, drive, h]

theorem runLoop_halt {s s' : σ} {o : ω} {b r : List β} (h : m.turn s b = .halt o s' r) :
    m.runLoop s b = (some o, s', r) := by
  simp only [runLoop, drive, h]

theorem runLoop_more {s s' : σ} {b r : List β} (h : m.turn s b = .more s' r) :
    m.runLoop s b = m.runLoop s' r := by
  have hr := m.more_shrinks h
  rw [runLoop, drive, h]
  exact m.drive_fuel hr (Nat.lt_succ_self _)

/-- The rule for facts about a whole loop: it starves, halts, or a turn is taken off. -/
theorem runLoop_induction {P : σ → List β → Prop}
    (starve : ∀ s b, m.turn s b = .starve → P s b)
    (halt : ∀ s b o s' r, m.turn s b = .halt o s' r → P s b)
    (more : ∀ s b s' r, m.turn s b = .more s' r → P s' r → P s b) (s : σ) (b : List β) :
    P s b := by
  induction hb : b.length using Nat.strongRecOn generalizing s b with
  | _ n ih =>
    cases h : m.turn s b with
    | starve => exact starve s b h
    | more s' r => exact more s b s' r h (ih r.length (hb ▸ m.more_shrinks h) s' r rfl)
    | halt o s' r => exact halt s b o s' r h

theorem runLoop_none {s s' : σ} {b r : List β} (h : m.runLoop s b = (none, s', r)) :
    m.turn s' r = .starve := by
  induction s, b using m.runLoop_induction with
  | starve s b ht =>
    rw [m.runLoop_starve ht] at h
    simp only [Prod.mk.injEq, true_and] at h
    rw [← h.1, ← h.2]
    exact ht
  | halt s b o s₁ r₁ ht => simp [m.runLoop_halt ht] at h
  | more s b s₁ r₁ ht ih => exact ih (m.runLoop_more ht ▸ h)

/-- Input that arrives late: an answer stands, a starved loop goes on where it stopped. -/
theorem runLoop_append (s : σ) (b x : List β) :
    m.runLoop s (b ++ x) =
      match m.runLoop s b with
      | (none, s', r) => m.runLoop s' (r ++ x)
      | (some o, s', r) => (some o, s', r ++ x) := by
  induction s, b using m.runLoop_induction with
  | starve s b ht => rw [m.runLoop_starve ht]
  | halt s b o s₁ r₁ ht => rw [m.runLoop_halt ht, m.runLoop_halt (m.halt_append x ht)]
  | more s b s₁ r₁ ht ih => rw [m.runLoop_more ht, m.runLoop_more (m.more_append x ht), ih]

/-- Chunk by chunk: run the loop after each one, stop at the first answer. The
last component is what the loop left followed by the chunks not yet fed. -/
def feed (s : σ) (b : List β) : List (List β) → Option ω × σ × List β
  | [] => (none, s, b)
  | c :: cs =>
    match m.runLoop s (b ++ c) with
    | (none, s', r) => feed s' r cs
    | (some o, s', r) => (some o, s', r ++ cs.flatten)

theorem feed_eq_runLoop {s : σ} {b : List β} (hb : m.turn s b = .starve) (cs : List (List β)) :
    m.feed s b cs = m.runLoop s (b ++ cs.flatten) := by
  induction cs generalizing s b with
  | nil => simp only [feed, List.flatten_nil, List.append_nil, m.runLoop_starve hb]
  | cons c cs ih =>
    rw [List.flatten_cons, ← List.append_assoc, m.runLoop_append, feed]
    rcases h : m.runLoop s (b ++ c) with ⟨_ | o, s', r⟩
    · exact ih (m.runLoop_none h)
    · rfl

end Consumer
end Workplace.Lib
