import Mathlib.Data.List.Basic
import Mathlib.Logic.Function.Basic
import Mathlib.Tactic

/-! Registries that hand out one object for a key. The history says which objects were given
out, and when a key was removed; an object may be made for a key that has one already. -/

namespace Workplace.Lib.Registry

inductive Event (κ α : Type) where
  | given (k : κ) (a : α)
  | removed (k : κ)
  deriving DecidableEq

variable {κ α : Type} {k : κ} {a : α} {e : Event κ α} {m : κ → Option α}
  -- the latest event first
  {history : List (Event κ α)}

/-- The object was given out for the key, which has not been removed since. -/
def Valid (history : List (Event κ α)) (k : κ) (a : α) : Prop :=
  ∃ since before, history = since ++ .given k a :: before ∧ .removed k ∉ since

/-- Two objects given out for a key, which is not removed in between, are one. -/
def OneEach (history : List (Event κ α)) : Prop :=
  ∀ k a b after since before,
    history = after ++ .given k a :: (since ++ .given k b :: before) → .removed k ∉ since → a = b

theorem oneEach_nil : OneEach ([] : List (Event κ α)) := by
  intro k a b after since before h
  simp at h

/-- The newest event is a removal, or it gives out the one object that is valid. -/
theorem oneEach_cons : OneEach (e :: history) ↔
    OneEach history ∧ ∀ k a b, e = .given k a → Valid history k b → a = b := by
  constructor
  · refine fun h => ⟨fun k a b after since before he => ?_, ?_⟩
    · exact h k a b (e :: after) since before (by rw [he]; rfl)
    · rintro k a b rfl ⟨since, before, rfl, hsince⟩
      exact h k a b [] since before rfl hsince
  · rintro ⟨hone, hnew⟩ k a b after since before he hsince
    cases after with
    | nil =>
      obtain ⟨rfl, rfl⟩ := List.cons.inj he
      exact hnew k a b rfl ⟨since, before, rfl, hsince⟩
    | cons e' after =>
      obtain ⟨rfl, rfl⟩ := List.cons.inj he
      exact hone k a b after since before rfl hsince

theorem OneEach.of_suffix {later : List (Event κ α)} (h : OneEach later)
    (hs : history <:+ later) : OneEach history := by
  obtain ⟨newer, rfl⟩ := hs
  induction newer with
  | nil => exact h
  | cons e newer ih => exact ih (oneEach_cons.mp h).1

theorem valid_given : Valid (.given k a :: history) k a := ⟨[], history, rfl, List.not_mem_nil⟩

theorem valid_cons : Valid (e :: history) k a ↔
    e = .given k a ∨ e ≠ .removed k ∧ Valid history k a := by
  constructor
  · rintro ⟨since, before, he, hsince⟩
    cases since with
    | nil => exact .inl (List.cons.inj he).1
    | cons e' since =>
      obtain ⟨rfl, rfl⟩ := List.cons.inj he
      obtain ⟨he, hsince⟩ := not_or.mp (mt List.mem_cons.mpr hsince)
      exact .inr ⟨Ne.symm he, since, before, rfl, hsince⟩
  · rintro (rfl | ⟨he, since, before, rfl, hsince⟩)
    · exact valid_given
    · refine ⟨e :: since, before, rfl, fun hmem => ?_⟩
      exact (List.mem_cons.mp hmem).elim (fun h => he h.symm) hsince

/-- The registry holds what the history says, and nothing else. -/
def Tracks (m : κ → Option α) (history : List (Event κ α)) : Prop :=
  ∀ k a, m k = some a ↔ Valid history k a

namespace Tracks

theorem empty : Tracks (fun _ => none) ([] : List (Event κ α)) := by
  intro k a
  refine iff_of_false (by simp) ?_
  rintro ⟨since, before, h, -⟩
  simp at h

theorem give (h : Tracks m history) (hk : m k = some a) :
    Tracks m (.given k a :: history) := by
  intro k' b
  rw [valid_cons, ← h]
  constructor
  · exact fun hb => .inr ⟨by simp, hb⟩
  · rintro (he | ⟨-, hb⟩)
    · obtain ⟨rfl, rfl⟩ := Event.given.inj he
      exact hk
    · exact hb

theorem oneEach_give (h : Tracks m history) (hone : OneEach history) (hk : m k = some a) :
    OneEach (.given k a :: history) := by
  refine oneEach_cons.mpr ⟨hone, fun k' a' b he hb => ?_⟩
  obtain ⟨rfl, rfl⟩ := Event.given.inj he
  exact Option.some.inj (hk.symm.trans ((h _ _).mpr hb))

theorem oneEach_make (h : Tracks m history) (hone : OneEach history) (hk : m k = none) :
    OneEach (.given k a :: history) := by
  refine oneEach_cons.mpr ⟨hone, fun k' a' b he hb => ?_⟩
  obtain ⟨rfl, rfl⟩ := Event.given.inj he
  cases hk.symm.trans ((h _ _).mpr hb)

theorem not_oneEach_replace {b : α} (h : Tracks m history) (hk : m k = some b) (hab : a ≠ b) :
    ¬ OneEach (.given k a :: history) := fun hone =>
  hab ((oneEach_cons.mp hone).2 k a b rfl ((h k b).mp hk))

variable {m' : κ → Option α}

theorem make (h : Tracks m history) (hk : m k = none) (hself : m' k = some a)
    (hother : ∀ k', k' ≠ k → m' k' = m k') : Tracks m' (.given k a :: history) := by
  intro k' b
  rw [valid_cons, ← h]
  by_cases hkk : k' = k
  · subst hkk
    rw [hself, hk]
    constructor
    · intro hb
      exact .inl (by rw [Option.some.inj hb])
    · rintro (he | ⟨-, hb⟩)
      · rw [(Event.given.inj he).2]
      · cases hb
  · rw [hother k' hkk]
    constructor
    · exact fun hb => .inr ⟨by simp, hb⟩
    · rintro (he | ⟨-, hb⟩)
      · exact absurd (Event.given.inj he).1.symm hkk
      · exact hb

theorem remove (h : Tracks m history) (hself : m' k = none)
    (hother : ∀ k', k' ≠ k → m' k' = m k') : Tracks m' (.removed k :: history) := by
  intro k' b
  rw [valid_cons, ← h]
  by_cases hkk : k' = k
  · subst hkk
    simp [hself]
  · rw [hother k' hkk]
    simp [Ne.symm hkk]

end Tracks
end Workplace.Lib.Registry
