import Workplace.Coroutine.Timer
import Mathlib.Data.Finset.Basic

/-! Sequences of calls on one timer manager, with any clock readings, and the timers that
are alive after them. -/

namespace Workplace.Coroutine
open Workplace.Lib

/-- The manager, and the timers that were added, not cancelled and, if one-shot, not yet
expired. -/
structure Timers (C W : Type) where
  manager : TimerManager C W := {}
  live : Finset Nat := ∅

inductive TimerOp (C W : Type) where
  | addTimer (ms : UInt64) (cb : Option (TimerCb C W)) (recurring : Bool) (now : Int)
  | addConditionTimer (ms : UInt64) (cb : Option C) (weak_cond : W) (recurring : Bool)
      (now : Int)
  | cancel (t : Nat)
  | refresh (t : Nat) (now : Int)
  | reset (t : Nat) (ms : UInt64) (from_now : Bool) (now : Int)
  | getNextTimer (now : Int)
  -- a call that ends within `fuel` rounds of its loop
  | listExpiredCb (fuel : Nat) (now nowAgain : Int)

namespace Timers
variable {C W : Type}

/-- A call on a timer that was never created is no call, and neither is a `listExpiredCb`
that does not return. -/
def step (s : Timers C W) (op : TimerOp C W) : Option (Timers C W) :=
  let m := s.manager
  match op with
  | .addTimer ms cb recurring now =>
    some { manager := m.addTimer ms cb recurring now, live := insert m.created s.live }
  | .addConditionTimer ms cb weak_cond recurring now =>
    some { manager := m.addConditionTimer ms cb weak_cond recurring now
           live := insert m.created s.live }
  | .cancel t =>
    if t < m.created then
      some { manager := (m.cancel t).2
             live := if (m.cancel t).1 then s.live.erase t else s.live }
    else none
  | .refresh t now =>
    if t < m.created then some { s with manager := (m.refresh t now).2 } else none
  | .reset t ms from_now now =>
    if t < m.created then some { s with manager := (m.reset t ms from_now now).2 } else none
  | .getNextTimer now => some { s with manager := (m.getNextTimer now).2 }
  | .listExpiredCb fuel now nowAgain =>
    (m.listExpiredCb fuel now nowAgain).map fun (expired, m') =>
      { manager := m'
        live := s.live.filter fun t =>
          (m.timer t).m_recurring ∨ t ∉ expired.map Prod.fst }

def init (m_previouseTime : Int) : Timers C W := { manager := { m_previouseTime } }

def subject : TimerOp C W → Option Nat
  | .cancel t => some t
  | .refresh t _ => some t
  | .reset t _ _ _ => some t
  | _ => none

/-- Every deadline that the call gives to a timer is one that no other timer in the set has. -/
def NoTie (s : Timers C W) (op : TimerOp C W) : Prop :=
  let m := s.manager
  match op with
  | .addTimer ms _ _ now => ∀ u ∈ m.m_timers, m.next u ≠ now + milliseconds ms
  | .addConditionTimer ms _ _ _ now => ∀ u ∈ m.m_timers, m.next u ≠ now + milliseconds ms
  | .refresh t now => (m.timer t).m_cb.isSome → ∀ u ∈ m.m_timers, u ≠ t →
      m.next u ≠ now + milliseconds (m.timer t).m_ms
  | .reset t ms from_now now => (m.timer t).m_cb.isSome → ¬ m.ResetIdle t ms from_now →
      ∀ u ∈ m.m_timers, u ≠ t → m.next u ≠ m.resetNext t ms from_now now
  | .listExpiredCb _ now nowAgain => m.NoTieInBatch (m.detectClockRollover nowAgain).1 now
  | .cancel _ => True
  | .getNextTimer _ => True

instance (s : Timers C W) : (op : TimerOp C W) → Decidable (NoTie s op)
  | .addTimer ms _ _ now =>
    inferInstanceAs (Decidable (∀ u ∈ s.manager.m_timers, _ ≠ now + milliseconds ms))
  | .addConditionTimer ms _ _ _ now =>
    inferInstanceAs (Decidable (∀ u ∈ s.manager.m_timers, _ ≠ now + milliseconds ms))
  | .refresh t now => inferInstanceAs (Decidable ((s.manager.timer t).m_cb.isSome →
      ∀ u ∈ s.manager.m_timers, u ≠ t → s.manager.next u ≠ now + milliseconds _))
  | .reset t ms from_now now => inferInstanceAs (Decidable ((s.manager.timer t).m_cb.isSome →
      ¬ s.manager.ResetIdle t ms from_now → ∀ u ∈ s.manager.m_timers, u ≠ t →
      s.manager.next u ≠ s.manager.resetNext t ms from_now now))
  | .listExpiredCb _ now nowAgain => inferInstanceAs (Decidable
      (s.manager.NoTieInBatch (s.manager.detectClockRollover nowAgain).1 now))
  | .cancel _ => isTrue trivial
  | .getNextTimer _ => isTrue trivial

/-! ## One call -/

structure Exact (s : Timers C W) : Prop where
  wellFormed : s.manager.WellFormed
  live : ∀ u, u ∈ s.manager.m_timers ↔ u ∈ s.live

variable {s s' : Timers C W} {m : TimerManager C W} {t : Nat}

theorem exact_init (prev : Int) : Exact (init prev : Timers C W) where
  wellFormed := ⟨List.Pairwise.nil, by simp [init], by simp [init]⟩
  live := by simp [init]

theorem Exact.addTimer (h : Exact s) (ms : UInt64) (cb : Option (TimerCb C W))
    (recurring : Bool) (now : Int)
    (hg : ∀ u ∈ s.manager.m_timers, s.manager.next u ≠ now + milliseconds ms) :
    Exact { manager := s.manager.addTimer ms cb recurring now
            live := insert s.manager.created s.live } := by
  obtain ⟨hw, hmem⟩ := h.wellFormed.addTimer ms cb recurring now hg
  refine ⟨hw, fun u => ?_⟩
  rw [hmem, Finset.mem_insert, h.live]

theorem Exact.cancel (h : Exact s) (ht : t < s.manager.created) :
    Exact { manager := (s.manager.cancel t).2
            live := if (s.manager.cancel t).1 then s.live.erase t else s.live } := by
  by_cases hcb : (s.manager.timer t).m_cb.isSome
  · obtain ⟨hok, hw, hmem, -⟩ := h.wellFormed.cancel ht hcb
    refine ⟨hw, fun u => ?_⟩
    rw [hmem, hok, if_pos rfl, Finset.mem_erase, h.live, and_comm]
  · rw [TimerManager.cancel_of_isNone (by simpa using hcb)]
    exact h

theorem Exact.refresh (h : Exact s) (ht : t < s.manager.created) (now : Int)
    (hg : NoTie s (.refresh t now)) :
    Exact { s with manager := (s.manager.refresh t now).2 } := by
  by_cases hcb : (s.manager.timer t).m_cb.isSome
  · have hin := h.wellFormed.armed t ht hcb
    have hp := TimerManager.refresh_placed h.wellFormed hin hcb now
    have hc : (s.manager.refresh t now).2.created = s.manager.created := by
      rw [TimerManager.refresh]
      split_ifs <;> rfl
    obtain ⟨hw, hmem⟩ := h.wellFormed.replaced hin hp hc (hg hcb)
    exact ⟨hw, fun u => (hmem u).trans (h.live u)⟩
  · rw [TimerManager.refresh_of_isNone (by simpa using hcb)]
    exact h

theorem Exact.reset (h : Exact s) (ht : t < s.manager.created) (ms : UInt64) (from_now : Bool)
    (now : Int) (hg : NoTie s (.reset t ms from_now now)) :
    Exact { s with manager := (s.manager.reset t ms from_now now).2 } := by
  by_cases hcb : (s.manager.timer t).m_cb.isSome
  · by_cases hi : s.manager.ResetIdle t ms from_now
    · rw [TimerManager.reset_of_idle hi]
      exact h
    have hin := h.wellFormed.armed t ht hcb
    have hp := TimerManager.reset_placed h.wellFormed hin hcb hi now
    have hc := TimerManager.reset_created s.manager t ms from_now now
    obtain ⟨hw, hmem⟩ := h.wellFormed.replaced hin hp hc (hg hcb hi)
    exact ⟨hw, fun u => (hmem u).trans (h.live u)⟩
  · rw [TimerManager.reset_of_isNone (by simpa using hcb)]
    exact h

theorem Exact.listExpiredCb (h : Exact s) {fuel : Nat} {now nowAgain : Int}
    {expired : List (Nat × Option (TimerCb C W))}
    (hg : NoTie s (.listExpiredCb fuel now nowAgain))
    (he : s.manager.listExpiredCb fuel now nowAgain = some (expired, m)) :
    Exact { manager := m
            live := s.live.filter fun t =>
              (s.manager.timer t).m_recurring ∨ t ∉ expired.map Prod.fst } := by
  have hw : (s.manager.detectClockRollover nowAgain).2.WellFormed :=
    ⟨h.wellFormed.ordered, h.wellFormed.created, h.wellFormed.armed⟩
  have hg' : (s.manager.detectClockRollover nowAgain).2.NoTieInBatch
      (s.manager.detectClockRollover nowAgain).1 now := hg
  obtain ⟨hin, hmem⟩ := (TimerManager.InLoop.refl hw _).expireLoop hg' he
  refine ⟨hin.wellFormed, fun u => ?_⟩
  rw [Finset.mem_filter, ← h.live]
  exact hmem u

theorem Exact.step (h : Exact s) {op : TimerOp C W} (hg : NoTie s op) (hs : s.step op = some s') :
    Exact s' := by
  cases op with
  | addTimer ms cb recurring now => exact Option.some.inj hs ▸ h.addTimer ms cb recurring now hg
  | addConditionTimer ms cb weak recurring now =>
    exact Option.some.inj hs ▸ h.addTimer ms _ recurring now hg
  | getNextTimer now =>
    obtain rfl := Option.some.inj hs
    rw [TimerManager.getNextTimer_snd]
    exact ⟨⟨h.wellFormed.ordered, h.wellFormed.created, h.wellFormed.armed⟩, h.live⟩
  | cancel t =>
    obtain ⟨ht, hs⟩ := Option.ite_none_right_eq_some.mp hs
    exact Option.some.inj hs ▸ h.cancel ht
  | refresh t now =>
    obtain ⟨ht, hs⟩ := Option.ite_none_right_eq_some.mp hs
    exact Option.some.inj hs ▸ h.refresh ht now hg
  | reset t ms from_now now =>
    obtain ⟨ht, hs⟩ := Option.ite_none_right_eq_some.mp hs
    exact Option.some.inj hs ▸ h.reset ht ms from_now now hg
  | listExpiredCb fuel now nowAgain =>
    simp only [Timers.step, Option.map_eq_some_iff, Prod.exists] at hs
    obtain ⟨expired, m, he, rfl⟩ := hs
    exact h.listExpiredCb hg he

/-- A call on one timer moves no other, whether its deadline is free or not. -/
theorem Exact.othersKept (h : Exact s) {op : TimerOp C W} (hs : s.step op = some s')
    (hop : subject op = some t) : s.manager.OthersKept t s'.manager := by
  cases op with
  | cancel t' =>
    obtain rfl := Option.some.inj hop
    obtain ⟨ht, hs⟩ := Option.ite_none_right_eq_some.mp hs
    obtain rfl := Option.some.inj hs
    by_cases hcb : (s.manager.timer t').m_cb.isSome
    · exact (h.wellFormed.cancel ht hcb).2.2.2
    · rw [TimerManager.cancel_of_isNone (by simpa using hcb)]
      exact .refl _ _
  | refresh t' now =>
    obtain rfl := Option.some.inj hop
    obtain ⟨ht, hs⟩ := Option.ite_none_right_eq_some.mp hs
    obtain rfl := Option.some.inj hs
    by_cases hcb : (s.manager.timer t').m_cb.isSome
    · have hin := h.wellFormed.armed t' ht hcb
      exact (TimerManager.refresh_placed h.wellFormed hin hcb now).othersKept
        h.wellFormed.ordered hin
    · rw [TimerManager.refresh_of_isNone (by simpa using hcb)]
      exact .refl _ _
  | reset t' ms from_now now =>
    obtain rfl := Option.some.inj hop
    obtain ⟨ht, hs⟩ := Option.ite_none_right_eq_some.mp hs
    obtain rfl := Option.some.inj hs
    by_cases hcb : (s.manager.timer t').m_cb.isSome
    · by_cases hi : s.manager.ResetIdle t' ms from_now
      · rw [TimerManager.reset_of_idle hi]
        exact .refl _ _
      have hin := h.wellFormed.armed t' ht hcb
      exact (TimerManager.reset_placed h.wellFormed hin hcb hi now).othersKept
        h.wellFormed.ordered hin
    · rw [TimerManager.reset_of_isNone (by simpa using hcb)]
      exact .refl _ _
  | addTimer => simp [subject] at hop
  | addConditionTimer => simp [subject] at hop
  | getNextTimer => simp [subject] at hop
  | listExpiredCb => simp [subject] at hop

/-! ## Runs -/

/-- **No timer is lost** in a run that gives no timer a deadline which another timer in the
set has: the set holds exactly the live timers, and a call on one of them moves no other. -/
theorem timers_exact (prev : Int) (ops : List (TimerOp C W)) (s : Timers C W)
    (hg : Guarded NoTie step (init prev) ops) (hrun : run step (init prev) ops = some s) :
    s.manager.m_timers.Nodup ∧ (∀ u, u ∈ s.manager.m_timers ↔ u ∈ s.live) ∧
      ∀ op s' t, s.step op = some s' → subject op = some t → ∀ u, u ≠ t →
        (u ∈ s'.manager.m_timers ↔ u ∈ s.manager.m_timers) ∧
          s'.manager.timer u = s.manager.timer u := by
  have h : Exact s :=
    run_invariant ops (fun hi hg hs => hi.step hg hs) (exact_init prev) hg hrun
  exact ⟨h.wellFormed.ordered.nodup, h.live, fun op s' t hs hop => h.othersKept hs hop⟩

/-- Two timers of one period, added at one reading of the clock: the second is not in the
set. -/
theorem timers_lose_tied : ¬ ∀ (prev : Int) (ops : List (TimerOp Unit Unit))
    (s : Timers Unit Unit), run step (init prev) ops = some s →
      ∀ u, u ∈ s.manager.m_timers ↔ u ∈ s.live := by
  intro h
  have hlost := h 0 [.addTimer 5 (some (.function ())) false 0,
    .addTimer 5 (some (.function ())) false 0] _ rfl 1
  revert hlost
  decide

/-- A recurring timer expires together with a one-shot timer, and another one is moved. -/
theorem timers_exact_batch :
    let ops : List (TimerOp Unit Unit) := [.addTimer 5 (some (.function ())) true 0,
      .addTimer 3 (some (.function ())) false 0, .addConditionTimer 9 none () false 1,
      .refresh 2 2, .listExpiredCb 2 5000000 5000000]
    ∃ s, run step (init 0) ops = some s ∧ Guarded NoTie step (init 0) ops ∧
      s.manager.m_timers = [2, 0] ∧ ∀ u, u ∈ s.manager.m_timers ↔ u ∈ s.live := by
  intro ops
  have hg : Guarded NoTie step (init 0) ops := by decide
  exact ⟨_, rfl, hg, by decide, (timers_exact 0 ops _ hg rfl).2.1⟩

end Timers
end Workplace.Coroutine
