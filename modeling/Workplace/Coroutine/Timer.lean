import Workplace.Lib.OrderedSet
import Workplace.Lib.Runs

/-! The timers of the scheduler: `Timer` and `TimerManager`. The set `m_timers` is ordered
by the deadlines alone, so two timers with one deadline cannot both be in it. -/

namespace Workplace.Coroutine
open Workplace.Lib

/-- A callback of a timer: a function as it is, or one bound to `OnTimer`. -/
inductive TimerCb (C W : Type) where
  | function (f : C)
  | onTimer (weak_cond : W) (cb : Option C)
  deriving DecidableEq, Repr

/-- `std::chrono::milliseconds(ms)` in ticks of the system clock. The count is signed. -/
def milliseconds (ms : UInt64) : Int := ms.toInt64.toInt * 1000000

structure Timer (C W : Type) where
  m_recurring : Bool := false
  m_ms : UInt64 := 0
  m_next : Int := 0
  m_cb : Option (TimerCb C W) := none

/-- The manager and the timers it has created, each known by the order of its creation. -/
structure TimerManager (C W : Type) where
  timer : Nat → Timer C W := fun _ => {}
  created : Nat := 0
  m_timers : List Nat := []
  m_tickled : Bool := false
  m_previouseTime : Int := 0
  -- how often `onTimerInsertedAtFront` was called
  insertedAtFront : Nat := 0

namespace TimerManager
variable {C W : Type}

/-! ## The source -/

def next (m : TimerManager C W) (t : Nat) : Int := (m.timer t).m_next

def set (m : TimerManager C W) (t : Nat) (x : Timer C W) : TimerManager C W :=
  { m with timer := Function.update m.timer t x }

def insert (m : TimerManager C W) (t : Nat) : TimerManager C W :=
  { m with m_timers := OrderedSet.insert m.next t m.m_timers }

def find (m : TimerManager C W) (t : Nat) : Option Nat :=
  OrderedSet.find m.next (m.next t) m.m_timers

/-- `m_timers.erase(it)` of what `find` returned. -/
def erase (m : TimerManager C W) (t : Nat) : TimerManager C W :=
  { m with m_timers := OrderedSet.erase m.next (m.next t) m.m_timers }

/-- The overload of `addTimer` that takes a timer. `insert` returns the position of the timer
with that deadline, whether it is the new one or not. -/
def addSharedTimer (m : TimerManager C W) (t : Nat) : TimerManager C W :=
  let m := m.insert t
  let at_front := m.m_timers.head?.any (fun e => m.next e = m.next t) && !m.m_tickled
  if at_front then { m with m_tickled := true, insertedAtFront := m.insertedAtFront + 1 } else m

/-- The new timer is the number `created`. -/
def addTimer (m : TimerManager C W) (ms : UInt64) (cb : Option (TimerCb C W))
    (recurring : Bool) (now : Int) : TimerManager C W :=
  let timer := { m_recurring := recurring, m_ms := ms, m_next := now + milliseconds ms, m_cb := cb }
  addSharedTimer { m.set m.created timer with created := m.created + 1 } m.created

def addConditionTimer (m : TimerManager C W) (ms : UInt64) (cb : Option C) (weak_cond : W)
    (recurring : Bool) (now : Int) : TimerManager C W :=
  m.addTimer ms (some (.onTimer weak_cond cb)) recurring now

def cancel (m : TimerManager C W) (t : Nat) : Bool × TimerManager C W :=
  if (m.timer t).m_cb.isNone then (false, m)
  else (true, (m.set t { m.timer t with m_cb := none }).erase t)

def refresh (m : TimerManager C W) (t : Nat) (now : Int) : Bool × TimerManager C W :=
  if (m.timer t).m_cb.isNone then (false, m)
  else if (m.find t).isNone then (false, m)
  else
    let timer := { m.timer t with m_next := now + milliseconds (m.timer t).m_ms }
    (true, ((m.erase t).set t timer).insert t)

/-- The first locked section of `reset`; `none` is its `return false`. -/
def resetErase (m : TimerManager C W) (t : Nat) : Option (TimerManager C W) :=
  if (m.timer t).m_cb.isNone then none
  else if (m.find t).isNone then none
  else some (m.erase t)

/-- `reset` between its two locked sections. -/
def resetKey (m : TimerManager C W) (t : Nat) (ms : UInt64) (from_now : Bool) (now : Int) :
    TimerManager C W :=
  let start := if from_now then now else m.next t - milliseconds (m.timer t).m_ms
  m.set t { m.timer t with m_ms := ms, m_next := start + milliseconds ms }

def reset (m : TimerManager C W) (t : Nat) (ms : UInt64) (from_now : Bool) (now : Int) :
    Bool × TimerManager C W :=
  if ms = (m.timer t).m_ms ∧ !from_now then (true, m)
  else match m.resetErase t with
    | none => (false, m)
    | some m' => (true, (m'.resetKey t ms from_now now).addSharedTimer t)

def getNextTimer (m : TimerManager C W) (now : Int) : UInt64 × TimerManager C W :=
  let m := { m with m_tickled := false }
  match m.m_timers.head? with
  | none => (UInt64.ofNat (2 ^ 64 - 1), m)
  | some t =>
    if m.next t ≤ now then (0, m)
    else (UInt64.ofInt (Int.tdiv (m.next t - now) 1000000), m)

def hasTimer (m : TimerManager C W) : Bool := !m.m_timers.isEmpty

def detectClockRollover (m : TimerManager C W) (now : Int) : Bool × TimerManager C W :=
  (decide (now < m.m_previouseTime - milliseconds (60 * 60 * 1000)),
    { m with m_previouseTime := now })

/-- The loop condition of `listExpiredCb`: the timer to take out next. -/
def due (m : TimerManager C W) (rollover : Bool) (now : Int) : Option Nat :=
  m.m_timers.head?.filter fun t => rollover || decide (m.next t ≤ now)

def expire (m : TimerManager C W) (now : Int) (t : Nat) : TimerManager C W :=
  let temp := m.timer t
  let m := { m with m_timers := m.m_timers.tail }
  if temp.m_recurring then
    (m.set t { temp with m_next := now + milliseconds temp.m_ms }).insert t
  else m.set t { temp with m_cb := none }

/-- The timers taken out, each with the callback that `cbs` gets. The loop need not end:
`none` when `fuel` rounds are not enough. -/
def expireLoop (rollover : Bool) (now : Int) :
    Nat → TimerManager C W → Option (List (Nat × Option (TimerCb C W)) × TimerManager C W)
  | 0, m => if (m.due rollover now).isNone then some ([], m) else none
  | fuel + 1, m =>
    match m.due rollover now with
    | none => some ([], m)
    | some t => (expireLoop rollover now fuel (m.expire now t)).map fun r =>
        ((t, (m.timer t).m_cb) :: r.1, r.2)

/-- The clock is read twice: for `now`, and again in `detectClockRollover`. -/
def listExpiredCb (fuel : Nat) (m : TimerManager C W) (now nowAgain : Int) :
    Option (List (Nat × Option (TimerCb C W)) × TimerManager C W) :=
  let (rollover, m) := m.detectClockRollover nowAgain
  expireLoop rollover now fuel m

/-! ## Putting a timer into the set -/

variable {m m' : TimerManager C W} {t u : Nat} {now : Int} {x : Timer C W}

@[simp] theorem set_timer_self : (m.set t x).timer t = x := by
  simp only [set, Function.update_self]

theorem set_timer_ne (h : u ≠ t) : (m.set t x).timer u = m.timer u := by
  simp only [set, Function.update_of_ne h]

@[simp] theorem next_set_self : (m.set t x).next t = x.m_next := by
  rw [next, set_timer_self]

theorem next_set_ne (h : u ≠ t) : (m.set t x).next u = m.next u := by
  rw [next, set_timer_ne h, next]

theorem next_set_of_eq (h : x.m_next = m.next t) : (m.set t x).next = m.next := by
  funext u
  by_cases hu : u = t
  · subst hu
    exact next_set_self.trans h
  · exact next_set_ne hu

/-- `m'` is `m` after the timer `t`, out of the set until then, became `x` and was inserted. -/
structure Placed (m : TimerManager C W) (t : Nat) (x : Timer C W) (m' : TimerManager C W) :
    Prop where
  ordered : OrderedSet.Ordered m'.next m'.m_timers
  others : ∀ u, u ≠ t → (u ∈ m'.m_timers ↔ u ∈ m.m_timers)
  self : (∀ u ∈ m.m_timers, m.next u ≠ x.m_next) → t ∈ m'.m_timers
  timer : m'.timer = Function.update m.timer t x

theorem placed_insert (h : OrderedSet.Ordered m.next m.m_timers) (ht : t ∉ m.m_timers)
    (x : Timer C W) : Placed m t x ((m.set t x).insert t) := by
  have hnext : ∀ u ∈ m.m_timers, (m.set t x).next u = m.next u := fun u hu =>
    next_set_ne fun he => ht (he ▸ hu)
  refine ⟨(h.congr hnext).insert t, fun u hu => ?_, fun hne => ?_, rfl⟩
  · exact ⟨fun hm => (OrderedSet.mem_of_mem_insert hm).resolve_left hu,
      OrderedSet.mem_insert_of_mem t⟩
  · refine (OrderedSet.mem_insert fun u hu => ?_).mpr (.inl rfl)
    rw [show (m.set t x).m_timers = m.m_timers from rfl] at hu
    rw [hnext u hu, next_set_self]
    exact hne u hu

theorem addSharedTimer_eq (m : TimerManager C W) (t : Nat) :
    (m.addSharedTimer t).m_timers = (m.insert t).m_timers ∧
      (m.addSharedTimer t).timer = m.timer ∧ (m.addSharedTimer t).created = m.created := by
  rw [addSharedTimer]
  split_ifs <;> exact ⟨rfl, rfl, rfl⟩

theorem placed_addSharedTimer (h : OrderedSet.Ordered m.next m.m_timers) (ht : t ∉ m.m_timers)
    (x : Timer C W) : Placed m t x ((m.set t x).addSharedTimer t) := by
  have hp := placed_insert h ht x
  obtain ⟨hm, htimer, -⟩ := addSharedTimer_eq (m.set t x) t
  have hnext : ((m.set t x).addSharedTimer t).next = ((m.set t x).insert t).next := by
    funext u
    exact congrArg (fun f => (f u).m_next) htimer
  refine ⟨?_, ?_, ?_, htimer⟩
  · rw [hnext, hm]
    exact hp.ordered
  · rw [hm]
    exact hp.others
  · rw [hm]
    exact hp.self

/-! ## Well-formed managers -/

/-- The set is in order, holds created timers only, and holds every timer that still has
its callback. -/
structure WellFormed (m : TimerManager C W) : Prop where
  ordered : OrderedSet.Ordered m.next m.m_timers
  created : ∀ t ∈ m.m_timers, t < m.created
  armed : ∀ t < m.created, (m.timer t).m_cb.isSome → t ∈ m.m_timers

theorem mem_erase (h : OrderedSet.Ordered m.next m.m_timers) (ht : t ∈ m.m_timers) :
    u ∈ (m.erase t).m_timers ↔ u ∈ m.m_timers ∧ u ≠ t := by
  rw [erase, OrderedSet.mem_erase h]
  refine and_congr_right fun hu => not_congr ⟨fun hk => ?_, fun he => he ▸ rfl⟩
  exact h.eq_of_key hu ht hk

theorem ordered_erase (h : OrderedSet.Ordered m.next m.m_timers) :
    OrderedSet.Ordered (m.erase t).next (m.erase t).m_timers := h.erase _

theorem WellFormed.replaced (h : WellFormed m) (ht : t ∈ m.m_timers)
    (hp : Placed (m.erase t) t x m') (hc : m'.created = m.created)
    (hx : ∀ u ∈ m.m_timers, u ≠ t → m.next u ≠ x.m_next) :
    WellFormed m' ∧ ∀ u, u ∈ m'.m_timers ↔ u ∈ m.m_timers := by
  have hself : t ∈ m'.m_timers := by
    refine hp.self fun u hu => ?_
    obtain ⟨hu, hne⟩ := (mem_erase h.ordered ht).mp hu
    exact hx u hu hne
  have hmem : ∀ u, u ∈ m'.m_timers ↔ u ∈ m.m_timers := by
    intro u
    by_cases hu : u = t
    · exact hu ▸ iff_of_true hself ht
    · rw [hp.others u hu, mem_erase h.ordered ht, and_iff_left hu]
  refine ⟨⟨hp.ordered, fun u hu => hc ▸ h.created u ((hmem u).mp hu), fun u hu hcb => ?_⟩, hmem⟩
  by_cases hut : u = t
  · exact hut ▸ hself
  · rw [hp.timer, Function.update_of_ne hut] at hcb
    exact (hmem u).mpr (h.armed u (hc ▸ hu) hcb)

/-! ## The calls on one timer -/

/-- Every timer but `t` is as it was, and in the set if it was. -/
def OthersKept (m : TimerManager C W) (t : Nat) (m' : TimerManager C W) : Prop :=
  ∀ u, u ≠ t → (u ∈ m'.m_timers ↔ u ∈ m.m_timers) ∧ m'.timer u = m.timer u

theorem OthersKept.refl (m : TimerManager C W) (t : Nat) : OthersKept m t m :=
  fun _ _ => ⟨Iff.rfl, rfl⟩

theorem Placed.othersKept (h : OrderedSet.Ordered m.next m.m_timers) (ht : t ∈ m.m_timers)
    (hp : Placed (m.erase t) t x m') : OthersKept m t m' := by
  intro u hu
  rw [hp.others u hu, mem_erase h ht, and_iff_left hu, hp.timer]
  exact ⟨Iff.rfl, Function.update_of_ne hu _ _⟩

theorem WellFormed.addTimer (h : WellFormed m) (ms : UInt64) (cb : Option (TimerCb C W))
    (recurring : Bool) (now : Int) (hx : ∀ u ∈ m.m_timers, m.next u ≠ now + milliseconds ms) :
    WellFormed (m.addTimer ms cb recurring now) ∧
      ∀ u, u ∈ (m.addTimer ms cb recurring now).m_timers ↔ u = m.created ∨ u ∈ m.m_timers := by
  have hout : m.created ∉ m.m_timers := fun hc => (h.created _ hc).ne rfl
  have hp : Placed { m with created := m.created + 1 } m.created _
      (m.addTimer ms cb recurring now) :=
    placed_addSharedTimer (m := { m with created := m.created + 1 }) h.ordered hout _
  have hc : (m.addTimer ms cb recurring now).created = m.created + 1 :=
    (addSharedTimer_eq _ _).2.2
  generalize m.addTimer ms cb recurring now = m' at hp hc
  have hmem (u : Nat) : u ∈ m'.m_timers ↔ u = m.created ∨ u ∈ m.m_timers := by
    by_cases hu : u = m.created
    · subst hu
      exact iff_of_true (hp.self hx) (.inl rfl)
    · exact (hp.others u hu).trans (or_iff_right hu).symm
  refine ⟨⟨hp.ordered, fun u hu => ?_, fun u hu hcb => ?_⟩, hmem⟩
  · rw [hc]
    rcases (hmem u).mp hu with rfl | hu
    · exact Nat.lt_succ_self _
    · exact (h.created u hu).trans (Nat.lt_succ_self _)
  · refine (hmem u).mpr ?_
    by_cases hut : u = m.created
    · exact .inl hut
    · simp only [hp.timer, Function.update_of_ne hut] at hcb
      exact .inr (h.armed u (by omega) hcb)

theorem not_isNone {o : Option (TimerCb C W)} (h : o.isSome) : ¬ o.isNone := by
  rw [Option.isNone_iff_eq_none, ← ne_eq, ← Option.isSome_iff_ne_none]
  exact h

theorem WellFormed.cancel (h : WellFormed m) (ht : t < m.created)
    (hcb : (m.timer t).m_cb.isSome) :
    (m.cancel t).1 = true ∧ WellFormed (m.cancel t).2 ∧
      (∀ u, u ∈ (m.cancel t).2.m_timers ↔ u ∈ m.m_timers ∧ u ≠ t) ∧
      OthersKept m t (m.cancel t).2 := by
  have hmem := h.armed t ht hcb
  set m₁ := m.set t { m.timer t with m_cb := none } with hm₁
  have hnext : m₁.next = m.next := next_set_of_eq rfl
  have hord : OrderedSet.Ordered m₁.next m₁.m_timers := by
    rw [hnext]
    exact h.ordered
  have heq : m.cancel t = (true, m₁.erase t) := by
    rw [TimerManager.cancel, if_neg (not_isNone hcb)]
  rw [heq]
  have hin (u : Nat) : u ∈ (m₁.erase t).m_timers ↔ u ∈ m.m_timers ∧ u ≠ t :=
    mem_erase hord hmem
  refine ⟨rfl, ⟨ordered_erase hord, fun u hu => ?_, fun u hu hcb => ?_⟩, hin, fun u hu => ?_⟩
  · exact h.created u ((hin u).mp hu).1
  · by_cases hut : u = t
    · subst hut
      simp [erase, hm₁] at hcb
    · rw [show (m₁.erase t).timer u = m.timer u from set_timer_ne hut] at hcb
      exact (hin u).mpr ⟨h.armed u hu hcb, hut⟩
  · exact ⟨(hin u).trans (and_iff_left hu), set_timer_ne hu⟩

theorem cancel_of_isNone (hcb : (m.timer t).m_cb.isNone) : m.cancel t = (false, m) := by
  rw [TimerManager.cancel, if_pos hcb]

theorem refresh_placed (h : WellFormed m) (ht : t ∈ m.m_timers)
    (hcb : (m.timer t).m_cb.isSome) (now : Int) :
    Placed (m.erase t) t { m.timer t with m_next := now + milliseconds (m.timer t).m_ms }
      (m.refresh t now).2 := by
  have hfind : m.find t = some t := OrderedSet.find_self h.ordered ht
  rw [TimerManager.refresh, if_neg (not_isNone hcb), hfind, if_neg (by simp)]
  exact placed_insert (ordered_erase h.ordered) (fun hm => ((mem_erase h.ordered ht).mp hm).2 rfl) _

def resetNext (m : TimerManager C W) (t : Nat) (ms : UInt64) (from_now : Bool) (now : Int) : Int :=
  (if from_now then now else m.next t - milliseconds (m.timer t).m_ms) + milliseconds ms

/-- `reset` asks for nothing: the period is the old one and counts from the old start. -/
def ResetIdle (m : TimerManager C W) (t : Nat) (ms : UInt64) (from_now : Bool) : Prop :=
  ms = (m.timer t).m_ms ∧ from_now = false

instance (m : TimerManager C W) (t : Nat) (ms : UInt64) (from_now : Bool) :
    Decidable (m.ResetIdle t ms from_now) := inferInstanceAs (Decidable (_ ∧ _))

theorem reset_placed (h : WellFormed m) (ht : t ∈ m.m_timers) (hcb : (m.timer t).m_cb.isSome)
    {ms : UInt64} {from_now : Bool} (hi : ¬ m.ResetIdle t ms from_now) (now : Int) :
    Placed (m.erase t) t
      { m.timer t with m_ms := ms, m_next := m.resetNext t ms from_now now }
      (m.reset t ms from_now now).2 := by
  have hfind : m.find t = some t := OrderedSet.find_self h.ordered ht
  have hi' : ¬ (ms = (m.timer t).m_ms ∧ (!from_now) = true) := by simpa [ResetIdle] using hi
  have herase : m.resetErase t = some (m.erase t) := by
    rw [resetErase, if_neg (not_isNone hcb), hfind, if_neg (by simp)]
  rw [TimerManager.reset, if_neg hi', herase]
  exact placed_addSharedTimer (ordered_erase h.ordered)
    (fun hm => ((mem_erase h.ordered ht).mp hm).2 rfl) _

theorem getNextTimer_snd (m : TimerManager C W) (now : Int) :
    (m.getNextTimer now).2 = { m with m_tickled := false } := by
  rw [getNextTimer]
  split
  · rfl
  · split_ifs <;> rfl

theorem getNextTimer_fst (ht : m.m_timers.head? = some t) (now : Int) :
    (m.getNextTimer now).1 = if m.next t ≤ now then 0
      else UInt64.ofInt (Int.tdiv (m.next t - now) 1000000) := by
  simp only [getNextTimer, ht]
  split_ifs with hdue hdue' hdue'
  · rfl
  · exact absurd hdue hdue'
  · exact absurd hdue' hdue
  · rfl

theorem reset_created (m : TimerManager C W) (t : Nat) (ms : UInt64) (from_now : Bool)
    (now : Int) : (m.reset t ms from_now now).2.created = m.created := by
  rw [TimerManager.reset, resetErase]
  split_ifs
  · rfl
  · rfl
  · rfl
  · exact (addSharedTimer_eq _ _).2.2

theorem refresh_of_isNone (hcb : (m.timer t).m_cb.isNone) (now : Int) :
    m.refresh t now = (false, m) := by
  rw [TimerManager.refresh, if_pos hcb]

theorem reset_of_isNone (hcb : (m.timer t).m_cb.isNone) (ms : UInt64) (from_now : Bool)
    (now : Int) : (m.reset t ms from_now now).2 = m := by
  rw [TimerManager.reset, resetErase, if_pos hcb]
  split_ifs <;> rfl

theorem reset_of_idle {ms : UInt64} {from_now : Bool} (hi : m.ResetIdle t ms from_now)
    (now : Int) : m.reset t ms from_now now = (true, m) := by
  rw [TimerManager.reset, if_pos ⟨hi.1, by simp [hi.2]⟩]

/-! ## The batch of expired timers -/

def renewal (m : TimerManager C W) (now : Int) (t : Nat) : Int :=
  now + milliseconds (m.timer t).m_ms

def Expires (m : TimerManager C W) (rollover : Bool) (now : Int) (t : Nat) : Prop :=
  rollover = true ∨ m.next t ≤ now

instance (m : TimerManager C W) (rollover : Bool) (now : Int) (t : Nat) :
    Decidable (m.Expires rollover now t) := inferInstanceAs (Decidable (_ ∨ _))

/-- No deadline that the batch gives to a timer is one that another timer has or gets. -/
def NoTieInBatch (m : TimerManager C W) (rollover : Bool) (now : Int) : Prop :=
  ∀ t ∈ m.m_timers, ∀ u ∈ m.m_timers, u ≠ t → m.Expires rollover now t →
    (m.timer t).m_recurring → m.next u ≠ m.renewal now t ∧
      (m.Expires rollover now u → (m.timer u).m_recurring → m.renewal now u ≠ m.renewal now t)

instance (m : TimerManager C W) (rollover : Bool) (now : Int) :
    Decidable (m.NoTieInBatch rollover now) :=
  inferInstanceAs (Decidable (∀ t ∈ m.m_timers, ∀ u ∈ m.m_timers, u ≠ t → _))

/-- The manager in the middle of the loop, seen from the manager `m₀` before it: a timer in
the set is as it was, or has been taken out and put back. -/
structure InLoop (m₀ : TimerManager C W) (rollover : Bool) (now : Int) (m : TimerManager C W) :
    Prop where
  wellFormed : WellFormed m
  created : m.created = m₀.created
  recurring : ∀ u, (m.timer u).m_recurring = (m₀.timer u).m_recurring
  timers : ∀ u ∈ m.m_timers, u ∈ m₀.m_timers ∧ (m.timer u = m₀.timer u ∨
    m₀.Expires rollover now u ∧ (m₀.timer u).m_recurring ∧
      m.timer u = { m₀.timer u with m_next := m₀.renewal now u })

theorem InLoop.refl (h : WellFormed m) (rollover : Bool) : InLoop m rollover now m :=
  ⟨h, rfl, fun _ => rfl, fun _ hu => ⟨hu, .inl rfl⟩⟩

theorem due_eq_some {rollover : Bool} (h : m.due rollover now = some t) :
    m.m_timers = t :: m.m_timers.tail ∧ m.Expires rollover now t := by
  rw [due, Option.filter_eq_some_iff] at h
  refine ⟨(List.cons_head?_tail h.1).symm, ?_⟩
  simpa [Expires] using h.2

theorem InLoop.ms {m₀ : TimerManager C W} {rollover : Bool} (h : InLoop m₀ rollover now m)
    (ht : t ∈ m.m_timers) : (m.timer t).m_ms = (m₀.timer t).m_ms := by
  rcases (h.timers t ht).2 with htimer | ⟨-, -, htimer⟩ <;> rw [htimer]

theorem InLoop.expires {m₀ : TimerManager C W} {rollover : Bool}
    (h : InLoop m₀ rollover now m) (ht : t ∈ m.m_timers) (he : m.Expires rollover now t) :
    m₀.Expires rollover now t := by
  rcases (h.timers t ht).2 with htimer | ⟨he₀, -⟩
  · rw [Expires, next, htimer] at he
    exact he
  · exact he₀

theorem InLoop.free {m₀ : TimerManager C W} {rollover : Bool} (h : InLoop m₀ rollover now m)
    (hg : NoTieInBatch m₀ rollover now) (ht : t ∈ m.m_timers)
    (he : m₀.Expires rollover now t) (hr : (m₀.timer t).m_recurring) (hu : u ∈ m.m_timers)
    (hut : u ≠ t) : m.next u ≠ m₀.renewal now t := by
  obtain ⟨hu₀, hstate⟩ := h.timers u hu
  obtain ⟨hold, hnew⟩ := hg t (h.timers t ht).1 u hu₀ hut he hr
  rcases hstate with htimer | ⟨heu, hru, htimer⟩
  · rw [next, htimer]
    exact hold
  · rw [next, htimer]
    exact hnew heu hru

theorem InLoop.renew {m₀ : TimerManager C W} {rollover : Bool} {rest : List Nat}
    (h : InLoop m₀ rollover now m) (hg : NoTieInBatch m₀ rollover now)
    (hl : m.m_timers = t :: rest) (he : m₀.Expires rollover now t)
    (hr : (m₀.timer t).m_recurring) :
    let m' := ({ m with m_timers := rest }.set t
      { m.timer t with m_next := m₀.renewal now t }).insert t
    InLoop m₀ rollover now m' ∧ ∀ u, u ∈ m'.m_timers ↔ u ∈ m.m_timers := by
  intro m'
  have ht : t ∈ m.m_timers := hl ▸ List.mem_cons_self
  have hord := h.wellFormed.ordered
  rw [hl] at hord
  have hp : Placed { m with m_timers := rest } t _ m' :=
    placed_insert (m := { m with m_timers := rest }) (OrderedSet.ordered_cons.mp hord).2
      (List.nodup_cons.mp hord.nodup).1 _
  have hmem (u : Nat) : u ∈ m'.m_timers ↔ u ∈ m.m_timers := by
    by_cases hut : u = t
    · refine hut ▸ iff_of_true (hp.self fun v hv => ?_) ht
      have hv' : v ∈ m.m_timers := hl ▸ List.mem_cons_of_mem t hv
      exact h.free hg ht he hr hv' fun hvt => (List.nodup_cons.mp hord.nodup).1 (hvt ▸ hv)
    · rw [hp.others u hut, hl, List.mem_cons, or_iff_right hut]
  have hother {u : Nat} (hut : u ≠ t) : m'.timer u = m.timer u := by
    rw [hp.timer, Function.update_of_ne hut]
  have hself : m'.timer t = { m.timer t with m_next := m₀.renewal now t } := by
    rw [hp.timer, Function.update_self]
  refine ⟨⟨⟨hp.ordered, ?_, ?_⟩, h.created, fun u => ?_, fun u hu => ?_⟩, hmem⟩
  · exact fun u hu => h.wellFormed.created u ((hmem u).mp hu)
  · intro u hlt hcb
    by_cases hut : u = t
    · exact hut ▸ (hmem t).mpr ht
    · rw [hother hut] at hcb
      exact (hmem u).mpr (h.wellFormed.armed u hlt hcb)
  · by_cases hut : u = t
    · rw [hut, hself]
      exact h.recurring t
    · rw [hother hut]
      exact h.recurring u
  · obtain ⟨hu₀, hstate⟩ := h.timers u ((hmem u).mp hu)
    refine ⟨hu₀, ?_⟩
    by_cases hut : u = t
    · subst hut
      refine .inr ⟨he, hr, ?_⟩
      rcases hstate with htimer | ⟨-, -, htimer⟩ <;> rw [hself, htimer]
    · rw [hother hut]
      exact hstate

theorem InLoop.retire {m₀ : TimerManager C W} {rollover : Bool} {rest : List Nat}
    (h : InLoop m₀ rollover now m) (hl : m.m_timers = t :: rest) :
    let m' := { m with m_timers := rest }.set t { m.timer t with m_cb := none }
    InLoop m₀ rollover now m' ∧ ∀ u, u ∈ m'.m_timers ↔ u ∈ m.m_timers ∧ u ≠ t := by
  intro m'
  have hord := h.wellFormed.ordered
  rw [hl] at hord
  have hout : t ∉ rest := (List.nodup_cons.mp hord.nodup).1
  have hmem (u : Nat) : u ∈ m'.m_timers ↔ u ∈ m.m_timers ∧ u ≠ t := by
    rw [hl, List.mem_cons, show m'.m_timers = rest from rfl]
    refine ⟨fun hu => ⟨.inr hu, fun hut => hout (hut ▸ hu)⟩, fun ⟨hu, hut⟩ => ?_⟩
    exact hu.resolve_left hut
  have hother {u : Nat} (hut : u ≠ t) : m'.timer u = m.timer u := set_timer_ne hut
  refine ⟨⟨⟨?_, ?_, ?_⟩, h.created, fun u => ?_, fun u hu => ?_⟩, hmem⟩
  · refine OrderedSet.Ordered.congr (OrderedSet.ordered_cons.mp hord).2 fun u hu => ?_
    exact congrArg Timer.m_next (hother ((hmem u).mp hu).2)
  · exact fun u hu => h.wellFormed.created u ((hmem u).mp hu).1
  · intro u hlt hcb
    by_cases hut : u = t
    · subst hut
      simp [m'] at hcb
    · rw [hother hut] at hcb
      exact (hmem u).mpr ⟨h.wellFormed.armed u hlt hcb, hut⟩
  · by_cases hut : u = t
    · subst hut
      simpa [m'] using h.recurring u
    · rw [hother hut]
      exact h.recurring u
  · obtain ⟨hu, hut⟩ := (hmem u).mp hu
    rw [hother hut]
    exact h.timers u hu

theorem InLoop.expire {m₀ : TimerManager C W} {rollover : Bool}
    (h : InLoop m₀ rollover now m) (hg : NoTieInBatch m₀ rollover now)
    (hd : m.due rollover now = some t) :
    InLoop m₀ rollover now (m.expire now t) ∧
      ∀ u, u ∈ (m.expire now t).m_timers ↔
        u ∈ m.m_timers ∧ ((m₀.timer u).m_recurring ∨ u ≠ t) := by
  obtain ⟨hl, hexp⟩ := due_eq_some hd
  have ht : t ∈ m.m_timers := hl ▸ List.mem_cons_self
  have hexp₀ := h.expires ht hexp
  by_cases hr : (m₀.timer t).m_recurring
  · obtain ⟨hin, hmem⟩ := h.renew hg hl hexp₀ hr
    have heq : m.expire now t = ({ m with m_timers := m.m_timers.tail }.set t
        { m.timer t with m_next := m₀.renewal now t }).insert t := by
      simp only [TimerManager.expire, h.recurring t, hr, if_true, renewal, h.ms ht]
    rw [heq]
    refine ⟨hin, fun u => (hmem u).trans (iff_self_and.mpr fun _ => ?_)⟩
    by_cases hut : u = t
    · exact .inl (hut ▸ hr)
    · exact .inr hut
  · obtain ⟨hin, hmem⟩ := h.retire hl
    have heq : m.expire now t =
        { m with m_timers := m.m_timers.tail }.set t { m.timer t with m_cb := none } := by
      simp only [TimerManager.expire, h.recurring t, hr, Bool.false_eq_true, if_false]
    rw [heq]
    refine ⟨hin, fun u => (hmem u).trans (and_congr_right fun _ => ?_)⟩
    exact ⟨.inr, fun hor hut => hor.elim (fun hru => hr (hut ▸ hru)) (· hut)⟩

/-- What holds of a loop that finds no timer due, and of one more round in front of a loop
that ends, holds of every loop that ends. -/
theorem expireLoop_induction {rollover : Bool}
    {P : TimerManager C W → List (Nat × Option (TimerCb C W)) → TimerManager C W → Prop}
    (stop : ∀ m, P m [] m)
    (round : ∀ m t expired m', m.due rollover now = some t → P (m.expire now t) expired m' →
      P m ((t, (m.timer t).m_cb) :: expired) m')
    {fuel : Nat} {expired : List (Nat × Option (TimerCb C W))}
    (he : m.expireLoop rollover now fuel = some (expired, m')) : P m expired m' := by
  induction fuel generalizing m expired with
  | zero =>
    rw [expireLoop] at he
    split_ifs at he
    obtain ⟨rfl, rfl⟩ := Prod.mk.inj (Option.some.inj he)
    exact stop m
  | succ fuel ih =>
    rw [expireLoop] at he
    rcases hd : m.due rollover now with _ | t
    · simp only [hd, Option.some.injEq, Prod.mk.injEq] at he
      obtain ⟨rfl, rfl⟩ := he
      exact stop m
    · simp only [hd, Option.map_eq_some_iff, Prod.mk.injEq, Prod.exists] at he
      obtain ⟨expired', m'', he, rfl, rfl⟩ := he
      exact round m t expired' m'' hd (ih he)

/-- **The batch.** When the loop ends, the timers that are gone are the one-shot timers
among those it took out. -/
theorem InLoop.expireLoop {m₀ : TimerManager C W} {rollover : Bool}
    (hg : NoTieInBatch m₀ rollover now) {fuel : Nat}
    {expired : List (Nat × Option (TimerCb C W))} (h : InLoop m₀ rollover now m)
    (he : expireLoop rollover now fuel m = some (expired, m')) :
    InLoop m₀ rollover now m' ∧ ∀ u, u ∈ m'.m_timers ↔
      u ∈ m.m_timers ∧ ((m₀.timer u).m_recurring ∨ u ∉ expired.map Prod.fst) := by
  refine expireLoop_induction (P := fun m expired m' => InLoop m₀ rollover now m →
    InLoop m₀ rollover now m' ∧ ∀ u, u ∈ m'.m_timers ↔
      u ∈ m.m_timers ∧ ((m₀.timer u).m_recurring ∨ u ∉ expired.map Prod.fst)) ?_ ?_ he h
  · exact fun m h => ⟨h, by simp⟩
  · intro m t expired m' hd ih h
    obtain ⟨hin, hmem⟩ := h.expire hg hd
    obtain ⟨hin', hmem'⟩ := ih hin
    refine ⟨hin', fun u => ?_⟩
    rw [hmem', hmem, List.map_cons, List.mem_cons]
    tauto

end TimerManager
end Workplace.Coroutine
