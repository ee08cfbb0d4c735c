import Workplace.Coroutine.Timer

/-! The timers under several threads. A call of `TimerManager` is cut where it takes and
releases the lock, and a thread may sleep on what `getNextTimer` returned to it. Only an
insertion at the front of the set is to wake the sleepers, and one flag stops all of these
but the first, until some thread asks for the next deadline again. -/

namespace Workplace.Coroutine
open Workplace.Lib

/-- Where a thread is: between two calls, or in one. -/
inductive TimerPc where
  | out
  -- before the lock of `addTimer`, with a new timer or with one that `reset` has taken out
  | adding (t : Nat)
  -- between the two locked sections of `reset`
  | resetting (t : Nat) (ms : UInt64) (from_now : Bool)
  -- after the lock of `addTimer`, about to make the call number `i` of `onTimerInsertedAtFront`
  | tickling (t i : Nat)
  -- `listExpiredCb` before the lock, with the time it has read
  | expiring (now : Int)
  -- until `wake`, on a timeout that `getNextTimer` returned after `since` insertions at the front
  | sleeping (wake : Int) (since : Nat)
  deriving DecidableEq, Repr

/-- The timer that the call is on. -/
def TimerPc.subject : TimerPc → Option Nat
  | .adding t | .resetting t _ _ | .tickling t _ => some t
  | .out | .expiring _ | .sleeping _ _ => none

/-- The timer that the call has yet to put into the set. -/
def TimerPc.outside : TimerPc → Option Nat
  | .adding t | .resetting t _ _ => some t
  | .out | .tickling _ _ | .expiring _ | .sleeping _ _ => none

structure TimerThreads (C W : Type) where
  manager : TimerManager C W
  clock : Int
  pc : Nat → TimerPc := fun _ => .out
  -- the insertions at the front, and those that `onTimerInsertedAtFront` has been called for
  decided : Nat := 0
  calls : List Nat := []

/-- A step of the thread `u`, or of the clock. -/
inductive TimerAct (C W : Type) where
  | tick (d : Nat)
  | addTimer (u : Nat) (ms : UInt64) (cb : Option (TimerCb C W)) (recurring : Bool)
  | insert (u : Nat)
  | tickle (u : Nat)
  | cancel (u t : Nat)
  | refresh (u t : Nat)
  | reset (u t : Nat) (ms : UInt64) (from_now : Bool)
  | resetKey (u : Nat)
  | readClock (u : Nat)
  | listExpiredCb (u fuel : Nat)
  | getNextTimer (u : Nat)
  | wake (u : Nat)

namespace TimerManager
variable {C W : Type} {m m' : TimerManager C W} {t x : Nat} {clock : Int}

/-- The constructor of `Timer`, in `addTimer` before the lock. -/
def create (m : TimerManager C W) (ms : UInt64) (cb : Option (TimerCb C W)) (recurring : Bool)
    (now : Int) : TimerManager C W :=
  { m.set m.created
      { m_recurring := recurring, m_ms := ms, m_next := now + milliseconds ms, m_cb := cb } with
    created := m.created + 1 }

/-- The locked section of the `addTimer` that takes a timer, with its `at_front`. -/
def insertTimer (m : TimerManager C W) (t : Nat) : Bool × TimerManager C W :=
  let m := m.insert t
  let at_front := m.m_timers.head?.any (fun e => m.next e = m.next t) && !m.m_tickled
  (at_front, if at_front then { m with m_tickled := true } else m)

def onTimerInsertedAtFront (m : TimerManager C W) : TimerManager C W :=
  { m with insertedAtFront := m.insertedAtFront + 1 }

theorem addSharedTimer_eq_insertTimer (m : TimerManager C W) (t : Nat) :
    m.addSharedTimer t = if (m.insertTimer t).1 then (m.insertTimer t).2.onTimerInsertedAtFront
      else (m.insertTimer t).2 := by
  simp only [addSharedTimer, insertTimer, onTimerInsertedAtFront]
  split_ifs <;> rfl

end TimerManager

namespace TimerThreads
variable {C W : Type} {s s' : TimerThreads C W} {u v t : Nat} {a : TimerAct C W}

/-! ## The steps -/

/-- The state that `TimerManager::TimerManager` leaves at the time `now`. -/
def init (now : Int) : TimerThreads C W :=
  { manager := { m_previouseTime := now }, clock := now }

/-- The thread `u` leaves the manager as `m` and goes on at `p`. -/
def goOn (s : TimerThreads C W) (u : Nat) (m : TimerManager C W) (p : TimerPc) :
    TimerThreads C W :=
  { s with manager := m, pc := Function.update s.pc u p }

/-- A new call, on a timer that has been created. -/
def Free (s : TimerThreads C W) (u t : Nat) : Prop := s.pc u = .out ∧ t < s.manager.created

instance (s : TimerThreads C W) (u t : Nat) : Decidable (s.Free u t) :=
  inferInstanceAs (Decidable (_ ∧ _))

def step (s : TimerThreads C W) : TimerAct C W → Option (TimerThreads C W)
  | .tick d => some { s with clock := s.clock + d }
  | .addTimer u ms cb recurring =>
    if s.pc u = .out then
      some (s.goOn u (s.manager.create ms cb recurring s.clock) (.adding s.manager.created))
    else none
  | .insert u =>
    match s.pc u with
    | .adding t =>
      let (at_front, m) := s.manager.insertTimer t
      if at_front then
        some { s.goOn u m (.tickling t s.decided) with decided := s.decided + 1 }
      else some (s.goOn u m .out)
    | _ => none
  | .tickle u =>
    match s.pc u with
    | .tickling _ i =>
      some { s.goOn u s.manager.onTimerInsertedAtFront .out with calls := s.calls ++ [i] }
    | _ => none
  | .cancel u t => if s.Free u t then some (s.goOn u (s.manager.cancel t).2 .out) else none
  | .refresh u t =>
    if s.Free u t then some (s.goOn u (s.manager.refresh t s.clock).2 .out) else none
  | .reset u t ms from_now =>
    if s.Free u t then
      if ms = (s.manager.timer t).m_ms ∧ !from_now then some (s.goOn u s.manager .out)
      else match s.manager.resetErase t with
        | none => some (s.goOn u s.manager .out)
        | some m => some (s.goOn u m (.resetting t ms from_now))
    else none
  | .resetKey u =>
    match s.pc u with
    | .resetting t ms from_now =>
      some (s.goOn u (s.manager.resetKey t ms from_now s.clock) (.adding t))
    | _ => none
  | .readClock u =>
    if s.pc u = .out then some (s.goOn u s.manager (.expiring s.clock)) else none
  | .listExpiredCb u fuel =>
    match s.pc u with
    | .expiring now =>
      (s.manager.listExpiredCb fuel now s.clock).map fun r => s.goOn u r.2 .out
    | _ => none
  | .getNextTimer u =>
    if s.pc u = .out then
      let (ms, m) := s.manager.getNextTimer s.clock
      some (s.goOn u m (.sleeping (s.clock + ms.toNat * 1000000) s.decided))
    else none
  | .wake u =>
    match s.pc u with
    | .sleeping _ _ => some (s.goOn u s.manager .out)
    | _ => none

/-! ### What a step does, with its guard -/

section Inversion

variable {ms : UInt64} {cb : Option (TimerCb C W)} {recurring from_now : Bool} {fuel : Nat}

theorem addTimer_of_step (hs : s.step (.addTimer u ms cb recurring) = some s') : s.pc u = .out ∧
    s' = s.goOn u (s.manager.create ms cb recurring s.clock) (.adding s.manager.created) := by
  simp only [step] at hs
  split_ifs at hs with hu
  exact ⟨hu, (Option.some.inj hs).symm⟩

theorem insert_of_step (hs : s.step (.insert u) = some s') : ∃ t, s.pc u = .adding t ∧
    ((s.manager.insertTimer t).1 = true ∧ s' = { s.goOn u (s.manager.insertTimer t).2
        (.tickling t s.decided) with decided := s.decided + 1 } ∨
      (s.manager.insertTimer t).1 = false ∧ s' = s.goOn u (s.manager.insertTimer t).2 .out) := by
  cases hu : s.pc u with
  | adding t =>
    simp only [step, hu] at hs
    refine ⟨t, rfl, ?_⟩
    split_ifs at hs with hfront
    · exact .inl ⟨hfront, (Option.some.inj hs).symm⟩
    · exact .inr ⟨Bool.eq_false_of_not_eq_true hfront, (Option.some.inj hs).symm⟩
  | _ => simp [step, hu] at hs

theorem tickle_of_step (hs : s.step (.tickle u) = some s') : ∃ t i, s.pc u = .tickling t i ∧
    s' = { s.goOn u s.manager.onTimerInsertedAtFront .out with calls := s.calls ++ [i] } := by
  cases hu : s.pc u with
  | tickling t i =>
    simp only [step, hu] at hs
    exact ⟨t, i, rfl, (Option.some.inj hs).symm⟩
  | _ => simp [step, hu] at hs

theorem cancel_of_step (hs : s.step (.cancel u t) = some s') :
    s.Free u t ∧ s' = s.goOn u (s.manager.cancel t).2 .out := by
  simp only [step] at hs
  split_ifs at hs with hu
  exact ⟨hu, (Option.some.inj hs).symm⟩

theorem refresh_of_step (hs : s.step (.refresh u t) = some s') :
    s.Free u t ∧ s' = s.goOn u (s.manager.refresh t s.clock).2 .out := by
  simp only [step] at hs
  split_ifs at hs with hu
  exact ⟨hu, (Option.some.inj hs).symm⟩

theorem reset_of_step (hs : s.step (.reset u t ms from_now) = some s') : s.Free u t ∧
    (s' = s.goOn u s.manager .out ∨ ∃ m, ¬ s.manager.ResetIdle t ms from_now ∧
      s.manager.resetErase t = some m ∧ s' = s.goOn u m (.resetting t ms from_now)) := by
  simp only [step] at hs
  split_ifs at hs with hu hidle
  · exact ⟨hu, .inl (Option.some.inj hs).symm⟩
  · refine ⟨hu, ?_⟩
    cases hr : s.manager.resetErase t with
    | none =>
      simp only [hr] at hs
      exact .inl (Option.some.inj hs).symm
    | some m =>
      simp only [hr] at hs
      have hresets : ¬ s.manager.ResetIdle t ms from_now := by
        simpa [TimerManager.ResetIdle] using hidle
      exact .inr ⟨m, hresets, rfl, (Option.some.inj hs).symm⟩

theorem resetKey_of_step (hs : s.step (.resetKey u) = some s') : ∃ t ms from_now,
    s.pc u = .resetting t ms from_now ∧
      s' = s.goOn u (s.manager.resetKey t ms from_now s.clock) (.adding t) := by
  cases hu : s.pc u with
  | resetting t ms from_now =>
    simp only [step, hu] at hs
    exact ⟨t, ms, from_now, rfl, (Option.some.inj hs).symm⟩
  | _ => simp [step, hu] at hs

theorem readClock_of_step (hs : s.step (.readClock u) = some s') :
    s.pc u = .out ∧ s' = s.goOn u s.manager (.expiring s.clock) := by
  simp only [step] at hs
  split_ifs at hs with hu
  exact ⟨hu, (Option.some.inj hs).symm⟩

theorem listExpiredCb_of_step (hs : s.step (.listExpiredCb u fuel) = some s') :
    ∃ now expired m, s.pc u = .expiring now ∧
      s.manager.listExpiredCb fuel now s.clock = some (expired, m) ∧ s' = s.goOn u m .out := by
  cases hu : s.pc u with
  | expiring now =>
    simp only [step, hu, Option.map_eq_some_iff] at hs
    obtain ⟨⟨expired, m⟩, he, rfl⟩ := hs
    exact ⟨now, expired, m, rfl, he, rfl⟩
  | _ => simp [step, hu] at hs

theorem getNextTimer_of_step (hs : s.step (.getNextTimer u) = some s') : s.pc u = .out ∧
    s' = s.goOn u (s.manager.getNextTimer s.clock).2
      (.sleeping (s.clock + (s.manager.getNextTimer s.clock).1.toNat * 1000000) s.decided) := by
  simp only [step] at hs
  split_ifs at hs with hu
  exact ⟨hu, (Option.some.inj hs).symm⟩

theorem wake_of_step (hs : s.step (.wake u) = some s') : ∃ wake since,
    s.pc u = .sleeping wake since ∧ s' = s.goOn u s.manager .out := by
  cases hu : s.pc u with
  | sleeping wake since =>
    simp only [step, hu] at hs
    exact ⟨wake, since, rfl, (Option.some.inj hs).symm⟩
  | _ => simp [step, hu] at hs

end Inversion

/-- No call on the timer is under way when one begins. -/
def NoOverlap (s : TimerThreads C W) : TimerAct C W → Prop
  | .cancel _ t | .refresh _ t | .reset _ t _ _ => ∀ v, (s.pc v).subject ≠ some t
  | _ => True

/-! ## A call with no other thread in between -/

theorem run_insert (hu : s.pc u = .adding t) : ∃ acts s', (acts = [] ∨ acts = [.tickle u]) ∧
    run step s (.insert u :: acts) = some s' ∧ s'.manager = s.manager.addSharedTimer t ∧
      s'.pc = Function.update s.pc u .out := by
  rw [TimerManager.addSharedTimer_eq_insertTimer]
  cases hfront : (s.manager.insertTimer t).1 with
  | false =>
    refine ⟨[], s.goOn u (s.manager.insertTimer t).2 .out, .inl rfl, ?_, rfl, rfl⟩
    simp [run, step, hu, hfront]
  | true =>
    refine ⟨[.tickle u], { s.goOn u (s.manager.insertTimer t).2.onTimerInsertedAtFront .out with
      decided := s.decided + 1, calls := s.calls ++ [s.decided] }, .inr rfl, ?_, rfl, rfl⟩
    simp [run, step, hu, hfront, goOn]

/-- Undisturbed, the steps of `addTimer` are those of the sequential model. -/
theorem run_addTimer (hu : s.pc u = .out) (ms : UInt64) (cb : Option (TimerCb C W))
    (recurring : Bool) : ∃ acts s', (acts = [] ∨ acts = [.tickle u]) ∧
      run step s (.addTimer u ms cb recurring :: .insert u :: acts) = some s' ∧
      s'.manager = s.manager.addTimer ms cb recurring s.clock ∧ s'.pc = s.pc := by
  have hstep : s.step (.addTimer u ms cb recurring) = some
      (s.goOn u (s.manager.create ms cb recurring s.clock) (.adding s.manager.created)) := by
    rw [step, if_pos hu]
  obtain ⟨acts, s', hacts, hrun, hm, hpc⟩ := run_insert
    (s := s.goOn u (s.manager.create ms cb recurring s.clock) (.adding s.manager.created))
    (Function.update_self ..)
  refine ⟨acts, s', hacts, ?_, hm, ?_⟩
  · rw [run, hstep]
    exact hrun
  · rw [hpc, goOn, Function.update_idem, ← hu, Function.update_eq_self]

theorem run_reset (h : s.Free u t) (ms : UInt64) (from_now : Bool) : ∃ acts s',
    run step s (.reset u t ms from_now :: acts) = some s' ∧
      (acts = [] ∨ acts = [.resetKey u, .insert u] ∨ acts = [.resetKey u, .insert u, .tickle u]) ∧
      s'.manager = (s.manager.reset t ms from_now s.clock).2 ∧ s'.pc = s.pc := by
  have hsame : Function.update s.pc u .out = s.pc := by rw [← h.1, Function.update_eq_self]
  by_cases hidle : ms = (s.manager.timer t).m_ms ∧ (!from_now) = true
  · refine ⟨[], s.goOn u s.manager .out, by simp [run, step, h, hidle], .inl rfl, ?_, hsame⟩
    rw [TimerManager.reset, if_pos hidle]
    rfl
  · rw [TimerManager.reset, if_neg hidle]
    cases hr : s.manager.resetErase t with
    | none =>
      exact ⟨[], s.goOn u s.manager .out, by simp [run, step, h, hr], .inl rfl, rfl, hsame⟩
    | some m =>
      have hreset : s.step (.reset u t ms from_now) =
          some (s.goOn u m (.resetting t ms from_now)) := by
        simp only [step, if_pos h, if_neg hidle, hr]
      have hkey : (s.goOn u m (.resetting t ms from_now)).step (.resetKey u) =
          some (s.goOn u (m.resetKey t ms from_now s.clock) (.adding t)) := by
        simp [step, goOn]
      obtain ⟨acts, s', hacts, hrun, hm, hpc⟩ := run_insert
        (s := s.goOn u (m.resetKey t ms from_now s.clock) (.adding t)) (Function.update_self ..)
      refine ⟨.resetKey u :: .insert u :: acts, s', ?_, .inr ?_, hm, ?_⟩
      · rw [run, hreset, Option.bind_some, run, hkey]
        exact hrun
      · rcases hacts with rfl | rfl
        · exact .inl rfl
        · exact .inr rfl
      · rw [hpc, goOn, Function.update_idem, hsame]

end TimerThreads

namespace TimerManager
variable {C W : Type} {m m' : TimerManager C W} {t x : Nat} {clock now : Int}

/-! ## What the locked sections leave -/

/-- The set is in order and holds created timers; no timer counts from an instant that is
still to come, and neither does the check for a rollover. -/
structure Tidy (m : TimerManager C W) (clock : Int) : Prop where
  ordered : OrderedSet.Ordered m.next m.m_timers
  created : ∀ t ∈ m.m_timers, t < m.created
  started : ∀ t < m.created, m.next t - milliseconds (m.timer t).m_ms ≤ clock
  previous : m.m_previouseTime ≤ clock

/-- The earliest deadline of `m'` is not before that of `m`, both taken from `clock` on. -/
def NoSooner (clock : Int) (m m' : TimerManager C W) : Prop :=
  ∀ x ∈ m'.m_timers, ∃ y ∈ m.m_timers, max clock (m.next y) ≤ max clock (m'.next x)

/-- `m'` is what a locked section makes of `m`: the timers `new` at most come into the set. -/
structure Keeps (clock : Int) (new : Set Nat) (m m' : TimerManager C W) : Prop where
  tidy : m'.Tidy clock
  created : m.created ≤ m'.created
  members : ∀ x ∈ m'.m_timers, x ∈ m.m_timers ∨ x ∈ new

/-- The section wakes no thread, and has no need to. -/
structure Quiet (clock : Int) (new : Set Nat) (m m' : TimerManager C W) : Prop
    extends Keeps clock new m m' where
  m_tickled : m'.m_tickled = m.m_tickled
  deadline : m.m_tickled = true ∨ NoSooner clock m m'

theorem NoSooner.of_subset (hs : m'.m_timers ⊆ m.m_timers)
    (hn : ∀ x ∈ m'.m_timers, m'.next x = m.next x) : NoSooner clock m m' := by
  intro x hx
  exact ⟨x, hs hx, (congrArg (max clock) (hn x hx)).ge⟩

theorem NoSooner.trans {m'' : TimerManager C W} (h : NoSooner clock m m')
    (h' : NoSooner clock m' m'') : NoSooner clock m m'' := by
  intro x hx
  obtain ⟨y, hy, hyx⟩ := h' x hx
  obtain ⟨z, hz, hzy⟩ := h y hy
  exact ⟨z, hz, hzy.trans hyx⟩

/-- A section that changes the deadline of no timer in the set. -/
theorem Quiet.of_subset {new : Set Nat} (h : m'.Tidy clock) (hc : m.created ≤ m'.created)
    (ht : m'.m_tickled = m.m_tickled) (hs : m'.m_timers ⊆ m.m_timers)
    (hn : ∀ x ∈ m'.m_timers, m'.next x = m.next x) : Quiet clock new m m' :=
  ⟨⟨h, hc, fun _ hx => .inl (hs hx)⟩, ht, .inr (.of_subset hs hn)⟩

theorem Quiet.refl {new : Set Nat} (h : m.Tidy clock) : Quiet clock new m m :=
  .of_subset h (le_refl _) rfl (List.Subset.refl _) fun _ _ => rfl

theorem Quiet.trans {new : Set Nat} {m'' : TimerManager C W} (h : Quiet clock new m m')
    (h' : Quiet clock new m' m'') : Quiet clock new m m'' := by
  refine ⟨⟨h'.tidy, h.created.trans h'.created, fun x hx => ?_⟩, h'.m_tickled.trans h.m_tickled, ?_⟩
  · exact (h'.members x hx).elim (h.members x) .inr
  · rcases h.deadline with ht | hns
    · exact .inl ht
    · exact h'.deadline.imp (fun ht => h.m_tickled ▸ ht) hns.trans

theorem Keeps.mono {new new' : Set Nat} (h : Keeps clock new m m') (hn : new ⊆ new') :
    Keeps clock new' m m' :=
  { h with members := fun x hx => (h.members x hx).imp_right fun hx => hn hx }

theorem Quiet.mono {new new' : Set Nat} (h : Quiet clock new m m') (hn : new ⊆ new') :
    Quiet clock new' m m' := ⟨h.toKeeps.mono hn, h.m_tickled, h.deadline⟩

theorem Tidy.mono (h : m.Tidy clock) {clock' : Int} (hle : clock ≤ clock') : m.Tidy clock' :=
  ⟨h.ordered, h.created, fun t ht => (h.started t ht).trans hle, h.previous.trans hle⟩

theorem Tidy.set (h : m.Tidy clock) {y : Timer C W} (hy : y.m_next - milliseconds y.m_ms ≤ clock)
    (ht : t ∈ m.m_timers → y.m_next = m.next t) : (m.set t y).Tidy clock := by
  refine ⟨h.ordered.congr fun x hx => ?_, h.created, fun x hx => ?_, h.previous⟩
  · by_cases hxt : x = t
    · subst hxt
      exact next_set_self.trans (ht hx)
    · exact next_set_ne hxt
  · by_cases hxt : x = t
    · subst hxt
      rw [next_set_self, set_timer_self]
      exact hy
    · rw [next_set_ne hxt, set_timer_ne hxt]
      exact h.started x hx

theorem Tidy.insert (h : m.Tidy clock) (ht : t < m.created) : (m.insert t).Tidy clock := by
  refine ⟨h.ordered.insert t, fun x hx => ?_, h.started, h.previous⟩
  rcases OrderedSet.mem_of_mem_insert hx with rfl | hx
  · exact ht
  · exact h.created x hx

theorem erase_subset (m : TimerManager C W) (t : Nat) : (m.erase t).m_timers ⊆ m.m_timers :=
  (OrderedSet.erase_sublist _ _).subset

theorem Tidy.erase (h : m.Tidy clock) (t : Nat) : (m.erase t).Tidy clock :=
  ⟨h.ordered.erase _, fun x hx => h.created x (erase_subset m t hx), h.started, h.previous⟩

theorem Tidy.not_mem_erase (h : m.Tidy clock) (t : Nat) : t ∉ (m.erase t).m_timers := fun ht =>
  ((OrderedSet.mem_erase h.ordered).mp ht).2 rfl

theorem Tidy.found (h : m.Tidy clock) (hf : ¬ (m.find t).isNone) :
    ∃ y ∈ m.m_timers, m.next y = m.next t := by
  obtain ⟨y, hy⟩ := Option.ne_none_iff_exists'.mp fun hn => hf (Option.isNone_iff_eq_none.mpr hn)
  exact ⟨y, (OrderedSet.find_eq_some h.ordered).mp hy⟩

theorem Tidy.create (h : m.Tidy clock) (ms : UInt64) (cb : Option (TimerCb C W))
    (recurring : Bool) : Quiet clock ∅ m (m.create ms cb recurring clock) := by
  have hne : ∀ x ∈ m.m_timers, x ≠ m.created := fun x hx => (h.created x hx).ne
  refine .of_subset ⟨h.ordered.congr fun x hx => next_set_ne (hne x hx), fun x hx => ?_,
    fun x hx => ?_, h.previous⟩ (Nat.le_succ _) rfl (List.Subset.refl _)
    fun x hx => next_set_ne (hne x hx)
  · exact (h.created x hx).trans (Nat.lt_succ_self _)
  · rcases Nat.lt_succ_iff_lt_or_eq.mp hx with hx | rfl
    · simpa [TimerManager.create, next, set_timer_ne hx.ne] using h.started x hx
    · simp [TimerManager.create, next]

theorem Tidy.cancel (h : m.Tidy clock) (ht : t < m.created) :
    Quiet clock ∅ m (m.cancel t).2 := by
  rw [TimerManager.cancel]
  split_ifs
  · exact .refl h
  · have hset : (m.set t { m.timer t with m_cb := none }).Tidy clock :=
      h.set (h.started t ht) fun _ => rfl
    have hnext : (m.set t { m.timer t with m_cb := none }).next = m.next := next_set_of_eq rfl
    exact .of_subset (hset.erase t) (le_refl _) rfl (erase_subset _ t) fun x _ => congrFun hnext x

/-- A timer that is out of the set gets the deadline `y.m_next` and comes into it. -/
theorem Tidy.put (h : m.Tidy clock) (hout : t ∉ m.m_timers) (ht : t < m.created)
    {y : Timer C W} (hy : y.m_next - milliseconds y.m_ms ≤ clock) {m₀ : TimerManager C W}
    (hq : Quiet clock {t} m₀ m)
    (hle : ∃ z ∈ m₀.m_timers, max clock (m₀.next z) ≤ max clock y.m_next) :
    Quiet clock {t} m₀ ((m.set t y).insert t) := by
  have hmem : ∀ x ∈ ((m.set t y).insert t).m_timers, x = t ∨ x ∈ m.m_timers := fun x =>
    OrderedSet.mem_of_mem_insert
  refine ⟨⟨(h.set hy fun hin => absurd hin hout).insert ht, hq.created, fun x hx => ?_⟩,
    hq.m_tickled, hq.deadline.imp_right fun hns x hx => ?_⟩
  · exact (hmem x hx).elim .inr (hq.members x)
  · rcases hmem x hx with rfl | hin
    · obtain ⟨z, hz, hzy⟩ := hle
      exact ⟨z, hz, hzy.trans (congrArg (max clock) next_set_self).ge⟩
    · obtain ⟨z, hz, hzx⟩ := hns x hin
      have hne : x ≠ t := fun he => hout (he ▸ hin)
      exact ⟨z, hz, hzx.trans (congrArg (max clock) (next_set_ne hne)).ge⟩

theorem Tidy.erased (h : m.Tidy clock) {new : Set Nat} (t : Nat) :
    Quiet clock new m (m.erase t) :=
  .of_subset (h.erase t) (le_refl _) rfl (erase_subset m t) fun _ _ => rfl

theorem Tidy.refresh (h : m.Tidy clock) (ht : t < m.created) :
    Quiet clock {t} m (m.refresh t clock).2 := by
  rw [TimerManager.refresh]
  split_ifs with hcb hfind
  · exact .refl h
  · exact .refl h
  · -- the deadline that is found is the timer's own, and that counts from the past
    obtain ⟨y, hy, hkey⟩ := h.found hfind
    have hstart := h.started t ht
    exact (h.erase t).put (h.not_mem_erase t) ht (by simp) (h.erased t)
      ⟨y, hy, max_le_max_left _ (by simp only; omega)⟩

theorem Tidy.resetErase (h : m.Tidy clock) (hr : m.resetErase t = some m') :
    Quiet clock ∅ m m' ∧ t ∉ m'.m_timers := by
  rw [TimerManager.resetErase] at hr
  split_ifs at hr
  obtain rfl := Option.some.inj hr
  exact ⟨h.erased t, h.not_mem_erase t⟩

theorem Tidy.resetKey (h : m.Tidy clock) (ht : t < m.created) (hout : t ∉ m.m_timers)
    (ms : UInt64) (from_now : Bool) : Quiet clock ∅ m (m.resetKey t ms from_now clock) := by
  have hstart : (if from_now then clock else m.next t - milliseconds (m.timer t).m_ms) ≤ clock := by
    split_ifs
    · exact le_refl clock
    · exact h.started t ht
  exact .of_subset (h.set (by simpa using hstart) fun hin => absurd hin hout) (le_refl _) rfl
    (List.Subset.refl _) fun x hx => next_set_ne fun he => hout (he ▸ hx)

/-- Taking a due timer out and putting it back makes no deadline earlier, since the one it
had is over. -/
theorem Tidy.expire (h : m.Tidy clock) (hnow : now ≤ clock) (hd : m.due false now = some t) :
    Quiet clock ∅ m (m.expire now t) := by
  obtain ⟨hl, hexp⟩ := due_eq_some hd
  have hdue : m.next t ≤ clock := (hexp.resolve_left (by simp)).trans hnow
  have ht : t ∈ m.m_timers := hl ▸ List.mem_cons_self
  have hord := h.ordered
  rw [hl] at hord
  have hout : t ∉ m.m_timers.tail := (List.nodup_cons.mp hord.nodup).1
  have hsub : m.m_timers.tail ⊆ m.m_timers := List.tail_subset _
  have htail : ({ m with m_timers := m.m_timers.tail } : TimerManager C W).Tidy clock :=
    ⟨(OrderedSet.ordered_cons.mp hord).2, fun x hx => h.created x (hsub hx), h.started, h.previous⟩
  rw [TimerManager.expire]
  split_ifs
  · have hout' : Quiet clock {t} m { m with m_timers := m.m_timers.tail } :=
      .of_subset htail (le_refl _) rfl hsub fun _ _ => rfl
    have hq := htail.put hout (h.created t ht)
      (y := { m.timer t with m_next := now + milliseconds (m.timer t).m_ms }) (by simpa using hnow)
      hout' ⟨t, ht, (max_eq_left hdue).trans_le (le_max_left _ _)⟩
    refine { hq with members := fun x hx => .inl ?_ }
    exact (hq.members x hx).elim id fun he => (Set.mem_singleton_iff.mp he) ▸ ht
  · exact .of_subset (htail.set (h.started t (h.created t ht)) fun _ => rfl) (le_refl _) rfl hsub
      fun x hx => next_set_ne fun (he : x = t) => hout (he ▸ hx)

theorem Tidy.expireLoop (hnow : now ≤ clock) {fuel : Nat}
    {expired : List (Nat × Option (TimerCb C W))} (h : m.Tidy clock)
    (he : expireLoop false now fuel m = some (expired, m')) : Quiet clock ∅ m m' := by
  refine expireLoop_induction (P := fun m _ m' => m.Tidy clock → Quiet clock ∅ m m') ?_ ?_ he h
  · exact fun _ => .refl
  · intro m t _ m' hd ih h
    have hq := h.expire hnow hd
    exact hq.trans (ih hq.tidy)

/-- The clock has not gone back, so that no rollover is detected. -/
theorem Tidy.listExpiredCb (h : m.Tidy clock) (hnow : now ≤ clock) {fuel : Nat}
    {expired : List (Nat × Option (TimerCb C W))}
    (he : m.listExpiredCb fuel now clock = some (expired, m')) : Quiet clock ∅ m m' := by
  have hms : (0 : Int) ≤ milliseconds (60 * 60 * 1000) := by decide
  have hno : ¬ clock < m.m_previouseTime - milliseconds (60 * 60 * 1000) := by
    have := h.previous
    omega
  have hm : ({ m with m_previouseTime := clock } : TimerManager C W).Tidy clock :=
    ⟨h.ordered, h.created, h.started, le_refl clock⟩
  simp only [TimerManager.listExpiredCb, detectClockRollover, hno, decide_false] at he
  have hq : Quiet clock ∅ m { m with m_previouseTime := clock } :=
    .of_subset hm (le_refl _) rfl (List.Subset.refl _) fun _ _ => rfl
  exact hq.trans (hm.expireLoop hnow he)

theorem Tidy.head_le (h : m.Tidy clock) (ht : m.m_timers.head? = some t) (hx : x ∈ m.m_timers) :
    m.next t ≤ m.next x := by
  have hl := List.cons_head?_tail ht
  have hord := h.ordered
  rw [← hl] at hord hx
  rcases List.mem_cons.mp hx with rfl | hx
  · exact le_refl _
  · exact ((OrderedSet.ordered_cons.mp hord).1 x hx).le

theorem Tidy.insertTimer (h : m.Tidy clock) (ht : t < m.created) :
    Keeps clock {t} m (m.insertTimer t).2 ∧
      ((m.insertTimer t).1 = false → Quiet clock {t} m (m.insertTimer t).2) := by
  have hins := h.insert ht
  have hmem : ∀ x ∈ (m.insert t).m_timers, x ∈ m.m_timers ∨ x ∈ ({t} : Set Nat) := fun x hx =>
    (OrderedSet.mem_of_mem_insert hx).symm
  rw [TimerManager.insertTimer]
  simp only [Bool.and_eq_true, Bool.not_eq_true']
  split_ifs with hfront
  · refine ⟨⟨⟨hins.ordered, hins.created, hins.started, hins.previous⟩, le_refl _, hmem⟩, ?_⟩
    simp [hfront.1, hfront.2]
  · have hkeeps : Keeps clock {t} m (m.insert t) := ⟨hins, le_refl _, hmem⟩
    refine ⟨hkeeps, fun _ => ⟨hkeeps, rfl, ?_⟩⟩
    rcases Bool.eq_false_or_eq_true m.m_tickled with htick | htick
    · exact .inl htick
    · refine .inr fun x hx => ?_
      obtain ⟨e, he⟩ := Option.ne_none_iff_exists'.mp
        (mt List.head?_eq_none_iff.mp (List.ne_nil_of_mem hx))
      have hne : m.next e ≠ m.next t := by
        intro hk
        refine hfront ⟨?_, htick⟩
        rw [he]
        exact decide_eq_true hk
      have hin : e ∈ m.m_timers :=
        (OrderedSet.mem_of_mem_insert (List.mem_of_mem_head? he)).resolve_left
          fun hk => hne (hk ▸ rfl)
      exact ⟨e, hin, max_le_max_left _ (hins.head_le he hx)⟩

theorem toNat_ofInt_le {i : Int} (hi : 0 ≤ i) : ((UInt64.ofInt i).toNat : Int) ≤ i := by
  rw [UInt64.ofInt, UInt64.toNat_ofNat']
  omega

/-- The milliseconds are rounded down, so that they end before the deadline. -/
theorem Tidy.getNextTimer_le (h : m.Tidy clock) (hx : x ∈ m.m_timers) :
    clock + (m.getNextTimer clock).1.toNat * 1000000 ≤ max clock (m.next x) := by
  obtain ⟨e, he⟩ := Option.ne_none_iff_exists'.mp
    (mt List.head?_eq_none_iff.mp (List.ne_nil_of_mem hx))
  have hle := h.head_le he hx
  rw [getNextTimer_fst he]
  split_ifs with hdue
  · simp
  · have hpos : 0 ≤ m.next e - clock := by omega
    have hms := toNat_ofInt_le (Int.tdiv_nonneg hpos (by decide : (0 : Int) ≤ 1000000))
    rw [Int.tdiv_eq_ediv_of_nonneg hpos] at hms ⊢
    exact le_max_of_le_right (by omega)

end TimerManager

namespace TimerThreads
variable {C W : Type} {s s' : TimerThreads C W} {u v t : Nat} {a : TimerAct C W}

/-! ## What a step can do -/

/-- A timer is the subject of one call at a time, and out of the set while the call has yet
to insert it. -/
structure Tidy (s : TimerThreads C W) : Prop where
  manager : s.manager.Tidy s.clock
  read : ∀ {u now}, s.pc u = .expiring now → now ≤ s.clock
  created : ∀ {u t}, (s.pc u).subject = some t → t < s.manager.created
  apart : ∀ {u v t}, (s.pc u).subject = some t → (s.pc v).subject = some t → u = v
  outside : ∀ {u t}, (s.pc u).outside = some t → t ∉ s.manager.m_timers

/-- The timers that no thread but `u` has a call on. -/
def spared (s : TimerThreads C W) (u : Nat) : Set Nat :=
  {t | ∀ v, v ≠ u → (s.pc v).subject ≠ some t}

/-- The thread `u` can go on at `p` with the manager `m`. -/
structure Turn (s : TimerThreads C W) (u : Nat) (m : TimerManager C W) (p : TimerPc) : Prop where
  read : ∀ {now}, p = .expiring now → now ≤ s.clock
  subject : ∀ {t}, p.subject = some t → t < m.created ∧ t ∈ s.spared u
  outside : ∀ {t}, p.outside = some t → t ∉ m.m_timers

/-- The steps by what they are to the threads that sleep. -/
inductive Moves (s : TimerThreads C W) : TimerThreads C W → Prop
  | tick (d : Nat) : Moves s { s with clock := s.clock + d }
  | quiet (u : Nat) (m : TimerManager C W) (p : TimerPc)
      (hq : TimerManager.Quiet s.clock (s.spared u) s.manager m) (hturn : s.Turn u m p)
      (hu : ∀ t i, s.pc u ≠ .tickling t i) (hp : ∀ wake since, p ≠ .sleeping wake since) :
      Moves s (s.goOn u m p)
  | front (u t : Nat) (m : TimerManager C W)
      (hk : TimerManager.Keeps s.clock (s.spared u) s.manager m)
      (hturn : s.Turn u m (.tickling t s.decided)) (hu : s.pc u = .adding t) :
      Moves s { s.goOn u m (.tickling t s.decided) with decided := s.decided + 1 }
  | tickle (u t i : Nat) (hu : s.pc u = .tickling t i) :
      Moves s { s.goOn u s.manager.onTimerInsertedAtFront .out with calls := s.calls ++ [i] }
  | sleep (u : Nat) (wake : Int) (hu : s.pc u = .out)
      (hw : ∀ x ∈ s.manager.m_timers, wake ≤ max s.clock (s.manager.next x)) :
      Moves s (s.goOn u { s.manager with m_tickled := false } (.sleeping wake s.decided))

theorem subject_of_outside {p : TimerPc} (h : p.outside = some t) : p.subject = some t := by
  cases p with
  | adding _ => exact h
  | resetting _ _ _ => exact h
  | _ => cases h

@[simp] theorem goOn_pc_self {m : TimerManager C W} {p : TimerPc} : (s.goOn u m p).pc u = p :=
  Function.update_self ..

theorem goOn_pc_ne {m : TimerManager C W} {p : TimerPc} (hv : v ≠ u) :
    (s.goOn u m p).pc v = s.pc v := Function.update_of_ne hv ..

theorem Turn.of_subject {m : TimerManager C W} {p : TimerPc} (hp : p.subject = none)
    (hr : ∀ now, p ≠ .expiring now) : s.Turn u m p := by
  refine ⟨fun he => absurd he (hr _), fun ht => ?_, fun ht => ?_⟩
  · rw [hp] at ht
    cases ht
  · rw [subject_of_outside ht] at hp
    cases hp

theorem Turn.out {m : TimerManager C W} : s.Turn u m .out := .of_subject rfl nofun

theorem Tidy.spared (h : s.Tidy) (hu : (s.pc u).subject = some t) : t ∈ s.spared u :=
  fun _ hv ht => hv (h.apart ht hu)

/-- Two threads have not the same timer, if the one that goes on has none of another one's. -/
theorem apart_goOn {w : Nat} {f : TimerPc → Option Nat} {m : TimerManager C W} {p : TimerPc}
    (h : ∀ {v w t}, f (s.pc v) = some t → f (s.pc w) = some t → v = w)
    (hp : ∀ {t}, f p = some t → ∀ v, v ≠ u → f (s.pc v) ≠ some t)
    (hv : f ((s.goOn u m p).pc v) = some t) (hw : f ((s.goOn u m p).pc w) = some t) :
    v = w := by
  by_cases hvu : v = u <;> by_cases hwu : w = u
  · exact hvu.trans hwu.symm
  · rw [hvu, goOn_pc_self] at hv
    rw [goOn_pc_ne hwu] at hw
    exact absurd hw (hp hv w hwu)
  · rw [goOn_pc_ne hvu] at hv
    rw [hwu, goOn_pc_self] at hw
    exact absurd hv (hp hw v hvu)
  · rw [goOn_pc_ne hvu] at hv
    rw [goOn_pc_ne hwu] at hw
    exact h hv hw

theorem Tidy.turn (h : s.Tidy) {m : TimerManager C W} {p : TimerPc}
    (hk : TimerManager.Keeps s.clock (s.spared u) s.manager m) (ht : s.Turn u m p) :
    (s.goOn u m p).Tidy := by
  refine ⟨hk.tidy, fun {v now} hv => ?_, fun {v t} hv => ?_,
    apart_goOn h.apart fun ht' => (ht.subject ht').2, fun {v t} hv => ?_⟩
  · by_cases hvu : v = u
    · rw [hvu, goOn_pc_self] at hv
      exact ht.read hv
    · rw [goOn_pc_ne hvu] at hv
      exact h.read hv
  · by_cases hvu : v = u
    · rw [hvu, goOn_pc_self] at hv
      exact (ht.subject hv).1
    · rw [goOn_pc_ne hvu] at hv
      exact (h.created hv).trans_le hk.created
  · by_cases hvu : v = u
    · rw [hvu, goOn_pc_self] at hv
      exact ht.outside hv
    · rw [goOn_pc_ne hvu] at hv
      intro hin
      rcases hk.members t hin with hin | hsp
      · exact h.outside hv hin
      · exact hsp v hvu (subject_of_outside hv)

theorem Tidy.count (h : s.Tidy) (decided : Nat) (calls : List Nat) :
    ({ s with decided := decided, calls := calls } : TimerThreads C W).Tidy :=
  ⟨h.manager, h.read, h.created, h.apart, h.outside⟩

theorem Tidy.flags (h : s.Tidy) {new : Set Nat} (b : Bool) (n : Nat) :
    TimerManager.Keeps s.clock new s.manager
      { s.manager with m_tickled := b, insertedAtFront := n } :=
  ⟨⟨h.manager.ordered, h.manager.created, h.manager.started, h.manager.previous⟩, le_refl _,
    fun _ => .inl⟩

theorem Tidy.moves (h : s.Tidy) (hm : s.Moves s') : s'.Tidy := by
  cases hm with
  | tick d =>
    have hle : s.clock ≤ s.clock + d := by omega
    exact ⟨h.manager.mono hle, fun hu => (h.read hu).trans hle, h.created, h.apart, h.outside⟩
  | quiet u m p hq hturn => exact h.turn hq.toKeeps hturn
  | front u t m hk hturn => exact (h.turn hk hturn).count _ _
  | tickle u t i => exact (h.turn (h.flags _ _) .out).count _ _
  | sleep u wake => exact h.turn (h.flags _ _) (.of_subject rfl nofun)

theorem Moves.returns {m : TimerManager C W} {new : Set Nat}
    (hq : TimerManager.Quiet s.clock new s.manager m) (hnew : new ⊆ s.spared u)
    (hu : ∀ t i, s.pc u ≠ .tickling t i) : s.Moves (s.goOn u m .out) :=
  .quiet u m .out (hq.mono hnew) .out hu nofun

theorem spared_of_noOverlap (h : ∀ v, (s.pc v).subject ≠ some t) (u : Nat) : {t} ⊆ s.spared u :=
  Set.singleton_subset_iff.mpr fun v _ => h v

theorem Tidy.moves_addTimer (h : s.Tidy) (hu : s.pc u = .out) (ms : UInt64)
    (cb : Option (TimerCb C W)) (recurring : Bool) : s.Moves
      (s.goOn u (s.manager.create ms cb recurring s.clock) (.adding s.manager.created)) := by
  refine .quiet u _ _ ((h.manager.create ms cb recurring).mono (Set.empty_subset _))
    ⟨nofun, fun {t} ht => ?_, fun {t} ht hin => ?_⟩ (by simp [hu]) nofun
  · obtain rfl := Option.some.inj ht
    exact ⟨Nat.lt_succ_self _, fun v _ hv => (h.created hv).ne rfl⟩
  · obtain rfl := Option.some.inj ht
    exact (h.manager.created _ hin).ne rfl

theorem Tidy.moves_insert (h : s.Tidy) (hs : s.step (.insert u) = some s') : s.Moves s' := by
  obtain ⟨t, hu, hcases⟩ := insert_of_step hs
  have hsub : (s.pc u).subject = some t := congrArg TimerPc.subject hu
  have hnew : {t} ⊆ s.spared u := Set.singleton_subset_iff.mpr (h.spared hsub)
  obtain ⟨hk, hq⟩ := h.manager.insertTimer (h.created hsub)
  rcases hcases with ⟨-, rfl⟩ | ⟨hfront, rfl⟩
  · refine .front u t _ (hk.mono hnew) ⟨nofun, fun {t'} ht => ?_, nofun⟩ hu
    obtain rfl := Option.some.inj ht
    exact ⟨(h.created hsub).trans_le hk.created, h.spared hsub⟩
  · exact .returns (hq hfront) hnew (by simp [hu])

theorem Tidy.moves_reset (h : s.Tidy) (hg : ∀ v, (s.pc v).subject ≠ some t) {ms : UInt64}
    {from_now : Bool} (hs : s.step (.reset u t ms from_now) = some s') : s.Moves s' := by
  obtain ⟨hu, rfl | ⟨m, -, hr, rfl⟩⟩ := reset_of_step hs
  · exact .returns (.refl h.manager) (Set.empty_subset _) (by simp [hu.1])
  · obtain ⟨hq, hout⟩ := h.manager.resetErase hr
    refine .quiet u m _ (hq.mono (Set.empty_subset _))
      ⟨nofun, fun {t'} ht => ?_, fun {t'} ht => ?_⟩ (by simp [hu.1]) nofun
    · obtain rfl := Option.some.inj ht
      exact ⟨hu.2.trans_le hq.created, fun v _ => hg v⟩
    · obtain rfl := Option.some.inj ht
      exact hout

theorem Tidy.moves_resetKey (h : s.Tidy) {ms : UInt64} {from_now : Bool}
    (hu : s.pc u = .resetting t ms from_now) :
    s.Moves (s.goOn u (s.manager.resetKey t ms from_now s.clock) (.adding t)) := by
  have hsub : (s.pc u).subject = some t := congrArg TimerPc.subject hu
  have hout := h.outside (congrArg TimerPc.outside hu)
  have hq := h.manager.resetKey (h.created hsub) hout ms from_now
  refine .quiet u _ _ (hq.mono (Set.empty_subset _)) ⟨nofun, fun {t'} ht => ?_, fun {t'} ht => ?_⟩
    (by simp [hu]) nofun
  · obtain rfl := Option.some.inj ht
    exact ⟨(h.created hsub).trans_le hq.created, h.spared hsub⟩
  · obtain rfl := Option.some.inj ht
    exact hout

theorem Tidy.moves_of_step (h : s.Tidy) (hg : s.NoOverlap a) (hs : s.step a = some s') :
    s.Moves s' := by
  cases a with
  | tick d =>
    obtain rfl := Option.some.inj hs
    exact .tick d
  | addTimer u ms cb recurring =>
    obtain ⟨hu, rfl⟩ := addTimer_of_step hs
    exact h.moves_addTimer hu ms cb recurring
  | insert u => exact h.moves_insert hs
  | tickle u =>
    obtain ⟨t, i, hu, rfl⟩ := tickle_of_step hs
    exact .tickle u t i hu
  | cancel u t =>
    obtain ⟨hu, rfl⟩ := cancel_of_step hs
    exact .returns (h.manager.cancel hu.2) (Set.empty_subset _) (by simp [hu.1])
  | refresh u t =>
    obtain ⟨hu, rfl⟩ := refresh_of_step hs
    exact .returns (h.manager.refresh hu.2) (spared_of_noOverlap hg u) (by simp [hu.1])
  | reset u t ms from_now => exact h.moves_reset hg hs
  | resetKey u =>
    obtain ⟨t, ms, from_now, hu, rfl⟩ := resetKey_of_step hs
    exact h.moves_resetKey hu
  | readClock u =>
    obtain ⟨hu, rfl⟩ := readClock_of_step hs
    refine .quiet u _ _ (.refl h.manager) ⟨fun he => ?_, nofun, nofun⟩ (by simp [hu]) nofun
    exact (TimerPc.expiring.inj he).ge
  | listExpiredCb u fuel =>
    obtain ⟨now, expired, m, hu, he, rfl⟩ := listExpiredCb_of_step hs
    exact .returns (h.manager.listExpiredCb (h.read hu) he) (Set.empty_subset _) (by simp [hu])
  | getNextTimer u =>
    obtain ⟨hu, rfl⟩ := getNextTimer_of_step hs
    rw [TimerManager.getNextTimer_snd]
    exact .sleep u _ hu fun x hx => h.manager.getNextTimer_le hx
  | wake u =>
    obtain ⟨wake, since, hu, rfl⟩ := wake_of_step hs
    exact .returns (.refl h.manager) (Set.empty_subset _) (by simp [hu])

/-! ## The sleeping threads -/

/-- `onTimerInsertedAtFront` has been called for the insertion number `i`, or is about to be. -/
def Reported (s : TimerThreads C W) (i : Nat) : Prop :=
  i ∈ s.calls ∨ ∃ v t, s.pc v = .tickling t i

/-- A thread that sleeps until `wake` does not sleep past a deadline. -/
def InTime (s : TimerThreads C W) (wake : Int) : Prop :=
  ∀ x ∈ s.manager.m_timers, wake ≤ max s.clock (s.manager.next x)

/-- Where `m_tickled` is set, every thread that sleeps has been woken; so has each of those
that are not in time. -/
structure Woken (s : TimerThreads C W) : Prop where
  since : ∀ {u wake since}, s.pc u = .sleeping wake since → since ≤ s.decided
  tickled : s.manager.m_tickled = true → ∀ {u wake since}, s.pc u = .sleeping wake since →
    since < s.decided
  sleeper : ∀ {u wake since}, s.pc u = .sleeping wake since → since < s.decided ∨ s.InTime wake
  reported : ∀ {i}, i < s.decided → s.Reported i

theorem InTime.noSooner {wake : Int} (h : s.InTime wake) {m : TimerManager C W}
    (hm : TimerManager.NoSooner s.clock s.manager m) {p : TimerPc} :
    (s.goOn u m p).InTime wake := by
  intro x hx
  obtain ⟨y, hy, hyx⟩ := hm x hx
  exact (h y hy).trans hyx

theorem sleeping_of_goOn {m : TimerManager C W} {p : TimerPc} {wake : Int} {since : Nat}
    (hp : ∀ wake since, p ≠ .sleeping wake since)
    (hv : (s.goOn u m p).pc v = .sleeping wake since) : s.pc v = .sleeping wake since := by
  by_cases hvu : v = u
  · rw [hvu, goOn_pc_self] at hv
    exact absurd hv (hp wake since)
  · rwa [goOn_pc_ne hvu] at hv

theorem Reported.goOn {i : Nat} (h : s.Reported i) (hu : ∀ t, s.pc u ≠ .tickling t i)
    (m : TimerManager C W) (p : TimerPc) : (s.goOn u m p).Reported i := by
  refine h.imp_right fun ⟨v, t, hv⟩ => ⟨v, t, ?_⟩
  have hvu : v ≠ u := fun he => hu t (he ▸ hv)
  rwa [goOn_pc_ne hvu]

theorem Woken.quiet (h : s.Woken) {new : Set Nat} {m : TimerManager C W} {p : TimerPc}
    (hq : TimerManager.Quiet s.clock new s.manager m) (hu : ∀ t i, s.pc u ≠ .tickling t i)
    (hp : ∀ wake since, p ≠ .sleeping wake since) : (s.goOn u m p).Woken := by
  refine ⟨fun hv => h.since (sleeping_of_goOn hp hv), fun ht v wake since hv => ?_, fun hv => ?_,
    fun hi => (h.reported hi).goOn (fun t => hu t _) m p⟩
  · exact h.tickled (hq.m_tickled.symm.trans ht) (sleeping_of_goOn hp hv)
  · have hv' := sleeping_of_goOn hp hv
    rcases hq.deadline with ht | hns
    · exact .inl (h.tickled ht hv')
    · exact (h.sleeper hv').imp_right fun hin => hin.noSooner hns

/-- The insertion at the front is after every `getNextTimer` that a thread sleeps on. -/
theorem Woken.front (h : s.Woken) (m : TimerManager C W) (hu : s.pc u = .adding t) :
    ({ s.goOn u m (.tickling t s.decided) with decided := s.decided + 1 } :
      TimerThreads C W).Woken := by
  have hp : ∀ wake since, TimerPc.tickling t s.decided ≠ .sleeping wake since := nofun
  have hlt : ∀ {v wake since}, (s.goOn u m (.tickling t s.decided)).pc v = .sleeping wake since →
      since < s.decided + 1 := fun hv => Nat.lt_succ_of_le (h.since (sleeping_of_goOn hp hv))
  refine ⟨fun hv => (hlt hv).le, fun _ {v wake since} hv => hlt hv, fun hv => .inl (hlt hv),
    fun {i} hi => ?_⟩
  rcases Nat.lt_succ_iff_lt_or_eq.mp hi with hi | rfl
  · exact (h.reported hi).goOn (by simp [hu]) m _
  · exact .inr ⟨u, t, goOn_pc_self (m := m)⟩

theorem Woken.tickle (h : s.Woken) {i : Nat} (hu : s.pc u = .tickling t i) :
    ({ s.goOn u s.manager.onTimerInsertedAtFront .out with calls := s.calls ++ [i] } :
      TimerThreads C W).Woken := by
  have hpc : ∀ {v wake since}, (s.goOn u s.manager.onTimerInsertedAtFront .out).pc v =
      .sleeping wake since → s.pc v = .sleeping wake since := sleeping_of_goOn nofun
  refine ⟨fun hv => h.since (hpc hv), fun ht v wake since hv => h.tickled ht (hpc hv),
    fun hv => h.sleeper (hpc hv), fun {j} hj => ?_⟩
  by_cases hji : j = i
  · exact .inl (List.mem_append_right _ (List.mem_singleton.mpr hji))
  · have hne : ∀ t, s.pc u ≠ .tickling t j := by
      intro t' he
      rw [hu] at he
      exact hji (TimerPc.tickling.inj he).2.symm
    rcases (h.reported hj).goOn hne s.manager.onTimerInsertedAtFront .out with hc | hp
    · exact .inl (List.mem_append_left _ hc)
    · exact .inr hp

theorem Woken.sleep (h : s.Woken) {wake : Int} (hu : s.pc u = .out) (hw : s.InTime wake) :
    (s.goOn u { s.manager with m_tickled := false } (.sleeping wake s.decided)).Woken := by
  have hpc : ∀ {v wake' since}, (s.goOn u { s.manager with m_tickled := false }
      (.sleeping wake s.decided)).pc v = .sleeping wake' since →
      wake' = wake ∧ since = s.decided ∨ s.pc v = .sleeping wake' since := by
    intro v wake' since hv
    by_cases hvu : v = u
    · rw [hvu, goOn_pc_self] at hv
      obtain ⟨rfl, rfl⟩ := TimerPc.sleeping.inj hv
      exact .inl ⟨rfl, rfl⟩
    · rw [goOn_pc_ne hvu] at hv
      exact .inr hv
  refine ⟨fun hv => ?_, nofun, fun hv => ?_, fun hi => (h.reported hi).goOn (by simp [hu]) _ _⟩
  · rcases hpc hv with ⟨-, rfl⟩ | hv
    · exact le_refl _
    · exact h.since hv
  · rcases hpc hv with ⟨rfl, -⟩ | hv
    · exact .inr hw
    · exact h.sleeper hv

theorem Woken.moves (h : s.Woken) (hm : s.Moves s') : s'.Woken := by
  cases hm with
  | tick d =>
    have hle : s.clock ≤ s.clock + d := by omega
    refine ⟨h.since, h.tickled, fun hu => (h.sleeper hu).imp_right fun hin x hx => ?_, h.reported⟩
    exact (hin x hx).trans (max_le_max_right _ hle)
  | quiet u m p hq _ hu hp => exact h.quiet hq hu hp
  | front u t m _ _ hu => exact h.front m hu
  | tickle u t i hu => exact h.tickle hu
  | sleep u wake hu hw => exact h.sleep hu hw

theorem tidy_init (now : Int) : (init now : TimerThreads C W).Tidy :=
  ⟨⟨List.Pairwise.nil, nofun, nofun, le_refl now⟩, nofun, nofun, nofun, nofun⟩

theorem woken_init (now : Int) : (init now : TimerThreads C W).Woken :=
  ⟨nofun, nofun, nofun, nofun⟩

/-- **No missed wake-up.** A thread that sleeps on what `getNextTimer` returned wakes no
later than the first deadline that is still to come, unless a timer has been inserted at
the front since then; and for that insertion `onTimerInsertedAtFront` has been called or is
about to be. -/
theorem no_missed_wakeup {now : Int} {acts : List (TimerAct C W)}
    (hg : Guarded NoOverlap step (init now) acts) (hrun : run step (init now) acts = some s)
    {wake : Int} {since : Nat} (hu : s.pc u = .sleeping wake since) :
    (∀ x ∈ s.manager.m_timers, wake ≤ max s.clock (s.manager.next x)) ∨
      ∃ i, since ≤ i ∧ (i ∈ s.calls ∨ ∃ v t, s.pc v = .tickling t i) := by
  have hstep : ∀ {s : TimerThreads C W} {a s'}, s.Tidy ∧ s.Woken → s.NoOverlap a →
      s.step a = some s' → s'.Tidy ∧ s'.Woken := by
    intro s a s' h hg hs
    have hm := h.1.moves_of_step hg hs
    exact ⟨h.1.moves hm, h.2.moves hm⟩
  have hwoken := (run_invariant acts hstep ⟨tidy_init now, woken_init now⟩ hg hrun).2
  rcases hwoken.sleeper hu with hlt | hin
  · exact .inr ⟨since, le_refl since, hwoken.reported hlt⟩
  · exact .inl hin

/-- A thread sleeps for 50 ms; 10 ms later another one refreshes the timer and adds one of
5 ms, and has yet to wake the first. -/
theorem no_missed_wakeup_refreshed :
    let acts : List (TimerAct Unit Unit) :=
      [.addTimer 1 50 (some (.function ())) false, .insert 1, .tickle 1, .getNextTimer 0,
        .tick 10000000, .refresh 1 0, .addTimer 1 5 (some (.function ())) false, .insert 1]
    ∃ s, run step (init 0) acts = some s ∧ Guarded NoOverlap step (init 0) acts ∧
      s.pc 0 = .sleeping 50000000 1 ∧ ((∀ x ∈ s.manager.m_timers,
        50000000 ≤ max s.clock (s.manager.next x)) ∨
          ∃ i, 1 ≤ i ∧ (i ∈ s.calls ∨ ∃ v t, s.pc v = .tickling t i)) := by
  intro acts
  obtain ⟨s, hrun⟩ : ∃ s, run step (init 0) acts = some s := Option.isSome_iff_exists.mp (by decide)
  have hpc : (run step (init 0) acts).map (fun s => s.pc 0) = some (.sleeping 50000000 1) := by
    decide
  rw [hrun, Option.map_some, Option.some.injEq] at hpc
  have hg : Guarded NoOverlap step (init 0) acts := by
    refine .of_step trivial rfl (.of_step trivial rfl (.of_step trivial rfl (.of_step trivial rfl
      (.of_step trivial rfl (.of_step ?_ rfl (.of_step trivial rfl (.of_step trivial rfl
        trivial)))))))
    intro v
    match v with
    | 0 => exact nofun
    | 1 => exact nofun
    | v + 2 => exact nofun
  exact ⟨s, hrun, hg, hpc, no_missed_wakeup hg hrun hpc⟩

end TimerThreads
end Workplace.Coroutine
