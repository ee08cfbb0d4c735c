import Workplace.Coroutine.TaskQueue
import Mathlib.Data.Finset.Card

/-! How a thread that sleeps in `epoll_wait` learns of a task: `IOManager::tickle`, the pipe it
writes to, and `m_idleThreadCount`. Any number of threads, each section under a lock and each
access to the counter or the pipe one step. -/

namespace Workplace.Coroutine
open Workplace.Lib

/-- Where a thread is. -/
inductive Spot where
  -- a thread that does not run the scheduler
  | outside
  -- before the search of `run`
  | search
  | exec
  -- the search found nothing, and `m_idleThreadCount` does not count the thread yet
  | window
  -- in `idle`, before `epoll_wait`, in it, and behind it
  | polling
  | asleep
  -- and whether the pipe is among the events of this turn, and still to be read
  | awake (drains : Bool)
  deriving DecidableEq, Repr

/-- How far a call of `tickle` has come. -/
inductive TicklePc where
  | out
  | test
  | write
  deriving DecidableEq, Repr

structure Place where
  spot : Spot
  tickle : TicklePc := .out
  deriving DecidableEq, Repr

/-- Between `++m_idleThreadCount` and `--m_idleThreadCount`. -/
def Spot.counted : Spot → Bool
  | .polling | .asleep | .awake _ => true
  | _ => false

/-- The thread sleeps, or will without looking at the queue again. -/
def Spot.bound : Spot → Bool
  | .window | .polling | .asleep => true
  | _ => false

/-- The thread looks at the queue before it sleeps, and executes nothing before. -/
def Spot.onWay : Spot → Bool
  | .search | .awake _ => true
  | _ => false

/-- The code at the place may call `scheduleLock` and `addTimer`. -/
def Place.mayCall (p : Place) : Bool :=
  p.tickle = .out && match p.spot with
    | .outside | .exec | .awake _ => true
    | _ => false

structure Tickling (F C : Type) where
  m_tasks : List (ScheduleTask F C) := []
  m_idleThreadCount : Nat := 0
  place : Nat → Place
  -- the pipe holds bytes
  bytes : Bool := false
  -- `epoll_wait` has an event of the pipe to hand out
  ready : Bool := false

inductive TickleAct (F C : Type) where
  | scheduleLock (u : Nat) (fc : FiberOrCb F C) (thread : Int)
  | onTimerInsertedAtFront (u : Nat)
  | test (u : Nat)
  -- and whether a write to a pipe that still holds bytes is one more event
  | write (u : Nat) (again : Bool)
  | search (u : Nat)
  | finish (u : Nat)
  | idle (u : Nat)
  | epoll_wait (u : Nat)
  -- and whether the pipe is why; else another event, or the timeout
  | wake (u : Nat) (tickled : Bool)
  | drain (u : Nat)
  | yield (u : Nat)

namespace Tickling

/-! ## The source -/

section Source
variable {F C : Type}

/-- The threads below `workers` are about to run the scheduler. -/
def init (workers : Nat) : Tickling F C :=
  { place := fun u => ⟨if u < workers then .search else .outside, .out⟩ }

def goto (s : Tickling F C) (u : Nat) (p : Place) : Tickling F C :=
  { s with place := Function.update s.place u p }

/-- `tickle` is called where the thread is. -/
def tickle (s : Tickling F C) (u : Nat) : Tickling F C :=
  s.goto u { s.place u with tickle := .test }

def step (s : Tickling F C) : TickleAct F C → Option (Tickling F C)
  | .scheduleLock u fc thread =>
    if (s.place u).mayCall then
      let (m_tasks, need_tickle) := Coroutine.scheduleLock s.m_tasks fc thread
      some (if need_tickle then { s with m_tasks }.tickle u else { s with m_tasks })
    else none
  | .onTimerInsertedAtFront u => if (s.place u).mayCall then some (s.tickle u) else none
  | .test u =>
    if (s.place u).tickle = .test then
      some (s.goto u ⟨(s.place u).spot, if 0 < s.m_idleThreadCount then .write else .out⟩)
    else none
  | .write u again =>
    if (s.place u).tickle = .write then
      some ({ s with bytes := true, ready := s.ready || !s.bytes || again }.goto u
        ⟨(s.place u).spot, .out⟩)
    else none
  | .search u =>
    if s.place u = ⟨.search, .out⟩ then
      (dequeue id u s.m_tasks).map fun d =>
        { s with m_tasks := d.m_tasks }.goto u
          ⟨if d.task.isSome then .exec else .window, if d.tickle_me then .test else .out⟩
    else none
  | .finish u => if s.place u = ⟨.exec, .out⟩ then some (s.goto u ⟨.search, .out⟩) else none
  | .idle u =>
    if s.place u = ⟨.window, .out⟩ then
      some ({ s with m_idleThreadCount := s.m_idleThreadCount + 1 }.goto u ⟨.polling, .out⟩)
    else none
  | .epoll_wait u =>
    if s.place u = ⟨.polling, .out⟩ then some (s.goto u ⟨.asleep, .out⟩) else none
  | .wake u tickled =>
    if s.place u = ⟨.asleep, .out⟩ ∧ (tickled = true → s.ready = true) then
      some ({ s with ready := s.ready && !tickled }.goto u ⟨.awake tickled, .out⟩)
    else none
  | .drain u =>
    if s.place u = ⟨.awake true, .out⟩ then
      some ({ s with bytes := false, ready := false }.goto u ⟨.awake false, .out⟩)
    else none
  | .yield u =>
    if s.place u = ⟨.awake false, .out⟩ then
      some ({ s with m_idleThreadCount := s.m_idleThreadCount - 1 }.goto u ⟨.search, .out⟩)
    else none

/-- A task that any thread may take is queued. -/
def Waits (s : Tickling F C) : Prop := ∃ task ∈ s.m_tasks, task.thread = -1

/-- The two moments in which a wake-up is lost: `tickle` finds nobody counted while a thread is
about to be, and a task for anyone joins a queue of tasks that are all pinned. -/
def Misses (s : Tickling F C) : TickleAct F C → Prop
  | .test _ => s.m_idleThreadCount = 0 ∧ s.Waits ∧ ∃ v, (s.place v).spot = .window
  | .scheduleLock _ fc thread =>
    (ScheduleTask.of fc thread).hasWork = true ∧ thread = -1 ∧ s.m_tasks ≠ [] ∧ ¬ s.Waits
  | _ => False

end Source

/-! ## The search -/

section Search
variable {F C α : Type} {task : α → ScheduleTask F C} {t : Int} {q : List α} {d : Dequeued α}

/-- The search announces what it leaves. -/
theorem dequeue_tickle_me (h : dequeue task t q = some d) :
    d.tickle_me = !d.m_tasks.isEmpty := by
  induction q generalizing d with
  | nil =>
    obtain rfl := Option.some.inj h
    rfl
  | cons it rest ih =>
    rw [dequeue] at h
    split_ifs at h
    · obtain ⟨d', -, rfl⟩ := Option.map_eq_some_iff.mp h
      rfl
    · obtain rfl := Option.some.inj h
      rfl

theorem waits_scheduleLock {s : Tickling F C} {fc : FiberOrCb F C} {thread : Int}
    (hw : Waits { s with m_tasks := (Coroutine.scheduleLock s.m_tasks fc thread).1 }) :
    s.Waits ∨ (ScheduleTask.of fc thread).hasWork = true ∧ thread = -1 := by
  obtain ⟨task, htask, hfree⟩ := hw
  simp only [Coroutine.scheduleLock] at htask
  split_ifs at htask with hwork
  · rcases List.mem_append.mp htask with htask | htask
    · exact .inl ⟨task, htask, hfree⟩
    · refine .inr ⟨hwork, ?_⟩
      rw [List.mem_singleton.mp htask] at hfree
      cases fc <;> exact hfree
  · exact .inl ⟨task, htask, hfree⟩

end Search

/-! ## One thread moves -/

section Moves
variable {F C : Type} {s : Tickling F C} {u v : Nat} {p : Place}

@[simp] theorem place_goto_self : (s.goto u p).place u = p := Function.update_self _ _ _

theorem place_goto_ne (h : v ≠ u) : (s.goto u p).place v = s.place v :=
  Function.update_of_ne h _ _

/-- The thread will look at the queue, or tells others to. -/
def tells (p : Place) : Prop := p.tickle ≠ .out ∨ p.spot.onWay

instance (p : Place) : Decidable (tells p) := instDecidableOr

def Told (s : Tickling F C) : Prop := s.ready = true ∨ ∃ u, tells (s.place u)

def Counted (s : Tickling F C) : Prop :=
  ∃ idle : Finset Nat, idle.card = s.m_idleThreadCount ∧
    ∀ u, u ∈ idle ↔ (s.place u).spot.counted

/-- Bytes without an event are read by a thread that has the event. -/
def Piped (s : Tickling F C) : Prop :=
  s.bytes = true → s.ready = true ∨ ∃ u, (s.place u).spot = .awake true

def Bound (s : Tickling F C) : Prop := ∃ u, (s.place u).spot.bound

theorem told_goto (hp : tells p) : (s.goto u p).Told := .inr ⟨u, by rwa [place_goto_self]⟩

/-- The thread that moves had told nobody. -/
theorem Told.goto (h : s.Told) (hu : ¬ tells (s.place u)) : (s.goto u p).Told := by
  rcases h with hready | ⟨v, hv⟩
  · exact .inl hready
  · have hvu : v ≠ u := by
      rintro rfl
      exact hu hv
    exact .inr ⟨v, by rwa [place_goto_ne hvu]⟩

theorem bound_of_goto (h : (s.goto u p).Bound) (hp : p.spot.bound → (s.place u).spot.bound) :
    s.Bound := by
  obtain ⟨v, hv⟩ := h
  by_cases hvu : v = u
  · subst hvu
    rw [place_goto_self] at hv
    exact ⟨v, hp hv⟩
  · rw [place_goto_ne hvu] at hv
    exact ⟨v, hv⟩

theorem Piped.goto (h : s.Piped) (hp : (s.place u).spot = .awake true → p.spot = .awake true) :
    (s.goto u p).Piped := by
  intro hbytes
  rcases h hbytes with hready | ⟨v, hv⟩
  · exact .inl hready
  · refine .inr ⟨v, ?_⟩
    by_cases hvu : v = u
    · subst hvu
      rw [place_goto_self]
      exact hp hv
    · rwa [place_goto_ne hvu]

/-- Whoever has put bytes into the pipe has told somebody. -/
theorem Piped.told (h : s.Piped) (hbytes : s.bytes = true) : s.Told := by
  rcases h hbytes with hready | ⟨v, hv⟩
  · exact .inl hready
  · exact .inr ⟨v, .inr (by rw [hv]; rfl)⟩

theorem Counted.goto (h : s.Counted) (hp : p.spot.counted = (s.place u).spot.counted) :
    (s.goto u p).Counted := by
  obtain ⟨idle, hcard, hidle⟩ := h
  refine ⟨idle, hcard, fun v => ?_⟩
  by_cases hvu : v = u
  · subst hvu
    rw [place_goto_self, hp, hidle]
  · rw [place_goto_ne hvu, hidle]

theorem Counted.enter (h : s.Counted) (hu : (s.place u).spot.counted = false)
    (hp : p.spot.counted = true) :
    Counted ({ s with m_idleThreadCount := s.m_idleThreadCount + 1 }.goto u p) := by
  obtain ⟨idle, hcard, hidle⟩ := h
  have hout : u ∉ idle := by simp [hidle, hu]
  refine ⟨insert u idle, (Finset.card_insert_of_notMem hout).trans (by rw [hcard]; rfl), ?_⟩
  intro v
  by_cases hvu : v = u
  · subst hvu
    simp [hp]
  · rw [place_goto_ne hvu, Finset.mem_insert, or_iff_right hvu, hidle]

theorem Counted.leave (h : s.Counted) (hu : (s.place u).spot.counted = true)
    (hp : p.spot.counted = false) :
    Counted ({ s with m_idleThreadCount := s.m_idleThreadCount - 1 }.goto u p) := by
  obtain ⟨idle, hcard, hidle⟩ := h
  refine ⟨idle.erase u, (Finset.card_erase_of_mem ((hidle u).mpr hu)).trans (by rw [hcard]; rfl),
    ?_⟩
  intro v
  by_cases hvu : v = u
  · subst hvu
    simp [hp]
  · rw [place_goto_ne hvu, Finset.mem_erase, and_iff_right hvu, hidle]

/-- Nobody is counted. -/
theorem Counted.eq_false (h : s.Counted) (hzero : s.m_idleThreadCount = 0) (v : Nat) :
    (s.place v).spot.counted = false := by
  obtain ⟨idle, hcard, hidle⟩ := h
  rw [hzero, Finset.card_eq_zero] at hcard
  rw [Bool.eq_false_iff, ne_eq, ← hidle, hcard]
  exact Finset.notMem_empty v

end Moves

/-! ## Runs -/

section Runs
variable {F C : Type} {s s' : Tickling F C} {u : Nat} {a : TickleAct F C}

/-- What holds in every run. -/
structure Sound (s : Tickling F C) : Prop where
  work : ∀ task ∈ s.m_tasks, task.hasWork
  counted : s.Counted
  piped : s.Piped

/-- A task that waits for anyone is announced, as long as a thread sleeps or is about to. -/
structure Announced (s : Tickling F C) : Prop extends s.Sound where
  told : s.Waits → s.Bound → s.Told

theorem announced_init (workers : Nat) : Announced (init workers : Tickling F C) := by
  refine ⟨⟨nofun, ⟨∅, rfl, fun u => ?_⟩, nofun⟩, fun ⟨task, htask, _⟩ => absurd htask nofun⟩
  simp only [init, Finset.notMem_empty, false_iff]
  split_ifs <;> exact nofun

/-- The thread goes where it tells the others, or looks at the queue itself. -/
theorem Sound.goto_telling (h : s.Sound) {p : Place} (hp : tells p)
    (hcounted : p.spot.counted = (s.place u).spot.counted)
    (hpiped : (s.place u).spot = .awake true → p.spot = .awake true) :
    (s.goto u p).Announced :=
  ⟨⟨h.work, h.counted.goto hcounted, h.piped.goto hpiped⟩, fun _ _ => told_goto hp⟩

theorem Sound.tickle (h : s.Sound) (u : Nat) : (s.tickle u).Announced :=
  h.goto_telling (.inl nofun) rfl id

/-- The thread tells nobody, before and after. -/
theorem Announced.goto_silent (h : s.Announced) {p : Place} (hu : ¬ tells (s.place u))
    (hcounted : p.spot.counted = (s.place u).spot.counted)
    (hpiped : (s.place u).spot = .awake true → p.spot = .awake true)
    (hbound : p.spot.bound → (s.place u).spot.bound) : (s.goto u p).Announced :=
  ⟨⟨h.work, h.counted.goto hcounted, h.piped.goto hpiped⟩,
    fun hw hb => (h.told hw (bound_of_goto hb hbound)).goto hu⟩

theorem Announced.scheduleLock (h : s.Announced) {fc : FiberOrCb F C} {thread : Int}
    (hg : ¬ s.Misses (.scheduleLock u fc thread))
    (hs : s.step (.scheduleLock u fc thread) = some s') : s'.Announced := by
  obtain ⟨-, hs⟩ := Option.ite_none_right_eq_some.mp hs
  obtain rfl := Option.some.inj hs
  have hsound : Sound { s with m_tasks := (Coroutine.scheduleLock s.m_tasks fc thread).1 } := by
    refine ⟨fun task htask => ?_, h.counted, h.piped⟩
    simp only [Coroutine.scheduleLock] at htask
    split_ifs at htask with hfc
    · rcases List.mem_append.mp htask with htask | htask
      · exact h.work task htask
      · exact List.mem_singleton.mp htask ▸ hfc
    · exact h.work task htask
  by_cases hempty : s.m_tasks = []
  · rw [if_pos (by rw [hempty]; rfl)]
    exact hsound.tickle u
  · rw [if_neg (by simpa [Coroutine.scheduleLock] using hempty)]
    refine ⟨hsound, fun hw hb => h.told ?_ hb⟩
    by_contra hnone
    obtain ⟨hfc, hthread⟩ := (waits_scheduleLock hw).resolve_left hnone
    exact hg ⟨hfc, hthread, hempty, hnone⟩

theorem Announced.test (h : s.Announced) (hg : ¬ s.Misses (.test u))
    (hs : s.step (.test u) = some s') : s'.Announced := by
  obtain ⟨hu, hs⟩ := Option.ite_none_right_eq_some.mp hs
  obtain rfl := Option.some.inj hs
  by_cases hcount : 0 < s.m_idleThreadCount
  · rw [if_pos hcount]
    exact h.goto_telling (.inl nofun) rfl id
  · rw [if_neg hcount]
    have hzero := Nat.eq_zero_of_not_pos hcount
    refine ⟨⟨h.work, h.counted.goto rfl, h.piped.goto id⟩, fun hw hb => ?_⟩
    obtain ⟨v, hv⟩ := bound_of_goto hb id
    have hout := h.counted.eq_false hzero v
    refine absurd ⟨hzero, hw, v, ?_⟩ hg
    cases hspot : (s.place v).spot <;> simp_all [Spot.bound, Spot.counted]

theorem Announced.write (h : s.Announced) {again : Bool}
    (hs : s.step (.write u again) = some s') : s'.Announced := by
  obtain ⟨hu, hs⟩ := Option.ite_none_right_eq_some.mp hs
  obtain rfl := Option.some.inj hs
  have hwritten : Piped { s with bytes := true, ready := s.ready || !s.bytes || again } := by
    intro _
    by_cases hbytes : s.bytes = true
    · rcases h.piped hbytes with hready | hv
      · exact .inl (by rw [hready]; rfl)
      · exact .inr hv
    · exact .inl (by simp [hbytes])
  have hpiped : Piped ({ s with bytes := true, ready := s.ready || !s.bytes || again }.goto u
      ⟨(s.place u).spot, .out⟩) := hwritten.goto id
  exact ⟨⟨h.work, h.counted.goto rfl, hpiped⟩, fun _ _ => hpiped.told rfl⟩

theorem Announced.search (h : s.Announced) (hs : s.step (.search u) = some s') :
    s'.Announced := by
  obtain ⟨hu, hs⟩ := Option.ite_none_right_eq_some.mp hs
  obtain ⟨d, hd, rfl⟩ := Option.map_eq_some_iff.mp hs
  obtain ⟨d', hd', hcases⟩ := dequeue_spec (t := (u : Int)) h.work
  obtain rfl : d = d' := Option.some.inj (hd.symm.trans hd')
  have hsub : ∀ task ∈ d.m_tasks, task ∈ s.m_tasks := by
    intro task htask
    rcases hcases with ⟨-, hm, -⟩ | ⟨pre, e, post, hq, -, hm, -⟩
    · exact hm ▸ htask
    · rw [hm, List.mem_append] at htask
      rw [hq, List.mem_append, List.mem_cons]
      exact htask.imp_right .inr
  have hsound : Sound { s with m_tasks := d.m_tasks } :=
    ⟨fun task htask => h.work task (hsub task htask), h.counted, h.piped⟩
  have hcounted : (if d.task.isSome then Spot.exec else .window).counted =
      (s.place u).spot.counted := by
    rw [hu]
    split_ifs <;> rfl
  have hpiped : (s.place u).spot ≠ .awake true := by
    rw [hu]
    exact nofun
  rw [dequeue_tickle_me hd]
  by_cases hempty : d.m_tasks = []
  · refine ⟨⟨hsound.work, hsound.counted.goto hcounted, hsound.piped.goto (absurd · hpiped)⟩, ?_⟩
    rintro ⟨task, htask, -⟩
    exact absurd (hempty ▸ htask) List.not_mem_nil
  · rw [List.isEmpty_eq_false_iff.mpr hempty, Bool.not_false, if_pos rfl]
    exact hsound.goto_telling (.inl nofun) hcounted (absurd · hpiped)

theorem Announced.step (h : s.Announced) (hg : ¬ s.Misses a) (hs : s.step a = some s') :
    s'.Announced := by
  cases a with
  | scheduleLock u fc thread => exact h.scheduleLock hg hs
  | onTimerInsertedAtFront u =>
    obtain ⟨-, hs⟩ := Option.ite_none_right_eq_some.mp hs
    obtain rfl := Option.some.inj hs
    exact h.tickle u
  | test u => exact h.test hg hs
  | write u again => exact h.write hs
  | search u => exact h.search hs
  | finish u =>
    obtain ⟨hu, hs⟩ := Option.ite_none_right_eq_some.mp hs
    obtain rfl := Option.some.inj hs
    exact h.goto_telling (.inr rfl) (by rw [hu]; rfl) (by rw [hu]; exact nofun)
  | idle u =>
    obtain ⟨hu, hs⟩ := Option.ite_none_right_eq_some.mp hs
    obtain rfl := Option.some.inj hs
    have hcounted := h.counted.enter (u := u) (p := ⟨.polling, .out⟩) (by rw [hu]; rfl) rfl
    have hkept : (s.goto u ⟨.polling, .out⟩).Piped := h.piped.goto (by rw [hu]; exact nofun)
    refine ⟨⟨h.work, hcounted, hkept⟩, fun hw _ => ?_⟩
    have htold : s.Told := h.told hw ⟨u, by rw [hu]; rfl⟩
    exact htold.goto (by rw [hu]; decide)
  | epoll_wait u =>
    obtain ⟨hu, hs⟩ := Option.ite_none_right_eq_some.mp hs
    obtain rfl := Option.some.inj hs
    exact h.goto_silent (by rw [hu]; decide) (by rw [hu]; rfl) (by rw [hu]; exact nofun)
      (by rw [hu]; exact id)
  | wake u tickled =>
    obtain ⟨⟨hu, htickled⟩, hs⟩ := Option.ite_none_right_eq_some.mp hs
    obtain rfl := Option.some.inj hs
    have hpiped :
        Piped ({ s with ready := s.ready && !tickled }.goto u ⟨.awake tickled, .out⟩) := by
      intro hbytes
      cases tickled with
      | true => exact .inr ⟨u, by rw [place_goto_self]⟩
      | false =>
        have hkept : (s.goto u ⟨.awake false, .out⟩).Piped := h.piped.goto (by rw [hu]; exact nofun)
        rw [Bool.not_false, Bool.and_true]
        exact hkept hbytes
    exact ⟨⟨h.work, h.counted.goto (by rw [hu]; rfl), hpiped⟩, fun _ _ => told_goto (.inr rfl)⟩
  | drain u =>
    obtain ⟨hu, hs⟩ := Option.ite_none_right_eq_some.mp hs
    obtain rfl := Option.some.inj hs
    exact ⟨⟨h.work, h.counted.goto (by rw [hu]; rfl), nofun⟩, fun _ _ => told_goto (.inr rfl)⟩
  | yield u =>
    obtain ⟨hu, hs⟩ := Option.ite_none_right_eq_some.mp hs
    obtain rfl := Option.some.inj hs
    have hkept : (s.goto u ⟨.search, .out⟩).Piped := h.piped.goto (by rw [hu]; exact nofun)
    exact ⟨⟨h.work, h.counted.leave (by rw [hu]; rfl) rfl, hkept⟩,
      fun _ _ => told_goto (.inr rfl)⟩

/-- A step towards the queue: of a call of `tickle`, of a thread that is going to look at the
queue, or of one that the pipe wakes. -/
def leads : TickleAct F C → Bool
  | .test _ | .write _ _ | .search _ | .wake _ true | .drain _ | .yield _ => true
  | _ => false

theorem Sound.exists_step (h : s.Sound) (hsleep : (s.place u).spot = .asleep) (ht : s.Told) :
    ∃ a s', leads a ∧ s.step a = some s' := by
  have htickle : ∀ v, (s.place v).tickle ≠ .out → ∃ a s', leads a ∧ s.step a = some s' := by
    intro v hv
    cases hp : (s.place v).tickle with
    | out => exact absurd hp hv
    | test => exact ⟨.test v, _, rfl, if_pos hp⟩
    | write => exact ⟨.write v true, _, rfl, if_pos hp⟩
  have hplace : ∀ v, (s.place v).tickle = .out → s.place v = ⟨(s.place v).spot, .out⟩ := by
    intro v hv
    rw [← hv]
  rcases ht with hready | ⟨v, hv⟩
  · by_cases hout : (s.place u).tickle = .out
    · have hu := hplace u hout
      rw [hsleep] at hu
      exact ⟨.wake u true, _, rfl, if_pos ⟨hu, fun _ => hready⟩⟩
    · exact htickle u hout
  · by_cases hout : (s.place v).tickle = .out
    · have hp := hplace v hout
      rw [tells, hout] at hv
      cases hspot : (s.place v).spot with
      | search =>
        rw [hspot] at hp
        obtain ⟨d, hd, -⟩ := dequeue_spec (t := (v : Int)) h.work
        exact ⟨.search v, _, rfl, (if_pos hp).trans (Option.map_eq_some_iff.mpr ⟨d, hd, rfl⟩)⟩
      | awake drains =>
        rw [hspot] at hp
        cases drains with
        | true => exact ⟨.drain v, _, rfl, if_pos hp⟩
        | false => exact ⟨.yield v, _, rfl, if_pos hp⟩
      | _ => simp [hspot, Spot.onWay] at hv
    · exact htickle v hout

/-- **No task is overlooked.** In a run that meets neither of the two moments, while a task
that anyone may take is queued and a thread sleeps, the pipe can wake a thread, or a thread is
on its way to the queue or in the midst of `tickle`. -/
theorem no_task_overlooked {workers : Nat} {acts : List (TickleAct F C)}
    (hs : run step (init workers) acts = some s)
    (hg : Guarded (fun s a => ¬ s.Misses a) step (init workers) acts) (hw : s.Waits)
    (hsleep : (s.place u).spot = .asleep) : ∃ a s', leads a ∧ s.step a = some s' := by
  have h : s.Announced :=
    run_invariant acts (fun h hg hs => Announced.step h hg hs) (announced_init workers) hg hs
  exact h.exists_step hsleep (h.told hw ⟨u, by rw [hsleep]; rfl⟩)

/-- The only thread sleeps, and a caller outside schedules a task. -/
def announcing : List (TickleAct Nat Nat) :=
  [.search 0, .idle 0, .epoll_wait 0, .scheduleLock 1 (.fiber (some 4)) (-1), .test 1,
    .write 1 false]

theorem no_task_overlooked_announcing :
    ∃ a s', leads a ∧ step ((run step (init 1) announcing).getD (init 1)) a = some s' := by
  have hg : Guarded (fun s a => ¬ s.Misses a) step (init 1) announcing :=
    .of_step id rfl <| .of_step id rfl <| .of_step id rfl <|
      .of_step (fun h => h.2.2.1 rfl) rfl <| .of_step (fun h => absurd h.1 (by decide)) rfl <|
      .of_step id rfl trivial
  exact no_task_overlooked (u := 0) rfl hg ⟨_, List.mem_singleton_self _, rfl⟩ rfl

/-- The task comes between the search of the thread and its `++m_idleThreadCount`. -/
example : ∃ s, run step (init 1 : Tickling Nat Nat) [.search 0,
      .scheduleLock 1 (.fiber (some 4)) (-1), .test 1, .idle 0, .epoll_wait 0] = some s ∧
    s.Waits ∧ (s.place 0).spot = .asleep ∧ ¬ s.Told := by
  refine ⟨_, rfl, ⟨_, List.mem_singleton_self _, rfl⟩, rfl, ?_⟩
  rintro (h | ⟨u, h⟩)
  · exact absurd h (by decide)
  · match u with
    | 0 | 1 => exact absurd h (by decide)
    | u + 2 => exact absurd h (show ¬ tells ⟨.outside, .out⟩ by decide)

end Runs

end Tickling

end Workplace.Coroutine
