import Workplace.Lib.Runs

/-! The task queue of the scheduler: `Scheduler::scheduleLock`, and the critical section in
which `Scheduler::run` looks for its next task. Fibers and callbacks are opaque here. -/

namespace Workplace.Coroutine
open Workplace.Lib

/-- What `scheduleLock` is given. `none` is a null pointer or an empty function. -/
inductive FiberOrCb (F C : Type) where
  | fiber (f : Option F)
  | cb (c : Option C)
  deriving DecidableEq, Repr

structure ScheduleTask (F C : Type) where
  fiber : Option F := none
  cb : Option C := none
  -- the thread the task is pinned to, `-1` for none
  thread : Int := -1
  deriving DecidableEq, Repr

namespace ScheduleTask
variable {F C : Type}

def of (fc : FiberOrCb F C) (thr : Int) : ScheduleTask F C :=
  match fc with
  | .fiber f => { fiber := f, thread := thr }
  | .cb c => { cb := c, thread := thr }

def hasWork (task : ScheduleTask F C) : Bool := task.fiber.isSome || task.cb.isSome

def pinnedElsewhere (task : ScheduleTask F C) (thread_id : Int) : Bool :=
  decide (task.thread ≠ -1 ∧ task.thread ≠ thread_id)

theorem not_pinnedElsewhere {task : ScheduleTask F C} {t : Int} :
    task.pinnedElsewhere t = false ↔ task.thread = -1 ∨ task.thread = t := by
  simp only [pinnedElsewhere, decide_eq_false_iff_not, not_and_or, not_not]

end ScheduleTask

/-! ## The two critical sections -/

section Sections
variable {F C α : Type}

/-- What the search for a task leaves: the task taken, the queue and `tickle_me`. -/
structure Dequeued (α : Type) where
  task : Option α
  m_tasks : List α
  tickle_me : Bool
  deriving DecidableEq, Repr

/-- The search of `Scheduler::run` for its next task; `none` is the failure of its
assertion. An entry of the queue may carry more than its task. -/
def dequeue (task : α → ScheduleTask F C) (thread_id : Int) : List α → Option (Dequeued α)
  | [] => some { task := none, m_tasks := [], tickle_me := false }
  | it :: rest =>
    if (task it).pinnedElsewhere thread_id then
      (dequeue task thread_id rest).map fun d =>
        { d with m_tasks := it :: d.m_tasks, tickle_me := true }
    else if (task it).hasWork then
      -- after `erase`, `it` stands on the entry behind the one taken
      some { task := some it, m_tasks := rest, tickle_me := !rest.isEmpty }
    else none

/-- `scheduleLock` on a queue whose entries are its tasks: the queue and `need_tickle`. -/
def scheduleLock (m_tasks : List (ScheduleTask F C)) (fc : FiberOrCb F C) (thread : Int) :
    List (ScheduleTask F C) × Bool :=
  let task := ScheduleTask.of fc thread
  (if task.hasWork then m_tasks ++ [task] else m_tasks, m_tasks.isEmpty)

variable {task : α → ScheduleTask F C} {t : Int} {q : List α}

/-- **The search** finds nothing exactly when every entry is pinned elsewhere, and else
takes the first one that is not. -/
theorem dequeue_spec (hq : ∀ e ∈ q, (task e).hasWork) :
    ∃ d, dequeue task t q = some d ∧
      (d.task = none ∧ d.m_tasks = q ∧ (∀ e ∈ q, (task e).pinnedElsewhere t) ∨
        ∃ pre e post, q = pre ++ e :: post ∧ d.task = some e ∧ d.m_tasks = pre ++ post ∧
          (task e).pinnedElsewhere t = false ∧ ∀ e' ∈ pre, (task e').pinnedElsewhere t) := by
  induction q with
  | nil => exact ⟨_, rfl, .inl ⟨rfl, rfl, by simp⟩⟩
  | cons it rest ih =>
    obtain ⟨hit, hrest⟩ := List.forall_mem_cons.mp hq
    by_cases hp : (task it).pinnedElsewhere t
    · obtain ⟨d, hd, h⟩ := ih hrest
      refine ⟨{ d with m_tasks := it :: d.m_tasks, tickle_me := true }, ?_, ?_⟩
      · rw [dequeue, if_pos hp, hd, Option.map_some]
      rcases h with ⟨hn, hm, hall⟩ | ⟨pre, e, post, rfl, he, hm, hfree, hpre⟩
      · exact .inl ⟨hn, congrArg (it :: ·) hm, List.forall_mem_cons.mpr ⟨hp, hall⟩⟩
      · exact .inr ⟨it :: pre, e, post, rfl, he, congrArg (it :: ·) hm, hfree,
          List.forall_mem_cons.mpr ⟨hp, hpre⟩⟩
    · refine ⟨_, by rw [dequeue, if_neg hp, if_pos hit], .inr ⟨[], it, rest, rfl, rfl, rfl, ?_⟩⟩
      exact ⟨by simpa using hp, by simp⟩

end Sections

/-! ## Threads at the queue -/

section Threads
variable (F C : Type)

/-- A queued task with its ticket: how many tasks were accepted before it. -/
structure Entry where
  ticket : Nat
  task : ScheduleTask F C

/-- One task taken: by whom, which one, and what the queue held at that moment. -/
structure Taking where
  thread_id : Int
  entry : Entry F C
  waiting : List (Entry F C)

structure Scheduler where
  m_tasks : List (Entry F C) := []
  m_activeThreadCount : Nat := 0
  -- every task accepted so far, in order
  accepted : List (ScheduleTask F C) := []
  -- every task taken so far, in order
  taken : List (Taking F C) := []

/-- The sections that the lock makes atomic, in the order in which threads get it. -/
inductive Act where
  | scheduleLock (fc : FiberOrCb F C) (thread : Int)
  | dequeue (thread_id : Int)

end Threads

namespace Scheduler
variable {F C : Type} {s s' : Scheduler F C}

def submitted : Act F C → Option (ScheduleTask F C)
  | .scheduleLock fc thread =>
    let task := ScheduleTask.of fc thread
    if task.hasWork then some task else none
  | .dequeue _ => none

def step (s : Scheduler F C) (a : Act F C) : Option (Scheduler F C) :=
  match a with
  | .scheduleLock fc thread =>
    match submitted (.scheduleLock fc thread) with
    | some task => some { s with
        m_tasks := s.m_tasks ++ [{ ticket := s.accepted.length, task }]
        accepted := s.accepted ++ [task] }
    | none => some s
  | .dequeue thread_id =>
    (Coroutine.dequeue Entry.task thread_id s.m_tasks).map fun d =>
      match d.task with
      | some entry => { s with
          m_tasks := d.m_tasks
          m_activeThreadCount := s.m_activeThreadCount + 1
          taken := s.taken ++ [{ thread_id, entry, waiting := s.m_tasks }] }
      | none => { s with m_tasks := d.m_tasks }

/-- The tickets of the model change nothing: on the tasks it is `scheduleLock`. -/
theorem step_scheduleLock (fc : FiberOrCb F C) (thread : Int) (s : Scheduler F C) :
    (s.step (.scheduleLock fc thread)).map (fun s' => s'.m_tasks.map Entry.task) =
      some (Coroutine.scheduleLock (s.m_tasks.map Entry.task) fc thread).1 := by
  by_cases hw : (ScheduleTask.of fc thread).hasWork
  · simp [step, submitted, Coroutine.scheduleLock, hw]
  · simp [step, submitted, Coroutine.scheduleLock, hw]

structure Accounted (s : Scheduler F C) : Prop where
  hasWork : ∀ e ∈ s.m_tasks, e.task.hasWork
  -- taken and queued tickets are together the accepted ones, each once
  tickets : (s.taken.map (·.entry.ticket) ++ s.m_tasks.map Entry.ticket).Perm
    (List.range s.accepted.length)
  queued : ∀ e ∈ s.m_tasks, s.accepted[e.ticket]? = some e.task
  takes : ∀ k ∈ s.taken, s.accepted[k.entry.ticket]? = some k.entry.task
  -- the queue is in the order of acceptance
  sorted : (s.m_tasks.map Entry.ticket).Pairwise (· < ·)
  affinity : ∀ k ∈ s.taken, k.entry.task.thread = -1 ∨ k.entry.task.thread = k.thread_id
  earliest : ∀ k ∈ s.taken, k.entry ∈ k.waiting ∧
    ∀ e ∈ k.waiting, e.task.thread = -1 ∨ e.task.thread = k.thread_id →
      k.entry.ticket ≤ e.ticket

theorem accounted_empty : Accounted ({} : Scheduler F C) where
  hasWork := by simp
  tickets := by simp
  queued := by simp
  takes := by simp
  sorted := List.Pairwise.nil
  affinity := by simp
  earliest := by simp

theorem Accounted.ticket_lt (h : Accounted s) {e : Entry F C} (he : e ∈ s.m_tasks) :
    e.ticket < s.accepted.length := by
  have hmem := h.tickets.subset (List.mem_append_right _ (List.mem_map_of_mem he))
  exact List.mem_range.mp hmem

theorem Accounted.submit (h : Accounted s) (task : ScheduleTask F C) (hw : task.hasWork) :
    Accounted { s with
      m_tasks := s.m_tasks ++ [{ ticket := s.accepted.length, task }]
      accepted := s.accepted ++ [task] } where
  hasWork := by
    intro e he
    rcases List.mem_append.mp he with he | he
    · exact h.hasWork e he
    · rw [List.mem_singleton.mp he]
      exact hw
  tickets := by
    simp only [List.map_append, List.map_cons, List.map_nil, List.length_append,
      List.length_singleton, List.range_succ, ← List.append_assoc]
    exact h.tickets.append_right _
  queued := by
    intro e he
    rcases List.mem_append.mp he with he | he
    · rw [List.getElem?_append_left (h.ticket_lt he)]
      exact h.queued e he
    · rw [List.mem_singleton.mp he]
      exact List.getElem?_concat_length
  takes := by
    intro k hk
    have hlt : k.entry.ticket < s.accepted.length := by
      have hmem := h.tickets.subset (List.mem_append_left _ (List.mem_map_of_mem hk))
      exact List.mem_range.mp hmem
    rw [List.getElem?_append_left hlt]
    exact h.takes k hk
  sorted := by
    rw [List.map_append, List.pairwise_append]
    refine ⟨h.sorted, List.pairwise_singleton _ _, fun i hi j hj => ?_⟩
    obtain ⟨e, he, rfl⟩ := List.mem_map.mp hi
    rw [List.mem_singleton.mp hj]
    exact h.ticket_lt he
  affinity := h.affinity
  earliest := h.earliest

theorem Accounted.take (h : Accounted s) {t : Int} {pre post : List (Entry F C)}
    {entry : Entry F C} (hq : s.m_tasks = pre ++ entry :: post)
    (hfree : entry.task.pinnedElsewhere t = false)
    (hpre : ∀ e ∈ pre, e.task.pinnedElsewhere t) (n : Nat) :
    Accounted { s with
      m_tasks := pre ++ post
      m_activeThreadCount := n
      taken := s.taken ++ [{ thread_id := t, entry, waiting := s.m_tasks }] } where
  hasWork := fun e he => h.hasWork e (by rw [hq]; grind)
  tickets := by
    have hperm := h.tickets
    simp only [hq, List.map_append, List.map_cons, List.map_nil] at hperm ⊢
    refine .trans ?_ hperm
    simp only [List.append_assoc, List.singleton_append]
    exact List.perm_middle.symm.append_left _
  queued := fun e he => h.queued e (by rw [hq]; grind)
  takes := by
    intro k hk
    rcases List.mem_append.mp hk with hk | hk
    · exact h.takes k hk
    · rw [List.mem_singleton.mp hk]
      exact h.queued entry (by simp [hq])
  sorted := by
    have hs := h.sorted
    rw [hq] at hs
    exact hs.sublist (((List.sublist_cons_self entry post).append_left pre).map _)
  affinity := by
    intro k hk
    rcases List.mem_append.mp hk with hk | hk
    · exact h.affinity k hk
    · rw [List.mem_singleton.mp hk]
      exact ScheduleTask.not_pinnedElsewhere.mp hfree
  earliest := by
    intro k hk
    rcases List.mem_append.mp hk with hk | hk
    · exact h.earliest k hk
    rw [List.mem_singleton.mp hk]
    refine ⟨by simp [hq], fun e he helig => ?_⟩
    -- what stands before the entry is pinned elsewhere, what stands behind it came later
    rw [hq, List.mem_append, List.mem_cons] at he
    rcases he with he | rfl | he
    · have hfree' := ScheduleTask.not_pinnedElsewhere.mpr helig
      simp [hpre e he] at hfree'
    · exact le_rfl
    · have hs := h.sorted
      rw [hq, List.map_append, List.pairwise_append, List.map_cons, List.pairwise_cons] at hs
      exact (hs.2.1.1 _ (List.mem_map_of_mem he)).le

theorem Accounted.step (h : Accounted s) (a : Act F C) :
    ∃ s', s.step a = some s' ∧ Accounted s' ∧
      s'.accepted = s.accepted ++ (submitted a).toList := by
  cases a with
  | scheduleLock fc thread =>
    by_cases hw : (ScheduleTask.of fc thread).hasWork
    · refine ⟨_, by simp only [Scheduler.step, submitted, hw, if_true]; rfl, ?_, ?_⟩
      · exact h.submit _ hw
      · simp [submitted, hw]
    · refine ⟨s, by simp [Scheduler.step, submitted, hw], h, ?_⟩
      simp [submitted, hw]
  | dequeue t =>
    obtain ⟨d, hd, ⟨hn, hm, -⟩ | ⟨pre, e, post, hq, he, hm, hfree, hpre⟩⟩ :=
      dequeue_spec (t := t) h.hasWork
    · refine ⟨s, ?_, h, by simp [submitted]⟩
      simp [Scheduler.step, hd, hn, hm]
    · refine ⟨_, by simp only [Scheduler.step, hd, Option.map_some, he, hm]; rfl, ?_, ?_⟩
      · exact h.take hq hfree hpre _
      · simp [submitted]

/-- **The queue loses, copies and misplaces nothing.** For every order in which threads get
the lock: no assertion fails, each accepted task is taken once or still queued, a pinned
task only goes to its thread, and a thread takes the earliest task it may take. -/
theorem taskQueue_accounts (acts : List (Act F C)) :
    ∃ s : Scheduler F C, run step {} acts = some s ∧
      s.accepted = acts.filterMap submitted ∧
      (s.taken.map (·.entry.ticket) ++ s.m_tasks.map Entry.ticket).Perm
        (List.range s.accepted.length) ∧
      (∀ e ∈ s.taken.map Taking.entry ++ s.m_tasks, s.accepted[e.ticket]? = some e.task) ∧
      (∀ k ∈ s.taken, k.entry.task.thread ≠ -1 → k.entry.task.thread = k.thread_id) ∧
      ∀ k ∈ s.taken, k.entry ∈ k.waiting ∧ ∀ e ∈ k.waiting,
        e.task.thread = -1 ∨ e.task.thread = k.thread_id → k.entry.ticket ≤ e.ticket := by
  suffices hrun : ∀ s : Scheduler F C, Accounted s → ∃ s', run step s acts = some s' ∧
      Accounted s' ∧ s'.accepted = s.accepted ++ acts.filterMap submitted by
    obtain ⟨s, hs, h, hacc⟩ := hrun {} accounted_empty
    refine ⟨s, hs, by simpa using hacc, h.tickets, fun e he => ?_, ?_, h.earliest⟩
    · rcases List.mem_append.mp he with he | he
      · obtain ⟨k, hk, rfl⟩ := List.mem_map.mp he
        exact h.takes k hk
      · exact h.queued e he
    · exact fun k hk hne => (h.affinity k hk).resolve_left hne
  induction acts with
  | nil => exact fun s h => ⟨s, rfl, h, by simp⟩
  | cons a acts ih =>
    intro s h
    obtain ⟨s₁, hs₁, h₁, hacc₁⟩ := h.step a
    obtain ⟨s₂, hs₂, h₂, hacc₂⟩ := ih s₁ h₁
    refine ⟨s₂, by rw [run, hs₁, Option.bind_some, hs₂], h₂, ?_⟩
    rw [hacc₂, hacc₁, List.append_assoc, List.filterMap_cons]
    cases submitted a <;> simp

end Scheduler
end Workplace.Coroutine
