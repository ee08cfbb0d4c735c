import Workplace.Coroutine.TaskQueue
import Workplace.Lib.Potential

/-! How long a task waits in the queue of the scheduler. A thread may overtake a task that is
pinned to another one, so only the searches of the threads that may take it are counted. -/

namespace Workplace.Coroutine.Scheduler
open Workplace.Lib
variable {F C : Type} {s s' : Scheduler F C} {e : Entry F C}

/-- The searches that could take the task. -/
def mayTake (task : ScheduleTask F C) : Act F C → Bool
  | .scheduleLock _ _ => false
  | .dequeue thread_id => !task.pinnedElsewhere thread_id

/-- The tasks that stand before the entry. -/
def ahead (s : Scheduler F C) (e : Entry F C) : ℕ := s.m_tasks.countP (·.ticket < e.ticket)

def Taken (e : Entry F C) (s : Scheduler F C) : Prop := e ∈ s.taken.map Taking.entry

/-- What one step does to the queue. -/
theorem Accounted.step_cases (h : Accounted s) {a : Act F C} (hs : s.step a = some s') :
    s' = s ∧ (∀ t, a = .dequeue t → ∀ e ∈ s.m_tasks, e.task.pinnedElsewhere t) ∨
    (∃ fc thread task, a = .scheduleLock fc thread ∧
      s'.m_tasks = s.m_tasks ++ [{ ticket := s.accepted.length, task }] ∧ s'.taken = s.taken) ∨
    ∃ t pre e post, a = .dequeue t ∧ s.m_tasks = pre ++ e :: post ∧
      s'.m_tasks = pre ++ post ∧
      s'.taken = s.taken ++ [{ thread_id := t, entry := e, waiting := s.m_tasks }] ∧
      ∀ e' ∈ pre, e'.task.pinnedElsewhere t := by
  cases a with
  | scheduleLock fc thread =>
    by_cases hw : (ScheduleTask.of fc thread).hasWork
    · simp only [Scheduler.step, submitted, hw, if_true, Option.some.injEq] at hs
      exact .inr (.inl ⟨fc, thread, _, rfl, by rw [← hs], by rw [← hs]⟩)
    · simp only [Scheduler.step, submitted, hw, Bool.false_eq_true, if_false,
        Option.some.injEq] at hs
      exact .inl ⟨hs.symm, by simp⟩
  | dequeue t =>
    obtain ⟨d, hd, hcases⟩ := dequeue_spec (t := t) h.hasWork
    rw [Scheduler.step, hd, Option.map_some, Option.some.injEq] at hs
    rcases hcases with ⟨hn, hm, hall⟩ | ⟨pre, e, post, hq, he, hm, -, hpre⟩
    · rw [hn, hm] at hs
      refine .inl ⟨hs.symm, fun u hu => ?_⟩
      rw [← Act.dequeue.inj hu]
      exact hall
    · rw [he, hm] at hs
      exact .inr (.inr ⟨t, pre, e, post, rfl, hq, by rw [← hs], by rw [← hs], hpre⟩)

theorem Accounted.of_step (h : Accounted s) {a : Act F C} (hs : s.step a = some s') :
    Accounted s' := by
  obtain ⟨s₁, hs₁, h₁, -⟩ := h.step a
  rw [hs] at hs₁
  exact Option.some.inj hs₁ ▸ h₁

/-- No step takes a task out of the ones that were taken. -/
theorem Accounted.taken_step (h : Accounted s) (ht : Taken e s) {a : Act F C}
    (hs : s.step a = some s') : Taken e s' := by
  unfold Taken
  rcases h.step_cases hs with ⟨rfl, -⟩ | ⟨fc, thread, task, -, -, htaken⟩ |
    ⟨t, pre, e', post, -, -, -, htaken, -⟩
  · exact ht
  · rw [htaken]
    exact ht
  · rw [htaken, List.map_append]
    exact List.mem_append_left _ ht

/-- A search by a thread that may take the task takes it, or one that stands before it, and
what is scheduled later stands behind it. -/
theorem Accounted.step_ahead (h : Accounted s) (he : e ∈ s.m_tasks) {a : Act F C}
    (hs : s.step a = some s') :
    Taken e s' ∨ e ∈ s'.m_tasks ∧ s'.ahead e + (mayTake e.task a).toNat ≤ s.ahead e := by
  rcases h.step_cases hs with ⟨rfl, hall⟩ | ⟨fc, thread, task, rfl, hm, -⟩ |
    ⟨t, pre, e', post, rfl, hq, hm, htaken, hpre⟩
  · refine .inr ⟨he, ?_⟩
    have hnot : mayTake e.task a = false := by
      cases a with
      | scheduleLock fc thread => rfl
      | dequeue t => rw [mayTake, hall t rfl e he, Bool.not_true]
    rw [hnot, Bool.toNat_false, Nat.add_zero]
  · refine .inr ⟨by rw [hm]; exact List.mem_append_left _ he, ?_⟩
    have hbehind : ¬ s.accepted.length < e.ticket := (h.ticket_lt he).asymm
    simp [ahead, hm, mayTake, hbehind]
  · have hsorted := h.sorted
    rw [hq, List.map_append, List.pairwise_append, List.map_cons, List.pairwise_cons] at hsorted
    have hsplit : s.ahead e = (pre ++ post).countP (·.ticket < e.ticket) +
        (decide (e'.ticket < e.ticket)).toNat := by
      simp only [ahead, hq, List.countP_append, List.countP_cons, toNat_eq_ite, Nat.add_assoc]
    rw [hq, List.mem_append, List.mem_cons] at he
    rcases he with hin | rfl | hin
    · -- the search passed it, so it is pinned elsewhere
      refine .inr ⟨by rw [hm]; exact List.mem_append_left _ hin, ?_⟩
      rw [mayTake, hpre e hin, Bool.not_true, Bool.toNat_false, Nat.add_zero, hsplit, ahead, hm]
      exact Nat.le_add_right _ _
    · refine .inl ?_
      rw [Taken, htaken, List.map_append]
      exact List.mem_append_right _ (List.mem_singleton_self _)
    · refine .inr ⟨by rw [hm]; exact List.mem_append_right _ hin, ?_⟩
      have hlt : e'.ticket < e.ticket := hsorted.2.1.1 _ (List.mem_map_of_mem hin)
      rw [hsplit, decide_eq_true hlt, ahead, hm]
      exact Nat.add_le_add_left (Bool.toNat_le _) _

/-- **Bounded waiting.** A queued task is taken by the time that the threads that may take it
have searched the queue once more often than there are tasks before it, whatever is scheduled
meanwhile and whatever the other threads take. -/
theorem taken_within {before after : List (Act F C)} (hs : run step {} before = some s)
    (he : e ∈ s.m_tasks) (hrun : run step s after = some s')
    (hmany : s.ahead e < after.countP (mayTake e.task)) : Taken e s' := by
  have h : Accounted s :=
    run_invariant_of_step before (fun hinv hstep => hinv.of_step hstep) accounted_empty hs
  have hend := run_until_served (fun s => Accounted s ∧ e ∈ s.m_tasks)
    (fun s => Accounted s ∧ Taken e s) (fun s => s.ahead e) (mayTake e.task) after
    (fun hinv hstep => ⟨hinv.1.of_step hstep, hinv.1.taken_step hinv.2 hstep⟩)
    (fun s a s' hinv hstep => ?_) ⟨h, he⟩ hrun
  · rcases hend with ⟨-, htaken⟩ | ⟨-, hle⟩
    · exact htaken
    · exact absurd hmany (by omega)
  · have hacc := hinv.1.of_step hstep
    rcases hinv.1.step_ahead hinv.2 hstep with htaken | ⟨hin, hle⟩
    · exact .inl ⟨hacc, htaken⟩
    · exact .inr ⟨⟨hacc, hin⟩, hle⟩

/-- A task for anyone waits behind one that is pinned to the second thread; the third thread
takes it at once. -/
theorem taken_within_unpinned :
    Taken { ticket := 1, task := { fiber := some 5 } }
      ((run step ({} : Scheduler Nat Nat) [.scheduleLock (.fiber (some 4)) 2,
        .scheduleLock (.fiber (some 5)) (-1), .dequeue 3, .dequeue 2]).getD {}) :=
  @taken_within Nat Nat _ _ _
    [.scheduleLock (.fiber (some 4)) 2, .scheduleLock (.fiber (some 5)) (-1)]
    [.dequeue 3, .dequeue 2] rfl (.tail _ (.head _)) rfl (by decide)

end Workplace.Coroutine.Scheduler
