import Mathlib.Data.List.Perm.Basic
import Mathlib.Data.List.Nodup
import Mathlib.Tactic

/-! A condition variable, and the number of things its waiters wait for. A thread blocked in
`wait` is woken by a notification, or without one, and tests again once it has the mutex. -/

namespace Workplace.Lib

structure CondVar (κ : Type) where
  blocked : List κ := []
  -- out of `wait`, and not yet at the test
  woken : List κ := []

namespace CondVar
variable {κ : Type} {c c' : CondVar κ} {k : κ} {o : Option κ} {n : ℕ}

def waiters (c : CondVar κ) : List κ := c.blocked ++ c.woken

/-- While a thread is blocked, the things that lie ready are for threads on their way. -/
def Covers (c : CondVar κ) (n : ℕ) : Prop := c.blocked ≠ [] → n ≤ c.woken.length

def wait (c : CondVar κ) (k : κ) : CondVar κ := { c with blocked := c.blocked ++ [k] }

theorem waiters_wait (c : CondVar κ) (k : κ) : (c.wait k).waiters.Perm (k :: c.waiters) := by
  rw [waiters, wait, List.append_assoc]
  exact List.perm_middle

theorem covers_zero (c : CondVar κ) : c.Covers 0 := fun _ => Nat.zero_le _

theorem Covers.take (h : c.Covers (n + 1)) : c.Covers n :=
  fun hb => (Nat.le_succ n).trans (h hb)

/-- No notification is lost: where something lies ready, not every waiter is blocked. -/
theorem Covers.exists_woken (h : c.Covers n) (hn : 0 < n) (hb : c.blocked ≠ []) :
    ∃ k, k ∈ c.woken := by
  have hpos : 0 < c.woken.length := hn.trans_le (h hb)
  exact List.exists_mem_of_length_pos hpos

variable [DecidableEq κ]

def wake (c : CondVar κ) (k : κ) : CondVar κ :=
  { blocked := c.blocked.erase k, woken := c.woken ++ [k] }

/-- The thread has the mutex again. -/
def leave (c : CondVar κ) (k : κ) : CondVar κ := { c with woken := c.woken.erase k }

/-- `notify_one`, which unblocks one of the blocked threads, if there is one. -/
def notifyOne (c : CondVar κ) : Option κ → Option (CondVar κ)
  | none => if c.blocked = [] then some c else none
  | some k => if k ∈ c.blocked then some (c.wake k) else none

theorem notifyOne_cases (h : c.notifyOne o = some c') :
    c.blocked = [] ∧ c' = c ∨ ∃ k ∈ c.blocked, c' = c.wake k := by
  cases o with
  | none =>
    simp only [notifyOne] at h
    split_ifs at h with hb
    exact .inl ⟨hb, (Option.some.inj h).symm⟩
  | some k =>
    simp only [notifyOne] at h
    split_ifs at h with hk
    exact .inr ⟨k, hk, (Option.some.inj h).symm⟩

theorem exists_notifyOne (c : CondVar κ) : ∃ o c', c.notifyOne o = some c' := by
  cases hb : c.blocked with
  | nil => exact ⟨none, c, if_pos hb⟩
  | cons k rest =>
    have hk : k ∈ c.blocked := hb ▸ List.mem_cons_self
    exact ⟨some k, c.wake k, if_pos hk⟩

theorem waiters_wake (hk : k ∈ c.blocked) : (c.wake k).waiters.Perm c.waiters := by
  have hperm : c.blocked.Perm (k :: c.blocked.erase k) := List.perm_cons_erase hk
  rw [waiters, wake, ← List.append_assoc]
  exact (List.perm_append_singleton k _).trans (hperm.append_right c.woken).symm

theorem waiters_leave (hk : k ∈ c.woken) : c.waiters.Perm (k :: (c.leave k).waiters) := by
  have hperm : c.woken.Perm (k :: c.woken.erase k) := List.perm_cons_erase hk
  exact (hperm.append_left c.blocked).trans List.perm_middle

theorem nodup_leave (h : c.waiters.Nodup) : (c.leave k).waiters.Nodup :=
  h.sublist ((List.Sublist.refl c.blocked).append List.erase_sublist)

theorem waiters_notifyOne (h : c.notifyOne o = some c') : c'.waiters.Perm c.waiters := by
  rcases notifyOne_cases h with ⟨-, rfl⟩ | ⟨k, hk, rfl⟩
  · exact List.Perm.refl _
  · exact waiters_wake hk

theorem Covers.wake (h : c.Covers n) (hk : k ∈ c.blocked) : (c.wake k).Covers n := by
  intro _
  have hb : c.blocked ≠ [] := List.ne_nil_of_mem hk
  rw [CondVar.wake, List.length_append]
  exact (h hb).trans (Nat.le_add_right _ _)

/-- The thread that is woken is there for the thing that came. -/
theorem Covers.notifyOne (h : c.Covers n) (hc : c.notifyOne o = some c') :
    c'.Covers (n + 1) := by
  rcases notifyOne_cases hc with ⟨hb, rfl⟩ | ⟨k, hk, rfl⟩
  · exact fun hne => absurd hb hne
  · intro _
    have hlen : (c.wake k).woken.length = c.woken.length + 1 := List.length_append
    rw [hlen]
    exact Nat.succ_le_succ (h (List.ne_nil_of_mem hk))

theorem Covers.leave (h : c.Covers (n + 1)) (hk : k ∈ c.woken) : (c.leave k).Covers n := by
  intro hb
  have hlen : (c.leave k).woken.length = c.woken.length - 1 := List.length_erase_of_mem hk
  have hle : n + 1 ≤ c.woken.length := h hb
  omega

end CondVar
end Workplace.Lib
