import Mathlib.Data.List.DropRight
import Mathlib.Algebra.Order.BigOperators.Group.List
import Mathlib.Tactic

/-! Jobs in a row that wait for their input. The input of all of them comes as one stream,
cut anywhere; an arrival completes at most the first job that is left, and only if its
whole input is there. What is left at the end depends on the sizes alone. -/

namespace Workplace.Lib

/-- The jobs left after these arrivals, when `held` is the input no job has used yet. -/
def unserved : List Nat → Nat → List Nat → List Nat
  | jobs, _, [] => jobs
  | [], held, a :: as => unserved [] (held + a) as
  | j :: js, held, a :: as =>
    if j ≤ held + a then unserved js (held + a - j) as else unserved (j :: js) (held + a) as

/-- The last `k` arrivals bring no more than the last `k` jobs need. -/
def Spread (jobs arrivals : List Nat) : Prop :=
  ∀ k, (arrivals.rtake k).sum ≤ (jobs.rtake k).sum

theorem rtake_of_length_le {α : Type*} {l : List α} {k : Nat} (h : l.length ≤ k) :
    l.rtake k = l := by
  rw [List.rtake, Nat.sub_eq_zero_of_le h, List.drop_zero]

theorem rtake_cons {α : Type*} {a : α} {l : List α} {k : Nat} (h : k ≤ l.length) :
    (a :: l).rtake k = l.rtake k := by
  rw [List.rtake, List.rtake, List.length_cons, Nat.sub_add_comm h, List.drop_succ_cons]

theorem sum_rtake_le (l : List Nat) (k : Nat) : (l.rtake k).sum ≤ l.sum :=
  (List.drop_sublist _ l).sum_le_sum fun _ _ => Nat.zero_le _

/-- `Spread` at a point where input may be held back: there the number of arrivals counts
as well, since what is held is no use without another arrival. -/
def SpreadFrom (jobs arrivals : List Nat) : Prop :=
  jobs.length ≤ arrivals.length ∧
    ∀ k < arrivals.length, (arrivals.rtake k).sum ≤ (jobs.rtake k).sum

section
variable {j a held : Nat} {js as jobs arrivals : List Nat}

theorem spreadFrom_serve (hle : as.sum ≤ js.sum) :
    SpreadFrom (j :: js) (a :: as) ↔ SpreadFrom js as := by
  have hcons : ∀ k, k ≤ js.length → (j :: js).rtake k = js.rtake k := fun k hk => rtake_cons hk
  have hbig : ∀ k, js.length < k → (as.rtake k).sum ≤ (js.rtake k).sum ∧
      (as.rtake k).sum ≤ ((j :: js).rtake k).sum := by
    intro k hk
    have hs := (sum_rtake_le as k).trans hle
    rw [rtake_of_length_le hk.le, rtake_of_length_le (l := j :: js) (by simpa using hk)]
    exact ⟨hs, by simp; omega⟩
  simp only [SpreadFrom, List.length_cons]
  constructor
  · rintro ⟨hn, hk⟩
    refine ⟨by omega, fun k hlt => ?_⟩
    by_cases h : k ≤ js.length
    · simpa only [rtake_cons (a := a) hlt.le, hcons k h] using hk k (by omega)
    · exact (hbig k (by omega)).1
  · rintro ⟨hn, hk⟩
    refine ⟨by omega, fun k hlt => ?_⟩
    rw [rtake_cons (by omega)]
    by_cases h : k ≤ js.length
    · rw [hcons k h]
      by_cases hlast : k < as.length
      · exact hk k hlast
      · have hall : js.length ≤ k := by omega
        rw [rtake_of_length_le hall]
        exact (sum_rtake_le as k).trans hle
    · exact (hbig k (by omega)).2

theorem spreadFrom_wait (hsum : held + (a + as.sum) = j + js.sum) (hlt : held + a < j) :
    SpreadFrom (j :: js) (a :: as) ↔ SpreadFrom (j :: js) as := by
  simp only [SpreadFrom, List.length_cons]
  constructor
  · rintro ⟨hn, hk⟩
    have hlast := hk as.length (by omega)
    rw [rtake_cons (by omega), rtake_of_length_le (l := as) (by omega)] at hlast
    refine ⟨?_, fun k hlt => ?_⟩
    · by_contra hcon
      -- the arrivals that are left would have to bring the rest of the first job too
      have he : as.length = js.length := by omega
      rw [he, rtake_cons le_rfl, rtake_of_length_le le_rfl] at hlast
      omega
    · simpa only [rtake_cons (a := a) hlt.le] using hk k (by omega)
  · rintro ⟨hn, hk⟩
    refine ⟨by omega, fun k hlt => ?_⟩
    rw [rtake_cons (by omega)]
    by_cases hlast : k < as.length
    · exact hk k hlast
    · rw [rtake_of_length_le (l := j :: js) (by simp; omega), List.sum_cons]
      have := sum_rtake_le as k
      omega

theorem unserved_nil_iff (hsum : held + arrivals.sum = jobs.sum) :
    unserved jobs held arrivals = [] ↔ SpreadFrom jobs arrivals := by
  induction arrivals generalizing jobs held with
  | nil =>
    rw [unserved]
    simp [SpreadFrom]
  | cons a as ih =>
    rw [List.sum_cons] at hsum
    cases jobs with
    | nil =>
      rw [List.sum_nil] at hsum
      rw [unserved, ih (by rw [List.sum_nil]; omega)]
      simp only [SpreadFrom, List.length_nil, Nat.zero_le, true_and, List.rtake_nil, List.sum_nil]
      constructor
      · intro _ k _
        have := sum_rtake_le (a :: as) k
        rw [List.sum_cons] at this
        omega
      · intro _ k _
        have := sum_rtake_le as k
        omega
    | cons j js =>
      rw [List.sum_cons] at hsum
      rw [unserved]
      split_ifs with hj
      · rw [ih (by omega), spreadFrom_serve (by omega)]
      · rw [ih (by simp; omega), spreadFrom_wait hsum (by omega)]

/-- **Every job is served exactly when** for no `k` the last `k` arrivals bring more than
the last `k` jobs need. -/
theorem unserved_eq_nil_iff (hpos : ∀ j ∈ jobs, 0 < j) (hsum : arrivals.sum = jobs.sum) :
    unserved jobs 0 arrivals = [] ↔ Spread jobs arrivals := by
  rw [unserved_nil_iff (by omega)]
  constructor
  · rintro ⟨hn, hk⟩ k
    by_cases h : k < arrivals.length
    · exact hk k h
    · rw [rtake_of_length_le (by omega), rtake_of_length_le (by omega), hsum]
  · intro h
    refine ⟨?_, fun k _ => h k⟩
    by_contra hcon
    have hall := h arrivals.length
    rw [rtake_of_length_le le_rfl, hsum] at hall
    -- a job is missing among the last ones, and it needs something
    obtain ⟨j, js, rfl⟩ : ∃ j js, jobs = j :: js := by
      cases jobs with
      | nil => simp at hcon
      | cons j js => exact ⟨j, js, rfl⟩
    rw [rtake_cons (by simpa using hcon), List.sum_cons] at hall
    have hle := sum_rtake_le js arrivals.length
    have := hpos j (by simp)
    omega

end
end Workplace.Lib
