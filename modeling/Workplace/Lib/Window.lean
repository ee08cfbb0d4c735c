import Mathlib.Data.List.Basic
import Mathlib.Tactic

/-! Runs of consecutive positions on a line, counted outwards from one of them. -/

namespace Workplace.Lib.Window

/-- How many of the positions `1, …, n` hold, up to the first that does not. -/
def reach (n : Nat) (ok : Nat → Bool) : Nat := ((List.range' 1 n).takeWhile ok).length

theorem le_length_takeWhile {ok : Nat → Bool} {s n k : Nat} :
    k ≤ ((List.range' s n).takeWhile ok).length ↔
      k ≤ n ∧ ∀ i, s ≤ i → i < s + k → ok i = true := by
  induction n generalizing s k with
  | zero =>
    simp only [List.range'_zero, List.takeWhile_nil, List.length_nil]
    exact ⟨fun h => ⟨h, fun i _ _ => by omega⟩, And.left⟩
  | succ n ih =>
    rw [List.range'_succ, List.takeWhile_cons]
    by_cases hs : ok s = true
    · rw [if_pos hs, List.length_cons]
      rcases k with _ | k
      · exact iff_of_true (Nat.zero_le _) ⟨Nat.zero_le _, fun i _ _ => by omega⟩
      rw [Nat.succ_le_succ_iff, ih]
      refine and_congr Nat.succ_le_succ_iff.symm ⟨fun h i hi hk => ?_, fun h i hi hk => ?_⟩
      · rcases hi.eq_or_lt with rfl | hi
        · exact hs
        · exact h i hi (by omega)
      · exact h i (by omega) (by omega)
    · rw [if_neg hs, List.length_nil]
      refine ⟨fun h => ⟨by omega, fun i _ _ => by omega⟩, fun ⟨_, h⟩ => ?_⟩
      by_contra hk
      exact hs (h s le_rfl (by omega))

theorem le_reach {n k : Nat} {ok : Nat → Bool} :
    k ≤ reach n ok ↔ k ≤ n ∧ ∀ i, 1 ≤ i → i ≤ k → ok i = true := by
  rw [reach, le_length_takeWhile]
  refine and_congr_right fun _ => ⟨fun h i hi hk => h i hi (by omega), fun h i hi hk => ?_⟩
  exact h i hi (by omega)

/-- **Counting outwards** from position `0` finds a run of `w + 1` exactly when there is one
through that position. -/
theorem window_iff (P : Int → Bool) (w : Nat) :
    w + 1 ≤ 1 + reach w (fun i => P i) + reach w (fun i => P (-i)) ↔
      ∃ k ≤ w, ∀ i ≤ w, i ≠ k → P ((i : Int) - k) = true := by
  constructor
  · intro h
    -- the run starts where the count backwards stopped
    obtain ⟨hk, hback⟩ := le_reach.mp (le_refl (reach w fun i => P (-i)))
    obtain ⟨-, hfwd⟩ := le_reach.mp (le_refl (reach w fun i => P i))
    refine ⟨_, hk, fun i hi hne => ?_⟩
    generalize reach w (fun i => P (-i)) = k at *
    rcases Nat.lt_or_gt_of_ne hne with hlt | hgt
    · have := hback (k - i) (by omega) (by omega)
      rwa [show -((k - i : Nat) : Int) = (i : Int) - k by omega] at this
    · have := hfwd (i - k) (by omega) (by omega)
      rwa [show ((i - k : Nat) : Int) = (i : Int) - k by omega] at this
  · rintro ⟨k, hk, h⟩
    have hback : k ≤ reach w fun i => P (-i) := by
      refine le_reach.mpr ⟨hk, fun i hi hik => ?_⟩
      have := h (k - i) (by omega) (by omega)
      rwa [show ((k - i : Nat) : Int) - k = -(i : Int) by omega] at this
    have hfwd : w - k ≤ reach w fun i => P i := by
      refine le_reach.mpr ⟨by omega, fun i hi hik => ?_⟩
      have := h (k + i) (by omega) (by omega)
      rwa [show ((k + i : Nat) : Int) - k = (i : Int) by omega] at this
    omega

end Workplace.Lib.Window
