import Mathlib.Data.List.Perm.Basic
import Mathlib.Order.OrderDual
import Mathlib.Order.Lattice
import Mathlib.Order.MinMax

/-! Minimax over a game of two players, and the same search with alpha-beta pruning. The values
are any linear order; the loop of the minimizing player is the other one in the dual order. -/

namespace Workplace.Lib.AlphaBeta
open OrderDual

variable {P M α : Type*} [LinearOrder α] {alpha beta lo hi v r : α}

/-- What a search with a window may answer for a position of value `v`: the value inside of the
window, a bound for the value outside of it. -/
structure Answers (alpha beta v r : α) : Prop where
  below : r ≤ alpha → v ≤ r
  inside : alpha < r → r < beta → r = v
  above : beta ≤ r → r ≤ v

theorem Answers.refl (alpha beta v : α) : Answers alpha beta v v :=
  ⟨fun _ => le_rfl, fun _ _ => rfl, fun _ => le_rfl⟩

theorem Answers.dual (h : Answers alpha beta v r) :
    Answers (toDual beta) (toDual alpha) (toDual v) (toDual r) :=
  ⟨h.above, fun hb ha => congrArg toDual (h.inside ha hb), h.below⟩

/-- With the full window there is no outside. -/
theorem Answers.eq (h : Answers lo hi v r) (hlo : lo ≤ v) (hhi : v ≤ hi) : r = v := by
  rcases le_or_gt r lo with hr | hr
  · exact le_antisymm (hr.trans hlo) (h.below hr)
  · rcases lt_or_ge r hi with hr' | hr'
    · exact h.inside hr hr'
    · exact le_antisymm (h.above hr') (hhi.trans hr')

/-! ## One node -/

/-- The loop of the maximizing player over the moves, with its break. -/
def loop (score : M → α → α → α) : List M → α → α → α → α
  | [], best, _, _ => best
  | m :: ms, best, alpha, beta =>
    let best := max best (score m alpha beta)
    let alpha := max alpha best
    if beta ≤ alpha then best else loop score ms best alpha beta

theorem le_foldl_max (value : M → α) (ms : List M) (v : α) :
    v ≤ ms.foldl (fun v m => max v (value m)) v := by
  induction ms generalizing v with
  | nil => exact le_rfl
  | cons m ms ih => exact (le_max_left v (value m)).trans (ih _)

theorem foldl_max_le (value : M → α) (ms : List M) (hv : v ≤ hi)
    (h : ∀ m ∈ ms, value m ≤ hi) : ms.foldl (fun v m => max v (value m)) v ≤ hi := by
  induction ms generalizing v with
  | nil => exact hv
  | cons m ms ih =>
    exact ih (max_le hv (h m List.mem_cons_self)) fun n hn => h n (List.mem_cons_of_mem m hn)

/-- One move more: `best` answers for the moves so far, and the score of the next one was
searched with what they left of the window. -/
theorem Answers.max {best value s : α} (h : Answers alpha beta v best) (hlt : best < beta)
    (hs : Answers (max alpha best) beta value s) :
    Answers alpha beta (max v value) (max best s) := by
  have hv : v ≤ Max.max alpha best := by
    rcases le_or_gt best alpha with hle | hgt
    · exact (h.below hle).trans (le_max_right _ _)
    · exact (h.inside hgt hlt).ge.trans (le_max_right _ _)
  constructor
  · intro hle
    obtain ⟨hb, hsa⟩ := max_le_iff.mp hle
    exact max_le_max (h.below hb) (hs.below (hsa.trans (le_max_left _ _)))
  · intro hgt hlt'
    obtain ⟨-, hsb⟩ := max_lt_iff.mp hlt'
    rcases le_or_gt s (Max.max alpha best) with hle | hgt'
    · -- the move is no better than `best`, which is then the one above `alpha`
      have hbest : alpha < best := by
        by_contra hle'
        rw [not_lt] at hle'
        rw [max_eq_left hle'] at hle
        exact absurd hgt (not_lt.mpr (max_le hle' hle))
      rw [max_eq_right hbest.le] at hle
      rw [max_eq_left hle, max_eq_left ((hs.below (hle.trans (le_max_right _ _))).trans
        (hle.trans (h.inside hbest hlt).le)), h.inside hbest hlt]
    · have hval := hs.inside hgt' hsb
      rw [max_eq_right ((le_max_right _ _).trans hgt'.le), ← hval,
        max_eq_right (hv.trans hgt'.le)]
  · intro hge
    have hsb : beta ≤ s := (le_max_iff.mp hge).resolve_left (not_le.mpr hlt)
    rw [max_eq_right (hlt.le.trans hsb)]
    exact (hs.above hsb).trans (le_max_right _ _)

/-- **The loop answers for the best of its moves**, when the search below it answers for each. -/
theorem loop_answers (value : M → α) (score : M → α → α → α) (ms : List M) {best : α}
    (h : Answers alpha beta v best) (hlt : best < beta) (hwindow : alpha < beta)
    (hscore : ∀ m ∈ ms, ∀ a, alpha ≤ a → a < beta → Answers a beta (value m) (score m a beta)) :
    Answers alpha beta (ms.foldl (fun v m => max v (value m)) v)
      (loop score ms best (max alpha best) beta) := by
  induction ms generalizing v best with
  | nil => exact h
  | cons m ms ih =>
    have hnext := h.max hlt (hscore m List.mem_cons_self _ (le_max_left _ _)
      (max_lt hwindow hlt))
    set s := score m (max alpha best) beta with hs
    simp only [loop, List.foldl_cons, ← hs]
    split_ifs with hbreak
    · -- the pruning: a score from `beta` on is a bound whatever the other moves give
      have hge : beta ≤ max best s := by
        rw [max_assoc, ← max_assoc best, max_self] at hbreak
        exact (le_max_iff.mp hbreak).resolve_left (not_le.mpr hwindow)
      refine ⟨fun hle => absurd (hge.trans hle) (not_le.mpr hwindow),
        fun _ hlt' => absurd hge (not_le.mpr hlt'), fun _ => ?_⟩
      exact (hnext.above hge).trans (le_foldl_max value ms _)
    · rw [max_assoc, ← max_assoc best, max_self] at hbreak ⊢
      exact ih hnext ((le_max_right _ _).trans_lt (not_le.mp hbreak)) fun n hn =>
        hscore n (List.mem_cons_of_mem m hn)

/-! ## The tree -/

/-- The value of a position for the maximizing player (`true`), the moves of each player and
the positions they lead to. -/
structure Game (P M α : Type*) where
  leaf : P → α
  moves : Bool → P → List M
  play : Bool → P → M → P

namespace Game

variable (G : Game P M α)

/-- A node without moves has the worst value there is for the player to move. -/
def minimax (lo hi : α) : Nat → Bool → P → α
  | 0, _, p => G.leaf p
  | depth + 1, true, p => (G.moves true p).foldl
      (fun v m => max v (minimax lo hi depth false (G.play true p m))) lo
  | depth + 1, false, p => (G.moves false p).foldl
      (fun v m => min v (minimax lo hi depth true (G.play false p m))) hi

def alphaBeta (lo hi : α) : Nat → Bool → P → α → α → α
  | 0, _, p, _, _ => G.leaf p
  | depth + 1, true, p, alpha, beta =>
    loop (fun m alpha beta => alphaBeta lo hi depth false (G.play true p m) alpha beta)
      (G.moves true p) lo alpha beta
  | depth + 1, false, p, alpha, beta =>
    ofDual (loop (fun m (beta alpha : αᵒᵈ) =>
        toDual (alphaBeta lo hi depth true (G.play false p m) (ofDual alpha) (ofDual beta)))
      (G.moves false p) (toDual hi) (toDual beta) (toDual alpha))

variable {G}

theorem minimax_mem (hlohi : lo ≤ hi) (hleaf : ∀ p, lo ≤ G.leaf p ∧ G.leaf p ≤ hi) (depth : Nat)
    (side : Bool) (p : P) :
    lo ≤ G.minimax lo hi depth side p ∧ G.minimax lo hi depth side p ≤ hi := by
  induction depth generalizing side p with
  | zero => exact hleaf p
  | succ depth ih =>
    cases side with
    | true => exact ⟨le_foldl_max _ _ _, foldl_max_le _ _ hlohi fun m _ => (ih _ _).2⟩
    | false =>
      exact ⟨foldl_max_le (α := αᵒᵈ) _ _ hlohi fun m _ => (ih _ _).1,
        le_foldl_max (α := αᵒᵈ) _ _ _⟩

/-- **Pruning answers for the value of minimax**, at any depth and with any window. -/
theorem alphaBeta_answers (depth : Nat) (side : Bool) (p : P) (hlo : lo ≤ alpha)
    (hhi : beta ≤ hi) (hlt : alpha < beta) :
    Answers alpha beta (G.minimax lo hi depth side p)
      (G.alphaBeta lo hi depth side p alpha beta) := by
  induction depth generalizing side p alpha beta with
  | zero => exact .refl _ _ _
  | succ depth ih =>
    cases side with
    | true =>
      have h := loop_answers (fun m => G.minimax lo hi depth false (G.play true p m)) _
        (G.moves true p) (.refl alpha beta lo) (hlo.trans_lt hlt) hlt
        fun m _ a ha hab => ih false (G.play true p m) (hlo.trans ha) hhi hab
      rwa [max_eq_left hlo] at h
    | false =>
      -- the window turned over, in the dual order
      have h := loop_answers
        (fun m => toDual (G.minimax lo hi depth true (G.play false p m)))
        (fun m (beta alpha : αᵒᵈ) => toDual
          (G.alphaBeta lo hi depth true (G.play false p m) (ofDual alpha) (ofDual beta)))
        (G.moves false p) (.refl (toDual beta) (toDual alpha) (toDual hi)) (hlt.trans_le hhi) hlt
        fun m _ b hb hab => (ih true (G.play false p m) hlo (LE.le.trans hb hhi) hab).dual
      rw [max_eq_left (show toDual hi ≤ toDual beta from hhi)] at h
      exact h.dual

theorem alphaBeta_eq_minimax (hlt : lo < hi) (hleaf : ∀ p, lo ≤ G.leaf p ∧ G.leaf p ≤ hi)
    (depth : Nat) (side : Bool) (p : P) :
    G.alphaBeta lo hi depth side p lo hi = G.minimax lo hi depth side p :=
  (alphaBeta_answers depth side p le_rfl le_rfl hlt).eq
    (minimax_mem hlt.le hleaf depth side p).1 (minimax_mem hlt.le hleaf depth side p).2

/-- The order of the moves does not matter for the value. -/
theorem minimax_congr (G G' : Game P M α) (hleaf : G.leaf = G'.leaf) (hplay : G.play = G'.play)
    (hmoves : ∀ side p, (G.moves side p).Perm (G'.moves side p)) (depth : Nat) (side : Bool)
    (p : P) : G.minimax lo hi depth side p = G'.minimax lo hi depth side p := by
  induction depth generalizing side p with
  | zero => exact congrFun hleaf p
  | succ depth ih =>
    cases side with
    | true =>
      simp only [minimax, ih, hplay]
      exact (hmoves true p).foldl_eq' (fun _ _ _ _ _ => by rw [max_right_comm]) lo
    | false =>
      simp only [minimax, ih, hplay]
      exact (hmoves false p).foldl_eq' (fun _ _ _ _ _ => by rw [min_right_comm]) hi

/-- Two games have the same values where a relation of their positions carries each move of the
one to a move of the other. -/
theorem minimax_of_related {P' M' : Type*} {G' : Game P' M' α} {R : P → P' → Prop} (f : M → M')
    (hleaf : ∀ {p p'}, R p p' → G.leaf p = G'.leaf p')
    (hmoves : ∀ {p p'}, R p p' → ∀ side, ((G.moves side p).map f).Perm (G'.moves side p'))
    (hplay : ∀ {p p'}, R p p' → ∀ side m, R (G.play side p m) (G'.play side p' (f m)))
    (depth : Nat) (side : Bool) {p : P} {p' : P'} (h : R p p') :
    G.minimax lo hi depth side p = G'.minimax lo hi depth side p' := by
  induction depth generalizing side p p' with
  | zero => exact hleaf h
  | succ depth ih =>
    have hvalue (m : M) : G.minimax lo hi depth (!side) (G.play side p m) =
        G'.minimax lo hi depth (!side) (G'.play side p' (f m)) := ih (!side) (hplay h side m)
    have hperm := hmoves h side
    cases side with
    | true =>
      have hfold := hperm.foldl_eq' (f := fun v m => max v
        (G'.minimax lo hi depth false (G'.play true p' m)))
        (fun _ _ _ _ _ => by rw [max_right_comm]) lo
      rw [List.foldl_map] at hfold
      exact (List.foldl_ext _ _ _ fun v m _ => congrArg (max v) (hvalue m)).trans hfold
    | false =>
      have hfold := hperm.foldl_eq' (f := fun v m => min v
        (G'.minimax lo hi depth true (G'.play false p' m)))
        (fun _ _ _ _ _ => by rw [min_right_comm]) hi
      rw [List.foldl_map] at hfold
      exact (List.foldl_ext _ _ _ fun v m _ => congrArg (min v) (hvalue m)).trans hfold

end Game
end Workplace.Lib.AlphaBeta
