import Mathlib.Data.List.Sort

/-! Actions on a state that leave it as they found it, and sorting with a comparison that is
such an action: the result is that of the comparison read off the state. -/

namespace Workplace.Lib

variable {σ α β : Type}

/-- From `s` the action `x` returns `v`, and ends in `s` again. -/
def Restores (x : StateM σ α) (s : σ) (v : α) : Prop := x.run s = (v, s)

namespace Restores

variable {x : StateM σ α} {f : α → StateM σ β} {s : σ} {v : α} {w : β}

theorem pure (s : σ) (v : α) : Restores (pure v : StateM σ α) s v := rfl

theorem get (s : σ) : Restores (get : StateM σ σ) s s := rfl

theorem bind (hx : Restores x s v) (hf : Restores (f v) s w) : Restores (x >>= f) s w := by
  unfold Restores at hx hf ⊢
  rw [StateT.run_bind, hx]
  exact hf

theorem read (s : σ) (g : σ → α) : Restores (do return g (← MonadState.get)) s (g s) := rfl

theorem ite {p : Prop} [Decidable p] {y : StateM σ α} {u : α} (hx : p → Restores x s v)
    (hy : ¬ p → Restores y s u) :
    Restores (if p then x else y) s (if p then v else u) := by
  split_ifs with h
  · exact hx h
  · exact hy h

/-- An action between a change of the state and a change that takes it back. -/
theorem between {change back : σ → σ} (hback : back (change s) = s)
    (hx : Restores x (change s) v) :
    Restores (do modify change; let r ← x; modify back; return r) s v := by
  unfold Restores at hx ⊢
  have hrun : (do modify change; let r ← x; modify back; return r : StateM σ α).run s =
      (do let r ← x; modify back; return r : StateM σ α).run (change s) := rfl
  rw [hrun, StateT.run_bind, hx]
  show (v, back (change s)) = (v, s)
  rw [hback]

end Restores

/-! ## Sorting by questions -/

/-- An algorithm that asks whether one element comes before another, and goes on with the
answer, until it knows the order. -/
inductive Comparing (α : Type) where
  | done (l : List α)
  | ask (a b : α) (next : Bool → Comparing α)

namespace Comparing

variable {less : α → α → Bool} {t : Comparing α}

def eval (less : α → α → Bool) : Comparing α → List α
  | .done l => l
  | .ask a b next => eval less (next (less a b))

def evalM (lessM : α → α → StateM σ Bool) : Comparing α → StateM σ (List α)
  | .done l => pure l
  | .ask a b next => do evalM lessM (next (← lessM a b))

/-- All questions are about elements with `p`. -/
inductive About (p : α → Prop) : Comparing α → Prop
  | done (l : List α) : About p (.done l)
  | ask {a b : α} {next : Bool → Comparing α} (ha : p a) (hb : p b)
      (hnext : ∀ answer, About p (next answer)) : About p (.ask a b next)

theorem evalM_restores {p : α → Prop} {lessM : α → α → StateM σ Bool} {s : σ}
    (hless : ∀ a b, p a → p b → Restores (lessM a b) s (less a b)) (ht : t.About p) :
    Restores (t.evalM lessM) s (t.eval less) := by
  induction ht with
  | done l => exact Restores.pure s l
  | ask ha hb _ ih => exact (hless _ _ ha hb).bind (ih _)

end Comparing

section WeakOrder

variable {less : α → α → Bool} (h : IsStrictWeakOrder α (fun a b => less a b = true))
include h

theorem notAfter_total (a b : α) :
    less b a = false ∨ less a b = false := by
  by_contra hboth
  simp only [not_or, Bool.not_eq_false] at hboth
  exact h.irrefl a (h.trans a b a hboth.2 hboth.1)

theorem notAfter_trans {a b c : α} (hba : less b a = false)
    (hcb : less c b = false) : less c a = false := by
  rw [Bool.eq_false_iff] at hba hcb ⊢
  intro hca
  have hab : ¬ less a b := fun hlt => hcb (h.trans c a b hca hlt)
  have hbc : ¬ less b c := fun hlt => hba (h.trans b c a hlt hca)
  exact (h.incomp_trans a b c ⟨hab, hba⟩ ⟨hbc, hcb⟩).2 hca

end WeakOrder

/-- A sorting algorithm: it compares elements of the range only, and ends with a
rearrangement of it, in order if the answers are those of a strict weak order. -/
structure Sorting (α : Type) where
  start : List α → Comparing α
  about : ∀ l, (start l).About (· ∈ l)
  perm : ∀ less l, ((start l).eval less).Perm l
  sorted : ∀ less l, IsStrictWeakOrder α (fun a b => less a b = true) →
    ((start l).eval less).Pairwise fun a b => less b a = false

namespace Sorting

/-- The place of `x` in `l`, behind the elements that come before `x`, handed to `k`. -/
def insert (x : α) : List α → (List α → Comparing α) → Comparing α
  | [], k => k [x]
  | y :: ys, k => .ask y x fun before =>
    if before then insert x ys fun l => k (y :: l) else k (x :: y :: ys)

def insertAll : List α → (List α → Comparing α) → Comparing α
  | [], k => k []
  | x :: xs, k => insertAll xs fun l => insert x l k

variable {less : α → α → Bool}

theorem eval_insert (x : α) (l : List α) (k : List α → Comparing α) :
    (insert x l k).eval less =
      (k (l.orderedInsert (fun a b => less b a = false) x)).eval less := by
  induction l generalizing k with
  | nil => rfl
  | cons y ys ih =>
    rw [insert, Comparing.eval, List.orderedInsert]
    by_cases h : less y x = true
    · rw [if_pos h, ih, if_neg (by simp [h])]
    · rw [if_neg h, if_pos (by simpa using h)]

theorem eval_insertAll (l : List α) (k : List α → Comparing α) :
    (insertAll l k).eval less =
      (k (l.insertionSort (fun a b => less b a = false))).eval less := by
  induction l generalizing k with
  | nil => rfl
  | cons x xs ih => rw [insertAll, ih, eval_insert, List.insertionSort_cons]

theorem about_insert {p : α → Prop} {x : α} {l : List α} {k : List α → Comparing α} (hx : p x)
    (hl : ∀ y ∈ l, p y) (hk : ∀ l', (∀ y ∈ l', p y) → (k l').About p) :
    (insert x l k).About p := by
  induction l generalizing k with
  | nil => exact hk [x] (by simpa using hx)
  | cons y ys ih =>
    have hy : p y := hl y List.mem_cons_self
    have hys : ∀ z ∈ ys, p z := fun z hz => hl z (List.mem_cons_of_mem y hz)
    refine .ask hy hx fun before => ?_
    cases before with
    | true => exact ih hys fun l' hl' => hk _ (List.forall_mem_cons.mpr ⟨hy, hl'⟩)
    | false => exact hk _ (List.forall_mem_cons.mpr ⟨hx, hl⟩)

theorem about_insertAll {p : α → Prop} {l : List α} {k : List α → Comparing α}
    (hl : ∀ y ∈ l, p y) (hk : ∀ l', (∀ y ∈ l', p y) → (k l').About p) :
    (insertAll l k).About p := by
  induction l generalizing k with
  | nil => exact hk [] (by simp)
  | cons x xs ih =>
    have hsplit := List.forall_mem_cons.mp hl
    exact ih hsplit.2 fun l' hl' => about_insert hsplit.1 hl' hk

/-- Insertion sort, which is what `std::sort` does on a short range. -/
def insertion (α : Type) : Sorting α where
  start l := insertAll l .done
  about l := about_insertAll (fun _ hy => hy) fun l' _ => .done l'
  perm less l := by
    rw [eval_insertAll]
    exact List.perm_insertionSort _ l
  sorted less l h := by
    have htotal : Std.Total fun a b => less b a = false := ⟨fun a b => notAfter_total h a b⟩
    have htrans : IsTrans α fun a b => less b a = false := ⟨fun a b c => notAfter_trans h⟩
    rw [eval_insertAll]
    exact List.pairwise_insertionSort _ l

instance (α : Type) : Inhabited (Sorting α) := ⟨insertion α⟩

end Sorting

end Workplace.Lib
