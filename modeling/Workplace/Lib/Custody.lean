import Mathlib.Data.List.Basic
import Mathlib.Data.List.Nodup
import Mathlib.Tactic

/-! Things that are handed from one keeper to the next. A thing is idle, in a queue, or with
a keeper, who has one thing at most. Taking, passing on and giving back neither lose a thing
nor make a second one of it. -/

namespace Workplace.Lib

structure Custody (κ α : Type) where
  idle : List α
  holds : κ → Option α

namespace Custody
variable {κ α : Type} {x y : Custody κ α} {all : Set α} {k k' : κ} {a : α}

/-- The things of `all`, each in one place, and no others. -/
structure Conserves (all : Set α) (x : Custody κ α) : Prop where
  nodup : x.idle.Nodup
  apart : ∀ {k a}, x.holds k = some a → a ∉ x.idle
  single : ∀ {k k' a}, x.holds k = some a → x.holds k' = some a → k = k'
  present : ∀ a, a ∈ all ↔ a ∈ x.idle ∨ ∃ k, x.holds k = some a

section Moving
variable [DecidableEq κ]

def take (x : Custody κ α) (k : κ) : Custody κ α :=
  { idle := x.idle.tail, holds := Function.update x.holds k x.idle.head? }

def pass (x : Custody κ α) (k k' : κ) : Custody κ α :=
  { x with holds := Function.update (Function.update x.holds k none) k' (x.holds k) }

def giveBack (x : Custody κ α) (k : κ) : Custody κ α :=
  { idle := x.idle ++ (x.holds k).toList, holds := Function.update x.holds k none }

/-- Nobody is handed a thing who has one. -/
inductive Moves (x : Custody κ α) : Custody κ α → Prop
  | stay : Moves x x
  | take (k : κ) (hk : x.holds k = none) : Moves x (x.take k)
  | pass (k k' : κ) (hk' : x.holds k' = none) : Moves x (x.pass k k')
  | giveBack (k : κ) : Moves x (x.giveBack k)

theorem holds_update {f : κ → Option α} {o : Option α} (h : Function.update f k o k' = some a) :
    k' = k ∧ o = some a ∨ k' ≠ k ∧ f k' = some a := by
  by_cases hk : k' = k
  · rw [hk, Function.update_self] at h
    exact .inl ⟨hk, h⟩
  · rw [Function.update_of_ne hk] at h
    exact .inr ⟨hk, h⟩

theorem update_none {f : κ → Option α} (hk : f k = none) : Function.update f k none = f := by
  rw [← hk, Function.update_eq_self]

theorem Conserves.take (h : Conserves all x) (hk : x.holds k = none) :
    Conserves all (x.take k) := by
  obtain ⟨idle, holds⟩ := x
  cases idle with
  | nil =>
    have heq : take ⟨[], holds⟩ k = ⟨[], holds⟩ := congrArg (Custody.mk []) (update_none hk)
    rw [heq]
    exact h
  | cons b rest =>
    obtain ⟨hb, hrest⟩ := List.nodup_cons.mp h.nodup
    have hout : ∀ {k'}, holds k' ≠ some b := fun hk' => h.apart hk' List.mem_cons_self
    refine ⟨hrest, fun hk' => ?_, fun hk' hk'' => ?_, fun a => ?_⟩
    · rcases holds_update hk' with ⟨-, heq⟩ | ⟨-, hk'⟩
      · obtain rfl := Option.some.inj heq
        exact hb
      · exact fun hin => h.apart hk' (List.mem_cons_of_mem b hin)
    · rcases holds_update hk' with ⟨rfl, heq⟩ | ⟨-, hold⟩ <;>
        rcases holds_update hk'' with ⟨rfl, heq'⟩ | ⟨-, hold'⟩
      · rfl
      · obtain rfl := Option.some.inj heq
        exact absurd hold' hout
      · obtain rfl := Option.some.inj heq'
        exact absurd hold hout
      · exact h.single hold hold'
    · rw [h.present, List.mem_cons]
      constructor
      · rintro ((rfl | hin) | ⟨k', hk'⟩)
        · exact .inr ⟨k, Function.update_self _ _ _⟩
        · exact .inl hin
        · have hne : k' ≠ k := by
            rintro rfl
            rw [hk] at hk'
            cases hk'
          exact .inr ⟨k', (Function.update_of_ne hne _ _).trans hk'⟩
      · rintro (hin | ⟨k', hk'⟩)
        · exact .inl (.inr hin)
        · rcases holds_update hk' with ⟨-, heq⟩ | ⟨-, hk'⟩
          · exact .inl (.inl (Option.some.inj heq).symm)
          · exact .inr ⟨k', hk'⟩

theorem Conserves.giveBack (h : Conserves all x) (k : κ) : Conserves all (x.giveBack k) := by
  rw [Custody.giveBack]
  cases hk : x.holds k with
  | none =>
    rw [update_none hk, Option.toList_none, List.append_nil]
    exact h
  | some b =>
    have hdrop : ∀ {k' a}, Function.update x.holds k none k' = some a →
        k' ≠ k ∧ x.holds k' = some a := fun hk' =>
      (holds_update hk').resolve_left fun hno => nomatch hno.2
    refine ⟨?_, fun hk' hin => ?_, fun hk' hk'' => h.single (hdrop hk').2 (hdrop hk'').2,
      fun a => ?_⟩
    · exact h.nodup.append (List.nodup_singleton b) (List.disjoint_singleton.mpr (h.apart hk))
    · rcases List.mem_append.mp hin with hin | hin
      · exact h.apart (hdrop hk').2 hin
      · obtain rfl := List.mem_singleton.mp hin
        exact (hdrop hk').1 (h.single (hdrop hk').2 hk)
    · rw [h.present, List.mem_append]
      constructor
      · rintro (hin | ⟨k', hk'⟩)
        · exact .inl (.inl hin)
        · by_cases hne : k' = k
          · rw [hne, hk] at hk'
            exact .inl (.inr (List.mem_singleton.mpr (Option.some.inj hk').symm))
          · exact .inr ⟨k', (Function.update_of_ne hne _ _).trans hk'⟩
      · rintro ((hin | hin) | ⟨k', hk'⟩)
        · exact .inl hin
        · obtain rfl := List.mem_singleton.mp hin
          exact .inr ⟨k, hk⟩
        · exact .inr ⟨k', (hdrop hk').2⟩

/-- After `pass`, `k'` has what `k` had, and the others have what they had. -/
theorem holds_pass (hk' : x.holds k' = none) {i : κ} :
    (x.pass k k').holds i = some a ↔
      i = k' ∧ x.holds k = some a ∨ i ≠ k ∧ x.holds i = some a := by
  by_cases hi : i = k'
  · subst hi
    simp [pass, hk']
  · by_cases hik : i = k
    · subst hik
      simp [pass, hi]
    · simp [pass, hi, hik]

theorem Conserves.pass (h : Conserves all x) (hk' : x.holds k' = none) :
    Conserves all (x.pass k k') := by
  refine ⟨h.nodup, fun hi => ?_, fun hi hj => ?_, fun a => ?_⟩
  · rcases (holds_pass hk').mp hi with ⟨-, hk⟩ | ⟨-, hi⟩
    · exact h.apart hk
    · exact h.apart hi
  · rcases (holds_pass hk').mp hi with ⟨rfl, hk⟩ | ⟨hik, hold⟩ <;>
      rcases (holds_pass hk').mp hj with ⟨rfl, hk₂⟩ | ⟨hjk, hold'⟩
    · rfl
    · exact absurd (h.single hold' hk) hjk
    · exact absurd (h.single hold hk₂) hik
    · exact h.single hold hold'
  · rw [h.present]
    refine or_congr_right ⟨fun ⟨i, hi⟩ => ?_, fun ⟨i, hi⟩ => ?_⟩
    · by_cases hik : i = k
      · exact ⟨k', (holds_pass hk').mpr (.inl ⟨rfl, hik ▸ hi⟩)⟩
      · exact ⟨i, (holds_pass hk').mpr (.inr ⟨hik, hi⟩)⟩
    · rcases (holds_pass hk').mp hi with ⟨-, hk⟩ | ⟨-, hi⟩
      · exact ⟨k, hk⟩
      · exact ⟨i, hi⟩

theorem Conserves.moves (h : Conserves all x) (hm : x.Moves y) : Conserves all y := by
  cases hm with
  | stay => exact h
  | take k hk => exact h.take hk
  | pass k k' hk' => exact h.pass hk'
  | giveBack k => exact h.giveBack k

end Moving

/-! ## Places -/

inductive Place (κ : Type) where
  | idle (i : Nat)
  | held (k : κ)
  deriving DecidableEq

/-- The thing `a` is at this place. -/
def At (x : Custody κ α) (a : α) : Place κ → Prop
  | .idle i => x.idle[i]? = some a
  | .held k => x.holds k = some a

theorem Conserves.mem_of_at {p : Place κ} (h : Conserves all x) (hp : x.At a p) : a ∈ all := by
  rw [h.present]
  cases p with
  | idle i => exact .inl (List.mem_of_getElem? hp)
  | held k => exact .inr ⟨k, hp⟩

theorem Conserves.at_unique {p q : Place κ} (h : Conserves all x) (hp : x.At a p)
    (hq : x.At a q) : p = q := by
  cases p with
  | idle i =>
    cases q with
    | idle j =>
      have hi : i < x.idle.length := (List.getElem?_eq_some_iff.mp hp).1
      have hij : x.idle[i]? = x.idle[j]? := Eq.trans hp (Eq.symm hq)
      exact congrArg Place.idle ((List.getElem?_inj hi h.nodup).mp hij)
    | held k => exact absurd (List.mem_of_getElem? hp) (h.apart hq)
  | held k =>
    cases q with
    | idle j => exact absurd (List.mem_of_getElem? hq) (h.apart hp)
    | held k' => exact congrArg Place.held (h.single hp hq)

theorem Conserves.existsUnique_at (h : Conserves all x) (ha : a ∈ all) : ∃! p, x.At a p := by
  have hp : ∃ p, x.At a p := by
    rcases (h.present a).mp ha with hin | ⟨k, hk⟩
    · obtain ⟨i, hi⟩ := List.mem_iff_getElem?.mp hin
      exact ⟨.idle i, hi⟩
    · exact ⟨.held k, hk⟩
  obtain ⟨p, hp⟩ := hp
  exact ⟨p, hp, fun q hq => h.at_unique hq hp⟩

end Custody
end Workplace.Lib
