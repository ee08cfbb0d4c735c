import Mathlib.Data.List.Basic
import Mathlib.Order.Defs.LinearOrder
import Mathlib.Tactic

/-! An ordered set whose comparator looks only at a key of its elements: elements with
equal keys are the same element to it. The list holds the elements in order, and a search
walks to the first one that is not below the key. -/

namespace Workplace.Lib.OrderedSet
variable {α κ : Type} [LinearOrder κ] (key : α → κ)

def find (k : κ) : List α → Option α
  | [] => none
  | e :: l => if key e < k then find k l else if k < key e then none else some e

def erase (k : κ) : List α → List α
  | [] => []
  | e :: l => if key e < k then e :: erase k l else if k < key e then e :: l else l

/-- Where an element with the same key is there already, nothing is inserted. -/
def insert (a : α) : List α → List α
  | [] => [a]
  | e :: l =>
    if key e < key a then e :: insert a l else if key a < key e then a :: e :: l else e :: l

def Ordered (l : List α) : Prop := l.Pairwise fun a b => key a < key b

variable {key} {l : List α} {a e : α} {k : κ}

theorem ordered_cons : Ordered key (e :: l) ↔ (∀ b ∈ l, key e < key b) ∧ Ordered key l :=
  List.pairwise_cons

theorem Ordered.nodup (h : Ordered key l) : l.Nodup :=
  List.Pairwise.imp (fun hlt he => hlt.ne (congrArg key he)) h

theorem Ordered.eq_of_key (h : Ordered key l) (ha : a ∈ l) (he : e ∈ l) (hk : key a = key e) :
    a = e := by
  induction l with
  | nil => simp at ha
  | cons b l ih =>
    obtain ⟨hb, hl⟩ := ordered_cons.mp h
    rcases List.mem_cons.mp ha with rfl | ha' <;> rcases List.mem_cons.mp he with rfl | he'
    · rfl
    · exact absurd hk (hb e he').ne
    · exact absurd hk (hb a ha').ne'
    · exact ih hl ha' he'

theorem find_eq_some (h : Ordered key l) : find key k l = some e ↔ e ∈ l ∧ key e = k := by
  induction l with
  | nil => simp [find]
  | cons b l ih =>
    obtain ⟨hb, hl⟩ := ordered_cons.mp h
    rw [find]
    split_ifs with hlt hgt
    · rw [ih hl, List.mem_cons]
      have hne : e = b → key e ≠ k := fun he => he ▸ hlt.ne
      tauto
    · refine ⟨nofun, fun ⟨hm, hk⟩ => ?_⟩
      rcases List.mem_cons.mp hm with rfl | hm
      · exact absurd hk hgt.ne'
      · exact absurd hk (hgt.trans (hb e hm)).ne'
    · have hk : key b = k := le_antisymm (not_lt.mp hgt) (not_lt.mp hlt)
      refine ⟨fun hs => ?_, fun ⟨hm, he⟩ => ?_⟩
      · obtain rfl := Option.some.inj hs
        exact ⟨List.mem_cons_self, hk⟩
      · exact congrArg some (h.eq_of_key List.mem_cons_self hm (hk.trans he.symm))

theorem find_self (h : Ordered key l) (ha : a ∈ l) : find key (key a) l = some a :=
  (find_eq_some h).mpr ⟨ha, rfl⟩

theorem erase_sublist (k : κ) (l : List α) : (erase key k l).Sublist l := by
  induction l with
  | nil => exact .slnil
  | cons b l ih =>
    rw [erase]
    split_ifs
    · exact ih.cons_cons b
    · exact .refl _
    · exact List.sublist_cons_self b l

theorem Ordered.erase (h : Ordered key l) (k : κ) : Ordered key (erase key k l) :=
  List.Pairwise.sublist (erase_sublist k l) h

theorem mem_erase (h : Ordered key l) : e ∈ erase key k l ↔ e ∈ l ∧ key e ≠ k := by
  induction l with
  | nil => simp [OrderedSet.erase]
  | cons b l ih =>
    obtain ⟨hb, hl⟩ := ordered_cons.mp h
    rw [OrderedSet.erase]
    split_ifs with hlt hgt
    · rw [List.mem_cons, ih hl, List.mem_cons]
      have hne : e = b → key e ≠ k := fun he => he ▸ hlt.ne
      tauto
    · refine ⟨fun hm => ⟨hm, ?_⟩, And.left⟩
      rcases List.mem_cons.mp hm with rfl | hm
      · exact hgt.ne'
      · exact (hgt.trans (hb e hm)).ne'
    · have hk : key b = k := le_antisymm (not_lt.mp hgt) (not_lt.mp hlt)
      have hne : e ∈ l → key e ≠ k := fun hm => hk ▸ (hb e hm).ne'
      have hbk : e = b → key e = k := fun he => he ▸ hk
      rw [List.mem_cons]
      tauto

theorem mem_insert (hne : ∀ b ∈ l, key b ≠ key a) : e ∈ insert key a l ↔ e = a ∨ e ∈ l := by
  induction l with
  | nil => simp [insert]
  | cons b l ih =>
    obtain ⟨hb, hl⟩ := List.forall_mem_cons.mp hne
    rw [insert]
    split_ifs with hlt hgt
    · rw [List.mem_cons, ih hl, List.mem_cons]
      tauto
    · exact List.mem_cons
    · exact absurd (le_antisymm (not_lt.mp hgt) (not_lt.mp hlt)) hb

theorem mem_of_mem_insert (he : e ∈ insert key a l) : e = a ∨ e ∈ l := by
  induction l with
  | nil => exact .inl (List.mem_singleton.mp he)
  | cons b l ih =>
    rw [insert] at he
    split_ifs at he
    · rcases List.mem_cons.mp he with rfl | he
      · exact .inr List.mem_cons_self
      · exact (ih he).imp_right (List.mem_cons_of_mem b)
    · exact List.mem_cons.mp he
    · exact .inr he

theorem mem_insert_of_mem (a : α) (he : e ∈ l) : e ∈ insert key a l := by
  induction l with
  | nil => simp at he
  | cons b l ih =>
    rw [insert]
    split_ifs
    · rcases List.mem_cons.mp he with rfl | he
      · exact List.mem_cons_self
      · exact List.mem_cons_of_mem b (ih he)
    · exact List.mem_cons_of_mem a he
    · exact he

theorem Ordered.insert (h : Ordered key l) (a : α) : Ordered key (insert key a l) := by
  induction l with
  | nil => exact List.pairwise_singleton _ a
  | cons b l ih =>
    obtain ⟨hb, hl⟩ := ordered_cons.mp h
    rw [OrderedSet.insert]
    split_ifs with hlt hgt
    · refine ordered_cons.mpr ⟨fun e he => ?_, ih hl⟩
      rcases mem_of_mem_insert he with rfl | he
      · exact hlt
      · exact hb e he
    · refine ordered_cons.mpr ⟨fun e he => ?_, h⟩
      rcases List.mem_cons.mp he with rfl | he
      · exact hgt
      · exact hgt.trans (hb e he)
    · exact h

theorem Ordered.congr {key' : α → κ} (h : Ordered key l) (heq : ∀ b ∈ l, key' b = key b) :
    Ordered key' l := by
  refine List.Pairwise.imp_of_mem (fun ha hb hlt => ?_) h
  rw [heq _ ha, heq _ hb]
  exact hlt

end Workplace.Lib.OrderedSet
