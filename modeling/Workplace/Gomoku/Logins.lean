import Workplace.Gomoku.Server
import Workplace.Lib.SplitUpdate

/-! Logins that several threads handle at once. The handler tests `online_users` before it
takes the lock for the update, and `updateMaxOnline` loads before it stores: both are made in
two steps, and neither looks again. -/

namespace Workplace.Gomoku
open Workplace.Http Workplace.Lib

/-- `GomokuServer::updateMaxOnline`: an atomic load, and an atomic store of the larger value. -/
def updateMaxOnline : SplitUpdate Int Int Int Unit where
  look maxOnline_ _ := maxOnline_
  act loaded online _ := (max loaded online, ())

/-- `LoginHandler::handle` once the password is right: the test of `online_users`, and then
its locked update, unless the user is online, with the answer. -/
def login : SplitUpdate (Finmap fun _ : Int => Bool) Int Bool HttpStatusCode where
  look online_users userId := (online_users.lookup userId).getD false
  act online userId online_users :=
    if online then (online_users, .k403Forbidden) else (online_users.insert userId true, .k200Ok)

variable {acts before after : List (SplitUpdate.Act Int)}

/-! ## The peak -/

namespace updateMaxOnline

abbrev State := SplitUpdate.State Int Int Int Unit

variable {s s₁ s₂ : State}

/-- A value is stored only when every other call that has loaded will store as much. -/
def NoOvertaking (s : State) : SplitUpdate.Act Int → Prop
  | .look _ _ => True
  | .act u => ∀ online loaded, s.pending u = some (online, loaded) →
      ∀ v online' loaded', v ≠ u → s.pending v = some (online', loaded') →
        online ≤ max loaded' online'

theorem fresh_iff {x : Int} {p : Int × Int} :
    updateMaxOnline.Fresh x p ↔ max p.2 p.1 = max x p.1 := Prod.ext_iff.trans (and_iff_left rfl)

theorem spares_of_noOvertaking {a : SplitUpdate.Act Int} (h : updateMaxOnline.Current s)
    (hg : NoOvertaking s a) : updateMaxOnline.Spares s a := by
  cases a with
  | look u online => trivial
  | act u =>
    rintro p hp v q hvu hq
    have hp' : max p.2 p.1 = max s.shared p.1 := fresh_iff.mp (h u p hp)
    have hq' : max q.2 q.1 = max s.shared q.1 := fresh_iff.mp (h v q hq)
    have hle : p.1 ≤ max q.2 q.1 := hg p.1 p.2 hp v q.1 q.2 hvu hq
    refine fresh_iff.mpr ?_
    calc max q.2 q.1 = max (max q.2 q.1) p.1 := (max_eq_left hle).symm
      _ = max (max s.shared p.1) q.1 := by rw [hq', max_right_comm]
      _ = max (max p.2 p.1) q.1 := by rw [hp']

/-- What whole calls keep: the counter is above `x` and above all they were called with. -/
def Above (x maxOnline_ : Int) (calls : List (Int × Unit)) : Prop :=
  x ≤ maxOnline_ ∧ ∀ call ∈ calls, call.1 ≤ maxOnline_

theorem Above.atomic {x y : Int} {calls : List (Int × Unit)} (online : Int)
    (h : Above x y calls) : Above x (updateMaxOnline.atomic online y).1
      (calls ++ [(online, (updateMaxOnline.atomic online y).2)]) := by
  have hle : y ≤ max y online := le_max_left y online
  refine ⟨h.1.trans hle, fun call hcall => ?_⟩
  rcases List.mem_append.mp hcall with hold | hnew
  · exact (h.2 call hold).trans hle
  · obtain rfl := List.mem_singleton.mp hnew
    exact le_max_right y online

theorem Above.run {x : Int} (hcurrent : updateMaxOnline.Current s₁)
    (h : Above x s₁.shared s₁.answers) (hg : Guarded NoOvertaking updateMaxOnline.step s₁ acts)
    (hrun : run updateMaxOnline.step s₁ acts = some s₂) :
    updateMaxOnline.Current s₂ ∧ Above x s₂.shared s₂.answers :=
  hcurrent.run_invariant acts spares_of_noOvertaking (fun online => Above.atomic online) h hg hrun

/-- The counter between any two points of a run, and at its end. -/
def Peak (s₁ s₂ : State) (acts : List (SplitUpdate.Act Int)) : Prop :=
  s₁.shared ≤ s₂.shared ∧
    ((∀ u, s₂.pending u = none) → ∀ u online, .look u online ∈ acts → online ≤ s₂.shared)

theorem peak_of_noOvertaking {maxOnline_ : Int}
    (hg : Guarded NoOvertaking updateMaxOnline.step { shared := maxOnline_ } (before ++ after))
    (h₁ : run updateMaxOnline.step { shared := maxOnline_ } before = some s₁)
    (h₂ : run updateMaxOnline.step s₁ after = some s₂) : Peak s₁ s₂ (before ++ after) := by
  have hcurrent : updateMaxOnline.Current { shared := maxOnline_ } := nofun
  have hnone : Above maxOnline_ maxOnline_ [] := ⟨le_rfl, nofun⟩
  obtain ⟨hcurrent₁, -, hcalls⟩ := hnone.run hcurrent hg.left h₁
  have hcalls₁ : Above s₁.shared s₁.shared s₁.answers := ⟨le_rfl, hcalls⟩
  obtain ⟨-, hle, hcalls₂⟩ := hcalls₁.run hcurrent₁ (hg.of_append h₁) h₂
  refine ⟨hle, fun hreturned u online hmem => ?_⟩
  have hrun : run updateMaxOnline.step { shared := maxOnline_ } (before ++ after) = some s₂ := by
    rw [run_append, h₁]
    exact h₂
  rcases SplitUpdate.run_asked hmem hrun with ⟨v, r, hv⟩ | ⟨_, hanswer⟩
  · rw [hreturned v] at hv
    cases hv
  · exact hcalls₂ _ hanswer

/-- The smaller call stores first. -/
theorem peak_of_two_calls : ∃ s : State,
    run updateMaxOnline.step { shared := 0 } [.look 0 5, .look 1 3, .act 1, .act 0] = some s ∧
      Peak { shared := 0 } s [.look 0 5, .look 1 3, .act 1, .act 0] := by
  have hg : Guarded NoOvertaking updateMaxOnline.step { shared := 0 }
      ([] ++ [.look 0 5, .look 1 3, .act 1, .act 0]) := by
    refine .of_step trivial rfl (.of_step trivial rfl (.of_step ?_ rfl (.of_step ?_ rfl trivial)))
    · rintro _ _ ⟨⟩ v online' loaded' hv h
      match v with
      | 0 =>
        cases h
        decide
      | 1 => exact absurd rfl hv
    · rintro _ _ ⟨⟩ v online' loaded' hv h
      match v with
      | 0 => exact absurd rfl hv
      | 1 => cases h
  exact ⟨_, rfl, peak_of_noOvertaking hg rfl rfl⟩

/-- The larger call stores first, and the smaller one takes its store back. -/
theorem lost_update : ¬ ∀ (maxOnline_ : Int) (before after : List (SplitUpdate.Act Int))
    (s₁ s₂ : State), run updateMaxOnline.step { shared := maxOnline_ } before = some s₁ →
      run updateMaxOnline.step s₁ after = some s₂ → Peak s₁ s₂ (before ++ after) := by
  intro h
  have hle := (h 0 [.look 0 3, .look 1 5, .act 1] [.act 0] _ _ rfl rfl).1
  exact absurd hle (by decide)

end updateMaxOnline

/-! ## One login for each user -/

namespace login

abbrev State := SplitUpdate.State (Finmap fun _ : Int => Bool) Int Bool HttpStatusCode

variable {s s₁ s₂ : State}

/-- No request updates the table while another one for the same user has made the test. -/
def TestedAlone (s : State) : SplitUpdate.Act Int → Prop
  | .look _ _ => True
  | .act u => ∀ userId, s.pending u = some (userId, false) →
      ∀ v, v ≠ u → s.pending v ≠ some (userId, false)

theorem answer_injective (i : Int) (x : Finmap fun _ : Int => Bool) :
    Function.Injective fun online => (login.act online i x).2 := by
  intro online online'
  cases online <;> cases online' <;> simp [login]

theorem fresh_iff {x : Finmap fun _ : Int => Bool} {p : Int × Bool} :
    login.Fresh x p ↔ p.2 = login.look x p.1 := by
  constructor
  · intro h
    exact answer_injective p.1 x (congrArg Prod.snd h)
  · intro h
    rw [SplitUpdate.Fresh, h]
    rfl

theorem look_act {x : Finmap fun _ : Int => Bool} {i j : Int} {online : Bool} (hne : j ≠ i) :
    login.look (login.act online i x).1 j = login.look x j := by
  cases online with
  | true => rfl
  | false => simp [login, Finmap.lookup_insert_of_ne _ hne]

theorem spares_of_testedAlone {a : SplitUpdate.Act Int} (h : login.Current s)
    (hg : TestedAlone s a) : login.Spares s a := by
  cases a with
  | look u userId => trivial
  | act u =>
    rintro ⟨i, online⟩ hp v ⟨j, online'⟩ hvu hq
    have hi : online = login.look s.shared i := fresh_iff.mp (h u _ hp)
    have hj : online' = login.look s.shared j := fresh_iff.mp (h v _ hq)
    refine fresh_iff.mpr ?_
    by_cases hji : j = i
    · cases honline : online with
      | true => rwa [honline] at *
      | false =>
        -- both have seen the user offline
        rw [hji, ← hi, honline] at hj
        rw [hji, hj] at hq
        exact absurd hq (hg i (honline ▸ hp) v hvu)
    · rw [look_act hji]
      exact hj

/-- A user that was let in once is online. -/
def Single (userId : Int) (x : Finmap fun _ : Int => Bool)
    (answers : List (Int × HttpStatusCode)) : Prop :=
  answers.count (userId, .k200Ok) ≤ 1 ∧
    ((userId, .k200Ok) ∈ answers → login.look x userId = true)

theorem Single.append_other {userId : Int} {x x' : Finmap fun _ : Int => Bool}
    {answers : List (Int × HttpStatusCode)} {answer : Int × HttpStatusCode}
    (h : Single userId x answers) (hne : (userId, .k200Ok) ≠ answer)
    (hlook : login.look x' userId = login.look x userId) :
    Single userId x' (answers ++ [answer]) := by
  have hnot : (userId, .k200Ok) ∉ [answer] := fun h => hne (List.mem_singleton.mp h)
  refine ⟨?_, fun hmem => ?_⟩
  · rw [List.count_append, List.count_eq_zero_of_not_mem hnot]
    exact h.1
  · rw [hlook]
    exact h.2 ((List.mem_append.mp hmem).resolve_right hnot)

theorem Single.atomic {userId : Int} {x : Finmap fun _ : Int => Bool}
    {answers : List (Int × HttpStatusCode)} (i : Int) (h : Single userId x answers) :
    Single userId (login.atomic i x).1 (answers ++ [(i, (login.atomic i x).2)]) := by
  unfold SplitUpdate.atomic
  by_cases hi : userId = i
  · subst hi
    cases honline : login.look x userId with
    | true => exact h.append_other (by simp [login]) rfl
    | false =>
      have hnot : (userId, .k200Ok) ∉ answers := by
        intro hmem
        rw [h.2 hmem] at honline
        cases honline
      refine ⟨?_, fun _ => by simp [login]⟩
      rw [List.count_append, List.count_eq_zero_of_not_mem hnot, Nat.zero_add]
      exact List.count_le_length
  · exact h.append_other (fun heq => hi (congrArg Prod.fst heq)) (look_act hi)

theorem count_ok_le_one {online_users : Finmap fun _ : Int => Bool}
    (hg : Guarded TestedAlone login.step { shared := online_users } acts)
    (hrun : run login.step { shared := online_users } acts = some s) (userId : Int) :
    s.answers.count (userId, .k200Ok) ≤ 1 := by
  have hcurrent : login.Current { shared := online_users } := nofun
  have hnone : Single userId online_users [] := ⟨Nat.zero_le 1, nofun⟩
  have key : login.Current s ∧ Single userId s.shared s.answers :=
    hcurrent.run_invariant acts spares_of_testedAlone (fun i => Single.atomic i) hnone hg hrun
  exact key.2.1

/-- The second request is tested after the first one's update. -/
theorem count_ok_of_two_requests : ∃ s : State, run login.step { shared := ∅ }
      [.look 0 7, .act 0, .look 1 7, .act 1] = some s ∧
    s.answers = [(7, .k200Ok), (7, .k403Forbidden)] ∧
    s.answers.count (7, .k200Ok) ≤ 1 := by
  have hg : Guarded TestedAlone login.step { shared := ∅ }
      [.look 0 7, .act 0, .look 1 7, .act 1] := by
    refine .of_step trivial rfl (.of_step ?_ rfl (.of_step trivial rfl (.of_step ?_ rfl trivial)))
    · rintro _ ⟨⟩ v hv
      match v with
      | 0 => exact absurd rfl hv
      | _ + 1 => exact nofun
    · exact nofun
  exact ⟨_, rfl, by decide, count_ok_le_one hg rfl 7⟩

/-- Both requests are tested before either updates the table. -/
theorem logged_in_twice : ¬ ∀ (online_users : Finmap fun _ : Int => Bool)
    (acts : List (SplitUpdate.Act Int)) (s : State) (userId : Int),
    run login.step { shared := online_users } acts = some s →
      s.answers.count (userId, .k200Ok) ≤ 1 := by
  intro h
  have hle := h ∅ [.look 0 7, .look 1 7, .act 0, .act 1] _ 7 rfl
  exact absurd hle (by decide)

end login
end Workplace.Gomoku
