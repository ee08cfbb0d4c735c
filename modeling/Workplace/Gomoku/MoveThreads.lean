import Workplace.Gomoku.Table

/-! Moves of one user that several threads handle at once. `AiMoveHandler` takes the lock for
an insertion and for an erase, and holds nothing between the move of the human and the answer
to it; the reference into `game_map_` is kept over all of them. -/

namespace Workplace.Gomoku
open Workplace.Http Workplace.Lib

namespace MoveThreads

/-- The entry of the user in `game_map_`: its node, and the game that the pointer in it owns,
with the number of the game. -/
structure Entry where
  node : Nat
  game : Option (Nat × Game) := none

/-- The call that a request makes next, with the reference to its node. `answered` says that
`aiMove` has been made, and `finished` that the game goes out of the table. -/
inductive Pc where
  | idle
  | insert (x y : Int)
  | index (x y : Int)
  | humanMove (node : Nat) (x y : Int)
  | isGameOver (node : Nat) (answered : Bool)
  | isDraw (node : Nat) (answered : Bool)
  | aiMove (node : Nat)
  | reply (node : Nat) (finished : Bool)
  | erase
  deriving DecidableEq

/-- A move that a game took; `ends` says that the human has ended the game with it. -/
inductive Event where
  | human (game : Nat) (ends : Bool)
  | ai (game : Nat)
  deriving DecidableEq

structure State where
  entry : Option Entry := none
  -- how many nodes and games there have been
  nodes : Nat := 0
  games : Nat := 0
  pc : Nat → Pc := fun _ => .idle
  -- the latest move first
  history : List Event := []

inductive Act where
  | request (u : Nat) (x y : Int)
  | next (u rand : Nat)

def ended (game : Game) : Bool := game.state.gameOver_ || game.state.isDraw

namespace State

def goto (s : State) (u : Nat) (pc : Pc) : State := { s with pc := Function.update s.pc u pc }

/-- What a reference to a node leads to, as long as the node is there and holds a game. -/
def deref (s : State) (node : Nat) : Option (Nat × Game) :=
  match s.entry with
  | some e => if e.node = node then e.game else none
  | none => none

/-- `game_map_[userId]`, which makes a node that holds nothing. -/
def index (s : State) : Nat × State :=
  match s.entry with
  | some e => (e.node, s)
  | none => (s.nodes, { s with entry := some { node := s.nodes }, nodes := s.nodes + 1 })

def setGame (s : State) (node id : Nat) (game : Game) : State :=
  { s with entry := some { node, game := some (id, game) } }

end State

variable (S : StdSort Cell)

/-- A call through a reference to nothing does not come back. -/
def step (s : State) : Act → Option State
  | .request u x y =>
    if s.pc u = .idle then
      some (s.goto u (if s.entry.isNone then .insert x y else .index x y))
    else none
  | .next u rand =>
    match s.pc u with
    | .idle => none
    | .insert x y =>
      let (node, s) := s.index
      some ({ s.setGame node s.games .new with games := s.games + 1 }.goto u (.index x y))
    | .index x y =>
      let (node, s) := s.index
      some (s.goto u (.humanMove node x y))
    | .humanMove node x y => (s.deref node).map fun (id, game) =>
      let (accepted, game) := game.humanMove x y
      if accepted = false then s.goto u .idle
      else
        { s.setGame node id game with history := .human id (ended game) :: s.history }.goto u
          (.isGameOver node false)
    | .isGameOver node answered => (s.deref node).map fun (_, game) =>
      s.goto u (if game.state.gameOver_ then .reply node true else .isDraw node answered)
    | .isDraw node answered => (s.deref node).map fun (_, game) =>
      s.goto u (if game.state.isDraw then .reply node true
        else if answered then .reply node false else .aiMove node)
    | .aiMove node => (s.deref node).map fun (id, game) =>
      let history := if ended game then s.history else .ai id :: s.history
      { s.setGame node id (game.aiMove S rand) with history }.goto u (.isGameOver node true)
    | .reply node finished => (s.deref node).map fun _ =>
      s.goto u (if finished then .erase else .idle)
    | .erase => some ({ s with entry := none }.goto u .idle)

/-! ## Turns -/

/-- The game that the human has moved in without an answer. -/
def waiting : List Event → Option Nat
  | [] => none
  | .human id ends :: _ => if ends then none else some id
  | .ai id :: events => if waiting events = some id then none else waiting events

/-- The human moves only when the last move of the human is answered, or has ended its game. -/
def Alternates : List Event → Prop
  | [] => True
  | .human _ _ :: events => waiting events = none ∧ Alternates events
  | .ai _ :: events => Alternates events

/-- One move each, and so at most one stone more of the human. -/
structure Turns (s : State) : Prop where
  stones : ∀ {node id game}, s.entry = some { node, game := some (id, game) } →
    stones game.state.board_ .HUMAN_PLAYER ≤ stones game.state.board_ .AI_PLAYER + 1
  alternates : Alternates s.history

/-- The reference of a request whose move the game took and whose answer is not made yet. -/
def Pc.due : Pc → Option Nat
  | .isGameOver node false => some node
  | .isDraw node false => some node
  | .aiMove node => some node
  | _ => none

/-- The call puts a game into the table or takes it out, or is a move that the game takes. -/
def Disturbs (s : State) : Pc → Prop
  | .insert _ _ => True
  | .erase => True
  | .humanMove node x y => ∃ id game, s.deref node = some (id, game) ∧
      game.state.isValidMove (x, y) = true
  | _ => False

/-- A request makes no such call while another one owes an answer. -/
def Undivided (s : State) : Act → Prop
  | .request _ _ _ => True
  | .next u _ => Disturbs s (s.pc u) → ∀ v, v ≠ u → (s.pc v).due = none

/-- No request is under way, and the game in the table waits for the human. -/
structure Quiet (s : State) : Prop where
  idle : ∀ u, s.pc u = .idle
  history : s.history = []
  onTurn : ∀ {node id game}, s.entry = some { node, game := some (id, game) } → OnTurn game.state

/-! ## What a step does -/

section Steps

variable {S : StdSort Cell} {s s' : State} {a : Act} {u v node id : Nat} {game : Game} {pc : Pc}

theorem pc_self (s : State) (u : Nat) (pc : Pc) : (s.goto u pc).pc u = pc :=
  Function.update_self _ _ _

theorem pc_other (s : State) (pc : Pc) (hv : v ≠ u) : (s.goto u pc).pc v = s.pc v :=
  Function.update_of_ne hv _ _

theorem deref_eq_some : s.deref node = some (id, game) ↔
    s.entry = some { node, game := some (id, game) } := by
  unfold State.deref
  rcases s.entry with _ | ⟨n, g⟩
  · simp
  · simp only [Option.some.injEq, Entry.mk.injEq]
    split_ifs with hn
    · simp [hn]
    · simp [hn]

theorem game_inj {node' id' : Nat} {game' : Game}
    (h : s.entry = some { node, game := some (id, game) })
    (h' : s.entry = some { node := node', game := some (id', game') }) :
    id = id' ∧ game = game' := by
  obtain ⟨-, hg⟩ := Entry.mk.inj (Option.some.inj (h.symm.trans h'))
  exact Prod.mk.inj (Option.some.inj hg)

theorem humanMove_fst (game : Game) (x y : Int) :
    (game.humanMove x y).1 = game.state.isValidMove (x, y) := by
  show (game.state.humanMove x y).1 = _
  unfold AiGame.humanMove
  split_ifs with hvalid
  · exact hvalid.symm
  · exact (Bool.eq_true_of_not_eq_false hvalid).symm

inductive Effect (S : StdSort Cell) (s : State) : Act → State → Prop
  | request {u : Nat} {x y : Int} {pc : Pc} (hpc : s.pc u = .idle) (hnew : pc.due = none) :
      Effect S s (.request u x y) (s.goto u pc)
  | insert {u rand : Nat} {x y : Int} (hpc : s.pc u = .insert x y) :
      Effect S s (.next u rand)
        ({ s.index.2.setGame s.index.1 s.index.2.games .new with
          games := s.index.2.games + 1 }.goto u (.index x y))
  | index {u rand : Nat} {x y : Int} (hpc : s.pc u = .index x y) :
      Effect S s (.next u rand) (s.index.2.goto u (.humanMove s.index.1 x y))
  | refused {u rand node : Nat} {x y : Int} (hpc : s.pc u = .humanMove node x y) :
      Effect S s (.next u rand) (s.goto u .idle)
  | moved {u rand node id : Nat} {x y : Int} {game : Game} (hpc : s.pc u = .humanMove node x y)
      (hgame : s.entry = some { node, game := some (id, game) })
      (hmoved : (game.humanMove x y).1 = true) :
      Effect S s (.next u rand) ({ s.setGame node id (game.humanMove x y).2 with
        history := .human id (ended (game.humanMove x y).2) :: s.history }.goto u
          (.isGameOver node false))
  | isGameOver {u rand node id : Nat} {answered : Bool} {game : Game}
      (hpc : s.pc u = .isGameOver node answered)
      (hgame : s.entry = some { node, game := some (id, game) }) :
      Effect S s (.next u rand)
        (s.goto u (if game.state.gameOver_ then .reply node true else .isDraw node answered))
  | isDraw {u rand node id : Nat} {answered : Bool} {game : Game}
      (hpc : s.pc u = .isDraw node answered)
      (hgame : s.entry = some { node, game := some (id, game) }) :
      Effect S s (.next u rand) (s.goto u (if game.state.isDraw then .reply node true
        else if answered then .reply node false else .aiMove node))
  | aiMove {u rand node id : Nat} {game : Game} (hpc : s.pc u = .aiMove node)
      (hgame : s.entry = some { node, game := some (id, game) }) :
      Effect S s (.next u rand) ({ s.setGame node id (game.aiMove S rand) with
        history := if ended game then s.history else .ai id :: s.history }.goto u
          (.isGameOver node true))
  | reply {u rand node : Nat} {finished : Bool} (hpc : s.pc u = .reply node finished) :
      Effect S s (.next u rand) (s.goto u (if finished then .erase else .idle))
  | erase {u rand : Nat} (hpc : s.pc u = .erase) :
      Effect S s (.next u rand) ({ s with entry := none }.goto u .idle)

theorem effect_of_step (h : step S s a = some s') : Effect S s a s' := by
  cases a with
  | request u x y =>
    simp only [step] at h
    split_ifs at h with hpc hnone
    · obtain rfl := Option.some.inj h
      exact .request hpc rfl
    · obtain rfl := Option.some.inj h
      exact .request hpc rfl
  | next u rand =>
    simp only [step] at h
    cases hpc : s.pc u with
    | idle => simp [hpc] at h
    | insert x y =>
      simp only [hpc] at h
      obtain rfl := Option.some.inj h
      exact .insert hpc
    | index x y =>
      simp only [hpc] at h
      obtain rfl := Option.some.inj h
      exact .index hpc
    | humanMove node x y =>
      simp only [hpc] at h
      obtain ⟨⟨id, game⟩, hgame, rfl⟩ := Option.map_eq_some_iff.mp h
      dsimp only
      split_ifs with hmoved
      · exact .refused hpc
      · exact .moved hpc (deref_eq_some.mp hgame) (Bool.eq_true_of_not_eq_false hmoved)
    | isGameOver node answered =>
      simp only [hpc] at h
      obtain ⟨⟨id, game⟩, hgame, rfl⟩ := Option.map_eq_some_iff.mp h
      exact .isGameOver hpc (deref_eq_some.mp hgame)
    | isDraw node answered =>
      simp only [hpc] at h
      obtain ⟨⟨id, game⟩, hgame, rfl⟩ := Option.map_eq_some_iff.mp h
      exact .isDraw hpc (deref_eq_some.mp hgame)
    | aiMove node =>
      simp only [hpc] at h
      obtain ⟨⟨id, game⟩, hgame, rfl⟩ := Option.map_eq_some_iff.mp h
      exact .aiMove hpc (deref_eq_some.mp hgame)
    | reply node finished =>
      simp only [hpc] at h
      obtain ⟨⟨id, game⟩, -, rfl⟩ := Option.map_eq_some_iff.mp h
      exact .reply hpc
    | erase =>
      simp only [hpc] at h
      obtain rfl := Option.some.inj h
      exact .erase hpc

end Steps

/-! ## Stones -/

section Stones

variable {game : Game} {x y : Int}

theorem stones_humanMove (hmoved : (game.humanMove x y).1 = true) : ended game = false ∧
    stones (game.humanMove x y).2.state.board_ .HUMAN_PLAYER =
      stones game.state.board_ .HUMAN_PLAYER + 1 ∧
    stones (game.humanMove x y).2.state.board_ .AI_PLAYER =
      stones game.state.board_ .AI_PLAYER := by
  obtain ⟨hc, hend, hstate⟩ := Game.humanMove_eq_put hmoved
  rw [hstate, AiGame.put_board_]
  exact ⟨hend, stones_place hc (by simp), stones_place_of_ne hc (by simp) (by simp)⟩

theorem stones_aiMove (hgoing : ended game = false) (S : StdSort Cell) (rand : Nat) :
    stones (game.aiMove S rand).state.board_ .HUMAN_PLAYER =
      stones game.state.board_ .HUMAN_PLAYER ∧
    stones (game.aiMove S rand).state.board_ .AI_PLAYER =
      stones game.state.board_ .AI_PLAYER + 1 := by
  obtain ⟨hc, hai⟩ := game.sound.aiMove_eq_put hgoing S rand
  rw [Game.state_aiMove, Option.some.injEq] at hai
  rw [hai, AiGame.put_board_]
  exact ⟨stones_place_of_ne hc (by simp) (by simp), stones_place hc (by simp)⟩

end Stones

/-! ## One request owes an answer -/

/-- What a request that owes an answer has seen of the game. -/
def Pc.Seen : Pc → Game → Prop
  | .isDraw _ false, game => game.state.gameOver_ = false
  | .aiMove _, game => ended game = false
  | _, _ => True

/-- The human is ahead by a stone at most, and only while an answer is due or the game is over. -/
def Balanced (owed : Bool) (game : Game) : Prop :=
  let black := stones game.state.board_ .HUMAN_PLAYER
  let white := stones game.state.board_ .AI_PLAYER
  black ≤ white + 1 ∧ (ended game = false → owed = false → black ≤ white)

theorem balanced_of_le {game : Game} (owed : Bool)
    (h : stones game.state.board_ .HUMAN_PLAYER ≤ stones game.state.board_ .AI_PLAYER) :
    Balanced owed game := ⟨Nat.le_succ_of_le h, fun _ _ => h⟩

theorem balanced_new : Balanced false .new := balanced_of_le false OnTurn.new.even.le

/-- The game in the table, and how it stands with the answer to the last move in it. -/
structure Owes (s : State) (node id : Nat) (game : Game) : Prop where
  entry : s.entry = some { node, game := some (id, game) }
  waiting : waiting s.history = if ended game then none else some id

structure InTurn (s : State) : Prop where
  balanced : ∀ {node id game}, s.entry = some { node, game := some (id, game) } →
    Balanced (waiting s.history).isSome game
  owes : ∀ {u node}, (s.pc u).due = some node → ∃ id game, Owes s node id game ∧ (s.pc u).Seen game
  single : ∀ {u v}, (s.pc u).due ≠ none → (s.pc v).due ≠ none → u = v
  awaited : waiting s.history ≠ none → ∃ u, (s.pc u).due ≠ none
  alternates : Alternates s.history

namespace InTurn

variable {S : StdSort Cell} {s s' : State} {u v node id : Nat} {game : Game} {pc : Pc}

theorem of_none_due (hnone : ∀ v, (s.pc v).due = none) (hwaiting : waiting s.history = none)
    (heven : ∀ {node id game}, s.entry = some { node, game := some (id, game) } →
      Balanced false game) (halternates : Alternates s.history) : InTurn s where
  balanced he := by
    rw [hwaiting]
    exact heven he
  owes hv := by
    rw [hnone] at hv
    cases hv
  single hv := absurd (hnone _) hv
  awaited hw := absurd hwaiting hw
  alternates := halternates

theorem of_quiet (h : Quiet s) : InTurn s := by
  refine of_none_due (fun v => ?_) ?_ (fun he => balanced_of_le _ (h.onTurn he).even.le) ?_
  · rw [h.idle]
    rfl
  · rw [h.history]
    rfl
  · rw [h.history]
    trivial

theorem waiting_eq_none (h : InTurn s) (hnone : ∀ v, (s.pc v).due = none) :
    waiting s.history = none := by
  by_contra hno
  obtain ⟨v, hv⟩ := h.awaited hno
  exact hv (hnone v)

/-- Whoever owes the answer finds its game in the table. -/
theorem owes_of_due (h : InTurn s) (hdue : (s.pc u).due = some node)
    (hentry : s.entry = some { node, game := some (id, game) }) :
    Owes s node id game ∧ (s.pc u).Seen game := by
  obtain ⟨id', game', howes, hseen⟩ := h.owes hdue
  obtain ⟨rfl, rfl⟩ := game_inj hentry howes.entry
  exact ⟨howes, hseen⟩

/-- A request goes on that owes no answer after it, nor before it if one is awaited. -/
theorem leave (h : InTurn s) (hpc : pc.due = none)
    (hfree : (s.pc u).due ≠ none → waiting s.history = none) : InTurn (s.goto u pc) := by
  have hother {v : Nat} (hv : ((s.goto u pc).pc v).due ≠ none) :
      (s.goto u pc).pc v = s.pc v := by
    refine pc_other s pc ?_
    rintro rfl
    rw [pc_self] at hv
    exact hv hpc
  refine ⟨h.balanced, fun {v n} hv => ?_, fun {v w} hv hw => ?_, fun hw => ?_, h.alternates⟩
  · have hne : ((s.goto u pc).pc v).due ≠ none := by
      rw [hv]
      exact Option.some_ne_none n
    rw [hother hne] at hv ⊢
    obtain ⟨id, game, howes, hseen⟩ := h.owes hv
    exact ⟨id, game, ⟨howes.entry, howes.waiting⟩, hseen⟩
  · have hv' := hv
    have hw' := hw
    rw [hother hv] at hv'
    rw [hother hw] at hw'
    exact h.single hv' hw'
  · obtain ⟨v, hv⟩ := h.awaited hw
    refine ⟨v, ?_⟩
    rw [pc_other]
    · exact hv
    · rintro rfl
      exact hw (hfree hv)

theorem pass (h : InTurn s) (hself : (s.pc u).due = none) (hpc : pc.due = none) :
    InTurn (s.goto u pc) := h.leave hpc fun hno => absurd hself hno

/-- The request that owes the answer sees something of its game. -/
theorem look (h : InTurn s) (hdue : (s.pc u).due = some node) (hpc : pc.due = some node)
    (hseen : ∀ {id game}, s.entry = some { node, game := some (id, game) } → pc.Seen game) :
    InTurn (s.goto u pc) := by
  have hdue' (v : Nat) : ((s.goto u pc).pc v).due = (s.pc v).due := by
    by_cases hv : v = u
    · rw [hv, pc_self, hpc, hdue]
    · rw [pc_other s pc hv]
  refine ⟨h.balanced, fun {v n} hv => ?_, fun {v w} hv hw => ?_, fun hw => ?_, h.alternates⟩
  · rw [hdue'] at hv
    obtain ⟨id, game, howes, hseen'⟩ := h.owes hv
    refine ⟨id, game, ⟨howes.entry, howes.waiting⟩, ?_⟩
    by_cases hvu : v = u
    · subst hvu
      obtain rfl := Option.some.inj (hv.symm.trans hdue)
      rw [pc_self]
      exact hseen howes.entry
    · rw [pc_other s pc hvu]
      exact hseen'
  · rw [hdue'] at hv hw
    exact h.single hv hw
  · obtain ⟨v, hv⟩ := h.awaited hw
    exact ⟨v, by rwa [hdue']⟩

/-- When no answer is owed, the entry may become anything that is even. -/
theorem renew (h : InTurn s) (hnone : ∀ v, (s.pc v).due = none) (hhistory : s'.history = s.history)
    (hpc : s'.pc = s.pc) (hdue : pc.due = none)
    (heven : ∀ {node id game}, s'.entry = some { node, game := some (id, game) } →
      Balanced false game) : InTurn (s'.goto u pc) := by
  have hnone' (v : Nat) : ((s'.goto u pc).pc v).due = none := by
    by_cases hv : v = u
    · rw [hv, pc_self, hdue]
    · rw [pc_other s' pc hv, hpc, hnone]
  refine of_none_due hnone' ?_ heven ?_
  · show waiting s'.history = none
    rw [hhistory]
    exact h.waiting_eq_none hnone
  · show Alternates s'.history
    rw [hhistory]
    exact h.alternates

/-- The human moves while no answer is owed: now this request owes one. -/
theorem move {x y : Int} (h : InTurn s) (hnone : ∀ v, (s.pc v).due = none)
    (hentry : s.entry = some { node, game := some (id, game) })
    (hmoved : (game.humanMove x y).1 = true) :
    InTurn ({ s.setGame node id (game.humanMove x y).2 with
      history := .human id (ended (game.humanMove x y).2) :: s.history }.goto u
        (.isGameOver node false)) := by
  have hwaiting := h.waiting_eq_none hnone
  obtain ⟨hgoing, hblack, hwhite⟩ := stones_humanMove hmoved
  set game' := (game.humanMove x y).2 with hgame'
  set s' : State := { s.setGame node id game' with
    history := .human id (ended game') :: s.history } with hs'
  have hother {v : Nat} (hv : ((s'.goto u (.isGameOver node false)).pc v).due ≠ none) : v = u := by
    by_contra hne
    rw [pc_other s' _ hne] at hv
    exact hv (hnone v)
  refine ⟨fun he => ?_, fun {v n} hv => ?_, fun hv hw => (hother hv).trans (hother hw).symm,
    fun _ => ⟨u, ?_⟩, ⟨hwaiting, h.alternates⟩⟩
  · have hin : s'.entry = some { node, game := some (id, game') } := rfl
    obtain ⟨-, rfl⟩ := game_inj hin he
    have hle := (h.balanced hentry).2 hgoing (by rw [hwaiting]; rfl)
    refine ⟨by omega, fun hgoing' howed => ?_⟩
    have hsome : waiting (s'.goto u (.isGameOver node false)).history = some id := by
      show (if ended game' = true then none else some id) = some id
      rw [hgoing']
      rfl
    rw [hsome] at howed
    cases howed
  · have hvu : v = u := hother (by rw [hv]; exact Option.some_ne_none n)
    subst hvu
    rw [pc_self] at hv ⊢
    obtain rfl := Option.some.inj hv
    exact ⟨id, game', ⟨rfl, rfl⟩, trivial⟩
  · rw [pc_self]
    exact Option.some_ne_none node

/-- The request that owes the answer makes it. -/
theorem answer {rand : Nat} (h : InTurn s) (hpc : s.pc u = .aiMove node)
    (hentry : s.entry = some { node, game := some (id, game) }) :
    InTurn ({ s.setGame node id (game.aiMove S rand) with
      history := if ended game then s.history else .ai id :: s.history }.goto u
        (.isGameOver node true)) := by
  have hdue : (s.pc u).due = some node := by rw [hpc]; rfl
  obtain ⟨howes, hseen⟩ := h.owes_of_due hdue hentry
  rw [hpc] at hseen
  have hgoing : ended game = false := hseen
  obtain ⟨hblack, hwhite⟩ := stones_aiMove hgoing S rand
  have hwaiting : waiting s.history = some id := by
    rw [howes.waiting, hgoing]
    rfl
  rw [if_neg (by rw [hgoing]; decide)]
  set s' : State := { s.setGame node id (game.aiMove S rand) with
    history := .ai id :: s.history } with hs'
  refine of_none_due (fun v => ?_) (if_pos hwaiting) (fun he => ?_) h.alternates
  · by_cases hv : v = u
    · rw [hv, pc_self]
      rfl
    · rw [pc_other s' _ hv]
      by_contra hno
      exact hv (h.single hno (by rw [hdue]; exact Option.some_ne_none node))
  · have hin : s'.entry = some { node, game := some (id, game.aiMove S rand) } := rfl
    obtain ⟨-, rfl⟩ := game_inj hin he
    have hle := (h.balanced hentry).1
    exact balanced_of_le _ (by omega)

theorem index_cases (s : State) : s.index.2 = s ∨
    s.entry = none ∧ s.index.2 = { s with
      entry := some { node := s.nodes }, nodes := s.nodes + 1 } := by
  unfold State.index
  cases s.entry with
  | none => exact .inr ⟨rfl, rfl⟩
  | some e => exact .inl rfl

theorem index_keeps (s : State) : s.index.2.pc = s.pc ∧ s.index.2.history = s.history := by
  rcases index_cases s with heq | ⟨-, heq⟩
  · rw [heq]
    exact ⟨rfl, rfl⟩
  · rw [heq]
    exact ⟨rfl, rfl⟩

theorem none_due_of_entry (h : InTurn s) (hentry : s.entry = none) (v : Nat) :
    (s.pc v).due = none := by
  by_contra hno
  obtain ⟨node, hdue⟩ := Option.ne_none_iff_exists'.mp hno
  obtain ⟨id, game, howes, -⟩ := h.owes hdue
  rw [howes.entry] at hentry
  cases hentry

/-- The reference to the node, which may be a new one that holds no game. -/
theorem refer {x y : Int} (h : InTurn s) (hpc : s.pc u = .index x y) :
    InTurn (s.index.2.goto u (.humanMove s.index.1 x y)) := by
  rcases index_cases s with heq | ⟨hentry, heq⟩
  · rw [heq]
    exact h.pass (by rw [hpc]; rfl) rfl
  · rw [heq]
    refine h.renew (h.none_due_of_entry hentry) rfl rfl rfl fun he => ?_
    cases he

/-- The two tests, before the answer and after it. -/
theorem test {answered : Bool} (h : InTurn s) (hpc : s.pc u = .isGameOver node answered)
    (hentry : s.entry = some { node, game := some (id, game) }) :
    InTurn (s.goto u (if game.state.gameOver_ then .reply node true
      else .isDraw node answered)) := by
  cases answered with
  | true =>
    refine h.pass (by rw [hpc]; rfl) ?_
    split_ifs <;> rfl
  | false =>
    have hdue : (s.pc u).due = some node := by rw [hpc]; rfl
    obtain ⟨howes, -⟩ := h.owes_of_due hdue hentry
    split_ifs with hover
    · refine h.leave rfl fun _ => howes.waiting.trans (if_pos ?_)
      rw [ended, hover, Bool.true_or]
    · refine h.look hdue rfl fun he => ?_
      obtain ⟨-, rfl⟩ := game_inj hentry he
      exact Bool.eq_false_of_not_eq_true hover

theorem testDraw {answered : Bool} (h : InTurn s) (hpc : s.pc u = .isDraw node answered)
    (hentry : s.entry = some { node, game := some (id, game) }) :
    InTurn (s.goto u (if game.state.isDraw then .reply node true
      else if answered then .reply node false else .aiMove node)) := by
  cases answered with
  | true =>
    show InTurn (s.goto u (if game.state.isDraw then .reply node true else .reply node false))
    refine h.pass (by rw [hpc]; rfl) ?_
    split_ifs <;> rfl
  | false =>
    show InTurn (s.goto u (if game.state.isDraw then .reply node true else .aiMove node))
    have hdue : (s.pc u).due = some node := by rw [hpc]; rfl
    obtain ⟨howes, hseen⟩ := h.owes_of_due hdue hentry
    rw [hpc] at hseen
    have hover : game.state.gameOver_ = false := hseen
    split_ifs with hdraw
    · refine h.leave rfl fun _ => howes.waiting.trans (if_pos ?_)
      rw [ended, hdraw, Bool.or_true]
    · refine h.look hdue rfl fun he => ?_
      obtain ⟨-, rfl⟩ := game_inj hentry he
      show ended game = false
      rw [ended, hover, Bool.eq_false_of_not_eq_true hdraw]
      rfl

/-- **One step** of an undivided run leaves at most one answer due. -/
theorem step {a : Act} (h : InTurn s) (hg : Undivided s a)
    (hs : MoveThreads.step S s a = some s') : InTurn s' := by
  have hquiet {u : Nat} (hself : (s.pc u).due = none) (hothers : ∀ v, v ≠ u → (s.pc v).due = none)
      (v : Nat) : (s.pc v).due = none := by
    by_cases hv : v = u
    · rw [hv, hself]
    · exact hothers v hv
  cases effect_of_step hs with
  | @request u x y pc hpc hnew => exact h.pass (by rw [hpc]; rfl) hnew
  | @insert u rand x y hpc =>
    have hself : (s.pc u).due = none := by rw [hpc]; rfl
    have hothers := hg (by rw [hpc]; trivial)
    refine h.renew (hquiet hself hothers) (index_keeps s).2 (index_keeps s).1 rfl fun he => ?_
    have hin : (s.index.2.setGame s.index.1 s.index.2.games .new).entry =
        some { node := s.index.1, game := some (s.index.2.games, .new) } := rfl
    exact (game_inj hin he).2 ▸ balanced_new
  | @index u rand x y hpc => exact h.refer hpc
  | @refused u rand node x y hpc => exact h.pass (by rw [hpc]; rfl) rfl
  | @moved u rand node id x y game hpc hgame hmoved =>
    have hself : (s.pc u).due = none := by rw [hpc]; rfl
    refine h.move (hquiet hself (hg ?_)) hgame hmoved
    rw [hpc]
    exact ⟨id, game, deref_eq_some.mpr hgame, humanMove_fst game x y ▸ hmoved⟩
  | @isGameOver u rand node id answered game hpc hgame => exact h.test hpc hgame
  | @isDraw u rand node id answered game hpc hgame => exact h.testDraw hpc hgame
  | @aiMove u rand node id game hpc hgame => exact h.answer hpc hgame
  | @reply u rand node finished hpc =>
    refine h.pass (by rw [hpc]; rfl) ?_
    cases finished <;> rfl
  | @erase u rand hpc =>
    have hself : (s.pc u).due = none := by rw [hpc]; rfl
    have hothers := hg (by rw [hpc]; trivial)
    exact h.renew (hquiet hself hothers) rfl rfl rfl nofun

end InTurn

/-! ## Whole runs -/

section Runs

variable {S : StdSort Cell} {s s' : State} {acts : List Act}

/-- **Turns alternate** in every run that is undivided, of any number of requests. -/
theorem turns_of_undivided (hquiet : Quiet s) (hg : Guarded Undivided (step S) s acts)
    (hrun : run (step S) s acts = some s') : Turns s' := by
  have h := run_invariant acts InTurn.step (InTurn.of_quiet hquiet) hg hrun
  exact ⟨fun he => (h.balanced he).1, h.alternates⟩

/-- Nothing is in the table, and nothing is under way. -/
theorem quiet_start : Quiet {} := ⟨fun _ => rfl, rfl, nofun⟩

/-- While the first request owes its answer, the second one tries the same cell. -/
theorem turns_of_refused : ∃ s : State, run (step (StdSort.stable Cell)) {}
      [.request 0 7 7, .next 0 0, .next 0 0, .next 0 0, .request 1 7 7, .next 1 0, .next 1 0,
        .next 0 0, .next 0 0, .next 0 0] = some s ∧ s.history = [.ai 0, .human 0 false] ∧
      Turns s := by
  have hg : Guarded Undivided (step (StdSort.stable Cell)) {}
      [.request 0 7 7, .next 0 0, .next 0 0, .next 0 0, .request 1 7 7, .next 1 0, .next 1 0,
        .next 0 0, .next 0 0, .next 0 0] := by
    have hothers {s : State} (h : ∀ v, s.pc (v + 1) = .idle) (v : Nat) (hv : v ≠ 0) :
        (s.pc v).due = none := by
      obtain ⟨w, rfl⟩ := Nat.exists_eq_succ_of_ne_zero hv
      rw [h w]
      rfl
    refine .of_step trivial rfl (.of_step (fun _ => hothers fun _ => rfl) rfl
      (.of_step nofun rfl (.of_step (fun _ => hothers fun _ => rfl) rfl
      (.of_step trivial rfl (.of_step nofun rfl (.of_step ?_ rfl
      (.of_step nofun rfl (.of_step nofun rfl (.of_step nofun rfl trivial)))))))))
    rintro ⟨id, game, hgame, hvalid⟩
    cases hgame
    exact absurd hvalid (by decide)
  exact ⟨_, rfl, rfl, turns_of_undivided quiet_start hg rfl⟩

/-- Two requests move before either has the answer made. -/
theorem two_moves_in_turn : ¬ ∀ (S : StdSort Cell) (s s' : State) (acts : List Act), Quiet s →
    run (step S) s acts = some s' → Turns s' := by
  intro h
  have hturns := h (StdSort.stable Cell) {} _ [.request 0 7 7, .next 0 0, .next 0 0, .next 0 0,
    .request 1 7 8, .next 1 0, .next 1 0] quiet_start rfl
  exact absurd hturns.alternates.1 (by decide)

end Runs

/-! ## A request alone

Without another thread the calls of a request come to what the handler does as a whole. -/

/-- The game of the user after a move, from the one before it. -/
def afterMove (S : StdSort Cell) (rand : Nat) (before : Option Game) (x y : Int) : Option Game :=
  let game := before.getD .new
  let moved := (game.humanMove x y).2
  if (game.humanMove x y).1 = false then some game
  else if ended moved then none
  else if ended (moved.aiMove S rand) then none
  else some (moved.aiMove S rand)

theorem afterMove_eq (S : StdSort Cell) (rand : Nat) {before : Option Game} {game : Game}
    (hgame : before.getD .new = game) (x y : Int) : afterMove S rand before x y =
      if (game.humanMove x y).1 = false then some game
      else if ended (game.humanMove x y).2 then none
      else if ended ((game.humanMove x y).2.aiMove S rand) then none
      else some ((game.humanMove x y).2.aiMove S rand) := by
  subst hgame
  rfl

section Alone

variable {S : StdSort Cell} {s s₁ : State} {u rand node id : Nat} {game : Game} {o : Option Game}
  {x y : Int}

def State.inTable (s : State) : Option Game := s.entry.bind fun e => e.game.map Prod.snd

theorem inTable_of_entry (hentry : s.entry = some { node, game := some (id, game) }) :
    s.inTable = some game := by
  rw [State.inTable, hentry]
  rfl

/-- The thread comes to the end of its request, with this game in the table. -/
def Finishes (S : StdSort Cell) (u rand : Nat) (s : State) (o : Option Game) : Prop :=
  ∃ n s', run (step S) s (List.replicate n (.next u rand)) = some s' ∧ s'.pc u = .idle ∧
    s'.inTable = o

theorem Finishes.next (hs : step S s (.next u rand) = some s₁) (h : Finishes S u rand s₁ o) :
    Finishes S u rand s o := by
  obtain ⟨n, s', hrun, hend⟩ := h
  refine ⟨n + 1, s', ?_, hend⟩
  rw [List.replicate_succ, run, hs]
  exact hrun

theorem finishes_idle (hpc : s.pc u = .idle) (hin : s.inTable = o) : Finishes S u rand s o :=
  ⟨0, s, rfl, hpc, hin⟩

theorem finishes_erase (hpc : s.pc u = .erase) : Finishes S u rand s none := by
  have hs : step S s (.next u rand) = some ({ s with entry := none }.goto u .idle) := by
    simp only [step, hpc]
  exact .next hs (finishes_idle (pc_self _ _ _) rfl)

theorem finishes_reply {finished : Bool} (hpc : s.pc u = .reply node finished)
    (hentry : s.entry = some { node, game := some (id, game) }) :
    Finishes S u rand s (if finished then none else some game) := by
  have hs : step S s (.next u rand) = some (s.goto u (if finished then .erase else .idle)) := by
    simp only [step, hpc, deref_eq_some.mpr hentry, Option.map_some]
  refine .next hs ?_
  cases finished with
  | true => exact finishes_erase (pc_self _ _ _)
  | false => exact finishes_idle (pc_self _ _ _) (inTable_of_entry hentry)

theorem finishes_over {answered : Bool} (hpc : s.pc u = .isGameOver node answered)
    (hentry : s.entry = some { node, game := some (id, game) }) (hended : ended game = true) :
    Finishes S u rand s none := by
  have hs : step S s (.next u rand) = some (s.goto u
      (if game.state.gameOver_ then .reply node true else .isDraw node answered)) := by
    simp only [step, hpc, deref_eq_some.mpr hentry, Option.map_some]
  refine .next hs ?_
  split_ifs with hover
  · exact finishes_reply (pc_self _ _ _) hentry
  · have hdraw : game.state.isDraw = true := by
      rw [ended, Bool.eq_false_of_not_eq_true hover, Bool.false_or] at hended
      exact hended
    set s₁ := s.goto u (.isDraw node answered) with hs₁
    have hpc₁ : s₁.pc u = .isDraw node answered := pc_self _ _ _
    have hentry₁ : s₁.entry = some { node, game := some (id, game) } := hentry
    have hs' : step S s₁ (.next u rand) = some (s₁.goto u (.reply node true)) := by
      simp only [step, hpc₁, deref_eq_some.mpr hentry₁, Option.map_some, hdraw, if_true]
    exact .next hs' (finishes_reply (pc_self _ _ _) hentry₁)

theorem finishes_going {answered : Bool} (hpc : s.pc u = .isGameOver node answered)
    (hentry : s.entry = some { node, game := some (id, game) }) (hgoing : ended game = false)
    (h : ∀ s₁ : State, s₁.entry = some { node, game := some (id, game) } →
      s₁.pc u = (if answered then .reply node false else .aiMove node) → Finishes S u rand s₁ o) :
    Finishes S u rand s o := by
  obtain ⟨hover, hdraw⟩ := Bool.or_eq_false_iff.mp hgoing
  have hs : step S s (.next u rand) = some (s.goto u (.isDraw node answered)) := by
    simp only [step, hpc, deref_eq_some.mpr hentry, Option.map_some, hover]
    rfl
  refine .next hs ?_
  set s₁ := s.goto u (.isDraw node answered) with hs₁
  have hpc₁ : s₁.pc u = .isDraw node answered := pc_self _ _ _
  have hentry₁ : s₁.entry = some { node, game := some (id, game) } := hentry
  have hs' : step S s₁ (.next u rand) =
      some (s₁.goto u (if answered then .reply node false else .aiMove node)) := by
    simp only [step, hpc₁, deref_eq_some.mpr hentry₁, Option.map_some, hdraw]
    rfl
  exact .next hs' (h _ hentry₁ (pc_self _ _ _))

theorem finishes_moved (hpc : s.pc u = .isGameOver node false)
    (hentry : s.entry = some { node, game := some (id, game) }) :
    Finishes S u rand s (if ended game then none
      else if ended (game.aiMove S rand) then none else some (game.aiMove S rand)) := by
  cases hended : ended game with
  | true => exact finishes_over hpc hentry hended
  | false =>
    refine finishes_going hpc hentry hended fun s₁ hentry₁ hpc₁ => ?_
    have hmove : s₁.pc u = .aiMove node := hpc₁
    set s₂ := { s₁.setGame node id (game.aiMove S rand) with
      history := .ai id :: s₁.history }.goto u (.isGameOver node true) with hs₂
    have hs : step S s₁ (.next u rand) = some s₂ := by
      simp only [step, hmove, deref_eq_some.mpr hentry₁, Option.map_some, hended]
      rfl
    refine .next hs ?_
    have hentry₂ : s₂.entry = some { node, game := some (id, game.aiMove S rand) } := rfl
    cases hended₂ : ended (game.aiMove S rand) with
    | true => exact finishes_over (pc_self _ _ _) hentry₂ hended₂
    | false =>
      refine finishes_going (pc_self _ _ _) hentry₂ hended₂ fun s₃ hentry₃ hpc₃ => ?_
      exact finishes_reply hpc₃ hentry₃

theorem finishes_humanMove (hpc : s.pc u = .humanMove node x y)
    (hentry : s.entry = some { node, game := some (id, game) }) :
    Finishes S u rand s (afterMove S rand (some game) x y) := by
  have hgame : (some game).getD .new = game := rfl
  rw [afterMove_eq S rand hgame]
  cases hmoved : (game.humanMove x y).1 with
  | false =>
    have hs : step S s (.next u rand) = some (s.goto u .idle) := by
      simp only [step, hpc, deref_eq_some.mpr hentry, Option.map_some, hmoved, if_true]
    exact .next hs (finishes_idle (pc_self _ _ _) (inTable_of_entry hentry))
  | true =>
    set s₁ := { s.setGame node id (game.humanMove x y).2 with
      history := .human id (ended (game.humanMove x y).2) :: s.history }.goto u
        (.isGameOver node false) with hs₁
    have hs : step S s (.next u rand) = some s₁ := by
      simp only [step, hpc, deref_eq_some.mpr hentry, Option.map_some, hmoved]
      rfl
    have hentry₁ : s₁.entry = some { node, game := some (id, (game.humanMove x y).2) } := rfl
    exact .next hs (finishes_moved (pc_self _ _ _) hentry₁)

theorem finishes_index (hpc : s.pc u = .index x y)
    (hentry : s.entry = some { node, game := some (id, game) }) :
    Finishes S u rand s (afterMove S rand (some game) x y) := by
  have hs : step S s (.next u rand) = some (s.goto u (.humanMove node x y)) := by
    simp only [step, hpc, State.index, hentry]
  exact .next hs (finishes_humanMove (pc_self _ _ _) hentry)

/-- **A request alone** has the game of its user in the table moved on, or a new one. -/
theorem finishes_request (hpc : s.pc u = .idle) (hheld : ∀ e, s.entry = some e → e.game ≠ none) :
    ∃ s₁, step S s (.request u x y) = some s₁ ∧
      Finishes S u rand s₁ (afterMove S rand s.inTable x y) := by
  cases hentry : s.entry with
  | none =>
    refine ⟨s.goto u (.insert x y), ?_, ?_⟩
    · simp only [step, hpc, hentry, if_true]
      rfl
    · set s₁ := s.goto u (.insert x y) with hs₁
      have hpc₁ : s₁.pc u = .insert x y := pc_self _ _ _
      have hentry₁ : s₁.entry = none := hentry
      have hin : s.inTable = none := by rw [State.inTable, hentry]; rfl
      have hnew : afterMove S rand s.inTable x y = afterMove S rand (some .new) x y := by
        rw [hin]
        rfl
      rw [hnew]
      have hs : step S s₁ (.next u rand) = some ({ s₁.index.2.setGame s₁.index.1 s₁.index.2.games
          .new with games := s₁.index.2.games + 1 }.goto u (.index x y)) := by
        simp only [step, hpc₁]
      exact .next hs (finishes_index (pc_self _ _ _) rfl)
  | some e =>
    obtain ⟨⟨id, game⟩, hgame⟩ := Option.ne_none_iff_exists'.mp (hheld e hentry)
    have hentry' : s.entry = some { node := e.node, game := some (id, game) } := by
      rw [hentry, ← hgame]
    refine ⟨s.goto u (.index x y), ?_, ?_⟩
    · simp only [step, hpc, hentry, if_true]
      rfl
    · rw [inTable_of_entry hentry']
      exact finishes_index (pc_self _ _ _) hentry'

variable {J : JsonLib} {env : Env} {req : HttpRequest} {e : Exchange GomokuServer} {v : Int}

theorem ends_answerMove_after {Q : Bytes → Exchange GomokuServer → Prop} :
    Ends (answerMove J S env req v game) e
      (fun _ e' => e'.server.game_map_.lookup v = if ended game then none
        else if ended (game.aiMove S env.rand) then none else some (game.aiMove S env.rand)) Q := by
  have herase {document : Json} {e₁ : Exchange GomokuServer} (hd : document.Dumpable) :
      Ends (moveReply J req document) e₁ (fun _ e' => Ends (eraseGame v) e'
        (fun _ e' => e'.server.game_map_.lookup v = none) Q) Q :=
    ends_moveReply hd fun _ _ => Finmap.lookup_erase _ _
  have hwin := dumpable_getWinner
  have hended (game : Game) : ended game = (game.state.gameOver_ || game.state.isDraw) := rfl
  unfold answerMove
  simp only [ends_ite, ends_bind, ends_setGame, hended]
  cases game.state.gameOver_ with
  | true => exact herase (dumpable_finished _ (hwin _))
  | false =>
    cases game.state.isDraw with
    | true => exact herase (dumpable_finished _ (.str (by decide)))
    | false =>
      generalize game.aiMove S env.rand = answer
      cases answer.state.gameOver_ with
      | true => exact herase (dumpable_answered _ (by decide) (hwin _))
      | false =>
        cases answer.state.isDraw with
        | true => exact herase (dumpable_answered _ (by decide) (.str (by decide)))
        | false =>
          refine ends_moveReply ?_ fun e' he' => ?_
          · exact dumpable_answered _ (by decide) (.str (by decide))
          · rw [he']
            exact Finmap.lookup_insert _

theorem ends_takeMove_after :
    Ends (takeMove J S env req v x y) e
      (fun _ e' => e'.server.game_map_.lookup v =
        afterMove S env.rand (e.server.game_map_.lookup v) x y)
      fun _ e' => e'.server.game_map_.lookup v =
        afterMove S env.rand (e.server.game_map_.lookup v) x y := by
  rw [afterMove_eq S env.rand rfl]
  unfold takeMove
  rw [ends_bind, ends_get, ends_bind, ends_setGame, ends_ite]
  generalize (e.server.game_map_.lookup v).getD .new = game
  by_cases hmoved : (game.humanMove x y).1 = false
  · simp only [if_pos hmoved]
    refine keepsTable_dumped_reply (P := fun m => m.lookup v = some game) _ _ _ _ _ _ _ _ ?_
    rw [Game.humanMove_refused hmoved]
    exact Finmap.lookup_insert _
  · simp only [if_neg hmoved]
    exact ends_answerMove_after

/-- **A request alone does what the handler does**: its calls, one after another, leave the game
of the user in the table that `takeMove` leaves there. -/
theorem finishes_as_takeMove (hpc : s.pc u = .idle)
    (hheld : ∀ entry, s.entry = some entry → entry.game ≠ none)
    (hin : s.inTable = e.server.game_map_.lookup v) :
    ∃ s₁, step S s (.request u x y) = some s₁ ∧
      Ends (takeMove J S env req v x y) e
        (fun _ e' => Finishes S u env.rand s₁ (e'.server.game_map_.lookup v))
        fun _ e' => Finishes S u env.rand s₁ (e'.server.game_map_.lookup v) := by
  obtain ⟨s₁, hs, hfinishes⟩ : ∃ s₁, step S s (.request u x y) = some s₁ ∧
      Finishes S u env.rand s₁ (afterMove S env.rand s.inTable x y) := finishes_request hpc hheld
  rw [hin] at hfinishes
  refine ⟨s₁, hs, ends_takeMove_after.imp (fun _ _ h => ?_) fun _ _ h => ?_⟩
  · rw [h]
    exact hfinishes
  · rw [h]
    exact hfinishes

end Alone

end MoveThreads
end Workplace.Gomoku
