import Workplace.Coroutine.FdManager
import Workplace.Coroutine.SleepDelays

/-! The timeouts of a socket, from the hooked `setsockopt` to the timer of `do_io`. The hook
stores milliseconds, and `do_io` waits without a timer only where nothing was stored. -/

namespace Workplace.Coroutine
open Workplace.Lib

/-- A valid `timeval`. -/
structure Timeval where
  tv_sec : Nat
  tv_usec : Nat
  sec_lt : tv_sec < 2 ^ 63
  usec_lt : tv_usec < 1000000

namespace Timeval

/-- What `setsockopt` hands to `setTimeout`. -/
def timeout (v : Timeval) : Option UInt64 := do
  let sec ← long (v.tv_sec * 1000)
  let ms ← long (sec + v.tv_usec / 1000)
  return widen ms

def wholeMs (v : Timeval) : Nat := v.tv_sec * 1000 + v.tv_usec / 1000

def usecs (v : Timeval) : Nat := v.tv_sec * 1000000 + v.tv_usec

end Timeval

def FdCtx.setTimeout (ctx : FdCtx) (type : TimeoutSo) (v : UInt64) : FdCtx :=
  if type = .SO_RCVTIMEO then { ctx with m_recvTimeout := v } else { ctx with m_sendTimeout := v }

/-- A call of `setsockopt` at the level `SOL_SOCKET`. -/
structure TimeoutCall where
  sockfd : Nat
  optname : TimeoutSo
  optval : Timeval

/-- `(uint64_t)-1` -/
def noTimeout : UInt64 := .ofNat (2 ^ 64 - 1)

/-- The timer that `do_io` adds when the call says `EAGAIN`, with its delay. -/
def IoRoute.timer : IoRoute → Option UInt64
  | .retried timeout => if timeout = noTimeout then none else some timeout
  | _ => none

namespace FdManager

def setsockopt (s : FdManager) (call : TimeoutCall) : Option FdManager :=
  match s.find call.sockfd with
  | none => some s
  | some ctx => call.optval.timeout.map fun v =>
    s.setCtx call.sockfd (some (ctx.setTimeout call.optname v))

def getTimeout (s : FdManager) (fd : Nat) (so : TimeoutSo) : Option UInt64 :=
  (s.find fd).map (·.getTimeout so)

end FdManager

namespace TimeoutCall

/-- The timeval that was set last for this direction of the socket. -/
def latest (fd : Nat) (so : TimeoutSo) (calls : List TimeoutCall) : Option Timeval :=
  (calls.reverse.find? fun call => call.sockfd = fd ∧ call.optname = so).map optval

end TimeoutCall

namespace FdManager
open TimeoutCall

/-- A descriptor with a context, on which no timeout was set. -/
def Untimed (s : FdManager) (fd : Nat) : Prop :=
  ∃ ctx, s.find fd = some ctx ∧ ∀ so, ctx.getTimeout so = noTimeout

/-- A `do_io` that meets `EAGAIN` waits for the socket. -/
def Waits (s : FdManager) (fd : Nat) (so : TimeoutSo) : Prop := ∃ t, s.do_io fd so = .retried t

/-- What the calls mean to a `do_io` after them that meets `EAGAIN`, in one direction. -/
structure Meant (s : FdManager) (fd : Nat) (so : TimeoutSo) (calls : List TimeoutCall) : Prop where
  forever : (s.do_io fd so).timer = none ↔ ∀ v, latest fd so calls = some v → v.usecs = 0
  enough : ∀ v, latest fd so calls = some v → v.usecs ≠ 0 →
    ∃ ms, (s.do_io fd so).timer = some ms ∧ v.usecs ≤ ms.toNat * 1000

/-- The calls are defined and mean what they say, and those for another direction, or for
another socket, leave this one alone. -/
structure KeepsMeaning (s : FdManager) (fd : Nat) (so : TimeoutSo) (calls : List TimeoutCall) :
    Prop where
  meant : ∃ s', run setsockopt s calls = some s' ∧ (s'.Waits fd so → s'.Meant fd so calls)
  apart : ∀ before call after s₀ s₁, calls = before ++ call :: after →
    ¬ (call.sockfd = fd ∧ call.optname = so) → run setsockopt s before = some s₀ →
      s₀.setsockopt call = some s₁ → s₁.getTimeout fd so = s₀.getTimeout fd so

/-- The milliseconds fit into a `long` in every call that stores them, and for a socket that
`do_io` waits for, the latest timeval of the direction, if there is one, is a whole number of
milliseconds and not 0. -/
structure Storable (s : FdManager) (fd : Nat) (so : TimeoutSo) (calls : List TimeoutCall) :
    Prop where
  fits : ∀ call ∈ calls, (s.find call.sockfd).isSome → call.optval.wholeMs < 2 ^ 63
  whole : s.Waits fd so → ∀ v, latest fd so calls = some v → v.usecs ≠ 0 ∧ 1000 ∣ v.tv_usec

end FdManager

/-! ## One call -/

theorem widen_natCast {n : Nat} (h : n < 2 ^ 64) : widen n = .ofNat n := by
  have hmod : (n : Int) % 2 ^ 64 = (n % 2 ^ 64 : Nat) := rfl
  unfold widen
  rw [hmod, Int.toNat_natCast, Nat.mod_eq_of_lt h]

theorem Timeval.timeout_eq (v : Timeval) :
    v.timeout = if v.wholeMs < 2 ^ 63 then some (.ofNat v.wholeMs) else none := by
  have husec : (v.tv_usec : Int) / 1000 = (v.tv_usec / 1000 : Nat) := rfl
  have hlong := long_add v.tv_sec husec
  unfold timeout
  change ((long (v.tv_sec * 1000)).bind fun sec =>
    (long (sec + v.tv_usec / 1000)).bind fun ms => some (widen ms)) = _
  rw [← Option.bind_assoc, hlong]
  change (if v.wholeMs < 2 ^ 63 then some (v.wholeMs : Int) else none).bind _ = _
  split_ifs with hfits
  · rw [Option.bind_some, widen_natCast (hfits.trans (by decide))]
  · rfl

/-- What `do_io` asks of a context before it retries. -/
def FdCtx.Blocks (ctx : FdCtx) : Prop :=
  ctx.m_isClosed = false ∧ ctx.m_isSocket = true ∧ ctx.m_userNonblock = false

theorem FdCtx.blocks_setTimeout (ctx : FdCtx) (type : TimeoutSo) (v : UInt64) :
    (ctx.setTimeout type v).Blocks ↔ ctx.Blocks := by
  unfold setTimeout
  split_ifs
  · exact Iff.rfl
  · exact Iff.rfl

theorem FdCtx.getTimeout_setTimeout (ctx : FdCtx) (type so : TimeoutSo) (v : UInt64) :
    (ctx.setTimeout type v).getTimeout so = if type = so then v else ctx.getTimeout so := by
  cases type <;> cases so <;> rfl

namespace FdManager
open TimeoutCall
variable {s s' : FdManager} {fd fd' : Nat} {so : TimeoutSo} {t : UInt64} {call : TimeoutCall}

theorem do_io_eq_retried : s.do_io fd so = .retried t ↔
    ∃ ctx, s.find fd = some ctx ∧ ctx.Blocks ∧ ctx.getTimeout so = t := by
  unfold do_io FdCtx.Blocks
  cases s.find fd with
  | none => simp
  | some ctx =>
    cases hclosed : ctx.m_isClosed <;> cases hsocket : ctx.m_isSocket <;>
      cases huser : ctx.m_userNonblock <;> simp [hclosed, hsocket, huser]

theorem waits_iff : s.Waits fd so ↔ ∃ ctx, s.find fd = some ctx ∧ ctx.Blocks := by
  unfold Waits
  simp only [do_io_eq_retried]
  constructor
  · rintro ⟨t, ctx, hfind, hblocks, -⟩
    exact ⟨ctx, hfind, hblocks⟩
  · rintro ⟨ctx, hfind, hblocks⟩
    exact ⟨_, ctx, hfind, hblocks, rfl⟩

theorem Untimed.do_io (h : s.Untimed fd) (hwaits : s.Waits fd so) :
    s.do_io fd so = .retried noTimeout := by
  obtain ⟨t, ht⟩ := hwaits
  obtain ⟨ctx, hfind, -, htimeout⟩ := do_io_eq_retried.mp ht
  obtain ⟨ctx', hfind', hnone⟩ := h
  obtain rfl := Option.some.inj (hfind.symm.trans hfind')
  rw [ht, ← htimeout, hnone]

/-- A call changes one timeout of one socket. -/
theorem setsockopt_cases (hs : s.setsockopt call = some s') :
    s.find call.sockfd = none ∧ s' = s ∨ ∃ ctx v, s.find call.sockfd = some ctx ∧
      call.optval.timeout = some v ∧
        s' = s.setCtx call.sockfd (some (ctx.setTimeout call.optname v)) := by
  unfold setsockopt at hs
  cases hfind : s.find call.sockfd with
  | none =>
    simp only [hfind] at hs
    exact .inl ⟨rfl, (Option.some.inj hs).symm⟩
  | some ctx =>
    simp only [hfind] at hs
    obtain ⟨v, hv, heq⟩ := Option.map_eq_some_iff.mp hs
    exact .inr ⟨ctx, v, rfl, hv, heq.symm⟩

theorem setsockopt_isSome : (s.setsockopt call).isSome ↔
    ((s.find call.sockfd).isSome → call.optval.wholeMs < 2 ^ 63) := by
  unfold setsockopt
  rw [Timeval.timeout_eq]
  cases s.find call.sockfd with
  | none => exact iff_of_true rfl fun h => by cases h
  | some ctx =>
    dsimp only
    split_ifs with hfits
    · exact iff_of_true rfl fun _ => hfits
    · exact iff_of_false Bool.false_ne_true fun h => hfits (h rfl)

theorem isSome_find_setsockopt (hs : s.setsockopt call = some s') (fd : Nat) :
    (s'.find fd).isSome = (s.find fd).isSome := by
  rcases setsockopt_cases hs with ⟨-, rfl⟩ | ⟨ctx, v, hfind, -, rfl⟩
  · rfl
  · by_cases hfd : fd = call.sockfd
    · rw [hfd, find_setCtx_self (lt_length_of_find hfind), hfind]
      rfl
    · rw [find_setCtx_ne hfd]

theorem waits_setsockopt (hs : s.setsockopt call = some s') :
    s'.Waits fd so ↔ s.Waits fd so := by
  rw [waits_iff, waits_iff]
  rcases setsockopt_cases hs with ⟨-, rfl⟩ | ⟨ctx, v, hfind, -, rfl⟩
  · exact Iff.rfl
  · by_cases hfd : fd = call.sockfd
    · subst hfd
      rw [find_setCtx_self (lt_length_of_find hfind), hfind]
      simp only [Option.some.injEq, exists_eq_left', FdCtx.blocks_setTimeout]
    · rw [find_setCtx_ne hfd]

theorem find_setsockopt_ne (hs : s.setsockopt call = some s') (hne : fd ≠ call.sockfd) :
    s'.find fd = s.find fd := by
  rcases setsockopt_cases hs with ⟨-, rfl⟩ | ⟨ctx, v, -, -, rfl⟩
  · rfl
  · exact find_setCtx_ne hne _

theorem getTimeout_setsockopt (hs : s.setsockopt call = some s')
    (hother : ¬ (call.sockfd = fd ∧ call.optname = so)) :
    s'.getTimeout fd so = s.getTimeout fd so := by
  unfold getTimeout
  rcases setsockopt_cases hs with ⟨-, rfl⟩ | ⟨ctx, v, hfind, -, rfl⟩
  · rfl
  · by_cases hfd : fd = call.sockfd
    · subst hfd
      have hopt : ¬ call.optname = so := fun heq => hother ⟨rfl, heq⟩
      rw [find_setCtx_self (lt_length_of_find hfind), hfind, Option.map_some, Option.map_some,
        FdCtx.getTimeout_setTimeout, if_neg hopt]
    · rw [find_setCtx_ne hfd]

/-- The timeout of a socket after a call, which may be one for it. -/
theorem do_io_setsockopt (h : s.do_io fd so = .retried t) (hs : s.setsockopt call = some s') :
    s'.do_io fd so = .retried (if call.sockfd = fd ∧ call.optname = so then
      .ofNat call.optval.wholeMs else t) := by
  obtain ⟨ctx, hfind, hblocks, ht⟩ := do_io_eq_retried.mp h
  rw [do_io_eq_retried]
  by_cases hfd : fd = call.sockfd
  · subst hfd
    rcases setsockopt_cases hs with ⟨hnone, -⟩ | ⟨ctx', v, hfind', hv, rfl⟩
    · rw [hfind] at hnone
      cases hnone
    · obtain rfl := Option.some.inj (hfind.symm.trans hfind')
      have hms : v = .ofNat call.optval.wholeMs := by
        rw [Timeval.timeout_eq] at hv
        split_ifs at hv
        exact (Option.some.inj hv).symm
      refine ⟨_, find_setCtx_self (lt_length_of_find hfind) _, (ctx.blocks_setTimeout _ _).mpr hblocks, ?_⟩
      simp only [FdCtx.getTimeout_setTimeout, ht, hms, true_and]
  · rw [find_setsockopt_ne hs hfd, if_neg fun h => hfd h.1.symm]
    exact ⟨ctx, hfind, hblocks, ht⟩

/-! ## A run of calls -/

variable {calls : List TimeoutCall}

theorem latest_cons (call : TimeoutCall) (calls : List TimeoutCall) :
    latest fd so (call :: calls) = (latest fd so calls).or
      (if call.sockfd = fd ∧ call.optname = so then some call.optval else none) := by
  unfold latest
  rw [List.reverse_cons, List.find?_append, List.find?_singleton, Option.map_or]
  congr 1
  simp only [decide_eq_true_eq]
  split_ifs <;> rfl

theorem exists_of_latest {v : Timeval} (h : latest fd so calls = some v) :
    ∃ call ∈ calls, call.sockfd = fd ∧ call.optval = v := by
  obtain ⟨call, hfound, hv⟩ := Option.map_eq_some_iff.mp h
  have hcall := List.find?_some hfound
  exact ⟨call, List.mem_reverse.mp (List.mem_of_find?_eq_some hfound),
    (of_decide_eq_true hcall).1, hv⟩

theorem do_io_run (h : s.do_io fd so = .retried t) (hrun : run setsockopt s calls = some s') :
    s'.do_io fd so = .retried ((latest fd so calls).elim t fun v => .ofNat v.wholeMs) := by
  induction calls generalizing s t with
  | nil =>
    obtain rfl := Option.some.inj hrun
    exact h
  | cons call calls ih =>
    obtain ⟨s₁, hs, hrest⟩ := run_cons hrun
    rw [ih (do_io_setsockopt h hs) hrest, latest_cons]
    cases latest fd so calls with
    | none =>
      rw [Option.none_or]
      split_ifs
      · rfl
      · rfl
    | some v => rfl

theorem waits_run (hrun : run setsockopt s calls = some s') :
    s'.Waits fd so ↔ s.Waits fd so := by
  induction calls generalizing s with
  | nil =>
    obtain rfl := Option.some.inj hrun
    rfl
  | cons call calls ih =>
    obtain ⟨s₁, hs, hrest⟩ := run_cons hrun
    rw [ih hrest, waits_setsockopt hs]

theorem run_isSome : (run setsockopt s calls).isSome ↔
    ∀ call ∈ calls, (s.find call.sockfd).isSome → call.optval.wholeMs < 2 ^ 63 := by
  induction calls generalizing s with
  | nil => exact iff_of_true rfl fun call hmem => by cases hmem
  | cons call calls ih =>
    rw [List.forall_mem_cons, ← setsockopt_isSome]
    unfold run
    cases hs : s.setsockopt call with
    | none => exact iff_of_false Bool.false_ne_true fun h => absurd h.1 Bool.false_ne_true
    | some s₁ =>
      have hrest := ih (s := s₁)
      simp only [isSome_find_setsockopt hs] at hrest
      rw [Option.bind_some, hrest]
      exact (and_iff_right rfl).symm

/-! ## The timer -/

theorem timer_ofNat {ms : Nat} (h : ms < 2 ^ 63) :
    (IoRoute.retried (.ofNat ms)).timer = some (.ofNat ms) := by
  have hne : UInt64.ofNat ms ≠ noTimeout := by
    intro heq
    have htoNat := congrArg UInt64.toNat heq
    rw [UInt64.toNat_ofNat', Nat.mod_eq_of_lt (h.trans (by decide))] at htoNat
    rw [htoNat] at h
    exact absurd h (by decide)
  exact if_neg hne

theorem usecs_le_iff (v : Timeval) : v.usecs ≤ v.wholeMs * 1000 ↔ 1000 ∣ v.tv_usec := by
  unfold Timeval.usecs Timeval.wholeMs
  omega

/-- A stored timeval always makes a timer: 0 does not mean what it says, and another must not
lose a part of a millisecond. -/
theorem meant_of_retried {v : Timeval} (hlatest : latest fd so calls = some v)
    (hfits : v.wholeMs < 2 ^ 63) (h : s.do_io fd so = .retried (.ofNat v.wholeMs)) :
    s.Meant fd so calls ↔ v.usecs ≠ 0 ∧ 1000 ∣ v.tv_usec := by
  have htimer := timer_ofNat hfits
  have htoNat : (UInt64.ofNat v.wholeMs).toNat = v.wholeMs := by
    rw [UInt64.toNat_ofNat', Nat.mod_eq_of_lt (hfits.trans (by decide))]
  constructor
  · intro hmeant
    have hne : v.usecs ≠ 0 := by
      intro hzero
      have hnone := hmeant.forever.mpr fun v' hv' =>
        Option.some.inj (hlatest.symm.trans hv') ▸ hzero
      rw [h, htimer] at hnone
      cases hnone
    obtain ⟨ms, hms, hle⟩ := hmeant.enough v hlatest hne
    rw [h, htimer] at hms
    rw [← Option.some.inj hms, htoNat] at hle
    exact ⟨hne, (usecs_le_iff v).mp hle⟩
  · rintro ⟨hne, hdvd⟩
    constructor
    · rw [h, htimer]
      exact iff_of_false (Option.some_ne_none _) fun hzero => hne (hzero v hlatest)
    · intro v' hv' _
      obtain rfl := Option.some.inj (hlatest.symm.trans hv')
      rw [h]
      refine ⟨_, htimer, ?_⟩
      rw [htoNat]
      exact (usecs_le_iff v).mpr hdvd

theorem meant_of_untimed (hlatest : latest fd so calls = none)
    (h : s.do_io fd so = .retried noTimeout) : s.Meant fd so calls := by
  constructor
  · rw [h, hlatest]
    exact iff_of_true rfl fun v hv => by cases hv
  · intro v hv
    rw [hlatest] at hv
    cases hv

/-- Where the run is defined, only the latest timeval of the direction counts. -/
theorem meant_iff (h : s.Untimed fd) (hwaits : s.Waits fd so)
    (hrun : run setsockopt s calls = some s') : s'.Meant fd so calls ↔
      ∀ v, latest fd so calls = some v → v.usecs ≠ 0 ∧ 1000 ∣ v.tv_usec := by
  have hretried := do_io_run (h.do_io hwaits) hrun
  cases hlatest : latest fd so calls with
  | none =>
    rw [hlatest] at hretried
    exact iff_of_true (meant_of_untimed hlatest hretried) fun v hv => by cases hv
  | some v =>
    obtain ⟨call, hmem, rfl, rfl⟩ := exists_of_latest hlatest
    obtain ⟨ctx, hfind, -⟩ := h
    have hfits := run_isSome.mp (Option.isSome_of_eq_some hrun) call hmem
      (Option.isSome_of_eq_some hfind)
    rw [hlatest] at hretried
    rw [meant_of_retried hlatest hfits hretried]
    exact ⟨fun hv v' hv' => Option.some.inj hv' ▸ hv, fun hv => hv _ rfl⟩

/-- **The timeouts of a socket keep their meaning** exactly where the milliseconds say what the
timeval does. -/
theorem keepsMeaning_iff (h : s.Untimed fd) (so : TimeoutSo) (calls : List TimeoutCall) :
    s.KeepsMeaning fd so calls ↔ s.Storable fd so calls := by
  constructor
  · rintro ⟨⟨s', hrun, hmeant⟩, -⟩
    refine ⟨run_isSome.mp (Option.isSome_of_eq_some hrun), fun hwaits => ?_⟩
    exact (meant_iff h hwaits hrun).mp (hmeant ((waits_run hrun).mpr hwaits))
  · rintro ⟨hfits, hwhole⟩
    obtain ⟨s', hrun⟩ := Option.isSome_iff_exists.mp (run_isSome.mpr hfits)
    refine ⟨⟨s', hrun, fun hwaits => ?_⟩, ?_⟩
    · have hwaits := (waits_run hrun).mp hwaits
      exact (meant_iff h hwaits hrun).mpr (hwhole hwaits)
    · intro before call after s₀ s₁ _ hother _ hs
      exact getTimeout_setsockopt hs hother

/-- A new socket has no timeout yet, and `do_io` waits for it. -/
theorem Clean.untimed (h : s.Clean) (hfree : (s.kernel.files fd).isNone) (sock_nonblock : Bool) :
    (s.socket sock_nonblock fd).Untimed fd ∧ ∀ so, (s.socket sock_nonblock fd).Waits fd so := by
  obtain ⟨hfind, -⟩ := h.find_socket hfree sock_nonblock
  refine ⟨⟨_, hfind, fun so => ?_⟩, fun so => waits_iff.mpr ⟨_, hfind, rfl, rfl, rfl⟩⟩
  cases so with
  | SO_RCVTIMEO => rfl
  | SO_SNDTIMEO => rfl

/-- Both ways to make a socket, after any run of the hooks. -/
theorem untimed_of_creates {kernel : Kernel} {acts : List HookAct} {a : HookAct} {r : Bool}
    (hrun : run step (init kernel) acts = some s) (ha : creates a = some (fd, r))
    (hs : s.step a = some s') : s'.Untimed fd ∧ ∀ so, s'.Waits fd so := by
  have hclean : s.Clean :=
    run_invariant_of_step acts (fun h hs => Clean.step h hs) (clean_init kernel) hrun
  cases a with
  | socket sock_nonblock fd' =>
    obtain ⟨rfl, rfl⟩ := Prod.mk.inj (Option.some.inj ha)
    obtain ⟨hfree, rfl⟩ := step_socket hs
    exact hclean.untimed hfree sock_nonblock
  | accept sockfd fd' =>
    obtain ⟨rfl, rfl⟩ := Prod.mk.inj (Option.some.inj ha)
    obtain ⟨hfree, rfl⟩ := step_accept hs
    exact hclean.untimed hfree false
  | F_SETFL _ _ | ioctl _ _ | close _ => cases ha

/-- The first socket of a process. -/
def firstSocket : FdManager := (init ⟨fun _ => none⟩).socket false 3

theorem firstSocket_untimed : firstSocket.Untimed 3 ∧ ∀ so, firstSocket.Waits 3 so :=
  (clean_init _).untimed rfl false

/-- Two seconds for reading, and half a second for writing. -/
theorem keepsMeaning_firstSocket : firstSocket.KeepsMeaning 3 .SO_RCVTIMEO
    [⟨3, .SO_RCVTIMEO, ⟨2, 0, by decide, by decide⟩⟩,
      ⟨3, .SO_SNDTIMEO, ⟨0, 500000, by decide, by decide⟩⟩] := by
  refine (keepsMeaning_iff firstSocket_untimed.1 _ _).mpr ⟨?_, fun _ v hv => ?_⟩
  · rw [List.forall_mem_cons, List.forall_mem_singleton]
    exact ⟨fun _ => by decide, fun _ => by decide⟩
  · obtain rfl := Option.some.inj hv
    exact ⟨by decide, by decide⟩

/-- A timeval of 0, which removes a timeout, makes the next read give up at once. -/
theorem zero_timeval_times_out : ¬ ∀ (s : FdManager) (fd : Nat) (so : TimeoutSo)
    (calls : List TimeoutCall), s.Untimed fd → s.KeepsMeaning fd so calls := by
  intro h
  have hkeeps := h _ _ .SO_RCVTIMEO
    [⟨3, .SO_RCVTIMEO, ⟨0, 0, by decide, by decide⟩⟩] firstSocket_untimed.1
  have hstorable := (keepsMeaning_iff firstSocket_untimed.1 _ _).mp hkeeps
  exact (hstorable.whole (firstSocket_untimed.2 _) _ rfl).1 rfl

end FdManager
end Workplace.Coroutine
