import Mathlib.Tactic

/-! The delays that the hooked `sleep`, `usleep` and `nanosleep` give to `addTimer`, in
milliseconds. Each is computed in the types of its own argument. -/

namespace Workplace.Coroutine

/-- An expression of the type `long`. Where it overflows, its value is not defined. -/
def long (v : Int) : Option Int := if -2 ^ 63 ≤ v ∧ v < 2 ^ 63 then some v else none

/-- The conversion to `int`, modulo 2^32. -/
def narrow (v : Int) : Int := if v % 2 ^ 32 < 2 ^ 31 then v % 2 ^ 32 else v % 2 ^ 32 - 2 ^ 32

/-- The conversion of a signed value to `uint64_t`. -/
def widen (v : Int) : UInt64 := .ofNat (v % 2 ^ 64).toNat

theorem long_natCast (n : Nat) : long n = if n < 2 ^ 63 then some (n : Int) else none := by
  unfold long
  split_ifs <;> first | rfl | omega

/-- Milliseconds from seconds and the rest: where the product overflows, so does the sum. -/
theorem long_add (sec : Nat) {rest : Int} {n : Nat} (hrest : rest = n) :
    ((long (sec * 1000)).bind fun product => long (product + rest)) =
      if sec * 1000 + n < 2 ^ 63 then some ((sec * 1000 + n : Nat) : Int) else none := by
  have hproduct : long ((sec : Int) * 1000) = long (sec * 1000 : Nat) := by
    rw [Nat.cast_mul]
    rfl
  have hsum : ((sec * 1000 : Nat) : Int) + rest = (sec * 1000 + n : Nat) := by
    rw [hrest, Nat.cast_add]
  rw [hproduct, long_natCast]
  by_cases hfits : sec * 1000 < 2 ^ 63
  · rw [if_pos hfits, Option.bind_some, hsum, long_natCast]
  · have hlarge : ¬ sec * 1000 + n < 2 ^ 63 :=
      fun h => hfits ((Nat.le_add_right _ n).trans_lt h)
    rw [if_neg hfits, if_neg hlarge]
    rfl

/-- A valid `timespec`. -/
structure Timespec where
  tv_sec : Nat
  tv_nsec : Nat
  sec_lt : tv_sec < 2 ^ 63
  nsec_lt : tv_nsec < 1000000000

inductive SleepCall where
  | sleep (seconds : UInt32)
  | usleep (usec : UInt32)
  | nanosleep (req : Timespec)

namespace SleepCall

/-- What `addTimer` receives. -/
def delay : SleepCall → Option UInt64
  | .sleep seconds => some (seconds * 1000).toUInt64
  | .usleep usec => some (usec / 1000).toUInt64
  | .nanosleep req => do
    let sec ← long (req.tv_sec * 1000)
    let ms ← long (sec + req.tv_nsec / 1000 / 1000)
    return widen (narrow ms)

/-- The duration asked for, in nanoseconds. -/
def requested : SleepCall → Nat
  | .sleep seconds => seconds.toNat * 1000000000
  | .usleep usec => usec.toNat * 1000
  | .nanosleep req => req.tv_sec * 1000000000 + req.tv_nsec

def LongEnough (call : SleepCall) : Prop :=
  ∃ ms, call.delay = some ms ∧ call.requested ≤ ms.toNat * 1000000

/-- The milliseconds of a `timespec`, rounded down. -/
def wholeMs (req : Timespec) : Nat := req.tv_sec * 1000 + req.tv_nsec / 1000000

/-- Nothing is lost on the way: the milliseconds fit into their types, and no part of one is
left over. A value that is negative as an `int` becomes a very long delay. -/
def Keeps : SleepCall → Prop
  | .sleep seconds => seconds.toNat ≤ 4294967
  | .usleep usec => 1000 ∣ usec.toNat
  | .nanosleep req => wholeMs req < 2 ^ 63 ∧
      (wholeMs req < 2 ^ 31 ∧ 1000000 ∣ req.tv_nsec ∨ 2 ^ 31 ≤ wholeMs req % 2 ^ 32)

theorem longEnough_of_delay {call : SleepCall} {ms : UInt64} (h : call.delay = some ms) :
    call.LongEnough ↔ call.requested ≤ ms.toNat * 1000000 := by
  constructor
  · rintro ⟨ms', h', hle⟩
    obtain rfl := Option.some.inj (h.symm.trans h')
    exact hle
  · exact fun hle => ⟨ms, h, hle⟩

theorem sleep_iff (seconds : UInt32) : (sleep seconds).LongEnough ↔ (sleep seconds).Keeps := by
  have hdelay : (seconds * 1000).toUInt64.toNat = seconds.toNat * 1000 % 2 ^ 32 := by
    rw [UInt32.toNat_toUInt64, UInt32.toNat_mul]
    rfl
  rw [longEnough_of_delay rfl, hdelay, requested, Keeps]
  omega

theorem usleep_iff (usec : UInt32) : (usleep usec).LongEnough ↔ (usleep usec).Keeps := by
  have hdelay : (usec / 1000).toUInt64.toNat = usec.toNat / 1000 := by
    rw [UInt32.toNat_toUInt64, UInt32.toNat_div]
    rfl
  rw [longEnough_of_delay rfl, hdelay, requested, Keeps]
  omega

theorem delay_nanosleep (req : Timespec) : (nanosleep req).delay =
    if wholeMs req < 2 ^ 63 then some (widen (narrow (wholeMs req))) else none := by
  have hns : (req.tv_nsec : Int) / 1000 / 1000 = (req.tv_nsec / 1000000 : Nat) := by omega
  have hlong := long_add req.tv_sec hns
  unfold delay
  change ((long (req.tv_sec * 1000)).bind fun sec =>
    (long (sec + req.tv_nsec / 1000 / 1000)).bind fun ms => some (widen (narrow ms))) = _
  rw [← Option.bind_assoc, hlong]
  unfold wholeMs
  split_ifs <;> rfl

theorem toNat_widen_narrow (n : Nat) : (widen (narrow n)).toNat =
    if n % 2 ^ 32 < 2 ^ 31 then n % 2 ^ 32 else 2 ^ 64 - 2 ^ 32 + n % 2 ^ 32 := by
  unfold widen narrow
  rw [UInt64.toNat_ofNat']
  split_ifs <;> omega

theorem nanosleep_iff (req : Timespec) :
    (nanosleep req).LongEnough ↔ (nanosleep req).Keeps := by
  have hdelay := delay_nanosleep req
  have hrest : req.tv_sec * 1000000000 + req.tv_nsec =
      wholeMs req * 1000000 + req.tv_nsec % 1000000 := by
    unfold wholeMs
    omega
  by_cases hfits : wholeMs req < 2 ^ 63
  · rw [if_pos hfits] at hdelay
    rw [longEnough_of_delay hdelay, toNat_widen_narrow, requested, Keeps, hrest]
    generalize wholeMs req = ms at hfits
    split_ifs <;> omega
  · rw [if_neg hfits] at hdelay
    refine iff_of_false ?_ fun h => hfits h.1
    rintro ⟨ms, hms, -⟩
    rw [hdelay] at hms
    cases hms

/-- **A hooked sleep is long enough** exactly when its conversions keep the duration. -/
theorem longEnough_iff (call : SleepCall) : call.LongEnough ↔ call.Keeps := by
  cases call with
  | sleep seconds => exact sleep_iff seconds
  | usleep usec => exact usleep_iff usec
  | nanosleep req => exact nanosleep_iff req

/-- A sleep of 4294968 seconds, fifty days, ends after 704 milliseconds. -/
theorem sleep_too_short : ¬ ∀ call : SleepCall, call.LongEnough := by
  intro h
  have hkeeps : (4294968 : UInt32).toNat ≤ 4294967 := (longEnough_iff (.sleep 4294968)).mp (h _)
  exact absurd hkeeps (by decide)

end SleepCall
end Workplace.Coroutine
