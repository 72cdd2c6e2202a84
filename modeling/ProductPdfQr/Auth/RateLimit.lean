/-
# Login backoff

`LoginRateLimiter`: failures are counted per address and per account, and from the limit on each
failure blocks its two keys for a time that doubles up to a maximum.  The maximum is taken after
the doubling, and a power of two from 2^1024 on is no `float`: the multiplication raises.

A state that saw no failure for a window is dropped, whatever it still blocks.  So the times
answered are kept exactly when no block is longer than the window, and the doubling stays in
range exactly when some block is: no settings have both.

A call reads the clock when it checks, when it counts and when it answers.
-/
import Mathlib.Data.Rat.Defs
import Mathlib.Algebra.Order.Field.Rat
import Mathlib.Tactic.Linarith
import Mathlib.Data.Nat.Find
import Mathlib.Data.List.Induction
import Mathlib.Algebra.Order.Archimedean.Basic
import Mathlib.Tactic.Ring

namespace ProductPdfQr.Auth

/-! ## 1. The limiter -/

/-- The four fields of `Settings` that the limiter is made from, with what their `Field` bounds
and the validator of the model require. -/
structure BackoffSettings where
  loginFailureLimit : Nat
  loginFailureWindowSeconds : Nat
  loginBackoffBaseSeconds : ℚ
  loginBackoffMaxSeconds : ℚ
  limit_ge : 2 ≤ loginFailureLimit
  window_ge : 60 ≤ loginFailureWindowSeconds
  base_pos : 0 < loginBackoffBaseSeconds
  base_le : loginBackoffBaseSeconds ≤ 60
  max_pos : 0 < loginBackoffMaxSeconds
  max_le : loginBackoffMaxSeconds ≤ 600
  base_le_max : loginBackoffBaseSeconds ≤ loginBackoffMaxSeconds

/-- `_FailureState`. -/
structure FailureState where
  count : Nat
  blockedUntil : ℚ
  lastFailure : ℚ
  deriving DecidableEq

/-- Python's `OverflowError`. -/
inductive OverflowError
  | intTooLargeToConvertToFloat
  deriving DecidableEq

/-- `LoginAttemptReservation`. -/
structure LoginAttemptReservation where
  allowed : Bool
  retryAfter : ℚ
  deriving DecidableEq

/-- The keys of `_failures`. -/
inductive Dimension
  | ip (address : String)
  | account (name : String)
  deriving DecidableEq

/-- The readings of the clock in one `reserve_attempt`. -/
structure Readings where
  checked : ℚ
  counted : ℚ
  answered : ℚ

/-- The reading an answer is computed from: a refused attempt reads the clock once. -/
def Readings.last (times : Readings) (allowed : Bool) : ℚ :=
  if allowed then times.answered else times.checked

/-- `_failures`. -/
abbrev Failures := Dimension → Option FailureState

namespace BackoffSettings

variable (settings : BackoffSettings) (casefold : String → String)

/-- `_active_state`: the state, if it is not too old, and what is left of the table. -/
def activeState (key : Dimension) (now : ℚ) (failures : Failures) :
    Option FailureState × Failures :=
  match failures key with
  | none => (none, failures)
  | some state =>
    if settings.loginFailureWindowSeconds < now - state.lastFailure then
      (none, Function.update failures key none)
    else (some state, failures)

/-- `retry_after`. -/
def retryAfter (ipAddress username : String) (now : ℚ) (failures : Failures) : ℚ × Failures :=
  let ip := settings.activeState (.ip ipAddress) now failures
  let account := settings.activeState (.account (casefold username)) now ip.2
  let left := fun state : FailureState => state.blockedUntil - now
  (match ip.1, account.1 with
    | none, none => 0
    | some s, none => left s
    | none, some s => left s
    | some s, some s' => max (left s) (left s'), account.2)

/-- `base_backoff_seconds * (2**exponent)`: the power is an `int`, converted to a `float` first. -/
def doubled (exponent : Nat) : Except OverflowError ℚ :=
  if exponent < 1024 then .ok (settings.loginBackoffBaseSeconds * 2 ^ exponent)
  else .error .intTooLargeToConvertToFloat

/-- The delay after the given number of failures. -/
def delay (count : Nat) : Except OverflowError ℚ :=
  if settings.loginFailureLimit ≤ count then
    match settings.doubled (count - settings.loginFailureLimit) with
    | .error e => .error e
    | .ok seconds => .ok (min seconds settings.loginBackoffMaxSeconds)
  else .ok 0

/-- The loop body of `register_failure`. -/
def countFailure (now : ℚ) (failures : Failures) (key : Dimension) :
    Except OverflowError Unit × Failures :=
  let active := settings.activeState key now failures
  let count := match active.1 with
    | none => 1
    | some state => state.count + 1
  match settings.delay count with
  | .error e => (.error e, active.2)
  | .ok delay => (.ok (), Function.update active.2 key (some ⟨count, now + delay, now⟩))

/-- The loop of `register_failure`. -/
def countFailures (now : ℚ) : List Dimension → Failures → Except OverflowError Unit × Failures
  | [], failures => (.ok (), failures)
  | key :: keys, failures =>
    match settings.countFailure now failures key with
    | (.error e, failures) => (.error e, failures)
    | (.ok (), failures) => countFailures now keys failures

/-- `register_failure`. -/
def registerFailure (ipAddress username : String) (counted answered : ℚ) (failures : Failures) :
    Except OverflowError ℚ × Failures :=
  match settings.countFailures counted [.ip ipAddress, .account (casefold username)] failures with
  | (.error e, failures) => (.error e, failures)
  | (.ok (), failures) =>
    let left := settings.retryAfter casefold ipAddress username answered failures
    (.ok left.1, left.2)

/-- `reserve_attempt`. -/
def reserveAttempt (ipAddress username : String) (times : Readings) (failures : Failures) :
    Except OverflowError LoginAttemptReservation × Failures :=
  let checked := settings.retryAfter casefold ipAddress username times.checked failures
  if 0 < checked.1 then (.ok ⟨false, checked.1⟩, checked.2)
  else
    match settings.registerFailure casefold ipAddress username times.counted times.answered
      checked.2 with
    | (.error e, failures) => (.error e, failures)
    | (.ok left, failures) => (.ok ⟨true, left⟩, failures)

/-- `register_success`. -/
def registerSuccess (ipAddress username : String) (failures : Failures) : Failures :=
  Function.update (Function.update failures (.ip ipAddress) none)
    (.account (casefold username)) none

/-! ## 2. Runs -/

inductive Call
  | reserveAttempt (ipAddress username : String) (times : Readings)
  | registerSuccess (ipAddress username : String)

def Call.readings : Call → List ℚ
  | .reserveAttempt _ _ times => [times.checked, times.counted, times.answered]
  | .registerSuccess _ _ => []

/-- The clock does not go back from a reading to a later one. -/
def Nondecreasing (calls : List Call) : Prop :=
  (calls.flatMap Call.readings).Pairwise (· ≤ ·)

instance (calls : List Call) : Decidable (Nondecreasing calls) :=
  inferInstanceAs (Decidable (List.Pairwise (· ≤ ·) (calls.flatMap Call.readings)))

/-- A `register_success` that involves the key. -/
def Call.Clears (key : Dimension) : Call → Prop
  | .reserveAttempt _ _ _ => False
  | .registerSuccess ipAddress username => key = .ip ipAddress ∨ key = .account (casefold username)

/-- The table after one more call. -/
def apply (failures : Failures) : Call → Failures
  | .reserveAttempt ipAddress username times =>
    (settings.reserveAttempt casefold ipAddress username times failures).2
  | .registerSuccess ipAddress username => registerSuccess casefold ipAddress username failures

/-- The table of a limiter that was made and called. -/
def after (calls : List Call) : Failures := calls.foldl (settings.apply casefold) fun _ => none

/-- After an attempt that is answered with a time to wait, every attempt for the same address and
account before that time has passed is refused. -/
def LockoutHolds : Prop :=
  ∀ (before between : List Call) (ipAddress username username' : String)
    (times times' : Readings),
    Nondecreasing (before ++ .reserveAttempt ipAddress username times ::
      (between ++ [.reserveAttempt ipAddress username' times'])) →
    casefold username' = casefold username →
    (∀ call ∈ between, ¬ call.Clears casefold (.ip ipAddress) ∧
      ¬ call.Clears casefold (.account (casefold username))) →
    ∀ answer, (settings.reserveAttempt casefold ipAddress username times
        (settings.after casefold before)).1 = .ok answer →
      0 < answer.retryAfter →
      times'.checked < times.last answer.allowed + answer.retryAfter →
      ∃ left, (settings.reserveAttempt casefold ipAddress username' times' (settings.after casefold
        (before ++ .reserveAttempt ipAddress username times :: between))).1 = .ok ⟨false, left⟩

/-- No exponent of a run reaches 1024, and no attempt raises. -/
def NeverOverflows : Prop :=
  ∀ (before : List Call) (ipAddress username : String) (times : Readings),
    Nondecreasing (before ++ [.reserveAttempt ipAddress username times]) →
    (∀ key state, settings.after casefold
        (before ++ [.reserveAttempt ipAddress username times]) key = some state →
      state.count - settings.loginFailureLimit < 1024) ∧
    ∃ answer, (settings.reserveAttempt casefold ipAddress username times
      (settings.after casefold before)).1 = .ok answer

/-! ## 3. One key -/

variable {settings} {casefold}

theorem activeState_fst_eq_some {key : Dimension} {now : ℚ} {failures : Failures}
    {state : FailureState} (h : (settings.activeState key now failures).1 = some state) :
    failures key = some state ∧ (settings.activeState key now failures).2 = failures := by
  unfold activeState at h ⊢
  split at h
  · cases h
  · rename_i state' hstate
    split at h
    · cases h
    · rename_i hfresh
      obtain rfl := Option.some.inj h
      rw [if_neg hfresh]
      exact ⟨hstate, rfl⟩

/-- What is left for a key is what was found for it, and is within the window. -/
theorem activeState_self (key : Dimension) (now : ℚ) (failures : Failures) :
    (settings.activeState key now failures).2 key = (settings.activeState key now failures).1 ∧
      ∀ state, (settings.activeState key now failures).1 = some state →
        now ≤ state.lastFailure + settings.loginFailureWindowSeconds := by
  unfold activeState
  split
  · rename_i hnone
    exact ⟨hnone, fun _ h => by cases h⟩
  · rename_i state hstate
    split
    · exact ⟨Function.update_self _ _ _, fun _ h => by cases h⟩
    · rename_i hfresh
      refine ⟨hstate, fun found h => ?_⟩
      obtain rfl := Option.some.inj h
      linarith [not_lt.mp hfresh]

/-- Looking at a key only ever drops the state of that key. -/
theorem activeState_of_ne {key key' : Dimension} (hne : key' ≠ key) (now : ℚ)
    (failures : Failures) : (settings.activeState key now failures).2 key' = failures key' := by
  unfold activeState
  split
  · rfl
  · split
    · exact Function.update_of_ne hne _ _
    · rfl

/-- A state within the window is found and stays. -/
theorem activeState_of_fresh {key : Dimension} {now : ℚ} {failures : Failures}
    {state : FailureState} (h : failures key = some state)
    (hfresh : now ≤ state.lastFailure + settings.loginFailureWindowSeconds) :
    settings.activeState key now failures = (some state, failures) := by
  unfold activeState
  rw [h]
  exact if_neg (by linarith)

/-- An old state is dropped. -/
theorem activeState_of_old {key : Dimension} {now : ℚ} {failures : Failures}
    {state : FailureState} (h : failures key = some state)
    (hold : state.lastFailure + settings.loginFailureWindowSeconds < now) :
    settings.activeState key now failures = (none, Function.update failures key none) := by
  unfold activeState
  rw [h]
  exact if_pos (by linarith)

theorem activeState_of_none {key : Dimension} {now : ℚ} {failures : Failures}
    (h : failures key = none) : settings.activeState key now failures = (none, failures) := by
  unfold activeState
  rw [h]

theorem retryAfter_of_ne {ipAddress username : String} {key : Dimension}
    (hip : key ≠ .ip ipAddress) (haccount : key ≠ .account (casefold username)) (now : ℚ)
    (failures : Failures) :
    (settings.retryAfter casefold ipAddress username now failures).2 key = failures key := by
  simp only [retryAfter]
  rw [activeState_of_ne haccount, activeState_of_ne hip]

theorem countFailure_of_ne {key key' : Dimension} (hne : key' ≠ key) (now : ℚ)
    (failures : Failures) : (settings.countFailure now failures key).2 key' = failures key' := by
  unfold countFailure
  dsimp only
  split
  · exact activeState_of_ne hne now failures
  · dsimp only
    rw [Function.update_of_ne hne, activeState_of_ne hne]

/-! ### What an attempt leaves

An attempt checks, counts one key or both, and looks once more if neither raised: what each of
these keeps, the attempt keeps. -/

/-- What every look and every count keeps is kept by the loop, raised out of or not. -/
theorem countFailures_induction {P : Failures → Prop} {now : ℚ}
    {keys : List Dimension}
    (hcount : ∀ key ∈ keys, ∀ failures, P failures → P (settings.countFailure now failures key).2)
    {failures : Failures} (h : P failures) : P (settings.countFailures now keys failures).2 := by
  induction keys generalizing failures with
  | nil => exact h
  | cons key keys ih =>
    have hfirst := hcount key (List.mem_cons_self ..) failures h
    unfold countFailures
    split
    · rename_i hraised
      rwa [hraised] at hfirst
    · rename_i hcounted
      rw [hcounted] at hfirst
      exact ih (fun key hkey => hcount key (List.mem_cons_of_mem _ hkey)) hfirst

theorem reserveAttempt_induction {P : Failures → Prop} {ipAddress username : String}
    {times : Readings} {failures : Failures} (h : P failures)
    (hlook : ∀ now failures, P failures →
      P (settings.retryAfter casefold ipAddress username now failures).2)
    (hcount : ∀ key ∈ [Dimension.ip ipAddress, .account (casefold username)], ∀ failures,
      P failures → P (settings.countFailure times.counted failures key).2) :
    P (settings.reserveAttempt casefold ipAddress username times failures).2 := by
  have hchecked := hlook times.checked failures h
  have hcounted := countFailures_induction hcount hchecked
  unfold reserveAttempt registerFailure
  dsimp only
  split
  · exact hchecked
  · generalize settings.countFailures times.counted [.ip ipAddress, .account (casefold username)]
      (settings.retryAfter casefold ipAddress username times.checked failures).2 = counted
      at hcounted
    rcases counted with ⟨_ | _, left⟩
    · exact hcounted
    · exact hlook times.answered left hcounted

theorem reserveAttempt_of_ne {ipAddress username : String} {key : Dimension}
    (hip : key ≠ .ip ipAddress) (haccount : key ≠ .account (casefold username))
    (times : Readings) (failures : Failures) :
    (settings.reserveAttempt casefold ipAddress username times failures).2 key = failures key := by
  refine reserveAttempt_induction (P := fun left => left key = failures key) rfl ?_ ?_
  · intro now left hleft
    rw [retryAfter_of_ne hip haccount, hleft]
  · intro key' hkey' left hleft
    have hne : key ≠ key' := by
      rcases List.mem_pair.mp hkey' with rfl | rfl
      · exact hip
      · exact haccount
    rw [countFailure_of_ne hne, hleft]

/-- A key that is blocked, and not too old, is what an attempt for it is refused for. -/
theorem retryAfter_of_blocked {ipAddress username : String} {key : Dimension}
    {failures : Failures} {state : FailureState} {now : ℚ}
    (hkey : key = .ip ipAddress ∨ key = .account (casefold username))
    (hstate : failures key = some state) (hblocked : now < state.blockedUntil)
    (hfresh : now ≤ state.lastFailure + settings.loginFailureWindowSeconds) :
    0 < (settings.retryAfter casefold ipAddress username now failures).1 ∧
      (settings.retryAfter casefold ipAddress username now failures).2 key = some state := by
  simp only [retryAfter]
  rcases hkey with rfl | rfl
  · rw [activeState_of_fresh hstate hfresh]
    refine ⟨?_, (activeState_of_ne (by simp) _ _).trans hstate⟩
    split
    · simp_all
    · rename_i h _
      obtain rfl := Option.some.inj h
      linarith
    · simp_all
    · rename_i h _
      obtain rfl := Option.some.inj h
      exact lt_max_of_lt_left (by linarith)
  · have hstate' : (settings.activeState (.ip ipAddress) now failures).2
        (.account (casefold username)) = some state :=
      (activeState_of_ne (by simp) _ _).trans hstate
    rw [activeState_of_fresh hstate' hfresh]
    refine ⟨?_, hstate'⟩
    split
    · simp_all
    · simp_all
    · rename_i h
      obtain rfl := Option.some.inj h
      linarith
    · rename_i h
      obtain rfl := Option.some.inj h
      exact lt_max_of_lt_right (by linarith)

/-! ## 4. What is answered is kept -/

/-- A state whose block ends within the window stays in the table, as it is, while it blocks. -/
theorem apply_of_blocked {key : Dimension} {failures : Failures} {state : FailureState}
    (hstate : failures key = some state)
    (hwithin : state.blockedUntil ≤ state.lastFailure + settings.loginFailureWindowSeconds)
    {call : Call} (hclears : ¬ call.Clears casefold key)
    (hbefore : ∀ now ∈ call.readings, now < state.blockedUntil) :
    settings.apply casefold failures call key = some state := by
  cases call with
  | registerSuccess ipAddress username =>
    simp only [Call.Clears, not_or] at hclears
    simp only [apply, registerSuccess]
    rw [Function.update_of_ne hclears.2, Function.update_of_ne hclears.1, hstate]
  | reserveAttempt ipAddress username times =>
    simp only [apply]
    by_cases hkey : key = .ip ipAddress ∨ key = .account (casefold username)
    · have hchecked : times.checked < state.blockedUntil := hbefore _ (by simp [Call.readings])
      obtain ⟨hpos, hkept⟩ := retryAfter_of_blocked hkey hstate hchecked
        (le_of_lt (lt_of_lt_of_le hchecked hwithin))
      rw [reserveAttempt, if_pos hpos]
      exact hkept
    · rw [not_or] at hkey
      rw [reserveAttempt_of_ne hkey.1 hkey.2, hstate]

theorem foldl_apply_of_blocked {key : Dimension} {state : FailureState}
    (hwithin : state.blockedUntil ≤ state.lastFailure + settings.loginFailureWindowSeconds)
    {calls : List Call} (hclears : ∀ call ∈ calls, ¬ call.Clears casefold key)
    (hbefore : ∀ now ∈ calls.flatMap Call.readings, now < state.blockedUntil)
    {failures : Failures} (hstate : failures key = some state) :
    calls.foldl (settings.apply casefold) failures key = some state := by
  induction calls generalizing failures with
  | nil => exact hstate
  | cons call calls ih =>
    rw [List.flatMap_cons] at hbefore
    rw [List.foldl_cons]
    refine ih (fun c hc => hclears c (List.mem_cons_of_mem _ hc))
      (fun now hnow => hbefore now (List.mem_append_right _ hnow)) ?_
    exact apply_of_blocked hstate hwithin (hclears call List.mem_cons_self)
      fun now hnow => hbefore now (List.mem_append_left _ hnow)

/-! ### Blocks -/

section Blocks

variable (settings)

/-- The delay after the given number of failures, were every power of two a `float`. -/
def block (count : Nat) : ℚ :=
  if settings.loginFailureLimit ≤ count then
    min (settings.loginBackoffBaseSeconds * 2 ^ (count - settings.loginFailureLimit))
      settings.loginBackoffMaxSeconds
  else 0

/-- The longest delay that is ever computed: with the last power of two that is a `float`. -/
def longestBlock : ℚ :=
  min (settings.loginBackoffBaseSeconds * 2 ^ 1023) settings.loginBackoffMaxSeconds

/-- Every state of the table is one that `register_failure` computed a delay for. -/
def Counted (failures : Failures) : Prop :=
  ∀ key state, failures key = some state →
    state.count < settings.loginFailureLimit + 1024 ∧
      state.blockedUntil = state.lastFailure + settings.block state.count

end Blocks

theorem delay_of_lt {count : Nat} (h : count < settings.loginFailureLimit + 1024) :
    settings.delay count = .ok (settings.block count) := by
  unfold delay block
  split
  · have hsmall : count - settings.loginFailureLimit < 1024 := by omega
    rw [doubled, if_pos hsmall]
  · rfl

theorem delay_of_le {count : Nat} (h : settings.loginFailureLimit + 1024 ≤ count) :
    settings.delay count = .error .intTooLargeToConvertToFloat := by
  have hlimit : settings.loginFailureLimit ≤ count := by omega
  have hlarge : ¬ count - settings.loginFailureLimit < 1024 := by omega
  rw [delay, if_pos hlimit, doubled, if_neg hlarge]

theorem block_nonneg (count : Nat) : 0 ≤ settings.block count := by
  unfold block
  split
  · exact le_min (mul_nonneg (le_of_lt settings.base_pos) (by positivity))
      (le_of_lt settings.max_pos)
  · exact le_refl _

theorem longestBlock_nonneg : 0 ≤ settings.longestBlock :=
  le_min (mul_nonneg (le_of_lt settings.base_pos) (by positivity)) (le_of_lt settings.max_pos)

theorem block_le {count : Nat} (h : count < settings.loginFailureLimit + 1024) :
    settings.block count ≤ settings.longestBlock := by
  unfold block
  split
  · have hexponent : count - settings.loginFailureLimit ≤ 1023 := by omega
    have hpower : (2 : ℚ) ^ (count - settings.loginFailureLimit) ≤ 2 ^ 1023 :=
      pow_le_pow_right₀ one_le_two hexponent
    exact min_le_min (mul_le_mul_of_nonneg_left hpower (le_of_lt settings.base_pos)) (le_refl _)
  · exact longestBlock_nonneg

theorem block_last :
    settings.block (settings.loginFailureLimit + 1023) = settings.longestBlock := by
  rw [block, if_pos (Nat.le_add_right _ _), Nat.add_sub_cancel_left, longestBlock]

theorem Counted.erase {failures : Failures} (h : settings.Counted failures) (key : Dimension) :
    settings.Counted (Function.update failures key none) := by
  intro key' state hstate
  by_cases hkey : key' = key
  · rw [hkey, Function.update_self] at hstate
    cases hstate
  · rw [Function.update_of_ne hkey] at hstate
    exact h key' state hstate

theorem Counted.activeState {failures : Failures} (h : settings.Counted failures)
    (key : Dimension) (now : ℚ) : settings.Counted (settings.activeState key now failures).2 := by
  unfold BackoffSettings.activeState
  split
  · exact h
  · split
    · exact h.erase key
    · exact h

theorem Counted.retryAfter {failures : Failures} (h : settings.Counted failures)
    (ipAddress username : String) (now : ℚ) :
    settings.Counted (settings.retryAfter casefold ipAddress username now failures).2 :=
  (h.activeState _ now).activeState _ now

/-- The number of the next failure of a key. -/
def nextCount : Option FailureState → Nat
  | none => 1
  | some state => state.count + 1

theorem countFailure_of_lt {now : ℚ} {failures : Failures} {key : Dimension}
    (h : nextCount (settings.activeState key now failures).1 <
      settings.loginFailureLimit + 1024) :
    settings.countFailure now failures key =
      (.ok (), Function.update (settings.activeState key now failures).2 key
        (some ⟨nextCount (settings.activeState key now failures).1,
          now + settings.block (nextCount (settings.activeState key now failures).1), now⟩)) := by
  unfold countFailure
  generalize settings.activeState key now failures = active at h
  rcases active with ⟨_ | state, left⟩
  all_goals
    dsimp only [nextCount] at h ⊢
    rw [delay_of_lt h]

theorem countFailure_of_le {now : ℚ} {failures : Failures} {key : Dimension}
    (h : settings.loginFailureLimit + 1024 ≤
      nextCount (settings.activeState key now failures).1) :
    settings.countFailure now failures key =
      (.error .intTooLargeToConvertToFloat, (settings.activeState key now failures).2) := by
  unfold countFailure
  generalize settings.activeState key now failures = active at h
  rcases active with ⟨_ | state, left⟩
  all_goals
    dsimp only [nextCount] at h ⊢
    rw [delay_of_le h]

theorem Counted.countFailure {failures : Failures} (h : settings.Counted failures)
    (now : ℚ) (key : Dimension) :
    settings.Counted (settings.countFailure now failures key).2 := by
  have hactive := h.activeState key now
  rcases Nat.lt_or_ge (nextCount (settings.activeState key now failures).1)
    (settings.loginFailureLimit + 1024) with hcount | hcount
  · rw [countFailure_of_lt hcount]
    intro key' state hstate
    dsimp only at hstate
    by_cases hkey : key' = key
    · rw [hkey, Function.update_self] at hstate
      obtain rfl := Option.some.inj hstate
      exact ⟨hcount, rfl⟩
    · rw [Function.update_of_ne hkey] at hstate
      exact hactive key' state hstate
  · rw [countFailure_of_le hcount]
    exact hactive

theorem Counted.reserveAttempt {failures : Failures} (h : settings.Counted failures)
    (ipAddress username : String) (times : Readings) : settings.Counted
      (settings.reserveAttempt casefold ipAddress username times failures).2 :=
  reserveAttempt_induction h (fun _ _ hleft => hleft.retryAfter _ _ _)
    fun _ _ _ hleft => hleft.countFailure _ _

theorem Counted.apply {failures : Failures} (h : settings.Counted failures) (call : Call) :
    settings.Counted (settings.apply casefold failures call) := by
  cases call with
  | reserveAttempt ipAddress username times => exact h.reserveAttempt _ _ _
  | registerSuccess ipAddress username => exact (h.erase _).erase _

theorem counted_after (calls : List Call) : settings.Counted (settings.after casefold calls) := by
  induction calls using List.reverseRecOn with
  | nil => exact fun _ _ h => by cases h
  | append_singleton calls call ih =>
    rw [after, List.foldl_append]
    exact ih.apply call

/-- A time to wait is that of the block of one of the two keys. -/
theorem exists_blocking {ipAddress username : String} {now : ℚ} {failures : Failures}
    (h : 0 < (settings.retryAfter casefold ipAddress username now failures).1) :
    ∃ key state, (key = .ip ipAddress ∨ key = .account (casefold username)) ∧
      (settings.retryAfter casefold ipAddress username now failures).2 key = some state ∧
      state.blockedUntil =
        now + (settings.retryAfter casefold ipAddress username now failures).1 := by
  simp only [retryAfter] at h ⊢
  generalize hip : settings.activeState (.ip ipAddress) now failures = ip at h ⊢
  generalize haccount : settings.activeState (.account (casefold username)) now ip.2 = account
    at h ⊢
  -- the state of a key is still there when the other key has been looked at
  have hip' : ∀ state, ip.1 = some state → account.2 (.ip ipAddress) = some state := by
    intro state hstate
    rw [← haccount, activeState_of_ne (by simp)]
    rw [← hip] at hstate ⊢
    obtain ⟨hfound, hsame⟩ := activeState_fst_eq_some hstate
    rw [hsame, hfound]
  have haccount' : ∀ state, account.1 = some state →
      account.2 (.account (casefold username)) = some state := by
    intro state hstate
    rw [← haccount] at hstate ⊢
    obtain ⟨hfound, hsame⟩ := activeState_fst_eq_some hstate
    rw [hsame, hfound]
  split at h
  · exact absurd h (lt_irrefl _)
  · rename_i s hs _
    exact ⟨_, s, .inl rfl, hip' s hs, by ring⟩
  · rename_i s _ hs
    exact ⟨_, s, .inr rfl, haccount' s hs, by ring⟩
  · rename_i s s' hs hs'
    rcases max_choice (s.blockedUntil - now) (s'.blockedUntil - now) with hmax | hmax
    · exact ⟨_, s, .inl rfl, hip' s hs, by rw [hmax]; ring⟩
    · exact ⟨_, s', .inr rfl, haccount' s' hs', by rw [hmax]; ring⟩

theorem reserveAttempt_blocks {ipAddress username : String} {times : Readings}
    {failures : Failures} {answer : LoginAttemptReservation}
    (hanswer : (settings.reserveAttempt casefold ipAddress username times failures).1 = .ok answer)
    (h : 0 < answer.retryAfter) :
    ∃ key state, (key = .ip ipAddress ∨ key = .account (casefold username)) ∧
      (settings.reserveAttempt casefold ipAddress username times failures).2 key = some state ∧
      state.blockedUntil = times.last answer.allowed + answer.retryAfter := by
  simp only [reserveAttempt, registerFailure] at hanswer ⊢
  split at hanswer
  · next hrefused =>
    obtain rfl := Except.ok.inj hanswer
    rw [if_pos hrefused]
    exact exists_blocking hrefused
  · next hadmitted =>
    rw [if_neg hadmitted]
    generalize settings.countFailures times.counted [.ip ipAddress, .account (casefold username)]
      (settings.retryAfter casefold ipAddress username times.checked failures).2 = counted
      at hanswer ⊢
    rcases counted with ⟨_ | _, left⟩
    · cases hanswer
    · obtain rfl := Except.ok.inj hanswer
      exact exists_blocking h

theorem reserveAttempt_of_blocked {ipAddress username : String} {key : Dimension}
    {failures : Failures} {state : FailureState} {times : Readings}
    (hkey : key = .ip ipAddress ∨ key = .account (casefold username))
    (hstate : failures key = some state) (hblocked : times.checked < state.blockedUntil)
    (hwithin : state.blockedUntil ≤ state.lastFailure + settings.loginFailureWindowSeconds) :
    ∃ left, (settings.reserveAttempt casefold ipAddress username times failures).1 =
      .ok ⟨false, left⟩ := by
  have hpos := (retryAfter_of_blocked hkey hstate hblocked
    (le_of_lt (lt_of_lt_of_le hblocked hwithin))).1
  rw [reserveAttempt, if_pos hpos]
  exact ⟨_, rfl⟩

theorem reserveAttempt_refused {ipAddress username : String} {times : Readings}
    {failures : Failures} {left : ℚ}
    (h : (settings.reserveAttempt casefold ipAddress username times failures).1 =
      .ok ⟨false, left⟩) :
    0 < (settings.retryAfter casefold ipAddress username times.checked failures).1 := by
  by_contra hadmitted
  simp only [reserveAttempt] at h
  rw [if_neg hadmitted] at h
  split at h
  · cases h
  · cases h

theorem lockoutHolds_of_le
    (h : settings.longestBlock ≤ settings.loginFailureWindowSeconds) :
    settings.LockoutHolds casefold := by
  intro before between ipAddress username username' times times' htimes huser hclears answer
    hanswer hpos hbefore
  obtain ⟨key, state, hkey, hstate, huntil⟩ := reserveAttempt_blocks hanswer hpos
  obtain ⟨hcount, hblock⟩ := (counted_after before).reserveAttempt _ _ _ key state hstate
  have hwithin : state.blockedUntil ≤
      state.lastFailure + settings.loginFailureWindowSeconds := by
    rw [hblock]
    exact add_le_add (le_refl _) (le_trans (block_le hcount) h)
  rw [← huntil] at hbefore
  have hclears' : ∀ call ∈ between, ¬ call.Clears casefold key := by
    intro call hcall
    rcases hkey with rfl | rfl
    · exact (hclears call hcall).1
    · exact (hclears call hcall).2
  have hearlier : ∀ now ∈ between.flatMap Call.readings, now < state.blockedUntil := by
    intro now hnow
    rw [Nondecreasing, List.flatMap_append, List.flatMap_cons, List.flatMap_append] at htimes
    have hrest := (List.pairwise_append.mp (List.pairwise_append.mp htimes).2.1).2.1
    refine lt_of_le_of_lt ((List.pairwise_append.mp hrest).2.2 now hnow times'.checked ?_) hbefore
    simp [Call.readings]
  rw [after, List.foldl_append, List.foldl_cons]
  refine reserveAttempt_of_blocked (by rwa [huser]) ?_ hbefore hwithin
  exact foldl_apply_of_blocked hwithin hclears' hearlier hstate

/-! ## 5. What is forgotten -/

theorem retryAfter_of_old {ipAddress username : String} {failures : Failures}
    {state state' : FailureState} {now : ℚ} (hip : failures (.ip ipAddress) = some state)
    (haccount : failures (.account (casefold username)) = some state')
    (hold : state.lastFailure + settings.loginFailureWindowSeconds < now)
    (hold' : state'.lastFailure + settings.loginFailureWindowSeconds < now) :
    (settings.retryAfter casefold ipAddress username now failures).1 = 0 := by
  simp only [retryAfter]
  rw [activeState_of_old hip hold]
  have haccount' : Function.update failures (.ip ipAddress) none (.account (casefold username)) =
      some state' := by
    rw [Function.update_of_ne (by simp), haccount]
  rw [activeState_of_old haccount' hold']

/-- An attempt whose two keys are in one state that neither blocks nor is too old. -/
theorem retryAfter_of_free {ipAddress username : String} {failures : Failures}
    {found : Option FailureState} {now : ℚ} (hip : failures (.ip ipAddress) = found)
    (haccount : failures (.account (casefold username)) = found)
    (hfree : ∀ state, found = some state → state.blockedUntil ≤ now ∧
      now ≤ state.lastFailure + settings.loginFailureWindowSeconds) :
    ¬ 0 < (settings.retryAfter casefold ipAddress username now failures).1 ∧
      (settings.retryAfter casefold ipAddress username now failures).2 = failures := by
  simp only [retryAfter]
  cases found with
  | none =>
    rw [activeState_of_none hip]
    dsimp only
    rw [activeState_of_none haccount]
    exact ⟨lt_irrefl _, rfl⟩
  | some state =>
    obtain ⟨hblock, hfresh⟩ := hfree state rfl
    rw [activeState_of_fresh hip hfresh]
    dsimp only
    rw [activeState_of_fresh haccount hfresh]
    dsimp only
    rw [max_self]
    exact ⟨by linarith, rfl⟩

/-- The same attempt when its count is in range: both keys are counted and block alike. -/
theorem reserveAttempt_admitted {ipAddress username : String} {failures : Failures}
    {found : Option FailureState} {now : ℚ} (hip : failures (.ip ipAddress) = found)
    (haccount : failures (.account (casefold username)) = found)
    (hfree : ∀ state, found = some state → state.blockedUntil ≤ now ∧
      now ≤ state.lastFailure + settings.loginFailureWindowSeconds)
    (hcount : nextCount found < settings.loginFailureLimit + 1024) :
    let count := nextCount found
    let state : FailureState := ⟨count, now + settings.block count, now⟩
    let after := settings.reserveAttempt casefold ipAddress username ⟨now, now, now⟩ failures
    after.1 = .ok ⟨true, settings.block count⟩ ∧ after.2 (.ip ipAddress) = some state ∧
      after.2 (.account (casefold username)) = some state := by
  intro count state after
  have hlook : ∀ {key failures}, failures key = found →
      settings.activeState key now failures = (found, failures) := by
    intro key failures hkey
    cases found with
    | none => exact activeState_of_none hkey
    | some s => exact activeState_of_fresh hkey (hfree s rfl).2
  -- each key is counted on its own
  have hcounted : ∀ {failures : Failures} {key : Dimension}, failures key = found →
      settings.countFailure now failures key =
        (.ok (), Function.update failures key (some state)) := by
    intro failures key hkey
    have h := hlook hkey
    rw [countFailure_of_lt (by rw [h]; exact hcount), h]
  have haccount' : Function.update failures (.ip ipAddress) (some state)
      (.account (casefold username)) = found := by
    rw [Function.update_of_ne (by simp), haccount]
  set left := Function.update (Function.update failures (.ip ipAddress) (some state))
    (.account (casefold username)) (some state) with hleft
  have hipLeft : left (.ip ipAddress) = some state := by
    rw [hleft, Function.update_of_ne (by simp), Function.update_self]
  have haccountLeft : left (.account (casefold username)) = some state := by
    rw [hleft, Function.update_self]
  have hfresh : now ≤ state.lastFailure + settings.loginFailureWindowSeconds := by
    have : (0 : ℚ) ≤ settings.loginFailureWindowSeconds := Nat.cast_nonneg _
    change now ≤ now + _
    linarith
  have hanswer : settings.retryAfter casefold ipAddress username now left =
      (settings.block count, left) := by
    simp only [retryAfter]
    rw [activeState_of_fresh hipLeft hfresh]
    dsimp only
    rw [activeState_of_fresh haccountLeft hfresh]
    dsimp only
    rw [max_self]
    exact Prod.ext (by change now + _ - now = _; ring) rfl
  have hchecked := retryAfter_of_free hip haccount hfree
  have hafter : after = (.ok ⟨true, settings.block count⟩, left) := by
    simp only [after, reserveAttempt]
    rw [if_neg hchecked.1, hchecked.2, registerFailure]
    simp only [countFailures]
    rw [hcounted hip]
    dsimp only
    rw [hcounted haccount']
    dsimp only
    rw [← hleft, hanswer]
  rw [hafter]
  exact ⟨rfl, hipLeft, haccountLeft⟩

/-- The same attempt when its count is not. -/
theorem reserveAttempt_overflows {ipAddress username : String} {failures : Failures}
    {state : FailureState} {now : ℚ} (hip : failures (.ip ipAddress) = some state)
    (haccount : failures (.account (casefold username)) = some state)
    (hblock : state.blockedUntil ≤ now)
    (hfresh : now ≤ state.lastFailure + settings.loginFailureWindowSeconds)
    (hcount : settings.loginFailureLimit + 1024 ≤ state.count + 1) :
    (settings.reserveAttempt casefold ipAddress username ⟨now, now, now⟩ failures).1 =
      .error .intTooLargeToConvertToFloat := by
  have hfree : ∀ found, some state = some found → found.blockedUntil ≤ now ∧
      now ≤ found.lastFailure + settings.loginFailureWindowSeconds := by
    intro found hfound
    obtain rfl := Option.some.inj hfound
    exact ⟨hblock, hfresh⟩
  have hchecked := retryAfter_of_free hip haccount hfree
  have hlook := activeState_of_fresh hip hfresh
  have hraised : settings.countFailure now failures (.ip ipAddress) =
      (.error .intTooLargeToConvertToFloat, failures) := by
    rw [countFailure_of_le (by rw [hlook]; exact hcount), hlook]
  rw [reserveAttempt, if_neg hchecked.1, hchecked.2, registerFailure]
  simp only [countFailures]
  rw [hraised]

/-! ### Attempts, each at the first moment it is admitted -/

section Attempts

variable (settings)

/-- The moment of the given attempt: when the block of the one before it ends. -/
def momentOf : Nat → ℚ
  | 0 => 0
  | n + 1 => momentOf n + settings.block n

def attemptAt (now : ℚ) : Call := .reserveAttempt "" "" ⟨now, now, now⟩

def attempts : Nat → List Call
  | 0 => []
  | n + 1 => attempts n ++ [attemptAt (settings.momentOf (n + 1))]

/-- What both keys hold after the given number of attempts. -/
def heldAfter : Nat → Option FailureState
  | 0 => none
  | n + 1 =>
    some ⟨n + 1, settings.momentOf (n + 1) + settings.block (n + 1), settings.momentOf (n + 1)⟩

end Attempts

theorem nextCount_heldAfter (n : Nat) : nextCount (settings.heldAfter n) = n + 1 := by
  cases n <;> rfl

/-- The state after the given number of attempts does not block the next one. -/
theorem free_heldAfter {n : Nat} (hblock : settings.block n ≤ settings.loginFailureWindowSeconds) :
    ∀ state, settings.heldAfter n = some state →
      state.blockedUntil ≤ settings.momentOf (n + 1) ∧ settings.momentOf (n + 1) ≤
        state.lastFailure + settings.loginFailureWindowSeconds := by
  intro state hstate
  cases n with
  | zero => cases hstate
  | succ n =>
    obtain rfl := Option.some.inj hstate
    exact ⟨le_refl _, add_le_add (le_refl _) hblock⟩

theorem attempt_admitted {n : Nat} (hblock : settings.block n ≤ settings.loginFailureWindowSeconds)
    (hcount : n + 1 < settings.loginFailureLimit + 1024)
    {failures : Failures} (hip : failures (.ip "") = settings.heldAfter n)
    (haccount : failures (.account (casefold "")) = settings.heldAfter n) :
    let now := settings.momentOf (n + 1)
    let after := settings.reserveAttempt casefold "" "" ⟨now, now, now⟩ failures
    after.1 = .ok ⟨true, settings.block (n + 1)⟩ ∧
      after.2 (.ip "") = settings.heldAfter (n + 1) ∧
      after.2 (.account (casefold "")) = settings.heldAfter (n + 1) := by
  have h := reserveAttempt_admitted hip haccount (free_heldAfter hblock)
    (by rw [nextCount_heldAfter]; exact hcount)
  rw [nextCount_heldAfter] at h
  exact h

theorem after_attempts {n : Nat} (hcount : n < settings.loginFailureLimit + 1024)
    (hblocks : ∀ i < n, settings.block i ≤ settings.loginFailureWindowSeconds) :
    settings.after casefold (settings.attempts n) (.ip "") = settings.heldAfter n ∧
      settings.after casefold (settings.attempts n) (.account (casefold "")) =
        settings.heldAfter n := by
  induction n with
  | zero => exact ⟨rfl, rfl⟩
  | succ n ih =>
    obtain ⟨hip, haccount⟩ :=
      ih (Nat.lt_of_succ_lt hcount) fun i hi => hblocks i (Nat.lt_succ_of_lt hi)
    rw [attempts, after, List.foldl_append]
    exact (attempt_admitted (hblocks n (Nat.lt_succ_self n)) hcount hip haccount).2

theorem readings_attempts_le (n : Nat) :
    ∀ now ∈ (settings.attempts n).flatMap Call.readings, now ≤ settings.momentOf n := by
  induction n with
  | zero =>
    intro now hnow
    cases hnow
  | succ n ih =>
    intro now hnow
    rw [attempts, List.flatMap_append, List.mem_append] at hnow
    rcases hnow with hnow | hnow
    · exact le_trans (ih now hnow) (le_add_of_nonneg_right (block_nonneg n))
    · have : now = settings.momentOf (n + 1) := by
        simpa [attemptAt, Call.readings] using hnow
      exact le_of_eq this

/-- One more attempt, not before the last one. -/
theorem nondecreasing_snoc {calls : List Call} (h : Nondecreasing calls) {now : ℚ}
    (hnow : ∀ t ∈ calls.flatMap Call.readings, t ≤ now) :
    Nondecreasing (calls ++ [attemptAt now]) := by
  rw [Nondecreasing, List.flatMap_append]
  refine List.pairwise_append.mpr ⟨h, by simp [attemptAt, Call.readings], ?_⟩
  intro t ht t' ht'
  have : t' = now := by simpa [attemptAt, Call.readings] using ht'
  rw [this]
  exact hnow t ht

theorem nondecreasing_attempts (n : Nat) : Nondecreasing (settings.attempts n) := by
  induction n with
  | zero => exact List.Pairwise.nil
  | succ n ih =>
    refine nondecreasing_snoc ih fun t ht => le_trans (readings_attempts_le n t ht) ?_
    exact le_add_of_nonneg_right (block_nonneg n)

theorem not_lockoutHolds_of_lt
    (h : (settings.loginFailureWindowSeconds : ℚ) < settings.longestBlock) :
    ¬ settings.LockoutHolds casefold := by
  classical
  rw [← block_last] at h
  -- the first block that is longer than the window
  obtain ⟨n, hsmall, hlong, hfirst⟩ : ∃ n, n ≤ settings.loginFailureLimit + 1023 ∧
      (settings.loginFailureWindowSeconds : ℚ) < settings.block n ∧
      ∀ i < n, settings.block i ≤ settings.loginFailureWindowSeconds :=
    have hex : ∃ n, (settings.loginFailureWindowSeconds : ℚ) < settings.block n := ⟨_, h⟩
    ⟨Nat.find hex, Nat.find_min' hex h, Nat.find_spec hex,
      fun i hi => not_lt.mp (Nat.find_min hex hi)⟩
  have hwindow : (0 : ℚ) ≤ settings.loginFailureWindowSeconds := Nat.cast_nonneg _
  cases n with
  | zero =>
    have hzero : settings.block 0 = 0 :=
      if_neg (not_le.mpr (lt_of_lt_of_le Nat.zero_lt_two settings.limit_ge))
    rw [hzero] at hlong
    exact absurd hwindow (not_le.mpr hlong)
  | succ n =>
    obtain ⟨later, hold, hearly⟩ := exists_between hlong
    have hcount : n + 1 < settings.loginFailureLimit + 1024 := Nat.lt_succ_of_le hsmall
    have hheld := @after_attempts settings casefold n (Nat.lt_of_succ_lt hcount)
      fun i hi => hfirst i (Nat.lt_succ_of_lt hi)
    obtain ⟨hanswer, hip, haccount⟩ :=
      attempt_admitted (hfirst n (Nat.lt_succ_self n)) hcount hheld.1 hheld.2
    set now := settings.momentOf (n + 1) with hnow
    have htimes : Nondecreasing (settings.attempts n ++ attemptAt now ::
        ([] ++ [attemptAt (now + later)])) := by
      have hlater : ∀ t ∈ (settings.attempts (n + 1)).flatMap Call.readings, t ≤ now + later :=
        fun t ht => le_trans (readings_attempts_le (n + 1) t ht) (by rw [← hnow]; linarith)
      have := nondecreasing_snoc (nondecreasing_attempts (n + 1)) hlater
      rw [attempts, List.append_assoc] at this
      exact this
    have hgone : (settings.retryAfter casefold "" "" (now + later)
        (settings.reserveAttempt casefold "" "" ⟨now, now, now⟩
          (settings.after casefold (settings.attempts n))).2).1 = 0 := by
      refine retryAfter_of_old hip haccount ?_ ?_ <;>
        exact add_lt_add_of_le_of_lt (le_refl now) hold
    intro hholds
    obtain ⟨left, hrefused⟩ := hholds (settings.attempts n) [] "" "" "" ⟨now, now, now⟩
      ⟨now + later, now + later, now + later⟩ htimes rfl (by simp) _ hanswer
      (by dsimp only; linarith) (add_lt_add_of_le_of_lt (le_refl now) hearly)
    rw [after, List.foldl_append, List.foldl_cons, List.foldl_nil, apply, ← after] at hrefused
    have hpos := reserveAttempt_refused hrefused
    rw [hgone] at hpos
    exact lt_irrefl _ hpos

/-- Accepted settings under which the third failure blocks for 120 of 60 seconds. -/
def shortWindow : BackoffSettings where
  loginFailureLimit := 2
  loginFailureWindowSeconds := 60
  loginBackoffBaseSeconds := 60
  loginBackoffMaxSeconds := 600
  limit_ge := by decide
  window_ge := by decide
  base_pos := by decide
  base_le := by decide
  max_pos := by decide
  max_le := by decide
  base_le_max := by decide

-- two failures at once, a third when their block ends, and one that should wait until 180
example :
    let failures := shortWindow.after id [attemptAt 0, attemptAt 0]
    let third := shortWindow.reserveAttempt id "" "" ⟨60, 60, 60⟩ failures
    let fourth := shortWindow.reserveAttempt id "" "" ⟨121, 121, 121⟩ third.2
    third.1.toOption = some ⟨true, 120⟩ ∧ fourth.1.toOption = some ⟨true, 0⟩ := by
  decide +kernel

/-! ## 6. What is counted -/

/-- A block that is longer than the window is not outlived by the state: it is never counted on
from. -/
theorem count_lt_of_free (hlong : (settings.loginFailureWindowSeconds : ℚ) < settings.longestBlock)
    {state : FailureState} {now : ℚ}
    (hcounted : state.count < settings.loginFailureLimit + 1024 ∧
      state.blockedUntil = state.lastFailure + settings.block state.count)
    (hfree : state.blockedUntil ≤ now)
    (hfresh : now ≤ state.lastFailure + settings.loginFailureWindowSeconds) :
    state.count + 1 < settings.loginFailureLimit + 1024 := by
  obtain ⟨hcount, hblock⟩ := hcounted
  by_contra hnot
  have hlast : state.count = settings.loginFailureLimit + 1023 := by omega
  rw [hlast, block_last] at hblock
  linarith

/-- What an admitted attempt has found: of each of its two keys no state that blocks. -/
theorem free_of_retryAfter {ipAddress username : String} {now : ℚ} {failures : Failures}
    (h : ¬ 0 < (settings.retryAfter casefold ipAddress username now failures).1) :
    ∀ key ∈ [Dimension.ip ipAddress, .account (casefold username)], ∀ state,
      (settings.retryAfter casefold ipAddress username now failures).2 key = some state →
      state.blockedUntil ≤ now ∧
        now ≤ state.lastFailure + settings.loginFailureWindowSeconds := by
  intro key hkey state hstate
  simp only [retryAfter] at h hstate
  have hip := @activeState_self settings (.ip ipAddress) now failures
  generalize settings.activeState (.ip ipAddress) now failures = ip at h hstate hip
  have haccount := @activeState_self settings (.account (casefold username)) now ip.2
  have hother : ∀ key, key ≠ .account (casefold username) →
      (settings.activeState (.account (casefold username)) now ip.2).2 key = ip.2 key :=
    fun key hne => activeState_of_ne hne now ip.2
  generalize settings.activeState (.account (casefold username)) now ip.2 = account
    at h hstate haccount hother
  rcases List.mem_pair.mp hkey with rfl | rfl
  · rw [hother _ (by simp), hip.1] at hstate
    refine ⟨?_, hip.2 state hstate⟩
    rw [hstate] at h
    cases hfound : account.1 with
    | none =>
      rw [hfound] at h
      exact sub_nonpos.mp (not_lt.mp h)
    | some other =>
      rw [hfound] at h
      exact sub_nonpos.mp (le_trans (le_max_left _ _) (not_lt.mp h))
  · rw [haccount.1] at hstate
    refine ⟨?_, haccount.2 state hstate⟩
    rw [hstate] at h
    cases hfound : ip.1 with
    | none =>
      rw [hfound] at h
      exact sub_nonpos.mp (not_lt.mp h)
    | some other =>
      rw [hfound] at h
      exact sub_nonpos.mp (le_trans (le_max_right _ _) (not_lt.mp h))

/-- Neither key of an admitted attempt is at its last count: both are counted. -/
theorem registerFailure_ok
    (hlong : (settings.loginFailureWindowSeconds : ℚ) < settings.longestBlock)
    {ipAddress username : String} {checked counted answered : ℚ} {failures : Failures}
    (hcounted : settings.Counted failures)
    (hfree : ∀ key ∈ [Dimension.ip ipAddress, .account (casefold username)], ∀ state,
      failures key = some state → state.blockedUntil ≤ checked ∧
        checked ≤ state.lastFailure + settings.loginFailureWindowSeconds) :
    ∃ left,
      (settings.registerFailure casefold ipAddress username counted answered failures).1 =
        .ok left := by
  have hnext : ∀ key ∈ [Dimension.ip ipAddress, .account (casefold username)],
      ∀ failures', failures' key = failures key →
        nextCount (settings.activeState key counted failures').1 <
          settings.loginFailureLimit + 1024 := by
    intro key hkey failures' hsame
    cases hfound : (settings.activeState key counted failures').1 with
    | none => exact Nat.lt_of_lt_of_le (by decide) (Nat.le_add_left 1024 _)
    | some state =>
      obtain ⟨hstate, -⟩ := activeState_fst_eq_some hfound
      rw [hsame] at hstate
      obtain ⟨hblock, hfresh⟩ := hfree key hkey state hstate
      exact count_lt_of_free hlong (hcounted key state hstate) hblock hfresh
  have hip := countFailure_of_lt (hnext (.ip ipAddress) (List.mem_cons_self ..) failures rfl)
  have hkept : (settings.countFailure counted failures (.ip ipAddress)).2
      (.account (casefold username)) = failures (.account (casefold username)) :=
    countFailure_of_ne (by simp) counted failures
  rw [hip] at hkept
  have haccount := countFailure_of_lt (hnext _ (List.mem_pair.mpr (.inr rfl)) _ hkept)
  rw [registerFailure]
  simp only [countFailures]
  rw [hip]
  dsimp only
  rw [haccount]
  exact ⟨_, rfl⟩

theorem neverOverflows_of_lt
    (h : (settings.loginFailureWindowSeconds : ℚ) < settings.longestBlock) :
    settings.NeverOverflows casefold := by
  intro before ipAddress username times _
  have hbefore := @counted_after settings casefold before
  refine ⟨?_, ?_⟩
  · intro key state hstate
    have := (counted_after _ key state hstate).1
    omega
  · by_cases hrefused : 0 < (settings.retryAfter casefold ipAddress username times.checked
        (settings.after casefold before)).1
    · exact ⟨_, by rw [reserveAttempt, if_pos hrefused]⟩
    · have hok : ∃ left, (settings.registerFailure casefold ipAddress username times.counted
          times.answered (settings.retryAfter casefold ipAddress username times.checked
            (settings.after casefold before)).2).1 = .ok left :=
        registerFailure_ok h (hbefore.retryAfter ipAddress username times.checked)
          (free_of_retryAfter hrefused)
      obtain ⟨left, hleft⟩ := hok
      refine ⟨⟨true, left⟩, ?_⟩
      rw [reserveAttempt, if_neg hrefused]
      generalize settings.registerFailure casefold ipAddress username times.counted times.answered
        (settings.retryAfter casefold ipAddress username times.checked
          (settings.after casefold before)).2 = registered at hleft
      rcases registered with ⟨registered, failures⟩
      obtain rfl : registered = .ok left := hleft
      rfl

theorem not_neverOverflows_of_le
    (h : settings.longestBlock ≤ settings.loginFailureWindowSeconds) :
    ¬ settings.NeverOverflows casefold := by
  have hblocks : ∀ i < settings.loginFailureLimit + 1024,
      settings.block i ≤ settings.loginFailureWindowSeconds :=
    fun i hi => le_trans (block_le hi) h
  have hlast : settings.loginFailureLimit + 1023 < settings.loginFailureLimit + 1024 :=
    Nat.lt_succ_self _
  obtain ⟨hip, haccount⟩ := @after_attempts settings casefold _ hlast
    fun i hi => hblocks i (Nat.lt_trans hi hlast)
  -- one attempt more than there are powers of two
  obtain ⟨hfree, hfresh⟩ := free_heldAfter (hblocks _ hlast) _ rfl
  have hraised := reserveAttempt_overflows hip haccount hfree hfresh (le_refl _)
  intro hnever
  obtain ⟨-, answer, hanswer⟩ := hnever _ _ _ _
    (@nondecreasing_attempts settings (settings.loginFailureLimit + 1023 + 1))
  rw [hraised] at hanswer
  cases hanswer

/-- The settings of a configuration that sets none of the four. -/
def defaults : BackoffSettings where
  loginFailureLimit := 5
  loginFailureWindowSeconds := 15 * 60
  loginBackoffBaseSeconds := 1
  loginBackoffMaxSeconds := 60
  limit_ge := by decide
  window_ge := by decide
  base_pos := by decide
  base_le := by decide
  max_pos := by decide
  max_le := by decide
  base_le_max := by decide

end BackoffSettings

end ProductPdfQr.Auth
