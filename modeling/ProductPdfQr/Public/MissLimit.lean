/-
# The limit on unknown tokens

A scan asks whether its source is limited, looks its token up, and registers a miss if there is
none.  Between the three other scans of the source take their steps.  What has been asked is not
asked again: a scan that registers a miss is answered with the page, also when the source has
reached the limit since.

`probes_bounded_iff` says which scans are too many: along a run at most the limit of them are
answered with the page in any window, however the scans under way end, exactly when whoever is
let through finds room for all the scans for unknown tokens that are under way.
-/
import Mathlib.Data.Rat.Defs
import Mathlib.Algebra.Order.Field.Rat
import Mathlib.Tactic.Linarith
import Mathlib.Data.List.Induction
import Mathlib.Data.List.Basic

namespace ProductPdfQr

/-! ## 1. Ordered windows -/

namespace SlidingWindow

variable {α : Type} [LinearOrder α]

/-- Expiring the front of an ordered list leaves what is later than the cutoff. -/
theorem dropWhile_eq_filter {l : List α} (hsorted : l.Pairwise (· ≤ ·)) (cutoff : α) :
    l.dropWhile (· ≤ cutoff) = l.filter (cutoff < ·) := by
  induction l with
  | nil => rfl
  | cons a l ih =>
    obtain ⟨hfirst, hsorted⟩ := List.pairwise_cons.mp hsorted
    rcases le_or_gt a cutoff with ha | ha
    · rw [List.dropWhile_cons_of_pos (by simpa using ha),
        List.filter_cons_of_neg (by simpa using ha), ih hsorted]
    · rw [List.dropWhile_cons_of_neg (by simpa using ha),
        List.filter_cons_of_pos (by simpa using ha)]
      congr 1
      refine (List.filter_eq_self.mpr fun b hb => ?_).symm
      exact decide_eq_true (lt_of_lt_of_le ha (hfirst b hb))

/-- A later cutoff is the only one that matters. -/
theorem filter_filter_of_le {l : List α} {cutoff cutoff' : α} (h : cutoff ≤ cutoff') :
    (l.filter (cutoff < ·)).filter (cutoff' < ·) = l.filter (cutoff' < ·) := by
  rw [List.filter_filter]
  refine List.filter_congr fun a _ => ?_
  rcases lt_or_ge cutoff' a with ha | ha
  · simp [ha, lt_of_le_of_lt h ha]
  · simp [not_lt.mpr ha]

theorem filter_length_le_of_le {l : List α} {cutoff cutoff' : α} (h : cutoff ≤ cutoff') :
    (l.filter (cutoff' < ·)).length ≤ (l.filter (cutoff < ·)).length :=
  (List.monotone_filter_right l fun _ ha =>
    decide_eq_true (lt_of_le_of_lt h (of_decide_eq_true ha))).length_le

end SlidingWindow

namespace Public

/-! ## 2. The limiter -/

/-- `PublicState`. -/
inductive PublicState
  | missing
  | disabled
  | unuploaded
  | available
  deriving DecidableEq

/-- What a `PublicMissLimiter` is made from, as the settings bound it. -/
structure MissLimits where
  limit : Nat
  windowSeconds : Nat
  limit_pos : 1 ≤ limit
  window_pos : 1 ≤ windowSeconds

/-- The audit event of a source that reaches the limit. -/
structure ProbeEvent where
  action : String
  result : String
  actorType : String
  missLimit : Nat
  observedMisses : Nat
  sourceIp : String
  deriving DecidableEq

namespace MissLimits

variable (l : MissLimits)

/-- `_active_misses`. -/
def activeMisses (now : ℚ) (misses : List ℚ) : List ℚ :=
  misses.dropWhile (· ≤ now - l.windowSeconds)

/-- `is_limited`. -/
def isLimited (now : ℚ) (misses : List ℚ) : Bool × List ℚ :=
  let misses := l.activeMisses now misses
  (l.limit ≤ misses.length, misses)

/-- `register_miss`, that reads the clock twice. -/
def registerMiss (now appended : ℚ) (misses : List ℚ) : Bool × List ℚ :=
  let misses := l.activeMisses now misses
  let wasLimited : Bool := l.limit ≤ misses.length
  let misses := misses ++ [appended]
  (!wasLimited && l.limit ≤ misses.length, misses)

end MissLimits

/-! ## 3. The scans of a source -/

section Scans

variable {ι : Type} [DecidableEq ι]

/-- A step of a scan, with what it reads off the clock. -/
inductive Step (ι : Type)
  | isLimited (scan : ι) (now : ℚ)
  | lookup (scan : ι)
  | registerMiss (scan : ι) (now appended : ℚ)

def Step.readings : Step ι → List ℚ
  | .isLimited _ now => [now]
  | .lookup _ => []
  | .registerMiss _ now appended => [now, appended]

/-- The scans under way, and what has come of the others. -/
structure State (ι : Type) where
  misses : List ℚ := []
  /-- Let through, and not looked up yet. -/
  passed : List ι := []
  /-- Found to be for an unknown token. -/
  missing : List ι := []
  /-- When scans for unknown tokens were answered with the page. -/
  answered : List ℚ := []
  audits : List ProbeEvent := []
  deriving DecidableEq

variable (l : MissLimits) (source : String) (document : ι → PublicState)

def probeEvent : ProbeEvent where
  action := "public_token_probe"
  result := "failure"
  actorType := "anonymous"
  missLimit := l.limit
  observedMisses := l.limit
  sourceIp := source

/-- `public_scan`, step by step.  A scan that is limited is answered 429. -/
def next (s : State ι) : Step ι → Option (State ι)
  | .isLimited scan now =>
    if scan ∈ s.passed ∨ scan ∈ s.missing then none
    else
      let checked := l.isLimited now s.misses
      some { s with
        misses := checked.2
        passed := if checked.1 then s.passed else s.passed ++ [scan] }
  | .lookup scan =>
    if scan ∈ s.passed then
      some { s with
        passed := s.passed.erase scan
        missing := if document scan = .missing then s.missing ++ [scan] else s.missing }
    else none
  | .registerMiss scan now appended =>
    if scan ∈ s.missing then
      let registered := l.registerMiss now appended s.misses
      some { s with
        misses := registered.2
        missing := s.missing.erase scan
        answered := s.answered ++ [appended]
        audits := if registered.1 then s.audits ++ [probeEvent l source] else s.audits }
    else none

def after (steps : List (Step ι)) (s : State ι) : Option (State ι) :=
  steps.foldlM (next l source document) s

/-- The clock does not go back. -/
def Nondecreasing (steps : List (Step ι)) : Prop :=
  (steps.flatMap Step.readings).Pairwise (· ≤ ·)

instance (steps : List (Step ι)) : Decidable (Nondecreasing steps) :=
  inferInstanceAs (Decidable (List.Pairwise (· ≤ ·) (steps.flatMap Step.readings)))

/-- An interleaving of the steps of some scans. -/
structure Run where
  steps : List (Step ι)
  state : State ι
  nondecreasing : Nondecreasing steps
  valid : after l source document steps {} = some state

/-- In no window more of them are answered with the page than the limit. -/
def Bounded (s : State ι) : Prop :=
  ∀ start : ℚ, (s.answered.filter fun t => start < t ∧ t ≤ start + l.windowSeconds).length ≤ l.limit

/-- The scans under way that are for unknown tokens. -/
def unknown (s : State ι) : List ι :=
  s.passed.filter (document · = .missing) ++ s.missing

/-- Steps that only end scans. -/
def Ending (steps : List (Step ι)) : Prop :=
  ∀ scan now, Step.isLimited scan now ∉ steps

/-- At every point, and however the scans under way end. -/
def AlwaysBounded (steps : List (Step ι)) : Prop :=
  ∀ first rest ending s, steps = first ++ rest → Ending ending →
    Nondecreasing (first ++ ending) → after l source document (first ++ ending) {} = some s →
    Bounded l s

/-- Whoever is let through with an unknown token finds room for all that are under way. -/
def Uncrowded (steps : List (Step ι)) : Prop :=
  ∀ first scan now rest s, steps = first ++ .isLimited scan now :: rest →
    after l source document first {} = some s → document scan = .missing →
    (l.isLimited now s.misses).1 = false →
    (l.activeMisses now s.misses).length + (unknown document s).length < l.limit

/-- How often the active misses rise to the limit, all the misses so far being given. -/
def rises : List ℚ → List (Step ι) → Nat
  | _, [] => 0
  | misses, .registerMiss _ now appended :: steps =>
    let active := (misses.filter (now - l.windowSeconds < ·)).length
    (if active < l.limit ∧ l.limit ≤ active + 1 then 1 else 0) + rises (misses ++ [appended]) steps
  | misses, _ :: steps => rises misses steps

/-! ## 4. What is kept -/

variable {l source document}

theorem after_append (steps steps' : List (Step ι)) (s : State ι) :
    after l source document (steps ++ steps') s =
      (after l source document steps s).bind (after l source document steps') := by
  rw [after, List.foldlM_append]
  rfl

theorem after_snoc (steps : List (Step ι)) (step : Step ι) (s : State ι) :
    after l source document (steps ++ [step]) s =
      (after l source document steps s).bind fun t => next l source document t step := by
  have hlast : after l source document [step] = fun t => next l source document t step := by
    funext t
    simp [after]
  rw [after_append, hlast]

omit [DecidableEq ι] in
theorem nondecreasing_snoc_iff {steps : List (Step ι)} {step : Step ι} :
    Nondecreasing (steps ++ [step]) ↔ Nondecreasing steps ∧ step.readings.Pairwise (· ≤ ·) ∧
      ∀ t ∈ steps.flatMap Step.readings, ∀ t' ∈ step.readings, t ≤ t' := by
  rw [Nondecreasing, List.flatMap_append, List.pairwise_append, List.flatMap_singleton]
  rfl

/-- The deque against all the misses that ever were: those after some cutoff. -/
structure Tracked (l : MissLimits) (s : State ι) (readings : List ℚ) : Prop where
  sorted : s.answered.Pairwise (· ≤ ·)
  read : ∀ t ∈ s.answered, t ∈ readings
  kept : ∀ now, (∀ t ∈ readings, t ≤ now) → ∃ cutoff, cutoff ≤ now - l.windowSeconds ∧
    s.misses = s.answered.filter (cutoff < ·)

omit [DecidableEq ι] in
/-- What `_active_misses` leaves are the misses of the last window. -/
theorem Tracked.activeMisses_eq {s : State ι} {readings : List ℚ} (h : Tracked l s readings)
    {now : ℚ} (hnow : ∀ t ∈ readings, t ≤ now) :
    l.activeMisses now s.misses = s.answered.filter (now - l.windowSeconds < ·) := by
  obtain ⟨cutoff, hcutoff, hmisses⟩ := h.kept now hnow
  rw [MissLimits.activeMisses, hmisses, SlidingWindow.dropWhile_eq_filter (h.sorted.filter _),
    SlidingWindow.filter_filter_of_le hcutoff]

omit [DecidableEq ι] in
theorem Tracked.initial : Tracked l ({} : State ι) [] where
  sorted := List.Pairwise.nil
  read := fun _ ht => ht
  kept := fun now _ => ⟨now - l.windowSeconds, le_refl _, rfl⟩

theorem Tracked.next {s s' : State ι} {readings : List ℚ} (h : Tracked l s readings)
    {step : Step ι} (hstep : next l source document s step = some s')
    (hsorted : step.readings.Pairwise (· ≤ ·))
    (hlater : ∀ t ∈ readings, ∀ t' ∈ step.readings, t ≤ t') :
    Tracked l s' (readings ++ step.readings) := by
  cases step with
  | isLimited scan now =>
    simp only [Public.next] at hstep
    split at hstep
    · cases hstep
    · obtain rfl := Option.some.inj hstep
      have hactive := h.activeMisses_eq fun t ht => hlater t ht now (List.mem_singleton_self _)
      refine ⟨h.sorted, fun t ht => List.mem_append_left _ (h.read t ht), fun now' hnow' => ?_⟩
      have hle : now ≤ now' := hnow' now (List.mem_append_right _ (List.mem_singleton_self _))
      exact ⟨now - l.windowSeconds, by linarith, hactive⟩
  | lookup scan =>
    simp only [Public.next] at hstep
    split at hstep
    · obtain rfl := Option.some.inj hstep
      rw [Step.readings, List.append_nil]
      exact ⟨h.sorted, h.read, h.kept⟩
    · cases hstep
  | registerMiss scan now appended =>
    simp only [Public.next] at hstep
    split at hstep
    · obtain rfl := Option.some.inj hstep
      have hle : now ≤ appended := by simpa [Step.readings] using hsorted
      have hactive := h.activeMisses_eq fun t ht => hlater t ht now (List.mem_cons_self ..)
      refine ⟨?_, ?_, ?_⟩
      · refine List.pairwise_append.mpr ⟨h.sorted, List.pairwise_singleton _ _, ?_⟩
        intro t ht t' ht'
        rw [List.mem_singleton.mp ht']
        exact hlater t (h.read t ht) appended (by simp [Step.readings])
      · intro t ht
        rcases List.mem_append.mp ht with ht | ht
        · exact List.mem_append_left _ (h.read t ht)
        · rw [List.mem_singleton.mp ht]
          exact List.mem_append_right _ (by simp [Step.readings])
      · intro now' hnow'
        have hle' : now ≤ now' := hnow' now (by simp [Step.readings])
        refine ⟨now - l.windowSeconds, by linarith, ?_⟩
        have hwindow : (1 : ℚ) ≤ l.windowSeconds := by exact_mod_cast l.window_pos
        have hkept : now - l.windowSeconds < appended := by linarith
        rw [List.filter_append, List.filter_cons_of_pos (by simpa using hkept), List.filter_nil,
          ← hactive]
        rfl
    · cases hstep

theorem tracked_after {steps : List (Step ι)} {s : State ι} (hsteps : Nondecreasing steps)
    (hafter : after l source document steps {} = some s) :
    Tracked l s (steps.flatMap Step.readings) := by
  induction steps using List.reverseRecOn generalizing s with
  | nil =>
    obtain rfl := Option.some.inj hafter
    exact Tracked.initial
  | append_singleton steps step ih =>
    obtain ⟨hsteps, hsorted, hlater⟩ := nondecreasing_snoc_iff.mp hsteps
    rw [after_snoc] at hafter
    obtain ⟨t, ht, hstep⟩ := Option.bind_eq_some_iff.mp hafter
    rw [List.flatMap_append, List.flatMap_singleton]
    exact (ih hsteps ht).next hstep hsorted hlater

/-! ## 5. Room -/

omit [DecidableEq ι] in
theorem nondecreasing_of_append {steps steps' : List (Step ι)}
    (h : Nondecreasing (steps ++ steps')) : Nondecreasing steps := by
  rw [Nondecreasing, List.flatMap_append] at h
  exact (List.pairwise_append.mp h).1

/-- With those that are under way there are no more misses in the last window than the limit. -/
def Room (l : MissLimits) (document : ι → PublicState) (s : State ι) (now : ℚ) : Prop :=
  (s.answered.filter (now - l.windowSeconds < ·)).length + (unknown document s).length ≤ l.limit

omit [DecidableEq ι] in
theorem Room.later {s : State ι} {now now' : ℚ} (h : Room l document s now) (hle : now ≤ now') :
    Room l document s now' := by
  have : (s.answered.filter (now' - l.windowSeconds < ·)).length ≤
      (s.answered.filter (now - l.windowSeconds < ·)).length :=
    SlidingWindow.filter_length_le_of_le (by linarith)
  unfold Room at h ⊢
  omega

omit [DecidableEq ι] in
/-- One more answer is one too many in no window, if it is not one too many in the last one. -/
theorem Bounded.snoc {s : State ι} {appended : ℚ} (h : Bounded l s)
    (hlast : (s.answered.filter (appended - l.windowSeconds < ·)).length + 1 ≤ l.limit)
    {s' : State ι} (hanswered : s'.answered = s.answered ++ [appended]) : Bounded l s' := by
  intro start
  rw [hanswered, List.filter_append, List.length_append]
  by_cases hin : start < appended ∧ appended ≤ start + l.windowSeconds
  · have hsub : (s.answered.filter fun t => start < t ∧ t ≤ start + l.windowSeconds).length ≤
        (s.answered.filter (appended - l.windowSeconds < ·)).length := by
      refine (List.monotone_filter_right s.answered fun t ht => ?_).length_le
      have ht' := (of_decide_eq_true ht).1
      exact decide_eq_true (by linarith [hin.2])
    rw [List.filter_cons_of_pos (by simpa using hin), List.filter_nil, List.length_singleton]
    omega
  · rw [List.filter_cons_of_neg (by simpa using hin), List.filter_nil]
    exact h start

/-- With room at any later time, the scan that is let through finding some. -/
def AlwaysRoom (l : MissLimits) (document : ι → PublicState) (s : State ι) (readings : List ℚ) :
    Prop :=
  ∀ now, (∀ t ∈ readings, t ≤ now) → Room l document s now

omit [DecidableEq ι] in
theorem unknown_passed (s : State ι) (misses : List ℚ) (scan : ι) :
    (unknown document { s with misses := misses, passed := s.passed ++ [scan] }).length =
      (unknown document s).length + if document scan = .missing then 1 else 0 := by
  unfold unknown
  rw [List.filter_append, List.length_append, List.length_append, List.length_append]
  by_cases hmissing : document scan = .missing
  · rw [List.filter_cons_of_pos (by simpa using hmissing), if_pos hmissing]
    exact Nat.add_right_comm _ 1 _
  · rw [List.filter_cons_of_neg (by simpa using hmissing), if_neg hmissing]
    rfl

theorem unknown_lookup {s : State ι} {scan : ι} (hscan : scan ∈ s.passed) :
    (unknown document { s with
      passed := s.passed.erase scan
      missing := if document scan = .missing then s.missing ++ [scan] else s.missing }).length =
        (unknown document s).length := by
  have hperm := (List.perm_cons_erase hscan).countP_eq fun r => document r = .missing
  rw [List.countP_cons] at hperm
  unfold unknown
  rw [List.length_append, List.length_append, ← List.countP_eq_length_filter,
    ← List.countP_eq_length_filter, hperm]
  by_cases hmissing : document scan = .missing
  · simp only [hmissing, decide_true, if_true, List.length_append, List.length_singleton]
    omega
  · simp [hmissing]

theorem AlwaysRoom.next {s s' : State ι} {readings : List ℚ} (h : AlwaysRoom l document s readings)
    (htracked : Tracked l s readings) {step : Step ι}
    (hstep : next l source document s step = some s')
    (hlater : ∀ t ∈ readings, ∀ t' ∈ step.readings, t ≤ t')
    (hroom : ∀ scan now, step = .isLimited scan now → document scan = .missing →
      (l.isLimited now s.misses).1 = false →
      (l.activeMisses now s.misses).length + (unknown document s).length < l.limit) :
    AlwaysRoom l document s' (readings ++ step.readings) := by
  intro now' hnow'
  have hbefore : Room l document s now' := h now' fun t ht => hnow' t (List.mem_append_left _ ht)
  cases step with
  | isLimited scan now =>
    have hle : now ≤ now' := hnow' now (List.mem_append_right _ (List.mem_singleton_self _))
    simp only [Public.next] at hstep
    split at hstep
    · cases hstep
    · obtain rfl := Option.some.inj hstep
      cases hlimited : (l.isLimited now s.misses).1 with
      | true => exact hbefore
      | false =>
        simp only [Bool.false_eq_true, if_false]
        by_cases hmissing : document scan = .missing
        · have hless := hroom scan now rfl hmissing hlimited
          rw [htracked.activeMisses_eq fun t ht =>
            hlater t ht now (List.mem_singleton_self _)] at hless
          refine Room.later ?_ hle
          rw [Room, unknown_passed, if_pos hmissing]
          exact hless
        · rw [Room, unknown_passed, if_neg hmissing]
          exact hbefore
  | lookup scan =>
    simp only [Public.next] at hstep
    split at hstep
    · next hscan =>
      obtain rfl := Option.some.inj hstep
      unfold Room
      rw [unknown_lookup hscan]
      exact hbefore
    · cases hstep
  | registerMiss scan now appended =>
    simp only [Public.next] at hstep
    split at hstep
    · next hscan =>
      obtain rfl := Option.some.inj hstep
      have hlength := List.length_erase_of_mem hscan
      have hpos := List.length_pos_of_mem hscan
      have hone := List.length_filter_le (now' - l.windowSeconds < ·) [appended]
      rw [List.length_singleton] at hone
      simp only [Room, unknown, List.filter_append, List.length_append] at hbefore ⊢
      omega
    · cases hstep

theorem Bounded.next {s s' : State ι} {readings : List ℚ} (h : Bounded l s)
    (hroom : AlwaysRoom l document s readings) {step : Step ι}
    (hstep : next l source document s step = some s')
    (hlater : ∀ t ∈ readings, ∀ t' ∈ step.readings, t ≤ t') : Bounded l s' := by
  cases step with
  | isLimited scan now =>
    simp only [Public.next] at hstep
    split at hstep
    · cases hstep
    · obtain rfl := Option.some.inj hstep
      exact h
  | lookup scan =>
    simp only [Public.next] at hstep
    split at hstep
    · obtain rfl := Option.some.inj hstep
      exact h
    · cases hstep
  | registerMiss scan now appended =>
    simp only [Public.next] at hstep
    split at hstep
    · next hscan =>
      obtain rfl := Option.some.inj hstep
      refine h.snoc ?_ rfl
      have hlast := hroom appended fun t ht => hlater t ht appended (by simp [Step.readings])
      have hpos := List.length_pos_of_mem hscan
      simp only [Room, unknown, List.length_append] at hlast
      omega
    · cases hstep

/-- A run in which whoever is let through finds room. -/
theorem bounded_of_uncrowded {steps : List (Step ι)} {s : State ι} (hsteps : Nondecreasing steps)
    (hroom : Uncrowded l source document steps)
    (hafter : after l source document steps {} = some s) :
    Bounded l s ∧ AlwaysRoom l document s (steps.flatMap Step.readings) := by
  induction steps using List.reverseRecOn generalizing s with
  | nil =>
    obtain rfl := Option.some.inj hafter
    exact ⟨fun _ => Nat.zero_le _, fun _ _ => Nat.zero_le _⟩
  | append_singleton steps step ih =>
    obtain ⟨hfirst, hsorted, hlater⟩ := nondecreasing_snoc_iff.mp hsteps
    rw [after_snoc] at hafter
    obtain ⟨t, ht, hstep⟩ := Option.bind_eq_some_iff.mp hafter
    have hroomFirst : Uncrowded l source document steps := by
      intro first scan now rest s hsplit
      exact hroom first scan now (rest ++ [step]) s (by rw [hsplit]; simp)
    obtain ⟨hbounded, halways⟩ := ih hfirst hroomFirst ht
    rw [List.flatMap_append, List.flatMap_singleton]
    refine ⟨hbounded.next halways hstep hlater, ?_⟩
    refine halways.next (tracked_after hfirst ht) hstep hlater ?_
    rintro scan now rfl
    exact hroom steps scan now [] t rfl ht

theorem uncrowded_of_ending {first rest ending : List (Step ι)}
    (h : Uncrowded l source document (first ++ rest)) (hending : Ending ending) :
    Uncrowded l source document (first ++ ending) := by
  intro before scan now after s hsplit
  rcases List.append_eq_append_iff.mp hsplit with ⟨between, rfl, htail⟩ | ⟨between, hfirst, htail⟩
  · refine absurd ?_ (hending scan now)
    rw [htail]
    exact List.mem_append_right _ (List.mem_cons_self ..)
  · cases between with
    | nil =>
      refine absurd ?_ (hending scan now)
      rw [List.nil_append] at htail
      rw [← htail]
      exact List.mem_cons_self ..
    | cons step between =>
      rw [List.cons_append] at htail
      obtain ⟨rfl, -⟩ := List.cons.inj htail
      exact h before scan now (between ++ rest) s (by rw [hfirst]; simp)

/-! ## 6. Too many -/

/-- All scans that were let through are looked up. -/
theorem after_lookups (s : State ι) (scans : List ι) (hpassed : s.passed = scans) :
    after l source document (scans.map .lookup) s = some { s with
      passed := []
      missing := s.missing ++ scans.filter (document · = .missing) } := by
  induction scans generalizing s with
  | nil =>
    simp only [List.map_nil, List.filter_nil, List.append_nil]
    rw [← hpassed]
    rfl
  | cons scan scans ih =>
    have hstep : next l source document s (.lookup scan) = some { s with
        passed := scans
        missing := if document scan = .missing then s.missing ++ [scan] else s.missing } := by
      simp [next, hpassed]
    rw [List.map_cons, ← List.singleton_append, after_append]
    have hfirst : after l source document [.lookup scan] s =
        next l source document s (.lookup scan) := by simp [after]
    rw [hfirst, hstep, Option.bind_some, ih _ rfl]
    by_cases hmissing : document scan = .missing
    · simp [hmissing]
    · simp [hmissing]

/-- All scans that were looked up are answered, at one moment. -/
theorem after_registered (s : State ι) (scans : List ι) (hmissing : s.missing = scans) (now : ℚ) :
    ∃ s', after l source document (scans.map fun scan => .registerMiss scan now now) s = some s' ∧
      s'.answered = s.answered ++ List.replicate scans.length now := by
  induction scans generalizing s with
  | nil => exact ⟨s, rfl, (List.append_nil _).symm⟩
  | cons scan scans ih =>
    have hmem : scan ∈ s.missing := by
      rw [hmissing]
      exact List.mem_cons_self ..
    obtain ⟨t, hstep, hrest, hanswered⟩ : ∃ t,
        next l source document s (.registerMiss scan now now) = some t ∧ t.missing = scans ∧
          t.answered = s.answered ++ [now] := by
      refine ⟨_, if_pos hmem, ?_, rfl⟩
      simp [hmissing]
    obtain ⟨s', hs', hlast⟩ := ih t hrest
    refine ⟨s', ?_, ?_⟩
    · have hfirst : after l source document [.registerMiss scan now now] s = some t := by
        simpa [after] using hstep
      rw [List.map_cons, ← List.singleton_append, after_append, hfirst, Option.bind_some, hs']
    · rw [hlast, hanswered, List.append_assoc]
      rfl

/-- The steps that end all scans under way at one moment. -/
def endingAt (document : ι → PublicState) (s : State ι) (now : ℚ) : List (Step ι) :=
  s.passed.map .lookup ++
    (s.missing ++ s.passed.filter (document · = .missing)).map fun scan =>
      .registerMiss scan now now

theorem after_endingAt (s : State ι) (now : ℚ) :
    ∃ s', after l source document (endingAt document s now) s = some s' ∧
      s'.answered = s.answered ++ List.replicate (unknown document s).length now := by
  obtain ⟨s', hs', hanswered⟩ := @after_registered _ _ l source document
    { s with passed := [], missing := s.missing ++ s.passed.filter (document · = .missing) } _ rfl
    now
  refine ⟨s', ?_, ?_⟩
  · rw [endingAt, after_append, after_lookups s s.passed rfl, Option.bind_some, hs']
  · rw [hanswered, unknown, List.length_append, List.length_append, Nat.add_comm]

omit [DecidableEq ι] in
theorem ending_endingAt (s : State ι) (now : ℚ) : Ending (endingAt document s now) := by
  intro scan now' hmem
  rcases List.mem_append.mp hmem with hmem | hmem
  · obtain ⟨_, _, h⟩ := List.mem_map.mp hmem
    cases h
  · obtain ⟨_, _, h⟩ := List.mem_map.mp hmem
    cases h

omit [DecidableEq ι] in
theorem readings_endingAt (s : State ι) (now : ℚ) :
    ∀ t ∈ (endingAt document s now).flatMap Step.readings, t = now := by
  intro t ht
  obtain ⟨step, hstep, hread⟩ := List.mem_flatMap.mp ht
  rcases List.mem_append.mp hstep with hmem | hmem
  · obtain ⟨_, _, rfl⟩ := List.mem_map.mp hmem
    cases hread
  · obtain ⟨_, _, rfl⟩ := List.mem_map.mp hmem
    simpa [Step.readings] using hread

omit [DecidableEq ι] in
theorem nondecreasing_append_of_eq {steps ending : List (Step ι)} {now : ℚ}
    (hsteps : Nondecreasing steps) (hbefore : ∀ t ∈ steps.flatMap Step.readings, t ≤ now)
    (hending : ∀ t ∈ ending.flatMap Step.readings, t = now) : Nondecreasing (steps ++ ending) := by
  rw [Nondecreasing, List.flatMap_append]
  refine List.pairwise_append.mpr ⟨hsteps, ?_, ?_⟩
  · refine List.pairwise_of_forall_mem_list fun t ht t' ht' => ?_
    rw [hending t ht, hending t' ht']
  · intro t ht t' ht'
    rw [hending t' ht']
    exact hbefore t ht

/-- Let through without room, and all that are under way ended at that moment. -/
theorem not_bounded_of_crowded {first : List (Step ι)} {scan : ι} {now : ℚ} {s t : State ι}
    (hsteps : Nondecreasing (first ++ [.isLimited scan now]))
    (hfirst : after l source document first {} = some s)
    (hnext : next l source document s (.isLimited scan now) = some t)
    (hmissing : document scan = .missing) (hpassed : (l.isLimited now s.misses).1 = false)
    (hcrowded : l.limit ≤ (l.activeMisses now s.misses).length + (unknown document s).length) :
    ∃ ending s', Ending ending ∧
      Nondecreasing (first ++ [.isLimited scan now] ++ ending) ∧
      after l source document (first ++ [.isLimited scan now] ++ ending) {} = some s' ∧
      ¬ Bounded l s' := by
  obtain ⟨hfirstSteps, -, hlater⟩ := nondecreasing_snoc_iff.mp hsteps
  have hbefore : ∀ t ∈ first.flatMap Step.readings, t ≤ now :=
    fun t ht => hlater t ht now (List.mem_singleton_self _)
  have htracked := tracked_after hfirstSteps hfirst
  obtain ⟨s', hs', hanswered⟩ := @after_endingAt _ _ l source document t now
  have ht : t.answered = s.answered ∧
      (unknown document t).length = (unknown document s).length + 1 := by
    simp only [next] at hnext
    split at hnext
    · cases hnext
    · obtain rfl := Option.some.inj hnext
      refine ⟨rfl, ?_⟩
      simp only [hpassed, Bool.false_eq_true, if_false]
      rw [unknown_passed, if_pos hmissing]
  refine ⟨endingAt document t now, s', ending_endingAt t now, ?_, ?_, ?_⟩
  · refine nondecreasing_append_of_eq hsteps (fun u hu => ?_) (readings_endingAt t now)
    rw [List.flatMap_append, List.mem_append] at hu
    rcases hu with hu | hu
    · exact hbefore u hu
    · exact le_of_eq (by simpa [Step.readings] using hu)
  · rw [after_append, after_snoc, hfirst, Option.bind_some, hnext, Option.bind_some, hs']
  · intro hbounded
    have hwindow := hbounded (now - l.windowSeconds)
    have hactive : (s.answered.filter fun t => now - l.windowSeconds < t ∧
        t ≤ now - l.windowSeconds + l.windowSeconds) = l.activeMisses now s.misses := by
      rw [htracked.activeMisses_eq hbefore]
      refine List.filter_congr fun u hu => ?_
      have := hbefore u (htracked.read u hu)
      simp [this]
    have hlast : (List.replicate (unknown document t).length now).filter (fun t =>
        now - l.windowSeconds < t ∧ t ≤ now - l.windowSeconds + l.windowSeconds) =
        List.replicate (unknown document t).length now := by
      have hpos : (1 : ℚ) ≤ l.windowSeconds := by exact_mod_cast l.window_pos
      refine List.filter_eq_self.mpr fun u hu => ?_
      rw [List.eq_of_mem_replicate hu]
      exact decide_eq_true ⟨by linarith, by linarith⟩
    rw [hanswered, ht.1, List.filter_append, List.length_append, hactive, hlast,
      List.length_replicate, ht.2] at hwindow
    omega

theorem alwaysBounded_iff (run : Run l source document) :
    AlwaysBounded l source document run.steps ↔ Uncrowded l source document run.steps := by
  constructor
  · intro h first scan now rest s hsplit hfirst hmissing hpassed
    by_contra hcrowded
    have hvalid := run.valid
    have hsteps := run.nondecreasing
    rw [hsplit, List.append_cons] at hvalid hsteps
    rw [after_append, after_snoc, hfirst, Option.bind_some] at hvalid
    obtain ⟨t, hnext, -⟩ := Option.bind_eq_some_iff.mp hvalid
    obtain ⟨ending, s', hending, hnondecreasing, hafter, hnot⟩ := not_bounded_of_crowded
      (nondecreasing_of_append hsteps) hfirst hnext hmissing hpassed (not_lt.mp hcrowded)
    exact hnot (h _ rest ending s' (by rw [hsplit, List.append_cons]) hending hnondecreasing hafter)
  · intro h first rest ending s hsplit hending hnondecreasing hafter
    rw [hsplit] at h
    exact (bounded_of_uncrowded hnondecreasing (uncrowded_of_ending h hending) hafter).1

/-! ## 7. Audits -/

omit [DecidableEq ι] in
/-- A miss is audited when it makes the misses of its window as many as the limit. -/
theorem registerMiss_fst {s : State ι} {readings : List ℚ} (htracked : Tracked l s readings)
    {now : ℚ} (hnow : ∀ t ∈ readings, t ≤ now) (appended : ℚ) :
    (l.registerMiss now appended s.misses).1 =
      decide ((s.answered.filter (now - l.windowSeconds < ·)).length < l.limit ∧
        l.limit ≤ (s.answered.filter (now - l.windowSeconds < ·)).length + 1) := by
  rw [MissLimits.registerMiss, htracked.activeMisses_eq hnow]
  rw [Bool.eq_iff_iff]
  simp

theorem audits_after {steps : List (Step ι)} {s s' : State ι} {readings : List ℚ}
    (htracked : Tracked l s readings) (hsteps : Nondecreasing steps)
    (hlater : ∀ t ∈ readings, ∀ t' ∈ steps.flatMap Step.readings, t ≤ t')
    (hafter : after l source document steps s = some s') :
    s'.audits =
      s.audits ++ List.replicate (rises l s.answered steps) (probeEvent l source) := by
  induction steps generalizing s readings with
  | nil =>
    obtain rfl := Option.some.inj hafter
    exact (List.append_nil _).symm
  | cons step steps ih =>
    rw [Nondecreasing, List.flatMap_cons, List.pairwise_append] at hsteps
    obtain ⟨hsorted, hsteps, hcross⟩ := hsteps
    rw [List.flatMap_cons] at hlater
    have hlaterStep : ∀ t ∈ readings, ∀ t' ∈ step.readings, t ≤ t' :=
      fun t ht t' ht' => hlater t ht t' (List.mem_append_left _ ht')
    obtain ⟨t, hstep, hafter⟩ := Option.bind_eq_some_iff.mp hafter
    have hrest := ih (htracked.next hstep hsorted hlaterStep) hsteps
      (fun u hu t' ht' => by
        rcases List.mem_append.mp hu with hu | hu
        · exact hlater u hu t' (List.mem_append_right _ ht')
        · exact hcross u hu t' ht') hafter
    rw [hrest]
    cases step with
    | isLimited scan now =>
      simp only [next] at hstep
      split at hstep
      · cases hstep
      · obtain rfl := Option.some.inj hstep
        rfl
    | lookup scan =>
      simp only [next] at hstep
      split at hstep
      · obtain rfl := Option.some.inj hstep
        rfl
      · cases hstep
    | registerMiss scan now appended =>
      have hfirst := registerMiss_fst htracked
        (fun t ht => hlaterStep t ht now (List.mem_cons_self ..)) appended
      simp only [next] at hstep
      split at hstep
      · obtain rfl := Option.some.inj hstep
        dsimp only [rises]
        rw [hfirst, List.replicate_add, ← List.append_assoc]
        congr 1
        split
        · next hrise => rw [if_pos (of_decide_eq_true hrise)]; rfl
        · next hrise => rw [if_neg (by simpa using hrise)]; exact (List.append_nil _).symm
      · cases hstep

end Scans

/-! ### Two scans at once -/

/-- One miss in ten minutes. -/
def oneMiss : MissLimits := ⟨1, 600, by decide, by decide⟩

/-- Two scans are let through before either registers its miss. -/
def twoAtOnce : Run oneMiss "192.0.2.7" fun _ : Bool => .missing where
  steps := [.isLimited true 0, .isLimited false 0, .lookup true, .lookup false,
    .registerMiss true 0 0, .registerMiss false 0 0]
  state :=
    { misses := [0, 0], answered := [0, 0], audits := [probeEvent oneMiss "192.0.2.7"] }
  nondecreasing := by decide +kernel
  valid := by decide +kernel

end Public

end ProductPdfQr
