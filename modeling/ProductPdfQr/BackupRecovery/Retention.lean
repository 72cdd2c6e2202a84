/-
# Retention

A recovery point is kept for its day, its week or its month, as its generations say and as long
as the time of each lasts, or because it is the only verified one.  The three times are measured
differently: fourteen days and eight weeks back on the local clock, and six calendar months.

`reasons_sublist` is all that a later run needs: as time passes a point only ever loses reasons.
So a rotation that is interrupted after it wrote its journals can be taken up again at any later
time.
-/
import ProductPdfQr.BackupRecovery.Generations
import ProductPdfQr.Text
import Mathlib.Data.List.Nodup
import Mathlib.Data.Set.BooleanAlgebra
import Mathlib.Order.CompletePartialOrder
import Mathlib.Order.Monotone.Defs

namespace ProductPdfQr

namespace Calendar

/-! ## 1. Months in order -/

theorem monthOf_mono (leap : Bool) {r r' : Nat} (h : r ≤ r') : monthOf leap r ≤ monthOf leap r' :=
  (List.monotone_filter_right _ fun _ hm =>
    decide_eq_true (le_trans (of_decide_eq_true hm) h)).length_le

theorem yearOf_mono {n n' : Nat} (h : n ≤ n') : yearOf n ≤ yearOf n' := by
  obtain ⟨-, hlo, -⟩ := yearOf_bracket n
  obtain ⟨-, -, hhi⟩ := yearOf_bracket n'
  by_contra hlt
  have := daysBeforeYear_mono (Nat.succ_le_of_lt (not_le.mp hlt))
  rw [Nat.succ_eq_add_one] at this
  omega

/-- The months since the start of year 0. -/
def monthIndex (day : Nat) : Nat := (date day).year * 12 + (date day).month

theorem monthIndex_mono {n n' : Nat} (h : n ≤ n') : monthIndex n ≤ monthIndex n' := by
  obtain ⟨⟨-, -, hmonth, -⟩, -⟩ := date_spec n
  obtain ⟨⟨-, hmonth', -⟩, -⟩ := date_spec n'
  unfold monthIndex
  rcases Nat.lt_or_eq_of_le (yearOf_mono h) with hyear | hyear
  · change yearOf n * 12 + (date n).month ≤ yearOf n' * 12 + (date n').month
    omega
  · have hrest : monthOf (isLeap (yearOf n)) (n - daysBeforeYear (yearOf n)) ≤
        monthOf (isLeap (yearOf n)) (n' - daysBeforeYear (yearOf n)) :=
      monthOf_mono _ (Nat.sub_le_sub_right h _)
    change yearOf n * 12 + monthOf (isLeap (yearOf n)) (n - daysBeforeYear (yearOf n)) ≤
      yearOf n' * 12 + monthOf (isLeap (yearOf n')) (n' - daysBeforeYear (yearOf n'))
    rw [← hyear]
    omega

end Calendar

namespace BackupRecovery

open Calendar

/-! ## 2. Decisions -/

/-- What of a completion marker decides over its point. -/
structure RecoveryPoint where
  backupId : String
  frozenAt : Instant
  generations : List String
  deriving DecidableEq

/-- What is answered for a point: `keep:` with its reasons, `delete:expired_all`, and in a
rotation `delete:resuming` or `delete:finalizing`. -/
inductive Decision
  | keep (reasons : List String)
  | deleteExpiredAll
  | deleteResuming
  | deleteFinalizing
  deriving DecidableEq

inductive RetentionError
  /-- `OverflowError`: a date outside of the years 1 to 9999. -/
  | overflow
  /-- `SafetyError`. -/
  | safety (message : String)
  deriving DecidableEq

abbrev Decisions := String → Option Decision

/-- `i.astimezone(ZoneInfo("Asia/Shanghai"))`. -/
def localTime (i : Instant) : Except RetentionError Nat :=
  if shanghai i < endOfTime then .ok (shanghai i) else .error .overflow

/-- `local - timedelta(days=days)`. -/
def daysBefore (localNow days : Nat) : Except RetentionError Nat :=
  if localNow < days * dayMicros then .error .overflow else .ok (localNow - days * dayMicros)

/-- What the points are compared with. -/
structure Cutoffs where
  daily : Nat
  weekly : Nat
  monthIndexNow : Nat

def cutoffsOf (localNow : Nat) : Except RetentionError Cutoffs :=
  match daysBefore localNow 14 with
  | .error e => .error e
  | .ok daily => match daysBefore localNow (8 * 7) with
    | .error e => .error e
    | .ok weekly => .ok ⟨daily, weekly, monthIndex (localNow / dayMicros)⟩

def cutoffs (now : Instant) : Except RetentionError Cutoffs := (localTime now).bind cutoffsOf

/-- The generations of a point, those of its time if it names none. -/
def RecoveryPoint.tags (point : RecoveryPoint) : List String :=
  if point.generations.isEmpty then tagsOfDay (shanghai point.frozenAt / dayMicros)
  else point.generations

section Decide

variable (c : Cutoffs) (uniqueVerifiedBackupId : Option String)

/-- The reasons to keep a point. -/
def reasons (point : RecoveryPoint) : List String :=
  let frozen := shanghai point.frozenAt
  let day := frozen / dayMicros
  let monthAge : Int := c.monthIndexNow - monthIndex day
  (if dailyTag day ∈ point.tags ∧ c.daily < frozen then ["daily"] else []) ++
  (if point.tags.any (Text.startsWith · "weekly:") ∧ c.weekly < frozen then ["weekly"] else []) ++
  (if point.tags.any (Text.startsWith · "monthly:") ∧ monthAge < 6 then ["monthly"] else []) ++
  (if some point.backupId = uniqueVerifiedBackupId then ["unique_verified"] else [])

def decision (point : RecoveryPoint) : Decision :=
  let kept := reasons c uniqueVerifiedBackupId point
  if kept.isEmpty then .deleteExpiredAll else .keep kept

/-- What of a point may raise. -/
def checkPoint (point : RecoveryPoint) : Except RetentionError Unit :=
  if Text.isBackupId point.backupId then (localTime point.frozenAt).map fun _ => ()
  else .error (.safety "invalid backup_id")

/-- The loop of `retention_decisions`. -/
def decideFrom : List RecoveryPoint → Decisions → Except RetentionError Decisions
  | [], result => .ok result
  | point :: points, result =>
    match checkPoint point with
    | .error e => .error e
    | .ok () => decideFrom points
        (Function.update result point.backupId (some (decision c uniqueVerifiedBackupId point)))

end Decide

/-- `retention_decisions`. -/
def retentionDecisions (points : List RecoveryPoint) (now : Instant)
    (uniqueVerifiedBackupId : Option String) : Except RetentionError Decisions :=
  (cutoffs now).bind fun c => decideFrom c uniqueVerifiedBackupId points fun _ => none

/-! ## 3. Rotations -/

/-- `marker_by_id` and `journal_by_id`: the records, each under its own id. -/
structure Records where
  points : List RecoveryPoint
  unique : (points.map RecoveryPoint.backupId).Nodup

def Records.ids (records : Records) : List String := records.points.map RecoveryPoint.backupId

/-- `marker_by_id | journal_by_id`. -/
def allMarkers (markers journals : Records) : List RecoveryPoint :=
  markers.points.map (fun marker =>
    (journals.points.find? (·.backupId = marker.backupId)).getD marker) ++
  journals.points.filter fun journal => journal.backupId ∉ markers.ids

/-- The decisions of `rotate`, up to where it starts to write and to delete. -/
def rotateDecisions (markers journals : Records) (finalizing : List String) (now : Instant)
    (protectedVerified : Option String) : Except RetentionError Decisions :=
  if protectedVerified.any (· ∈ journals.ids) then
    .error (.safety
      "protected verified point has a deletion journal; object integrity is unproven")
  else (retentionDecisions (allMarkers markers journals) now protectedVerified).bind
      fun decisions =>
    if journals.ids.all fun id => decisions id = some .deleteExpiredAll then
      .ok fun id =>
        if id ∈ finalizing then some .deleteFinalizing
        else if id ∈ journals.ids then some .deleteResuming
        else decisions id
    else .error (.safety "deletion journal no longer satisfies retention policy")

/-- `deleted`: what a run writes journals of. -/
def deleted (markers journals : Records) (decisions : Decisions) : List RecoveryPoint :=
  markers.points.filter fun marker =>
    marker.backupId ∉ journals.ids ∧ decisions marker.backupId = some .deleteExpiredAll

/-! ## 4. Time passes -/

/-- A time that the business timezone has. -/
structure BusinessTime where
  instant : Instant
  inRange : shanghai instant < endOfTime

instance : Preorder BusinessTime := Preorder.lift fun t => t.instant.micros

/-- The ids that are marked for deletion at a time. -/
def marked (points : List RecoveryPoint) (uniqueVerifiedBackupId : Option String)
    (t : BusinessTime) : Set String :=
  {id | ∃ decisions, retentionDecisions points t.instant uniqueVerifiedBackupId = .ok decisions ∧
    decisions id = some .deleteExpiredAll}

/-- A run at the time wrote the journal. -/
def WrittenAt (protectedVerified : Option String) (journal : RecoveryPoint) (t : BusinessTime) :
    Prop :=
  ∃ markers journals finalizing decisions,
    rotateDecisions markers journals finalizing t.instant protectedVerified = .ok decisions ∧
      journal ∈ deleted markers journals decisions

def Cutoffs.Le (c c' : Cutoffs) : Prop :=
  c.daily ≤ c'.daily ∧ c.weekly ≤ c'.weekly ∧ c.monthIndexNow ≤ c'.monthIndexNow

theorem daysBefore_mono {localNow localNow' days : Nat} (h : localNow ≤ localNow') {cutoff : Nat}
    (hcutoff : daysBefore localNow days = .ok cutoff) :
    ∃ cutoff', daysBefore localNow' days = .ok cutoff' ∧ cutoff ≤ cutoff' := by
  unfold daysBefore at hcutoff ⊢
  split at hcutoff
  · cases hcutoff
  · obtain rfl := Except.ok.inj hcutoff
    exact ⟨_, if_neg (by omega), Nat.sub_le_sub_right h _⟩

theorem cutoffsOf_mono {localNow localNow' : Nat} (h : localNow ≤ localNow') {c : Cutoffs}
    (hc : cutoffsOf localNow = .ok c) : ∃ c', cutoffsOf localNow' = .ok c' ∧ c.Le c' := by
  unfold cutoffsOf at hc ⊢
  cases hdaily : daysBefore localNow 14 with
  | error e =>
    rw [hdaily] at hc
    cases hc
  | ok daily =>
    cases hweekly : daysBefore localNow (8 * 7) with
    | error e =>
      rw [hdaily, hweekly] at hc
      cases hc
    | ok weekly =>
      obtain ⟨daily', hdaily', hle⟩ := daysBefore_mono h hdaily
      obtain ⟨weekly', hweekly', hle'⟩ := daysBefore_mono h hweekly
      rw [hdaily, hweekly] at hc
      rw [hdaily', hweekly']
      obtain rfl := Except.ok.inj hc
      exact ⟨_, rfl, hle, hle', monthIndex_mono (Nat.div_le_div_right h)⟩

theorem localTime_eq (t : BusinessTime) : localTime t.instant = .ok (shanghai t.instant) :=
  if_pos t.inRange

theorem ok_bind {ε α β : Type} (a : α) (f : α → Except ε β) : (Except.ok a).bind f = f a := rfl

theorem bind_eq_ok {ε α β : Type} {x : Except ε α} {f : α → Except ε β} {b : β}
    (h : x.bind f = .ok b) : ∃ a, x = .ok a ∧ f a = .ok b := by
  cases x with
  | error e => cases h
  | ok a => exact ⟨a, rfl, h⟩

theorem bind_eq_error {ε α β : Type} {x : Except ε α} {f : α → Except ε β} {e : ε}
    (h : x.bind f = .error e) : x = .error e ∨ ∃ a, x = .ok a ∧ f a = .error e := by
  cases x with
  | error e' => exact .inl (congrArg Except.error (Except.error.inj h))
  | ok a => exact .inr ⟨a, rfl, h⟩

theorem cutoffs_of_localTime {now : Instant} {localNow : Nat} (h : localTime now = .ok localNow) :
    cutoffs now = cutoffsOf localNow := by
  rw [cutoffs, h, ok_bind]

theorem cutoffs_eq (t : BusinessTime) : cutoffs t.instant = cutoffsOf (shanghai t.instant) :=
  cutoffs_of_localTime (localTime_eq t)

theorem cutoffs_mono {t t' : BusinessTime} (h : t ≤ t') {c : Cutoffs}
    (hc : cutoffs t.instant = .ok c) : ∃ c', cutoffs t'.instant = .ok c' ∧ c.Le c' := by
  have hmicros : t.instant.micros ≤ t'.instant.micros := h
  have hlocal : shanghai t.instant ≤ shanghai t'.instant := by
    unfold shanghai
    omega
  rw [cutoffs_eq] at hc ⊢
  exact cutoffsOf_mono hlocal hc

/-- As time passes a point only ever loses reasons. -/
theorem reasons_sublist {c c' : Cutoffs} (h : c.Le c') (unique : Option String)
    (point : RecoveryPoint) : (reasons c' unique point).Sublist (reasons c unique point) := by
  obtain ⟨hdaily, hweekly, hmonthly⟩ := h
  have hif : ∀ {p q : Prop} [Decidable p] [Decidable q] (reason : String), (p → q) →
      (if p then [reason] else []).Sublist (if q then [reason] else []) := by
    intro p q _ _ reason hpq
    by_cases hp : p
    · rw [if_pos hp, if_pos (hpq hp)]
    · rw [if_neg hp]
      exact List.nil_sublist _
  refine (((hif _ ?_).append (hif _ ?_)).append (hif _ ?_)).append (List.Sublist.refl _)
  · exact fun ⟨htag, hfrozen⟩ => ⟨htag, lt_of_le_of_lt hdaily hfrozen⟩
  · exact fun ⟨htag, hfrozen⟩ => ⟨htag, lt_of_le_of_lt hweekly hfrozen⟩
  · exact fun ⟨htag, hage⟩ => ⟨htag, by omega⟩

theorem decision_mono {c c' : Cutoffs} (h : c.Le c') {unique : Option String}
    {point : RecoveryPoint} (hdelete : decision c unique point = .deleteExpiredAll) :
    decision c' unique point = .deleteExpiredAll := by
  have hsub := reasons_sublist h unique point
  unfold decision at hdelete ⊢
  cases hreasons : reasons c unique point with
  | nil =>
    rw [hreasons, List.sublist_nil] at hsub
    rw [hsub]
    rfl
  | cons reason rest =>
    rw [hreasons] at hdelete
    cases hdelete

theorem decideFrom_mono {c c' : Cutoffs} (h : c.Le c') {unique : Option String}
    {points : List RecoveryPoint} {result result' decisions : Decisions}
    (hresult : ∀ id, result id = some .deleteExpiredAll → result' id = some .deleteExpiredAll)
    (hdecide : decideFrom c unique points result = .ok decisions) :
    ∃ decisions', decideFrom c' unique points result' = .ok decisions' ∧
      ∀ id, decisions id = some .deleteExpiredAll → decisions' id = some .deleteExpiredAll := by
  induction points generalizing result result' with
  | nil =>
    obtain rfl := Except.ok.inj hdecide
    exact ⟨result', rfl, hresult⟩
  | cons point points ih =>
    unfold decideFrom at hdecide ⊢
    cases hcheck : checkPoint point with
    | error e =>
      rw [hcheck] at hdecide
      cases hdecide
    | ok _ =>
      rw [hcheck] at hdecide
      refine ih (fun id hdelete => ?_) hdecide
      by_cases hsame : id = point.backupId
      · rw [hsame, Function.update_self] at hdelete ⊢
        rw [decision_mono h (Option.some.inj hdelete)]
      · rw [Function.update_of_ne hsame] at hdelete ⊢
        exact hresult id hdelete

theorem retentionDecisions_ok {points : List RecoveryPoint} {now : Instant}
    {unique : Option String} {decisions : Decisions}
    (h : retentionDecisions points now unique = .ok decisions) :
    ∃ c, cutoffs now = .ok c ∧ decideFrom c unique points (fun _ => none) = .ok decisions := by
  rw [retentionDecisions] at h
  exact bind_eq_ok h

theorem marked_mono (points : List RecoveryPoint) (unique : Option String) :
    Monotone (marked points unique) := by
  rintro t t' h id ⟨decisions, hdecisions, hdelete⟩
  obtain ⟨c, hc, hdecide⟩ := retentionDecisions_ok hdecisions
  obtain ⟨c', hc', hle⟩ := cutoffs_mono h hc
  obtain ⟨decisions', hdecide', hmarked⟩ := decideFrom_mono hle (fun _ h => h) hdecide
  refine ⟨decisions', ?_, hmarked id hdelete⟩
  rw [retentionDecisions, hc', ok_bind]
  exact hdecide'

/-! ## 5. Journals -/

/-- Where all the points of an id are one point, its decision is the one of that point. -/
theorem decideFrom_eq {c : Cutoffs} {unique : Option String} {point : RecoveryPoint}
    {points : List RecoveryPoint} {result decisions : Decisions}
    (hsame : ∀ p ∈ points, p.backupId = point.backupId → p = point)
    (hfound : point ∈ points ∨ result point.backupId = some (decision c unique point))
    (hdecide : decideFrom c unique points result = .ok decisions) :
    decisions point.backupId = some (decision c unique point) := by
  induction points generalizing result with
  | nil =>
    obtain rfl := Except.ok.inj hdecide
    exact hfound.resolve_left List.not_mem_nil
  | cons p points ih =>
    unfold decideFrom at hdecide
    cases hcheck : checkPoint p with
    | error e =>
      rw [hcheck] at hdecide
      cases hdecide
    | ok _ =>
      rw [hcheck] at hdecide
      refine ih (fun q hq => hsame q (List.mem_cons_of_mem _ hq)) ?_ hdecide
      by_cases hid : p.backupId = point.backupId
      · have hp := hsame p (List.mem_cons_self ..) hid
        right
        rw [hp, Function.update_self]
      · rcases hfound with hmem | hresult
        · rcases List.mem_cons.mp hmem with rfl | hmem
          · exact absurd rfl hid
          · exact .inl hmem
        · right
          rw [Function.update_of_ne (Ne.symm hid), hresult]

theorem retentionDecisions_eq {points : List RecoveryPoint} {unique : Option String}
    {now : Instant} {decisions : Decisions}
    (hdecisions : retentionDecisions points now unique = .ok decisions) {point : RecoveryPoint}
    (hmem : point ∈ points) (hsame : ∀ p ∈ points, p.backupId = point.backupId → p = point) :
    ∃ c, cutoffs now = .ok c ∧
      decisions point.backupId = some (decision c unique point) := by
  obtain ⟨c, hc, hdecide⟩ := retentionDecisions_ok hdecisions
  exact ⟨c, hc, decideFrom_eq hsame (.inl hmem) hdecide⟩

theorem Records.eq_of_id {records : Records} {p q : RecoveryPoint} (hp : p ∈ records.points)
    (hq : q ∈ records.points) (h : p.backupId = q.backupId) : p = q :=
  List.inj_on_of_nodup_map records.unique hp hq h

/-- Of an id that has a journal, the journal is what the decisions are made on. -/
theorem allMarkers_journal {markers journals : Records} {journal : RecoveryPoint}
    (hjournal : journal ∈ journals.points) :
    journal ∈ allMarkers markers journals ∧
      ∀ p ∈ allMarkers markers journals, p.backupId = journal.backupId → p = journal := by
  have hfind : ∀ marker : RecoveryPoint, marker.backupId = journal.backupId →
      journals.points.find? (·.backupId = marker.backupId) = some journal := by
    intro marker hid
    cases hfound : journals.points.find? (·.backupId = marker.backupId) with
    | none => exact absurd (by simpa using hid.symm) (List.find?_eq_none.mp hfound journal hjournal)
    | some q =>
      have hq : q.backupId = marker.backupId := by simpa using List.find?_some hfound
      rw [Records.eq_of_id (List.mem_of_find?_eq_some hfound) hjournal (hq.trans hid)]
  unfold allMarkers
  constructor
  · rw [List.mem_append]
    by_cases hmarker : journal.backupId ∈ markers.ids
    · obtain ⟨marker, hmem, hid⟩ := List.mem_map.mp hmarker
      exact .inl (List.mem_map.mpr ⟨marker, hmem, by rw [hfind marker hid, Option.getD_some]⟩)
    · exact .inr (List.mem_filter.mpr ⟨hjournal, by simpa using hmarker⟩)
  · intro p hp hid
    rcases List.mem_append.mp hp with hp | hp
    · obtain ⟨marker, hmem, rfl⟩ := List.mem_map.mp hp
      cases hfound : journals.points.find? (·.backupId = marker.backupId) with
      | none =>
        rw [hfound, Option.getD_none] at hid
        rw [hfind marker hid] at hfound
        cases hfound
      | some q =>
        rw [hfound, Option.getD_some] at hid
        exact Records.eq_of_id (List.mem_of_find?_eq_some hfound) hjournal hid
    · exact Records.eq_of_id (List.mem_filter.mp hp).1 hjournal hid

/-- Of an id that has none, the completion marker is. -/
theorem allMarkers_marker {markers journals : Records} {marker : RecoveryPoint}
    (hmarker : marker ∈ markers.points) (hnone : marker.backupId ∉ journals.ids) :
    marker ∈ allMarkers markers journals ∧
      ∀ p ∈ allMarkers markers journals, p.backupId = marker.backupId → p = marker := by
  have hnot : ∀ q ∈ journals.points, q.backupId ≠ marker.backupId :=
    fun q hq hid => hnone (List.mem_map.mpr ⟨q, hq, hid⟩)
  have hfind : journals.points.find? (·.backupId = marker.backupId) = none :=
    List.find?_eq_none.mpr fun q hq => by simpa using hnot q hq
  unfold allMarkers
  constructor
  · refine List.mem_append_left _ (List.mem_map.mpr ⟨marker, hmarker, ?_⟩)
    rw [hfind, Option.getD_none]
  · intro p hp hid
    rcases List.mem_append.mp hp with hp | hp
    · obtain ⟨other, hmem, rfl⟩ := List.mem_map.mp hp
      cases hfound : journals.points.find? (·.backupId = other.backupId) with
      | none =>
        rw [Option.getD_none]
        rw [hfound, Option.getD_none] at hid
        exact Records.eq_of_id hmem hmarker hid
      | some q =>
        rw [hfound, Option.getD_some] at hid
        exact absurd hid (hnot q (List.mem_of_find?_eq_some hfound))
    · exact absurd hid (hnot p (List.mem_filter.mp hp).1)

/-- A journal is written of a point that is marked. -/
theorem decision_of_written {protectedVerified : Option String} {journal : RecoveryPoint}
    {t : BusinessTime} (h : WrittenAt protectedVerified journal t) :
    ∃ c, cutoffs t.instant = .ok c ∧
      decision c protectedVerified journal = .deleteExpiredAll := by
  obtain ⟨markers, journals, finalizing, decisions, hrun, hdeleted⟩ := h
  obtain ⟨hmarker, hdelete⟩ := List.mem_filter.mp hdeleted
  obtain ⟨hnone, hmarked⟩ := of_decide_eq_true hdelete
  obtain ⟨hmem, hsame⟩ := allMarkers_marker hmarker hnone
  unfold rotateDecisions at hrun
  split at hrun
  · cases hrun
  · obtain ⟨all, hall, hrun⟩ := bind_eq_ok hrun
    split at hrun
    · obtain rfl := Except.ok.inj hrun
      obtain ⟨c, hc, hdecision⟩ := retentionDecisions_eq hall hmem hsame
      refine ⟨c, hc, ?_⟩
      dsimp only at hmarked
      by_cases hfinalizing : journal.backupId ∈ finalizing
      · rw [if_pos hfinalizing] at hmarked
        cases hmarked
      · rw [if_neg hfinalizing, if_neg hnone, hdecision] at hmarked
        exact Option.some.inj hmarked
    · cases hrun

theorem localTime_error {i : Instant} {e : RetentionError} (h : localTime i = .error e) :
    e = .overflow := by
  unfold localTime at h
  split at h
  · cases h
  · exact (Except.error.inj h).symm

theorem daysBefore_error {localNow days : Nat} {e : RetentionError}
    (h : daysBefore localNow days = .error e) : e = .overflow := by
  unfold daysBefore at h
  split at h
  · exact (Except.error.inj h).symm
  · cases h

theorem cutoffs_error {now : Instant} {e : RetentionError} (h : cutoffs now = .error e) :
    e = .overflow := by
  rw [cutoffs] at h
  rcases bind_eq_error h with hlocal | ⟨localNow, -, h⟩
  · exact localTime_error hlocal
  · unfold cutoffsOf at h
    cases hdaily : daysBefore localNow 14 with
    | error e' =>
      rw [hdaily] at h
      rw [← Except.error.inj h]
      exact daysBefore_error hdaily
    | ok daily =>
      cases hweekly : daysBefore localNow (8 * 7) with
      | error e' =>
        rw [hdaily, hweekly] at h
        rw [← Except.error.inj h]
        exact daysBefore_error hweekly
      | ok weekly =>
        rw [hdaily, hweekly] at h
        cases h

theorem decideFrom_error {c : Cutoffs} {unique : Option String} {points : List RecoveryPoint}
    {result : Decisions} {e : RetentionError}
    (h : decideFrom c unique points result = .error e) :
    e = .overflow ∨ e = .safety "invalid backup_id" := by
  induction points generalizing result with
  | nil => cases h
  | cons p points ih =>
    unfold decideFrom at h
    cases hcheck : checkPoint p with
    | error e' =>
      rw [hcheck] at h
      rw [← Except.error.inj h]
      unfold checkPoint at hcheck
      split at hcheck
      · cases hlocal : localTime p.frozenAt with
        | error e'' =>
          rw [hlocal] at hcheck
          rw [← Except.error.inj hcheck]
          exact .inl (localTime_error hlocal)
        | ok frozen =>
          rw [hlocal] at hcheck
          cases hcheck
      · exact .inr (Except.error.inj hcheck).symm
    | ok _ =>
      rw [hcheck] at h
      exact ih h

theorem retentionDecisions_error {points : List RecoveryPoint} {now : Instant}
    {unique : Option String} {e : RetentionError}
    (h : retentionDecisions points now unique = .error e) :
    e = .overflow ∨ e = .safety "invalid backup_id" := by
  rw [retentionDecisions] at h
  rcases bind_eq_error h with hc | ⟨c, -, hdecide⟩
  · exact .inl (cutoffs_error hc)
  · exact decideFrom_error hdecide

/-- What is marked for deletion at a time is marked at any later time; so no journal is refused,
at a later time and with the same protected point, for its point not being expired. -/
theorem retention_monotone :
    (∀ (points : List RecoveryPoint) (uniqueVerifiedBackupId : Option String),
      Monotone (marked points uniqueVerifiedBackupId)) ∧
    ∀ (protectedVerified : Option String) (t : BusinessTime) (markers journals : Records)
      (finalizing : List String),
      (∀ journal ∈ journals.points, ∃ earlier, earlier ≤ t ∧
        WrittenAt protectedVerified journal earlier) →
      rotateDecisions markers journals finalizing t.instant protectedVerified ≠
        .error (.safety "deletion journal no longer satisfies retention policy") := by
  refine ⟨marked_mono, ?_⟩
  intro protectedVerified t markers journals finalizing hwritten hrefused
  unfold rotateDecisions at hrefused
  split at hrefused
  · exact absurd (Except.error.inj hrefused) (by decide)
  · rcases bind_eq_error hrefused with hraised | ⟨decisions, hdecisions, hrefused⟩
    · rcases retentionDecisions_error hraised with hoverflow | hinvalid
      · cases hoverflow
      · exact absurd hinvalid (by decide)
    · split at hrefused
      · cases hrefused
      · rename_i hexpired
        refine hexpired (List.all_eq_true.mpr fun id hid => decide_eq_true ?_)
        obtain ⟨journal, hjournal, rfl⟩ := List.mem_map.mp hid
        obtain ⟨earlier, hle, hjournalWritten⟩ := hwritten journal hjournal
        obtain ⟨c, hc, hdelete⟩ := decision_of_written hjournalWritten
        obtain ⟨hmem, hsame⟩ := @allMarkers_journal markers journals journal hjournal
        obtain ⟨c', hc', hdecision⟩ := retentionDecisions_eq hdecisions hmem hsame
        obtain ⟨later, hlater, hcutoffs⟩ := cutoffs_mono hle hc
        obtain rfl : later = c' := Except.ok.inj (hlater.symm.trans hc')
        rw [hdecision, decision_mono hcutoffs hdelete]

end BackupRecovery

end ProductPdfQr
