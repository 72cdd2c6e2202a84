/-
# Which observation of a job counts

`GhReviewGateData.commit_ci` reads two lists of pages, the check runs of a commit and its
statuses, and keeps one observation for each required job.  The choice is a fold that replaces
what it holds by anything strictly greater; without equal identifiers no two observations are
equally great, so the order of the pages does not matter.
-/
import ProductPdfQr.Json.Codec
import ProductPdfQr.ReviewGate.Noninterference
import ProductPdfQr.Text

namespace ProductPdfQr.ReviewGate

/-! ## 1. Observations -/

/-- The whole of a `CIObservation`. -/
structure JobObservation where
  name : String
  state : String
  source : String
  observedAt : Int
  observationId : Int
  deriving DecidableEq, Repr

/-- What the gate reads of it. -/
def JobObservation.observation (o : JobObservation) : CIObservation := ⟨o.state⟩

/-- `TERMINAL_CI_STATES`. -/
def terminalCiStates : List String :=
  ["action_required", "cancelled", "error", "failure", "neutral", "skipped", "stale",
    "startup_failure", "success", "timed_out"]

def JobObservation.terminal (o : JobObservation) : Bool := o.state ∈ terminalCiStates

/-- The comparison `>` of the two triples. -/
def JobObservation.newer (o current : JobObservation) : Bool :=
  if o.terminal ≠ current.terminal then o.terminal
  else if o.observedAt ≠ current.observedAt then current.observedAt < o.observedAt
  else current.observationId < o.observationId

/-- One turn of the loop, over the dict so far, read by job. -/
def keepNewer (latest : String → Option JobObservation) (o : JobObservation) :
    String → Option JobObservation :=
  match latest o.name with
  | none => Function.update latest o.name (some o)
  | some current => if o.newer current then Function.update latest o.name (some o) else latest

/-- `_latest_observations`. -/
def latestObservations (observations : List JobObservation) : String → Option JobObservation :=
  observations.foldl keepNewer fun _ => none

/-! ## 2. Reading the pages -/

/-- What the reader takes from Python: the parser of timestamps, which gives an instant only
for aware ones, and `str` of a value that is no text. -/
structure PageReader where
  fromisoformat : String → Option (Option Int)
  str : Json → String

variable (py : PageReader)

def requiredText (data : Json) (key : String) : Gate String :=
  match data.get key with
  | .str value =>
    if value = "" then refuse ("GitHub response is missing required field " ++ key)
    else .ok value
  | _ => refuse ("GitHub response is missing required field " ++ key)

def requiredInt (data : Json) (key : String) : Gate Int :=
  match data.get key with
  | .int value => .ok value
  | _ => refuse ("GitHub response is missing required integer field " ++ key)

def requiredSha (data : Json) (key : String) : Gate String := do
  let value ← requiredText data key
  require (Text.isHex 40 value) ("GitHub field " ++ key ++ " is not a full lowercase commit SHA")
  pure value

/-- `value.replace("Z", "+00:00")`. -/
def spellUtc (value : String) : String :=
  String.ofList (value.toList.flatMap fun c => if c = 'Z' then "+00:00".toList else [c])

def parseDatetime (value key : String) : Gate Int :=
  match py.fromisoformat (spellUtc value) with
  | none => refuse ("GitHub field " ++ key ++ " is not an ISO-8601 timestamp")
  | some none => refuse ("GitHub field " ++ key ++ " is not timezone-aware")
  | some (some instant) => .ok instant

/-- `a or b`. -/
def pyOr (a b : Json) : Json := if a.truthy then a else b

def optionalDatetime (data : Json) (key fallbackKey : String) : Gate Int :=
  match pyOr (pyOr (data.get key) (data.get fallbackKey)) (data.get "created_at") with
  | .str value =>
    if value = "" then
      refuse ("GitHub response is missing timestamp fields " ++ key ++ ", " ++ fallbackKey ++
        ", and created_at")
    else parseDatetime py value key
  | _ =>
    refuse ("GitHub response is missing timestamp fields " ++ key ++ ", " ++ fallbackKey ++
      ", and created_at")

/-- `str(value or "")`. -/
def textOr (value : Json) : String :=
  match pyOr value (.str "") with
  | .str text => text
  | other => py.str other

/-- One item of `check_runs`. -/
def checkObservation (sha : String) (item : Json) : Gate JobObservation := do
  require item.isDict ("GitHub commit " ++ sha ++ " returned an invalid check run")
  let head ← requiredSha item "head_sha"
  require (head = sha) ("GitHub returned a check for the wrong SHA " ++ sha)
  let name ← requiredText item "name"
  let state :=
    if (item.get "status").pyEq (.str "completed") then textOr py (item.get "conclusion")
    else textOr py (item.get "status")
  let observedAt ← optionalDatetime py item "completed_at" "started_at"
  let observationId ← requiredInt item "id"
  pure { name, state, source := "check", observedAt, observationId }

/-- `_check_observations`. -/
def checkObservations (pages : List Json) (sha : String) : Gate (List JobObservation) := do
  let read ← pages.mapM fun page => do
    require page.isDict ("GitHub returned invalid check runs for " ++ sha)
    require (page.get "check_runs").isList
      ("GitHub commit " ++ sha ++ " did not return check runs")
    (page.get "check_runs").items.mapM (checkObservation py sha)
  pure read.flatten

/-- One item of `statuses`. -/
def statusObservation (sha : String) (item : Json) : Gate JobObservation := do
  require item.isDict ("GitHub commit " ++ sha ++ " returned an invalid status")
  let name ← requiredText item "context"
  let state ← requiredText item "state"
  let observedAt ← optionalDatetime py item "updated_at" "created_at"
  let observationId ← requiredInt item "id"
  pure { name, state, source := "status", observedAt, observationId }

/-- `_status_observations`. -/
def statusObservations (pages : List Json) (sha : String) : Gate (List JobObservation) := do
  let read ← pages.mapM fun page => do
    require page.isDict ("GitHub returned invalid statuses for " ++ sha)
    let pageSha ← requiredSha page "sha"
    require (pageSha = sha) ("GitHub returned statuses for the wrong SHA " ++ sha)
    require (page.get "statuses").isList ("GitHub commit " ++ sha ++ " did not return statuses")
    (page.get "statuses").items.mapM (statusObservation py sha)
  pure read.flatten

/-- What the dict of `commit_ci` has for a job. -/
def chosen (checks statuses : List JobObservation) (job : String) : Option JobObservation :=
  (latestObservations checks job).or (latestObservations statuses job)

/-- `commit_ci`, on the pages that GitHub answered. -/
def commitCi (checksPages statusesPages : List Json) (sha : String) :
    Gate (List (String × JobObservation)) := do
  let checks ← checkObservations py checksPages sha
  let statuses ← statusObservations py statusesPages sha
  pure (sortedJobs.filterMap fun job =>
    (chosen checks statuses job).map (job, ·))

/-! ## 3. The fold keeps the greatest -/

/-- The triple that is compared. -/
def JobObservation.rank (o : JobObservation) : Bool ×ₗ (Int ×ₗ Int) :=
  toLex (o.terminal, toLex (o.observedAt, o.observationId))

theorem rank_lt {a b : JobObservation} :
    a.rank < b.rank ↔ (a.terminal = false ∧ b.terminal = true) ∨
      (a.terminal = b.terminal ∧ (a.observedAt < b.observedAt ∨
        (a.observedAt = b.observedAt ∧ a.observationId < b.observationId))) := by
  simp only [JobObservation.rank, Prod.Lex.toLex_lt_toLex, Bool.lt_iff]

theorem newer_iff {o current : JobObservation} : o.newer current = true ↔ current.rank < o.rank := by
  rw [rank_lt]
  unfold JobObservation.newer
  cases hterminal : o.terminal <;> cases hcurrent : current.terminal <;>
    by_cases htime : o.observedAt = current.observedAt <;> simp [htime] <;> omega

theorem keepNewer_none {latest : String → Option JobObservation} {o : JobObservation}
    (h : latest o.name = none) : keepNewer latest o o.name = some o := by
  simp [keepNewer, h]

theorem keepNewer_some {latest : String → Option JobObservation} {o current : JobObservation}
    (h : latest o.name = some current) :
    keepNewer latest o o.name = some (if current.rank < o.rank then o else current) := by
  by_cases hnewer : o.newer current = true
  · simp [keepNewer, h, hnewer, newer_iff.mp hnewer]
  · simp [keepNewer, h, hnewer, mt newer_iff.mpr hnewer]

/-- The other jobs keep what they have. -/
theorem keepNewer_other {latest : String → Option JobObservation} {o : JobObservation}
    {job : String} (h : o.name ≠ job) : keepNewer latest o job = latest job := by
  have hkeep : Function.update latest o.name (some o) job = latest job :=
    Function.update_of_ne (fun heq => h heq.symm) (some o) latest
  cases hlatest : latest o.name with
  | none => simpa [keepNewer, hlatest] using hkeep
  | some current =>
    by_cases hnewer : o.newer current = true
    · simpa [keepNewer, hlatest, hnewer] using hkeep
    · simp [keepNewer, hlatest, hnewer]

/-- The dict has, for each job, the first of the greatest observations of that job. -/
theorem latest_argmax (observations : List JobObservation) (job : String) :
    latestObservations observations job =
      (observations.filter fun o => o.name = job).argmax JobObservation.rank := by
  induction observations using List.reverseRecOn with
  | nil => rfl
  | append_singleton rest o ih =>
    have hfold : latestObservations (rest ++ [o]) = keepNewer (latestObservations rest) o :=
      List.foldl_concat ..
    rw [hfold, List.filter_append]
    by_cases hname : o.name = job
    · subst hname
      have hlast : [o].filter (fun p => p.name = o.name) = [o] := by simp
      rw [hlast, List.argmax_concat, ← ih]
      cases hlatest : latestObservations rest o.name with
      | none => exact keepNewer_none hlatest
      | some current =>
        rw [keepNewer_some hlatest]
        exact apply_ite some _ _ _
    · have hlast : [o].filter (fun p => p.name = job) = [] := by simp [hname]
      rw [hlast, List.append_nil, ← ih, keepNewer_other hname]

/-- The identifiers tell the observations of one source apart. -/
def DistinctIds (observations : List JobObservation) : Prop :=
  (observations.map JobObservation.observationId).Nodup

theorem DistinctIds.untied {observations : List JobObservation} (h : DistinctIds observations) :
    Untied JobObservation.rank observations := by
  intro a ha b hb hrank
  have hid : a.observationId = b.observationId := by
    simp only [JobObservation.rank, EmbeddingLike.apply_eq_iff_eq, Prod.mk.injEq] at hrank
    exact hrank.2.2
  exact List.inj_on_of_nodup_map h ha hb hid

theorem latest_perm {observations observations' : List JobObservation}
    (hperm : observations.Perm observations') (hdistinct : DistinctIds observations) :
    latestObservations observations = latestObservations observations' := by
  funext job
  rw [latest_argmax, latest_argmax]
  exact argmax_perm (hperm.filter _) (hdistinct.untied.filter _)

/-- The observation of a job that counts: a terminal one if there is one, and among its like
the newest by time, then by identifier. -/
structure Newest (observations : List JobObservation) (job : String) (o : JobObservation) :
    Prop where
  mem : o ∈ observations
  name : o.name = job
  terminal : ∀ p ∈ observations, p.name = job → p.terminal = true → o.terminal = true
  newest : ∀ p ∈ observations, p.name = job → p.terminal = o.terminal → p ≠ o →
    p.observedAt < o.observedAt ∨
      (p.observedAt = o.observedAt ∧ p.observationId < o.observationId)

/-- Two different observations of one source are never equally great. -/
theorem rank_lt_of_le {observations : List JobObservation} (hdistinct : DistinctIds observations)
    {p o : JobObservation} (hp : p ∈ observations) (ho : o ∈ observations) (hne : p ≠ o)
    (hle : p.rank ≤ o.rank) : p.rank < o.rank :=
  lt_of_le_of_ne hle fun heq => hne (hdistinct.untied p hp o ho heq)

theorem latest_eq_some {observations : List JobObservation} (hdistinct : DistinctIds observations)
    {job : String} {o : JobObservation} :
    latestObservations observations job = some o ↔ Newest observations job o := by
  rw [latest_argmax]
  constructor
  · intro hmax
    have hmem := List.mem_filter.mp (List.argmax_mem hmax)
    have hle : ∀ p ∈ observations, p.name = job → p.rank ≤ o.rank := fun p hp hname =>
      List.le_of_mem_argmax (List.mem_filter.mpr ⟨hp, by simpa using hname⟩) hmax
    refine ⟨hmem.1, by simpa using hmem.2, ?_, ?_⟩
    · intro p hp hname hterminal
      rcases eq_or_ne p o with rfl | hne
      · exact hterminal
      · rcases rank_lt.mp (rank_lt_of_le hdistinct hp hmem.1 hne (hle p hp hname)) with h | h
        · exact h.2
        · rw [← h.1, hterminal]
    · intro p hp hname hsame hne
      rcases rank_lt.mp (rank_lt_of_le hdistinct hp hmem.1 hne (hle p hp hname)) with h | h
      · rw [h.1, h.2] at hsame
        cases hsame
      · exact h.2
  · intro h
    have ho : o ∈ observations.filter fun p => p.name = job :=
      List.mem_filter.mpr ⟨h.mem, by simpa using h.name⟩
    cases hmax : (observations.filter fun p => p.name = job).argmax JobObservation.rank with
    | none => simp [List.argmax_eq_none.mp hmax] at ho
    | some m =>
      have hm := List.mem_filter.mp (List.argmax_mem hmax)
      have hname : m.name = job := by simpa using hm.2
      have hle : o.rank ≤ m.rank := List.le_of_mem_argmax ho hmax
      refine congrArg some (by_contra fun hne => not_lt_of_ge hle (rank_lt.mpr ?_))
      -- Had the fold kept another one, it would be smaller than `o`.
      cases hterminal : m.terminal with
      | false =>
        cases ho' : o.terminal with
        | true => exact .inl ⟨rfl, rfl⟩
        | false =>
          exact .inr ⟨rfl, h.newest m hm.1 hname (by rw [hterminal, ho']) hne⟩
      | true =>
        have ho' := h.terminal m hm.1 hname hterminal
        exact .inr ⟨by rw [ho'], h.newest m hm.1 hname (by rw [hterminal, ho']) hne⟩

theorem latest_eq_none {observations : List JobObservation} {job : String} :
    latestObservations observations job = none ↔ ∀ o ∈ observations, o.name ≠ job := by
  rw [latest_argmax, List.argmax_eq_none, List.filter_eq_nil_iff]
  simp

/-! ## 4. The choice -/

theorem chosen_eq_some {checks statuses : List JobObservation} (hchecks : DistinctIds checks)
    (hstatuses : DistinctIds statuses) {job : String} {o : JobObservation} :
    chosen checks statuses job = some o ↔
      Newest checks job o ∨ ((∀ c ∈ checks, c.name ≠ job) ∧ Newest statuses job o) := by
  unfold chosen
  rw [Option.or_eq_some_iff, latest_eq_some hchecks, latest_eq_none, latest_eq_some hstatuses]

/-- **The order of the observations does not matter.**  Two answers with the same check runs
and the same statuses, in whatever order, give the same jobs; a job's check runs come before
its statuses, and within one source its newest terminal observation counts. -/
theorem commit_ci_order_free {checksPages checksPages' statusesPages statusesPages' : List Json}
    {sha : String} {checks checks' statuses statuses' : List JobObservation}
    (hchecks : checkObservations py checksPages sha = .ok checks)
    (hchecks' : checkObservations py checksPages' sha = .ok checks')
    (hstatuses : statusObservations py statusesPages sha = .ok statuses)
    (hstatuses' : statusObservations py statusesPages' sha = .ok statuses')
    (hsame : checks.Perm checks') (hsame' : statuses.Perm statuses')
    (hdistinct : DistinctIds checks) (hdistinct' : DistinctIds statuses) :
    ∃ ci, commitCi py checksPages statusesPages sha = .ok ci ∧
      commitCi py checksPages' statusesPages' sha = .ok ci ∧
      ∀ job o, (job, o) ∈ ci ↔ job ∈ requiredCiJobs ∧
        (Newest checks job o ∨ ((∀ c ∈ checks, c.name ≠ job) ∧ Newest statuses job o)) := by
  refine ⟨sortedJobs.filterMap fun job =>
    (chosen checks statuses job).map (job, ·), ?_, ?_, ?_⟩
  · simp only [commitCi, hchecks, hstatuses]
    rfl
  · have hchosen : chosen checks statuses = chosen checks' statuses' := by
      funext job
      unfold chosen
      rw [latest_perm hsame hdistinct, latest_perm hsame' hdistinct']
    simp only [commitCi, hchecks', hstatuses', hchosen]
    rfl
  · intro job o
    rw [← chosen_eq_some hdistinct hdistinct', List.mem_filterMap]
    constructor
    · rintro ⟨job', hjob', hmap⟩
      obtain ⟨o', ho', heq⟩ := Option.map_eq_some_iff.mp hmap
      obtain ⟨rfl, rfl⟩ := Prod.mk.inj heq
      exact ⟨(Finset.mem_sort _).mp hjob', ho'⟩
    · rintro ⟨hjob, ho⟩
      exact ⟨job, (Finset.mem_sort _).mpr hjob, by rw [ho]; rfl⟩

/-- A commit with a run that failed after one still queued, answered in two orders. -/
def runPages (runs : List Json) : List Json := [.obj [("check_runs", .arr runs)]]

def runJson (id : Int) (status conclusion : Json) : Json :=
  .obj [("head_sha", .str "0123456789abcdef0123456789abcdef01234567"), ("name", .str "quality"),
    ("id", .int id), ("created_at", .str "2026-01-01T00:00:00Z"), ("status", status),
    ("conclusion", conclusion)]

def failedRun : Json := runJson 1 (.str "completed") (.str "failure")

def queuedRun : Json := runJson 2 (.str "queued") .null

def oneInstant : PageReader where
  fromisoformat := fun _ => some (some 0)
  str := fun _ => ""

theorem commit_ci_order_free_two_runs :
    ∃ ci, commitCi oneInstant (runPages [failedRun, queuedRun]) []
        "0123456789abcdef0123456789abcdef01234567" = .ok ci ∧
      commitCi oneInstant (runPages [queuedRun, failedRun]) []
        "0123456789abcdef0123456789abcdef01234567" = .ok ci ∧
      ("quality", ⟨"quality", "failure", "check", 0, 1⟩) ∈ ci := by
  have hread : checkObservations oneInstant (runPages [failedRun, queuedRun])
      "0123456789abcdef0123456789abcdef01234567" =
      .ok [⟨"quality", "failure", "check", 0, 1⟩, ⟨"quality", "queued", "check", 0, 2⟩] := by
    decide
  have hread' : checkObservations oneInstant (runPages [queuedRun, failedRun])
      "0123456789abcdef0123456789abcdef01234567" =
      .ok [⟨"quality", "queued", "check", 0, 2⟩, ⟨"quality", "failure", "check", 0, 1⟩] := by
    decide
  have hnone : statusObservations oneInstant [] "0123456789abcdef0123456789abcdef01234567" =
      .ok [] := rfl
  obtain ⟨ci, hci, hci', hmem⟩ :=
    commit_ci_order_free oneInstant hread hread' hnone hnone (.swap ..) .rfl
      (by simp [DistinctIds]) (by simp [DistinctIds])
  refine ⟨ci, hci, hci', (hmem _ _).mpr ⟨by decide, .inl ⟨by decide, rfl, ?_, ?_⟩⟩⟩
  · decide
  · decide

end ProductPdfQr.ReviewGate
