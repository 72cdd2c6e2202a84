/-
# What untrusted input does to the review gate: nothing

Two inputs that agree on their trusted part, in any order, get the same answer.  The gate reads
two lists that others can write to.  Of the reviews only the latest of the trusted ones counts,
of the observations the latest of the exact ones and the latest compare among them, and the
latest of a list is the same in every order, as long as no two entries tie.
-/
import ProductPdfQr.ReviewGate.Soundness

namespace ProductPdfQr.ReviewGate

/-! ## 1. The latest entry -/

section Latest

variable {α β : Type} {f : α → β}

/-- No two entries of the list have the same key. -/
def Untied (f : α → β) (l : List α) : Prop := ∀ a ∈ l, ∀ b ∈ l, f a = f b → a = b

theorem Untied.filter {l : List α} (h : Untied f l) (p : α → Bool) : Untied f (l.filter p) :=
  fun a ha b hb => h a (List.mem_of_mem_filter ha) b (List.mem_of_mem_filter hb)

/-- Without ties, the latest entry does not depend on the order. -/
theorem argmax_perm [LinearOrder β] {l l' : List α} (hperm : l.Perm l') (huntied : Untied f l) :
    l.argmax f = l'.argmax f := by
  cases hl : l.argmax f with
  | none =>
    obtain rfl := List.argmax_eq_none.mp hl
    rw [List.nil_perm.mp hperm]
    rfl
  | some m =>
    cases hl' : l'.argmax f with
    | none =>
      obtain rfl := List.argmax_eq_none.mp hl'
      rw [List.perm_nil.mp hperm] at hl
      cases hl
    | some m' =>
      have hm := List.argmax_mem hl
      have hm' := hperm.mem_iff.mpr (List.argmax_mem hl')
      have hle : f m ≤ f m' := List.le_of_mem_argmax (hperm.mem_iff.mp hm) hl'
      have hge : f m' ≤ f m := List.le_of_mem_argmax hm' hl
      rw [huntied m hm m' hm' (le_antisymm hle hge)]

end Latest

/-! ## 2. Inputs that agree -/

/-- Both reads fail alike, or both answer, and the answers are related. -/
def Alike {α : Type} (R : α → α → Prop) : Gate α → Gate α → Prop
  | .ok a, .ok b => R a b
  | .error e, .error e' => e = e'
  | _, _ => False

theorem Alike.of_eq {α : Type} {R : α → α → Prop} {x y : Gate α} (heq : x = y)
    (hrefl : ∀ a, x = .ok a → R a a) : Alike R x y := by
  subst heq
  cases x with
  | error e => exact rfl
  | ok a => exact hrefl a rfl

theorem Alike.bind {α β : Type} {R : α → α → Prop} {S : β → β → Prop} {x y : Gate α}
    {f g : α → Gate β} (h : Alike R x y)
    (hf : ∀ a b, x = .ok a → y = .ok b → R a b → Alike S (f a) (g b)) :
    Alike S (x >>= f) (y >>= g) := by
  cases x with
  | error e =>
    cases y with
    | error e' => exact h
    | ok b => exact h.elim
  | ok a =>
    cases y with
    | error e' => exact h.elim
    | ok b => exact hf a b rfl rfl h

/-- The same read on both sides. -/
theorem Alike.step {α β : Type} {S : β → β → Prop} {x y : Gate α} {f g : α → Gate β}
    (heq : x = y) (hf : ∀ a, x = .ok a → Alike S (f a) (g a)) : Alike S (x >>= f) (y >>= g) := by
  refine Alike.bind (R := fun a b => a = b) (Alike.of_eq heq fun _ _ => rfl) ?_
  rintro a b hx - rfl
  exact hf a hx

/-- The reviews of `sha` that count. -/
def trustedReviews (ids : List Int) (sha : String) (reviews : List ReviewRecord) :
    List ReviewRecord :=
  reviews.filter fun r => r.commitId = sha && r.submitted && ids.contains r.authorId

/-- The observations that count. -/
def exactEvidence (initial : ReviewPullRequest) (sha : String)
    (evidence : List CumulativeEvidence) : List CumulativeEvidence :=
  evidence.filter (CumulativeEvidence.exact initial sha)

/-- `sha` is the last code commit that the gate finds. -/
def IsFinalCode (n : Nat) (github : ReviewGateData) (sha : String) : Prop :=
  ∃ commits classifications, github.pullRequestCommits n = .ok commits ∧
    commits.mapM ReviewCommit.classification = .ok classifications ∧
    finalCode (commits.zip classifications) = some sha

/-- Two inputs that differ only in what is not trusted, and in the order of the lists. -/
structure SameTrusted (n : Nat) (trusted : Option (List Int)) (github github' : ReviewGateData) :
    Prop where
  owner : github.repositoryOwnerId = github'.repositoryOwnerId
  pullRequest : github.pullRequest = github'.pullRequest
  commits : github.pullRequestCommits = github'.pullRequestCommits
  ci : github.commitCi = github'.commitCi
  reviews : ∀ ids sha, trustedIds github trusted = .ok ids → IsFinalCode n github sha →
    Alike (fun reviews reviews' =>
      (trustedReviews ids sha reviews).Perm (trustedReviews ids sha reviews'))
      (github.pullRequestReviews n) (github'.pullRequestReviews n)
  evidence : ∀ initial sha, github.pullRequest .start n = .ok initial → IsFinalCode n github sha →
    Alike (fun evidence evidence' =>
      (exactEvidence initial sha evidence).Perm (exactEvidence initial sha evidence'))
      (github.cumulativeEvidence n initial.baseSha sha)
      (github'.cumulativeEvidence n initial.baseSha sha)

/-- No two trusted reviews of the last code commit, and no two exact observations of it, have
the same time and number. -/
structure NoTies (n : Nat) (trusted : Option (List Int)) (github : ReviewGateData) : Prop where
  reviews : ∀ ids sha reviews, trustedIds github trusted = .ok ids → IsFinalCode n github sha →
    github.pullRequestReviews n = .ok reviews →
      Untied ReviewRecord.key (trustedReviews ids sha reviews)
  evidence : ∀ initial sha evidence, github.pullRequest .start n = .ok initial →
    IsFinalCode n github sha → github.cumulativeEvidence n initial.baseSha sha = .ok evidence →
      Untied CumulativeEvidence.key (exactEvidence initial sha evidence)

/-! ## 3. The parts of the gate -/

/-- A verdict that says that no trusted review was found. -/
def Verdict.Absent (v : Verdict) : Prop := v = .missing ∨ v = .untrusted

theorem finalVerdict_eq (reviews : List ReviewRecord) (sha : String) (ids : List Int)
    (time : Int) :
    (trustedReviews ids sha reviews = [] ∧ (finalVerdict reviews sha ids time).1.Absent) ∨
      ∃ latest, (trustedReviews ids sha reviews).argmax ReviewRecord.key = some latest ∧
        finalVerdict reviews sha ids time =
          match reviewVerdict latest.body with
          | none => (.indeterminate, some ("final review verdict cannot be determined from the " ++
              "latest trusted anchored GitHub review body"),
              time - latest.submittedAt > stallThreshold)
          | some verdict => (verdict, none, false) := by
  have hfilter : ((reviews.filter (·.commitId = sha)).filter ReviewRecord.submitted).filter
      (fun r => ids.contains r.authorId) = trustedReviews ids sha reviews := by
    simp only [trustedReviews, List.filter_filter]
    congr 1
    funext r
    simp only [Bool.and_comm, Bool.and_left_comm]
  unfold finalVerdict
  dsimp only
  split
  · next h =>
    rw [h] at hfilter
    exact Or.inl ⟨hfilter.symm, Or.inl rfl⟩
  · split
    · next h =>
      rw [h] at hfilter
      exact Or.inl ⟨hfilter.symm, Or.inl rfl⟩
    · rw [hfilter]
      split
      · next h => exact Or.inl ⟨List.argmax_eq_none.mp h, Or.inr rfl⟩
      · next latest h => exact Or.inr ⟨latest, h, rfl⟩

theorem finalVerdict_alike {reviews reviews' : List ReviewRecord} {sha : String} {ids : List Int}
    (time : Int) (hperm : (trustedReviews ids sha reviews).Perm (trustedReviews ids sha reviews'))
    (huntied : Untied ReviewRecord.key (trustedReviews ids sha reviews)) :
    finalVerdict reviews sha ids time = finalVerdict reviews' sha ids time ∨
      ((finalVerdict reviews sha ids time).1.Absent ∧
        (finalVerdict reviews' sha ids time).1.Absent) := by
  have hlatest := argmax_perm hperm huntied
  rcases finalVerdict_eq reviews sha ids time with ⟨hnil, habsent⟩ | ⟨latest, h, heq⟩
  · rcases finalVerdict_eq reviews' sha ids time with ⟨-, habsent'⟩ | ⟨latest', h', -⟩
    · exact Or.inr ⟨habsent, habsent'⟩
    · rw [← hlatest, hnil] at h'
      cases h'
  · rcases finalVerdict_eq reviews' sha ids time with ⟨hnil, -⟩ | ⟨latest', h', heq'⟩
    · rw [hlatest, hnil] at h
      cases h
    · obtain rfl : latest' = latest := Option.some.inj (h'.symm.trans (hlatest.symm.trans h))
      exact Or.inl (heq.trans heq'.symm)

theorem validateCumulativeEvidence_alike {evidence evidence' : List CumulativeEvidence}
    {initial : ReviewPullRequest} {sha : String}
    (classified : List (ReviewCommit × Classification))
    (hperm : (exactEvidence initial sha evidence).Perm (exactEvidence initial sha evidence'))
    (huntied : Untied CumulativeEvidence.key (exactEvidence initial sha evidence)) :
    validateCumulativeEvidence evidence initial classified sha =
      validateCumulativeEvidence evidence' initial classified sha := by
  have hlatest := argmax_perm hperm huntied
  have hcompare := argmax_perm (hperm.filter (·.source = "github-compare"))
    (huntied.filter (·.source = "github-compare"))
  simp only [exactEvidence] at hlatest hcompare
  unfold validateCumulativeEvidence
  dsimp only
  rw [hlatest, hcompare]

theorem finalResult_alike {commit : ReviewCommit} {reviews reviews' : List ReviewRecord}
    {ids : List Int} (ci : List (String × CIObservation)) (gap : Option String) {time : Int}
    (h : finalVerdict reviews commit.sha ids time = finalVerdict reviews' commit.sha ids time ∨
      ((finalVerdict reviews commit.sha ids time).1.Absent ∧
        (finalVerdict reviews' commit.sha ids time).1.Absent)) :
    finalResult commit reviews ci gap ids time = finalResult commit reviews' ci gap ids time ∨
      ∀ r ∈ [reviews, reviews'], (finalResult commit r ci gap ids time).gaps ≠ [] ∧
        (finalResult commit r ci gap ids time).verdict.Absent := by
  rcases h with h | ⟨h, h'⟩
  · left
    unfold finalResult
    rw [h]
  · right
    intro r hr
    have habsent : (finalVerdict r commit.sha ids time).1.Absent := by
      rcases List.mem_cons.mp hr with rfl | hr
      · exact h
      · rw [List.mem_singleton.mp hr]
        exact h'
    refine ⟨?_, habsent⟩
    intro hclean
    obtain ⟨-, -, happroved, -⟩ := finalResult_clean hclean
    rw [happroved] at habsent
    rcases habsent with habsent | habsent <;> cases habsent

/-! ## 4. The report -/

/-- The verdict on the last code commit. -/
def ReviewGateResult.finalVerdict (result : ReviewGateResult) : Option Verdict :=
  (result.commits.find? fun r => r.classification = .codeFinal).map CommitGateResult.verdict

/-- The entry is the last code commit. -/
def isFinal (finalSha : Option String) (entry : ReviewCommit × Classification) : Bool :=
  entry.2 = .code && some entry.1.sha = finalSha

theorem gateResults_any {finalSha : Option String} {reviews : List ReviewRecord}
    {ci : List (String × CIObservation)} {gap : Option String} {ids : List Int} {time : Int} :
    ∀ {classified : List (ReviewCommit × Classification)},
    (gateResults finalSha reviews ci gap ids time classified).any (fun r => r.gaps ≠ []) =
      classified.any fun entry => isFinal finalSha entry &&
        (finalResult entry.1 reviews ci gap ids time).gaps ≠ []
  | [] => rfl
  | (commit, classification) :: rest => by
    rw [gateResults, List.any_cons, List.any_cons, gateResults_any]
    congr 1
    by_cases hcode : classification = .code
    · by_cases hsha : some commit.sha = finalSha
      · simp [hcode, hsha, isFinal]
      · simp [hcode, hsha, isFinal, supersededResult]
    · simp [hcode, isFinal, exemptResult]

theorem gateResults_find {finalSha : Option String} {reviews : List ReviewRecord}
    {ci : List (String × CIObservation)} {gap : Option String} {ids : List Int} {time : Int} :
    ∀ {classified : List (ReviewCommit × Classification)},
    (gateResults finalSha reviews ci gap ids time classified).find?
        (fun r => r.classification = .codeFinal) =
      (classified.find? (isFinal finalSha)).map fun entry =>
        finalResult entry.1 reviews ci gap ids time
  | [] => rfl
  | (commit, classification) :: rest => by
    rw [gateResults, List.find?_cons, List.find?_cons, gateResults_find]
    by_cases hcode : classification = .code
    · by_cases hsha : some commit.sha = finalSha
      · simp [hcode, hsha, isFinal, finalResult]
      · simp [hcode, hsha, isFinal, supersededResult]
    · simp [hcode, isFinal, exemptResult]

/-! ## 5. The two runs -/

/-- The reports of the last code commit agree, or none of them finds a trusted review. -/
def SameFinal (finalSha : Option String) (classified : List (ReviewCommit × Classification))
    (ids : List Int) (time : Int)
    (read read' : List ReviewRecord × List (String × CIObservation) × Option String) : Prop :=
  ∀ entry ∈ classified, isFinal finalSha entry = true →
    finalResult entry.1 read.1 read.2.1 read.2.2 ids time =
        finalResult entry.1 read'.1 read'.2.1 read'.2.2 ids time ∨
      ∀ r ∈ [read, read'], (finalResult entry.1 r.1 r.2.1 r.2.2 ids time).gaps ≠ [] ∧
        (finalResult entry.1 r.1 r.2.1 r.2.2 ids time).verdict.Absent

theorem readFinal_alike {n : Nat} {trusted : Option (List Int)} {github github' : ReviewGateData}
    (h : SameTrusted n trusted github github') (hties : NoTies n trusted github) {ids : List Int}
    (hids : trustedIds github trusted = .ok ids) {initial : ReviewPullRequest}
    (hinitial : github.pullRequest .start n = .ok initial) {commits : List ReviewCommit}
    (hcommits : github.pullRequestCommits n = .ok commits) {classifications : List Classification}
    (hclassified : commits.mapM ReviewCommit.classification = .ok classifications) (time : Int) :
    Alike (SameFinal (finalCode (commits.zip classifications)) (commits.zip classifications) ids
        time)
      (readFinal n github initial (commits.zip classifications))
      (readFinal n github' initial (commits.zip classifications)) := by
  unfold readFinal
  cases hfinal : finalCode (commits.zip classifications) with
  | none => exact fun entry _ _ => Or.inl rfl
  | some sha =>
    have hsha : IsFinalCode n github sha :=
      ⟨commits, classifications, hcommits, hclassified, hfinal⟩
    refine Alike.bind (h.reviews ids sha hids hsha) fun reviews reviews' hreviews _ hperm => ?_
    refine Alike.step (by rw [h.ci]) fun ci _ => ?_
    refine Alike.bind (h.evidence initial sha hinitial hsha)
      fun evidence evidence' hevidence _ hexact => ?_
    refine Alike.step (validateCumulativeEvidence_alike _ hexact
      (hties.evidence initial sha evidence hinitial hsha hevidence)) fun gap _ => ?_
    intro entry _ hentry
    simp only [isFinal, Bool.and_eq_true, decide_eq_true_eq, Option.some.injEq] at hentry
    obtain ⟨-, rfl⟩ := hentry
    rcases finalResult_alike ci gap (finalVerdict_alike time hperm
      (hties.reviews ids _ reviews hids hsha hreviews)) with heq | habsent
    · exact Or.inl heq
    · refine Or.inr ?_
      intro r hr
      rcases List.mem_cons.mp hr with rfl | hr
      · exact habsent reviews (by simp)
      · rw [List.mem_singleton.mp hr]
        exact habsent reviews' (by simp)

/-- Both reports have the same status, and the same verdict or none from a trusted reviewer. -/
def SameReport (result result' : ReviewGateResult) : Prop :=
  result.status = result'.status ∧ (result.finalVerdict = result'.finalVerdict ∨
    ∀ r ∈ [result, result'], ∃ verdict, r.finalVerdict = some verdict ∧ verdict.Absent)

theorem sameFinal_any {finalSha : Option String} {classified : List (ReviewCommit × Classification)}
    {ids : List Int} {time : Int}
    {read read' : List ReviewRecord × List (String × CIObservation) × Option String}
    (h : SameFinal finalSha classified ids time read read') :
    (classified.any fun entry => isFinal finalSha entry &&
        (finalResult entry.1 read.1 read.2.1 read.2.2 ids time).gaps ≠ []) =
      classified.any fun entry => isFinal finalSha entry &&
        (finalResult entry.1 read'.1 read'.2.1 read'.2.2 ids time).gaps ≠ [] := by
  rw [Bool.eq_iff_iff, List.any_eq_true, List.any_eq_true]
  refine exists_congr fun entry => and_congr_right fun hmem => ?_
  rw [Bool.and_eq_true, Bool.and_eq_true]
  refine and_congr_right fun hfinal => ?_
  rcases h entry hmem hfinal with heq | habsent
  · rw [heq]
  · simp [(habsent read (by simp)).1, (habsent read' (by simp)).1]

theorem sameFinal_verdict {finalSha : Option String}
    {classified : List (ReviewCommit × Classification)} {ids : List Int} {time : Int}
    {read read' : List ReviewRecord × List (String × CIObservation) × Option String}
    (h : SameFinal finalSha classified ids time read read') {result result' : ReviewGateResult}
    (hresult : result.commits =
      gateResults finalSha read.1 read.2.1 read.2.2 ids time classified)
    (hresult' : result'.commits =
      gateResults finalSha read'.1 read'.2.1 read'.2.2 ids time classified) :
    result.finalVerdict = result'.finalVerdict ∨
      ∀ r ∈ [result, result'], ∃ verdict, r.finalVerdict = some verdict ∧ verdict.Absent := by
  simp only [List.forall_mem_cons, ReviewGateResult.finalVerdict, hresult, hresult',
    gateResults_find]
  cases hfind : classified.find? (isFinal finalSha) with
  | none => exact Or.inl rfl
  | some entry =>
    rcases h entry (List.mem_of_find?_eq_some hfind) (List.find?_some hfind) with heq | habsent
    · left
      simp [heq]
    · right
      exact ⟨⟨_, rfl, (habsent read (by simp)).2⟩, ⟨_, rfl, (habsent read' (by simp)).2⟩,
        by simp⟩

theorem evaluate_alike {n : Nat} {trusted : Option (List Int)} {github github' : ReviewGateData}
    (h : SameTrusted n trusted github github') (hties : NoTies n trusted github) (now : Clock) :
    Alike SameReport (evaluateReviewGate n github trusted now)
      (evaluateReviewGate n github' trusted now) := by
  unfold evaluateReviewGate
  have hids : trustedIds github trusted = trustedIds github' trusted := by
    cases trusted with
    | none => simp [trustedIds, h.owner]
    | some ids => rfl
  refine Alike.step hids fun ids hids => Alike.step rfl fun _ _ => ?_
  refine Alike.step (by rw [h.pullRequest]) fun initial hinitial => ?_
  refine Alike.step (by rw [h.commits]) fun commits hcommits => Alike.step rfl fun _ _ => ?_
  refine Alike.step rfl fun classifications hclassified => Alike.step rfl fun _ _ => ?_
  refine Alike.bind (readFinal_alike h hties hids hinitial hcommits hclassified now.time)
    fun read read' _ _ hsame => ?_
  refine Alike.step (by rw [h.pullRequest]) fun final _ => Alike.step rfl fun _ _ => ?_
  constructor
  · have hany := sameFinal_any hsame
    change (if _ then Status.reviewGap else Status.pass) = if _ then _ else _
    rw [gateResults_any, gateResults_any, hany]
  · exact sameFinal_verdict hsame rfl rfl

/-- **Noninterference.**  Two inputs that agree on what is trusted get the same status or fail
alike, and where the trusted reviews approve or ask for changes, the same verdict. -/
theorem untrusted_input_ignored {n : Nat} {trusted : Option (List Int)}
    {github github' : ReviewGateData} (h : SameTrusted n trusted github github')
    (hties : NoTies n trusted github) (now : Clock) :
    (evaluateReviewGate n github trusted now).map ReviewGateResult.status =
        (evaluateReviewGate n github' trusted now).map ReviewGateResult.status ∧
      ∀ result result', evaluateReviewGate n github trusted now = .ok result →
        evaluateReviewGate n github' trusted now = .ok result' →
        result.finalVerdict = some .approved ∨ result.finalVerdict = some .changesRequested →
          result'.finalVerdict = result.finalVerdict := by
  have halike := evaluate_alike h hties now
  cases hx : evaluateReviewGate n github trusted now with
  | error e =>
    cases hy : evaluateReviewGate n github' trusted now with
    | error e' =>
      rw [hx, hy] at halike
      obtain rfl : e = e' := halike
      exact ⟨rfl, fun result _ h => by cases h⟩
    | ok result' =>
      rw [hx, hy] at halike
      exact halike.elim
  | ok result =>
    cases hy : evaluateReviewGate n github' trusted now with
    | error e' =>
      rw [hx, hy] at halike
      exact halike.elim
    | ok result' =>
      rw [hx, hy] at halike
      obtain ⟨hstatus, hverdict⟩ := halike
      refine ⟨congrArg Except.ok hstatus, ?_⟩
      rintro r r' hr hr' hsettled
      obtain rfl := Except.ok.inj hr
      obtain rfl := Except.ok.inj hr'
      rcases hverdict with heq | habsent
      · exact heq.symm
      · obtain ⟨verdict, hv, rfl | rfl⟩ := habsent result (by simp) <;>
          rw [hv] at hsettled <;> simp at hsettled

/-! ### Strangers and ties -/

namespace Sample

/-- The word of somebody else. -/
def stranger : ReviewRecord := ⟨2, sha 'b', "COMMENTED", "## Changes requested", 30, 8, "stranger"⟩

/-- A review that ties with the approval. -/
def objection : ReviewRecord := { approval with body := "## Changes requested" }

/-- Whatever is said of the sample is said of its one code commit, by its owner. -/
theorem final {reviews : List ReviewRecord} {sha' : String}
    (h : IsFinalCode 1 (github reviews [compare]) sha') : sha' = code.sha := by
  obtain ⟨commits, classifications, hcommits, hclassified, hfinal⟩ := h
  obtain rfl : [code, record] = commits := Except.ok.inj hcommits
  have hread : [code, record].mapM ReviewCommit.classification =
      .ok [.code, .metadata] := by rfl
  obtain rfl := Except.ok.inj (hread.symm.trans hclassified)
  exact (Option.some.inj hfinal).symm

/-- Two lists of reviews with the same trusted ones make two inputs that agree. -/
theorem sameTrusted {reviews reviews' : List ReviewRecord}
    (h : (trustedReviews [7] code.sha reviews).Perm (trustedReviews [7] code.sha reviews')) :
    SameTrusted 1 none (github reviews [compare]) (github reviews' [compare]) where
  owner := rfl
  pullRequest := rfl
  commits := rfl
  ci := rfl
  reviews := by
    intro ids sha' hids hsha
    obtain rfl : [7] = ids := Except.ok.inj hids
    rw [final hsha]
    exact h
  evidence := fun _ _ _ _ => List.Perm.refl _

end Sample

/-- Against a stranger's word the approval stands. -/
theorem untrusted_input_ignored_sample :
    (evaluateReviewGate 1 (Sample.github [Sample.approval] [Sample.compare]) none
        ⟨20, true⟩).map ReviewGateResult.status =
      (evaluateReviewGate 1 (Sample.github [Sample.stranger, Sample.approval] [Sample.compare]) none
        ⟨20, true⟩).map ReviewGateResult.status := by
  refine (untrusted_input_ignored (Sample.sameTrusted ?_) ?_ _).1
  · rw [show trustedReviews [7] Sample.code.sha [Sample.stranger, Sample.approval] =
      trustedReviews [7] Sample.code.sha [Sample.approval] from by decide +kernel]
  · constructor
    · intro ids sha reviews _ _ hreviews a ha b hb _
      obtain rfl : [Sample.approval] = reviews := Except.ok.inj hreviews
      rw [List.mem_singleton.mp (List.mem_of_mem_filter ha),
        List.mem_singleton.mp (List.mem_of_mem_filter hb)]
    · intro initial sha evidence _ _ hevidence a ha b hb _
      obtain rfl : [Sample.compare] = evidence := Except.ok.inj hevidence
      rw [List.mem_singleton.mp (List.mem_of_mem_filter ha),
        List.mem_singleton.mp (List.mem_of_mem_filter hb)]

/-- Of two trusted reviews that tie the first one counts, so their order decides. -/
theorem tied_reviews_decide_by_order :
    SameTrusted 1 none (Sample.github [Sample.approval, Sample.objection] [Sample.compare])
        (Sample.github [Sample.objection, Sample.approval] [Sample.compare]) ∧
      ((evaluateReviewGate 1 (Sample.github [Sample.approval, Sample.objection] [Sample.compare])
        none ⟨20, true⟩).toOption.map ReviewGateResult.status) = some .pass ∧
      ((evaluateReviewGate 1 (Sample.github [Sample.objection, Sample.approval] [Sample.compare])
        none ⟨20, true⟩).toOption.map ReviewGateResult.status) = some .reviewGap := by
  refine ⟨Sample.sameTrusted ?_, by decide +kernel, by decide +kernel⟩
  exact (List.Perm.swap Sample.objection Sample.approval []).filter _

end ProductPdfQr.ReviewGate
