/-
# What a pass of the review gate means

The head tree agrees with the tree of the last code commit outside the evidence directory,
because every later commit either has its parent's tree or lists only evidence paths; and what
is reported about that one commit is read off its own jobs, reviews and compare evidence.  The
trees are a parameter: what the tree object of a given name holds at each path.
-/
import ProductPdfQr.ReviewGate.Gate

namespace ProductPdfQr.ReviewGate

/-! ## 1. Trees -/

/-- What a tree object holds at a path. -/
abbrev Trees (Blob : Type) := String → String → Option Blob

/-- Two trees hold the same outside the evidence directory. -/
def AgreeOutside {Blob : Type} (trees : Trees Blob) (a b : String) : Prop :=
  ∀ path, Text.startsWith path evidenceRoot = false → trees a path = trees b path

/-- Every path at which the commit differs from its parent is among its files, under the name
it has or under the one it had. -/
def CompleteDiff {Blob : Type} (trees : Trees Blob) (commit : ReviewCommit) : Prop :=
  ∀ path, trees commit.treeSha path ≠ trees commit.parentTreeSha path → path ∈ commit.paths

namespace AgreeOutside

variable {Blob : Type} {trees : Trees Blob} {a b c : String}

theorem refl (a : String) : AgreeOutside trees a a := fun _ _ => rfl

theorem trans (hab : AgreeOutside trees a b) (hbc : AgreeOutside trees b c) :
    AgreeOutside trees a c :=
  fun path hpath => (hab path hpath).trans (hbc path hpath)

end AgreeOutside

/-- A commit that is no code changes nothing outside the evidence directory. -/
theorem agree_parent {Blob : Type} {trees : Trees Blob} {commit : ReviewCommit}
    {classification : Classification} (h : commit.classification = .ok classification)
    (hcode : classification ≠ .code) (hdiff : CompleteDiff trees commit) :
    AgreeOutside trees commit.treeSha commit.parentTreeSha := by
  intro path hpath
  by_contra hchanged
  have hmem := hdiff path hchanged
  unfold ReviewCommit.classification at h
  split at h
  · next hsame => exact hchanged (by rw [hsame])
  · split at h
    · cases h
    · split at h
      · next hall =>
        obtain ⟨f, hf, hin⟩ := List.mem_flatMap.mp hmem
        have := List.all_eq_true.mp (List.all_eq_true.mp hall f hf) path hin
        rw [hpath] at this
        cases this
      · exact hcode (Except.ok.inj h).symm

/-! ## 2. The chain -/

theorem checkLink_ok {pullRequest : ReviewPullRequest} {seen : List String}
    {before : Option ReviewCommit} {commit : ReviewCommit}
    (h : checkLink pullRequest seen before commit = .ok ()) :
    commit.sha ∉ seen ∧ ∀ previous, before = some previous →
      commit.parentTreeSha = previous.treeSha := by
  simp only [checkLink, bind_eq_ok, require_ok] at h
  obtain ⟨_, -, _, -, _, -, _, -, _, hnew, _, -, htree⟩ := h
  refine ⟨by simpa using hnew, ?_⟩
  rintro previous rfl
  simpa using htree

theorem checkLinks_cons {pullRequest : ReviewPullRequest} {seen : List String}
    {before : Option ReviewCommit} {commit : ReviewCommit} {commits : List ReviewCommit}
    (h : checkLinks pullRequest seen before (commit :: commits) = .ok ()) :
    checkLink pullRequest seen before commit = .ok () ∧
      checkLinks pullRequest (commit.sha :: seen) (some commit) commits = .ok () := by
  rw [checkLinks, bind_eq_ok] at h
  obtain ⟨⟨⟩, hlink, hlinks⟩ := h
  exact ⟨hlink, hlinks⟩

/-- The chain may be entered at any of its commits, whose name no commit before it bears. -/
theorem checkLinks_append {pullRequest : ReviewPullRequest} {commit : ReviewCommit}
    {after : List ReviewCommit} : ∀ {before : List ReviewCommit} {seen : List String}
    {previous : Option ReviewCommit},
    checkLinks pullRequest seen previous (before ++ commit :: after) = .ok () →
      commit.sha ∉ seen ∧ (∀ d ∈ before, d.sha ≠ commit.sha) ∧
        ∃ seen', checkLinks pullRequest seen' (some commit) after = .ok ()
  | [], seen, previous, h => by
    obtain ⟨hlink, hlinks⟩ := checkLinks_cons h
    exact ⟨(checkLink_ok hlink).1, by simp, _, hlinks⟩
  | d :: before, seen, previous, h => by
    obtain ⟨-, hlinks⟩ := checkLinks_cons h
    obtain ⟨hnew, hbefore, hafter⟩ := checkLinks_append hlinks
    rw [List.mem_cons, not_or] at hnew
    refine ⟨hnew.2, ?_, hafter⟩
    intro e he
    rcases List.mem_cons.mp he with rfl | he
    · exact fun heq => hnew.1 heq.symm
    · exact hbefore e he

/-- After a commit that only commits without code follow, the last tree agrees with its own. -/
theorem agree_last {Blob : Type} {trees : Trees Blob} {pullRequest : ReviewPullRequest} :
    ∀ {after : List ReviewCommit} {commit : ReviewCommit} {seen : List String},
    checkLinks pullRequest seen (some commit) after = .ok () →
    (∀ d ∈ after, ∃ classification, d.classification = .ok classification ∧
      classification ≠ .code) →
    (∀ d ∈ after, CompleteDiff trees d) →
    AgreeOutside trees ((commit :: after).getLast (by simp)).treeSha commit.treeSha
  | [], commit, _, _, _, _ => AgreeOutside.refl _
  | d :: after, commit, seen, h, hplain, hdiff => by
    obtain ⟨hlink, hlinks⟩ := checkLinks_cons h
    have hparent : d.parentTreeSha = commit.treeSha := (checkLink_ok hlink).2 commit rfl
    obtain ⟨classification, hclass, hcode⟩ := hplain d (by simp)
    have hstep := agree_parent hclass hcode (hdiff d (by simp))
    have hrest := agree_last hlinks (fun e he => hplain e (by simp [he]))
      fun e he => hdiff e (by simp [he])
    rw [hparent] at hstep
    rw [List.getLast_cons (by simp)]
    exact hrest.trans hstep

/-! ## 3. Classified commits -/

theorem classified_of_mapM : ∀ {commits : List ReviewCommit} {classifications},
    commits.mapM ReviewCommit.classification = .ok classifications →
      List.Forall₂ (fun commit classification => commit.classification = .ok classification)
        commits classifications
  | [], classifications, h => by
    obtain rfl : [] = classifications := Except.ok.inj h
    exact .nil
  | commit :: commits, classifications, h => by
    rw [List.mapM_cons, bind_eq_ok] at h
    obtain ⟨classification, hclass, h⟩ := h
    obtain ⟨rest, hrest, h⟩ := bind_eq_ok.mp h
    obtain rfl : classification :: rest = classifications := Except.ok.inj h
    exact .cons hclass (classified_of_mapM hrest)

theorem zip_append {P : ReviewCommit → Classification → Prop} {commit : ReviewCommit}
    {after : List ReviewCommit} : ∀ {before : List ReviewCommit} {classifications},
    List.Forall₂ P (before ++ commit :: after) classifications →
      ∃ before' classification after', P commit classification ∧
        (before ++ commit :: after).zip classifications =
          before' ++ (commit, classification) :: after' ∧
        before'.map Prod.fst = before ∧ (∀ entry ∈ after', entry.1 ∈ after ∧ P entry.1 entry.2)
  | [], _, h => by
    cases h with
    | @cons _ classification _ rest hfirst hrest =>
      refine ⟨[], classification, after.zip rest, hfirst, rfl, rfl, ?_⟩
      rintro ⟨d, c⟩ hmem
      exact ⟨(List.of_mem_zip hmem).1, (List.forall₂_iff_zip.mp hrest).2 hmem⟩
  | d :: before, _, h => by
    cases h with
    | @cons _ classification _ rest hfirst hrest =>
      obtain ⟨before', c, after', hP, hzip, hmap, hafter⟩ := zip_append hrest
      exact ⟨(d, classification) :: before', c, after', hP, by simp [hzip], by simp [hmap],
        hafter⟩

theorem finalCode_append {commit : ReviewCommit}
    {before after : List (ReviewCommit × Classification)}
    (hafter : ∀ entry ∈ after, entry.2 ≠ .code) :
    finalCode (before ++ (commit, .code) :: after) = some commit.sha := by
  have hnone : after.reverse.find? (fun entry => decide (entry.2 = .code)) = none := by
    rw [List.find?_eq_none]
    intro entry hmem
    simpa using hafter entry (List.mem_reverse.mp hmem)
  simp [finalCode, List.find?_append, hnone]

theorem finalResult_mem {commit : ReviewCommit} {reviews : List ReviewRecord}
    {ci : List (String × CIObservation)} {gap : Option String} {ids : List Int} {time : Int}
    {after : List (ReviewCommit × Classification)} :
    ∀ {before : List (ReviewCommit × Classification)},
    finalResult commit reviews ci gap ids time ∈
      gateResults (some commit.sha) reviews ci gap ids time (before ++ (commit, .code) :: after)
  | [] => by simp [gateResults]
  | (d, c) :: before => by
    rw [List.cons_append, gateResults]
    exact List.mem_cons_of_mem _ finalResult_mem

/-! ## 4. The last code commit -/

/-- Every required job was observed on the commit, and every job observed is a success. -/
def CiSuccess (github : ReviewGateData) (sha : String) : Prop :=
  ∃ ci, github.commitCi sha = .ok ci ∧
    ∀ job ∈ requiredCiJobs, ∃ observation, (job, observation) ∈ ci ∧
      ∀ observation', (job, observation') ∈ ci → observation'.state = "success"

/-- A submitted review, neither dismissed nor pending, by a trusted reviewer, of exactly this
commit. -/
def TrustedReview (ids : List Int) (sha : String) (r : ReviewRecord) : Prop :=
  r.commitId = sha ∧ r.state ≠ "DISMISSED" ∧ r.state ≠ "PENDING" ∧ r.authorId ∈ ids

/-- The latest of the trusted reviews of the commit approves it. -/
def LatestApproves (github : ReviewGateData) (n : Nat) (ids : List Int) (sha : String) : Prop :=
  ∃ reviews, github.pullRequestReviews n = .ok reviews ∧
    ∃ latest ∈ reviews, TrustedReview ids sha latest ∧
      reviewVerdict latest.body = some .approved ∧
      ∀ r ∈ reviews, TrustedReview ids sha r → r.key ≤ latest.key

/-- The authoritative compare observation of this base and commit names the given merge base
and number of commits. -/
def CompareMatches (github : ReviewGateData) (n : Nat) (initial : ReviewPullRequest)
    (sha mergeBase : String) (count : Nat) : Prop :=
  ∃ evidence, github.cumulativeEvidence n initial.baseSha sha = .ok evidence ∧
    ∃ authoritative ∈ evidence, authoritative.exact initial sha = true ∧
      authoritative.source = "github-compare" ∧ authoritative.mergeBaseSha = mergeBase ∧
      authoritative.commitCount = count ∧
      ∀ e ∈ evidence, e.exact initial sha = true → e.source = "github-compare" →
        e.key ≤ authoritative.key

theorem finalResult_clean {commit : ReviewCommit} {reviews : List ReviewRecord}
    {ci : List (String × CIObservation)} {gap : Option String} {ids : List Int} {time : Int}
    (h : (finalResult commit reviews ci gap ids time).gaps = []) :
    missingCi ci = ∅ ∧ failedCi ci = [] ∧
      (finalVerdict reviews commit.sha ids time).1 = .approved ∧ gap = none := by
  simp only [finalResult, List.append_eq_nil_iff] at h
  obtain ⟨⟨⟨⟨hmissing, hfailed⟩, -⟩, hverdict⟩, hgap⟩ := h
  refine ⟨?_, ?_, ?_, by simpa using hgap⟩
  · by_contra hne
    simp [hne] at hmissing
  · by_contra hne
    simp [hne] at hfailed
  · by_contra hne
    simp [hne] at hverdict

theorem jobs_succeed {ci : List (String × CIObservation)} (hmissing : missingCi ci = ∅)
    (hfailed : failedCi ci = []) :
    ∀ job ∈ requiredCiJobs, ∃ observation, (job, observation) ∈ ci ∧
      ∀ observation', (job, observation') ∈ ci → observation'.state = "success" := by
  intro job hjob
  have hseen : job ∈ (ci.map Prod.fst).toFinset := Finset.sdiff_eq_empty_iff_subset.mp hmissing hjob
  obtain ⟨⟨name, observation⟩, hmem, rfl⟩ := List.mem_map.mp (List.mem_toFinset.mp hseen)
  refine ⟨observation, hmem, ?_⟩
  intro observation' hmem'
  have hnil := congrArg List.length hfailed
  rw [failedCi, List.length_mergeSort, List.length_map, List.length_nil,
    List.length_eq_zero_iff, List.filter_eq_nil_iff] at hnil
  simpa using hnil _ hmem'

theorem latest_of_approved {reviews : List ReviewRecord} {sha : String} {ids : List Int}
    {time : Int} (h : (finalVerdict reviews sha ids time).1 = .approved) :
    ∃ latest ∈ reviews, TrustedReview ids sha latest ∧
      reviewVerdict latest.body = some .approved ∧
      ∀ r ∈ reviews, TrustedReview ids sha r → r.key ≤ latest.key := by
  have hin : ∀ r, r ∈ ((reviews.filter (·.commitId = sha)).filter ReviewRecord.submitted).filter
      (fun r => ids.contains r.authorId) ↔ r ∈ reviews ∧ TrustedReview ids sha r := by
    intro r
    simp only [List.mem_filter, ReviewRecord.submitted, TrustedReview, Bool.and_eq_true,
      decide_eq_true_eq, List.contains_iff_mem]
    tauto
  unfold finalVerdict at h
  dsimp only at h
  split at h
  · cases h
  · split at h
    · cases h
    · split at h
      · cases h
      · next latest hlatest =>
        split at h
        · cases h
        · next verdict hverdict =>
          obtain rfl : verdict = .approved := h
          obtain ⟨hmem, htrusted⟩ := (hin latest).mp (List.argmax_mem hlatest)
          refine ⟨latest, hmem, htrusted, hverdict, ?_⟩
          intro r hr htrusted'
          exact List.le_of_mem_argmax ((hin r).mpr ⟨hr, htrusted'⟩) hlatest

theorem observation_matches {observation : CumulativeEvidence} {commits : List ReviewCommit}
    {finalSha label : String}
    (h : validateCumulativeObservation observation commits finalSha label = .ok none) :
    observation.mergeBaseSha = (commits.head?.map ReviewCommit.parentSha).getD "" ∧
      observation.commitCount = commits.findIdx (fun commit => commit.sha = finalSha) + 1 := by
  unfold validateCumulativeObservation at h
  split at h
  · cases h
  · split at h
    · cases h
    · simp only [bind_eq_ok, require_ok, decide_eq_true_eq] at h
      obtain ⟨_, hbase, _, hcount, -⟩ := h
      exact ⟨hbase, hcount⟩

theorem evidence_matches {evidence : List CumulativeEvidence} {initial : ReviewPullRequest}
    {classified : List (ReviewCommit × Classification)} {finalSha : String}
    (h : validateCumulativeEvidence evidence initial classified finalSha = .ok none) :
    ∃ authoritative ∈ evidence, authoritative.exact initial finalSha = true ∧
      authoritative.source = "github-compare" ∧
      authoritative.mergeBaseSha =
        ((classified.map Prod.fst).head?.map ReviewCommit.parentSha).getD "" ∧
      authoritative.commitCount =
        (classified.map Prod.fst).findIdx (fun commit => commit.sha = finalSha) + 1 ∧
      ∀ e ∈ evidence, e.exact initial finalSha = true → e.source = "github-compare" →
        e.key ≤ authoritative.key := by
  unfold validateCumulativeEvidence at h
  dsimp only at h
  split at h
  · cases h
  · split at h
    · cases h
    · next authoritative hauthoritative =>
      obtain ⟨gap, hgap, h⟩ := bind_eq_ok.mp h
      cases gap with
      | some text => cases h
      | none =>
        obtain ⟨hbase, hcount⟩ := observation_matches hgap
        have hmem := List.argmax_mem hauthoritative
        simp only [List.mem_filter, decide_eq_true_eq] at hmem
        refine ⟨authoritative, hmem.1.1, hmem.1.2, hmem.2, hbase, hcount, ?_⟩
        intro e he hexact hsource
        refine List.le_of_mem_argmax ?_ hauthoritative
        simp [he, hexact, hsource]

/-! ## 5. A pass -/

/-- What a pass promises, of the trees and of what was read. -/
def PassMeans {Blob : Type} (trees : Trees Blob) (n : Nat) (github : ReviewGateData)
    (ids : List Int) : Prop :=
  ∃ initial final commits first head,
    github.pullRequest .start n = .ok initial ∧ github.pullRequest .finish n = .ok final ∧
    final.baseSha = initial.baseSha ∧ final.headSha = initial.headSha ∧
    github.pullRequestCommits n = .ok commits ∧ commits.head? = some first ∧
    commits.getLast? = some head ∧ head.sha = initial.headSha ∧
    ((∀ c ∈ commits, c.classification ≠ .ok .code) →
      AgreeOutside trees head.treeSha first.parentTreeSha) ∧
    ∀ before c after, commits = before ++ c :: after → c.classification = .ok .code →
      (∀ d ∈ after, d.classification ≠ .ok .code) →
        AgreeOutside trees head.treeSha c.treeSha ∧ CiSuccess github c.sha ∧
          LatestApproves github n ids c.sha ∧
          CompareMatches github n initial c.sha first.parentSha (before.length + 1)

/-- What was read, when the gate reports anything. -/
structure Evaluation (n : Nat) (github : ReviewGateData) (trusted : Option (List Int))
    (now : Clock) (result : ReviewGateResult) where
  ids : List Int
  initial : ReviewPullRequest
  commits : List ReviewCommit
  classifications : List Classification
  reviews : List ReviewRecord
  ci : List (String × CIObservation)
  gap : Option String
  final : ReviewPullRequest
  trusted_ids : trustedIds github trusted = .ok ids
  read_start : github.pullRequest .start n = .ok initial
  read_commits : github.pullRequestCommits n = .ok commits
  chain : validateCurrentChain initial commits = .ok ()
  classified : commits.mapM ReviewCommit.classification = .ok classifications
  read_final :
    readFinal n github initial (commits.zip classifications) = .ok (reviews, ci, gap)
  read_finish : github.pullRequest .finish n = .ok final
  unchanged : final.headSha = initial.headSha ∧ final.baseSha = initial.baseSha
  commits_eq : result.commits = gateResults (finalCode (commits.zip classifications)) reviews ci
    gap ids now.time (commits.zip classifications)
  status_eq : result.status =
    if result.commits.any (fun result => result.gaps ≠ []) then .reviewGap else .pass

theorem evaluation_of_ok {n : Nat} {github : ReviewGateData} {trusted : Option (List Int)}
    {now : Clock} {result : ReviewGateResult}
    (h : evaluateReviewGate n github trusted now = .ok result) :
    Nonempty (Evaluation n github trusted now result) := by
  simp only [evaluateReviewGate, bind_eq_ok, require_ok] at h
  obtain ⟨ids, hids, _, -, initial, hstart, commits, hcommits, ⟨⟩, hchain, classifications,
    hclassified, _, -, ⟨reviews, ci, gap⟩, hread, final, hfinish, _, hsame, hresult⟩ := h
  obtain rfl := Except.ok.inj hresult
  rw [Bool.and_eq_true, decide_eq_true_eq, decide_eq_true_eq] at hsame
  exact ⟨⟨ids, initial, commits, classifications, reviews, ci, gap, final, hids, hstart, hcommits,
    hchain, hclassified, hread, hfinish, hsame, rfl, rfl⟩⟩

theorem chain_ok {initial : ReviewPullRequest} {commits : List ReviewCommit}
    (h : validateCurrentChain initial commits = .ok ()) :
    ∃ first rest, commits = first :: rest ∧ checkLinks initial [] none (first :: rest) = .ok () ∧
      ((first :: rest).getLast (by simp)).sha = initial.headSha := by
  unfold validateCurrentChain at h
  split at h
  · cases h
  · next last hlast =>
    rw [bind_eq_ok] at h
    obtain ⟨⟨⟩, hlinks, hhead⟩ := h
    rw [require_ok, decide_eq_true_eq] at hhead
    cases commits with
    | nil => cases hlast
    | cons first rest =>
      rw [List.getLast?_eq_some_getLast (by simp)] at hlast
      exact ⟨first, rest, rfl, hlinks, by rw [Option.some.inj hlast]; exact hhead⟩

/-- Whatever the commits after one are classified as, if none of them is code. -/
theorem plain_of_classified {commits : List ReviewCommit} {classifications : List Classification}
    (h : List.Forall₂ (fun commit classification => commit.classification = .ok classification)
      commits classifications) {c : ReviewCommit} (hc : c ∈ commits)
    (hcode : c.classification ≠ .ok .code) :
    ∃ classification, c.classification = .ok classification ∧ classification ≠ .code := by
  obtain ⟨classification, -, hclass⟩ : ∃ classification ∈ classifications,
      c.classification = .ok classification := by
    induction h with
    | nil => cases hc
    | cons hfirst _ ih =>
      rcases List.mem_cons.mp hc with rfl | hc
      · exact ⟨_, List.mem_cons_self, hfirst⟩
      · obtain ⟨classification, hmem, hclass⟩ := ih hc
        exact ⟨classification, List.mem_cons_of_mem _ hmem, hclass⟩
  refine ⟨classification, hclass, ?_⟩
  rintro rfl
  exact hcode hclass

/-- The gaps of the last code commit, when there are none at all. -/
theorem final_clean {n : Nat} {github : ReviewGateData} {trusted : Option (List Int)}
    {now : Clock} {result : ReviewGateResult} (e : Evaluation n github trusted now result)
    (hpass : result.status = .pass) {c : ReviewCommit}
    {before after : List (ReviewCommit × Classification)}
    (hzip : e.commits.zip e.classifications = before ++ (c, .code) :: after)
    (hafter : ∀ entry ∈ after, entry.2 ≠ .code) :
    (finalResult c e.reviews e.ci e.gap e.ids now.time).gaps = [] := by
  have hstatus := e.status_eq
  rw [hpass] at hstatus
  split at hstatus
  · cases hstatus
  · next hnone =>
    have hmem : finalResult c e.reviews e.ci e.gap e.ids now.time ∈ result.commits := by
      rw [e.commits_eq, hzip, finalCode_append hafter]
      exact finalResult_mem
    by_contra hgaps
    exact hnone (List.any_eq_true.mpr ⟨_, hmem, by simpa using hgaps⟩)

theorem findIdx_first {before after : List ReviewCommit} {c : ReviewCommit}
    (h : ∀ d ∈ before, d.sha ≠ c.sha) :
    (before ++ c :: after).findIdx (fun commit => commit.sha = c.sha) = before.length := by
  have hnone : before.findIdx (fun commit => decide (commit.sha = c.sha)) = before.length := by
    rw [List.findIdx_eq_length]
    intro d hd
    simpa using h d hd
  simp [List.findIdx_append, hnone, List.findIdx_cons]

/-- What the clean report of the last code commit was read off. -/
theorem final_facts {n : Nat} {github : ReviewGateData} {trusted : Option (List Int)}
    {now : Clock} {result : ReviewGateResult} (e : Evaluation n github trusted now result)
    (hpass : result.status = .pass) {before after : List ReviewCommit} {c : ReviewCommit}
    (hsplit : e.commits = before ++ c :: after) (hcode : c.classification = .ok .code)
    (hafter : ∀ d ∈ after, d.classification ≠ .ok .code)
    (hbefore : ∀ d ∈ before, d.sha ≠ c.sha) :
    CiSuccess github c.sha ∧ LatestApproves github n e.ids c.sha ∧
      CompareMatches github n e.initial c.sha
        ((e.commits.head?.map ReviewCommit.parentSha).getD "") (before.length + 1) := by
  have hclassified := classified_of_mapM e.classified
  have hlength : e.commits.length ≤ e.classifications.length := hclassified.length_eq.le
  rw [hsplit] at hclassified
  obtain ⟨before', classification, after', hclass, hzip, -, hafter'⟩ := zip_append hclassified
  obtain rfl : classification = .code := Except.ok.inj (hclass.symm.trans hcode)
  have hlast : ∀ entry ∈ after', entry.2 ≠ .code := by
    intro entry hentry heq
    obtain ⟨hmem, hclass'⟩ := hafter' entry hentry
    exact hafter entry.1 hmem (heq ▸ hclass')
  rw [← hsplit] at hzip
  obtain ⟨hmissing, hfailed, hverdict, hgap⟩ := finalResult_clean (final_clean e hpass hzip hlast)
  have hread := e.read_final
  have hmapped := List.map_fst_zip hlength
  simp only [hzip] at hread hmapped
  simp only [readFinal, finalCode_append hlast, bind_eq_ok] at hread
  obtain ⟨reviews, hreviews, ci, hci, evidence, hevidence, gap, hvalid, hread⟩ := hread
  obtain ⟨rfl, rfl, rfl⟩ : reviews = e.reviews ∧ ci = e.ci ∧ gap = e.gap := by
    simpa using Except.ok.inj hread
  rw [hgap] at hvalid
  refine ⟨⟨e.ci, hci, jobs_succeed hmissing hfailed⟩,
    ⟨e.reviews, hreviews, latest_of_approved hverdict⟩, evidence, hevidence, ?_⟩
  obtain ⟨authoritative, hmem, hexact, hsource, hbase, hcount, hmax⟩ := evidence_matches hvalid
  rw [hmapped] at hbase hcount
  refine ⟨authoritative, hmem, hexact, hsource, hbase, ?_, hmax⟩
  rw [hcount, hsplit, findIdx_first hbefore]
  rfl

/-- **A pass is sound.**  Where every commit lists its whole difference to its parent, the head
tree is the reviewed one outside the evidence directory, and the jobs, the latest trusted
review and the compare evidence of exactly the last code commit are in order. -/
theorem pass_sound {Blob : Type} (trees : Trees Blob) {n : Nat} {github : ReviewGateData}
    {trusted : Option (List Int)} {now : Clock} {result : ReviewGateResult}
    (hdiff : ∀ commits, github.pullRequestCommits n = .ok commits →
      ∀ c ∈ commits, CompleteDiff trees c)
    (h : evaluateReviewGate n github trusted now = .ok result) (hpass : result.status = .pass) :
    ∃ ids, trustedIds github trusted = .ok ids ∧ PassMeans trees n github ids := by
  obtain ⟨e⟩ := evaluation_of_ok h
  obtain ⟨first, rest, hcommits, hlinks, hhead⟩ := chain_ok e.chain
  have hdiff' := hdiff e.commits e.read_commits
  have hplain : ∀ c ∈ e.commits, c.classification ≠ .ok .code →
      ∃ classification, c.classification = .ok classification ∧ classification ≠ .code :=
    fun c hc hcode => plain_of_classified (classified_of_mapM e.classified) hc hcode
  have hfirst : e.commits.head? = some first := by rw [hcommits]; rfl
  refine ⟨e.ids, e.trusted_ids, e.initial, e.final, e.commits, first,
    (first :: rest).getLast (by simp), e.read_start, e.read_finish, e.unchanged.2, e.unchanged.1,
    e.read_commits, hfirst, ?_, hhead, ?_, ?_⟩
  · rw [hcommits]
    exact List.getLast?_eq_some_getLast (by simp)
  · intro hnone
    rw [hcommits] at hnone hdiff' hplain
    obtain ⟨classification, hclass, hcode⟩ := hplain first (by simp) (hnone first (by simp))
    obtain ⟨-, hlinks'⟩ := checkLinks_cons hlinks
    have hrest := agree_last hlinks'
      (fun d hd => hplain d (by simp [hd]) (hnone d (by simp [hd])))
      fun d hd => hdiff' d (by simp [hd])
    exact hrest.trans (agree_parent hclass hcode (hdiff' first (by simp)))
  · intro before c after hsplit hcode hafter
    have hsame : first :: rest = before ++ c :: after := by rw [← hcommits, hsplit]
    rw [hsame] at hlinks
    obtain ⟨-, hbefore, _, hlinks'⟩ := checkLinks_append hlinks
    have hfacts := final_facts e hpass hsplit hcode hafter hbefore
    rw [hfirst] at hfacts
    refine ⟨?_, hfacts⟩
    rw [hsplit] at hdiff' hplain
    have hrest := agree_last hlinks'
      (fun d hd => hplain d (by simp [hd]) (hafter d hd)) fun d hd => hdiff' d (by simp [hd])
    simp only [hsame, List.getLast_append_of_ne_nil _ (List.cons_ne_nil c after)]
    exact hrest

/-! ### A pull request that passes -/

namespace Sample

/-- Forty times one hexadecimal digit. -/
def sha (digit : Char) : String := String.ofList (List.replicate 40 digit)

/-- One commit of code. -/
def code : ReviewCommit := ⟨sha 'b', sha 'a', sha '2', sha '1', [⟨"app.py", "modified", none⟩]⟩

/-- The evidence that was recorded for it. -/
def record : ReviewCommit :=
  ⟨sha 'c', sha 'b', sha '3', sha '2', [⟨"docs/evidence/ci.md", "added", none⟩]⟩

/-- An approval of the code by the owner. -/
def approval : ReviewRecord := ⟨1, sha 'b', "COMMENTED", "## Approved", 10, 7, "owner"⟩

/-- What GitHub compares, from the first parent to the code. -/
def compare : CumulativeEvidence :=
  ⟨sha 'a', sha 'b', sha 'b', none, sha 'a', ["app.py"], "success", "github-compare", 0, 0,
    "github-server", 0, true, 1⟩

/-- The answers of GitHub, with these reviews and observations. -/
def github (reviews : List ReviewRecord) (evidence : List CumulativeEvidence) : ReviewGateData where
  repositoryOwnerId := .ok 7
  pullRequest := fun _ n => .ok ⟨n, sha 'a', sha 'c'⟩
  pullRequestCommits := fun _ => .ok [code, record]
  pullRequestReviews := fun _ => .ok reviews
  commitCi := fun _ =>
    .ok [("quality", ⟨"success"⟩), ("database", ⟨"success"⟩), ("container", ⟨"success"⟩)]
  cumulativeEvidence := fun _ _ _ => .ok evidence

/-- The trees: the code replaces one file, its record adds another. -/
def trees : Trees Nat := fun tree path =>
  if path = "app.py" then some (if tree = sha '1' then 0 else 1)
  else if path = "docs/evidence/ci.md" ∧ tree = sha '3' then some 2
  else none

/-- Every commit of the sample lists what it changes. -/
theorem completeDiff : ∀ c ∈ [code, record], CompleteDiff trees c := by
  have hcode : code.treeSha = sha '2' ∧ code.parentTreeSha = sha '1' := ⟨rfl, rfl⟩
  have hrecord : record.treeSha = sha '3' ∧ record.parentTreeSha = sha '2' := ⟨rfl, rfl⟩
  have h12 : sha '1' ≠ sha '2' := by decide +kernel
  have h13 : sha '1' ≠ sha '3' := by decide +kernel
  have h23 : sha '2' ≠ sha '3' := by decide +kernel
  intro c hc path hchanged
  rcases List.mem_cons.mp hc with rfl | hc
  · by_cases hpath : path = "app.py"
    · rw [hpath]
      decide
    · simp [trees, hpath, hcode, h13, h23] at hchanged
  · obtain rfl := List.mem_singleton.mp hc
    by_cases hpath : path = "app.py"
    · simp [trees, hpath, hrecord, h12.symm, h13.symm] at hchanged
    · by_cases hpath' : path = "docs/evidence/ci.md"
      · rw [hpath']
        decide
      · simp [trees, hpath, hpath'] at hchanged

end Sample

/-- The head of the sample is the approved code, outside the evidence directory. -/
theorem pass_sound_sample : ∃ ids,
    trustedIds (Sample.github [Sample.approval] [Sample.compare]) none = .ok ids ∧
      PassMeans Sample.trees 1 (Sample.github [Sample.approval] [Sample.compare]) ids := by
  have hpass : ((evaluateReviewGate 1 (Sample.github [Sample.approval] [Sample.compare]) none
      ⟨20, true⟩).toOption.map ReviewGateResult.status) = some .pass := by decide +kernel
  cases hresult : evaluateReviewGate 1 (Sample.github [Sample.approval] [Sample.compare]) none
      ⟨20, true⟩ with
  | error e =>
    rw [hresult] at hpass
    cases hpass
  | ok result =>
    rw [hresult] at hpass
    refine pass_sound Sample.trees ?_ hresult (Option.some.inj hpass)
    intro commits hcommits
    obtain rfl := Except.ok.inj hcommits
    exact Sample.completeDiff

end ProductPdfQr.ReviewGate
