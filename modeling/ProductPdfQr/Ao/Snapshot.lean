/-
# The evidence snapshot

What the generator writes about a pull request: five files, rendered from the record of the pull
request, a CI run, the reviews and what Git says of the comparison.  Here are the texts, line by
line, and what is read back from two of them by searching.
-/
import ProductPdfQr.Ao.Trust
import ProductPdfQr.Pattern

namespace ProductPdfQr.Ao

open Text Pattern DeployRollback.AuditLog

/-! ## 1. The records -/

/-- The characters of a URL. -/
def isUrlChar (c : Char) : Bool :=
  (Text.isAlnum c || "-._~:/?#[]@!$&'()*+,;=%".toList.contains c)

/-- A URL of GitHub's. -/
structure Url where
  text : String
  proper : (startsWith text "https://" && text.toList.all isUrlChar) = true
  deriving DecidableEq, Repr

structure PullRequest where
  number : Int
  repository : String
  title : String
  sourceBranch : String
  targetBranch : String
  headSha : String
  url : Url
  reviewDecision : String
  deriving DecidableEq, Repr

structure CIJob where
  name : String
  conclusion : String
  url : Url
  deriving DecidableEq, Repr

structure CIRun where
  runId : Int
  commitSha : String
  status : String
  conclusion : String
  url : Url
  jobs : List CIJob
  deriving DecidableEq, Repr

structure ReviewEvidence where
  decision : String
  lineCommentUrls : List String
  reviewUrls : List String
  deriving DecidableEq, Repr

structure EvidenceBinding where
  prNumber : Int
  sourceBranch : String
  targetBranch : String
  codeCommitSha : String
  ciRunId : Int
  ciConclusion : String
  deriving DecidableEq, Repr

structure EvidenceAttestation where
  context : String
  state : String
  creatorId : Int
  creatorLogin : String
  creatorType : String
  description : String
  targetUrl : String
  deriving DecidableEq, Repr

structure ChangedFile where
  status : String
  path : String
  deriving DecidableEq, Repr

/-- Points in time with their offset, and the two methods that write and read them. -/
class IsoTime (Time : Type) where
  isoformat : Time → String
  fromisoformat : String → Option Time
  /-- `tzinfo` and `utcoffset()` are there. -/
  aware : Time → Bool

export IsoTime (isoformat fromisoformat aware)

/-! ## 2. What Git says of a comparison -/

/-- What Git prints about the comparison of a commit with the target branch. -/
structure Comparison where
  mergeBase : String
  patch : String
  nameStatus : String
  numstat : String
  log : String
  deriving DecidableEq, Repr

/-- `output.splitlines()`. -/
def lines (output : String) : List String := (splitLines output.toList).map String.ofList

/-- The part of a line before its first tab, and what is behind it. -/
def partitionTab (line : String) : String × Option String :=
  let before := line.toList.takeWhile (· ≠ '\t')
  match line.toList.dropWhile (· ≠ '\t') with
  | [] => (String.ofList before, none)
  | _ :: rest => (String.ofList before, some (String.ofList rest))

/-- `line.split("\t")`. -/
def tabFields (line : String) : List String := (split '\t' line.toList).map String.ofList

/-- `_parse_name_status`. -/
def parseNameStatus (output : String) : Option (List ChangedFile) :=
  ((lines output).filter fun line => 2 ≤ (tabFields line).length).mapM fun line =>
    match tabFields line with
    | [] => none
    | rawStatus :: names =>
      -- `raw_status[0]`, which is not there when the line begins with a tab.
      rawStatus.toList.head?.map fun status =>
        { path := if status = 'R' || status = 'C' then " → ".intercalate names
            else names.getLastD rawStatus
          status := if status = 'A' then "A" else if status = 'D' then "D" else "M" }

/-- A count of `--numstat`, which is a dash for a binary file. -/
def countOf (field : String) : Nat :=
  if field ≠ "" && field.toList.all (·.isDigit) then
    field.toList.foldl (fun n c => 10 * n + (c.toNat - 48)) 0
  else 0

/-- `_parse_numstat`. -/
def parseNumstat (output : String) : Nat × Nat :=
  (lines output).foldl (fun (additions, deletions) line =>
    match tabFields line with
    | added :: deleted :: _ :: _ => (additions + countOf added, deletions + countOf deleted)
    | _ => (additions, deletions)) (0, 0)

/-- `_parse_commits`. -/
def parseCommits (output : String) : List (String × String) :=
  (lines output).filterMap fun line =>
    match partitionTab line with
    | (sha, some subject) => some (sha, subject)
    | (_, none) => none

/-! ## 3. The five files -/

/-- A text of whole lines. -/
def document (content : List String) : String :=
  String.ofList (content.flatMap fun line => line.toList ++ ['\n'])

/-- `_escape`. -/
def escape (value : String) : String :=
  String.ofList (value.toList.flatMap fun c =>
    if c = '|' then ['\\', '|'] else if c = '\n' then [' '] else [c])

/-- A value between backticks. -/
def code (value : String) : String := "\x60" ++ value ++ "\x60"

/-- A row of two columns. -/
def row (label value : String) : String := "| " ++ label ++ " | " ++ value ++ " |"

def orElse (rows : List String) (otherwise : String) : List String :=
  if rows.isEmpty then [otherwise] else rows

variable {Time : Type} [IsoTime Time]

/-- The rows of the binding, above the time. -/
def bindingRows (pr : PullRequest) (ci : CIRun) (mergeBase : String)
    (ciDefinition : CIDefinitionComparison) : List String :=
  [row "PR number" (code ("#" ++ toString pr.number)),
    row "PR title" (escape pr.title),
    row "PR URL" pr.url.text,
    row "Source branch" (code pr.sourceBranch),
    row "Target branch" (code pr.targetBranch),
    row "Code commit SHA" (code pr.headSha),
    row "Merge base" (code mergeBase),
    row "CI run ID" (code (toString ci.runId)),
    row "CI conclusion" (code ci.conclusion),
    row "CI URL" ci.url.text,
    row "CI definition status" (code ciDefinition.status),
    row "Trusted CI definition hash" (code ciDefinition.trustedDefinitionHash),
    row "Candidate CI definition hash" (code ciDefinition.candidateDefinitionHash)]

/-- `_metadata_markdown`. -/
def metadataMarkdown (pr : PullRequest) (ci : CIRun) (mergeBase : String) (files : List ChangedFile)
    (additions deletions : Nat) (commits : List (String × String))
    (ciDefinition : CIDefinitionComparison) (createdAt : Time) : String :=
  document (
    ["# Evidence Snapshot for PR #" ++ toString pr.number, "", "## Binding", "",
      "| Field | Value |", "|---|---|"] ++
    bindingRows pr ci mergeBase ciDefinition ++
    [row "Created at" (code (isoformat createdAt)), "",
      "> The CI result above belongs to code commit " ++ code pr.headSha ++ ", not to the later",
      "> Evidence commit. The Evidence commit must not be used as a new generation trigger;",
      "> doing so would create a CI/Evidence loop.", ""] ++
    (if ci.status = "required-jobs-completed" then
      ["> The automatic Evidence job runs after the \x60quality\x60, \x60database\x60, and " ++
          "\x60container\x60",
        "> jobs succeed. At snapshot time the enclosing workflow is still active only because",
        "> this blocking Evidence job is its final job."]
    else []) ++ [""] ++
    (if ciDefinition.status = "requires-re-review" then
      ["> **Re-review required:** repository-controlled CI gate inputs differ from the trusted",
        "> default-branch definition. This Evidence must not receive or preserve a trusted",
        "> green status."]
    else []) ++
    ["", "## Change overview", "", "| Metric | Value |", "|---|---:|",
      row "Changed files" (toString files.length), row "Added lines" (toString additions),
      row "Deleted lines" (toString deletions), "",
      "The authoritative patch was generated with the three-dot comparison",
      code ("git diff origin/" ++ pr.targetBranch ++ "..." ++ pr.headSha ++
        " -- . ':(exclude)docs/evidence/**'") ++ ".",
      "The entire \x60docs/evidence/**\x60 tree is excluded to prevent self-reference. No source",
      "files are copied into this directory.", "", "## Code commits", "",
      "| Commit | Subject |", "|---|---|"] ++
    orElse (commits.map fun commit => row (code commit.1) (escape commit.2))
      "| — | No commits in comparison range |" ++
    ["", "## Position and known limitations", "",
      "This directory is a factual index and snapshot for PR #" ++ toString pr.number ++
        ". It records a",
      "fixed field set chosen by the tool's designers, so automatic generation does not",
      "eliminate selection bias or blind spots. \x60diff.patch\x60 is the complete authoritative",
      "change record for scope questions, excluding only \x60docs/evidence/**\x60.", "",
      "Evidence does not replace source review. An Advisor must read both this snapshot and",
      "the source at code commit " ++ code pr.headSha ++
        ". If Evidence and source disagree, source is",
      "authoritative and the Evidence error must be reported. The tool cannot mechanically",
      "prove that an Advisor actually read the source."])

def protectedPaths : List String :=
  ["migrations/", "docs/requirements-v1.md", "docs/requirements-v2.md", "CLAUDE.md",
    "docs/quality-gates-v1.md", "docs/advisor-protocol-v1.md", "docs/decision-register-v1.md",
    "docs/test-plan-v1.md"]

/-- The files of one status. -/
def filesSection (files : List ChangedFile) (status label : String) : List String :=
  ["## " ++ label ++ " files", ""] ++
    orElse ((files.filter fun file => file.status = status).map fun file =>
      "- " ++ code (escape file.path)) "- None"

/-- `_changed_files_markdown`. -/
def changedFilesMarkdown (pr : PullRequest) (mergeBase : String) (files : List ChangedFile)
    (additions deletions : Nat) : String :=
  document (
    ["# Changed files for PR #" ++ toString pr.number, "",
      "Comparison: " ++ code ("origin/" ++ pr.targetBranch ++ "..." ++ pr.headSha) ++
        " (three-dot)", "",
      "| Metric | Value |", "|---|---:|", row "Merge base" (code mergeBase),
      row "Changed files" (toString files.length), row "Added lines" (toString additions),
      row "Deleted lines" (toString deletions), ""] ++
    filesSection files "A" "Added" ++ filesSection files "M" "Modified" ++
    filesSection files "D" "Deleted" ++
    ["", "## Unmodified-boundary verification", "",
      "Run the following command from any worktree for this repository. It must produce no",
      "output; any output means a protected boundary changed:", "",
      "\x60\x60\x60bash",
      "git diff origin/" ++ pr.targetBranch ++ "..." ++ pr.headSha ++ " -- " ++
        " ".intercalate protectedPaths,
      "\x60\x60\x60", "",
      "The complete changed-path list can be reproduced without relying on this file:", "",
      "\x60\x60\x60bash",
      "git diff --name-status origin/" ++ pr.targetBranch ++ "..." ++ pr.headSha ++
        " -- . ':(exclude)docs/evidence/**'",
      "\x60\x60\x60"])

/-- `- None`, or a line for each. -/
def urlRows (urls : List String) : List String := orElse (urls.map fun url => "- " ++ url) "- None"

/-- `_validation_markdown`, down to the decision. -/
def validationHead (pr : PullRequest) (ci : CIRun) (mergeBase : String) (createdAt : Time) :
    List String :=
  ["# Validation record for PR #" ++ toString pr.number, "",
    "Created at: " ++ code (isoformat createdAt), "",
    "This file records evidence locations and results, not an evaluation of their",
    "correctness. When a record disagrees with its original source, the original source",
    "is authoritative.", "", "## CI status", "", "| Field | Value |", "|---|---|",
    row "Run ID" (code (toString ci.runId)), row "Code commit" (code ci.commitSha),
    row "Status" (code ci.status), row "Conclusion" (code ci.conclusion), row "URL" ci.url.text,
    row "Merge base" (code mergeBase), "",
    "> This CI result applies to code commit " ++ code pr.headSha ++
      ", not to the Evidence commit",
    "> that contains this directory. Do not regenerate Evidence to describe its own",
    "> commit. A later code change requires a new successful CI run and a regenerated",
    "> snapshot.", ""] ++
  (if ci.status = "required-jobs-completed" then
    ["The automatic Evidence job observed all three required code jobs as successful. The",
      "workflow status was still active solely because the blocking Evidence job had not yet",
      "finished."]
  else []) ++
  ["", "| Job | Conclusion | URL |", "|---|---|---|"] ++
  orElse ((ci.jobs.insertionSort fun a b => a.name ≤ b.name).map fun job =>
    "| " ++ escape job.name ++ " | " ++ code job.conclusion ++ " | " ++ job.url.text ++ " |") "" ++
  ["", "CI retrieval:", "", "\x60\x60\x60bash",
    "gh run view " ++ toString ci.runId ++ " --json jobs",
    "gh run view " ++ toString ci.runId ++ " --log",
    "gh run download " ++ toString ci.runId ++ " --name quality-reports",
    "gh run download " ++ toString ci.runId ++ " --name database-reports",
    "gh run download " ++ toString ci.runId ++ " --name clean-start-evidence",
    "\x60\x60\x60", "", "## Test evidence", "",
    "Test result locations are the \x60quality-reports\x60 and \x60database-reports\x60 artifacts",
    "from run " ++ code (toString ci.runId) ++ ". Reproduce the repository checks with:", "",
    "\x60\x60\x60bash", "make build-reproducible", "make typecheck", "make lint", "make test-unit",
    "make test-integration", "\x60\x60\x60", "", "## Reviewer status", ""]

/-- `_validation_markdown`. -/
def validationMarkdown (pr : PullRequest) (ci : CIRun) (reviews : ReviewEvidence)
    (mergeBase : String) (createdAt : Time) : String :=
  document (
    validationHead pr ci mergeBase createdAt ++
    ["GitHub review decision at generation time: " ++ code (escape reviews.decision), "",
      "Line-level comment URLs:", ""] ++ urlRows reviews.lineCommentUrls ++
    ["", "Review record URLs:", ""] ++ urlRows reviews.reviewUrls ++
    ["", "Independent retrieval:", "", "\x60\x60\x60bash",
      "gh api repos/" ++ pr.repository ++ "/pulls/" ++ toString pr.number ++ "/comments",
      "gh api repos/" ++ pr.repository ++ "/pulls/" ++ toString pr.number ++ "/reviews",
      "\x60\x60\x60"])

/-- `_advisor_context_markdown`. -/
def advisorContextMarkdown (pr : PullRequest) : String :=
  document [
    "# Advisor context for PR #" ++ toString pr.number, "", "## Required review order", "",
    "1. Read \x60metadata.md\x60 and verify the PR, branch, code commit, and CI binding.",
    "2. Run the boundary command in \x60changed-files.md\x60.",
    "3. Read \x60validation.md\x60 and follow its original evidence links.",
    "4. Inspect \x60diff.patch\x60 for the complete three-dot change record.",
    "5. Use the Advisor Workspace Resolver to inspect the source at code commit",
    "   " ++ code pr.headSha ++ " in detached HEAD state.", "",
    "The original Evidence files are in " ++
      code ("docs/evidence/pr-" ++ toString pr.number ++ "/") ++ " on branch",
    code pr.sourceBranch ++ ". The source of record is the repository at code commit",
    code pr.headSha ++ ".", "", "## Non-substitution rule", "",
    "This directory cannot replace source judgment. Evidence and the corresponding",
    "source commit are both required. If they disagree, source is authoritative and the",
    "Evidence error must be called out in the Advisor opinion. An opinion must record the",
    "actual reviewed commit SHA so that the gate can invalidate it after a later code",
    "change."]

/-! ## 4. What is read back -/

inductive EvidenceError where
  /-- metadata is missing a required binding field -/
  | missingField (label : String)
  /-- metadata Code commit SHA must be a full lowercase SHA -/
  | codeCommitSha
  /-- metadata contains an invalid PR number or CI run ID -/
  | invalidNumber
  /-- metadata CI conclusion is not success -/
  | notSuccess
  /-- metadata Created at must be an ISO-8601 timestamp with a timezone -/
  | createdAt
  /-- validation.md is missing the generated review decision -/
  | missingDecision
  /-- validation.md is missing a generated section -/
  | missingSection (heading : String)
  /-- validation.md has malformed entries in a section -/
  | malformedEntries (heading : String)
  /-- validation.md has an out-of-scope URL in a section -/
  | outOfScopeUrl (heading : String)
  /-- validation.md has duplicate URLs in a section -/
  | duplicateUrls (heading : String)
  /-- anything else that the verifier refuses -/
  | refused (check : String)
  deriving DecidableEq, Repr

/-- `[^|\x60]`. -/
def isFieldChar (c : Char) : Bool := c ≠ '|' && c ≠ '\x60'

/-- The expression of `_metadata_value`. -/
def fieldPattern (label : String) : List Piece :=
  [.word ['|'], .many isSpace, .word label.toList, .many isSpace, .word ['|'], .many isSpace,
    .maybe '\x60', .some true isFieldChar, .maybe '\x60', .many isSpace, .word ['|'], .lineEnd]

/-- `_metadata_value`. -/
def metadataValue (text label : String) : Except EvidenceError String :=
  match search (fieldPattern label) true text.toList with
  | some value => .ok (strip (String.ofList value))
  | none => .error (.missingField label)

/-- `value.removeprefix("#")`. -/
def dropHash (value : String) : String :=
  match value.toList with
  | '#' :: rest => String.ofList rest
  | _ => value

/-- `int(value)`, in digits of ASCII. -/
def pyInt (value : String) : Option Int :=
  let digits (cs : List Char) : Option Nat :=
    -- One underscore may stand between two digits.
    if (split '_' cs).all fun group => group ≠ [] && group.all (·.isDigit) then
      some ((cs.filter (· ≠ '_')).foldl (fun n c => 10 * n + (c.toNat - 48)) 0)
    else none
  match (strip value).toList with
  | '-' :: cs => (digits cs).map fun n => -(n : Int)
  | '+' :: cs => (digits cs).map fun n => (n : Int)
  | cs => (digits cs).map fun n => (n : Int)

/-- `parse_evidence_binding`. -/
def parseEvidenceBinding (text : String) : Except EvidenceError EvidenceBinding := do
  let prNumber ← metadataValue text "PR number"
  let sourceBranch ← metadataValue text "Source branch"
  let targetBranch ← metadataValue text "Target branch"
  let sha ← metadataValue text "Code commit SHA"
  let ciRunId ← metadataValue text "CI run ID"
  let ciConclusion ← metadataValue text "CI conclusion"
  if !isFullSha sha then throw .codeCommitSha
  match pyInt (dropHash prNumber), pyInt ciRunId with
  | some prNumber, some ciRunId =>
    if ciConclusion ≠ "success" then throw .notSuccess
    pure
      { prNumber, sourceBranch, targetBranch, ciRunId, ciConclusion
        codeCommitSha := sha }
  | _, _ => throw .invalidNumber

/-- `_metadata_created_at`. -/
def metadataCreatedAt (text : String) : Except EvidenceError Time := do
  let raw ← metadataValue text "Created at"
  match (fromisoformat raw : Option Time) with
  | some createdAt => if aware createdAt then pure createdAt else throw .createdAt
  | none => throw .createdAt

/-- The expression of `_validation_url_section`. -/
def sectionPattern (heading nextHeading : String) : List Piece :=
  [.word (heading.toList ++ ['\n', '\n']), .body, .word ('\n' :: '\n' :: nextHeading.toList),
    .lineEnd]

/-- `_validation_url_section`. -/
def validationUrlSection (text heading nextHeading requiredPrefix : String) :
    Except EvidenceError (List String) :=
  match search (sectionPattern heading nextHeading) true text.toList with
  | none => .error (.missingSection heading)
  | some body =>
    let entries := (lines (String.ofList body)).filter fun line => line ≠ ""
    if entries = ["- None"] then .ok []
    else if entries.isEmpty || entries.any fun line => !startsWith line "- " then
      .error (.malformedEntries heading)
    else
      let urls := entries.map fun line => String.ofList (line.toList.drop 2)
      if urls.any fun url => !startsWith url requiredPrefix then .error (.outOfScopeUrl heading)
      else if urls.dedup.length ≠ urls.length then .error (.duplicateUrls heading)
      else .ok urls

/-- `[^\x60\r\n]`. -/
def isDecisionChar (c : Char) : Bool := c ≠ '\x60' && c ≠ '\r' && c ≠ '\n'

/-- The expression for the review decision. -/
def decisionPattern : List Piece :=
  [.word "GitHub review decision at generation time: \x60".toList, .some false isDecisionChar,
    .word ['\x60'], .lineEnd]

/-- `_validation_review_evidence`. -/
def validationReviewEvidence (text : String) (pr : PullRequest) :
    Except EvidenceError ReviewEvidence := do
  match search decisionPattern true text.toList with
  | none => throw .missingDecision
  | some decision =>
    let lineCommentUrls ← validationUrlSection text "Line-level comment URLs:"
      "Review record URLs:" (pr.url.text ++ "#discussion_r")
    let reviewUrls ← validationUrlSection text "Review record URLs:" "Independent retrieval:"
      (pr.url.text ++ "#pullrequestreview-")
    pure { decision := String.ofList decision, lineCommentUrls, reviewUrls }

end ProductPdfQr.Ao
