/-
# The verdict of a review

A review counts by one line of its body: a heading in one of three grammars, outside fenced
code, and the only such heading.  `reviewVerdict` is the function of the gate that reads it,
down to the line breaks that `splitlines` knows and the fences that it blanks.
-/
import ProductPdfQr.Text

namespace ProductPdfQr.ReviewGate

/-! ## 1. Lines -/

/-- The characters that end a line for `str.splitlines`. -/
def isLineBreak (c : Char) : Bool :=
  c = '\n' || c = '\r' || c = '\x0b' || c = '\x0c' || c = '\x1c' || c = '\x1d' || c = '\x1e' ||
    c = '\x85' || c = '\u2028' || c = '\u2029'

/-- `str.splitlines`. -/
def splitLines : List Char → List (List Char)
  | [] => []
  | '\r' :: '\n' :: rest => [] :: splitLines rest
  | c :: rest =>
    if isLineBreak c then [] :: splitLines rest
    else match splitLines rest with
      | [] => [[c]]
      | line :: lines => (c :: line) :: lines

/-- `body.replace("\r\n", "\n")`. -/
def unixBreaks : List Char → List Char
  | '\r' :: '\n' :: rest => '\n' :: unixBreaks rest
  | c :: rest => c :: unixBreaks rest
  | [] => []

/-! ## 2. Fences -/

/-- A fence that is open: its character, and how many of it opened it. -/
structure Fence where
  marker : Char
  length : Nat
  deriving DecidableEq, Repr

/-- The line without its indent, where the indent is no more than three blanks. -/
def unindent (line : List Char) : Option (List Char) :=
  let rest := line.dropWhile (· = ' ')
  if line.length - rest.length ≤ 3 then some rest else none

/-- The fence that a line opens, if it opens one. -/
def opens (line : List Char) : Option Fence :=
  match unindent line with
  | some (c :: rest) =>
    let marker := (c :: rest).takeWhile (· = c)
    if (c = '\x60' || c = '~') && 3 ≤ marker.length then
      -- a fence of backticks carries none in what follows it
      if c = '\x60' && ((c :: rest).drop marker.length).contains '\x60' then none
      else some ⟨c, marker.length⟩
    else none
  | _ => none

/-- The line closes the fence. -/
def closes (fence : Fence) (line : List Char) : Bool :=
  match unindent line with
  | some rest =>
    let marker := rest.takeWhile (· = fence.marker)
    fence.length ≤ marker.length &&
      (rest.drop marker.length).all fun c => c = ' ' || c = '\t'
  | none => false

/-- `_without_fenced_code`, line by line: what is fenced becomes an empty line. -/
def withoutFencedCode : Option Fence → List (List Char) → List (List Char)
  | _, [] => []
  | none, line :: lines =>
    match opens line with
    | none => line :: withoutFencedCode none lines
    | some fence => [] :: withoutFencedCode (some fence) lines
  | some fence, line :: lines =>
    [] :: withoutFencedCode (if closes fence line then none else some fence) lines

/-! ## 3. Headings -/

/-- What the gate says of a commit. -/
inductive Verdict
  | approved
  | changesRequested
  | missing
  | untrusted
  | indeterminate
  | exempt
  deriving DecidableEq, Repr

/-- The word for it in a report. -/
def Verdict.text : Verdict → String
  | approved => "approved"
  | changesRequested => "changes_requested"
  | missing => "missing"
  | untrusted => "untrusted"
  | indeterminate => "indeterminate"
  | exempt => "exempt"

/-- One canonical verdict-heading language: what stands before the value, whether every value
makes a heading or only a known one does, and the known values. -/
structure VerdictGrammar where
  heading : String
  anyValue : Bool
  verdicts : List (String × Verdict)

/-- `VERDICT_GRAMMARS`. -/
def verdictGrammars : List VerdictGrammar :=
  [⟨"## Review verdict: ", true,
      [("approved", .approved), ("changes requested", .changesRequested)]⟩,
    ⟨"## 审查结论：", true, [("通过", .approved), ("需要修改", .changesRequested)]⟩,
    ⟨"## ", false, [("Approved", .approved), ("Changes requested", .changesRequested)]⟩]

/-- The value of the heading that the line is in this grammar. -/
def VerdictGrammar.match? (g : VerdictGrammar) (line : List Char) : Option String :=
  if g.heading.toList.isPrefixOf line then
    let value := String.ofList (line.drop g.heading.toList.length)
    if g.anyValue || (g.verdicts.lookup value).isSome then some value else none
  else none

/-- `_review_verdict`. -/
def reviewVerdict (body : String) : Option Verdict :=
  let lines := withoutFencedCode none (splitLines (unixBreaks body.toList))
  let found := verdictGrammars.flatMap fun g => (lines.filterMap g.match?).map fun value => (g, value)
  match found with
  | [(g, value)] => g.verdicts.lookup value
  | _ => none

theorem reviewVerdict_known {body : String} {verdict : Verdict}
    (h : reviewVerdict body = some verdict) :
    verdict = .approved ∨ verdict = .changesRequested := by
  unfold reviewVerdict at h
  dsimp only at h
  split at h
  · next g value hfound =>
    have hg : g ∈ verdictGrammars := by
      have hmem : (g, value) ∈ verdictGrammars.flatMap fun g =>
          ((withoutFencedCode none (splitLines (unixBreaks body.toList))).filterMap g.match?).map
            fun value => (g, value) := by
        rw [hfound]
        exact List.mem_singleton.mpr rfl
      obtain ⟨g', hg', hpair⟩ := List.mem_flatMap.mp hmem
      obtain ⟨_, _, heq⟩ := List.mem_map.mp hpair
      obtain rfl : g' = g := (Prod.ext_iff.mp heq).1
      exact hg'
    have hvalues : ∀ g ∈ verdictGrammars, ∀ entry ∈ g.verdicts,
        entry.2 = .approved ∨ entry.2 = .changesRequested := by decide +kernel
    obtain ⟨entry, hentry, rfl⟩ : ∃ entry ∈ g.verdicts, entry.2 = verdict := by
      rw [List.lookup_eq_some_iff] at h
      obtain ⟨before, after, heq, -⟩ := h
      exact ⟨(value, verdict), by rw [heq]; simp, rfl⟩
    exact hvalues g hg entry hentry
  · cases h

/-- A heading inside a fence is no verdict, and two headings are none either. -/
example : reviewVerdict "## Approved" = some .approved ∧
    reviewVerdict "~~~\n## Approved\n~~~" = none ∧
      reviewVerdict "## Approved\r\n## 审查结论：通过" = none := by decide +kernel

end ProductPdfQr.ReviewGate
