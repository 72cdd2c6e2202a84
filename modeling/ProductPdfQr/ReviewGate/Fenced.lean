/-
# Fenced text in a review

A fenced block that is put between two lines of a review is meant to be quoted: what stands in it
decides nothing.  The gate cuts the body at every separator that `str.splitlines` knows, and there
are more of them than line feed and carriage return.  A line of the block can hold a line
separator, and behind it what closes the fence.
-/
import Mathlib.Data.List.Perm.Basic
import ProductPdfQr.ReviewGate.Verdict

namespace ProductPdfQr.ReviewGate

/-! ## 1. Lines that are not empty -/

/-- The lines the gate sees. -/
def codeLines (text : List Char) : List (List Char) := splitLines (unixBreaks text)

/-- Two lists of lines that begin alike and differ in empty lines only. -/
def Even (lines lines' : List (List Char)) : Prop :=
  lines.headD [] = lines'.headD [] ∧ lines.tail.filter (· ≠ []) = lines'.tail.filter (· ≠ [])

theorem Even.trans {a b c : List (List Char)} (hab : Even a b) (hbc : Even b c) : Even a c :=
  ⟨hab.1.trans hbc.1, hab.2.trans hbc.2⟩

theorem Even.filter {lines lines' : List (List Char)} (h : Even lines lines') :
    lines.filter (· ≠ []) = lines'.filter (· ≠ []) := by
  have hhead : ∀ l : List (List Char), l.filter (· ≠ []) =
      (if l.headD [] = [] then [] else [l.headD []]) ++ l.tail.filter (· ≠ []) := by
    intro l
    cases l with
    | nil => rfl
    | cons line l => by_cases hline : line = [] <;> simp [hline]
  rw [hhead lines, hhead lines', h.1, h.2]

theorem even_splitLines (text : List Char) : Even (splitLines text) (text.splitOnP isLineBreak) := by
  fun_induction splitLines text with
  | case1 => exact ⟨rfl, rfl⟩
  | case2 rest ih =>
    simp only [List.splitOnP_cons_eq_if_modifyHead, show isLineBreak '\r' = true from rfl,
      show isLineBreak '\n' = true from rfl, if_true]
    exact ⟨rfl, by simpa using ih.filter⟩
  | case3 c rest _ hbreak ih =>
    simp only [List.splitOnP_cons_eq_if_modifyHead, hbreak, if_true]
    exact ⟨rfl, by simpa using ih.filter⟩
  | case4 c rest _ hbreak hnil ih =>
    obtain ⟨line, lines, heq⟩ := List.exists_cons_of_ne_nil (List.splitOnP_ne_nil isLineBreak rest)
    rw [hnil, heq] at ih
    simp only [List.splitOnP_cons_eq_if_modifyHead, hbreak, heq]
    exact ⟨by simpa using ih.1, by simpa using ih.2⟩
  | case5 c rest _ hbreak line lines hlines ih =>
    obtain ⟨line', lines', heq⟩ := List.exists_cons_of_ne_nil (List.splitOnP_ne_nil isLineBreak rest)
    rw [hlines, heq] at ih
    simp only [List.splitOnP_cons_eq_if_modifyHead, hbreak, heq]
    exact ⟨by simpa using ih.1, by simpa using ih.2⟩

theorem even_unixBreaks (text : List Char) :
    Even ((unixBreaks text).splitOnP isLineBreak) (text.splitOnP isLineBreak) := by
  fun_induction unixBreaks text with
  | case1 rest ih =>
    simp only [List.splitOnP_cons_eq_if_modifyHead, show isLineBreak '\r' = true from rfl,
      show isLineBreak '\n' = true from rfl, if_true]
    exact ⟨rfl, by simpa using ih.filter⟩
  | case2 c rest _ ih =>
    simp only [List.splitOnP_cons_eq_if_modifyHead]
    split
    · exact ⟨rfl, by simpa using ih.filter⟩
    · obtain ⟨line, lines, heq⟩ := List.exists_cons_of_ne_nil (List.splitOnP_ne_nil isLineBreak rest)
      obtain ⟨line', lines', heq'⟩ := List.exists_cons_of_ne_nil
        (List.splitOnP_ne_nil isLineBreak (unixBreaks rest))
      rw [heq, heq'] at ih ⊢
      exact ⟨by simpa using ih.1, by simpa using ih.2⟩
  | case3 => exact ⟨rfl, rfl⟩

/-- The lines that are not empty. -/
def written (text : List Char) : List (List Char) :=
  (text.splitOnP isLineBreak).filter (· ≠ [])

theorem filter_codeLines (text : List Char) : (codeLines text).filter (· ≠ []) = written text :=
  ((even_splitLines _).trans (even_unixBreaks text)).filter

/-- A text that stops at the end of a line. -/
def Ended (text : List Char) : Prop :=
  text = [] ∨ ∃ front c, text = front ++ [c] ∧ isLineBreak c = true

/-- What follows a line is cut on its own. -/
theorem written_append {text : List Char} (h : Ended text) (rest : List Char) :
    written (text ++ rest) = written text ++ written rest := by
  rcases h with rfl | ⟨front, c, rfl, hc⟩
  · rfl
  · rw [List.append_assoc, List.singleton_append, written, written, written,
      List.splitOnP_append_cons _ _ hc, List.splitOnP_append_cons _ _ hc, List.splitOnP_nil,
      List.filter_append, List.filter_append]
    simp

theorem Ended.append {text text' : List Char} (h : Ended text) (h' : Ended text') :
    Ended (text ++ text') := by
  rcases h' with rfl | ⟨front, c, rfl, hc⟩
  · rwa [List.append_nil]
  · exact .inr ⟨text ++ front, c, by rw [List.append_assoc], hc⟩

/-! ## 2. Fences over several texts -/

/-- A fence that a line can open. -/
def Fence.Proper (f : Fence) : Prop := (f.marker = '\x60' ∨ f.marker = '~') ∧ 3 ≤ f.length

theorem proper_of_opens {line : List Char} {f : Fence} (h : opens line = some f) : f.Proper := by
  unfold opens at h
  split at h
  · dsimp only at h
    split at h
    · next hmarker =>
      simp only [Bool.and_eq_true, Bool.or_eq_true, decide_eq_true_eq] at hmarker
      split at h
      · cases h
      · obtain rfl := Option.some.inj h
        exact hmarker
    · cases h
  · cases h

/-- The fence that is open after the lines. -/
def fenceAfter : Option Fence → List (List Char) → Option Fence
  | st, [] => st
  | none, line :: lines => fenceAfter (opens line) lines
  | some f, line :: lines => fenceAfter (if closes f line then none else some f) lines

theorem proper_fenceAfter {f : Fence} : ∀ {lines : List (List Char)} {st : Option Fence},
    (∀ g, st = some g → g.Proper) → fenceAfter st lines = some f → f.Proper
  | [], _, hst, h => hst f (by simpa [fenceAfter] using h)
  | _ :: _, none, _, h => proper_fenceAfter (fun _ hg => proper_of_opens hg) h
  | _ :: _, some g, hst, h => by
    rw [fenceAfter] at h
    refine proper_fenceAfter (fun g' hg' => ?_) h
    split at hg'
    · cases hg'
    · exact hst g' hg'

/-- The lines outside the fences, but for the empty ones. -/
def outside (st : Option Fence) (lines : List (List Char)) : List (List Char) :=
  (withoutFencedCode st lines).filter (· ≠ [])

theorem outside_none (line : List Char) (lines : List (List Char)) :
    outside none (line :: lines) =
      (if opens line = none ∧ line ≠ [] then [line] else []) ++ outside (opens line) lines := by
  rw [outside, withoutFencedCode]
  cases hopens : opens line with
  | none => by_cases hline : line = [] <;> simp [outside, hline]
  | some f => simp [outside]

theorem outside_some (f : Fence) (line : List Char) (lines : List (List Char)) :
    outside (some f) (line :: lines) = outside (if closes f line then none else some f) lines := by
  rw [outside, withoutFencedCode, List.filter_cons_of_neg (by simp)]
  rfl

theorem outside_append (st : Option Fence) (lines lines' : List (List Char)) :
    outside st (lines ++ lines') = outside st lines ++ outside (fenceAfter st lines) lines' := by
  induction lines generalizing st with
  | nil => cases st <;> rfl
  | cons line lines ih =>
    cases st with
    | none => rw [List.cons_append, outside_none, outside_none, fenceAfter, ih, List.append_assoc]
    | some f => rw [List.cons_append, outside_some, outside_some, fenceAfter, ih]

theorem fenceAfter_append (st : Option Fence) (lines lines' : List (List Char)) :
    fenceAfter st (lines ++ lines') = fenceAfter (fenceAfter st lines) lines' := by
  induction lines generalizing st with
  | nil => cases st <;> rfl
  | cons line lines ih =>
    cases st with
    | none => rw [List.cons_append, fenceAfter, fenceAfter, ih]
    | some f => rw [List.cons_append, fenceAfter, fenceAfter, ih]

theorem closes_nil {f : Fence} (h : f.Proper) : closes f [] = false := by
  have hlength : ¬f.length ≤ 0 := by have := h.2; omega
  simp [closes, unindent, hlength]

/-- An empty line neither shows nor opens nor closes anything. -/
theorem scan_filter {st : Option Fence} (hst : ∀ g, st = some g → g.Proper)
    (lines : List (List Char)) :
    outside st (lines.filter (· ≠ [])) = outside st lines ∧
      fenceAfter st (lines.filter (· ≠ [])) = fenceAfter st lines := by
  induction lines generalizing st with
  | nil => exact ⟨rfl, rfl⟩
  | cons line lines ih =>
    by_cases hline : line = []
    · subst hline
      rw [List.filter_cons_of_neg (by simp)]
      obtain ⟨hout, hafter⟩ := ih hst
      cases st with
      | none =>
        rw [hout, hafter, outside_none, fenceAfter]
        exact ⟨rfl, rfl⟩
      | some f =>
        rw [hout, hafter, outside_some, fenceAfter, closes_nil (hst f rfl)]
        exact ⟨rfl, rfl⟩
    · rw [List.filter_cons_of_pos (by simpa using hline)]
      cases st with
      | none =>
        have hopens : ∀ g, opens line = some g → g.Proper := fun g hg => proper_of_opens hg
        obtain ⟨hout, hafter⟩ := ih hopens
        rw [outside_none, outside_none, fenceAfter, fenceAfter, hout, hafter]
        exact ⟨rfl, rfl⟩
      | some f =>
        have hnext : ∀ g, (if closes f line then none else some f) = some g → g.Proper := by
          intro g hg
          split at hg
          · cases hg
          · exact hst g hg
        obtain ⟨hout, hafter⟩ := ih hnext
        rw [outside_some, outside_some, fenceAfter, fenceAfter, hout, hafter]
        exact ⟨rfl, rfl⟩

/-! ## 3. Headings -/

/-- The verdict headings among the lines, grammar by grammar. -/
def headings (lines : List (List Char)) : List (VerdictGrammar × String) :=
  verdictGrammars.flatMap fun g => (lines.filterMap g.match?).map fun value => (g, value)

/-- What the headings say: only one that stands alone decides. -/
def decided : List (VerdictGrammar × String) → Option Verdict
  | [(g, value)] => g.verdicts.lookup value
  | _ => none

theorem decided_two {found : List (VerdictGrammar × String)} (h : 2 ≤ found.length) :
    decided found = none := by
  match found, h with
  | _ :: _ :: _, _ => rfl

theorem decided_perm {found found' : List (VerdictGrammar × String)} (h : found.Perm found') :
    decided found = decided found' := by
  match found, h with
  | [], h => rw [List.nil_perm.mp h]
  | [_], h => rw [List.singleton_perm.mp h]
  | _ :: _ :: _, h => rw [decided_two (by simp), decided_two (by rw [← h.length_eq]; simp)]

theorem headings_append (lines lines' : List (List Char)) :
    (headings (lines ++ lines')).Perm (headings lines ++ headings lines') := by
  have heq : headings (lines ++ lines') = verdictGrammars.flatMap fun g =>
      ((lines.filterMap g.match?).map fun value => (g, value)) ++
        ((lines'.filterMap g.match?).map fun value => (g, value)) := by
    simp [headings, List.filterMap_append]
  rw [heq]
  exact (List.flatMap_append_perm _ _ _).symm

theorem match?_nil {g : VerdictGrammar} (hg : g ∈ verdictGrammars) : g.match? [] = none := by
  have hall : (verdictGrammars.all fun g => g.match? [] = none) = true := by decide +kernel
  simpa using List.all_eq_true.mp hall g hg

theorem headings_filter (lines : List (List Char)) :
    headings (lines.filter (· ≠ [])) = headings lines := by
  have hsame : ∀ g ∈ verdictGrammars,
      (lines.filter (· ≠ [])).filterMap g.match? = lines.filterMap g.match? := by
    intro g hg
    rw [List.filterMap_filter]
    refine List.filterMap_congr fun line _ => ?_
    by_cases hline : line = []
    · rw [hline, match?_nil hg]
      rfl
    · simp [hline]
  rw [headings, headings]
  exact List.flatMap_congr fun g hg => by rw [hsame g hg]

/-- The headings that a text shows when it begins with the fence `st` open. -/
def shown (st : Option Fence) (text : List Char) : List (VerdictGrammar × String) :=
  headings (withoutFencedCode st (codeLines text))

/-- The fence that is open behind it. -/
def fenceBehind (st : Option Fence) (text : List Char) : Option Fence :=
  fenceAfter st (codeLines text)

theorem shown_eq {st : Option Fence} (hst : ∀ g, st = some g → g.Proper) (text : List Char) :
    shown st text = headings (outside st (written text)) := by
  rw [← filter_codeLines, (scan_filter hst _).1, outside, headings_filter, shown]

theorem fenceBehind_eq {st : Option Fence} (hst : ∀ g, st = some g → g.Proper) (text : List Char) :
    fenceBehind st text = fenceAfter st (written text) := by
  rw [← filter_codeLines, (scan_filter hst _).2, fenceBehind]

theorem proper_fenceBehind {st : Option Fence} (hst : ∀ g, st = some g → g.Proper)
    (text : List Char) : ∀ g, fenceBehind st text = some g → g.Proper :=
  fun _ hg => proper_fenceAfter hst hg

theorem proper_none : ∀ g, (none : Option Fence) = some g → g.Proper := fun _ h => by cases h

theorem reviewVerdict_eq (text : List Char) :
    reviewVerdict (String.ofList text) = decided (shown none text) := by
  rw [reviewVerdict, String.toList_ofList]
  rfl

/-- Behind a line, a text shows what it shows on its own, from the fence that is open there. -/
theorem shown_append {st : Option Fence} (hst : ∀ g, st = some g → g.Proper) {text : List Char}
    (h : Ended text) (rest : List Char) :
    (shown st (text ++ rest)).Perm (shown st text ++ shown (fenceBehind st text) rest) := by
  rw [shown_eq hst, shown_eq hst, shown_eq (proper_fenceBehind hst text), written_append h,
    outside_append, fenceBehind_eq hst]
  exact headings_append ..

theorem fenceBehind_append {st : Option Fence} (hst : ∀ g, st = some g → g.Proper)
    {text : List Char} (h : Ended text) (rest : List Char) :
    fenceBehind st (text ++ rest) = fenceBehind (fenceBehind st text) rest := by
  rw [fenceBehind_eq hst, fenceBehind_eq (proper_fenceBehind hst text), written_append h,
    fenceAfter_append, fenceBehind_eq hst]

/-! ## 4. Blocks -/

/-- What a line of a review ends with. -/
inductive LineEnd
  | lf
  | cr
  | crlf
  deriving DecidableEq, Repr

/-- The characters of it. -/
def LineEnd.chars : LineEnd → List Char
  | lf => ['\n']
  | cr => ['\r']
  | crlf => ['\r', '\n']

/-- A line: any characters but these two, and its end. -/
structure TextLine where
  content : List Char
  ending : LineEnd
  plain : ∀ c ∈ content, c ≠ '\n' ∧ c ≠ '\r'

/-- The lines as a text. -/
def render (lines : List TextLine) : List Char :=
  lines.flatMap fun line => line.content ++ line.ending.chars

/-- A fenced block: a line that opens a fence, lines none of which closes it, and one that does. -/
structure FencedBlock where
  fence : Fence
  opening : TextLine
  inner : List TextLine
  closing : TextLine
  opens_eq : opens opening.content = some fence
  inner_closes : ∀ line ∈ inner, closes fence line.content = false
  closing_closes : closes fence closing.content = true

/-- The lines of a block. -/
def FencedBlock.lines (b : FencedBlock) : List TextLine := b.opening :: (b.inner ++ [b.closing])

theorem ended_line (line : TextLine) : Ended (line.content ++ line.ending.chars) := by
  cases line.ending with
  | lf => exact .inr ⟨line.content, '\n', rfl, rfl⟩
  | cr => exact .inr ⟨line.content, '\r', rfl, rfl⟩
  | crlf => exact .inr ⟨line.content ++ ['\r'], '\n', by simp [LineEnd.chars], rfl⟩

theorem ended_render (lines : List TextLine) : Ended (render lines) := by
  induction lines with
  | nil => exact .inl rfl
  | cons line lines ih => exact (ended_line line).append ih

/-! ## 5. What a block changes -/

/-- The text decides whatever follows it: it shows two headings, or one of no known value. -/
def Settled (text : List Char) : Prop :=
  2 ≤ (shown none text).length ∨
    ∃ g value, shown none text = [(g, value)] ∧ g.verdicts.lookup value = none

/-- Cut at every separator, the block shows no heading behind the text, and leaves the fence that
was open there, or none, as it found it. -/
def Harmless (text block : List Char) : Prop :=
  shown (fenceBehind none text) block = [] ∧
    fenceBehind (fenceBehind none text) block = fenceBehind none text

theorem decided_of_settled {text : List Char} (h : Settled text)
    (more : List (VerdictGrammar × String)) : decided (shown none text ++ more) = none := by
  rcases h with h | ⟨g, value, heq, hvalue⟩
  · exact decided_two (by rw [List.length_append]; omega)
  · rw [heq]
    cases more with
    | nil => exact hvalue
    | cons entry more => exact decided_two (by simp)

/-! ### Probes

A text that shows an approval exactly behind the fences that its first line closes. -/

/-- The shortest line that closes a fence. -/
def Fence.line (f : Fence) : List Char := List.replicate f.length f.marker

/-- A heading that approves. -/
def approving : List Char := "## Approved".toList

/-- What brings an approval to light behind `st`. -/
def probe : Option Fence → List Char
  | none => approving
  | some f => f.line ++ '\n' :: approving

/-- What an approval shows. -/
def seen : List (VerdictGrammar × String) := headings [approving]

theorem decided_seen : decided seen = some .approved := by decide +kernel

theorem length_seen : seen.length = 1 := by decide +kernel

theorem Fence.Proper.marker_ne {f : Fence} (h : f.Proper) {c : Char} (hc : c ≠ '\x60' ∧ c ≠ '~') :
    f.marker ≠ c := by
  rcases h.1 with h | h <;> rw [h]
  · exact hc.1.symm
  · exact hc.2.symm

theorem Fence.Proper.isLineBreak {f : Fence} (h : f.Proper) : isLineBreak f.marker = false := by
  rcases h.1 with h | h <;> rw [h] <;> rfl

theorem unindent_line {f : Fence} (h : f.Proper) : unindent f.line = some f.line := by
  have hdrop : f.line.dropWhile (· = ' ') = f.line := by
    obtain ⟨n, hn⟩ : ∃ n, f.length = n + 1 := ⟨f.length - 1, by have := h.2; omega⟩
    rw [Fence.line, hn, List.replicate_succ, List.dropWhile_cons_of_neg]
    simpa using h.marker_ne (c := ' ') (by decide)
  rw [unindent, hdrop]
  simp

theorem closes_line {f g : Fence} (hf : f.Proper) (hg : g.Proper) :
    closes g f.line = true ↔ g.marker = f.marker ∧ g.length ≤ f.length := by
  have hlength := hg.2
  rw [closes, unindent_line hf]
  by_cases hmarker : f.marker = g.marker
  · simp [Fence.line, hmarker]
  · have hmarker' : g.marker ≠ f.marker := fun h => hmarker h.symm
    simp only [Fence.line, List.takeWhile_replicate, hmarker, hmarker', decide_false, if_false,
      Bool.false_eq_true, List.length_nil, false_and, iff_false]
    simp only [Bool.and_eq_true, decide_eq_true_eq, not_and]
    omega

theorem opens_line {f : Fence} (h : f.Proper) : opens f.line = some f := by
  obtain ⟨n, hn⟩ : ∃ n, f.length = n + 1 := ⟨f.length - 1, by have := h.2; omega⟩
  have hline : f.line = f.marker :: List.replicate n f.marker := by
    rw [Fence.line, hn, List.replicate_succ]
  have htake : (f.marker :: List.replicate n f.marker).takeWhile (· = f.marker) =
      f.marker :: List.replicate n f.marker := by
    simp
  have hmarker : (decide (f.marker = '\x60') || decide (f.marker = '~')) = true := by
    rcases h.1 with h | h <;> simp [h]
  have hdrop : (f.marker :: List.replicate n f.marker).drop f.length = [] := by
    simp [hn]
  rw [opens, unindent_line h, hline]
  dsimp only
  rw [htake]
  simp [hmarker, h.2, hdrop, hn.symm]

theorem written_probe {st : Option Fence} (hst : ∀ g, st = some g → g.Proper) :
    written (probe st) = match st with
      | none => [approving]
      | some f => [f.line, approving] := by
  have happroving : written approving = [approving] := by decide +kernel
  cases st with
  | none => exact happroving
  | some f =>
    have hf := hst f rfl
    have hline : written f.line = [f.line] := by
      rw [written, List.splitOnP_eq_singleton]
      · have hne : f.line ≠ [] := by
          intro heq
          have := congrArg List.length heq
          have := hf.2
          simp [Fence.line] at *
          omega
        simp [hne]
      · intro c hc
        rw [List.eq_of_mem_replicate hc]
        exact hf.isLineBreak
    have hended : Ended (f.line ++ ['\n']) := .inr ⟨f.line, '\n', rfl, rfl⟩
    have hfront : written (f.line ++ ['\n']) = [f.line] := by
      rw [← hline, written, written, List.splitOnP_append_cons _ _ rfl, List.splitOnP_nil,
        List.filter_append]
      simp
    have hprobe : probe (some f) = (f.line ++ ['\n']) ++ approving := by
      rw [probe, List.append_assoc]
      rfl
    rw [hprobe, written_append hended, hfront, happroving]
    rfl

theorem outside_approving (st : Option Fence) (hst : ∀ g, st = some g → g.Proper) :
    outside st [approving] = if st = none then [approving] else [] := by
  cases st with
  | none =>
    rw [if_pos rfl, outside_none]
    decide +kernel
  | some f =>
    rw [if_neg (by simp), outside_some]
    split
    · rfl
    · rfl

/-- A probe shows its approval behind the fence it is for. -/
theorem shown_probe_self {st : Option Fence} (hst : ∀ g, st = some g → g.Proper) :
    shown st (probe st) = seen := by
  rw [shown_eq hst, written_probe hst]
  cases st with
  | none => exact congrArg headings (outside_approving none hst)
  | some f =>
    have hclose : closes f f.line = true := (closes_line (hst f rfl) (hst f rfl)).mpr ⟨rfl, le_rfl⟩
    rw [outside_some, if_pos hclose]
    exact congrArg headings (outside_approving none proper_none)

/-- Behind any fence a probe shows its approval or nothing; it shows it only behind a fence that
its first line closes. -/
theorem shown_probe {st st' : Option Fence} (hst : ∀ g, st = some g → g.Proper)
    (hst' : ∀ g, st' = some g → g.Proper) :
    shown st' (probe st) = [] ∨ shown st' (probe st) = seen ∧
      (st = none → st' = none) ∧ ∀ f, st = some f →
        ∃ f', st' = some f' ∧ f'.marker = f.marker ∧ f'.length ≤ f.length := by
  rw [shown_eq hst', written_probe hst]
  have hnone : outside none [approving] = [approving] := outside_approving none proper_none
  have hsome : ∀ g : Fence, g.Proper → outside (some g) [approving] = [] := fun g hg =>
    outside_approving (some g) fun _ h => Option.some.inj h ▸ hg
  have hempty : headings [] = [] := rfl
  cases st with
  | none =>
    cases st' with
    | none => exact .inr ⟨congrArg headings hnone, fun _ => rfl, fun _ h => by cases h⟩
    | some g => exact .inl (congrArg headings (hsome g (hst' g rfl)))
  | some f =>
    have hf := hst f rfl
    cases st' with
    | none =>
      left
      dsimp only
      rw [outside_none, opens_line hf, if_neg (by simp), List.nil_append, hsome f hf, hempty]
    | some g =>
      have hg := hst' g rfl
      dsimp only
      rw [outside_some]
      by_cases hclose : closes g f.line = true
      · rw [if_pos hclose, hnone]
        obtain ⟨hmarker, hlength⟩ := (closes_line hf hg).mp hclose
        refine .inr ⟨rfl, fun h => (Option.some_ne_none f h).elim, fun f' h => ?_⟩
        obtain rfl := Option.some.inj h
        exact ⟨g, rfl, hmarker, hlength⟩
      · rw [if_neg hclose, hsome g hg]
        exact .inl hempty

/-- Fences behind which the probes for both show the same are one. -/
theorem fence_eq {a b : Option Fence} (ha : ∀ g, a = some g → g.Proper)
    (hb : ∀ g, b = some g → g.Proper)
    (h : ∀ st, (∀ g, st = some g → g.Proper) →
      (shown b (probe st) = [] ↔ shown a (probe st) = [])) : b = a := by
  have hseen : seen ≠ [] := fun heq => by have := length_seen; rw [heq] at this; cases this
  have hab : shown b (probe a) ≠ [] := fun heq => hseen ((shown_probe_self ha) ▸ (h a ha).mp heq)
  have hba : shown a (probe b) ≠ [] := fun heq => hseen ((shown_probe_self hb) ▸ (h b hb).mpr heq)
  obtain ⟨-, hnone, hsome⟩ := (shown_probe ha hb).resolve_left hab
  obtain ⟨-, -, hsome'⟩ := (shown_probe hb ha).resolve_left hba
  cases a with
  | none => exact hnone rfl
  | some f =>
    obtain ⟨f', rfl, hmarker, hlength⟩ := hsome f rfl
    obtain ⟨f'', heq, -, hlength'⟩ := hsome' f' rfl
    obtain rfl := Option.some.inj heq
    have hlen := Nat.le_antisymm hlength hlength'
    cases f
    cases f'
    simp_all

/-! ## 6. When a block decides nothing -/

theorem shown_nil (st : Option Fence) : shown st [] = [] := by
  cases st <;> rfl

/-- A heading that decides alone does so until another one is shown. -/
theorem decided_alone {g : VerdictGrammar} {value : String} {verdict : Verdict}
    (h : g.verdicts.lookup value = some verdict) {more : List (VerdictGrammar × String)} :
    decided ([(g, value)] ++ more) = some verdict ↔ more = [] := by
  cases more with
  | nil => exact ⟨fun _ => rfl, fun _ => h⟩
  | cons entry more =>
    have htwo : 2 ≤ ((g, value) :: entry :: more).length := by simp
    simp [decided_two htwo]

theorem block_ignored_iff {text block : List Char} (htext : Ended text) (hblock : Ended block) :
    (∀ rest, decided (shown none (text ++ block ++ rest)) = decided (shown none (text ++ rest))) ↔
      Settled text ∨ Harmless text block := by
  have hproper := proper_fenceBehind proper_none text
  have hproper' := proper_fenceBehind hproper block
  have hwith : ∀ rest, decided (shown none (text ++ block ++ rest)) = decided
      (shown none text ++ (shown (fenceBehind none text) block ++
        shown (fenceBehind (fenceBehind none text) block) rest)) := by
    intro rest
    rw [List.append_assoc]
    exact decided_perm ((shown_append proper_none htext _).trans
      (((shown_append hproper hblock rest)).append_left _))
  have hwithout : ∀ rest, decided (shown none (text ++ rest)) =
      decided (shown none text ++ shown (fenceBehind none text) rest) := fun rest =>
    decided_perm (shown_append proper_none htext rest)
  simp only [hwith, hwithout]
  constructor
  · intro h
    by_cases hsettled : Settled text
    · exact .inl hsettled
    refine .inr ?_
    have hcases : shown none text = [] ∨ ∃ g value verdict,
        shown none text = [(g, value)] ∧ g.verdicts.lookup value = some verdict := by
      match heq : shown none text with
      | [] => exact .inl rfl
      | [(g, value)] =>
        cases hvalue : g.verdicts.lookup value with
        | none => exact absurd (.inr ⟨g, value, heq, hvalue⟩) hsettled
        | some verdict => exact .inr ⟨g, value, verdict, rfl, hvalue⟩
      | _ :: _ :: _ => exact absurd (.inl (by rw [heq]; simp)) hsettled
    rcases hcases with hnone | ⟨g, value, verdict, halone, hvalue⟩
    · -- nothing was shown before: what the probe brings to light must stand alone
      rw [hnone] at h
      simp only [List.nil_append] at h
      have hblank := h []
      rw [shown_nil, shown_nil, List.append_nil] at hblank
      have hprobe := h (probe (fenceBehind none text))
      rw [shown_probe_self hproper, decided_seen] at hprobe
      have hempty : shown (fenceBehind none text) block = [] := by
        rcases shown_probe hproper hproper' with hdark | ⟨hlight, -⟩
        · rw [hdark, List.append_nil, hblank] at hprobe
          cases hprobe
        · rw [hlight] at hprobe
          by_contra hne
          rw [decided_two] at hprobe
          · cases hprobe
          · have := List.length_pos_iff.mpr hne
            rw [List.length_append, length_seen]
            omega
      refine ⟨hempty, fence_eq hproper hproper' fun st hst => ?_⟩
      have hst' := h (probe st)
      rw [hempty, List.nil_append] at hst'
      rcases shown_probe hst hproper with ha | ⟨ha, -⟩ <;>
        rcases shown_probe hst hproper' with hb | ⟨hb, -⟩ <;> rw [ha, hb] at hst' ⊢
      · rw [decided_seen] at hst'
        cases hst'
      · rw [decided_seen] at hst'
        cases hst'
    · -- one heading stood alone: nothing may join it, and then nothing may come to light
      rw [halone] at h
      have hiff : ∀ rest, (shown (fenceBehind none text) block ++
          shown (fenceBehind (fenceBehind none text) block) rest = [] ↔
            shown (fenceBehind none text) rest = []) := by
        intro rest
        rw [← decided_alone hvalue, h rest, decided_alone hvalue]
      have hempty : shown (fenceBehind none text) block = [] := by
        have hnil := (hiff []).mpr (shown_nil _)
        exact (List.append_eq_nil_iff.mp hnil).1
      refine ⟨hempty, fence_eq hproper hproper' fun st _ => ?_⟩
      have hst' := hiff (probe st)
      rwa [hempty, List.nil_append] at hst'
  · rintro (hsettled | ⟨hempty, hfence⟩) rest
    · rw [decided_of_settled hsettled, decided_of_settled hsettled]
    · rw [hempty, hfence, List.nil_append]

/-- Whatever follows, a fenced block behind a line leaves the verdict alone exactly when the text
before it is settled or the block is harmless there. -/
theorem fenced_block_ignored_iff (before : List TextLine) (block : FencedBlock) :
    (∀ rest : List Char,
      reviewVerdict (String.ofList (render before ++ render block.lines ++ rest)) =
        reviewVerdict (String.ofList (render before ++ rest))) ↔
      Settled (render before) ∨ Harmless (render before) (render block.lines) := by
  simp only [reviewVerdict_eq]
  exact block_ignored_iff (ended_render before) (ended_render block.lines)

/-! ### Ordinary lines -/

/-- No separator but the ends of the lines. -/
def Ordinary (lines : List TextLine) : Prop :=
  ∀ line ∈ lines, ∀ c ∈ line.content, isLineBreak c = false

theorem written_render {lines : List TextLine} (h : Ordinary lines) :
    written (render lines) = (lines.map TextLine.content).filter (· ≠ []) := by
  have hbreaks : ∀ line : TextLine, (∀ c ∈ line.content, isLineBreak c = false) →
      written (line.content ++ line.ending.chars) = [line.content].filter (· ≠ []) := by
    intro line hline
    have hcontent : written line.content = [line.content].filter (· ≠ []) := by
      rw [written, List.splitOnP_eq_singleton hline]
    rw [← hcontent]
    cases line.ending <;>
      simp [LineEnd.chars, written, List.splitOnP_append_cons _ _ (show isLineBreak '\n' = true from rfl),
        List.splitOnP_append_cons _ _ (show isLineBreak '\r' = true from rfl),
        List.splitOnP_cons_eq_if_modifyHead, show isLineBreak '\n' = true from rfl]
  induction lines with
  | nil => rfl
  | cons line lines ih =>
    have hrest := ih fun l hl => h l (List.mem_cons_of_mem _ hl)
    rw [render] at hrest
    rw [render, List.flatMap_cons, written_append (ended_line line),
      hbreaks line (h line (List.mem_cons_self ..)), List.map_cons, hrest]
    exact (List.filter_append [line.content] _).symm

/-- A block of ordinary lines is harmless wherever no fence is open. -/
theorem harmless_of_ordinary {before : List TextLine} {block : FencedBlock}
    (hbefore : Ordinary before) (hout : fenceAfter none (before.map TextLine.content) = none)
    (hblock : Ordinary block.lines) : Harmless (render before) (render block.lines) := by
  have hstart : fenceBehind none (render before) = none := by
    rw [fenceBehind_eq proper_none, written_render hbefore, (scan_filter proper_none _).2, hout]
  have hinner : ∀ inner : List TextLine,
      (∀ line ∈ inner, closes block.fence line.content = false) →
      outside (some block.fence) (inner.map TextLine.content ++ [block.closing.content]) = [] ∧
        fenceAfter (some block.fence) (inner.map TextLine.content ++ [block.closing.content]) =
          none := by
    intro inner hinner
    induction inner with
    | nil =>
      rw [List.map_nil, List.nil_append, outside_some, fenceAfter, block.closing_closes]
      exact ⟨rfl, rfl⟩
    | cons line inner ih =>
      rw [List.map_cons, List.cons_append, outside_some, fenceAfter,
        hinner line (List.mem_cons_self ..)]
      exact ih fun l hl => hinner l (List.mem_cons_of_mem _ hl)
  have hscan := hinner block.inner block.inner_closes
  have hlines : block.lines.map TextLine.content =
      block.opening.content :: (block.inner.map TextLine.content ++ [block.closing.content]) := by
    simp [FencedBlock.lines]
  rw [Harmless, hstart, shown_eq proper_none, fenceBehind_eq proper_none, written_render hblock,
    (scan_filter proper_none _).1, (scan_filter proper_none _).2, hlines, outside_none, fenceAfter,
    block.opens_eq, if_neg (by simp), List.nil_append, hscan.1, hscan.2]
  exact ⟨rfl, rfl⟩

/-! ### A line separator in a quoted line -/

theorem plain_of_all {content : List Char}
    (h : (content.all fun c => c ≠ '\n' && c ≠ '\r') = true) :
    ∀ c ∈ content, c ≠ '\n' ∧ c ≠ '\r' := by
  simpa using h

/-- A quoted line that holds line separators: what stands between them closes the fence, approves,
and opens a fence again. -/
def smuggled : FencedBlock where
  fence := ⟨'\x60', 3⟩
  opening := ⟨"\x60\x60\x60".toList, .lf, plain_of_all (by decide)⟩
  inner := [⟨"quoted\u2028\x60\x60\x60\u2028## Approved\u2028\x60\x60\x60".toList, .lf,
    plain_of_all (by decide)⟩]
  closing := ⟨"\x60\x60\x60".toList, .lf, plain_of_all (by decide)⟩
  opens_eq := by decide
  inner_closes := by decide
  closing_closes := by decide

/-- An empty review decides nothing; with the quoted text in it, it approves. -/
theorem smuggled_approves :
    ¬∀ (before : List TextLine) (block : FencedBlock) (rest : List Char),
      fenceAfter none (before.map TextLine.content) = none →
        reviewVerdict (String.ofList (render before ++ render block.lines ++ rest)) =
          reviewVerdict (String.ofList (render before ++ rest)) := by
  intro hall
  have h := hall [] smuggled [] rfl
  revert h
  decide +kernel

end ProductPdfQr.ReviewGate
