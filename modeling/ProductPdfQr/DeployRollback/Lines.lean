/-
# The lines of a text

`str.splitlines` ends a line at more characters than the line feed.  A text of such lines falls
apart exactly as often as one of them stands in it.
-/
import ProductPdfQr.DeployRollback.Audit
import ProductPdfQr.Json.Spelling

namespace ProductPdfQr.DeployRollback

open Json

namespace AuditLog

/-! ## 1. One line -/

/-- No character of the text ends a line. -/
def OneLine (line : List Char) : Prop := ∀ c ∈ line, isLineEnd c = false

theorem oneLine_nil : OneLine [] := fun _ h => by cases h

theorem oneLine_cons {c : Char} {line : List Char} (hc : isLineEnd c = false)
    (h : OneLine line) : OneLine (c :: line) := by
  intro x hx
  rcases List.mem_cons.mp hx with rfl | hx
  · exact hc
  · exact h x hx

/-- A line and its end. -/
theorem splitLines_line {line : List Char} (h : OneLine line) {c : Char} (hc : isLineEnd c = true)
    (rest : List Char) : splitLines (line ++ c :: rest) = line :: splitLines rest := by
  induction line with
  | nil => rw [List.nil_append, splitLines, if_pos hc]
  | cons x line ih =>
    rw [List.cons_append, splitLines, if_neg (by simp [h x (by simp)]),
      ih fun y hy => h y (by simp [hy])]

/-- The last line need not end. -/
theorem splitLines_last {line : List Char} (h : OneLine line) (hne : line ≠ []) :
    splitLines line = [line] := by
  induction line with
  | nil => exact absurd rfl hne
  | cons x line ih =>
    rw [splitLines, if_neg (by simp [h x (by simp)])]
    cases line with
    | nil => rfl
    | cons y line => rw [ih (fun z hz => h z (by simp [hz])) (List.cons_ne_nil _ _)]

/-- A text that is not one line has a first. -/
theorem exists_line {text : List Char} (h : ¬OneLine text) :
    ∃ line c rest, text = line ++ c :: rest ∧ OneLine line ∧ isLineEnd c = true := by
  induction text with
  | nil => exact absurd oneLine_nil h
  | cons x text ih =>
    cases hx : isLineEnd x with
    | true => exact ⟨[], x, text, rfl, oneLine_nil, hx⟩
    | false =>
      have htail : ¬OneLine text := fun htext => h (oneLine_cons hx htext)
      obtain ⟨line, c, rest, rfl, hline, hc⟩ := ih htail
      exact ⟨x :: line, c, rest, rfl, oneLine_cons hx hline, hc⟩

/-- A text without carriage returns is read as it is. -/
theorem universalNewlines_eq {text : List Char} (h : '\r' ∉ text) :
    universalNewlines text = text := by
  induction text with
  | nil => rfl
  | cons c text ih =>
    have hc : c ≠ '\r' := by
      rintro rfl
      exact h (List.mem_cons_self ..)
    have htail := ih fun hmem => h (List.mem_cons_of_mem _ hmem)
    rw [universalNewlines.eq_def]
    split
    · cases ‹_ = []›
    · next heq => exact absurd (List.cons.inj heq).1 hc
    · next heq =>
      obtain ⟨rfl, rfl⟩ := List.cons.inj heq
      rw [if_neg hc, htail]

/-! ## 2. A text that goes on -/

/-- Universal newlines, of a text that goes on: only a return at its end could join a feed. -/
theorem universalNewlines_append (text : List Char) {more : List Char}
    (h : ∀ rest, more ≠ '\n' :: rest) :
    universalNewlines (text ++ more) = universalNewlines text ++ universalNewlines more := by
  induction text using universalNewlines.induct with
  | case1 => rfl
  | case2 rest ih =>
    rw [List.cons_append, List.cons_append, universalNewlines, universalNewlines, ih,
      List.cons_append]
  | case3 c rest hpair ih =>
    have hpair' : ∀ rest', c = '\r' → rest ++ more ≠ '\n' :: rest' := by
      intro rest' hc heq
      cases rest with
      | nil => exact h rest' heq
      | cons c' rest =>
        rw [List.cons_append] at heq
        exact hpair rest hc (by rw [(List.cons.inj heq).1])
    rw [List.cons_append, universalNewlines, universalNewlines, ih, List.cons_append]
    · exact fun rest' hc heq => hpair rest' hc heq
    · exact fun rest' hc heq => hpair' rest' hc heq

/-- The text is empty or its last line has ended. -/
def Ends (text : List Char) : Prop := text = [] ∨ ∃ front c, text = front ++ [c] ∧ isLineEnd c = true

theorem ends_of_cons {c : Char} {text : List Char} (h : Ends (c :: text)) (hne : text ≠ []) :
    Ends text := by
  rcases h with h | ⟨front, x, heq, hx⟩
  · cases h
  · cases front with
    | nil => exact absurd (List.cons.inj heq).2 hne
    | cons y front => exact .inr ⟨front, x, (List.cons.inj heq).2, hx⟩

theorem splitLines_append {text : List Char} (h : Ends text) (more : List Char) :
    splitLines (text ++ more) = splitLines text ++ splitLines more := by
  induction text with
  | nil => rfl
  | cons c text ih =>
    by_cases hnil : text = []
    · subst hnil
      rcases h with h | ⟨front, x, heq, hx⟩
      · cases h
      · obtain ⟨rfl, rfl⟩ : front = [] ∧ c = x := by
          cases front with
          | nil => exact ⟨rfl, (List.cons.inj heq).1⟩
          | cons y front => simp at heq
        simp [splitLines, hx]
    · have htail := ih (ends_of_cons h hnil)
      rw [List.cons_append, splitLines, splitLines, htail]
      cases hc : isLineEnd c with
      | true => simp
      | false =>
        rw [if_neg Bool.false_ne_true, if_neg Bool.false_ne_true]
        cases hlines : splitLines text with
        | nil =>
          cases text with
          | nil => exact absurd rfl hnil
          | cons y text =>
            unfold splitLines at hlines
            split at hlines
            · cases hlines
            · split at hlines <;> cases hlines
        | cons line lines => rfl

/-- The last line of a text that has not ended takes up what follows. -/
theorem splitLines_unended {text : List Char} (h : ¬Ends text) : ∃ lines last, last ≠ [] ∧
    splitLines text = lines ++ [last] ∧ ∀ {line : List Char} {c : Char} (rest : List Char),
      OneLine line → isLineEnd c = true →
        splitLines (text ++ (line ++ c :: rest)) = lines ++ (last ++ line) :: splitLines rest := by
  induction text with
  | nil => exact absurd (.inl rfl) h
  | cons x text ih =>
    cases hx : isLineEnd x with
    | true =>
      have hne : text ≠ [] := by
        rintro rfl
        exact h (.inr ⟨[], x, rfl, hx⟩)
      have htext : ¬Ends text := by
        rintro (hnil | ⟨front, c, rfl, hc⟩)
        · exact hne hnil
        · exact h (.inr ⟨x :: front, c, rfl, hc⟩)
      obtain ⟨lines, last, hlast, hlines, hmore⟩ := ih htext
      refine ⟨[] :: lines, last, hlast, ?_, fun rest hline hc => ?_⟩
      · rw [splitLines, if_pos hx, hlines, List.cons_append]
      · rw [List.cons_append, splitLines, if_pos hx, hmore rest hline hc, List.cons_append]
    | false =>
      by_cases hnil : text = []
      · subst hnil
        refine ⟨[], [x], List.cons_ne_nil _ _, by simp [splitLines, hx], fun rest hline hc => ?_⟩
        exact splitLines_line (oneLine_cons hx hline) hc rest
      · have htext : ¬Ends text := by
          rintro (hnil' | ⟨front, c, rfl, hc⟩)
          · exact hnil hnil'
          · exact h (.inr ⟨x :: front, c, rfl, hc⟩)
        obtain ⟨lines, last, hlast, hlines, hmore⟩ := ih htext
        cases lines with
        | nil =>
          refine ⟨[], x :: last, List.cons_ne_nil _ _, ?_, fun rest hline hc => ?_⟩
          · rw [splitLines, if_neg (by simp [hx]), hlines]
            rfl
          · rw [List.cons_append, splitLines, if_neg (by simp [hx]), hmore rest hline hc]
            rfl
        | cons first lines =>
          refine ⟨(x :: first) :: lines, last, hlast, ?_, fun rest hline hc => ?_⟩
          · rw [splitLines, if_neg (by simp [hx]), hlines]
            rfl
          · rw [List.cons_append, splitLines, if_neg (by simp [hx]), hmore rest hline hc]
            rfl

/-! ## 3. The ends of lines beyond ASCII -/

/-- Of the characters that need no escape, these three end a line. -/
def isLineMark (c : Char) : Bool := c.toNat = 0x85 || c.toNat = 0x2028 || c.toNat = 0x2029

theorem isLineMark_beyond {c : Char} (h : isLineMark c = true) : 128 ≤ c.toNat := by
  simp only [isLineMark, Bool.or_eq_true, decide_eq_true_eq] at h
  omega

/-- Without control characters nothing else does. -/
theorem isLineEnd_eq_mark {c : Char} (h : 32 ≤ c.toNat) : isLineEnd c = isLineMark c := by
  unfold isLineEnd isLineMark
  have h₁ : ¬ c.toNat ≤ 13 := by omega
  have h₂ : ¬ c.toNat ≤ 30 := by omega
  simp [h₁, h₂]

/-- No such character stands in a string or a key of the value. -/
def Unmarked (v : Json) : Prop := ∀ c, isLineMark c = true → occurs c v = false

theorem oneLine_iff {text : List Char} (h : ∀ c ∈ text, 32 ≤ c.toNat) :
    OneLine text ↔ ∀ c, isLineMark c = true → c ∉ text := by
  constructor
  · intro hline c hc hmem
    rw [← isLineEnd_eq_mark (h c hmem), hline c hmem] at hc
    cases hc
  · intro hmark c hmem
    cases hc : isLineEnd c with
    | false => rfl
    | true => exact absurd hmem (hmark c (by rwa [← isLineEnd_eq_mark (h c hmem)]))

/-- A plain value is written on one line exactly when it is unmarked. -/
theorem oneLine_print_iff {v : Json} (h : Plain v) : OneLine (print v) ↔ Unmarked v := by
  rw [oneLine_iff (print_printable v h)]
  refine forall_congr' fun c => imp_congr_right fun hc => ?_
  rw [mem_print (isLineMark_beyond hc), Bool.not_eq_true]

end AuditLog

end ProductPdfQr.DeployRollback
