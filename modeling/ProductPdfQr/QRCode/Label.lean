/-
# The label of a QR image

`_fit_product_name` tries font sizes from the largest to the smallest, and `_wrap_product_name`
breaks the name greedily: a line ends before the character that makes it too wide.  A character
that is too wide alone raises, and nothing catches that: the smaller sizes are not tried.

So what is returned is lossless, whatever the widths are, but a size that fits is found only
if no size at which such a character begins a line comes before it.
-/
import Mathlib.Data.Rat.Defs
import Mathlib.Algebra.Order.Field.Rat
import Mathlib.Data.List.Induction
import ProductPdfQr.QRCode.Cache

namespace ProductPdfQr.QRCode

/-! ## 1. Wrapping -/

section Wrap

variable (textlength : List Char → ℚ) (maximumWidth : ℚ)

/-- The loop of `_wrap_product_name`, from the lines that are finished and the current one. -/
def wrapFrom (lines : List (List Char)) (current : List Char) :
    List Char → Except GenerationError (List (List Char))
  | [] => .ok (if current.isEmpty then lines else lines ++ [current])
  | character :: rest =>
    let candidate := current ++ [character]
    let broken := !current.isEmpty && maximumWidth < textlength candidate
    let lines := if broken then lines ++ [current] else lines
    let current := if broken then [character] else candidate
    if maximumWidth < textlength current then
      .error ⟨"产品名称包含无法放入标签区域的字符。"⟩
    else wrapFrom lines current rest

/-- `_wrap_product_name`. -/
def wrapProductName (productName : List Char) : Except GenerationError (List (List Char)) :=
  wrapFrom textlength maximumWidth [] [] productName

end Wrap

/-! ## 2. Fitting -/

def imageSize : Int := 1024
def labelHeight : Int := 256
def labelHorizontalPadding : Int := 40
def labelVerticalPadding : Int := 20
def labelMaxFontSize : Nat := 64
def labelMinFontSize : Nat := 24
def labelLineSpacing : Int := 8

/-- What the drawing and a font of the given size measure. -/
structure Metrics where
  textlength : Nat → List Char → ℚ
  ascent : Nat → Int
  descent : Nat → Int

namespace Metrics

variable (metrics : Metrics)

def maximumWidth : Int := imageSize - 2 * labelHorizontalPadding
def maximumHeight : Int := labelHeight - 2 * labelVerticalPadding

/-- `range(QR_LABEL_MAX_FONT_SIZE, QR_LABEL_MIN_FONT_SIZE - 1, -2)`. -/
def fontSizes : List Nat :=
  (List.range ((labelMaxFontSize - labelMinFontSize) / 2 + 1)).map fun i => labelMaxFontSize - 2 * i

def wrap (fontSize : Nat) (productName : List Char) : Except GenerationError (List (List Char)) :=
  wrapProductName (metrics.textlength fontSize) maximumWidth productName

def lineHeight (fontSize : Nat) : Int := metrics.ascent fontSize + metrics.descent fontSize

def totalHeight (fontSize : Nat) (lines : List (List Char)) : Int :=
  metrics.lineHeight fontSize * lines.length + labelLineSpacing * (lines.length - 1)

/-- The loop of `_fit_product_name`. -/
def fitAmong (productName : List Char) :
    List Nat → Except GenerationError (Nat × List (List Char) × Int)
  | [] => .error ⟨"产品名称无法完整放入二维码标签区域。"⟩
  | fontSize :: fontSizes =>
    match metrics.wrap fontSize productName with
    | .error e => .error e
    | .ok lines =>
      if metrics.totalHeight fontSize lines ≤ maximumHeight then
        .ok (fontSize, lines, metrics.lineHeight fontSize)
      else fitAmong productName fontSizes

/-- `_fit_product_name`. -/
def fitProductName (productName : List Char) :
    Except GenerationError (Nat × List (List Char) × Int) :=
  metrics.fitAmong productName fontSizes

/-- The greedy wrapping succeeds at the size, within width and height. -/
def Fits (productName : List Char) (fontSize : Nat) : Prop :=
  ∃ lines, metrics.wrap fontSize productName = .ok lines ∧
    metrics.totalHeight fontSize lines ≤ maximumHeight

/-- The lines are the name, each fits the width and all of them fit the height. -/
structure Lossless (productName : List Char) (fontSize : Nat) (lines : List (List Char)) :
    Prop where
  flatten : lines.flatten = productName
  nonempty : [] ∉ lines
  width : ∀ line ∈ lines, metrics.textlength fontSize line ≤ maximumWidth
  height : metrics.totalHeight fontSize lines ≤ maximumHeight

/-- What is returned is lossless, and an exception means that no size fits. -/
def FitsWhenever (productName : List Char) : Prop :=
  (∀ fontSize lines lineHeight,
    metrics.fitProductName productName = .ok (fontSize, lines, lineHeight) →
      fontSize ∈ fontSizes ∧ lineHeight = metrics.lineHeight fontSize ∧
        metrics.Lossless productName fontSize lines) ∧
  ∀ e, metrics.fitProductName productName = .error e →
    ∀ fontSize ∈ fontSizes, ¬ metrics.Fits productName fontSize

end Metrics

/-! ## 3. What wrapping keeps -/

section Wrap

variable {textlength : List Char → ℚ} {maximumWidth : ℚ}

/-- What the loop has made of the characters so far. -/
structure Wrapped (textlength : List Char → ℚ) (maximumWidth : ℚ) (done : List Char)
    (lines : List (List Char)) (current : List Char) : Prop where
  flatten : lines.flatten ++ current = done
  nonempty : [] ∉ lines
  width : ∀ line ∈ lines, textlength line ≤ maximumWidth
  current_width : current ≠ [] → textlength current ≤ maximumWidth

theorem Wrapped.break {done : List Char} {lines : List (List Char)} {current : List Char}
    (h : Wrapped textlength maximumWidth done lines current) (hcurrent : current ≠ [])
    {character : Char} (hcharacter : textlength [character] ≤ maximumWidth) :
    Wrapped textlength maximumWidth (done ++ [character]) (lines ++ [current]) [character] where
  flatten := by
    rw [List.flatten_append, List.flatten_cons, List.flatten_nil, List.append_nil, h.flatten]
  nonempty := by
    rw [List.mem_append, List.mem_singleton, not_or]
    exact ⟨h.nonempty, fun hnil => hcurrent hnil.symm⟩
  width := by
    intro line hline
    rcases List.mem_append.mp hline with hline | hline
    · exact h.width line hline
    · rw [List.mem_singleton.mp hline]
      exact h.current_width hcurrent
  current_width := fun _ => hcharacter

theorem Wrapped.extend {done : List Char} {lines : List (List Char)} {current : List Char}
    (h : Wrapped textlength maximumWidth done lines current) {character : Char}
    (hcandidate : textlength (current ++ [character]) ≤ maximumWidth) :
    Wrapped textlength maximumWidth (done ++ [character]) lines (current ++ [character]) where
  flatten := by rw [← List.append_assoc, h.flatten]
  nonempty := h.nonempty
  width := h.width
  current_width := fun _ => hcandidate

/-- What is returned, the last line flushed. -/
theorem Wrapped.flush {done : List Char} {lines : List (List Char)} {current : List Char}
    (h : Wrapped textlength maximumWidth done lines current) :
    Wrapped textlength maximumWidth done
      (if current.isEmpty then lines else lines ++ [current]) [] := by
  cases current with
  | nil => exact h
  | cons c cs =>
    have hne : c :: cs ≠ [] := List.cons_ne_nil c cs
    refine ⟨?_, ?_, ?_, fun hnil => absurd rfl hnil⟩
    · simpa using h.flatten
    · simpa using h.nonempty
    · intro line hline
      rcases List.mem_append.mp hline with hline | hline
      · exact h.width line hline
      · rw [List.mem_singleton.mp hline]
        exact h.current_width hne

/-! ### One character -/

theorem wrapFrom_extend {lines : List (List Char)} {current : List Char} {character : Char}
    {rest : List Char} (h : textlength (current ++ [character]) ≤ maximumWidth) :
    wrapFrom textlength maximumWidth lines current (character :: rest) =
      wrapFrom textlength maximumWidth lines (current ++ [character]) rest := by
  have hbroken : (!current.isEmpty &&
      decide (maximumWidth < textlength (current ++ [character]))) = false := by
    rw [decide_eq_false (not_lt.mpr h), Bool.and_false]
  rw [wrapFrom, hbroken]
  exact if_neg (not_lt.mpr h)

/-- A break is a line finished: the character is met again at the start of the next one. -/
theorem wrapFrom_break {lines : List (List Char)} {current : List Char} {character : Char}
    {rest : List Char} (hcurrent : current ≠ [])
    (h : maximumWidth < textlength (current ++ [character])) :
    wrapFrom textlength maximumWidth lines current (character :: rest) =
      wrapFrom textlength maximumWidth (lines ++ [current]) [] (character :: rest) := by
  have hbroken : (!current.isEmpty &&
      decide (maximumWidth < textlength (current ++ [character]))) = true := by
    rw [decide_eq_true h, Bool.and_true, Bool.not_eq_true']
    exact List.isEmpty_eq_false_iff.mpr hcurrent
  rw [wrapFrom, wrapFrom, hbroken]
  rfl

theorem wrapFrom_raise {lines : List (List Char)} {character : Char} {rest : List Char}
    (h : maximumWidth < textlength [character]) :
    wrapFrom textlength maximumWidth lines [] (character :: rest) =
      .error ⟨"产品名称包含无法放入标签区域的字符。"⟩ := by
  rw [wrapFrom]
  exact if_pos h

theorem wrapped_of_wrapFrom {done : List Char} {lines : List (List Char)} {current : List Char}
    (h : Wrapped textlength maximumWidth done lines current) {rest : List Char}
    {wrapped : List (List Char)}
    (hwrap : wrapFrom textlength maximumWidth lines current rest = .ok wrapped) :
    Wrapped textlength maximumWidth (done ++ rest) wrapped [] := by
  induction rest generalizing done lines current with
  | nil =>
    obtain rfl := Except.ok.inj hwrap
    rw [List.append_nil]
    exact h.flush
  | cons character rest ih =>
    rw [List.append_cons]
    rcases le_or_gt (textlength (current ++ [character])) maximumWidth with hfits | hwide
    · rw [wrapFrom_extend hfits] at hwrap
      exact ih (h.extend hfits) hwrap
    · rcases le_or_gt (textlength [character]) maximumWidth with halone | halone
      · have hcurrent : current ≠ [] := by
          rintro rfl
          exact absurd halone (not_le.mpr hwide)
        rw [wrapFrom_break hcurrent hwide, wrapFrom_extend halone] at hwrap
        exact ih (h.break hcurrent halone) hwrap
      · have hraised : ∃ lines, wrapFrom textlength maximumWidth lines [] (character :: rest) =
            .ok wrapped := by
          cases current with
          | nil => exact ⟨lines, hwrap⟩
          | cons c cs => exact ⟨_, (wrapFrom_break (List.cons_ne_nil c cs) hwide).symm.trans hwrap⟩
        obtain ⟨lines, hraised⟩ := hraised
        rw [wrapFrom_raise halone] at hraised
        cases hraised

/-! ### Where lines begin -/

/-- The rest of the text that begins a line of the greedy wrapping: the text itself, and what is
left where a line has become too wide. -/
inductive LineStart (textlength : List Char → ℚ) (maximumWidth : ℚ) (text : List Char) :
    List Char → Prop
  | first : LineStart textlength maximumWidth text text
  | next {line : List Char} {character : Char} {rest : List Char} :
    LineStart textlength maximumWidth text (line ++ character :: rest) → line ≠ [] →
    (∀ start, start <+: line → start ≠ [] → textlength start ≤ maximumWidth) →
    maximumWidth < textlength (line ++ [character]) →
    LineStart textlength maximumWidth text (character :: rest)

/-- Some character that begins a line is too wide alone. -/
def Blocked (textlength : List Char → ℚ) (maximumWidth : ℚ) (text : List Char) : Prop :=
  ∃ character rest, LineStart textlength maximumWidth text (character :: rest) ∧
    maximumWidth < textlength [character]

/-- A line whose beginnings all fit is read to its end. -/
theorem wrapFrom_line {lines : List (List Char)} {line rest : List Char}
    (h : ∀ start, start <+: line → start ≠ [] → textlength start ≤ maximumWidth) :
    wrapFrom textlength maximumWidth lines [] (line ++ rest) =
      wrapFrom textlength maximumWidth lines line rest := by
  induction line using List.reverseRecOn generalizing rest with
  | nil => rfl
  | append_singleton line character ih =>
    have hline : ∀ start, start <+: line → start ≠ [] → textlength start ≤ maximumWidth :=
      fun start hstart => h start (hstart.trans (List.prefix_append _ _))
    have hfits : textlength (line ++ [character]) ≤ maximumWidth :=
      h _ (List.prefix_refl _) (by simp)
    rw [List.append_assoc, List.singleton_append, ih hline, wrapFrom_extend hfits]

/-- The loop gets to every such place with no open line. -/
theorem wrapFrom_of_lineStart {text suffix : List Char}
    (h : LineStart textlength maximumWidth text suffix) :
    ∃ lines, wrapFrom textlength maximumWidth [] [] text =
      wrapFrom textlength maximumWidth lines [] suffix := by
  induction h with
  | first => exact ⟨[], rfl⟩
  | next _ hline hstarts hwide ih =>
    obtain ⟨lines, hlines⟩ := ih
    exact ⟨_, by rw [hlines, wrapFrom_line hstarts, wrapFrom_break hline hwide]⟩

/-- And it raises only at such a place. -/
theorem blocked_of_wrapFrom {text : List Char} {lines : List (List Char)}
    {current rest : List Char} {e : GenerationError}
    (hstart : LineStart textlength maximumWidth text (current ++ rest))
    (hcurrent : ∀ start, start <+: current → start ≠ [] → textlength start ≤ maximumWidth)
    (h : wrapFrom textlength maximumWidth lines current rest = .error e) :
    Blocked textlength maximumWidth text := by
  induction rest generalizing lines current with
  | nil => cases h
  | cons character rest ih =>
    have hextend : ∀ {line : List Char},
        (∀ start, start <+: line → start ≠ [] → textlength start ≤ maximumWidth) →
        textlength (line ++ [character]) ≤ maximumWidth →
        ∀ start, start <+: line ++ [character] → start ≠ [] →
          textlength start ≤ maximumWidth := by
      intro line hline hfits start hprefix hne
      rcases List.prefix_concat_iff.mp hprefix with rfl | hprefix
      · exact hfits
      · exact hline start hprefix hne
    rcases le_or_gt (textlength (current ++ [character])) maximumWidth with hfits | hwide
    · rw [wrapFrom_extend hfits] at h
      rw [List.append_cons] at hstart
      exact ih hstart (hextend hcurrent hfits) h
    · have hbegin : LineStart textlength maximumWidth text (character :: rest) := by
        cases current with
        | nil => exact hstart
        | cons c cs => exact .next hstart (List.cons_ne_nil c cs) hcurrent hwide
      rcases le_or_gt (textlength [character]) maximumWidth with halone | halone
      · have hne : current ≠ [] := by
          rintro rfl
          exact absurd halone (not_le.mpr hwide)
        rw [wrapFrom_break hne hwide, wrapFrom_extend halone] at h
        have hempty : ∀ start, start <+: [] → start ≠ [] → textlength start ≤ maximumWidth :=
          fun start hprefix hnil => absurd (List.prefix_nil.mp hprefix) hnil
        exact ih hbegin (hextend hempty halone) h
      · exact ⟨character, rest, hbegin, halone⟩

/-- Wrapping raises exactly when some character that begins a line is too wide alone. -/
theorem wrapProductName_error_iff (text : List Char) :
    (∃ e, wrapProductName textlength maximumWidth text = .error e) ↔
      Blocked textlength maximumWidth text := by
  constructor
  · rintro ⟨e, h⟩
    refine blocked_of_wrapFrom .first ?_ h
    intro start hprefix hne
    exact absurd (List.prefix_nil.mp hprefix) hne
  · rintro ⟨character, rest, hstart, hwide⟩
    obtain ⟨lines, hlines⟩ := wrapFrom_of_lineStart hstart
    exact ⟨_, by rw [wrapProductName, hlines, wrapFrom_raise hwide]⟩

end Wrap

/-! ## 4. What fitting finds -/

namespace Metrics

variable {metrics : Metrics} {productName : List Char}

theorem lossless_of_wrap {fontSize : Nat} {lines : List (List Char)}
    (h : metrics.wrap fontSize productName = .ok lines)
    (hheight : metrics.totalHeight fontSize lines ≤ maximumHeight) :
    metrics.Lossless productName fontSize lines := by
  have hempty : Wrapped (metrics.textlength fontSize) maximumWidth [] [] [] :=
    ⟨rfl, List.not_mem_nil, fun _ hline => (nomatch hline), fun hnil => absurd rfl hnil⟩
  have hwrapped := wrapped_of_wrapFrom hempty h
  exact ⟨by simpa using hwrapped.flatten, hwrapped.nonempty, hwrapped.width, hheight⟩

theorem lossless_of_fitAmong {fontSizes : List Nat} {fontSize : Nat} {lines : List (List Char)}
    {lineHeight : Int}
    (h : metrics.fitAmong productName fontSizes = .ok (fontSize, lines, lineHeight)) :
    fontSize ∈ fontSizes ∧ lineHeight = metrics.lineHeight fontSize ∧
      metrics.Lossless productName fontSize lines := by
  induction fontSizes with
  | nil => cases h
  | cons size sizes ih =>
    rw [fitAmong] at h
    split at h
    · cases h
    · rename_i wrapped hwrap
      split at h
      · rename_i hheight
        cases h
        exact ⟨List.mem_cons_self .., rfl, lossless_of_wrap hwrap hheight⟩
      · obtain ⟨hmem, hrest⟩ := ih h
        exact ⟨List.mem_cons_of_mem _ hmem, hrest⟩

variable (metrics productName) in
/-- No size at which a character blocks comes before the first size that fits. -/
def Unblocked (fontSizes : List Nat) : Prop :=
  ∀ small ∈ fontSizes, metrics.Fits productName small → ∀ large ∈ fontSizes, small < large →
    Blocked (metrics.textlength large) maximumWidth productName →
    ∃ larger ∈ fontSizes, large < larger ∧ metrics.Fits productName larger

theorem not_fits_of_blocked {fontSize : Nat}
    (h : Blocked (metrics.textlength fontSize) maximumWidth productName) :
    ¬ metrics.Fits productName fontSize := by
  rintro ⟨lines, hlines, -⟩
  obtain ⟨e, he⟩ := (wrapProductName_error_iff productName).mpr h
  rw [wrap, he] at hlines
  cases hlines

theorem fitAmong_of_blocked {fontSize : Nat} (fontSizes : List Nat)
    (h : Blocked (metrics.textlength fontSize) maximumWidth productName) :
    ∃ e, metrics.fitAmong productName (fontSize :: fontSizes) = .error e := by
  obtain ⟨e, he⟩ := (wrapProductName_error_iff productName).mpr h
  exact ⟨e, by rw [fitAmong, wrap, he]⟩

theorem fitAmong_of_fits {fontSize : Nat} (fontSizes : List Nat)
    (h : metrics.Fits productName fontSize) :
    ∃ fitted, metrics.fitAmong productName (fontSize :: fontSizes) = .ok fitted := by
  obtain ⟨lines, hlines, hheight⟩ := h
  rw [fitAmong, hlines]
  exact ⟨_, if_pos hheight⟩

/-- A size that neither blocks nor fits is passed over. -/
theorem fitAmong_of_tall {fontSize : Nat} (fontSizes : List Nat)
    (hblocked : ¬ Blocked (metrics.textlength fontSize) maximumWidth productName)
    (hfits : ¬ metrics.Fits productName fontSize) :
    metrics.fitAmong productName (fontSize :: fontSizes) =
      metrics.fitAmong productName fontSizes := by
  cases hlines : metrics.wrap fontSize productName with
  | error e => exact absurd ((wrapProductName_error_iff productName).mp ⟨e, hlines⟩) hblocked
  | ok lines =>
    rw [fitAmong, hlines]
    exact if_neg fun hheight => hfits ⟨lines, hlines, hheight⟩

/-- The sizes being tried in decreasing order, an exception means that no size fits exactly when
no size that fits is kept from being tried. -/
theorem fitAmong_error_iff {fontSizes : List Nat} (hsorted : fontSizes.Pairwise (· > ·)) :
    (∀ e, metrics.fitAmong productName fontSizes = .error e →
      ∀ fontSize ∈ fontSizes, ¬ metrics.Fits productName fontSize) ↔
      metrics.Unblocked productName fontSizes := by
  induction fontSizes with
  | nil => exact ⟨fun _ _ hsmall => (nomatch hsmall), fun _ _ _ _ hsize => (nomatch hsize)⟩
  | cons size sizes ih =>
    obtain ⟨hlargest, htail⟩ := List.pairwise_cons.mp hsorted
    by_cases hblocked : Blocked (metrics.textlength size) maximumWidth productName
    · -- nothing is larger, so nothing that fits may come after
      obtain ⟨e, he⟩ := fitAmong_of_blocked sizes hblocked
      refine ⟨fun h small hsmall hfits => absurd hfits (h e he small hsmall), ?_⟩
      intro h _ _ small hsmall hfits
      rcases List.mem_cons.mp hsmall with rfl | hmem
      · exact not_fits_of_blocked hblocked hfits
      · obtain ⟨larger, hlarger, hlt, -⟩ :=
          h small hsmall hfits size (List.mem_cons_self ..) (hlargest small hmem) hblocked
        rcases List.mem_cons.mp hlarger with rfl | hlarger
        · exact lt_irrefl _ hlt
        · exact lt_asymm hlt (hlargest larger hlarger)
    · by_cases hfits : metrics.Fits productName size
      · -- it is larger than any other that blocks
        obtain ⟨fitted, hfitted⟩ := fitAmong_of_fits sizes hfits
        refine ⟨fun _ small _ _ large hlarge _ hlargeBlocked => ?_, fun _ e he => ?_⟩
        · rcases List.mem_cons.mp hlarge with rfl | hlarge
          · exact absurd hlargeBlocked hblocked
          · exact ⟨size, List.mem_cons_self .., hlargest large hlarge, hfits⟩
        · rw [hfitted] at he
          cases he
      · rw [fitAmong_of_tall sizes hblocked hfits]
        constructor
        · intro h small hsmall hsmallFits large hlarge hlt hlargeBlocked
          rcases List.mem_cons.mp hsmall with rfl | hsmall
          · exact absurd hsmallFits hfits
          rcases List.mem_cons.mp hlarge with rfl | hlarge
          · exact absurd hlargeBlocked hblocked
          have hunblocked := (ih htail).mp fun e he fontSize hmem =>
            h e he fontSize (List.mem_cons_of_mem _ hmem)
          obtain ⟨larger, hlarger, hfound⟩ :=
            hunblocked small hsmall hsmallFits large hlarge hlt hlargeBlocked
          exact ⟨larger, List.mem_cons_of_mem _ hlarger, hfound⟩
        · intro h e he fontSize hmem
          rcases List.mem_cons.mp hmem with rfl | hmem
          · exact hfits
          refine (ih htail).mpr ?_ e he fontSize hmem
          intro small hsmall hsmallFits large hlarge hlt hlargeBlocked
          obtain ⟨larger, hlarger, hlt', hfound⟩ := h small (List.mem_cons_of_mem _ hsmall)
            hsmallFits large (List.mem_cons_of_mem _ hlarge) hlt hlargeBlocked
          rcases List.mem_cons.mp hlarger with rfl | hlarger
          · exact absurd hfound hfits
          · exact ⟨larger, hlarger, hlt', hfound⟩

theorem fontSizes_sorted : fontSizes.Pairwise (· > ·) := by
  decide

theorem fitsWhenever_of_unblocked (h : metrics.Unblocked productName fontSizes) :
    metrics.FitsWhenever productName :=
  ⟨fun _ _ _ hfitted => lossless_of_fitAmong hfitted, (fitAmong_error_iff fontSizes_sorted).mpr h⟩

/-- The label is fitted losslessly whenever some size fits, exactly when no size at which a
character that begins a line is too wide alone comes before the first size that fits. -/
theorem fitsWhenever_iff (metrics : Metrics) (productName : List Char) :
    metrics.FitsWhenever productName ↔ metrics.Unblocked productName fontSizes :=
  ⟨fun h => (fitAmong_error_iff fontSizes_sorted).mp h.2, fitsWhenever_of_unblocked⟩

theorem suffix_of_lineStart {textlength : List Char → ℚ} {maximumWidth : ℚ}
    {text suffix : List Char} (h : LineStart textlength maximumWidth text suffix) :
    suffix <:+ text := by
  induction h with
  | first => exact List.suffix_refl _
  | next _ _ _ _ ih => exact (List.suffix_append _ _).trans ih

/-- With a font in which every character fits the width at every size, a size that fits is found. -/
theorem fitsWhenever_of_narrow (h : ∀ fontSize ∈ fontSizes, ∀ character ∈ productName,
    metrics.textlength fontSize [character] ≤ maximumWidth) : metrics.FitsWhenever productName := by
  refine fitsWhenever_of_unblocked ?_
  rintro _ _ _ large hlarge _ ⟨character, rest, hstart, hwide⟩
  have hmem : character ∈ productName :=
    (suffix_of_lineStart hstart).subset (List.mem_cons_self ..)
  exact absurd (h large hlarge character hmem) (not_le.mpr hwide)

/-- A character alone is 960 of 944 pixels wide at the size 64, and 930 at the next one. -/
def wideAtFirst : Metrics where
  textlength fontSize line := fontSize * 15 * line.length
  ascent fontSize := fontSize
  descent _ := 0

theorem smaller_size_not_tried : ¬ ∀ (metrics : Metrics) (productName : List Char),
    metrics.FitsWhenever productName := by
  intro h
  have hraised : wideAtFirst.fitProductName ['W'] =
      .error ⟨"产品名称包含无法放入标签区域的字符。"⟩ := by
    decide +kernel
  refine (h wideAtFirst ['W']).2 _ hraised 62 (by decide) ⟨[['W']], ?_, ?_⟩
  · decide +kernel
  · decide +kernel

end Metrics

end ProductPdfQr.QRCode
