/-
# Patterns

Regular expressions that are a row of pieces with at most one group: a word, a run of characters
of a class, a character that may be missing, the group, the end of a line.  A run takes as many
characters as it can or as few, and gives way where what follows does not match; `matchAt` tries
in that order, and `search` tries the beginnings of the lines one after the other.

Of a search proofs need two things: what it finds is of the group's class (`search_class`), and
lines that do not match are passed over (`search_line`).
-/
import ProductPdfQr.Text

namespace ProductPdfQr.Pattern

/-! ## 1. Matching -/

/-- A piece of a pattern. -/
inductive Piece where
  | word (text : List Char)
  /-- `[class]*`. -/
  | many (accepts : Char → Bool)
  /-- `c?`. -/
  | maybe (c : Char)
  /-- `([class]+)`, or `([class]+?)` when it is lazy. -/
  | some (lazy : Bool) (accepts : Char → Bool)
  /-- `(.*?)`, across lines. -/
  | body
  /-- `$`. -/
  | lineEnd

/-- A run of characters, in front of what `next` matches. -/
def run {α : Type} (lazy : Bool) (accepts : Char → Bool) (next : List Char → Option α) :
    List Char → Option (List Char × α)
  | [] => (next []).map ([], ·)
  | c :: text =>
    let stop := (next (c :: text)).map ([], ·)
    let further := (run lazy accepts next text).map fun found => (c :: found.1, found.2)
    if accepts c then
      if lazy then stop.or further else further.or stop
    else stop

/-- A text without the word at its beginning. -/
def dropWord : List Char → List Char → Option (List Char)
  | [], text => some text
  | _ :: _, [] => none
  | c :: word, d :: text => if d = c then dropWord word text else none

/-- What the group is when the pieces match at the beginning of a text. -/
def matchAt : List Piece → List Char → Option (List Char)
  | [], _ => some []
  | .word text :: pieces, given => (dropWord text given).bind (matchAt pieces)
  | .many accepts :: pieces, given => (run false accepts (matchAt pieces) given).map Prod.snd
  | .maybe c :: pieces, given =>
    if given.head? = some c then (matchAt pieces given.tail).or (matchAt pieces given)
    else matchAt pieces given
  | .some lazy accepts :: pieces, given =>
    match given with
    | [] => none
    | d :: rest =>
      if accepts d then (run lazy accepts (matchAt pieces) rest).map fun found => d :: found.1
      else none
  | .body :: pieces, given => (run true (fun _ => true) (matchAt pieces) given).map Prod.fst
  | .lineEnd :: pieces, given =>
    if given.head?.all (· = '\n') then matchAt pieces given else none

/-- `re.search` of a pattern that begins with `^`, under `re.MULTILINE`. -/
def search (pieces : List Piece) (lineStart : Bool) : List Char → Option (List Char)
  | [] => if lineStart then matchAt pieces [] else none
  | c :: text =>
    (if lineStart then matchAt pieces (c :: text) else none).or (search pieces (c = '\n') text)

/-! ## 2. Runs -/

section Runs

variable {α : Type} {lazy : Bool} {accepts : Char → Bool} {next : List Char → Option α}

/-- A run is of the class, and what follows it matches. -/
theorem run_spec {text : List Char} {found : List Char × α}
    (h : run lazy accepts next text = some found) :
    (∀ c ∈ found.1, accepts c = true) ∧ ∃ rest, next rest = some found.2 := by
  induction text generalizing found with
  | nil =>
    obtain ⟨a, ha, rfl⟩ := Option.map_eq_some_iff.mp h
    exact ⟨by simp, _, ha⟩
  | cons c text ih =>
    rw [run] at h
    have hstop : ∀ found, (next (c :: text)).map (([], ·) : α → List Char × α) = some found →
        (∀ d ∈ found.1, accepts d = true) ∧ ∃ rest, next rest = some found.2 := by
      intro found h
      obtain ⟨a, ha, rfl⟩ := Option.map_eq_some_iff.mp h
      exact ⟨by simp, _, ha⟩
    split at h
    · rename_i hc
      have hgo : ∀ found, (run lazy accepts next text).map (fun found => (c :: found.1, found.2)) =
          some found → (∀ d ∈ found.1, accepts d = true) ∧ ∃ rest, next rest = some found.2 := by
        intro found h
        obtain ⟨rest, hrest, rfl⟩ := Option.map_eq_some_iff.mp h
        exact ⟨List.forall_mem_cons.mpr ⟨hc, (ih hrest).1⟩, (ih hrest).2⟩
      split at h
      · rcases Option.or_eq_some_iff.mp h with h | ⟨-, h⟩
        · exact hstop _ h
        · exact hgo _ h
      · rcases Option.or_eq_some_iff.mp h with h | ⟨-, h⟩
        · exact hgo _ h
        · exact hstop _ h
    · exact hstop _ h

/-- Nothing is taken where the class ends. -/
theorem run_stop {text : List Char} (h : text.head?.all fun c => !accepts c) :
    run lazy accepts next text = (next text).map ([], ·) := by
  cases text with
  | nil => rfl
  | cons c text =>
    have hc : accepts c = false := by simpa using h
    rw [run, hc]
    rfl

/-- A run whose beginning is accepted and goes on only at its end. -/
theorem run_whole {start rest : List Char} (hall : ∀ c ∈ start, accepts c = true)
    (hend : rest.head?.all fun c => !accepts c)
    (hnone : ∀ taken left, start = taken ++ left → left ≠ [] → next (left ++ rest) = none) :
    run lazy accepts next (start ++ rest) = (next rest).map (start, ·) := by
  induction start with
  | nil =>
    rw [List.nil_append, run_stop hend]
  | cons c start ih =>
    have hstart : next (c :: (start ++ rest)) = none := hnone [] (c :: start) rfl (by simp)
    have hrest := ih (fun d hd => hall d (List.mem_cons_of_mem _ hd)) fun taken left heq hne =>
      hnone (c :: taken) left (by rw [heq, List.cons_append]) hne
    rw [List.cons_append, run, hrest, hall c List.mem_cons_self, hstart]
    cases next rest <;> cases lazy <;> rfl

/-- A lazy run goes on until what follows matches. -/
theorem run_lazy {start rest : List Char} {a : α} (hall : ∀ c ∈ start, accepts c = true)
    (hrest : next rest = some a)
    (hnone : ∀ taken left, start = taken ++ left → left ≠ [] → next (left ++ rest) = none) :
    run true accepts next (start ++ rest) = some (start, a) := by
  induction start with
  | nil =>
    cases rest with
    | nil => rw [List.nil_append, run, hrest]; rfl
    | cons c rest =>
      rw [List.nil_append, run, hrest]
      cases accepts c <;> rfl
  | cons c start ih =>
    have hstart : next (c :: (start ++ rest)) = none := hnone [] (c :: start) rfl (by simp)
    have hgo := ih (fun d hd => hall d (List.mem_cons_of_mem _ hd)) fun taken left heq hne =>
      hnone (c :: taken) left (by rw [heq, List.cons_append]) hne
    rw [List.cons_append, run, hgo, hall c List.mem_cons_self, hstart]
    rfl

end Runs

/-! ## 3. Words -/

theorem dropWord_append (word rest : List Char) : dropWord word (word ++ rest) = some rest := by
  induction word with
  | nil => rfl
  | cons c word ih => rw [List.cons_append, dropWord, if_pos rfl, ih]

theorem dropWord_eq_some {word text rest : List Char} (h : dropWord word text = some rest) :
    text = word ++ rest := by
  induction word generalizing text with
  | nil => exact Option.some.inj h
  | cons c word ih =>
    cases text with
    | nil => cases h
    | cons d text =>
      rw [dropWord] at h
      split at h
      · rename_i heq
        rw [heq, ih h, List.cons_append]
      · cases h

/-! ## 4. What a search finds -/

/-- The group of the piece, if it is one, is of the class. -/
def Piece.Within (P : Char → Prop) : Piece → Prop
  | .some _ accepts => ∀ c, accepts c = true → P c
  | .body => False
  | _ => True

theorem matchAt_class {P : Char → Prop} {pieces : List Piece} (hwithin : ∀ p ∈ pieces, p.Within P)
    {text group : List Char} (h : matchAt pieces text = some group) : ∀ c ∈ group, P c := by
  induction pieces generalizing text group with
  | nil =>
    obtain rfl := Option.some.inj h
    simp
  | cons piece pieces ih =>
    have ih : ∀ {text group : List Char}, matchAt pieces text = some group → ∀ c ∈ group, P c :=
      ih (fun p hp => hwithin p (List.mem_cons_of_mem _ hp))
    have hpiece := hwithin piece List.mem_cons_self
    cases piece with
    | word w =>
      obtain ⟨rest, -, hrest⟩ := Option.bind_eq_some_iff.mp h
      exact ih hrest
    | many accepts =>
      obtain ⟨found, hfound, rfl⟩ := Option.map_eq_some_iff.mp h
      obtain ⟨-, rest, hrest⟩ := run_spec hfound
      exact ih hrest
    | maybe c =>
      simp only [matchAt] at h
      split at h
      · rcases Option.or_eq_some_iff.mp h with h | ⟨-, h⟩ <;> exact ih h
      · exact ih h
    | some lazy accepts =>
      cases text with
      | nil => cases h
      | cons d rest =>
        simp only [matchAt] at h
        split at h
        · rename_i hd
          obtain ⟨found, hfound, rfl⟩ := Option.map_eq_some_iff.mp h
          have htail := fun c hc => hpiece c ((run_spec hfound).1 c hc)
          exact List.forall_mem_cons.mpr ⟨hpiece d hd, htail⟩
        · cases h
    | body => exact hpiece.elim
    | lineEnd =>
      simp only [matchAt] at h
      split at h
      · exact ih h
      · cases h

theorem search_class {P : Char → Prop} {pieces : List Piece} (hwithin : ∀ p ∈ pieces, p.Within P)
    {lineStart : Bool} {text group : List Char} (h : search pieces lineStart text = some group) :
    ∀ c ∈ group, P c := by
  induction text generalizing lineStart with
  | nil =>
    rw [search] at h
    split at h
    · exact matchAt_class hwithin h
    · cases h
  | cons c text ih =>
    rcases Option.or_eq_some_iff.mp h with h | ⟨-, h⟩
    · split at h
      · exact matchAt_class hwithin h
      · cases h
    · exact ih h

theorem search_skip {pieces : List Piece} {line : List Char} (h : '\n' ∉ line) (rest : List Char) :
    search pieces false (line ++ '\n' :: rest) = search pieces true rest := by
  induction line with
  | nil => rfl
  | cons c line ih =>
    have hc : c ≠ '\n' := fun heq => h (heq ▸ List.mem_cons_self)
    rw [List.cons_append, search, decide_eq_false hc,
      ih fun hmem => h (List.mem_cons_of_mem _ hmem)]
    rfl

/-- A whole line. -/
theorem search_line {pieces : List Piece} {line : List Char} (h : '\n' ∉ line) (rest : List Char) :
    search pieces true (line ++ '\n' :: rest) =
      (matchAt pieces (line ++ '\n' :: rest)).or (search pieces true rest) := by
  cases line with
  | nil => rfl
  | cons c line =>
    have hc : c ≠ '\n' := fun heq => h (heq ▸ List.mem_cons_self)
    rw [List.cons_append, search, decide_eq_false hc,
      search_skip fun hmem => h (List.mem_cons_of_mem _ hmem)]
    rfl

end ProductPdfQr.Pattern
