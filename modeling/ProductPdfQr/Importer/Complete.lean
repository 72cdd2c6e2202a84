/-
# All or nothing

What an import that succeeds has created, and what one that fails has not.  A row is valid, or it
is not, whatever the other rows are.  The products to create are the first valid rows of their
codes, and those are created whose codes nobody holds when they are inserted.
-/
import ProductPdfQr.Importer.Products
import Mathlib.Data.List.DropRight

namespace ProductPdfQr.Importer

open Text

/-! ## 1. Normal forms -/

theorem toList_strip (s : String) :
    (strip s).toList = (s.toList.dropWhile isSpace).rdropWhile isSpace := by
  rw [strip, String.toList_ofList, List.rdropWhile]

/-- A text that neither begins nor ends with a blank is stripped already. -/
theorem strip_eq_self {s : String} (hhead : ∀ c, s.toList.head? = some c → isSpace c = false)
    (hlast : ∀ c, s.toList.getLast? = some c → isSpace c = false) : strip s = s := by
  rw [← String.toList_inj, toList_strip]
  have hstart : s.toList.dropWhile isSpace = s.toList := by
    cases htext : s.toList with
    | nil => rfl
    | cons c cs => rw [List.dropWhile_cons_of_neg (by simp [hhead c (by rw [htext]; rfl)])]
  rw [hstart, List.rdropWhile_eq_self_iff]
  intro hne
  simp [hlast _ (List.getLast?_eq_some_getLast hne)]

theorem strip_strip (s : String) : strip (strip s) = strip s := by
  refine strip_eq_self ?_ ?_
  · intro c hc
    rw [toList_strip] at hc
    obtain ⟨rest, hrest⟩ := List.rdropWhile_prefix isSpace (l := s.toList.dropWhile isSpace)
    have hhead : (s.toList.dropWhile isSpace).head? = some c := by
      rw [← hrest, List.head?_append, hc]
      rfl
    have hnot := List.head?_dropWhile_not isSpace s.toList
    rw [hhead] at hnot
    simpa using hnot
  · intro c hc
    rw [toList_strip] at hc
    have hne : (s.toList.dropWhile isSpace).rdropWhile isSpace ≠ [] := by
      intro h
      rw [h] at hc
      cases hc
    have hnot := List.rdropWhile_last_not isSpace _ hne
    rw [List.getLast?_eq_some_getLast hne] at hc
    rw [Option.some.inj hc] at hnot
    simpa using hnot

/-- The characters of product codes. -/
def isCodeChar (c : Char) : Bool := isAlnum c || c = '_' || c = '-'

theorem isProductCode_iff {s : String} :
    isProductCode s = true ↔ 1 ≤ s.length ∧ s.length ≤ 64 ∧ ∀ c ∈ s.toList, isCodeChar c = true := by
  simp [isProductCode, isCodeChar, and_assoc]

theorem isCodeChar_lt {c : Char} (h : isCodeChar c = true) : c.toNat < 128 := by
  have hle : ∀ {a b : Char}, a ≤ b → a.toNat ≤ b.toNat := fun h => h
  simp only [isCodeChar, isAlnum, Char.isDigit, Bool.or_eq_true, Bool.and_eq_true,
    decide_eq_true_eq] at h
  rcases h with (((⟨-, h⟩ | ⟨-, h⟩) | ⟨-, h⟩) | rfl) | rfl
  · exact lt_of_le_of_lt (hle (b := '9') h) (by decide)
  · exact lt_of_le_of_lt (hle h) (by decide)
  · exact lt_of_le_of_lt (hle h) (by decide)
  · decide
  · decide

theorem isCodeChar_facts {c : Char} (h : isCodeChar c = true) :
    isCodeChar c.toUpper = true ∧ c.toUpper.toUpper = c.toUpper ∧ isSpace c.toUpper = false := by
  have hall : ∀ n : Fin 128, isCodeChar (Char.ofNat n) = true →
      isCodeChar (Char.ofNat n).toUpper = true ∧
        (Char.ofNat n).toUpper.toUpper = (Char.ofNat n).toUpper ∧
          isSpace (Char.ofNat n).toUpper = false := by decide
  have hchar := hall ⟨c.toNat, isCodeChar_lt h⟩
  rw [Char.ofNat_toNat] at hchar
  exact hchar h

/-- The canonical form of a code. -/
def canonical (s : String) : String := String.ofList ((strip s).toList.map Char.toUpper)

theorem normalizeProductCode_eq (s : String) :
    normalizeProductCode s =
      if isProductCode (strip s) then .ok (canonical s)
      else .error ⟨"invalid_product_code", "产品编码须为 1-64 位英文字母、数字、横线或下划线。", 422⟩ :=
  rfl

/-- A canonical code is its own canonical form. -/
theorem canonical_code {s : String} (h : isProductCode (strip s) = true) :
    strip (canonical s) = canonical s ∧ isProductCode (canonical s) = true ∧
      canonical (canonical s) = canonical s := by
  obtain ⟨hpos, hle, hchars⟩ := isProductCode_iff.mp h
  have hmem : ∀ c ∈ (canonical s).toList, ∃ c' ∈ (strip s).toList, c = c'.toUpper := by
    intro c hc
    rw [canonical, String.toList_ofList, List.mem_map] at hc
    obtain ⟨c', hc', rfl⟩ := hc
    exact ⟨c', hc', rfl⟩
  have hspace : ∀ c ∈ (canonical s).toList, isSpace c = false := by
    intro c hc
    obtain ⟨c', hc', rfl⟩ := hmem c hc
    exact (isCodeChar_facts (hchars c' hc')).2.2
  have hstrip : strip (canonical s) = canonical s :=
    strip_eq_self (fun c hc => hspace c (List.mem_of_mem_head? hc))
      (fun c hc => hspace c (List.mem_of_mem_getLast? hc))
  have hlength : (canonical s).length = (strip s).length := by
    simp [canonical, ← String.length_toList]
  refine ⟨hstrip, isProductCode_iff.mpr ⟨by omega, by omega, ?_⟩, ?_⟩
  · intro c hc
    obtain ⟨c', hc', rfl⟩ := hmem c hc
    exact (isCodeChar_facts (hchars c' hc')).1
  · rw [canonical, hstrip, ← String.toList_inj, String.toList_ofList]
    refine (List.map_congr_left fun c hc => ?_).trans (List.map_id _)
    obtain ⟨c', hc', rfl⟩ := hmem c hc
    exact (isCodeChar_facts (hchars c' hc')).2.1

/-- A name that is stored as it is given. -/
def IsName (name : String) : Prop := strip name = name ∧ name ≠ "" ∧ name.length ≤ 120

theorem normalizeProductName_of_isName {name : String} (h : IsName name) :
    normalizeProductName name = .ok name := by
  obtain ⟨hstrip, hne, hle⟩ := h
  simp [normalizeProductName, hstrip, hne, hle]

/-! ## 2. Rows -/

section Rows

variable (codeColumn : Nat) (nameColumn : Option Nat)

/-- The row has a code and, unless the name is blank, a name that is short enough. -/
def isValid (row : ParsedRow) : Bool :=
  isProductCode (strip (row.values.get codeColumn)) &&
    (!hasText (rawNameOf nameColumn row) || (strip (rawNameOf nameColumn row)).length ≤ 120)

/-- The product of a valid row: its code, and its name or else the code. -/
def candidateOf (row : ParsedRow) : ImportCandidate where
  row := row.rowNumber
  code := canonical (row.values.get codeColumn)
  name := if hasText (rawNameOf nameColumn row) then strip (rawNameOf nameColumn row)
    else canonical (row.values.get codeColumn)

variable {codeColumn nameColumn} {row : ParsedRow}

theorem strip_of_blank {s : String} (h : hasText s = false) : strip s = "" := by
  have hall : ∀ c ∈ s.toList, isSpace c = true := by
    simpa [hasText] using h
  rw [← String.toList_inj, toList_strip, List.dropWhile_eq_nil_iff.mpr hall]
  rfl

theorem strip_ne_of_text {s : String} (h : hasText s = true) : strip s ≠ "" := by
  intro hstrip
  have hnil : (s.toList.dropWhile isSpace).rdropWhile isSpace = [] := by
    rw [← toList_strip, hstrip]
    rfl
  obtain ⟨c, hc, hspace⟩ := List.any_eq_true.mp h
  have hall := List.rdropWhile_eq_nil_iff.mp hnil
  have hblank : s.toList.all isSpace = true := by
    rw [← List.takeWhile_append_dropWhile (p := isSpace) (l := s.toList), List.all_append,
      Bool.and_eq_true]
    exact ⟨List.all_takeWhile, List.all_eq_true.mpr hall⟩
  rw [List.all_eq_true.mp hblank c hc] at hspace
  cases hspace

/-- What a text other than the code itself is normalised to as a name. -/
theorem normalizeProductName_of_text {name : String} (h : hasText name = true) :
    normalizeProductName name =
      if (strip name).length ≤ 120 then .ok (strip name)
      else .error ⟨"invalid_product_name", "产品名称须为 1-120 个字符。", 422⟩ := by
  simp only [normalizeProductName, strip_ne_of_text h, decide_false, Bool.false_or]
  by_cases hle : (strip name).length ≤ 120
  · rw [if_pos hle, if_neg (by simpa using hle)]
  · rw [if_neg hle, if_pos (by simpa using hle)]

/-- A code is not blank. -/
theorem hasText_of_code {s : String} (h : isProductCode (strip s) = true) : hasText s = true := by
  by_contra hblank
  rw [strip_of_blank (by simpa using hblank)] at h
  exact absurd h (by decide)

/-- The loop takes the valid rows. -/
theorem readRow_of_isValid (h : isValid codeColumn nameColumn row = true) :
    readRow codeColumn nameColumn row = .ok (candidateOf codeColumn nameColumn row) := by
  obtain ⟨hcode, hname⟩ := Bool.and_eq_true_iff.mp h
  rw [readRow, if_neg (by simp [hasText_of_code hcode]), normalizeProductCode_eq, if_pos hcode]
  dsimp only
  by_cases htext : hasText (rawNameOf nameColumn row) = true
  · have hle : (strip (rawNameOf nameColumn row)).length ≤ 120 := by simpa [htext] using hname
    rw [if_pos htext, normalizeProductName_of_text htext, if_pos hle, candidateOf, if_pos htext]
  · rw [if_neg htext, candidateOf, if_neg htext]

/-- It has an error for each other row. -/
theorem readRow_of_not_isValid (h : isValid codeColumn nameColumn row ≠ true) :
    ∃ error, readRow codeColumn nameColumn row = .error error ∧
      error.row = some row.rowNumber := by
  rw [readRow]
  by_cases hblank : hasText (row.values.get codeColumn) = true
  · rw [if_neg (by simp [hblank]), normalizeProductCode_eq]
    by_cases hcode : isProductCode (strip (row.values.get codeColumn)) = true
    · rw [if_pos hcode]
      dsimp only
      have hname : hasText (rawNameOf nameColumn row) = true ∧
          ¬(strip (rawNameOf nameColumn row)).length ≤ 120 := by
        simpa [isValid, hcode] using h
      rw [if_pos hname.1, normalizeProductName_of_text hname.1, if_neg hname.2]
      exact ⟨_, rfl, rfl⟩
    · rw [if_neg hcode]
      exact ⟨_, rfl, rfl⟩
  · rw [if_pos (by simpa using hblank)]
    exact ⟨_, rfl, rfl⟩

/-- What the loop takes is normal, and stays what it is when the product is created. -/
theorem candidateOf_normal (h : isValid codeColumn nameColumn row = true) :
    normalizeProductCode (candidateOf codeColumn nameColumn row).code =
        .ok (candidateOf codeColumn nameColumn row).code ∧
      normalizeProductName (candidateOf codeColumn nameColumn row).name =
        .ok (candidateOf codeColumn nameColumn row).name := by
  obtain ⟨hcode, hname⟩ := Bool.and_eq_true_iff.mp h
  obtain ⟨hstrip, hcanonical, hagain⟩ := canonical_code hcode
  constructor
  · rw [normalizeProductCode_eq, candidateOf, hstrip, if_pos hcanonical, hagain]
  · refine normalizeProductName_of_isName ?_
    rw [candidateOf]
    dsimp only
    by_cases htext : hasText (rawNameOf nameColumn row) = true
    · have hle : (strip (rawNameOf nameColumn row)).length ≤ 120 := by simpa [htext] using hname
      rw [if_pos htext]
      exact ⟨strip_strip _, strip_ne_of_text htext, hle⟩
    · rw [if_neg htext]
      obtain ⟨hpos, hle, -⟩ := isProductCode_iff.mp hcanonical
      refine ⟨hstrip, ?_, by omega⟩
      intro hempty
      rw [hempty] at hpos
      exact absurd hpos (by decide)

end Rows

/-! ## 3. The loop over the rows -/

/-- Those before which there is none of the same code. -/
def firstOccurrences (found : List ImportCandidate) : List ImportCandidate :=
  (found.zipIdx.filter fun entry => (found.take entry.2).all (·.code ≠ entry.1.code)).map Prod.fst

theorem firstOccurrences_concat (found : List ImportCandidate) (candidate : ImportCandidate) :
    firstOccurrences (found ++ [candidate]) = firstOccurrences found ++
      if found.all (·.code ≠ candidate.code) then [candidate] else [] := by
  have hfirst : (found.zipIdx.filter fun entry =>
        ((found ++ [candidate]).take entry.2).all (·.code ≠ entry.1.code)) =
      found.zipIdx.filter fun entry => (found.take entry.2).all (·.code ≠ entry.1.code) := by
    refine List.filter_congr fun entry hentry => ?_
    obtain ⟨-, hlt, -⟩ := List.mem_zipIdx hentry
    rw [List.take_append_of_le_length (by omega)]
  rw [firstOccurrences, List.zipIdx_append, List.filter_append, List.map_append, hfirst]
  congr 1
  simp only [List.zipIdx_singleton, Nat.zero_add, List.filter_singleton, List.take_left]
  cases (found.all fun earlier => decide (earlier.code ≠ candidate.code)) <;> rfl

/-- The codes of the first occurrences are the codes of all. -/
theorem mem_firstOccurrences_code {found : List ImportCandidate} {code : String} :
    code ∈ (firstOccurrences found).map ImportCandidate.code ↔
      code ∈ found.map ImportCandidate.code := by
  induction found using List.reverseRecOn with
  | nil => rfl
  | append_singleton found candidate ih =>
    rw [firstOccurrences_concat, List.map_append, List.mem_append, ih, List.map_append,
      List.mem_append]
    split
    · rfl
    · rename_i hall
      have hseen : candidate.code ∈ found.map ImportCandidate.code := by
        by_contra hnot
        refine hall (List.all_eq_true.mpr fun earlier hearlier => decide_eq_true fun hsame => ?_)
        exact hnot (List.mem_map.mpr ⟨earlier, hearlier, hsame⟩)
      constructor
      · rintro (h | h)
        · exact .inl h
        · cases h
      · rintro (h | h)
        · exact .inl h
        · obtain rfl := List.mem_singleton.mp h
          exact .inl hseen

theorem mem_of_mem_firstOccurrences {found : List ImportCandidate} {candidate : ImportCandidate}
    (h : candidate ∈ firstOccurrences found) : candidate ∈ found := by
  obtain ⟨entry, hentry, rfl⟩ := List.mem_map.mp h
  obtain ⟨-, -, hget⟩ := List.mem_zipIdx (List.mem_filter.mp hentry).1
  exact hget ▸ List.getElem_mem _

/-- Each code occurs first once. -/
theorem nodup_firstOccurrences (found : List ImportCandidate) :
    ((firstOccurrences found).map ImportCandidate.code).Nodup := by
  induction found using List.reverseRecOn with
  | nil => exact List.nodup_nil
  | append_singleton found candidate ih =>
    rw [firstOccurrences_concat]
    split
    · rename_i hall
      rw [List.map_append, List.nodup_append]
      refine ⟨ih, by simp, ?_⟩
      intro code hcode other hother heq
      obtain rfl := List.mem_singleton.mp hother
      rw [heq, mem_firstOccurrences_code] at hcode
      obtain ⟨earlier, hearlier, hsame⟩ := List.mem_map.mp hcode
      have hne := List.all_eq_true.mp hall earlier hearlier
      exact (of_decide_eq_true hne) hsame
    · rwa [List.append_nil]

section Tallies

variable (codeColumn : Nat) (nameColumn : Option Nat)

/-- What the loop holds after some rows. -/
structure Tallied (rows : List ParsedRow) (tally : Tally) : Prop where
  candidates : tally.candidates = firstOccurrences
    ((rows.filter (isValid codeColumn nameColumn)).map (candidateOf codeColumn nameColumn))
  seenCodes : tally.seenCodes = tally.candidates.map ImportCandidate.code
  total : tally.candidates.length + tally.duplicateCount =
    (rows.filter (isValid codeColumn nameColumn)).length
  errors : tally.errors.map ImportRowError.row =
    (rows.filter fun row => !isValid codeColumn nameColumn row).map fun row => some row.rowNumber

variable {codeColumn nameColumn}

/-- One more row. -/
theorem Tallied.step {rows : List ParsedRow} {tally : Tally} {row : ParsedRow}
    (h : Tallied codeColumn nameColumn rows tally) :
    Tallied codeColumn nameColumn (rows ++ [row]) (tallyRow codeColumn nameColumn tally row) := by
  obtain ⟨hcandidates, hseen, htotal, herrors⟩ := h
  rw [tallyRow]
  by_cases hvalid : isValid codeColumn nameColumn row = true
  · have hvalids : (rows ++ [row]).filter (isValid codeColumn nameColumn) =
        rows.filter (isValid codeColumn nameColumn) ++ [row] := by
      simp [List.filter_append, hvalid]
    have hinvalids : ((rows ++ [row]).filter fun row => !isValid codeColumn nameColumn row) =
        rows.filter fun row => !isValid codeColumn nameColumn row := by
      simp [List.filter_append, hvalid]
    have hcontains : tally.seenCodes.contains (candidateOf codeColumn nameColumn row).code =
        !((rows.filter (isValid codeColumn nameColumn)).map
          (candidateOf codeColumn nameColumn)).all
            (·.code ≠ (candidateOf codeColumn nameColumn row).code) := by
      rw [Bool.eq_iff_iff, List.contains_iff_mem, hseen, hcandidates, mem_firstOccurrences_code]
      simp [and_assoc]
    rw [readRow_of_isValid hvalid]
    dsimp only
    rw [hcontains]
    cases hall : ((rows.filter (isValid codeColumn nameColumn)).map
        (candidateOf codeColumn nameColumn)).all
          (·.code ≠ (candidateOf codeColumn nameColumn row).code) with
    | false =>
      refine ⟨?_, hseen, ?_, ?_⟩
      · rw [hvalids, List.map_append, List.map_singleton, firstOccurrences_concat, hall]
        simpa using hcandidates
      · rw [hvalids, List.length_append, List.length_singleton, ← htotal]
        exact (Nat.add_assoc _ _ _).symm
      · rw [hinvalids]
        exact herrors
    | true =>
      refine ⟨?_, ?_, ?_, ?_⟩
      · rw [hvalids, List.map_append, List.map_singleton, firstOccurrences_concat, hall]
        simp [hcandidates]
      · simp [hseen]
      · rw [hvalids, List.length_append, List.length_singleton, ← htotal]
        simp
        omega
      · rw [hinvalids]
        exact herrors
  · obtain ⟨error, herror, hrow⟩ := readRow_of_not_isValid hvalid
    have hvalids : (rows ++ [row]).filter (isValid codeColumn nameColumn) =
        rows.filter (isValid codeColumn nameColumn) := by
      simp [List.filter_append, hvalid]
    have hinvalids : ((rows ++ [row]).filter fun row => !isValid codeColumn nameColumn row) =
        (rows.filter fun row => !isValid codeColumn nameColumn row) ++ [row] := by
      simp [List.filter_append, hvalid]
    rw [herror]
    refine ⟨?_, hseen, ?_, ?_⟩
    · rw [hvalids]
      exact hcandidates
    · rw [hvalids]
      exact htotal
    · rw [hinvalids, List.map_append, List.map_append, List.map_singleton, List.map_singleton,
        herrors, hrow]

theorem tallied_foldl (rows : List ParsedRow) :
    Tallied codeColumn nameColumn rows (rows.foldl (tallyRow codeColumn nameColumn) {}) := by
  induction rows using List.reverseRecOn with
  | nil => exact ⟨rfl, rfl, rfl, rfl⟩
  | append_singleton rows row ih =>
    rw [List.foldl_append]
    exact ih.step

end Tallies

/-! ## 4. The loop over the candidates -/

section Creating

variable {database : Database} {draws : Nat → Nat → String}

/-- Somebody else has a product of this code. -/
def taken (others : List ProductRow) (code : String) : Bool := others.any (·.code = code)

/-- The attempts end with the product, or with an error that says why not. -/
theorem attemptInsert_spec {own : List ProductRow} {code : String} (name : String)
    (hown : ∀ row ∈ own, row.code ≠ code) :
    ∀ attempts : List (List ProductRow × String),
    (∃ others ∈ attempts.map Prod.fst, ∃ token, taken others code = false ∧
      attemptInsert own code name attempts = .ok (own ++ [⟨code, name, token⟩])) ∨
    (∃ others ∈ attempts.map Prod.fst, taken others code = true ∧
      ∃ error, attemptInsert own code name attempts = .error error ∧
        error.code = "duplicate_product_code") ∨
    (∃ error, attemptInsert own code name attempts = .error error ∧
      error.code ≠ "duplicate_product_code") := by
  intro attempts
  induction attempts with
  | nil => exact .inr (.inr ⟨_, rfl, by decide⟩)
  | cons head attempts ih =>
    obtain ⟨others, token⟩ := head
    have hcode : (others ++ own).any (·.code = code) = taken others code := by
      have hnone : own.any (·.code = code) = false := by
        simpa [List.any_eq_false] using hown
      rw [List.any_append, hnone, Bool.or_false, taken]
    rw [attemptInsert, insertProduct]
    dsimp only
    rw [hcode]
    cases htaken : taken others code with
    | true => exact .inr (.inl ⟨others, by simp, htaken, _, rfl, rfl⟩)
    | false =>
      rw [if_neg Bool.false_ne_true]
      by_cases htoken : (others ++ own).any (·.publicToken = token) = true
      · rw [if_pos htoken]
        rcases ih with ⟨later, hlater, found⟩ | ⟨later, hlater, found⟩ | found
        · exact .inl ⟨later, List.mem_cons_of_mem _ hlater, found⟩
        · exact .inr (.inl ⟨later, List.mem_cons_of_mem _ hlater, found⟩)
        · exact .inr (.inr found)
      · rw [if_neg htoken]
        exact .inl ⟨others, by simp, token, htaken, rfl⟩

/-- What a product is, but for its token. -/
def ProductRow.entry (row : ProductRow) : String × String := (row.code, row.name)

def ImportCandidate.entry (candidate : ImportCandidate) : String × String :=
  (candidate.code, candidate.name)

/-- A candidate stays what it is when its product is created. -/
def IsNormal (candidate : ImportCandidate) : Prop :=
  normalizeProductCode candidate.code = .ok candidate.code ∧
    normalizeProductName candidate.name = .ok candidate.name

/-- Those candidates whose codes nobody else has at their insert. -/
def inserted (database : Database) (attempt : Nat → Nat)
    (candidates : List (ImportCandidate × Nat)) : List ImportCandidate :=
  (candidates.filter fun entry =>
    !taken (database.others entry.2 (attempt entry.2)) entry.1.code).map Prod.fst

/-- What the loop has added to a batch. -/
structure Added (database : Database) (candidates : List (ImportCandidate × Nat))
    (before after : Batch) : Prop where
  created : ∃ attempt : Nat → Nat, after.created.map ProductRow.entry =
    before.created.map ProductRow.entry ++
      (inserted database attempt candidates).map ImportCandidate.entry
  successCount : after.successCount + before.created.length =
    before.successCount + after.created.length
  total : after.successCount + after.duplicateCount =
    before.successCount + before.duplicateCount + candidates.length

theorem createProducts_added {candidates : List (ImportCandidate × Nat)} :
    ∀ {before after : Batch}, (∀ entry ∈ candidates, IsNormal entry.1) →
    (candidates.map Prod.snd).Nodup →
    (before.created.map ProductRow.code ++ candidates.map fun entry => entry.1.code).Nodup →
    createProducts database draws before candidates = .ok after →
    Added database candidates before after := by
  induction candidates with
  | nil =>
    intro before after _ _ _ h
    cases h
    exact ⟨⟨fun _ => 0, by simp [inserted]⟩, rfl, rfl⟩
  | cons head candidates ih =>
    obtain ⟨candidate, turn⟩ := head
    intro before after hnormal hturns hcodes h
    obtain ⟨⟨hcode, hname⟩, hnormal⟩ := List.forall_mem_cons.mp hnormal
    obtain ⟨hturn, hturns⟩ := List.nodup_cons.mp hturns
    have hown : ∀ row ∈ before.created, row.code ≠ candidate.code := by
      intro row hrow heq
      rw [List.nodup_append] at hcodes
      exact hcodes.2.2 _ (List.mem_map_of_mem hrow) _ (by simp) heq
    -- The attempt of this turn is chosen here, those of the later turns by the induction.
    have hchoose : ∀ (attempt : Nat → Nat) (number : Nat),
        inserted database (Function.update attempt turn number) ((candidate, turn) :: candidates) =
          (if taken (database.others turn number) candidate.code then [] else [candidate]) ++
            inserted database attempt candidates := by
      intro attempt number
      have hlater : (candidates.filter fun entry =>
          !taken (database.others entry.2 (Function.update attempt turn number entry.2))
            entry.1.code) = candidates.filter fun entry =>
              !taken (database.others entry.2 (attempt entry.2)) entry.1.code := by
        refine List.filter_congr fun entry hentry => ?_
        have hne : entry.2 ≠ turn := fun heq =>
          hturn (List.mem_map.mpr ⟨entry, hentry, heq⟩)
        rw [Function.update_of_ne hne]
      rw [inserted, List.filter_cons, Function.update_self, hlater, inserted]
      cases taken (database.others turn number) candidate.code <;> rfl
    rw [createProducts] at h
    by_cases hbreaks : database.breaks turn = true
    · rw [if_pos hbreaks] at h
      cases h
    · rw [if_neg hbreaks] at h
      have hrun : createProductInTransaction (database.others turn) (draws turn) before.created
          candidate.code candidate.name = attemptInsert before.created candidate.code candidate.name
            ((List.range tokenRetryLimit).map fun number =>
              (database.others turn number, draws turn number)) := by
        rw [createProductInTransaction, hcode, hname]
        rfl
      have hnumber : ∀ {others : List ProductRow}, others ∈ ((List.range tokenRetryLimit).map
          fun number => (database.others turn number, draws turn number)).map Prod.fst →
          ∃ number, database.others turn number = others := by
        intro others hothers
        rw [List.map_map] at hothers
        obtain ⟨number, -, rfl⟩ := List.mem_map.mp hothers
        exact ⟨number, rfl⟩
      rw [hrun] at h
      rcases attemptInsert_spec candidate.name hown ((List.range tokenRetryLimit).map
          fun number => (database.others turn number, draws turn number)) with
        ⟨others, hothers, token, hfree, hok⟩ | ⟨others, hothers, htaken, error, herror, hduplicate⟩ |
          ⟨error, herror, hother⟩
      · rw [hok] at h
        dsimp only at h
        obtain ⟨number, rfl⟩ := hnumber hothers
        obtain ⟨⟨attempt, hcreated⟩, hsuccess, htotal⟩ := ih hnormal hturns (by
          rw [List.map_append, List.append_assoc]
          exact hcodes) h
        refine ⟨⟨Function.update attempt turn number, ?_⟩, ?_, ?_⟩
        · rw [hcreated, hchoose, hfree, if_neg Bool.false_ne_true, List.map_append,
            List.append_assoc, List.map_append]
          rfl
        · simp only [List.length_append, List.length_singleton] at hsuccess
          omega
        · simp only [List.length_cons] at htotal ⊢
          omega
      · rw [herror] at h
        dsimp only at h
        rw [if_pos hduplicate] at h
        obtain ⟨number, rfl⟩ := hnumber hothers
        obtain ⟨⟨attempt, hcreated⟩, hsuccess, htotal⟩ := ih hnormal hturns (by
          refine hcodes.sublist (List.Sublist.append_left ?_ _)
          exact List.sublist_cons_self _ _) h
        refine ⟨⟨Function.update attempt turn number, ?_⟩, hsuccess, ?_⟩
        · rw [hcreated, hchoose, htaken, if_pos rfl, List.nil_append]
        · simp only [List.length_cons] at htotal ⊢
          omega
      · rw [herror] at h
        dsimp only at h
        rw [if_neg hother] at h
        cases h

end Creating

/-! ## 5. The import -/

section Import

variable (s : Surroundings) (settings : ImportSettings) (upload : UploadFile)

/-- The table that the loop over the rows goes through: the rows that are not blank, the column of
the codes and, if there is one, that of the names. -/
structure Table where
  rows : List ParsedRow
  codeColumn : Nat
  nameColumn : Option Nat

/-- The table is that of the upload. -/
def Table.Of (table : Table) : Prop :=
  ∃ workbook, s.worker upload.content settings = .returned workbook ∧
    table.rows = workbook.rows.filter ParsedRow.hasNonblankCells ∧
    headerColumns s workbook.headers codeHeaders = [table.codeColumn] ∧
    table.nameColumn = (headerColumns s workbook.headers nameHeaders).head?

def Table.valid (table : Table) (row : ParsedRow) : Bool :=
  isValid table.codeColumn table.nameColumn row

/-- The products of the table: each valid row's, unless an earlier one has its code. -/
def Table.candidates (table : Table) : List ImportCandidate :=
  firstOccurrences ((table.rows.filter table.valid).map
    (candidateOf table.codeColumn table.nameColumn))

/-- An import that succeeds: every row counts as a success or a duplicate, those products are
created whose codes nobody else has at their insert, and the one record is of this result. -/
structure Completed (database : Database) (table : Table) (outcome : Outcome)
    (result : ImportResult) : Prop where
  valid : ∀ row ∈ table.rows, table.valid row = true
  total : result.successCount + result.duplicateCount = table.rows.length
  created : ∃ attempt : Nat → Nat, outcome.created.map ProductRow.entry =
    (inserted database attempt table.candidates.zipIdx).map ImportCandidate.entry
  successCount : result.successCount = outcome.created.length
  recorded : ∃ event, outcome.events = [event] ∧ event.action = "product_import" ∧
    event.result = "success" ∧ ∀ count ∈ result.counts, count ∈ event.detail

variable {s settings upload}

/-- What the validation of a workbook comes to. -/
theorem validateWorkbook_ok {workbook : ParsedWorkbook} {candidates : List ImportCandidate}
    {duplicateCount : Nat} {notices : List String}
    (h : validateWorkbook s settings workbook = .ok (candidates, duplicateCount, notices)) :
    ∃ codeColumn, headerColumns s workbook.headers codeHeaders = [codeColumn] ∧
      ∃ tally, Tallied codeColumn (headerColumns s workbook.headers nameHeaders).head?
        (workbook.rows.filter ParsedRow.hasNonblankCells) tally ∧ tally.errors = [] ∧
        candidates = tally.candidates ∧ duplicateCount = tally.duplicateCount := by
  unfold validateWorkbook at h
  dsimp only at h
  split at h
  · cases h
  · split at h
    · cases h
    · cases h
    · rename_i codeColumn hcolumn
      split at h
      · cases h
      · rename_i herrors
        cases h
        exact ⟨codeColumn, hcolumn, _, tallied_foldl _, by simpa using herrors, rfl, rfl⟩

theorem validateWorkbook_formatErrors {workbook : ParsedWorkbook} {errors : List ImportRowError}
    (h : validateWorkbook s settings workbook = .error (.formatErrors errors)) :
    ∃ codeColumn, headerColumns s workbook.headers codeHeaders = [codeColumn] ∧
      ∃ tally, Tallied codeColumn (headerColumns s workbook.headers nameHeaders).head?
        (workbook.rows.filter ParsedRow.hasNonblankCells) tally ∧ errors = tally.errors := by
  unfold validateWorkbook at h
  dsimp only at h
  split at h
  · cases h
  · split at h
    · cases h
    · cases h
    · rename_i codeColumn hcolumn
      split at h
      · cases h
        exact ⟨codeColumn, hcolumn, _, tallied_foldl _, rfl⟩
      · cases h

theorem parse_ok {ended : WorkerEnd} {workbook : ParsedWorkbook}
    (h : parseXlsxWithTimeout s settings ended = .ok workbook) : ended = .returned workbook := by
  cases ended with
  | returned found =>
    cases h
    rfl
  | gone exitCode =>
    cases exitCode with
    | none => cases h
    | some code =>
      simp only [parseXlsxWithTimeout] at h
      split at h
      · cases h
      · cases h
  | memoryError => cases h
  | rejected r => cases h
  | raised typeName text => cases h
  | unlimited => cases h
  | late elapsedSeconds => cases h

/-- The first `try` comes to its end with what the validation of the workbook comes to. -/
theorem phaseOne_validated {α : Type} (found : Except Failure α) (keep : Prepared → α)
    (h : (phaseOne s settings upload).map keep = found)
    (hnot : ∀ refusal, found ≠ .error (.refused refusal)) :
    ∃ workbook metrics, s.worker upload.content settings = .returned workbook ∧
      (validateWorkbook s settings workbook).map (fun checked => keep
        ⟨checked.1, checked.2.1, checked.2.2, metrics, upload.content.size⟩) = found := by
  by_cases hread : upload.content.size ≤ settings.importMaxUploadBytes ∧
      hasExtension s upload.filename = true
  · rw [phaseOne_of_read hread.1 hread.2] at h
    cases hcontainer : containerOf s upload settings with
    | error refusal =>
      rw [hcontainer] at h
      exact absurd h.symm (hnot refusal)
    | ok metrics =>
      rw [hcontainer] at h
      simp only [Except.mapError, bind, Except.bind] at h
      cases hparsed : parseXlsxWithTimeout s settings (s.worker upload.content settings) with
      | error r =>
        rw [hparsed] at h
        exact absurd h.symm (hnot _)
      | ok workbook =>
        rw [hparsed] at h
        dsimp only at h
        refine ⟨workbook, metrics, parse_ok hparsed, ?_⟩
        cases hvalid : validateWorkbook s settings workbook with
        | error failure =>
          rw [hvalid] at h
          exact h
        | ok checked =>
          rw [hvalid] at h
          exact h
  · obtain ⟨r, hr⟩ := phaseOne_of_not_read hread
    rw [hr] at h
    exact absurd h.symm (hnot _)

theorem Table.candidates_normal {table : Table} :
    ∀ entry ∈ table.candidates.zipIdx, IsNormal entry.1 := by
  intro entry hentry
  obtain ⟨-, -, hget⟩ := List.mem_zipIdx hentry
  have hmem : entry.1 ∈ table.candidates := hget ▸ List.getElem_mem _
  have hfound := mem_of_mem_firstOccurrences hmem
  obtain ⟨row, hrow, hcandidate⟩ := List.mem_map.mp hfound
  rw [← hcandidate]
  exact candidateOf_normal (List.mem_filter.mp hrow).2

/-- The second `try`, for a table without an invalid row. -/
theorem phaseTwo_completed (database : Database) (actorId : Nat) (requestId : String)
    (draws : Nat → Nat → String) (prepared : Prepared) (table : Table)
    (hvalid : ∀ row ∈ table.rows, table.valid row = true)
    (hcandidates : prepared.candidates = table.candidates)
    (htotal : prepared.candidates.length + prepared.fileDuplicateCount = table.rows.length) :
    let outcome := phaseTwo database actorId requestId draws prepared
    (∃ result, outcome.ended = .ok result ∧ result.status = .success ∧
      Completed database table outcome result) ∨
    (outcome.created = [] ∧ ∀ result, outcome.ended = .ok result → result.status = .failure) := by
  intro outcome
  have hdefinition : outcome = phaseTwo database actorId requestId draws prepared := rfl
  unfold phaseTwo at hdefinition
  cases hbatch : createProducts database draws ⟨[], 0, prepared.fileDuplicateCount⟩
      prepared.candidates.zipIdx with
  | error aborted =>
    rw [hbatch] at hdefinition
    refine .inr ?_
    cases aborted with
    | refused error successCount =>
      rw [hdefinition]
      exact ⟨rfl, fun result h => by cases h; rfl⟩
    | database =>
      rw [hdefinition]
      exact ⟨rfl, fun result h => (nomatch h)⟩
  | ok batch =>
    rw [hbatch] at hdefinition
    dsimp only at hdefinition
    by_cases hbreaks : database.breaks prepared.candidates.length = true
    · rw [if_pos hbreaks] at hdefinition
      rw [hdefinition]
      exact .inr ⟨rfl, fun result h => (nomatch h)⟩
    · rw [if_neg hbreaks] at hdefinition
      rw [hcandidates] at hbatch htotal
      have hcodes : (table.candidates.zipIdx.map fun entry => entry.1.code) =
          table.candidates.map ImportCandidate.code := by
        rw [← List.zipIdx_map_fst 0 table.candidates, List.map_map]
        simp
      obtain ⟨⟨attempt, hcreated⟩, hsuccess, hsum⟩ :=
        createProducts_added Table.candidates_normal (by
          rw [List.zipIdx_map_snd]
          exact List.nodup_range') (by
          rw [hcodes]
          exact nodup_firstOccurrences _) hbatch
      refine .inl ⟨successResult prepared batch, by rw [hdefinition], rfl, hvalid, ?_, ?_, ?_, ?_⟩
      · simp only [List.length_zipIdx] at hsum
        simp only [successResult]
        omega
      · rw [hdefinition]
        exact ⟨attempt, by simpa using hcreated⟩
      · rw [hdefinition]
        simpa [successResult] using hsuccess
      · rw [hdefinition]
        exact ⟨_, rfl, rfl, rfl, fun count hcount => List.mem_append_left _ hcount⟩

end Import

end ProductPdfQr.Importer
