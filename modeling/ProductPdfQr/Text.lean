/-
# Text predicates

The regular expressions and string methods that the validators of both packages use, as
predicates on the characters of a string.  Every expression is used with `fullmatch`, and with
`re.ASCII`, so the classes are the ASCII ones; `strip` alone knows the Unicode blanks.
-/
import ProductPdfQr.Calendar

namespace ProductPdfQr.Text

/-! ## 1. Identifiers and digests -/

/-- `[0-9a-f]`. -/
def isHexDigit (c : Char) : Bool := c.isDigit || ('a' ≤ c && c ≤ 'f')

/-- `^[0-9a-f]{n}$`. -/
def isHex (n : Nat) (s : String) : Bool := s.toList.length = n && s.toList.all isHexDigit

/-- `SHA256`. -/
abbrev isSha256 (s : String) : Bool := isHex 64 s

/-- `[A-Za-z0-9]`. -/
def isAlnum (c : Char) : Bool := c.isDigit || ('a' ≤ c && c ≤ 'z') || ('A' ≤ c && c ≤ 'Z')

/-- `[A-Za-z0-9._-]`. -/
def isIdChar (c : Char) : Bool := isAlnum c || c = '.' || c = '_' || c = '-'

/-- `^[A-Za-z0-9][A-Za-z0-9._-]{0,127}$`. -/
def isSafeId (s : String) : Bool :=
  match s.toList with
  | [] => false
  | c :: rest => isAlnum c && rest.length ≤ 127 && rest.all isIdChar

/-- `\s` under `re.ASCII`. -/
def isAsciiBlank (c : Char) : Bool :=
  c = ' ' || c = '\t' || c = '\n' || c = '\r' || c = '\x0b' || c = '\x0c'

/-- `[^@\s]`. -/
def isReferenceChar (c : Char) : Bool := c ≠ '@' && !isAsciiBlank c

/-- The part of an image reference before its digest: `[^@\s]+:[^@\s]+`. -/
def isTaggedName (cs : List Char) : Bool :=
  cs.all isReferenceChar && (cs.drop 1).dropLast.contains ':'

/-- `^[^@\s]+:[^@\s]+@sha256:[0-9a-f]{64}$`. -/
def isImageReference (s : String) : Bool :=
  let cs := s.toList
  let split := cs.length - 72
  72 ≤ cs.length && isTaggedName (cs.take split) &&
    (cs.drop split).take 8 = "@sha256:".toList && (cs.drop (split + 8)).all isHexDigit

/-- The digest of an image reference. -/
def imageDigest (s : String) : String := String.ofList (s.toList.drop (s.toList.length - 64))

/-- `^[0-9]{8}T[0-9]{6}Z-[0-9a-f]{32}$`. -/
def isBackupId (s : String) : Bool :=
  let cs := s.toList
  cs.length = 49 && (cs.take 8).all (·.isDigit) && (cs.drop 8).take 1 = ['T'] &&
    ((cs.drop 9).take 6).all (·.isDigit) && (cs.drop 15).take 2 = ['Z', '-'] &&
    (cs.drop 17).all isHexDigit

/-! ## 2. Blanks -/

/-- What `str.strip` strips. -/
def isSpace (c : Char) : Bool :=
  let n := c.toNat
  (9 ≤ n && n ≤ 13) || (28 ≤ n && n ≤ 32) || n = 0x85 || n = 0xa0 || n = 0x1680 ||
    (0x2000 ≤ n && n ≤ 0x200a) || n = 0x2028 || n = 0x2029 || n = 0x202f || n = 0x205f ||
    n = 0x3000

/-- `value.strip()`. -/
def strip (s : String) : String :=
  String.ofList ((s.toList.dropWhile isSpace).reverse.dropWhile isSpace).reverse

/-- `value.strip()` is true. -/
def hasText (s : String) : Bool := s.toList.any fun c => !isSpace c

/-! ## 3. Paths -/

/-- The pieces of a text between the separators. -/
def split (sep : Char) : List Char → List (List Char)
  | [] => [[]]
  | c :: rest =>
    if c = sep then [] :: split sep rest
    else match split sep rest with
      | piece :: pieces => (c :: piece) :: pieces
      | [] => [[c]]

theorem split_ne_nil (sep : Char) (cs : List Char) : split sep cs ≠ [] := by
  cases cs with
  | nil => exact List.cons_ne_nil _ _
  | cons c cs =>
    unfold split
    split
    · exact List.cons_ne_nil _ _
    · split <;> exact List.cons_ne_nil _ _

theorem split_append_sep (sep : Char) (p rest : List Char) :
    split sep (p ++ sep :: rest) = split sep p ++ split sep rest := by
  induction p with
  | nil => exact if_pos rfl
  | cons c p ih =>
    rw [List.cons_append, split, ih, split]
    split
    · rfl
    · obtain ⟨piece, pieces, heq⟩ := List.exists_cons_of_ne_nil (split_ne_nil sep p)
      rw [heq]
      rfl

/-- `value.startswith(prefix)`. -/
def startsWith (s start : String) : Bool := start.toList.isPrefixOf s.toList

/-- `value.endswith(suffix)`. -/
def endsWith (s tail : String) : Bool := tail.toList.isSuffixOf s.toList

/-- `".." in Path(value).parts`. -/
def hasParentPart (s : String) : Bool := (split '/' s.toList).contains ['.', '.']

theorem hasParentPart_append (dir name : String) :
    hasParentPart (dir ++ "/" ++ name) = (hasParentPart dir || hasParentPart name) := by
  have hlist : (dir ++ "/" ++ name).toList = dir.toList ++ '/' :: name.toList := by
    simp [String.toList_append]
  rw [hasParentPart, hlist, split_append_sep, List.contains_append]
  rfl

/-- `path.is_absolute()`. -/
def isAbsolute (s : String) : Bool := startsWith s "/"

theorem isAbsolute_append {s : String} (h : isAbsolute s = true) (t : String) :
    isAbsolute (s ++ t) = true := by
  obtain ⟨rest, hrest⟩ := List.isPrefixOf_iff_prefix.mp h
  refine List.isPrefixOf_iff_prefix.mpr ⟨rest ++ t.toList, ?_⟩
  rw [String.toList_append, ← hrest, List.append_assoc]

theorem append_ne_self {s t : String} (h : t ≠ "") : s ++ t ≠ s := by
  intro heq
  have hlist := congrArg String.toList heq
  rw [String.toList_append] at hlist
  exact h (String.toList_inj.mp (by simpa using hlist))

theorem append_ne_append {s t t' : String} (h : t ≠ t') : s ++ t ≠ s ++ t' := by
  intro heq
  have hlist := congrArg String.toList heq
  rw [String.toList_append, String.toList_append, List.append_cancel_left_eq] at hlist
  exact h (String.toList_inj.mp hlist)

/-- `paths == sorted(set(paths))`. -/
def strictlySorted (paths : List String) : Bool := decide (paths.Pairwise (· < ·))

/-- The bytes as ASCII text. -/
def decodeAscii? (bytes : Bytes) : Option String :=
  (String.fromUTF8? bytes).filter fun s => s.toList.all fun c => c.toNat < 128

/-! ## 4. Digests in a text -/

theorem isHexDigit_ascii {c : Char} (h : isHexDigit c = true) : 48 ≤ c.toNat ∧ c.toNat < 128 := by
  simp only [isHexDigit, Char.isDigit, Bool.or_eq_true, Bool.and_eq_true, decide_eq_true_eq] at h
  rcases h with ⟨hl, hr⟩ | ⟨hl, hr⟩
  · have hl' : (48 : UInt32).toNat ≤ c.val.toNat := UInt32.le_iff_toNat_le.mp hl
    have hr' : c.val.toNat ≤ (57 : UInt32).toNat := UInt32.le_iff_toNat_le.mp hr
    exact ⟨le_trans (by decide) hl', lt_of_le_of_lt hr' (by decide)⟩
  · have hl' : 'a'.toNat ≤ c.toNat := hl
    have hr' : c.toNat ≤ 'f'.toNat := hr
    exact ⟨le_trans (by decide) hl', lt_of_le_of_lt hr' (by decide)⟩

theorem isHexDigit_not_space {c : Char} (h : isHexDigit c = true) : isSpace c = false := by
  obtain ⟨hl, hr⟩ := isHexDigit_ascii h
  simp only [isSpace, Bool.or_eq_false_iff, Bool.and_eq_false_iff, decide_eq_false_iff_not]
  omega

theorem isHex_iff {n : Nat} {s : String} :
    isHex n s = true ↔ s.toList.length = n ∧ ∀ c ∈ s.toList, isHexDigit c = true := by
  simp [isHex]

/-- A digest is what is left of the text of its seal. -/
theorem strip_line {n : Nat} {s : String} (h : isHex n s = true) : strip (s ++ "\n") = s := by
  have hs : ∀ c ∈ s.toList, isSpace c = false := fun c hc =>
    isHexDigit_not_space ((isHex_iff.mp h).2 c hc)
  have hspace : isSpace '\n' = true := by decide
  have hkeep : ∀ l : List Char, (∀ c ∈ l, isSpace c = false) → l.dropWhile isSpace = l := by
    intro l hl
    cases l with
    | nil => rfl
    | cons c l => simp [hl c (by simp)]
  have htail : ((s.toList ++ ['\n']).reverse).dropWhile isSpace = s.toList.reverse := by
    rw [List.reverse_append, List.reverse_cons, List.reverse_nil, List.nil_append,
      List.singleton_append, List.dropWhile_cons_of_pos hspace]
    exact hkeep _ fun c hc => hs c (List.mem_reverse.mp hc)
  rw [strip, String.toList_append, show ("\n" : String).toList = ['\n'] by simp]
  cases hlist : s.toList with
  | nil =>
    have hempty : s = "" := by rw [← String.toList_inj, hlist]; rfl
    rw [List.nil_append, List.dropWhile_cons_of_pos hspace, hempty]
    rfl
  | cons c rest =>
    have hc : isSpace c = false := hs c (by simp [hlist])
    rw [List.cons_append, List.dropWhile_cons_of_neg (by simp [hc]), ← List.cons_append, ← hlist,
      htail, List.reverse_reverse, String.ofList_toList]

/-- A text that begins with no blank is stripped to one that begins with the same character. -/
theorem strip_head {s : String} {c : Char} {rest : List Char} (h : s.toList = c :: rest)
    (hc : isSpace c = false) : ∃ rest', (strip s).toList = c :: rest' := by
  rw [strip, h, List.dropWhile_cons_of_neg (by simp [hc]), String.toList_ofList]
  have hlast : ∀ l : List Char, ∃ l', (l ++ [c]).dropWhile isSpace = l' ++ [c] := by
    intro l
    induction l with
    | nil => exact ⟨[], by simp [hc]⟩
    | cons x l ih =>
      cases hx : isSpace x with
      | true => simpa [List.dropWhile_cons_of_pos hx] using ih
      | false => exact ⟨x :: l, by simp [hx]⟩
  obtain ⟨l', hl'⟩ := hlast rest.reverse
  exact ⟨l'.reverse, by rw [List.reverse_cons, hl']; simp⟩

end ProductPdfQr.Text
