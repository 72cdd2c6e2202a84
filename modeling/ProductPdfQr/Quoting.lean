/-
# Quoted path names

Git writes a path name as it is when every byte of it is a printable ASCII character other than
the quote and the backslash.  Any other name stands in quotes, with an escape for each byte that
is not of that kind.

A byte is the character with its number here, so that a plain name is its own text.  The quoted
text is told from a plain one by its first character, escapes are read back (`readEscape`), and
the separators of a path are the separators of its text: quoting changes the names between them
one by one, but for the quotes at the two ends.
-/
import ProductPdfQr.Paths
import ProductPdfQr.Text

namespace ProductPdfQr.Quoting

open Text Paths

/-! ## 1. Quoting -/

/-- The characters that need no quotes. -/
def plain (c : Char) : Bool := 0x20 ≤ c.toNat && c.toNat < 0x7f && c ≠ '"' && c ≠ '\\'

/-- The letter of an escape that has one. -/
def escapeLetter (c : Char) : Option Char :=
  if c = '"' then some '"' else if c = '\\' then some '\\'
  else match c.toNat with
    | 7 => some 'a'
    | 8 => some 'b'
    | 9 => some 't'
    | 10 => some 'n'
    | 11 => some 'v'
    | 12 => some 'f'
    | 13 => some 'r'
    | _ => none

def octalDigit (n : Nat) : Char := Char.ofNat (48 + n % 8)

/-- One byte between quotes. -/
def escape (c : Char) : List Char :=
  if plain c then [c]
  else match escapeLetter c with
    | some letter => ['\\', letter]
    | none => ['\\', octalDigit (c.toNat / 64), octalDigit (c.toNat / 8), octalDigit c.toNat]

/-- `quote_c_style`. -/
def quote (path : List Char) : List Char :=
  if path.all plain then path else '"' :: path.flatMap escape ++ ['"']

/-! ## 2. Reading escapes back -/

/-- The byte that a letter behind a backslash stands for. -/
def letterByte (letter : Char) : Option Char :=
  match letter with
  | '"' => some '"'
  | '\\' => some '\\'
  | 'a' => some (Char.ofNat 7)
  | 'b' => some (Char.ofNat 8)
  | 't' => some (Char.ofNat 9)
  | 'n' => some (Char.ofNat 10)
  | 'v' => some (Char.ofNat 11)
  | 'f' => some (Char.ofNat 12)
  | 'r' => some (Char.ofNat 13)
  | _ => none

def octalByte (x y z : Char) : Char :=
  Char.ofNat ((x.toNat - 48) * 64 + (y.toNat - 48) * 8 + (z.toNat - 48))

/-- The first byte of what stands between the quotes, and the rest. -/
def readEscape : List Char → Option (Char × List Char)
  | [] => none
  | c :: rest =>
    if c ≠ '\\' then some (c, rest)
    else match rest with
      | [] => none
      | x :: rest =>
        match letterByte x with
        | some byte => some (byte, rest)
        | none =>
          match rest with
          | y :: z :: rest => some (octalByte x y z, rest)
          | _ => none

theorem readEscape_append {text more : List Char} {c : Char} (h : readEscape text = some (c, more))
    (rest : List Char) : readEscape (text ++ rest) = some (c, more ++ rest) := by
  cases text with
  | nil => cases h
  | cons a text =>
    by_cases ha : a = '\\'
    · cases text with
      | nil => simp [readEscape, ha] at h
      | cons x text =>
        simp only [readEscape, ha, List.cons_append, ne_eq, not_true_eq_false, if_false] at h ⊢
        cases hx : letterByte x with
        | some byte =>
          rw [hx] at h
          simp only [Option.some.injEq, Prod.mk.injEq] at h ⊢
          exact ⟨h.1, by rw [h.2]⟩
        | none =>
          rw [hx] at h
          match text, h with
          | y :: z :: text, h =>
            simp only [List.cons_append, Option.some.injEq, Prod.mk.injEq] at h ⊢
            exact ⟨h.1, by rw [h.2]⟩
    · simp only [readEscape, List.cons_append, ne_eq, ha, not_false_eq_true, if_true,
        Option.some.injEq, Prod.mk.injEq] at h ⊢
      exact ⟨h.1, by rw [h.2]⟩

theorem readEscape_escape {c : Char} (h : c.toNat < 256) :
    readEscape (escape c) = some (c, []) := by
  have hall : ∀ n : Fin 256, readEscape (escape (Char.ofNat n)) = some (Char.ofNat n, []) := by
    decide +kernel
  have hc := hall ⟨c.toNat, h⟩
  rwa [Char.ofNat_toNat] at hc

/-- An escape can be told from whatever follows it. -/
theorem escape_append_inj {c c' : Char} {rest rest' : List Char} (hc : c.toNat < 256)
    (hc' : c'.toNat < 256) (h : escape c ++ rest = escape c' ++ rest') : c = c' ∧ rest = rest' := by
  have hread := readEscape_append (readEscape_escape hc) rest
  rw [h, readEscape_append (readEscape_escape hc') rest', Option.some.injEq, Prod.mk.injEq] at hread
  exact ⟨hread.1.symm, hread.2.symm⟩

theorem escape_ne_nil (c : Char) : escape c ≠ [] := by
  unfold escape
  split
  · exact List.cons_ne_nil _ _
  · split <;> exact List.cons_ne_nil _ _

theorem flatMap_escape_inj {path path' : List Char} (h : ∀ c ∈ path, c.toNat < 256)
    (h' : ∀ c ∈ path', c.toNat < 256) (heq : path.flatMap escape = path'.flatMap escape) :
    path = path' := by
  induction path generalizing path' with
  | nil =>
    cases path' with
    | nil => rfl
    | cons c' path' => simp [escape_ne_nil] at heq
  | cons c path ih =>
    cases path' with
    | nil => simp [escape_ne_nil] at heq
    | cons c' path' =>
      rw [List.flatMap_cons, List.flatMap_cons] at heq
      obtain ⟨rfl, hrest⟩ := escape_append_inj (h c (by simp)) (h' c' (by simp)) heq
      rw [ih (fun x hx => h x (by simp [hx])) (fun x hx => h' x (by simp [hx])) hrest]

/-! ## 3. Quoted texts -/

theorem quote_of_plain {path : List Char} (h : path.all plain = true) : quote path = path :=
  if_pos h

theorem quote_of_not {path : List Char} (h : path.all plain = false) :
    quote path = '"' :: path.flatMap escape ++ ['"'] := if_neg (by simp [h])

theorem quote_inj {path path' : List Char} (h : ∀ c ∈ path, c.toNat < 256)
    (h' : ∀ c ∈ path', c.toNat < 256) (heq : quote path = quote path') : path = path' := by
  have hhead : ∀ {p q : List Char}, p.all plain = true → p ≠ '"' :: q := by
    rintro p q hp rfl
    simp [plain] at hp
  cases hp : path.all plain with
  | true =>
    cases hp' : path'.all plain with
    | true => rwa [quote_of_plain hp, quote_of_plain hp'] at heq
    | false =>
      rw [quote_of_plain hp, quote_of_not hp'] at heq
      exact absurd heq (hhead hp)
  | false =>
    cases hp' : path'.all plain with
    | true =>
      rw [quote_of_not hp, quote_of_plain hp'] at heq
      exact absurd heq.symm (hhead hp')
    | false =>
      rw [quote_of_not hp, quote_of_not hp', List.cons_append, List.cons_append, List.cons.injEq,
        List.append_cancel_right_eq] at heq
      exact flatMap_escape_inj h h' heq.2

/-- Nothing but printable ASCII is left. -/
theorem escape_printable {c d : Char} (h : c.toNat < 256) (hd : d ∈ escape c) :
    0x20 ≤ d.toNat ∧ d.toNat < 0x7f := by
  have hall : ∀ n : Fin 256, ((escape (Char.ofNat n)).all fun d =>
      decide (0x20 ≤ d.toNat ∧ d.toNat < 0x7f)) = true := by
    decide +kernel
  have hc := hall ⟨c.toNat, h⟩
  rw [Char.ofNat_toNat] at hc
  exact of_decide_eq_true (List.all_eq_true.mp hc d hd)

theorem quote_printable {path : List Char} (h : ∀ c ∈ path, c.toNat < 256) :
    ∀ d ∈ quote path, 0x20 ≤ d.toNat ∧ d.toNat < 0x7f := by
  intro d hd
  cases hp : path.all plain with
  | true =>
    rw [quote_of_plain hp] at hd
    have hplain := List.all_eq_true.mp hp d hd
    simp only [plain, Bool.and_eq_true, decide_eq_true_eq] at hplain
    exact ⟨hplain.1.1.1, hplain.1.1.2⟩
  | false =>
    rw [quote_of_not hp] at hd
    simp only [List.cons_append, List.mem_cons, List.mem_append, List.mem_flatMap,
      List.not_mem_nil, or_false] at hd
    rcases hd with rfl | ⟨c, hc, hd⟩ | rfl
    · decide
    · exact escape_printable (h c hc) hd
    · decide

/-! ## 4. Names between separators -/

theorem escape_slash : escape '/' = ['/'] := by decide

theorem slash_notMem_escape {c : Char} (h : c.toNat < 256) (hne : c ≠ '/') : '/' ∉ escape c := by
  have hall : ∀ n : Fin 256, Char.ofNat n ≠ '/' → '/' ∉ escape (Char.ofNat n) := by
    decide +kernel
  have hc := hall ⟨c.toNat, h⟩
  rw [Char.ofNat_toNat] at hc
  exact hc hne

/-- What an escape begins with: the character itself, or a backslash. -/
theorem escape_head {c : Char} : escape c = [c] ∨ ∃ rest, escape c = '\\' :: rest := by
  unfold escape
  split
  · exact .inl rfl
  · split <;> exact .inr ⟨_, rfl⟩

/-- The names between the separators, each with its escapes. -/
theorem flatMap_escape_joined : ∀ names : List (List Char), (joined '/' names).flatMap escape =
    joined '/' (names.map fun name => name.flatMap escape)
  | [] => rfl
  | [name] => by simp [joined]
  | name :: next :: names => by
    have ih := flatMap_escape_joined (next :: names)
    rw [joined_cons (List.cons_ne_nil next names), List.flatMap_append, List.flatMap_cons, ih,
      escape_slash]
    exact (joined_cons (List.cons_ne_nil _ _)).symm

/-- The closing quote, behind the last name. -/
def close : List (List Char) → List (List Char)
  | [] => []
  | [name] => [name ++ ['"']]
  | name :: next :: names => name :: close (next :: names)

theorem close_ne_nil : ∀ {names : List (List Char)}, names ≠ [] → close names ≠ []
  | [_], _ => List.cons_ne_nil _ _
  | _ :: _ :: _, _ => List.cons_ne_nil _ _

theorem joined_close : ∀ {names : List (List Char)}, names ≠ [] →
    joined '/' (close names) = joined '/' names ++ ['"']
  | [name], _ => by simp [close, joined]
  | name :: next :: names, _ => by
    have hne := List.cons_ne_nil next names
    rw [close, joined_cons (close_ne_nil hne), joined_close hne, joined_cons hne,
      List.append_assoc, List.cons_append]

/-- Both quotes. -/
def wrap (names : List (List Char)) : List (List Char) :=
  (close names).modifyHead ('"' :: ·)

theorem joined_modifyHead (c : Char) : ∀ {names : List (List Char)}, names ≠ [] →
    joined '/' (names.modifyHead (c :: ·)) = c :: joined '/' names
  | [name], _ => by simp [joined]
  | name :: next :: names, _ => by
    rw [List.modifyHead_cons, joined_cons (List.cons_ne_nil _ _),
      joined_cons (List.cons_ne_nil _ _), List.cons_append]

theorem joined_wrap {names : List (List Char)} (h : names ≠ []) :
    joined '/' (wrap names) = '"' :: joined '/' names ++ ['"'] := by
  rw [wrap, joined_modifyHead _ (close_ne_nil h), joined_close h, List.cons_append]

/-- The names of a quoted path, as its text has them. -/
def quotedNames (names : List (List Char)) : List (List Char) :=
  if (joined '/' names).all plain then names
  else wrap (names.map fun name => name.flatMap escape)

theorem joined_quotedNames {names : List (List Char)} (h : names ≠ []) :
    joined '/' (quotedNames names) = quote (joined '/' names) := by
  rw [quotedNames]
  cases hp : (joined '/' names).all plain with
  | true => rw [if_pos rfl, quote_of_plain hp]
  | false =>
    rw [if_neg Bool.false_ne_true, quote_of_not hp, joined_wrap (by simpa using h),
      flatMap_escape_joined]

theorem mem_joined : ∀ {names : List (List Char)} {c : Char}, c ∈ joined '/' names →
    c = '/' ∨ ∃ name ∈ names, c ∈ name
  | [name], c, h => .inr ⟨name, by simp, by simpa [joined] using h⟩
  | name :: next :: names, c, h => by
    rw [joined_cons (List.cons_ne_nil _ _), List.mem_append, List.mem_cons] at h
    rcases h with h | rfl | h
    · exact .inr ⟨name, by simp, h⟩
    · exact .inl rfl
    · rcases mem_joined h with h | ⟨n, hn, h⟩
      · exact .inl h
      · exact .inr ⟨n, List.mem_cons_of_mem _ hn, h⟩

theorem split_of_notMem {text : List Char} (h : '/' ∉ text) : split '/' text = [text] := by
  induction text with
  | nil => rfl
  | cons c text ih =>
    rw [List.mem_cons, not_or] at h
    rw [split, if_neg (Ne.symm h.1), ih h.2]

theorem split_joined : ∀ {names : List (List Char)}, names ≠ [] → (∀ name ∈ names, '/' ∉ name) →
    split '/' (joined '/' names) = names
  | [name], _, h => by
    rw [joined, List.intercalate_singleton, split_of_notMem (h name (by simp))]
  | name :: next :: names, _, h => by
    have ih := split_joined (List.cons_ne_nil next names) fun n hn => h n (by simp [hn])
    have hname := split_of_notMem (h name (by simp))
    rw [joined_cons (List.cons_ne_nil _ _), split_append_sep, ih, hname]
    rfl

/-- A text is its names, joined. -/
theorem joined_split (text : List Char) : joined '/' (split '/' text) = text := by
  induction text with
  | nil => rfl
  | cons c text ih =>
    rw [split]
    split
    · next hc => rw [joined_cons (split_ne_nil '/' text), ih, hc, List.nil_append]
    · split
      · next name names heq =>
        rw [heq] at ih
        rw [← ih]
        cases names with
        | nil => simp [joined]
        | cons next names =>
          rw [joined_cons (List.cons_ne_nil _ _), joined_cons (List.cons_ne_nil _ _)]
          rfl
      · next heq => exact absurd heq (split_ne_nil '/' text)

theorem mem_close : ∀ {names : List (List Char)} {name : List Char}, name ∈ close names →
    ∃ n ∈ names, name = n ∨ name = n ++ ['"']
  | [n], name, h => ⟨n, by simp, .inr (List.mem_singleton.mp h)⟩
  | n :: next :: names, name, h => by
    rcases List.mem_cons.mp h with rfl | h
    · exact ⟨name, by simp, .inl rfl⟩
    · obtain ⟨m, hm, hname⟩ := mem_close h
      exact ⟨m, List.mem_cons_of_mem _ hm, hname⟩

theorem mem_modifyHead {α : Type} {f : α → α} {l : List α} {a : α} (h : a ∈ l.modifyHead f) :
    a ∈ l ∨ ∃ b ∈ l, a = f b := by
  cases l with
  | nil => cases h
  | cons b l =>
    rcases List.mem_cons.mp h with rfl | h
    · exact .inr ⟨b, by simp, rfl⟩
    · exact .inl (List.mem_cons_of_mem _ h)

/-- What the quotes make of the names. -/
theorem mem_wrap {names : List (List Char)} {name : List Char} (h : name ∈ wrap names) :
    ∃ n ∈ names, name = n ∨ '"' ∈ name ∧ ∀ c ∈ name, c ∈ n ∨ c = '"' := by
  rcases mem_modifyHead h with hclose | ⟨m, hclose, rfl⟩
  · obtain ⟨n, hn, rfl | rfl⟩ := mem_close hclose
    · exact ⟨name, hn, .inl rfl⟩
    · exact ⟨n, hn, .inr ⟨by simp, fun c hc => by simpa using hc⟩⟩
  · obtain ⟨n, hn, rfl | rfl⟩ := mem_close hclose
    · exact ⟨m, hn, .inr ⟨by simp, fun c hc => (List.mem_cons.mp hc).symm⟩⟩
    · refine ⟨n, hn, .inr ⟨by simp, fun c hc => ?_⟩⟩
      simp only [List.mem_cons, List.mem_append, List.not_mem_nil, or_false] at hc
      tauto

/-- A name in a quoted path is not empty, is no dot, and has no separator, if that holds of the
names that were quoted. -/
theorem quotedNames_proper {names : List (List Char)}
    (h : ∀ name ∈ names, name ≠ [] ∧ name ≠ ['.'] ∧ '/' ∉ name ∧ ∀ c ∈ name, c.toNat < 256) :
    ∀ name ∈ quotedNames names, name ≠ [] ∧ name ≠ ['.'] ∧ '/' ∉ name := by
  intro name hname
  rw [quotedNames] at hname
  split at hname
  · obtain ⟨hempty, hdot, hslash, -⟩ := h name hname
    exact ⟨hempty, hdot, hslash⟩
  · obtain ⟨n, hn, hcase⟩ := mem_wrap hname
    obtain ⟨m, hm, rfl⟩ := List.mem_map.mp hn
    obtain ⟨hempty, hdot, hslash, hbyte⟩ := h m hm
    have hslash' : '/' ∉ m.flatMap escape := by
      intro hmem
      obtain ⟨c, hc, hmem⟩ := List.mem_flatMap.mp hmem
      exact slash_notMem_escape (hbyte c hc) (fun heq => hslash (heq ▸ hc)) hmem
    rcases hcase with rfl | ⟨hquote, hchars⟩
    · refine ⟨?_, fun heq => hdot ?_, hslash'⟩
      · obtain ⟨c, rest, rfl⟩ := List.exists_cons_of_ne_nil hempty
        simp [escape_ne_nil]
      · have hdots : ['.'].flatMap escape = ['.'] := by decide
        exact flatMap_escape_inj hbyte (by simp) (heq.trans hdots.symm)
    · refine ⟨List.ne_nil_of_mem hquote, fun heq => ?_, fun hmem => ?_⟩
      · rw [heq] at hquote
        exact absurd hquote (by decide)
      · rcases hchars '/' hmem with h | h
        · exact hslash' h
        · exact absurd h (by decide)

/-- The names of the text of a quoted path. -/
theorem split_quote {names : List (List Char)} (hne : names ≠ [])
    (h : ∀ name ∈ names, name ≠ [] ∧ name ≠ ['.'] ∧ '/' ∉ name ∧ ∀ c ∈ name, c.toNat < 256) :
    split '/' (quote (joined '/' names)) = quotedNames names := by
  have hnames : quotedNames names ≠ [] := by
    rw [quotedNames]
    split
    · exact hne
    · rw [wrap, ne_eq, List.modifyHead_eq_nil_iff]
      exact close_ne_nil (by simpa using hne)
  rw [← joined_quotedNames hne, split_joined hnames fun name hname =>
    (quotedNames_proper h name hname).2.2]

/-! ## 5. Plain words among quoted names -/

theorem flatMap_escape_of_plain {word : List Char} (h : word.all plain = true) :
    word.flatMap escape = word := by
  induction word with
  | nil => rfl
  | cons c word ih =>
    rw [List.all_cons, Bool.and_eq_true] at h
    rw [List.flatMap_cons, ih h.2, escape, if_pos h.1, List.singleton_append]

theorem quote_notMem_of_plain {word : List Char} (h : word.all plain = true) : '"' ∉ word := by
  intro hmem
  exact absurd (List.all_eq_true.mp h _ hmem) (by decide)

/-- A plain word is a name exactly when its text is. -/
theorem flatMap_escape_eq_word {word name : List Char} (h : word.all plain = true)
    (hname : ∀ c ∈ name, c.toNat < 256) : name.flatMap escape = word ↔ name = word := by
  constructor
  · intro heq
    refine flatMap_escape_inj hname (fun c hc => ?_) (heq.trans (flatMap_escape_of_plain h).symm)
    have hplain := List.all_eq_true.mp h c hc
    simp only [plain, Bool.and_eq_true, decide_eq_true_eq] at hplain
    omega
  · rintro rfl
    exact flatMap_escape_of_plain h

/-- And it begins a name exactly when it begins the text, with a quote behind it or not. -/
theorem prefix_flatMap_escape {word name tail : List Char} (h : word.all plain = true)
    (htail : tail = [] ∨ tail = ['"']) : word <+: name.flatMap escape ++ tail ↔ word <+: name := by
  induction word generalizing name with
  | nil => simp
  | cons c word ih =>
    rw [List.all_cons, Bool.and_eq_true] at h
    cases name with
    | nil =>
      have hc : c ≠ '"' := by
        rintro rfl
        exact absurd h.1 (by decide)
      rcases htail with rfl | rfl <;> simp [hc]
    | cons d name =>
      rw [List.flatMap_cons, List.append_assoc, List.cons_prefix_cons]
      rcases hd : escape d with _ | ⟨e, rest⟩
      · exact absurd hd (escape_ne_nil d)
      · by_cases hplain : plain d = true
        · rw [escape, if_pos hplain, List.cons.injEq] at hd
          obtain ⟨rfl, rfl⟩ := hd
          rw [List.cons_append, List.nil_append, List.cons_prefix_cons, ih h.2]
        · have he : e = '\\' := by
            rw [escape, if_neg hplain] at hd
            split at hd <;> exact (List.cons.inj hd).1.symm
          have hce : c ≠ e := by
            rintro rfl
            rw [he] at h
            exact absurd h.1 (by decide)
          have hcd : c ≠ d := by
            rintro rfl
            exact hplain h.1
          simp [hce, hcd]

theorem close_append (names : List (List Char)) (last : List Char) :
    close (names ++ [last]) = names ++ [last ++ ['"']] := by
  induction names with
  | nil => rfl
  | cons name names ih =>
    have hne : names ++ [last] ≠ [] := by simp
    obtain ⟨next, rest, hcons⟩ := List.exists_cons_of_ne_nil hne
    rw [List.cons_append, hcons, close, ← hcons, ih, List.cons_append]

end ProductPdfQr.Quoting
