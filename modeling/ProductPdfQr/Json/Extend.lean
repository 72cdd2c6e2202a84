/-
# Reading a longer text

What the reader makes of the front of a text does not change when more text follows, unless a
number ends there.  An object or an array ends with its bracket, so it is read the same whatever
follows it, and a text that is a whole one is never the beginning of another.  An object put
together from the texts of its values is read to those values.
-/
import Mathlib.Data.List.TakeWhile
import ProductPdfQr.Json.Codec

namespace ProductPdfQr.Json

/-! ## 1. Strings -/

theorem map_ok {ε α β : Type} {x : Except ε α} {f : α → β} {b : β} (h : x.map f = .ok b) :
    ∃ a, x = .ok a ∧ f a = b := by
  cases x with
  | error e => cases h
  | ok a => exact ⟨a, rfl, Except.ok.inj h⟩

/-- One more character in front of what was read. -/
theorem readStr_step {c : Char} {p cs rest s : List Char}
    (h : (readStr p).map (fun q => (c :: q.1, q.2)) = .ok (cs, rest))
    (ih : ∀ cs rest, readStr p = .ok (cs, rest) → readStr (p ++ s) = .ok (cs, rest ++ s)) :
    (readStr (p ++ s)).map (fun q => (c :: q.1, q.2)) = .ok (cs, rest ++ s) := by
  obtain ⟨⟨cs', rest'⟩, hread, heq⟩ := map_ok h
  obtain ⟨rfl, rfl⟩ := Prod.mk.inj heq
  rw [ih _ _ hread]
  rfl

theorem readStr_extend (s p : List Char) : ∀ cs rest, readStr p = .ok (cs, rest) →
    readStr (p ++ s) = .ok (cs, rest ++ s) := by
  induction p using readStr.induct with
  | case1 => simp [readStr]
  | case2 rest =>
    intro cs rest' h
    rw [readStr.eq_def] at h
    obtain ⟨rfl, rfl⟩ := Prod.mk.inj (Except.ok.inj h)
    rw [List.cons_append, readStr.eq_def]
    rfl
  | case6 h₁ h₂ h₃ h₄ rest m hm hsingle _ _ ih =>
    intro cs rest' h
    rw [readStr.eq_def] at h
    simp +decide only [if_true, if_false, hm, hsingle] at h
    rw [List.cons_append, readStr.eq_def]
    simp +decide only [if_true, if_false, List.cons_append, hm, hsingle]
    exact readStr_step h ih
  | case8 h₁ h₂ h₃ h₄ m hm hsingle l₁ l₂ l₃ l₄ rest m' hm' hpair _ _ ih =>
    intro cs rest' h
    rw [readStr.eq_def] at h
    simp +decide only [if_true, if_false, hm, hsingle, hm', hpair] at h
    rw [List.cons_append, readStr.eq_def]
    simp +decide only [if_true, if_false, List.cons_append, hm, hsingle, hm', hpair]
    exact readStr_step h ih
  | case13 c rest hu c' hc _ _ ih =>
    intro cs rest' h
    rw [readStr.eq_def] at h
    simp +decide only [if_true, if_false, hu, hc] at h
    rw [List.cons_append, readStr.eq_def]
    simp +decide only [if_true, if_false, List.cons_append, hu, hc]
    exact readStr_step h ih
  | case14 c rest hquote hlow hback ih =>
    intro cs rest' h
    rw [readStr.eq_def] at h
    simp only [if_false, hquote, hlow, hback] at h
    rw [List.cons_append, readStr.eq_def]
    simp only [if_false, hquote, hlow, hback]
    exact readStr_step h ih
  | case3 | case4 | case5 | case7 | case9 | case10 | case11 | case12 =>
    intro cs rest' h
    rw [readStr.eq_def] at h
    simp +decide [*] at h

/-! ## 2. Words and numbers -/

/-- Something stands here that no number goes on with. -/
def Delimited (rest : List Char) : Prop := rest ≠ [] ∧ EndsNumber rest

theorem delimited_cons {c : Char} {rest : List Char}
    (h : c.isDigit = false ∧ c ≠ '.' ∧ c ≠ 'e' ∧ c ≠ 'E') : Delimited (c :: rest) :=
  ⟨List.cons_ne_nil _ _, endsNumber_cons h⟩

theorem readWord_extend {word p rest s : List Char} {w j : Json}
    (h : readWord word w p = .ok (j, rest)) : readWord word w (p ++ s) = .ok (j, rest ++ s) := by
  unfold readWord at h ⊢
  split at h
  · next hword =>
    obtain ⟨rfl, rfl⟩ := Prod.mk.inj (Except.ok.inj h)
    have hstart := List.isPrefixOf_iff_prefix.mp hword
    rw [if_pos (List.isPrefixOf_iff_prefix.mpr (hstart.trans (List.prefix_append p s))),
      List.drop_append_of_le_length hstart.length_le]
  · cases h

theorem spanDigits_extend {p s : List Char} (h : (spanDigits p).2 ≠ []) :
    spanDigits (p ++ s) = ((spanDigits p).1, (spanDigits p).2 ++ s) := by
  induction p with
  | nil => exact absurd rfl h
  | cons c p ih =>
    unfold spanDigits at h
    rw [List.cons_append, spanDigits, spanDigits]
    split at h
    · next hc => rw [if_pos hc, if_pos hc, ih h]
    · next hc => rw [if_neg hc, if_neg hc, List.cons_append]

theorem delimited_spanDigits {p : List Char} (h : Delimited p) : spanDigits p = ([], p) := by
  obtain ⟨hne, hend⟩ := h
  cases p with
  | nil => exact absurd rfl hne
  | cons c p => rw [spanDigits, if_neg (by simp [(hend c p rfl).1])]

theorem readFraction_extend {p ds rest s : List Char} (h : readFraction p = some (ds, rest))
    (hrest : rest ≠ []) : readFraction (p ++ s) = some (ds, rest ++ s) := by
  cases p with
  | nil => cases h
  | cons c p =>
    rw [List.cons_append]
    simp only [readFraction] at h ⊢
    by_cases hc : c = '.'
    · rw [if_pos hc] at h ⊢
      rcases hspan : spanDigits p with ⟨ds', rest'⟩
      rw [hspan] at h
      cases ds' with
      | nil => cases h
      | cons d ds' =>
        obtain ⟨rfl, rfl⟩ := Prod.mk.inj (Option.some.inj h)
        rw [spanDigits_extend (by rw [hspan]; exact hrest), hspan]
    · rw [if_neg hc] at h
      cases h

theorem readFraction_none {p : List Char} (h : ∀ c rest, p = c :: rest → c ≠ '.') :
    readFraction p = none := by
  cases p with
  | nil => rfl
  | cons c p => rw [readFraction, if_neg (h c p rfl)]

/-- An exponent without a sign. -/
theorem readExponent_unsigned {c d : Char} {p : List Char} (hc : c = 'e' ∨ c = 'E')
    (hminus : d ≠ '-') (hplus : d ≠ '+') :
    readExponent (c :: d :: p) = match spanDigits (d :: p) with
      | ([], _) => none
      | (ds, rest) => some (if false then -(ofDigits ds : Int) else ofDigits ds, rest) := by
  rw [readExponent, if_pos hc] <;> first
    | rfl
    | exact fun _ heq => hminus (List.cons.inj heq).1
    | exact fun _ heq => hplus (List.cons.inj heq).1

theorem readExponent_extend {p rest s : List Char} {e : Int}
    (h : readExponent p = some (e, rest)) (hrest : rest ≠ []) :
    readExponent (p ++ s) = some (e, rest ++ s) := by
  have hdigits : ∀ (negative : Bool) (q : List Char), (match spanDigits q with
      | ([], _) => none
      | (ds, rest) => some (if negative then -(ofDigits ds : Int) else ofDigits ds, rest)) =
        some (e, rest) → (match spanDigits (q ++ s) with
      | ([], _) => none
      | (ds, rest) => some (if negative then -(ofDigits ds : Int) else ofDigits ds, rest)) =
        some (e, rest ++ s) := by
    intro negative q hq
    rcases hspan : spanDigits q with ⟨ds, rest'⟩
    rw [hspan] at hq
    cases ds with
    | nil => cases hq
    | cons d ds =>
      obtain ⟨rfl, rfl⟩ := Prod.mk.inj (Option.some.inj hq)
      rw [spanDigits_extend (by rw [hspan]; exact hrest), hspan]
  cases p with
  | nil => cases h
  | cons c p =>
    by_cases hc : c = 'e' ∨ c = 'E'
    · cases p with
      | nil =>
        simp [readExponent, spanDigits] at h
      | cons c' p =>
        by_cases hminus : c' = '-'
        · subst hminus
          simp only [List.cons_append, readExponent, if_pos hc] at h ⊢
          exact hdigits true p h
        · by_cases hplus : c' = '+'
          · subst hplus
            simp only [List.cons_append, readExponent, if_pos hc] at h ⊢
            exact hdigits false p h
          · rw [readExponent_unsigned hc hminus hplus] at h
            rw [List.cons_append, List.cons_append, readExponent_unsigned hc hminus hplus]
            exact hdigits false (c' :: p) h
    · simp only [readExponent, if_neg hc] at h
      cases h

theorem readExponent_none {p : List Char} (h : ∀ c rest, p = c :: rest → c ≠ 'e' ∧ c ≠ 'E') :
    readExponent p = none := by
  cases p with
  | nil => rfl
  | cons c p => rw [readExponent.eq_def]; exact if_neg (by simp [h c p rfl])

theorem readExponent_head {p : List Char} {x : Int × List Char} (h : readExponent p = some x) :
    ∃ c rest, p = c :: rest ∧ c ≠ '.' := by
  cases p with
  | nil => cases h
  | cons c p =>
    refine ⟨c, p, rfl, ?_⟩
    rintro rfl
    rw [readExponent_none (by rintro c rest ⟨⟩; decide)] at h
    cases h

theorem readFraction_isEmpty {p ds rest : List Char} (h : readFraction p = some (ds, rest)) :
    ds.isEmpty = false := by
  cases p with
  | nil => cases h
  | cons c p =>
    simp only [readFraction] at h
    split at h
    · rcases hspan : spanDigits p with ⟨ds', rest'⟩
      rw [hspan] at h
      cases ds' with
      | nil => cases h
      | cons d ds' =>
        obtain ⟨rfl, -⟩ := Prod.mk.inj (Option.some.inj h)
        rfl
    · cases h

/-- The end of a number, after its first digits. -/
def numberEnd (negative : Bool) (ds rest : List Char) : Except LoadError (Json × List Char) :=
  let (fraction, rest') := (readFraction rest).getD ([], rest)
  match readExponent rest' with
  | some (e, rest'') =>
    .ok (.float (.finite negative (ofDigits (ds ++ fraction)) (e - fraction.length)), rest'')
  | none =>
    if fraction.isEmpty then
      .ok (.int (if negative then -(ofDigits ds : Int) else ofDigits ds), rest)
    else .ok (.float (.finite negative (ofDigits (ds ++ fraction)) (-fraction.length)), rest')

theorem numberEnd_extend {negative : Bool} {ds p rest s : List Char} {j : Json}
    (h : numberEnd negative ds p = .ok (j, rest)) (hrest : Delimited rest) :
    p ≠ [] ∧ numberEnd negative ds (p ++ s) = .ok (j, rest ++ s) := by
  have hhead : ∀ {q : List Char}, Delimited q → ∀ c rest, q ++ s = c :: rest →
      c ≠ '.' ∧ c ≠ 'e' ∧ c ≠ 'E' := by
    intro q hq c rest heq
    cases q with
    | nil => exact absurd rfl hq.1
    | cons d q =>
      obtain ⟨rfl, -⟩ := List.cons.inj heq
      exact (hq.2 d q rfl).2
  unfold numberEnd at h ⊢
  cases hfraction : readFraction p with
  | none =>
    cases hexponent : readExponent p with
    | none =>
      simp only [hfraction, Option.getD_none, hexponent] at h
      obtain ⟨rfl, rfl⟩ := Prod.mk.inj (Except.ok.inj h)
      refine ⟨hrest.1, ?_⟩
      simp only [readFraction_none fun c r heq => (hhead hrest c r heq).1, Option.getD_none,
        readExponent_none fun c r heq => (hhead hrest c r heq).2]
      rfl
    | some x =>
      obtain ⟨e, rest'⟩ := x
      simp only [hfraction, Option.getD_none, hexponent] at h
      obtain ⟨rfl, rfl⟩ := Prod.mk.inj (Except.ok.inj h)
      obtain ⟨c, q, rfl, hc⟩ := readExponent_head hexponent
      refine ⟨List.cons_ne_nil _ _, ?_⟩
      have hnone : readFraction (c :: q ++ s) = none :=
        readFraction_none fun c' r heq => (List.cons.inj heq).1 ▸ hc
      simp only [hnone, Option.getD_none, readExponent_extend hexponent hrest.1]
  | some x =>
    obtain ⟨fraction, rest'⟩ := x
    have hne : p ≠ [] := by
      rintro rfl
      cases hfraction
    have hempty := readFraction_isEmpty hfraction
    refine ⟨hne, ?_⟩
    cases hexponent : readExponent rest' with
    | none =>
      simp only [hfraction, Option.getD_some, hexponent, hempty, Bool.false_eq_true, if_false] at h
      obtain ⟨rfl, rfl⟩ := Prod.mk.inj (Except.ok.inj h)
      simp only [readFraction_extend hfraction hrest.1, Option.getD_some,
        readExponent_none fun c r heq => (hhead hrest c r heq).2, hempty, Bool.false_eq_true, if_false]
    | some x =>
      obtain ⟨e, rest''⟩ := x
      simp only [hfraction, Option.getD_some, hexponent] at h
      obtain ⟨rfl, rfl⟩ := Prod.mk.inj (Except.ok.inj h)
      have hrest' : rest' ≠ [] := by
        rintro rfl
        cases hexponent
      simp only [readFraction_extend hfraction hrest', Option.getD_some,
        readExponent_extend hexponent hrest.1]

/-- A number, its first digits read. -/
def numberOf (negative : Bool) (ds rest : List Char) : Except LoadError (Json × List Char) :=
  match ds with
  | [] => .error .decode
  | '0' :: _ :: _ => .error .decode
  | ds => numberEnd negative ds rest

theorem numberOf_eq {negative : Bool} {ds rest : List Char} (hnil : ds ≠ [])
    (hzero : ∀ c cs, ds ≠ '0' :: c :: cs) :
    numberOf negative ds rest = numberEnd negative ds rest := by
  unfold numberOf
  split
  · exact absurd rfl hnil
  · exact absurd rfl (hzero _ _)
  · rfl

theorem readNumber_eq (negative : Bool) (p : List Char) :
    readNumber negative p = numberOf negative (spanDigits p).1 (spanDigits p).2 := by
  unfold readNumber
  rcases spanDigits p with ⟨ds, rest⟩
  dsimp only
  split
  · next heq =>
    obtain ⟨rfl, rfl⟩ := Prod.mk.inj heq
    rfl
  · next heq =>
    obtain ⟨rfl, rfl⟩ := Prod.mk.inj heq
    rfl
  · next hnil hzero heq =>
    obtain ⟨rfl, rfl⟩ := Prod.mk.inj heq
    exact (numberOf_eq (fun h => hnil h) fun c cs h => hzero c cs h).symm

theorem numberOf_ok {negative : Bool} {ds rest : List Char} {x : Json × List Char}
    (h : numberOf negative ds rest = .ok x) (rest' : List Char) :
    numberOf negative ds rest' = numberEnd negative ds rest' := by
  unfold numberOf at h ⊢
  split at h
  · cases h
  · cases h
  · rfl

/-- A number that something follows. -/
theorem readNumber_extend {negative : Bool} {p rest s : List Char} {j : Json}
    (h : readNumber negative p = .ok (j, rest)) (hrest : Delimited rest) :
    readNumber negative (p ++ s) = .ok (j, rest ++ s) := by
  rw [readNumber_eq] at h ⊢
  have hend := (numberOf_ok h _).symm.trans h
  obtain ⟨hne, hextend⟩ := numberEnd_extend (s := s) hend hrest
  rw [spanDigits_extend hne, numberOf_ok h, hextend]

theorem readNegative_extend {p rest s : List Char} {j : Json}
    (h : readNegative p = .ok (j, rest)) (hrest : Delimited rest) :
    readNegative (p ++ s) = .ok (j, rest ++ s) := by
  cases p with
  | nil => cases h
  | cons c p =>
    by_cases hc : c = 'I'
    · subst hc
      exact readWord_extend (p := 'I' :: p) h
    · have heq : ∀ q, readNegative (c :: q) = readNumber true (c :: q) := by
        intro q
        unfold readNegative
        split
        · next heq => exact absurd (List.cons.inj heq).1 hc
        · rfl
      rw [List.cons_append, heq]
      rw [heq] at h
      exact readNumber_extend (p := c :: p) h hrest

/-! ## 3. Values -/

theorem skipBlanks_append {p s : List Char} (h : skipBlanks p ≠ []) :
    skipBlanks (p ++ s) = skipBlanks p ++ s := by
  induction p with
  | nil => exact absurd rfl h
  | cons c p ih =>
    unfold skipBlanks at h ih ⊢
    rw [List.cons_append]
    by_cases hc : isBlank c = true
    · rw [List.dropWhile_cons_of_pos hc] at h ⊢
      rw [List.dropWhile_cons_of_pos hc]
      exact ih h
    · rw [List.dropWhile_cons_of_neg hc, List.dropWhile_cons_of_neg hc, List.cons_append]

/-- After blanks something delimits a number, when it is no part of one. -/
theorem delimited_of_skipBlanks {p q : List Char} {c : Char} (h : skipBlanks p = c :: q)
    (hc : c.isDigit = false ∧ c ≠ '.' ∧ c ≠ 'e' ∧ c ≠ 'E') : Delimited p := by
  cases p with
  | nil => cases h
  | cons d p =>
    by_cases hd : isBlank d = true
    · refine delimited_cons ?_
      simp only [isBlank, Bool.or_eq_true, decide_eq_true_eq] at hd
      rcases hd with ((rfl | rfl) | rfl) | rfl <;> decide
    · unfold skipBlanks at h
      rw [List.dropWhile_cons_of_neg hd] at h
      obtain ⟨rfl, rfl⟩ := List.cons.inj h
      exact delimited_cons hc

theorem readValue_ne_nil {fuel : Nat} {p : List Char} {x : Json × List Char}
    (h : readValue fuel p = .ok x) : p ≠ [] := by
  rintro rfl
  cases fuel <;> simp [readValue] at h

theorem readField_ne_nil {fuel : Nat} {p : List Char} {x : Fields × List Char}
    (h : readField fuel p = .ok x) : p ≠ [] := by
  rintro rfl
  cases fuel <;> simp [readField] at h

/-- The rest of an array begins with a comma or a bracket. -/
theorem readItems_head {fuel : Nat} {p : List Char} {x : List Json × List Char}
    (h : readItems fuel p = .ok x) : ∃ c q, p = c :: q ∧ (c = ']' ∨ c = ',') := by
  cases fuel with
  | zero => simp [readItems] at h
  | succ fuel =>
    cases p with
    | nil => simp [readItems] at h
    | cons c q =>
      refine ⟨c, q, rfl, ?_⟩
      simp only [readItems] at h
      by_contra hc
      rw [if_neg fun h => hc (Or.inl h), if_neg fun h => hc (Or.inr h)] at h
      cases h

/-- And so does the rest of an object. -/
theorem readFields_head {fuel : Nat} {p : List Char} {x : Fields × List Char}
    (h : readFields fuel p = .ok x) : ∃ c q, p = c :: q ∧ (c = '}' ∨ c = ',') := by
  cases fuel with
  | zero => simp [readFields] at h
  | succ fuel =>
    cases p with
    | nil => simp [readFields] at h
    | cons c q =>
      refine ⟨c, q, rfl, ?_⟩
      simp only [readFields] at h
      by_contra hc
      rw [if_neg fun h => hc (Or.inl h), if_neg fun h => hc (Or.inr h)] at h
      cases h

theorem readItems_delimited {fuel : Nat} {p : List Char} {x : List Json × List Char}
    (h : readItems fuel (skipBlanks p) = .ok x) : Delimited p ∧ skipBlanks p ≠ [] := by
  obtain ⟨c, q, hp, hc⟩ := readItems_head h
  refine ⟨delimited_of_skipBlanks hp ?_, by rw [hp]; exact List.cons_ne_nil _ _⟩
  rcases hc with rfl | rfl <;> decide

theorem readFields_delimited {fuel : Nat} {p : List Char} {x : Fields × List Char}
    (h : readFields fuel (skipBlanks p) = .ok x) : Delimited p ∧ skipBlanks p ≠ [] := by
  obtain ⟨c, q, hp, hc⟩ := readFields_head h
  refine ⟨delimited_of_skipBlanks hp ?_, by rw [hp]; exact List.cons_ne_nil _ _⟩
  rcases hc with rfl | rfl <;> decide

/-- What this much fuel reads at the front of a text, any more fuel reads at the front of a
longer one. -/
structure Extends (fuel : Nat) : Prop where
  value : ∀ {fuel' : Nat} {p rest s : List Char} {j : Json}, fuel ≤ fuel' →
    readValue fuel p = .ok (j, rest) → Delimited rest → readValue fuel' (p ++ s) = .ok (j, rest ++ s)
  items : ∀ {fuel' : Nat} {p rest s : List Char} {xs : List Json}, fuel ≤ fuel' →
    readItems fuel p = .ok (xs, rest) → readItems fuel' (p ++ s) = .ok (xs, rest ++ s)
  field : ∀ {fuel' : Nat} {p rest s : List Char} {fs : Fields}, fuel ≤ fuel' →
    readField fuel p = .ok (fs, rest) → readField fuel' (p ++ s) = .ok (fs, rest ++ s)
  fields : ∀ {fuel' : Nat} {p rest s : List Char} {fs : Fields}, fuel ≤ fuel' →
    readFields fuel p = .ok (fs, rest) → readFields fuel' (p ++ s) = .ok (fs, rest ++ s)

section Step

variable {fuel fuel' : Nat} {p rest s : List Char} {j : Json}

/-- An item and the rest of its array. -/
theorem Extends.item (ih : Extends fuel) (hle : fuel ≤ fuel') {xs : List Json}
    (h : (do
      let (x, rest) ← readValue fuel p
      let (xs, rest) ← readItems fuel (skipBlanks rest)
      return (x :: xs, rest) : Except LoadError (List Json × List Char)) = .ok (xs, rest)) :
    (do
      let (x, rest) ← readValue fuel' (p ++ s)
      let (xs, rest) ← readItems fuel' (skipBlanks rest)
      return (x :: xs, rest) : Except LoadError (List Json × List Char)) = .ok (xs, rest ++ s) := by
  obtain ⟨⟨x, q⟩, hx, h⟩ := bind_ok h
  obtain ⟨⟨xs', rest'⟩, hxs, h⟩ := bind_ok h
  obtain ⟨rfl, rfl⟩ := Prod.mk.inj (Except.ok.inj h)
  obtain ⟨hdelimited, hne⟩ := readItems_delimited hxs
  rw [ih.value hle hx hdelimited]
  change (readItems fuel' (skipBlanks (q ++ s)) >>= _) = _
  rw [skipBlanks_append hne, ih.items hle hxs]
  rfl

/-- A value, and the rest of its object. -/
theorem Extends.entry (ih : Extends fuel) (hle : fuel ≤ fuel') {k : String} {fs : Fields}
    (h : (do
      let (v, rest) ← readValue fuel (skipBlanks p)
      let (fs, rest) ← readFields fuel (skipBlanks rest)
      return ((k, v) :: fs, rest) : Except LoadError (Fields × List Char)) = .ok (fs, rest)) :
    (do
      let (v, rest) ← readValue fuel' (skipBlanks (p ++ s))
      let (fs, rest) ← readFields fuel' (skipBlanks rest)
      return ((k, v) :: fs, rest) : Except LoadError (Fields × List Char)) =
        .ok (fs, rest ++ s) := by
  obtain ⟨⟨v, q⟩, hv, h⟩ := bind_ok h
  obtain ⟨⟨fs', rest'⟩, hfs, h⟩ := bind_ok h
  obtain ⟨rfl, rfl⟩ := Prod.mk.inj (Except.ok.inj h)
  obtain ⟨hdelimited, hne⟩ := readFields_delimited hfs
  rw [skipBlanks_append (readValue_ne_nil hv), ih.value hle hv hdelimited]
  change (readFields fuel' (skipBlanks (q ++ s)) >>= _) = _
  rw [skipBlanks_append hne, ih.fields hle hfs]
  rfl

theorem Extends.field_succ (ih : Extends fuel) (hle : fuel ≤ fuel') {fs : Fields}
    (h : readField (fuel + 1) p = .ok (fs, rest)) :
    readField (fuel' + 1) (p ++ s) = .ok (fs, rest ++ s) := by
  unfold readField at h
  split at h
  · next n p hn =>
    obtain rfl := Nat.succ.inj hn
    obtain ⟨⟨k, q⟩, hk, h⟩ := bind_ok h
    dsimp only at h
    split at h
    · next q' hq =>
      rw [List.cons_append]
      simp only [readField]
      rw [readStr_extend s _ _ _ hk]
      dsimp only [bind, Except.bind]
      rw [skipBlanks_append (by rw [hq]; exact List.cons_ne_nil _ _), hq]
      exact ih.entry hle h
    · cases h
  · cases h

theorem Extends.fields_succ (ih : Extends fuel) (hle : fuel ≤ fuel') {fs : Fields}
    (h : readFields (fuel + 1) p = .ok (fs, rest)) :
    readFields (fuel' + 1) (p ++ s) = .ok (fs, rest ++ s) := by
  obtain ⟨c, q, rfl, -⟩ := readFields_head h
  simp only [List.cons_append, readFields] at h ⊢
  split at h
  · next hc =>
    obtain ⟨rfl, rfl⟩ := Prod.mk.inj (Except.ok.inj h)
    rw [if_pos hc]
  · next hc =>
    rw [if_neg hc]
    split at h
    · next hcomma =>
      rw [if_pos hcomma, skipBlanks_append (readField_ne_nil h)]
      exact ih.field hle h
    · cases h

theorem Extends.items_succ (ih : Extends fuel) (hle : fuel ≤ fuel') {xs : List Json}
    (h : readItems (fuel + 1) p = .ok (xs, rest)) :
    readItems (fuel' + 1) (p ++ s) = .ok (xs, rest ++ s) := by
  obtain ⟨c, q, rfl, -⟩ := readItems_head h
  simp only [List.cons_append, readItems] at h ⊢
  split at h
  · next hc =>
    obtain ⟨rfl, rfl⟩ := Prod.mk.inj (Except.ok.inj h)
    rw [if_pos hc]
  · next hc =>
    rw [if_neg hc]
    split at h
    · next hcomma =>
      rw [if_pos hcomma]
      obtain ⟨x, hx, -⟩ := bind_ok h
      rw [skipBlanks_append (readValue_ne_nil hx)]
      exact ih.item hle h
    · cases h

/-- An array, once it is open. -/
theorem Extends.array (ih : Extends fuel) (hle : fuel ≤ fuel')
    (h : readValue (fuel + 1) ('[' :: p) = .ok (j, rest)) :
    readValue (fuel' + 1) ('[' :: (p ++ s)) = .ok (j, rest ++ s) := by
  simp +decide only [readValue, if_true, if_false] at h ⊢
  split at h
  · next q hq =>
    obtain ⟨rfl, rfl⟩ := Prod.mk.inj (Except.ok.inj h)
    rw [skipBlanks_append (by rw [hq]; exact List.cons_ne_nil _ _), hq]
    rfl
  · next q hclose =>
    obtain ⟨x, hx, h'⟩ := bind_ok h
    have hne := readValue_ne_nil hx
    rw [skipBlanks_append hne]
    split
    · next q' hq' =>
      cases hq : skipBlanks p with
      | nil => exact absurd hq hne
      | cons c r =>
        rw [hq] at hq'
        obtain ⟨rfl, -⟩ := List.cons.inj hq'
        exact absurd hq (hclose _)
    · obtain ⟨⟨xs, rest'⟩, hxs, h''⟩ := bind_ok h'
      obtain ⟨rfl, rfl⟩ := Prod.mk.inj (Except.ok.inj h'')
      obtain ⟨hdelimited, hne'⟩ := readItems_delimited hxs
      rw [ih.value hle hx hdelimited]
      change (readItems fuel' (skipBlanks (x.2 ++ s)) >>= _) = _
      rw [skipBlanks_append hne', ih.items hle hxs]
      rfl

/-- An object, once it is open. -/
theorem Extends.object (ih : Extends fuel) (hle : fuel ≤ fuel')
    (h : readValue (fuel + 1) ('{' :: p) = .ok (j, rest)) :
    readValue (fuel' + 1) ('{' :: (p ++ s)) = .ok (j, rest ++ s) := by
  simp +decide only [readValue, if_true, if_false] at h ⊢
  split at h
  · next q hq =>
    obtain ⟨rfl, rfl⟩ := Prod.mk.inj (Except.ok.inj h)
    rw [skipBlanks_append (by rw [hq]; exact List.cons_ne_nil _ _), hq]
    rfl
  · next q hclose =>
    obtain ⟨x, hx, h'⟩ := bind_ok h
    have hne := readField_ne_nil hx
    rw [skipBlanks_append hne]
    split
    · next q' hq' =>
      cases hq : skipBlanks p with
      | nil => exact absurd hq hne
      | cons c r =>
        rw [hq] at hq'
        obtain ⟨rfl, -⟩ := List.cons.inj hq'
        exact absurd hq (hclose _)
    · obtain ⟨rfl, rfl⟩ := Prod.mk.inj (Except.ok.inj h')
      rw [ih.field hle hx]
      rfl

theorem Extends.value_succ (ih : Extends fuel) (hle : fuel ≤ fuel')
    (h : readValue (fuel + 1) p = .ok (j, rest)) (hrest : Delimited rest) :
    readValue (fuel' + 1) (p ++ s) = .ok (j, rest ++ s) := by
  cases p with
  | nil => exact absurd rfl (readValue_ne_nil h)
  | cons c p =>
    rw [List.cons_append]
    by_cases hopen : c = '['
    · subst hopen
      exact ih.array hle h
    by_cases hbrace : c = '{'
    · subst hbrace
      exact ih.object hle h
    simp only [readValue, if_neg hopen, if_neg hbrace] at h ⊢
    split_ifs at h ⊢
    · obtain ⟨x, hx, heq⟩ := map_ok h
      obtain ⟨rfl, rfl⟩ := Prod.mk.inj heq
      rw [readStr_extend s p _ _ hx]
      rfl
    · exact readWord_extend h
    · exact readWord_extend h
    · exact readWord_extend h
    · exact readWord_extend h
    · exact readWord_extend h
    · exact readNegative_extend h hrest
    · exact readNumber_extend (p := c :: p) h hrest

end Step

theorem extends_all : ∀ fuel, Extends fuel
  | 0 => by
    refine ⟨fun _ h _ => ?_, fun _ h => ?_, fun _ h => ?_, fun _ h => ?_⟩
    · simp [readValue] at h
    · simp [readItems] at h
    · simp [readField] at h
    · simp [readFields] at h
  | fuel + 1 => by
    have ih := extends_all fuel
    have hpred : ∀ {fuel' : Nat}, fuel + 1 ≤ fuel' → ∃ n, fuel' = n + 1 ∧ fuel ≤ n := by
      intro fuel' hle
      exact ⟨fuel' - 1, by omega, by omega⟩
    refine ⟨fun hle h hrest => ?_, fun hle h => ?_, fun hle h => ?_, fun hle h => ?_⟩
    · obtain ⟨n, rfl, hn⟩ := hpred hle
      exact ih.value_succ hn h hrest
    · obtain ⟨n, rfl, hn⟩ := hpred hle
      exact ih.items_succ hn h
    · obtain ⟨n, rfl, hn⟩ := hpred hle
      exact ih.field_succ hn h
    · obtain ⟨n, rfl, hn⟩ := hpred hle
      exact ih.fields_succ hn h

/-- What opens with a bracket is read the same whatever follows it. -/
theorem readValue_extend {fuel fuel' : Nat} {c : Char} {p rest s : List Char} {j : Json}
    (hc : c = '[' ∨ c = '{') (hle : fuel ≤ fuel') (h : readValue fuel (c :: p) = .ok (j, rest)) :
    readValue fuel' (c :: (p ++ s)) = .ok (j, rest ++ s) := by
  cases fuel with
  | zero => simp [readValue] at h
  | succ fuel =>
    obtain ⟨n, rfl⟩ : ∃ n, fuel' = n + 1 := ⟨fuel' - 1, by omega⟩
    rcases hc with rfl | rfl
    · exact (extends_all fuel).array (by omega) h
    · exact (extends_all fuel).object (by omega) h

/-- A text that opens with a bracket. -/
def Bracketed (p : List Char) : Prop := ∃ c q, p = c :: q ∧ (c = '[' ∨ c = '{')

theorem Bracketed.skipBlanks {p : List Char} (h : Bracketed p) : Json.skipBlanks p = p := by
  obtain ⟨c, q, rfl, hc⟩ := h
  exact List.dropWhile_cons_of_neg (by rcases hc with rfl | rfl <;> decide)

theorem loadsText_ok {p : List Char} {j : Json} (h : loadsText p = .ok j) :
    ∃ rest, readValue (2 * p.length + 1) (skipBlanks p) = .ok (j, rest) ∧ skipBlanks rest = [] := by
  obtain ⟨⟨j', rest⟩, hread, h⟩ := bind_ok h
  dsimp only at h
  split at h
  · next hrest => exact ⟨rest, Except.ok.inj h ▸ hread, hrest⟩
  · cases h

theorem skipBlanks_blank {p s : List Char} (h : skipBlanks p = []) :
    skipBlanks (p ++ s) = skipBlanks s := by
  have hall : ∀ c ∈ p, isBlank c = true := List.dropWhile_eq_nil_iff.mp h
  exact List.dropWhile_append_of_pos hall

/-- A whole value, with more after it. -/
theorem loadsText_append {p s : List Char} {j : Json} (hp : Bracketed (skipBlanks p))
    (h : loadsText p = .ok j) :
    loadsText (p ++ s) = if skipBlanks s = [] then .ok j else .error .decode := by
  obtain ⟨rest, hread, hrest⟩ := loadsText_ok h
  obtain ⟨c, q, hq, hc⟩ := hp
  have hfuel : 2 * p.length + 1 ≤ 2 * (p ++ s).length + 1 := by
    simp only [List.length_append]
    omega
  rw [hq] at hread
  have hextend := readValue_extend (s := s) hc hfuel hread
  have hskip : skipBlanks (p ++ s) = c :: (q ++ s) := by
    rw [skipBlanks_append (by rw [hq]; exact List.cons_ne_nil _ _), hq, List.cons_append]
  rw [loadsText, hskip, hextend]
  change (if skipBlanks (rest ++ s) = [] then _ else _) = _
  rw [skipBlanks_blank hrest]
  rfl

/-- Only what opens with a brace is an object. -/
theorem readValue_obj {fuel : Nat} {p rest : List Char} {fs : Fields}
    (h : readValue fuel p = .ok (.obj fs, rest)) : ∃ q, p = '{' :: q := by
  have hword : ∀ {word cs : List Char} {j : Json}, (∀ fs, j ≠ .obj fs) →
      readWord word j cs ≠ .ok (.obj fs, rest) := by
    intro word cs j hj hread
    unfold readWord at hread
    split at hread
    · exact hj fs (Prod.mk.inj (Except.ok.inj hread)).1
    · cases hread
  have hnumber : ∀ {negative : Bool} {cs : List Char},
      readNumber negative cs ≠ .ok (.obj fs, rest) := by
    intro negative cs hread
    unfold readNumber at hread
    split at hread
    · cases hread
    · cases hread
    · dsimp only at hread
      split at hread
      · cases hread
      · split at hread <;> cases hread
  cases fuel with
  | zero => simp [readValue] at h
  | succ fuel =>
    cases p with
    | nil => simp [readValue] at h
    | cons c q =>
      by_cases hbrace : c = '{'
      · exact ⟨q, by rw [hbrace]⟩
      · simp only [readValue, if_neg hbrace] at h
        split_ifs at h
        · obtain ⟨x, -, heq⟩ := map_ok h
          cases heq
        · split at h
          · cases h
          · obtain ⟨x, -, h⟩ := bind_ok h
            obtain ⟨xs, -, h⟩ := bind_ok h
            cases h
        · exact absurd h (hword fun _ => by simp)
        · exact absurd h (hword fun _ => by simp)
        · exact absurd h (hword fun _ => by simp)
        · exact absurd h (hword fun _ => by simp)
        · exact absurd h (hword fun _ => by simp)
        · unfold readNegative at h
          split at h
          · exact absurd h (hword fun _ => by simp)
          · exact absurd h hnumber
        · exact absurd h hnumber

theorem bracketed_of_obj {p : List Char} {fs : Fields} (h : loadsText p = .ok (.obj fs)) :
    Bracketed (skipBlanks p) := by
  obtain ⟨rest, hread, -⟩ := loadsText_ok h
  obtain ⟨q, hq⟩ := readValue_obj hread
  exact ⟨'{', q, hq, .inr rfl⟩

/-- The front of a value is no value. -/
theorem loadsText_front {p s : List Char} {j : Json} (hp : Bracketed p)
    (h : loadsText (p ++ s) = .ok j) (hs : skipBlanks s ≠ []) : ∀ j', loadsText p ≠ .ok j' := by
  intro j' hj'
  rw [loadsText_append (hp.skipBlanks.symm ▸ hp) hj', if_neg hs] at h
  cases h

/-! ## 4. Objects put together from the texts of their values -/

/-- The rest of an object, each field with the text of its value. -/
def composedFields : List (String × List Char) → List Char
  | [] => ['}']
  | (k, text) :: rest => ',' :: ' ' :: (printStr k ++ ':' :: ' ' :: (text ++ composedFields rest))

/-- An object, each field with the text of its value. -/
def composed : List (String × List Char) → List Char
  | [] => ['{', '}']
  | (k, text) :: rest => '{' :: (printStr k ++ ':' :: ' ' :: (text ++ composedFields rest))

/-- The texts of the fields, read. -/
def Reads (parts : List (String × List Char)) (fs : Fields) : Prop :=
  List.Forall₂ (fun part f => part.1 = f.1 ∧ Bracketed part.2 ∧ loadsText part.2 = .ok f.2) parts fs

/-- A value that ends with its bracket, and what follows it. -/
theorem readValue_bracketed {text s : List Char} {j : Json} {fuel : Nat} (h : Bracketed text)
    (hload : loadsText text = .ok j) (hfuel : 2 * text.length + 1 ≤ fuel) :
    ∃ rest, skipBlanks rest = [] ∧ readValue fuel (text ++ s) = .ok (j, rest ++ s) := by
  obtain ⟨rest, hread, hrest⟩ := loadsText_ok hload
  rw [h.skipBlanks] at hread
  obtain ⟨c, q, rfl, hc⟩ := h
  exact ⟨rest, hrest, readValue_extend hc hfuel hread⟩

theorem readField_composed {k : String} {text : List Char} {j : Json}
    {parts : List (String × List Char)} {fs : Fields} {fuel : Nat} (hb : Bracketed text)
    (hload : loadsText text = .ok j) (hfuel : 2 * text.length + 1 ≤ fuel)
    (hrest : readFields fuel (composedFields parts) = .ok (fs, [])) :
    readField (fuel + 1) (printStr k ++ ':' :: ' ' :: (text ++ composedFields parts)) =
      .ok ((k, j) :: fs, []) := by
  obtain ⟨rest, hblank, hvalue⟩ := readValue_bracketed (s := composedFields parts) hb hload hfuel
  have hcolon : ∀ q, skipBlanks (':' :: q) = ':' :: q := fun q => skipBlanks_cons (by decide) q
  have hspace : skipBlanks (' ' :: (text ++ composedFields parts)) =
      text ++ composedFields parts := by
    obtain ⟨c, q, rfl, hc⟩ := hb
    have hskip := skipBlanks_cons (show isBlank c = false by rcases hc with rfl | rfl <;> decide)
      (q ++ composedFields parts)
    rw [skipBlanks, List.dropWhile_cons_of_pos (by decide)]
    exact hskip
  have hend : skipBlanks (rest ++ composedFields parts) = composedFields parts := by
    rw [skipBlanks_blank hblank]
    cases parts with
    | nil => exact skipBlanks_cons (by decide) _
    | cons part parts => exact skipBlanks_cons (by decide) _
  rw [printStr, List.cons_append, readField, List.append_assoc, List.singleton_append,
    readStr_escaped]
  simp only [bind, Except.bind, hcolon, hspace, hvalue, hend, hrest, pure, Except.pure,
    String.ofList_toList]

theorem readFields_composed {parts : List (String × List Char)} {fs : Fields}
    (h : Reads parts fs) : ∀ fuel, 2 * (composedFields parts).length + 1 ≤ fuel →
      readFields fuel (composedFields parts) = .ok (fs, []) := by
  induction h with
  | nil =>
    intro fuel hfuel
    obtain ⟨n, rfl⟩ : ∃ n, fuel = n + 1 := ⟨fuel - 1, by omega⟩
    simp [composedFields, readFields]
  | @cons part f parts fs hpart hrest ih =>
    intro fuel hfuel
    obtain ⟨k, text⟩ := part
    obtain ⟨k', j⟩ := f
    obtain ⟨hk, hb, hload⟩ := hpart
    obtain rfl : k = k' := hk
    simp only [composedFields, List.length_cons, List.length_append] at hfuel
    obtain ⟨n, rfl⟩ : ∃ n, fuel = n + 2 := ⟨fuel - 2, by omega⟩
    have hquote : ∀ q, skipBlanks (' ' :: (printStr k ++ q)) = printStr k ++ q := by
      intro q
      rw [skipBlanks, List.dropWhile_cons_of_pos (by decide)]
      exact skipBlanks_cons (by decide) _
    simp +decide only [composedFields, readFields, if_true, if_false]
    rw [hquote]
    exact readField_composed hb hload (by omega) (ih n (by omega))

theorem readValue_object {fuel : Nat} {p q : List Char} (h : skipBlanks p = '"' :: q) :
    readValue (fuel + 1) ('{' :: p) =
      (readField fuel ('"' :: q)).bind fun x => .ok (dict x.1, x.2) := by
  simp +decide only [readValue, if_true, if_false]
  rw [h]
  rfl

/-- An object whose values are read is read. -/
theorem loadsText_composed {parts : List (String × List Char)} {fs : Fields} (h : Reads parts fs) :
    loadsText (composed parts) = .ok (dict fs) := by
  cases h with
  | nil => rfl
  | @cons part f parts fs hpart hrest =>
    obtain ⟨k, text⟩ := part
    obtain ⟨k', j⟩ := f
    obtain ⟨hk, hb, hload⟩ := hpart
    obtain rfl : k = k' := hk
    have hlength : (composed ((k, text) :: parts)).length =
        (printStr k).length + text.length + (composedFields parts).length + 3 := by
      simp only [composed, List.length_cons, List.length_append]
      omega
    obtain ⟨n, hn⟩ : ∃ n, 2 * (composed ((k, text) :: parts)).length + 1 = n + 2 :=
      ⟨2 * (composed ((k, text) :: parts)).length - 1, by omega⟩
    have hfuel : 2 * text.length + 1 ≤ n := by omega
    have hfield := readField_composed (k := k) hb hload hfuel
      (readFields_composed hrest n (by omega))
    rw [loadsText, hn, composed, skipBlanks_cons (by decide)]
    dsimp only at hfield
    rw [printStr, List.cons_append] at hfield ⊢
    rw [readValue_object (skipBlanks_cons (by decide) _), hfield]
    rfl

end ProductPdfQr.Json
