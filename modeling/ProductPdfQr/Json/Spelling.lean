/-
# How values are spelled

Two values that are written alike are alike in every part: arrays item by item, objects field
by field.  The text of a value is never the beginning of another's, as long as what follows a
word or a number is no letter, digit, point or sign.
-/
import ProductPdfQr.Json.Codec

namespace ProductPdfQr.Json

/-! ## 1. Tokens -/

/-- The characters of words and numbers. -/
def isTokenChar (c : Char) : Bool := c.isAlphanum || c = '.' || c = '+' || c = '-'

/-- What no word or number goes on with. -/
def Closed (rest : List Char) : Prop := ∀ c cs, rest = c :: cs → isTokenChar c = false

theorem closed_nil : Closed [] := fun _ _ h => by cases h

theorem closed_cons {c : Char} {cs : List Char} (h : isTokenChar c = false) : Closed (c :: cs) := by
  rintro c' cs' ⟨⟩
  exact h

theorem isTokenChar_of_isDigit {c : Char} (h : c.isDigit = true) : isTokenChar c = true := by
  simp [isTokenChar, Char.isAlphanum, h]

/-- A text of such characters. -/
def Token (t : List Char) : Prop := ∀ c ∈ t, isTokenChar c = true

theorem token_cons {c : Char} {t : List Char} (hc : isTokenChar c = true) (ht : Token t) :
    Token (c :: t) := by
  intro d hd
  rcases List.mem_cons.mp hd with rfl | hd
  · exact hc
  · exact ht d hd

theorem token_append {t t' : List Char} (ht : Token t) (ht' : Token t') : Token (t ++ t') := by
  intro c hc
  rcases List.mem_append.mp hc with hc | hc
  · exact ht c hc
  · exact ht' c hc

theorem Token.sublist {t t' : List Char} (ht : Token t) (h : t' ⊆ t) : Token t' :=
  fun c hc => ht c (h hc)

theorem token_decDigits (n : Nat) : Token (decDigits n) :=
  fun c hc => isTokenChar_of_isDigit (decDigits_isDigit n c hc)

/-- A token, cut where it ends. -/
theorem token_cut {t t' r r' : List Char} (ht : Token t) (ht' : Token t') (hr : Closed r)
    (hr' : Closed r') (h : t ++ r = t' ++ r') : t = t' ∧ r = r' := by
  induction t generalizing t' with
  | nil =>
    cases t' with
    | nil => exact ⟨rfl, h⟩
    | cons c t' =>
      have htoken := ht' c (by simp)
      rw [hr c (t' ++ r') h] at htoken
      cases htoken
  | cons c t ih =>
    cases t' with
    | nil =>
      have htoken := ht c (by simp)
      rw [hr' c (t ++ r) h.symm] at htoken
      cases htoken
    | cons c' t' =>
      rw [List.cons_append, List.cons_append] at h
      obtain ⟨rfl, htail⟩ := List.cons.inj h
      have htail' : Token t' := fun x hx => ht' x (by simp [hx])
      obtain ⟨rfl, rfl⟩ := ih (fun x hx => ht x (by simp [hx])) htail' htail
      exact ⟨rfl, rfl⟩

theorem token_printInt (n : Int) : Token (printInt n) := by
  unfold printInt
  split
  · exact token_cons (by decide) (token_decDigits _)
  · exact token_decDigits _

theorem token_printFloat (x : FloatLit) : Token (printFloat x) := by
  cases x with
  | nan => exact fun c hc => List.all_eq_true.mp (show "NaN".toList.all isTokenChar = true by decide) c hc
  | infinity negative =>
    cases negative with
    | false =>
      exact fun c hc =>
        List.all_eq_true.mp (show "Infinity".toList.all isTokenChar = true by decide) c hc
    | true =>
      exact fun c hc =>
        List.all_eq_true.mp (show "-Infinity".toList.all isTokenChar = true by decide) c hc
  | finite negative digits exponent =>
    have hdigits : Token ((decDigits digits).reverse.dropWhile (· = '0') |>.reverse) := by
      refine (token_decDigits digits).sublist fun c hc => ?_
      exact List.mem_reverse.mp
        ((List.dropWhile_suffix _).subset (List.mem_reverse.mp hc))
    have hzeros : ∀ n, Token (List.replicate n '0') := by
      intro n c hc
      rw [List.eq_of_mem_replicate hc]
      decide
    have hword : ∀ word : List Char, word.all isTokenChar = true → Token word :=
      fun word h c hc => List.all_eq_true.mp h c hc
    have hbody : ∀ body : List Char, Token body →
        Token (if negative then '-' :: body else body) := by
      intro body h
      split
      · exact token_cons (by decide) h
      · exact h
    unfold printFloat
    refine hbody _ ?_
    dsimp only
    split
    · exact hword _ (by decide)
    split
    · have hmark : Token ['e', if (decDigits digits).length + exponent - 1 < 0 then '-' else '+'] := by
        split <;> exact hword _ (by decide)
      have hfraction : Token (if ((decDigits digits).reverse.dropWhile (· = '0')).reverse.length ≤ 1
          then [] else '.' :: ((decDigits digits).reverse.dropWhile (· = '0')).reverse.drop 1) := by
        split
        · exact hword _ (by decide)
        · exact token_cons (by decide) (hdigits.sublist (List.drop_subset _ _))
      refine token_append (token_append (token_append (hdigits.sublist (List.take_subset _ _))
        hfraction) hmark) ?_
      split
      · exact token_cons (by decide) (token_decDigits _)
      · exact token_decDigits _
    split
    · exact token_append (token_append (hword _ (by decide)) (hzeros _)) hdigits
    split
    · exact token_append (token_append hdigits (hzeros _)) (hword _ (by decide))
    · exact token_append (hdigits.sublist (List.take_subset _ _))
        (token_cons (by decide) (hdigits.sublist (List.drop_subset _ _)))

/-! ## 2. Scalars -/

/-- A value written as a word or a number. -/
def IsScalar : Json → Prop
  | .str _ | .arr _ | .obj _ => False
  | _ => True

theorem printFloat_ne_nil (x : FloatLit) : printFloat x ≠ [] := by
  cases x with
  | nan => decide
  | infinity negative => cases negative <;> decide
  | finite negative digits exponent =>
    cases negative with
    | true => exact List.cons_ne_nil _ _
    | false =>
      unfold printFloat
      dsimp only
      rw [if_neg Bool.false_ne_true]
      split_ifs <;> simp

theorem token_print {v : Json} (h : IsScalar v) : Token (print v) := by
  cases v with
  | null => exact fun c hc => List.all_eq_true.mp (show "null".toList.all isTokenChar by decide) c hc
  | bool b =>
    cases b with
    | true =>
      exact fun c hc => List.all_eq_true.mp (show "true".toList.all isTokenChar by decide) c hc
    | false =>
      exact fun c hc => List.all_eq_true.mp (show "false".toList.all isTokenChar by decide) c hc
  | int n => exact token_printInt n
  | float x => exact token_printFloat x
  | str s => exact absurd h id
  | arr xs => exact absurd h id
  | obj fs => exact absurd h id

theorem print_ne_nil (v : Json) : print v ≠ [] := by
  cases v with
  | null => decide
  | bool b => cases b <;> decide
  | int n =>
    rw [print, printInt]
    split
    · exact List.cons_ne_nil _ _
    · exact decDigits_ne_nil _
  | float x => exact printFloat_ne_nil x
  | str s => exact List.cons_ne_nil _ _
  | arr xs => cases xs <;> exact List.cons_ne_nil _ _
  | obj fs => rcases fs with _ | ⟨⟨k, v⟩, fs⟩ <;> exact List.cons_ne_nil _ _

/-- What a value other than a scalar opens with. -/
def opening : Json → Char
  | .str _ => '"'
  | .arr _ => '['
  | _ => '{'

theorem isTokenChar_opening (v : Json) : isTokenChar (opening v) = false := by
  cases v <;> rfl

theorem opening_ne_close (v : Json) : opening v ≠ ']' := by
  cases v <;> simp [opening]

theorem print_open {v : Json} (h : ¬IsScalar v) : ∃ cs, print v = opening v :: cs := by
  cases v with
  | str s => exact ⟨_, rfl⟩
  | arr xs => cases xs <;> exact ⟨_, rfl⟩
  | obj fs => rcases fs with _ | ⟨⟨k, v⟩, fs⟩ <;> exact ⟨_, rfl⟩
  | _ => exact absurd trivial h

/-- No value opens with a closing bracket. -/
theorem print_not_close (v : Json) {r cs : List Char} : print v ++ r ≠ ']' :: cs := by
  intro heq
  by_cases h : IsScalar v
  · cases hprint : print v with
    | nil => exact print_ne_nil v hprint
    | cons c cs' =>
      rw [hprint, List.cons_append] at heq
      have htoken := token_print h c (by simp [hprint])
      rw [(List.cons.inj heq).1] at htoken
      exact absurd htoken (by decide)
  · obtain ⟨cs', hprint⟩ := print_open h
    rw [hprint, List.cons_append] at heq
    exact opening_ne_close v (List.cons.inj heq).1

/-- A scalar and another value never open alike. -/
theorem scalar_ne_open {v v' : Json} {r r' : List Char} (hv : IsScalar v) (hv' : ¬IsScalar v') :
    print v ++ r ≠ print v' ++ r' := by
  intro heq
  obtain ⟨cs', hprint'⟩ := print_open hv'
  cases hprint : print v with
  | nil => exact print_ne_nil v hprint
  | cons c cs =>
    rw [hprint, hprint', List.cons_append, List.cons_append] at heq
    have htoken := token_print hv c (by simp [hprint])
    rw [(List.cons.inj heq).1, isTokenChar_opening] at htoken
    cases htoken

theorem opening_eq {v v' : Json} {r r' : List Char} (hv : ¬IsScalar v) (hv' : ¬IsScalar v')
    (h : print v ++ r = print v' ++ r') : opening v = opening v' := by
  obtain ⟨cs, hprint⟩ := print_open hv
  obtain ⟨cs', hprint'⟩ := print_open hv'
  rw [hprint, hprint', List.cons_append, List.cons_append] at h
  exact (List.cons.inj h).1

/-! ## 3. Values written alike -/

theorem printStr_cut {s s' : String} {r r' : List Char} (h : printStr s ++ r = printStr s' ++ r') :
    s = s' ∧ r = r' := by
  have hread : ∀ (s : String) (r : List Char), readStr (printStr s ++ r).tail = .ok (s.toList, r) := by
    intro s r
    rw [(readStr_printStr s r).1, List.tail_cons]
    exact (readStr_printStr s r).2
  have heq := hread s r
  rw [h, hread s' r'] at heq
  obtain ⟨hs, hr⟩ := Prod.mk.inj (Except.ok.inj heq)
  exact ⟨(String.toList_inj.mp hs).symm, hr.symm⟩

theorem closed_printItems (xs : List Json) (r : List Char) : Closed (printItems xs ++ r) := by
  cases xs <;> exact closed_cons (by decide)

theorem closed_printFields (fs : Fields) (r : List Char) : Closed (printFields fs ++ r) := by
  rcases fs with _ | ⟨⟨k, v⟩, fs⟩ <;> exact closed_cons (by decide)

/-- A scalar, cut where it ends. -/
theorem scalar_cut (j j' : Json) (hj : IsScalar j) {r r' : List Char} (hr : Closed r)
    (hr' : Closed r') (h : print j ++ r = print j' ++ r') : print j = print j' ∧ r = r' := by
  by_cases hj' : IsScalar j'
  · exact token_cut (token_print hj) (token_print hj') hr hr' h
  · exact absurd h (scalar_ne_open hj hj')

mutual

/-- A value, cut where it ends. -/
theorem print_cut : ∀ (j j' : Json) {r r' : List Char}, Closed r → Closed r' →
    print j ++ r = print j' ++ r' → print j = print j' ∧ r = r'
  | .null, j', _, _, hr, hr', h => scalar_cut .null j' trivial hr hr' h
  | .bool b, j', _, _, hr, hr', h => scalar_cut (.bool b) j' trivial hr hr' h
  | .int n, j', _, _, hr, hr', h => scalar_cut (.int n) j' trivial hr hr' h
  | .float x, j', _, _, hr, hr', h => scalar_cut (.float x) j' trivial hr hr' h
  | .str s, j', r, r', hr, hr', h => by
    cases j' with
    | str s' =>
      obtain ⟨rfl, hr⟩ := printStr_cut h
      exact ⟨rfl, hr⟩
    | arr xs' => exact absurd (opening_eq id id h) (by decide : '"' ≠ '[')
    | obj fs' => exact absurd (opening_eq id id h) (by decide : '"' ≠ '{')
    | _ => exact absurd h.symm (scalar_ne_open trivial id)
  | .arr [], j', r, r', hr, hr', h => by
    cases j' with
    | arr xs' =>
      cases xs' with
      | nil => exact ⟨rfl, (List.cons.inj (List.cons.inj h).2).2⟩
      | cons x' xs' =>
        simp only [print, List.cons_append, List.append_assoc, List.cons.injEq, true_and] at h
        exact absurd h.symm (print_not_close x')
    | str s => exact absurd (opening_eq id id h) (by decide : '[' ≠ '"')
    | obj fs' => exact absurd (opening_eq id id h) (by decide : '[' ≠ '{')
    | _ => exact absurd h.symm (scalar_ne_open trivial id)
  | .arr (x :: xs), j', r, r', hr, hr', h => by
    cases j' with
    | arr xs' =>
      cases xs' with
      | nil =>
        simp only [print, List.cons_append, List.append_assoc, List.cons.injEq, true_and] at h
        exact absurd h (print_not_close x)
      | cons x' xs' =>
        simp only [print, List.cons_append, List.append_assoc, List.cons.injEq, true_and] at h ⊢
        obtain ⟨hx, hrest⟩ := print_cut x x' (closed_printItems xs r) (closed_printItems xs' r') h
        obtain ⟨hxs, hr⟩ := printItems_cut xs xs' hrest
        exact ⟨by rw [hx, hxs], hr⟩
    | str s => exact absurd (opening_eq id id h) (by decide : '[' ≠ '"')
    | obj fs' => exact absurd (opening_eq id id h) (by decide : '[' ≠ '{')
    | _ => exact absurd h.symm (scalar_ne_open trivial id)
  | .obj [], j', r, r', hr, hr', h => by
    cases j' with
    | obj fs' =>
      rcases fs' with _ | ⟨⟨k', v'⟩, fs'⟩
      · exact ⟨rfl, (List.cons.inj (List.cons.inj h).2).2⟩
      · exact absurd (List.cons.inj (List.cons.inj h).2).1 (by decide)
    | str s => exact absurd (opening_eq id id h) (by decide : '{' ≠ '"')
    | arr xs' => exact absurd (opening_eq id id h) (by decide : '{' ≠ '[')
    | _ => exact absurd h.symm (scalar_ne_open trivial id)
  | .obj ((k, v) :: fs), j', r, r', hr, hr', h => by
    cases j' with
    | obj fs' =>
      rcases fs' with _ | ⟨⟨k', v'⟩, fs'⟩
      · exact absurd (List.cons.inj (List.cons.inj h).2).1 (by decide)
      · simp only [print, List.cons_append, List.append_assoc, List.cons.injEq, true_and] at h ⊢
        obtain ⟨rfl, hfield⟩ := printStr_cut h
        obtain ⟨hv, hrest⟩ := print_cut v v' (closed_printFields fs r) (closed_printFields fs' r')
          (List.cons.inj hfield).2
        obtain ⟨hfs, hr⟩ := printFields_cut fs fs' hrest
        exact ⟨by rw [hv, hfs], hr⟩
    | str s => exact absurd (opening_eq id id h) (by decide : '{' ≠ '"')
    | arr xs' => exact absurd (opening_eq id id h) (by decide : '{' ≠ '[')
    | _ => exact absurd h.symm (scalar_ne_open trivial id)

theorem printItems_cut : ∀ (xs xs' : List Json) {r r' : List Char},
    printItems xs ++ r = printItems xs' ++ r' → printItems xs = printItems xs' ∧ r = r'
  | [], [], _, _, h => ⟨rfl, (List.cons.inj h).2⟩
  | [], _ :: _, _, _, h => absurd (List.cons.inj h).1 (by decide)
  | _ :: _, [], _, _, h => absurd (List.cons.inj h).1 (by decide)
  | x :: xs, x' :: xs', r, r', h => by
    simp only [printItems, List.cons_append, List.append_assoc, List.cons.injEq, true_and] at h ⊢
    obtain ⟨hx, hrest⟩ := print_cut x x' (closed_printItems xs r) (closed_printItems xs' r') h
    obtain ⟨hxs, hr⟩ := printItems_cut xs xs' hrest
    exact ⟨by rw [hx, hxs], hr⟩

theorem printFields_cut : ∀ (fs fs' : Fields) {r r' : List Char},
    printFields fs ++ r = printFields fs' ++ r' → printFields fs = printFields fs' ∧ r = r'
  | [], [], _, _, h => ⟨rfl, (List.cons.inj h).2⟩
  | [], (_, _) :: _, _, _, h => absurd (List.cons.inj h).1 (by decide)
  | (_, _) :: _, [], _, _, h => absurd (List.cons.inj h).1 (by decide)
  | (k, v) :: fs, (k', v') :: fs', r, r', h => by
    simp only [printFields, List.cons_append, List.append_assoc, List.cons.injEq, true_and] at h ⊢
    obtain ⟨rfl, hfield⟩ := printStr_cut h
    obtain ⟨hv, hrest⟩ := print_cut v v' (closed_printFields fs r) (closed_printFields fs' r')
      (List.cons.inj hfield).2
    obtain ⟨hfs, hr⟩ := printFields_cut fs fs' hrest
    exact ⟨by rw [hv, hfs], hr⟩

end

/-- Two fields written alike. -/
def SpelledAlike (f f' : String × Json) : Prop := f.1 = f'.1 ∧ print f.2 = print f'.2

theorem printField_cut {k k' : String} {v v' : Json} {fs fs' : Fields}
    (h : printStr k ++ ':' :: (print v ++ printFields fs) =
      printStr k' ++ ':' :: (print v' ++ printFields fs')) :
    SpelledAlike (k, v) (k', v') ∧ printFields fs = printFields fs' := by
  obtain ⟨rfl, hfield⟩ := printStr_cut h
  have hclosed : ∀ fs : Fields, Closed (printFields fs) := fun fs => by
    simpa using closed_printFields fs []
  obtain ⟨hv, hrest⟩ := print_cut v v' (hclosed fs) (hclosed fs') (List.cons.inj hfield).2
  exact ⟨⟨rfl, hv⟩, hrest⟩

theorem printFields_inj (fs : Fields) : ∀ fs' : Fields, printFields fs = printFields fs' →
    List.Forall₂ SpelledAlike fs fs' := by
  induction fs with
  | nil =>
    intro fs' h
    rcases fs' with _ | ⟨⟨k', v'⟩, fs'⟩
    · exact .nil
    · exact absurd (List.cons.inj h).1 (by decide)
  | cons f fs ih =>
    intro fs' h
    obtain ⟨k, v⟩ := f
    rcases fs' with _ | ⟨⟨k', v'⟩, fs'⟩
    · exact absurd (List.cons.inj h).1 (by decide)
    · obtain ⟨hf, hrest⟩ := printField_cut (List.cons.inj h).2
      exact .cons hf (ih fs' hrest)

/-- Objects written alike have the same keys, with values written alike. -/
theorem print_obj_inj {fs fs' : Fields} (h : print (.obj fs) = print (.obj fs')) :
    List.Forall₂ SpelledAlike fs fs' := by
  rcases fs with _ | ⟨⟨k, v⟩, fs⟩ <;> rcases fs' with _ | ⟨⟨k', v'⟩, fs'⟩
  · exact .nil
  · exact absurd (List.cons.inj (List.cons.inj h).2).1 (by decide)
  · exact absurd (List.cons.inj (List.cons.inj h).2).1 (by decide)
  · obtain ⟨hf, hrest⟩ := printField_cut (List.cons.inj h).2
    exact .cons hf (printFields_inj fs fs' hrest)

theorem printFields_congr {fs fs' : Fields} (h : List.Forall₂ SpelledAlike fs fs') :
    printFields fs = printFields fs' := by
  induction h with
  | nil => rfl
  | @cons f f' fs fs' hf _ ih =>
    obtain ⟨k, v⟩ := f
    obtain ⟨k', v'⟩ := f'
    obtain ⟨rfl, hv⟩ := hf
    dsimp only at hv
    rw [printFields, printFields, hv, ih]

theorem print_obj_congr {fs fs' : Fields} (h : List.Forall₂ SpelledAlike fs fs') :
    print (.obj fs) = print (.obj fs') := by
  cases h with
  | nil => rfl
  | @cons f f' fs fs' hf hrest =>
    obtain ⟨k, v⟩ := f
    obtain ⟨k', v'⟩ := f'
    obtain ⟨rfl, hv⟩ := hf
    dsimp only at hv
    rw [print, print, hv, printFields_congr hrest]

theorem lookupField_spelled {fs fs' : Fields} (h : List.Forall₂ SpelledAlike fs fs') (k : String) :
    (lookupField k fs).map print = (lookupField k fs').map print := by
  induction h with
  | nil => rfl
  | @cons f f' fs fs' hf _ ih =>
    obtain ⟨k₁, v⟩ := f
    obtain ⟨k₂, v'⟩ := f'
    obtain ⟨rfl, hv⟩ := hf
    simp only [lookupField]
    split
    · exact congrArg some hv
    · exact ih

theorem insertField_spelled {fs fs' : Fields} (h : List.Forall₂ SpelledAlike fs fs') (k : String)
    (v : Json) : List.Forall₂ SpelledAlike (insertField k v fs) (insertField k v fs') := by
  induction h with
  | nil => exact .cons ⟨rfl, rfl⟩ .nil
  | @cons f f' fs fs' hf hrest ih =>
    obtain ⟨k₁, v₁⟩ := f
    obtain ⟨k₂, v₂⟩ := f'
    obtain ⟨rfl, hv⟩ := hf
    simp only [insertField]
    split
    · exact .cons ⟨rfl, rfl⟩ hrest
    split
    · exact .cons ⟨rfl, rfl⟩ (.cons ⟨rfl, hv⟩ hrest)
    · exact .cons ⟨rfl, hv⟩ ih

/-- Only a string is written as one. -/
theorem print_eq_str {j : Json} {s : String} (h : print j = print (.str s)) : j = .str s := by
  have hcut : print j ++ [] = print (.str s) ++ [] := by rw [h]
  cases j with
  | str s' => rw [(printStr_cut hcut).1]
  | arr xs => exact absurd (opening_eq id id hcut) (by decide : '[' ≠ '"')
  | obj fs => exact absurd (opening_eq id id hcut) (by decide : '{' ≠ '"')
  | _ => exact absurd hcut (scalar_ne_open trivial id)

/-- Only an object is written as one. -/
theorem isDict_of_print {j : Json} {fs : Fields} (h : print j = print (.obj fs)) :
    ∃ fs', j = .obj fs' := by
  have hcut : print j ++ [] = print (.obj fs) ++ [] := by rw [h]
  cases j with
  | obj fs' => exact ⟨fs', rfl⟩
  | str s => exact absurd (opening_eq id id hcut) (by decide : '"' ≠ '{')
  | arr xs => exact absurd (opening_eq id id hcut) (by decide : '[' ≠ '{')
  | _ => exact absurd hcut (scalar_ne_open trivial id)

theorem str?_of_print {v v' : Json} (h : print v = print v') : v.str? = v'.str? := by
  cases v with
  | str s => rw [print_eq_str h.symm]
  | _ =>
    cases v' with
    | str s => rw [print_eq_str h]
    | _ => rfl

/-- Values written alike have the same strings in their fields. -/
theorem str?_get_of_print {v v' : Json} (h : print v = print v') (k : String) :
    (v.get k).str? = (v'.get k).str? := by
  cases v with
  | obj fs =>
    obtain ⟨fs', rfl⟩ := isDict_of_print h.symm
    have hlookup := lookupField_spelled (print_obj_inj h) k
    rw [get, get, get?_obj, get?_obj]
    cases hv : lookupField k fs with
    | none =>
      rw [hv] at hlookup
      rw [Option.map_eq_none_iff.mp hlookup.symm]
    | some v =>
      rw [hv] at hlookup
      obtain ⟨v', hv', hprint⟩ := Option.map_eq_some_iff.mp hlookup.symm
      rw [hv']
      exact str?_of_print hprint.symm
  | _ =>
    cases v' with
    | obj fs' =>
      obtain ⟨fs, heq⟩ := isDict_of_print h
      cases heq
    | _ => rfl

/-- Setting one field keeps the spelling. -/
theorem print_set {v v' : Json} (h : print v = print v') (hv : v.isDict = true) (k : String)
    (x : Json) : print (v.set k x) = print (v'.set k x) := by
  cases v with
  | obj fs =>
    obtain ⟨fs', rfl⟩ := isDict_of_print h.symm
    exact print_obj_congr (insertField_spelled (print_obj_inj h) k x)
  | _ => cases hv

/-- Two values have the same bytes exactly when they are written alike. -/
theorem canonicalJson_eq_iff {v v' : Json} : canonicalJson v = canonicalJson v' ↔
    print v = print v' := by
  constructor
  · intro h
    have htext := congrArg String.fromUTF8? h
    rw [canonicalJson, canonicalJson, fromUTF8?_toUTF8, fromUTF8?_toUTF8] at htext
    exact List.append_cancel_right (String.ofList_injective (Option.some.inj htext))
  · intro h
    rw [canonicalJson, canonicalJson, h]

/-! ## 4. The characters of a text -/

mutual

/-- The character stands in a string or a key of the value. -/
def occurs (c : Char) : Json → Bool
  | .str s => s.toList.contains c
  | .arr xs => occursItems c xs
  | .obj fs => occursFields c fs
  | _ => false

/-- It stands in one of the items. -/
def occursItems (c : Char) : List Json → Bool
  | [] => false
  | x :: xs => occurs c x || occursItems c xs

/-- It stands in one of the fields. -/
def occursFields (c : Char) : Fields → Bool
  | [] => false
  | (k, v) :: fs => k.toList.contains c || occurs c v || occursFields c fs

end

section

variable {c : Char}

theorem isTokenChar_ascii (h : isTokenChar c = true) : c.toNat < 128 := by
  have hle : ∀ n : UInt32, c.val ≤ n → n.toNat < 128 → c.toNat < 128 := fun n hn hlt =>
    lt_of_le_of_lt (UInt32.le_iff_toNat_le.mp hn) hlt
  have halpha : c.isAlpha = true → c.isUpper = true ∨ c.isLower = true := Bool.or_eq_true_iff.mp
  have hupper : c.isUpper = true → c.val ≤ 'Z'.val := fun h => (of_decide_eq_true h).2
  have hlower : c.isLower = true → c.val ≤ 'z'.val := fun h =>
    of_decide_eq_true (Bool.and_eq_true_iff.mp h).2
  have hdigit : c.isDigit = true → c.val ≤ '9'.val := fun h =>
    of_decide_eq_true (Bool.and_eq_true_iff.mp h).2
  simp only [isTokenChar, Char.isAlphanum, Bool.or_eq_true, decide_eq_true_eq] at h
  rcases h with (((h | h) | rfl) | rfl) | rfl
  · rcases halpha h with h | h
    · exact hle _ (hupper h) (by decide)
    · exact hle _ (hlower h) (by decide)
  · exact hle _ (hdigit h) (by decide)
  · decide
  · decide
  · decide

theorem digitChar_ascii {d : Nat} (h : d < 16) : (digitChar d).toNat < 128 := by
  revert d
  decide

theorem escapeChar_ascii {x : Char} (hx : x.toNat < 128) : ∀ y ∈ escapeChar x, y.toNat < 128 := by
  intro y hy
  unfold escapeChar at hy
  split_ifs at hy
  all_goals simp only [List.mem_cons, List.not_mem_nil, or_false] at hy
  · rcases hy with rfl | rfl <;> decide
  · rcases hy with rfl | rfl <;> decide
  · rcases hy with rfl | rfl <;> decide
  · rcases hy with rfl | rfl <;> decide
  · rcases hy with rfl | rfl <;> decide
  · rcases hy with rfl | rfl <;> decide
  · rcases hy with rfl | rfl <;> decide
  · rcases hy with rfl | rfl | rfl | rfl | rfl | rfl
    any_goals decide
    · exact digitChar_ascii (by omega)
    · exact digitChar_ascii (by omega)
  · exact hy ▸ hx

/-- Characters beyond ASCII are written as they are. -/
theorem mem_escapeChar (hc : 128 ≤ c.toNat) {x : Char} : c ∈ escapeChar x ↔ c = x := by
  by_cases hx : x.toNat < 128
  · constructor
    · exact fun h => absurd (escapeChar_ascii hx c h) (by omega)
    · rintro rfl
      omega
  · have hne : ∀ d : Char, d.toNat < 128 → x ≠ d := by
      rintro d hd rfl
      exact hx hd
    rw [escapeChar, if_neg (hne _ (by decide)), if_neg (hne _ (by decide)),
      if_neg (hne _ (by decide)), if_neg (hne _ (by decide)), if_neg (hne _ (by decide)),
      if_neg (hne _ (by decide)), if_neg (hne _ (by decide)), if_neg (by omega),
      List.mem_singleton]

theorem mem_printStr (hc : 128 ≤ c.toNat) (s : String) :
    c ∈ printStr s ↔ s.toList.contains c = true := by
  have hquote : c ≠ '"' := by
    rintro rfl
    exact absurd hc (by decide)
  simp only [printStr, List.mem_cons, List.mem_append, List.mem_flatMap, List.not_mem_nil, hquote,
    mem_escapeChar hc, false_or, or_false, List.contains_eq_mem, decide_eq_true_eq]
  constructor
  · rintro ⟨x, hx, rfl⟩
    exact hx
  · exact fun h => ⟨c, h, rfl⟩

theorem not_mem_token (hc : 128 ≤ c.toNat) {v : Json} (hv : IsScalar v) : c ∉ print v :=
  fun h => absurd (isTokenChar_ascii (token_print hv c h)) (by omega)

theorem ne_ascii (hc : 128 ≤ c.toNat) {d : Char} (hd : d.toNat < 128) : c ≠ d := by
  rintro rfl
  omega

mutual

/-- A character beyond ASCII stands in the text exactly when it stands in a string or a key. -/
theorem mem_print (hc : 128 ≤ c.toNat) : ∀ v : Json, c ∈ print v ↔ occurs c v = true
  | .null => iff_of_false (not_mem_token hc trivial) Bool.false_ne_true
  | .bool b => iff_of_false (not_mem_token hc (v := .bool b) trivial) Bool.false_ne_true
  | .int n => iff_of_false (not_mem_token hc (v := .int n) trivial) Bool.false_ne_true
  | .float x => iff_of_false (not_mem_token hc (v := .float x) trivial) Bool.false_ne_true
  | .str s => mem_printStr hc s
  | .arr [] => by simp [print, occurs, occursItems, ne_ascii hc]
  | .arr (x :: xs) => by
    simp [print, occurs, occursItems, ne_ascii hc, mem_print hc x, mem_printItems hc xs]
  | .obj [] => by simp [print, occurs, occursFields, ne_ascii hc]
  | .obj ((k, v) :: fs) => by
    simp [print, occurs, occursFields, ne_ascii hc, mem_printStr hc k, mem_print hc v,
      mem_printFields hc fs, or_assoc]

theorem mem_printItems (hc : 128 ≤ c.toNat) :
    ∀ xs : List Json, c ∈ printItems xs ↔ occursItems c xs = true
  | [] => by simp [printItems, occursItems, ne_ascii hc]
  | x :: xs => by
    simp [printItems, occursItems, ne_ascii hc, mem_print hc x, mem_printItems hc xs]

theorem mem_printFields (hc : 128 ≤ c.toNat) :
    ∀ fs : Fields, c ∈ printFields fs ↔ occursFields c fs = true
  | [] => by simp [printFields, occursFields, ne_ascii hc]
  | (k, v) :: fs => by
    simp [printFields, occursFields, ne_ascii hc, mem_printStr hc k, mem_print hc v,
      mem_printFields hc fs, or_assoc]

end

end

end ProductPdfQr.Json
