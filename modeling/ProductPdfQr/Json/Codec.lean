/-
# JSON text

`dumps` is `json.dumps(value, ensure_ascii=False, sort_keys=True, separators=(",", ":"))` and
`loads` is `json.loads`: the grammar of JSON with Python's three extra literals, white space
between any two tokens, the last field of a repeated key.  A float is kept as the decimal that
was written, not rounded to a double.

`loads_canonicalJson` is the round trip: a plain value comes back from its canonical bytes as
it was, so `canonicalJson_injective` too.
-/
import ProductPdfQr.Json.Value

namespace ProductPdfQr

/-- A byte string. -/
abbrev Bytes := ByteArray

instance bytesDecidableEq : DecidableEq Bytes := ByteArray.instDecidableEq

namespace Json

/-! ## 1. Digits -/

/-- The character of a digit below 36. -/
def digitChar (d : Nat) : Char := if d < 10 then Char.ofNat (48 + d) else Char.ofNat (87 + d)

/-- The value of a decimal digit. -/
def digitVal (c : Char) : Nat := c.toNat - 48

/-- The decimal digits of `n`, on `fuel` of them at most. -/
def decDigitsAux : Nat → Nat → List Char
  | 0, _ => []
  | fuel + 1, n =>
    if n < 10 then [digitChar n] else decDigitsAux fuel (n / 10) ++ [digitChar (n % 10)]

/-- The decimal digits of `n`. -/
def decDigits (n : Nat) : List Char := decDigitsAux (n + 1) n

/-- The number a run of digits spells. -/
def ofDigits (ds : List Char) : Nat := ds.foldl (fun acc c => 10 * acc + digitVal c) 0

/-- The digits at the front, and what follows them. -/
def spanDigits : List Char → List Char × List Char
  | [] => ([], [])
  | c :: rest =>
    if c.isDigit then (c :: (spanDigits rest).1, (spanDigits rest).2) else ([], c :: rest)

theorem digitVal_digitChar {d : Nat} (h : d < 10) : digitVal (digitChar d) = d := by
  revert d
  decide

theorem digitChar_isDigit {d : Nat} (h : d < 10) : (digitChar d).isDigit = true := by
  revert d
  decide

theorem decDigitsAux_eq {fuel n : Nat} (h : n < fuel) :
    ∀ c ∈ decDigitsAux fuel n, c.isDigit = true := by
  induction fuel generalizing n with
  | zero => omega
  | succ fuel ih =>
    unfold decDigitsAux
    split
    · simpa using digitChar_isDigit ‹_›
    · intro c hc
      rcases List.mem_append.mp hc with hc | hc
      · exact ih (by omega) c hc
      · rw [List.mem_singleton.mp hc]
        exact digitChar_isDigit (by omega)

theorem ofDigits_decDigitsAux {fuel n : Nat} (h : n < fuel) :
    ofDigits (decDigitsAux fuel n) = n := by
  induction fuel generalizing n with
  | zero => omega
  | succ fuel ih =>
    unfold decDigitsAux
    split
    · simp [ofDigits, digitVal_digitChar ‹_›]
    · have hq : ofDigits (decDigitsAux fuel (n / 10)) = n / 10 := ih (by omega)
      rw [ofDigits, List.foldl_append]
      change List.foldl _ (ofDigits (decDigitsAux fuel (n / 10))) _ = n
      rw [hq]
      simp only [List.foldl_cons, List.foldl_nil, digitVal_digitChar (Nat.mod_lt n (by omega))]
      omega

theorem decDigits_isDigit (n : Nat) : ∀ c ∈ decDigits n, c.isDigit = true :=
  decDigitsAux_eq (Nat.lt_succ_self n)

theorem ofDigits_decDigits (n : Nat) : ofDigits (decDigits n) = n :=
  ofDigits_decDigitsAux (Nat.lt_succ_self n)

theorem decDigits_ne_nil (n : Nat) : decDigits n ≠ [] := by
  unfold decDigits decDigitsAux
  split <;> simp

/-- What follows a number is not a digit, and does not continue it. -/
def EndsNumber (r : List Char) : Prop :=
  ∀ c rest, r = c :: rest → c.isDigit = false ∧ c ≠ '.' ∧ c ≠ 'e' ∧ c ≠ 'E'

theorem endsNumber_nil : EndsNumber [] := fun _ _ h => nomatch h

theorem endsNumber_cons {c : Char} {r : List Char}
    (h : c.isDigit = false ∧ c ≠ '.' ∧ c ≠ 'e' ∧ c ≠ 'E') : EndsNumber (c :: r) := by
  intro c' rest heq
  cases heq
  exact h

theorem spanDigits_append {ds r : List Char} (hd : ∀ c ∈ ds, c.isDigit = true)
    (hr : EndsNumber r) : spanDigits (ds ++ r) = (ds, r) := by
  induction ds with
  | nil =>
    cases r with
    | nil => rfl
    | cons c rest => simp [spanDigits, (hr c rest rfl).1]
  | cons c ds ih =>
    have hc : c.isDigit = true := hd c (by simp)
    simp [spanDigits, hc, ih fun x hx => hd x (by simp [hx])]

/-! ## 2. Writing -/

/-- One character of a JSON string.  Only the quote, the backslash and the control
characters are escaped. -/
def escapeChar (c : Char) : List Char :=
  if c = '"' then ['\\', '"']
  else if c = '\\' then ['\\', '\\']
  else if c = '\n' then ['\\', 'n']
  else if c = '\r' then ['\\', 'r']
  else if c = '\t' then ['\\', 't']
  else if c = '\x0c' then ['\\', 'f']
  else if c = '\x08' then ['\\', 'b']
  else if c.toNat < 32 then
    ['\\', 'u', '0', '0', digitChar (c.toNat / 16), digitChar (c.toNat % 16)]
  else [c]

/-- A string between quotes. -/
def printStr (s : String) : List Char := '"' :: (s.toList.flatMap escapeChar ++ ['"'])

/-- A decimal number. -/
def printInt (n : Int) : List Char :=
  if n < 0 then '-' :: decDigits n.natAbs else decDigits n.natAbs

/-- `repr` of a float: the point is written out while it stands near the digits. -/
def printFloat : FloatLit → List Char
  | .nan => "NaN".toList
  | .infinity negative => (if negative then "-Infinity" else "Infinity").toList
  | .finite negative digits exponent =>
    let ds := (decDigits digits).reverse.dropWhile (· = '0') |>.reverse
    let point : Int := (decDigits digits).length + exponent
    let body : List Char :=
      if digits = 0 then "0.0".toList
      else if point < -3 ∨ 16 < point then
        let e := point - 1
        let mark := if e < 0 then '-' else '+'
        let eds := decDigits e.natAbs
        ds.take 1 ++ (if ds.length ≤ 1 then [] else '.' :: ds.drop 1) ++ ['e', mark] ++
          (if eds.length < 2 then '0' :: eds else eds)
      else if point ≤ 0 then "0.".toList ++ List.replicate point.natAbs '0' ++ ds
      else if ds.length ≤ point.natAbs then
        ds ++ List.replicate (point.natAbs - ds.length) '0' ++ ".0".toList
      else ds.take point.natAbs ++ '.' :: ds.drop point.natAbs
    if negative then '-' :: body else body

mutual

/-- The text of a value. -/
def print : Json → List Char
  | .null => "null".toList
  | .bool true => "true".toList
  | .bool false => "false".toList
  | .int n => printInt n
  | .float x => printFloat x
  | .str s => printStr s
  | .arr [] => ['[', ']']
  | .arr (x :: xs) => '[' :: (print x ++ printItems xs)
  | .obj [] => ['{', '}']
  | .obj ((k, v) :: fs) => '{' :: (printStr k ++ ':' :: (print v ++ printFields fs))

/-- The rest of an array. -/
def printItems : List Json → List Char
  | [] => [']']
  | x :: xs => ',' :: (print x ++ printItems xs)

/-- The rest of an object. -/
def printFields : Fields → List Char
  | [] => ['}']
  | (k, v) :: fs => ',' :: (printStr k ++ ':' :: (print v ++ printFields fs))

end

/-- The bytes of a value: `json.dumps(...) + "\n"`, in UTF-8. -/
def canonicalJson (j : Json) : Bytes := (String.ofList (print j ++ ['\n'])).toUTF8

/-! ## 3. Reading -/

/-- Why a text is not a value.  A string with half a surrogate pair is a value in Python, but
one that cannot be encoded again; no `String` holds it. -/
inductive LoadError
  | unicode
  | decode
  | surrogate
  deriving DecidableEq, Repr

/-- Blanks between tokens. -/
def isBlank (c : Char) : Bool := c = ' ' || c = '\t' || c = '\n' || c = '\r'

/-- Drop the blanks at the front. -/
def skipBlanks (cs : List Char) : List Char := cs.dropWhile isBlank

/-- The value of a hexadecimal digit. -/
def hexVal? (c : Char) : Option Nat :=
  if c.isDigit then some (c.toNat - 48)
  else if 'a' ≤ c ∧ c ≤ 'f' then some (c.toNat - 87)
  else if 'A' ≤ c ∧ c ≤ 'F' then some (c.toNat - 55)
  else none

/-- Four hexadecimal digits. -/
def hex4? (a b c d : Char) : Option Nat := do
  let a ← hexVal? a
  let b ← hexVal? b
  let c ← hexVal? c
  let d ← hexVal? d
  return ((a * 16 + b) * 16 + c) * 16 + d

/-- The character a one-letter escape stands for. -/
def unescape? (c : Char) : Option Char :=
  if c = '"' then some '"'
  else if c = '\\' then some '\\'
  else if c = '/' then some '/'
  else if c = 'b' then some '\x08'
  else if c = 'f' then some '\x0c'
  else if c = 'n' then some '\n'
  else if c = 'r' then some '\r'
  else if c = 't' then some '\t'
  else none

/-- The characters of a string, up to its closing quote. -/
def readStr : List Char → Except LoadError (List Char × List Char)
  | [] => .error .decode
  | c :: rest =>
    if c = '"' then .ok ([], rest)
    else if c.toNat < 32 then .error .decode
    else if c = '\\' then
      match rest with
      | [] => .error .decode
      | e :: rest =>
        if e = 'u' then
          match rest with
          | h₁ :: h₂ :: h₃ :: h₄ :: rest =>
            match hex4? h₁ h₂ h₃ h₄ with
            | none => .error .decode
            | some n =>
              if n < 0xD800 ∨ 0xE000 ≤ n then
                (readStr rest).map fun p => (Char.ofNat n :: p.1, p.2)
              else
                match rest with
                | '\\' :: 'u' :: l₁ :: l₂ :: l₃ :: l₄ :: rest =>
                  match hex4? l₁ l₂ l₃ l₄ with
                  | none => .error .decode
                  | some m =>
                    if n < 0xDC00 ∧ 0xDC00 ≤ m ∧ m < 0xE000 then
                      (readStr rest).map fun p =>
                        (Char.ofNat (0x10000 + (n - 0xD800) * 1024 + (m - 0xDC00)) :: p.1, p.2)
                    else .error .surrogate
                | _ => .error .surrogate
          | _ => .error .decode
        else
          match unescape? e with
          | none => .error .decode
          | some c => (readStr rest).map fun p => (c :: p.1, p.2)
    else (readStr rest).map fun p => (c :: p.1, p.2)

/-- The exponent after an `e`, if there is one. -/
def readExponent : List Char → Option (Int × List Char)
  | c :: rest =>
    if c = 'e' ∨ c = 'E' then
      let (negative, rest) := match rest with
        | '-' :: rest => (true, rest)
        | '+' :: rest => (false, rest)
        | rest => (false, rest)
      match spanDigits rest with
      | ([], _) => none
      | (ds, rest) => some (if negative then -(ofDigits ds : Int) else ofDigits ds, rest)
    else none
  | [] => none

/-- The fraction after a point, if there is one. -/
def readFraction : List Char → Option (List Char × List Char)
  | c :: rest =>
    if c = '.' then
      match spanDigits rest with
      | ([], _) => none
      | (ds, rest) => some (ds, rest)
    else none
  | [] => none

/-- A number, its sign already read: `0` or a run of digits that does not start with one. -/
def readNumber (negative : Bool) (cs : List Char) : Except LoadError (Json × List Char) :=
  match spanDigits cs with
  | ([], _) => .error .decode
  | ('0' :: _ :: _, _) => .error .decode
  | (ds, rest) =>
    let (fraction, rest') := (readFraction rest).getD ([], rest)
    match readExponent rest' with
    | some (e, rest'') =>
      .ok (.float (.finite negative (ofDigits (ds ++ fraction)) (e - fraction.length)), rest'')
    | none =>
      if fraction.isEmpty then
        .ok (.int (if negative then -(ofDigits ds : Int) else ofDigits ds), rest)
      else .ok (.float (.finite negative (ofDigits (ds ++ fraction)) (-fraction.length)), rest')

/-- A literal word, and what follows it. -/
def readWord (word : List Char) (j : Json) (cs : List Char) : Except LoadError (Json × List Char) :=
  if word.isPrefixOf cs then .ok (j, cs.drop word.length) else .error .decode

/-- What stands after a minus sign. -/
def readNegative (cs : List Char) : Except LoadError (Json × List Char) :=
  match cs with
  | 'I' :: _ => readWord "Infinity".toList (.float (.infinity true)) cs
  | _ => readNumber true cs

mutual

/-- A value at the front of the text, on `fuel` nested steps at most. -/
def readValue : Nat → List Char → Except LoadError (Json × List Char)
  | 0, _ => .error .decode
  | _ + 1, [] => .error .decode
  | fuel + 1, c :: rest =>
    if c = '"' then (readStr rest).map fun p => (.str (String.ofList p.1), p.2)
    else if c = '[' then
      match skipBlanks rest with
      | ']' :: rest => .ok (.arr [], rest)
      | rest => do
        let (x, rest) ← readValue fuel rest
        let (xs, rest) ← readItems fuel (skipBlanks rest)
        return (.arr (x :: xs), rest)
    else if c = '{' then
      match skipBlanks rest with
      | '}' :: rest => .ok (.obj [], rest)
      | rest => do
        let (fs, rest) ← readField fuel rest
        return (dict fs, rest)
    else if c = 'n' then readWord "null".toList .null (c :: rest)
    else if c = 't' then readWord "true".toList (.bool true) (c :: rest)
    else if c = 'f' then readWord "false".toList (.bool false) (c :: rest)
    else if c = 'N' then readWord "NaN".toList (.float .nan) (c :: rest)
    else if c = 'I' then readWord "Infinity".toList (.float (.infinity false)) (c :: rest)
    else if c = '-' then readNegative rest
    else readNumber false (c :: rest)

/-- The rest of an array, after one of its items. -/
def readItems : Nat → List Char → Except LoadError (List Json × List Char)
  | fuel + 1, c :: rest =>
    if c = ']' then .ok ([], rest)
    else if c = ',' then do
      let (x, rest) ← readValue fuel (skipBlanks rest)
      let (xs, rest) ← readItems fuel (skipBlanks rest)
      return (x :: xs, rest)
    else .error .decode
  | _, _ => .error .decode

/-- One field of an object and all that follow it. -/
def readField : Nat → List Char → Except LoadError (Fields × List Char)
  | fuel + 1, '"' :: rest => do
    let (k, rest) ← readStr rest
    match skipBlanks rest with
    | ':' :: rest => do
      let (v, rest) ← readValue fuel (skipBlanks rest)
      let (fs, rest) ← readFields fuel (skipBlanks rest)
      return ((String.ofList k, v) :: fs, rest)
    | _ => .error .decode
  | _, _ => .error .decode

/-- The rest of an object, after one of its fields. -/
def readFields : Nat → List Char → Except LoadError (Fields × List Char)
  | fuel + 1, c :: rest =>
    if c = '}' then .ok ([], rest)
    else if c = ',' then readField fuel (skipBlanks rest)
    else .error .decode
  | _, _ => .error .decode

end

/-- A step that came to something, and what the rest made of it. -/
theorem bind_ok {ε α β : Type} {x : Except ε α} {f : α → Except ε β} {b : β}
    (h : (x >>= f) = .ok b) : ∃ a, x = .ok a ∧ f a = .ok b := by
  cases x with
  | error e => cases h
  | ok a => exact ⟨a, rfl, h⟩

/-- The value a text spells, with nothing but blanks around it. -/
def loadsText (text : List Char) : Except LoadError Json := do
  let (j, rest) ← readValue (2 * text.length + 1) (skipBlanks text)
  if skipBlanks rest = [] then return j else .error .decode

/-- The value UTF-8 bytes spell. -/
def loads (bytes : Bytes) : Except LoadError Json :=
  match String.fromUTF8? bytes with
  | none => .error .unicode
  | some text => loadsText text.toList

/-- The text goes on with the second half of a surrogate pair. -/
def startsLow : List Char → Bool
  | '\\' :: 'u' :: a :: b :: c :: d :: _ => (hex4? a b c d).any fun n => 0xDC00 ≤ n && n < 0xE000
  | _ => false

/-- The text with U+FFFD for every half of a surrogate pair that stands alone; `paired` when
its first half was just kept.  Against a text that can be encoded the two compare alike. -/
def mend : Bool → List Char → List Char
  | _, [] => []
  | paired, '\\' :: 'u' :: a :: b :: c :: d :: rest =>
    match hex4? a b c d with
    | none => '\\' :: 'u' :: mend false (a :: b :: c :: d :: rest)
    | some n =>
      if paired ∨ n < 0xD800 ∨ 0xE000 ≤ n then '\\' :: 'u' :: a :: b :: c :: d :: mend false rest
      else if n < 0xDC00 ∧ startsLow rest then '\\' :: 'u' :: a :: b :: c :: d :: mend true rest
      else '\\' :: 'u' :: 'f' :: 'f' :: 'f' :: 'd' :: mend false rest
  | _, '\\' :: c :: rest => '\\' :: c :: mend false rest
  | _, c :: rest => c :: mend false rest

/-- The value UTF-8 bytes spell, and whether it can be encoded again. -/
def loadsLoosely (bytes : Bytes) : Except LoadError (Json × Bool) :=
  match loads bytes with
  | .ok value => .ok (value, true)
  | .error .surrogate =>
    (loadsText (mend false ((String.fromUTF8? bytes).getD "").toList)).map fun value => (value, false)
  | .error e => .error e

theorem loadsLoosely_of_loads {bytes : Bytes} {j : Json} (h : loads bytes = .ok j) :
    loadsLoosely bytes = .ok (j, true) := by
  rw [loadsLoosely, h]

theorem loads_of_encodable {bytes : Bytes} {j : Json} (h : loadsLoosely bytes = .ok (j, true)) :
    loads bytes = .ok j := by
  unfold loadsLoosely at h
  split at h
  · next value hvalue =>
    cases h
    exact hvalue
  · cases hm : loadsText (mend false ((String.fromUTF8? bytes).getD "").toList) <;>
      simp [hm, Except.map] at h
  · simp at h

/-! ## 4. The round trip -/

theorem decDigitsAux_head {fuel n : Nat} (h : n < fuel) (hn : 0 < n) :
    ∃ d ds, decDigitsAux fuel n = d :: ds ∧ d ≠ '0' := by
  induction fuel generalizing n with
  | zero => omega
  | succ fuel ih =>
    unfold decDigitsAux
    split
    · have hpos : ∀ d < 10, 0 < d → digitChar d ≠ '0' := by decide
      exact ⟨_, _, rfl, hpos n ‹_› hn⟩
    · obtain ⟨d, ds, heq, hd⟩ := ih (n := n / 10) (by omega) (by omega)
      exact ⟨d, _, by rw [heq, List.cons_append], hd⟩

/-- No number is written with a zero before its digits. -/
theorem decDigits_no_leading_zero (n : Nat) (c : Char) (ds : List Char) :
    decDigits n ≠ '0' :: c :: ds := by
  intro h
  rcases Nat.eq_zero_or_pos n with rfl | hn
  · have hzero : decDigits 0 = ['0'] := by decide
    simp [hzero] at h
  · obtain ⟨d, ds', heq, hd⟩ := decDigitsAux_head (Nat.lt_succ_self n) hn
    rw [decDigits, heq] at h
    exact hd (List.cons.inj h).1

theorem readNumber_decDigits (negative : Bool) (n : Nat) {r : List Char} (hr : EndsNumber r) :
    readNumber negative (decDigits n ++ r) =
      .ok (.int (if negative then -(n : Int) else n), r) := by
  have hfraction : readFraction r = none := by
    cases r with
    | nil => rfl
    | cons c rest => simp [readFraction, (hr c rest rfl).2.1]
  have hexponent : readExponent r = none := by
    cases r with
    | nil => rfl
    | cons c rest => simp [readExponent, (hr c rest rfl).2.2.1, (hr c rest rfl).2.2.2]
  unfold readNumber
  rw [spanDigits_append (decDigits_isDigit n) hr]
  split
  · next h => exact absurd (Prod.mk.inj h).1 (decDigits_ne_nil n)
  · next h => exact absurd (Prod.mk.inj h).1 (decDigits_no_leading_zero n _ _)
  · next h =>
    obtain ⟨rfl, rfl⟩ := Prod.mk.inj h
    simp only [hfraction, Option.getD_none, hexponent, List.isEmpty_nil, if_true,
      ofDigits_decDigits]

theorem hexVal?_digitChar {d : Nat} (h : d < 16) : hexVal? (digitChar d) = some d := by
  revert d
  decide

theorem readStr_plain {c : Char} {rest : List Char} (hq : c ≠ '"') (hb : c ≠ '\\')
    (hc : ¬c.toNat < 32) : readStr (c :: rest) = (readStr rest).map fun p => (c :: p.1, p.2) := by
  rw [readStr.eq_def]
  simp only [hq, hc, hb, if_false]

theorem readStr_escape {e c : Char} {rest : List Char} (hu : e ≠ 'u')
    (he : unescape? e = some c) :
    readStr ('\\' :: e :: rest) = (readStr rest).map fun p => (c :: p.1, p.2) := by
  have hctl : ¬ '\\'.toNat < 32 := by decide
  rw [readStr.eq_def]
  simp only [Char.reduceEq, hctl, hu, if_true, if_false, he]

theorem readStr_escapeChar (c : Char) (rest : List Char) :
    readStr (escapeChar c ++ rest) = (readStr rest).map fun p => (c :: p.1, p.2) := by
  unfold escapeChar
  split_ifs with h₁ h₂ h₃ h₄ h₅ h₆ h₇ h₈
  · subst h₁
    exact readStr_escape (by decide) rfl
  · subst h₂
    exact readStr_escape (by decide) rfl
  · subst h₃
    exact readStr_escape (by decide) rfl
  · subst h₄
    exact readStr_escape (by decide) rfl
  · subst h₅
    exact readStr_escape (by decide) rfl
  · subst h₆
    exact readStr_escape (by decide) rfl
  · subst h₇
    exact readStr_escape (by decide) rfl
  · -- a control character without a letter of its own
    have hhex : hex4? '0' '0' (digitChar (c.toNat / 16)) (digitChar (c.toNat % 16)) =
        some c.toNat := by
      have h0 : hexVal? '0' = some 0 := by decide
      simp only [hex4?, h0, hexVal?_digitChar (d := c.toNat / 16) (by omega),
        hexVal?_digitChar (d := c.toNat % 16) (by omega)]
      exact congrArg some (by omega)
    have hsmall : c.toNat < 0xD800 ∨ 0xE000 ≤ c.toNat := Or.inl (by omega)
    simp only [List.cons_append, List.nil_append]
    have hctl : ¬ '\\'.toNat < 32 := by decide
    rw [readStr.eq_def]
    simp only [Char.reduceEq, hctl, if_true, if_false, hhex, hsmall, Char.ofNat_toNat]
  · exact readStr_plain h₁ h₂ h₈

theorem readStr_escaped (cs r : List Char) :
    readStr (cs.flatMap escapeChar ++ '"' :: r) = .ok (cs, r) := by
  induction cs with
  | nil => rw [readStr.eq_def]; rfl
  | cons c cs ih =>
    rw [List.flatMap_cons, List.append_assoc, readStr_escapeChar, ih]
    rfl

theorem readStr_printStr (s : String) (r : List Char) :
    printStr s ++ r = '"' :: (s.toList.flatMap escapeChar ++ '"' :: r) ∧
      readStr (s.toList.flatMap escapeChar ++ '"' :: r) = .ok (s.toList, r) :=
  ⟨by simp [printStr], readStr_escaped _ _⟩

/-- The first character of a value opens it: no blank and no closing bracket. -/
theorem print_head {v : Json} (h : Plain v) :
    ∃ c cs, print v = c :: cs ∧ isBlank c = false ∧ c ≠ ']' := by
  cases v with
  | null => exact ⟨_, _, rfl, by decide⟩
  | bool b => cases b <;> exact ⟨_, _, rfl, by decide⟩
  | int n =>
    unfold print printInt
    split
    · exact ⟨_, _, rfl, by decide⟩
    · cases hds : decDigits n.natAbs with
      | nil => exact absurd hds (decDigits_ne_nil _)
      | cons d ds =>
        have hd : d.isDigit = true := decDigits_isDigit n.natAbs d (by simp [hds])
        refine ⟨d, ds, rfl, ?_, ?_⟩
        · have hb : ∀ b : Char, isBlank b = true → b.isDigit = false := by
            intro b hb
            simp only [isBlank, Bool.or_eq_true, decide_eq_true_eq] at hb
            rcases hb with ((rfl | rfl) | rfl) | rfl <;> decide
          by_contra hne
          simp [hb d (by simpa using hne)] at hd
        · rintro rfl
          exact absurd hd (by decide)
  | float x => exact absurd h id
  | str s => exact ⟨_, _, rfl, by decide⟩
  | arr xs => cases xs <;> exact ⟨_, _, rfl, by decide⟩
  | obj fs => cases fs <;> exact ⟨_, _, rfl, by decide⟩

theorem skipBlanks_cons {c : Char} (h : isBlank c = false) (cs : List Char) :
    skipBlanks (c :: cs) = c :: cs := by
  simp [skipBlanks, h]

theorem printItems_head (xs : List Json) :
    ∃ c cs, printItems xs = c :: cs ∧ isBlank c = false ∧
      (c.isDigit = false ∧ c ≠ '.' ∧ c ≠ 'e' ∧ c ≠ 'E') := by
  cases xs <;> exact ⟨_, _, rfl, by decide⟩

theorem printFields_head (fs : Fields) :
    ∃ c cs, printFields fs = c :: cs ∧ isBlank c = false ∧
      (c.isDigit = false ∧ c ≠ '.' ∧ c ≠ 'e' ∧ c ≠ 'E') := by
  rcases fs with _ | ⟨⟨k, v⟩, fs⟩ <;> exact ⟨_, _, rfl, by decide⟩

/-- A digit does not open any other kind of value. -/
theorem readValue_digit {d : Char} (hd : d.isDigit = true) (fuel : Nat) (cs : List Char) :
    readValue (fuel + 1) (d :: cs) = readNumber false (d :: cs) := by
  have hne : ∀ c : Char, c.isDigit = false → d ≠ c := by
    rintro c hc rfl
    simp [hd] at hc
  rw [readValue]
  simp only [hne '"' (by decide), hne '[' (by decide), hne '{' (by decide), hne 'n' (by decide),
    hne 't' (by decide), hne 'f' (by decide), hne 'N' (by decide), hne 'I' (by decide),
    hne '-' (by decide), if_false]

theorem readValue_printInt (n : Int) (fuel : Nat) {r : List Char} (hr : EndsNumber r) :
    readValue (fuel + 1) (printInt n ++ r) = .ok (.int n, r) := by
  have hdigits := decDigits_isDigit n.natAbs
  cases hds : decDigits n.natAbs with
  | nil => exact absurd hds (decDigits_ne_nil _)
  | cons d ds =>
    have hd : d.isDigit = true := hdigits d (by simp [hds])
    unfold printInt
    split
    · have hI : d ≠ 'I' := by
        rintro rfl
        exact absurd hd (by decide)
      have hread := readNumber_decDigits true n.natAbs hr
      rw [hds, List.cons_append] at hread
      have hneg : readNegative (d :: (ds ++ r)) = readNumber true (d :: (ds ++ r)) := by
        unfold readNegative
        split
        · next h => exact absurd (List.cons.inj h).1 hI
        · rfl
      rw [hds, List.cons_append, List.cons_append, readValue]
      simp only [Char.reduceEq, if_false, if_true, hneg, hread]
      rw [show -(n.natAbs : Int) = n by omega]
    · have hread := readNumber_decDigits false n.natAbs hr
      rw [hds, List.cons_append] at hread
      rw [hds, List.cons_append, readValue_digit hd, hread]
      simp only [Bool.false_eq_true, if_false]
      rw [show (n.natAbs : Int) = n by omega]

/-- A dict display whose keys stand in order is the object it writes. -/
theorem dict_of_sorted {fs : Fields} (h : SortedFields fs) : dict fs = .obj fs := by
  have key : ∀ (rest acc : Fields), SortedFields (acc ++ rest) →
      rest.foldl (fun acc f => insertField f.1 f.2 acc) acc = acc ++ rest := by
    intro rest
    induction rest with
    | nil => intro acc _; simp
    | cons f rest ih =>
      intro acc hs
      have hlast : ∀ k ∈ acc.map Prod.fst, k < f.1 := by
        intro k hk
        have hs' : ((acc.map Prod.fst) ++ f.1 :: rest.map Prod.fst).Pairwise (· < ·) := by
          simpa [SortedFields] using hs
        exact (List.pairwise_append.mp hs').2.2 k hk f.1 (by simp)
      rw [List.foldl_cons, insertField_append hlast, ih _ (by simpa using hs)]
      simp
  exact congrArg Json.obj (key fs [] (by simpa using h))

mutual

/-- Reading the text of a plain value gives the value back, and stops where it ends. -/
theorem readValue_print : ∀ (v : Json) (fuel : Nat) (r : List Char), Plain v →
    (print v).length ≤ fuel → EndsNumber r → readValue fuel (print v ++ r) = .ok (v, r)
  | .null, fuel + 1, r, _, _, _ => by simp [print, readValue, readWord]
  | .bool true, fuel + 1, r, _, _, _ => by simp [print, readValue, readWord]
  | .bool false, fuel + 1, r, _, _, _ => by simp [print, readValue, readWord]
  | .int n, fuel + 1, r, _, _, hr => readValue_printInt n fuel hr
  | .str s, fuel + 1, r, _, _, _ => by
    obtain ⟨hp, hs⟩ := readStr_printStr s r
    rw [print, hp, readValue, if_pos rfl, hs]
    simp [Except.map]
  | .arr [], fuel + 1, r, _, _, _ => by simp [print, readValue, skipBlanks, isBlank]
  | .arr (x :: xs), fuel + 1, r, hp, hlen, hr => by
    obtain ⟨c, cs, hhead, hblank, hclose⟩ := print_head hp.1
    obtain ⟨c', cs', hhead', hblank', hends⟩ := printItems_head xs
    simp only [print, List.length_cons, List.length_append] at hlen
    have hends' : EndsNumber (printItems xs ++ r) := by
      rw [hhead']
      exact endsNumber_cons hends
    have hx := readValue_print x fuel (printItems xs ++ r) hp.1 (by omega) hends'
    have hxs := readItems_print xs fuel r hp.2 (by omega)
    have hskip : skipBlanks (printItems xs ++ r) = printItems xs ++ r := by
      rw [hhead', List.cons_append, skipBlanks_cons hblank']
    rw [print, List.cons_append, readValue, if_neg (by decide), if_pos rfl, List.append_assoc,
      hhead, List.cons_append, skipBlanks_cons hblank]
    split
    · next h => exact absurd (List.cons.inj h).1 hclose
    · next h =>
      rw [← List.cons_append, ← hhead, hx]
      simp only [bind, Except.bind, hskip, hxs]
      rfl
  | .obj [], fuel + 1, r, _, _, _ => by simp [print, readValue, skipBlanks, isBlank]
  | .obj ((k, v) :: fs), fuel + 1, r, hp, hlen, hr => by
    simp only [print, printStr, List.length_cons, List.length_append] at hlen
    have hf := readField_print k v fs fuel r hp.2.1 hp.2.2 (by
      simp only [printStr, List.length_cons, List.length_append]
      omega)
    have hopen : skipBlanks (printStr k ++ ':' :: (print v ++ printFields fs) ++ r) =
        printStr k ++ ':' :: (print v ++ printFields fs) ++ r := by
      rw [printStr, List.cons_append, List.cons_append, skipBlanks_cons (by decide)]
    rw [print, List.cons_append, readValue, if_neg (by decide), if_neg (by decide), if_pos rfl,
      hopen]
    split
    · next h => simp [printStr] at h
    · rw [hf]
      simp only [bind, Except.bind, dict_of_sorted hp.1]
      rfl
  | .null, 0, _, _, hlen, _ => by simp [print] at hlen
  | .bool true, 0, _, _, hlen, _ => by simp [print] at hlen
  | .bool false, 0, _, _, hlen, _ => by simp [print] at hlen
  | .int n, 0, _, hp, hlen, _ => by
    obtain ⟨c, cs, hhead, -⟩ := print_head hp
    simp [hhead] at hlen
  | .str _, 0, _, _, hlen, _ => by simp [print, printStr] at hlen
  | .arr xs, 0, _, hp, hlen, _ => by
    obtain ⟨c, cs, hhead, -⟩ := print_head hp
    simp [hhead] at hlen
  | .obj fs, 0, _, hp, hlen, _ => by
    obtain ⟨c, cs, hhead, -⟩ := print_head hp
    simp [hhead] at hlen
  | .float _, _, _, hp, _, _ => absurd hp id

/-- The same for the rest of an array. -/
theorem readItems_print : ∀ (xs : List Json) (fuel : Nat) (r : List Char), PlainItems xs →
    (printItems xs).length ≤ fuel → readItems fuel (printItems xs ++ r) = .ok (xs, r)
  | [], fuel + 1, r, _, _ => by simp [printItems, readItems]
  | x :: xs, fuel + 1, r, hp, hlen => by
    obtain ⟨c, cs, hhead, hblank, -⟩ := print_head hp.1
    obtain ⟨c', cs', hhead', hblank', hends⟩ := printItems_head xs
    simp only [printItems, List.length_cons, List.length_append] at hlen
    have hends' : EndsNumber (printItems xs ++ r) := by
      rw [hhead']
      exact endsNumber_cons hends
    have hx := readValue_print x fuel (printItems xs ++ r) hp.1 (by omega) hends'
    have hxs := readItems_print xs fuel r hp.2 (by omega)
    have hskip : skipBlanks (printItems xs ++ r) = printItems xs ++ r := by
      rw [hhead', List.cons_append, skipBlanks_cons hblank']
    have hskip' : skipBlanks (print x ++ (printItems xs ++ r)) = print x ++ (printItems xs ++ r) := by
      rw [hhead, List.cons_append, skipBlanks_cons hblank]
    rw [printItems, List.cons_append, readItems, if_neg (by decide), if_pos rfl, List.append_assoc,
      hskip', hx]
    simp only [bind, Except.bind, hskip, hxs]
    rfl
  | [], 0, _, _, hlen => by simp [printItems] at hlen
  | _ :: _, 0, _, _, hlen => by simp [printItems] at hlen

/-- The same for a field and all that follow it. -/
theorem readField_print : ∀ (k : String) (v : Json) (fs : Fields) (fuel : Nat) (r : List Char),
    Plain v → PlainFields fs →
    (printStr k ++ ':' :: (print v ++ printFields fs)).length ≤ fuel →
    readField fuel (printStr k ++ ':' :: (print v ++ printFields fs) ++ r) = .ok ((k, v) :: fs, r)
  | k, v, fs, 0, _, _, _, hlen => by simp [printStr] at hlen
  | k, v, fs, fuel + 1, r, hv, hfs, hlen => by
    obtain ⟨c, cs, hhead, hblank, -⟩ := print_head hv
    obtain ⟨c', cs', hhead', hblank', hends⟩ := printFields_head fs
    simp only [printStr, List.length_cons, List.length_append] at hlen
    have hends' : EndsNumber (printFields fs ++ r) := by
      rw [hhead']
      exact endsNumber_cons hends
    have hread := readValue_print v fuel (printFields fs ++ r) hv (by omega) hends'
    have hrest := readFields_print fs fuel r hfs (by omega)
    obtain ⟨hk, hk'⟩ := readStr_printStr k (':' :: (print v ++ (printFields fs ++ r)))
    have hskip : skipBlanks (printFields fs ++ r) = printFields fs ++ r := by
      rw [hhead', List.cons_append, skipBlanks_cons hblank']
    have hskip' : skipBlanks (print v ++ (printFields fs ++ r)) = print v ++ (printFields fs ++ r) := by
      rw [hhead, List.cons_append, skipBlanks_cons hblank]
    rw [List.append_assoc, List.cons_append, List.append_assoc, hk, readField, hk']
    simp only [bind, Except.bind, skipBlanks_cons (c := ':') (by decide), hskip', hread, hskip,
      hrest, String.ofList_toList]
    rfl

/-- The same for the rest of an object. -/
theorem readFields_print : ∀ (fs : Fields) (fuel : Nat) (r : List Char), PlainFields fs →
    (printFields fs).length ≤ fuel → readFields fuel (printFields fs ++ r) = .ok (fs, r)
  | [], fuel + 1, r, _, _ => by simp [printFields, readFields]
  | (k, v) :: fs, fuel + 1, r, hp, hlen => by
    simp only [printFields, List.length_cons] at hlen
    have hf := readField_print k v fs fuel r hp.1 hp.2 (by omega)
    have hopen : skipBlanks (printStr k ++ ':' :: (print v ++ printFields fs) ++ r) =
        printStr k ++ ':' :: (print v ++ printFields fs) ++ r := by
      rw [printStr, List.cons_append, List.cons_append, skipBlanks_cons (by decide)]
    rw [printFields, List.cons_append, readFields, if_neg (by decide), if_pos rfl, hopen, hf]
  | [], 0, _, _, hlen => by simp [printFields] at hlen
  | _ :: _, 0, _, _, hlen => by simp [printFields] at hlen

end

theorem fromUTF8?_toUTF8 (s : String) : String.fromUTF8? s.toUTF8 = some s :=
  dif_pos s.isValidUTF8

theorem loadsText_print {j : Json} (h : Plain j) : loadsText (print j) = .ok j := by
  obtain ⟨c, cs, hhead, hblank, -⟩ := print_head h
  have hread := readValue_print j (2 * (print j).length + 1) [] h (by omega) endsNumber_nil
  have hskip : skipBlanks (print j) = print j := by rw [hhead, skipBlanks_cons hblank]
  rw [List.append_nil] at hread
  simp only [loadsText, hskip, hread, bind, Except.bind]
  rfl

/-- **The round trip.**  A plain value is read back from its canonical bytes. -/
theorem loads_canonicalJson {j : Json} (h : Plain j) : loads (canonicalJson j) = .ok j := by
  obtain ⟨c, cs, hhead, hblank, -⟩ := print_head h
  have hread := readValue_print j (2 * (print j ++ ['\n']).length + 1) ['\n'] h
    (by simp only [List.length_append]; omega) (endsNumber_cons (by decide))
  have hskip : skipBlanks (print j ++ ['\n']) = print j ++ ['\n'] := by
    rw [hhead, List.cons_append, skipBlanks_cons hblank]
  rw [loads, canonicalJson, fromUTF8?_toUTF8]
  simp only [loadsText, String.toList_ofList, hskip, hread, bind, Except.bind]
  rfl

/-- Two plain values with the same bytes are the same value. -/
theorem canonicalJson_injective {j j' : Json} (h : Plain j) (h' : Plain j')
    (heq : canonicalJson j = canonicalJson j') : j = j' := by
  have hj := loads_canonicalJson h
  rw [heq, loads_canonicalJson h'] at hj
  exact (Except.ok.inj hj).symm

/-! ## 5. One line -/

theorem digitChar_printable {d : Nat} (h : d < 16) : 32 ≤ (digitChar d).toNat := by
  revert d
  decide

theorem isDigit_printable {c : Char} (h : c.isDigit = true) : 32 ≤ c.toNat := by
  simp only [Char.isDigit, Bool.and_eq_true, decide_eq_true_eq] at h
  have hlow : (48 : UInt32).toNat ≤ c.val.toNat := UInt32.le_iff_toNat_le.mp h.1
  exact le_trans (by decide) hlow

theorem escapeChar_printable (c : Char) : ∀ x ∈ escapeChar c, 32 ≤ x.toNat := by
  intro x hx
  unfold escapeChar at hx
  split_ifs at hx with h₁ h₂ h₃ h₄ h₅ h₆ h₇ h₈
  all_goals simp only [List.mem_cons, List.not_mem_nil, or_false] at hx
  · rcases hx with rfl | rfl <;> decide
  · rcases hx with rfl | rfl <;> decide
  · rcases hx with rfl | rfl <;> decide
  · rcases hx with rfl | rfl <;> decide
  · rcases hx with rfl | rfl <;> decide
  · rcases hx with rfl | rfl <;> decide
  · rcases hx with rfl | rfl <;> decide
  · rcases hx with rfl | rfl | rfl | rfl | rfl | rfl
    any_goals decide
    · exact digitChar_printable (by omega)
    · exact digitChar_printable (by omega)
  · subst hx
    omega

theorem printStr_printable (s : String) : ∀ c ∈ printStr s, 32 ≤ c.toNat := by
  intro c hc
  simp only [printStr, List.mem_cons, List.mem_append, List.mem_flatMap, List.not_mem_nil,
    or_false] at hc
  rcases hc with rfl | ⟨x, -, hx⟩ | rfl
  · decide
  · exact escapeChar_printable x c hx
  · decide

theorem printInt_printable (n : Int) : ∀ c ∈ printInt n, 32 ≤ c.toNat := by
  intro c hc
  unfold printInt at hc
  split at hc
  · rcases List.mem_cons.mp hc with rfl | hc
    · decide
    · exact isDigit_printable (decDigits_isDigit _ c hc)
  · exact isDigit_printable (decDigits_isDigit _ c hc)

theorem printField_printable (k : String) {v : Json} {fs : Fields}
    (hv : ∀ c ∈ print v, 32 ≤ c.toNat) (hfs : ∀ c ∈ printFields fs, 32 ≤ c.toNat) :
    ∀ c ∈ printStr k ++ ':' :: (print v ++ printFields fs), 32 ≤ c.toNat := by
  intro c hc
  rcases List.mem_append.mp hc with hc | hc
  · exact printStr_printable k c hc
  rcases List.mem_cons.mp hc with rfl | hc
  · decide
  rcases List.mem_append.mp hc with hc | hc
  · exact hv c hc
  · exact hfs c hc

theorem printable_of_all {l : List Char} (h : (l.all fun c => decide (32 ≤ c.toNat)) = true) :
    ∀ c ∈ l, 32 ≤ c.toNat := by simpa using h

mutual

/-- A plain value is written without control characters. -/
theorem print_printable : ∀ v : Json, Plain v → ∀ c ∈ print v, 32 ≤ c.toNat
  | .null, _, c, hc => printable_of_all (by decide) c hc
  | .bool true, _, c, hc => printable_of_all (by decide) c hc
  | .bool false, _, c, hc => printable_of_all (by decide) c hc
  | .int n, _, c, hc => printInt_printable n c hc
  | .str s, _, c, hc => printStr_printable s c hc
  | .arr [], _, c, hc => printable_of_all (by decide) c hc
  | .arr (x :: xs), hp, c, hc => by
    rcases List.mem_cons.mp hc with rfl | hc
    · decide
    rcases List.mem_append.mp hc with hc | hc
    · exact print_printable x hp.1 c hc
    · exact printItems_printable xs hp.2 c hc
  | .obj [], _, c, hc => printable_of_all (by decide) c hc
  | .obj ((k, v) :: fs), hp, c, hc => by
    rcases List.mem_cons.mp hc with rfl | hc
    · decide
    exact printField_printable k (print_printable v hp.2.1) (printFields_printable fs hp.2.2) c hc

theorem printItems_printable : ∀ xs : List Json, PlainItems xs → ∀ c ∈ printItems xs, 32 ≤ c.toNat
  | [], _, c, hc => printable_of_all (by decide) c hc
  | x :: xs, hp, c, hc => by
    rcases List.mem_cons.mp hc with rfl | hc
    · decide
    rcases List.mem_append.mp hc with hc | hc
    · exact print_printable x hp.1 c hc
    · exact printItems_printable xs hp.2 c hc

theorem printFields_printable : ∀ fs : Fields, PlainFields fs → ∀ c ∈ printFields fs, 32 ≤ c.toNat
  | [], _, c, hc => printable_of_all (by decide) c hc
  | (k, v) :: fs, hp, c, hc => by
    rcases List.mem_cons.mp hc with rfl | hc
    · decide
    exact printField_printable k (print_printable v hp.1) (printFields_printable fs hp.2) c hc

end

/-- The canonical text of a plain value is one line. -/
theorem newline_not_mem_print {v : Json} (h : Plain v) : '\n' ∉ print v := fun hc =>
  absurd (print_printable v h '\n' hc) (by decide)

end Json

end ProductPdfQr
