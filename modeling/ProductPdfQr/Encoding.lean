/-
# Bytes as text

Base64 with the standard alphabet, and UTF-8 read with whatever is not UTF-8 left out.
-/
import ProductPdfQr.Json.Codec

namespace ProductPdfQr.Encoding

/-! ## 1. Base64 -/

/-- The character of six bits. -/
def sextetChar (n : Nat) : Char :=
  if n < 26 then Char.ofNat (65 + n)
  else if n < 52 then Char.ofNat (71 + n)
  else if n < 62 then Char.ofNat (n - 4)
  else if n = 62 then '+'
  else '/'

/-- The six bits of a character. -/
def sextet? (c : Char) : Option Nat :=
  if 'A' ≤ c ∧ c ≤ 'Z' then some (c.toNat - 65)
  else if 'a' ≤ c ∧ c ≤ 'z' then some (c.toNat - 71)
  else if '0' ≤ c ∧ c ≤ '9' then some (c.toNat + 4)
  else if c = '+' then some 62
  else if c = '/' then some 63
  else none

/-- Three bytes make four characters; the last ones are padded. -/
def encodeGroups : List UInt8 → List Char
  | a :: b :: c :: rest =>
    sextetChar (a.toNat / 4) :: sextetChar (a.toNat % 4 * 16 + b.toNat / 16) ::
      sextetChar (b.toNat % 16 * 4 + c.toNat / 64) :: sextetChar (c.toNat % 64) :: encodeGroups rest
  | [a, b] =>
    [sextetChar (a.toNat / 4), sextetChar (a.toNat % 4 * 16 + b.toNat / 16),
      sextetChar (b.toNat % 16 * 4), '=']
  | [a] => [sextetChar (a.toNat / 4), sextetChar (a.toNat % 4 * 16), '=', '=']
  | [] => []

/-- The bytes of one group without padding. -/
def decodeGroup? (a b c d : Char) : Option (List UInt8) := do
  let w ← sextet? a
  let x ← sextet? b
  let y ← sextet? c
  let z ← sextet? d
  return [UInt8.ofNat (w * 4 + x / 16), UInt8.ofNat (x % 16 * 16 + y / 4),
    UInt8.ofNat (y % 4 * 64 + z)]

/-- Padding stands at the very end.  The bits it cuts off are not looked at. -/
def decodeGroups? : List Char → Option (List UInt8)
  | [] => some []
  | a :: b :: c :: d :: rest => do
    if rest = [] ∧ d = '=' then
      if c = '=' then return (← decodeGroup? a b 'A' 'A').take 1
      else return (← decodeGroup? a b c 'A').take 2
    else return (← decodeGroup? a b c d) ++ (← decodeGroups? rest)
  | _ => none

/-- `base64.b64encode(payload).decode()`. -/
def b64encode (payload : Bytes) : String := String.ofList (encodeGroups payload.data.toList)

/-- `base64.b64decode(text, validate=True)`. -/
def b64decode? (text : String) : Option Bytes :=
  (decodeGroups? text.toList).map fun bytes => ⟨bytes.toArray⟩

theorem sextet?_sextetChar {n : Nat} (h : n < 64) : sextet? (sextetChar n) = some n := by
  have hall : ∀ m : Fin 64, sextet? (sextetChar m) = some m.val := by decide
  exact hall ⟨n, h⟩

theorem sextetChar_ne {n : Nat} (h : n < 64) : sextetChar n ≠ '=' := by
  have hall : ∀ m : Fin 64, sextetChar m ≠ '=' := by decide
  exact hall ⟨n, h⟩

/-- The three bytes that four sextets were cut from. -/
theorem decodeGroup?_sextets {w x y z : Nat} (hw : w < 64) (hx : x < 64) (hy : y < 64)
    (hz : z < 64) : decodeGroup? (sextetChar w) (sextetChar x) (sextetChar y) (sextetChar z) =
      some [UInt8.ofNat (w * 4 + x / 16), UInt8.ofNat (x % 16 * 16 + y / 4),
        UInt8.ofNat (y % 4 * 64 + z)] := by
  simp only [decodeGroup?, sextet?_sextetChar hw, sextet?_sextetChar hx, sextet?_sextetChar hy,
    sextet?_sextetChar hz]
  rfl

theorem ofNat_eq {a : UInt8} {n : Nat} (h : n = a.toNat) : UInt8.ofNat n = a := by
  rw [h, UInt8.ofNat_toNat]

theorem decodeGroups?_encodeGroups (payload : List UInt8) :
    decodeGroups? (encodeGroups payload) = some payload := by
  fun_induction encodeGroups payload with
  | case1 a b c rest ih =>
    have ha := a.toNat_lt
    have hb := b.toNat_lt
    have hc := c.toNat_lt
    rw [decodeGroups?, if_neg fun h => sextetChar_ne (by omega) h.2,
      decodeGroup?_sextets (by omega) (by omega) (by omega) (by omega), ih,
      ofNat_eq (a := a) (by omega), ofNat_eq (a := b) (by omega), ofNat_eq (a := c) (by omega)]
    rfl
  | case2 a b =>
    have ha := a.toNat_lt
    have hb := b.toNat_lt
    rw [decodeGroups?, if_pos ⟨rfl, rfl⟩, if_neg (sextetChar_ne (by omega)),
      show ('A' : Char) = sextetChar 0 from rfl,
      decodeGroup?_sextets (by omega) (by omega) (by omega) (by omega),
      ofNat_eq (a := a) (by omega), ofNat_eq (a := b) (by omega)]
    rfl
  | case3 a =>
    have ha := a.toNat_lt
    rw [decodeGroups?, if_pos ⟨rfl, rfl⟩, if_pos rfl, show ('A' : Char) = sextetChar 0 from rfl,
      decodeGroup?_sextets (by omega) (by omega) (by omega) (by omega),
      ofNat_eq (a := a) (by omega)]
    rfl
  | case4 => rfl

theorem b64decode?_b64encode (payload : Bytes) : b64decode? (b64encode payload) = some payload := by
  rw [b64decode?, b64encode, String.toList_ofList, decodeGroups?_encodeGroups]
  rfl

/-! ## 2. UTF-8 with its errors ignored -/

/-- A continuation byte between two bounds. -/
def isTail (low high b : UInt8) : Bool := low ≤ b && b ≤ high

/-- What the byte after a leading byte may be: neither too long a spelling, nor half a surrogate
pair, nor beyond the last character. -/
def isSecond (lead b : UInt8) : Bool :=
  if lead = 0xE0 then isTail 0xA0 0xBF b
  else if lead = 0xED then isTail 0x80 0x9F b
  else if lead = 0xF0 then isTail 0x90 0xBF b
  else if lead = 0xF4 then isTail 0x80 0x8F b
  else isTail 0x80 0xBF b

/-- The six bits of a continuation byte. -/
def tailBits (b : UInt8) : Nat := b.toNat % 64

/-- `payload.decode("utf-8", errors="ignore")`: of a sequence that breaks off, the part that was
right so far is left out. -/
def decodeIgnoring : List UInt8 → List Char
  | [] => []
  | a :: rest =>
    if a < 0x80 then Char.ofNat a.toNat :: decodeIgnoring rest
    else if 0xC2 ≤ a ∧ a < 0xF5 then
      match rest with
      | [] => []
      | b :: rest =>
        if isSecond a b then
          if a < 0xE0 then Char.ofNat (a.toNat % 32 * 64 + tailBits b) :: decodeIgnoring rest
          else
            match rest with
            | [] => []
            | c :: rest =>
              if isTail 0x80 0xBF c then
                if a < 0xF0 then
                  Char.ofNat ((a.toNat % 16 * 64 + tailBits b) * 64 + tailBits c) ::
                    decodeIgnoring rest
                else
                  match rest with
                  | [] => []
                  | d :: rest =>
                    if isTail 0x80 0xBF d then
                      Char.ofNat (((a.toNat % 8 * 64 + tailBits b) * 64 + tailBits c) * 64 +
                        tailBits d) :: decodeIgnoring rest
                    else decodeIgnoring (d :: rest)
              else decodeIgnoring (c :: rest)
        else decodeIgnoring (b :: rest)
    else decodeIgnoring rest

end ProductPdfQr.Encoding
