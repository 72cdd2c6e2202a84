/-
# Digests

SHA-256 is a function from byte strings to texts; nothing else is assumed of it here.  Where a
result rests on the digests being 64 hexadecimal digits, or on two byte strings with one
digest being equal, it says so.
-/
import Mathlib.Data.Set.Function
import ProductPdfQr.Text

namespace ProductPdfQr

/-- `hashlib.sha256(payload).hexdigest()`. -/
class Sha256 where
  hexdigest : Bytes → String

export Sha256 (hexdigest)

/-- Digests have the shape the code checks. -/
def Sha256.HexDigests [Sha256] : Prop := ∀ payload : Bytes, Text.isSha256 (hexdigest payload) = true

/-- Two byte strings of `S` with one digest are equal. -/
def Sha256.CollisionFreeOn [Sha256] (S : Set Bytes) : Prop := Set.InjOn hexdigest S

/-- `digest_json`: the identity of a value is the digest of its canonical bytes. -/
def digestJson [Sha256] (value : Json) : String := hexdigest (Json.canonicalJson value)

/-- The text of a digest sidecar. -/
def sealText (digest : String) : Bytes := (digest ++ "\n").toUTF8

theorem decodeAscii?_sealText {digest : String} (h : Text.isSha256 digest = true) :
    Text.decodeAscii? (sealText digest) = some (digest ++ "\n") := by
  have hascii : ∀ c ∈ digest.toList, c.toNat < 128 := fun c hc =>
    (Text.isHexDigit_ascii ((Text.isHex_iff.mp h).2 c hc)).2
  rw [Text.decodeAscii?, sealText, Json.fromUTF8?_toUTF8]
  exact Option.filter_some_pos (by simpa using hascii)

/-- A hash with one digest. -/
@[reducible] def zeroSha256 : Sha256 := ⟨fun _ => String.ofList (List.replicate 64 '0')⟩

theorem zeroSha256_hexDigests : @Sha256.HexDigests zeroSha256 := fun _ =>
  (by decide : Text.isSha256 (String.ofList (List.replicate 64 '0')) = true)

end ProductPdfQr
