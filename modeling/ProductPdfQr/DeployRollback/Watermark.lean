/-
# The data watermark

`validate_watermark`: what a projection of the production data must look like before its
digest stands for that data.
-/
import ProductPdfQr.DeployRollback.World

namespace ProductPdfQr.DeployRollback

open Json

/-- The relations a watermark projects. -/
def requiredRelations : List String :=
  ["admins", "products", "pdf_files", "pdf_versions", "admin_sessions", "audit_events"]

/-- `isinstance(value, str) and SHA256.fullmatch(value)`. -/
def isDigestValue : Json → Bool
  | .str s => Text.isSha256 s
  | _ => false

/-- The path of a historical file: relative, and never upwards. -/
def isManifestPath : Json → Bool
  | .str path =>
    path ≠ "" && !Text.startsWith path "/" && !Text.startsWith path "../" &&
      !Text.hasParentPart path
  | _ => false

/-- `isinstance(value, int) and not isinstance(value, bool) and value >= 0`. -/
def isSize : Json → Bool
  | .int n => 0 ≤ n
  | _ => false

/-- One item of the historical file manifest. -/
def validFileItem (item : Json) : Bool :=
  item.hasKeys ["path", "size", "sha256"] && isManifestPath (item.get "path") &&
    isSize (item.get "size") && isDigestValue (item.get "sha256")

variable [Sha256]

/-- `validate_watermark`. -/
def validateWatermark (watermark : Json) : Except Exn String := do
  check (watermark.hasKeys ["relations", "files", "audit_projection"])
    "full data watermark schema mismatch"
  let relations := watermark.get "relations"
  check (relations.hasKeys requiredRelations && relations.fields.all fun f => isDigestValue f.2)
    "all stable relation projections are required"
  let files := watermark.get "files"
  check files.isList "complete historical file manifest is required"
  check (files.items.all validFileItem) "historical file manifest item is invalid"
  check (Text.strictlySorted (files.items.filterMap fun item => (item.get "path").str?))
    "historical file manifest must be complete and canonical"
  check (isDigestValue (watermark.get "audit_projection")) "audit projection digest is required"
  return digestJson watermark

/-- A watermark is validated to its own digest. -/
theorem validateWatermark_ok {watermark : Json} {digest : String}
    (h : validateWatermark watermark = .ok digest) : digest = digestJson watermark := by
  simp only [validateWatermark, bind, Except.bind] at h
  repeat' split at h
  all_goals simp_all [pure, Except.pure]

end ProductPdfQr.DeployRollback
