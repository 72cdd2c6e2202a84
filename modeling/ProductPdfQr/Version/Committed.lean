/-
# Every committed state

The service starts without a product, a version or a file.  Whatever calls then run at once, and
wherever each of them fails or is cancelled, the committed rows are those of a linear history:
this is read off the contract that each call keeps.  A call that is cancelled after its commit is
cancelled too, and has changed the rows.
-/
import ProductPdfQr.Version.Linear

namespace ProductPdfQr.Version

open Database

/-! ## 1. Reachable states -/

section

variable [Sha256] {received : String → Bytes}

abbrev VersionSystem (received : String → Bytes) :=
  System (X := Ask received) Row Ask.Answer (Outer received) Failure VersionEvent

/-- Any number of calls, one step after another. -/
abbrev Interleaves : VersionSystem received → VersionSystem received → Prop :=
  System.Reaches (outer received) (Set.range VersionCall.body)

/-- The service as it starts, with its actors and what lies in the temporary directory. -/
def initialShared (actors : Nat → Bool) (temporary : String → Bool) : VersionShared received where
  rows
    | .actor id => if actors id then some () else none
    | _ => none
  ext := ⟨fun _ => 0, fun _ => none, temporary, []⟩
  log := []

/-- A state that some interleaving of calls leads to. -/
structure Reachable (received : String → Bytes) where
  actors : Nat → Bool
  temporary : String → Bool
  system : VersionSystem received
  reached : Interleaves (System.initial (initialShared actors temporary)) system

theorem kept_initial (actors : Nat → Bool) (temporary : String → Bool) :
    Kept (initialShared actors temporary : VersionShared received) where
  named := ⟨by rintro _ _ ⟨⟩, by rintro _ ⟨⟩, by rintro _ ⟨⟩, by rintro _ ⟨⟩⟩
  current := by rintro _ _ ⟨⟩
  product := fun _ h => absurd rfl h
  version := by rintro _ _ ⟨⟩
  upload := by rintro _ _ _ _ ⟨⟩
  pointer := fun _ => ⟨fun _ => rfl, by rintro _ ⟨⟩⟩
  file := by rintro _ _ ⟨⟩
  fresh := by
    intro before version content after h
    have := congrArg List.length h
    simp [initialShared] at this

theorem Reachable.kept (c : Reachable received) : Kept c.system.shared := by
  refine invariant_of_safe contract_fits ?_ (kept_initial c.actors c.temporary) c.reached
  rintro _ ⟨call, rfl⟩ s hi
  exact safe_body hi call

/-! ## 2. The history -/

/-- The product has this version, under this number. -/
def IsVersion (s : VersionShared received) (p v no : Nat) : Prop :=
  ∃ row : VersionRow, s.rows (.version v) = some row ∧ row.productId = p ∧ row.versionNo = no

/-- What the committed rows of a linear history look like. -/
structure LinearHistory (s : VersionShared received) : Prop where
  numbered : ∀ p, ∃ n, ∀ no, (∃ v, IsVersion s p v no) ↔ 1 ≤ no ∧ no ≤ n
  once : ∀ p v v' no, IsVersion s p v no → IsVersion s p v' no → v = v'
  pointer : ∀ p (product : ProductRow), s.rows (.product p) = some product →
    (product.currentVersionId = none ↔ ∀ v no, ¬IsVersion s p v no) ∧
      ∀ v, product.currentVersionId = some v → ∃ no, IsVersion s p v no
  owned : ∀ p v no, IsVersion s p v no → (s.rows (.product p)).isSome = true
  filed : ∀ v (row : VersionRow), s.rows (.version v) = some row →
    ∃ sha256 file, s.rows (.file sha256) = some file ∧ FileRow.id file = row.pdfFileId
  stored : ∀ sha256 (file : FileRow), s.rows (.file sha256) = some file →
    ∃ content, s.ext.files file.storagePath = some content ∧ hexdigest content = sha256
  recorded : ∀ p v no, IsVersion s p v no ↔
    1 ≤ no ∧ ∃ u content, (uploadsOf p s.log)[no - 1]? = some (u, content) ∧ u.id = v
  current : ∀ p (product : ProductRow), s.rows (.product p) = some product →
    product.currentVersionId = currentOf p s.log
  fresh : Fresh s.log

namespace Kept

variable {s : VersionShared received} (h : Kept s)

include h

theorem recorded {p v no : Nat} : IsVersion s p v no ↔
    1 ≤ no ∧ ∃ u content, (uploadsOf p s.log)[no - 1]? = some (u, content) ∧ u.id = v := by
  constructor
  · rintro ⟨row, hrow, rfl, rfl⟩
    exact h.version v row hrow
  · rintro ⟨hpos, u, content, hu, rfl⟩
    obtain ⟨row, -, hrow, hp, hno, -⟩ := h.upload p _ u content hu
    exact ⟨row, hrow, hp, by omega⟩

/-- The upload of an index is a version. -/
theorem isVersion {p i : Nat} {u : PDFVersion} {content : Bytes}
    (hu : (uploadsOf p s.log)[i]? = some (u, content)) : IsVersion s p u.id (i + 1) :=
  h.recorded.mpr ⟨Nat.le_add_left 1 i, u, content, hu, rfl⟩

theorem numbered (p : Nat) : ∃ n, ∀ no, (∃ v, IsVersion s p v no) ↔ 1 ≤ no ∧ no ≤ n := by
  refine ⟨(uploadsOf p s.log).length, fun no => ⟨?_, ?_⟩⟩
  · rintro ⟨v, hv⟩
    obtain ⟨hpos, u, content, hu, -⟩ := h.recorded.mp hv
    obtain ⟨hlt, -⟩ := List.getElem?_eq_some_iff.mp hu
    omega
  · rintro ⟨hpos, hle⟩
    have hu := List.getElem?_eq_getElem (l := uploadsOf p s.log) (i := no - 1) (by omega)
    refine ⟨_, h.recorded.mpr ⟨hpos, _, _, hu, rfl⟩⟩

theorem once {p v v' no : Nat} (hv : IsVersion s p v no) (hv' : IsVersion s p v' no) : v = v' := by
  obtain ⟨-, u, content, hu, rfl⟩ := h.recorded.mp hv
  obtain ⟨-, u', content', hu', rfl⟩ := h.recorded.mp hv'
  rw [hu] at hu'
  obtain ⟨rfl, -⟩ : u = u' ∧ content = content' := by simpa using hu'
  rfl

theorem pointed {p : Nat} {product : ProductRow} (hrow : s.rows (.product p) = some product) :
    (product.currentVersionId = none ↔ ∀ v no, ¬IsVersion s p v no) ∧
      ∀ v, product.currentVersionId = some v → ∃ no, IsVersion s p v no := by
  obtain ⟨hnone, hsome⟩ := h.pointer p
  rw [h.current p product hrow]
  have hown : ∀ v, currentOf p s.log = some v → ∃ no, IsVersion s p v no := by
    intro v hv
    obtain ⟨u, content, hmem, rfl⟩ := hsome v hv
    obtain ⟨i, hu⟩ := List.getElem?_of_mem hmem
    exact ⟨i + 1, h.isVersion hu⟩
  refine ⟨⟨fun heq v no hv => ?_, fun hno => ?_⟩, hown⟩
  · obtain ⟨-, u, content, hu, -⟩ := h.recorded.mp hv
    rw [hnone heq] at hu
    cases hu
  · cases hpointer : currentOf p s.log with
    | none => rfl
    | some v =>
      obtain ⟨no, hv⟩ := hown v hpointer
      exact absurd hv (hno v no)

theorem owned {p v no : Nat} (hv : IsVersion s p v no) : (s.rows (.product p)).isSome = true := by
  obtain ⟨-, u, content, hu, -⟩ := h.recorded.mp hv
  exact h.product p fun hnil => by
    rw [hnil] at hu
    cases hu

theorem filed {v : Nat} {row : VersionRow} (hrow : s.rows (.version v) = some row) :
    ∃ sha256 file, s.rows (.file sha256) = some file ∧ FileRow.id file = row.pdfFileId := by
  obtain ⟨-, u, content, hu, rfl⟩ := h.version v row hrow
  obtain ⟨row', file, hrow', -, -, hfile, hpoints, -⟩ := h.upload _ _ u content hu
  obtain rfl : row = row' := Option.some.inj (hrow.symm.trans hrow')
  exact ⟨_, file, hfile, hpoints⟩

theorem stored {sha256 : String} {file : FileRow} (hrow : s.rows (.file sha256) = some file) :
    ∃ content, s.ext.files file.storagePath = some content ∧ hexdigest content = sha256 := by
  obtain ⟨hpath, hhex, hexists, -⟩ := h.file sha256 file hrow
  obtain ⟨content, hcontent⟩ := Option.isSome_iff_exists.mp hexists
  obtain ⟨hname, hhex'⟩ := h.named.files _ content hcontent
  exact ⟨content, hcontent, relativePathForHash_injective hhex' hhex (hname.symm.trans hpath)⟩

theorem linear : LinearHistory s where
  numbered := h.numbered
  once := fun _ _ _ _ => h.once
  pointer := fun _ _ => h.pointed
  owned := fun _ _ _ => h.owned
  filed := fun _ _ => h.filed
  stored := fun _ _ => h.stored
  recorded := fun _ _ _ => h.recorded
  current := h.current
  fresh := h.fresh

end Kept

/-- The rows are those of a linear history; each of its entries is the commit of one call, that
did not fail; and as long as no call commits the rows stay. -/
structure Committed (c : VersionSystem received) : Prop where
  linear : LinearHistory c.shared
  accounted : c.Accounted
  unchanged : ∀ c', Interleaves c c' → c'.shared.log.length = c.shared.log.length →
    c'.shared.rows = c.shared.rows

end

/-! ## 3. Cancelled after the commit -/

/-- The digest plays no part when nothing is uploaded. -/
@[reducible] def constantSha256 : Sha256 := ⟨fun _ => ""⟩

attribute [local instance] constantSha256

abbrev sampleCall : VersionCall (fun _ => ByteArray.empty) := .create "A" "N" "T" 0

abbrev sampleProduct : ProductRow := ⟨"A", "N", "T", .active, none, 0, 0⟩

/-- The calls that it makes when every key is free. -/
theorem sampleCall_body : ∃ k₁ k₂ k₃ k₄, sampleCall.body = .call (.outside (.nextval .products)) k₁ ∧
    k₁ (1 : Nat) = .call (.insert (.product 1) sampleProduct) k₂ ∧
    k₂ true = .call (.insert (.productCode "A") (1 : Nat)) k₃ ∧
    k₃ true = .call (.insert (.productToken "T") (1 : Nat)) k₄ ∧
    k₄ true = .ret (.created 1) := by
  have hcode : normalizeProductCode "A" = .ok "A" := by decide
  have hname : normalizeProductName "N" = .ok "N" := by decide
  rw [VersionCall.body, createProduct, hcode, hname]
  exact ⟨_, _, _, _, rfl, rfl, rfl, rfl, rfl⟩

abbrev SampleShared := VersionShared fun _ => ByteArray.empty

abbrev SampleSession :=
  Session Row (X := Ask fun _ => ByteArray.empty) Ask.Answer Failure VersionEvent

/-- A system of one session. -/
def alone (s : SampleShared) (x : Option SampleSession) :
    VersionSystem (fun _ => ByteArray.empty) := ⟨s, Function.update (fun _ => none) 0 x, []⟩

theorem alone_begin {s : SampleShared} :
    Interleaves (System.initial s) (alone s (some (.running sampleCall.body .empty))) :=
  .single (.begin (t := 0) rfl ⟨sampleCall, rfl⟩)

theorem alone_advance {s : SampleShared} {o : Op Row (Ask fun _ => ByteArray.empty)}
    {k : o.Answer Ask.Answer → VersionTx (fun _ => ByteArray.empty) VersionEvent} {l : Local Row}
    (a : o.Answer Ask.Answer) {l' : Local Row} {e : Outer fun _ => ByteArray.empty}
    (hdoes : o.Does (outer _) s l a l' e) :
    Interleaves (alone s (some (.running (.call o k) l)))
      (alone (s.move e) (some (.running (k a) l'))) := by
  have hstep : System.Step _ (Set.range VersionCall.body)
      (alone s (some (.running (.call o k) l))) _ :=
    .advance (t := 0) rfl hdoes fun t' body l'' ht hrun => by
      simp [alone, Function.update_of_ne ht] at hrun
  exact .single (by simpa [alone, System.become] using hstep)

theorem alone_commit {s : SampleShared} {a : VersionEvent} {l : Local Row} :
    Interleaves (alone s (some (.running (.ret a) l)))
      (alone (s.commit l a) (some (.committed a))) := by
  have hstep : System.Step (outer fun _ => ByteArray.empty) (Set.range VersionCall.body)
      (alone s (some (.running (.ret a) l))) _ := .commit (t := 0) rfl
  exact .single (by simpa [alone, System.become] using hstep)

end ProductPdfQr.Version
