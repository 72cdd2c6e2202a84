/-
# The committed history of the versions

The rows of the products and of the versions are those that the committed calls, in their
order, describe: the versions of a product are its uploads, numbered as they come, and its
pointer is where the latest upload or restore put it.  Whoever holds the lock of a product
knows that its part of the history stands still, and files and their rows only ever grow.
-/
import ProductPdfQr.Version.Service

namespace ProductPdfQr.Version

open Database

variable [Sha256] {received : String → Bytes}

/-! ## 1. The log -/

/-- The committed uploads of a product, in their order. -/
def uploadsOf (p : Nat) (log : List VersionEvent) : List (PDFVersion × Bytes) :=
  log.filterMap fun
    | .uploaded version content => if version.productId = p then some (version, content) else none
    | _ => none

/-- Where a call leaves the pointer of a product. -/
def pointerAfter (p : Nat) (pointer : Option Nat) : VersionEvent → Option Nat
  | .uploaded version _ => if version.productId = p then some version.id else pointer
  | .restored restored => if restored.productId = p then some restored.versionId else pointer
  | _ => pointer

/-- The pointer of a product after the committed calls. -/
def currentOf (p : Nat) (log : List VersionEvent) : Option Nat :=
  log.foldl (pointerAfter p) none

omit [Sha256] in
@[simp] theorem currentOf_snoc {p : Nat} {log : List VersionEvent} {e : VersionEvent} :
    currentOf p (log ++ [e]) = pointerAfter p (currentOf p log) e := by
  simp [currentOf]

omit [Sha256] in
theorem uploadsOf_snoc {p : Nat} {log : List VersionEvent} {e : VersionEvent} :
    uploadsOf p (log ++ [e]) = uploadsOf p log ++ uploadsOf p [e] := by
  simp [uploadsOf]

/-- The content was not the current one of the product. -/
def NotCurrent (p : Nat) (content : Bytes) (log : List VersionEvent) : Prop :=
  ∀ version content', currentOf p log = some version.id →
    (version, content') ∈ uploadsOf p log → content' ≠ content

/-- No upload of the log had the content that was current. -/
def Fresh (log : List VersionEvent) : Prop :=
  ∀ before version content after, log = before ++ .uploaded version content :: after →
    NotCurrent version.productId content before

omit [Sha256] in
theorem Fresh.snoc {log : List VersionEvent} {e : VersionEvent} (h : Fresh log)
    (he : ∀ version content, e = .uploaded version content →
      NotCurrent version.productId content log) : Fresh (log ++ [e]) := by
  intro before version content after hlog
  rcases List.eq_nil_or_concat after with rfl | ⟨after', last, rfl⟩
  · obtain ⟨rfl, hlast⟩ := List.append_inj' hlog rfl
    exact he version content (by simpa using hlast)
  · rw [List.concat_eq_append, ← List.cons_append, ← List.append_assoc] at hlog
    obtain ⟨hfront, -⟩ := List.append_inj' hlog rfl
    exact h before version content after' hfront

/-! ## 2. The contract -/

abbrev VersionShared (received : String → Bytes) := Shared Row (Outer received) VersionEvent

/-- What the committed rows, the log and the storage have to do with each other. -/
structure Kept (s : VersionShared received) : Prop where
  named : s.ext.Named
  current : ∀ p (row : ProductRow), s.rows (.product p) = some row →
    row.currentVersionId = currentOf p s.log
  product : ∀ p, uploadsOf p s.log ≠ [] → (s.rows (.product p)).isSome = true
  version : ∀ v (row : VersionRow), s.rows (.version v) = some row → 1 ≤ row.versionNo ∧
    ∃ u content, (uploadsOf row.productId s.log)[row.versionNo - 1]? = some (u, content) ∧ u.id = v
  upload : ∀ p (i : Nat) u content, (uploadsOf p s.log)[i]? = some (u, content) →
    ∃ (row : VersionRow) (file : FileRow), s.rows (.version u.id) = some row ∧
      row.productId = p ∧ row.versionNo = i + 1 ∧
      s.rows (.file (hexdigest content)) = some file ∧ file.id = row.pdfFileId ∧
      file.sizeBytes = content.size
  pointer : ∀ p, (currentOf p s.log = none → uploadsOf p s.log = []) ∧
    ∀ v, currentOf p s.log = some v → ∃ u content, (u, content) ∈ uploadsOf p s.log ∧ u.id = v
  file : ∀ sha256 (file : FileRow), s.rows (.file sha256) = some file →
    file.storagePath = relativePathForHash sha256 ∧ Text.isSha256 sha256 = true ∧
      (s.ext.files file.storagePath).isSome = true ∧ s.rows (.fileId file.id) = some sha256
  fresh : Fresh s.log

/-- Two states with the same part of the history of a product. -/
def SamePart (p : Nat) (s s' : VersionShared received) : Prop :=
  uploadsOf p s'.log = uploadsOf p s.log ∧ currentOf p s'.log = currentOf p s.log

/-- The rows of files stay. -/
def FilesStay (s s' : VersionShared received) : Prop :=
  ∀ sha256 (file : FileRow), s.rows (.file sha256) = some file → s'.rows (.file sha256) = some file

def contract (received : String → Bytes) : Contract Row (Outer received) VersionEvent where
  rely H s s' := (∀ k ∈ H, s'.rows k = s.rows k) ∧ (∀ p, Key.product p ∈ H → SamePart p s s') ∧
    FilesStay s s' ∧ s.ext.Grows s'.ext
  guarantee H s s' := (∀ k, k ∉ H → s'.rows k = s.rows k) ∧
    (∀ p, Key.product p ∉ H → SamePart p s s') ∧ FilesStay s s' ∧ s.ext.Grows s'.ext ∧ Kept s'
  invariant := Kept

variable {s s' : VersionShared received} {l : Local Row} {e : Outer received}

/-- The storage may move by itself. -/
theorem Kept.move (h : Kept s) (hnamed : e.Named) (hgrows : s.ext.Grows e) : Kept (s.move e) where
  named := hnamed
  current := h.current
  product := h.product
  version := h.version
  upload := h.upload
  pointer := h.pointer
  file := by
    intro sha256 file hrow
    obtain ⟨hpath, hhex, hfile, hid⟩ := h.file sha256 file hrow
    exact ⟨hpath, hhex, hgrows.files _ hfile, hid⟩
  fresh := h.fresh

theorem contract_fits : (contract received).Fits (outer received) where
  refl := fun _ s => ⟨fun _ _ => rfl, fun _ _ => ⟨rfl, rfl⟩, fun _ _ h => h, .refl _⟩
  trans := by
    rintro H s s' s'' ⟨hrows, hpart, hfiles, hgrows⟩ ⟨hrows', hpart', hfiles', hgrows'⟩
    refine ⟨fun k hk => (hrows' k hk).trans (hrows k hk), fun p hp => ?_,
      fun sha256 file h => hfiles' _ _ (hfiles _ _ h), hgrows.trans hgrows'⟩
    exact ⟨(hpart' p hp).1.trans (hpart p hp).1, (hpart' p hp).2.trans (hpart p hp).2⟩
  interfere := by
    rintro H H' s s' hapart ⟨hrows, hpart, hfiles, hgrows, -⟩
    have hout : ∀ k ∈ H, k ∉ H' := fun k hk hk' => Set.disjoint_left.mp hapart hk hk'
    exact ⟨fun k hk => hrows k (hout k hk), fun p hp => hpart p (hout _ hp), hfiles, hgrows⟩
  keeps := fun _ _ _ _ hg => hg.2.2.2.2
  idle := fun _ s hi => ⟨fun _ _ => rfl, fun _ _ => ⟨rfl, rfl⟩, fun _ _ h => h, .refl _, hi⟩
  drift := by
    intro H s e hdrift hi
    have hgrows := Outer.grows_of_drift hdrift
    exact ⟨⟨fun _ _ => rfl, fun _ _ => ⟨rfl, rfl⟩, fun _ _ h => h, hgrows⟩,
      Kept.move hi (hi.named.drift hdrift) hgrows⟩

theorem rely_mono {H H' : Set Key} (hsub : H ⊆ H') (hr : (contract received).rely H' s s') :
    (contract received).rely H s s' :=
  ⟨fun k hk => hr.1 k (hsub hk), fun p hp => hr.2.1 p (hsub hp), hr.2.2⟩

/-- A call of the outside is guaranteed, whatever it is. -/
theorem guarantee_of_call {H : Set Key} {x : Ask received} {a : x.Answer} (hi : Kept s)
    (hcall : (outer received).call x s.ext a e) : (contract received).guarantee H s (s.move e) :=
  have hgrows := Outer.grows_of_call hcall
  ⟨fun _ _ => rfl, fun _ _ => ⟨rfl, rfl⟩, fun _ _ h => h, hgrows,
    Kept.move hi (hi.named.call hcall) hgrows⟩

/-! ## 3. Commits -/

/-- The transaction wrote no version and no file. -/
structure NoUpload (l : Local Row) : Prop where
  version : ∀ v, l.own (.version v) = none
  file : ∀ sha256, l.own (.file sha256) = none
  fileId : ∀ id, l.own (.fileId id) = none

omit [Sha256] in
theorem sees_of_own_none {k : Key} {rows : Store Row} (h : l.own k = none) :
    l.sees rows k = rows k := by
  simp [Local.sees, h]

omit [Sha256] in
theorem sees_of_own_some {k : Key} {row : Row k} {rows : Store Row} (h : l.own k = some row) :
    l.sees rows k = some row := by
  simp [Local.sees, h]

/-- The commit of a call that uploads nothing: the products that it wrote point where the log
says, and where the pointer moved the product is locked. -/
theorem commits_of_noUpload {e : VersionEvent} (hi : Kept s) (hno : NoUpload l)
    (he : ∀ p, uploadsOf p [e] = [])
    (hwritten : ∀ p (row : ProductRow), l.own (.product p) = some row →
      row.currentVersionId = currentOf p (s.log ++ [e]))
    (hmoved : ∀ p, currentOf p (s.log ++ [e]) ≠ currentOf p s.log →
      (l.own (.product p)).isSome = true ∧
        ∃ v u content, currentOf p (s.log ++ [e]) = some v ∧ (u, content) ∈ uploadsOf p s.log ∧
          u.id = v) : Commits (contract received) e l s := by
  have huploads : ∀ p, uploadsOf p (s.log ++ [e]) = uploadsOf p s.log := fun p => by
    rw [uploadsOf_snoc, he p, List.append_nil]
  have hfiles : ∀ sha256, l.sees s.rows (.file sha256) = s.rows (.file sha256) :=
    fun sha256 => sees_of_own_none (hno.file sha256)
  have hversions : ∀ v, l.sees s.rows (.version v) = s.rows (.version v) :=
    fun v => sees_of_own_none (hno.version v)
  refine ⟨fun k hk => Local.sees_of_not_held hk, fun p hp => ⟨huploads p, ?_⟩,
    fun sha256 file h => (hfiles sha256).trans h, .refl _, ?_⟩
  · by_contra hne
    exact hp (l.owned _ (hmoved p hne).1)
  · constructor
    · exact hi.named
    · intro p row hrow
      rw [Shared.commit_rows] at hrow
      cases hown : l.own (.product p) with
      | some row' =>
        rw [sees_of_own_some hown] at hrow
        obtain rfl := Option.some.inj hrow
        exact hwritten p row' hown
      | none =>
        rw [sees_of_own_none hown] at hrow
        have hsame : currentOf p (s.log ++ [e]) = currentOf p s.log := by
          by_contra hne
          have := (hmoved p hne).1
          rw [hown] at this
          cases this
        rw [Shared.commit_log, hsame]
        exact hi.current p row hrow
    · intro p hne
      rw [Shared.commit_log, huploads] at hne
      cases hown : l.own (.product p) with
      | some row => rw [Shared.commit_rows, sees_of_own_some hown]; rfl
      | none =>
        rw [Shared.commit_rows, sees_of_own_none hown]
        exact hi.product p hne
    · intro v row hrow
      rw [Shared.commit_rows, hversions] at hrow
      rw [Shared.commit_log, huploads]
      exact hi.version v row hrow
    · intro p i u content hu
      rw [Shared.commit_log, huploads] at hu
      obtain ⟨row, file, hrow, hp, hnumber, hfile, hrest⟩ := hi.upload p i u content hu
      exact ⟨row, file, by rw [Shared.commit_rows, hversions, hrow], hp, hnumber,
        by rw [Shared.commit_rows, hfiles, hfile], hrest⟩
    · intro p
      rw [Shared.commit_log, huploads]
      by_cases hsame : currentOf p (s.log ++ [e]) = currentOf p s.log
      · rw [hsame]
        exact hi.pointer p
      · obtain ⟨-, v, u, content, hv, hmem, hid⟩ := hmoved p hsame
        rw [hv]
        refine ⟨by simp, ?_⟩
        rintro v' hv'
        obtain rfl := Option.some.inj hv'
        exact ⟨u, content, hmem, hid⟩
    · intro sha256 file hrow
      rw [Shared.commit_rows, hfiles] at hrow
      rw [Shared.commit_rows, sees_of_own_none (hno.fileId file.id)]
      exact hi.file sha256 file hrow
    · refine hi.fresh.snoc fun version content heq => ?_
      have := he version.productId
      simp [heq, uploadsOf] at this

/-- What an upload wrote when it commits: the new version of its product, which is current, and
the row of the content, or none where it was there. -/
structure Draft (p : Nat) (u : PDFVersion) (content : Bytes) (row : VersionRow) (file : FileRow)
    (l : Local Row) (s : VersionShared received) : Prop where
  product : u.productId = p
  pointer : ∃ row : ProductRow, l.own (.product p) = some row ∧ row.currentVersionId = some u.id
  products : ∀ q, q ≠ p → l.own (.product q) = none
  own : l.own (.version u.id) = some row
  unused : s.rows (.version u.id) = none
  versions : ∀ v, v ≠ u.id → l.own (.version v) = none
  numbered : row.productId = p ∧ row.versionNo = (uploadsOf p s.log).length + 1
  sees : l.sees s.rows (.file (hexdigest content)) = some file
  fits : file.id = row.pdfFileId ∧ file.sizeBytes = content.size
  files : ∀ sha256 (f : FileRow), l.own (.file sha256) = some f → s.rows (.file sha256) = none ∧
    f.storagePath = relativePathForHash sha256 ∧ Text.isSha256 sha256 = true ∧
    (s.ext.files f.storagePath).isSome = true ∧ l.own (.fileId f.id) = some sha256
  ids : ∀ id (sha256 : String), l.own (.fileId id) = some sha256 → s.rows (.fileId id) = none
  fresh : NotCurrent p content s.log

namespace Draft

variable {p : Nat} {u : PDFVersion} {content : Bytes} {row : VersionRow} {file : FileRow}
  (h : Draft p u content row file l s)

include h

/-- Another product is left as it is. -/
theorem samePart {q : Nat} (hq : q ≠ p) : SamePart q s (s.commit l (.uploaded u content)) := by
  constructor
  · rw [Shared.commit_log, uploadsOf_snoc]
    simp [uploadsOf, h.product, Ne.symm hq]
  · simp [pointerAfter, h.product, Ne.symm hq]

theorem uploads_snoc :
    uploadsOf p (s.commit l (.uploaded u content)).log = uploadsOf p s.log ++ [(u, content)] := by
  rw [Shared.commit_log, uploadsOf_snoc]
  simp [uploadsOf, h.product]

theorem current_snoc : currentOf p (s.commit l (.uploaded u content)).log = some u.id := by
  simp [pointerAfter, h.product]

theorem filesStay : FilesStay s (s.commit l (.uploaded u content)) := by
  intro sha256 f hf
  cases hown : l.own (.file sha256) with
  | none => exact (sees_of_own_none hown).trans hf
  | some f' =>
    rw [(h.files sha256 f' hown).1] at hf
    cases hf

/-- A version of another name is left as it is. -/
theorem sees_version {v : Nat} (hv : v ≠ u.id) :
    l.sees s.rows (.version v) = s.rows (.version v) := sees_of_own_none (h.versions v hv)

/-- What was uploaded before is under another name. -/
theorem id_ne (hi : Kept s) {q i : Nat} {u' : PDFVersion} {content' : Bytes}
    (hu : (uploadsOf q s.log)[i]? = some (u', content')) : u'.id ≠ u.id := by
  obtain ⟨row', _, hrow', -⟩ := hi.upload q i u' content' hu
  intro heq
  rw [heq, h.unused] at hrow'
  cases hrow'

theorem kept_current (hi : Kept s) (q : Nat) (product : ProductRow)
    (hrow : l.sees s.rows (.product q) = some product) :
    product.currentVersionId = currentOf q (s.commit l (.uploaded u content)).log := by
  by_cases hq : q = p
  · subst hq
    obtain ⟨product', hown, hpointer⟩ := h.pointer
    rw [sees_of_own_some hown] at hrow
    obtain rfl := Option.some.inj hrow
    rw [h.current_snoc, hpointer]
  · rw [sees_of_own_none (h.products q hq)] at hrow
    rw [(h.samePart hq).2]
    exact hi.current q product hrow

theorem kept_product (hi : Kept s) (q : Nat)
    (hne : uploadsOf q (s.commit l (.uploaded u content)).log ≠ []) :
    (l.sees s.rows (.product q)).isSome = true := by
  by_cases hq : q = p
  · subst hq
    obtain ⟨product, hown, -⟩ := h.pointer
    rw [sees_of_own_some hown]
    rfl
  · rw [(h.samePart hq).1] at hne
    rw [sees_of_own_none (h.products q hq)]
    exact hi.product q hne

theorem kept_version (hi : Kept s) (v : Nat) (row' : VersionRow)
    (hrow : l.sees s.rows (.version v) = some row') : 1 ≤ row'.versionNo ∧ ∃ u' content',
      (uploadsOf row'.productId (s.commit l (.uploaded u content)).log)[row'.versionNo - 1]? =
        some (u', content') ∧ u'.id = v := by
  by_cases hv : v = u.id
  · subst hv
    rw [sees_of_own_some h.own] at hrow
    obtain rfl := Option.some.inj hrow
    obtain ⟨hproduct, hnumber⟩ := h.numbered
    refine ⟨by omega, u, content, ?_, rfl⟩
    rw [hproduct, h.uploads_snoc, hnumber]
    simp
  · rw [h.sees_version hv] at hrow
    obtain ⟨hpos, u', content', hu, hid⟩ := hi.version v row' hrow
    refine ⟨hpos, u', content', ?_, hid⟩
    by_cases hq : row'.productId = p
    · rw [hq] at hu ⊢
      rw [h.uploads_snoc, List.getElem?_append_left (List.getElem?_eq_some_iff.mp hu).1]
      exact hu
    · rw [(h.samePart hq).1]
      exact hu

theorem kept_upload (hi : Kept s) (q i : Nat) (u' : PDFVersion) (content' : Bytes)
    (hu : (uploadsOf q (s.commit l (.uploaded u content)).log)[i]? = some (u', content')) :
    ∃ (row' : VersionRow) (file' : FileRow), l.sees s.rows (.version u'.id) = some row' ∧
      row'.productId = q ∧ row'.versionNo = i + 1 ∧
      l.sees s.rows (.file (hexdigest content')) = some file' ∧ file'.id = row'.pdfFileId ∧
      file'.sizeBytes = content'.size := by
  have hold : ∀ q' : Nat, (uploadsOf q' s.log)[i]? = some (u', content') →
      ∃ (row' : VersionRow) (file' : FileRow), l.sees s.rows (.version u'.id) = some row' ∧
        row'.productId = q' ∧ row'.versionNo = i + 1 ∧
        l.sees s.rows (.file (hexdigest content')) = some file' ∧ file'.id = row'.pdfFileId ∧
        file'.sizeBytes = content'.size := by
    intro q' hu'
    obtain ⟨row', file', hrow', hq', hnumber, hfile', hrest⟩ := hi.upload q' i u' content' hu'
    exact ⟨row', file', (h.sees_version (h.id_ne hi hu')).trans hrow', hq', hnumber,
      h.filesStay _ _ hfile', hrest⟩
  by_cases hq : q = p
  · subst hq
    rw [h.uploads_snoc] at hu
    by_cases hlt : i < (uploadsOf q s.log).length
    · rw [List.getElem?_append_left hlt] at hu
      exact hold q hu
    · rw [List.getElem?_append_right (by omega), List.getElem?_singleton] at hu
      split at hu
      · next hlast =>
        obtain ⟨rfl, rfl⟩ : u = u' ∧ content = content' := by simpa using hu
        exact ⟨row, file, sees_of_own_some h.own, h.numbered.1, by
          have := h.numbered.2
          omega, h.sees, h.fits⟩
      · cases hu
  · rw [(h.samePart hq).1] at hu
    exact hold q hu

theorem kept_pointer (hi : Kept s) (q : Nat) :
    (currentOf q (s.commit l (.uploaded u content)).log = none →
      uploadsOf q (s.commit l (.uploaded u content)).log = []) ∧
    ∀ v, currentOf q (s.commit l (.uploaded u content)).log = some v → ∃ u' content',
      (u', content') ∈ uploadsOf q (s.commit l (.uploaded u content)).log ∧ u'.id = v := by
  by_cases hq : q = p
  · subst hq
    rw [h.current_snoc, h.uploads_snoc]
    refine ⟨by simp, fun v hv => ⟨u, content, by simp, Option.some.inj hv⟩⟩
  · rw [(h.samePart hq).1, (h.samePart hq).2]
    exact hi.pointer q

theorem kept_file (hi : Kept s) (sha256 : String) (f : FileRow)
    (hrow : l.sees s.rows (.file sha256) = some f) :
    f.storagePath = relativePathForHash sha256 ∧ Text.isSha256 sha256 = true ∧
      (s.ext.files f.storagePath).isSome = true ∧
      l.sees s.rows (.fileId f.id) = some sha256 := by
  cases hown : l.own (.file sha256) with
  | some f' =>
    rw [sees_of_own_some hown] at hrow
    obtain rfl := Option.some.inj hrow
    obtain ⟨-, hpath, hhex, hfile, hid⟩ := h.files sha256 f' hown
    exact ⟨hpath, hhex, hfile, sees_of_own_some hid⟩
  | none =>
    rw [sees_of_own_none hown] at hrow
    obtain ⟨hpath, hhex, hfile, hid⟩ := hi.file sha256 f hrow
    refine ⟨hpath, hhex, hfile, ?_⟩
    cases hown' : l.own (.fileId f.id) with
    | none => exact (sees_of_own_none hown').trans hid
    | some sha' =>
      rw [h.ids f.id sha' hown'] at hid
      cases hid

/-- The commit of an upload. -/
theorem commits (hi : Kept s) : Commits (contract received) (.uploaded u content) l s := by
  refine ⟨fun k hk => Local.sees_of_not_held hk, fun q hq => h.samePart ?_, h.filesStay, .refl _,
    ⟨hi.named, h.kept_current hi, h.kept_product hi, h.kept_version hi, h.kept_upload hi,
      h.kept_pointer hi, h.kept_file hi, hi.fresh.snoc ?_⟩⟩
  · rintro rfl
    obtain ⟨product, hown, -⟩ := h.pointer
    exact hq (l.owned _ (by rw [hown]; rfl))
  · rintro version content' heq
    obtain ⟨rfl, rfl⟩ : u = version ∧ content = content' := by simpa using heq
    rw [h.product]
    exact h.fresh

end Draft

end ProductPdfQr.Version
