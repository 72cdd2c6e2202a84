/-
# A linear history, whatever interleaves

Each call keeps the contract of the history, so every state that any interleaving commits is
described by its log: the versions of a product are numbered from one without a gap, its
pointer is one of them, and the row of every file leads to content of its digest.
-/
import ProductPdfQr.Version.History
import Mathlib.Data.List.Fold
import Mathlib.Data.List.MinMax
import Mathlib.Order.Nat

namespace ProductPdfQr.Version

open Database

variable [Sha256] {received : String → Bytes} {s s' : VersionShared received} {l : Local Row}

-- a body is unfolded by the rules only
attribute [local irreducible] Safe

/-! ## 1. Rows of a statement -/

omit [Sha256] in
theorem mem_versionsIn {rows : List ((k : Key) × Row k)} {v : Nat} {row : VersionRow} :
    (v, row) ∈ versionsIn rows ↔ (⟨.version v, row⟩ : (k : Key) × Row k) ∈ rows := by
  simp only [versionsIn, List.mem_filterMap]
  constructor
  · rintro ⟨⟨k, r⟩, hmem, heq⟩
    cases k <;> simp at heq
    obtain ⟨rfl, rfl⟩ := heq
    exact hmem
  · exact fun hmem => ⟨_, hmem, rfl⟩

omit [Sha256] in
theorem mem_filesIn {rows : List ((k : Key) × Row k)} {sha256 : String} {file : FileRow} :
    (sha256, file) ∈ filesIn rows ↔ (⟨.file sha256, file⟩ : (k : Key) × Row k) ∈ rows := by
  simp only [filesIn, List.mem_filterMap]
  constructor
  · rintro ⟨⟨k, r⟩, hmem, heq⟩
    cases k <;> simp at heq
    obtain ⟨rfl, rfl⟩ := heq
    exact hmem
  · exact fun hmem => ⟨_, hmem, rfl⟩

/-- A transaction that holds the lock of a product and wrote nothing. -/
abbrev productLocked (p : Nat) : Local Row := Local.empty.hold (.product p)

omit [Sha256] in
theorem productLocked_sees {p : Nat} {rows : Store Row} : (productLocked p).sees rows = rows := by
  rw [Local.sees_hold, Local.sees_empty]

theorem productLocked_row {p : Nat} {row : Option ProductRow} (hrow : s.rows (.product p) = row)
    (hr : (contract received).rely (productLocked p).held s s') : s'.rows (.product p) = row := by
  rw [hr.1 _ (Set.mem_insert _ _), hrow]

theorem productLocked_part {p : Nat} (hr : (contract received).rely (productLocked p).held s s') :
    SamePart p s s' := hr.2.1 p (Set.mem_insert _ _)

/-! ## 2. Status and restore -/

variable {α : Type} {Q : α → Local Row → VersionShared received → Prop}

theorem safe_insertUnique {k : Key} {row : Row k} {constraint : String}
    {f : Unit → VersionTx received α}
    (h : ∀ s', (contract received).rely l.held s s' → Kept s' → l.sees s'.rows k = none →
      Safe (contract received) (outer received) Q (f ()) (l.put k row) s') :
    Safe (contract received) (outer received) Q (insertUnique k row constraint >>= f) l s := by
  rw [insertUnique, bind_assoc]
  refine safe_insert contract_fits (fun _ _ _ _ _ => safe_throw) fun s₁ hr₁ hi₁ hfree => ?_
  simp only [if_true, pure_bind]
  exact h s₁ hr₁ hi₁ hfree

theorem safe_nextval {q : Sequence} {f : Nat → VersionTx received α}
    (h : ∀ s' n, (contract received).rely l.held s s' → Kept s' →
      Safe (contract received) (outer received) Q (f n) l s') :
    Safe (contract received) (outer received) Q (nextval q >>= f) l s := by
  refine safe_outside fun s₁ n e hr₁ hi₁ hcall => ?_
  have hg := guarantee_of_call (H := l.held) hi₁ hcall
  refine ⟨hg, h _ n ?_ hg.2.2.2.2⟩
  obtain ⟨hrows, hpart, hfiles, hgrows⟩ := hr₁
  exact ⟨hrows, hpart, hfiles, hgrows.trans hg.2.2.2.1⟩

/-- The pointer of a locked product is written: what follows has the written row, over the
committed one. -/
theorem safe_updateProduct {p : Nat} {set : ProductRow → ProductRow} (row : ProductRow)
    {f : Unit → VersionTx received α} (hlocked : Key.product p ∈ l.held)
    (hown : l.own (.product p) = none) (hrow : s.rows (.product p) = some row)
    (h : ∀ s', (contract received).rely l.held s s' → Kept s' → s'.rows (.product p) = some row →
      Safe (contract received) (outer received) Q (f ())
        ((l.hold (.product p)).put (.product p) (set row)) s') :
    Safe (contract received) (outer received) Q
      ((updateRow (Key.product p) (fun _ => true) set : VersionTx received Unit) >>= f) l s := by
  have hsees : ∀ {s₁ : VersionShared received}, (contract received).rely l.held s s₁ →
      l.sees s₁.rows (.product p) = some row := fun hr => by
    rw [sees_of_own_none hown, hr.1 _ hlocked, hrow]
  refine safe_updateRow contract_fits (fun s₁ hr₁ _ hnone => ?_)
    (fun s₁ _ _ _ _ hskip => absurd hskip (by simp))
    (fun s₁ row₁ s₂ hr₁ _ hrow₁ _ hr₂ hi₂ => ?_)
  · rw [hsees hr₁] at hnone
    cases hnone
  · rw [hsees hr₁] at hrow₁
    obtain rfl := Option.some.inj hrow₁
    have hr := contract_fits.trans _ _ _ _ hr₁ (rely_mono (Set.subset_insert _ _) hr₂)
    exact h s₂ hr hi₂ (by rw [hr.1 _ hlocked, hrow])

/-- The commit of a call that wrote the row of one product, and the pointer that the log says. -/
theorem commits_of_product {p : Nat} {row : ProductRow} {e : VersionEvent} (hi : Kept s)
    (hown : l.own = Function.update Local.empty.own (.product p) (some row))
    (he : ∀ p, uploadsOf p [e] = []) (hrow : row.currentVersionId = currentOf p (s.log ++ [e]))
    (hother : ∀ q, q ≠ p → currentOf q (s.log ++ [e]) = currentOf q s.log)
    (hmoved : currentOf p (s.log ++ [e]) ≠ currentOf p s.log → ∃ v u content,
      currentOf p (s.log ++ [e]) = some v ∧ (u, content) ∈ uploadsOf p s.log ∧ u.id = v) :
    Commits (contract received) e l s := by
  have hnone : ∀ k, k ≠ Key.product p → l.own k = none := fun k hk => by
    rw [hown, Function.update_of_ne hk]
    rfl
  have hself : l.own (.product p) = some row := by rw [hown, Function.update_self]
  refine commits_of_noUpload hi ⟨?_, ?_, ?_⟩ he ?_ ?_
  · exact fun v => hnone _ (by simp)
  · exact fun sha256 => hnone _ (by simp)
  · exact fun id => hnone _ (by simp)
  · intro q row' hrow'
    by_cases hq : q = p
    · subst hq
      obtain rfl := Option.some.inj (hself.symm.trans hrow')
      exact hrow
    · rw [hnone _ (by simpa using hq)] at hrow'
      cases hrow'
  · intro q hne
    have hq : q = p := by
      by_contra hq
      exact hne (hother q hq)
    subst hq
    exact ⟨by rw [hself]; rfl, hmoved hne⟩

theorem safe_setStatus {productId : Nat} {newStatus : ProductStatus} {now : Int} :
    Safe (contract received) (outer received) (Commits (contract received))
      ((VersionCall.setStatus productId newStatus now).body) .empty s := by
  rw [VersionCall.body, setProductStatus, ← bind_pure_comp, bind_assoc]
  refine safe_lock contract_fits (fun _ _ _ _ => safe_throw) fun s₁ row _ _ hrow => ?_
  rw [Local.sees_empty] at hrow
  dsimp only
  split
  · refine safe_pure fun s₂ _ hi₂ => commits_of_noUpload hi₂ ?_ (fun _ => rfl) ?_ ?_
    · constructor <;> intro _ <;> rfl
    · intro p row' hown
      cases hown
    · exact fun p hne => absurd (currentOf_snoc.trans rfl) hne
  · refine safe_updateProduct row (Set.mem_insert _ _) rfl hrow fun s₂ _ _ hrow₂ => ?_
    refine safe_pure fun s₃ hr₃ hi₃ => commits_of_product hi₃ rfl (fun _ => rfl) ?_ ?_ ?_
    · rw [currentOf_snoc]
      exact hi₃.current productId row (by rw [hr₃.1 _ (by simp), hrow₂])
    · exact fun q _ => currentOf_snoc
    · exact fun hne => absurd currentOf_snoc hne

theorem safe_restore {productId versionId : Nat} {now : Int} :
    Safe (contract received) (outer received) (Commits (contract received))
      ((VersionCall.restore productId versionId now).body) .empty s := by
  rw [VersionCall.body, restorePdfVersion, ← bind_pure_comp, bind_assoc]
  refine safe_lock contract_fits (fun _ _ _ _ => safe_throw) fun s₁ row _ _ hrow => ?_
  rw [Local.sees_empty] at hrow
  dsimp only
  rw [bind_assoc]
  refine safe_scan contract_fits fun s₂ rows hr₂ hi₂ hrows => ?_
  cases htarget : (versionsIn rows).lookup versionId with
  | none => exact safe_throw
  | some target =>
    dsimp only
    split
    · exact safe_throw
    · -- the version that was found is one of the uploads of the product, and stays so
      obtain ⟨u, content, hmem, hid⟩ : ∃ u content, (u, content) ∈ uploadsOf productId s₂.log ∧
          u.id = versionId := by
        have hin : (versionId, target) ∈ versionsIn rows := by
          obtain ⟨before, after, heq, -⟩ := List.lookup_eq_some_iff.mp htarget
          rw [heq]
          simp
        obtain ⟨hseen, hmatch⟩ := (hrows _).mp (mem_versionsIn.mp hin)
        rw [productLocked_sees] at hseen
        obtain ⟨-, u, content, hu, hid⟩ := hi₂.version versionId target hseen
        have hproduct : target.productId = productId := by
          simp only [onVersions, Bool.and_eq_true, decide_eq_true_eq] at hmatch
          exact hmatch.1
        rw [hproduct] at hu
        exact ⟨u, content, List.mem_of_getElem? hu, hid⟩
      rw [bind_assoc, setCurrentVersion]
      refine safe_updateProduct row (Set.mem_insert _ _) rfl (productLocked_row hrow hr₂)
        fun s₃ hr₃ _ hrow₃ => ?_
      refine safe_pure fun s₄ hr₄ hi₄ => commits_of_product hi₄ rfl (fun _ => rfl) ?_ ?_ ?_
      · simp [pointerAfter]
      · intro q hq
        simp [pointerAfter, Ne.symm hq]
      · intro _
        have hsame : uploadsOf productId s₄.log = uploadsOf productId s₂.log :=
          ((hr₄.2.1 productId (by simp)).1).trans (productLocked_part hr₃).1
        refine ⟨versionId, u, content, by simp [pointerAfter], ?_, hid⟩
        rw [hsame]
        exact hmem

/-- The commit of a call that wrote one new product, without a version. -/
theorem commits_of_created {id : Nat} (hi : Kept s) (hnone : s.rows (.product id) = none)
    (hno : NoUpload l) (hwritten : ∀ p (row : ProductRow), l.own (.product p) = some row →
      p = id ∧ row.currentVersionId = none) :
    Commits (contract received) (.created id) l s := by
  have huploads : uploadsOf id s.log = [] := by
    by_contra hne
    have hsome := hi.product id hne
    rw [hnone] at hsome
    cases hsome
  have hcurrent : currentOf id s.log = none := by
    cases hpointer : currentOf id s.log with
    | none => rfl
    | some v =>
      obtain ⟨u, content, hmem, -⟩ := (hi.pointer id).2 v hpointer
      rw [huploads] at hmem
      cases hmem
  refine commits_of_noUpload hi hno (fun _ => rfl) ?_ ?_
  · intro p row hown
    obtain ⟨rfl, hrow⟩ := hwritten p row hown
    rw [hrow, currentOf_snoc]
    exact hcurrent.symm
  · exact fun p hne => absurd (currentOf_snoc.trans rfl) hne

theorem safe_create {rawCode rawName token : String} {now : Int} :
    Safe (contract received) (outer received) (Commits (contract received))
      ((VersionCall.create rawCode rawName token now).body) .empty s := by
  rw [VersionCall.body, createProduct, ← bind_pure_comp]
  generalize normalizeProductCode rawCode = checkedCode
  generalize normalizeProductName rawName = checkedName
  simp only [bind_assoc]
  apply safe_liftExcept
  intro code _
  apply safe_liftExcept
  intro name _
  apply safe_nextval
  intro s₁ id _ _
  apply safe_insertUnique
  intro s₂ _ _ hfree
  rw [Local.sees_empty] at hfree
  apply safe_insert contract_fits
  · exact fun _ _ _ _ _ => safe_throw
  intro s₃ hr₃ _ _
  simp only [if_true, bind_assoc]
  apply safe_insertUnique
  intro s₄ hr₄ _ _
  rw [pure_bind]
  apply safe_pure
  intro s₅ hr₅ hi₅
  refine commits_of_created hi₅ ?_ ⟨?_, ?_, ?_⟩ ?_
  · rw [hr₅.1 _ (by simp), hr₄.1 _ (by simp), hr₃.1 _ (by simp), hfree]
  · exact fun v => by simp [Function.update]
  · exact fun sha256 => by simp [Function.update]
  · exact fun fileId => by simp [Function.update]
  · intro p row hown
    by_cases hp : p = id
    · subst hp
      simp only [Local.put_own, Function.update, Local.empty_own] at hown
      simp at hown
      simp [← hown]
    · simp [Function.update, hp] at hown

/-! ## 4. Upload -/
omit [Sha256] in
/-- The largest number of a list that holds just the numbers from one to `n`. -/
theorem foldl_max_of_range {numbers : List Nat} {n : Nat} (hle : ∀ m ∈ numbers, m ≤ n)
    (hmem : ∀ i, i < n → i + 1 ∈ numbers) : numbers.foldl max 0 = n := by
  rw [List.foldl_eq_foldr_of_commute (max_comm 0)]
  refine le_antisymm (List.max_le_of_forall_le numbers n hle) ?_
  cases n with
  | zero => exact Nat.zero_le _
  | succ i => exact List.le_max_of_le (hmem i (Nat.lt_succ_self i)) le_rfl

/-- The committed file of a version tells its content from any other. -/
theorem upload_file (hi : Kept s) {p v : Nat} {u : PDFVersion} {content : Bytes}
    (hu : (u, content) ∈ uploadsOf p s.log) (hid : u.id = v) {row : VersionRow}
    (hrow : s.rows (.version v) = some row) {sha256 : String} {file : FileRow}
    (hfile : s.rows (.file sha256) = some file) (hpoints : file.id = row.pdfFileId) :
    sha256 = hexdigest content ∧ file.sizeBytes = content.size := by
  obtain ⟨i, hu⟩ := List.getElem?_of_mem hu
  obtain ⟨row', file', hrow', -, -, hfile', hpoints', hsize⟩ := hi.upload p i u content hu
  rw [hid, hrow] at hrow'
  obtain rfl := Option.some.inj hrow'
  have hleads := (hi.file sha256 file hfile).2.2.2
  have hleads' := (hi.file _ file' hfile').2.2.2
  rw [hpoints', ← hpoints, hleads] at hleads'
  obtain rfl : sha256 = hexdigest content := Option.some.inj hleads'
  rw [hfile] at hfile'
  obtain rfl := Option.some.inj hfile'
  exact ⟨rfl, hsize⟩

theorem safe_refuseDuplicate {p : Nat} {upload : ValidatedUpload received} {product : ProductRow}
    {f : Unit → VersionTx received α} (hi : Kept s) (hrow : s.rows (.product p) = some product)
    (h : ∀ s', (contract received).rely (productLocked p).held s s' → Kept s' →
      NotCurrent p (received upload.temporaryPath) s'.log →
        Safe (contract received) (outer received) Q (f ()) (productLocked p) s') :
    Safe (contract received) (outer received) Q
      (refuseDuplicate p upload product.currentVersionId >>= f) (productLocked p) s := by
  cases hcurrent : product.currentVersionId with
  | none =>
    refine h s (contract_fits.refl _ _) hi fun version content' hpointer _ => ?_
    rw [← hi.current p product hrow, hcurrent] at hpointer
    cases hpointer
  | some v =>
    rw [refuseDuplicate, bind_assoc]
    refine safe_scan contract_fits fun s₁ rows hr₁ hi₁ hrows => ?_
    rw [productLocked_sees] at hrows
    split
    · exact safe_throw
    · next sha256 file hfound =>
      split
      · exact safe_throw
      · next hdiffers =>
        refine h s₁ hr₁ hi₁ fun version content' hpointer hmem heq => hdiffers ?_
        subst heq
        -- the version and the file that were found are those of the current upload
        obtain ⟨⟨v', row⟩, hhead, hfind⟩ := Option.bind_eq_some_iff.mp hfound
        obtain ⟨hv, hv'⟩ := (hrows _).mp (mem_versionsIn.mp (List.mem_of_head? hhead))
        obtain ⟨hfile, -⟩ := (hrows _).mp (mem_filesIn.mp (List.mem_of_find?_eq_some hfind))
        have hpoints := List.find?_some hfind
        simp only [currentWithFile, Bool.and_eq_true, decide_eq_true_eq] at hv' hpoints
        have hid : version.id = v' := by
          rw [(productLocked_part hr₁).2, ← hi.current p product hrow, hcurrent] at hpointer
          exact (Option.some.inj hpointer).symm.trans hv'.2.symm
        obtain ⟨hsha256, hsize⟩ := upload_file hi₁ hmem hid hv hfile hpoints
        rw [hsize, hsha256, upload.sized, upload.hashed]
        simp

theorem safe_nextVersionNo {p : Nat} {f : Nat → VersionTx received α}
    (h : ∀ s', (contract received).rely (productLocked p).held s s' → Kept s' →
      Safe (contract received) (outer received) Q (f ((uploadsOf p s'.log).length + 1))
        (productLocked p) s') :
    Safe (contract received) (outer received) Q (nextVersionNo p >>= f) (productLocked p) s := by
  rw [nextVersionNo, bind_assoc]
  refine safe_scan contract_fits fun s₁ rows hr₁ hi₁ hrows => ?_
  rw [productLocked_sees] at hrows
  rw [pure_bind, foldl_max_of_range (n := (uploadsOf p s₁.log).length)]
  · exact h s₁ hr₁ hi₁
  · intro m hm
    obtain ⟨⟨v, row⟩, hv, rfl⟩ := List.mem_map.mp hm
    obtain ⟨hrow, hp⟩ := (hrows _).mp (mem_versionsIn.mp hv)
    obtain ⟨hpos, u, content, hu, -⟩ := hi₁.version v row hrow
    obtain ⟨hlt, -⟩ := List.getElem?_eq_some_iff.mp hu
    rw [show row.productId = p by simpa [onVersions] using hp] at hlt
    change row.versionNo ≤ _
    omega
  · intro i hlt
    obtain ⟨row, -, hrow, hp, hnumber, -⟩ :=
      hi₁.upload p i _ _ (List.getElem?_eq_getElem hlt)
    refine List.mem_map.mpr ⟨⟨_, row⟩, mem_versionsIn.mpr ((hrows _).mpr ⟨hrow, ?_⟩), hnumber⟩
    simp [onVersions, hp]

theorem safe_publish {upload : ValidatedUpload received} {f : PublishedFile → VersionTx received α}
    (h : ∀ s' (published : PublishedFile), (contract received).rely l.held s s' → Kept s' →
      published.storagePath = relativePathForHash upload.sha256 →
      Text.isSha256 upload.sha256 = true →
      (s'.ext.files published.storagePath).isSome = true →
        Safe (contract received) (outer received) Q (f published) l s') :
    Safe (contract received) (outer received) Q (publish upload >>= f) l s := by
  rw [publish, bind_assoc]
  refine safe_outside fun s₁ n e₁ hr₁ hi₁ hcall₁ => ?_
  have hg₁ := guarantee_of_call (H := l.held) hi₁ hcall₁
  refine ⟨hg₁, ?_⟩
  have hstarted : e₁.workers[n]? = some ⟨upload, .looking⟩ := by
    obtain ⟨rfl, rfl⟩ := hcall₁
    simp
  rw [bind_assoc]
  refine safe_outside fun s₂ published e₂ hr₂ hi₂ hcall₂ => ?_
  have hg₂ := guarantee_of_call (H := l.held) hi₂ hcall₂
  refine ⟨hg₂, ?_⟩
  -- whatever happened since, the worker still has this upload
  obtain ⟨w, hw, hupload⟩ := hr₂.2.2.2.workers n _ hstarted
  obtain ⟨⟨w', hw', hdone⟩, rfl⟩ := hcall₂
  obtain rfl : w = w' := Option.some.inj (hw.symm.trans hw')
  cases published with
  | none => exact safe_throw
  | some file =>
    have hmem : w ∈ s₂.ext.workers := List.mem_of_getElem? hw
    obtain ⟨hpath, hfile⟩ := hi₂.named.published w hmem file hdone
    have hhex := hi₂.named.hex w hmem (by simp [hdone]) (by simp [hdone])
    rw [hupload] at hhex
    refine h s₂ file ?_ hi₂ (by rw [hpath, Worker.target, hupload]) hhex (by rw [hpath]; exact hfile)
    refine contract_fits.trans _ _ _ _ hr₁ (contract_fits.trans _ _ _ _ ?_ hr₂)
    exact ⟨fun _ _ => rfl, fun _ _ => ⟨rfl, rfl⟩, fun _ _ h => h, hg₁.2.2.2.1⟩

/-- The row of a content, committed or one's own, when nothing else of the upload is written. -/
structure Filed (sha256 : String) (file : FileRow) (l : Local Row) (s : VersionShared received) :
    Prop where
  versions : ∀ v, l.own (.version v) = none
  products : ∀ q, l.own (.product q) = none
  sees : l.sees s.rows (.file sha256) = some file
  files : ∀ sha256 (f : FileRow), l.own (.file sha256) = some f → s.rows (.file sha256) = none ∧
    f.storagePath = relativePathForHash sha256 ∧ Text.isSha256 sha256 = true ∧
    (s.ext.files f.storagePath).isSome = true ∧ l.own (.fileId f.id) = some sha256
  ids : ∀ id (sha256 : String), l.own (.fileId id) = some sha256 → s.rows (.fileId id) = none

theorem Filed.rely {sha256 : String} {file : FileRow} (h : Filed sha256 file l s)
    (hr : (contract received).rely l.held s s') : Filed sha256 file l s' where
  versions := h.versions
  products := h.products
  sees := by
    have hsees := h.sees
    cases hown : l.own (.file sha256) with
    | some f =>
      rw [sees_of_own_some hown] at hsees ⊢
      exact hsees
    | none =>
      rw [sees_of_own_none hown] at hsees ⊢
      exact hr.2.2.1 _ _ hsees
  files := by
    intro sha256 f hown
    obtain ⟨hnone, hpath, hhex, hfile, hid⟩ := h.files sha256 f hown
    refine ⟨?_, hpath, hhex, hr.2.2.2.files _ hfile, hid⟩
    rw [hr.1 _ (l.owned _ (by rw [hown]; rfl)), hnone]
  ids := by
    intro id sha256 hown
    rw [hr.1 _ (l.owned _ (by rw [hown]; rfl)), h.ids id sha256 hown]

theorem safe_resolveFile {p : Nat} {upload : ValidatedUpload received} {published : PublishedFile}
    {now : Int} {f : FileRow → VersionTx received α}
    (hpath : published.storagePath = relativePathForHash upload.sha256)
    (hhex : Text.isSha256 upload.sha256 = true)
    (hexists : (s.ext.files published.storagePath).isSome = true)
    (h : ∀ s' l' file, (contract received).rely (productLocked p).held s s' → Kept s' →
      Filed upload.sha256 file l' s' → file.sizeBytes = upload.sizeBytes →
      (productLocked p).held ⊆ l'.held →
        Safe (contract received) (outer received) Q (f file) l' s') :
    Safe (contract received) (outer received) Q (resolveFile upload published now >>= f)
      (productLocked p) s := by
  have hchecked : ∀ s' l' file, (contract received).rely (productLocked p).held s s' → Kept s' →
      Filed upload.sha256 file l' s' → (productLocked p).held ⊆ l'.held →
        Safe (contract received) (outer received) Q
          ((if file.sizeBytes = upload.sizeBytes && file.storagePath = published.storagePath then
              pure file
            else throw (.runtime "Content-addressed file metadata conflict") :
              VersionTx received FileRow) >>= f) l' s' := by
    intro s' l' file hr hi hfiled hheld
    split
    · next hfits =>
      simp only [Bool.and_eq_true, decide_eq_true_eq] at hfits
      exact h s' l' file hr hi hfiled hfits.1 hheld
    · exact safe_throw
  rw [resolveFile, bind_assoc, insertFile, bind_assoc]
  apply safe_nextval
  intro s₁ id hr₁ _
  rw [bind_assoc]
  apply safe_insert contract_fits
  · intro s₂ row₂ hr₂ _ hrow₂
    rw [productLocked_sees] at hrow₂
    simp only [Bool.false_eq_true, if_false]
    rw [bind_assoc]
    refine safe_scan contract_fits fun s₃ rows hr₃ hi₃ hrows => ?_
    rw [productLocked_sees] at hrows
    split
    · exact safe_throw
    · next sha256 file hhead =>
      rw [pure_bind]
      obtain ⟨hfile, hsame⟩ := (hrows _).mp (mem_filesIn.mp (List.mem_of_head? hhead))
      obtain rfl : sha256 = upload.sha256 := by simpa using hsame
      refine hchecked s₃ _ file ?_ hi₃ ⟨?_, ?_, ?_, ?_, ?_⟩ subset_rfl
      · exact contract_fits.trans _ _ _ _ hr₁ (contract_fits.trans _ _ _ _ hr₂ hr₃)
      · exact fun _ => rfl
      · exact fun _ => rfl
      · rw [productLocked_sees]
        exact hfile
      · rintro _ _ ⟨⟩
      · rintro _ _ ⟨⟩
  · intro s₂ hr₂ _ hnone₂
    rw [productLocked_sees] at hnone₂
    simp only [if_true]
    rw [bind_assoc]
    apply safe_insertUnique
    intro s₃ hr₃ hi₃ hnone₃
    rw [pure_bind]
    have hr₂₃ := rely_mono (Set.subset_insert _ _) hr₃
    have hr₁₃ := contract_fits.trans _ _ _ _ hr₁ (contract_fits.trans _ _ _ _ hr₂ hr₂₃)
    refine hchecked s₃ _ _ hr₁₃ hi₃ ⟨?_, ?_, ?_, ?_, ?_⟩ ?_
    · exact fun v => by simp [Function.update]
    · exact fun q => by simp [Function.update]
    · exact sees_of_own_some (by simp [Function.update])
    · intro sha256 f hown
      by_cases hsha256 : sha256 = upload.sha256
      · subst hsha256
        simp only [Local.put_own, Function.update] at hown ⊢
        simp at hown
        subst hown
        refine ⟨?_, hpath, hhex, hr₁₃.2.2.2.files _ hexists, by simp⟩
        rw [hr₃.1 _ (by simp), hnone₂]
      · simp [Function.update, hsha256] at hown
    · intro fileId sha256 hown
      by_cases hid : fileId = id
      · subst hid
        rwa [sees_of_own_none (by simp [Function.update])] at hnone₃
      · simp [Function.update, hid] at hown
    · exact (Set.subset_insert _ _).trans (Set.subset_insert _ _)

/-- What `upload_pdf` leaves to its commit. -/
abbrev UploadDone (content : Bytes) (u : PDFVersion) (l : Local Row) (s : VersionShared received) :
    Prop :=
  ∀ s', (contract received).rely l.held s s' → Kept s' →
    Commits (contract received) (.uploaded u content) l s'

theorem safe_appendVersion {p actorId no : Nat} {upload : ValidatedUpload received} {now : Int}
    {file : FileRow} {product : ProductRow} {published : PublishedFile}
    (hlocked : Key.product p ∈ l.held) (hrow : s.rows (.product p) = some product)
    (hfiled : Filed upload.sha256 file l s) (hsize : file.sizeBytes = upload.sizeBytes)
    (hno : no = (uploadsOf p s.log).length + 1)
    (hfresh : NotCurrent p (received upload.temporaryPath) s.log) :
    Safe (contract received) (outer received) (UploadDone (received upload.temporaryPath))
      (appendVersion p actorId no file.id upload now >>= fun id =>
        pure ⟨id, p, no, file.id, upload.sha256, upload.sizeBytes, published.storagePath,
          upload.originalFilename⟩) l s := by
  rw [appendVersion]
  simp only [bind_assoc, pure_bind]
  apply safe_nextval
  intro s₁ id hr₁ _
  apply safe_insertUnique
  intro s₂ hr₂ _ hunused
  rw [sees_of_own_none (hfiled.versions id)] at hunused
  apply safe_insertUnique
  intro s₃ hr₃ _ _
  have hr₁₂ := contract_fits.trans _ _ _ _ hr₁ hr₂
  have hr₁₃ := contract_fits.trans _ _ _ _ hr₁₂ (rely_mono (Set.subset_insert _ _) hr₃)
  rw [setCurrentVersion]
  refine safe_updateProduct product (by simp [hlocked]) ?_ ?_ fun s₄ hr₄ _ _ => ?_
  · simp [Function.update, hfiled.products]
  · rw [hr₁₃.1 _ hlocked, hrow]
  apply safe_pure
  intro s₅ hr₅ _ s₆ hr₆ hi₆
  have hr₄₆ := contract_fits.trans _ _ _ _ hr₅ hr₆
  have hr₃₆ := contract_fits.trans _ _ _ _ hr₄ (rely_mono (by
    intro k hk
    simp only [Local.put_held, Local.hold_held, Set.mem_insert_iff] at hk ⊢
    tauto) hr₄₆)
  have hr₂₆ := contract_fits.trans _ _ _ _ hr₃ (rely_mono (Set.subset_insert _ _) hr₃₆)
  have hr := contract_fits.trans _ _ _ _ hr₁₂ (rely_mono (Set.subset_insert _ _) hr₂₆)
  have hfiled₆ := hfiled.rely hr
  have hpart := hr.2.1 p hlocked
  have hdraft : Draft p ⟨id, p, no, file.id, upload.sha256, upload.sizeBytes,
      published.storagePath, upload.originalFilename⟩ (received upload.temporaryPath)
      ⟨p, file.id, no, upload.originalFilename, actorId, now⟩ file
      ((((l.put (.version id) ⟨p, file.id, no, upload.originalFilename, actorId, now⟩).put
        (.versionNo p no) id).hold (.product p)).put (.product p)
        { product with currentVersionId := some id, updatedAt := now }) s₆ := by
    refine ⟨rfl, ?_, ?_, ?_, ?_, ?_, ?_, ?_, ?_, ?_, ?_, ?_⟩
    · exact ⟨{ product with currentVersionId := some id, updatedAt := now },
        by simp [Function.update], rfl⟩
    · intro q hq
      simp [Function.update, hq, hfiled.products]
    · simp [Function.update]
    · rw [hr₂₆.1 _ (by simp), hunused]
    · intro v hv
      simp [Function.update, hv, hfiled.versions]
    · exact ⟨rfl, by rw [hno, hpart.1]⟩
    · have hsees := hfiled₆.sees
      rw [← upload.hashed]
      simpa [Local.sees, Function.update] using hsees
    · exact ⟨rfl, hsize.trans upload.sized⟩
    · intro sha256 f hown
      simp only [Local.put_own, Local.hold_own, Function.update] at hown ⊢
      simp only [reduceCtorEq, dite_false] at hown ⊢
      exact hfiled₆.files sha256 f hown
    · intro fileId sha256 hown
      simp only [Local.put_own, Local.hold_own, Function.update, reduceCtorEq, dite_false] at hown
      exact hfiled₆.ids fileId sha256 hown
    · intro version content' hpointer hmem
      rw [hpart.2] at hpointer
      rw [hpart.1] at hmem
      exact hfresh version content' hpointer hmem
  exact hdraft.commits hi₆

theorem safe_uploadTransaction {p actorId : Nat} {upload : ValidatedUpload received} {now : Int} :
    Safe (contract received) (outer received) (UploadDone (received upload.temporaryPath))
      (uploadTransaction p actorId upload now) .empty s := by
  rw [uploadTransaction]
  refine safe_lock contract_fits (fun _ _ _ _ => safe_throw) fun s₁ product _ hi₁ hrow₁ => ?_
  rw [Local.sees_empty] at hrow₁
  refine safe_scan contract_fits fun s₂ actors hr₂ hi₂ _ => ?_
  split
  · exact safe_throw
  have hrow₂ := productLocked_row hrow₁ hr₂
  apply safe_refuseDuplicate hi₂ hrow₂
  intro s₃ hr₃ _ hfresh₃
  apply safe_nextVersionNo
  intro s₄ hr₄ _
  apply safe_publish
  intro s₅ published hr₅ _ hpath hhex hexists
  apply safe_resolveFile hpath hhex hexists
  intro s₆ l file hr₆ _ hfiled hsize hheld
  have hr₄₆ := contract_fits.trans _ _ _ _ hr₅ hr₆
  have hr₃₆ := contract_fits.trans _ _ _ _ hr₄ hr₄₆
  apply safe_appendVersion (hheld (by simp)) ?_ hfiled hsize ?_ ?_
  · exact product
  · exact productLocked_row hrow₂ (contract_fits.trans _ _ _ _ hr₃ hr₃₆)
  · rw [(productLocked_part hr₄₆).1]
  · intro version content' hpointer hmem
    rw [(productLocked_part hr₃₆).2] at hpointer
    rw [(productLocked_part hr₃₆).1] at hmem
    exact hfresh₃ version content' hpointer hmem

theorem safe_uploadPdf {p actorId : Nat} {upload : ValidatedUpload received} {now : Int}
    (hi : Kept s) : Safe (contract received) (outer received) (Commits (contract received))
      ((VersionCall.upload p actorId upload now).body) .empty s := by
  have hsafe : Safe (contract received) (outer received)
      (UploadDone (received upload.temporaryPath)) (uploadTransaction p actorId upload now) .empty s :=
    safe_uploadTransaction
  rw [VersionCall.body, uploadPdf, ← bind_pure_comp]
  generalize uploadTransaction p actorId upload now = body at hsafe ⊢
  apply safe_bind contract_fits hi
  apply safe_mapError
  refine hsafe.mono fun u l s _ hdone => safe_pure hdone

/-- Each call keeps the contract of the history. -/
theorem safe_body (hi : Kept s) : ∀ call : VersionCall received,
    Safe (contract received) (outer received) (Commits (contract received)) call.body .empty s
  | .create _ _ _ _ => safe_create
  | .setStatus _ _ _ => safe_setStatus
  | .restore _ _ _ => safe_restore
  | .upload _ _ _ _ => safe_uploadPdf hi

end ProductPdfQr.Version
