/-
# Completion last

The completion marker of a recovery point is the last object that `finalize` publishes.  Objects
are shared by runs and reused when they are there, and a run may die at every call; but nothing
on the remote is ever replaced, so what the marker stands for is there as long as the marker is.

`Published` and `CompletePoint` say what is there for a file and for a point.  Each run either
leaves the markers as they were or adds the one of its own point, which is complete.
-/
import ProductPdfQr.BackupRecovery.Precopies
import ProductPdfQr.BackupRecovery.RotationPlan

namespace ProductPdfQr.BackupRecovery

open Effect Json Rclone Restore Restore.Verified

variable [Sha256] {b : BackupBuilder} {f : SourceFile}

/-! ## 1. What is there for a file -/

/-- Both halves of the object of a file are there, and they are what the manifest says. -/
structure Published (b : BackupBuilder) (remote : Bucket) (f : SourceFile) (item : Fields) :
    Prop where
  name : (dict item).get "name" = .str f.name
  key : (dict item).get "key" = .str (b.casKey f.digest)
  plaintext : (dict item).get "plaintext_sha256" = .str f.digest
  size : ∃ size : Nat, (dict item).get "plaintext_size" = .int size
  unowned : "backup_id" ∉ item.map Prod.fst
  plain : PlainFields item
  halves : ∃ sealed content metadata, remote.lookup (b.casKey f.digest) = some sealed ∧
    remote.lookup (b.casMetaKey f.digest) = some content ∧ loads content = .ok metadata ∧
    (dict item).get "ciphertext_size" = .int sealed.size ∧
    (dict item).get "ciphertext_sha256" = .str (hexdigest sealed) ∧
    metadata.get "ciphertext_size" = .int sealed.size ∧
    metadata.get "ciphertext_sha256" = .str (hexdigest sealed)

/-- The metadata that is staged was written by a builder. -/
def NativeStages (b : BackupBuilder) (s : Site) : Prop :=
  ∀ digest t content, s.stages digest = some t → t.metadata = some content → Native b content

theorem fields_casMetadata (plain sealed : Bytes) : (casMetadata b plain sealed).fields =
    [("ciphertext_sha256", .str (hexdigest sealed)), ("ciphertext_size", .int sealed.size),
      ("plaintext_sha256", .str (hexdigest plain)), ("plaintext_size", .int plain.size),
      ("recipient_key_id", .str b.recipientKeyId), ("schema_version", .int 1)] := by
  simp +decide only [casMetadata, dict, List.foldl_cons, List.foldl_nil, insertField, Json.fields,
    if_true, if_false]

theorem publishedObject_casMetadata (f : SourceFile) (plain sealed : Bytes) :
    publishedObject b f (casMetadata b plain sealed) =
      [("name", .str f.name), ("key", .str (b.casKey f.digest)),
        ("ciphertext_sha256", .str (hexdigest sealed)), ("ciphertext_size", .int sealed.size),
        ("plaintext_sha256", .str (hexdigest plain)), ("plaintext_size", .int plain.size),
        ("recipient_key_id", .str b.recipientKeyId)] := by
  simp [publishedObject, fields_casMetadata]

theorem describes_eq {metadata : Json} {size : Int} {digest : String} {sealed : Bytes}
    (hsize : metadata.get "ciphertext_size" = .int size)
    (hdigest : metadata.get "ciphertext_sha256" = .str digest)
    (h : describes metadata (Files.sizeAndSha256 sealed) = true) :
    size = sealed.size ∧ digest = hexdigest sealed := by
  rw [describes, hsize, hdigest, Bool.and_eq_true] at h
  obtain ⟨hint, hstr⟩ := h
  constructor
  · simpa [Files.sizeAndSha256, Json.pyEq, Json.norm] using hint
  · simpa [Files.sizeAndSha256] using hstr

theorem validate_ok {metadata : Json} (h : validateCasMetadata b metadata f = .ok ()) :
    metadata.get "plaintext_sha256" = .str f.digest ∧
    (∃ size : Int, metadata.get "ciphertext_size" = .int size) ∧
    ∃ digest, metadata.get "ciphertext_sha256" = .str digest := by
  have hchecks := check_eq_ok h
  simp only [Bool.and_eq_true] at hchecks
  obtain ⟨⟨⟨⟨⟨⟨-, -⟩, hplain⟩, -⟩, -⟩, hsize⟩, hdigest⟩ := hchecks
  refine ⟨pyEq_str.mp hplain, ?_, ?_⟩
  · cases hvalue : metadata.get "ciphertext_size" <;> simp_all [Json.int?]
  · cases hvalue : metadata.get "ciphertext_sha256" <;> simp_all [Json.str?]

/-- Nothing is asked of a run that does not return. -/
def whenReturned {α : Type} (R : α → Site → Prop) : Post Site Exn α :=
  ⟨R, fun _ _ => True, fun _ => True⟩

theorem wp_after {α β : Type} {p : SiteProg α} {k : α → SiteProg β} {R : β → Site → Prop} {s : Site}
    (h : ∀ a s', (k a).wp disk (whenReturned R) s') : (p >>= k).wp disk (whenReturned R) s :=
  Prog.wp_bind_of (wp_grows p s) (fun a s' _ => h a s') (fun _ _ _ => trivial) fun _ _ => trivial

theorem wp_returned {α : Type} {a : α} {R : α → Site → Prop} {s : Site} (h : R a s) :
    (pure a : SiteProg α).wp disk (whenReturned R) s := by
  rw [Prog.wp_pure]
  exact h

theorem wp_thrown {α : Type} {e : Exn} {R : α → Site → Prop} {s : Site} :
    (throw e : SiteProg α).wp disk (whenReturned R) s := by
  rw [Prog.wp_throw]
  trivial

theorem wp_ensured {α : Type} {c : Bool} {e : Exn} {k : Unit → SiteProg α} {R : α → Site → Prop}
    {s : Site} (h : c = true → (k ()).wp disk (whenReturned R) s) :
    (Prog.ensure c e >>= k).wp disk (whenReturned R) s :=
  (Prog.wp_bind _ _ _).mpr (Prog.wp_ensure.mpr ⟨h, fun _ => trivial⟩)

theorem wp_lifted {α β : Type} {x : Except Exn α} {k : α → SiteProg β} {R : β → Site → Prop}
    {s : Site} (h : ∀ a, x = .ok a → (k a).wp disk (whenReturned R) s) :
    (Prog.liftExcept x >>= k).wp disk (whenReturned R) s :=
  (Prog.wp_bind _ _ _).mpr (Prog.wp_liftExcept.mpr ⟨h, fun _ _ => trivial⟩)

/-- What is staged and its metadata, whatever the weather. -/
theorem wp_told_completeStage {w : Weather} {s : Site} {t : Stage}
    (hnative : ∀ content, t.metadata = some content → Native b content) :
    (completeStage b f w t).wp disk (whenReturned fun staged _ => ∃ plain sealed,
      staged.2 = casMetadata b plain sealed ∧ hexdigest plain = f.digest) s := by
  obtain ⟨residues, ciphertext, metadata⟩ := t
  unfold completeStage
  cases ciphertext with
  | some sealed =>
    cases metadata with
    | some metadata =>
      obtain ⟨plain, sealed', rfl⟩ := hnative metadata rfl
      dsimp only
      rw [loads_casMetadata, Prog.liftExcept_ok_bind]
      refine wp_lifted fun _ hvalid => wp_ensured fun _ => wp_returned ⟨plain, sealed', rfl, ?_⟩
      have hdigest := (validate_ok hvalid).1
      rw [casMetadata_get.2.2.1] at hdigest
      exact Json.str.inj hdigest
    | none =>
      dsimp only
      split
      · exact wp_thrown
      · next plain _ =>
        refine wp_ensured fun hsame => wp_after fun _ _ => wp_returned ⟨plain, sealed, rfl, ?_⟩
        exact of_decide_eq_true (Bool.and_eq_true_iff.mp hsame).2
  | none =>
    cases metadata with
    | some metadata => exact wp_thrown
    | none =>
      refine wp_after fun plain s' => ?_
      split
      · next hsame =>
        refine wp_after fun _ _ => wp_returned ⟨plain, w.sealed, rfl, ?_⟩
        exact of_decide_eq_true (Bool.and_eq_true_iff.mp hsame).2
      · exact wp_after fun _ _ => wp_thrown

theorem wp_told_stagedObject {w : Weather} {s : Site} (hnative : NativeStages b s) :
    (stagedObject b f w).wp disk (whenReturned fun staged _ => ∃ plain sealed,
      staged.2 = casMetadata b plain sealed ∧ hexdigest plain = f.digest) s := by
  have hmake : (SiteCall.makeStage f.digest).serve s =
      ((), s.setStage f.digest (some ((s.stages f.digest).getD ⟨0, none, none⟩))) := rfl
  refine wp_site hmake trivial ?_
  generalize hstart : (s.stages f.digest).getD ⟨0, none, none⟩ = t
  have ht : ∀ content, t.metadata = some content → Native b content := by
    intro content hcontent
    cases hfound : s.stages f.digest with
    | none =>
      rw [← hstart, hfound] at hcontent
      cases hcontent
    | some t₀ =>
      rw [← hstart, hfound] at hcontent
      exact hnative f.digest t₀ content hfound hcontent
  have hlook : (SiteCall.stage f.digest).serve (s.setStage f.digest (some t)) =
      (some t, s.setStage f.digest (some t)) := by
    rw [SiteCall.serve, Site.setStage_stages]
  exact wp_site hlook trivial (wp_after fun _ _ => wp_told_completeStage ht)

theorem wp_measured {s : Site} {key : String} {there : Bool} {sealed : Bytes} {metadata : Json} :
    (publishCiphertext key there sealed metadata).wp disk (whenReturned fun _ s' => ∃ sealed',
      s'.remote.lookup key = some sealed' ∧
      describes metadata (Files.sizeAndSha256 sealed') = true) s := by
  have hlast (s : Site) (e : Exn) : (do
      let measured ← Prog.perform (SiteCall.sizeAndSha256 key)
      Prog.ensure (measured.any (describes metadata)) e : SiteProg Unit).wp disk
        (whenReturned fun _ s' => ∃ sealed', s'.remote.lookup key = some sealed' ∧
          describes metadata (Files.sizeAndSha256 sealed') = true) s := by
    have hserve : (SiteCall.sizeAndSha256 key).serve s =
      ((s.remote.lookup key).map Files.sizeAndSha256, s) := rfl
    refine wp_site hserve trivial (Prog.wp_ensure.mpr ⟨fun hany => ?_, fun _ => trivial⟩)
    cases hlookup : s.remote.lookup key with
    | none =>
      rw [hlookup] at hany
      cases hany
    | some sealed' =>
      rw [hlookup] at hany
      exact ⟨sealed', hlookup, hany⟩
  unfold publishCiphertext
  split
  · exact hlast s _
  · exact wp_after fun _ _ => wp_ensured fun _ => hlast _ _

theorem wp_readBack {s : Site} {key : String} {there : Bool} {metadata : Json} :
    (publishMetadata key there metadata).wp disk (whenReturned fun _ s' =>
      s'.remote.lookup key = some (canonicalJson metadata)) s := by
  have hlast (s : Site) (e : Exn) : (do
      let content ← Prog.perform (SiteCall.readBytes key)
      Prog.ensure (content = some (canonicalJson metadata)) e : SiteProg Unit).wp disk
        (whenReturned fun _ s' => s'.remote.lookup key = some (canonicalJson metadata)) s := by
    have hserve : (SiteCall.readBytes key).serve s = (s.remote.lookup key, s) := rfl
    exact wp_site hserve trivial (Prog.wp_ensure.mpr ⟨of_decide_eq_true, fun _ => trivial⟩)
  unfold publishMetadata
  split
  · exact hlast s _
  · exact wp_after fun _ _ => wp_ensured fun _ => hlast _ _

/-- The objects that were there are read. -/
theorem wp_published_reused {w : Weather} {s : Site} :
    (reuseObject b f w).wp disk (whenReturned fun item s' =>
      Published b s'.remote f item) s := by
  have hread : (SiteCall.readBytes (b.casMetaKey f.digest)).serve s =
    (s.remote.lookup (b.casMetaKey f.digest), s) := rfl
  have hmeasure : (SiteCall.sizeAndSha256 (b.casKey f.digest)).serve s =
    ((s.remote.lookup (b.casKey f.digest)).map Files.sizeAndSha256, s) := rfl
  refine wp_site hread trivial ?_
  split
  · exact wp_thrown
  · next content hcontent =>
    refine wp_lifted fun metadata hload => wp_lifted fun _ hvalid => ?_
    refine wp_site hmeasure trivial (wp_ensured fun hany => ?_)
    refine (Prog.wp_bind _ _ _).mpr (wp_removeTree _ (fun _ => trivial) ?_)
    dsimp only [Post.seq]
    obtain ⟨hplain, ⟨size, hsize⟩, digest, hdigest⟩ := validate_ok hvalid
    cases hlookup : s.remote.lookup (b.casKey f.digest) with
    | none =>
      rw [hlookup] at hany
      cases hany
    | some sealed =>
      rw [hlookup] at hany
      obtain ⟨rfl, rfl⟩ := describes_eq hsize hdigest hany
      refine wp_returned ⟨?_, ?_, ?_, ⟨f.content.size, ?_⟩, ?_, ?_, sealed, content, metadata,
        hlookup, hcontent, mapError_ok hload, ?_, ?_, hsize, hdigest⟩
      · rw [reusedObject, get_dict]
        rfl
      · rw [reusedObject, get_dict]
        rfl
      · rw [reusedObject, get_dict]
        rfl
      · rw [reusedObject, get_dict]
        rfl
      · simp [reusedObject]
      · simp [reusedObject, PlainFields, Json.Plain, hsize, hdigest]
      · rw [← hsize, reusedObject, get_dict]
        rfl
      · rw [← hdigest, reusedObject, get_dict]
        rfl

/-- Where a publication returns, both halves are there, whatever stood before and whatever the
weather. -/
theorem wp_published {w : Weather} {s : Site} (hnative : NativeStages b s) :
    (publishFileObject b f w).wp disk (whenReturned fun item s' =>
      Published b s'.remote f item) s := by
  have hask (key : String) : (SiteCall.exists key).serve s = (decide (key ∈ s.remote), s) := rfl
  refine wp_site (hask _) trivial (wp_site (hask _) trivial ?_)
  split
  · exact wp_published_reused
  · refine Prog.wp_bind_of (wp_told_stagedObject hnative) ?_ (fun _ _ _ => trivial)
      fun _ _ => trivial
    rintro ⟨sealed, metadata⟩ s₁ ⟨plain, sealed', rfl, hplain⟩
    refine Prog.wp_bind_of wp_measured ?_ (fun _ _ _ => trivial) fun _ _ => trivial
    rintro _ s₂ ⟨there, hthere, hdescribes⟩
    obtain ⟨hsize, hdigest⟩ := describes_eq casMetadata_get.2.2.2.1 casMetadata_get.2.2.2.2.1
      hdescribes
    refine Prog.wp_bind_of (Prog.wp_and _ _ wp_readBack (wp_grows _ s₂)) ?_ (fun _ _ _ => trivial)
      fun _ _ => trivial
    rintro _ s₃ ⟨hback, hgrows⟩
    refine (Prog.wp_bind _ _ _).mpr (wp_removeTree _ (fun _ => trivial) ?_)
    dsimp only [Post.seq]
    refine wp_returned ⟨?_, ?_, ?_, ⟨plain.size, ?_⟩, ?_, ?_, there, _,
      casMetadata b plain sealed', hgrows _ _ hthere, hback, ?_, ?_, ?_, ?_, ?_⟩
    · rw [publishedObject_casMetadata, get_dict]
      rfl
    · rw [publishedObject_casMetadata, get_dict]
      rfl
    · rw [publishedObject_casMetadata, get_dict, ← hplain]
      rfl
    · rw [publishedObject_casMetadata, get_dict]
      rfl
    · simp [publishedObject_casMetadata]
    · simp [publishedObject_casMetadata, PlainFields, Json.Plain]
    · exact loads_canonicalJson (plain_casMetadata plain sealed')
    · rw [publishedObject_casMetadata, get_dict, ← hsize]
      rfl
    · rw [publishedObject_casMetadata, get_dict, ← hdigest]
      rfl
    · rw [casMetadata_get.2.2.2.1, hsize]
    · rw [casMetadata_get.2.2.2.2.1, hdigest]

/-! ## 2. Calls that mark nothing -/

/-- The calls that a run makes before its marker. -/
def Early (b : BackupBuilder) : SiteCall → Prop
  | .upload _ key => ¬InArea b.pre .complete key
  | .placeMetadata _ content => Native b content
  | .writeSuccess _ => False
  | _ => True

/-- The markers are as they were. -/
structure Unmarked (b : BackupBuilder) (s s' : Site) : Prop where
  markers : ∀ key, InArea b.pre .complete key → s'.remote.lookup key = s.remote.lookup key
  lastSuccess : s'.lastSuccess = s.lastSuccess
  native : NativeStages b s → NativeStages b s'
  grows : Grows s s'

theorem Unmarked.refl (s : Site) : Unmarked b s s :=
  ⟨fun _ _ => rfl, rfl, id, fun _ _ h => h⟩

theorem Unmarked.trans {s s' s'' : Site} (h : Unmarked b s s') (h' : Unmarked b s' s'') :
    Unmarked b s s'' :=
  ⟨fun key hkey => (h'.markers key hkey).trans (h.markers key hkey),
    h'.lastSuccess.trans h.lastSuccess, fun hs => h'.native (h.native hs),
    fun key content hkey => h'.grows key content (h.grows key content hkey)⟩

omit [Sha256] in
theorem inArea_casKey (digest : String) : InArea b.pre .objects (b.casKey digest) :=
  ⟨digest ++ "/" ++ b.recipientKeyId ++ ".age", by
    simp only [BackupBuilder.casKey, Area.path, String.append_assoc]⟩

omit [Sha256] in
theorem inArea_casMetaKey (digest : String) : InArea b.pre .objects (b.casMetaKey digest) :=
  ⟨digest ++ "/" ++ b.recipientKeyId ++ ".json", by
    simp only [BackupBuilder.casMetaKey, Area.path, String.append_assoc]⟩

theorem Own.early {digest : String} {c : SiteCall} (h : Own b digest c) : Early b c := by
  cases c with
  | upload content key =>
    intro hcomplete
    have hobject : InArea b.pre .objects key := by
      rcases h with rfl | rfl
      · exact inArea_casKey digest
      · exact inArea_casMetaKey digest
    exact absurd (hcomplete.unique hobject) (by decide)
  | placeMetadata d content => exact h.2
  | writeSuccess content => exact h.elim
  | _ => trivial

theorem nativeStages_setStage {s : Site} (h : NativeStages b s) {digest : String}
    {stage : Option Stage} (hstage : ∀ t content, stage = some t → t.metadata = some content →
      Native b content) : NativeStages b (s.setStage digest stage) := by
  intro d t content ht hcontent
  by_cases hd : d = digest
  · subst hd
    rw [Site.setStage_stages] at ht
    exact hstage t content ht hcontent
  · rw [Site.setStage_stages_ne _ _ _ hd] at ht
    exact h d t content ht hcontent

/-- A stage that is there changes. -/
theorem nativeStages_change {s : Site} {digest : String} {change : Stage → Stage}
    (h : NativeStages b s)
    (hchange : ∀ t content, (change t).metadata = some content → t.metadata = some content ∨
      Native b content) : NativeStages b (s.changeStage digest change) := by
  refine nativeStages_setStage h fun t content ht hcontent => ?_
  obtain ⟨t₀, hfound, rfl⟩ := Option.map_eq_some_iff.mp ht
  exact (hchange t₀ content hcontent).elim (h digest t₀ content hfound) id

theorem Early.native {c : SiteCall} (h : Early b c) {s : Site} (hs : NativeStages b s) :
    NativeStages b (disk.step c s).2 := by
  cases c with
  | upload content key =>
    change NativeStages b ((SiteCall.upload content key).serve s).2
    rw [SiteCall.serve]
    split
    · exact hs
    · exact hs
  | makeStage digest =>
    refine nativeStages_setStage hs fun t content ht hcontent => ?_
    cases hfound : s.stages digest with
    | none =>
      rw [hfound] at ht
      obtain rfl := Option.some.inj ht
      cases hcontent
    | some t₀ =>
      rw [hfound] at ht
      obtain rfl := Option.some.inj ht
      exact hs digest _ content hfound hcontent
  | dropStage digest =>
    refine nativeStages_setStage hs fun t content ht hcontent => ?_
    cases ht
  | makeTemporary digest => exact nativeStages_change hs fun _ _ h => .inl h
  | placeCiphertext digest sealed => exact nativeStages_change hs fun _ _ h => .inl h
  | placeMetadata digest content =>
    refine nativeStages_change hs fun _ content' hcontent => .inr ?_
    obtain rfl := Option.some.inj hcontent
    exact h
  | drop digest entry =>
    refine nativeStages_change hs fun t content hcontent => .inl ?_
    cases entry with
    | metadata => cases hcontent
    | temporary => exact hcontent
    | ciphertext => exact hcontent
  | _ => exact hs

theorem Early.unmarked {c : SiteCall} (h : Early b c) (s : Site) :
    Unmarked b s (disk.step c s).2 := by
  refine ⟨fun key hkey => ?_, ?_, h.native, grows_step c s⟩
  · cases c with
    | upload content other =>
      change ((SiteCall.upload content other).serve s).2.remote.lookup key = _
      rw [SiteCall.serve]
      split
      · rfl
      · refine Site.lookup_put_ne s ?_ content
        rintro rfl
        exact h hkey
    | _ => rfl
  · cases c with
    | upload content other =>
      change ((SiteCall.upload content other).serve s).2.lastSuccess = _
      rw [SiteCall.serve]
      split
      · rfl
      · rfl
    | writeSuccess content => exact h.elim
    | _ => rfl

theorem wp_unmarked {α : Type} {p : SiteProg α} (h : p.CallsIn (Early b)) (s : Site) :
    p.wp disk (Post.always (Unmarked b s)) s :=
  h.keeps (fun _ hc s' hs' => hs'.trans (hc.unmarked s')) s (.refl s)

theorem early_inject (failStage : Option String) (stage : String) :
    (inject failStage stage).CallsIn (Early b) :=
  Prog.callsIn_bind (Prog.callsIn_ensure ..) fun _ => Prog.callsIn_ensure ..

theorem early_publishFileObject (f : SourceFile) (w : Weather) :
    (publishFileObject b f w).CallsIn (Early b) :=
  (own_publishFileObject f w).mono fun _ => Own.early

theorem early_precopy (p : Precopy) : (precopy b p).CallsIn (Early b) := by
  refine Prog.callsIn_bind (early_inject ..) fun _ => Prog.callsIn_bind (Prog.callsIn_liftExcept _)
    fun files => Prog.callsIn_bind (Prog.callsIn_foldlM (fun counts f => ?_) files _) fun _ => ?_
  · exact Prog.callsIn_bind (Prog.callsIn_perform.mpr trivial) fun _ =>
      Prog.callsIn_bind (early_publishFileObject ..) fun _ => Prog.callsIn_pure _
  · exact Prog.callsIn_bind (Prog.callsIn_perform.mpr trivial) fun _ => Prog.callsIn_pure _

theorem early_publishStream (x : Streamed) {key : String} (hkey : InArea b.pre .points key)
    (mismatch : String) : (publishStream x key mismatch).CallsIn (Early b) := by
  have hearly : Early b (.upload x.sealed key) := fun hcomplete =>
    absurd (hcomplete.unique hkey) (by decide)
  exact Prog.callsIn_bind (Prog.callsIn_perform.mpr hearly) fun _ =>
    Prog.callsIn_bind (Prog.callsIn_ensure ..) fun _ =>
      Prog.callsIn_bind (Prog.callsIn_ensure ..) fun _ =>
        Prog.callsIn_bind (Prog.callsIn_perform.mpr trivial) fun _ => Prog.callsIn_ensure ..

theorem early_gather (r : Finalization) (files : List SourceFile) (fileObjects : List Fields) :
    (gather b r files fileObjects).CallsIn (Early b) := by
  have hdatabase : InArea b.pre .points (r.databaseKey b) :=
    @inArea_pointKeys b.pre r.backupId _ (by simp [pointKeys, Finalization.databaseKey])
  have hconfig : InArea b.pre .points (r.configKey b) :=
    @inArea_pointKeys b.pre r.backupId _ (by simp [pointKeys, Finalization.configKey])
  exact Prog.callsIn_bind (early_inject ..) fun _ =>
    Prog.callsIn_bind (Prog.callsIn_liftExcept _) fun _ =>
    Prog.callsIn_bind (early_publishStream _ hdatabase _) fun _ =>
    Prog.callsIn_bind (Prog.callsIn_liftExcept _) fun _ =>
    Prog.callsIn_bind (Prog.callsIn_liftExcept _) fun _ =>
    Prog.callsIn_bind (early_inject ..) fun _ =>
    Prog.callsIn_bind (Prog.callsIn_liftExcept _) fun _ =>
    Prog.callsIn_bind (early_publishStream _ hconfig _) fun _ =>
    Prog.callsIn_bind (Prog.callsIn_liftExcept _) fun _ =>
    Prog.callsIn_bind (Prog.callsIn_liftExcept _) fun _ =>
    Prog.callsIn_bind (Prog.callsIn_ensure ..) fun _ =>
    Prog.callsIn_bind (Prog.callsIn_liftExcept _) fun _ => Prog.callsIn_pure _

theorem early_publishManifest [Ed25519] (r : Finalization) (g : Gathered) :
    (publishManifest b r g).CallsIn (Early b) := by
  have hmanifest : InArea b.pre .points (r.manifestKey b) :=
    @inArea_pointKeys b.pre r.backupId _ (by simp [pointKeys, Finalization.manifestKey])
  refine Prog.callsIn_bind (Prog.callsIn_liftExcept _) fun manifest =>
    Prog.callsIn_bind (early_inject ..) fun _ => ?_
  split
  · exact Prog.callsIn_throw _
  · next sealed _ =>
    have hearly : Early b (.upload sealed (r.manifestKey b)) := fun hcomplete =>
      absurd (hcomplete.unique hmanifest) (by decide)
    exact Prog.callsIn_bind (Prog.callsIn_perform.mpr hearly) fun _ =>
      Prog.callsIn_bind (Prog.callsIn_ensure ..) fun _ =>
        Prog.callsIn_bind (Prog.callsIn_perform.mpr trivial) fun _ =>
          Prog.callsIn_bind (Prog.callsIn_ensure ..) fun _ => Prog.callsIn_pure _

theorem early_preparePoint [Ed25519] (r : Finalization) :
    (preparePoint b r).CallsIn (Early b) := by
  refine Prog.callsIn_bind (Prog.callsIn_liftExcept _) fun _ =>
    Prog.callsIn_bind (early_inject ..) fun _ =>
    Prog.callsIn_bind (Prog.callsIn_liftExcept _) fun files =>
    Prog.callsIn_bind (Prog.callsIn_foldlM (fun objects f => ?_) files _) fun fileObjects =>
    Prog.callsIn_bind (early_gather ..) fun g =>
    Prog.callsIn_bind (early_publishManifest ..) fun _ =>
    Prog.callsIn_bind (early_inject ..) fun _ => Prog.callsIn_pure _
  exact Prog.callsIn_bind (Prog.callsIn_liftExcept _) fun _ =>
    Prog.callsIn_bind (early_publishFileObject ..) fun _ => Prog.callsIn_pure _

/-! ## 3. Complete points -/

section Points

variable [Ed25519] {r : Finalization} {g : Gathered} {sealed : Bytes}

/-- Everything that the marker of a point stands for is there. -/
structure CompletePoint (b : BackupBuilder) (r : Finalization) (g : Gathered) (sealed : Bytes)
    (remote : Bucket) : Prop where
  listed : sourceFiles r.root = .ok g.files
  files : List.Forall₂ (Published b remote) g.files g.fileObjects
  database : remote.lookup (r.databaseKey b) = some r.dump.sealed
  config : remote.lookup (r.configKey b) = some r.config.sealed
  succeeded : r.dump.succeeded = true ∧ r.config.succeeded = true
  assertions : databaseAssertions r = .ok g.assertions
  tools : toolVersions r = .ok g.tools
  hashes : configHashes r.configFiles = .ok g.configHashes
  generations : sortedGenerations r.frozen = .ok g.generations
  manifest : ∃ manifest, authenticateManifest (manifestBody b r g) b.manifestAuthenticationKey
    b.manifestAuthenticationKeyId = .ok manifest ∧
      r.sealManifest (canonicalJson manifest) = some sealed
  published : remote.lookup (r.manifestKey b) = some sealed

omit [Ed25519] in
theorem Published.grows {s s' : Site} {item : Fields} (h : Published b s.remote f item)
    (hgrows : Grows s s') : Published b s'.remote f item := by
  obtain ⟨there, content, metadata, hcipher, hmeta, hrest⟩ := h.halves
  exact ⟨h.name, h.key, h.plaintext, h.size, h.unowned, h.plain, there, content, metadata,
    hgrows _ _ hcipher, hgrows _ _ hmeta, hrest⟩

omit [Ed25519] in
theorem forall_published_grows {s s' : Site} {files : List SourceFile} {objects : List Fields}
    (h : List.Forall₂ (Published b s.remote) files objects) (hgrows : Grows s s') :
    List.Forall₂ (Published b s'.remote) files objects :=
  h.imp fun _ _ hitem => hitem.grows hgrows

theorem CompletePoint.grows {s s' : Site} (h : CompletePoint b r g sealed s.remote)
    (hgrows : Grows s s') : CompletePoint b r g sealed s'.remote :=
  ⟨h.listed, forall_published_grows h.files hgrows, hgrows _ _ h.database, hgrows _ _ h.config,
    h.succeeded, h.assertions, h.tools, h.hashes, h.generations, h.manifest, hgrows _ _ h.published⟩

omit [Ed25519] in
/-- What a command prints is there when the stream has been published. -/
theorem wp_publishStream {x : Streamed} {key mismatch : String} {s : Site} :
    (publishStream x key mismatch).wp disk (whenReturned fun _ s' =>
      s'.remote.lookup key = some x.sealed ∧ x.succeeded = true) s := by
  by_cases hthere : key ∈ s.remote
  · have hupload : (SiteCall.upload x.sealed key).serve s = (false, s) := if_pos hthere
    exact wp_site hupload trivial (wp_ensured fun hfalse => absurd hfalse Bool.false_ne_true)
  · have hupload : (SiteCall.upload x.sealed key).serve s = (true, s.put key x.sealed) :=
      if_neg hthere
    refine wp_site hupload trivial (wp_ensured fun _ => wp_ensured fun hsucceeded => ?_)
    have hmeasure : (SiteCall.sizeAndSha256 key).serve (s.put key x.sealed) =
      (((s.put key x.sealed).remote.lookup key).map Files.sizeAndSha256, s.put key x.sealed) := rfl
    refine wp_site hmeasure trivial (Prog.wp_ensure.mpr ⟨fun _ => ?_, fun _ => trivial⟩)
    exact ⟨Site.lookup_put .., hsucceeded⟩

omit [Ed25519] in
/-- The loop over the files. -/
theorem wp_finalizeFiles {files : List SourceFile} {s : Site} (hnative : NativeStages b s) :
    (files.foldlM (finalizeFile b r) []).wp disk (whenReturned fun objects s' =>
      List.Forall₂ (Published b s'.remote) files objects) s := by
  refine Prog.wp_foldlM (I := fun rest objects s' => NativeStages b s' ∧
    ∃ done, files = done ++ rest ∧ List.Forall₂ (Published b s'.remote) done objects) ?_ ?_ files
    [] s ⟨hnative, [], rfl, .nil⟩
  · rintro objects f rest s' ⟨hnative', done, rfl, hdone⟩
    refine wp_lifted fun _ _ => ?_
    refine Prog.wp_bind_of (Prog.wp_and _ _ (wp_published hnative')
      (wp_unmarked (early_publishFileObject f (r.weather f)) s')) ?_ (fun _ _ _ => trivial)
      fun _ _ => trivial
    rintro item s'' ⟨hitem, hunmarked⟩
    refine wp_returned ⟨hunmarked.native hnative', done ++ [f], by simp, ?_⟩
    exact List.rel_append (forall_published_grows hdone hunmarked.grows) (.cons hitem .nil)
  · rintro objects s' ⟨-, done, hfiles, hdone⟩
    rw [List.append_nil] at hfiles
    exact hfiles ▸ hdone

omit [Ed25519] in
theorem wp_gather {files : List SourceFile} {fileObjects : List Fields} {s : Site} :
    (gather b r files fileObjects).wp disk (whenReturned fun g s' => g.files = files ∧
      g.fileObjects = fileObjects ∧ s'.remote.lookup (r.databaseKey b) = some r.dump.sealed ∧
      s'.remote.lookup (r.configKey b) = some r.config.sealed ∧
      (r.dump.succeeded = true ∧ r.config.succeeded = true) ∧
      databaseAssertions r = .ok g.assertions ∧ toolVersions r = .ok g.tools ∧
      configHashes r.configFiles = .ok g.configHashes ∧
      sortedGenerations r.frozen = .ok g.generations) s := by
  refine wp_after fun _ _ => wp_lifted fun _ _ => ?_
  refine Prog.wp_bind_of wp_publishStream ?_ (fun _ _ _ => trivial) fun _ _ => trivial
  rintro _ s₁ ⟨hdatabase, hdumped⟩
  refine wp_lifted fun _ _ => wp_lifted fun assertions hassertions => ?_
  refine Prog.wp_bind_of (wp_grows _ s₁) ?_ (fun _ _ _ => trivial) fun _ _ => trivial
  intro _ s₂ hgrows
  refine wp_lifted fun hashes hhashes => ?_
  refine Prog.wp_bind_of (Prog.wp_and _ _ wp_publishStream (wp_grows _ s₂)) ?_
    (fun _ _ _ => trivial) fun _ _ => trivial
  rintro _ s₃ ⟨⟨hconfig, hconfigured⟩, hgrows'⟩
  refine wp_lifted fun tools htools => wp_lifted fun revision _ => wp_ensured fun _ =>
    wp_lifted fun generations hgenerations => wp_returned ?_
  exact ⟨rfl, rfl, hgrows' _ _ (hgrows _ _ hdatabase), hconfig, ⟨hdumped, hconfigured⟩,
    hassertions, htools, hhashes, hgenerations⟩

theorem wp_publishManifest {s : Site} :
    (publishManifest b r g).wp disk (whenReturned fun sealed s' =>
      (∃ manifest, authenticateManifest (manifestBody b r g) b.manifestAuthenticationKey
        b.manifestAuthenticationKeyId = .ok manifest ∧
          r.sealManifest (canonicalJson manifest) = some sealed) ∧
      s'.remote.lookup (r.manifestKey b) = some sealed) s := by
  refine wp_lifted fun manifest hmanifest => wp_after fun _ s => ?_
  split
  · exact wp_thrown
  · next sealed hsealed =>
    by_cases hthere : r.manifestKey b ∈ s.remote
    · have hupload : (SiteCall.upload sealed (r.manifestKey b)).serve s = (false, s) :=
        if_pos hthere
      exact wp_site hupload trivial (wp_ensured fun hfalse => absurd hfalse Bool.false_ne_true)
    · have hupload : (SiteCall.upload sealed (r.manifestKey b)).serve s =
        (true, s.put (r.manifestKey b) sealed) := if_neg hthere
      refine wp_site hupload trivial (wp_ensured fun _ => ?_)
      have hmeasure : (SiteCall.sizeAndSha256 (r.manifestKey b)).serve
          (s.put (r.manifestKey b) sealed) =
            (((s.put (r.manifestKey b) sealed).remote.lookup (r.manifestKey b)).map
              Files.sizeAndSha256, s.put (r.manifestKey b) sealed) := rfl
      refine wp_site hmeasure trivial (wp_ensured fun _ => wp_returned ?_)
      exact ⟨⟨manifest, hmanifest, hsealed⟩, Site.lookup_put ..⟩

/-- Where a run has come to its marker, its point is complete. -/
theorem wp_preparePoint {s : Site} (hnative : NativeStages b s) :
    (preparePoint b r).wp disk (whenReturned fun point s' =>
      CompletePoint b r point.1 point.2 s'.remote) s := by
  refine wp_lifted fun _ _ => ?_
  refine Prog.wp_bind_of (wp_unmarked (b := b) (early_inject ..) s) ?_ (fun _ _ _ => trivial)
    fun _ _ => trivial
  intro _ s₁ hfirst
  refine wp_lifted fun files hfiles => ?_
  refine Prog.wp_bind_of (wp_finalizeFiles (hfirst.native hnative)) ?_ (fun _ _ _ => trivial)
    fun _ _ => trivial
  intro fileObjects s₂ hobjects
  refine Prog.wp_bind_of (Prog.wp_and _ _ wp_gather (wp_grows _ s₂)) ?_ (fun _ _ _ => trivial)
    fun _ _ => trivial
  rintro g s₃ ⟨⟨rfl, rfl, hdatabase, hconfig, hsucceeded, hassertions, htools, hhashes,
    hgenerations⟩, hgrows⟩
  refine Prog.wp_bind_of (Prog.wp_and _ _ wp_publishManifest (wp_grows _ s₃)) ?_
    (fun _ _ _ => trivial) fun _ _ => trivial
  rintro sealed s₄ ⟨⟨hmanifest, hpublished⟩, hgrows'⟩
  refine Prog.wp_bind_of (wp_grows _ s₄) ?_ (fun _ _ _ => trivial) fun _ _ => trivial
  intro _ s₅ hgrows''
  have hthen {key : String} {content : Bytes} (h : s₃.remote.lookup key = some content) :
      s₅.remote.lookup key = some content := hgrows'' _ _ (hgrows' _ _ h)
  refine wp_returned ⟨hfiles, ?_, hthen hdatabase, hthen hconfig, hsucceeded, hassertions,
    htools, hhashes, hgenerations, hmanifest, hgrows'' _ _ hpublished⟩
  exact forall_published_grows (forall_published_grows hobjects hgrows) fun _ _ h => hthen h

/-! ### The keys of a point -/

omit [Sha256] [Ed25519] in
theorem get_dict_cons {name k : String} (h : name ≠ k) (value : Json) (fs : Fields) :
    (dict ((name, value) :: fs)).get k = (dict fs).get k := by
  rw [get_dict, get_dict, List.reverse_cons, lookupField_append]
  have hnone : lookupField k [(name, value)] = none := by
    simp only [lookupField, if_neg (Ne.symm h)]
  rw [hnone, Option.or_none]

omit [Ed25519] in
/-- The key of a file's object in the manifest, and its name. -/
theorem Published.item {remote : Bucket} {item : Fields} (h : Published b remote f item)
    (id : String) : itemText (dict (("backup_id", .str id) :: item)) "key" = b.casKey f.digest ∧
      itemText (dict (("backup_id", .str id) :: item)) "name" = f.name := by
  constructor
  · rw [itemText, get_dict_cons (by decide), h.key]
    rfl
  · rw [itemText, get_dict_cons (by decide), h.name]
    rfl

omit [Sha256] [Ed25519] in
theorem removeAge_casKey (digest : String) :
    removeAge (b.casKey digest) ++ ".json" = b.casMetaKey digest := by
  have hkey : (b.casKey digest).toList =
      (b.pre ++ "/objects/sha256/" ++ digest ++ "/" ++ b.recipientKeyId).toList ++
        ".age".toList := by
    rw [BackupBuilder.casKey, String.toList_append]
  have hends : Text.endsWith (b.casKey digest) ".age" = true := by
    rw [Text.endsWith, hkey, List.isSuffixOf_iff_suffix]
    exact List.suffix_append ..
  rw [removeAge, if_pos hends, hkey, List.length_append,
    show ".age".toList.length = 4 from rfl, Nat.add_sub_cancel, List.take_left,
    String.ofList_toList, BackupBuilder.casMetaKey]

omit [Ed25519] in
/-- What the marker says of the objects of the files. -/
theorem fileObjects_keys {remote : Bucket} {files : List SourceFile} {items : List Fields}
    (h : List.Forall₂ (Published b remote) files items) (id : String) :
    let objects := items.map fun item => dict (("backup_id", .str id) :: item)
    objects.map (itemText · "key") = files.map (fun f => b.casKey f.digest) ∧
      (objects.filter fun item => Text.startsWith (itemText item "name") "file:").map
        (fun item => removeAge (itemText item "key") ++ ".json") =
          files.map fun f => b.casMetaKey f.digest := by
  induction h with
  | nil => exact ⟨rfl, rfl⟩
  | @cons f item files items hitem _ ih =>
    obtain ⟨hkeys, hmetas⟩ := ih
    obtain ⟨hkey, hname⟩ := hitem.item id
    have hfile : Text.startsWith f.name "file:" = true := by
      rw [Text.startsWith, SourceFile.name, String.toList_append, List.isPrefixOf_iff_prefix]
      exact List.prefix_append ..
    constructor
    · simp only [List.map_cons, hkey, hkeys]
    · simp only [List.map_cons, List.filter_cons, hname, hfile, if_true, hkey, removeAge_casKey,
        hmetas]

/-- The keys that the marker names: those of the point and of both halves of its files. -/
theorem completionObjectKeys_eq {remote : Bucket} (h : CompletePoint b r g sealed remote) :
    completionObjectKeys b r g = [r.databaseKey b, r.configKey b] ++
      g.files.map (fun f => b.casKey f.digest) ++ [r.manifestKey b] ++
      g.files.map (fun f => b.casMetaKey f.digest) := by
  obtain ⟨hkeys, hmetas⟩ := fileObjects_keys h.files r.backupId
  have hname (name key : String) (x : Streamed) : itemText (streamObject r name key x) "name" =
      name ∧ itemText (streamObject r name key x) "key" = key := by
    constructor
    · rw [itemText, streamObject, get_dict]
      rfl
    · rw [itemText, streamObject, get_dict]
      rfl
  simp only [completionObjectKeys, manifestObjects, List.map_append, List.filter_append, hkeys,
    hmetas, List.map_cons, List.map_nil, List.filter_cons, hname]
  rfl

omit [Ed25519] in
theorem published_of_mem {remote : Bucket} {files : List SourceFile} {items : List Fields}
    (h : List.Forall₂ (Published b remote) files items) (hf : f ∈ files) :
    ∃ item, Published b remote f item := by
  induction h with
  | nil => cases hf
  | cons hitem _ ih =>
    rcases List.mem_cons.mp hf with rfl | hf
    · exact ⟨_, hitem⟩
    · exact ih hf

/-- Whatever a marker names is there. -/
theorem CompletePoint.mem {remote : Bucket} (h : CompletePoint b r g sealed remote) {key : String}
    (hkey : key ∈ completionObjectKeys b r g) : key ∈ remote := by
  have hfile : ∀ f ∈ g.files, b.casKey f.digest ∈ remote ∧ b.casMetaKey f.digest ∈ remote := by
    intro f hf
    obtain ⟨item, hitem⟩ := published_of_mem h.files hf
    obtain ⟨there, content, metadata, hcipher, hmeta, -⟩ := hitem.halves
    exact ⟨Finmap.mem_of_lookup_eq_some hcipher, Finmap.mem_of_lookup_eq_some hmeta⟩
  rw [completionObjectKeys_eq h] at hkey
  simp only [List.mem_append, List.mem_cons, List.not_mem_nil, or_false, List.mem_map] at hkey
  rcases hkey with (((rfl | rfl) | ⟨f, hf, rfl⟩) | rfl) | ⟨f, hf, rfl⟩
  · exact Finmap.mem_of_lookup_eq_some h.database
  · exact Finmap.mem_of_lookup_eq_some h.config
  · exact (hfile f hf).1
  · exact Finmap.mem_of_lookup_eq_some h.published
  · exact (hfile f hf).2

end Points

end ProductPdfQr.BackupRecovery
