/-
# Interrupted publications

As long as the source does not change, a publication that died can be taken up again wherever it
died: the ciphertext that was staged is the one that is published, and its metadata is computed
again from the same source.  The stage is given up only when both halves are on the remote.
-/
import ProductPdfQr.BackupRecovery.Builder

namespace ProductPdfQr.BackupRecovery

open Effect Json Rclone Restore Restore.Verified

/-! ## 1. Stages -/

namespace Site

variable (s : Site) (digest : String) (t t' : Option Stage)

@[simp] theorem setStage_stages : (s.setStage digest t).stages digest = t := Function.update_self ..

theorem setStage_stages_ne {other : String} (h : other ≠ digest) :
    (s.setStage digest t).stages other = s.stages other := Function.update_of_ne h ..

@[simp] theorem setStage_remote : (s.setStage digest t).remote = s.remote := rfl

@[simp] theorem setStage_setStage :
    (s.setStage digest t).setStage digest t' = s.setStage digest t' := by
  simp [setStage]

@[simp] theorem setStage_self : s.setStage digest (s.stages digest) = s := by
  simp [setStage]

@[simp] theorem changeStage_setStage (stage : Stage) (change : Stage → Stage) :
    (s.setStage digest (some stage)).changeStage digest change =
      s.setStage digest (some (change stage)) := by
  simp [changeStage]

/-- The site with one object more. -/
def put (key : String) (content : Bytes) : Site :=
  { s with remote := s.remote.insert key content }

@[simp] theorem put_stages (key : String) (content : Bytes) :
    (s.put key content).stages = s.stages := rfl

theorem lookup_put (key : String) (content : Bytes) :
    (s.put key content).remote.lookup key = some content := Finmap.lookup_insert _

theorem lookup_put_ne {key other : String} (h : other ≠ key) (content : Bytes) :
    (s.put key content).remote.lookup other = s.remote.lookup other :=
  Finmap.lookup_insert_of_ne _ h

theorem notMem_put {key other : String} (h : other ≠ key) (content : Bytes)
    (hnot : other ∉ s.remote) : other ∉ (s.put key content).remote := by
  rw [← Finmap.lookup_eq_none] at hnot ⊢
  rw [lookup_put_ne s h, hnot]

end Site

variable [Sha256]

theorem wp_site {α : Type} {c : SiteCall} {s s' : Site} {answer : c.Answer}
    {Q : Post Site Exn α} {f : c.Answer → SiteProg α} (h : c.serve s = (answer, s'))
    (hcrashed : Q.crashed s) (hrest : (f answer).wp disk Q s') :
    (Prog.perform c >>= f).wp disk Q s := by
  have hanswer : (disk.step c s).1 = answer := congrArg Prod.fst h
  have hstate : (disk.step c s).2 = s' := congrArg Prod.snd h
  rw [Prog.wp_bind, Prog.wp_perform, hanswer, hstate]
  exact ⟨hcrashed, hrest⟩

theorem wp_site_last {c : SiteCall} {s s' : Site} {answer : c.Answer} {Q : Post Site Exn c.Answer}
    (h : c.serve s = (answer, s')) (hcrashed : Q.crashed s) (hdone : Q.returned answer s') :
    (Prog.perform c).wp disk Q s := by
  have hanswer : (disk.step c s).1 = answer := congrArg Prod.fst h
  have hstate : (disk.step c s).2 = s' := congrArg Prod.snd h
  rw [Prog.wp_perform, hanswer, hstate]
  exact ⟨hcrashed, hdone⟩

/-- The entries go one after the other. -/
theorem wp_dropEntries {digest : String} {Q : Post Site Exn Unit} {I : Stage → Prop} {s : Site}
    {entries : List Entry} (hstep : ∀ entry ∈ entries, ∀ t, I t → I (t.without entry))
    (hcrash : ∀ t, I t → Q.crashed (s.setStage digest (some t)))
    (hdone : ∀ t, I t → Q.returned () (s.setStage digest (some t))) {t : Stage} (ht : I t) :
    (dropEntries digest entries).wp disk Q (s.setStage digest (some t)) := by
  refine Prog.wp_forM (I := fun rest s' => (∀ entry ∈ rest, entry ∈ entries) ∧
    ∃ t, I t ∧ s' = s.setStage digest (some t)) ?_ ?_ entries _ ⟨fun _ h => h, t, ht, rfl⟩
  · rintro entry rest _ ⟨hrest, t, ht, rfl⟩
    have hserve : (SiteCall.drop digest entry).serve (s.setStage digest (some t)) =
        ((), s.setStage digest (some (t.without entry))) := by
      rw [SiteCall.serve, Site.changeStage_setStage]
    have hentry : I (t.without entry) := hstep entry (hrest entry List.mem_cons_self) t ht
    exact wp_site_last hserve (hcrash t ht)
      ⟨fun e he => hrest e (List.mem_cons_of_mem _ he), _, hentry, rfl⟩
  · rintro _ ⟨-, t, ht, rfl⟩
    exact hdone t ht

/-- The stage is gone. -/
theorem wp_removeTree {digest : String} {Q : Post Site Exn Unit} {s : Site} (order : List Entry)
    (hcrash : ∀ t, Q.crashed (s.setStage digest t))
    (hdone : Q.returned () (s.setStage digest none)) :
    (removeTree digest order).wp disk Q s := by
  have hself : Q.crashed s := by
    have := hcrash (s.stages digest)
    rwa [Site.setStage_self] at this
  have hlook : (SiteCall.stage digest).serve s = (s.stages digest, s) := rfl
  refine wp_site hlook hself ?_
  cases hstage : s.stages digest with
  | none =>
    dsimp only
    rw [Prog.wp_pure]
    rwa [← hstage, Site.setStage_self] at hdone
  | some stage =>
    have hstart : s = s.setStage digest (some stage) := by rw [← hstage, Site.setStage_self]
    have hentries : (dropEntries digest (order ++ List.replicate stage.residues .temporary ++
        [.ciphertext, .metadata])).wp disk
        ⟨fun _ s' => ∃ t, s' = s.setStage digest (some t), Q.raised, Q.crashed⟩
        (s.setStage digest (some stage)) := by
      refine wp_dropEntries (I := fun _ => True) (fun _ _ _ _ => trivial) (fun t _ => ?_)
        (fun t _ => ?_) trivial
      · exact hcrash _
      · exact ⟨t, rfl⟩
    rw [← hstart] at hentries
    refine Prog.wp_bind_of hentries ?_ (fun _ _ h => h) (fun _ h => h)
    rintro _ _ ⟨t, rfl⟩
    have hserve : (SiteCall.dropStage digest).serve (s.setStage digest (some t)) =
        ((), s.setStage digest none) := by
      rw [SiteCall.serve, Site.setStage_setStage]
    exact wp_site_last hserve (hcrash _) hdone

/-! ## 2. Where a publication may stand -/

section Publication

variable (b : BackupBuilder) (content : Bytes) (opens : Bytes → Option Bytes)

/-- A ciphertext of the content. -/
structure Sealed (sealed : Bytes) : Prop where
  opens : opens sealed = some content
  size : 0 < sealed.size

/-- What a stage holds while the source does not change. -/
structure Checkpoint (t : Stage) : Prop where
  staged : t.ciphertext = none → t.metadata = none
  sealed : ∀ sealed, t.ciphertext = some sealed → Sealed content opens sealed
  described : ∀ sealed metadata, t.ciphertext = some sealed → t.metadata = some metadata →
    metadata = canonicalJson (casMetadata b content sealed)

/-- What is staged stays staged. -/
def Stage.Later (t t' : Stage) : Prop :=
  (∀ sealed, t.ciphertext = some sealed → t'.ciphertext = some sealed) ∧
    ∀ metadata, t.metadata = some metadata → t'.metadata = some metadata

/-- Both halves are on the remote, and the ciphertext is one of the content. -/
def Whole (s : Site) : Prop :=
  ∃ sealed, s.remote.lookup (b.casKey (hexdigest content)) = some sealed ∧
    s.remote.lookup (b.casMetaKey (hexdigest content)) =
      some (canonicalJson (casMetadata b content sealed)) ∧ Sealed content opens sealed

/-- Where a publication may stand: nothing is on the remote, or the ciphertext that is staged, or
both halves. -/
inductive Resumable (s : Site) : Prop
  | fresh (hcipher : b.casKey (hexdigest content) ∉ s.remote)
      (hmeta : b.casMetaKey (hexdigest content) ∉ s.remote)
      (hstage : ∀ t, s.stages (hexdigest content) = some t → Checkpoint b content opens t)
  | half (sealed : Bytes) (hcipher : s.remote.lookup (b.casKey (hexdigest content)) = some sealed)
      (hmeta : b.casMetaKey (hexdigest content) ∉ s.remote) (hsealed : Sealed content opens sealed)
      (hstage : ∃ residues, s.stages (hexdigest content) = some ⟨residues, some sealed,
        some (canonicalJson (casMetadata b content sealed))⟩)
  | whole (h : Whole b content opens s)

/-- Nothing is left to do. -/
structure Settled (s : Site) : Prop where
  whole : Whole b content opens s
  unstaged : s.stages (hexdigest content) = none

/-- What a run meets that finds the source as the inventory did. -/
structure Unchanged (w : Weather) : Prop where
  fed : w.fed = some content
  measured : w.measured = some content
  sealed : Sealed content opens w.sealed

variable {b content opens} {f : SourceFile}

theorem SourceFile.digest_eq : hexdigest f.content = f.digest := rfl

theorem casMetadata_get {plain sealed : Bytes} :
    (casMetadata b plain sealed).get "schema_version" = .int 1 ∧
    (casMetadata b plain sealed).get "plaintext_size" = .int plain.size ∧
    (casMetadata b plain sealed).get "plaintext_sha256" = .str (hexdigest plain) ∧
    (casMetadata b plain sealed).get "ciphertext_size" = .int sealed.size ∧
    (casMetadata b plain sealed).get "ciphertext_sha256" = .str (hexdigest sealed) ∧
    (casMetadata b plain sealed).get "recipient_key_id" = .str b.recipientKeyId := by
  simp only [casMetadata, get_dict]
  exact ⟨rfl, rfl, rfl, rfl, rfl, rfl⟩

theorem plain_casMetadata (plain sealed : Bytes) : Plain (casMetadata b plain sealed) := by
  refine plain_dict ?_
  simp [PlainFields, Json.Plain]

theorem loads_casMetadata (plain sealed : Bytes) :
    (loads (canonicalJson (casMetadata b plain sealed))).mapError Exn.loadError =
      .ok (casMetadata b plain sealed) := by
  rw [loads_canonicalJson (plain_casMetadata plain sealed)]
  rfl

theorem describes_casMetadata (plain sealed : Bytes) :
    describes (casMetadata b plain sealed) (Files.sizeAndSha256 sealed) = true := by
  obtain ⟨-, -, -, hsize, hdigest, -⟩ := @casMetadata_get _ b plain sealed
  rw [describes, hsize, hdigest, Files.sizeAndSha256, pyEq_refl, pyEq_refl]
  rfl

theorem validate_casMetadata (hhex : Sha256.HexDigests) {sealed : Bytes} (h : 0 < sealed.size) :
    validateCasMetadata b (casMetadata b f.content sealed) f = .ok () := by
  obtain ⟨hversion, hplain, hdigest, hsize, hsha, hkey⟩ := @casMetadata_get _ b f.content sealed
  have hkeys : (casMetadata b f.content sealed).hasKeys metadataFields = true := by
    refine hasKeys_dict fun k => ?_
    simp [metadataFields]
  refine check_of_true ?_ _
  rw [hkeys, hversion, hplain, hdigest, hsize, hsha, hkey, SourceFile.digest]
  simp [pyEq_refl, Json.int?, Json.str?, hhex sealed, h]

theorem Checkpoint.without_temporary {t : Stage} (h : Checkpoint b f.content opens t) :
    Checkpoint b f.content opens (t.without .temporary) :=
  ⟨h.staged, h.sealed, h.described⟩

theorem Checkpoint.residues {t : Stage} (h : Checkpoint b f.content opens t) (n : Nat) :
    Checkpoint b f.content opens { t with residues := n } :=
  ⟨h.staged, h.sealed, h.described⟩

/-- What is staged with its metadata. -/
def Stage.of (b : BackupBuilder) (content : Bytes) (residues : Nat) (sealed : Bytes) : Stage :=
  ⟨residues, some sealed, some (canonicalJson (casMetadata b content sealed))⟩

theorem checkpoint_of {residues : Nat} {sealed : Bytes} (h : Sealed f.content opens sealed) :
    Checkpoint b f.content opens (Stage.of b f.content residues sealed) := by
  refine ⟨fun hnone => (nomatch hnone), fun other hother => ?_, fun other content hother hc => ?_⟩
  · obtain rfl := Option.some.inj hother
    exact h
  · obtain rfl := Option.some.inj hother
    exact (Option.some.inj hc).symm

/-- The metadata is written. -/
theorem wp_writeMetadata {α : Type} {Q : Post Site Exn α} {k : Unit → SiteProg α} {s : Site}
    {t : Stage} {metadata : Json} (hcrash : Q.crashed (s.setStage f.digest (some t)))
    (hcrash' : Q.crashed (s.setStage f.digest (some { t with residues := t.residues + 1 })))
    (hrest : (k ()).wp disk Q (s.setStage f.digest
      (some { t with metadata := some (canonicalJson metadata) }))) :
    (writeMetadata f.digest metadata >>= k).wp disk Q (s.setStage f.digest (some t)) := by
  have hmake : (SiteCall.makeTemporary f.digest).serve (s.setStage f.digest (some t)) =
      ((), s.setStage f.digest (some { t with residues := t.residues + 1 })) := by
    rw [SiteCall.serve, Site.changeStage_setStage]
  have hplace : (SiteCall.placeMetadata f.digest (canonicalJson metadata)).serve
      (s.setStage f.digest (some { t with residues := t.residues + 1 })) =
        ((), s.setStage f.digest (some { t with metadata := some (canonicalJson metadata) })) := by
    rw [SiteCall.serve, Site.changeStage_setStage]
    rfl
  rw [writeMetadata, bind_assoc]
  exact wp_site hmake hcrash (wp_site hplace hcrash' hrest)

/-- A ciphertext is staged. -/
theorem wp_encryptFileToPath {α : Type} {Q : Post Site Exn α} {s : Site} {t : Stage} {w : Weather}
    {plain : Bytes} (hfed : w.fed = some plain)
    (hcrash : Q.crashed (s.setStage f.digest (some t)))
    (hcrash' : Q.crashed (s.setStage f.digest (some { t with residues := t.residues + 1 }))) :
    (encryptFileToPath f.digest w).wp disk ⟨fun a s' => a = plain ∧
        s' = s.setStage f.digest (some { t with ciphertext := some w.sealed }), Q.raised,
      Q.crashed⟩ (s.setStage f.digest (some t)) := by
  have hmake : (SiteCall.makeTemporary f.digest).serve (s.setStage f.digest (some t)) =
      ((), s.setStage f.digest (some { t with residues := t.residues + 1 })) := by
    rw [SiteCall.serve, Site.changeStage_setStage]
  have hplace : (SiteCall.placeCiphertext f.digest w.sealed).serve
      (s.setStage f.digest (some { t with residues := t.residues + 1 })) =
        ((), s.setStage f.digest (some { t with ciphertext := some w.sealed })) := by
    rw [SiteCall.serve, Site.changeStage_setStage]
    rfl
  refine wp_site hmake hcrash ?_
  rw [hfed]
  refine wp_site hplace hcrash' ?_
  rw [Prog.wp_pure]
  exact ⟨rfl, rfl⟩

omit [Sha256] in
theorem Stage.Later.refl (t : Stage) : Stage.Later t t := ⟨fun _ h => h, fun _ h => h⟩

/-- What the stage held when the publication began is in it. -/
def Site.Kept (s : Site) (digest : String) (t : Stage) : Prop :=
  ∀ t₀, s.stages digest = some t₀ → Stage.Later t₀ t

/-- From a stage without residues, a ciphertext of the file is staged with its metadata. -/
theorem wp_completeStage (hhex : Sha256.HexDigests) {s : Site} {w : Weather}
    (hw : Unchanged f.content opens w)
    {Q : Post Site Exn (Bytes × Json)} {t : Stage} (ht : Checkpoint b f.content opens t)
    (hkept : s.Kept f.digest t)
    (hcrash : ∀ t, Checkpoint b f.content opens t → s.Kept f.digest t →
      Q.crashed (s.setStage f.digest (some t)))
    (hdone : ∀ residues sealed, Sealed f.content opens sealed →
      s.Kept f.digest (Stage.of b f.content residues sealed) →
        Q.returned (sealed, casMetadata b f.content sealed)
          (s.setStage f.digest (some (Stage.of b f.content residues sealed)))) :
    (completeStage b f w t).wp disk Q (s.setStage f.digest (some t)) := by
  obtain ⟨residues, ciphertext, content⟩ := t
  cases ciphertext with
  | some sealed =>
    have hsealed : Sealed f.content opens sealed := ht.sealed sealed rfl
    cases content with
    | some content =>
      obtain rfl : content = canonicalJson (casMetadata b f.content sealed) :=
        ht.described sealed content rfl rfl
      simp only [completeStage, loads_casMetadata, Prog.liftExcept_ok_bind,
        validate_casMetadata hhex hsealed.size, describes_casMetadata, Prog.ensure_true_bind,
        Prog.wp_pure]
      exact hdone residues sealed hsealed hkept
    | none =>
      simp only [completeStage, hw.measured, f.digest_eq, decide_true, Bool.and_self,
        Prog.ensure_true_bind]
      refine wp_writeMetadata (hcrash _ ht hkept) ?_ ?_
      · exact hcrash _ (ht.residues _) fun t₀ h₀ => hkept t₀ h₀
      · rw [Prog.wp_pure]
        refine hdone residues sealed hsealed fun t₀ h₀ => ⟨(hkept t₀ h₀).1, fun other hother => ?_⟩
        cases (hkept t₀ h₀).2 other hother
  | none =>
    obtain rfl : content = none := ht.staged rfl
    have hempty : ∀ t₀, s.stages f.digest = some t₀ → Stage.Later t₀ ⟨0, none, none⟩ :=
      fun t₀ h₀ => hkept t₀ h₀
    have hlater {t : Stage} : s.Kept f.digest t := fun t₀ h₀ =>
      ⟨fun other hother => (nomatch (hempty t₀ h₀).1 other hother),
        fun other hother => (nomatch (hempty t₀ h₀).2 other hother)⟩
    have hmade : Checkpoint b f.content opens ⟨residues + 1, none, none⟩ := ht.residues _
    have hplaced : Checkpoint b f.content opens ⟨residues, some w.sealed, none⟩ := by
      refine ⟨fun hnone => (nomatch hnone), fun other hother => ?_, fun _ _ _ h => (nomatch h)⟩
      obtain rfl := Option.some.inj hother
      exact hw.sealed
    simp only [completeStage]
    refine Prog.wp_bind_of (wp_encryptFileToPath hw.fed (hcrash _ ht hkept)
      (hcrash _ hmade hlater)) ?_ (fun _ _ h => h) (fun _ h => h)
    rintro _ _ ⟨rfl, rfl⟩
    simp only [f.digest_eq, decide_true, Bool.and_self, if_true]
    refine wp_writeMetadata (hcrash _ hplaced hlater) ?_ ?_
    · exact hcrash _ (hplaced.residues _) hlater
    · rw [Prog.wp_pure]
      exact hdone residues w.sealed hw.sealed hlater

/-- Whatever was staged before, a ciphertext of the file is staged with its metadata; and what was
staged stays so until then. -/
theorem wp_stagedObject (hhex : Sha256.HexDigests) {s : Site} {w : Weather}
    (hw : Unchanged f.content opens w)
    {Q : Post Site Exn (Bytes × Json)}
    (hstage : ∀ t, s.stages f.digest = some t → Checkpoint b f.content opens t)
    (hself : Q.crashed s)
    (hcrash : ∀ t, Checkpoint b f.content opens t → s.Kept f.digest t →
      Q.crashed (s.setStage f.digest (some t)))
    (hdone : ∀ residues sealed, Sealed f.content opens sealed →
      s.Kept f.digest (Stage.of b f.content residues sealed) →
        Q.returned (sealed, casMetadata b f.content sealed)
          (s.setStage f.digest (some (Stage.of b f.content residues sealed)))) :
    (stagedObject b f w).wp disk Q s := by
  have hmake : (SiteCall.makeStage f.digest).serve s =
      ((), s.setStage f.digest (some ((s.stages f.digest).getD ⟨0, none, none⟩))) := rfl
  refine wp_site hmake hself ?_
  generalize hstart : (s.stages f.digest).getD ⟨0, none, none⟩ = t
  have ht : Checkpoint b f.content opens t := by
    cases hfound : s.stages f.digest with
    | none =>
      rw [← hstart, hfound]
      exact ⟨fun _ => rfl, fun _ h => (nomatch h), fun _ _ h _ => (nomatch h)⟩
    | some t₀ =>
      rw [← hstart, hfound]
      exact hstage t₀ hfound
  have hkept : s.Kept f.digest t := by
    intro t₀ h₀
    rw [← hstart, h₀]
    exact Stage.Later.refl t₀
  have hlook : (SiteCall.stage f.digest).serve (s.setStage f.digest (some t)) =
      (some t, s.setStage f.digest (some t)) := by
    rw [SiteCall.serve, Site.setStage_stages]
  refine wp_site hlook (hcrash t ht hkept) ?_
  simp only [Option.getD_some]
  have hdrop : (dropEntries f.digest (List.replicate t.residues .temporary)).wp disk
      ⟨fun _ s' => ∃ n, s' = s.setStage f.digest (some { t with residues := n }), Q.raised,
        Q.crashed⟩ (s.setStage f.digest (some t)) := by
    refine wp_dropEntries (I := fun t' => ∃ n, t' = { t with residues := n }) ?_ ?_ ?_ ⟨_, rfl⟩
    · rintro entry hentry _ ⟨n, rfl⟩
      obtain rfl := List.eq_of_mem_replicate hentry
      exact ⟨n - 1, rfl⟩
    · rintro _ ⟨n, rfl⟩
      exact hcrash _ (ht.residues n) fun t₀ h₀ => hkept t₀ h₀
    · rintro _ ⟨n, rfl⟩
      exact ⟨n, rfl⟩
  refine Prog.wp_bind_of hdrop ?_ (fun _ _ h => h) (fun _ h => h)
  rintro _ _ ⟨n, rfl⟩
  have hsame : completeStage b f w t =
      completeStage b f w { t with residues := n } := rfl
  rw [hsame]
  exact wp_completeStage hhex hw (ht.residues n) (fun t₀ h₀ => hkept t₀ h₀) hcrash hdone

/-! ## 4. The two halves -/

/-- The ciphertext is uploaded. -/
theorem wp_uploadCiphertext {α : Type} {Q : Post Site Exn α} {k : Unit → SiteProg α} {s : Site}
    {key : String} {sealed : Bytes} {metadata : Json} (habsent : key ∉ s.remote)
    (hdescribes : describes metadata (Files.sizeAndSha256 sealed) = true) (hcrash : Q.crashed s)
    (hcrash' : Q.crashed (s.put key sealed)) (hrest : (k ()).wp disk Q (s.put key sealed)) :
    (publishCiphertext key false sealed metadata >>= k).wp disk Q s := by
  have hupload : (SiteCall.upload sealed key).serve s = (true, s.put key sealed) := if_neg habsent
  have hmeasure : (SiteCall.sizeAndSha256 key).serve (s.put key sealed) =
      (some (Files.sizeAndSha256 sealed), s.put key sealed) := by
    rw [SiteCall.serve, Site.lookup_put]
    rfl
  rw [publishCiphertext, if_neg Bool.false_ne_true, bind_assoc]
  refine wp_site hupload hcrash ?_
  rw [Prog.ensure_true_bind, bind_assoc]
  refine wp_site hmeasure hcrash' ?_
  rw [Option.any_some, hdescribes, Prog.ensure_true_bind]
  exact hrest

/-- The ciphertext is there. -/
theorem wp_checkCiphertext {α : Type} {Q : Post Site Exn α} {k : Unit → SiteProg α} {s : Site}
    {key : String} {sealed other : Bytes} {metadata : Json}
    (hthere : s.remote.lookup key = some sealed)
    (hdescribes : describes metadata (Files.sizeAndSha256 sealed) = true) (hcrash : Q.crashed s)
    (hrest : (k ()).wp disk Q s) :
    (publishCiphertext key true other metadata >>= k).wp disk Q s := by
  have hmeasure : (SiteCall.sizeAndSha256 key).serve s =
      (some (Files.sizeAndSha256 sealed), s) := by
    rw [SiteCall.serve, hthere]
    rfl
  rw [publishCiphertext, if_pos rfl, bind_assoc]
  refine wp_site hmeasure hcrash ?_
  rw [Option.any_some, hdescribes, Prog.ensure_true_bind]
  exact hrest

/-- The metadata is uploaded. -/
theorem wp_uploadMetadata {α : Type} {Q : Post Site Exn α} {k : Unit → SiteProg α} {s : Site}
    {key : String} {metadata : Json} (habsent : key ∉ s.remote) (hcrash : Q.crashed s)
    (hcrash' : Q.crashed (s.put key (canonicalJson metadata)))
    (hrest : (k ()).wp disk Q (s.put key (canonicalJson metadata))) :
    (publishMetadata key false metadata >>= k).wp disk Q s := by
  have hupload : (SiteCall.upload (canonicalJson metadata) key).serve s =
      (true, s.put key (canonicalJson metadata)) := if_neg habsent
  have hread : (SiteCall.readBytes key).serve (s.put key (canonicalJson metadata)) =
      (some (canonicalJson metadata), s.put key (canonicalJson metadata)) := by
    rw [SiteCall.serve, Site.lookup_put]
  rw [publishMetadata, if_neg Bool.false_ne_true, bind_assoc]
  refine wp_site hupload hcrash ?_
  rw [Prog.ensure_true_bind, bind_assoc]
  refine wp_site hread hcrash' ?_
  rw [decide_eq_true rfl, Prog.ensure_true_bind]
  exact hrest

/-! ### Keys -/

variable {digest digest' : String}

omit [Sha256] in
theorem casKey_injective (h : b.casKey digest = b.casKey digest') : digest = digest' := by
  have hsplit (d : String) : b.casKey d =
      b.pre ++ "/objects/sha256/" ++ d ++ ("/" ++ b.recipientKeyId ++ ".age") := by
    simp only [BackupBuilder.casKey, String.append_assoc]
  rw [hsplit, hsplit] at h
  exact append_cancel h

omit [Sha256] in
theorem casMetaKey_injective (h : b.casMetaKey digest = b.casMetaKey digest') :
    digest = digest' := by
  have hsplit (d : String) : b.casMetaKey d =
      b.pre ++ "/objects/sha256/" ++ d ++ ("/" ++ b.recipientKeyId ++ ".json") := by
    simp only [BackupBuilder.casMetaKey, String.append_assoc]
  rw [hsplit, hsplit] at h
  exact append_cancel h

omit [Sha256] in
theorem casMetaKey_ne_casKey : b.casMetaKey digest ≠ b.casKey digest' := by
  intro h
  have hlast := congrArg (fun chars => chars.reverse.head?) (String.toList_inj.mpr h)
  simp [BackupBuilder.casKey, BackupBuilder.casMetaKey, String.toList_append] at hlast

/-! ## 5. A publication -/

/-- Where both halves are on the remote, the rest is cleared away. -/
theorem wp_removeTree_whole {α : Type} {Q : Post Site Exn α} {k : Unit → SiteProg α} {s : Site}
    (order : List Entry) (h : Whole b content opens s)
    (hcrash : ∀ s', Resumable b content opens s' → Q.crashed s')
    (hrest : ∀ s', Settled b content opens s' → (k ()).wp disk Q s') :
    (removeTree (hexdigest content) order >>= k).wp disk Q s := by
  refine (Prog.wp_bind _ _ _).mpr (wp_removeTree order (fun t => hcrash _ (.whole h)) ?_)
  exact hrest _ ⟨h, Site.setStage_stages ..⟩

/-- The half of the metadata, and what is left to do after it. -/
theorem wp_finish {w : Weather} {s : Site} {sealed : Bytes} {item : Fields}
    (hsealed : Sealed f.content opens sealed)
    (hcipher : s.remote.lookup (b.casKey f.digest) = some sealed)
    (hmeta : b.casMetaKey f.digest ∉ s.remote) (h : Resumable b f.content opens s) :
    (do
      publishMetadata (b.casMetaKey f.digest) false (casMetadata b f.content sealed)
      removeTree f.digest w.order
      return item : SiteProg Fields).wp disk ⟨fun _ s' => Settled b f.content opens s',
        fun _ _ => False, Resumable b f.content opens⟩ s := by
  have hwhole : Whole b f.content opens
      (s.put (b.casMetaKey f.digest) (canonicalJson (casMetadata b f.content sealed))) := by
    refine ⟨sealed, ?_, Site.lookup_put .., hsealed⟩
    rw [← hcipher]
    exact s.lookup_put_ne casMetaKey_ne_casKey.symm _
  refine wp_uploadMetadata hmeta h (.whole hwhole) ?_
  refine wp_removeTree_whole w.order hwhole (fun _ h => h) fun s' hs' => ?_
  rw [Prog.wp_pure]
  exact hs'

/-- A publication that finds the source as the inventory did comes to its end wherever it stands,
and can be taken up again wherever it is cut. -/
theorem wp_publishFileObject (hhex : Sha256.HexDigests) {w : Weather}
    (hw : Unchanged f.content opens w) {s : Site} (h : Resumable b f.content opens s) :
    (publishFileObject b f w).wp disk ⟨fun _ s' => Settled b f.content opens s', fun _ _ => False,
      Resumable b f.content opens⟩ s := by
  have hask (key : String) : (SiteCall.exists key).serve s = (decide (key ∈ s.remote), s) := rfl
  refine wp_site (hask _) h (wp_site (hask _) h ?_)
  cases h with
  | fresh hcipher hmeta hstage =>
    rw [f.digest_eq] at hcipher hmeta hstage
    rw [decide_eq_false hcipher, decide_eq_false hmeta, Bool.and_self, if_neg Bool.false_ne_true]
    have hfresh (t : Stage) (ht : Checkpoint b f.content opens t) :
        Resumable b f.content opens (s.setStage f.digest (some t)) := by
      refine .fresh hcipher hmeta fun t' ht' => ?_
      rw [f.digest_eq, Site.setStage_stages] at ht'
      exact Option.some.inj ht' ▸ ht
    refine (Prog.wp_bind _ _ _).mpr (wp_stagedObject hhex hw hstage (.fresh hcipher hmeta hstage)
      (fun t ht _ => hfresh t ht) fun residues sealed hsealed _ => ?_)
    generalize hstaged : s.setStage f.digest (some (Stage.of b f.content residues sealed)) = s₁
    have hstaged' : s₁.stages f.digest = some (Stage.of b f.content residues sealed) := by
      rw [← hstaged, Site.setStage_stages]
    have hfirst : Resumable b f.content opens s₁ := hstaged ▸ hfresh _ (checkpoint_of hsealed)
    have hcipher₁ : b.casKey f.digest ∉ s₁.remote := hstaged ▸ hcipher
    have hmeta₁ : b.casMetaKey f.digest ∉ s₁.remote := hstaged ▸ hmeta
    have hhalf : Resumable b f.content opens (s₁.put (b.casKey f.digest) sealed) :=
      .half sealed (Site.lookup_put ..) (s₁.notMem_put casMetaKey_ne_casKey sealed hmeta₁) hsealed
        ⟨residues, hstaged'⟩
    refine wp_uploadCiphertext hcipher₁ (describes_casMetadata ..) hfirst hhalf ?_
    exact wp_finish hsealed (Site.lookup_put ..)
      (s₁.notMem_put casMetaKey_ne_casKey sealed hmeta₁) hhalf
  | half sealed hcipher hmeta hsealed hstage =>
    rw [f.digest_eq] at hcipher hmeta hstage
    have hthere : b.casKey f.digest ∈ s.remote := Finmap.mem_of_lookup_eq_some hcipher
    rw [decide_eq_true hthere, decide_eq_false hmeta, Bool.and_false, if_neg Bool.false_ne_true]
    obtain ⟨n, hn⟩ := hstage
    have hstays (t : Stage) (ht : Checkpoint b f.content opens t) (hkept : s.Kept f.digest t) :
        Resumable b f.content opens (s.setStage f.digest (some t)) := by
      refine .half sealed hcipher hmeta hsealed ⟨t.residues, ?_⟩
      obtain ⟨hcipher', hmeta'⟩ := hkept _ hn
      rw [f.digest_eq, Site.setStage_stages, ← hcipher' sealed rfl, ← hmeta' _ rfl]
    have hcheckpoint : ∀ t, s.stages f.digest = some t → Checkpoint b f.content opens t := by
      intro t ht
      obtain rfl := Option.some.inj (hn.symm.trans ht)
      exact checkpoint_of hsealed
    refine (Prog.wp_bind _ _ _).mpr (wp_stagedObject hhex hw hcheckpoint
      (.half sealed hcipher hmeta hsealed ⟨n, hn⟩) hstays fun residues sealed' hsealed' hkept => ?_)
    obtain rfl : sealed' = sealed := Option.some.inj ((hkept _ hn).1 sealed rfl)
    have hfirst := hstays _ (@checkpoint_of _ _ _ _ residues _ hsealed) hkept
    refine wp_checkCiphertext hcipher (describes_casMetadata ..) hfirst ?_
    exact wp_finish hsealed hcipher hmeta hfirst
  | whole h =>
    obtain ⟨sealed, hcipher, hmeta, hsealed⟩ := id h
    rw [f.digest_eq] at hcipher hmeta
    have hthere : b.casKey f.digest ∈ s.remote := Finmap.mem_of_lookup_eq_some hcipher
    have hthere' : b.casMetaKey f.digest ∈ s.remote := Finmap.mem_of_lookup_eq_some hmeta
    rw [decide_eq_true hthere, decide_eq_true hthere', Bool.and_self, if_pos rfl, reuseObject]
    have hread : (SiteCall.readBytes (b.casMetaKey f.digest)).serve s =
        (some (canonicalJson (casMetadata b f.content sealed)), s) := by
      rw [SiteCall.serve, hmeta]
    have hmeasure : (SiteCall.sizeAndSha256 (b.casKey f.digest)).serve s =
        (some (Files.sizeAndSha256 sealed), s) := by
      rw [SiteCall.serve, hcipher]
      rfl
    refine wp_site hread (.whole h) ?_
    simp only [loads_casMetadata, Prog.liftExcept_ok_bind, validate_casMetadata hhex hsealed.size]
    refine wp_site hmeasure (.whole h) ?_
    rw [Option.any_some, describes_casMetadata, Prog.ensure_true_bind]
    refine wp_removeTree_whole w.order h (fun _ h => h) fun s' hs' => ?_
    rw [Prog.wp_pure]
    exact hs'

/-! ## 6. What a publication leaves alone -/

/-- What a builder stages as metadata. -/
def Native (b : BackupBuilder) (content : Bytes) : Prop :=
  ∃ plain sealed, content = canonicalJson (casMetadata b plain sealed)

/-- The calls that publish what has one digest. -/
def Own (b : BackupBuilder) (digest : String) : SiteCall → Prop
  | .upload _ key => key = b.casKey digest ∨ key = b.casMetaKey digest
  | .makeStage d => d = digest
  | .makeTemporary d => d = digest
  | .placeCiphertext d _ => d = digest
  | .placeMetadata d content => d = digest ∧ Native b content
  | .drop d _ => d = digest
  | .dropStage d => d = digest
  | .writeSuccess _ => False
  | .writePrecopy _ => False
  | _ => True

theorem own_dropEntries {digest : String} (entries : List Entry) :
    (dropEntries digest entries).CallsIn (Own b digest) := by
  refine Prog.callsIn_forM (fun entry => ?_) entries
  have hown : Own b digest (.drop digest entry) := rfl
  exact Prog.callsIn_perform.mpr hown

theorem own_removeTree {digest : String} (order : List Entry) :
    (removeTree digest order).CallsIn (Own b digest) := by
  refine Prog.callsIn_bind (Prog.callsIn_perform.mpr trivial) fun found => ?_
  cases found with
  | none => exact Prog.callsIn_pure ()
  | some stage =>
    exact Prog.callsIn_bind (own_dropEntries _) fun _ => Prog.callsIn_perform.mpr rfl

theorem own_writeMetadata {digest : String} (plain sealed : Bytes) :
    (writeMetadata digest (casMetadata b plain sealed)).CallsIn (Own b digest) :=
  Prog.callsIn_bind (Prog.callsIn_perform.mpr rfl) fun _ =>
    Prog.callsIn_perform.mpr ⟨rfl, plain, sealed, rfl⟩

theorem own_completeStage (w : Weather) (t : Stage) :
    (completeStage b f w t).CallsIn (Own b f.digest) := by
  obtain ⟨residues, ciphertext, metadata⟩ := t
  unfold completeStage
  cases ciphertext with
  | some sealed =>
    cases metadata with
    | some metadata =>
      exact Prog.callsIn_bind (Prog.callsIn_liftExcept _) fun _ =>
        Prog.callsIn_bind (Prog.callsIn_liftExcept _) fun _ =>
          Prog.callsIn_bind (Prog.callsIn_ensure ..) fun _ => Prog.callsIn_pure _
    | none =>
      dsimp only
      split
      · exact Prog.callsIn_throw _
      · exact Prog.callsIn_bind (Prog.callsIn_ensure ..) fun _ =>
          Prog.callsIn_bind (own_writeMetadata ..) fun _ => Prog.callsIn_pure _
  | none =>
    cases metadata with
    | some metadata => exact Prog.callsIn_throw _
    | none =>
      refine Prog.callsIn_bind ?_ fun plain => ?_
      · refine Prog.callsIn_bind (Prog.callsIn_perform.mpr rfl) fun _ => ?_
        split
        · exact Prog.callsIn_bind (Prog.callsIn_perform.mpr rfl) fun _ => Prog.callsIn_throw _
        · exact Prog.callsIn_bind (Prog.callsIn_perform.mpr rfl) fun _ => Prog.callsIn_pure _
      · split
        · exact Prog.callsIn_bind (own_writeMetadata ..) fun _ => Prog.callsIn_pure _
        · exact Prog.callsIn_bind (own_removeTree _) fun _ => Prog.callsIn_throw _

theorem own_publishCiphertext {digest : String} (there : Bool) (sealed : Bytes) (metadata : Json) :
    (publishCiphertext (b.casKey digest) there sealed metadata).CallsIn (Own b digest) := by
  unfold publishCiphertext
  split
  · exact Prog.callsIn_bind (Prog.callsIn_perform.mpr trivial) fun _ => Prog.callsIn_ensure ..
  · exact Prog.callsIn_bind (Prog.callsIn_perform.mpr (.inl rfl)) fun _ =>
      Prog.callsIn_bind (Prog.callsIn_ensure ..) fun _ =>
        Prog.callsIn_bind (Prog.callsIn_perform.mpr trivial) fun _ => Prog.callsIn_ensure ..

theorem own_publishMetadata {digest : String} (there : Bool) (metadata : Json) :
    (publishMetadata (b.casMetaKey digest) there metadata).CallsIn (Own b digest) := by
  unfold publishMetadata
  split
  · exact Prog.callsIn_bind (Prog.callsIn_perform.mpr trivial) fun _ => Prog.callsIn_ensure ..
  · exact Prog.callsIn_bind (Prog.callsIn_perform.mpr (.inr rfl)) fun _ =>
      Prog.callsIn_bind (Prog.callsIn_ensure ..) fun _ =>
        Prog.callsIn_bind (Prog.callsIn_perform.mpr trivial) fun _ => Prog.callsIn_ensure ..

theorem own_publishFileObject (f : SourceFile) (w : Weather) :
    (publishFileObject b f w).CallsIn (Own b f.digest) := by
  refine Prog.callsIn_bind (Prog.callsIn_perform.mpr trivial) fun ageExists =>
    Prog.callsIn_bind (Prog.callsIn_perform.mpr trivial) fun metaExists => ?_
  split
  · refine Prog.callsIn_bind (Prog.callsIn_perform.mpr trivial) fun found => ?_
    split
    · exact Prog.callsIn_throw _
    · exact Prog.callsIn_bind (Prog.callsIn_liftExcept _) fun _ =>
        Prog.callsIn_bind (Prog.callsIn_liftExcept _) fun _ =>
          Prog.callsIn_bind (Prog.callsIn_perform.mpr trivial) fun _ =>
            Prog.callsIn_bind (Prog.callsIn_ensure ..) fun _ =>
              Prog.callsIn_bind (own_removeTree _) fun _ => Prog.callsIn_pure _
  · refine Prog.callsIn_bind ?_ fun staged => ?_
    · exact Prog.callsIn_bind (Prog.callsIn_perform.mpr rfl) fun _ =>
        Prog.callsIn_bind (Prog.callsIn_perform.mpr trivial) fun _ =>
          Prog.callsIn_bind (own_dropEntries _) fun _ => own_completeStage ..
    · exact Prog.callsIn_bind (own_publishCiphertext ..) fun _ =>
        Prog.callsIn_bind (own_publishMetadata ..) fun _ =>
          Prog.callsIn_bind (own_removeTree _) fun _ => Prog.callsIn_pure _

/-- Nothing has changed but what has one digest. -/
structure Elsewhere (b : BackupBuilder) (digest : String) (s s' : Site) : Prop where
  remote : ∀ key, key ≠ b.casKey digest → key ≠ b.casMetaKey digest →
    s'.remote.lookup key = s.remote.lookup key
  stages : ∀ other, other ≠ digest → s'.stages other = s.stages other
  lastSuccess : s'.lastSuccess = s.lastSuccess
  lastPrecopy : s'.lastPrecopy = s.lastPrecopy

omit [Sha256] in
theorem Elsewhere.refl (digest : String) (s : Site) : Elsewhere b digest s s :=
  ⟨fun _ _ _ => rfl, fun _ _ => rfl, rfl, rfl⟩

omit [Sha256] in
theorem Elsewhere.trans {digest : String} {s s' s'' : Site} (h : Elsewhere b digest s s')
    (h' : Elsewhere b digest s' s'') : Elsewhere b digest s s'' :=
  ⟨fun key hkey hkey' => (h'.remote key hkey hkey').trans (h.remote key hkey hkey'),
    fun other hother => (h'.stages other hother).trans (h.stages other hother),
    h'.lastSuccess.trans h.lastSuccess, h'.lastPrecopy.trans h.lastPrecopy⟩

omit [Sha256] in
theorem elsewhere_setStage {digest : String} (s : Site) (t : Option Stage) :
    Elsewhere b digest s (s.setStage digest t) :=
  ⟨fun _ _ _ => rfl, fun _ hother => Site.setStage_stages_ne _ _ _ hother, rfl, rfl⟩

/-- One call of a publication. -/
theorem Own.elsewhere {digest : String} {c : SiteCall} (h : Own b digest c) (s : Site) :
    Elsewhere b digest s (disk.step c s).2 := by
  cases c with
  | upload content key =>
    change Elsewhere b digest s ((SiteCall.upload content key).serve s).2
    rw [SiteCall.serve]
    split
    · exact .refl ..
    · refine ⟨fun other hne hne' => Site.lookup_put_ne s ?_ content, fun _ _ => rfl, rfl, rfl⟩
      rintro rfl
      exact h.elim hne hne'
  | makeStage d => exact h ▸ elsewhere_setStage ..
  | makeTemporary d => exact h ▸ elsewhere_setStage ..
  | placeCiphertext d content => exact h ▸ elsewhere_setStage ..
  | placeMetadata d content => exact h.1 ▸ elsewhere_setStage ..
  | drop d entry => exact h ▸ elsewhere_setStage ..
  | dropStage d => exact h ▸ elsewhere_setStage ..
  | writeSuccess content => exact h.elim
  | writePrecopy content => exact h.elim
  | «exists» key => exact .refl ..
  | readBytes key => exact .refl ..
  | sizeAndSha256 key => exact .refl ..
  | stage d => exact .refl ..

/-- Wherever a publication ends, everything else is as it was. -/
theorem wp_elsewhere (f : SourceFile) (w : Weather) (s : Site) :
    (publishFileObject b f w).wp disk (Post.always (Elsewhere b f.digest s)) s :=
  (own_publishFileObject f w).keeps (fun _ hc s' hs' => hs'.trans (hc.elsewhere s')) s (.refl ..)

/-- No object of the remote changes, whatever is called. -/
def Grows (s s' : Site) : Prop :=
  ∀ key content, s.remote.lookup key = some content → s'.remote.lookup key = some content

theorem grows_step (c : SiteCall) (s : Site) : Grows s (disk.step c s).2 := by
  intro other there hthere
  cases c with
  | upload content key =>
    change ((SiteCall.upload content key).serve s).2.remote.lookup other = some there
    rw [SiteCall.serve]
    split
    · exact hthere
    · next habsent =>
      refine (Site.lookup_put_ne s ?_ content).trans hthere
      rintro rfl
      exact habsent (Finmap.mem_of_lookup_eq_some hthere)
  | _ => exact hthere

/-- Wherever a program ends, what was on the remote is there unchanged. -/
theorem wp_grows {α : Type} (p : SiteProg α) (s : Site) : p.wp disk (Post.always (Grows s)) s :=
  (Prog.callsIn_true p).keeps (fun c _ s' hs' key content h =>
    grows_step c s' key content (hs' key content h)) s fun _ _ h => h

end Publication

end ProductPdfQr.BackupRecovery
