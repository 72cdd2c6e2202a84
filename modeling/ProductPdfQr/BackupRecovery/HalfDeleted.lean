/-
# Half an object

A rotation deletes the ciphertext of a shared object before its metadata, with a command for
each.  When it dies between the two, metadata is left that describes a ciphertext which is gone.
A builder that meets the content again encrypts it again, and `age` prints another ciphertext;
but nothing on the remote is replaced.

From then on no run that lists the content comes to its end.
-/
import ProductPdfQr.BackupRecovery.Histories
import ProductPdfQr.BackupRecovery.RotationResume

namespace ProductPdfQr.BackupRecovery

open Effect Json Rclone Restore Restore.Verified

variable [Sha256] {b : BackupBuilder} {f : SourceFile} {digest : String} {old : Bytes}

/-! ## 1. Other ciphertexts -/

/-- No ciphertext of the digest is the old one. -/
structure Renewed (b : BackupBuilder) (digest : String) (old : Bytes) (s : Site) : Prop where
  staged : ∀ t sealed, s.stages digest = some t → t.ciphertext = some sealed →
    hexdigest sealed ≠ hexdigest old
  published : ∀ sealed, s.remote.lookup (b.casKey digest) = some sealed →
    hexdigest sealed ≠ hexdigest old

/-- The calls that do not bring it back. -/
def Renewing (b : BackupBuilder) (digest : String) (old : Bytes) : SiteCall → Prop
  | .upload content key => key = b.casKey digest → hexdigest content ≠ hexdigest old
  | .placeCiphertext d content => d = digest → hexdigest content ≠ hexdigest old
  | _ => True

theorem renewed_setStage {s : Site} (h : Renewed b digest old s) {d : String}
    {stage : Option Stage} (hstage : ∀ t sealed, d = digest → stage = some t →
      t.ciphertext = some sealed → hexdigest sealed ≠ hexdigest old) :
    Renewed b digest old (s.setStage d stage) := by
  refine ⟨fun t sealed ht hsealed => ?_, h.published⟩
  by_cases hd : digest = d
  · subst hd
    rw [Site.setStage_stages] at ht
    exact hstage t sealed rfl ht hsealed
  · rw [Site.setStage_stages_ne _ _ _ hd] at ht
    exact h.staged t sealed ht hsealed

theorem renewed_change {s : Site} {d : String} {change : Stage → Stage}
    (h : Renewed b digest old s)
    (hchange : ∀ t sealed, d = digest → (change t).ciphertext = some sealed →
      t.ciphertext = some sealed ∨ hexdigest sealed ≠ hexdigest old) :
    Renewed b digest old (s.changeStage d change) := by
  refine renewed_setStage h fun t sealed hd ht hsealed => ?_
  subst hd
  obtain ⟨t₀, hfound, rfl⟩ := Option.map_eq_some_iff.mp ht
  exact (hchange t₀ sealed rfl hsealed).elim (h.staged t₀ sealed hfound) id

theorem Renewing.renewed {c : SiteCall} (h : Renewing b digest old c) {s : Site}
    (hs : Renewed b digest old s) : Renewed b digest old (disk.step c s).2 := by
  cases c with
  | upload content key =>
    change Renewed b digest old ((SiteCall.upload content key).serve s).2
    rw [SiteCall.serve]
    split
    · exact hs
    · refine ⟨hs.staged, fun sealed hsealed => ?_⟩
      by_cases hkey : key = b.casKey digest
      · have hput : (s.put key content).remote.lookup (b.casKey digest) = some content := by
          rw [← hkey]
          exact Site.lookup_put ..
        obtain rfl := Option.some.inj (hput.symm.trans hsealed)
        exact h hkey
      · exact hs.published sealed
          ((Site.lookup_put_ne s (Ne.symm hkey) content).symm.trans hsealed)
  | makeStage d =>
    refine renewed_setStage hs fun t sealed hd ht hsealed => ?_
    subst hd
    cases hfound : s.stages d with
    | none =>
      rw [hfound] at ht
      obtain rfl := Option.some.inj ht
      cases hsealed
    | some t₀ =>
      rw [hfound] at ht
      obtain rfl := Option.some.inj ht
      exact hs.staged _ sealed hfound hsealed
  | dropStage d =>
    refine renewed_setStage hs fun t sealed hd ht hsealed => ?_
    cases ht
  | makeTemporary d => exact renewed_change hs fun _ _ _ h => .inl h
  | placeMetadata d content => exact renewed_change hs fun _ _ _ h => .inl h
  | placeCiphertext d content =>
    refine renewed_change hs fun _ sealed hd hsealed => .inr ?_
    obtain rfl := Option.some.inj hsealed
    exact h hd
  | drop d entry =>
    refine renewed_change hs fun t sealed _ hsealed => .inl ?_
    cases entry with
    | ciphertext => cases hsealed
    | temporary => exact hsealed
    | metadata => exact hsealed
  | _ => exact ⟨hs.staged, hs.published⟩

theorem renewed_of_callsIn {α : Type} {p : SiteProg α} (h : p.CallsIn (Renewing b digest old))
    {s : Site} (hs : Renewed b digest old s) :
    p.wp disk (Post.always (Renewed b digest old)) s :=
  h.keeps (fun _ hc _ hs' => hc.renewed hs') s hs

/-- The object of another content is elsewhere. -/
theorem Own.renewing {other : String} {c : SiteCall} (h : Own b other c) (hne : other ≠ digest) :
    Renewing b digest old c := by
  cases c with
  | upload content key =>
    rintro rfl
    rcases h with heq | heq
    · exact absurd (casKey_injective heq).symm hne
    · exact absurd heq.symm casMetaKey_ne_casKey
  | placeCiphertext d content => exact fun heq => absurd (h.symm.trans heq) hne
  | _ => trivial

/-! ## 2. A publication of the content -/

theorem renewing_dropEntries (entries : List Entry) {d : String} :
    (dropEntries d entries).CallsIn (Renewing b digest old) :=
  Prog.callsIn_forM (fun _ => Prog.callsIn_perform.mpr trivial) entries

theorem renewing_removeTree (order : List Entry) {d : String} :
    (removeTree d order).CallsIn (Renewing b digest old) := by
  refine Prog.callsIn_bind (Prog.callsIn_perform.mpr trivial) fun found => ?_
  cases found with
  | none => exact Prog.callsIn_pure ()
  | some stage =>
    exact Prog.callsIn_bind (renewing_dropEntries _) fun _ => Prog.callsIn_perform.mpr trivial

theorem renewing_writeMetadata {d : String} (metadata : Json) :
    (writeMetadata d metadata).CallsIn (Renewing b digest old) :=
  Prog.callsIn_bind (Prog.callsIn_perform.mpr trivial) fun _ => Prog.callsIn_perform.mpr trivial

theorem renewing_completeStage {w : Weather} (hw : hexdigest w.sealed ≠ hexdigest old) (t : Stage) :
    (completeStage b f w t).CallsIn (Renewing b digest old) := by
  obtain ⟨residues, ciphertext, metadata⟩ := t
  unfold completeStage
  cases ciphertext with
  | some sealed =>
    cases metadata with
    | some metadata =>
      exact Prog.callsIn_bind (Prog.callsIn_liftExcept _) fun _ =>
        Prog.callsIn_bind (Prog.callsIn_liftExcept _) fun _ =>
          Prog.callsIn_bind (Prog.callsIn_ensure ..) fun _ => Prog.callsIn_pure _
    | none =>
      dsimp only
      split
      · exact Prog.callsIn_throw _
      · exact Prog.callsIn_bind (Prog.callsIn_ensure ..) fun _ =>
          Prog.callsIn_bind (renewing_writeMetadata _) fun _ => Prog.callsIn_pure _
  | none =>
    cases metadata with
    | some metadata => exact Prog.callsIn_throw _
    | none =>
      refine Prog.callsIn_bind ?_ fun plain => ?_
      · refine Prog.callsIn_bind (Prog.callsIn_perform.mpr trivial) fun _ => ?_
        split
        · exact Prog.callsIn_bind (Prog.callsIn_perform.mpr trivial) fun _ => Prog.callsIn_throw _
        · have hplace : Renewing b digest old (.placeCiphertext f.digest w.sealed) := fun _ => hw
          exact Prog.callsIn_bind (Prog.callsIn_perform.mpr hplace) fun _ => Prog.callsIn_pure _
      · split
        · exact Prog.callsIn_bind (renewing_writeMetadata _) fun _ => Prog.callsIn_pure _
        · exact Prog.callsIn_bind (renewing_removeTree _) fun _ => Prog.callsIn_throw _

/-- The ciphertext that a stage is completed with. -/
theorem wp_sealed_completeStage {w : Weather} {s : Site} {t : Stage}
    (hw : hexdigest w.sealed ≠ hexdigest old)
    (ht : ∀ sealed, t.ciphertext = some sealed → hexdigest sealed ≠ hexdigest old) :
    (completeStage b f w t).wp disk (whenReturned fun staged _ =>
      hexdigest staged.1 ≠ hexdigest old) s := by
  obtain ⟨residues, ciphertext, metadata⟩ := t
  unfold completeStage
  cases ciphertext with
  | some sealed =>
    have hsealed := ht sealed rfl
    cases metadata with
    | some metadata =>
      exact wp_lifted fun _ _ => wp_lifted fun _ _ => wp_ensured fun _ => wp_returned hsealed
    | none =>
      dsimp only
      split
      · exact wp_thrown
      · exact wp_ensured fun _ => wp_after fun _ _ => wp_returned hsealed
  | none =>
    cases metadata with
    | some metadata => exact wp_thrown
    | none =>
      refine wp_after fun plain s' => ?_
      split
      · exact wp_after fun _ _ => wp_returned hw
      · exact wp_after fun _ _ => wp_thrown

theorem wp_renewed_stagedObject {w : Weather} {s : Site} (hw : hexdigest w.sealed ≠ hexdigest old)
    (hs : Renewed b f.digest old s) :
    (stagedObject b f w).wp disk ⟨fun staged s' => hexdigest staged.1 ≠ hexdigest old ∧
      Renewed b f.digest old s', fun _ => Renewed b f.digest old, Renewed b f.digest old⟩ s := by
  have hcalls : (stagedObject b f w).CallsIn (Renewing b f.digest old) :=
    Prog.callsIn_bind (Prog.callsIn_perform.mpr trivial) fun _ =>
      Prog.callsIn_bind (Prog.callsIn_perform.mpr trivial) fun _ =>
        Prog.callsIn_bind (renewing_dropEntries _) fun _ => renewing_completeStage hw _
  have htold : (stagedObject b f w).wp disk (whenReturned fun staged _ =>
      hexdigest staged.1 ≠ hexdigest old) s := by
    have hmake : (SiteCall.makeStage f.digest).serve s =
        ((), s.setStage f.digest (some ((s.stages f.digest).getD ⟨0, none, none⟩))) := rfl
    refine wp_site hmake trivial ?_
    generalize hstart : (s.stages f.digest).getD ⟨0, none, none⟩ = t
    have ht : ∀ sealed, t.ciphertext = some sealed → hexdigest sealed ≠ hexdigest old := by
      intro sealed hsealed
      cases hfound : s.stages f.digest with
      | none =>
        rw [← hstart, hfound] at hsealed
        cases hsealed
      | some t₀ =>
        rw [← hstart, hfound] at hsealed
        exact hs.staged t₀ sealed hfound hsealed
    have hlook : (SiteCall.stage f.digest).serve (s.setStage f.digest (some t)) =
        (some t, s.setStage f.digest (some t)) := by
      rw [SiteCall.serve, Site.setStage_stages]
    exact wp_site hlook trivial (wp_after fun _ _ => wp_sealed_completeStage hw ht)
  exact Prog.wp_le (Prog.wp_and _ _ htold (renewed_of_callsIn hcalls hs))
    ⟨fun _ _ h => h, fun _ _ h => h.2, fun _ h => h.2⟩

/-- A publication of the content itself brings the old ciphertext back neither. -/
theorem wp_renewed_own {w : Weather} {s : Site} (hw : hexdigest w.sealed ≠ hexdigest old)
    (hs : Renewed b f.digest old s) :
    (publishFileObject b f w).wp disk (Post.always (Renewed b f.digest old)) s := by
  have hask (key : String) : (SiteCall.exists key).serve s = (decide (key ∈ s.remote), s) := rfl
  refine wp_site (hask _) hs (wp_site (hask _) hs ?_)
  split
  · refine renewed_of_callsIn ?_ hs
    refine Prog.callsIn_bind (Prog.callsIn_perform.mpr trivial) fun found => ?_
    split
    · exact Prog.callsIn_throw _
    · exact Prog.callsIn_bind (Prog.callsIn_liftExcept _) fun _ =>
        Prog.callsIn_bind (Prog.callsIn_liftExcept _) fun _ =>
          Prog.callsIn_bind (Prog.callsIn_perform.mpr trivial) fun _ =>
            Prog.callsIn_bind (Prog.callsIn_ensure ..) fun _ =>
              Prog.callsIn_bind (renewing_removeTree _) fun _ => Prog.callsIn_pure _
  · refine Prog.wp_bind_of (wp_renewed_stagedObject hw hs) ?_ (fun _ _ h => h) fun _ h => h
    rintro ⟨sealed, metadata⟩ s' ⟨hsealed, hs'⟩
    refine renewed_of_callsIn ?_ hs'
    have hcipher : Renewing b f.digest old (.upload sealed (b.casKey f.digest)) := fun _ => hsealed
    have hmeta : Renewing b f.digest old
        (.upload (canonicalJson metadata) (b.casMetaKey f.digest)) := fun heq =>
      absurd heq casMetaKey_ne_casKey
    refine Prog.callsIn_bind ?_ fun _ => Prog.callsIn_bind ?_ fun _ =>
      Prog.callsIn_bind (renewing_removeTree _) fun _ => Prog.callsIn_pure _
    · unfold publishCiphertext
      split
      · exact Prog.callsIn_bind (Prog.callsIn_perform.mpr trivial) fun _ => Prog.callsIn_ensure ..
      · exact Prog.callsIn_bind (Prog.callsIn_perform.mpr hcipher) fun _ =>
          Prog.callsIn_bind (Prog.callsIn_ensure ..) fun _ =>
            Prog.callsIn_bind (Prog.callsIn_perform.mpr trivial) fun _ => Prog.callsIn_ensure ..
    · unfold publishMetadata
      split
      · exact Prog.callsIn_bind (Prog.callsIn_perform.mpr trivial) fun _ => Prog.callsIn_ensure ..
      · exact Prog.callsIn_bind (Prog.callsIn_perform.mpr hmeta) fun _ =>
          Prog.callsIn_bind (Prog.callsIn_ensure ..) fun _ =>
            Prog.callsIn_bind (Prog.callsIn_perform.mpr trivial) fun _ => Prog.callsIn_ensure ..

/-! ## 3. Runs -/

/-- The metadata that was left describes the old ciphertext, which is nowhere any more. -/
structure Blocked (b : BackupBuilder) (content old : Bytes) (s : Site) : Prop where
  metadata : s.remote.lookup (b.casMetaKey (hexdigest content)) =
    some (canonicalJson (casMetadata b content old))
  renewed : Renewed b (hexdigest content) old s
  native : NativeStages b s

variable {content : Bytes}

/-- A publication does not return when it is one of the content, and leaves the content blocked
whatever it publishes. -/
theorem wp_blocked {w : Weather} {s : Site}
    (hw : f.digest = hexdigest content → hexdigest w.sealed ≠ hexdigest old)
    (hs : Blocked b content old s) :
    (publishFileObject b f w).wp disk ⟨fun _ s' => f.digest ≠ hexdigest content ∧
      Blocked b content old s', fun _ => Blocked b content old, Blocked b content old⟩ s := by
  have hrenewed : (publishFileObject b f w).wp disk
      (Post.always (Renewed b (hexdigest content) old)) s := by
    by_cases hd : f.digest = hexdigest content
    · rw [← hd]
      exact wp_renewed_own (hw hd) (hd ▸ hs.renewed)
    · exact renewed_of_callsIn ((own_publishFileObject f w).mono fun _ hc => hc.renewing hd)
        hs.renewed
  have hunmarked := wp_unmarked (early_publishFileObject (b := b) f w) s
  have hleft {s' : Site} (hr : Renewed b (hexdigest content) old s') (hu : Unmarked b s s') :
      Blocked b content old s' :=
    ⟨hu.grows _ _ hs.metadata, hr, hu.native hs.native⟩
  refine Prog.wp_le (Prog.wp_and _ _ (wp_published hs.native)
    (Prog.wp_and _ _ hrenewed hunmarked)) ⟨?_, ?_, ?_⟩
  · rintro item s' ⟨hpublished, hr, hu⟩
    have hblocked := hleft hr hu
    refine ⟨fun hd => ?_, hblocked⟩
    -- what is described is there, and it is not the old ciphertext
    obtain ⟨there, content', metadata, hthere, hmeta, hloads, -, -, -, hdescribed⟩ :=
      hpublished.halves
    rw [hd] at hthere hmeta
    obtain rfl := Option.some.inj (hblocked.metadata.symm.trans hmeta)
    rw [loads_canonicalJson (plain_casMetadata content old)] at hloads
    rw [← Except.ok.inj hloads, casMetadata_get.2.2.2.2.1] at hdescribed
    exact hr.published there hthere (Json.str.inj hdescribed).symm
  · exact fun _ _ h => hleft h.2.1 h.2.2
  · exact fun _ h => hleft h.2.1 h.2.2

/-- The post-condition of a run that comes to the content. -/
def Stopped (α : Type) (b : BackupBuilder) (content old : Bytes) : Post Site Exn α :=
  ⟨fun _ _ => False, fun _ => Blocked b content old, Blocked b content old⟩

/-- The loop over the files does not get past the content. -/
theorem wp_blocked_files {β : Type} {body : β → SourceFile → SiteProg β} {files : List SourceFile}
    (hbody : ∀ acc, ∀ f ∈ files, ∀ s, Blocked b content old s → (body acc f).wp disk
      ⟨fun _ s' => f.digest ≠ hexdigest content ∧ Blocked b content old s',
        fun _ => Blocked b content old, Blocked b content old⟩ s)
    (hmem : ∃ f ∈ files, f.digest = hexdigest content) (acc : β) {s : Site}
    (hs : Blocked b content old s) :
    (files.foldlM body acc).wp disk (Stopped β b content old) s := by
  refine Prog.wp_foldlM (I := fun rest _ s' => (∀ f ∈ rest, f ∈ files) ∧
    (∃ f ∈ rest, f.digest = hexdigest content) ∧ Blocked b content old s') ?_ ?_ files acc s
    ⟨fun _ h => h, hmem, hs⟩
  · rintro acc f rest s' ⟨hsub, ⟨f', hf', hd⟩, hs'⟩
    refine Prog.wp_le (hbody acc f (hsub f List.mem_cons_self) s' hs') ⟨?_, fun _ _ h => h,
      fun _ h => h⟩
    rintro acc' s'' ⟨hother, hs''⟩
    refine ⟨fun g hg => hsub g (List.mem_cons_of_mem _ hg), ⟨f', ?_, hd⟩, hs''⟩
    rcases List.mem_cons.mp hf' with rfl | hf'
    · exact absurd hd hother
    · exact hf'
  · rintro acc s' ⟨-, ⟨f', hf', -⟩, -⟩
    cases hf'

theorem wp_stopped_bind {α β : Type} {p : SiteProg α} {k : α → SiteProg β} {s : Site}
    (h : p.wp disk (Stopped α b content old) s) : (p >>= k).wp disk (Stopped β b content old) s :=
  Prog.wp_bind_of h (fun _ _ h => h.elim) (fun _ _ h => h) fun _ h => h

theorem wp_stopped_lifted {α β : Type} {x : Except Exn α} {k : α → SiteProg β} {s : Site}
    (hs : Blocked b content old s)
    (h : ∀ a, x = .ok a → (k a).wp disk (Stopped β b content old) s) :
    (Prog.liftExcept x >>= k).wp disk (Stopped β b content old) s :=
  (Prog.wp_bind _ _ _).mpr (Prog.wp_liftExcept.mpr ⟨h, fun _ _ => hs⟩)

theorem wp_stopped_inject {β : Type} {failStage : Option String} {stage : String}
    {k : Unit → SiteProg β} {s : Site} (hs : Blocked b content old s)
    (h : (k ()).wp disk (Stopped β b content old) s) :
    (inject failStage stage >>= k).wp disk (Stopped β b content old) s := by
  rw [inject, bind_assoc]
  exact (Prog.wp_bind _ _ _).mpr (Prog.wp_ensure.mpr ⟨fun _ =>
    (Prog.wp_bind _ _ _).mpr (Prog.wp_ensure.mpr ⟨fun _ => h, fun _ => hs⟩), fun _ => hs⟩)

variable [Ed25519]

def Run.root : Run → SourceRoot
  | precopy p => p.root
  | finalize r => r.root

def Run.weather : Run → SourceFile → Weather
  | precopy p => p.weather
  | finalize r => r.weather

/-- The run lists the content, and `age` does not print the old ciphertext again. -/
structure Run.Meets (content old : Bytes) (run : Run) : Prop where
  lists : ∃ files, sourceFiles run.root = .ok files ∧ ∃ f ∈ files, f.content = content
  renews : ∀ f : SourceFile, f.content = content →
    hexdigest (run.weather f).sealed ≠ hexdigest old

/-- Contents of one digest are one content. -/
def Collisionless (content : Bytes) : Prop :=
  ∀ other : Bytes, hexdigest other = hexdigest content → other = content

/-- No run that lists the content comes to its end. -/
theorem Run.wp_stopped (hcontent : Collisionless content) {run : Run} (h : run.Meets content old)
    {s : Site} (hs : Blocked b content old s) :
    (run.prog b).wp disk (Stopped Json b content old) s := by
  obtain ⟨files, hfiles, f, hf, hsame⟩ := h.lists
  have hmem : ∃ f ∈ files, f.digest = hexdigest content := ⟨f, hf, hsame ▸ rfl⟩
  have hpublish (f : SourceFile) {s : Site} (hs : Blocked b content old s) :=
    wp_blocked (f := f) (w := run.weather f) (fun hd => h.renews f (hcontent f.content hd)) hs
  cases run with
  | precopy p =>
    refine wp_stopped_inject hs (wp_stopped_lifted hs fun files' hfiles' => ?_)
    obtain rfl := Except.ok.inj (hfiles.symm.trans hfiles')
    refine wp_stopped_bind (wp_blocked_files (fun counts f _ s hs => ?_) hmem _ hs)
    have hask : (SiteCall.exists (b.casKey f.digest)).serve s =
      (decide (b.casKey f.digest ∈ s.remote), s) := rfl
    refine wp_site hask hs (Prog.wp_bind_of (hpublish f hs) ?_ (fun _ _ h => h) fun _ h => h)
    rintro item s' hs'
    rw [Prog.wp_pure]
    exact hs'
  | finalize r =>
    refine wp_stopped_bind (wp_stopped_lifted hs fun _ _ => wp_stopped_inject hs
      (wp_stopped_lifted hs fun files' hfiles' => ?_))
    obtain rfl := Except.ok.inj (hfiles.symm.trans hfiles')
    refine wp_stopped_bind (wp_blocked_files (fun objects f _ s hs => ?_) hmem _ hs)
    refine (Prog.wp_bind _ _ _).mpr (Prog.wp_liftExcept.mpr ⟨fun _ _ => ?_, fun _ _ => hs⟩)
    refine Prog.wp_bind_of (hpublish f hs) ?_ (fun _ _ h => h) fun _ h => h
    rintro item s' hs'
    rw [Prog.wp_pure]
    exact hs'

theorem blocked_runs (hcontent : Collisionless content) {attempts : List (Run × Nat)}
    (hmeets : ∀ a ∈ attempts, a.1.Meets content old) {s : Site} (hs : Blocked b content old s) :
    Blocked b content old (runs b attempts s) := by
  induction attempts generalizing s with
  | nil => exact hs
  | cons a attempts ih =>
    obtain ⟨ha, hattempts⟩ := List.forall_mem_cons.mp hmeets
    refine ih hattempts ?_
    have hhalt := Prog.exec_of_wp _ a.2 _ (a.1.wp_stopped hcontent ha hs)
    unfold Post.Holds at hhalt
    split at hhalt
    · exact hhalt.elim
    · exact hhalt
    · exact hhalt

/-! ## 4. A rotation that dies between the two deletions -/

/-- A plan deletes the ciphertext of a content before its metadata. -/
theorem precedes_casMetaKey {r : Rotation} (p : Plan r) (hpre : r.pre = b.pre) (digest : String) :
    Precedes p.targets (b.casKey digest) (b.casMetaKey digest) := by
  have hblob : InArea r.pre .objects
      (b.pre ++ "/objects/sha256/" ++ digest ++ "/" ++ b.recipientKeyId) :=
    ⟨digest ++ "/" ++ b.recipientKeyId, by simp only [hpre, Area.path, String.append_assoc]⟩
  exact precedes_metadata hblob

/-- A rotation that is to delete the object of a content, as no point that stays names it. -/
structure HalfDeletion where
  builder : BackupBuilder
  rotation : Rotation
  pre : rotation.pre = builder.pre
  start : Site
  content : Bytes
  old : Bytes
  metadata : start.remote.lookup (builder.casMetaKey (hexdigest content)) =
    some (canonicalJson (casMetadata builder content old))
  unstaged : start.stages (hexdigest content) = none
  native : NativeStages builder start
  collisionless : Collisionless content
  lines : SingleLines start.remote
  now : Instant
  plan : Plan rotation
  planned : BackupRecovery.plan rotation start.remote now = .ok plan
  deleted : builder.casMetaKey (hexdigest content) ∈ plan.targets

/-- What the rotation leaves. -/
def HalfDeletion.site (h : HalfDeletion) (calls : Nat) : Site :=
  { h.start with remote :=
      ((rotate h.rotation h.start.remote h.now false).exec Rclone.machine calls
        h.start.remote).state }

theorem HalfDeletion.blocked (h : HalfDeletion) : ∃ calls,
    Blocked h.builder h.content h.old (h.site calls) := by
  obtain ⟨gone, hgone, hcipher, hmetadata⟩ := (precedes_casMetaKey h.plan h.pre
    (hexdigest h.content)).exists_cut casMetaKey_ne_casKey.symm h.deleted
  obtain ⟨calls, hcalls⟩ := exists_leaves h.planned h.lines
    ⟨h.plan.deleted, gone, List.prefix_refl _, hgone, .inr rfl⟩
  have hlookup (key : String) (hkey : InArea h.builder.pre .objects key) :
      (h.site calls).remote.lookup key =
        if key ∈ gone then none else h.start.remote.lookup key := by
    rw [HalfDeletion.site, hcalls]
    exact Plan.Cut.lookup_state _ (h.pre ▸ hkey) (by decide)
  refine ⟨calls, ?_, ⟨fun t sealed ht => ?_, fun sealed hsealed => ?_⟩, h.native⟩
  · rw [hlookup _ (inArea_casMetaKey _), if_neg hmetadata]
    exact h.metadata
  · cases h.unstaged.symm.trans ht
  · rw [hlookup _ (inArea_casKey _), if_pos hcipher] at hsealed
    cases hsealed

end ProductPdfQr.BackupRecovery
