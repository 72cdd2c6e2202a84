/-
# Interrupted precopies

A precopy publishes file after file and may die at every call.  While the source does not change,
the next one takes up what is left of each file, and one that is not interrupted ends with every
file on the remote and nothing staged.

A source that changes while it is encrypted breaks this.  The ciphertext is staged before its
plaintext is compared with the inventory, and a later run trusts it.
-/
import ProductPdfQr.BackupRecovery.Publishing

namespace ProductPdfQr.BackupRecovery

open Effect Json Rclone Restore Restore.Verified

variable [Sha256] {b : BackupBuilder} {opens : Bytes → Option Bytes}

/-! ## 1. Several files -/

theorem Whole.elsewhere {digest : String} {content : Bytes} {s s' : Site}
    (h : Whole b content opens s) (hne : hexdigest content ≠ digest)
    (helse : Elsewhere b digest s s') : Whole b content opens s' := by
  obtain ⟨sealed, hcipher, hmeta, hsealed⟩ := h
  refine ⟨sealed, ?_, ?_, hsealed⟩
  · rwa [helse.remote _ (fun heq => hne (casKey_injective heq)) casMetaKey_ne_casKey.symm]
  · rwa [helse.remote _ casMetaKey_ne_casKey fun heq => hne (casMetaKey_injective heq)]

/-- What has another digest stays resumable. -/
theorem Resumable.elsewhere {digest : String} {content : Bytes} {s s' : Site}
    (h : Resumable b content opens s) (hne : hexdigest content ≠ digest)
    (helse : Elsewhere b digest s s') : Resumable b content opens s' := by
  have hkey := helse.remote (b.casKey (hexdigest content)) (fun heq => hne (casKey_injective heq))
    casMetaKey_ne_casKey.symm
  have hmetaKey := helse.remote (b.casMetaKey (hexdigest content)) casMetaKey_ne_casKey
    fun heq => hne (casMetaKey_injective heq)
  have hstages := helse.stages _ hne
  cases h with
  | fresh hcipher hmeta hstage =>
    rw [← Finmap.lookup_eq_none] at hcipher hmeta
    refine .fresh (Finmap.lookup_eq_none.mp (hkey.trans hcipher))
      (Finmap.lookup_eq_none.mp (hmetaKey.trans hmeta)) fun t ht => hstage t ?_
    rw [← hstages, ht]
  | half sealed hcipher hmeta hsealed hstage =>
    rw [← Finmap.lookup_eq_none] at hmeta
    refine .half sealed (hkey.trans hcipher) (Finmap.lookup_eq_none.mp (hmetaKey.trans hmeta))
      hsealed ?_
    rwa [hstages]
  | whole h => exact .whole (h.elsewhere hne helse)

theorem Settled.elsewhere {digest : String} {content : Bytes} {s s' : Site}
    (h : Settled b content opens s) (hne : hexdigest content ≠ digest)
    (helse : Elsewhere b digest s s') : Settled b content opens s' :=
  ⟨h.whole.elsewhere hne helse, (helse.stages _ hne).trans h.unstaged⟩

/-- Different contents of the files have different digests. -/
def DistinctDigests (files : List SourceFile) : Prop :=
  Sha256.CollisionFreeOn {content | ∃ f ∈ files, f.content = content}

section Files

variable {files : List SourceFile}

theorem DistinctDigests.eq_of_digest (h : DistinctDigests files) {f g : SourceFile} (hf : f ∈ files)
    (hg : g ∈ files) (heq : hexdigest g.content = f.digest) : g.content = f.content :=
  h ⟨g, hg, rfl⟩ ⟨f, hf, rfl⟩ heq

/-- One publication, among the files of a source. -/
theorem wp_publish_among (hhex : Sha256.HexDigests) (hdistinct : DistinctDigests files)
    {f : SourceFile} (hf : f ∈ files) {w : Weather} (hw : Unchanged f.content opens w) {s : Site}
    (h : ∀ g ∈ files, Resumable b g.content opens s) :
    (publishFileObject b f w).wp disk ⟨fun _ s' => (∀ g ∈ files, Resumable b g.content opens s') ∧
        Settled b f.content opens s' ∧
        ∀ g ∈ files, Settled b g.content opens s → Settled b g.content opens s',
      fun _ _ => False, fun s' => ∀ g ∈ files, Resumable b g.content opens s'⟩ s := by
  have hothers {s' : Site} (hown : Resumable b f.content opens s')
      (helse : Elsewhere b f.digest s s') : ∀ g ∈ files, Resumable b g.content opens s' := by
    intro g hg
    by_cases heq : hexdigest g.content = f.digest
    · rwa [hdistinct.eq_of_digest hf hg heq]
    · exact (h g hg).elsewhere heq helse
  refine Prog.wp_le (Prog.wp_and _ s (wp_publishFileObject hhex hw (h f hf))
    (wp_elsewhere f w s)) ⟨?_, ?_, ?_⟩
  · rintro item s' ⟨hsettled, helse⟩
    refine ⟨hothers (.whole hsettled.whole) helse, hsettled, fun g hg hgs => ?_⟩
    by_cases heq : hexdigest g.content = f.digest
    · rwa [hdistinct.eq_of_digest hf hg heq]
    · exact hgs.elsewhere heq helse
  · exact fun _ _ hfalse => hfalse.1
  · exact fun s' hs' => hothers hs'.1 hs'.2

/-- The loop over the files. -/
theorem wp_precopyFiles (hhex : Sha256.HexDigests) (hdistinct : DistinctDigests files) {p : Precopy}
    (hw : ∀ f ∈ files, Unchanged f.content opens (p.weather f)) {s : Site}
    (h : ∀ g ∈ files, Resumable b g.content opens s) :
    (files.foldlM (precopyFile b p) ⟨0, 0⟩).wp disk
      ⟨fun counts s' => counts.published + counts.reused = files.length ∧
          ∀ g ∈ files, Settled b g.content opens s',
        fun _ _ => False, fun s' => ∀ g ∈ files, Resumable b g.content opens s'⟩ s := by
  refine Prog.wp_foldlM (I := fun rest counts s' => (∀ f ∈ rest, f ∈ files) ∧
    counts.published + counts.reused + rest.length = files.length ∧
    (∀ g ∈ files, Resumable b g.content opens s') ∧
    ∀ g ∈ files, g ∈ rest ∨ Settled b g.content opens s') ?_ ?_ files _ s
    ⟨fun _ hf => hf, Nat.zero_add _, h, fun g hg => .inl hg⟩
  · rintro counts f rest s' ⟨hrest, hcounts, hall, hdone⟩
    have hf := hrest f List.mem_cons_self
    have hask : (SiteCall.exists (b.casKey f.digest)).serve s' =
      (decide (b.casKey f.digest ∈ s'.remote), s') := rfl
    refine wp_site hask hall ?_
    refine Prog.wp_bind_of (wp_publish_among hhex hdistinct hf (hw f hf) hall) ?_
      (fun _ _ hfalse => hfalse.elim) (fun _ h => h)
    rintro item s'' ⟨hall'', hsettled, hkept⟩
    rw [Prog.wp_pure]
    refine ⟨fun g hg => hrest g (List.mem_cons_of_mem _ hg), ?_, hall'', fun g hg => ?_⟩
    · rw [List.length_cons] at hcounts
      split
      · dsimp only
        omega
      · dsimp only
        omega
    · rcases hdone g hg with hmem | hs
      · rcases List.mem_cons.mp hmem with rfl | hmem
        · exact .inr hsettled
        · exact .inl hmem
      · exact .inr (hkept g hg hs)
  · rintro counts s' ⟨-, hcounts, -, hdone⟩
    exact ⟨by simpa using hcounts, fun g hg => (hdone g hg).resolve_left List.not_mem_nil⟩

end Files

theorem wp_inject {α : Type} {Q : Post Site Exn α} {k : Unit → SiteProg α} {s : Site}
    {failStage : Option String} {stage : String} (hstage : stage ∈ backupFailureStages)
    (hraised : failStage = some stage →
      Q.raised (.safety ("injected backup failure: " ++ stage)) s)
    (hrest : failStage ≠ some stage → (k ()).wp disk Q s) :
    (inject failStage stage >>= k).wp disk Q s := by
  rw [inject, List.contains_eq_mem, decide_eq_true hstage, Prog.ensure_true_bind]
  refine (Prog.wp_bind _ _ _).mpr (Prog.wp_ensure.mpr ⟨fun hne => ?_, fun heq => ?_⟩)
  · exact hrest (of_decide_eq_true hne)
  · exact hraised (not_not.mp (of_decide_eq_false heq))

/-! ## 2. Attempts -/

/-- Attempts at a precopy of a source that does not change, each cut after some number of calls,
and one more that nothing interrupts. -/
structure Precopies (b : BackupBuilder) where
  opens : Bytes → Option Bytes
  digests : Sha256.HexDigests
  root : SourceRoot
  files : List SourceFile
  listed : sourceFiles root = .ok files
  distinct : DistinctDigests files
  start : Site
  resumable : ∀ f ∈ files, Resumable b f.content opens start
  attempts : List (Precopy × Nat)
  attempted : ∀ a ∈ attempts, a.1.root = root ∧
    ∀ f ∈ files, Unchanged f.content opens (a.1.weather f)
  last : Precopy
  unchanged : last.root = root ∧ ∀ f ∈ files, Unchanged f.content opens (last.weather f)
  uninjected : last.failStage ≠ some "files"

/-- Where the attempts leave the site. -/
def Precopies.interrupted (r : Precopies b) : Site :=
  r.attempts.foldl (fun s a => ((precopy b a.1).exec disk a.2 s).state) r.start

section Attempts

variable (r : Precopies b)

theorem wp_precopy {p : Precopy} (hroot : p.root = r.root)
    (hw : ∀ f ∈ r.files, Unchanged f.content r.opens (p.weather f)) {s : Site}
    (h : ∀ f ∈ r.files, Resumable b f.content r.opens s) :
    (precopy b p).wp disk ⟨fun result s' => (∃ counts : Counts,
          counts.published + counts.reused = r.files.length ∧
          result = precopyResult p r.files counts) ∧
          s'.lastPrecopy = some (canonicalJson result) ∧
          ∀ f ∈ r.files, Settled b f.content r.opens s',
        fun _ s' => p.failStage = some "files" ∧ s' = s,
        fun s' => ∀ f ∈ r.files, Resumable b f.content r.opens s'⟩ s := by
  rw [precopy]
  refine wp_inject (by decide) (fun hinjected => ⟨hinjected, rfl⟩) fun _ => ?_
  rw [hroot, r.listed, Prog.liftExcept_ok_bind]
  refine Prog.wp_bind_of (wp_precopyFiles r.digests r.distinct hw h) ?_
    (fun _ _ hfalse => hfalse.elim) (fun _ h => h)
  rintro counts s' ⟨hcounts, hsettled⟩
  have hserve : (SiteCall.writePrecopy (canonicalJson (precopyResult p r.files counts))).serve s' =
    ((), { s' with lastPrecopy := some (canonicalJson (precopyResult p r.files counts)) }) := rfl
  refine wp_site hserve (fun f hf => .whole (hsettled f hf).whole) ?_
  rw [Prog.wp_pure]
  exact ⟨⟨counts, hcounts, rfl⟩, rfl, fun f hf => ⟨(hsettled f hf).whole, (hsettled f hf).unstaged⟩⟩

/-- Wherever the attempts were cut, each file can be taken up again. -/
theorem resumable_interrupted : (∀ f ∈ r.files, Resumable b f.content r.opens r.interrupted) ∧
    Grows r.start r.interrupted := by
  have hattempts (attempts : List (Precopy × Nat)) (hattempted : ∀ a ∈ attempts, a.1.root = r.root ∧
      ∀ f ∈ r.files, Unchanged f.content r.opens (a.1.weather f)) (s : Site)
      (hs : ∀ f ∈ r.files, Resumable b f.content r.opens s) (hgrows : Grows r.start s) :
      let s' := attempts.foldl (fun s a => ((precopy b a.1).exec disk a.2 s).state) s
      (∀ f ∈ r.files, Resumable b f.content r.opens s') ∧ Grows r.start s' := by
    induction attempts generalizing s with
    | nil => exact ⟨hs, hgrows⟩
    | cons a attempts ih =>
      obtain ⟨hroot, hw⟩ := hattempted a List.mem_cons_self
      refine ih (fun a' ha' => hattempted a' (List.mem_cons_of_mem _ ha')) _ ?_ ?_
      · have hwp : (precopy b a.1).wp disk
            (Post.always fun s' => ∀ f ∈ r.files, Resumable b f.content r.opens s') s := by
          refine Prog.wp_le (wp_precopy r hroot hw hs) ⟨?_, ?_, fun _ h => h⟩
          · exact fun _ _ hdone f hf => .whole (hdone.2.2 f hf).whole
          · rintro _ _ ⟨-, rfl⟩
            exact hs
        exact Post.always_holds.mp (Prog.exec_of_wp _ a.2 s hwp)
      · have hmore := Post.always_holds.mp (Prog.exec_of_wp _ a.2 s (wp_grows (precopy b a.1) s))
        exact fun key content hkey => hmore key content (hgrows key content hkey)
  exact hattempts r.attempts r.attempted r.start r.resumable fun _ _ h => h

end Attempts

/-! ## 3. A source that changes -/

theorem exec_site {α : Type} {c : SiteCall} {s s' : Site} {answer : c.Answer}
    {k : c.Answer → SiteProg α} (h : c.serve s = (answer, s')) (n : Nat) :
    (Prog.perform c >>= k).exec disk (n + 1) s = (k answer).exec disk n s' := by
  have hanswer : (disk.step c s).1 = answer := congrArg Prod.fst h
  have hstate : (disk.step c s).2 = s' := congrArg Prod.snd h
  rw [← hanswer, ← hstate]
  rfl

omit [Sha256] in
theorem dropEntries_nil (digest : String) : dropEntries digest [] = pure () := rfl

theorem state_exec_zero {α : Type} (p : SiteProg α) (s : Site) : (p.exec disk 0 s).state = s := by
  cases p <;> rfl

/-- A file that is another while it is encrypted, by a run that dies before it compares the two,
and is what it was again when the next run comes. -/
structure Changed (b : BackupBuilder) where
  file : SourceFile
  other : Bytes
  differs : hexdigest other ≠ file.digest
  opens : Bytes → Option Bytes
  first : Weather
  fed : first.fed = some other
  sealed : opens first.sealed = some other
  second : Weather
  measured : second.measured = some file.content
  start : Site
  cipher : b.casKey file.digest ∉ start.remote
  metadata : b.casMetaKey file.digest ∉ start.remote
  unstaged : start.stages file.digest = none

section Changed

variable (c : Changed b)

/-- The first run dies when the ciphertext is staged. -/
def Changed.died : Site := ((publishFileObject b c.file c.first).exec disk 6 c.start).state

theorem died_eq : c.died =
    c.start.setStage c.file.digest (some ⟨0, some c.first.sealed, none⟩) := by
  have hask (key : String) (habsent : key ∉ c.start.remote) :
      (SiteCall.exists key).serve c.start = (false, c.start) := by
    rw [SiteCall.serve, decide_eq_false habsent]
  have hmake : (SiteCall.makeStage c.file.digest).serve c.start =
      ((), c.start.setStage c.file.digest (some ⟨0, none, none⟩)) := by
    rw [SiteCall.serve, c.unstaged]
    rfl
  have hlook : (SiteCall.stage c.file.digest).serve
      (c.start.setStage c.file.digest (some ⟨0, none, none⟩)) =
        (some ⟨0, none, none⟩, c.start.setStage c.file.digest (some ⟨0, none, none⟩)) := by
    rw [SiteCall.serve, Site.setStage_stages]
  have htemporary : (SiteCall.makeTemporary c.file.digest).serve
      (c.start.setStage c.file.digest (some ⟨0, none, none⟩)) =
        ((), c.start.setStage c.file.digest (some ⟨1, none, none⟩)) := by
    rw [SiteCall.serve, Site.changeStage_setStage]
  have hplace : (SiteCall.placeCiphertext c.file.digest c.first.sealed).serve
      (c.start.setStage c.file.digest (some ⟨1, none, none⟩)) =
        ((), c.start.setStage c.file.digest (some ⟨0, some c.first.sealed, none⟩)) := by
    rw [SiteCall.serve, Site.changeStage_setStage]
    rfl
  rw [Changed.died, publishFileObject, exec_site (hask _ c.cipher), exec_site (hask _ c.metadata),
    Bool.and_self, if_neg Bool.false_ne_true, stagedObject, bind_assoc, exec_site hmake, bind_assoc,
    exec_site hlook]
  simp only [Option.getD_some, List.replicate_zero, dropEntries_nil, pure_bind, completeStage,
    encryptFileToPath, c.fed, bind_assoc]
  rw [exec_site htemporary, exec_site hplace, state_exec_zero]

end Changed

end ProductPdfQr.BackupRecovery
