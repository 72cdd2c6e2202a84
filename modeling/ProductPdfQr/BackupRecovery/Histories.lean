/-
# Histories of a remote

Any number of runs of `precopy` and `finalize`, each cut after some number of calls.  What one run
does to the markers is `Marks`; what holds of every remote that can be reached follows by
induction on the runs.
-/
import ProductPdfQr.BackupRecovery.Completion

namespace ProductPdfQr.BackupRecovery

open Effect Json Rclone Restore Restore.Verified

variable [Sha256] [Ed25519] {b : BackupBuilder}

/-! ## 1. One run -/

/-- What a run of `finalize` does to the markers: nothing, or it adds the one of its point. -/
inductive Marks (b : BackupBuilder) (r : Finalization) (s s' : Site) : Prop
  | unmarked (h : Unmarked b s s')
  | marked (g : Gathered) (sealed : Bytes)
      (hmarker : s'.remote.lookup (r.completionKey b) =
        some (canonicalJson (completion b r g sealed)))
      (hothers : ∀ key, InArea b.pre .complete key → key ≠ r.completionKey b →
        s'.remote.lookup key = s.remote.lookup key)
      (hcomplete : CompletePoint b r g sealed s'.remote)
      (hsuccess : s'.lastSuccess = s.lastSuccess ∨
        s'.lastSuccess = some (canonicalJson (success b r)))
      (hnative : NativeStages b s → NativeStages b s')

theorem wp_finalize {r : Finalization} {s : Site} (hnative : NativeStages b s) :
    (finalize b r).wp disk ⟨fun result s' => Marks b r s s' ∧ result = success b r ∧
        s'.lastSuccess = some (canonicalJson (success b r)) ∧ r.completionKey b ∈ s'.remote,
      fun _ s' => Unmarked b s s', Marks b r s⟩ s := by
  refine Prog.wp_bind_of (Prog.wp_and _ _ (wp_preparePoint hnative)
    (wp_unmarked (early_preparePoint r) s)) ?_ (fun _ _ h => h.2) fun _ h => .unmarked h.2
  rintro ⟨g, sealed⟩ s₁ ⟨hcomplete, hunmarked⟩
  by_cases hthere : r.completionKey b ∈ s₁.remote
  · have hupload : (SiteCall.upload (canonicalJson (completion b r g sealed))
        (r.completionKey b)).serve s₁ = (false, s₁) := if_pos hthere
    refine wp_site hupload (.unmarked hunmarked) ?_
    refine (Prog.wp_bind _ _ _).mpr (Prog.wp_ensure.mpr ⟨fun hfalse => ?_, fun _ => hunmarked⟩)
    exact absurd hfalse Bool.false_ne_true
  · have hupload : (SiteCall.upload (canonicalJson (completion b r g sealed))
        (r.completionKey b)).serve s₁ =
          (true, s₁.put (r.completionKey b) (canonicalJson (completion b r g sealed))) :=
      if_neg hthere
    refine wp_site hupload (.unmarked hunmarked) ?_
    rw [Prog.ensure_true_bind]
    generalize hput : s₁.put (r.completionKey b) (canonicalJson (completion b r g sealed)) = s₂
    have hgrows : Grows s₁ s₂ := by
      intro key content hkey
      rw [← hput, Site.lookup_put_ne]
      · exact hkey
      · rintro rfl
        exact hthere (Finmap.mem_of_lookup_eq_some hkey)
    have hmarker : s₂.remote.lookup (r.completionKey b) =
        some (canonicalJson (completion b r g sealed)) := by
      rw [← hput, Site.lookup_put]
    have hothers (key : String) (hkey : InArea b.pre .complete key)
        (hne : key ≠ r.completionKey b) : s₂.remote.lookup key = s.remote.lookup key := by
      rw [← hput, Site.lookup_put_ne _ hne]
      exact hunmarked.markers key hkey
    have hkept : s₂.lastSuccess = s.lastSuccess := by
      rw [← hput]
      exact hunmarked.lastSuccess
    have hnative' (h : NativeStages b s) : NativeStages b s₂ := by
      rw [← hput]
      exact hunmarked.native h
    have hwrite : (SiteCall.writeSuccess (canonicalJson (success b r))).serve s₂ =
      ((), { s₂ with lastSuccess := some (canonicalJson (success b r)) }) := rfl
    refine wp_site hwrite ?_ ?_
    · exact .marked g sealed hmarker hothers (hcomplete.grows hgrows) (.inl hkept) hnative'
    · rw [Prog.wp_pure]
      refine ⟨?_, rfl, rfl, Finmap.mem_of_lookup_eq_some hmarker⟩
      exact .marked g sealed hmarker hothers (hcomplete.grows hgrows) (.inr rfl) hnative'

/-! ## 2. Histories -/

inductive Run
  | precopy (p : Precopy)
  | finalize (r : Finalization)

def Run.prog (b : BackupBuilder) : Run → SiteProg Json
  | precopy p => BackupRecovery.precopy b p
  | finalize r => BackupRecovery.finalize b r

/-- Runs one after the other, each cut after some number of calls. -/
def runs (b : BackupBuilder) (attempts : List (Run × Nat)) (s : Site) : Site :=
  attempts.foldl (fun s a => ((a.1.prog b).exec disk a.2 s).state) s

/-- Runs from a remote without markers. -/
structure History (b : BackupBuilder) where
  start : Site
  unmarked : ∀ key, InArea b.pre .complete key → key ∉ start.remote
  unannounced : start.lastSuccess = none
  native : NativeStages b start
  attempts : List (Run × Nat)

def History.site (h : History b) : Site := runs b h.attempts h.start

/-- Each marker stands for a point of one of the runs, and all of it is there. -/
structure Marked (b : BackupBuilder) (known : List (Run × Nat)) (s : Site) : Prop where
  native : NativeStages b s
  markers : ∀ key content, InArea b.pre .complete key → s.remote.lookup key = some content →
    ∃ r g sealed n, (.finalize r, n) ∈ known ∧ key = r.completionKey b ∧
      content = canonicalJson (completion b r g sealed) ∧ CompletePoint b r g sealed s.remote
  success : ∀ content, s.lastSuccess = some content → ∃ r g sealed n, (.finalize r, n) ∈ known ∧
    content = canonicalJson (success b r) ∧
    s.remote.lookup (r.completionKey b) = some (canonicalJson (completion b r g sealed))

theorem Marked.unmarked {known : List (Run × Nat)} {s s' : Site} (h : Marked b known s)
    (a : Run × Nat) (hs : Unmarked b s s') : Marked b (known ++ [a]) s' where
  native := hs.native h.native
  markers := by
    intro key content hkey hlookup
    rw [hs.markers key hkey] at hlookup
    obtain ⟨r, g, sealed, n, hmem, heq, hcontent, hcomplete⟩ := h.markers key content hkey hlookup
    exact ⟨r, g, sealed, n, List.mem_append_left _ hmem, heq, hcontent, hcomplete.grows hs.grows⟩
  success := by
    intro content hcontent
    rw [hs.lastSuccess] at hcontent
    obtain ⟨r, g, sealed, n, hmem, heq, hmarker⟩ := h.success content hcontent
    exact ⟨r, g, sealed, n, List.mem_append_left _ hmem, heq, hs.grows _ _ hmarker⟩

theorem Marked.marks {known : List (Run × Nat)} {s s' : Site} (h : Marked b known s)
    {r : Finalization} (n : Nat) (hs : Marks b r s s') (hgrows : Grows s s') :
    Marked b (known ++ [(.finalize r, n)]) s' := by
  cases hs with
  | unmarked hs => exact h.unmarked _ hs
  | marked g sealed hmarker hothers hcomplete hsuccess hnative =>
    have hmem : (Run.finalize r, n) ∈ known ++ [(.finalize r, n)] := by simp
    refine ⟨hnative h.native, fun key content hkey hlookup => ?_, fun content hcontent => ?_⟩
    · by_cases heq : key = r.completionKey b
      · rw [heq, hmarker] at hlookup
        exact ⟨r, g, sealed, n, hmem, heq, (Option.some.inj hlookup).symm, hcomplete⟩
      · rw [hothers key hkey heq] at hlookup
        obtain ⟨r', g', sealed', n', hmem', hrest⟩ := h.markers key content hkey hlookup
        exact ⟨r', g', sealed', n', List.mem_append_left _ hmem', hrest.1, hrest.2.1,
          hrest.2.2.grows hgrows⟩
    · rcases hsuccess with hkept | hwritten
      · rw [hkept] at hcontent
        obtain ⟨r', g', sealed', n', hmem', heq, hmarker'⟩ := h.success content hcontent
        exact ⟨r', g', sealed', n', List.mem_append_left _ hmem', heq, hgrows _ _ hmarker'⟩
      · rw [hwritten] at hcontent
        exact ⟨r, g, sealed, n, hmem, (Option.some.inj hcontent).symm, hmarker⟩

/-- One run, wherever it is cut. -/
theorem Marked.step {known : List (Run × Nat)} {s : Site} (h : Marked b known s)
    (a : Run × Nat) : Marked b (known ++ [a]) ((a.1.prog b).exec disk a.2 s).state := by
  obtain ⟨run, n⟩ := a
  have hgrows := Post.always_holds.mp (Prog.exec_of_wp _ n s (wp_grows (run.prog b) s))
  cases run with
  | precopy p =>
    have hwp := wp_unmarked (early_precopy (b := b) p) s
    exact h.unmarked _ (Post.always_holds.mp (Prog.exec_of_wp _ n s hwp))
  | finalize r =>
    have hwp : (finalize b r).wp disk (Post.always (Marks b r s)) s :=
      Prog.wp_le (wp_finalize h.native) ⟨fun _ _ hs => hs.1, fun _ _ hs => .unmarked hs,
        fun _ hs => hs⟩
    exact h.marks n (Post.always_holds.mp (Prog.exec_of_wp _ n s hwp)) hgrows

theorem Marked.after {known : List (Run × Nat)} {s : Site} (h : Marked b known s)
    (attempts : List (Run × Nat)) : Marked b (known ++ attempts) (runs b attempts s) := by
  induction attempts generalizing known s with
  | nil =>
    rw [List.append_nil]
    exact h
  | cons a attempts ih =>
    have hrest := ih (h.step a)
    rw [List.append_assoc] at hrest
    exact hrest

theorem History.marked (h : History b) : Marked b h.attempts h.site := by
  have hstart : Marked b [] h.start := by
    refine ⟨h.native, fun key content hkey hlookup => ?_, fun content hcontent => ?_⟩
    · exact absurd (Finmap.mem_of_lookup_eq_some hlookup) (h.unmarked key hkey)
    · rw [h.unannounced] at hcontent
      cases hcontent
  exact hstart.after h.attempts

theorem grows_runs (attempts : List (Run × Nat)) (s : Site) : Grows s (runs b attempts s) := by
  induction attempts generalizing s with
  | nil => exact fun _ _ h => h
  | cons a attempts ih =>
    have hfirst := Post.always_holds.mp (Prog.exec_of_wp _ a.2 s (wp_grows (a.1.prog b) s))
    exact fun key content h => ih _ key content (hfirst key content h)

omit [Sha256] [Ed25519] in
theorem success_frozen {r r' : Finalization}
    (h : canonicalJson (success b r) = canonicalJson (success b r')) : r.frozen = r'.frozen := by
  have hplain (r : Finalization) : Plain (success b r) :=
    plain_dict (by simp [PlainFields, Json.Plain])
  have hfrozen (r : Finalization) : (success b r).get "frozen_at" = .str r.frozen.formatTime := by
    rw [success, get_dict]
    rfl
  have hloads := congrArg loads h
  rw [loads_canonicalJson (hplain r), loads_canonicalJson (hplain r')] at hloads
  have htimes := congrArg (Json.get · "frozen_at") (Except.ok.inj hloads)
  simp only [hfrozen] at htimes
  exact Instant.formatTime_injective (Json.str.inj htimes)

/-- `last-success.json` is what it was, or what one of the runs wrote. -/
theorem lastSuccess_runs {known : List (Run × Nat)} {s : Site} (h : Marked b known s)
    (attempts : List (Run × Nat)) : (runs b attempts s).lastSuccess = s.lastSuccess ∨
      ∃ r n, (.finalize r, n) ∈ attempts ∧
        (runs b attempts s).lastSuccess = some (canonicalJson (success b r)) := by
  induction attempts generalizing known s with
  | nil => exact .inl rfl
  | cons a attempts ih =>
    rcases ih (h.step a) with hkept | ⟨r, n, hmem, hwritten⟩
    · change (runs b (a :: attempts) s).lastSuccess = _ at hkept
      rw [hkept]
      obtain ⟨run, n⟩ := a
      cases run with
      | precopy p =>
        have hwp := wp_unmarked (early_precopy (b := b) p) s
        exact .inl (Post.always_holds.mp (Prog.exec_of_wp _ n s hwp)).lastSuccess
      | finalize r =>
        have hwp : (finalize b r).wp disk (Post.always (Marks b r s)) s :=
          Prog.wp_le (wp_finalize h.native) ⟨fun _ _ hs => hs.1, fun _ _ hs => .unmarked hs,
            fun _ hs => hs⟩
        cases Post.always_holds.mp (Prog.exec_of_wp _ n s hwp) with
        | unmarked hs => exact .inl hs.lastSuccess
        | marked _ _ _ _ _ hsuccess =>
          exact hsuccess.imp_right fun hwritten => ⟨r, n, List.mem_cons_self, hwritten⟩
    · exact .inr ⟨r, n, List.mem_cons_of_mem _ hmem, hwritten⟩

/-! ## 3. Completion last -/

/-- Later runs freeze later. -/
def Chronological (attempts : List (Run × Nat)) : Prop :=
  attempts.Pairwise fun a a' => ∀ r r', a.1 = .finalize r → a'.1 = .finalize r' →
    r.frozen ≤ r'.frozen

/-- In every remote that runs of a builder can reach, whatever dies and however the source and the
clock behave: each marker belongs to a point of which everything is there, with the sizes and
digests that manifest and marker tell; `last-success.json` names a point with a marker; no later
run changes anything of it; and with a clock that does not go back `last-success.json` does not
either. -/
theorem completion_last (h : History b) :
    (∀ key content, InArea b.pre .complete key → h.site.remote.lookup key = some content →
      ∃ r g sealed n, (.finalize r, n) ∈ h.attempts ∧ key = r.completionKey b ∧
        content = canonicalJson (completion b r g sealed) ∧
        CompletePoint b r g sealed h.site.remote ∧
        ∀ object ∈ completionObjectKeys b r g, object ∈ h.site.remote) ∧
    (∀ content, h.site.lastSuccess = some content →
      ∃ r g sealed n, (.finalize r, n) ∈ h.attempts ∧ content = canonicalJson (success b r) ∧
        h.site.remote.lookup (r.completionKey b) =
          some (canonicalJson (completion b r g sealed))) ∧
    ∀ later, Grows h.site (runs b later h.site) ∧
      (Chronological (h.attempts ++ later) → ∀ r r',
        h.site.lastSuccess = some (canonicalJson (success b r)) →
        (runs b later h.site).lastSuccess = some (canonicalJson (success b r')) →
        r.frozen ≤ r'.frozen) := by
  have hsite := h.marked
  refine ⟨fun key content hkey hlookup => ?_, hsite.success, fun later =>
    ⟨grows_runs later _, fun hchron r r' hfirst hlast => ?_⟩⟩
  · obtain ⟨r, g, sealed, n, hmem, heq, hcontent, hcomplete⟩ :=
      hsite.markers key content hkey hlookup
    exact ⟨r, g, sealed, n, hmem, heq, hcontent, hcomplete, fun _ => hcomplete.mem⟩
  · obtain ⟨r₁, -, -, n, hmem, hsame, -⟩ := hsite.success _ hfirst
    rcases lastSuccess_runs hsite later with hkept | ⟨r₂, n', hmem', hwritten⟩
    · rw [hkept, hfirst] at hlast
      rw [success_frozen (Option.some.inj hlast)]
      exact Nat.le_refl r'.frozen.micros
    · rw [hwritten] at hlast
      rw [success_frozen hsame, ← success_frozen (Option.some.inj hlast)]
      exact (List.pairwise_append.mp hchron).2.2 _ hmem _ hmem' r₁ r₂ rfl rfl

end ProductPdfQr.BackupRecovery
