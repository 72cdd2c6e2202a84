/-
# Runs of a restore

Each command keeps the trace lawful, but a second rollback: that one alone neither asks whether
the restore was rolled back nor goes through the helper that would refuse it.  So the laws hold
of every run of commands, each ended at any call, in which no rollback is started once one is
recorded; and they do not hold of the shortest run in which one is.
-/
import ProductPdfQr.Restore.Stages

namespace ProductPdfQr.Restore

open Effect Json

section Runs

variable [Sha256] {e : RestoreEngine} {backupId : String} {w : World} {α β : Type}

/-! ## 1. What only looks -/

omit [Sha256] in
theorem quiet_inject (stage : String) : (RestoreEngine.inject stage).CallsIn Quiet :=
  Prog.callsIn_bind (quiet_ask _) fun _ => quiet_require _ _

omit [Sha256] in
theorem quiet_manifest : (RestoreEngine.manifest backupId).CallsIn Quiet := by
  refine Prog.callsIn_bind (quiet_ask _) fun _ => ?_
  refine Prog.callsIn_bind (quiet_require _ _) fun _ => ?_
  refine Prog.callsIn_bind (quiet_ask _) fun _ => ?_
  refine Prog.callsIn_bind (quiet_ask _) fun _ => ?_
  refine Prog.callsIn_bind (quiet_require _ _) fun _ => ?_
  refine Prog.callsIn_bind (quiet_ask _) fun _ => ?_
  exact Prog.callsIn_bind (quiet_require _ _) fun _ => Prog.callsIn_pure _

omit [Sha256] in
theorem quiet_validateManifestDeploymentIdentity (manifest : Json) :
    (RestoreEngine.validateManifestDeploymentIdentity manifest).CallsIn Quiet := by
  refine Prog.callsIn_bind (quiet_ask _) fun _ => ?_
  refine Prog.callsIn_bind (quiet_require _ _) fun _ => ?_
  exact Prog.callsIn_bind (quiet_require _ _) fun _ => quiet_require _ _

omit [Sha256] in
theorem quiet_requireTools (manifest : Json) :
    (RestoreEngine.requireTools manifest).CallsIn Quiet := by
  refine Prog.callsIn_bind (quiet_require _ _) fun _ => ?_
  refine Prog.callsIn_bind (quiet_ask _) fun _ => ?_
  refine Prog.callsIn_bind (quiet_require _ _) fun _ => ?_
  refine Prog.callsIn_bind (quiet_ask _) fun _ => ?_
  refine Prog.callsIn_bind (quiet_require _ _) fun _ => ?_
  exact Prog.callsIn_bind (quiet_ask _) fun _ => quiet_require _ _

omit [Sha256] in
theorem quiet_validateObject (manifest object : Json) :
    (RestoreEngine.validateObject manifest object).CallsIn Quiet := by
  refine Prog.callsIn_bind (quiet_ask _) fun _ => ?_
  refine Prog.callsIn_bind (quiet_ask _) fun _ => ?_
  refine Prog.callsIn_bind (quiet_require _ _) fun _ => ?_
  split
  · exact quiet_ask _
  · exact Prog.callsIn_pure _

omit [Sha256] in
theorem quiet_verifyBundle : (e.verifyBundle backupId).CallsIn Quiet := by
  refine Prog.callsIn_bind (quiet_ask _) fun _ => ?_
  refine Prog.callsIn_bind (Prog.callsIn_ensure _ _) fun _ => ?_
  refine Prog.callsIn_bind (quiet_require _ _) fun _ => ?_
  refine Prog.callsIn_bind (quiet_require _ _) fun _ => ?_
  refine Prog.callsIn_bind (quiet_ask _) fun _ => ?_
  refine Prog.callsIn_bind (quiet_ask _) fun manifest => ?_
  refine Prog.callsIn_bind (quiet_require _ _) fun _ => ?_
  refine Prog.callsIn_bind (quiet_ask _) fun _ => ?_
  refine Prog.callsIn_bind (quiet_require _ _) fun _ => ?_
  refine Prog.callsIn_bind (quiet_require _ _) fun _ => ?_
  refine Prog.callsIn_bind (quiet_require _ _) fun _ => ?_
  refine Prog.callsIn_bind (quiet_validateManifestDeploymentIdentity _) fun _ => ?_
  refine Prog.callsIn_bind (quiet_requireTools _) fun _ => ?_
  refine Prog.callsIn_bind (quiet_ask _) fun _ => ?_
  refine Prog.callsIn_bind (quiet_inject _) fun _ => ?_
  refine Prog.callsIn_bind (Prog.callsIn_forM (quiet_validateObject manifest) _) fun _ => ?_
  exact Prog.callsIn_bind (quiet_ask _) fun _ => Prog.callsIn_pure _

theorem quiet_retain : (e.retain backupId).CallsIn Quiet := by
  refine Prog.callsIn_bind (quiet_inject _) fun _ => ?_
  refine Prog.callsIn_bind (quiet_ask _) fun _ => ?_
  refine Prog.callsIn_bind (quiet_ask _) fun _ => ?_
  refine Prog.callsIn_bind (quiet_ask _) fun _ => ?_
  refine Prog.callsIn_bind quiet_utcNow fun _ => ?_
  refine Prog.callsIn_bind (quiet_ask _) fun _ => ?_
  refine Prog.callsIn_bind (quiet_ask _) fun _ => ?_
  exact Prog.callsIn_bind (quiet_require _ _) fun _ => quiet_ask _

/-- A retention that failed is cleared away. -/
theorem quiet_retained : (tryCatch (e.retain backupId) fun error => do
    ask .discardStaging
    throw error).CallsIn Quiet :=
  Prog.callsIn_tryCatch quiet_retain fun _ =>
    Prog.callsIn_bind (quiet_ask _) fun _ => Prog.callsIn_throw _

omit [Sha256] in
theorem quiet_restoreFile (manifest file : Json) :
    (RestoreEngine.restoreFile manifest file).CallsIn Quiet := by
  refine Prog.callsIn_bind (quiet_inject _) fun _ => ?_
  refine Prog.callsIn_bind (quiet_ask _) fun there => ?_
  split
  · exact Prog.callsIn_pure _
  · split
    · exact Prog.callsIn_throw _
    · exact Prog.callsIn_bind (quiet_ask _) fun _ => quiet_require _ _

omit [Sha256] in
theorem quiet_fileThere (message : String) (file : Json) : (do
    let there : Bool ← ask (.fileMatches file)
    require there message).CallsIn Quiet :=
  Prog.callsIn_bind (quiet_ask _) fun _ => quiet_require _ _

omit [Sha256] in
theorem quiet_validateOffline : (RestoreEngine.validateOffline backupId).CallsIn Quiet := by
  refine Prog.callsIn_bind (quiet_inject _) fun _ => ?_
  refine Prog.callsIn_bind quiet_manifest fun _ => ?_
  refine Prog.callsIn_bind (Prog.callsIn_forM (quiet_fileThere _) _) fun _ => ?_
  refine Prog.callsIn_bind (quiet_ask _) fun _ => ?_
  refine Prog.callsIn_bind (quiet_require _ _) fun _ => ?_
  refine Prog.callsIn_bind (quiet_ask _) fun _ => ?_
  refine Prog.callsIn_bind (quiet_ask _) fun _ => ?_
  exact Prog.callsIn_bind (quiet_require _ _) fun _ => Prog.callsIn_pure _

theorem quiet_publishVerified (state manifest : Json) :
    (e.publishVerified backupId state manifest).CallsIn Quiet := by
  refine Prog.callsIn_bind quiet_utcNow fun _ => ?_
  refine Prog.callsIn_bind (quiet_ask _) fun there => ?_
  split
  · refine Prog.callsIn_bind (quiet_ask _) fun _ => ?_
    exact Prog.callsIn_bind (quiet_require _ _) fun _ => quiet_require _ _
  · exact quiet_ask _

theorem quiet_verifyRetained : (e.verifyRetained backupId).CallsIn Quiet := by
  refine Prog.callsIn_bind (Prog.callsIn_forM (fun _ => ?_) _) fun _ => ?_
  · exact Prog.callsIn_bind (quiet_ask _) fun _ => quiet_require _ _
  refine Prog.callsIn_bind (quiet_ask _) fun _ => ?_
  refine Prog.callsIn_bind (quiet_require _ _) fun _ => ?_
  refine Prog.callsIn_bind (quiet_require _ _) fun _ => ?_
  refine Prog.callsIn_bind (quiet_ask _) fun _ => ?_
  refine Prog.callsIn_bind (quiet_require _ _) fun _ => ?_
  refine Prog.callsIn_bind (quiet_ask _) fun _ => ?_
  exact Prog.callsIn_forM (quiet_fileThere _) _

/-! ## 2. The commands -/

section Commands

variable {last : Option Recorded}

omit [Sha256] in
/-- Whatever comes first keeps the order, and so does what follows. -/
theorem wp_last_bind {I : List Event → Prop} {p : Op α} {f : α → Op β}
    (hp : p.wp machine (OnHistory I) w)
    (hf : ∀ a w', I w'.history → (f a).wp machine (OnHistory I) w') :
    (p >>= f).wp machine (OnHistory I) w :=
  Prog.wp_bind_of hp hf (fun _ _ h => h) fun _ h => h

omit [Sha256] in
theorem recorded_of_shownStage {stage : Stage} (h : shownStage last = stage)
    (hstage : stage ≠ .declared) : ∃ r, last = some r ∧ r.stage = stage := by
  cases last with
  | none => exact absurd h.symm hstage
  | some r => exact ⟨r, rfl, h⟩

/-- A command that asks for the stage before its own. -/
theorem wp_found_bind {before : Stage} {message : String} {p : Op α} (hbefore : before ≠ .declared)
    (hw : Refines e.guard backupId w.history last)
    (hp : ∀ r w', Refines e.guard backupId w'.history (some r) → r.stage = before →
      p.wp machine (OnHistory (Orderly e.guard backupId)) w') :
    (do
      let state ← e.readState backupId
      require (RestoreEngine.stageOf state = before) message
      p).wp machine (OnHistory (Orderly e.guard backupId)) w := by
  refine wp_readState_bind hw hw.orderly fun w' hw' => ?_
  simp only [stageOf_shown]
  refine wp_require_bind (of_history hw.orderly hw') fun hstage => ?_
  obtain ⟨r, rfl, hr⟩ := recorded_of_shownStage (of_decide_eq_true hstage) hbefore
  exact hp r w' (hw.same hw') hr

/-- The command is done, or else its predecessor is what was recorded last. -/
def ReadyFor (g : RestoreGuard) (backupId : String) (done : Bool) (before : Stage)
    (history : List Event) : Prop :=
  ∃ last, Refines g backupId history last ∧
    (done = false → ∃ r, last = some r ∧ r.stage = before)

theorem ReadyFor.orderly {g : RestoreGuard} {done : Bool} {before : Stage} {history : List Event}
    (h : ReadyFor g backupId done before history) : Orderly g backupId history := by
  obtain ⟨last, hlast, -⟩ := h
  exact hlast.orderly

theorem ReadyFor.same {g : RestoreGuard} {done : Bool} {before : Stage} {w' : World}
    (h : ReadyFor g backupId done before w.history) (hw : w'.history = w.history) :
    ReadyFor g backupId done before w'.history := by rwa [hw]

theorem wp_requireBefore_bind {done : Bool} {before : Stage} {message : String}
    {f : Unit → Op α} (hbefore : before ≠ .declared) (hw : Refines e.guard backupId w.history last)
    (hf : ∀ w', ReadyFor e.guard backupId done before w'.history →
      (f ()).wp machine (OnHistory (Orderly e.guard backupId)) w') :
    (e.requireBefore backupId done before message >>= f).wp machine
      (OnHistory (Orderly e.guard backupId)) w := by
  cases done with
  | true => exact hf w ⟨last, hw, fun h => by cases h⟩
  | false =>
    rw [RestoreEngine.requireBefore, if_neg Bool.false_ne_true, bind_assoc]
    exact wp_found_bind hbefore hw fun r w' hw' hr => hf w' ⟨some r, hw', fun _ => ⟨r, rfl, hr⟩⟩

theorem wp_advanceUnless {done : Bool} {before stage : Stage} {details : Fields}
    (hw : ReadyFor e.guard backupId done before w.history)
    (hnext : stage.order = before.order + 1) (hstage : stage ≠ .rolledBack)
    (hdetails : PlainFields details) :
    (e.advanceUnless backupId done stage details).wp machine
      (OnHistory (Orderly e.guard backupId)) w := by
  cases done with
  | true => exact wp_done hw.orderly
  | false =>
    obtain ⟨last, hlast, hready⟩ := hw
    obtain ⟨r, rfl, rfl⟩ := hready rfl
    exact wp_advance hlast hnext hstage hdetails

theorem wp_preflight (hw : Refines e.guard backupId w.history last) :
    (e.preflight backupId).wp machine (OnHistory (Orderly e.guard backupId)) w := by
  refine wp_declare_bind hw fun _ r w₁ hw₁ => ?_
  refine wp_quiet_bind (quiet_inject _) hw₁.orderly fun _ w₂ hw₂ => ?_
  have hr₂ := hw₁.same hw₂
  refine wp_quiet_bind quiet_verifyBundle hr₂.orderly fun manifest w₃ hw₃ => ?_
  have hr₃ := hr₂.same hw₃
  refine wp_completed_bind hr₃ hr₃.orderly fun _ w₄ hw₄ => ?_
  have hr₄ := hr₃.same hw₄
  by_cases hdone : Stage.preflightComplete.order ≤ (shownStage (some r)).order
  · rw [decide_eq_true hdone]
    exact wp_done hr₄.orderly
  · rw [decide_eq_false hdone]
    have hnext : Stage.preflightComplete.order = r.stage.order + 1 := by
      change ¬1 ≤ r.stage.order at hdone
      change 1 = r.stage.order + 1
      omega
    exact wp_last_bind (wp_advance hr₄ hnext (by decide) (plainFields_iff.mpr (by simp)))
      fun _ _ h => wp_done h

theorem wp_retainSite (hw : Refines e.guard backupId w.history last) :
    (e.retainSite backupId).wp machine (OnHistory (Orderly e.guard backupId)) w := by
  refine wp_completed_bind hw hw.orderly fun _ w₁ hw₁ => ?_
  split
  · exact wp_done (hw.same hw₁).orderly
  refine wp_found_bind (by decide) (hw.same hw₁) fun r w₂ hr₂ hr => ?_
  refine wp_quiet_bind (quiet_ask _) hr₂.orderly fun _ w₃ hw₃ => ?_
  have hr₃ := hr₂.same hw₃
  refine wp_quiet_bind quiet_retained hr₃.orderly fun _ w₄ hw₄ => ?_
  exact wp_advance (hr₃.same hw₄) (by rw [hr]; rfl) (by decide) (plainFields_iff.mpr (by simp))

theorem wp_restoreDatabase (hw : Refines e.guard backupId w.history last) :
    (e.restoreDatabase backupId).wp machine (OnHistory (Orderly e.guard backupId)) w := by
  refine wp_completed_bind hw hw.orderly fun _ w₁ hw₁ => ?_
  split
  · exact wp_done (hw.same hw₁).orderly
  refine wp_found_bind (by decide) (hw.same hw₁) fun r w₂ hr₂ hr => ?_
  refine wp_quiet_bind (quiet_inject _) hr₂.orderly fun _ w₃ hw₃ => ?_
  have hr₃ := hr₂.same hw₃
  refine wp_quiet_bind quiet_manifest hr₃.orderly fun manifest w₄ hw₄ => ?_
  have hr₄ := hr₃.same hw₄
  split
  · exact wp_quiet_last (Prog.callsIn_throw _) hr₄.orderly
  -- the dump goes in before the stage is recorded
  have hrestored := hr₄.restored .bundle fun _ hlawful => hlawful.restore hr
  refine wp_pgRestore_bind hr₄.orderly hrestored.orderly fun w₅ hw₅ => ?_
  refine wp_advance (r := r) ?_ (by rw [hr]; rfl) (by decide) (plainFields_iff.mpr (by simp))
  rw [hw₅]
  exact hrestored

theorem wp_restoreFiles (hw : Refines e.guard backupId w.history last) :
    (e.restoreFiles backupId).wp machine (OnHistory (Orderly e.guard backupId)) w := by
  refine wp_completed_bind hw hw.orderly fun _ w₁ hw₁ => ?_
  split
  · exact wp_done (hw.same hw₁).orderly
  refine wp_found_bind (by decide) (hw.same hw₁) fun r w₂ hr₂ hr => ?_
  refine wp_quiet_bind (quiet_inject _) hr₂.orderly fun _ w₃ hw₃ => ?_
  have hr₃ := hr₂.same hw₃
  refine wp_quiet_bind quiet_manifest hr₃.orderly fun manifest w₄ hw₄ => ?_
  have hr₄ := hr₃.same hw₄
  refine wp_quiet_bind (Prog.callsIn_forM (quiet_restoreFile manifest) _) hr₄.orderly
    fun _ w₅ hw₅ => ?_
  exact wp_advance (hr₄.same hw₅) (by rw [hr]; rfl) (by decide) (plainFields_iff.mpr (by simp))

theorem wp_offlineValidate (hw : Refines e.guard backupId w.history last) :
    (e.offlineValidate backupId).wp machine (OnHistory (Orderly e.guard backupId)) w := by
  refine wp_completed_bind hw hw.orderly fun _ w₁ hw₁ => ?_
  refine wp_requireBefore_bind (by decide) (hw.same hw₁) fun w₂ hw₂ => ?_
  refine wp_quiet_bind quiet_validateOffline hw₂.orderly fun manifest w₃ hw₃ => ?_
  refine wp_last_bind (wp_advanceUnless (hw₂.same hw₃) (by rfl) (by decide)
    (plainFields_iff.mpr (by simp))) fun _ _ h => wp_done h

/-- Nothing happened, and what is returned is such. -/
def Looked (history : List Event) (V : α → Prop) : Post World Exn α :=
  ⟨fun a w' => w'.history = history ∧ V a, fun _ w' => w'.history = history,
    fun w' => w'.history = history⟩

omit [Sha256] in
theorem wp_looked_bind {history : List Event} {V : β → Prop} {p : Op α} {f : α → Op β}
    (hp : p.CallsIn Quiet) (hw : w.history = history)
    (hf : ∀ a w', w'.history = history → (f a).wp machine (Looked history V) w') :
    (p >>= f).wp machine (Looked history V) w :=
  Prog.wp_bind_of (wp_quiet hp) (fun a w' h => hf a w' (h.trans hw)) (fun _ _ h => h.trans hw)
    fun _ h => h.trans hw

/-- What the evidence adds to the record. -/
theorem wp_validateFunctionally (done : Bool) :
    (RestoreEngine.validateFunctionally backupId done).wp machine
      (Looked w.history PlainFields) w := by
  refine wp_looked_bind (quiet_inject _) rfl fun _ w₁ hw₁ => ?_
  refine wp_looked_bind (quiet_ask _) hw₁ fun report w₂ hw₂ => ?_
  split
  · rw [Prog.wp_throw]
    exact hw₂
  refine wp_looked_bind (quiet_require _ _) hw₂ fun _ w₃ hw₃ => ?_
  split
  · rw [Prog.wp_pure]
    exact ⟨hw₃, plainFields_iff.mpr (by simp)⟩
  refine wp_looked_bind (quiet_ask _) hw₃ fun bytes w₄ hw₄ => ?_
  rw [Prog.wp_pure]
  exact ⟨hw₄, plainFields_iff.mpr (by simp [Plain])⟩

theorem wp_recordFunctionalValidation (hw : Refines e.guard backupId w.history last) :
    (e.recordFunctionalValidation backupId).wp machine
      (OnHistory (Orderly e.guard backupId)) w := by
  refine wp_completed_bind hw hw.orderly fun _ w₁ hw₁ => ?_
  refine wp_requireBefore_bind (by decide) (hw.same hw₁) fun w₂ hw₂ => ?_
  refine Prog.wp_bind_of (wp_validateFunctionally _) (fun details w₃ hw₃ => ?_)
    (fun _ _ h => of_history hw₂.orderly h) fun _ h => of_history hw₂.orderly h
  exact wp_advanceUnless (hw₂.same hw₃.1) (by rfl) (by decide) hw₃.2

theorem wp_authorizeProxy (hw : Refines e.guard backupId w.history last) :
    (e.authorizeProxy backupId).wp machine (OnHistory (Orderly e.guard backupId)) w := by
  refine wp_completed_bind hw hw.orderly fun _ w₁ hw₁ => ?_
  split
  · exact wp_done (hw.same hw₁).orderly
  refine wp_found_bind (by decide) (hw.same hw₁) fun r w₂ hr₂ hr => ?_
  refine wp_quiet_bind (quiet_inject _) hr₂.orderly fun _ w₃ hw₃ => ?_
  exact wp_advance (hr₂.same hw₃) (by rw [hr]; rfl) (by decide) (plainFields_iff.mpr (by simp))

theorem wp_reachReadiness {done : Bool} {state : Json}
    (hw : ReadyFor e.guard backupId done .proxyAuthorized w.history) :
    (e.reachReadiness backupId done state).wp machine
      (OnHistory (Orderly e.guard backupId)) w := by
  cases done with
  | true => exact wp_quiet_last (Prog.callsIn_liftExcept _) hw.orderly
  | false =>
    obtain ⟨last, hlast, hready⟩ := hw
    obtain ⟨r, rfl, hr⟩ := hready rfl
    refine wp_quiet_bind quiet_utcNow hlast.orderly fun now w₁ hw₁ => ?_
    have hr₁ := hlast.same hw₁
    refine wp_quiet_bind (Prog.callsIn_liftExcept _) hr₁.orderly fun declaredAt w₂ hw₂ => ?_
    have hr₂ := hr₁.same hw₂
    refine wp_require_bind hr₂.orderly fun _ => ?_
    refine wp_require_bind hr₂.orderly fun _ => ?_
    refine wp_last_bind (wp_advance hr₂ (by rw [hr]; rfl) (by decide) ?_) fun _ _ h => wp_done h
    exact plainFields_iff.mpr (by simp [Plain])

theorem wp_externalReady (hw : Refines e.guard backupId w.history last) :
    (e.externalReady backupId).wp machine (OnHistory (Orderly e.guard backupId)) w := by
  refine wp_completed_bind hw hw.orderly fun _ w₁ hw₁ => ?_
  refine wp_requireBefore_bind (by decide) (hw.same hw₁) fun w₂ hw₂ => ?_
  refine wp_quiet_bind quiet_readState hw₂.orderly fun state w₃ hw₃ => ?_
  refine wp_last_bind (wp_reachReadiness (hw₂.same hw₃)) fun elapsed w₄ h₄ => ?_
  refine wp_quiet_last ?_ h₄
  refine Prog.callsIn_bind quiet_readState fun _ => ?_
  refine Prog.callsIn_bind quiet_manifest fun _ => ?_
  exact Prog.callsIn_bind (quiet_publishVerified _ _) fun _ => Prog.callsIn_pure _

/-- A rollback that is the first one. -/
theorem wp_rollbackSite (hw : Refines e.guard backupId w.history last)
    (hfirst : shownStage last ≠ .rolledBack) :
    (e.rollbackSite backupId).wp machine (OnHistory (Orderly e.guard backupId)) w := by
  refine wp_readState_bind hw hw.orderly fun w₁ hw₁ => ?_
  have hr₁ := hw.same hw₁
  simp only [stageOf_shown]
  refine wp_require_bind hr₁.orderly fun horder => ?_
  cases last with
  | none => exact absurd (of_decide_eq_true horder) (by decide)
  | some r =>
    have hretained : r.Retained := ⟨of_decide_eq_true horder, hfirst⟩
    refine wp_quiet_bind quiet_verifyRetained hr₁.orderly fun _ w₂ hw₂ => ?_
    have hr₂ := hr₁.same hw₂
    have hrestored := hr₂.restored .site fun _ hlawful => hlawful.restoreSite hretained
    refine wp_pgRestore_bind hr₂.orderly hrestored.orderly fun w₃ hw₃ => ?_
    have hr₃ : Refines e.guard backupId w₃.history (some r) := by
      rw [hw₃]
      exact hrestored
    refine wp_call_bind (c := Call.utcNow) hr₃.orderly ?_
    have hplain : PlainFields [] := plainFields_iff.mpr (by simp)
    have happend := appendHistory_json e.guard backupId r
      ⟨.rolledBack, w₃.clock w₃.tick, [], hplain⟩
    refine (Prog.wp_bind _ _ _).mpr (Prog.wp_liftExcept.mpr
      ⟨fun state hstate => ?_, fun _ _ => of_history (w := w₃) hr₃.orderly rfl⟩)
    obtain rfl := Except.ok.inj (happend.symm.trans hstate)
    refine wp_save (of_history (w := w₃) hr₃.orderly rfl)
      ⟨some (r.push ⟨.rolledBack, w₃.clock w₃.tick, [], hplain⟩), ?_⟩
    rw [World.step, World.next_history]
    exact hr₃.record rfl fun _ hlawful => hlawful.rollBack _ hretained rfl

end Commands

/-! ## 3. Every run -/

/-- The stage that the checkpoint says. -/
def World.recordedStage (w : World) : Option Stage :=
  (w.checkpoint.bind fun content => (loads content).toOption).map RestoreEngine.stageOf

theorem Refines.recordedStage {g : RestoreGuard} {last : Option Recorded}
    (h : Refines g backupId w.history last) : w.recordedStage = last.map Recorded.stage := by
  rw [World.recordedStage, h.checkpoint]
  cases last with
  | none => rfl
  | some r =>
    rw [Option.map_some, Option.bind_some, Recorded.bytes, loads_canonicalJson Recorded.plain_json]
    exact congrArg some (stageOf_shown (some r))

theorem wp_perform (command : Command) (hw : Orderly e.guard backupId w.history)
    (hfirst : command = .rollbackSite → w.recordedStage ≠ some .rolledBack) :
    (e.perform backupId command).wp machine (OnHistory (Orderly e.guard backupId)) w := by
  obtain ⟨last, hlast⟩ := hw
  cases command with
  | declare => exact wp_declare_bind hlast fun _ _ _ h => wp_done h.orderly
  | preflight => exact wp_last_bind (wp_preflight hlast) fun _ _ h => wp_done h
  | retainSite => exact wp_retainSite hlast
  | restoreDatabase => exact wp_restoreDatabase hlast
  | restoreFiles => exact wp_restoreFiles hlast
  | offlineValidate => exact wp_last_bind (wp_offlineValidate hlast) fun _ _ h => wp_done h
  | recordFunctionalValidation => exact wp_recordFunctionalValidation hlast
  | authorizeProxy => exact wp_authorizeProxy hlast
  | externalReady => exact wp_last_bind (wp_externalReady hlast) fun _ _ h => wp_done h
  | rollbackSite =>
    refine wp_rollbackSite hlast fun hstage => hfirst rfl ?_
    obtain ⟨r, rfl, hr⟩ := recorded_of_shownStage hstage (by decide)
    rw [hlast.recordedStage, Option.map_some, hr]

/-- No rollback is started once one is recorded. -/
def OneRollback {guard : RestoreGuard} (backupId : String) : List (Attempt guard) → World → Prop
  | [], _ => True
  | a :: rest, w => (a.command = .rollbackSite → w.recordedStage ≠ some .rolledBack) ∧
      OneRollback backupId rest (a.leaves backupId w)

/-- The events are those of a trace with every law. -/
def CheckpointLaws (guard : RestoreGuard) (backupId : String) (history : List Event) : Prop :=
  ∃ trace, history = trace.map (Fact.event guard backupId) ∧ Laws trace

theorem leaves_orderly {guard : RestoreGuard} (a : Attempt guard)
    (hw : Orderly guard backupId w.history)
    (hfirst : a.command = .rollbackSite → w.recordedStage ≠ some .rolledBack) :
    Orderly guard backupId (a.leaves backupId w).history := by
  obtain ⟨e, rfl, command, calls⟩ := a
  exact Post.always_holds.mp (Prog.exec_of_wp _ calls w (wp_perform command hw hfirst))

theorem after_orderly {guard : RestoreGuard} (run : List (Attempt guard)) :
    ∀ w : World, Orderly guard backupId w.history → OneRollback backupId run w →
      Orderly guard backupId (after backupId run w).history := by
  induction run with
  | nil => exact fun w hw _ => hw
  | cons a rest ih => exact fun w hw hrun => ih _ (leaves_orderly a hw hrun.1) hrun.2

/-- **The checkpoint machine.**  A run of commands, in any order and each ended at any call,
keeps every law, if it starts no rollback once one is recorded. -/
theorem checkpoint_laws {guard : RestoreGuard} (backupId : String) (run : List (Attempt guard))
    (start : World) (hstart : start.history = []) (hrun : OneRollback backupId run start) :
    CheckpointLaws guard backupId (after backupId run start).history := by
  have hempty : Orderly guard backupId start.history :=
    ⟨none, [], by rw [hstart]; rfl, .start⟩
  obtain ⟨last, trace, hhistory, hlawful⟩ := after_orderly run start hempty hrun
  exact ⟨trace, hhistory, hlawful.laws⟩

end Runs

/-! ## 4. A second rollback -/

/-- The digest plays no part in the order. -/
@[reducible] def constantSha256 : Sha256 := ⟨fun _ => ""⟩

section

attribute [local instance] constantSha256

namespace Sample

def backupId : String := "20260101T000000Z-" ++ String.ofList (List.replicate 32 'a')

def now : Instant := ⟨0, endOfTime_pos⟩

def guard : RestoreGuard where
  environmentId := "target"
  backupId := backupId
  operatorId := "operator"
  approvedDataLossWindow := "none"
  authorizationRecord := "record"
  expiresAt := now
  challenge := "challenge"

def engine : RestoreEngine where
  guard := guard
  recipientKeyId := "key"
  rtoHardLimitSeconds := 14400
  fromisoformat := fun _ => .aware now

def deployment : Fields :=
  [("source_commit", .str "commit"), ("images", .obj []), ("config_hashes", .obj [])]

def manifest : Json := dict (deployment ++ [("backup_id", .str backupId),
  ("recipient_key_id", .str "key"), ("objects", .arr []), ("files", .arr []),
  ("tools", dict [("pg_dump", .str "pg_dump (PostgreSQL) 16.1"), ("age", .str "v1"),
    ("rclone", .str "rclone v1.74.1")])])

/-- An environment in which all is as it should be. -/
def answer : (q : Ask) → Except Exn q.Answer
  | .failStage => .ok none
  | .completion => .ok (dict [("backup_id", .str backupId),
      ("status", .str "remote_ciphertext_verified")])
  | .decryptManifest => .ok manifest
  | .deploymentIdentity => .ok (dict deployment)
  | .toolVersion "age" => .ok (0, "v1")
  | .toolVersion "pg_restore" => .ok (0, "pg_restore (PostgreSQL) 16.1")
  | .toolVersion _ => .ok (0, "rclone v1.74.1")
  | .onsiteJson "identity.json.age" => .ok (dict [("target_backup_id", .str backupId),
      ("restore_operation_id", .str ""), ("database_ciphertext_sha256", .str "")])
  | .onsiteJson _ => .ok (.arr [])
  | .databaseAssertions | .evidence | .readVerified => .ok .null
  | .decryptToHash _ | .decryptToPath _ => .ok (0, "")
  | .retainDatabase => .ok ("", "")
  | .retainFiles | .invalidReferences | .onsiteDatabaseDigest => .ok ""
  | .retentionVerified | .fileMatches _ | .verifiedExists | .onsiteIsFile _ => .ok true
  | .evidenceBytes => .ok ByteArray.empty
  | .downloadManifest _ | .verifyManifest _ | .requireCapacity _ | .downloadObject _
  | .validateConfigArchive _ _ | .keepManifest | .clearRetention | .retainIdentity _
  | .publishRetention | .discardStaging | .validateFileReferences _ | .uploadVerified _ => .ok ()

/-- The world of that environment, with these events. -/
def world (history : List Event) (tick : Nat) : World :=
  ⟨history, tick, fun _ => now, fun _ => .done, fun _ => .ok (), fun _ => answer⟩

variable {history : List Event} {r : Recorded} {t : Nat}

theorem run_require_bind {α : Type} {c : Bool} {message : String} {f : Unit → Op α} {w : World}
    (hc : c = true) : (require c message >>= f).run machine w = (f ()).run machine w :=
  Prog.run_bind_ok (Prog.run_ensure _ _ hc)

theorem run_ask_bind {α : Type} {q : Ask} {a : q.Answer} {f : q.Answer → Op α}
    (ha : answer q = .ok a) :
    (ask q >>= f).run machine (world history t) = (f a).run machine (world history (t + 1)) := by
  have hask : (ask q).run machine (world history t) = (.ok a, world history (t + 1)) := by
    change (Prog.liftExcept (answer q)).run machine (world history (t + 1)) = _
    rw [ha]
    rfl
  exact Prog.run_bind_ok hask

theorem isBackupId_backupId : Text.isBackupId backupId = true := by decide +kernel

/-- A file with a record is read as the record. -/
theorem loadState_bytes_eq (r : Recorded) :
    engine.loadState backupId (r.bytes guard backupId) = .ok (r.json guard backupId) := by
  have hcheck : engine.checkState backupId (r.json guard backupId) = .ok () := by
    have hstage : ((r.json guard backupId).get "stage") = .str r.stage.text := by
      rw [Recorded.json_fields]
      rfl
    have hbackup : (r.json guard backupId).get "backup_id" = .str backupId := by
      rw [Recorded.json_fields]
      rfl
    have hoperation : (r.json guard backupId).get "operation_id" = .str guard.operationId := by
      rw [Recorded.json_fields]
      rfl
    have hdeclared : engine.declaredAt (r.json guard backupId) = .ok now := by
      rw [Recorded.json_fields]
      rfl
    have hdict : (r.json guard backupId).isDict = true := isDict_dict _
    rw [RestoreEngine.checkState, hdict, hstage, hbackup, hoperation, hdeclared]
    simp [Json.isDict, Json.isList, Json.str?, pyEq_refl, engine]
  rw [RestoreEngine.loadState, Recorded.bytes, loads_canonicalJson Recorded.plain_json]
  dsimp only
  rw [hcheck]
  rfl

theorem run_readState (h : Refines guard backupId history (some r)) :
    (engine.readState backupId).run machine (world history t) =
      (.ok (r.json guard backupId), world history (t + 1)) := by
  have hcheckpoint : (world history t).checkpoint = some (r.bytes guard backupId) :=
    Refines.checkpoint (w := world history t) h
  have hstep : machine.step Call.checkpoint (world history t) =
      (some (r.bytes guard backupId), (world history t).next) := Prod.ext hcheckpoint rfl
  rw [RestoreEngine.readState, run_require_bind isBackupId_backupId, Prog.run_bind,
    Prog.run_perform, hstep]
  exact (Prog.run_liftExcept _ _).trans (by rw [loadState_bytes_eq]; rfl)

theorem run_completed_bind {stage : Stage} {α : Type} {f : Bool → Op α}
    (h : Refines guard backupId history (some r)) (hr : r.stage ≠ .rolledBack) :
    (engine.completed backupId stage >>= f).run machine (world history t) =
      (f (stage.order ≤ r.stage.order)).run machine (world history (t + 1)) := by
  rw [RestoreEngine.completed, bind_assoc, Prog.run_bind_ok (run_readState h), bind_assoc]
  have hstage : RestoreEngine.stageOf (r.json guard backupId) = r.stage := stageOf_shown (some r)
  rw [hstage]
  exact run_require_bind (decide_eq_true hr)

/-- The record that the next stage leads to. -/
abbrev pushed (r : Recorded) (stage : Stage) : Recorded :=
  r.push ⟨stage, now, [], plainFields_iff.mpr (by simp)⟩

theorem run_append_bind {stage : Stage} {α : Type} {f : Json → Op α} {w : World} :
    (Prog.liftExcept (RestoreEngine.appendHistory
      ((r.json guard backupId).set "stage" (.str stage.text))
        (RestoreEngine.entry stage now [])) >>= f).run machine w =
      (f ((pushed r stage).json guard backupId)).run machine w := by
  have happend : RestoreEngine.appendHistory
      ((r.json guard backupId).set "stage" (.str stage.text)) (RestoreEngine.entry stage now []) =
        .ok ((pushed r stage).json guard backupId) :=
    appendHistory_json guard backupId r ⟨stage, now, [], plainFields_iff.mpr (by simp)⟩
  rw [happend]
  rfl

theorem run_advance {stage : Stage} (h : Refines guard backupId history (some r))
    (hnext : stage.order = r.stage.order + 1) :
    (engine.advance backupId stage []).run machine (world history t) =
      (.ok (), world (history ++ [.saved ((pushed r stage).bytes guard backupId)]) (t + 3)) := by
  have hstage : RestoreEngine.stageOf (r.json guard backupId) = r.stage := stageOf_shown (some r)
  rw [RestoreEngine.advance, Prog.run_bind_ok (run_readState h), hstage]
  dsimp only
  rw [run_require_bind (by simp [hnext]), run_require_bind (by simp [hnext]), if_neg ?_]
  · exact (Prog.run_bind_ok (a := now) (t := world history (t + 2)) rfl).trans run_append_bind
  · rintro rfl
    omega

/-- A rollback from `site_retained` on, whatever came after it. -/
theorem run_rollbackSite (h : Refines guard backupId history (some r))
    (hr : Stage.siteRetained.order ≤ r.stage.order) :
    (engine.rollbackSite backupId).run machine (world history t) =
      (.ok (), world (history ++ [.pgRestored .site,
        .saved ((pushed r .rolledBack).bytes guard backupId)]) (t + 10)) := by
  have hstage : RestoreEngine.stageOf (r.json guard backupId) = r.stage := stageOf_shown (some r)
  have hverify : (engine.verifyRetained backupId).run machine (world history (t + 1)) =
      (.ok (), world history (t + 7)) := rfl
  have hrestore : (pgRestore .site).run machine (world history (t + 7)) =
      (.ok (), world (history ++ [.pgRestored .site]) (t + 8)) := rfl
  have hnow : utcNow.run machine (world (history ++ [.pgRestored .site]) (t + 8)) =
      (.ok now, world (history ++ [.pgRestored .site]) (t + 9)) := rfl
  rw [RestoreEngine.rollbackSite, Prog.run_bind_ok (run_readState h), hstage,
    run_require_bind (decide_eq_true hr), Prog.run_bind_ok hverify, Prog.run_bind_ok hrestore,
    Prog.run_bind_ok hnow]
  rw [List.append_cons history (.pgRestored .site) [_]]
  exact run_append_bind

theorem refines_declared :
    Refines guard backupId [.saved (Recorded.bytes guard backupId ⟨now, []⟩)] (some ⟨now, []⟩) :=
  ⟨[.recorded ⟨now, []⟩], rfl, Lawful.start.declare now⟩

theorem run_requireTools : (RestoreEngine.requireTools manifest).run machine (world history t) =
    (.ok (), world history (t + 3)) := by
  rw [RestoreEngine.requireTools, run_require_bind (by decide +kernel),
    run_ask_bind (q := .toolVersion "age") rfl, run_require_bind (by decide +kernel),
    run_ask_bind (q := .toolVersion "pg_restore") rfl, run_require_bind (by decide +kernel),
    run_ask_bind (q := .toolVersion "rclone") rfl]
  exact Prog.run_ensure _ _ (by decide +kernel)

theorem run_verifyBundle : (engine.verifyBundle backupId).run machine (world history t) =
    (.ok manifest, world history (t + 11)) := by
  have hidentity : (RestoreEngine.validateManifestDeploymentIdentity manifest).run machine
      (world history (t + 4)) = (.ok (), world history (t + 5)) := by
    rw [RestoreEngine.validateManifestDeploymentIdentity, run_ask_bind (q := .deploymentIdentity) rfl,
      run_require_bind (by decide +kernel), run_require_bind (by decide +kernel)]
    exact Prog.run_ensure _ _ (by decide +kernel)
  have hinject : (RestoreEngine.inject "preflight").run machine (world history (t + 9)) =
      (.ok (), world history (t + 10)) := by
    rw [RestoreEngine.inject, run_ask_bind (q := .failStage) rfl]
    exact Prog.run_ensure _ _ (by decide)
  have hobjects : ((manifest.get "objects").items.forM
      (RestoreEngine.validateObject manifest)).run machine (world history (t + 10)) =
        (.ok (), world history (t + 10)) := by
    have hnone : (manifest.get "objects").items = [] := by decide +kernel
    rw [hnone]
    rfl
  rw [RestoreEngine.verifyBundle, run_ask_bind (q := .completion) rfl,
    Prog.run_bind_ok (Prog.run_ensure _ _ (by decide +kernel)),
    run_require_bind (by decide +kernel), run_require_bind (by decide +kernel),
    run_ask_bind (q := .downloadManifest _) rfl,
    run_ask_bind (q := .decryptManifest) rfl, run_require_bind (by decide +kernel),
    run_ask_bind (q := .verifyManifest _) rfl, run_require_bind (by decide +kernel),
    run_require_bind (by decide +kernel), run_require_bind (by decide +kernel),
    Prog.run_bind_ok hidentity, Prog.run_bind_ok run_requireTools,
    run_ask_bind (q := .requireCapacity _) rfl, Prog.run_bind_ok hinject, Prog.run_bind_ok hobjects,
    run_ask_bind (q := .keepManifest) rfl]
  rfl

/-- `preflight`, as the first command. -/
theorem run_preflight : (engine.preflight backupId).run machine (world [] 0) = (.ok manifest,
    world [.saved (Recorded.bytes guard backupId ⟨now, []⟩),
      .saved ((pushed ⟨now, []⟩ .preflightComplete).bytes guard backupId)] 19) := by
  have hdeclare : ∃ d, (engine.declare backupId).run machine (world [] 0) =
      (.ok d, world [.saved (Recorded.bytes guard backupId ⟨now, []⟩)] 3) := by
    rw [RestoreEngine.declare, run_require_bind isBackupId_backupId,
      run_require_bind (by decide +kernel)]
    exact ⟨_, rfl⟩
  obtain ⟨d, hd⟩ := hdeclare
  have hinject : (RestoreEngine.inject "decrypt").run machine
      (world [.saved (Recorded.bytes guard backupId ⟨now, []⟩)] 3) =
        (.ok (), world [.saved (Recorded.bytes guard backupId ⟨now, []⟩)] 4) := by
    rw [RestoreEngine.inject, run_ask_bind (q := .failStage) rfl]
    exact Prog.run_ensure _ _ (by decide)
  rw [RestoreEngine.preflight, Prog.run_bind_ok hd, Prog.run_bind_ok hinject,
    Prog.run_bind_ok run_verifyBundle, run_completed_bind refines_declared (by decide)]
  exact Prog.run_bind_ok (run_advance refines_declared rfl)

theorem run_retain : (engine.retain backupId).run machine (world history t) =
    (.ok (), world history (t + 8)) := by
  have hinject : (RestoreEngine.inject "site_retention").run machine (world history t) =
      (.ok (), world history (t + 1)) := by
    rw [RestoreEngine.inject, run_ask_bind (q := .failStage) rfl]
    exact Prog.run_ensure _ _ (by decide)
  have hnow : utcNow.run machine (world history (t + 4)) = (.ok now, world history (t + 5)) := rfl
  rw [RestoreEngine.retain, Prog.run_bind_ok hinject, run_ask_bind (q := .retainDatabase) rfl,
    run_ask_bind (q := .retainFiles) rfl, run_ask_bind (q := .deploymentIdentity) rfl,
    Prog.run_bind_ok hnow, run_ask_bind (q := .retainIdentity _) rfl,
    run_ask_bind (q := .retentionVerified) rfl, run_require_bind rfl]
  rfl

theorem run_retainSite (h : Refines guard backupId history (some r))
    (hr : r.stage = .preflightComplete) :
    (engine.retainSite backupId).run machine (world history t) =
      (.ok (), world (history ++ [.saved ((pushed r .siteRetained).bytes guard backupId)])
        (t + 14)) := by
  have hstage : RestoreEngine.stageOf (r.json guard backupId) = r.stage := stageOf_shown (some r)
  have hretained : (tryCatch (engine.retain backupId) fun error => do
      ask .discardStaging
      throw error).run machine (world history (t + 3)) = (.ok (), world history (t + 11)) := by
    rw [Prog.run_tryCatch, run_retain]
  rw [RestoreEngine.retainSite, run_completed_bind h (by rw [hr]; decide), hr,
    if_neg (by decide), Prog.run_bind_ok (run_readState h), hstage,
    run_require_bind (decide_eq_true hr), run_ask_bind (q := .clearRetention) rfl,
    Prog.run_bind_ok hretained]
  exact run_advance h (by rw [hr]; rfl)

/-- The world that a command leaves that is left to finish. -/
abbrev finish (w : World) (command : Command) : World :=
  ((engine.perform backupId command).run machine w).2

/-- Commands that are left to finish. -/
theorem finished (commands : List Command) : ∀ w : World, ∃ run : List (Attempt guard),
    run.map Attempt.command = commands ∧ after backupId run w = commands.foldl finish w := by
  induction commands with
  | nil => exact fun w => ⟨[], rfl, rfl⟩
  | cons command rest ih =>
    intro w
    obtain ⟨n, hn⟩ := Prog.exists_exec_state (m := machine) (engine.perform backupId command) w
    obtain ⟨run, hcommands, hafter⟩ := ih (finish w command)
    refine ⟨⟨engine, rfl, command, n⟩ :: run, congrArg (command :: ·) hcommands, ?_⟩
    rw [List.foldl_cons, ← hafter, finish, ← hn]
    rfl

/-- After a rollback that finished, nothing else may have happened. -/
theorem rolledBack_last (before after : List Event) (hr : r.stage = .rolledBack)
    (h : CheckpointLaws guard backupId (before ++ .saved (r.bytes guard backupId) :: after)) :
    after = [] := by
  obtain ⟨trace, hhistory, hlaws⟩ := h
  obtain ⟨past, rest, rfl, -, hrest⟩ := List.map_eq_append_iff.mp hhistory.symm
  obtain ⟨fact, future, rfl, hfact, rfl⟩ := List.map_eq_cons_iff.mp hrest
  cases fact with
  | pgRestored dump => cases hfact
  | recorded r' =>
    have hjson : r'.json guard backupId = r.json guard backupId :=
      canonicalJson_injective Recorded.plain_json Recorded.plain_json (Event.saved.inj hfact)
    have hstage : r'.stage = .rolledBack :=
      (stageOf_shown (some r')).symm.trans
        ((congrArg RestoreEngine.stageOf hjson).trans ((stageOf_shown (some r)).trans hr))
    have hmem : .rolledBack ∈ r'.stages := by
      rw [Recorded.stage] at hstage
      cases hlast : r'.stages.getLast? with
      | none =>
        rw [hlast] at hstage
        cases hstage
      | some s =>
        rw [hlast] at hstage
        exact hstage ▸ List.mem_of_getLast? hlast
    rw [hlaws.final past r' future rfl hmem]
    rfl

end Sample

open Sample in
/-- Where all is as it should be, a second rollback restores the retained dump again and
records itself again. -/
theorem second_rollback_runs_again : ∃ run : List (Attempt guard),
    run.map Attempt.command = [.preflight, .retainSite, .rollbackSite, .rollbackSite] ∧
      ¬CheckpointLaws guard backupId (after backupId run (world [] 0)).history := by
  let ready : Recorded := pushed ⟨now, []⟩ .preflightComplete
  let retained : Recorded := pushed ready .siteRetained
  let rolledBack : Recorded := pushed retained .rolledBack
  have hrule : retained.Retained := ⟨by decide, by decide⟩
  let written (r : Recorded) : Event := .saved (r.bytes guard backupId)
  let atReady : List Event := [written ⟨now, []⟩, written ready]
  let atRetained : List Event := atReady ++ [written retained]
  let atRolledBack : List Event := atRetained ++ [.pgRestored .site, written rolledBack]
  have hready : Refines guard backupId atReady (some ready) :=
    refines_declared.record rfl fun _ h => h.advance _ rfl (by decide)
  have hretained : Refines guard backupId atRetained (some retained) :=
    hready.record rfl fun _ h => h.advance _ rfl (by decide)
  have hrolledBack : Refines guard backupId atRolledBack (some rolledBack) :=
    (hretained.restored .site fun _ h => h.restoreSite hrule).record rfl fun _ h => h.rollBack _ hrule rfl
  obtain ⟨run, hcommands, hafter⟩ :=
    finished [.preflight, .retainSite, .rollbackSite, .rollbackSite] (world [] 0)
  refine ⟨run, hcommands, fun hlaws => ?_⟩
  have hfirst : finish (world [] 0) .preflight = world atReady 19 := by
    rw [finish, RestoreEngine.perform, Prog.run_bind_ok run_preflight]
    rfl
  have hsecond : finish (world atReady 19) .retainSite = world atRetained 33 := by
    rw [finish, RestoreEngine.perform, run_retainSite hready rfl]
  have hthird : finish (world atRetained 33) .rollbackSite = world atRolledBack 43 := by
    rw [finish, RestoreEngine.perform, run_rollbackSite hretained (by decide)]
  have hfourth : finish (world atRolledBack 43) .rollbackSite =
      world (atRolledBack ++ [.pgRestored .site, written (pushed rolledBack .rolledBack)]) 53 := by
    rw [finish, RestoreEngine.perform, run_rollbackSite hrolledBack (by decide)]
  rw [hafter, List.foldl_cons, List.foldl_cons, List.foldl_cons, List.foldl_cons, List.foldl_nil,
    hfirst, hsecond, hthird, hfourth] at hlaws
  have hsplit : (world (atRolledBack ++
      [.pgRestored .site, written (pushed rolledBack .rolledBack)]) 53).history =
        (atRetained ++ [.pgRestored .site]) ++ written rolledBack ::
          [.pgRestored .site, written (pushed rolledBack .rolledBack)] := by
    simp only [world, atRolledBack, List.append_assoc, List.cons_append, List.nil_append]
  rw [hsplit] at hlaws
  cases rolledBack_last _ _ rfl hlaws

/-- A run that begins with a rollback too early, and goes on. -/
theorem checkpoint_laws_sample : CheckpointLaws Sample.guard Sample.backupId
    (after Sample.backupId [⟨Sample.engine, rfl, .rollbackSite, 9⟩, ⟨Sample.engine, rfl, .preflight, 40⟩,
      ⟨Sample.engine, rfl, .retainSite, 40⟩] (Sample.world [] 0)).history :=
  checkpoint_laws Sample.backupId _ _ rfl
    ⟨fun _ h => (by cases h), fun h => (by cases h), fun h => (by cases h), trivial⟩

end

end ProductPdfQr.Restore
