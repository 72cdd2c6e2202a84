/-
# Inspection and execution

`inspect-action` and `execute` are two commands: the first declares the rollback, chooses a path
and names the action, so that the caller can decide which lock to take; the second builds an
engine, which declares and chooses again.  They agree whenever the publication state reads the
same to both, and when it no longer does, the expected action that `execute` was given stops it
before the host is touched.
-/
import ProductPdfQr.DeployRollback.Conservative

namespace ProductPdfQr.DeployRollback

open Effect Json

/-! ## 1. The two commands -/

section

variable [Sha256]

/-- What both commands are given. -/
structure RollbackOptions where
  record : ReleaseRecord
  operationId : String
  operator : String
  publicationState : PublicationState
  watermark : Json
  proxyContinuouslyIsolated : Bool
  clock : RollbackClock
  audit : AuditLog
  runtimeIdentityPath : String
  expectedAction : Option String
  now : Instant

namespace RollbackOptions

/-- `inspect-action`: the path and the action. -/
def inspectAction (o : RollbackOptions) : Op (RollbackPath × String) := do
  let _ ← o.clock.declare
  let path ← chooseRollbackPath o.publicationState.read o.watermark o.proxyContinuouslyIsolated
  let action :=
    if path = .preserveForwardData ∧ o.record.verdict ≠ .compatible then "NEEDS_ROLLBACK_DECISION"
    else if path = .prePublicRestore then "INVOKE_UNMODIFIED_PR2A_RESTORE"
    else "APP_ONLY_SWITCH"
  return (path, action)

/-- The constructor of `RollbackEngine`. -/
def engine (o : RollbackOptions) : Except Exn RollbackEngine :=
  match hwatermark : validateWatermark o.watermark with
  | .error x => .error x
  | .ok _ =>
    if hclock : o.clock.operationId = o.operationId ∧ o.clock.releaseId = o.record.releaseId then
      if hoperator : Text.hasText o.operator = true then
        .ok
          { record := o.record
            operationId := o.operationId
            operator := o.operator
            publicationState := o.publicationState
            declaredWatermark := o.watermark
            proxyContinuouslyIsolated := o.proxyContinuouslyIsolated
            clock := o.clock
            audit := o.audit
            runtimeIdentityPath := o.runtimeIdentityPath
            expectedAction := o.expectedAction
            now := o.now
            validWatermark := validateWatermark_ok hwatermark ▸ hwatermark
            boundClock := hclock
            hasOperator := hoperator }
      else .error (.rollbackSafety "operator is required")
    else .error (.rollbackSafety "RTO clock is cross-bound")

/-- `execute`, from the constructor on. -/
def execute (o : RollbackOptions) : Op RollbackResult := do
  let e ← .liftExcept o.engine
  e.run

/-- The world in which the publication state is read. -/
def afterDeclare (o : RollbackOptions) (w : World) : World := (o.clock.declare.run machine w).2

/-- An engine that the constructor made of these options. -/
structure Made (o : RollbackOptions) (e : RollbackEngine) : Prop where
  record : e.record = o.record
  publicationState : e.publicationState = o.publicationState
  declaredWatermark : e.declaredWatermark = o.watermark
  isolated : e.proxyContinuouslyIsolated = o.proxyContinuouslyIsolated
  clock : e.clock = o.clock
  expectedAction : e.expectedAction = o.expectedAction

theorem made {o : RollbackOptions} {e : RollbackEngine} (h : o.engine = .ok e) : o.Made e := by
  unfold engine at h
  split at h
  · cases h
  · split at h
    · split at h
      · obtain rfl := Except.ok.inj h
        exact ⟨rfl, rfl, rfl, rfl, rfl, rfl⟩
      · cases h
    · cases h

theorem engine_invalid {o : RollbackOptions} {x : Exn} (h : validateWatermark o.watermark = .error x) :
    o.engine = .error x := by
  unfold engine
  split
  · next x' hx' =>
    rw [h, Except.error.injEq] at hx'
    rw [hx']
  · next digest hdigest =>
    rw [h] at hdigest
    cases hdigest

end RollbackOptions

namespace RollbackEngine

/-- What `run` does once an action is settled. -/
def carryOut (e : RollbackEngine) (action : String) : Op RollbackResult :=
  if action = "INVOKE_UNMODIFIED_PR2A_RESTORE" then e.pathOne
  else if action = "NEEDS_ROLLBACK_DECISION" then do
    e.appendAudit "NEEDS_ROLLBACK_DECISION" "human_decision" .preserveForwardData
      [("disposition", .str "keep_candidate_or_proxy_isolated")]
    throw (.rollbackDecisionRequired "NEEDS_ROLLBACK_DECISION")
  else e.switchApp .preserveForwardData e.declaredWatermark

theorem carryOut_action (e : RollbackEngine) (path : RollbackPath) :
    e.carryOut (e.action path) = match path with
      | .prePublicRestore => e.pathOne
      | .preserveForwardData => e.pathTwo := by
  cases path with
  | prePublicRestore => simp [action, carryOut]
  | preserveForwardData =>
    unfold action carryOut pathTwo
    by_cases hverdict : e.record.verdict = .compatible <;> simp [hverdict]

end RollbackEngine

/-! ## 2. Calls that keep to some files -/

/-- No host command, and nothing written but the files in `paths`. -/
def WritesIn (paths : List String) : Call → Prop
  | .host _ => False
  | .atomicCreate path _ | .atomicWrite path _ | .append path _ | .unlink path => path ∈ paths
  | .look _ | .wallNow | .monotonicNow => True

/-- The host commands so far, and every file but those in `paths`, are as they were. -/
def SameBut (paths : List String) (w w' : World) : Prop :=
  w'.history = w.history ∧ ∀ path, path ∉ paths → w'.files path = w.files path

omit [Sha256] in
theorem SameBut.put {paths : List String} {w w' : World} (h : SameBut paths w w') {path : String}
    (hpath : path ∈ paths) (node : Option Node) : SameBut paths w (w'.put path node).next := by
  refine ⟨h.1, fun other hother => ?_⟩
  rw [World.next_files, World.put_other]
  · exact h.2 other hother
  · rintro rfl
    exact hother hpath

omit [Sha256] in
theorem step_sameBut {paths : List String} {c : Call} (hc : WritesIn paths c) {w w' : World}
    (h : SameBut paths w w') : SameBut paths w (machine.step c w').2 := by
  cases c with
  | host command => exact absurd hc id
  | look path => exact h
  | wallNow => exact h
  | monotonicNow => exact h
  | atomicCreate path payload =>
    simp only [machine, World.step]
    split
    · exact h
    · split
      · exact h
      · exact h.put hc _
  | atomicWrite path payload =>
    simp only [machine, World.step]
    split
    · exact h
    · exact h.put hc _
  | append path payload =>
    simp only [machine, World.step]
    split
    · exact h
    · split
      · exact h
      · exact h.put hc _
  | unlink path =>
    simp only [machine, World.step]
    split
    · exact h
    · exact h.put hc _

omit [Sha256] in
theorem run_sameBut {α : Type} {paths : List String} {p : Op α} (hp : p.CallsIn (WritesIn paths))
    (w : World) : SameBut paths w (p.run machine w).2 := by
  have hkeeps := Prog.CallsIn.keeps (I := SameBut paths w)
    (fun c hc w' h => step_sameBut hc h) hp w ⟨rfl, fun _ _ => rfl⟩
  have hrun := Prog.run_of_wp p w hkeeps
  revert hrun
  rcases p.run machine w with ⟨_ | _, w'⟩ <;> exact id

/-- The files that an engine keeps its own records in. -/
def RollbackEngine.recordPaths (e : RollbackEngine) : List String :=
  [e.clock.path, e.clock.integrityPath, e.audit.path, e.audit.anchorPath]

namespace RollbackEngine

theorem declare_writesIn (e : RollbackEngine) : e.clock.declare.CallsIn (WritesIn e.recordPaths) := by
  refine Prog.callsIn_bind (callsIn_pathExists trivial) fun found => ?_
  cases found with
  | true =>
    refine Prog.callsIn_bind (callsIn_readSealed trivial trivial) fun state => ?_
    exact Prog.callsIn_bind (Prog.callsIn_liftExcept _) fun _ => Prog.callsIn_pure _
  | false =>
    refine Prog.callsIn_bind (Prog.callsIn_perform.mpr trivial) fun now => ?_
    refine Prog.callsIn_bind (callsIn_createSealed (fun _ => ?_) (fun _ => ?_) ?_) fun _ =>
      Prog.callsIn_pure _
    · exact List.mem_cons_self ..
    · exact List.mem_cons_of_mem _ (List.mem_cons_self ..)
    · exact List.mem_cons_self ..

theorem appendAudit_writesIn (e : RollbackEngine) (result stage : String) (path : RollbackPath)
    (details : Fields) : (e.appendAudit result stage path details).CallsIn (WritesIn e.recordPaths) := by
  have hlog : e.audit.path ∈ e.recordPaths := by simp [recordPaths]
  have hanchor : e.audit.anchorPath ∈ e.recordPaths := by simp [recordPaths]
  have hevents : e.audit.events.CallsIn (WritesIn e.recordPaths) := by
    refine Prog.callsIn_bind (callsIn_orRaise (callsIn_look trivial)) fun node => ?_
    split
    · exact Prog.callsIn_pure _
    · refine Prog.callsIn_bind (Prog.callsIn_liftExcept _) fun chain => ?_
      refine Prog.callsIn_bind (callsIn_orRaise (callsIn_look trivial)) fun anchored => ?_
      refine Prog.callsIn_bind (Prog.callsIn_ensure _ _) fun _ => ?_
      refine Prog.callsIn_bind (callsIn_readJsonFile trivial) fun anchor => ?_
      exact Prog.callsIn_bind (Prog.callsIn_ensure _ _) fun _ => Prog.callsIn_pure _
  refine Prog.callsIn_bind ?_ fun _ => Prog.callsIn_pure _
  refine Prog.callsIn_bind (Prog.callsIn_ensure _ _) fun _ => ?_
  refine Prog.callsIn_bind hevents fun chain => ?_
  refine Prog.callsIn_bind (callsIn_orRaise (Prog.callsIn_perform.mpr hlog)) fun _ => ?_
  exact Prog.callsIn_bind (callsIn_atomicWrite hanchor) fun _ => Prog.callsIn_pure _

theorem decidePath_writesIn (e : RollbackEngine) :
    e.decidePath.CallsIn (WritesIn e.recordPaths) := by
  refine Prog.callsIn_bind e.declare_writesIn fun _ => ?_
  refine Prog.callsIn_bind (callsIn_chooseRollbackPath
    (e.publicationState.callsIn_read fun _ => trivial) _ _) fun path => ?_
  exact Prog.callsIn_bind (e.appendAudit_writesIn _ _ _ _) fun _ => Prog.callsIn_pure _

end RollbackEngine

/-! ## 3. One choice -/

/-- What the choice depends on: the publication state as it reads. -/
theorem choose_congr {p : PublicationState} {watermark : Json} {isolated : Bool} {w w' : World}
    (hsame : p.outcome w = p.outcome w') {digest : String}
    (hvalid : validateWatermark watermark = .ok digest) :
    ((chooseRollbackPath p.read watermark isolated).run machine w).1 =
      ((chooseRollbackPath p.read watermark isolated).run machine w').1 := by
  have hvalid' : validateWatermark watermark = .ok (digestJson watermark) :=
    validateWatermark_ok hvalid ▸ hvalid
  have hrun := run_choose p ⟨watermark, hvalid'⟩ isolated
  rw [hrun w, hrun w', hsame]

theorem choose_invalid {loader : Op Json} {watermark : Json} {isolated : Bool} {x : Exn}
    (h : validateWatermark watermark = .error x) (w : World) :
    (chooseRollbackPath loader watermark isolated).run machine w = (.error x, w) := by
  unfold chooseRollbackPath
  rw [h]
  rfl

namespace RollbackOptions

variable (o : RollbackOptions)

/-- The choice that both commands make after the declaration. -/
def choice (w : World) : Except Exn RollbackPath :=
  ((chooseRollbackPath o.publicationState.read o.watermark o.proxyContinuouslyIsolated).run machine
    (o.afterDeclare w)).1

omit [Sha256] in
/-- A part that returned, and what followed it. -/
theorem run_bind_returned {α β : Type} {p : Op α} {f : α → Op β} {w w₁ : World} {b : β}
    (h : (p >>= f).run machine w = (.ok b, w₁)) :
    ∃ a, (p.run machine w).1 = .ok a ∧ (f a).run machine (p.run machine w).2 = (.ok b, w₁) := by
  rw [Prog.run_bind] at h
  revert h
  rcases p.run machine w with ⟨x | a, w'⟩
  · intro h
    cases h
  · exact fun h => ⟨a, rfl, h⟩

theorem inspectAction_returned {w w₁ : World} {path : RollbackPath} {action : String}
    (h : o.inspectAction.run machine w = (.ok (path, action), w₁)) :
    o.choice w = .ok path ∧ ∀ e, o.Made e → action = e.action path := by
  obtain ⟨state, -, h⟩ := run_bind_returned h
  obtain ⟨path', hpath', h⟩ := run_bind_returned h
  obtain ⟨rfl, rfl⟩ := Prod.mk.inj (Except.ok.inj (Prod.mk.inj h).1)
  refine ⟨hpath', fun e hmade => ?_⟩
  unfold RollbackEngine.action
  rw [hmade.record]

theorem decidePath_returned {e : RollbackEngine} (hmade : o.Made e) {w w₂ : World}
    {path : RollbackPath} (h : e.decidePath.run machine w = (.ok path, w₂)) :
    o.choice w = .ok path := by
  obtain ⟨state, -, h⟩ := run_bind_returned h
  obtain ⟨path', hpath', h⟩ := run_bind_returned h
  obtain ⟨_, -, h⟩ := run_bind_returned h
  obtain rfl := Except.ok.inj (Prod.mk.inj h).1
  rw [hmade.publicationState, hmade.declaredWatermark, hmade.isolated, hmade.clock] at hpath'
  exact hpath'

theorem execute_run {e : RollbackEngine} (h : o.engine = .ok e) (w : World) :
    o.execute.run machine w = e.run.run machine w := by
  unfold execute
  rw [h]
  rfl

/-- The expected action is the one that `run` settled on, or there is none. -/
theorem run_expected {e : RollbackEngine} {w w₂ : World} {path : RollbackPath}
    (hdecide : e.decidePath.run machine w = (.ok path, w₂))
    (hexpected : e.expectedAction.any (· ≠ e.action path) = false) :
    e.run.run machine w = (e.carryOut (e.action path)).run machine w₂ := by
  unfold RollbackEngine.run
  rw [Prog.run_bind_ok hdecide, RollbackEngine.carryOut_action]
  dsimp only
  refine (congrArg (Prog.run machine · w₂) (if_neg (by rw [hexpected]; exact Bool.false_ne_true))).trans ?_
  cases path <;> rfl

/-- Another action was expected: nothing but the records of the operation is written. -/
theorem run_unexpected {e : RollbackEngine} {w w₂ : World} {path : RollbackPath}
    (hdecide : e.decidePath.run machine w = (.ok path, w₂))
    (hexpected : e.expectedAction.any (· ≠ e.action path) = true) :
    ∃ x w₃, e.run.run machine w = (.error x, w₃) ∧ SameBut e.recordPaths w w₃ := by
  have hbefore := run_sameBut e.decidePath_writesIn w
  rw [hdecide] at hbefore
  unfold RollbackEngine.run
  rw [Prog.run_bind_ok hdecide]
  dsimp only
  rw [if_pos hexpected, Prog.run_bind]
  have haudit := run_sameBut (e.appendAudit_writesIn "refused_raced_path_change" "path_decision" path
    [("expected_action", .str (e.expectedAction.getD "")),
      ("observed_action", .str (e.action path))]) w₂
  have htrans : ∀ w₃, SameBut e.recordPaths w₂ w₃ → SameBut e.recordPaths w w₃ := fun w₃ h =>
    ⟨h.1.trans hbefore.1, fun p hp => (h.2 p hp).trans (hbefore.2 p hp)⟩
  revert haudit
  rcases (e.appendAudit "refused_raced_path_change" "path_decision" path
    [("expected_action", .str (e.expectedAction.getD "")),
      ("observed_action", .str (e.action path))]).run machine w₂ with ⟨x | u, w₃⟩
  · exact fun haudit => ⟨x, w₃, rfl, htrans w₃ haudit⟩
  · exact fun haudit => ⟨_, w₃, rfl, htrans w₃ haudit⟩

/-- **Inspection agrees with execution.**  The inspection is run in one world, the execution in
another in which the publication state reads the same after the rollback was declared.  Both
refuse an invalid watermark for the same reason; where both choose, they choose alike, and the
execution goes on with the action that was reported; and an execution that expected another
action ends before any host command, and with no file written but the records of the
operation. -/
theorem inspection_agrees (w w' : World)
    (hsame : o.publicationState.outcome (o.afterDeclare w) =
      o.publicationState.outcome (o.afterDeclare w')) :
    (∀ x, validateWatermark o.watermark = .error x →
      o.execute.run machine w' = (.error x, w') ∧
        ∀ state, (o.clock.declare.run machine w).1 = .ok state →
          (o.inspectAction.run machine w).1 = .error x) ∧
    (∀ e, o.engine = .ok e → o.choice w = o.choice w' ∧
      ∀ path w₂, e.decidePath.run machine w' = (.ok path, w₂) →
        (∀ path' action w₁, o.inspectAction.run machine w = (.ok (path', action), w₁) →
          path' = path ∧ action = e.action path) ∧
        (o.expectedAction.any (· ≠ e.action path) = false →
          o.execute.run machine w' = (e.carryOut (e.action path)).run machine w₂) ∧
        (o.expectedAction.any (· ≠ e.action path) = true →
          ∃ x w₃, o.execute.run machine w' = (.error x, w₃) ∧ w₃.history = w'.history ∧
            ∀ p, p ∉ e.recordPaths → w₃.files p = w'.files p)) := by
  refine ⟨fun x hx => ⟨?_, fun state hstate => ?_⟩, fun e he => ?_⟩
  · unfold execute
    rw [engine_invalid hx]
    rfl
  · unfold inspectAction
    rw [Prog.run_bind]
    revert hstate
    rcases o.clock.declare.run machine w with ⟨y | s, w₁⟩
    · intro hstate
      cases hstate
    · intro _
      dsimp only
      rw [Prog.run_bind_error (choose_invalid hx w₁)]
  · have hmade := made he
    have hvalid : validateWatermark o.watermark = .ok (digestJson o.watermark) := by
      rw [← hmade.declaredWatermark]
      exact e.validWatermark
    have hchoice : o.choice w = o.choice w' := choose_congr hsame hvalid
    refine ⟨hchoice, fun path w₂ hdecide => ⟨?_, fun hexpected => ?_, fun hexpected => ?_⟩⟩
    · intro path' action w₁ hinspect
      obtain ⟨hpath', haction⟩ := o.inspectAction_returned hinspect
      rw [hchoice, o.decidePath_returned hmade hdecide] at hpath'
      obtain rfl := Except.ok.inj hpath'
      exact ⟨rfl, haction e hmade⟩
    · rw [o.execute_run he]
      exact run_expected hdecide (by rw [hmade.expectedAction]; exact hexpected)
    · rw [o.execute_run he]
      obtain ⟨x, w₃, hrun, hhistory, hfiles⟩ :=
        run_unexpected hdecide (by rw [hmade.expectedAction]; exact hexpected)
      exact ⟨x, w₃, hrun, hhistory, hfiles⟩

end RollbackOptions

end

attribute [local instance] byteSha256

namespace Sample

/-- What the sample engine is made of, by a caller who took the lock for another action. -/
def raced : RollbackOptions where
  record := record
  operationId := "operation"
  operator := "operator"
  publicationState := (engine sample_valid).publicationState
  watermark := watermark 'a'
  proxyContinuouslyIsolated := false
  clock := (engine sample_valid).clock
  audit := (engine sample_valid).audit
  runtimeIdentityPath := "/identity"
  expectedAction := some "INVOKE_UNMODIFIED_PR2A_RESTORE"
  now := ⟨0, endOfTime_pos⟩

/-- The engine for it. -/
def racedEngine : RollbackEngine :=
  { engine sample_valid with expectedAction := some "INVOKE_UNMODIFIED_PR2A_RESTORE" }

theorem raced_engine : raced.engine = .ok racedEngine := by
  unfold RollbackOptions.engine
  split
  · next x hx =>
    have hvalid := sample_valid
    rw [show raced.watermark = watermark 'a' from rfl, hvalid] at hx
    cases hx
  · next digest hdigest =>
    rw [dif_pos ⟨rfl, rfl⟩, dif_pos (by decide +kernel)]
    rfl

theorem raced_decides : (racedEngine.decidePath.run machine
    (world changedHost fun _ => ⟨0, endOfTime_pos⟩)).1 = .ok .preserveForwardData := by
  decide +kernel

end Sample

/-- The switch was not what the caller expected, so the host is never asked. -/
theorem inspection_agrees_raced : ∃ x w₃, Sample.raced.execute.run machine
    (Sample.world changedHost fun _ => ⟨0, endOfTime_pos⟩) = (.error x, w₃) ∧ w₃.history = [] := by
  have hengine := (Sample.raced.inspection_agrees
    (Sample.world changedHost fun _ => ⟨0, endOfTime_pos⟩) _ rfl).2 _ Sample.raced_engine
  obtain ⟨-, -, hrefused⟩ := hengine.2 _ _ (Prod.ext Sample.raced_decides rfl)
  obtain ⟨x, w₃, hrun, hhistory, -⟩ := hrefused (by decide +kernel)
  exact ⟨x, w₃, hrun, hhistory⟩

end ProductPdfQr.DeployRollback
