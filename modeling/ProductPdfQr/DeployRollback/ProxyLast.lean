/-
# The proxy is started last

The claim about a history has two parts.  Every start of the proxy is allowed by what came
before it (`Allowed`): the proxy was stopped, and since the last start of the application the
proxy was seen stopped, that application was validated, and the data was seen as it should be.
And at the end the proxy is `Settled`: stopped, or started and reachable.

Only two places start the proxy; every other part of the engine keeps the first half by the
calls it makes.
-/
import ProductPdfQr.DeployRollback.Trace

namespace ProductPdfQr.DeployRollback

open Effect Json

/-! ## 1. Where the proxy stands -/

/-- The last proxy command is an attempt to stop it. -/
def StoppedLast (h : List HostEvent) : Prop :=
  ∃ before ev after, h = before ++ ev :: after ∧ ev.command = .stopProxy ∧ NoProxy after

/-- The last proxy command is a start, and the service was reached after it. -/
def Served (h : List HostEvent) : Prop :=
  ∃ before ev after, h = before ++ ev :: after ∧ ev.command = .startProxy ∧ NoProxy after ∧
    ∃ r ∈ after, r.command = .externalReadiness ∧ r.Yes

/-- How a run may leave the proxy. -/
def Settled (h : List HostEvent) : Prop := NoProxy h ∨ StoppedLast h ∨ Served h

theorem settled_stopped (w : World) : Settled (w.did .stopProxy).history :=
  Or.inr (Or.inl ⟨w.history, w.event .stopProxy, [], rfl, rfl, by simp [NoProxy]⟩)

theorem settled_empty {h : List HostEvent} (hempty : h = []) : Settled h := by
  subst hempty
  exact Or.inl (by simp [NoProxy])

/-! ## 2. What a start of the proxy needs -/

variable [Sha256]

/-- The two values have one digest, so on a hash without collisions one encoding. -/
def SameData (a b : Json) : Prop :=
  digestJson a = digestJson b ∧ (Function.Injective hexdigest → canonicalJson a = canonicalJson b)

theorem sameData_of_digest {a b : Json} (h : digestJson a = digestJson b) : SameData a b :=
  ⟨h, fun hinj => hinj h⟩

namespace RollbackEngine

/-- The validation that clears a version. -/
def validationOf : Version → HostCall
  | .stable => .nonmutatingOldAppValidation
  | .candidate => .candidateValidation

/-- What the data must still be.  For the stable release it is what was declared; for the
candidate what was observed right before the application was stopped for it. -/
def Reference (e : RollbackEngine) (beforeStart : List HostEvent) :
    Version → Json → Prop
  | .stable, reference => reference = e.declaredWatermark
  | .candidate, reference => ∃ older captured stopped,
      beforeStart = older ++ [captured, stopped] ∧ captured.command = .currentWatermark ∧
        captured.answer = .ok reference ∧ stopped.command = .stopApp

/-- Since its last start the application of this version was found fit for the public: the
proxy was seen stopped, the version was validated, the data was seen unchanged, and the proxy
was not started. -/
def Cleared (e : RollbackEngine) (past : List HostEvent) (version : Version) : Prop :=
  ∃ before started after, past = before ++ started :: after ∧
    started.command = .startApp (e.identityOf version) ∧
    (∀ ev ∈ after, ev.command ≠ .startProxy ∧ ∀ identity, ev.command ≠ .startApp identity) ∧
    (∃ ev ∈ after, ev.command = .proxyIsStopped ∧ ev.Yes) ∧
    (∃ ev ∈ after, ev.command = validationOf version ∧ ev.Yes) ∧
    ∃ ev ∈ after, ∃ observed reference, ev.command = .currentWatermark ∧
      ev.answer = .ok observed ∧ e.Reference before version reference ∧
      SameData observed reference

/-- A start of the proxy is justified: the proxy had been stopped, the application that was
started last is cleared, and the runtime identity names it. -/
def Allowed (e : RollbackEngine) (past : List HostEvent) (ev : HostEvent) : Prop :=
  ev.command = .startProxy → (∃ s ∈ past, s.command = .stopProxy) ∧
    ∃ version, e.Cleared past version ∧
      ev.files e.runtimeIdentityPath = some (.file false (canonicalJson (e.identityOf version)))

theorem free_allowed (e : RollbackEngine) {command : HostCall} (h : command ≠ .startProxy) :
    Free e.Allowed command :=
  fun _ _ hcommand hstart => absurd (hcommand.symm.trans hstart) h

/-- An observation, a check or an authorization takes nothing away. -/
theorem Cleared.snoc {e : RollbackEngine} {past : List HostEvent} {version : Version}
    (h : e.Cleared past version) {ev : HostEvent} (hproxy : ev.command ≠ .startProxy)
    (happ : ∀ identity, ev.command ≠ .startApp identity) : e.Cleared (past ++ [ev]) version := by
  obtain ⟨before, started, after, rfl, hstarted, hquiet, hstopped, hvalid, hdata⟩ := h
  refine ⟨before, started, after ++ [ev], by simp, hstarted, ?_, ?_, ?_, ?_⟩
  · intro x hx
    rcases List.mem_append.mp hx with hx | hx
    · exact hquiet x hx
    · rw [List.mem_singleton.mp hx]
      exact ⟨hproxy, happ⟩
  · obtain ⟨x, hx, hyes⟩ := hstopped
    exact ⟨x, List.mem_append_left _ hx, hyes⟩
  · obtain ⟨x, hx, hyes⟩ := hvalid
    exact ⟨x, List.mem_append_left _ hx, hyes⟩
  · obtain ⟨x, hx, hyes⟩ := hdata
    exact ⟨x, List.mem_append_left _ hx, hyes⟩

/-- The five events of the stable release clear it. -/
theorem StableTrail.cleared {e : RollbackEngine} {observed : Json}
    {started isolated before validated after : HostEvent} (past : List HostEvent)
    (h : e.StableTrail observed started isolated before validated after) :
    e.Cleared (past ++ [started, isolated, before, validated, after]) .stable := by
  refine ⟨past, started, [isolated, before, validated, after], rfl, h.start, ?_, ?_, ?_, ?_⟩
  · simp [h.isolation.1, h.first, h.validation.1, h.last.1]
  · exact ⟨isolated, by simp, h.isolation⟩
  · exact ⟨validated, by simp, h.validation⟩
  · exact ⟨after, by simp, observed, _, h.last.1, h.last.2, rfl, sameData_of_digest h.unchanged⟩

/-- The six events of the candidate clear it. -/
theorem CandidateTrail.cleared {e : RollbackEngine} {failure observed : Json}
    {captured stopped started isolated validated rechecked : HostEvent} (past : List HostEvent)
    (h : e.CandidateTrail failure observed captured stopped started isolated validated rechecked) :
    e.Cleared (past ++ [captured, stopped, started, isolated, validated, rechecked]) .candidate := by
  refine ⟨past ++ [captured, stopped], started, [isolated, validated, rechecked], by simp,
    h.start.1, ?_, ?_, ?_, ?_⟩
  · simp [h.isolation.1, h.validation.1, h.recheck.1]
  · exact ⟨isolated, by simp, h.isolation⟩
  · exact ⟨validated, by simp, h.validation⟩
  · exact ⟨rechecked, by simp, observed, failure, h.recheck.1, h.recheck.2,
      ⟨past, captured, stopped, rfl, h.capture.1, h.capture.2, h.stop⟩,
      sameData_of_digest h.unchanged⟩

/-- What allows the proxy to start now. -/
structure Ready (e : RollbackEngine) (version : Version) (w : World) : Prop where
  stopped : ∃ s ∈ w.history, s.command = .stopProxy
  cleared : e.Cleared w.history version
  identity : w.files e.runtimeIdentityPath =
    some (.file false (canonicalJson (e.identityOf version)))

theorem Ready.authorized {e : RollbackEngine} {version : Version} {w : World}
    (h : e.Ready version w) (evidence : Json) :
    e.Ready version (w.did (.authorizeProxy evidence)) := by
  refine ⟨?_, h.cleared.snoc (by simp) (by simp), h.identity⟩
  obtain ⟨s, hs, hcommand⟩ := h.stopped
  exact ⟨s, List.mem_append_left _ hs, hcommand⟩

/-! ## 3. The two places that start it -/

/-- The proxy's start, where it is allowed. -/
theorem held_startProxy {e : RollbackEngine} {version : Version} {w : World}
    (hw : Sound e.Allowed w) (h : e.Ready version w) :
    (host .startProxy).wp machine
      (held e.Allowed (fun _ w' => w' = w.did .startProxy) whatever) w :=
  held_justified hw fun _ => ⟨h.stopped, version, h.cleared, h.identity⟩

/-- Readiness right after the proxy's start means that the service is up. -/
theorem held_requireReadiness {e : RollbackEngine} {w : World}
    (hw : Sound e.Allowed (w.did .startProxy)) (message : String) :
    (requireReadiness message).wp machine
      (held e.Allowed (fun _ w' => Served w'.history) whatever) (w.did .startProxy) := by
  refine held_of_calls (Q := ⟨fun _ w' => Served w'.history, whatever, fun _ => True⟩) hw
    (callsIn_requireReadiness (e.free_allowed (by simp)) (e.free_allowed (by simp))) ?_
    (fun _ _ h => h) fun _ _ h => h
  refine Prog.wp_bind_of (wp_host _ .externalReadiness) (fun ready w' h => ?_)
    (fun _ _ _ => trivial) fun _ h => h
  obtain ⟨rfl, hanswer⟩ := h
  split
  · next htrue =>
    refine (Prog.wp_pure _).mpr ⟨w.history, w.event .startProxy,
      [(w.did .startProxy).event .externalReadiness], by simp, rfl, ?_, _, by simp, rfl, ready,
      hanswer, htrue⟩
    simp [NoProxy, HostEvent.IsProxy]
  · exact Prog.wp_bind_of (wp_host _ .stopProxy) (fun _ _ _ => (Prog.wp_throw _).mpr trivial)
      (fun _ _ _ => trivial) fun _ h => h

/-- `publishStable` starts the proxy as it may, and returns only when the service is up. -/
theorem wp_publishStable {e : RollbackEngine} {w : World} (hw : Sound e.Allowed w)
    (hready : e.Ready .stable w) (path : RollbackPath) (observed expected : Json) :
    (e.publishStable path observed expected).wp machine
      (held e.Allowed (fun _ w' => Served w'.history) FrameTells) w := by
  let authorize : HostCall := .authorizeProxy (e.stableEvidence path observed expected)
  have hfree : Free e.Allowed authorize := e.free_allowed (by simp [authorize])
  refine held_bind (held_within rfl (held_tell hw authorize hfree)) fun _ w₁ hs₁ h₁ => ?_
  have hready₁ : e.Ready .stable w₁ := h₁ ▸ hready.authorized _
  refine held_bind (F := fun _ w' => w' = w₁.did .startProxy) (held_within rfl ?_)
    fun _ w₂ hs₂ h₂ => ?_
  · refine held_bind (held_startProxy hs₁ hready₁) fun _ w' hs' h' => ?_
    exact (Prog.wp_pure _).mpr ⟨hs', h'⟩
  subst h₂
  exact held_within rfl (held_requireReadiness hs₂ _)

/-- The `try` block: it starts the proxy as it may, and returns with the service up. -/
theorem wp_switchBody (e : RollbackEngine) {w : World} (hw : w.history = [])
    (path : RollbackPath) :
    (e.switchBody path e.declaredWatermark).wp machine
      (held e.Allowed (fun _ w' => Served w'.history) FrameTells) w := by
  have hfree : ∀ {command : HostCall}, command ≠ .startProxy → Free e.Allowed command :=
    e.free_allowed
  refine held_bind (F := fun _ w' => Served w'.history) ?_ fun _ w₁ hs₁ h₁ => ?_
  · refine held_bind (e.wp_isolate hw (hfree (by simp)) (hfree (by simp)) (hfree (by simp))
      (hfree (by simp))) fun _ w₂ hs₂ h₂ => ?_
    refine held_bind (e.wp_validateStable hs₂ (hfree (by simp)) (hfree (by simp))
      (hfree (by simp)) (hfree (by simp))) fun observed w₃ hs₃ h₃ => ?_
    obtain ⟨hfiles, started, isolated, before, validated, after, hhistory, htrail⟩ := h₃
    refine wp_publishStable hs₃ ⟨?_, ?_, by rw [hfiles]; exact h₂.identity⟩ _ _ _
    · obtain ⟨s, hs, hcommand⟩ := h₂.stopped
      exact ⟨s, by rw [hhistory]; exact List.mem_append_left _ hs, hcommand⟩
    · rw [hhistory]
      exact htrail.cleared _
  · refine held_within rfl (held_le (held_silent hs₁ (e.recordRecovery_notHost path))
      (fun _ w' h => ?_) fun _ _ _ => trivial)
    rw [show w'.history = w₁.history from h]
    exact h₁

/-- `rollForward` starts the proxy as it may, and returns only when the service is up. -/
theorem wp_rollForward {e : RollbackEngine} {w : World} (hw : Sound e.Allowed w)
    (hstop : ∃ s ∈ w.history, s.command = .stopProxy) (path : RollbackPath) (expected : Json)
    (failedStage : String) :
    (e.rollForward path expected failedStage).wp machine
      (held e.Allowed (fun _ w' => Served w'.history) whatever) w := by
  have hfree : ∀ {command : HostCall}, command ≠ .startProxy → Free e.Allowed command :=
    e.free_allowed
  refine held_bind (e.wp_startCandidate hw (hfree (by simp)) (hfree (by simp)) (hfree (by simp))
    (hfree (by simp)) (hfree (by simp))) fun _ w₁ hs₁ h₁ => ?_
  obtain ⟨hidentity, failure, observed, captured, stopped, started, isolated, validated, rechecked,
    hhistory, htrail⟩ := h₁
  have hready : e.Ready .candidate w₁ := by
    refine ⟨?_, by rw [hhistory]; exact htrail.cleared _, hidentity⟩
    obtain ⟨s, hs, hcommand⟩ := hstop
    exact ⟨s, by rw [hhistory]; exact List.mem_append_left _ hs, hcommand⟩
  refine held_bind (held_ask hs₁ (.authorizeProxy _) (hfree (by simp))) fun _ w₂ hs₂ h₂ => ?_
  have hready₂ : e.Ready .candidate w₂ := h₂.1 ▸ hready.authorized _
  refine held_bind (held_startProxy hs₂ hready₂) fun _ w₃ hs₃ h₃ => ?_
  subst h₃
  refine held_bind (held_requireReadiness hs₃ _) fun _ w₄ hs₄ h₄ => ?_
  refine held_le (held_silent hs₄ (e.appendAudit_notHost _ _ _ _)) (fun _ w' h => ?_)
    fun _ _ _ => trivial
  rw [show w'.history = w₄.history from h]
  exact h₄

/-! ## 4. The handler -/

/-- The handler leaves the proxy settled, whether it returns or raises. -/
theorem wp_recover {e : RollbackEngine} {f : Frame} {w : World} (hw : Sound e.Allowed w)
    (hf : FrameOk f w) (expected : Json) (original : Exn) :
    (e.recover .preserveForwardData expected f original).wp machine
      (held e.Allowed (fun _ w' => Settled w'.history) fun _ w' => Settled w'.history) w := by
  -- the audit changes nothing about the proxy, so every way out ends settled
  have haudit : ∀ (w' : World) (result stage : String) (details : Fields), Sound e.Allowed w' →
      Settled w'.history → (e.appendAudit result stage .preserveForwardData details).wp machine
        (held e.Allowed (fun _ w'' => Settled w''.history) fun _ w'' => Settled w''.history)
        w' := by
    intro w' result stage details hs hsettled
    refine held_le (held_silent hs (e.appendAudit_notHost _ _ _ _)) (fun _ w'' h => ?_)
      fun _ w'' h => ?_ <;>
    · rw [show w''.history = w'.history from h]
      exact hsettled
  refine held_bind (F := fun _ w' => Settled w'.history ∧ (f.proxyStopAttempted = true →
    ∃ s ∈ w'.history, s.command = .stopProxy)) ?_ fun _ w₁ hs₁ h₁ => ?_
  · unfold reisolate
    split
    · refine held_le (held_attempt hw .stopProxy (e.free_allowed (by simp))) (fun _ w' h => ?_)
        fun _ w' h => ?_
      · rw [h]
        exact ⟨settled_stopped w, fun _ => ⟨w.event .stopProxy, by simp, rfl⟩⟩
      · rw [h]
        exact settled_stopped w
    · next hnot =>
      exact (Prog.wp_pure _).mpr ⟨hw, Or.inl (hf.1 (by simpa using hnot)), fun h => absurd h hnot⟩
  obtain ⟨hsettled, hstop⟩ := h₁
  split
  · next hchanged =>
    have hattempted : f.proxyStopAttempted = true := hf.2 (by simpa using hchanged.2)
    refine Prog.wp_tryCatch_of (wp_rollForward hs₁ (hstop hattempted) _ _ _)
      (fun _ w' h => ⟨h.1, Or.inr (Or.inr h.2)⟩) (fun x w' h => ?_) fun _ h => h
    refine held_bind (F := fun _ w'' => Settled w''.history) ?_ fun _ w₂ hs₂ h₂ =>
      haudit w₂ _ _ _ hs₂ h₂
    refine held_le (held_attempt h.1 .stopProxy (e.free_allowed (by simp))) (fun _ w'' h' => ?_)
      fun _ w'' h' => ?_ <;>
    · rw [h']
      exact settled_stopped w'
  · exact haudit w₁ _ _ _ hs₁ hsettled

/-! ## 5. The run -/

/-- A run of the engine starts every proxy as it may, and leaves the proxy settled. -/
theorem wp_run (e : RollbackEngine) {w : World} (hw : w.history = []) :
    e.run.wp machine
      (held e.Allowed (fun _ w' => Settled w'.history) fun _ w' => Settled w'.history) w := by
  refine e.wp_run_of_switch hw (fun w' h => ?_) (fun _ => trivial) fun w₁ h₁ => ?_
  · exact ⟨fun _ => ⟨sound_of_empty h, settled_empty h⟩,
      fun _ => ⟨sound_of_empty h, settled_empty h⟩⟩
  · exact Prog.wp_le (e.wp_switchBody h₁ .preserveForwardData)
      ⟨fun _ _ h => ⟨h.1, Or.inr (Or.inr h.2)⟩, fun raised w' h => wp_recover h.1 h.2 _ _,
        fun _ h => h⟩

end RollbackEngine

/-- **Proxy last.**  Whatever the host adapter answers or raises, every start of the proxy in a
run is allowed by what came before it, and when the run has ended, having issued a proxy
command, the last one was an attempt to stop the proxy or the last start was followed by
external readiness. -/
theorem proxy_last (e : RollbackEngine) (w : World) :
    let history := (e.run.run machine w.begin).2.history
    (∀ past start future, history = past ++ start :: future → start.command = .startProxy →
      (∃ s ∈ past, s.command = .stopProxy) ∧
        ∃ version, e.Cleared past version ∧ start.files e.runtimeIdentityPath =
          some (.file false (canonicalJson (e.identityOf version)))) ∧
      (NoProxy history ∨ StoppedLast history ∨ Served history) := by
  have hend : Sound e.Allowed (e.run.run machine w.begin).2 ∧
      Settled (e.run.run machine w.begin).2.history := by
    have hpost := Prog.run_of_wp _ _ (e.wp_run (w := w.begin) rfl)
    rcases hrun : e.run.run machine w.begin with ⟨_ | _, w'⟩ <;> rw [hrun] at hpost <;> exact hpost
  exact ⟨fun past start future heq => hend.1.split heq, hend.2⟩

end ProductPdfQr.DeployRollback
