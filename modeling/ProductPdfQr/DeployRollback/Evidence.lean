/-
# The evidence for a start of the proxy

Before the proxy starts, the engine hands `authorize_proxy` a record that names a watermark
digest.  On the stable path it is the digest of what was just observed.  On the way forward it
is the digest that was declared, and nothing compared the data with it: `startCandidate` only
asks that the data stay as they were when the switch failed.

`AuthorizedBy` says what every authorization looks like, and `Concluded` that the six events
that bring the candidate back are always followed by its authorization.  Together they give the
exact condition.
-/
import ProductPdfQr.DeployRollback.Trace

namespace ProductPdfQr.DeployRollback

open Effect Json

/-! ## 1. What was observed -/

/-- What is known of the data after an event. -/
def observe (known : Option Json) (ev : HostEvent) : Option Json :=
  match ev.command, ev.answer with
  | .currentWatermark, .ok observed => some observed
  | _, _ => known

/-- The watermark the engine observed most recently. -/
def lastObserved (past : List HostEvent) : Option Json := past.foldl observe none

theorem lastObserved_snoc {ev : HostEvent} {observed : Json} (past : List HostEvent)
    (hc : ev.command = .currentWatermark) (ha : ev.answer = .ok observed) :
    lastObserved (past ++ [ev]) = some observed := by
  simp [lastObserved, observe, List.foldl_append, hc, ha]

theorem split_unique {α : Type} {p : α → Prop} {a b : α} :
    ∀ {l l' m m' : List α}, l ++ a :: l' = m ++ b :: m' → p b → (∀ x ∈ l, ¬p x) →
      (∀ x ∈ l', ¬p x) → l = m ∧ a = b ∧ l' = m'
  | [], l', [], m', heq, _, _, _ => by
    obtain ⟨rfl, rfl⟩ := List.cons.inj heq
    exact ⟨rfl, rfl, rfl⟩
  | [], l', x :: m, m', heq, hb, _, hl' => by
    obtain ⟨rfl, rfl⟩ := List.cons.inj heq
    exact absurd hb (hl' b (by simp))
  | x :: l, l', [], m', heq, hb, hl, _ => by
    obtain ⟨rfl, rfl⟩ := List.cons.inj heq
    exact absurd hb (hl x (by simp))
  | x :: l, l', y :: m, m', heq, hb, hl, hl' => by
    obtain ⟨hx, htail⟩ := List.cons.inj heq
    obtain ⟨hm, hab, hm'⟩ := split_unique htail hb (fun z hz => hl z (by simp [hz])) hl'
    exact ⟨by rw [hx, hm], hab, hm'⟩

/-- An event that answers a check with anything but a true value refutes what needs its yes. -/
theorem not_yes {w : World} {command : HostCall} {answer : Except Exn Json}
    (h : (w.event command).answer = answer) (hno : ∀ a, answer = .ok a → a.truthy = false) :
    ¬(w.event command).Yes := by
  rintro ⟨a, ha, htrue⟩
  exact Bool.false_ne_true ((hno a (h.symm.trans ha)).symm.trans htrue)

section

variable [Sha256]

/-- The evidence names the digest of what is known. -/
def Names (known : Option Json) (evidence : Json) : Prop :=
  ∃ observed, known = some observed ∧
    evidence.get "watermark_sha256" = .str (digestJson observed)

/-- Every evidence record names the digest of the watermark observed most recently. -/
def EvidenceTruthful (history : List HostEvent) : Prop :=
  ∀ past ev future evidence, history = past ++ ev :: future →
    ev.command = .authorizeProxy evidence → Names (lastObserved past) evidence

/-- A run whose evidence is truthful was truthful when it was cut short. -/
theorem EvidenceTruthful.initial {h h' : List HostEvent} (hh : EvidenceTruthful h')
    (hcut : h <+: h') : EvidenceTruthful h := by
  obtain ⟨rest, rfl⟩ := hcut
  intro past ev future evidence heq
  exact hh past ev (future ++ rest) evidence (by simp [heq])

/-- The check of one command. -/
def checkEvidence (known : Option Json) : HostCall → Bool
  | .authorizeProxy evidence =>
    known.any fun observed => evidence.get "watermark_sha256" = .str (digestJson observed)
  | _ => true

/-- The check, event by event. -/
def truthfulFrom : Option Json → List HostEvent → Bool
  | _, [] => true
  | known, ev :: rest => checkEvidence known ev.command && truthfulFrom (observe known ev) rest

theorem truthfulFrom_of_truthful : ∀ (h : List HostEvent) (known : Option Json),
    (∀ past ev future evidence, h = past ++ ev :: future →
      ev.command = .authorizeProxy evidence → Names (past.foldl observe known) evidence) →
      truthfulFrom known h = true
  | [], _, _ => rfl
  | ev :: rest, known, hh => by
    rw [truthfulFrom, Bool.and_eq_true]
    refine ⟨?_, truthfulFrom_of_truthful rest (observe known ev) fun past ev' future evidence heq =>
      hh (ev :: past) ev' future evidence (by rw [heq]; rfl)⟩
    cases hev : ev.command with
    | authorizeProxy evidence =>
      obtain ⟨observed, hknown, hdigest⟩ := hh [] ev rest evidence rfl hev
      rw [show known = some observed from hknown]
      exact decide_eq_true hdigest
    | _ => rfl

namespace RollbackEngine

/-- Whenever the candidate was brought back, the data captured when the switch failed have the
declared digest. -/
def ForwardOnDeclaredData (e : RollbackEngine) (history : List HostEvent) : Prop :=
  ∀ older captured stopped started isolated validated rechecked future failure observed,
    history = older ++ [captured, stopped, started, isolated, validated, rechecked] ++ future →
      e.CandidateTrail failure observed captured stopped started isolated validated rechecked →
        digestJson failure = digestJson e.declaredWatermark

/-! ## 2. Every authorization -/

/-- An authorization follows the five events of the stable release with their evidence, or the
six of the candidate with theirs. -/
def AuthorizedBy (e : RollbackEngine) (past : List HostEvent) (ev : HostEvent) : Prop :=
  ∀ evidence, ev.command = .authorizeProxy evidence →
    (∃ older observed started isolated before validated after,
      past = older ++ [started, isolated, before, validated, after] ∧
        e.StableTrail observed started isolated before validated after ∧
        evidence = e.stableEvidence .preserveForwardData observed e.declaredWatermark) ∨
    ∃ older failure observed captured stopped started isolated validated rechecked,
      past = older ++ [captured, stopped, started, isolated, validated, rechecked] ∧
        e.CandidateTrail failure observed captured stopped started isolated validated rechecked ∧
        evidence = e.forwardEvidence .preserveForwardData e.declaredWatermark

/-- Not an authorization. -/
def NoAuthorization (command : HostCall) : Prop := ∀ evidence, command ≠ .authorizeProxy evidence

theorem free_authorizedBy (e : RollbackEngine) {command : HostCall} (h : NoAuthorization command) :
    Free e.AuthorizedBy command :=
  fun _ _ hcommand evidence hev => absurd (hcommand.symm.trans hev) (h evidence)

theorem stableEvidence_digest (e : RollbackEngine) (path : RollbackPath) (observed expected : Json) :
    (e.stableEvidence path observed expected).get "watermark_sha256" =
      .str (digestJson observed) := by
  simp [stableEvidence, get_dict, lookupField]

theorem forwardEvidence_digest (e : RollbackEngine) (path : RollbackPath) (expected : Json) :
    (e.forwardEvidence path expected).get "watermark_sha256" = .str (digestJson expected) := by
  simp [forwardEvidence, get_dict, lookupField]

theorem identityOf_version (e : RollbackEngine) (version : Version) :
    (e.identityOf version).get "version" = .str version.text := by
  simp [identityOf, ReleaseRecord.runtimeIdentity, get_dict, lookupField]

theorem identityOf_ne (e : RollbackEngine) : e.identityOf .stable ≠ e.identityOf .candidate := by
  intro h
  have hversion := congrArg (fun j => j.get "version") h
  simp [identityOf_version, Version.text] at hversion

/-- Right after the five events of the stable release their evidence is due. -/
theorem wp_publishStable_authorized {e : RollbackEngine} {w : World} (hw : Sound e.AuthorizedBy w)
    {observed : Json} (htrail : ∃ older started isolated before validated after,
      w.history = older ++ [started, isolated, before, validated, after] ∧
        e.StableTrail observed started isolated before validated after) :
    (e.publishStable .preserveForwardData observed e.declaredWatermark).wp machine
      (held e.AuthorizedBy (fun _ _ => True) FrameTells) w := by
  obtain ⟨older, started, isolated, before, validated, after, hhistory, htrail⟩ := htrail
  let evidence : Json := e.stableEvidence .preserveForwardData observed e.declaredWatermark
  have hdue : e.AuthorizedBy w.history (w.event (.authorizeProxy evidence)) := by
    intro given hgiven
    cases hgiven
    exact Or.inl ⟨older, observed, started, isolated, before, validated, after, hhistory, htrail,
      rfl⟩
  have hfree : ∀ {command : HostCall}, NoAuthorization command → Free e.AuthorizedBy command :=
    e.free_authorizedBy
  refine held_bind (F := fun _ _ => True) (held_within rfl ?_) fun _ w₁ hs₁ _ => ?_
  · refine held_bind (held_justified hw hdue) fun _ w' hs' _ => ?_
    exact (Prog.wp_pure _).mpr ⟨hs', trivial⟩
  have hstart : Free e.AuthorizedBy .startProxy := hfree (by simp [NoAuthorization])
  refine held_bind (held_within_calls rfl hs₁ (callsIn_host_unit hstart)) fun _ w₂ hs₂ _ => ?_
  exact held_within_calls rfl hs₂ (callsIn_requireReadiness (hfree (by simp [NoAuthorization]))
    (hfree (by simp [NoAuthorization])))

/-- The `try` block authorizes the stable release as it may. -/
theorem wp_switchBody_authorized (e : RollbackEngine) {w : World} (hw : w.history = []) :
    (e.switchBody .preserveForwardData e.declaredWatermark).wp machine
      (held e.AuthorizedBy (fun _ _ => True) FrameTells) w := by
  have hfree : ∀ {command : HostCall}, NoAuthorization command → Free e.AuthorizedBy command :=
    e.free_authorizedBy
  refine held_bind (F := fun _ _ => True) ?_ fun _ w₁ hs₁ _ => ?_
  · refine held_bind (e.wp_isolate hw (hfree (by simp [NoAuthorization]))
      (hfree (by simp [NoAuthorization])) (hfree (by simp [NoAuthorization]))
      (hfree (by simp [NoAuthorization]))) fun _ w₂ hs₂ _ => ?_
    refine held_bind (e.wp_validateStable hs₂ (hfree (by simp [NoAuthorization]))
      (hfree (by simp [NoAuthorization])) (hfree (by simp [NoAuthorization]))
      (hfree (by simp [NoAuthorization]))) fun observed w₃ hs₃ h₃ => ?_
    obtain ⟨_, started, isolated, before, validated, after, hhistory, htrail⟩ := h₃
    exact wp_publishStable_authorized hs₃ ⟨_, _, _, _, _, _, hhistory, htrail⟩
  · exact held_within_calls rfl hs₁ ((e.recordRecovery_notHost _).mono freeCall_of_notHost)

/-- So does the way forward with the candidate. -/
theorem wp_rollForward_authorized {e : RollbackEngine} {w : World} (hw : Sound e.AuthorizedBy w)
    (failedStage : String) :
    (e.rollForward .preserveForwardData e.declaredWatermark failedStage).wp machine
      (held e.AuthorizedBy (fun _ _ => True) whatever) w := by
  have hfree : ∀ {command : HostCall}, NoAuthorization command → Free e.AuthorizedBy command :=
    e.free_authorizedBy
  refine held_bind (e.wp_startCandidate hw (hfree (by simp [NoAuthorization]))
    (hfree (by simp [NoAuthorization])) (hfree (by simp [NoAuthorization]))
    (hfree (by simp [NoAuthorization])) (hfree (by simp [NoAuthorization]))) fun _ w₁ hs₁ h₁ => ?_
  obtain ⟨_, failure, observed, captured, stopped, started, isolated, validated, rechecked,
    hhistory, htrail⟩ := h₁
  have hdue : e.AuthorizedBy w₁.history (w₁.event (.authorizeProxy
      (e.forwardEvidence .preserveForwardData e.declaredWatermark))) := by
    intro given hgiven
    cases hgiven
    exact Or.inr ⟨w.history, failure, observed, captured, stopped, started, isolated, validated,
      rechecked, hhistory, htrail, rfl⟩
  refine held_bind (held_justified hs₁ hdue) fun _ w₂ hs₂ _ => ?_
  refine held_calls hs₂ (Prog.callsIn_bind (callsIn_host (hfree (by simp [NoAuthorization])))
    fun _ => Prog.callsIn_bind (callsIn_requireReadiness (hfree (by simp [NoAuthorization]))
      (hfree (by simp [NoAuthorization]))) fun _ => ?_)
  exact (e.appendAudit_notHost _ _ _ _).mono freeCall_of_notHost

/-- A whole run hands out only evidence that is due. -/
theorem wp_run_authorized (e : RollbackEngine) {w : World} (hw : w.history = []) :
    e.run.wp machine (held e.AuthorizedBy (fun _ _ => True) whatever) w := by
  have hend : ∀ {w' : World}, w'.history = [] → Sound e.AuthorizedBy w' := sound_of_empty
  refine e.wp_run_of_switch hw (fun w' h => ⟨fun _ => ⟨hend h, trivial⟩,
    fun _ => ⟨hend h, trivial⟩⟩) (fun _ => trivial) fun w₁ h₁ => ?_
  refine Prog.wp_le (e.wp_switchBody_authorized h₁)
    ⟨fun _ _ h => h, fun raised w₂ h₂ => ?_, fun _ h => h⟩
  have hstop : Free e.AuthorizedBy .stopProxy := e.free_authorizedBy (by simp [NoAuthorization])
  have haudit : ∀ {result stage : String} {details : Fields} {w' : World}, Sound e.AuthorizedBy w' →
      (e.appendAudit result stage .preserveForwardData details).wp machine
        (held e.AuthorizedBy (fun _ _ => True) whatever) w' := fun hs =>
    held_calls hs ((e.appendAudit_notHost _ _ _ _).mono freeCall_of_notHost)
  refine held_bind (F := fun _ _ => True) ?_ fun _ w₃ hs₃ _ => ?_
  · unfold reisolate
    split
    · exact held_calls h₂.1 (callsIn_attempt hstop)
    · exact (Prog.wp_pure _).mpr ⟨h₂.1, trivial⟩
  split
  · refine Prog.wp_tryCatch_of (wp_rollForward_authorized hs₃ _) (fun _ _ h => h)
      (fun x w' h => ?_) fun _ h => h
    exact held_bind (held_calls h.1 (callsIn_attempt hstop)) fun _ w'' hs'' _ => haudit hs''
  · exact haudit hs₃

/-! ## 3. The candidate's start is concluded -/

/-- The command that starts the candidate. -/
def candidateStart (e : RollbackEngine) : HostCall := .startApp (e.identityOf .candidate)

/-- However it goes on, these events are no candidate brought back. -/
def Refuted (e : RollbackEngine) (captured stopped started : HostEvent)
    (later : List HostEvent) : Prop :=
  ∀ more isolated validated rechecked future failure observed,
    later ++ more = isolated :: validated :: rechecked :: future →
      ¬e.CandidateTrail failure observed captured stopped started isolated validated rechecked

/-- The three checks, and then the authorization. -/
def Concluding (e : RollbackEngine) (later : List HostEvent) : Prop :=
  ∃ isolated validated rechecked ev future,
    later = isolated :: validated :: rechecked :: ev :: future ∧
      ev.command = .authorizeProxy (e.forwardEvidence .preserveForwardData e.declaredWatermark)

/-- The candidate was started at most once, and if the six events that bring it back are there,
its authorization follows them. -/
def Concluded (e : RollbackEngine) (h : List HostEvent) : Prop :=
  Without e.candidateStart h ∨ ∃ older captured stopped started later,
    h = (older ++ [captured, stopped]) ++ started :: later ∧
      Without e.candidateStart (older ++ [captured, stopped]) ∧
      Without e.candidateStart later ∧
      (e.Refuted captured stopped started later ∨ e.Concluding later)

theorem Concluded.append {e : RollbackEngine} {h more : List HostEvent} (hh : e.Concluded h)
    (hmore : Without e.candidateStart more) : e.Concluded (h ++ more) := by
  rcases hh with hh | ⟨older, captured, stopped, started, later, rfl, hbefore, hafter, hend⟩
  · exact Or.inl (hh.append hmore)
  · refine Or.inr ⟨older, captured, stopped, started, later ++ more, by simp, hbefore,
      hafter.append hmore, ?_⟩
    rcases hend with hrefuted | ⟨isolated, validated, rechecked, ev, future, rfl, hev⟩
    · refine Or.inl fun more' isolated validated rechecked future failure observed heq => ?_
      exact hrefuted (more ++ more') _ _ _ future _ _ (by rw [← heq, List.append_assoc])
    · exact Or.inr ⟨isolated, validated, rechecked, ev, future ++ more, by simp, hev⟩

/-- Where the six events stand, the next one is their authorization. -/
theorem Concluded.next {e : RollbackEngine} {h older future : List HostEvent}
    {captured stopped started isolated validated rechecked : HostEvent} {failure observed : Json}
    (hh : e.Concluded h)
    (heq : h = older ++ [captured, stopped, started, isolated, validated, rechecked] ++ future)
    (htrail : e.CandidateTrail failure observed captured stopped started isolated validated
      rechecked) :
    ∃ ev future', future = ev :: future' ∧
      ev.command = .authorizeProxy (e.forwardEvidence .preserveForwardData e.declaredWatermark) := by
  have hstart : started.command = e.candidateStart := htrail.start.1
  rcases hh with hh | ⟨older', captured', stopped', started', later, hsplit, hbefore, hafter, hend⟩
  · exact absurd hstart (hh started (by simp [heq]))
  · have hsame : (older' ++ [captured', stopped']) ++ started' :: later =
        (older ++ [captured, stopped]) ++ started ::
          (isolated :: validated :: rechecked :: future) := by
      rw [← hsplit, heq]
      simp
    obtain ⟨hpast, hstarted, hlater⟩ := split_unique hsame hstart hbefore hafter
    obtain ⟨-, hpair⟩ := List.append_inj' hpast rfl
    simp only [List.cons.injEq, and_true] at hpair
    rcases hend with hrefuted | ⟨isolated', validated', rechecked', ev, future', hnow, hev⟩
    · refine absurd htrail (hpair.1 ▸ hpair.2 ▸ hstarted ▸ hrefuted [] _ _ _ future _ _ ?_)
      rw [List.append_nil, hlater]
    · rw [hlater] at hnow
      simp only [List.cons.injEq] at hnow
      exact ⟨ev, future', hnow.2.2.2, hev⟩

theorem ne_candidateStart_of_notHost (e : RollbackEngine) (c : Call) (h : NotHost c) :
    c ≠ .host e.candidateStart := by
  rintro rfl
  exact h

/-- Commands that do not start the candidate leave it concluded. -/
theorem wp_concluded {e : RollbackEngine} {ε α : Type} {p : Prog Call Answer ε α} {w : World}
    (hp : p.CallsIn fun c => c ≠ .host e.candidateStart) (hw : e.Concluded w.history) :
    p.wp machine (Post.always fun w' => e.Concluded w'.history) w := by
  have hlater : ∀ w' : World, (∃ later, w'.history = w.history ++ later ∧
      Without e.candidateStart later) → e.Concluded w'.history := by
    rintro w' ⟨later, hlater, hwithout⟩
    rw [hlater]
    exact hw.append hwithout
  exact Prog.wp_le (wp_without hp w)
    ⟨fun _ w' h => hlater w' h, fun _ w' h => hlater w' h, fun w' h => hlater w' h⟩

/-- Where the validation of the candidate stops short, its start is refuted. -/
theorem wp_validateCandidate_refuted (e : RollbackEngine) (w : World) {failure : Json}
    {captured : HostEvent} (stopped started : HostEvent) (hcaptured : captured.answer = .ok failure) :
    (validateCandidate failure).wp machine
      ⟨fun _ w' => ∃ isolated validated rechecked,
          w'.history = w.history ++ [isolated, validated, rechecked] ∧
            Without e.candidateStart [isolated, validated, rechecked],
        fun _ w' => ∃ later, w'.history = w.history ++ later ∧ Without e.candidateStart later ∧
          e.Refuted captured stopped started later, fun _ => True⟩ w := by
  let w₁ := w.did .proxyIsStopped
  let w₂ := w₁.did .candidateValidation
  have hfirst : ¬(w.event .proxyIsStopped).Yes → ∃ later, w₁.history = w.history ++ later ∧
      Without e.candidateStart later ∧ e.Refuted captured stopped started later := by
    intro hno
    refine ⟨[w.event .proxyIsStopped], rfl, by simp [Without, candidateStart], ?_⟩
    intro more isolated validated rechecked future failure' observed heq htrail
    exact hno ((List.cons.inj heq).1 ▸ htrail.isolation.2)
  have hsecond : ¬(w₁.event .candidateValidation).Yes → ∃ later,
      w₂.history = w.history ++ later ∧ Without e.candidateStart later ∧
        e.Refuted captured stopped started later := by
    intro hno
    refine ⟨[w.event .proxyIsStopped, w₁.event .candidateValidation], by simp [w₂, w₁],
      by simp [Without, candidateStart], ?_⟩
    intro more isolated validated rechecked future failure' observed heq htrail
    exact hno ((List.cons.inj (List.cons.inj heq).2).1 ▸ htrail.validation.2)
  have hthird : (∀ a, (w₂.event .currentWatermark).answer = .ok a →
      digestJson a ≠ digestJson failure) → ∃ later,
      (w₂.did .currentWatermark).history = w.history ++ later ∧
        Without e.candidateStart later ∧ e.Refuted captured stopped started later := by
    intro hno
    refine ⟨[w.event .proxyIsStopped, w₁.event .candidateValidation, w₂.event .currentWatermark],
      by simp [w₂, w₁], by simp [Without, candidateStart], ?_⟩
    intro more isolated validated rechecked future failure' observed heq htrail
    have hlast : w₂.event .currentWatermark = rechecked :=
      (List.cons.inj (List.cons.inj (List.cons.inj heq).2).2).1
    have hfailure : failure = failure' :=
      Except.ok.inj (hcaptured.symm.trans htrail.capture.2)
    exact hno observed (hlast ▸ htrail.recheck.2) (hfailure ▸ htrail.unchanged)
  refine Prog.wp_bind_of (wp_host_answer w _) (fun stopped w' h => ?_)
    (fun x w' h => h.1 ▸ hfirst (not_yes h.2 (by simp))) fun _ h => h
  obtain ⟨rfl, hstopped⟩ := h
  refine (Prog.wp_bind _ _ _).mpr (Prog.wp_ensure.mpr ⟨fun _ => ?_, fun hfalse =>
    hfirst (not_yes hstopped fun a ha => Except.ok.inj ha ▸ hfalse)⟩)
  refine Prog.wp_bind_of (wp_host_answer _ _) (fun valid w' h => ?_)
    (fun x w' h => h.1 ▸ hsecond (not_yes h.2 (by simp))) fun _ h => h
  obtain ⟨rfl, hvalid⟩ := h
  refine (Prog.wp_bind _ _ _).mpr (Prog.wp_ensure.mpr ⟨fun _ => ?_, fun hfalse =>
    hsecond (not_yes hvalid fun a ha => Except.ok.inj ha ▸ hfalse)⟩)
  refine Prog.wp_bind_of (wp_host_answer _ _) (fun observed w' h => ?_)
    (fun x w' h => h.1 ▸ hthird fun a ha => ?_) fun _ h => h
  · obtain ⟨rfl, hobserved⟩ := h
    refine Prog.wp_ensure.mpr ⟨fun _ => ?_, fun hfalse => hthird fun a ha => ?_⟩
    · exact ⟨w.event .proxyIsStopped, w₁.event .candidateValidation, w₂.event .currentWatermark,
        by simp [w₂, w₁], by simp [Without, candidateStart]⟩
    · rw [← Except.ok.inj (hobserved.symm.trans ha)]
      exact of_decide_eq_false hfalse
  · exact absurd (h.2.symm.trans ha) (by simp)

/-- The way back to the candidate: all six events, or a start that is concluded already. -/
theorem wp_startCandidate_concluded (e : RollbackEngine) {w : World}
    (hw : Without e.candidateStart w.history) :
    e.startCandidate.wp machine
      ⟨fun _ w' => ∃ older captured stopped started isolated validated rechecked,
          w'.history = (older ++ [captured, stopped]) ++ started ::
            [isolated, validated, rechecked] ∧
            Without e.candidateStart (older ++ [captured, stopped]) ∧
            Without e.candidateStart [isolated, validated, rechecked],
        fun _ w' => e.Concluded w'.history, fun _ => True⟩ w := by
  have hother : ∀ (command : HostCall) {w' : World}, Without e.candidateStart w'.history →
      command ≠ e.candidateStart → Without e.candidateStart (w'.did command).history :=
    fun _ _ h hne => h.append (by simpa [Without] using hne)
  have hw₁ : Without e.candidateStart (w.did .currentWatermark).history :=
    hother _ hw (by simp [candidateStart])
  have hw₂ := hother .stopApp hw₁ (by simp [candidateStart])
  refine Prog.wp_bind_of (wp_host w _) (fun failure w' h => ?_)
    (fun x w' h => Or.inl (h ▸ hw₁)) fun _ h => h
  obtain ⟨rfl, hfailure⟩ := h
  refine (Prog.wp_bind _ _ _).mpr (Prog.wp_liftExcept.mpr ⟨fun _ _ => ?_, fun _ _ => Or.inl hw₁⟩)
  refine Prog.wp_bind_of (wp_host _ .stopApp) (fun _ w' h => ?_)
    (fun x w' h => Or.inl (h ▸ hw₂)) fun _ h => h
  obtain ⟨rfl, -⟩ := h
  refine Prog.wp_bind_of (wp_switchRuntimeIdentity _ _ _) (fun _ w₃ h₃ => ?_)
    (fun x w' h => Or.inl ?_) fun _ h => h
  swap
  · rw [show w'.history = _ from h]
    exact hw₂
  let captured := w.event .currentWatermark
  let stopped := (w.did .currentWatermark).event .stopApp
  let started := w₃.event e.candidateStart
  have hhistory : (w₃.did e.candidateStart).history =
      (w.history ++ [captured, stopped]) ++ started :: [] := by
    simp [h₃.1, captured, stopped, started]
  have hbefore : Without e.candidateStart (w.history ++ [captured, stopped]) := by
    simpa [captured, stopped] using hw₂
  have hlater : ∀ {w' : World} {later : List HostEvent},
      w'.history = (w₃.did e.candidateStart).history ++ later →
        w'.history = (w.history ++ [captured, stopped]) ++ started :: later := by
    intro w' later h
    rw [h, hhistory]
    simp
  refine Prog.wp_bind_of (wp_host_answer w₃ _) (fun _ w' h => ?_) (fun x w' h => ?_) fun _ h => h
  · obtain ⟨rfl, -⟩ := h
    refine Prog.wp_le (wp_validateCandidate_refuted e _ stopped started hfailure)
      ⟨fun _ w' h => ?_, fun _ w' h => ?_, fun _ h => h⟩
    · obtain ⟨isolated, validated, rechecked, hafter, hwithout⟩ := h
      exact ⟨w.history, captured, stopped, started, isolated, validated, rechecked, hlater hafter,
        hbefore, hwithout⟩
    · obtain ⟨later, hafter, hwithout, hrefuted⟩ := h
      exact Or.inr ⟨w.history, captured, stopped, started, later, hlater hafter, hbefore, hwithout,
        Or.inl hrefuted⟩
  · obtain ⟨rfl, herror⟩ := h
    refine Or.inr ⟨w.history, captured, stopped, started, [], hhistory, hbefore,
      by simp [Without], Or.inl ?_⟩
    intro more isolated validated rechecked future failure' observed _ htrail
    obtain ⟨a, ha⟩ := htrail.start.2
    exact absurd (ha.symm.trans herror) (by simp)

/-- The way forward is concluded, however it ends. -/
theorem wp_rollForward_concluded (e : RollbackEngine) {w : World}
    (hw : Without e.candidateStart w.history) (failedStage : String) :
    (e.rollForward .preserveForwardData e.declaredWatermark failedStage).wp machine
      ⟨fun _ w' => e.Concluded w'.history, fun _ w' => e.Concluded w'.history, fun _ => True⟩
      w := by
  refine Prog.wp_bind_of (e.wp_startCandidate_concluded hw) (fun _ w₁ h => ?_) (fun _ _ h => h)
    fun _ h => h
  obtain ⟨older, captured, stopped, started, isolated, validated, rechecked, hhistory, hbefore,
    hafter⟩ := h
  let evidence : Json := e.forwardEvidence .preserveForwardData e.declaredWatermark
  have hdone : e.Concluded (w₁.did (.authorizeProxy evidence)).history := by
    refine Or.inr ⟨older, captured, stopped, started,
      [isolated, validated, rechecked, w₁.event (.authorizeProxy evidence)], by simp [hhistory],
      hbefore, ?_, Or.inr ⟨isolated, validated, rechecked, _, [], rfl, rfl⟩⟩
    exact hafter.append (by simp [Without, candidateStart])
  refine Prog.wp_bind_of (wp_host w₁ _) (fun _ w₂ h₂ => ?_) (fun _ w₂ h₂ => ?_) fun _ h => h
  · refine Prog.wp_le (wp_concluded ?_ (h₂.1 ▸ hdone))
      ⟨fun _ _ h => h, fun _ _ h => h, fun _ _ => trivial⟩
    refine Prog.callsIn_bind (callsIn_host (by simp [candidateStart])) fun _ =>
      Prog.callsIn_bind (callsIn_requireReadiness (by simp [candidateStart])
        (by simp [candidateStart])) fun _ => ?_
    exact (e.appendAudit_notHost _ _ _ _).mono e.ne_candidateStart_of_notHost
  · rw [show w₂ = _ from h₂]
    exact hdone

/-- The `try` block never starts the candidate. -/
theorem callsIn_switchBody (e : RollbackEngine) (path : RollbackPath) (expected : Json) :
    (e.switchBody path expected).CallsIn fun c => c ≠ .host e.candidateStart := by
  have hquiet := e.ne_candidateStart_of_notHost
  have hstable : HostCall.startApp (e.identityOf .stable) ≠ e.candidateStart :=
    fun h => e.identityOf_ne (HostCall.startApp.inj h)
  have hisolate : e.isolate.CallsIn fun c => c ≠ .host e.candidateStart := by
    refine Prog.callsIn_bind (Prog.callsIn_mapError (callsIn_host_unit (by simp [candidateStart])))
      fun _ => ?_
    refine Prog.callsIn_bind (Prog.callsIn_mapError (Prog.callsIn_bind
      (callsIn_host (by simp [candidateStart])) fun _ =>
        callsIn_require (by simp [candidateStart]))) fun _ => ?_
    refine Prog.callsIn_bind (Prog.callsIn_mapError (callsIn_host_unit (by simp [candidateStart])))
      fun _ => ?_
    exact Prog.callsIn_mapError ((switchRuntimeIdentity_notHost _ _).mono hquiet)
  have hvalidate : (e.validateStable expected).CallsIn fun c => c ≠ .host e.candidateStart := by
    refine Prog.callsIn_bind (Prog.callsIn_mapError (Prog.callsIn_bind
      (callsIn_host (by simpa using hstable)) fun _ => Prog.callsIn_bind
        (callsIn_require (by simp [candidateStart])) fun _ => Prog.callsIn_bind
          (callsIn_observeExpected (by simp [candidateStart])) fun _ => Prog.callsIn_pure _))
      fun _ => ?_
    refine Prog.callsIn_bind (Prog.callsIn_mapError (callsIn_require (by simp [candidateStart])))
      fun _ => ?_
    exact Prog.callsIn_mapError (callsIn_observeExpected (by simp [candidateStart]))
  have hpublish : ∀ observed, (e.publishStable path observed expected).CallsIn
      fun c => c ≠ .host e.candidateStart := by
    intro observed
    refine Prog.callsIn_bind (Prog.callsIn_mapError (callsIn_host_unit (by simp [candidateStart])))
      fun _ => ?_
    refine Prog.callsIn_bind (Prog.callsIn_mapError (callsIn_host_unit (by simp [candidateStart])))
      fun _ => ?_
    exact Prog.callsIn_mapError
      (callsIn_requireReadiness (by simp [candidateStart]) (by simp [candidateStart]))
  refine Prog.callsIn_bind (Prog.callsIn_bind hisolate fun _ =>
    Prog.callsIn_bind hvalidate hpublish) fun _ => ?_
  exact Prog.callsIn_mapError ((e.recordRecovery_notHost path).mono hquiet)

/-- Commands that do not start the candidate leave it unstarted. -/
theorem wp_still_without {e : RollbackEngine} {ε α : Type} {p : Prog Call Answer ε α} {w : World}
    (hp : p.CallsIn fun c => c ≠ .host e.candidateStart)
    (hw : Without e.candidateStart w.history) :
    p.wp machine ⟨fun _ w' => Without e.candidateStart w'.history,
      fun _ w' => Without e.candidateStart w'.history, fun _ => True⟩ w := by
  have hlater : ∀ w' : World, (∃ later, w'.history = w.history ++ later ∧
      Without e.candidateStart later) → Without e.candidateStart w'.history := by
    rintro w' ⟨later, hlater, hwithout⟩
    rw [hlater]
    exact hw.append hwithout
  exact Prog.wp_le (wp_without hp w)
    ⟨fun _ w' h => hlater w' h, fun _ w' h => hlater w' h, fun _ _ => trivial⟩

/-- A whole run is concluded. -/
theorem wp_run_concluded (e : RollbackEngine) {w : World} (hw : w.history = []) :
    e.run.wp machine
      ⟨fun _ w' => e.Concluded w'.history, fun _ w' => e.Concluded w'.history, fun _ => True⟩
      w := by
  have hnone : ∀ {w' : World}, w'.history = [] → Without e.candidateStart w'.history := by
    intro w' h ev hev
    simp [h] at hev
  have hkeep : ∀ {α : Type} {p : Op α} {w' : World}, (p.CallsIn fun c => c ≠ .host e.candidateStart) →
      e.Concluded w'.history → p.wp machine
        ⟨fun _ w'' => e.Concluded w''.history, fun _ w'' => e.Concluded w''.history,
          fun _ => True⟩ w' := fun hp hw' =>
    Prog.wp_le (wp_concluded hp hw') ⟨fun _ _ h => h, fun _ _ h => h, fun _ _ => trivial⟩
  have hstop : (attempt .stopProxy).CallsIn fun c => c ≠ .host e.candidateStart :=
    callsIn_attempt (by simp [candidateStart])
  have haudit : ∀ (result stage : String) (details : Fields),
      (e.appendAudit result stage .preserveForwardData details).CallsIn
        fun c => c ≠ .host e.candidateStart := fun result stage details =>
    (e.appendAudit_notHost _ _ _ _).mono e.ne_candidateStart_of_notHost
  refine e.wp_run_of_switch hw (fun w' h => ⟨fun _ => Or.inl (hnone h), fun _ => Or.inl (hnone h)⟩)
    (fun _ => trivial) fun w₁ h₁ => ?_
  refine Prog.wp_le (wp_still_without (e.callsIn_switchBody _ _) (hnone h₁))
    ⟨fun _ _ h => Or.inl h, fun raised w₂ hw₂ => ?_, fun _ _ => trivial⟩
  -- stopping the proxy again does not start the candidate
  have hreisolate : (reisolate raised.1).CallsIn fun c => c ≠ .host e.candidateStart := by
    unfold reisolate
    split
    · exact hstop
    · exact Prog.callsIn_pure _
  refine Prog.wp_bind_of (wp_still_without hreisolate hw₂) (fun _ w₃ h₃ => ?_)
    (fun _ _ h => Or.inl h) fun _ _ => trivial
  split
  · refine Prog.wp_tryCatch_of (e.wp_rollForward_concluded h₃ _) (fun _ _ h => h)
      (fun x w' h => ?_) fun _ h => h
    exact hkeep (Prog.callsIn_bind hstop fun _ => haudit _ _ _) h
  · exact hkeep (haudit _ _ _) (Or.inl h₃)

end RollbackEngine

/-! ## 4. When the evidence is truthful -/

/-- **Truthful evidence.**  Every evidence record of a run names what was observed most recently
exactly when the candidate is brought back only on data with the declared digest. -/
theorem evidence_truthful_iff (e : RollbackEngine) (w : World) :
    let history := (e.run.run machine w.begin).2.history
    EvidenceTruthful history ↔ e.ForwardOnDeclaredData history := by
  have hsound : Sound e.AuthorizedBy (e.run.run machine w.begin).2 := by
    have hpost := Prog.run_of_wp _ _ (e.wp_run_authorized (w := w.begin) rfl)
    rcases hrun : e.run.run machine w.begin with ⟨_ | _, w'⟩ <;> rw [hrun] at hpost <;>
      exact hpost.1
  have hconcluded : e.Concluded (e.run.run machine w.begin).2.history := by
    have hpost := Prog.run_of_wp _ _ (e.wp_run_concluded (w := w.begin) rfl)
    rcases hrun : e.run.run machine w.begin with ⟨_ | _, w'⟩ <;> rw [hrun] at hpost <;> exact hpost
  intro history
  constructor
  · intro htruthful older captured stopped started isolated validated rechecked future failure
      observed heq htrail
    obtain ⟨ev, future', rfl, hev⟩ := hconcluded.next heq htrail
    obtain ⟨known, hknown, hdigest⟩ := htruthful _ ev future' _ heq hev
    have hlast : older ++ [captured, stopped, started, isolated, validated, rechecked] =
        (older ++ [captured, stopped, started, isolated, validated]) ++ [rechecked] := by simp
    rw [hlast, lastObserved_snoc _ htrail.recheck.1 htrail.recheck.2] at hknown
    rw [e.forwardEvidence_digest] at hdigest
    rw [← htrail.unchanged, Option.some.inj hknown]
    exact (Json.str.inj hdigest).symm
  · intro hdeclared past ev future evidence heq hev
    rcases hsound.split heq evidence hev with
      ⟨older, observed, started, isolated, before, validated, after, rfl, htrail, rfl⟩ |
      ⟨older, failure, observed, captured, stopped, started, isolated, validated, rechecked, rfl,
        htrail, rfl⟩
    · have hlast : older ++ [started, isolated, before, validated, after] =
          (older ++ [started, isolated, before, validated]) ++ [after] := by simp
      refine ⟨observed, ?_, e.stableEvidence_digest _ _ _⟩
      rw [hlast, lastObserved_snoc _ htrail.last.1 htrail.last.2]
    · have hlast : older ++ [captured, stopped, started, isolated, validated, rechecked] =
          (older ++ [captured, stopped, started, isolated, validated]) ++ [rechecked] := by simp
      refine ⟨observed, ?_, ?_⟩
      · rw [hlast, lastObserved_snoc _ htrail.recheck.1 htrail.recheck.2]
      · rw [e.forwardEvidence_digest, htrail.unchanged, hdeclared older captured stopped started
          isolated validated rechecked (ev :: future) failure observed heq htrail]

end

/-! ### Data that changed after it was declared -/

/-- A hash that tells texts apart by their twenty-second byte. -/
@[reducible] def byteSha256 : Sha256 :=
  ⟨fun payload => Sample.digest (Char.ofNat (payload.data.toList.getD 21 48).toNat)⟩

/-- The stable application does not start, and the data has changed. -/
def changedHost : Nat → HostCall → Except Exn Json
  | _, .currentWatermark => .ok (Sample.watermark 'b')
  | _, .startApp identity =>
    if identity.get "version" = .str "stable" then .error (.osError "start failed") else .ok .null
  | _, _ => .ok (.bool true)

attribute [local instance] byteSha256

theorem sample_valid :
    validateWatermark (Sample.watermark 'a') = .ok (digestJson (Sample.watermark 'a')) := by
  decide +kernel

/-- The candidate comes back on changed data, and the evidence for its proxy names the digest
of the data that was declared. -/
theorem evidence_names_declared :
    ¬EvidenceTruthful ((Sample.engine sample_valid).run.run machine
      (Sample.world changedHost fun _ => ⟨0, endOfTime_pos⟩).begin).2.history := by
  intro htruthful
  have hcut := htruthful.initial (exec_history_extends _ 23 _)
  have hcheck := truthfulFrom_of_truthful _ none hcut
  revert hcheck
  decide +kernel

end ProductPdfQr.DeployRollback
