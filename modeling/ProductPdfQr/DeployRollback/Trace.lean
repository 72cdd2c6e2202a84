/-
# What a run does to its host

The host commands of a run, in order, are its history.  A claim about a run is a claim about
its history: either every event is justified by what came before it (`Sound`), or the whole
list has some shape.

A part of the engine that issues no command that needs a justification keeps `Sound` by the
calls it makes (`keeps_sound`); what else it does is said once, here, for the three parts that
matter: `isolate`, `validateStable` and `startCandidate`.
-/
import ProductPdfQr.DeployRollback.Engine

namespace ProductPdfQr.DeployRollback

open Effect Json

/-! ## 1. Events -/

namespace HostEvent

/-- The command was answered, and the answer is true. -/
def Yes (ev : HostEvent) : Prop := ∃ a, ev.answer = .ok a ∧ a.truthy = true

end HostEvent

namespace World

/-- The event of a command that is issued now. -/
def event (w : World) (command : HostCall) : HostEvent := ⟨command, w.host w.tick command, w.files⟩

/-- The world after a command. -/
def did (w : World) (command : HostCall) : World := (w.issue command).next

@[simp] theorem event_command (w : World) (c : HostCall) : (w.event c).command = c := rfl
@[simp] theorem event_files (w : World) (c : HostCall) : (w.event c).files = w.files := rfl
@[simp] theorem did_files (w : World) (c : HostCall) : (w.did c).files = w.files := rfl
@[simp] theorem did_history (w : World) (c : HostCall) :
    (w.did c).history = w.history ++ [w.event c] := rfl

end World

/-- The end of a program that issues one command: `F` holds of what it returned. -/
def issued {α : Type} (w : World) (command : HostCall) (F : α → Prop) : Post World Exn α :=
  ⟨fun a w' => w' = w.did command ∧ F a, fun _ w' => w' = w.did command, fun _ => True⟩

/-- A host command returns what it was answered, or raises it. -/
theorem wp_host_answer (w : World) (command : HostCall) :
    (host command).wp machine
      ⟨fun a w' => w' = w.did command ∧ (w.event command).answer = .ok a,
        fun x w' => w' = w.did command ∧ (w.event command).answer = .error x, fun _ => True⟩ w := by
  refine (Prog.wp_bind _ _ _).mpr ((Prog.wp_perform (o := Call.host command)).mpr ⟨trivial, ?_⟩)
  exact Prog.wp_liftExcept.mpr ⟨fun a ha => ⟨rfl, ha⟩, fun x hx => ⟨rfl, hx⟩⟩

theorem wp_host (w : World) (command : HostCall) :
    (host command).wp machine (issued w command fun a => (w.event command).answer = .ok a) w :=
  Prog.wp_le (wp_host_answer w command) ⟨fun _ _ h => h, fun _ _ h => h.1, fun _ h => h⟩

theorem wp_host_unit (w : World) (command : HostCall) :
    (do let _ ← host command : Op Unit).wp machine (issued w command fun _ => True) w := by
  refine Prog.wp_bind_of (wp_host w command) (fun a w' h => ?_) (fun _ _ h => h) fun _ h => h
  exact (Prog.wp_pure _).mpr ⟨h.1, trivial⟩

theorem wp_require (w : World) (command : HostCall) (message : String) :
    (require command message).wp machine (issued w command fun _ => (w.event command).Yes) w := by
  refine Prog.wp_bind_of (wp_host w command) (fun a w' h => ?_) (fun _ _ h => h) fun _ h => h
  exact Prog.wp_ensure.mpr ⟨fun htrue => ⟨h.1, a, h.2, htrue⟩, fun _ => h.1⟩

theorem wp_observeExpected [Sha256] (w : World) (expected : Json) (message : String) :
    (RollbackEngine.observeExpected expected message).wp machine
      (issued w .currentWatermark fun a => (w.event .currentWatermark).answer = .ok a ∧
        digestJson a = digestJson expected) w := by
  refine Prog.wp_bind_of (wp_host w .currentWatermark) (fun a w' h => ?_) (fun _ _ h => h)
    fun _ h => h
  refine (Prog.wp_bind _ _ _).mpr (Prog.wp_liftExcept.mpr ⟨fun _ _ => ?_, fun _ _ => h.1⟩)
  refine (Prog.wp_bind _ _ _).mpr (Prog.wp_ensure.mpr ⟨fun hsame => ?_, fun _ => h.1⟩)
  exact (Prog.wp_pure _).mpr ⟨h.1, h.2, of_decide_eq_true hsame⟩

theorem wp_attempt (w : World) (command : HostCall) :
    (attempt command).wp machine (issued w command fun _ => True) w :=
  Prog.wp_tryCatch_of (wp_host_unit w command) (fun _ _ h => h)
    (fun _ _ h => (Prog.wp_pure _).mpr ⟨h, trivial⟩) fun _ h => h

/-- The identity is in place once the switch returned. -/
theorem wp_switchRuntimeIdentity (w : World) (path : String) (identity : Json) :
    (switchRuntimeIdentity path identity).wp machine
      ⟨fun _ w' => w'.history = w.history ∧
          w'.files path = some (.file false (canonicalJson identity)),
        fun _ w' => w'.history = w.history, fun _ => True⟩ w := by
  have hchecked : ∀ (c : Bool) (message : String) (k : Unit → Op Unit) (Q : Post World Exn Unit),
      (∀ x, Q.raised x w) → (k ()).wp machine Q w →
        (Prog.liftExcept (check c message) >>= k).wp machine Q w := fun c message k Q hr hk =>
    (Prog.wp_bind _ _ _).mpr (Prog.wp_liftExcept.mpr ⟨fun _ _ => hk, fun x _ => hr x⟩)
  refine hchecked _ _ _ _ (fun _ => rfl) (hchecked _ _ _ _ (fun _ => rfl)
    (hchecked _ _ _ _ (fun _ => rfl) (hchecked _ _ _ _ (fun _ => rfl) ?_)))
  refine (Prog.wp_bind _ _ _).mpr (Prog.wp_ensure.mpr ⟨fun _ => ?_, fun _ => rfl⟩)
  refine (Prog.wp_bind _ _ _).mpr ((Prog.wp_perform
    (o := Call.atomicWrite path (canonicalJson identity))).mpr ⟨trivial, ?_⟩)
  refine Prog.wp_liftExcept.mpr ⟨fun u hu => ?_, fun x hx => ?_⟩
  · refine ⟨step_notHost_history (.atomicWrite path (canonicalJson identity)) trivial w, ?_⟩
    by_cases hfault : w.fault w.tick = .before ∨ w.files path = some .other
    · simp [machine, World.step, hfault] at hu
    · simp [machine, World.step, hfault]
  · exact step_notHost_history (.atomicWrite path (canonicalJson identity)) trivial w

/-! ### Their calls -/

section Calls

variable {P : Call → Prop}

theorem callsIn_host {command : HostCall} (h : P (.host command)) : (host command).CallsIn P :=
  callsIn_orRaise (Prog.callsIn_perform.mpr h)

theorem callsIn_host_unit {command : HostCall} (h : P (.host command)) :
    (do let _ ← host command : Op Unit).CallsIn P :=
  Prog.callsIn_bind (callsIn_host h) fun _ => Prog.callsIn_pure _

theorem callsIn_require {command : HostCall} {message : String} (h : P (.host command)) :
    (require command message).CallsIn P :=
  Prog.callsIn_bind (callsIn_host h) fun _ => Prog.callsIn_ensure _ _

theorem callsIn_attempt {command : HostCall} (h : P (.host command)) :
    (attempt command).CallsIn P :=
  Prog.callsIn_tryCatch (callsIn_host_unit h) fun _ => Prog.callsIn_pure _

theorem callsIn_observeExpected [Sha256] {expected : Json} {message : String}
    (h : P (.host .currentWatermark)) :
    (RollbackEngine.observeExpected expected message).CallsIn P := by
  refine Prog.callsIn_bind (callsIn_host h) fun _ => ?_
  refine Prog.callsIn_bind (Prog.callsIn_liftExcept _) fun _ => ?_
  exact Prog.callsIn_bind (Prog.callsIn_ensure _ _) fun _ => Prog.callsIn_pure _

theorem callsIn_requireReadiness {message : String} (h : P (.host .externalReadiness))
    (h' : P (.host .stopProxy)) : (requireReadiness message).CallsIn P := by
  refine Prog.callsIn_bind (callsIn_host h) fun ready => ?_
  split
  · exact Prog.callsIn_pure _
  · exact Prog.callsIn_bind (callsIn_host h') fun _ => Prog.callsIn_throw _

end Calls

/-! ## 2. Justified histories -/

section Sound

variable {P : List HostEvent → HostEvent → Prop}

/-- Every host command so far was justified. -/
def Sound (P : List HostEvent → HostEvent → Prop) (w : World) : Prop := Justified P w.history

/-- The command needs no justification. -/
def Free (P : List HostEvent → HostEvent → Prop) (command : HostCall) : Prop :=
  ∀ past ev, ev.command = command → P past ev

/-- A call that is no host command, or one that needs no justification. -/
def FreeCall (P : List HostEvent → HostEvent → Prop) : Call → Prop
  | .host command => Free P command
  | _ => True

theorem sound_of_empty {w : World} (h : w.history = []) : Sound P w := by
  unfold Sound
  rw [h]
  exact Justified.nil

theorem Sound.did {w : World} (h : Sound P w) {command : HostCall} (hc : Free P command) :
    Sound P (w.did command) :=
  Justified.snoc h (hc _ _ rfl)

theorem freeCall_of_notHost (c : Call) (h : NotHost c) : FreeCall P c := by
  cases c with
  | host command => exact absurd h id
  | _ => trivial

theorem keeps_sound {ε α : Type} {p : Prog Call Answer ε α} (hp : p.CallsIn (FreeCall P)) :
    p.Keeps machine (Sound P) := by
  refine hp.keeps fun c hc w h => ?_
  by_cases hn : NotHost c
  · unfold Sound
    rwa [step_notHost_history c hn w]
  · cases c with
    | host command => exact h.did hc
    | _ => exact absurd trivial hn

/-- The end of a part of the engine: sound, with `F` if it returned and `G` if it raised. -/
def held (P : List HostEvent → HostEvent → Prop) {ε α : Type} (F : α → World → Prop)
    (G : ε → World → Prop) : Post World ε α :=
  ⟨fun a w => Sound P w ∧ F a w, fun x w => Sound P w ∧ G x w, fun _ => True⟩

theorem held_bind {ε α β : Type} {F : α → World → Prop} {F' : β → World → Prop}
    {G : ε → World → Prop} {p : Prog Call Answer ε α} {k : α → Prog Call Answer ε β} {w : World}
    (hp : p.wp machine (held P F G) w)
    (hk : ∀ a w', Sound P w' → F a w' → (k a).wp machine (held P F' G) w') :
    (p >>= k).wp machine (held P F' G) w :=
  Prog.wp_bind_of hp (fun a w' h => hk a w' h.1 h.2) (fun _ _ h => h) fun _ h => h

theorem held_le {ε α : Type} {F F' : α → World → Prop} {G G' : ε → World → Prop}
    {p : Prog Call Answer ε α} {w : World} (hp : p.wp machine (held P F G) w)
    (hF : ∀ a w', F a w' → F' a w') (hG : ∀ x w', G x w' → G' x w') :
    p.wp machine (held P F' G') w :=
  Prog.wp_le hp ⟨fun a w' h => ⟨h.1, hF a w' h.2⟩, fun x w' h => ⟨h.1, hG x w' h.2⟩, fun _ h => h⟩

/-- A part whose commands need no justification only has to say what it returns and raises. -/
theorem held_of_calls {ε α : Type} {F : α → World → Prop} {G : ε → World → Prop}
    {p : Prog Call Answer ε α} {Q : Post World ε α} {w : World} (hw : Sound P w)
    (hcalls : p.CallsIn (FreeCall P)) (hp : p.wp machine Q w)
    (hret : ∀ a w', Q.returned a w' → F a w') (hraise : ∀ x w', Q.raised x w' → G x w') :
    p.wp machine (held P F G) w :=
  Prog.wp_le (Prog.wp_and _ _ (keeps_sound hcalls w hw) hp)
    ⟨fun a w' h => ⟨h.1, hret a w' h.2⟩, fun x w' h => ⟨h.1, hraise x w' h.2⟩, fun _ _ => trivial⟩

/-- Nothing is asked of an exception. -/
def whatever {ε : Type} (_ : ε) (_ : World) : Prop := True

/-- Such a part keeps every event justified. -/
theorem held_calls {ε α : Type} {p : Prog Call Answer ε α} {w : World} (hw : Sound P w)
    (hcalls : p.CallsIn (FreeCall P)) : p.wp machine (held P (fun _ _ => True) whatever) w :=
  Prog.wp_le (keeps_sound hcalls w hw)
    ⟨fun _ _ h => ⟨h, trivial⟩, fun _ _ h => ⟨h, trivial⟩, fun _ _ => trivial⟩

/-- A part without host commands leaves the history as it was. -/
theorem held_silent {α : Type} {p : Op α} {w : World} (hw : Sound P w) (hp : p.CallsIn NotHost) :
    p.wp machine (held P (fun _ w' => w'.history = w.history) fun _ w' => w'.history = w.history)
      w :=
  held_of_calls hw (hp.mono freeCall_of_notHost) (notHost_history hp w) (fun _ _ h => h)
    fun _ _ h => h

theorem held_host {w : World} (hw : Sound P w) (command : HostCall) (hc : Free P command) :
    (host command).wp machine (held P (fun a w' => w' = w.did command ∧
      (w.event command).answer = .ok a) fun _ w' => w' = w.did command) w :=
  held_of_calls hw (callsIn_host hc) (wp_host w command) (fun _ _ h => h) fun _ _ h => h

/-- The same where nothing is asked of an exception. -/
theorem held_ask {w : World} (hw : Sound P w) (command : HostCall) (hc : Free P command) :
    (host command).wp machine (held P (fun a w' => w' = w.did command ∧
      (w.event command).answer = .ok a) whatever) w :=
  held_le (held_host hw command hc) (fun _ _ h => h) fun _ _ _ => trivial

/-- A command that is justified now. -/
theorem held_justified {w : World} (hw : Sound P w) {command : HostCall}
    (h : P w.history (w.event command)) :
    (host command).wp machine (held P (fun _ w' => w' = w.did command) whatever) w := by
  have hsound : Sound P (w.did command) := Justified.snoc hw h
  exact Prog.wp_le (wp_host w command) ⟨fun _ w' h' => ⟨h'.1 ▸ hsound, h'.1⟩,
    fun _ w' h' => ⟨h' ▸ hsound, trivial⟩, fun _ h' => h'⟩

theorem held_tell {w : World} (hw : Sound P w) (command : HostCall) (hc : Free P command) :
    (do let _ ← host command : Op Unit).wp machine
      (held P (fun _ w' => w' = w.did command) whatever) w :=
  held_bind (held_ask hw command hc) fun _ _ hs h => (Prog.wp_pure _).mpr ⟨hs, h.1⟩

theorem held_require {w : World} (hw : Sound P w) (command : HostCall) (message : String)
    (hc : Free P command) :
    (require command message).wp machine (held P (fun _ w' => w' = w.did command ∧
      (w.event command).Yes) whatever) w :=
  held_of_calls hw (callsIn_require hc) (wp_require w command message) (fun _ _ h => h)
    fun _ _ _ => trivial

theorem held_attempt {w : World} (hw : Sound P w) (command : HostCall) (hc : Free P command) :
    (attempt command).wp machine (held P (fun _ w' => w' = w.did command)
      fun _ w' => w' = w.did command) w :=
  held_of_calls hw (callsIn_attempt hc) (wp_attempt w command) (fun _ _ h => h.1) fun _ _ h => h

theorem held_observeExpected [Sha256] {w : World} (hw : Sound P w) (expected : Json)
    (message : String) (hc : Free P .currentWatermark) :
    (RollbackEngine.observeExpected expected message).wp machine (held P (fun a w' =>
      w' = w.did .currentWatermark ∧ (w.event .currentWatermark).answer = .ok a ∧
        digestJson a = digestJson expected) whatever) w :=
  held_of_calls hw (callsIn_observeExpected hc) (wp_observeExpected w expected message)
    (fun _ _ h => h) fun _ _ _ => trivial

theorem held_switch {w : World} (hw : Sound P w) (path : String) (identity : Json) :
    (switchRuntimeIdentity path identity).wp machine (held P (fun _ w' =>
      w'.history = w.history ∧ w'.files path = some (.file false (canonicalJson identity)))
        whatever) w :=
  held_of_calls hw ((switchRuntimeIdentity_notHost _ _).mono freeCall_of_notHost)
    (wp_switchRuntimeIdentity w _ _) (fun _ _ h => h) fun _ _ _ => trivial

end Sound

/-! ### Histories without a command -/

/-- The command was not issued. -/
def Without (command : HostCall) (h : List HostEvent) : Prop := ∀ ev ∈ h, ev.command ≠ command

theorem Without.append {command : HostCall} {h h' : List HostEvent} (hh : Without command h)
    (hh' : Without command h') : Without command (h ++ h') := by
  intro ev hev
  rcases List.mem_append.mp hev with hev | hev
  · exact hh ev hev
  · exact hh' ev hev

/-- A program that does not issue the command adds a history without it. -/
theorem wp_without {ε α : Type} {command : HostCall} {p : Prog Call Answer ε α}
    (hp : p.CallsIn fun c => c ≠ .host command) (w : World) :
    p.wp machine (Post.always fun w' => ∃ later, w'.history = w.history ++ later ∧
      Without command later) w := by
  refine hp.keeps (I := fun w' => ∃ later, w'.history = w.history ++ later ∧
    Without command later) (fun c hc w' h => ?_) w ⟨[], by simp, by simp [Without]⟩
  obtain ⟨later, hlater, hwithout⟩ := h
  by_cases hn : NotHost c
  · exact ⟨later, (step_notHost_history c hn w').trans hlater, hwithout⟩
  · cases c with
    | host issued =>
      refine ⟨later ++ [w'.event issued], ?_, hwithout.append ?_⟩
      · change (w'.did issued).history = _
        rw [World.did_history, hlater, List.append_assoc]
      · intro ev hev
        rw [List.mem_singleton.mp hev]
        exact fun h => hc (congrArg Call.host h)
    | _ => exact absurd trivial hn

/-! ## 3. Frames -/

/-- The command stops or starts the proxy. -/
def HostEvent.IsProxy (ev : HostEvent) : Prop :=
  ev.command = .stopProxy ∨ ev.command = .startProxy

/-- No proxy command. -/
def NoProxy (h : List HostEvent) : Prop := ∀ ev ∈ h, ¬ev.IsProxy

/-- What a frame says about the past: before the first attempt there was no proxy command, and
nothing was changed before it. -/
def FrameOk (f : Frame) (w : World) : Prop :=
  (f.proxyStopAttempted = false → NoProxy w.history) ∧
    (f.switched = true ∨ f.appStopped = true → f.proxyStopAttempted = true)

theorem frameOk_of_attempted {f : Frame} (h : f.proxyStopAttempted = true) (w : World) :
    FrameOk f w :=
  ⟨fun h' => by simp [h] at h', fun _ => h⟩

/-- What the handler is told: the frame is right about the past. -/
def FrameTells (r : Frame × Exn) (w : World) : Prop := FrameOk r.1 w

/-- A statement of the `try` block once the proxy was told to stop. -/
theorem held_within {P : List HostEvent → HostEvent → Prop} {α : Type} {f : Frame} {p : Op α}
    {F : α → World → Prop} {w : World} (hf : f.proxyStopAttempted = true)
    (hp : p.wp machine (held P F whatever) w) :
    (within f p).wp machine (held P F FrameTells) w :=
  (Prog.wp_mapError _ _).mpr (Prog.wp_le hp
    ⟨fun _ _ h => h, fun _ w' h => ⟨h.1, frameOk_of_attempted hf w'⟩, fun _ h => h⟩)

/-- A statement of the `try` block whose commands need no justification. -/
theorem held_within_calls {P : List HostEvent → HostEvent → Prop} {α : Type} {f : Frame}
    {p : Op α} {w : World} (hf : f.proxyStopAttempted = true) (hw : Sound P w)
    (hcalls : p.CallsIn (FreeCall P)) :
    (within f p).wp machine (held P (fun _ _ => True) FrameTells) w :=
  held_within hf (held_calls hw hcalls)

/-! ## 4. What the parts do -/

section Parts

variable [Sha256]

namespace RollbackEngine

variable {P : List HostEvent → HostEvent → Prop}

/-- What `isolate` leaves. -/
structure Isolated (e : RollbackEngine) (w : World) : Prop where
  stopped : ∃ s ∈ w.history, s.command = .stopProxy
  identity : w.files e.runtimeIdentityPath =
    some (.file false (canonicalJson (e.identityOf .stable)))

omit [Sha256] in
theorem wp_retain {w : World} (hw : w.history = []) (hc : Free P .retainExactArtifacts) :
    (within (frameBefore false "artifact_retention") do
      let _ ← host .retainExactArtifacts).wp machine
      (held P (fun _ w' => w' = w.did .retainExactArtifacts) FrameTells) w := by
  refine (Prog.wp_mapError _ _).mpr (held_of_calls (G := fun x => FrameTells (_, x))
    (sound_of_empty hw) (callsIn_host_unit hc) (wp_host_unit w .retainExactArtifacts)
    (fun _ _ h => h.1) fun x w' h => ?_)
  refine ⟨fun _ ev hev => ?_, fun h => by simp [frameBefore] at h⟩
  rw [show w' = w.did .retainExactArtifacts from h, World.did_history, hw, List.nil_append,
    List.mem_singleton] at hev
  subst hev
  simp [HostEvent.IsProxy]

/-- After `isolate` the proxy was stopped and the identity is the stable one. -/
theorem wp_isolate (e : RollbackEngine) {w : World} (hw : w.history = [])
    (hretain : Free P .retainExactArtifacts) (hstop : Free P .stopProxy)
    (hcheck : Free P .proxyIsStopped) (happ : Free P .stopApp) :
    e.isolate.wp machine (held P (fun _ w' => e.Isolated w') FrameTells) w := by
  refine held_bind (wp_retain hw hretain) fun _ w₁ hs₁ h₁ => ?_
  refine held_bind (F := fun _ w' => w' = (w₁.did .stopProxy).did .proxyIsStopped)
    (held_within rfl ?_) fun _ w₂ hs₂ h₂ => ?_
  · refine held_bind (held_ask hs₁ .stopProxy hstop) fun _ w' hs' h' => ?_
    rw [← h'.1]
    exact held_le (held_require hs' .proxyIsStopped _ hcheck) (fun _ _ h => h.1) fun _ _ h => h
  refine held_bind (held_within rfl (held_tell hs₂ .stopApp happ)) fun _ w₃ hs₃ h₃ => ?_
  refine held_within rfl (held_le (held_switch hs₃ _ _) (fun _ w' h => ⟨?_, h.2⟩) fun _ _ h => h)
  refine ⟨w₁.event .stopProxy, ?_, rfl⟩
  rw [h.1, h₃, h₂]
  simp

/-- What the stable release was seen to be, in five events. -/
structure StableTrail (e : RollbackEngine) (observed : Json)
    (started isolated before validated after : HostEvent) : Prop where
  start : started.command = .startApp (e.identityOf .stable)
  isolation : isolated.command = .proxyIsStopped ∧ isolated.Yes
  first : before.command = .currentWatermark
  validation : validated.command = .nonmutatingOldAppValidation ∧ validated.Yes
  last : after.command = .currentWatermark ∧ after.answer = .ok observed
  unchanged : digestJson observed = digestJson e.declaredWatermark

/-- `validateStable` returns after five events. -/
theorem wp_validateStable (e : RollbackEngine) {w : World} (hw : Sound P w)
    (hstart : Free P (.startApp (e.identityOf .stable))) (hcheck : Free P .proxyIsStopped)
    (hobserve : Free P .currentWatermark) (hvalidate : Free P .nonmutatingOldAppValidation) :
    (e.validateStable e.declaredWatermark).wp machine (held P (fun observed w' =>
      w'.files = w.files ∧ ∃ started isolated before validated after,
        w'.history = w.history ++ [started, isolated, before, validated, after] ∧
          e.StableTrail observed started isolated before validated after) FrameTells) w := by
  let start : HostCall := .startApp (e.identityOf .stable)
  refine held_bind (F := fun _ w' => ∃ w₁ w₂, w₁ = w.did start ∧ w₂ = w₁.did .proxyIsStopped ∧
    w' = w₂.did .currentWatermark ∧ (w₁.event .proxyIsStopped).Yes) (held_within rfl ?_)
    fun _ w₃ hs₃ h₃ => ?_
  · refine held_bind (held_ask hw start hstart) fun _ w₁ hs₁ h₁ => ?_
    refine held_bind (held_require hs₁ .proxyIsStopped _ hcheck) fun _ w₂ hs₂ h₂ => ?_
    refine held_bind (held_observeExpected hs₂ _ _ hobserve) fun _ w₃ hs₃ h₃ => ?_
    exact (Prog.wp_pure _).mpr ⟨hs₃, w₁, w₂, h₁.1, h₂.1, h₃.1, h₂.2⟩
  obtain ⟨w₁, w₂, h₁, h₂, h₃, hstopped⟩ := h₃
  refine held_bind (held_within rfl (held_require hs₃ .nonmutatingOldAppValidation _ hvalidate))
    fun _ w₄ hs₄ h₄ => ?_
  obtain ⟨h₄, hvalid⟩ := h₄
  refine held_within rfl (held_le (held_observeExpected hs₄ _ _ hobserve) (fun observed w' h => ?_)
    fun _ _ h => h)
  obtain ⟨h', hanswer, hdigest⟩ := h
  refine ⟨by simp [h', h₄, h₃, h₂, h₁], w.event start, w₁.event .proxyIsStopped,
    w₂.event .currentWatermark, w₃.event .nonmutatingOldAppValidation, w₄.event .currentWatermark,
    by simp [h', h₄, h₃, h₂, h₁], ?_⟩
  exact ⟨rfl, ⟨rfl, hstopped⟩, rfl, ⟨rfl, hvalid⟩, ⟨rfl, hanswer⟩, hdigest⟩

/-- How the candidate was brought back, in six events: the data is captured, the application
exchanged, the candidate seen isolated and valid, and the data seen as it was. -/
structure CandidateTrail (e : RollbackEngine) (failure observed : Json)
    (captured stopped started isolated validated rechecked : HostEvent) : Prop where
  capture : captured.command = .currentWatermark ∧ captured.answer = .ok failure
  stop : stopped.command = .stopApp
  start : started.command = .startApp (e.identityOf .candidate) ∧ ∃ a, started.answer = .ok a
  isolation : isolated.command = .proxyIsStopped ∧ isolated.Yes
  validation : validated.command = .candidateValidation ∧ validated.Yes
  recheck : rechecked.command = .currentWatermark ∧ rechecked.answer = .ok observed
  unchanged : digestJson observed = digestJson failure

theorem callsIn_validateCandidate {P : Call → Prop} (hcheck : P (.host .proxyIsStopped))
    (hvalidate : P (.host .candidateValidation)) (hobserve : P (.host .currentWatermark))
    (failure : Json) : (validateCandidate failure).CallsIn P := by
  refine Prog.callsIn_bind (callsIn_host hcheck) fun _ => ?_
  refine Prog.callsIn_bind (Prog.callsIn_ensure _ _) fun _ => ?_
  refine Prog.callsIn_bind (callsIn_host hvalidate) fun _ => ?_
  refine Prog.callsIn_bind (Prog.callsIn_ensure _ _) fun _ => ?_
  exact Prog.callsIn_bind (callsIn_host hobserve) fun _ => Prog.callsIn_ensure _ _

/-- What `validateCandidate` saw when it returned. -/
theorem wp_validateCandidate (w : World) (failure : Json) :
    (validateCandidate failure).wp machine
      ⟨fun _ w' => ∃ w₁ w₂ observed, w₁ = w.did .proxyIsStopped ∧ w₂ = w₁.did .candidateValidation ∧
          w' = w₂.did .currentWatermark ∧ (w.event .proxyIsStopped).Yes ∧
          (w₁.event .candidateValidation).Yes ∧
          (w₂.event .currentWatermark).answer = .ok observed ∧
          digestJson observed = digestJson failure,
        whatever, fun _ => True⟩ w := by
  refine Prog.wp_bind_of (wp_host w _) (fun stopped w₁ h₁ => ?_) (fun _ _ _ => trivial) fun _ h => h
  refine (Prog.wp_bind _ _ _).mpr (Prog.wp_ensure.mpr ⟨fun htrue₁ => ?_, fun _ => trivial⟩)
  refine Prog.wp_bind_of (wp_host w₁ _) (fun valid w₂ h₂ => ?_) (fun _ _ _ => trivial) fun _ h => h
  refine (Prog.wp_bind _ _ _).mpr (Prog.wp_ensure.mpr ⟨fun htrue₂ => ?_, fun _ => trivial⟩)
  refine Prog.wp_bind_of (wp_host w₂ _) (fun observed w₃ h₃ => ?_) (fun _ _ _ => trivial)
    fun _ h => h
  refine Prog.wp_ensure.mpr ⟨fun hsame => ?_, fun _ => trivial⟩
  exact ⟨w₁, w₂, observed, h₁.1, h₂.1, h₃.1, ⟨stopped, h₁.2, htrue₁⟩, ⟨valid, h₂.2, htrue₂⟩, h₃.2,
    of_decide_eq_true hsame⟩

/-- `startCandidate` returns after six events, with the identity naming the candidate. -/
theorem wp_startCandidate (e : RollbackEngine) {w : World} (hw : Sound P w)
    (hobserve : Free P .currentWatermark) (happ : Free P .stopApp)
    (hstart : Free P (.startApp (e.identityOf .candidate))) (hcheck : Free P .proxyIsStopped)
    (hvalidate : Free P .candidateValidation) :
    e.startCandidate.wp machine (held P (fun _ w' =>
      w'.files e.runtimeIdentityPath =
          some (.file false (canonicalJson (e.identityOf .candidate))) ∧
        ∃ failure observed captured stopped started isolated validated rechecked,
          w'.history = w.history ++ [captured, stopped, started, isolated, validated, rechecked] ∧
            e.CandidateTrail failure observed captured stopped started isolated validated
              rechecked) whatever) w := by
  refine held_bind (held_ask hw .currentWatermark hobserve) fun failure w₁ hs₁ h₁ => ?_
  obtain ⟨h₁, hfailure⟩ := h₁
  refine (Prog.wp_bind _ _ _).mpr (Prog.wp_liftExcept.mpr ⟨fun _ _ => ?_, fun _ _ => ⟨hs₁, trivial⟩⟩)
  refine held_bind (held_ask hs₁ .stopApp happ) fun _ w₂ hs₂ h₂ => ?_
  refine held_bind (held_switch hs₂ _ _) fun _ w₃ hs₃ h₃ => ?_
  let start : HostCall := .startApp (e.identityOf .candidate)
  refine held_bind (held_ask hs₃ start hstart) fun _ w₄ hs₄ h₄ => ?_
  refine held_of_calls hs₄ (callsIn_validateCandidate hcheck hvalidate hobserve failure)
    (wp_validateCandidate w₄ failure) (fun _ w' h => ?_) fun _ _ h => h
  obtain ⟨w₅, w₆, observed, h₅, h₆, h₇, hstopped, hvalid, hanswer, hdigest⟩ := h
  refine ⟨?_, failure, observed, w.event .currentWatermark, w₁.event .stopApp, w₃.event start,
    w₄.event .proxyIsStopped, w₅.event .candidateValidation, w₆.event .currentWatermark, ?_, ?_⟩
  · rw [show w'.files = w₃.files by simp [h₇, h₆, h₅, h₄.1]]
    exact h₃.2
  · simp [h₇, h₆, h₅, h₄.1, h₃.1, h₂.1, h₁]
  · exact ⟨⟨rfl, hfailure⟩, rfl, ⟨rfl, _, h₄.2⟩, ⟨rfl, hstopped⟩, ⟨rfl, hvalid⟩, ⟨rfl, hanswer⟩,
      hdigest⟩

/-! ## 5. A run from its beginning -/

/-- What a run does to its host is what the switch does: every other way through it issues no
command. -/
theorem wp_run_of_switch (e : RollbackEngine) {Q : Post World Exn RollbackResult} {w : World}
    (hw : w.history = [])
    (hquiet : ∀ w', w'.history = [] → (∀ r, Q.returned r w') ∧ ∀ x, Q.raised x w')
    (hcrash : ∀ w', Q.crashed w')
    (hswitch : ∀ w', w'.history = [] →
      (e.switchBody .preserveForwardData e.declaredWatermark).wp machine
        ⟨Q.returned, fun raised w'' =>
          (e.recover .preserveForwardData e.declaredWatermark raised.1 raised.2).wp machine
            ⟨fun _ => Q.raised raised.2, Q.raised, Q.crashed⟩ w'', Q.crashed⟩ w') :
    e.run.wp machine Q w := by
  -- a part without host commands leaves the history empty
  have hsilent : ∀ {α β : Type} {p : Op α} {k : α → Op β} {R : Post World Exn β} {w' : World},
      w'.history = [] → p.CallsIn NotHost → (∀ x w'', w''.history = [] → R.raised x w'') →
      (∀ w'', R.crashed w'') → (∀ a w'', w''.history = [] → (k a).wp machine R w'') →
      (p >>= k).wp machine R w' := fun hw' hp hR hR' hk =>
    Prog.wp_bind_of (notHost_history hp _) (fun a w'' h => hk a w'' (h.trans hw'))
      (fun x w'' h => hR x w'' (h.trans hw')) fun w'' _ => hR' w''
  have hraised : ∀ x w', w'.history = [] → Q.raised x w' := fun x w' h => (hquiet w' h).2 x
  refine hsilent hw e.decidePath_notHost hraised hcrash fun path w₁ h₁ => ?_
  dsimp only
  split
  · exact hsilent h₁ (e.appendAudit_notHost _ _ _ _) hraised hcrash fun _ w₂ h₂ =>
      (Prog.wp_throw _).mpr (hraised _ _ h₂)
  · cases path with
    | prePublicRestore =>
      exact Prog.wp_le (notHost_history e.pathOne_notHost w₁)
        ⟨fun r w' h => (hquiet w' (h.trans h₁)).1 r, fun x w' h => hraised x w' (h.trans h₁),
          fun w' _ => hcrash w'⟩
    | preserveForwardData =>
      change e.pathTwo.wp machine _ _
      unfold pathTwo
      split
      · exact hsilent h₁ (e.appendAudit_notHost _ _ _ _) hraised hcrash fun _ w₂ h₂ =>
          (Prog.wp_throw _).mpr (hraised _ _ h₂)
      · refine hsilent h₁ (Prog.callsIn_liftExcept _) hraised hcrash fun _ w₂ h₂ => ?_
        refine (Prog.wp_handle _ _ _).mpr (Prog.wp_le (hswitch w₂ h₂)
          ⟨fun _ _ h => h, fun raised w' h => ?_, fun _ h => h⟩)
        exact Prog.wp_bind_of h (fun _ _ h' => (Prog.wp_throw _).mpr h') (fun _ _ h' => h')
          fun _ h' => h'

end RollbackEngine

end Parts

/-- The world with an empty history: a run begins. -/
def World.begin (w : World) : World := { w with history := [] }

/-- A call adds to the history or leaves it. -/
theorem step_history_extends (c : Call) (w : World) : w.history <+: (machine.step c w).2.history := by
  by_cases hc : NotHost c
  · have hsame := step_notHost_history c hc w
    exact hsame ▸ List.prefix_refl _
  · cases c with
    | host command => exact ⟨[w.event command], rfl⟩
    | _ => exact absurd trivial hc

/-- The history of a run that is cut short is where the whole run's begins. -/
theorem exec_history_extends {ε α : Type} (p : Prog Call Answer ε α) (n : Nat) (w : World) :
    (p.exec machine n w).state.history <+: (p.run machine w).2.history :=
  Prog.exec_rel_run (T := fun a b : World => a.history <+: b.history)
    (fun _ => List.prefix_refl _) (fun _ _ _ => List.IsPrefix.trans) step_history_extends p n w

/-! ## 6. A sample release -/

namespace Sample

/-- Sixty-four times one hexadecimal digit. -/
def digest (digit : Char) : String := String.ofList (List.replicate 64 digit)

/-- A watermark whose audit projection begins with `digit`. -/
def watermark (digit : Char) : Json := dict
  [("relations", dict (requiredRelations.map fun name => (name, .str (digest 'a')))),
    ("files", .arr []),
    ("audit_projection", .str (String.ofList (digit :: List.replicate 63 'a')))]

/-- The artifacts of both releases. -/
def artifacts : Artifacts where
  appImage := String.ofList ("app:v1@sha256:".toList ++ List.replicate 64 'a')
  appConfig := dict [("app-runtime.json", .str (digest 'a'))]
  exactImage := by decide +kernel
  allowedConfig := by decide +kernel

/-- A compatible release. -/
def record : ReleaseRecord where
  releaseId := "release"
  identity := digest 'a'
  environmentId := "production"
  stable := artifacts
  candidate := artifacts
  backupId := "backup"
  verdict := .compatible
  releaseApproval := "approval"
  compatibilityApproval := "approval"
  rehearsalRun := "rehearsal"
  lossyReference := .str "none"

/-- An engine for it, over a hash that digests the declared watermark. -/
def engine [Sha256] (h : validateWatermark (watermark 'a') = .ok (digestJson (watermark 'a'))) :
    RollbackEngine where
  record := record
  operationId := "operation"
  operator := "operator"
  publicationState := ⟨"/publication", "release", "production", by decide +kernel, by decide +kernel⟩
  declaredWatermark := watermark 'a'
  proxyContinuouslyIsolated := false
  clock := ⟨"/clock", "operation", "release", 0, by decide +kernel, by decide +kernel⟩
  audit := ⟨"/audit", by decide +kernel⟩
  runtimeIdentityPath := "/identity"
  expectedAction := none
  now := ⟨0, endOfTime_pos⟩
  validWatermark := h
  boundClock := ⟨rfl, rfl⟩
  hasOperator := by decide +kernel

/-- A world without files and without faults, with what its host answers and its wall shows. -/
def world (host : Nat → HostCall → Except Exn Json) (wall : Nat → Instant) : World where
  files := fun _ => none
  fault := fun _ => .none
  wall := wall
  monotonic := fun _ => 0
  host := host
  tick := 0
  history := []

end Sample

end ProductPdfQr.DeployRollback
