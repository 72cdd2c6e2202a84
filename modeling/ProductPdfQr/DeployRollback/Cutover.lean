/-
# Public cutover is irreversible

A run is any number of attempts, each by some instance on one path and each cut anywhere.  The
marker outlives every one of them (`marker_kept`), so what has to be shown of one state is what
`read` says of it: the record is at the last stage exactly when the marker is there
(`wp_read`).  `prepare` asks for the marker first (`wp_prepare_of_durable`).
-/
import ProductPdfQr.DeployRollback.Publication

namespace ProductPdfQr.DeployRollback

open Effect Json

/-! ## 1. The marker -/

/-- The cutover marker of `path` is on disk. -/
def MarkerDurable (path : String) (w : World) : Prop :=
  (w.files (cutoverMarker path)).any Node.present = true

/-- A call that does not unlink the marker. -/
def SparesMarker (path : String) (c : Call) : Prop := c ≠ .unlink (cutoverMarker path)

theorem put_marker {path : String} {w : World} (h : MarkerDurable path w) {q : String}
    {node : Node} (hnode : node.present = true) : MarkerDurable path (w.put q (some node)) := by
  by_cases hq : cutoverMarker path = q
  · subst hq
    simpa [MarkerDurable] using hnode
  · simpa [MarkerDurable, World.put, hq] using h

/-- Every other call leaves the marker in place: files are created, replaced and appended to,
and what is there afterwards exists. -/
theorem step_keeps_marker {path : String} (c : Call) (hc : SparesMarker path c) (w : World)
    (h : MarkerDurable path w) : MarkerDurable path (machine.step c w).2 := by
  cases c with
  | look q => exact h
  | wallNow => exact h
  | monotonicNow => exact h
  | host command => exact h
  | atomicCreate q payload =>
    simp only [machine, World.step]
    split
    · exact h
    · split
      · exact h
      · exact put_marker h rfl
  | atomicWrite q payload =>
    simp only [machine, World.step]
    split
    · exact h
    · exact put_marker h rfl
  | append q payload =>
    simp only [machine, World.step]
    split
    · exact h
    · next node hnode =>
      split
      · exact h
      · refine put_marker h ?_
        rcases hq : w.files q with _ | _ | _ | _ <;> simp_all [Node.append] <;> subst hnode <;> rfl
  | unlink q =>
    have hq : cutoverMarker path ≠ q := fun heq => hc (by rw [heq])
    simp only [machine, World.step]
    split
    · exact h
    · simpa [MarkerDurable, World.put, hq] using h

theorem path_ne_cutoverMarker (path : String) : path ≠ cutoverMarker path := by
  intro h
  have hlen := congrArg String.length h
  simp [cutoverMarker, String.length_append] at hlen

variable [Sha256]

/-! ## 2. Runs -/

/-- What an instance is asked to do. -/
inductive PublicationCommand
  | prepare (watermark : Json) (now : Instant)
  | advance (stage : String) (now : Instant)
  | read
  | authorizeProxyStart

/-- The command, its result dropped. -/
def PublicationState.perform (p : PublicationState) : PublicationCommand → Op Unit
  | .prepare watermark now => do
    let _ ← p.prepare watermark now
  | .advance stage now => do
    let _ ← p.advance stage now
  | .read => do
    let _ ← p.read
  | .authorizeProxyStart => p.authorizeProxyStart

/-- One command of one instance on `path`, and the number of file operations after which the
process dies. -/
structure Attempt (path : String) where
  state : PublicationState
  onPath : state.path = path
  command : PublicationCommand
  calls : Nat

namespace Attempt

variable {path : String}

/-- The world as it stands after the first `n` operations of the attempt. -/
def worldAt (a : Attempt path) (n : Nat) (w : World) : World :=
  ((a.state.perform a.command).exec machine n w).state

/-- The world the attempt leaves. -/
def leaves (a : Attempt path) (w : World) : World := a.worldAt a.calls w

end Attempt

/-- The world a run leaves. -/
def after {path : String} (run : List (Attempt path)) (start : World) : World :=
  run.foldl (fun w a => a.leaves w) start

@[simp] theorem after_snoc {path : String} (run : List (Attempt path)) (a : Attempt path)
    (start : World) : after (run ++ [a]) start = a.leaves (after run start) := by
  simp [after]

/-- `w` is the world at some moment of the run, between two operations. -/
inductive Moment {path : String} (start : World) : List (Attempt path) → World → Prop
  | ended (run : List (Attempt path)) : Moment start run (after run start)
  | within (run : List (Attempt path)) (a : Attempt path) (n : Nat) (h : n ≤ a.calls) :
      Moment start (run ++ [a]) (a.worldAt n (after run start))
  | earlier {run : List (Attempt path)} {w : World} (a : Attempt path) (h : Moment start run w) :
      Moment start (run ++ [a]) w

/-! ### The marker stays -/

/-- No command of an instance unlinks the marker. -/
theorem perform_spares (p : PublicationState) (command : PublicationCommand) :
    (p.perform command).CallsIn (SparesMarker p.path) := by
  have hlook : ∀ q, SparesMarker p.path (.look q) := fun q h => by cases h
  have hcreate : ∀ q b, SparesMarker p.path (.atomicCreate q b) := fun q b h => by cases h
  have hwrite : ∀ q b, SparesMarker p.path (.atomicWrite q b) := fun q b h => by cases h
  have hunlink : SparesMarker p.path (.unlink p.path) := by
    intro h
    exact path_ne_cutoverMarker p.path (Call.unlink.inj h)
  have hread : p.read.CallsIn (SparesMarker p.path) := p.callsIn_read hlook
  cases command with
  | read => exact Prog.callsIn_bind hread fun _ => Prog.callsIn_pure _
  | authorizeProxyStart => exact Prog.callsIn_bind hread fun _ => Prog.callsIn_ensure _ _
  | prepare watermark now =>
    refine Prog.callsIn_bind (Prog.callsIn_bind (callsIn_pathExists (hlook _)) fun _ => ?_)
      fun _ => Prog.callsIn_pure _
    refine Prog.callsIn_bind (Prog.callsIn_ensure _ _) fun _ => ?_
    refine Prog.callsIn_bind (Prog.callsIn_liftExcept _) fun _ => ?_
    exact Prog.callsIn_bind (callsIn_createSealed (hcreate _) (hcreate _) hunlink) fun _ => Prog.callsIn_pure _
  | advance stage now =>
    refine Prog.callsIn_bind (Prog.callsIn_bind (Prog.callsIn_ensure _ _) fun _ => ?_)
      fun _ => Prog.callsIn_pure _
    refine Prog.callsIn_bind hread fun state => ?_
    refine Prog.callsIn_bind (Prog.callsIn_ensure _ _) fun _ => ?_
    have hrecord : ∀ record : Json, (do
        writeSealed p.path p.integrityPath record
        return record : Op Json).CallsIn (SparesMarker p.path) := fun record =>
      Prog.callsIn_bind (callsIn_writeSealed (hwrite _) (hwrite _)) fun _ => Prog.callsIn_pure _
    dsimp only
    split
    · exact Prog.callsIn_bind (callsIn_atomicCreate (hcreate _ _)) fun _ => hrecord _
    · exact hrecord _

theorem Attempt.marker_mono {path : String} (a : Attempt path) {n n' : Nat} (hle : n ≤ n')
    {w : World} (h : MarkerDurable path (a.worldAt n w)) : MarkerDurable path (a.worldAt n' w) := by
  have hcalls := perform_spares a.state a.command
  rw [a.onPath] at hcalls
  exact hcalls.exec_mono (I := MarkerDurable path) step_keeps_marker hle h

theorem Attempt.marker_kept {path : String} (a : Attempt path) {w : World}
    (h : MarkerDurable path w) : MarkerDurable path (a.leaves w) := by
  refine a.marker_mono (n := 0) (Nat.zero_le _) ?_
  unfold Attempt.worldAt
  cases hp : a.state.perform a.command <;> exact h

/-- **The marker outlives the run**: durable at one moment, durable at the end. -/
theorem marker_kept {path : String} {start w : World} {run : List (Attempt path)}
    (hm : Moment start run w) (h : MarkerDurable path w) : MarkerDurable path (after run start) := by
  induction hm with
  | ended run => exact h
  | within run a n hn =>
    rw [after_snoc]
    exact a.marker_mono hn h
  | earlier a _ ih =>
    rw [after_snoc]
    exact a.marker_kept (ih h)

/-! ## 3. What the operations find -/

/-- `read` may return `state`: the record is there, its seal matches, it passes its checks, and
it is at the last stage exactly when the marker is durable. -/
structure PublicationState.Readable (p : PublicationState) (w : World) (state : Json) : Prop where
  stored : ∃ content, w.files p.path = some (.file false content) ∧ loads content = .ok state
  valid : p.checkRecord state = .ok ()
  cutover : state.get "stage" = .str "public_cutover" ↔ MarkerDurable p.path w

theorem wp_read (p : PublicationState) (w : World) :
    p.read.wp machine (looked w (p.Readable w)) w := by
  refine looked_bind (wp_readSealed w _ _ _ _) fun state w₁ hq₁ hstored => ?_
  obtain ⟨content, hfile, hload, -, -⟩ := hstored
  refine looked_bind (looked_liftExcept (F := fun _ => p.checkRecord state = .ok ())
    fun _ h => h) fun _ w₂ hq₂ hvalid => ?_
  have hq : Quiet w w₂ := hq₁.trans hq₂
  refine looked_bind (wp_pathExists w₂ _) fun cutover w₃ hq₃ hcutover => ?_
  have hmarker : MarkerDurable p.path w ↔ cutover = true := by
    rw [hcutover, hq.files]
    rfl
  cases cutover with
  | true =>
    refine looked_bind (wp_readJsonFile w₃ _) fun marker w₄ hq₄ _ => ?_
    refine looked_bind (looked_liftExcept (F := fun _ => p.checkMarker state marker = .ok ())
      fun _ h => h) fun _ w₅ _ hchecked => looked_pure ⟨⟨content, hfile, hload⟩, hvalid, ?_⟩
    simp only [PublicationState.checkMarker, check_ok, Bool.and_eq_true, pyEq_str] at hchecked
    simp [hchecked.2, hmarker]
  | false =>
    refine looked_bind (looked_liftExcept (F := fun _ =>
      check (!(state.get "stage").pyEq (.str "public_cutover"))
        "irreversible public cutover marker is missing" = .ok ()) fun _ h => h)
      fun _ w₅ _ hchecked => looked_pure ⟨⟨content, hfile, hload⟩, hvalid, ?_⟩
    have hstage : state.get "stage" ≠ .str "public_cutover" := by
      intro h
      simp [h, pyEq_refl] at hchecked
    simp [hstage, hmarker]

/-- With the marker durable, `prepare` does not return. -/
theorem wp_prepare_of_durable (p : PublicationState) (watermark : Json) (now : Instant) {w : World}
    (h : MarkerDurable p.path w) :
    (p.prepare watermark now).wp machine ⟨fun _ _ => False, fun _ _ => True, fun _ => True⟩ w := by
  refine Prog.wp_bind_of (wp_pathExists w _) (fun cutover w₁ hfound => ?_) (fun _ _ _ => trivial)
    fun _ _ => trivial
  have hcutover : cutover = true := hfound.2.trans h
  subst hcutover
  refine Prog.wp_bind_of (P := ⟨fun _ _ => False, fun _ _ => True, fun _ => True⟩) ?_
    (fun _ _ h => absurd h id) (fun _ _ h => h) fun _ h => h
  exact Prog.wp_ensure.mpr ⟨fun h => by simp at h, fun _ => trivial⟩

/-- The path into the past is only taken on a record that proves all three conditions. -/
theorem wp_chooseRollbackPath (p : PublicationState) (current : Json) (isolated : Bool)
    (w : World) :
    (chooseRollbackPath p.read current isolated).wp machine (looked w fun path =>
      path = .prePublicRestore → isolated = true ∧ ∃ state, p.Readable w state ∧
        (∃ s ∈ prePublicStages, state.get "stage" = .str s) ∧
        state.get "baseline_watermark_digest" = .str (digestJson current)) w := by
  refine looked_bind (looked_liftExcept (F := fun _ => True) fun _ _ => trivial)
    fun _ w₁ hq₁ _ => ?_
  have hbody : (do
      let state ← p.read
      Prog.liftExcept (knownPrePublic state current isolated) : Op Bool).wp machine
      (looked w₁ fun known => known = true → isolated = true ∧ ∃ state, p.Readable w₁ state ∧
        (∃ s ∈ prePublicStages, state.get "stage" = .str s) ∧
        state.get "baseline_watermark_digest" = .str (digestJson current)) w₁ := by
    refine looked_bind (wp_read p w₁) fun state w₂ _ hreadable => looked_liftExcept ?_
    intro known hknown htrue
    subst htrue
    unfold knownPrePublic at hknown
    split at hknown
    · next hcond =>
      simp only [Bool.and_eq_true, isOneOf_iff, decide_eq_true_eq] at hcond
      obtain ⟨⟨hstage, -⟩, hisolated⟩ := hcond
      cases hv : validateWatermark (state.get "baseline_watermark") with
      | error e => simp [hv, bind, Except.bind] at hknown
      | ok digest =>
        simp only [hv, bind, Except.bind, pure, Except.pure, Except.ok.injEq, Bool.and_eq_true,
          pyEq_str] at hknown
        exact ⟨hisolated, state, hreadable, hstage, hknown.2⟩
    · simp at hknown
  refine looked_bind (Prog.wp_tryCatch_of hbody (fun _ _ h => h) (fun e w₂ hq => ?_)
    fun _ h => h) fun known w₂ hq₂ hknown => looked_pure fun hpath => ?_
  · cases hu : unproved e
    · simpa [hu] using hq
    · simpa [hu, looked] using hq
  · cases known with
    | false => simp at hpath
    | true =>
      obtain ⟨hisolated, state, ⟨hstored, hvalid, hcutover⟩, hrest⟩ := hknown rfl
      refine ⟨hisolated, state, ⟨?_, hvalid, ?_⟩, hrest⟩
      · rwa [hq₁.files] at hstored
      · rw [hcutover, MarkerDurable, MarkerDurable, hq₁.files]

/-- The proxy may start only after the cutover. -/
theorem wp_authorizeProxyStart (p : PublicationState) (w : World) :
    p.authorizeProxyStart.wp machine (looked w fun _ => MarkerDurable p.path w) w := by
  refine looked_bind (wp_read p w) fun state w₁ _ hreadable => ?_
  refine Prog.wp_ensure.mpr ⟨fun hcond => ⟨Quiet.refl _, ?_⟩, fun _ => Quiet.refl _⟩
  simp only [Bool.and_eq_true, pyEq_str] at hcond
  exact hreadable.cutover.mp hcond.1

/-- A record at an earlier stage is readable only while the marker is not there. -/
theorem PublicationState.Readable.not_durable {p : PublicationState} {w : World} {state : Json}
    (h : p.Readable w state) {s : String} (hs : s ∈ prePublicStages)
    (hstage : state.get "stage" = .str s) : ¬MarkerDurable p.path w := by
  rw [← h.cutover, hstage]
  simp only [prePublicStages, stages, List.dropLast, List.mem_cons, List.not_mem_nil, or_false] at hs
  rcases hs with rfl | rfl | rfl <;> decide

/-! ## 4. The result -/

/-- **Public cutover is irreversible.**  At the end of any run of any instances on one path,
cut anywhere: if the marker was durable at any moment, no instance can prepare and no choice
goes back to the past; the proxy may start only once the marker is durable; and a choice of the
past means isolation, a record at a pre-public stage with the current data's digest, and a
marker that was never durable. -/
theorem public_cutover_irreversible (path : String) (start : World) (run : List (Attempt path)) :
    (∀ w, Moment start run w → MarkerDurable path w → ∀ p : PublicationState, p.path = path →
      ∀ n,
        (∀ watermark now state,
          ((p.prepare watermark now).exec machine n (after run start)).outcome ≠
            .returned state) ∧
        (∀ current isolated,
          ((chooseRollbackPath p.read current isolated).exec machine n (after run start)).outcome ≠
            .returned .prePublicRestore)) ∧
    (∀ p : PublicationState, p.path = path → ∀ n,
      (p.authorizeProxyStart.exec machine n (after run start)).outcome = .returned () →
        MarkerDurable path (after run start)) ∧
    (∀ p : PublicationState, p.path = path → ∀ current isolated n,
      ((chooseRollbackPath p.read current isolated).exec machine n (after run start)).outcome =
          .returned .prePublicRestore →
        isolated = true ∧ (∀ w, Moment start run w → ¬MarkerDurable path w) ∧
          ∃ state, p.Readable (after run start) state ∧
            (∃ s ∈ prePublicStages, state.get "stage" = .str s) ∧
            state.get "baseline_watermark_digest" = .str (digestJson current)) := by
  have hchoose : ∀ p : PublicationState, p.path = path → ∀ current isolated n,
      ((chooseRollbackPath p.read current isolated).exec machine n (after run start)).outcome =
          .returned .prePublicRestore →
        isolated = true ∧ (∀ w, Moment start run w → ¬MarkerDurable path w) ∧
          ∃ state, p.Readable (after run start) state ∧
            (∃ s ∈ prePublicStages, state.get "stage" = .str s) ∧
            state.get "baseline_watermark_digest" = .str (digestJson current) := by
    rintro p rfl current isolated n hreturned
    have hpost := Prog.exec_of_wp _ n _ (wp_chooseRollbackPath p current isolated (after run start))
    simp only [Post.Holds, hreturned, looked] at hpost
    obtain ⟨hisolated, state, hreadable, ⟨s, hs, hstage⟩, hdigest⟩ := hpost.2 trivial
    refine ⟨hisolated, fun w hw hdurable => ?_, state, hreadable, ⟨s, hs, hstage⟩, hdigest⟩
    exact hreadable.not_durable hs hstage (marker_kept hw hdurable)
  refine ⟨fun w hw hdurable p hp n => ⟨fun watermark now state hreturned => ?_, ?_⟩, ?_, hchoose⟩
  · have hend : MarkerDurable p.path (after run start) := hp ▸ marker_kept hw hdurable
    have hpost := Prog.exec_of_wp _ n _ (wp_prepare_of_durable p watermark now hend)
    simp [Post.Holds, hreturned] at hpost
  · intro current isolated hreturned
    exact (hchoose p hp current isolated n hreturned).2.1 w hw hdurable
  · rintro p rfl n hreturned
    have hpost := Prog.exec_of_wp _ n _ (wp_authorizeProxyStart p (after run start))
    simp only [Post.Holds, hreturned, looked] at hpost
    exact hpost.2

end ProductPdfQr.DeployRollback
