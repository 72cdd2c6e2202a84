/-
# Runs in a world without faults

What the records do when no file operation fails: a sealed record that was written is read
back, the clock is completed with the elapsed seconds that its readings give, and the audit log
takes one event after another.  Every statement here is an equation about a run, so the parts
compose by rewriting.
-/
import ProductPdfQr.DeployRollback.Lines

namespace ProductPdfQr.DeployRollback

open Effect Json

/-! ## 1. The calls -/

/-- No file operation fails. -/
def World.Faultless (w : World) : Prop := ∀ n, w.fault n = .none

namespace World

@[simp] theorem next_tick (w : World) : w.next.tick = w.tick + 1 := rfl
@[simp] theorem next_fault (w : World) : w.next.fault = w.fault := rfl
@[simp] theorem next_wall (w : World) : w.next.wall = w.wall := rfl
@[simp] theorem next_monotonic (w : World) : w.next.monotonic = w.monotonic := rfl
@[simp] theorem put_tick (w : World) (p : String) (n : Option Node) : (w.put p n).tick = w.tick := rfl
@[simp] theorem put_fault (w : World) (p : String) (n : Option Node) :
    (w.put p n).fault = w.fault := rfl
@[simp] theorem put_wall (w : World) (p : String) (n : Option Node) :
    (w.put p n).wall = w.wall := rfl
@[simp] theorem put_monotonic (w : World) (p : String) (n : Option Node) :
    (w.put p n).monotonic = w.monotonic := rfl

theorem Faultless.next {w : World} (h : w.Faultless) : w.next.Faultless := h

theorem Faultless.put {w : World} (h : w.Faultless) (p : String) (n : Option Node) :
    (w.put p n).Faultless := h

theorem step_fault (c : Call) (w : World) : (World.step c w).2.fault = w.fault := by
  cases c <;> simp only [World.step] <;> (try split) <;> (try split) <;> rfl

end World

/-- Nothing starts to fail. -/
theorem faultless_exec {α : Type} (p : Op α) (n : Nat) {w : World} (hw : w.Faultless) :
    (p.exec machine n w).state.Faultless :=
  (Prog.keeps_of_step (I := World.Faultless) (fun c _ hs i =>
    (congrFun (World.step_fault c _) i).trans (hs i)) p).exec n hw

section Files

variable {w : World}

theorem run_look (h : w.Faultless) (path : String) :
    (look path).run machine w = (.ok (.ok (w.files path)), w.next) := by
  simp [look, machine, World.step, h w.tick]

theorem run_orRaise_look (h : w.Faultless) (path : String) :
    (orRaise (look path)).run machine w = (.ok (w.files path), w.next) := by
  rw [orRaise, Prog.run_bind_ok (run_look h path), Prog.run_liftExcept]

theorem run_pathExists (h : w.Faultless) (path : String) :
    (pathExists path).run machine w = (.ok ((w.files path).any Node.present), w.next) := by
  rw [pathExists, Prog.run_bind_ok (run_orRaise_look h path), Prog.run_pure]

theorem run_atomicCreate (h : w.Faultless) {path : String} (hpath : Text.isAbsolute path = true)
    (hfree : w.files path = none) (payload : Bytes) :
    (atomicCreate path payload).run machine w =
      (.ok (), (w.put path (some (.file false payload))).next) := by
  rw [atomicCreate, Prog.run_bind_ok (Prog.run_ensure _ _ hpath)]
  simp [orRaise, Prog.run_bind, Prog.run_liftExcept, machine, World.step, h w.tick, hfree]

theorem run_atomicWrite (h : w.Faultless) {path : String} (hpath : Text.isAbsolute path = true)
    (hother : w.files path ≠ some .other) (payload : Bytes) :
    (atomicWrite path payload).run machine w =
      (.ok (), (w.put path (some (.file false payload))).next) := by
  rw [atomicWrite, Prog.run_bind_ok (Prog.run_ensure _ _ hpath)]
  simp [orRaise, Prog.run_bind, Prog.run_liftExcept, machine, World.step, h w.tick, hother]

theorem run_appendLine (h : w.Faultless) {path : String} {payload : Bytes} {node : Node}
    (hnode : Node.append payload (w.files path) = some node) :
    (orRaise (Prog.perform (Call.append path payload)) : Op Unit).run machine w =
      (.ok (), (w.put path (some node)).next) := by
  simp [orRaise, Prog.run_bind, Prog.run_liftExcept, machine, World.step, h w.tick, hnode]

theorem jsonFile_canonical {path : String} {state : Json} (hplain : Plain state)
    (hdict : state.isDict = true) :
    jsonFile path (.ok (some (.file false (canonicalJson state)))) = .ok (state, true) := by
  simp [jsonFile, loadsLoosely_of_loads (loads_canonicalJson hplain), hdict]

theorem run_readJsonFile (h : w.Faultless) {path : String} {state : Json} (hplain : Plain state)
    (hdict : state.isDict = true) (hfile : w.files path = some (.file false (canonicalJson state))) :
    (readJsonFile path).run machine w = (.ok state, w.next) := by
  rw [readJsonFile, Prog.run_bind_ok (run_look h path), hfile,
    Prog.run_bind_ok (Prog.run_liftExcept _ _ |>.trans (by rw [jsonFile_canonical hplain hdict])),
    Prog.run_pure]

end Files

/-! ## 2. The record of a running clock -/

namespace RollbackClock

variable (c : RollbackClock)

/-- The record of a rollback declared at `started`, with a floor. -/
def running (started : Instant) (floor : Nat) : Json :=
  (c.declared started).set "elapsed_floor_seconds" (.int floor)

theorem isDict_declared (started : Instant) : (c.declared started).isDict = true := rfl

theorem plain_running (started : Instant) (floor : Nat) : Plain (c.running started floor) :=
  Plain.set (plain_dict (by simp [PlainFields, Plain])) trivial

theorem hasKeys_running (started : Instant) (floor : Nat) :
    (c.running started floor).hasKeys clockFields = true := by
  refine hasKeys_set (hasKeys_dict fun k => ?_) (by simp [clockFields]) _
  simp only [List.map_cons, List.map_nil, clockFields]

theorem get_running (started : Instant) (floor : Nat) (k : String) :
    (c.running started floor).get k =
      if k = "elapsed_floor_seconds" then .int floor else (c.declared started).get k :=
  get_set (c.isDict_declared started) _ _ _

theorem parseTime_started (started : Instant) (floor : Nat) :
    parseTime ((c.running started floor).get "started_at") "rollback.started_at" = .ok started := by
  simp [get_running, declared, get_dict, lookupField, parseTime, str?]

/-- The record passes its own check. -/
theorem checkRecord_running (started : Instant) (floor : Nat) :
    c.checkRecord (c.running started floor) = .ok () := by
  unfold checkRecord
  rw [c.hasKeys_running, c.parseTime_started]
  simp [get_running, declared, get_dict, lookupField, isSize, isBool, isDict, isList, check,
    pyEq_refl, bind, Except.bind, pure, Except.pure]

end RollbackClock

/-! ## 3. Sealed records -/

section Sealed

variable [Sha256] {w : World}

/-- The record and its seal are in place. -/
structure Sealed (w : World) (path sidecar : String) (state : Json) : Prop where
  plain : Plain state
  dict : state.isDict = true
  record : w.files path = some (.file false (canonicalJson state))
  sealing : w.files sidecar = some (.file false (sealText (digestJson state)))

theorem run_readSealed (h : w.Faultless) (hdigests : Sha256.HexDigests) {path sidecar : String}
    {state : Json} (hsealed : Sealed w path sidecar state) (missing mismatch : String) :
    (readSealed path sidecar missing mismatch).run machine w = (.ok state, w.next.next) := by
  have hhex : Text.isSha256 (digestJson state) = true := hdigests _
  have hmatches : sealMatches state true missing mismatch (.ok (w.files sidecar)) = .ok () := by
    rw [hsealed.sealing]
    simp [sealMatches, Node.content?, Node.isRegular, decodeAscii?_sealText hhex,
      Text.strip_line hhex, hhex]
  rw [readSealed, Prog.run_bind_ok (run_look h path), hsealed.record,
    Prog.run_bind_ok (Prog.run_liftExcept _ _ |>.trans
      (by rw [jsonFile_canonical hsealed.plain hsealed.dict])),
    Prog.run_bind_ok (run_look h.next sidecar)]
  rw [Prog.run_bind_ok (a := ()) (t := w.next.next), Prog.run_pure]
  rw [Prog.run_liftExcept, World.next_files, hmatches]

/-- Replacing a record and its seal. -/
theorem run_writeSealed (h : w.Faultless) {path sidecar : String}
    (hpath : Text.isAbsolute path = true) (hside : Text.isAbsolute sidecar = true)
    (hne : sidecar ≠ path) (hother : w.files path ≠ some .other)
    (hother' : w.files sidecar ≠ some .other) (state : Json) :
    (writeSealed path sidecar state).run machine w =
      (.ok (), ((w.put path (some (.file false (canonicalJson state)))).next.put sidecar
        (some (.file false (sealText (digestJson state))))).next) := by
  rw [writeSealed, Prog.run_bind_ok (run_atomicWrite h hpath hother _)]
  exact run_atomicWrite (h.put _ _).next hside (by simpa [World.put, hne] using hother') _

/-- Creating a record and its seal. -/
theorem run_createSealed (h : w.Faultless) {path sidecar : String}
    (hpath : Text.isAbsolute path = true) (hside : Text.isAbsolute sidecar = true)
    (hne : sidecar ≠ path) (hfree : w.files path = none) (hfree' : w.files sidecar = none)
    (state : Json) : (createSealed path sidecar state).run machine w =
      (.ok (), ((w.put path (some (.file false (canonicalJson state)))).next.put sidecar
        (some (.file false (sealText (digestJson state))))).next) := by
  have hcreate := run_atomicCreate (h.put path (some (.file false (canonicalJson state)))).next hside
    (by simpa [World.put, hne] using hfree') (sealText (digestJson state))
  rw [createSealed, Prog.run_bind_ok (run_atomicCreate h hpath hfree _), Prog.run_tryCatch, hcreate]

theorem sealed_of_written {path sidecar : String} {state : Json} (hne : path ≠ sidecar)
    (hplain : Plain state) (hdict : state.isDict = true) :
    Sealed ((w.put path (some (.file false (canonicalJson state)))).next.put sidecar
      (some (.file false (sealText (digestJson state))))).next path sidecar state :=
  ⟨hplain, hdict, by simp [World.put, hne], by simp [World.put]⟩

/-! ## 4. The clock -/

namespace RollbackClock

variable (c : RollbackClock)

/-- What the completion of a clock needs of the world. -/
structure Ticking (w : World) (started : Instant) (floor : Nat) : Prop where
  faultless : w.Faultless
  record : Sealed w c.path c.integrityPath (c.running started floor)
  alert : w.files c.alertPath ≠ some .other

theorem Ticking.next {c : RollbackClock} {started : Instant} {floor : Nat}
    (h : c.Ticking w started floor) : c.Ticking w.next started floor :=
  ⟨h.faultless, ⟨h.record.plain, h.record.dict, h.record.record, h.record.sealing⟩, h.alert⟩

theorem run_read {c : RollbackClock} (hdigests : Sha256.HexDigests) {started : Instant}
    {floor : Nat} (h : c.Ticking w started floor) :
    c.read.run machine w = (.ok (c.running started floor), w.next.next) := by
  rw [read, Prog.run_bind_ok (run_readSealed h.faultless hdigests h.record _ _),
    Prog.run_bind_ok (a := ()) (t := w.next.next), Prog.run_pure]
  rw [Prog.run_liftExcept, c.checkRecord_running]

theorem run_declare {c : RollbackClock} (hdigests : Sha256.HexDigests) {started : Instant}
    {floor : Nat} (h : c.Ticking w started floor) :
    c.declare.run machine w = (.ok (c.running started floor), w.next.next.next) := by
  rw [declare, Prog.run_bind_ok (run_pathExists h.faultless c.path), h.record.record]
  exact run_read hdigests h.next

/-- The world after a record was written at two ticks. -/
def rewritten (w : World) (state : Json) : World :=
  ((w.put c.path (some (.file false (canonicalJson state)))).next.put c.integrityPath
    (some (.file false (sealText (digestJson state))))).next

theorem run_rewrite {c : RollbackClock} {started : Instant} {floor : Nat}
    (h : c.Ticking w started floor) (state : Json) :
    (writeSealed c.path c.integrityPath state).run machine w = (.ok (), c.rewritten w state) := by
  have hside : c.integrityPath ≠ c.path := Text.append_ne_self (by decide)
  have hother : w.files c.integrityPath ≠ some .other := by simp [h.record.sealing]
  exact run_writeSealed h.faultless c.bounded.1 (Text.isAbsolute_append c.bounded.1 _) hside
    (by simp [h.record.record]) hother state

theorem rewritten_other {p : String} (hp : p ≠ c.path) (hp' : p ≠ c.integrityPath)
    (state : Json) : (c.rewritten w state).files p = w.files p := by
  simp [rewritten, World.put, hp, hp']

theorem Ticking.rewritten {c : RollbackClock} {started : Instant} {floor : Nat}
    (h : c.Ticking w started floor) (floor' : Nat) :
    c.Ticking (c.rewritten w (c.running started floor')) started floor' := by
  have hside : c.path ≠ c.integrityPath := (Text.append_ne_self (by decide)).symm
  have halert : c.alertPath ≠ c.path := Text.append_ne_self (by decide)
  have halert' : c.alertPath ≠ c.integrityPath := Text.append_ne_append (by decide)
  refine ⟨h.faultless, sealed_of_written hside (c.plain_running _ _) rfl, ?_⟩
  rw [c.rewritten_other halert halert']
  exact h.alert

/-- The seconds that `elapsed` gives, read at `w`. -/
def shown (w : World) (started : Instant) (floor : Nat) : Int :=
  c.elapsedSeconds (c.running started floor) started (w.wall (w.tick + 3))
    (w.monotonic (w.tick + 4))

omit [Sha256] in
theorem shown_nonneg (started : Instant) (floor : Nat) : 0 ≤ c.shown w started floor :=
  le_max_right _ _

/-- `elapsed` raises the floor to what the clocks show. -/
theorem run_elapsed {c : RollbackClock} (hdigests : Sha256.HexDigests) {started : Instant}
    {floor : Nat} (h : c.Ticking w started floor) (hmore : (floor : Int) < c.shown w started floor) :
    c.elapsed.run machine w = (.ok (c.shown w started floor),
      c.rewritten w.next.next.next.next.next
        (c.running started (c.shown w started floor).toNat)) := by
  have hshown : ((c.shown w started floor).toNat : Int) = c.shown w started floor :=
    Int.toNat_of_nonneg (c.shown_nonneg started floor)
  have hticking : c.Ticking w.next.next.next.next.next started floor := h.next.next.next.next.next
  have hstate : (c.running started floor).set "elapsed_floor_seconds"
      (.int (c.shown w started floor)) = c.running started (c.shown w started floor).toNat := by
    rw [running, set_set, running, hshown]
  have hne : ((c.running started floor).get "elapsed_floor_seconds").pyEq
      (.int (c.shown w started floor)) = false := by
    rw [get_running, if_pos rfl]
    simpa [pyEq, Json.norm] using hmore.ne
  rw [elapsed, Prog.run_bind_ok (run_declare hdigests h),
    Prog.run_bind_ok (Prog.run_perform Call.wallNow _),
    Prog.run_bind_ok (a := started) (t := w.next.next.next.next)
      (by rw [Prog.run_liftExcept, c.parseTime_started]; rfl),
    Prog.run_bind_ok (Prog.run_perform Call.monotonicNow _)]
  change Prog.run machine (if ((c.running started floor).get "elapsed_floor_seconds").pyEq
    (.int (c.shown w started floor)) then _ else writeSealed c.path c.integrityPath
      ((c.running started floor).set "elapsed_floor_seconds" (.int (c.shown w started floor))) >>=
        fun _ => pure (c.shown w started floor)) w.next.next.next.next.next = _
  rw [if_neg (by simp [hne]), hstate, Prog.run_bind_ok (run_rewrite hticking _), Prog.run_pure]

/-- Nothing but the files of the clock differs. -/
def Spares (w w' : World) : Prop :=
  ∀ p, p ≠ c.path → p ≠ c.integrityPath → p ≠ c.alertPath → w'.files p = w.files p

/-- The completion is recorded, with an alert past the limit. -/
theorem run_recordCompletion {c : RollbackClock} (hdigests : Sha256.HexDigests) {started : Instant}
    {floor : Nat} (h : c.Ticking w started floor) (elapsed : Int) :
    ∃ w', (c.recordCompletion elapsed).run machine w =
        (.ok (elapsed, decide (elapsed ≤ rtoLimitSeconds)), w') ∧ w'.Faultless ∧ c.Spares w w' := by
  let state := completed (c.running started floor) elapsed
  have hother : ∀ p, p ≠ c.path → p ≠ c.integrityPath →
      (c.rewritten w.next.next state).files p = w.files p :=
    fun p hp hp' => c.rewritten_other hp hp' _
  rw [recordCompletion, Prog.run_bind_ok (run_read hdigests h),
    Prog.run_bind_ok (run_rewrite h.next.next state)]
  by_cases hlimit : elapsed ≤ rtoLimitSeconds
  · rw [if_pos hlimit, Prog.run_pure, decide_eq_true hlimit]
    exact ⟨_, rfl, h.faultless, fun p hp hp' _ => hother p hp hp'⟩
  · have halert : c.alertPath ≠ c.path := Text.append_ne_self (by decide)
    have halert' : c.alertPath ≠ c.integrityPath := Text.append_ne_append (by decide)
    have habsolute : Text.isAbsolute c.alertPath = true := Text.isAbsolute_append c.bounded.1 _
    have hnode : (c.rewritten w.next.next state).files c.alertPath ≠ some .other := by
      rw [hother _ halert halert']
      exact h.alert
    have hfaultless : (c.rewritten w.next.next state).Faultless := h.faultless
    rw [if_neg hlimit, Prog.run_bind_ok (run_atomicWrite hfaultless habsolute hnode _),
      Prog.run_pure, decide_eq_false hlimit]
    refine ⟨_, rfl, h.faultless, fun p hp hp' hp'' => ?_⟩
    rw [← hother p hp hp']
    simp [World.put, hp'']

/-- `complete_after_external_readiness` records what the clocks show; nothing else changes. -/
theorem run_complete {c : RollbackClock} (hdigests : Sha256.HexDigests) {started : Instant}
    {floor : Nat} (h : c.Ticking w started floor)
    (hmore : (floor : Int) < c.shown w.next.next started floor) :
    ∃ w', (c.completeAfterExternalReadiness none).run machine w =
        (.ok (c.shown w.next.next started floor,
          decide (c.shown w.next.next started floor ≤ rtoLimitSeconds)), w') ∧
      w'.Faultless ∧ c.Spares w w' := by
  have hticking := h.next.next.next.next.next.next.next.rewritten
    (c.shown w.next.next started floor).toNat
  have hnot : (c.running started floor).get "completed" = .bool false := by
    simp [get_running, declared, get_dict, lookupField]
  rw [completeAfterExternalReadiness, Prog.run_bind_ok (run_read hdigests h), hnot]
  simp only [truthy, Bool.false_eq_true, if_false]
  change ∃ w', Prog.run machine (c.elapsed >>= c.recordCompletion) w.next.next = _ ∧ _
  rw [Prog.run_bind_ok (run_elapsed hdigests h.next.next hmore)]
  obtain ⟨w', hrun, hfaultless, hspares⟩ := run_recordCompletion hdigests hticking
    (c.shown w.next.next started floor)
  refine ⟨w', hrun, hfaultless, fun p hp hp' hp'' => ?_⟩
  rw [hspares p hp hp' hp'', c.rewritten_other hp hp']
  rfl

end RollbackClock

/-! ## 5. The audit log -/

namespace AuditLog

/-- The digest of an event that follows `previous`. -/
def digestAfter (previous : String) (event : Json) : String :=
  digestJson (event.set "previous_sha256" (.str previous))

/-- The digest of the last of these events. -/
def headOf (previous : String) (events : List Json) : String := events.foldl digestAfter previous

/-- The lines of these events. -/
def logText (previous : String) : List Json → List Char
  | [] => []
  | event :: events =>
    print (chained event previous) ++ '\n' :: logText (digestAfter previous event) events

/-- An event that a line can hold. -/
structure Loggable (previous : String) (event : Json) : Prop where
  plain : Plain event
  dict : event.isDict = true
  fresh : event.get? "event_sha256" = none
  oneLine : ∀ c ∈ print (chained event previous), isLineEnd c = false

/-- Every one of these events can be held. -/
def AllLoggable : String → List Json → Prop
  | _, [] => True
  | previous, event :: events =>
    Loggable previous event ∧ AllLoggable (digestAfter previous event) events

omit [Sha256] in
/-- The body of an event has no digest of its own yet. -/
theorem fresh_body {event : Json} (hdict : event.isDict = true)
    (hfresh : event.get? "event_sha256" = none) (previous : String) :
    ∃ fs, event.set "previous_sha256" (.str previous) = .obj fs ∧
      lookupField "event_sha256" fs = none := by
  cases event with
  | obj fs =>
    refine ⟨insertField "previous_sha256" (.str previous) fs, rfl, ?_⟩
    rw [lookupField_insertField, if_neg (by decide)]
    exact hfresh
  | _ => cases hdict

theorem checkLine_chained {previous : String} {event : Json} (hplain : Plain event)
    (hdict : event.isDict = true) (hfresh : event.get? "event_sha256" = none) :
    checkLine previous (print (chained event previous)) = .ok (digestAfter previous event) := by
  obtain ⟨fs, hbody, hnone⟩ := fresh_body hdict hfresh previous
  have hplain' : Plain (chained event previous) := by
    have hbody : Plain (event.set "previous_sha256" (.str previous)) := hplain.set trivial
    exact hbody.set trivial
  have hdigest : digestAfter previous event = digestJson (.obj fs) := by
    rw [digestAfter, hbody]
  have hchained : chained event previous =
      .obj (insertField "event_sha256" (.str (digestAfter previous event)) fs) := by
    rw [chained, hdigest, hbody]
    rfl
  unfold checkLine
  rw [loadsText_print hplain', hchained]
  simp only [eraseField_insertField hnone]
  have hprevious : (Json.obj fs).get "previous_sha256" = .str previous := by
    rw [← hbody, get_set hdict, if_pos rfl]
  have hseal : (Json.obj (insertField "event_sha256" (.str (digestAfter previous event)) fs)).get
      "event_sha256" = .str (digestAfter previous event) := by
    rw [Json.get, get?_obj, lookupField_insertField, if_pos rfl]
    rfl
  rw [hprevious, hseal, ← hdigest]
  simp [pyEq_refl]

/-- A log that was written event by event is checked event by event. -/
theorem checkLines_logText : ∀ (events : List Json) (previous : String) (count : Nat),
    AllLoggable previous events →
      checkLines count previous (splitLines (logText previous events)) =
        .ok (count + events.length, headOf previous events)
  | [], _, _, _ => rfl
  | event :: events, previous, count, h => by
    rw [logText, splitLines_line h.1.oneLine (by decide), checkLines,
      checkLine_chained h.1.plain h.1.dict h.1.fresh]
    change checkLines (count + 1) (digestAfter previous event) _ = _
    rw [checkLines_logText events _ _ h.2, List.length_cons]
    exact congrArg (fun n => Except.ok (n, _)) (by omega)

theorem logText_append : ∀ (events : List Json) (previous : String) (event : Json),
    logText previous (events ++ [event]) =
      logText previous events ++ (print (chained event (headOf previous events)) ++ ['\n'])
  | [], _, _ => rfl
  | e :: events, previous, event => by
    rw [List.cons_append, logText, logText_append events, logText, List.append_assoc,
      List.cons_append]
    rfl

theorem allLoggable_append : ∀ (events : List Json) (previous : String) (event : Json),
    AllLoggable previous events → Loggable (headOf previous events) event →
      AllLoggable previous (events ++ [event])
  | [], _, _, _, h => ⟨h, trivial⟩
  | _ :: events, _, event, hall, h => ⟨hall.1, allLoggable_append events _ event hall.2 h⟩

/-- The file of a log with these events. -/
def logFile (events : List Json) : Option Node :=
  if events = [] then none
  else some (.file false (String.ofList (logText genesisDigest events)).toUTF8)

/-- The log and its anchor hold these events. -/
structure Logged (a : AuditLog) (w : World) (events : List Json) : Prop where
  faultless : w.Faultless
  loggable : AllLoggable genesisDigest events
  log : w.files a.path = logFile events
  anchor : events ≠ [] → w.files a.anchorPath = some (.file false (canonicalJson
    (anchorOf events.length (headOf genesisDigest events))))
  regular : w.files a.anchorPath ≠ some .other

/-- Every line of the log is a whole text, so nothing is translated. -/
theorem checkChain_logText {events : List Json} (h : AllLoggable genesisDigest events) :
    checkChain (String.ofList (logText genesisDigest events)).toUTF8 =
      .ok (events.length, headOf genesisDigest events) := by
  have hreturn : ∀ (events : List Json) (previous : String), AllLoggable previous events →
      '\r' ∉ logText previous events := by
    intro events
    induction events with
    | nil => intro _ _ hc; cases hc
    | cons event events ih =>
      intro previous hall hc
      rcases List.mem_append.mp hc with hc | hc
      · exact absurd (hall.1.oneLine _ hc) (by decide)
      · rcases List.mem_cons.mp hc with hc | hc
        · exact absurd hc (by decide)
        · exact ih _ hall.2 hc
  unfold checkChain
  rw [fromUTF8?_toUTF8]
  change checkLines 0 genesisDigest (splitLines (universalNewlines (String.ofList _).toList)) = _
  rw [String.toList_ofList, universalNewlines_eq (hreturn events _ h),
    checkLines_logText events _ _ h, Nat.zero_add]

theorem run_events {a : AuditLog} {events : List Json} (h : a.Logged w events) :
    ∃ k, (AuditLog.events a).run machine w =
      (.ok (events.length, headOf genesisDigest events), { w with tick := w.tick + k }) := by
  by_cases hempty : events = []
  · refine ⟨1, ?_⟩
    rw [AuditLog.events, Prog.run_bind_ok (run_orRaise_look h.faultless a.path), h.log, hempty]
    rfl
  · refine ⟨3, ?_⟩
    have hanchor := h.anchor hempty
    have hplain : Plain (anchorOf events.length (headOf genesisDigest events)) :=
      plain_dict (by simp [PlainFields, Plain])
    rw [AuditLog.events, Prog.run_bind_ok (run_orRaise_look h.faultless a.path), h.log, logFile,
      if_neg hempty]
    simp only [Option.filter, Node.present, if_true]
    rw [Prog.run_bind_ok (a := (events.length, headOf genesisDigest events)) (t := w.next)
        (by rw [Prog.run_liftExcept, chainOf, checkChain_logText h.loggable]),
      Prog.run_bind_ok (run_orRaise_look h.faultless.next a.anchorPath), World.next_files, hanchor]
    simp only [Option.any_some, Node.content?, Option.isSome_some]
    rw [Prog.run_bind_ok (Prog.run_ensure _ _ rfl),
      Prog.run_bind_ok (run_readJsonFile h.faultless.next.next hplain rfl hanchor),
      Prog.run_bind_ok (Prog.run_ensure _ _ (pyEq_refl _)), Prog.run_pure]
    rfl

/-- An event that passes the check of its keys is appended. -/
theorem run_append {a : AuditLog} {events : List Json} (h : a.Logged w events) {event : Json}
    (hsafe : (event.keys.any fun key => sensitiveAuditWords.any (containsWord key)) = false)
    (hevent : Loggable (headOf genesisDigest events) event) :
    ∃ digest w', (a.append event).run machine w = (.ok digest, w') ∧
      a.Logged w' (events ++ [event]) ∧
      ∀ p, p ≠ a.path → p ≠ a.anchorPath → w'.files p = w.files p := by
  obtain ⟨k, hrun⟩ := run_events h
  let head := headOf genesisDigest events
  let w₁ : World := { w with tick := w.tick + k }
  let node : Option Node := logFile (events ++ [event])
  have hnode : ∃ n, node = some n := by simp [node, logFile]
  obtain ⟨n, hn⟩ := hnode
  let w₂ : World := (w₁.put a.path (some n)).next
  have hne : a.anchorPath ≠ a.path := Text.append_ne_self (by decide)
  have hline : Node.append (canonicalJson (chained event head)) (w₁.files a.path) = node := by
    change Node.append _ (w.files a.path) = logFile (events ++ [event])
    rw [h.log]
    by_cases hempty : events = []
    · subst hempty
      simp [logFile, Node.append, logText, canonicalJson, head, headOf]
    · simp [logFile, hempty, Node.append, logText_append, canonicalJson, head,
        String.toByteArray_append, String.ofList_append]
  have hfaultless₁ : w₁.Faultless := h.faultless
  have happend : (orRaise (Prog.perform (Call.append a.path (canonicalJson (chained event head)))) :
      Op Unit).run machine w₁ = (.ok (), w₂) := run_appendLine hfaultless₁ (hline.trans hn)
  have hregular : w₂.files a.anchorPath ≠ some .other := by
    simpa [w₂, World.put, hne] using h.regular
  have hfaultless : w₂.Faultless := h.faultless
  let anchor := anchorOf (events.length + 1) (digestAfter head event)
  let w₃ : World := (w₂.put a.anchorPath (some (.file false (canonicalJson anchor)))).next
  have hhead : headOf genesisDigest (events ++ [event]) = digestAfter head event := by
    simp [headOf, head]
  have habsolute : Text.isAbsolute a.anchorPath = true := Text.isAbsolute_append a.bounded.1 _
  refine ⟨digestAfter head event, w₃, ?_, ?_, ?_⟩
  · rw [append, Prog.run_bind_ok (Prog.run_ensure _ _ (by simp [hsafe])), Prog.run_bind_ok hrun,
      Prog.run_bind_ok happend,
      Prog.run_bind_ok (run_atomicWrite hfaultless habsolute hregular _), Prog.run_pure]
    rfl
  · refine ⟨h.faultless, allLoggable_append _ _ _ h.loggable hevent, ?_, fun _ => ?_, ?_⟩
    · simp [w₃, World.put, hne.symm, w₂, ← hn, node]
    · rw [hhead, List.length_append]
      simp [w₃, World.put, anchor]
    · simp [w₃, World.put]
  · intro p hp hp'
    simp [w₃, World.put, hp', w₂, hp, w₁]

end AuditLog

end Sealed

end ProductPdfQr.DeployRollback
