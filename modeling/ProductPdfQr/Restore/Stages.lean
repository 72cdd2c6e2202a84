/-
# The checkpoint keeps the order

The events of a run are those of a lawful trace: what each command writes is the record of the
next rule, and where a command stops, the trace stops with it.  A command that does not advance
only looks.
-/
import ProductPdfQr.Restore.Commands
import ProductPdfQr.Restore.Ledger

namespace ProductPdfQr.Restore

open Effect Json

variable [Sha256]

/-! ## 1. Records as JSON -/

/-- An entry as it is written. -/
def Entry.json (x : Entry) : Json := RestoreEngine.entry x.stage x.time x.details

/-- A record as it is written. -/
def Recorded.json (g : RestoreGuard) (backupId : String) (r : Recorded) : Json := dict
  [("backup_id", .str backupId), ("operation_id", .str g.operationId), ("stage", .str r.stage.text),
    ("declared_at", .str r.declaredAt.formatTime),
    ("authorization_record", .str g.authorizationRecord), ("operator_id", .str g.operatorId),
    ("history", .arr (r.entries.map Entry.json))]

/-- The bytes of a record. -/
def Recorded.bytes (g : RestoreGuard) (backupId : String) (r : Recorded) : Bytes :=
  canonicalJson (r.json g backupId)

/-- An event as it is kept. -/
def Fact.event (g : RestoreGuard) (backupId : String) : Fact → Event
  | .recorded r => .saved (r.bytes g backupId)
  | .pgRestored dump => .pgRestored dump

/-- The state as `_read_state` shows it. -/
def shown (g : RestoreGuard) (backupId : String) : Option Recorded → Json
  | none => dict [("backup_id", .str backupId), ("stage", .str Stage.declared.text),
      ("history", .arr [])]
  | some r => r.json g backupId

/-- The stage as `_read_state` shows it. -/
def shownStage (last : Option Recorded) : Stage := (last.map Recorded.stage).getD .declared

variable {g : RestoreGuard} {backupId : String} {r : Recorded}

omit [Sha256] in
theorem Entry.plain_json (x : Entry) : x.json.Plain := by
  refine plain_dict ?_
  rw [plainFields_iff]
  intro f hf
  rcases List.mem_append.mp hf with hf | hf
  · simp only [List.mem_cons, List.not_mem_nil, or_false] at hf
    rcases hf with rfl | rfl <;> trivial
  · exact plainFields_iff.mp x.plain f hf

theorem Recorded.plain_json : (r.json g backupId).Plain := by
  refine plain_dict ?_
  rw [plainFields_iff]
  intro f hf
  simp only [List.mem_cons, List.not_mem_nil, or_false] at hf
  rcases hf with rfl | rfl | rfl | rfl | rfl | rfl | rfl
  · trivial
  · trivial
  · trivial
  · trivial
  · trivial
  · trivial
  · refine plainItems_iff.mpr fun j hj => ?_
    obtain ⟨x, -, rfl⟩ := List.mem_map.mp hj
    exact x.plain_json

/-- The fields of a record, in the order of their names. -/
theorem Recorded.json_fields : r.json g backupId = .obj
    [("authorization_record", .str g.authorizationRecord), ("backup_id", .str backupId),
      ("declared_at", .str r.declaredAt.formatTime),
      ("history", .arr (r.entries.map Entry.json)), ("operation_id", .str g.operationId),
      ("operator_id", .str g.operatorId), ("stage", .str r.stage.text)] := by
  simp +decide only [json, dict, insertField, List.foldl, if_true, if_false]

theorem stageOf_shown (last : Option Recorded) :
    RestoreEngine.stageOf (shown g backupId last) = shownStage last := by
  cases last with
  | none =>
    have hstage : (shown g backupId none).get "stage" = .str Stage.declared.text := by
      rw [shown, get_dict]
      rfl
    simp [RestoreEngine.stageOf, hstage, str?, shownStage]
  | some r =>
    have hstage : (r.json g backupId).get "stage" = .str r.stage.text := by
      rw [Recorded.json_fields]
      rfl
    simp [RestoreEngine.stageOf, shown, hstage, str?, shownStage]

variable (g backupId r) in
/-- The record with one more entry, as it is put together. -/
theorem appendHistory_json (x : Entry) :
    RestoreEngine.appendHistory ((r.json g backupId).set "stage" (.str x.stage.text)) x.json =
      .ok ((r.push x).json g backupId) := by
  have hget : ((r.json g backupId).set "stage" (.str x.stage.text)).get? "history" =
      some (.arr (r.entries.map Entry.json)) := by
    rw [Recorded.json_fields, get?_set]
    rfl
  rw [RestoreEngine.appendHistory, hget, Recorded.json_fields, Recorded.json_fields]
  simp +decide only [Json.set, insertField, if_true, if_false, Recorded.stage_push,
    Recorded.push_entries, Recorded.push_declaredAt, List.map_append, List.map_cons, List.map_nil]

/-! ## 2. What is read -/

variable {e : RestoreEngine} {w : World}

/-- The events so far are those of a lawful trace that leads to this record. -/
def Refines (g : RestoreGuard) (backupId : String) (history : List Event)
    (last : Option Recorded) : Prop :=
  ∃ trace, history = trace.map (Fact.event g backupId) ∧ Lawful trace last

/-- The checkpoint is the last record. -/
theorem Refines.checkpoint {last : Option Recorded} (h : Refines g backupId w.history last) :
    w.checkpoint = last.map (Recorded.bytes g backupId) := by
  obtain ⟨trace, hhistory, hlawful⟩ := h
  have hcontents : contents w.history = (records trace).map (Recorded.bytes g backupId) := by
    rw [hhistory, contents, records, List.filterMap_map, List.map_filterMap]
    refine congrArg (fun f => List.filterMap f trace) (funext fun fact => ?_)
    cases fact <;> rfl
  rw [World.checkpoint, hcontents, List.getLast?_map, ← hlawful.lastRecord_eq, lastRecord]

/-- Whatever a file with a record is read as, it is the record. -/
theorem loadState_bytes {state : Json} (h : e.loadState backupId (r.bytes g backupId) = .ok state) :
    state = r.json g backupId := by
  rw [RestoreEngine.loadState, Recorded.bytes, loads_canonicalJson Recorded.plain_json] at h
  dsimp only at h
  cases hcheck : e.checkState backupId (r.json g backupId) with
  | error error =>
    rw [hcheck] at h
    cases h
  | ok u =>
    rw [hcheck] at h
    exact (Except.ok.inj h).symm

/-- A call that leaves no event. -/
def Quiet : Call → Prop
  | .checkpoint | .utcNow | .ask _ => True
  | _ => False

omit [Sha256] in
theorem step_quiet (c : Call) (hc : Quiet c) (w : World) :
    (machine.step c w).2.history = w.history := by
  cases c with
  | checkpoint | utcNow | ask q => rfl
  | save content => cases hc
  | pgRestore dump => cases hc

variable {α β : Type}

/-- A condition on the history alone, however a run ends. -/
def OnHistory (I : List Event → Prop) : Post World Exn α := .always fun w => I w.history

omit [Sha256] in
/-- One call comes first. -/
theorem wp_call_bind {c : Call} {f : Answer c → Op β} {Q : Post World Exn β} (hQ : Q.crashed w)
    (hf : (f (World.step c w).1).wp machine Q (World.step c w).2) :
    (Prog.perform c >>= f).wp machine Q w := by
  rw [Prog.wp_bind, Prog.wp_perform]
  exact ⟨hQ, hf⟩

section Quietly

variable {I : List Event → Prop} {p : Op α} {f : α → Op β}

omit [Sha256] in
theorem wp_quiet (hp : p.CallsIn Quiet) : p.wp machine (.always fun w' => w'.history = w.history) w :=
  Prog.CallsIn.keeps (I := fun w' => w'.history = w.history)
    (fun c hc w' h => (step_quiet c hc w').trans h) hp w rfl

omit [Sha256] in
theorem of_history {w' : World} (hI : I w.history) (h : w'.history = w.history) : I w'.history := by
  rw [h]
  exact hI

omit [Sha256] in
/-- What only looks comes first. -/
theorem wp_quiet_bind (hp : p.CallsIn Quiet) (hI : I w.history)
    (hf : ∀ a w', w'.history = w.history → (f a).wp machine (OnHistory I) w') :
    (p >>= f).wp machine (OnHistory I) w :=
  Prog.wp_bind_of (wp_quiet hp) hf (fun _ _ h => of_history hI h) fun _ h => of_history hI h

omit [Sha256] in
theorem wp_quiet_last (hp : p.CallsIn Quiet) (hI : I w.history) : p.wp machine (OnHistory I) w :=
  Prog.wp_le (wp_quiet hp)
    ⟨fun _ _ h => of_history hI h, fun _ _ h => of_history hI h, fun _ h => of_history hI h⟩

omit [Sha256] in
theorem wp_done {a : α} (hI : I w.history) : (pure a : Op α).wp machine (OnHistory I) w := by
  rw [Prog.wp_pure]
  exact hI

omit [Sha256] in
theorem wp_require_bind {f : Unit → Op β} {c : Bool} {message : String} (hI : I w.history)
    (hf : c = true → (f ()).wp machine (OnHistory I) w) :
    (require c message >>= f).wp machine (OnHistory I) w :=
  (Prog.wp_bind _ _ _).mpr (Prog.wp_ensure.mpr ⟨hf, fun _ => hI⟩)

omit [Sha256] in
/-- A write that reports no failure happened; any other may have. -/
theorem save_spec (content : Bytes) (w : World) : (save content).wp machine
    ⟨fun _ w' => w'.history = w.history ++ [.saved content],
      fun _ w' => w'.history = w.history ∨ w'.history = w.history ++ [.saved content],
      fun w' => w'.history = w.history⟩ w := by
  refine wp_call_bind (c := Call.save content) rfl ?_
  rw [World.step]
  cases w.saving w.tick with
  | done => exact Prog.wp_liftExcept.mpr ⟨fun _ _ => rfl, fun _ h => by cases h⟩
  | failedBefore error => exact Prog.wp_liftExcept.mpr ⟨fun _ h => (by cases h), fun _ _ => .inl rfl⟩
  | failedAfter error => exact Prog.wp_liftExcept.mpr ⟨fun _ h => (by cases h), fun _ _ => .inr rfl⟩

omit [Sha256] in
theorem wp_save {content : Bytes} (hI : I w.history) (hsaved : I (w.history ++ [.saved content])) :
    (save content).wp machine (OnHistory I) w := by
  refine Prog.wp_le (save_spec content w) ⟨fun _ w' h => ?_, fun _ w' h => ?_, fun w' h => ?_⟩
  · change I w'.history
    rwa [h]
  · change I w'.history
    rcases h with h | h
    · rwa [h]
    · rwa [h]
  · exact of_history hI h

omit [Sha256] in
/-- A run of `pg_restore` counts, whatever becomes of it. -/
theorem wp_pgRestore_bind {f : Unit → Op β} {dump : Dump} (hI : I w.history)
    (hdone : I (w.history ++ [.pgRestored dump]))
    (hf : ∀ w', w'.history = w.history ++ [.pgRestored dump] →
      (f ()).wp machine (OnHistory I) w') : (pgRestore dump >>= f).wp machine (OnHistory I) w := by
  have hrun : (pgRestore dump).wp machine
      ⟨fun _ w' => w'.history = w.history ++ [.pgRestored dump], fun _ w' => I w'.history,
        fun w' => I w'.history⟩ w :=
    wp_call_bind (c := Call.pgRestore dump) hI
      (Prog.wp_liftExcept.mpr ⟨fun _ _ => rfl, fun _ _ => hdone⟩)
  exact Prog.wp_bind_of hrun (fun _ w' h => hf w' h) (fun _ _ h => h) fun _ h => h

end Quietly

/-! ## 3. The helpers -/

omit [Sha256] in
theorem quiet_ask (q : Ask) : (ask q).CallsIn Quiet :=
  Prog.callsIn_bind (Prog.callsIn_perform.mpr trivial) fun _ => Prog.callsIn_liftExcept _

omit [Sha256] in
theorem quiet_require (c : Bool) (message : String) : (require c message).CallsIn Quiet :=
  Prog.callsIn_ensure _ _

omit [Sha256] in
theorem quiet_utcNow : utcNow.CallsIn Quiet := Prog.callsIn_perform.mpr trivial

theorem quiet_readState : (e.readState backupId).CallsIn Quiet := by
  refine Prog.callsIn_bind (quiet_require _ _) fun _ => ?_
  refine Prog.callsIn_bind (Prog.callsIn_perform.mpr trivial) fun content => ?_
  cases content with
  | none => exact Prog.callsIn_pure _
  | some content => exact Prog.callsIn_liftExcept _

theorem quiet_completed (stage : Stage) : (e.completed backupId stage).CallsIn Quiet :=
  Prog.callsIn_bind quiet_readState fun _ =>
    Prog.callsIn_bind (quiet_require _ _) fun _ => Prog.callsIn_pure _

section Helpers

variable {last : Option Recorded} {I : List Event → Prop}

/-- What the file with the last record is read as. -/
theorem wp_readState_bind {f : Json → Op β} (hw : Refines e.guard backupId w.history last)
    (hI : I w.history) (hf : ∀ w', w'.history = w.history →
      (f (shown e.guard backupId last)).wp machine (OnHistory I) w') :
    (e.readState backupId >>= f).wp machine (OnHistory I) w := by
  rw [RestoreEngine.readState, bind_assoc]
  refine wp_require_bind hI fun _ => ?_
  rw [bind_assoc]
  refine wp_call_bind (c := Call.checkpoint) hI ?_
  rw [World.step, hw.checkpoint]
  cases last with
  | none => exact hf w.next rfl
  | some r =>
    refine (Prog.wp_bind _ _ _).mpr (Prog.wp_liftExcept.mpr ⟨fun state hstate => ?_, fun _ _ => hI⟩)
    rw [loadState_bytes hstate]
    exact hf w.next rfl

/-- Past `_completed` there is no rollback. -/
theorem wp_completed_bind {stage : Stage} {f : Bool → Op β}
    (hw : Refines e.guard backupId w.history last) (hI : I w.history)
    (hf : shownStage last ≠ .rolledBack → ∀ w', w'.history = w.history →
      (f (stage.order ≤ (shownStage last).order)).wp machine (OnHistory I) w') :
    (e.completed backupId stage >>= f).wp machine (OnHistory I) w := by
  rw [RestoreEngine.completed, bind_assoc]
  refine wp_readState_bind hw hI fun w' hw' => ?_
  simp only [stageOf_shown, bind_assoc, pure_bind]
  exact wp_require_bind (of_history hI hw') fun hstage => hf (by simpa using hstage) w' hw'

end Helpers

/-- A trace of the rules so far. -/
def Orderly (g : RestoreGuard) (backupId : String) (history : List Event) : Prop :=
  ∃ last, Refines g backupId history last

theorem Refines.same {last : Option Recorded} {w' : World} (h : Refines g backupId w.history last)
    (hw : w'.history = w.history) : Refines g backupId w'.history last := by rwa [hw]

theorem Refines.orderly {last : Option Recorded} {history : List Event}
    (h : Refines g backupId history last) : Orderly g backupId history := ⟨last, h⟩

/-- The next rule, when it records something. -/
theorem Refines.record {last : Option Recorded} {history : List Event}
    (h : Refines g backupId history last) {content : Bytes} (hcontent : content = r.bytes g backupId)
    (hrule : ∀ trace, Lawful trace last → Lawful (trace ++ [.recorded r]) (some r)) :
    Refines g backupId (history ++ [.saved content]) (some r) := by
  obtain ⟨trace, rfl, hlawful⟩ := h
  exact ⟨trace ++ [.recorded r], by simp [Fact.event, hcontent], hrule trace hlawful⟩

/-- The next rule, when it restores the database. -/
theorem Refines.restored {last : Option Recorded} {history : List Event}
    (h : Refines g backupId history last) (dump : Dump)
    (hrule : ∀ trace, Lawful trace last → Lawful (trace ++ [.pgRestored dump]) last) :
    Refines g backupId (history ++ [.pgRestored dump]) last := by
  obtain ⟨trace, rfl, hlawful⟩ := h
  exact ⟨trace ++ [.pgRestored dump], by simp [Fact.event], hrule trace hlawful⟩

/-- `_advance` to the next stage. -/
theorem wp_advance {stage : Stage} {details : Fields}
    (hw : Refines e.guard backupId w.history (some r)) (hnext : stage.order = r.stage.order + 1)
    (hstage : stage ≠ .rolledBack) (hdetails : PlainFields details) :
    (e.advance backupId stage details).wp machine (OnHistory (Orderly e.guard backupId)) w := by
  refine wp_readState_bind hw hw.orderly fun w₁ hw₁ => ?_
  simp only [stageOf_shown]
  refine wp_require_bind (of_history hw.orderly hw₁) fun _ => ?_
  refine wp_require_bind (of_history hw.orderly hw₁) fun _ => ?_
  have hne : stage ≠ shownStage (some r) := by
    rintro rfl
    exact absurd hnext (Nat.ne_of_lt (Nat.lt_succ_self _))
  rw [if_neg hne]
  refine wp_call_bind (c := Call.utcNow) (of_history hw.orderly hw₁) ?_
  have happend := appendHistory_json e.guard backupId r
    ⟨stage, w₁.clock w₁.tick, details, hdetails⟩
  refine (Prog.wp_bind _ _ _).mpr (Prog.wp_liftExcept.mpr
    ⟨fun state hstate => ?_, fun _ _ => of_history hw.orderly hw₁⟩)
  obtain rfl := Except.ok.inj (happend.symm.trans hstate)
  refine wp_save (of_history hw.orderly hw₁) ⟨some (r.push ⟨stage, w₁.clock w₁.tick, details, hdetails⟩), ?_⟩
  rw [World.step, World.next_history, hw₁]
  exact hw.record rfl fun _ hlawful => hlawful.advance _ hnext hstage

/-- After `declare` there is a record. -/
theorem wp_declare_bind {last : Option Recorded} {f : Json → Op β}
    (hw : Refines e.guard backupId w.history last)
    (hf : ∀ state r w', Refines e.guard backupId w'.history (some r) →
      (f state).wp machine (OnHistory (Orderly e.guard backupId)) w') :
    (e.declare backupId >>= f).wp machine (OnHistory (Orderly e.guard backupId)) w := by
  rw [RestoreEngine.declare, bind_assoc]
  refine wp_require_bind hw.orderly fun _ => ?_
  rw [bind_assoc]
  refine wp_require_bind hw.orderly fun _ => ?_
  rw [bind_assoc]
  have hrecorded : (e.declaration backupId).wp machine
      ⟨fun _ w' => ∃ r, Refines e.guard backupId w'.history (some r),
        fun _ w' => Orderly e.guard backupId w'.history,
        fun w' => Orderly e.guard backupId w'.history⟩ w := by
    refine wp_call_bind (c := Call.checkpoint) hw.orderly ?_
    rw [World.step, hw.checkpoint]
    have hkept : ∀ w' : World, w'.history = w.history → Orderly e.guard backupId w'.history :=
      fun _ h => of_history hw.orderly h
    cases last with
    | none =>
      have hsaved : ∀ (now : Instant) (w' : World),
          w'.history = w.history ++ [.saved (canonicalJson (e.declared backupId now))] →
            Refines e.guard backupId w'.history (some ⟨now, []⟩) := by
        intro now w' h
        rw [h]
        exact hw.record rfl fun _ hlawful => hlawful.declare now
      refine wp_call_bind (c := Call.utcNow) hw.orderly ?_
      refine Prog.wp_bind_of (save_spec _ _) (fun _ w' h => ?_) (fun _ w' h => ?_) ?_
      · rw [Prog.wp_pure]
        exact ⟨_, hsaved _ w' h⟩
      · rcases h with h | h
        · exact hkept w' h
        · exact (hsaved _ w' h).orderly
      · exact fun w' h => hkept w' h
    | some r =>
      exact Prog.wp_le (wp_quiet quiet_readState)
        ⟨fun _ _ h => ⟨r, hw.same h⟩, fun _ w' h => hkept w' h, fun w' h => hkept w' h⟩
  refine Prog.wp_bind_of hrecorded (fun state w' hw' => ?_) (fun _ _ h => h) fun _ h => h
  obtain ⟨r, hr⟩ := hw'
  exact (Prog.wp_bind _ _ _).mpr
    (Prog.wp_liftExcept.mpr ⟨fun answer _ => hf answer r w' hr, fun _ _ => hr.orderly⟩)

end ProductPdfQr.Restore
