/-
# The calls of rollback clocks, one after another

Any number of clocks on one path, each with its own process and its own readings.  The record of
the path is followed through every call, whatever the files and the clocks do: its start stays,
its floor rises, and what it completed with can only be spoilt by an `elapsed` that comes later.
-/
import ProductPdfQr.DeployRollback.Faultless
import ProductPdfQr.Json.Extend

namespace ProductPdfQr.DeployRollback

open Effect Json

/-! ## 1. Records -/

/-- What the record of a clock says. -/
structure ClockRecord where
  operationId : String
  releaseId : String
  started : Instant
  /-- `elapsed_floor_seconds`. -/
  floor : Int
  /-- `rto_passed`, once the rollback was completed. -/
  outcome : Option Bool

namespace ClockRecord

/-- The record as it is written. -/
def json (r : ClockRecord) : Json := dict
  [("schema_version", .int 1), ("operation_id", .str r.operationId),
    ("release_id", .str r.releaseId), ("started_at", .str r.started.formatTime),
    ("elapsed_floor_seconds", .int r.floor), ("completed", .bool r.outcome.isSome),
    ("rto_passed", r.outcome.elim .null .bool)]

variable (r : ClockRecord)

theorem json_eq : r.json = .obj
    [("completed", .bool r.outcome.isSome), ("elapsed_floor_seconds", .int r.floor),
      ("operation_id", .str r.operationId), ("release_id", .str r.releaseId),
      ("rto_passed", r.outcome.elim .null .bool), ("schema_version", .int 1),
      ("started_at", .str r.started.formatTime)] := by
  simp +decide only [json, dict, List.foldl_cons, List.foldl_nil, insertField, if_false, if_true]

theorem plain_json : Plain r.json := by
  refine plain_dict ?_
  cases h : r.outcome <;> simp [PlainFields, Plain]

theorem json_get (k : String) : r.json.get k = (lookupField k
    [("completed", .bool r.outcome.isSome), ("elapsed_floor_seconds", .int r.floor),
      ("operation_id", .str r.operationId), ("release_id", .str r.releaseId),
      ("rto_passed", r.outcome.elim .null .bool), ("schema_version", .int 1),
      ("started_at", .str r.started.formatTime)]).getD .null := by
  rw [json_eq]
  rfl

@[simp] theorem json_operationId : r.json.get "operation_id" = .str r.operationId := by
  simp [json_get, lookupField]

@[simp] theorem json_releaseId : r.json.get "release_id" = .str r.releaseId := by
  simp [json_get, lookupField]

@[simp] theorem json_floor : r.json.get "elapsed_floor_seconds" = .int r.floor := by
  simp [json_get, lookupField]

@[simp] theorem json_completed : r.json.get "completed" = .bool r.outcome.isSome := by
  simp [json_get, lookupField]

@[simp] theorem json_passed : r.json.get "rto_passed" = r.outcome.elim .null .bool := by
  simp [json_get, lookupField]

@[simp] theorem json_started : r.json.get "started_at" = .str r.started.formatTime := by
  simp [json_get, lookupField]

theorem json_set_floor (floor : Int) :
    r.json.set "elapsed_floor_seconds" (.int floor) = { r with floor := floor }.json := by
  rw [json_eq, json_eq]
  simp +decide only [Json.set, insertField, if_false, if_true]

theorem completed_json (floor : Int) : RollbackClock.completed r.json floor =
    { r with floor := floor, outcome := some (decide (floor ≤ rtoLimitSeconds)) }.json := by
  rw [RollbackClock.completed, json_set_floor, json_eq, json_eq]
  simp +decide only [Json.set, insertField, if_false, if_true]
  rfl

theorem parseTime_json (field : String) :
    parseTime (r.json.get "started_at") field = .ok r.started := by
  simp [parseTime, str?]

theorem json_injective {r r' : ClockRecord} (h : r.json = r'.json) : r = r' := by
  rw [json_eq, json_eq] at h
  simp only [Json.obj.injEq, List.cons.injEq, Prod.mk.injEq, true_and, and_true, Json.bool.injEq,
    Json.int.injEq, Json.str.injEq] at h
  obtain ⟨hdone, hfloor, hoperation, hrelease, hpassed, hstarted⟩ := h
  have houtcome : r.outcome = r'.outcome := by
    cases hr : r.outcome <;> cases hr' : r'.outcome <;> simp_all
  have hinstant := Instant.formatTime_injective hstarted
  cases r
  cases r'
  simp_all

end ClockRecord

namespace RollbackClock

/-- The record is the clock's own. -/
structure Accepts (c : RollbackClock) (r : ClockRecord) : Prop where
  operationId : c.operationId = r.operationId
  releaseId : c.releaseId = r.releaseId
  floor : 0 ≤ r.floor

/-- The record that a declaration at `now` creates. -/
def fresh (c : RollbackClock) (now : Instant) : ClockRecord :=
  ⟨c.operationId, c.releaseId, now, 0, none⟩

theorem declared_eq (c : RollbackClock) (now : Instant) : c.declared now = (c.fresh now).json := rfl

theorem accepts_of_checkRecord {c : RollbackClock} {r : ClockRecord}
    (h : c.checkRecord r.json = .ok ()) : c.Accepts r := by
  unfold checkRecord at h
  obtain ⟨u, hu, -⟩ := bind_ok h
  rw [check_ok] at hu
  simp only [Bool.and_eq_true] at hu
  obtain ⟨⟨⟨⟨-, hoperation⟩, hrelease⟩, hfloor⟩, -⟩ := hu
  rw [ClockRecord.json_operationId, pyEq_str] at hoperation
  rw [ClockRecord.json_releaseId, pyEq_str] at hrelease
  rw [ClockRecord.json_floor] at hfloor
  exact ⟨(Json.str.inj hoperation).symm, (Json.str.inj hrelease).symm, of_decide_eq_true hfloor⟩

end RollbackClock

/-! ## 2. Looking at the record -/

/-- `k` calls later. -/
def World.later (w : World) (k : Nat) : World := { w with tick := w.tick + k }

theorem World.later_later (w : World) (k m : Nat) : (w.later k).later m = w.later (k + m) := by
  rw [later, later, later, Nat.add_assoc]

/-- The end of a run of `k` looks: `F` holds of what it returned. -/
def steady {α : Type} (w : World) (k : Nat) (F : α → Prop) : Post World Exn α :=
  ⟨fun a w' => w' = w.later k ∧ F a, fun _ w' => w'.files = w.files, fun w' => w'.files = w.files⟩

theorem steady_bind {α β : Type} {w : World} {k m : Nat} {F : α → Prop} {G : β → Prop} {p : Op α}
    {f : α → Op β} (hp : p.wp machine (steady w k F) w)
    (hf : ∀ a, F a → (f a).wp machine (steady (w.later k) m G) (w.later k)) :
    (p >>= f).wp machine (steady w (k + m) G) w := by
  refine Prog.wp_bind_of hp (fun a w' h => ?_) (fun _ _ h => h) (fun _ h => h)
  obtain ⟨rfl, ha⟩ := h
  exact Prog.wp_le (hf a ha) ⟨fun _ _ h => ⟨h.1.trans (w.later_later k m), h.2⟩,
    fun _ _ h => h, fun _ h => h⟩

theorem steady_pure {α : Type} {w : World} {F : α → Prop} {a : α} (h : F a) :
    (pure a : Op α).wp machine (steady w 0 F) w :=
  (Prog.wp_pure a).mpr ⟨rfl, h⟩

theorem steady_liftExcept {α : Type} (w : World) (x : Except Exn α) :
    (Prog.liftExcept x : Op α).wp machine (steady w 0 fun a => x = .ok a) w :=
  Prog.wp_liftExcept.mpr ⟨fun _ ha => ⟨rfl, ha⟩, fun _ _ => rfl⟩

/-- A check in between takes no time. -/
theorem steady_check {α β : Type} {w : World} {m : Nat} {G : β → Prop} {x : Except Exn α}
    {f : α → Op β} (hf : ∀ a, x = .ok a → (f a).wp machine (steady w m G) w) :
    ((Prog.liftExcept x : Op α) >>= f).wp machine (steady w m G) w := by
  rw [Prog.wp_bind]
  exact Prog.wp_liftExcept.mpr ⟨fun a ha => hf a ha, fun _ _ => rfl⟩

theorem steady_look (w : World) (path : String) :
    (look path).wp machine (steady w 1 fun r => ∀ node, r = .ok node → node = w.files path) w := by
  have hanswer : ∀ node, (World.step (.look path) w).1 = .ok node → node = w.files path := by
    intro node hnode
    simp only [World.step] at hnode
    split at hnode <;> simp_all
  exact (Prog.wp_perform (o := Call.look path)).mpr ⟨rfl, rfl, hanswer⟩

/-- The record of the path. -/
def Recorded (path : String) (r : ClockRecord) (w : World) : Prop :=
  w.files path = some (.file false (canonicalJson r.json))

theorem Recorded.later {path : String} {r : ClockRecord} {w : World} (h : Recorded path r w) (k : Nat) :
    Recorded path r (w.later k) := h

theorem Recorded.unique {path : String} {r r' : ClockRecord} {w : World} (h : Recorded path r w)
    (h' : Recorded path r' w) : r = r' := by
  have heq : canonicalJson r.json = canonicalJson r'.json := by
    have hnode := h.symm.trans h'
    simpa using hnode
  exact ClockRecord.json_injective (canonicalJson_injective r.plain_json r'.plain_json heq)

section Looks

variable [Sha256] {c : RollbackClock} {r : ClockRecord} {w : World}

theorem steady_readSealed (w : World) (path sidecar missing mismatch : String) :
    (readSealed path sidecar missing mismatch).wp machine (steady w 2 fun _ => True) w := by
  refine steady_bind (m := 1) (steady_look w path) fun node _ => ?_
  refine steady_check fun value _ => ?_
  refine steady_bind (m := 0) (steady_look _ sidecar) fun node _ => ?_
  exact steady_check fun _ _ => steady_pure trivial

/-- A clock reads the record, if it is its own. -/
theorem steady_read (h : Recorded c.path r w) :
    c.read.wp machine (steady w 2 fun state => state = r.json ∧ c.Accepts r) w := by
  have hread : (readSealed c.path c.integrityPath "rollback RTO integrity seal is missing"
      "rollback RTO integrity seal mismatch").wp machine (steady w 2 fun state => state = r.json) w := by
    refine Prog.wp_le (Prog.wp_and _ _ (steady_readSealed w _ _ _ _) (wp_readSealed w _ _ _ _)) ?_
    refine ⟨?_, fun _ _ h => h.1, fun _ h => h.1⟩
    rintro state w' ⟨⟨hw', -⟩, -, content, hfile, hload, -⟩
    have hcontent : canonicalJson r.json = content := by simpa using h.symm.trans hfile
    rw [← hcontent, loads_canonicalJson r.plain_json] at hload
    exact ⟨hw', (Except.ok.inj hload).symm⟩
  refine steady_bind (m := 0) hread fun state hstate => ?_
  obtain rfl := hstate
  refine steady_check fun _ hcheck => steady_pure ?_
  exact ⟨rfl, RollbackClock.accepts_of_checkRecord hcheck⟩

omit [Sha256] in
theorem steady_pathExists (w : World) (path : String) : (pathExists path).wp machine
    (steady w 1 fun found => found = (w.files path).any Node.present) w := by
  have hlook : (orRaise (look path)).wp machine (steady w 1 fun node => node = w.files path) w :=
    steady_bind (m := 0) (steady_look w path) fun answer hanswer =>
      Prog.wp_le (steady_liftExcept _ answer)
        ⟨fun node _ h => ⟨h.1, hanswer node h.2⟩, fun _ _ h => h, fun _ h => h⟩
  exact steady_bind (m := 0) hlook fun node hnode => steady_pure (by rw [hnode])

/-- So does its declaration. -/
theorem steady_declare (h : Recorded c.path r w) :
    c.declare.wp machine (steady w 3 fun state => state = r.json ∧ c.Accepts r) w := by
  refine steady_bind (k := 1) (m := 2) (steady_pathExists w c.path) fun found hfound => ?_
  rw [h] at hfound
  obtain rfl : found = true := hfound
  exact steady_read (h.later 1)

end Looks

/-! ## 3. What a call makes of the record -/

/-- One call: the floor may rise, and a running rollback may be completed. -/
inductive ClockRecord.Moves (r : ClockRecord) : ClockRecord → Prop
  | rise {floor : Int} : r.floor ≤ floor → r.Moves { r with floor := floor }
  | finish {floor : Int} : r.floor ≤ floor → r.outcome = none → r.Moves
      { r with floor := floor, outcome := some (decide (floor ≤ rtoLimitSeconds)) }

namespace ClockRecord.Moves

variable {r r' : ClockRecord}

theorem refl (r : ClockRecord) : r.Moves r := rise le_rfl

theorem started (h : r.Moves r') : r'.started = r.started := by
  cases h <;> rfl

theorem floor (h : r.Moves r') : r.floor ≤ r'.floor := by
  cases h <;> assumption

/-- A completion tells whether the limit was kept. -/
theorem fair (h : r.Moves r') (hrunning : r.outcome = none) {passed : Bool}
    (hpassed : r'.outcome = some passed) : passed = decide (r'.floor ≤ rtoLimitSeconds) := by
  cases h with
  | rise _ =>
    rw [hrunning] at hpassed
    cases hpassed
  | finish _ _ => exact (Option.some.inj hpassed).symm

end ClockRecord.Moves

namespace RollbackClock

/-- The seconds that the two clocks show to a measurement that begins at `tick`. -/
def readings (c : RollbackClock) (w : World) (tick : Nat) (r : ClockRecord) : Int :=
  max ((w.wall tick).secondsSince r.started) (monotonicSeconds (w.monotonic (tick + 1)) c.processAnchor)

section Calls

variable [Sha256] (c : RollbackClock) {r : ClockRecord} {w : World}

/-- `elapsed`, after the declaration. -/
def measure (state : Json) : Op Int := do
  let wall ← Prog.perform Call.wallNow
  let started ← .liftExcept (parseTime (state.get "started_at") "rollback.started_at")
  let monotonic ← Prog.perform Call.monotonicNow
  let elapsed := c.elapsedSeconds state started wall monotonic
  if (state.get "elapsed_floor_seconds").pyEq (.int elapsed) then return elapsed
  else do
    writeSealed c.path c.integrityPath (state.set "elapsed_floor_seconds" (.int elapsed))
    return elapsed

theorem elapsed_eq : c.elapsed = c.declare >>= c.measure := rfl

/-- The measurement at `tick` leaves the floor `elapsed`. -/
structure Raises (w : World) (tick : Nat) (r : ClockRecord) (elapsed : Int) : Prop where
  floor : r.floor ≤ elapsed
  still : 0 ≤ r.floor → c.readings w tick r ≤ r.floor → elapsed = r.floor

omit [Sha256] in
theorem elapsedSeconds_eq (w : World) (tick : Nat) (r : ClockRecord) :
    c.elapsedSeconds r.json r.started (w.wall tick) (w.monotonic (tick + 1)) =
      max (max r.floor (c.readings w tick r)) 0 := by
  rw [elapsedSeconds, ClockRecord.json_floor, readings]
  exact congrArg (max · 0) (max_assoc _ _ _)

omit [Sha256] in
theorem raises_elapsedSeconds (w : World) (tick : Nat) (r : ClockRecord) :
    c.Raises w tick r (c.elapsedSeconds r.json r.started (w.wall tick) (w.monotonic (tick + 1))) := by
  rw [elapsedSeconds_eq]
  exact ⟨(le_max_left _ _).trans (le_max_left _ _), fun hfloor hreadings => by
    rw [max_eq_left hreadings, max_eq_left hfloor]⟩

omit [Sha256] in
theorem wp_wallNow {β : Type} {Q : Post World Exn β} {f : Instant → Op β} (hcrash : Q.crashed w)
    (h : (f (w.wall w.tick)).wp machine Q w.next) :
    ((Prog.perform Call.wallNow : Op Instant) >>= f).wp machine Q w := by
  rw [Prog.wp_bind]
  exact (Prog.wp_perform (o := Call.wallNow)).mpr ⟨hcrash, h⟩

omit [Sha256] in
theorem wp_monotonicNow {β : Type} {Q : Post World Exn β} {f : Int → Op β} (hcrash : Q.crashed w)
    (h : (f (w.monotonic w.tick)).wp machine Q w.next) :
    ((Prog.perform Call.monotonicNow : Op Int) >>= f).wp machine Q w := by
  rw [Prog.wp_bind]
  exact (Prog.wp_perform (o := Call.monotonicNow)).mpr ⟨hcrash, h⟩

/-- The end of a measurement at `tick`. -/
def measured (w : World) (tick : Nat) (r : ClockRecord) : Post World Exn Int :=
  ⟨fun elapsed w' => Recorded c.path { r with floor := elapsed } w' ∧ c.Raises w tick r elapsed,
    fun _ w' => ∃ elapsed, Recorded c.path { r with floor := elapsed } w' ∧ c.Raises w tick r elapsed,
    fun _ => True⟩

theorem wp_measure (h : Recorded c.path r w) :
    (c.measure r.json).wp machine (c.measured w w.tick r) w := by
  have hne : c.path ≠ c.integrityPath := (Text.append_ne_self (by decide)).symm
  have hrefl : c.Raises w w.tick r r.floor := ⟨le_rfl, fun _ _ => rfl⟩
  have hraises := c.raises_elapsedSeconds w w.tick r
  refine wp_wallNow trivial ?_
  rw [r.parseTime_json]
  change Prog.wp machine _ (Prog.perform Call.monotonicNow >>= _) w.next
  refine wp_monotonicNow trivial ?_
  dsimp only [World.next_wall, World.next_monotonic, World.next_tick]
  generalize c.elapsedSeconds r.json r.started (w.wall w.tick) (w.monotonic (w.tick + 1)) =
    elapsed at hraises ⊢
  have hrecord : Recorded c.path r w.next.next := h
  cases hsame : (r.json.get "elapsed_floor_seconds").pyEq (.int elapsed) with
  | true =>
    have hfloor : r.floor = elapsed := by
      simpa [pyEq, Json.norm] using hsame
    rw [if_pos rfl, Prog.wp_pure]
    exact ⟨hfloor ▸ hrecord, hraises⟩
  | false =>
    rw [if_neg Bool.false_ne_true, r.json_set_floor]
    refine Prog.wp_bind_of (wp_writeSealed hne _ w.next.next) (fun _ w' hw' => ?_)
      (fun _ w' hw' => ?_) fun _ _ => trivial
    · exact (Prog.wp_pure elapsed).mpr ⟨hw', hraises⟩
    · rcases hw' with hw' | hw'
      · exact ⟨r.floor, hw'.trans hrecord, hrefl⟩
      · exact ⟨elapsed, hw', hraises⟩

/-- No record yet, or one that was just declared. -/
def Unstarted (w : World) : Prop :=
  w.files c.path = none ∨ ∃ now, Recorded c.path (c.fresh now) w

theorem wp_createSealed (h : w.files c.path = none) (now : Instant) :
    (createSealed c.path c.integrityPath (c.fresh now).json).wp machine
      ⟨fun _ w' => Recorded c.path (c.fresh now) w', fun _ w' => c.Unstarted w', fun _ => True⟩ w := by
  have hne : c.path ≠ c.integrityPath := (Text.append_ne_self (by decide)).symm
  refine Prog.wp_bind_of (Prog.wp_le (wp_atomicCreate c.path _ w) (wrote_replaced ..))
    (fun _ w₁ hw₁ => ?_) (fun _ w₁ hw₁ => ?_) fun _ _ => trivial
  · refine Prog.wp_tryCatch_of (Prog.wp_le (wp_atomicCreate c.integrityPath _ w₁)
      (wrote_aside w₁ hne _ _ hw₁)) (fun _ w₂ hw₂ => hw₂) (fun e w₂ hw₂ => ?_) fun _ _ => trivial
    have hrecord : Recorded c.path (c.fresh now) w₂ := hw₂.elim (·.trans hw₁) id
    refine Prog.wp_bind_of (Prog.wp_le (wp_unlink c.path w₂) (wrote_replaced ..))
      (fun _ w₃ hw₃ => ?_) (fun _ w₃ hw₃ => ?_) fun _ _ => trivial
    · rw [Prog.wp_throw]
      exact .inl hw₃
    · exact hw₃.elim (fun hw₃ => .inr ⟨now, hw₃.trans hrecord⟩) .inl
  · exact hw₁.elim (fun hw₁ => .inl (hw₁.trans h)) fun hw₁ => .inr ⟨now, hw₁⟩

theorem wp_declare (h : w.files c.path = none) : c.declare.wp machine
    ⟨fun state w' => ∃ now, state = (c.fresh now).json ∧ Recorded c.path (c.fresh now) w',
      fun _ w' => c.Unstarted w', fun _ => True⟩ w := by
  refine Prog.wp_bind_of (wp_pathExists w c.path) (fun found w₁ hw₁ => ?_)
    (fun _ w₁ hw₁ => .inl ((congrFun hw₁.files c.path).trans h)) fun _ _ => trivial
  obtain ⟨hw₁, hfound⟩ := hw₁
  rw [h] at hfound
  obtain rfl : found = false := hfound
  refine wp_wallNow trivial ?_
  have hnone : w₁.next.files c.path = none := (congrFun hw₁.files c.path).trans h
  refine Prog.wp_bind_of (c.wp_createSealed hnone _) (fun _ w₂ hw₂ => ?_) (fun _ _ h => h)
    fun _ _ => trivial
  exact (Prog.wp_pure _).mpr ⟨_, c.declared_eq _, hw₂⟩

theorem wp_elapsed_absent (h : w.files c.path = none) : c.elapsed.wp machine
    ⟨fun _ w' => ∃ now floor, Recorded c.path { c.fresh now with floor := floor } w',
      fun _ w' => w'.files c.path = none ∨
        ∃ now floor, Recorded c.path { c.fresh now with floor := floor } w', fun _ => True⟩ w := by
  rw [elapsed_eq]
  refine Prog.wp_bind_of (c.wp_declare h) (fun state w₁ hw₁ => ?_) (fun _ w₁ hw₁ => ?_)
    fun _ _ => trivial
  · obtain ⟨now, rfl, hrecord⟩ := hw₁
    refine Prog.wp_le (c.wp_measure hrecord) ⟨fun e _ h => ⟨now, e, h.1⟩, ?_, fun _ h => h⟩
    exact fun _ _ h => .inr ⟨now, _, h.choose_spec.1⟩
  · exact hw₁.imp id fun ⟨now, hrecord⟩ => ⟨now, 0, hrecord⟩

/-- The floor that `elapsed` leaves: nothing lower, and nothing new where the clocks of the
record's own clock show no more. -/
structure Leaves (w : World) (r : ClockRecord) (elapsed : Int) : Prop where
  floor : r.floor ≤ elapsed
  still : (c.Accepts r → c.readings w (w.tick + 3) r ≤ r.floor) → elapsed = r.floor

theorem wp_elapsed (h : Recorded c.path r w) : c.elapsed.wp machine
    ⟨fun elapsed w' => Recorded c.path { r with floor := elapsed } w' ∧ c.Leaves w r elapsed,
      fun _ w' => ∃ elapsed, Recorded c.path { r with floor := elapsed } w' ∧ c.Leaves w r elapsed,
      fun _ => True⟩ w := by
  rw [elapsed_eq]
  refine Prog.wp_bind_of (steady_declare h) (fun state w₁ hw₁ => ?_)
    (fun _ w₁ hw₁ => ⟨r.floor, (congrFun hw₁ c.path).trans h, le_rfl, fun _ => rfl⟩) fun _ _ => trivial
  obtain ⟨rfl, rfl, haccepts⟩ := hw₁
  have hleaves : ∀ {elapsed}, c.Raises (w.later 3) (w.later 3).tick r elapsed → c.Leaves w r elapsed :=
    fun hraises => ⟨hraises.floor, fun hreadings =>
      hraises.still haccepts.floor (hreadings haccepts)⟩
  refine Prog.wp_le (c.wp_measure (h.later 3)) ⟨fun _ _ h => ⟨h.1, hleaves h.2⟩, ?_, fun _ h => h⟩
  rintro - w' ⟨elapsed, hrecord, hraises⟩
  exact ⟨elapsed, hrecord, hleaves hraises⟩

/-- The end of a completion: what is reported is what the record says. -/
def finished (r : ClockRecord) : Post World Exn (Int × Bool) :=
  ⟨fun report w' => ∃ r', Recorded c.path r' w' ∧ r.Moves r' ∧ (r.outcome ≠ none → r' = r) ∧
      report.1 = r'.floor ∧ r'.outcome = some report.2,
    fun _ w' => ∃ r', Recorded c.path r' w' ∧ r.Moves r' ∧ (r.outcome ≠ none → r' = r), fun _ => True⟩

theorem wp_recordCompletion {floor elapsed : Int} (h : Recorded c.path { r with floor := floor } w)
    (hrise : r.floor ≤ floor) (hmore : floor ≤ elapsed) (hrunning : r.outcome = none) :
    (c.recordCompletion elapsed).wp machine (c.finished r) w := by
  have hfloor : r.floor ≤ elapsed := hrise.trans hmore
  have hne : c.path ≠ c.integrityPath := (Text.append_ne_self (by decide)).symm
  have halert : c.path ≠ c.alertPath := (Text.append_ne_self (by decide)).symm
  let final : ClockRecord :=
    { r with floor := elapsed, outcome := some (decide (elapsed ≤ rtoLimitSeconds)) }
  have hkept : ∀ w', Recorded c.path { r with floor := floor } w' →
      ∃ r', Recorded c.path r' w' ∧ r.Moves r' ∧ (r.outcome ≠ none → r' = r) :=
    fun w' h => ⟨_, h, .rise hrise, fun hne => absurd hrunning hne⟩
  have hdone : ∀ w', Recorded c.path final w' →
      ∃ r', Recorded c.path r' w' ∧ r.Moves r' ∧ (r.outcome ≠ none → r' = r) :=
    fun w' h => ⟨_, h, .finish hfloor hrunning, fun hne => absurd hrunning hne⟩
  refine Prog.wp_bind_of (steady_read h) (fun state w₁ hw₁ => ?_)
    (fun _ w₁ hw₁ => hkept _ ((congrFun hw₁ c.path).trans h)) fun _ _ => trivial
  obtain ⟨rfl, rfl, -⟩ := hw₁
  rw [ClockRecord.completed_json]
  refine Prog.wp_bind_of (wp_writeSealed hne _ _) (fun _ w₂ hw₂ => ?_) (fun _ w₂ hw₂ => ?_)
    fun _ _ => trivial
  · have hreport : ∀ w', Recorded c.path final w' →
        (c.finished r).returned (elapsed, decide (elapsed ≤ rtoLimitSeconds)) w' :=
      fun w' h => ⟨_, h, .finish hfloor hrunning, fun hne => absurd hrunning hne, rfl, rfl⟩
    by_cases hlimit : elapsed ≤ rtoLimitSeconds
    · rw [if_pos hlimit, Prog.wp_pure]
      simpa [hlimit] using hreport w₂ hw₂
    · rw [if_neg hlimit]
      refine Prog.wp_bind_of (Prog.wp_le (wp_atomicWrite c.alertPath _ w₂)
        (wrote_aside w₂ halert _ _ hw₂)) (fun _ w₃ hw₃ => ?_) (fun _ w₃ hw₃ => ?_) fun _ _ => trivial
      · rw [Prog.wp_pure]
        simpa [hlimit] using hreport w₃ hw₃
      · exact hdone w₃ (hw₃.elim (·.trans hw₂) id)
  · exact hw₂.elim (fun hw₂ => hkept _ (hw₂.trans h)) (hdone w₂)

/-- The elapsed time that an explicit readiness time gives. -/
theorem readinessElapsed_some (r : ClockRecord) (readyAt : Instant) :
    c.readinessElapsed r.json (some readyAt) =
      Prog.ensure (0 ≤ readyAt.secondsSince r.started)
        (.rollbackSafety "external readiness predates rollback declaration") >>= fun _ =>
          pure (max r.floor (readyAt.secondsSince r.started)) := by
  rw [readinessElapsed, r.parseTime_json, ClockRecord.json_floor]
  rfl

theorem wp_complete (h : Recorded c.path r w) (readyAt : Option Instant) :
    (c.completeAfterExternalReadiness readyAt).wp machine (c.finished r) w := by
  refine Prog.wp_bind_of (steady_read h) (fun state w₁ hw₁ => ?_)
    (fun _ w₁ hw₁ => ⟨r, (congrFun hw₁ c.path).trans h, .refl r, fun _ => rfl⟩) fun _ _ => trivial
  obtain ⟨rfl, rfl, -⟩ := hw₁
  cases houtcome : r.outcome with
  | some passed =>
    have hcompleted : (r.json.get "completed").truthy = true := by simp [houtcome, truthy]
    rw [if_pos hcompleted, Prog.wp_pure]
    exact ⟨r, h, .refl r, fun _ => rfl, by simp [intOf, int?], by simp [houtcome, truthy]⟩
  | none =>
    have hcompleted : ¬(r.json.get "completed").truthy = true := by simp [houtcome, truthy]
    have hraised : ∀ {floor : Int} {w' : World}, r.floor ≤ floor →
        Recorded c.path { r with floor := floor } w' →
          ∃ r', Recorded c.path r' w' ∧ r.Moves r' ∧ (r.outcome ≠ none → r' = r) :=
      fun hfloor h => ⟨_, h, .rise hfloor, fun hne => absurd houtcome hne⟩
    rw [if_neg hcompleted]
    cases readyAt with
    | none =>
      refine Prog.wp_bind_of (c.wp_elapsed (h.later 2))
        (fun elapsed w₂ hw₂ => c.wp_recordCompletion hw₂.1 hw₂.2.floor le_rfl houtcome)
        (fun _ w₂ hw₂ => ?_) fun _ _ => trivial
      obtain ⟨elapsed, hrecord, hleaves⟩ := hw₂
      exact hraised hleaves.floor hrecord
    | some readyAt =>
      rw [readinessElapsed_some, bind_assoc, Prog.wp_bind]
      refine Prog.wp_ensure.mpr ⟨fun _ => ?_, fun _ => hraised le_rfl h⟩
      rw [pure_bind]
      exact c.wp_recordCompletion (h.later 2) le_rfl (le_max_left _ _) houtcome

end Calls

end RollbackClock

/-! ## 4. Runs -/

/-- The calls of a clock. -/
inductive ClockCall
  | declare
  | elapsed
  | complete (readyAt : Option Instant)

section Runs

variable [Sha256]

/-- What the call does, and what it reports if it is a completion. -/
def RollbackClock.perform (c : RollbackClock) : ClockCall → Op (Option (Int × Bool))
  | .declare => do
    let _ ← c.declare
    return none
  | .elapsed => do
    let _ ← c.elapsed
    return none
  | .complete readyAt => do
    let report ← c.completeAfterExternalReadiness readyAt
    return some report

/-- One call of a run. -/
structure ClockStep where
  clock : RollbackClock
  call : ClockCall
  before : World
  answer : Except Exn (Option (Int × Bool))
  after : World

/-- Calls on `path`, one after another, of whatever clocks. -/
inductive ClockRun (path : String) (start : World) : List ClockStep → World → Prop
  | start : ClockRun path start [] start
  | call {steps : List ClockStep} {w w' : World} {c : RollbackClock} {call : ClockCall}
      {answer : Except Exn (Option (Int × Bool))} : ClockRun path start steps w → c.path = path →
        (c.perform call).run machine w = (answer, w') →
          ClockRun path start (steps ++ [⟨c, call, w, answer, w'⟩]) w'

/-- An `elapsed` of the record's own clock comes after the completion, and the clocks show no
more than was recorded. -/
def ClockStep.NoLateRise (s : ClockStep) : Prop :=
  s.call = .elapsed → ∀ r, Recorded s.clock.path r s.before → r.outcome ≠ none →
    s.clock.Accepts r → s.clock.readings s.before (s.before.tick + 3) r ≤ r.floor

/-- What one call may do to the record. -/
structure StepsTo (s : ClockStep) (r r' : ClockRecord) : Prop where
  recorded : Recorded s.clock.path r' s.after
  moves : r.Moves r'
  settled : s.NoLateRise → r.outcome ≠ none → r' = r
  reported : ∀ report, s.answer = .ok (some report) → report.1 = r'.floor ∧ r'.outcome = some report.2

/-- The end of a call on a record. -/
def stepped (c : RollbackClock) (call : ClockCall) (w : World) (r : ClockRecord) :
    Post World Exn (Option (Int × Bool)) :=
  ⟨fun report w' => ∃ r', StepsTo ⟨c, call, w, .ok report, w'⟩ r r',
    fun e w' => ∃ r', StepsTo ⟨c, call, w, .error e, w'⟩ r r', fun _ => True⟩

omit [Sha256] in
theorem stepsTo_same {c : RollbackClock} {call : ClockCall} {w w' : World} {r : ClockRecord}
    {answer : Except Exn (Option (Int × Bool))} (h : Recorded c.path r w)
    (hfiles : w'.files = w.files) (hanswer : ∀ report, answer ≠ .ok (some report)) :
    ∃ r', StepsTo ⟨c, call, w, answer, w'⟩ r r' :=
  ⟨r, (congrFun hfiles c.path).trans h, .refl r, fun _ _ => rfl,
    fun report hreport => absurd hreport (hanswer report)⟩

omit [Sha256] in
theorem stepsTo_raised {c : RollbackClock} {w w' : World} {r : ClockRecord} {elapsed : Int}
    {answer : Except Exn (Option (Int × Bool))} (h : Recorded c.path r w)
    (hrecord : Recorded c.path { r with floor := elapsed } w') (hleaves : c.Leaves w r elapsed)
    (hanswer : ∀ report, answer ≠ .ok (some report)) :
    ∃ r', StepsTo ⟨c, .elapsed, w, answer, w'⟩ r r' := by
  refine ⟨_, hrecord, .rise hleaves.floor, fun hlate hdone => ?_, ?_⟩
  · have hfloor : elapsed = r.floor := hleaves.still (hlate rfl r h hdone)
    rw [hfloor]
  · exact fun report hreport => absurd hreport (hanswer report)

theorem wp_perform (c : RollbackClock) (call : ClockCall) {w : World} {r : ClockRecord}
    (h : Recorded c.path r w) : (c.perform call).wp machine (stepped c call w r) w := by
  cases call with
  | declare =>
    refine Prog.wp_bind_of (steady_declare h) (fun _ w₁ hw₁ => ?_)
      (fun _ w₁ hw₁ => stepsTo_same h hw₁ (by simp)) fun _ _ => trivial
    obtain ⟨rfl, -⟩ := hw₁
    exact (Prog.wp_pure _).mpr (stepsTo_same h rfl (by simp))
  | elapsed =>
    refine Prog.wp_bind_of (c.wp_elapsed h) (fun elapsed w₁ hw₁ => ?_) (fun _ w₁ hw₁ => ?_)
      fun _ _ => trivial
    · exact (Prog.wp_pure _).mpr (stepsTo_raised h hw₁.1 hw₁.2 (by simp))
    · obtain ⟨elapsed, hrecord, hleaves⟩ := hw₁
      exact stepsTo_raised h hrecord hleaves (by simp)
  | complete readyAt =>
    refine Prog.wp_bind_of (c.wp_complete h readyAt) (fun report w₁ hw₁ => ?_) (fun _ w₁ hw₁ => ?_)
      fun _ _ => trivial
    · obtain ⟨r', hrecord, hmoves, hsettled, hreport⟩ := hw₁
      refine (Prog.wp_pure _).mpr ⟨r', hrecord, hmoves, fun _ => hsettled, ?_⟩
      rintro report' ⟨⟩
      exact hreport
    · obtain ⟨r', hrecord, hmoves, hsettled⟩ := hw₁
      exact ⟨r', hrecord, hmoves, fun _ => hsettled, by simp⟩

/-- No record yet, or one of a running rollback. -/
def Begun (path : String) (w : World) : Prop :=
  w.files path = none ∨ ∃ r, Recorded path r w ∧ r.outcome = none

theorem wp_perform_absent (c : RollbackClock) (call : ClockCall) {w : World}
    (h : w.files c.path = none) : (c.perform call).wp machine
      ⟨fun report w' => report = none ∧ Begun c.path w', fun _ w' => Begun c.path w', fun _ => True⟩ w := by
  cases call with
  | declare =>
    refine Prog.wp_bind_of (c.wp_declare h) (fun _ w₁ hw₁ => ?_) (fun _ w₁ hw₁ => ?_) fun _ _ => trivial
    · obtain ⟨now, -, hrecord⟩ := hw₁
      exact (Prog.wp_pure _).mpr ⟨rfl, .inr ⟨_, hrecord, rfl⟩⟩
    · exact hw₁.imp id fun ⟨now, hrecord⟩ => ⟨_, hrecord, rfl⟩
  | elapsed =>
    refine Prog.wp_bind_of (c.wp_elapsed_absent h) (fun _ w₁ hw₁ => ?_) (fun _ w₁ hw₁ => ?_)
      fun _ _ => trivial
    · obtain ⟨now, floor, hrecord⟩ := hw₁
      exact (Prog.wp_pure _).mpr ⟨rfl, .inr ⟨_, hrecord, rfl⟩⟩
    · exact hw₁.imp id fun ⟨now, floor, hrecord⟩ => ⟨_, hrecord, rfl⟩
  | complete readyAt =>
    have hread : c.read.wp machine ⟨fun _ _ => False, fun _ w' => w'.files = w.files, fun _ => True⟩ w := by
      refine Prog.wp_bind_of (wp_readSealed w _ _ _ _) (fun _ w₁ hw₁ => ?_) (fun _ _ h => h.files)
        fun _ _ => trivial
      obtain ⟨-, content, hfile, -⟩ := hw₁
      rw [h] at hfile
      cases hfile
    refine Prog.wp_bind_of (P := ⟨fun _ _ => False, fun _ w' => w'.files = w.files, fun _ => True⟩)
      (Prog.wp_bind_of hread (fun _ _ h => h.elim) (fun _ _ h => h) fun _ _ => trivial)
      (fun _ _ h => h.elim) (fun _ w₁ hw₁ => .inl ((congrFun hw₁ c.path).trans h)) fun _ _ => trivial

/-- The start of a record stays, and its floor rises. -/
def Kept (path : String) (steps : List ClockStep) (w : World) : Prop :=
  ∀ s ∈ steps, ∀ r, Recorded path r s.after →
    ∃ r', Recorded path r' w ∧ r'.started = r.started ∧ r.floor ≤ r'.floor

/-- What `s'` reports is what `s` left of a completed rollback. -/
def Agrees (path : String) (s s' : ClockStep) : Prop :=
  ∀ r passed, Recorded path r s.after → r.outcome = some passed →
    ∀ report, s'.answer = .ok (some report) → report = (r.floor, passed)

/-- The record tells whether the limit was kept. -/
def Fair (path : String) (s : ClockStep) : Prop :=
  ∀ r passed, Recorded path r s.after → r.outcome = some passed →
    (passed = true ↔ r.floor ≤ rtoLimitSeconds)

/-- Once a completion is recorded, it and every later one report it. -/
def Frozen (path : String) (steps : List ClockStep) : Prop :=
  steps.Pairwise (Agrees path) ∧ ∀ s ∈ steps, Agrees path s s ∧ Fair path s

/-- The record of a completed rollback is left alone. -/
def Stays (path : String) (steps : List ClockStep) (w : World) : Prop :=
  ∀ s ∈ steps, ∀ r passed, Recorded path r s.after → r.outcome = some passed → Recorded path r w

/-- What is carried along a run. -/
structure Followed (path : String) (steps : List ClockStep) (w : World) : Prop where
  known : w.files path = none ∨ ∃ r, Recorded path r w
  kept : Kept path steps w
  frozen : (∀ s ∈ steps, s.NoLateRise) → Frozen path steps ∧ Stays path steps w ∧
    ∀ r passed, Recorded path r w → r.outcome = some passed →
      (passed = true ↔ r.floor ≤ rtoLimitSeconds)

omit [Sha256] in
theorem not_recorded {path : String} {r : ClockRecord} {w : World} (h : w.files path = none) :
    ¬Recorded path r w := by
  intro hrecord
  rw [Recorded, h] at hrecord
  cases hrecord

omit [Sha256] in
theorem frozen_append {path : String} {steps : List ClockStep} {s : ClockStep} :
    Frozen path (steps ++ [s]) ↔ Frozen path steps ∧ (∀ s' ∈ steps, Agrees path s' s) ∧
      Agrees path s s ∧ Fair path s := by
  simp only [Frozen, List.pairwise_append, List.pairwise_singleton, List.mem_append,
    List.mem_singleton, true_and, forall_eq, or_imp, forall_and]
  tauto

omit [Sha256] in
/-- A call where nothing was recorded. -/
theorem Followed.begin {path : String} {steps : List ClockStep} {s : ClockStep}
    (h : Followed path steps s.before) (hnone : s.before.files path = none) (hbegun : Begun path s.after) :
    Followed path (steps ++ [s]) s.after := by
  have hold : ∀ s' ∈ steps, ∀ r, ¬Recorded path r s'.after := by
    intro s' hs' r hrecord
    obtain ⟨r', hrecord', -⟩ := h.kept s' hs' r hrecord
    exact not_recorded hnone hrecord'
  have hrunning : ∀ r passed, Recorded path r s.after → r.outcome ≠ some passed := by
    intro r passed hrecord
    rcases hbegun with hbegun | ⟨r', hrecord', hr'⟩
    · exact absurd hrecord (not_recorded hbegun)
    · rw [hrecord.unique hrecord', hr']
      exact Option.some_ne_none _ |>.symm
  refine ⟨hbegun.imp id fun ⟨r, hrecord, _⟩ => ⟨r, hrecord⟩, ?_, fun hlate => ⟨?_, ?_, ?_⟩⟩
  · intro s' hs' r hrecord
    rcases List.mem_append.mp hs' with hs' | hs'
    · exact absurd hrecord (hold s' hs' r)
    · rw [List.mem_singleton.mp hs'] at hrecord
      exact ⟨r, hrecord, rfl, le_rfl⟩
  · refine frozen_append.mpr ⟨(h.frozen fun s' hs' => hlate s' (by simp [hs'])).1, ?_, ?_, ?_⟩
    · exact fun s' hs' r _ hrecord => absurd hrecord (hold s' hs' r)
    · exact fun r passed hrecord hpassed => absurd hpassed (hrunning r passed hrecord)
    · exact fun r passed hrecord hpassed => absurd hpassed (hrunning r passed hrecord)
  · intro s' hs' r passed hrecord hpassed
    rcases List.mem_append.mp hs' with hs' | hs'
    · exact absurd hrecord (hold s' hs' r)
    · rwa [List.mem_singleton.mp hs'] at hrecord
  · exact fun r passed hrecord hpassed => absurd hpassed (hrunning r passed hrecord)

omit [Sha256] in
/-- A call on a record. -/
theorem Followed.step {steps : List ClockStep} {s : ClockStep} {r r' : ClockRecord}
    (h : Followed s.clock.path steps s.before) (hr : Recorded s.clock.path r s.before)
    (hstep : StepsTo s r r') : Followed s.clock.path (steps ++ [s]) s.after := by
  have hnow : ∀ {r₁}, Recorded s.clock.path r₁ s.after → r₁ = r' :=
    fun hrecord => hrecord.unique hstep.recorded
  refine ⟨.inr ⟨r', hstep.recorded⟩, ?_, fun hlate => ?_⟩
  · intro s' hs' r₁ hrecord
    rcases List.mem_append.mp hs' with hs' | hs'
    · obtain ⟨r₂, hrecord₂, hstarted, hfloor⟩ := h.kept s' hs' r₁ hrecord
      obtain rfl := hrecord₂.unique hr
      exact ⟨r', hstep.recorded, hstep.moves.started.trans hstarted, hfloor.trans hstep.moves.floor⟩
    · rw [List.mem_singleton.mp hs'] at hrecord
      exact ⟨r', hstep.recorded, by rw [hnow hrecord], by rw [hnow hrecord]⟩
  · obtain ⟨hfrozen, hstays, hfair⟩ := h.frozen fun s' hs' => hlate s' (by simp [hs'])
    have hsettled := hstep.settled (hlate s (by simp))
    have hold : ∀ s' ∈ steps, ∀ r₁ passed, Recorded s.clock.path r₁ s'.after →
        r₁.outcome = some passed → r₁ = r' := by
      intro s' hs' r₁ passed hrecord hpassed
      obtain rfl := (hstays s' hs' r₁ passed hrecord hpassed).unique hr
      exact (hsettled (by simp [hpassed])).symm
    have hreport : ∀ passed, r'.outcome = some passed →
        ∀ report, s.answer = .ok (some report) → report = (r'.floor, passed) := by
      intro passed hpassed report hanswer
      obtain ⟨hfloor, houtcome⟩ := hstep.reported report hanswer
      rw [hpassed] at houtcome
      exact Prod.ext hfloor (Option.some.inj houtcome).symm
    have hfair' : ∀ passed, r'.outcome = some passed → (passed = true ↔ r'.floor ≤ rtoLimitSeconds) := by
      intro passed hpassed
      cases hr₀ : r.outcome with
      | none =>
        rw [hstep.moves.fair hr₀ hpassed]
        exact decide_eq_true_iff
      | some passed₀ =>
        have hsame : r' = r := hsettled (by simp [hr₀])
        rw [hsame] at hpassed ⊢
        exact hfair r passed hr hpassed
    refine ⟨frozen_append.mpr ⟨hfrozen, ?_, ?_, ?_⟩, ?_, ?_⟩
    · intro s' hs' r₁ passed hrecord hpassed
      obtain rfl := hold s' hs' r₁ passed hrecord hpassed
      exact hreport passed hpassed
    · intro r₁ passed hrecord hpassed
      obtain rfl := hnow hrecord
      exact hreport passed hpassed
    · intro r₁ passed hrecord hpassed
      obtain rfl := hnow hrecord
      exact hfair' passed hpassed
    · intro s' hs' r₁ passed hrecord hpassed
      rcases List.mem_append.mp hs' with hs' | hs'
      · rw [hold s' hs' r₁ passed hrecord hpassed]
        exact hstep.recorded
      · rwa [List.mem_singleton.mp hs'] at hrecord
    · intro r₁ passed hrecord hpassed
      obtain rfl := hnow hrecord
      exact hfair' passed hpassed

theorem ClockRun.followed {path : String} {start w : World} {steps : List ClockStep}
    (h : ClockRun path start steps w) (hstart : start.files path = none) :
    Followed path steps w := by
  induction h with
  | start =>
    have hnil : ∀ {P : ClockStep → Prop}, ∀ s ∈ [], P s := fun _ hs => absurd hs List.not_mem_nil
    exact ⟨.inl hstart, hnil, fun _ => ⟨⟨.nil, hnil⟩, hnil,
      fun r _ hrecord => absurd hrecord (not_recorded hstart)⟩⟩
  | @call steps w w' c call answer _ hpath hrun ih =>
    subst hpath
    rcases ih.known with hnone | ⟨r, hr⟩
    · refine ih.begin (s := ⟨c, call, w, answer, w'⟩) hnone ?_
      have hend := Prog.run_of_wp _ _ (wp_perform_absent c call hnone)
      rw [hrun] at hend
      cases answer with
      | ok report => exact hend.2
      | error e => exact hend
    · have hend := Prog.run_of_wp _ _ (wp_perform c call hr)
      rw [hrun] at hend
      cases answer with
      | ok report =>
        obtain ⟨r', hstep⟩ := hend
        exact ih.step (s := ⟨c, call, w, .ok report, w'⟩) hr hstep
      | error e =>
        obtain ⟨r', hstep⟩ := hend
        exact ih.step (s := ⟨c, call, w, .error e, w'⟩) hr hstep

end Runs

/-! ## 5. Calls where nothing fails -/

section Faultless

variable [Sha256] {c : RollbackClock} {r : ClockRecord} {w : World}

/-- The files hold a record of the clock and its seal, and nothing fails. -/
structure Standing (c : RollbackClock) (r : ClockRecord) (w : World) : Prop where
  faultless : w.Faultless
  accepts : c.Accepts r
  record : Sealed w c.path c.integrityPath r.json

theorem Standing.next (h : Standing c r w) : Standing c r w.next :=
  ⟨h.faultless, h.accepts, h.record.plain, h.record.dict, h.record.record, h.record.sealing⟩

theorem Standing.recorded (h : Standing c r w) : Recorded c.path r w := h.record.record

omit [Sha256] in
theorem hasKeys_json (r : ClockRecord) : r.json.hasKeys clockFields = true :=
  hasKeys_dict fun k => by simp only [List.map_cons, List.map_nil, clockFields]

omit [Sha256] in
/-- The clock's own record passes its check. -/
theorem checkRecord_accepted (h : c.Accepts r) : c.checkRecord r.json = .ok () := by
  have hschema : r.json.get "schema_version" = .int 1 := by simp [ClockRecord.json_get, lookupField]
  have hsize : isSize (.int r.floor) = true := decide_eq_true h.floor
  unfold RollbackClock.checkRecord
  rw [hasKeys_json, r.parseTime_json, h.operationId, h.releaseId, hschema]
  cases houtcome : r.outcome with
  | none => simp [houtcome, hsize, isBool, isDict, isList, check, pyEq_refl, bind, Except.bind, pure, Except.pure]
  | some passed =>
    cases passed <;> simp [houtcome, hsize, isBool, isDict, isList, check, pyEq_refl, bind, Except.bind, pure, Except.pure]

theorem run_read_standing (hhex : Sha256.HexDigests) (h : Standing c r w) :
    c.read.run machine w = (.ok r.json, w.next.next) := by
  rw [RollbackClock.read, Prog.run_bind_ok (run_readSealed h.faultless hhex h.record _ _),
    Prog.run_bind_ok (a := ()) (t := w.next.next), Prog.run_pure]
  rw [Prog.run_liftExcept, checkRecord_accepted h.accepts]

theorem run_declare_standing (hhex : Sha256.HexDigests) (h : Standing c r w) :
    c.declare.run machine w = (.ok r.json, w.next.next.next) := by
  rw [RollbackClock.declare, Prog.run_bind_ok (run_pathExists h.faultless c.path), h.record.record]
  exact run_read_standing hhex h.next

theorem run_write_standing (h : Standing c r w) {r' : ClockRecord} (haccepts : c.Accepts r') :
    ∃ w', (writeSealed c.path c.integrityPath r'.json).run machine w = (.ok (), w') ∧
      Standing c r' w' ∧ w'.wall = w.wall ∧ w'.monotonic = w.monotonic := by
  have hside : c.integrityPath ≠ c.path := Text.append_ne_self (by decide)
  have hother : w.files c.integrityPath ≠ some .other := by simp [h.record.sealing]
  exact ⟨_, run_writeSealed h.faultless c.bounded.1 (Text.isAbsolute_append c.bounded.1 _) hside
    (by simp [h.record.record]) hother r'.json,
    ⟨h.faultless, haccepts, sealed_of_written hside.symm r'.plain_json rfl⟩, rfl, rfl⟩

/-- A declaration where nothing stands. -/
theorem run_declare_absent (hw : w.Faultless) (hrecord : w.files c.path = none)
    (hseal : w.files c.integrityPath = none) :
    ∃ w', c.declare.run machine w = (.ok (c.fresh (w.wall (w.tick + 1))).json, w') ∧
      Standing c (c.fresh (w.wall (w.tick + 1))) w' ∧ w'.wall = w.wall ∧ w'.monotonic = w.monotonic := by
  have hside : c.integrityPath ≠ c.path := Text.append_ne_self (by decide)
  have habsolute : Text.isAbsolute c.integrityPath = true := Text.isAbsolute_append c.bounded.1 _
  have hcreate := run_createSealed hw.next.next c.bounded.1 habsolute hside hrecord hseal
    (c.fresh (w.wall (w.tick + 1))).json
  refine ⟨_, ?_, ⟨?_, ⟨rfl, rfl, le_rfl⟩, sealed_of_written (w := w.next.next) hside.symm
    (ClockRecord.plain_json _) rfl⟩, rfl, rfl⟩
  · rw [RollbackClock.declare, Prog.run_bind_ok (run_pathExists hw c.path), hrecord]
    change Prog.run machine (Prog.perform Call.wallNow >>= fun now =>
      createSealed c.path c.integrityPath (c.declared now) >>= fun _ => pure (c.declared now)) w.next = _
    rw [Prog.run_bind_ok (Prog.run_perform Call.wallNow _)]
    exact Prog.run_bind_ok hcreate
  · exact hw

/-- A completion, with an explicit readiness time in the limit. -/
theorem run_complete_standing (hhex : Sha256.HexDigests) (h : Standing c r w) (hrunning : r.outcome = none)
    (readyAt : Instant) (hready : 0 ≤ readyAt.secondsSince r.started)
    (hlimit : max r.floor (readyAt.secondsSince r.started) ≤ rtoLimitSeconds) :
    ∃ w', (c.perform (.complete (some readyAt))).run machine w =
        (.ok (some (max r.floor (readyAt.secondsSince r.started), true)), w') ∧
      Standing c { r with floor := max r.floor (readyAt.secondsSince r.started), outcome := some true } w' ∧
      w'.wall = w.wall ∧ w'.monotonic = w.monotonic := by
  have hnot : ¬(r.json.get "completed").truthy = true := by simp [hrunning, truthy]
  have haccepts : c.Accepts
      { r with floor := max r.floor (readyAt.secondsSince r.started), outcome := some true } :=
    ⟨h.accepts.operationId, h.accepts.releaseId, h.accepts.floor.trans (le_max_left _ _)⟩
  obtain ⟨w', hwrite, hstanding, hwall, hmonotonic⟩ := run_write_standing h.next.next.next.next haccepts
  refine ⟨w', ?_, hstanding, hwall, hmonotonic⟩
  rw [RollbackClock.perform, RollbackClock.completeAfterExternalReadiness, bind_assoc,
    Prog.run_bind_ok (run_read_standing hhex h), if_neg hnot, RollbackClock.readinessElapsed_some,
    bind_assoc, bind_assoc, Prog.run_bind_ok (Prog.run_ensure _ _ (decide_eq_true hready)), pure_bind,
    RollbackClock.recordCompletion, bind_assoc, Prog.run_bind_ok (run_read_standing hhex h.next.next),
    ClockRecord.completed_json, decide_eq_true hlimit, bind_assoc, Prog.run_bind_ok hwrite, if_pos hlimit]
  rfl

/-- A completion that was recorded is reported. -/
theorem run_complete_again (hhex : Sha256.HexDigests) (h : Standing c r w) {passed : Bool}
    (houtcome : r.outcome = some passed) (readyAt : Option Instant) :
    (c.perform (.complete readyAt)).run machine w = (.ok (some (r.floor, passed)), w.next.next) := by
  have hdone : (r.json.get "completed").truthy = true := by simp [houtcome, truthy]
  have hpassed : (r.json.get "rto_passed").truthy = passed := by simp [houtcome, truthy]
  rw [RollbackClock.perform, RollbackClock.completeAfterExternalReadiness, bind_assoc,
    Prog.run_bind_ok (run_read_standing hhex h), if_pos hdone, hpassed, ClockRecord.json_floor]
  rfl

/-- A measurement that shows more than the floor. -/
theorem run_elapsed_standing (hhex : Sha256.HexDigests) (h : Standing c r w)
    (hmore : r.floor < c.readings w (w.tick + 3) r) :
    ∃ w', (c.perform .elapsed).run machine w = (.ok none, w') ∧
      Standing c { r with floor := c.readings w (w.tick + 3) r } w' := by
  have helapsed : c.elapsedSeconds r.json r.started (w.wall (w.tick + 3)) (w.monotonic (w.tick + 4)) =
      c.readings w (w.tick + 3) r := by
    rw [c.elapsedSeconds_eq w (w.tick + 3) r, max_eq_right hmore.le,
      max_eq_left (h.accepts.floor.trans hmore.le)]
  have hne : (r.json.get "elapsed_floor_seconds").pyEq (.int (c.readings w (w.tick + 3) r)) = false := by
    simpa [pyEq, Json.norm] using hmore.ne
  have haccepts : c.Accepts { r with floor := c.readings w (w.tick + 3) r } :=
    ⟨h.accepts.operationId, h.accepts.releaseId, h.accepts.floor.trans hmore.le⟩
  obtain ⟨w', hwrite, hstanding, -⟩ := run_write_standing h.next.next.next.next.next haccepts
  refine ⟨w', ?_, hstanding⟩
  rw [RollbackClock.perform, RollbackClock.elapsed, bind_assoc,
    Prog.run_bind_ok (run_declare_standing hhex h), bind_assoc,
    Prog.run_bind_ok (Prog.run_perform Call.wallNow _), bind_assoc, r.parseTime_json,
    Prog.run_bind_ok (Prog.run_liftExcept _ _), bind_assoc,
    Prog.run_bind_ok (Prog.run_perform Call.monotonicNow _)]
  generalize hshown : c.elapsedSeconds r.json r.started (w.wall (w.tick + 3))
    (w.monotonic (w.tick + 4)) = elapsed at helapsed
  subst helapsed
  change Prog.run machine ((if (r.json.get "elapsed_floor_seconds").pyEq (.int (c.elapsedSeconds r.json
    r.started (w.wall (w.tick + 3)) (w.monotonic (w.tick + 4)))) = true then _ else
      writeSealed c.path c.integrityPath (r.json.set "elapsed_floor_seconds" (.int (c.elapsedSeconds
        r.json r.started (w.wall (w.tick + 3)) (w.monotonic (w.tick + 4))))) >>= _) >>= _)
          w.next.next.next.next.next = _
  rw [hshown, if_neg (Bool.eq_false_iff.mp hne), r.json_set_floor, bind_assoc, Prog.run_bind_ok hwrite]
  rfl

end Faultless

/-! ### A measurement after the completion -/

section

attribute [local instance] zeroSha256

/-- A clock, in a world whose wall clock stands still while its process waits for six hours. -/
def lateClock : RollbackClock :=
  ⟨"/srv/rollback/rto.json", "operation-1", "release-1", 0, by decide, by decide⟩

def lateWorld : World where
  files _ := none
  fault _ := .none
  wall _ := ⟨0, endOfTime_pos⟩
  monotonic _ := 21600000000
  host _ _ := .ok .null
  tick := 0
  history := []

end

end ProductPdfQr.DeployRollback
