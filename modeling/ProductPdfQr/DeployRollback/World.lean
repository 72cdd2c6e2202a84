/-
# The world of a rollback

What `scripts/deploy_rollback` talks to: the files it keeps its records in, the two clocks,
and the host adapter.  A file operation may fail before it takes effect, and a replacing write
or an append also after (the fsync of the directory); a reading clock may show anything; every
host command may answer anything or raise.  All of that is fixed in the `World` beforehand, as
functions of the tick, so a theorem for every world is a theorem for every behaviour.

`atomic_create` and `atomic_write` are single calls: either the whole file is there or nothing
changed.
-/
import ProductPdfQr.Effect.Prog
import ProductPdfQr.Digest

namespace ProductPdfQr.DeployRollback

open Effect Json

/-! ## 1. Exceptions -/

/-- The exceptions that can leave a function of the package. -/
inductive Exn
  | rollbackSafety (message : String)
  | rollbackDecisionRequired (message : String)
  | osError (message : String)
  | unicodeError
  | keyError (name : String)
  | typeError
  | attributeError
  /-- Anything else a host adapter raises, `KeyboardInterrupt` included. -/
  | other (name : String)
  deriving DecidableEq, Repr

namespace Exn

/-- `type(error).__name__`. -/
def name : Exn → String
  | rollbackSafety _ => "RollbackSafetyError"
  | rollbackDecisionRequired _ => "RollbackDecisionRequired"
  | osError _ => "OSError"
  | unicodeError => "UnicodeDecodeError"
  | keyError _ => "KeyError"
  | typeError => "TypeError"
  | attributeError => "AttributeError"
  | other name => name

/-- `isinstance(error, RollbackSafetyError)`. -/
def isRollbackSafety : Exn → Bool
  | rollbackSafety _ | rollbackDecisionRequired _ => true
  | _ => false

end Exn

/-! ## 2. Files -/

/-- What stands at a path. -/
inductive Node
  /-- A regular file; `loose` when group or others may write it. -/
  | file (loose : Bool) (content : Bytes)
  /-- A symbolic link, with the content of the regular file it leads to, if it does. -/
  | link (content : Option Bytes)
  /-- A directory or a device. -/
  | other
  deriving DecidableEq

namespace Node

/-- `path.exists()`: a link that leads nowhere does not. -/
def present : Node → Bool
  | link none => false
  | _ => true

/-- `path.is_file() and not path.is_symlink()`. -/
def isRegular : Node → Bool
  | file _ _ => true
  | _ => false

/-- What reading the path gives. -/
def content? : Node → Option Bytes
  | file _ content => some content
  | link content => content
  | other => none

/-- What stands at a path after `payload` was appended to what stood there, if it can be. -/
def append (payload : Bytes) : Option Node → Option Node
  | none => some (file false payload)
  | some (file loose content) => some (file loose (content ++ payload))
  | some (link content) => some (link (some (content.getD ByteArray.empty ++ payload)))
  | some other => none

end Node

/-- How a file operation goes wrong, if it does. -/
inductive Fault
  | none
  | before
  | after
  deriving DecidableEq, Repr

/-! ## 3. Calls -/

/-- The commands of a host adapter. -/
inductive HostCall
  | retainExactArtifacts
  | stopProxy
  | stopApp
  | startApp (identity : Json)
  | proxyIsStopped
  | nonmutatingOldAppValidation
  | candidateValidation
  | authorizeProxy (evidence : Json)
  | startProxy
  | externalReadiness
  | currentWatermark
  deriving DecidableEq

/-- Everything the package asks of its environment. -/
inductive Call
  | look (path : String)
  | atomicCreate (path : String) (payload : Bytes)
  | atomicWrite (path : String) (payload : Bytes)
  | append (path : String) (payload : Bytes)
  | unlink (path : String)
  | wallNow
  | monotonicNow
  | host (command : HostCall)

/-- The answers.  A monotonic reading is in microseconds. -/
abbrev Answer : Call → Type
  | .look _ => Except Exn (Option Node)
  | .atomicCreate _ _ => Except Exn Unit
  | .atomicWrite _ _ => Except Exn Unit
  | .append _ _ => Except Exn Unit
  | .unlink _ => Except Exn Unit
  | .wallNow => Instant
  | .monotonicNow => Int
  | .host _ => Except Exn Json

/-- A function of the package. -/
abbrev Op (α : Type) := Prog Call Answer Exn α

/-- A host command, its answer, and the files as they stood when it was issued. -/
structure HostEvent where
  command : HostCall
  answer : Except Exn Json
  files : String → Option Node

/-- The files, what the environment has in store, and the host commands issued so far. -/
structure World where
  files : String → Option Node
  fault : Nat → Fault
  wall : Nat → Instant
  monotonic : Nat → Int
  host : Nat → HostCall → Except Exn Json
  tick : Nat
  history : List HostEvent

namespace World

/-- Time passes. -/
def next (w : World) : World := { w with tick := w.tick + 1 }

/-- Put `node` at `path`. -/
def put (w : World) (path : String) (node : Option Node) : World :=
  { w with files := fun p => if p = path then node else w.files p }

/-- A host command goes into the history with its answer. -/
def issue (w : World) (command : HostCall) : World :=
  { w with history := w.history ++ [⟨command, w.host w.tick command, w.files⟩] }

@[simp] theorem next_files (w : World) : w.next.files = w.files := rfl
@[simp] theorem next_history (w : World) : w.next.history = w.history := rfl
@[simp] theorem put_history (w : World) (p : String) (n : Option Node) :
    (w.put p n).history = w.history := rfl
@[simp] theorem issue_files (w : World) (c : HostCall) : (w.issue c).files = w.files := rfl
@[simp] theorem issue_history (w : World) (c : HostCall) :
    (w.issue c).history = w.history ++ [⟨c, w.host w.tick c, w.files⟩] := rfl

@[simp] theorem put_same (w : World) (p : String) (n : Option Node) : (w.put p n).files p = n :=
  if_pos rfl

@[simp] theorem put_other (w : World) {p p' : String} (n : Option Node) (h : p' ≠ p) :
    (w.put p n).files p' = w.files p' :=
  if_neg h

/-- The failure a file operation reports. -/
def failure : Exn := .osError "input/output error"

/-- One call: what it answers and what it leaves. -/
def step : (c : Call) → World → Answer c × World
  | .look path, w =>
    (if w.fault w.tick = .none then .ok (w.files path) else .error failure, w.next)
  | .atomicCreate path payload, w =>
    if w.fault w.tick ≠ .none then (.error failure, w.next)
    else if (w.files path).isSome then
      (.error (.rollbackSafety "immutable record already exists"), w.next)
    else (.ok (), (w.put path (some (.file false payload))).next)
  | .atomicWrite path payload, w =>
    if w.fault w.tick = .before ∨ w.files path = some .other then (.error failure, w.next)
    else
      (if w.fault w.tick = .after then .error failure else .ok (),
        (w.put path (some (.file false payload))).next)
  | .append path payload, w =>
    match Node.append payload (w.files path) with
    | none => (.error failure, w.next)
    | some node =>
      if w.fault w.tick = .before then (.error failure, w.next)
      else (if w.fault w.tick = .after then .error failure else .ok (), (w.put path (some node)).next)
  | .unlink path, w =>
    if w.fault w.tick = .before ∨ w.files path = some .other then (.error failure, w.next)
    else (.ok (), (w.put path none).next)
  | .wallNow, w => (w.wall w.tick, w.next)
  | .monotonicNow, w => (w.monotonic w.tick, w.next)
  | .host command, w => (w.host w.tick command, (w.issue command).next)

end World

/-- The environment of the package. -/
def machine : Machine Call Answer World := ⟨World.step⟩

/-! ## 4. File helpers -/

/-- `raise RollbackSafetyError(message)` unless `c`. -/
def check (c : Bool) (message : String) : Except Exn Unit :=
  if c then .ok () else .error (.rollbackSafety message)

@[simp] theorem check_ok {c : Bool} {message : String} {u : Unit} :
    check c message = .ok u ↔ c = true := by
  cases c <;> simp [check]

theorem check_bind_ok {α : Type} {c : Bool} {message : String} {f : Unit → Except Exn α} {a : α}
    (h : (check c message >>= f) = .ok a) : c = true ∧ f () = .ok a := by
  obtain ⟨_, hc, h⟩ := bind_ok h
  exact ⟨check_ok.mp hc, h⟩

/-- What stands at `path`. -/
def look (path : String) : Op (Except Exn (Option Node)) := Prog.perform (Call.look path)

/-- A call whose failure is raised. -/
def orRaise {α : Type} (call : Op (Except Exn α)) : Op α := do
  let answer ← call
  .liftExcept answer

/-- `path.exists()`. -/
def pathExists (path : String) : Op Bool := do
  let node ← orRaise (look path)
  return node.any Node.present

/-- `atomic_create`. -/
def atomicCreate (path : String) (payload : Bytes) : Op Unit := do
  .ensure (Text.isAbsolute path) (.rollbackSafety "persistent path must be absolute")
  orRaise (Prog.perform (Call.atomicCreate path payload))

/-- `atomic_write`. -/
def atomicWrite (path : String) (payload : Bytes) : Op Unit := do
  .ensure (Text.isAbsolute path) (.rollbackSafety "persistent path must be absolute")
  orRaise (Prog.perform (Call.atomicWrite path payload))

/-- `path.unlink(missing_ok=True)`. -/
def unlink (path : String) : Op Unit := orRaise (Prog.perform (Call.unlink path))

/-- What `read_json_file` makes of what stands at its path, and whether that can be encoded
again. -/
def jsonFile (path : String) : Except Exn (Option Node) → Except Exn (Json × Bool)
  | .error _ | .ok none => .error (.rollbackSafety s!"invalid persistent JSON: {path}")
  | .ok (some (.file false content)) =>
    match loadsLoosely content with
    | .ok (value, encodable) =>
      if value.isDict then .ok (value, encodable)
      else .error (.rollbackSafety s!"persistent JSON is not an object: {path}")
    | .error .unicode => .error .unicodeError
    | .error _ => .error (.rollbackSafety s!"invalid persistent JSON: {path}")
  | .ok (some _) => .error (.rollbackSafety s!"unsafe persistent file: {path}")

/-- `read_json_file`. -/
def readJsonFile (path : String) : Op Json := do
  let node ← look path
  let value ← .liftExcept (jsonFile path node)
  return value.1

theorem jsonFile_ok {path : String} {node : Except Exn (Option Node)} {j : Json} {encodable : Bool}
    (h : jsonFile path node = .ok (j, encodable)) :
    ∃ content, node = .ok (some (.file false content)) ∧
      loadsLoosely content = .ok (j, encodable) ∧ j.isDict = true := by
  unfold jsonFile at h
  split at h
  · simp at h
  · simp at h
  · next content =>
    split at h
    · next value encodable' hvalue =>
      split at h
      · next hdict =>
        cases h
        exact ⟨content, rfl, hvalue, hdict⟩
      · simp at h
    · simp at h
    · simp at h
  · simp at h

/-! ## 5. Sealed records

A record is kept in two files: its canonical bytes, and beside them the digest of those bytes.
The publication state and the rollback clock are kept this way. -/

section Sealed

variable [Sha256]

/-- The sidecar holds the digest of `state`; one that cannot be encoded has none. -/
def sealMatches (state : Json) (encodable : Bool) (missing mismatch : String) :
    Except Exn (Option Node) → Except Exn Unit
  | .error _ | .ok none => .error (.rollbackSafety missing)
  | .ok (some node) =>
    match node.content? with
    | none => .error (.rollbackSafety missing)
    | some bytes =>
      match Text.decodeAscii? bytes with
      | none => .error .unicodeError
      | some text =>
        if node.isRegular && Text.isSha256 (Text.strip text) then
          if encodable then check (digestJson state = Text.strip text) mismatch
          else .error .unicodeError
        else .error (.rollbackSafety mismatch)

/-- Read a record and check it against its seal. -/
def readSealed (path sidecar missing mismatch : String) : Op Json := do
  let node ← look path
  let (state, encodable) ← .liftExcept (jsonFile path node)
  let node ← look sidecar
  .liftExcept (sealMatches state encodable missing mismatch node)
  return state

/-- Create a record and its seal; a record whose seal could not be created goes again. -/
def createSealed (path sidecar : String) (state : Json) : Op Unit := do
  atomicCreate path (canonicalJson state)
  tryCatch (atomicCreate sidecar (sealText (digestJson state))) fun e => do
    unlink path
    throw e

/-- Replace a record and its seal. -/
def writeSealed (path sidecar : String) (state : Json) : Op Unit := do
  atomicWrite path (canonicalJson state)
  atomicWrite sidecar (sealText (digestJson state))

end Sealed

/-! ## 6. What the helpers leave alone -/

/-- No file changed and no host command was issued. -/
structure Quiet (w w' : World) : Prop where
  files : w'.files = w.files
  history : w'.history = w.history

theorem Quiet.refl (w : World) : Quiet w w := ⟨rfl, rfl⟩

theorem Quiet.trans {w w' w'' : World} (h : Quiet w w') (h' : Quiet w' w'') : Quiet w w'' :=
  ⟨h'.files.trans h.files, h'.history.trans h.history⟩

/-- The end of a run that only looked: `F` holds of what it returned. -/
def looked {α : Type} (w : World) (F : α → Prop) : Post World Exn α :=
  ⟨fun a w' => Quiet w w' ∧ F a, fun _ w' => Quiet w w', fun w' => Quiet w w'⟩

theorem looked_le {α : Type} {w w' : World} {F : α → Prop} (h : Quiet w w') :
    (looked w' F).Le (looked w F) :=
  ⟨fun _ _ h' => ⟨h.trans h'.1, h'.2⟩, fun _ _ h' => h.trans h', fun _ h' => h.trans h'⟩

theorem quiet_of_looked {α : Type} {w : World} {F : α → Prop} {h : Halt World Exn α}
    (hholds : (looked w F).Holds h) : Quiet w h.state := by
  unfold Post.Holds at hholds
  split at hholds
  · exact hholds.1
  · exact hholds
  · exact hholds

theorem wp_look (w : World) (path : String) :
    (look path).wp machine (looked w fun r => ∀ node, r = .ok node → node = w.files path) w := by
  have hquiet : Quiet w w.next := ⟨rfl, rfl⟩
  have hanswer : ∀ node, (World.step (.look path) w).1 = .ok node → node = w.files path := by
    intro node hnode
    simp only [World.step] at hnode
    split at hnode <;> simp_all
  exact (Prog.wp_perform (o := Call.look path)).mpr ⟨Quiet.refl w, hquiet, hanswer⟩

/-- What follows a run that only looked. -/
theorem looked_bind {α β : Type} {w : World} {F : α → Prop} {G : β → Prop} {p : Op α}
    {f : α → Op β} (hp : p.wp machine (looked w F) w)
    (hf : ∀ a w', Quiet w w' → F a → (f a).wp machine (looked w' G) w') :
    (p >>= f).wp machine (looked w G) w :=
  Prog.wp_bind_of hp
    (fun a w' h => Prog.wp_mono (looked_le h.1) _ _ (hf a w' h.1 h.2))
    (fun _ _ h => h) (fun _ h => h)

theorem looked_pure {α : Type} {w : World} {F : α → Prop} {a : α} (h : F a) :
    (pure a : Op α).wp machine (looked w F) w :=
  (Prog.wp_pure a).mpr ⟨Quiet.refl w, h⟩

theorem looked_liftExcept {α : Type} {w : World} {F : α → Prop} {x : Except Exn α}
    (h : ∀ a, x = .ok a → F a) : (Prog.liftExcept x : Op α).wp machine (looked w F) w :=
  Prog.wp_liftExcept.mpr ⟨fun a ha => ⟨Quiet.refl w, h a ha⟩, fun _ _ => Quiet.refl w⟩

theorem wp_pathExists (w : World) (path : String) :
    (pathExists path).wp machine (looked w fun b => b = (w.files path).any Node.present) w := by
  have hlook : (orRaise (look path)).wp machine (looked w fun node => node = w.files path) w :=
    looked_bind (wp_look w path) fun _ _ _ hr => looked_liftExcept fun node hnode => hr node hnode
  refine looked_bind hlook fun node w' _ hnode => ?_
  exact looked_pure (by rw [hnode])

theorem wp_readJsonFile (w : World) (path : String) :
    (readJsonFile path).wp machine (looked w fun j => ∃ content encodable,
      w.files path = some (.file false content) ∧ loadsLoosely content = .ok (j, encodable) ∧
        j.isDict = true) w := by
  refine looked_bind (wp_look w path) fun r w' hq hr => ?_
  refine looked_bind (looked_liftExcept (F := fun value => jsonFile path r = .ok value)
    fun _ h => h) fun value w'' hq' hvalue => looked_pure ?_
  obtain ⟨content, hnode, hload, hdict⟩ := jsonFile_ok (j := value.1) hvalue
  exact ⟨content, value.2, (hr _ hnode).symm, hload, hdict⟩

/-- Only a record that can be encoded has the digest of its seal. -/
theorem sealMatches_ok [Sha256] {state : Json} {encodable : Bool} {missing mismatch : String}
    {node : Except Exn (Option Node)}
    (h : sealMatches state encodable missing mismatch node = .ok ()) : encodable = true := by
  unfold sealMatches at h
  repeat' split at h
  all_goals simp_all

theorem wp_readSealed [Sha256] (w : World) (path sidecar missing mismatch : String) :
    (readSealed path sidecar missing mismatch).wp machine (looked w fun j => ∃ content,
      w.files path = some (.file false content) ∧ loads content = .ok j ∧ j.isDict = true ∧
        sealMatches j true missing mismatch (.ok (w.files sidecar)) = .ok ()) w := by
  refine looked_bind (wp_look w path) fun r w' hq hr => ?_
  refine looked_bind (looked_liftExcept (F := fun value => jsonFile path r = .ok value)
    fun _ h => h) fun value w₁ hq₁ hvalue => ?_
  obtain ⟨j, encodable⟩ := value
  refine looked_bind (wp_look w₁ sidecar) fun node w₂ hq₂ hnode => ?_
  refine looked_bind (looked_liftExcept (F := fun _ =>
    sealMatches j encodable missing mismatch node = .ok ()) fun u hu => hu)
    fun u w₃ hq₃ hseal => looked_pure ?_
  obtain ⟨content, hfile, hload, hdict⟩ := jsonFile_ok hvalue
  obtain rfl := sealMatches_ok hseal
  refine ⟨content, (hr _ hfile).symm, loads_of_encodable hload, hdict, ?_⟩
  cases node with
  | error e => simp [sealMatches] at hseal
  | ok node =>
    rw [← hq.files, ← hq₁.files, ← hnode node rfl]
    exact hseal

/-! ### What the writing helpers do -/

/-- The end of a run that wrote: `new` once it returned, `new` or the old files when it raised. -/
def wrote {α : Type} (w : World) (new : String → Option Node) : Post World Exn α :=
  ⟨fun _ w' => w'.files = new, fun _ w' => w'.files = w.files ∨ w'.files = new,
    fun w' => w'.files = w.files⟩

theorem wrote_answer {w w' : World} {new : String → Option Node} {answer : Except Exn Unit}
    (h : (answer = .ok () → w'.files = new) ∧ (w'.files = w.files ∨ w'.files = new)) :
    (Prog.liftExcept answer : Op Unit).wp machine (wrote w new) w' :=
  Prog.wp_liftExcept.mpr ⟨fun _ hanswer => h.1 hanswer, fun _ _ => h.2⟩

theorem wrote_ensure {w : World} {new : String → Option Node} {c : Bool} {e : Exn} {p : Op Unit}
    (h : p.wp machine (wrote w new) w) :
    ((Prog.ensure c e : Op Unit) >>= fun _ => p).wp machine (wrote w new) w := by
  rw [Prog.wp_bind]
  exact Prog.wp_ensure.mpr ⟨fun _ => h, fun _ => Or.inl rfl⟩

theorem wp_atomicCreate (path : String) (payload : Bytes) (w : World) :
    (atomicCreate path payload).wp machine
      (wrote w (w.put path (some (.file false payload))).files) w := by
  refine wrote_ensure ?_
  rw [orRaise, Prog.wp_bind]
  refine (Prog.wp_perform (o := Call.atomicCreate path payload)).mpr ⟨rfl, wrote_answer ?_⟩
  simp only [machine, World.step]
  split
  · simp
  · split <;> simp

theorem wp_atomicWrite (path : String) (payload : Bytes) (w : World) :
    (atomicWrite path payload).wp machine
      (wrote w (w.put path (some (.file false payload))).files) w := by
  refine wrote_ensure ?_
  rw [orRaise, Prog.wp_bind]
  refine (Prog.wp_perform (o := Call.atomicWrite path payload)).mpr ⟨rfl, wrote_answer ?_⟩
  simp only [machine, World.step]
  split <;> simp

theorem wp_unlink (path : String) (w : World) :
    (unlink path).wp machine (wrote w (w.put path none).files) w := by
  rw [unlink, orRaise, Prog.wp_bind]
  refine (Prog.wp_perform (o := Call.unlink path)).mpr ⟨rfl, wrote_answer ?_⟩
  simp only [machine, World.step]
  split <;> simp

/-- The end of a run that replaced what stands at `path`, or left it. -/
def replaced {α : Type} (w : World) (path : String) (node : Option Node) : Post World Exn α :=
  ⟨fun _ w' => w'.files path = node, fun _ w' => w'.files path = w.files path ∨ w'.files path = node,
    fun w' => w'.files path = w.files path ∨ w'.files path = node⟩

theorem wrote_replaced {α : Type} (w : World) (path : String) (node : Option Node) :
    (wrote w (w.put path node).files : Post World Exn α).Le (replaced w path node) where
  returned _ _ h := (congrFun h path).trans (w.put_same path node)
  raised _ _ h := h.imp (congrFun · path) fun h' => (congrFun h' path).trans (w.put_same path node)
  crashed _ h := .inl (congrFun h path)

/-- Writing elsewhere. -/
theorem wrote_aside {α : Type} (w : World) {path other : String} (hne : path ≠ other)
    (node node' : Option Node) (h : w.files path = node) :
    (wrote w (w.put other node').files : Post World Exn α).Le (replaced w path node) where
  returned _ _ hw' := (congrFun hw' path).trans ((w.put_other node' hne).trans h)
  raised _ _ hw' := .inl (hw'.elim (congrFun · path) fun hw' =>
    (congrFun hw' path).trans (w.put_other node' hne))
  crashed _ hw' := .inl (congrFun hw' path)

/-- Replacing a record and its seal: the record comes first. -/
theorem wp_writeSealed [Sha256] {path sidecar : String} (hne : path ≠ sidecar) (state : Json)
    (w : World) : (writeSealed path sidecar state).wp machine
      (replaced w path (some (.file false (canonicalJson state)))) w := by
  refine Prog.wp_bind_of (Prog.wp_le (wp_atomicWrite path _ w) (wrote_replaced ..))
    (fun _ w₁ hw₁ => ?_) (fun _ _ h => h) (fun _ h => h)
  refine Prog.wp_le (Prog.wp_le (wp_atomicWrite sidecar _ w₁) (wrote_aside w₁ hne _ _ hw₁)) ?_
  exact ⟨fun _ _ h => h, fun _ _ h => .inr (h.elim (·.trans hw₁) id),
    fun _ h => .inr (h.elim (·.trans hw₁) id)⟩

/-! ### The calls the helpers make -/

/-- Not a command of the host adapter. -/
def NotHost : Call → Prop
  | .host _ => False
  | _ => True

/-- Such a call issues no host command. -/
theorem step_notHost_history (c : Call) (hc : NotHost c) (w : World) :
    (machine.step c w).2.history = w.history := by
  cases c with
  | host command => exact absurd hc id
  | look path => rfl
  | wallNow => rfl
  | monotonicNow => rfl
  | atomicCreate path payload =>
    simp only [machine, World.step]
    split
    · rfl
    · split <;> rfl
  | atomicWrite path payload =>
    simp only [machine, World.step]
    split <;> rfl
  | append path payload =>
    simp only [machine, World.step]
    split
    · rfl
    · split <;> rfl
  | unlink path =>
    simp only [machine, World.step]
    split <;> rfl

/-- Neither does a program of such calls. -/
theorem notHost_history {α : Type} {p : Op α} (hp : p.CallsIn NotHost) (w : World) :
    p.wp machine (Post.always fun w' => w'.history = w.history) w :=
  Prog.CallsIn.keeps (I := fun w' => w'.history = w.history)
    (fun c hc w' h => (step_notHost_history c hc w').trans h) hp w rfl

section Calls

variable {P : Call → Prop}

theorem callsIn_orRaise {α : Type} {call : Op (Except Exn α)} (h : call.CallsIn P) :
    (orRaise call).CallsIn P :=
  Prog.callsIn_bind h fun answer => Prog.callsIn_liftExcept answer

theorem callsIn_look {path : String} (h : P (.look path)) : (look path).CallsIn P :=
  Prog.callsIn_perform.mpr h

theorem callsIn_pathExists {path : String} (h : P (.look path)) : (pathExists path).CallsIn P :=
  Prog.callsIn_bind (callsIn_orRaise (callsIn_look h)) fun _ => Prog.callsIn_pure _

theorem callsIn_readJsonFile {path : String} (h : P (.look path)) :
    (readJsonFile path).CallsIn P :=
  Prog.callsIn_bind (callsIn_look h) fun _ =>
    Prog.callsIn_bind (Prog.callsIn_liftExcept _) fun _ => Prog.callsIn_pure _

theorem callsIn_atomicCreate {path : String} {payload : Bytes}
    (h : P (.atomicCreate path payload)) : (atomicCreate path payload).CallsIn P :=
  Prog.callsIn_bind (Prog.callsIn_ensure _ _) fun _ =>
    callsIn_orRaise (Prog.callsIn_perform.mpr h)

theorem callsIn_atomicWrite {path : String} {payload : Bytes}
    (h : P (.atomicWrite path payload)) : (atomicWrite path payload).CallsIn P :=
  Prog.callsIn_bind (Prog.callsIn_ensure _ _) fun _ =>
    callsIn_orRaise (Prog.callsIn_perform.mpr h)

theorem callsIn_unlink {path : String} (h : P (.unlink path)) : (unlink path).CallsIn P :=
  callsIn_orRaise (Prog.callsIn_perform.mpr h)

theorem callsIn_readSealed [Sha256] {path sidecar missing mismatch : String}
    (h : P (.look path)) (h' : P (.look sidecar)) :
    (readSealed path sidecar missing mismatch).CallsIn P := by
  refine Prog.callsIn_bind (callsIn_look h) fun _ => ?_
  refine Prog.callsIn_bind (Prog.callsIn_liftExcept _) fun _ => ?_
  refine Prog.callsIn_bind (callsIn_look h') fun _ => ?_
  exact Prog.callsIn_bind (Prog.callsIn_liftExcept _) fun _ => Prog.callsIn_pure _

theorem callsIn_createSealed [Sha256] {path sidecar : String} {state : Json}
    (h : ∀ payload, P (.atomicCreate path payload))
    (h' : ∀ payload, P (.atomicCreate sidecar payload)) (hu : P (.unlink path)) :
    (createSealed path sidecar state).CallsIn P :=
  Prog.callsIn_bind (callsIn_atomicCreate (h _)) fun _ =>
    Prog.callsIn_tryCatch (callsIn_atomicCreate (h' _)) fun _ =>
      Prog.callsIn_bind (callsIn_unlink hu) fun _ => Prog.callsIn_throw _

theorem callsIn_writeSealed [Sha256] {path sidecar : String} {state : Json}
    (h : ∀ payload, P (.atomicWrite path payload))
    (h' : ∀ payload, P (.atomicWrite sidecar payload)) :
    (writeSealed path sidecar state).CallsIn P :=
  Prog.callsIn_bind (callsIn_atomicWrite (h _)) fun _ => callsIn_atomicWrite (h' _)

end Calls

end ProductPdfQr.DeployRollback
