/-
# What the audit log proves of its past

`AuditLog.verify`: the events of a log that its anchor confirms.  The log and its anchor are a
chain of digests; this module says what that commits to, what comes back of the events that
were appended, and what a crash between the two files leaves.
-/
import ProductPdfQr.DeployRollback.Faultless
import ProductPdfQr.HashChain
import ProductPdfQr.Json.Extend

namespace ProductPdfQr.DeployRollback

open Effect Json

namespace AuditLog

/-! ## 1. Verification -/

/-- `event["event_sha256"]`, once it was checked. -/
def digestOf (event : Json) : String := ((event.get "event_sha256").str?).getD ""

/-- The digest of the last of the events that follow `previous`. -/
def lastDigest (previous : String) (events : List Json) : String :=
  events.foldl (fun _ event => digestOf event) previous

section Trail

variable [Sha256]

/-- One line of the log: the event in it. -/
def readLine (previous : String) (line : List Char) : Except Exn Json :=
  match loadsText line with
  | .error .surrogate => .error .unicodeError
  | .error _ => .error (.rollbackSafety "audit log contains invalid JSON")
  | .ok (.obj fields) =>
    let observed := (Json.obj fields).get "event_sha256"
    let event := Json.obj (eraseField "event_sha256" fields)
    if (event.get "previous_sha256").pyEq (.str previous) && observed.pyEq (.str (digestJson event))
    then .ok (event.set "event_sha256" observed)
    else .error (.rollbackSafety "audit chain was modified or truncated")
  | .ok _ => .error (.rollbackSafety "audit event is invalid")

/-- The lines of the log. -/
def readLines : String → List (List Char) → Except Exn (List Json)
  | _, [] => .ok []
  | previous, line :: lines => do
    let event ← readLine previous line
    let events ← readLines (digestOf event) lines
    return event :: events

/-- The content of a log. -/
def readContent (content : Bytes) : Except Exn (List Json) :=
  match String.fromUTF8? content with
  | none => .error .unicodeError
  | some text => readLines genesisDigest (splitLines (universalNewlines text.toList))

/-- What stands at the log's path. -/
def readNode : Node → Except Exn (List Json)
  | .file _ content => readContent content
  | _ => .error (.rollbackSafety "audit log is not a regular file")

/-- `verify`. -/
def verify (a : AuditLog) : Op (List Json) := do
  let node ← orRaise (look a.path)
  match node.filter Node.present with
  | none => return []
  | some node => do
    let events ← .liftExcept (readNode node)
    let anchored ← orRaise (look a.anchorPath)
    .ensure (anchored.any fun n => n.content?.isSome)
      (.rollbackSafety "audit head anchor is missing")
    let anchor ← readJsonFile a.anchorPath
    .ensure (anchor.pyEq (anchorOf events.length (lastDigest genesisDigest events)))
      (.rollbackSafety "audit chain was truncated or its head changed")
    return events

/-! ### The digests alone are what `append` looks at -/

theorem readLine_ok {previous : String} {line : List Char} {event : Json}
    (h : readLine previous line = .ok event) :
    ∃ fields, loadsText line = .ok (.obj fields) ∧
      (Json.obj (eraseField "event_sha256" fields)).get "previous_sha256" = .str previous ∧
      event = (Json.obj (eraseField "event_sha256" fields)).set "event_sha256"
        (.str (digestJson (.obj (eraseField "event_sha256" fields)))) := by
  unfold readLine at h
  split at h
  · cases h
  · cases h
  · next fields hload =>
    dsimp only at h
    split at h
    · next hchecks =>
      obtain ⟨hprevious, hdigest⟩ := Bool.and_eq_true_iff.mp hchecks
      rw [pyEq_str] at hprevious hdigest
      exact ⟨fields, hload, hprevious, by rw [← Except.ok.inj h, hdigest]⟩
    · cases h
  · cases h

omit [Sha256] in
theorem digestOf_set (event : Json) (digest : String) (h : event.isDict = true) :
    digestOf (event.set "event_sha256" (.str digest)) = digest := by
  rw [digestOf, get_set h, if_pos rfl]
  rfl

theorem checkLine_eq (previous : String) (line : List Char) :
    checkLine previous line = (readLine previous line).map digestOf := by
  unfold checkLine readLine
  cases loadsText line with
  | error e => cases e <;> rfl
  | ok value =>
    cases value with
    | obj fields =>
      dsimp only
      by_cases hchecks : (((Json.obj (eraseField "event_sha256" fields)).get "previous_sha256").pyEq
          (.str previous) && ((Json.obj fields).get "event_sha256").pyEq
            (.str (digestJson (.obj (eraseField "event_sha256" fields))))) = true
      · have hdigest := pyEq_str.mp (Bool.and_eq_true_iff.mp hchecks).2
        rw [if_pos hchecks, if_pos hchecks, hdigest]
        exact congrArg Except.ok (digestOf_set _ _ rfl).symm
      · rw [if_neg hchecks, if_neg hchecks]
        rfl
    | _ => rfl

theorem checkLines_eq (lines : List (List Char)) : ∀ (count : Nat) (previous : String),
    checkLines count previous lines = (readLines previous lines).map fun events =>
      (count + events.length, lastDigest previous events) := by
  induction lines with
  | nil => exact fun _ _ => rfl
  | cons line lines ih =>
    intro count previous
    rw [checkLines, readLines, checkLine_eq]
    cases hline : readLine previous line with
    | error e => rfl
    | ok event =>
      change checkLines (count + 1) (digestOf event) lines = _
      rw [ih]
      cases hlines : readLines (digestOf event) lines with
      | error e => simp [Except.map, bind, Except.bind, hlines]
      | ok events =>
        simp only [Except.map, bind, Except.bind, pure, Except.pure, hlines, List.length_cons]
        exact congrArg (fun n => Except.ok (n, _)) (by omega)

theorem chainOf_eq (node : Node) : chainOf node = (readNode node).map fun events =>
    (events.length, lastDigest genesisDigest events) := by
  cases node with
  | file loose content =>
    change checkChain content = (readContent content).map _
    unfold checkChain readContent
    cases String.fromUTF8? content with
    | none => rfl
    | some text =>
      dsimp only
      rw [checkLines_eq]
      exact congrArg (fun f => Except.map f _) (funext fun events => by rw [Nat.zero_add])
  | link content => rfl
  | other => rfl

omit [Sha256] in
theorem liftExcept_map_bind {α β γ : Type} (x : Except Exn α) (f : α → β) (g : β → Op γ) :
    ((Prog.liftExcept (x.map f) : Op β) >>= g) =
      ((Prog.liftExcept x : Op α) >>= fun y => g (f y)) := by
  cases x <;> rfl

/-- What `append` knows of the log is what `verify` returns. -/
theorem events_eq (a : AuditLog) : a.events = a.verify >>= fun events =>
    pure (events.length, lastDigest genesisDigest events) := by
  rw [events, verify, bind_assoc]
  refine bind_congr fun node => ?_
  cases node.filter Node.present with
  | none => rfl
  | some node =>
    dsimp only
    rw [chainOf_eq, liftExcept_map_bind]
    simp only [bind_assoc, pure_bind]

/-! ## 2. What verification makes of two files -/

/-- The events that the log and the anchor confirm. -/
def verified (a : AuditLog) (log anchor : Option Node) : Except Exn (List Json) :=
  match log.filter Node.present with
  | none => .ok []
  | some node => do
    let events ← readNode node
    check (anchor.any fun n => n.content?.isSome) "audit head anchor is missing"
    let value ← jsonFile a.anchorPath (.ok anchor)
    check (value.1.pyEq (anchorOf events.length (lastDigest genesisDigest events)))
      "audit chain was truncated or its head changed"
    return events

/-- A log that was there, and its anchor. -/
theorem verified_present {a : AuditLog} {log anchor : Option Node} {node : Node}
    {es : List Json} (hnode : log.filter Node.present = some node) :
    a.verified log anchor = .ok es ↔ readNode node = .ok es ∧
      ∃ content value encodable, anchor = some (.file false content) ∧
        loadsLoosely content = .ok (value, encodable) ∧ value.isDict = true ∧
        value.pyEq (anchorOf es.length (lastDigest genesisDigest es)) = true := by
  rw [verified, hnode]
  dsimp only
  cases hread : readNode node with
  | error e => simp [bind, Except.bind]
  | ok es' =>
    cases hfile : jsonFile a.anchorPath (.ok anchor) with
    | error e =>
      constructor
      · intro h
        simp only [bind, Except.bind, check] at h
        split at h
        · cases h
        · cases h
      · rintro ⟨-, content, value, encodable, rfl, hload, hdict, -⟩
        simp [jsonFile, hload, hdict] at hfile
    | ok value =>
      obtain ⟨value, encodable⟩ := value
      obtain ⟨content, hanchor, hload, hdict⟩ := jsonFile_ok hfile
      obtain rfl := Except.ok.inj hanchor
      simp only [Option.any_some, Node.content?, Option.isSome_some, check, if_true, bind,
        Except.bind, pure, Except.pure, Except.ok.injEq]
      by_cases hsame : value.pyEq (anchorOf es'.length (lastDigest genesisDigest es')) = true
      · rw [if_pos hsame]
        constructor
        · rintro ⟨⟩
          exact ⟨rfl, content, value, encodable, rfl, hload, hdict, hsame⟩
        · rintro ⟨rfl, -⟩
          rfl
      · rw [if_neg hsame]
        refine iff_of_false (by simp) ?_
        rintro ⟨rfl, content', value', encodable', hcontent, hload', -, hsame'⟩
        obtain rfl : content = content' := by simpa using hcontent
        rw [hload] at hload'
        obtain ⟨rfl, -⟩ := Prod.mk.inj (Except.ok.inj hload')
        exact hsame hsame'

omit [Sha256] in
theorem anchorOf_eq (count : Nat) (head : String) : anchorOf count head =
    .obj [("event_count", .int count), ("head_sha256", .str head)] := by
  simp +decide only [anchorOf, dict, List.foldl_cons, List.foldl_nil, insertField, if_false]

omit [Sha256] in
theorem anchorOf_pyEq {count count' : Nat} {head head' : String} :
    (anchorOf count head).pyEq (anchorOf count' head') = true ↔ count = count' ∧ head = head' := by
  rw [anchorOf_eq, anchorOf_eq]
  simp [pyEq, Json.norm, normFields, Int.ofNat_inj]

omit [Sha256] in
theorem plain_anchorOf (count : Nat) (head : String) : Plain (anchorOf count head) :=
  plain_dict (by simp [PlainFields, Plain])

/-- An anchor as `append` writes it confirms the events it was written for. -/
theorem verified_anchored {a : AuditLog} {log : Option Node} {node : Node} {es : List Json}
    (hnode : log.filter Node.present = some node) (count : Nat) (head : String) :
    a.verified log (some (.file false (canonicalJson (anchorOf count head)))) = .ok es ↔
      readNode node = .ok es ∧ es.length = count ∧ lastDigest genesisDigest es = head := by
  have hload := loadsLoosely_of_loads (loads_canonicalJson (plain_anchorOf count head))
  have hsame : (anchorOf count head).pyEq (anchorOf es.length (lastDigest genesisDigest es)) =
      true ↔ es.length = count ∧ lastDigest genesisDigest es = head := by
    rw [anchorOf_pyEq, eq_comm, eq_comm (a := head)]
  rw [verified_present hnode, ← hsame]
  refine and_congr_right fun _ => ⟨?_, fun h => ⟨_, _, _, rfl, hload, rfl, h⟩⟩
  rintro ⟨content, value, encodable, hcontent, hload', -, h⟩
  obtain rfl : canonicalJson (anchorOf count head) = content := by simpa using hcontent
  rw [hload] at hload'
  obtain ⟨rfl, -⟩ := Prod.mk.inj (Except.ok.inj hload')
  exact h

omit [Sha256] in
theorem wp_orRaise_look (w : World) (path : String) :
    (orRaise (look path)).wp machine (looked w fun node => node = w.files path) w :=
  looked_bind (wp_look w path) fun _ _ _ hr => looked_liftExcept fun node hnode => hr node hnode

omit [Sha256] in
theorem looked_ensure {w : World} {c : Bool} {e : Exn} :
    (Prog.ensure c e : Op Unit).wp machine (looked w fun _ => c = true) w :=
  Prog.wp_ensure.mpr ⟨fun h => ⟨Quiet.refl w, h⟩, fun _ => Quiet.refl w⟩

/-- Whatever goes wrong with the files, nothing else is returned. -/
theorem wp_verify (a : AuditLog) (w : World) : a.verify.wp machine (looked w fun es =>
    a.verified (w.files a.path) (w.files a.anchorPath) = .ok es) w := by
  refine looked_bind (wp_orRaise_look w a.path) fun log w₁ hw₁ hlog => ?_
  obtain rfl := hlog
  cases hnode : (w.files a.path).filter Node.present with
  | none => exact looked_pure (by rw [verified, hnode])
  | some node =>
    dsimp only
    refine looked_bind (looked_liftExcept (F := fun es => readNode node = .ok es) fun _ h => h)
      fun es w₂ hw₂ hread => ?_
    refine looked_bind (wp_orRaise_look w₂ a.anchorPath) fun anchor w₃ hw₃ _ => ?_
    refine looked_bind looked_ensure fun _ w₄ hw₄ _ => ?_
    refine looked_bind (wp_readJsonFile w₄ a.anchorPath) fun value w₅ hw₅ hvalue => ?_
    refine looked_bind looked_ensure fun _ w₆ hw₆ hsame => looked_pure ?_
    obtain ⟨content, encodable, hanchor, hload, hdict⟩ := hvalue
    rw [hw₄.files, hw₃.files, hw₂.files, hw₁.files] at hanchor
    exact (verified_present hnode).mpr ⟨hread, content, value, encodable, hanchor, hload, hdict, hsame⟩

/-- Without faults verification is what the two files say. -/
theorem run_verify (a : AuditLog) {w : World} (h : w.Faultless) : ∃ k, a.verify.run machine w =
    (a.verified (w.files a.path) (w.files a.anchorPath), { w with tick := w.tick + k }) := by
  rw [verify, Prog.run_bind_ok (run_orRaise_look h a.path), verified]
  cases (w.files a.path).filter Node.present with
  | none => exact ⟨1, rfl⟩
  | some node =>
    dsimp only
    cases hread : readNode node with
    | error e => exact ⟨1, rfl⟩
    | ok es =>
      rw [Prog.run_bind_ok (Prog.run_liftExcept _ _),
        Prog.run_bind_ok (run_orRaise_look h.next a.anchorPath), World.next_files]
      cases hanchored : (w.files a.anchorPath).any fun n => n.content?.isSome with
      | false => exact ⟨2, rfl⟩
      | true =>
        rw [Prog.run_bind_ok (Prog.run_ensure _ _ rfl), readJsonFile]
        have hlook := run_look h.next.next a.anchorPath
        rw [bind_assoc, Prog.run_bind_ok hlook]
        cases hfile : jsonFile a.anchorPath (.ok (w.files a.anchorPath)) with
        | error e =>
          simp only [World.next_files, hfile]
          exact ⟨3, rfl⟩
        | ok value =>
          simp only [World.next_files, hfile]
          refine ⟨3, ?_⟩
          change Prog.run machine (Prog.ensure (value.1.pyEq (anchorOf es.length
            (lastDigest genesisDigest es))) _ >>= fun _ => pure es) w.next.next.next =
              (check (value.1.pyEq (anchorOf es.length (lastDigest genesisDigest es))) _ >>=
                fun _ => .ok es, _)
          cases value.1.pyEq (anchorOf es.length (lastDigest genesisDigest es)) <;> rfl

/-! ## 3. The chain -/

omit [Sha256] in
/-- What an event is hashed as, after `previous`. -/
def body (previous : String) (event : Json) : Json := event.set "previous_sha256" (.str previous)

/-- A body with its digest. -/
def sealed (body : Json) : Json := body.set "event_sha256" (.str (digestJson body))

/-- The bodies of the events that follow `previous`. -/
def bodies : String → List Json → List Json
  | _, [] => []
  | previous, event :: events => body previous event :: bodies (digestAfter previous event) events

/-- The events as the log keeps them. -/
def trail (events : List Json) : List Json := (bodies genesisDigest events).map sealed

/-- Bodies are hashed by their bytes, and name the digest before them. -/
def chain : HashChain Json Bytes String where
  code := canonicalJson
  hash := hexdigest
  prev body := (body.get "previous_sha256").str?
  prev_code h := str?_get_of_print (canonicalJson_eq_iff.mp h) _

theorem chain_digest (body : Json) : chain.digest body = digestJson body := rfl

theorem headAfter_bodies (events : List Json) : ∀ previous,
    chain.headAfter previous (bodies previous events) = headOf previous events := by
  induction events with
  | nil => exact fun _ => rfl
  | cons event events ih => exact fun previous => ih (digestAfter previous event)

theorem linked_bodies (events : List Json) : ∀ previous, (∀ e ∈ events, e.isDict = true) →
    chain.Linked previous (bodies previous events) := by
  induction events with
  | nil => exact fun _ _ => trivial
  | cons event events ih =>
    intro previous hdict
    refine ⟨?_, ih _ fun e he => hdict e (List.mem_cons_of_mem _ he)⟩
    change ((event.set "previous_sha256" (.str previous)).get "previous_sha256").str? = _
    rw [get_set (hdict event (List.mem_cons_self ..)), if_pos rfl]
    rfl

theorem length_bodies (events : List Json) : ∀ previous,
    (bodies previous events).length = events.length := by
  induction events with
  | nil => exact fun _ => rfl
  | cons event events ih => exact fun previous => congrArg (· + 1) (ih _)

/-- The bodies that the lines of a log are checked to hold. -/
structure Reads (previous : String) (lines : List (List Char)) (events read : List Json) : Prop where
  seals : events = read.map sealed
  linked : chain.Linked previous read
  head : lastDigest previous events = chain.headAfter previous read
  dict : ∀ b ∈ read, b.isDict = true
  occurs : ∀ b ∈ read, ∃ line ∈ lines, ∃ fields, loadsText line = .ok (.obj fields) ∧
    b = .obj (eraseField "event_sha256" fields)

theorem readLines_ok (lines : List (List Char)) : ∀ {previous : String} {events : List Json},
    readLines previous lines = .ok events → ∃ read, Reads previous lines events read := by
  induction lines with
  | nil =>
    intro previous events h
    obtain rfl := Except.ok.inj h
    exact ⟨[], rfl, trivial, rfl, fun _ hb => absurd hb List.not_mem_nil,
      fun _ hb => absurd hb List.not_mem_nil⟩
  | cons line lines ih =>
    intro previous events h
    obtain ⟨event, hevent, h⟩ := bind_ok h
    obtain ⟨rest, hrest, h⟩ := bind_ok h
    obtain rfl := Except.ok.inj h
    obtain ⟨fields, hload, hprevious, hsealed⟩ := readLine_ok hevent
    let b := Json.obj (eraseField "event_sha256" fields)
    have hdigest : digestOf event = digestJson b := by rw [hsealed]; exact digestOf_set b _ rfl
    obtain ⟨read, hread⟩ := ih hrest
    refine ⟨b :: read, ?_, ⟨?_, ?_⟩, ?_, ?_, ?_⟩
    · rw [List.map_cons, ← hread.seals, hsealed]
      rfl
    · exact congrArg str? hprevious
    · rw [chain_digest, ← hdigest]
      exact hread.linked
    · change lastDigest (digestOf event) rest = chain.headAfter (digestJson b) read
      rw [← hdigest]
      exact hread.head
    · intro b' hb'
      rcases List.mem_cons.mp hb' with rfl | hb'
      · rfl
      · exact hread.dict b' hb'
    · intro b' hb'
      rcases List.mem_cons.mp hb' with rfl | hb'
      · exact ⟨line, List.mem_cons_self .., fields, hload, rfl⟩
      · obtain ⟨line', hline', hfields⟩ := hread.occurs b' hb'
        exact ⟨line', List.mem_cons_of_mem _ hline', hfields⟩

/-- Bodies written alike are sealed alike. -/
theorem print_sealed {b b' : Json} (h : print b = print b') (hb : b.isDict = true) :
    print (sealed b) = print (sealed b') := by
  have hdigest : digestJson b = digestJson b' :=
    congrArg hexdigest (canonicalJson_eq_iff.mpr h)
  rw [sealed, sealed, hdigest]
  exact print_set h hb _ _

theorem map_print_sealed {read read' : List Json} (h : read.map canonicalJson =
    read'.map canonicalJson) (hdict : ∀ b ∈ read, b.isDict = true) :
    (read.map sealed).map print = (read'.map sealed).map print := by
  induction read generalizing read' with
  | nil =>
    rw [List.map_nil, eq_comm, List.map_eq_nil_iff] at h
    rw [h]
  | cons b read ih =>
    cases read' with
    | nil => cases h
    | cons b' read' =>
      obtain ⟨hb, hrest⟩ := List.cons.inj h
      rw [List.map_cons, List.map_cons, List.map_cons, List.map_cons,
        print_sealed (canonicalJson_eq_iff.mp hb) (hdict b (List.mem_cons_self ..)),
        ih hrest fun x hx => hdict x (List.mem_cons_of_mem _ hx)]

/-! ## 4. What the anchor commits to -/

/-- The events are those of the history, with their chain fields: they are written alike. -/
def SameEvents (events history : List Json) : Prop := events.map print = history.map print

/-- What is hashed when these events are appended. -/
def hashedInputs (history : List Json) : Set Bytes :=
  { input | ∃ b ∈ bodies genesisDigest history, input = canonicalJson b }

/-- What is hashed when this log is verified. -/
def readInputs (log : Option Node) : Set Bytes :=
  { input | ∃ loose content text line fields, log = some (.file loose content) ∧
    String.fromUTF8? content = some text ∧
    line ∈ splitLines (universalNewlines text.toList) ∧ loadsText line = .ok (.obj fields) ∧
    input = canonicalJson (.obj (eraseField "event_sha256" fields)) }

/-- The length and the last digest commit to the events. -/
theorem readNode_commits {node : Node} {history events : List Json}
    (hdict : ∀ e ∈ history, e.isDict = true)
    (hfree : Sha256.CollisionFreeOn (hashedInputs history ∪ readInputs (some node)))
    (hread : readNode node = .ok events) (hlength : events.length = history.length)
    (hhead : lastDigest genesisDigest events = headOf genesisDigest history) :
    SameEvents events (trail history) := by
  cases node with
  | file loose content =>
    change readContent content = _ at hread
    unfold readContent at hread
    cases htext : String.fromUTF8? content with
    | none => simp [htext] at hread
    | some text =>
      rw [htext] at hread
      obtain ⟨read, hreads⟩ := readLines_ok _ hread
      have hcommit := chain.commit hfree hreads.linked (linked_bodies history genesisDigest hdict)
        (by rw [length_bodies, ← hlength, hreads.seals, List.length_map])
        (by rw [← hreads.head, hhead, headAfter_bodies]) ?_ ?_
      · rw [SameEvents, hreads.seals, trail]
        exact map_print_sealed hcommit.2 hreads.dict
      · intro b hb
        obtain ⟨line, hline, fields, hload, rfl⟩ := hreads.occurs b hb
        exact .inr ⟨loose, content, text, line, fields, rfl, htext, hline, hload, rfl⟩
      · exact fun b hb => .inl ⟨b, hb, rfl⟩
  | link content => cases hread
  | other => cases hread

/-- A log that was begun afresh, and the events appended to it.  Between two appends anything may
happen that leaves the log and its anchor alone. -/
inductive Appended (a : AuditLog) : List Json → World → Prop
  | fresh {w : World} : w.files a.path = none → w.files a.anchorPath = none → Appended a [] w
  | append {history : List Json} {w w' : World} {event : Json} {digest : String} :
      Appended a history w → event.isDict = true →
        (a.append event).run machine w = (.ok digest, w') → Appended a (history ++ [event]) w'
  | aside {history : List Json} {w w' : World} : Appended a history w →
      w'.files a.path = w.files a.path → w'.files a.anchorPath = w.files a.anchorPath →
        Appended a history w'

/-- What stands in the two files after these events. -/
def Anchored (a : AuditLog) (history : List Json) (w : World) : Prop :=
  if history = [] then w.files a.path = none ∧ w.files a.anchorPath = none
  else (w.files a.path).any Node.present = true ∧ w.files a.anchorPath = some (.file false
    (canonicalJson (anchorOf history.length (headOf genesisDigest history))))

omit [Sha256] in
theorem append_present {payload : Bytes} {log node : Option Node}
    (h : Node.append payload log = node) (hnode : node ≠ none) : node.any Node.present = true := by
  rcases log with _ | (⟨loose, content⟩ | ⟨content⟩ | -) <;> subst h
  · rfl
  · rfl
  · rfl
  · exact absurd rfl hnode

omit [Sha256] in
theorem step_append_ok {path : String} {payload : Bytes} {w : World}
    (h : (World.step (.append path payload) w).1 = .ok ()) :
    ∃ node, Node.append payload (w.files path) = some node ∧
      (World.step (.append path payload) w).2.files = (w.put path (some node)).files := by
  simp only [World.step] at h ⊢
  cases hnode : Node.append payload (w.files path) with
  | none => simp [hnode] at h
  | some node =>
    simp only [hnode] at h
    by_cases hfault : w.fault w.tick = .before
    · rw [if_pos hfault] at h
      cases h
    · exact ⟨node, rfl, by simp only [if_neg hfault, World.next_files]⟩

omit [Sha256] in
/-- A line that was appended without complaint is there. -/
theorem wp_appendLine (path : String) (payload : Bytes) (w : World) :
    (orRaise (Prog.perform (Call.append path payload)) : Op Unit).wp machine
      ⟨fun _ w' => ∃ node, Node.append payload (w.files path) = some node ∧
        w'.files = (w.put path (some node)).files, fun _ _ => True, fun _ => True⟩ w := by
  have hcall : (Prog.perform (Call.append path payload) : Op (Except Exn Unit)).wp machine
      ⟨fun answer w' => answer = .ok () → ∃ node, Node.append payload (w.files path) = some node ∧
        w'.files = (w.put path (some node)).files, fun _ _ => True, fun _ => True⟩ w :=
    (Prog.wp_perform (o := Call.append path payload)).mpr ⟨trivial, step_append_ok⟩
  refine Prog.wp_bind_of hcall (fun answer w' h => ?_) (fun _ _ _ => trivial) (fun _ _ => trivial)
  exact Prog.wp_liftExcept.mpr ⟨fun _ hanswer => h hanswer, fun _ _ => trivial⟩

/-- An append that returned wrote its line and its anchor. -/
theorem wp_append (a : AuditLog) (event : Json) (w : World) :
    (a.append event).wp machine ⟨fun _ w' => ∃ events,
      a.verified (w.files a.path) (w.files a.anchorPath) = .ok events ∧
        (w'.files a.path).any Node.present = true ∧
        w'.files a.anchorPath = some (.file false (canonicalJson (anchorOf (events.length + 1)
          (digestAfter (lastDigest genesisDigest events) event)))),
      fun _ _ => True, fun _ => True⟩ w := by
  have hne : a.path ≠ a.anchorPath := (Text.append_ne_self (by decide)).symm
  unfold append
  refine Prog.wp_bind_of (looked_ensure (w := w)) ?_ (fun _ _ _ => trivial) (fun _ _ => trivial)
  rintro - w₁ ⟨hw₁, -⟩
  rw [events_eq, bind_assoc]
  refine Prog.wp_bind_of (wp_verify a w₁) ?_ (fun _ _ _ => trivial) (fun _ _ => trivial)
  rintro events w₂ ⟨hw₂, hverified⟩
  rw [hw₁.files] at hverified
  rw [pure_bind]
  dsimp only
  refine Prog.wp_bind_of (wp_appendLine _ _ w₂) ?_ (fun _ _ _ => trivial) (fun _ _ => trivial)
  rintro - w₃ ⟨node, hnode, hw₃⟩
  refine Prog.wp_bind_of (wp_atomicWrite _ _ w₃) ?_ (fun _ _ _ => trivial) (fun _ _ => trivial)
  intro _ w₄ (hw₄ : w₄.files = _)
  rw [Prog.wp_pure]
  refine ⟨events, hverified, ?_, by rw [hw₄, World.put_same]; rfl⟩
  rw [hw₄, World.put_other _ _ hne, hw₃, World.put_same]
  exact append_present hnode (Option.some_ne_none _)

/-- Successful appends keep the two files in step. -/
theorem appended_anchored {a : AuditLog} {history : List Json} {w : World}
    (h : Appended a history w) :
    Anchored a history w ∧ ∀ e ∈ history, e.isDict = true := by
  induction h with
  | fresh hlog hanchor => exact ⟨⟨hlog, hanchor⟩, fun _ h => absurd h List.not_mem_nil⟩
  | aside _ hlog hanchor ih => exact ⟨by rw [Anchored, hlog, hanchor]; exact ih.1, ih.2⟩
  | @append history w w' event digest _ hevent hrun ih =>
    obtain ⟨hanchored, hdict⟩ := ih
    refine ⟨?_, fun e he => ?_⟩
    · obtain ⟨events, hverified, hpresent, hanchor⟩ := Prog.run_ok_of_wp (wp_append a event w) hrun
      have hcount : events.length = history.length ∧
          lastDigest genesisDigest events = headOf genesisDigest history := by
        unfold Anchored at hanchored
        split at hanchored
        · next hempty =>
          rw [verified, hanchored.1] at hverified
          obtain rfl := Except.ok.inj hverified
          rw [hempty]
          exact ⟨rfl, rfl⟩
        · obtain ⟨hlog, hold⟩ := hanchored
          obtain ⟨node, hnode⟩ : ∃ node, (w.files a.path).filter Node.present = some node := by
            cases hfile : w.files a.path with
            | none => simp [hfile] at hlog
            | some node =>
              rw [hfile, Option.any_some] at hlog
              exact ⟨node, Option.filter_some_pos hlog⟩
          rw [hold, verified_anchored hnode] at hverified
          exact hverified.2
      rw [Anchored, if_neg (by simp)]
      refine ⟨hpresent, hanchor.trans ?_⟩
      rw [hcount.1, hcount.2, List.length_append, headOf, headOf, List.foldl_append]
      rfl
    · rcases List.mem_append.mp he with he | he
      · exact hdict e he
      · rw [List.mem_singleton.mp he]
        exact hevent

/-- Whoever verifies the log later is refused, or gets exactly the history. -/
def Evident (a : AuditLog) (history : List Json) (log anchor : Option Node) : Prop :=
  ∀ w events w', w.files a.path = log → w.files a.anchorPath = anchor →
    a.verify.run machine w = (.ok events, w') → SameEvents events (trail history)

/-- A world with these two files, in which nothing fails. -/
def readable (a : AuditLog) (w : World) (log : Option Node) : World :=
  { w with files := fun p => if p = a.path then log else w.files p, fault := fun _ => .none }

omit [Sha256] in
theorem readable_path (a : AuditLog) (w : World) (log : Option Node) :
    (readable a w log).files a.path = log :=
  if_pos rfl

omit [Sha256] in
theorem readable_anchorPath (a : AuditLog) (w : World) (log : Option Node) :
    (readable a w log).files a.anchorPath = w.files a.anchorPath :=
  if_neg (Text.append_ne_self (by decide))

theorem trail_eq_nil {history : List Json} (h : trail history = []) : history = [] := by
  cases history with
  | nil => rfl
  | cons e history => cases h

/-- **Tamper evidence.**  With the anchor untouched, whatever stands in place of the log is
refused or is the history, unless nothing stands there after events were appended. -/
theorem evident_iff (a : AuditLog) {history : List Json} {w : World} (h : Appended a history w)
    (log : Option Node)
    (hfree : Sha256.CollisionFreeOn (hashedInputs history ∪ readInputs log)) :
    Evident a history log (w.files a.anchorPath) ↔
      history = [] ∨ log.any Node.present = true := by
  obtain ⟨hanchored, hdict⟩ := appended_anchored h
  constructor
  · intro hevident
    by_contra hnot
    obtain ⟨hhistory, hlog⟩ := not_or.mp hnot
    have hnone : log.filter Node.present = none := by
      cases log with
      | none => rfl
      | some node => simpa using hlog
    obtain ⟨k, hrun⟩ := run_verify a (w := readable a w log) fun _ => rfl
    rw [readable_path, verified, hnone] at hrun
    have hsame := hevident _ [] _ (readable_path ..) (readable_anchorPath ..) hrun
    exact hhistory (trail_eq_nil (List.map_eq_nil_iff.mp hsame.symm))
  · intro hthere w' events w'' hpath hanchor hrun
    obtain ⟨-, hverified⟩ := Prog.run_ok_of_wp (wp_verify a w') hrun
    rw [hpath, hanchor] at hverified
    cases hnode : log.filter Node.present with
    | none =>
      rcases hthere with rfl | hthere
      · rw [verified, hnode] at hverified
        obtain rfl := Except.ok.inj hverified
        rfl
      · cases log with
        | none => cases hthere
        | some node => simp_all
    | some node =>
      have hlog : log = some node := (Option.filter_eq_some_iff.mp hnode).1
      by_cases hempty : history = []
      · rw [Anchored, if_pos hempty] at hanchored
        rw [hanchored.2] at hverified
        obtain ⟨-, content, value, encodable, hnone, -⟩ := (verified_present hnode).mp hverified
        cases hnone
      · rw [Anchored, if_neg hempty] at hanchored
        rw [hanchored.2] at hverified
        obtain ⟨hread, hlength, hhead⟩ := (verified_anchored hnode _ _).mp hverified
        exact readNode_commits hdict (hlog ▸ hfree) hread hlength hhead

end Trail

/-! ### A log that was deleted -/

section

attribute [local instance] zeroSha256

/-- A log, and an event that was appended to it. -/
def sampleLog : AuditLog := ⟨"/srv/audit/rollback.jsonl", by decide⟩

def sampleEvent : Json := dict [("result", .str "refused")]

/-- A world without files in which nothing fails. -/
def bareWorld : World where
  files _ := none
  fault _ := .none
  wall _ := ⟨0, endOfTime_pos⟩
  monotonic _ := 0
  host _ _ := .ok .null
  tick := 0
  history := []

theorem sampleEvent_loggable : Loggable genesisDigest sampleEvent where
  plain := plain_dict (by simp [PlainFields, Plain])
  dict := rfl
  fresh := by decide
  oneLine := fun c hc => by
    have hline : (print (chained sampleEvent genesisDigest)).all (fun c => !isLineEnd c) = true := by
      decide +kernel
    simpa using List.all_eq_true.mp hline c hc

theorem sample_appended : ∃ w, Appended sampleLog [sampleEvent] w := by
  have hlogged : sampleLog.Logged bareWorld [] :=
    ⟨fun _ => rfl, trivial, rfl, fun h => absurd rfl h, by simp [bareWorld]⟩
  obtain ⟨digest, w, hrun, -⟩ := run_append hlogged (by decide) sampleEvent_loggable
  exact ⟨w, .append (.fresh rfl rfl) rfl hrun⟩

/-- The deleted log verifies as one without events. -/
theorem deletion_accepted : ¬∀ (history : List Json) (w : World),
    Appended sampleLog history w → Evident sampleLog history none (w.files sampleLog.anchorPath) := by
  intro hall
  obtain ⟨w, happended⟩ := sample_appended
  obtain ⟨k, hrun⟩ := run_verify sampleLog (w := readable sampleLog w none) fun _ => rfl
  rw [readable_path] at hrun
  have hsame := hall _ w happended _ _ _ (readable_path ..) (readable_anchorPath ..) hrun
  exact absurd (congrArg List.length hsame) (by simp [trail, bodies])

/-- Nothing is hashed in an empty log. -/
theorem readInputs_empty : readInputs (some (.file false ByteArray.empty)) = ∅ := by
  refine Set.eq_empty_of_forall_notMem fun input => ?_
  rintro ⟨loose, content, text, line, fields, hlog, htext, hline, -⟩
  obtain ⟨-, rfl⟩ := Node.file.inj (Option.some.inj hlog)
  obtain rfl := Option.some.inj ((fromUTF8?_toUTF8 "").symm.trans htext)
  cases hline

theorem hashedInputs_sample : hashedInputs [sampleEvent] =
    {canonicalJson (body genesisDigest sampleEvent)} := by
  refine Set.ext fun input => ⟨?_, ?_⟩
  · rintro ⟨b, hb, rfl⟩
    rw [List.mem_singleton.mp hb]
    rfl
  · rintro rfl
    exact ⟨_, List.mem_singleton_self _, rfl⟩

theorem evident_iff_emptied : ∃ w, Appended sampleLog [sampleEvent] w ∧
    (Evident sampleLog [sampleEvent] (some (.file false ByteArray.empty))
        (w.files sampleLog.anchorPath) ↔
      [sampleEvent] = [] ∨ (some (Node.file false ByteArray.empty)).any Node.present = true) := by
  obtain ⟨w, happended⟩ := sample_appended
  refine ⟨w, happended, evident_iff sampleLog happended _ ?_⟩
  rw [hashedInputs_sample, readInputs_empty, Set.union_empty]
  exact Set.injOn_singleton _ _

end

end AuditLog

end ProductPdfQr.DeployRollback
