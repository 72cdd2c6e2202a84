/-
# The audit log

`AuditLog`: one canonical JSON line an event, each with the digest of the one before it, and an
anchor file with the number of events and the last digest.
-/
import ProductPdfQr.DeployRollback.Clock

namespace ProductPdfQr.DeployRollback

open Effect Json

/-- `SENSITIVE_AUDIT_WORDS`. -/
def sensitiveAuditWords : List String :=
  ["password", "secret", "private_key", "credential", "token", "pdf_content", "challenge"]

/-- An audit log whose path the constructor accepted. -/
structure AuditLog where
  path : String
  bounded : Text.isAbsolute path = true ∧ path ≠ "/"

/-- `"0" * 64`, what the first event names as the one before it. -/
def genesisDigest : String := String.ofList (List.replicate 64 '0')

/-- `str.lower`, as far as an ASCII word can tell: the Kelvin sign is the one letter outside
ASCII whose lower case is inside. -/
def lowerChar (c : Char) : Char := if c.toNat = 0x212a then 'k' else c.toLower

/-- The word occurs in the key, whatever the case of its letters. -/
def containsWord (key word : String) : Bool :=
  key.toList.tails.any fun rest => word.toList.isPrefixOf (rest.map lowerChar)

namespace AuditLog

/-- `anchor_path`. -/
def anchorPath (a : AuditLog) : String := a.path ++ ".anchor"

/-- The anchor after `count` events, the last with digest `head`. -/
def anchorOf (count : Nat) (head : String) : Json :=
  dict [("event_count", .int count), ("head_sha256", .str head)]

/-- The ends of line that `str.splitlines` knows, a carriage return before a line feed being
one of them. -/
def isLineEnd (c : Char) : Bool :=
  let n := c.toNat
  (10 ≤ n && n ≤ 13) || (28 ≤ n && n ≤ 30) || n = 0x85 || n = 0x2028 || n = 0x2029

/-- Universal newlines, as `read_text` translates them. -/
def universalNewlines : List Char → List Char
  | [] => []
  | '\r' :: '\n' :: rest => '\n' :: universalNewlines rest
  | c :: rest => (if c = '\r' then '\n' else c) :: universalNewlines rest

/-- `text.splitlines()`, of a text whose newlines were translated. -/
def splitLines : List Char → List (List Char)
  | [] => []
  | c :: rest =>
    if isLineEnd c then [] :: splitLines rest
    else match splitLines rest with
      | line :: lines => (c :: line) :: lines
      | [] => [[c]]

variable [Sha256]

/-- One line of the log, after an event with digest `previous`: the event and its digest. -/
def checkLine (previous : String) (line : List Char) : Except Exn String :=
  match loadsText line with
  | .error .surrogate => .error .unicodeError
  | .error _ => .error (.rollbackSafety "audit log contains invalid JSON")
  | .ok (.obj fields) =>
    let observed := (Json.obj fields).get "event_sha256"
    let event := Json.obj (eraseField "event_sha256" fields)
    if (event.get "previous_sha256").pyEq (.str previous) && observed.pyEq (.str (digestJson event))
    then .ok (digestJson event)
    else .error (.rollbackSafety "audit chain was modified or truncated")
  | .ok _ => .error (.rollbackSafety "audit event is invalid")

/-- The number of events of a log and the digest of the last. -/
def checkLines : Nat → String → List (List Char) → Except Exn (Nat × String)
  | count, previous, [] => .ok (count, previous)
  | count, previous, line :: lines => do
    let digest ← checkLine previous line
    checkLines (count + 1) digest lines

/-- The chain in the content of a log. -/
def checkChain (content : Bytes) : Except Exn (Nat × String) :=
  match String.fromUTF8? content with
  | none => .error .unicodeError
  | some text => checkLines 0 genesisDigest (splitLines (universalNewlines text.toList))

/-- The chain of what stands at the log's path. -/
def chainOf : Node → Except Exn (Nat × String)
  | .file _ content => checkChain content
  | _ => .error (.rollbackSafety "audit log is not a regular file")

/-- `_events`: the number of events and the digest of the last. -/
def events (a : AuditLog) : Op (Nat × String) := do
  let node ← orRaise (look a.path)
  match node.filter Node.present with
  | none => return (0, genesisDigest)
  | some node => do
    let chain ← .liftExcept (chainOf node)
    let anchored ← orRaise (look a.anchorPath)
    .ensure (anchored.any fun n => n.content?.isSome)
      (.rollbackSafety "audit head anchor is missing")
    let anchor ← readJsonFile a.anchorPath
    .ensure (anchor.pyEq (anchorOf chain.1 chain.2))
      (.rollbackSafety "audit chain was truncated or its head changed")
    return chain

/-- The event as the log keeps it: with the digest before it and its own. -/
def chained (event : Json) (previous : String) : Json :=
  let body := event.set "previous_sha256" (.str previous)
  body.set "event_sha256" (.str (digestJson body))

/-- `append`. -/
def append (a : AuditLog) (event : Json) : Op String := do
  .ensure (!event.keys.any fun key => sensitiveAuditWords.any (containsWord key))
    (.rollbackSafety "sensitive field is forbidden in rollback audit")
  let chain ← a.events
  let body := event.set "previous_sha256" (.str chain.2)
  orRaise (Prog.perform (Call.append a.path (canonicalJson (chained event chain.2))))
  atomicWrite a.anchorPath (canonicalJson (anchorOf (chain.1 + 1) (digestJson body)))
  return digestJson body

/-! ### The calls of an audit log -/

theorem events_notHost (a : AuditLog) : a.events.CallsIn NotHost := by
  refine Prog.callsIn_bind (callsIn_orRaise (callsIn_look trivial)) fun node => ?_
  split
  · exact Prog.callsIn_pure _
  · refine Prog.callsIn_bind (Prog.callsIn_liftExcept _) fun chain => ?_
    refine Prog.callsIn_bind (callsIn_orRaise (callsIn_look trivial)) fun anchored => ?_
    refine Prog.callsIn_bind (Prog.callsIn_ensure _ _) fun _ => ?_
    refine Prog.callsIn_bind (callsIn_readJsonFile trivial) fun anchor => ?_
    exact Prog.callsIn_bind (Prog.callsIn_ensure _ _) fun _ => Prog.callsIn_pure _

theorem append_notHost (a : AuditLog) (event : Json) : (a.append event).CallsIn NotHost := by
  refine Prog.callsIn_bind (Prog.callsIn_ensure _ _) fun _ => ?_
  refine Prog.callsIn_bind a.events_notHost fun chain => ?_
  refine Prog.callsIn_bind (callsIn_orRaise (Prog.callsIn_perform.mpr trivial)) fun _ => ?_
  exact Prog.callsIn_bind (callsIn_atomicWrite trivial) fun _ => Prog.callsIn_pure _

end AuditLog

end ProductPdfQr.DeployRollback
