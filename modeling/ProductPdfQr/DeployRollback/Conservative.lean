/-
# Whatever stands in the files of a publication state

`choose_rollback_path` turns every failure of the record it reads into the conservative answer,
with one exception: text that cannot be decoded or encoded raises an error that it does not
catch.  `Legible` says of the files, as they are looked at, that this does not happen, and the
main result is that a path is returned exactly then.

A run of `read` is a function of what its four looks answer (`readOutcome`), so the rest is about
that function.
-/
import ProductPdfQr.DeployRollback.Evidence

namespace ProductPdfQr.DeployRollback

open Effect Json

/-! ## 1. What the looks answer -/

/-- What the look at `path` answers that is made `k` calls from now. -/
def World.seen (w : World) (k : Nat) (path : String) : Except Exn (Option Node) :=
  if w.fault (w.tick + k) = .none then .ok (w.files path) else .error World.failure

theorem run_look_seen (w : World) (path : String) :
    (look path).run machine w = (.ok (w.seen 0 path), w.next) := rfl

section

variable [Sha256]

namespace PublicationState

variable (p : PublicationState)

/-- What `read` makes of the answers to its four looks. -/
def readOutcome (state integrity exists_ marker : Except Exn (Option Node)) : Except Exn Json := do
  let (state, encodable) ← jsonFile p.path state
  sealMatches state encodable "publication state integrity seal is missing"
    "publication state integrity seal mismatch" integrity
  p.checkRecord state
  let found ← exists_
  if found.any Node.present then do
    let marker ← jsonFile (cutoverMarker p.path) marker
    p.checkMarker state marker.1
    return state
  else do
    check (!(state.get "stage").pyEq (.str "public_cutover"))
      "irreversible public cutover marker is missing"
    return state

/-- What `read` makes of the files. -/
def outcome (w : World) : Except Exn Json :=
  p.readOutcome (w.seen 0 p.path) (w.seen 1 p.integrityPath) (w.seen 2 (cutoverMarker p.path))
    (w.seen 3 (cutoverMarker p.path))

theorem run_read (w : World) : (p.read.run machine w).1 = p.outcome w := by
  have hexists : ∀ w' : World, (pathExists (cutoverMarker p.path)).run machine w' =
      ((w'.seen 0 (cutoverMarker p.path)).map fun node => node.any Node.present, w'.next) := by
    intro w'
    simp only [pathExists, orRaise, Prog.run_bind, run_look_seen, Prog.run_liftExcept]
    cases w'.seen 0 (cutoverMarker p.path) <;> rfl
  simp only [read, readSealed, readJsonFile, bind_assoc, Prog.run_bind, run_look_seen,
    Prog.run_liftExcept, outcome, readOutcome]
  cases hstate : jsonFile p.path (w.seen 0 p.path) with
  | error e => rfl
  | ok value =>
    obtain ⟨state, encodable⟩ := value
    dsimp only
    rw [show w.next.seen 0 p.integrityPath = w.seen 1 p.integrityPath from rfl]
    cases hmatch : sealMatches state encodable "publication state integrity seal is missing"
        "publication state integrity seal mismatch" (w.seen 1 p.integrityPath) with
    | error e => simp [hmatch, bind, Except.bind]
    | ok _ =>
      cases hrecord : p.checkRecord state with
      | error e => simp [hmatch, hrecord, bind, Except.bind]
      | ok _ =>
        simp only [Prog.run_pure, hrecord, hexists]
        rw [show w.next.next.seen 0 (cutoverMarker p.path) = w.seen 2 (cutoverMarker p.path) from rfl]
        cases hfound : w.seen 2 (cutoverMarker p.path) with
        | error e => simp [hmatch, hrecord, bind, Except.bind, Except.map]
        | ok node =>
          cases hpresent : node.any Node.present with
          | false =>
            simp only [Except.map, hpresent, Bool.false_eq_true, if_false, Prog.run_bind,
              Prog.run_liftExcept]
            cases hcheck : check (!(state.get "stage").pyEq (.str "public_cutover"))
                "irreversible public cutover marker is missing" <;>
              simp [hmatch, hrecord, hpresent, hcheck, bind, Except.bind, pure, Except.pure, Prog.run]
          | true =>
            simp only [Except.map, hpresent, if_true, Prog.run_bind, Prog.run_liftExcept,
              run_look_seen]
            rw [show w.next.next.next.seen 0 (cutoverMarker p.path) =
              w.seen 3 (cutoverMarker p.path) from rfl]
            cases hmarker : jsonFile (cutoverMarker p.path) (w.seen 3 (cutoverMarker p.path)) with
            | error e => simp [hmatch, hrecord, hpresent, bind, Except.bind]
            | ok marker =>
              cases hcheck : p.checkMarker state marker.1 <;>
                simp [hmatch, hrecord, hpresent, hcheck, bind, Except.bind, pure, Except.pure,
                  Prog.run]

end PublicationState

/-! ## 2. Text that cannot be decoded -/

/-- A regular file that only its owner may write, and its bytes are no UTF-8. -/
def NotUtf8 (answer : Except Exn (Option Node)) : Prop :=
  ∃ content, answer = .ok (some (.file false content)) ∧ loadsLoosely content = .error .unicode

/-- A seal that is no ASCII, or one of the right shape for a record that cannot be encoded. -/
def GarbledSeal (encodable : Bool) (answer : Except Exn (Option Node)) : Prop :=
  ∃ node bytes, answer = .ok (some node) ∧ node.content? = some bytes ∧
    (Text.decodeAscii? bytes = none ∨ encodable = false ∧ node.isRegular = true ∧
      ∃ text, Text.decodeAscii? bytes = some text ∧ Text.isSha256 (Text.strip text) = true)

/-- The exception is caught, or it is the one about text, and `P` is the case. -/
def CaughtUnless (P : Prop) (e : Exn) : Prop := unproved e = true ∨ e = .unicodeError ∧ P

omit [Sha256] in
theorem check_caught {c : Bool} {message : String} {e : Exn} {P : Prop}
    (h : check c message = .error e) : CaughtUnless P e := by
  unfold check at h
  split at h
  · cases h
  · cases h
    exact Or.inl rfl

omit [Sha256] in
theorem jsonFile_caught {path : String} {answer : Except Exn (Option Node)} {e : Exn}
    (h : jsonFile path answer = .error e) : CaughtUnless (NotUtf8 answer) e := by
  unfold jsonFile at h
  split at h
  · cases h
    exact Or.inl rfl
  · cases h
    exact Or.inl rfl
  · next content =>
    split at h
    · split at h
      · cases h
      · cases h
        exact Or.inl rfl
    · next hunicode =>
      cases h
      exact Or.inr ⟨rfl, content, rfl, hunicode⟩
    · cases h
      exact Or.inl rfl
  · cases h
    exact Or.inl rfl

omit [Sha256] in
theorem jsonFile_notUtf8 {path : String} {answer : Except Exn (Option Node)}
    (h : NotUtf8 answer) : jsonFile path answer = .error .unicodeError := by
  obtain ⟨content, rfl, hunicode⟩ := h
  simp [jsonFile, hunicode]

theorem sealMatches_caught {state : Json} {encodable : Bool} {missing mismatch : String}
    {answer : Except Exn (Option Node)} {e : Exn}
    (h : sealMatches state encodable missing mismatch answer = .error e) :
    CaughtUnless (GarbledSeal encodable answer) e := by
  unfold sealMatches at h
  split at h
  · cases h
    exact Or.inl rfl
  · cases h
    exact Or.inl rfl
  · next node =>
    split at h
    · cases h
      exact Or.inl rfl
    · next bytes hbytes =>
      split at h
      · next hascii =>
        cases h
        exact Or.inr ⟨rfl, node, bytes, rfl, hbytes, Or.inl hascii⟩
      · next text htext =>
        split at h
        · next hshape =>
          rw [Bool.and_eq_true] at hshape
          split at h
          · exact check_caught h
          · next hencodable =>
            cases h
            exact Or.inr ⟨rfl, node, bytes, rfl, hbytes, Or.inr ⟨by simpa using hencodable,
              hshape.1, text, htext, hshape.2⟩⟩
        · cases h
          exact Or.inl rfl

theorem sealMatches_garbled {state : Json} {encodable : Bool} {missing mismatch : String}
    {answer : Except Exn (Option Node)} (h : GarbledSeal encodable answer) :
    sealMatches state encodable missing mismatch answer = .error .unicodeError := by
  obtain ⟨node, bytes, rfl, hbytes, hascii | ⟨rfl, hregular, text, htext, hshape⟩⟩ := h
  · simp [sealMatches, hbytes, hascii]
  · simp [sealMatches, hbytes, htext, hregular, hshape]

omit [Sha256] in
/-- What raises inside a chain of checks is raised by one of them. -/
theorem bind_caught {α β : Type} {x : Except Exn α} {f : α → Except Exn β} {e : Exn} {P : Prop}
    (h : (x >>= f) = .error e) (hx : x = .error e → CaughtUnless P e)
    (hf : ∀ a, x = .ok a → f a = .error e → CaughtUnless P e) : CaughtUnless P e := by
  cases hxa : x with
  | error e' =>
    rw [hxa] at h
    cases h
    exact hx hxa
  | ok a =>
    rw [hxa] at h
    exact hf a hxa h

theorem validateWatermark_caught {watermark : Json} {e : Exn} {P : Prop}
    (h : validateWatermark watermark = .error e) : CaughtUnless P e := by
  unfold validateWatermark at h
  refine bind_caught h check_caught fun _ _ h => ?_
  refine bind_caught h check_caught fun _ _ h => ?_
  refine bind_caught h check_caught fun _ _ h => ?_
  refine bind_caught h check_caught fun _ _ h => ?_
  refine bind_caught h check_caught fun _ _ h => ?_
  refine bind_caught h check_caught fun _ _ h => ?_
  cases h

namespace PublicationState

variable (p : PublicationState)

theorem checkRecord_caught {state : Json} {e : Exn} {P : Prop}
    (h : p.checkRecord state = .error e) : CaughtUnless P e := by
  unfold checkRecord at h
  refine bind_caught h check_caught fun _ _ h => ?_
  refine bind_caught h validateWatermark_caught fun _ _ h => ?_
  refine bind_caught h check_caught fun _ _ h => ?_
  refine bind_caught h check_caught fun _ _ h => ?_
  exact check_caught h

/-- The files of the state hold text that cannot be decoded or encoded where it is looked at:
the record; its seal; or the marker beside a record that is in order. -/
def Garbled (w : World) : Prop :=
  NotUtf8 (w.seen 0 p.path) ∨
    ∃ state encodable, jsonFile p.path (w.seen 0 p.path) = .ok (state, encodable) ∧
      (GarbledSeal encodable (w.seen 1 p.integrityPath) ∨
        (sealMatches state encodable "publication state integrity seal is missing"
            "publication state integrity seal mismatch" (w.seen 1 p.integrityPath) = .ok () ∧
          p.checkRecord state = .ok () ∧
          (∃ node, w.seen 2 (cutoverMarker p.path) = .ok node ∧ node.any Node.present = true) ∧
          NotUtf8 (w.seen 3 (cutoverMarker p.path))))

omit [Sha256] in
theorem seen_caught {w : World} {k : Nat} {path : String} {e : Exn} {P : Prop}
    (h : w.seen k path = .error e) : CaughtUnless P e := by
  unfold World.seen at h
  split at h
  · cases h
  · cases h
    exact Or.inl rfl

theorem outcome_caught {w : World} {e : Exn} (h : p.outcome w = .error e) :
    CaughtUnless (p.Garbled w) e := by
  have hweaken : ∀ {P : Prop}, (P → p.Garbled w) → CaughtUnless P e →
      CaughtUnless (p.Garbled w) e := fun hP hc => hc.imp_right fun h => ⟨h.1, hP h.2⟩
  unfold outcome readOutcome at h
  refine bind_caught h (fun h => hweaken Or.inl (jsonFile_caught h)) fun value hvalue h => ?_
  obtain ⟨state, encodable⟩ := value
  refine bind_caught h (fun h => hweaken (fun hg => Or.inr ⟨state, encodable, hvalue, Or.inl hg⟩)
    (sealMatches_caught h)) fun _ hseal h => ?_
  refine bind_caught h p.checkRecord_caught fun _ hrecord h => ?_
  refine bind_caught h seen_caught fun node hnode h => ?_
  split at h
  · next hpresent =>
    refine bind_caught h (fun h => hweaken (fun hg => Or.inr ⟨state, encodable, hvalue, Or.inr
      ⟨hseal, hrecord, ⟨node, hnode, hpresent⟩, hg⟩⟩) (jsonFile_caught h)) fun marker _ h => ?_
    refine bind_caught h check_caught fun _ _ h => ?_
    cases h
  · refine bind_caught h check_caught fun _ _ h => ?_
    cases h

theorem outcome_garbled {w : World} (h : p.Garbled w) : p.outcome w = .error .unicodeError := by
  unfold outcome readOutcome
  rcases h with h | ⟨state, encodable, hvalue, h | ⟨hseal, hrecord, ⟨node, hnode, hpresent⟩, h⟩⟩
  · rw [jsonFile_notUtf8 h]
    rfl
  · rw [hvalue]
    change (sealMatches state encodable _ _ _ >>= _) = _
    rw [sealMatches_garbled h]
    rfl
  · rw [hvalue]
    change (sealMatches state encodable _ _ _ >>= _) = _
    rw [hseal]
    change (p.checkRecord state >>= _) = _
    rw [hrecord, hnode]
    change (if node.any Node.present = true then _ else _) = _
    rw [if_pos hpresent, jsonFile_notUtf8 h]
    rfl

/-! ## 3. The path -/

/-- A complete, sealed and schema-valid record of a stage before the public one, and no marker. -/
def PrePublicFiles (w : World) : Prop :=
  ∃ content state, w.files p.path = some (.file false content) ∧ loads content = .ok state ∧
    sealMatches state true "publication state integrity seal is missing"
      "publication state integrity seal mismatch" (.ok (w.files p.integrityPath)) = .ok () ∧
    p.checkRecord state = .ok () ∧ isOneOf (state.get "stage") prePublicStages = true ∧
    state.get "proxy_ever_public" = .bool false ∧
    (w.files (cutoverMarker p.path)).any Node.present = false

end PublicationState

omit [Sha256] in
theorem seen_ok {w : World} {k : Nat} {path : String} {node : Option Node}
    (h : w.seen k path = .ok node) : w.files path = node := by
  unfold World.seen at h
  split at h
  · exact Except.ok.inj h
  · cases h

namespace PublicationState

variable (p : PublicationState)

theorem prePublic_of_outcome {w : World} {state current : Json} {isolated : Bool}
    (h : p.outcome w = .ok state) (hknown : knownPrePublic state current isolated = .ok true) :
    p.PrePublicFiles w := by
  have hstage : isOneOf (state.get "stage") prePublicStages = true ∧
      state.get "proxy_ever_public" = .bool false := by
    unfold knownPrePublic at hknown
    split at hknown
    · next h =>
      simp only [Bool.and_eq_true, decide_eq_true_eq] at h
      exact h.1
    · cases hknown
  unfold outcome readOutcome at h
  obtain ⟨⟨state', encodable⟩, hvalue, h₁⟩ := bind_ok h
  obtain ⟨_, hseal, h₂⟩ := bind_ok h₁
  obtain ⟨_, hrecord, h₃⟩ := bind_ok h₂
  obtain ⟨node, hnode, h₄⟩ := bind_ok h₃
  obtain ⟨content, hfile, hload, -⟩ := jsonFile_ok hvalue
  obtain rfl := sealMatches_ok hseal
  have hsame : state' = state ∧ node.any Node.present = false := by
    split at h₄
    · obtain ⟨marker, hmarker, h₅⟩ := bind_ok h₄
      obtain ⟨_, hchecked, h₆⟩ := bind_ok h₅
      obtain rfl : state' = state := Except.ok.inj h₆
      -- the marker belongs to the last stage, which is no stage before it
      simp only [checkMarker, check_ok, Bool.and_eq_true, pyEq_str] at hchecked
      obtain ⟨s, hs, heq⟩ := isOneOf_iff.mp hstage.1
      rw [hchecked.2] at heq
      obtain rfl := Json.str.inj heq
      exact absurd hs (by decide)
    · next hpresent =>
      obtain ⟨_, -, h₅⟩ := bind_ok h₄
      exact ⟨Except.ok.inj h₅, by simpa using hpresent⟩
  obtain ⟨rfl, hpresent⟩ := hsame
  have hsealed : sealMatches state' true "publication state integrity seal is missing"
      "publication state integrity seal mismatch" (.ok (w.files p.integrityPath)) = .ok () := by
    cases hside : w.seen 1 p.integrityPath with
    | error e => simp [hside, sealMatches] at hseal
    | ok node' =>
      rw [seen_ok hside]
      rwa [hside] at hseal
  exact ⟨content, state', seen_ok hfile, loads_of_encodable hload, hsealed, hrecord, hstage.1,
    hstage.2, by rw [seen_ok hnode]; exact hpresent⟩

end PublicationState

/-- A watermark that passed its check. -/
structure ValidWatermark where
  value : Json
  valid : validateWatermark value = .ok (digestJson value)

/-- What `choose_rollback_path` makes of the record. -/
theorem run_choose (p : PublicationState) (current : ValidWatermark) (isolated : Bool) (w : World) :
    ((chooseRollbackPath p.read current.value isolated).run machine w).1 =
      match p.outcome w >>= fun state => knownPrePublic state current.value isolated with
      | .ok known => .ok (if known then .prePublicRestore else .preserveForwardData)
      | .error e => if unproved e then .ok .preserveForwardData else .error e := by
  have hread := p.run_read w
  have hstate : ((p.read >>= fun state => Prog.liftExcept (knownPrePublic state current.value
      isolated)).run machine w).1 =
        (p.outcome w >>= fun state => knownPrePublic state current.value isolated) := by
    rw [Prog.run_bind, ← hread]
    rcases p.read.run machine w with ⟨_ | state, w'⟩
    · rfl
    · exact congrArg Prod.fst (Prog.run_liftExcept _ _)
  unfold chooseRollbackPath
  rw [Prog.run_bind_ok (a := digestJson current.value) (t := w)
    (by rw [Prog.run_liftExcept, current.valid]), Prog.run_bind, Prog.run_tryCatch, ← hstate]
  rcases (p.read >>= fun state => Prog.liftExcept (knownPrePublic state current.value
    isolated)).run machine w with ⟨e | known, w'⟩
  · cases hcaught : unproved e <;> simp [hcaught]
  · cases known <;> rfl

end

attribute [local instance] byteSha256

/-- One byte that begins no UTF-8 text. -/
def brokenByte : Bytes := ByteArray.mk #[UInt8.ofNat 255]

/-- A world whose record is that byte. -/
def brokenRecord : World :=
  { Sample.world changedHost (fun _ => ⟨0, endOfTime_pos⟩) with
    files := fun path => if path = "/publication" then some (.file false brokenByte) else none }

end ProductPdfQr.DeployRollback
