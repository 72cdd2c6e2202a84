/-
# What one more line makes of the audit log

`append` writes a line and then replaces the anchor.  The line is read back where the log before
it has ended its last line, and where the line holds nothing that the reader takes for an end;
a process that dies between the two files leaves them in disagreement.
-/
import ProductPdfQr.DeployRollback.AuditTrail

namespace ProductPdfQr.DeployRollback

open Effect Json

namespace AuditLog

section Growth

variable [Sha256]

/-! ## 1. The line of an event -/

/-- An event that `append` can be asked to log: a dict of plain values, none of whose keys is a
sensitive word or one of the chain's own fields. -/
structure Admissible (event : Json) : Prop where
  plain : Plain event
  dict : event.isDict = true
  safe : (event.keys.any fun key => sensitiveAuditWords.any (containsWord key)) = false
  unlinked : event.get? "previous_sha256" = none
  fresh : event.get? "event_sha256" = none

theorem plain_chained {event : Json} (h : Plain event) (previous : String) :
    Plain (chained event previous) := by
  have hbody : Plain (event.set "previous_sha256" (.str previous)) := h.set trivial
  exact hbody.set trivial

omit [Sha256] in
theorem occursFields_insertField {c : Char} {k : String} {v : Json} {fs : Fields}
    (h : lookupField k fs = none) : occursFields c (insertField k v fs) =
      (k.toList.contains c || occurs c v || occursFields c fs) := by
  induction fs with
  | nil => rfl
  | cons f fs ih =>
    obtain ⟨k', v'⟩ := f
    have hne : k ≠ k' := by
      rintro rfl
      simp [lookupField] at h
    have hrest : lookupField k fs = none := by simpa [lookupField, hne] using h
    rw [insertField, if_neg hne]
    split
    · rfl
    · rw [occursFields, ih hrest, occursFields]
      cases k.toList.contains c <;> cases occurs c v <;> cases k'.toList.contains c <;>
        cases occurs c v' <;> rfl

omit [Sha256] in
theorem unmarked_set {event : Json} {k digest : String} (hdict : event.isDict = true)
    (hfresh : event.get? k = none) (hk : ∀ c, isLineMark c = true → k.toList.contains c = false)
    (hdigest : Text.isSha256 digest = true) :
    Unmarked (event.set k (.str digest)) ↔ Unmarked event := by
  have hhex : ∀ c, isLineMark c = true → digest.toList.contains c = false := by
    intro c hc
    cases hmem : digest.toList.contains c with
    | false => rfl
    | true =>
      have hascii := Text.isHexDigit_ascii
        ((Text.isHex_iff.mp hdigest).2 c (List.contains_iff_mem.mp hmem))
      have := isLineMark_beyond hc
      omega
  cases event with
  | obj fs =>
    refine forall_congr' fun c => imp_congr_right fun hc => ?_
    have heq : occurs c ((Json.obj fs).set k (.str digest)) = occurs c (.obj fs) := by
      change occursFields c (insertField k (.str digest) fs) = occursFields c fs
      rw [occursFields_insertField hfresh, hk c hc, occurs, hhex c hc]
      rfl
    rw [heq]
  | _ => cases hdict

/-- The chain fields add no end of a line. -/
theorem unmarked_chained (hhex : Sha256.HexDigests) {event : Json} (h : Admissible event)
    {previous : String} (hprevious : Text.isSha256 previous = true) :
    Unmarked (chained event previous) ↔ Unmarked event := by
  have hkey : ∀ k : String, k.toList.all (fun c => !isLineMark c) = true →
      ∀ c, isLineMark c = true → k.toList.contains c = false := by
    intro k hk c hc
    cases hmem : k.toList.contains c with
    | false => rfl
    | true =>
      have hnot := List.all_eq_true.mp hk c (List.contains_iff_mem.mp hmem)
      rw [hc] at hnot
      cases hnot
  obtain ⟨fs, hbody, hnone⟩ := fresh_body h.dict h.fresh previous
  have hdigest : Text.isSha256 (digestJson (.obj fs)) = true := hhex _
  have hfresh : (Json.obj fs).get? "event_sha256" = none := hnone
  rw [chained, hbody]
  change Unmarked ((Json.obj fs).set "event_sha256" (.str (digestJson (.obj fs)))) ↔ _
  rw [unmarked_set rfl hfresh (hkey _ (by decide)) hdigest, ← hbody,
    unmarked_set h.dict h.unlinked (hkey _ (by decide)) hprevious]

/-- The line of an admissible event is read back. -/
theorem readLine_chained {event : Json} (h : Admissible event) (previous : String) :
    readLine previous (print (chained event previous)) = .ok (chained event previous) := by
  obtain ⟨fs, hbody, hnone⟩ := fresh_body h.dict h.fresh previous
  have hcheck : checkLine previous _ = .ok _ := checkLine_chained h.plain h.dict h.fresh
  rw [checkLine_eq] at hcheck
  obtain ⟨event', hread, -⟩ := map_ok hcheck
  obtain ⟨fields, hload, -, hsealed⟩ := readLine_ok hread
  rw [loadsText_print (plain_chained h.plain previous)] at hload
  have hchained : chained event previous =
      .obj (insertField "event_sha256" (.str (digestJson (.obj fs))) fs) := by
    rw [chained, hbody]
    rfl
  obtain rfl := Json.obj.inj (hchained.symm.trans (Except.ok.inj hload))
  rw [eraseField_insertField hnone] at hsealed
  rw [hread, hsealed, hchained]
  rfl

/-! ## 2. The content of a log -/

theorem readLines_append (lines more : List (List Char)) : ∀ previous : String,
    readLines previous (lines ++ more) = (do
      let events ← readLines previous lines
      let rest ← readLines (lastDigest previous events) more
      return events ++ rest) := by
  induction lines with
  | nil =>
    intro previous
    change readLines previous more = (readLines previous more >>= fun rest => pure rest)
    rw [bind_pure]
  | cons line lines ih =>
    intro previous
    rw [List.cons_append, readLines, readLines]
    cases hline : readLine previous line with
    | error e => rfl
    | ok event =>
      change (readLines (digestOf event) (lines ++ more) >>= _) =
        ((readLines (digestOf event) lines >>= _) >>= _)
      rw [ih]
      simp only [bind_assoc, pure_bind]
      rfl

/-- The last line of the content has ended. -/
def Fits (content : Bytes) : Prop :=
  ∀ text, String.fromUTF8? content = some text → Ends (universalNewlines text.toList)

omit [Sha256] in
theorem fromUTF8?_append {content : Bytes} {text : String}
    (h : String.fromUTF8? content = some text) (more : String) :
    String.fromUTF8? (content ++ more.toUTF8) = some (text ++ more) := by
  have hcontent : content = text.toUTF8 := by
    unfold String.fromUTF8? at h
    split at h
    · rw [← Option.some.inj h]
      rfl
    · cases h
  rw [hcontent, ← fromUTF8?_toUTF8 (text ++ more)]
  exact congrArg _ (String.toByteArray_append ..).symm

omit [Sha256] in
/-- The end of the line is the only one that is not in the value. -/
theorem universalNewlines_line {v : Json} (h : Plain v) (text : List Char) :
    universalNewlines (text ++ (print v ++ ['\n'])) =
      universalNewlines text ++ (print v ++ ['\n']) := by
  have hreturn : '\r' ∉ print v ++ ['\n'] := by
    intro hmem
    rcases List.mem_append.mp hmem with hmem | hmem
    · exact absurd (print_printable v h _ hmem) (by decide)
    · exact absurd (List.mem_singleton.mp hmem) (by decide)
  obtain ⟨c, cs, hhead, hblank, -⟩ := print_head h
  have hfeed : ∀ rest, print v ++ ['\n'] ≠ '\n' :: rest := by
    intro rest heq
    rw [hhead, List.cons_append] at heq
    rw [(List.cons.inj heq).1] at hblank
    exact absurd hblank (by decide)
  rw [universalNewlines_append text hfeed, universalNewlines_eq hreturn]

/-- The lines of a log that was read, and of the log with one more. -/
theorem readContent_line {content : Bytes} {es : List Json} (h : readContent content = .ok es)
    {v : Json} (hplain : Plain v) : ∃ text, (Fits content ↔ Ends text) ∧
      readLines genesisDigest (splitLines text) = .ok es ∧
      readContent (content ++ canonicalJson v) =
        readLines genesisDigest (splitLines (text ++ (print v ++ ['\n']))) := by
  unfold readContent at h
  cases htext : String.fromUTF8? content with
  | none => simp [htext] at h
  | some text =>
    rw [htext] at h
    refine ⟨universalNewlines text.toList, ⟨fun hfits => hfits text htext, ?_⟩, h, ?_⟩
    · intro hends text' htext'
      rwa [Option.some.inj (htext'.symm.trans htext)]
    · rw [readContent, canonicalJson, fromUTF8?_append htext]
      dsimp only
      rw [String.toList_append, String.toList_ofList, universalNewlines_line hplain]

/-- A line that is no value spoils the log. -/
theorem readLines_spoilt {line : List Char} (h : ∀ j, loadsText line ≠ .ok j)
    (lines rest : List (List Char)) (previous : String) :
    ∃ e, readLines previous (lines ++ line :: rest) = .error e := by
  have hline : ∀ digest, ∃ e, readLine digest line = .error e := by
    intro digest
    unfold readLine
    cases hload : loadsText line with
    | error e => cases e <;> exact ⟨_, rfl⟩
    | ok j => exact absurd hload (h j)
  rw [readLines_append]
  cases readLines previous lines with
  | error e => exact ⟨e, rfl⟩
  | ok events =>
    obtain ⟨e, he⟩ := hline (lastDigest previous events)
    refine ⟨e, ?_⟩
    change (readLines (lastDigest previous events) (line :: rest) >>= _) = _
    rw [readLines, he]
    rfl

/-- The line of an event, after lines that have ended. -/
theorem readContent_fits {content : Bytes} {es : List Json} (h : readContent content = .ok es)
    (hfits : Fits content) {event : Json} (he : Admissible event)
    (hline : OneLine (print (chained event (lastDigest genesisDigest es)))) :
    readContent (content ++ canonicalJson (chained event (lastDigest genesisDigest es))) =
      .ok (es ++ [chained event (lastDigest genesisDigest es)]) := by
  obtain ⟨text, hends, hread, happend⟩ :=
    readContent_line h (plain_chained he.plain (lastDigest genesisDigest es))
  rw [happend, splitLines_append (hends.mp hfits), splitLines_line hline (by decide),
    readLines_append, hread]
  change (readLines (lastDigest genesisDigest es) [_] >>= _) = _
  rw [readLines, readLine_chained he]
  rfl

/-- The line of an event opens with a brace. -/
theorem print_chained_head {event : Json} (h : event.isDict = true) (previous : String) :
    ∃ cs, print (chained event previous) = '{' :: cs := by
  cases event with
  | obj fs => exact print_open (v := chained (.obj fs) previous) (by simp [chained, Json.set, IsScalar])
  | _ => cases h

/-- What stands before the first end of a line in the line of an event opens with the brace. -/
theorem bracketed_front {event : Json} (h : event.isDict = true) {previous : String}
    {s line rest : List Char} {c : Char} (hc : isLineEnd c = true)
    (heq : print (chained event previous) ++ s = line ++ c :: rest) : Bracketed line := by
  obtain ⟨cs, hhead⟩ := print_chained_head h previous
  rw [hhead, List.cons_append] at heq
  cases line with
  | nil =>
    rw [List.nil_append] at heq
    rw [← (List.cons.inj heq).1] at hc
    exact absurd hc (by decide)
  | cons x line => exact ⟨x, line, rfl, .inr (List.cons.inj heq).1.symm⟩

/-- The line of an event, joined to a last line that has not ended. -/
theorem readContent_joined {content : Bytes} {es : List Json} (h : readContent content = .ok es)
    (hfits : ¬Fits content) {event : Json} (he : Admissible event) (previous : String) :
    ∃ e, readContent (content ++ canonicalJson (chained event previous)) = .error e := by
  obtain ⟨text, hends, hread, happend⟩ :=
    readContent_line h (plain_chained he.plain previous)
  have hnot : ¬OneLine (print (chained event previous) ++ ['\n']) := fun hline =>
    absurd (hline '\n' (by simp)) (by decide)
  obtain ⟨line, c, rest, heq, hline, hc⟩ := exists_line hnot
  have hbracketed : Bracketed line := bracketed_front he.dict hc heq
  obtain ⟨lines, last, -, hlines, hmore⟩ := splitLines_unended fun htext => hfits (hends.mpr htext)
  have hlast : ∃ fs, loadsText last = .ok (.obj fs) := by
    rw [hlines, readLines_append] at hread
    obtain ⟨events, -, hread⟩ := bind_ok hread
    obtain ⟨read, hread, -⟩ := bind_ok hread
    obtain ⟨event', hread, -⟩ := bind_ok hread
    obtain ⟨fs, hload, -⟩ := readLine_ok hread
    exact ⟨fs, hload⟩
  obtain ⟨fs, hlast⟩ := hlast
  have hskip : skipBlanks line ≠ [] := by
    obtain ⟨x, q, rfl, -⟩ := id hbracketed
    rw [hbracketed.skipBlanks]
    exact List.cons_ne_nil _ _
  rw [happend, heq, hmore rest hline hc]
  refine readLines_spoilt (fun j hj => ?_) _ _ _
  rw [loadsText_append (bracketed_of_obj hlast) hlast, if_neg hskip] at hj
  cases hj

/-- The line of an event that falls apart. -/
theorem readContent_torn {content : Bytes} {es : List Json} (h : readContent content = .ok es)
    (hfits : Fits content) {event : Json} (he : Admissible event) {previous : String}
    (hline : ¬OneLine (print (chained event previous))) :
    ∃ e, readContent (content ++ canonicalJson (chained event previous)) = .error e := by
  have hplain := plain_chained he.plain previous
  obtain ⟨text, hends, -, happend⟩ := readContent_line h hplain
  obtain ⟨line, c, rest, heq, hone, hc⟩ := exists_line hline
  have hmark : 128 ≤ c.toNat := by
    have hmem : c ∈ print (chained event previous) := by
      rw [heq]
      simp
    rw [isLineEnd_eq_mark (print_printable _ hplain c hmem)] at hc
    exact isLineMark_beyond hc
  have hskip : skipBlanks (c :: rest) ≠ [] := by
    have hblank : isBlank c = false := by simp [isBlank, ne_ascii hmark]
    rw [skipBlanks_cons hblank]
    exact List.cons_ne_nil _ _
  have hbracketed : Bracketed line :=
    bracketed_front (s := []) he.dict hc (by rw [List.append_nil, heq])
  rw [happend, heq, List.append_assoc, List.cons_append, splitLines_append (hends.mp hfits),
    splitLines_line hone hc]
  refine readLines_spoilt ?_ _ _ _
  exact loadsText_front hbracketed (heq ▸ loadsText_print hplain) hskip

/-- The content that took a line has ended its last line. -/
theorem fits_line {content : Bytes} {es : List Json} (h : readContent content = .ok es) {v : Json}
    (hplain : Plain v) : Fits (content ++ canonicalJson v) := by
  unfold readContent at h
  cases htext : String.fromUTF8? content with
  | none => simp [htext] at h
  | some text =>
    intro text' htext'
    rw [canonicalJson, fromUTF8?_append htext] at htext'
    rw [← Option.some.inj htext', String.toList_append, String.toList_ofList,
      universalNewlines_line hplain, ← List.append_assoc]
    exact .inr ⟨_, _, rfl, by decide⟩

/-! ## 3. The two files -/

/-- The anchor confirms so many events and the digest of the last. -/
def Confirms (anchor : Option Node) (count : Nat) (head : String) : Prop :=
  ∃ content value encodable, anchor = some (.file false content) ∧
    loadsLoosely content = .ok (value, encodable) ∧ value.isDict = true ∧
      value.pyEq (anchorOf count head) = true

/-- The log can take a line: it is not there yet, or a regular file that has ended its last. -/
def Extendable : Option Node → Prop
  | none => True
  | some (.file _ content) => Fits content
  | some _ => False

omit [Sha256] in
theorem confirms_anchorOf (count count' : Nat) (head head' : String) :
    Confirms (some (.file false (canonicalJson (anchorOf count head)))) count' head' ↔
      count = count' ∧ head = head' := by
  have hload := loadsLoosely_of_loads (loads_canonicalJson (plain_anchorOf count head))
  rw [← anchorOf_pyEq]
  refine ⟨?_, fun h => ⟨_, _, _, rfl, hload, rfl, h⟩⟩
  rintro ⟨content, value, encodable, hcontent, hload', -, h⟩
  obtain rfl : canonicalJson (anchorOf count head) = content := by simpa using hcontent
  rw [hload] at hload'
  obtain ⟨rfl, -⟩ := Prod.mk.inj (Except.ok.inj hload')
  exact h

omit [Sha256] in
theorem readContent_empty [Sha256] : readContent ByteArray.empty = .ok [] := by
  rw [readContent, show ByteArray.empty = "".toUTF8 from rfl, fromUTF8?_toUTF8]
  rfl

omit [Sha256] in
theorem fits_empty : Fits ByteArray.empty := by
  intro text htext
  obtain rfl := Option.some.inj ((fromUTF8?_toUTF8 "").symm.trans htext)
  exact .inl rfl

/-- A log that was verified is missing or a regular file. -/
theorem verified_log {a : AuditLog} {log anchor : Option Node} {es : List Json}
    (h : a.verified log anchor = .ok es) :
    (log.filter Node.present = none ∧ es = []) ∨ ∃ loose content, log = some (.file loose content) ∧
      readContent content = .ok es ∧ Confirms anchor es.length (lastDigest genesisDigest es) := by
  cases hnode : log.filter Node.present with
  | none =>
    rw [verified, hnode] at h
    exact .inl ⟨rfl, (Except.ok.inj h).symm⟩
  | some node =>
    obtain ⟨hread, hconfirms⟩ := (verified_present hnode).mp h
    cases node with
    | file loose content =>
      exact .inr ⟨loose, content, (Option.filter_eq_some_iff.mp hnode).1, hread, hconfirms⟩
    | link content => cases hread
    | other => cases hread

theorem headAfter_hex (hhex : Sha256.HexDigests) (blocks : List Json) : ∀ {previous : String},
    Text.isSha256 previous = true → Text.isSha256 (chain.headAfter previous blocks) = true := by
  induction blocks with
  | nil => exact fun h => h
  | cons b blocks ih => exact fun _ => ih (hhex _)

/-- The last digest is one. -/
theorem lastDigest_hex (hhex : Sha256.HexDigests) {content : Bytes} {es : List Json}
    (h : readContent content = .ok es) :
    Text.isSha256 (lastDigest genesisDigest es) = true := by
  unfold readContent at h
  split at h
  · cases h
  · obtain ⟨read, hread⟩ := readLines_ok _ h
    rw [hread.head]
    exact headAfter_hex hhex read (by decide)

theorem digestOf_chained {event : Json} (h : event.isDict = true) (previous : String) :
    digestOf (chained event previous) = digestAfter previous event := by
  cases event with
  | obj fs => exact digestOf_set ((Json.obj fs).set "previous_sha256" (.str previous)) _ rfl
  | _ => cases h

/-- A regular file that took the line of an event. -/
theorem readContent_grown (hhex : Sha256.HexDigests) {content : Bytes} {es : List Json}
    (h : readContent content = .ok es) {event : Json} (he : Admissible event) {es' : List Json} :
    readContent (content ++ canonicalJson (chained event (lastDigest genesisDigest es))) =
        .ok es' ↔
      (Fits content ∧ Unmarked event) ∧ es' = es ++ [chained event (lastDigest genesisDigest es)] := by
  have hline : OneLine (print (chained event (lastDigest genesisDigest es))) ↔ Unmarked event :=
    (oneLine_print_iff (plain_chained he.plain _)).trans (unmarked_chained hhex he (lastDigest_hex hhex h))
  by_cases hfits : Fits content
  · by_cases hunmarked : Unmarked event
    · rw [readContent_fits h hfits he (hline.mpr hunmarked)]
      simp [hfits, hunmarked, eq_comm]
    · obtain ⟨e, herror⟩ := readContent_torn h hfits he (mt hline.mp hunmarked)
      rw [herror]
      simp [hunmarked]
  · obtain ⟨e, herror⟩ := readContent_joined h hfits he _
    rw [herror]
    simp [hfits]

theorem verified_file (hhex : Sha256.HexDigests) (a : AuditLog) {content : Bytes}
    {es : List Json} (h : readContent content = .ok es) {event : Json} (he : Admissible event)
    (loose : Bool) (anchor : Option Node) (es' : List Json) :
    a.verified (some (.file loose (content ++ canonicalJson (chained event
        (lastDigest genesisDigest es))))) anchor = .ok es' ↔
      (Fits content ∧ Unmarked event) ∧ es' = es ++ [chained event (lastDigest genesisDigest es)] ∧
        Confirms anchor (es.length + 1) (digestAfter (lastDigest genesisDigest es) event) := by
  have hgrown : ∀ {es' : List Json}, es' = es ++ [chained event (lastDigest genesisDigest es)] →
      es'.length = es.length + 1 ∧
        lastDigest genesisDigest es' = digestAfter (lastDigest genesisDigest es) event := by
    rintro _ rfl
    refine ⟨List.length_append, ?_⟩
    rw [lastDigest, List.foldl_append]
    exact digestOf_chained he.dict _
  rw [verified_present rfl]
  change (readContent _ = _ ∧ Confirms anchor es'.length (lastDigest genesisDigest es')) ↔ _
  rw [readContent_grown hhex h he, and_assoc]
  refine and_congr_right fun _ => and_congr_right fun heq => ?_
  rw [(hgrown heq).1, (hgrown heq).2]

/-- What verification makes of a log that took the line of an event. -/
theorem verified_grown (hhex : Sha256.HexDigests) {a : AuditLog} {log anchor : Option Node}
    {es : List Json} (h : a.verified log anchor = .ok es) {event : Json} (he : Admissible event) :
    ∃ node, Node.append (canonicalJson (chained event (lastDigest genesisDigest es))) log = some node ∧
      (Extendable log → Extendable (some node)) ∧
      ∀ anchor' es', a.verified (some node) anchor' = .ok es' ↔
        (Extendable log ∧ Unmarked event) ∧ es' = es ++ [chained event (lastDigest genesisDigest es)] ∧
          Confirms anchor' (es.length + 1) (digestAfter (lastDigest genesisDigest es) event) := by
  rcases verified_log h with ⟨hnone, rfl⟩ | ⟨loose, content, rfl, hread, -⟩
  · rcases log with _ | (⟨loose, content⟩ | ⟨_ | content⟩ | -)
    · have hempty := fun line : Bytes => ByteArray.empty_append (b := line)
      refine ⟨.file false (canonicalJson _), rfl, fun _ => ?_, fun anchor' es' => ?_⟩
      · have hfits := fits_line readContent_empty (plain_chained he.plain (lastDigest genesisDigest []))
        rwa [hempty] at hfits
      · have hfile := verified_file hhex a readContent_empty he false anchor' es'
        rw [hempty] at hfile
        simpa [fits_empty, Extendable] using hfile
    · cases hnone
    · refine ⟨.link (some _), rfl, fun hfits => hfits, fun anchor' es' => ?_⟩
      refine iff_of_false (fun hverified => ?_) fun hverified => hverified.1.1
      exact absurd ((verified_present rfl).mp hverified).1 (by simp [readNode])
    · cases hnone
    · cases hnone
  · exact ⟨_, rfl, fun _ => fits_line hread (plain_chained he.plain _),
      fun anchor' es' => verified_file hhex a hread he loose anchor' es'⟩

/-! ## 4. Appending -/

/-- What `append` does once the log was verified. -/
def record (a : AuditLog) (event : Json) (es : List Json) : Op String := do
  orRaise (Prog.perform (Call.append a.path
    (canonicalJson (chained event (lastDigest genesisDigest es)))))
  atomicWrite a.anchorPath (canonicalJson (anchorOf (es.length + 1)
    (digestAfter (lastDigest genesisDigest es) event)))
  return digestAfter (lastDigest genesisDigest es) event

theorem append_eq (a : AuditLog) {event : Json} (he : Admissible event) :
    a.append event = a.verify >>= a.record event := by
  rw [append, he.safe, events_eq]
  simp only [bind_assoc, pure_bind]
  rfl

/-- The two steps that last. -/
theorem run_record {a : AuditLog} {w : World} (hw : w.Faultless) {event : Json} {es : List Json}
    {node : Node} (hnode : Node.append (canonicalJson (chained event (lastDigest genesisDigest es)))
      (w.files a.path) = some node) (hanchor : w.files a.anchorPath ≠ some .other) :
    (a.record event es).run machine w =
      (.ok (digestAfter (lastDigest genesisDigest es) event),
        ((w.put a.path (some node)).next.put a.anchorPath (some (.file false (canonicalJson
          (anchorOf (es.length + 1) (digestAfter (lastDigest genesisDigest es) event)))))).next) := by
  have hne : a.anchorPath ≠ a.path := Text.append_ne_self (by decide)
  have hother : ((w.put a.path (some node)).next).files a.anchorPath ≠ some .other := by
    rwa [World.next_files, World.put_other _ _ hne]
  have habsolute : Text.isAbsolute a.anchorPath = true := Text.isAbsolute_append a.bounded.1 _
  rw [record, Prog.run_bind_ok (run_appendLine hw hnode),
    Prog.run_bind_ok (run_atomicWrite (hw.put _ _).next habsolute hother _), Prog.run_pure]

/-- A log that was verified and can take a line. -/
structure Growing (a : AuditLog) (w : World) (es : List Json) : Prop where
  faultless : w.Faultless
  verified : a.verified (w.files a.path) (w.files a.anchorPath) = .ok es
  extendable : Extendable (w.files a.path)
  anchor : w.files a.anchorPath ≠ some .other

theorem lastDigest_chained {event : Json} (h : event.isDict = true) (es : List Json) :
    lastDigest genesisDigest (es ++ [chained event (lastDigest genesisDigest es)]) =
      digestAfter (lastDigest genesisDigest es) event := by
  rw [lastDigest, List.foldl_append]
  exact digestOf_chained h _

/-- One event is appended; whether the log is verified again is up to the event. -/
theorem run_append_growing (hhex : Sha256.HexDigests) {a : AuditLog} {w : World} {es : List Json}
    (h : a.Growing w es) {event : Json} (he : Admissible event) :
    ∃ digest w', (a.append event).run machine w = (.ok digest, w') ∧ w'.Faultless ∧
      (Unmarked event → a.Growing w' (es ++ [chained event (lastDigest genesisDigest es)])) ∧
      (¬Unmarked event → ∀ es', a.verified (w'.files a.path) (w'.files a.anchorPath) ≠ .ok es') := by
  have hne : a.path ≠ a.anchorPath := (Text.append_ne_self (by decide)).symm
  obtain ⟨node, hnode, hextendable, hgrown⟩ := verified_grown hhex h.verified he
  obtain ⟨k, hverify⟩ := run_verify a h.faultless
  rw [h.verified] at hverify
  have hfaultless : ({ w with tick := w.tick + k } : World).Faultless := h.faultless
  let digest := digestAfter (lastDigest genesisDigest es) event
  let w' : World := ((({ w with tick := w.tick + k } : World).put a.path (some node)).next.put
    a.anchorPath (some (.file false (canonicalJson (anchorOf (es.length + 1) digest))))).next
  have hlog : w'.files a.path = some node := by
    rw [World.next_files, World.put_other _ _ hne, World.next_files, World.put_same]
  have hanchor : w'.files a.anchorPath =
      some (.file false (canonicalJson (anchorOf (es.length + 1) digest))) := by
    rw [World.next_files, World.put_same]
  refine ⟨digest, w', ?_, h.faultless, fun hunmarked => ?_, fun hmarked es' hverified => ?_⟩
  · rw [append_eq a he, Prog.run_bind_ok hverify]
    exact run_record hfaultless hnode h.anchor
  · refine ⟨h.faultless, ?_, hlog ▸ hextendable h.extendable, by simp [hanchor]⟩
    rw [hlog, hanchor, hgrown]
    exact ⟨⟨h.extendable, hunmarked⟩, rfl, (confirms_anchorOf _ _ _ _).mpr ⟨rfl, rfl⟩⟩
  · rw [hlog, hgrown] at hverified
    exact hmarked hverified.1.2

/-! ## 5. The round trip -/

/-- The events, one after another. -/
def appendAll (a : AuditLog) : List Json → Op Unit
  | [] => return
  | event :: events => do
    let _ ← a.append event
    appendAll a events

/-- Every append succeeds, and afterwards `verify` returns the events with their chain fields. -/
def RoundTrips (a : AuditLog) (events : List Json) (w : World) : Prop :=
  ∃ w' w'', (a.appendAll events).run machine w = (.ok (), w') ∧
    a.verify.run machine w' = (.ok (trail events), w'')

/-- A log that is not verified takes no event and returns none. -/
theorem not_verified {a : AuditLog} {w : World} (hw : w.Faultless)
    (h : ∀ es, a.verified (w.files a.path) (w.files a.anchorPath) ≠ .ok es) (events : List Json)
    (hevents : ∀ e ∈ events, Admissible e) (read : List Json) : ¬∃ w' w'',
      (a.appendAll events).run machine w = (.ok (), w') ∧ a.verify.run machine w' = (.ok read, w'') := by
  rintro ⟨w', w'', happend, hverify⟩
  obtain ⟨k, hrun⟩ := run_verify a hw
  cases events with
  | nil =>
    obtain ⟨-, rfl⟩ := Prod.mk.inj happend
    rw [hrun] at hverify
    exact h _ (Prod.mk.inj hverify).1
  | cons e events =>
    cases hverified : a.verified (w.files a.path) (w.files a.anchorPath) with
    | ok es => exact h es hverified
    | error x =>
      rw [hverified] at hrun
      obtain ⟨s, herror⟩ : ∃ s, (a.append e).run machine w = (.error x, s) := by
        rw [append_eq a (hevents e (List.mem_cons_self ..)), Prog.run_bind_error hrun]
        exact ⟨_, rfl⟩
      rw [appendAll, Prog.run_bind_error herror] at happend
      cases happend

/-- From any log that can grow. -/
theorem appendAll_iff (hhex : Sha256.HexDigests) (a : AuditLog) (events : List Json) :
    ∀ {w : World} {es : List Json}, a.Growing w es → (∀ e ∈ events, Admissible e) →
      ((∃ w' w'', (a.appendAll events).run machine w = (.ok (), w') ∧ a.verify.run machine w' =
        (.ok (es ++ (bodies (lastDigest genesisDigest es) events).map sealed), w'')) ↔
          ∀ e ∈ events, Unmarked e) := by
  induction events with
  | nil =>
    intro w es h _
    obtain ⟨k, hrun⟩ := run_verify a h.faultless
    rw [h.verified] at hrun
    exact iff_of_true ⟨w, _, rfl, by rw [hrun, bodies, List.map_nil, List.append_nil]⟩ (by simp)
  | cons e events ih =>
    intro w es h hevents
    have he := hevents e (List.mem_cons_self ..)
    have hrest : ∀ e ∈ events, Admissible e := fun x hx => hevents x (List.mem_cons_of_mem _ hx)
    obtain ⟨digest, w₁, hrun, hfaultless, hgrowing, hspoilt⟩ := run_append_growing hhex h he
    rw [List.forall_mem_cons]
    by_cases hunmarked : Unmarked e
    · have ih := ih (hgrowing hunmarked) hrest
      rw [lastDigest_chained he.dict, List.append_assoc] at ih
      rw [appendAll, Prog.run_bind_ok hrun]
      exact ih.trans (by simp [hunmarked])
    · rw [appendAll, Prog.run_bind_ok hrun]
      exact iff_of_false (not_verified hfaultless (hspoilt hunmarked) events hrest _)
        fun hall => hunmarked hall.1

end Growth

/-! ### An event with a line separator -/

section

attribute [local instance] zeroSha256

/-- An operator whose name has a line separator in it. -/
def separatedEvent : Json := dict [("operator", .str "a\u2028b")]

theorem admissible_dict {k : String} {v : String}
    (hsafe : sensitiveAuditWords.any (containsWord k) = false)
    (hk : k ≠ "previous_sha256" ∧ k ≠ "event_sha256") : Admissible (dict [(k, .str v)]) where
  plain := plain_dict (by simp [PlainFields, Plain])
  dict := rfl
  safe := by
    change ([k].any fun key => sensitiveAuditWords.any (containsWord key)) = false
    rw [List.any_cons, hsafe, List.any_nil, Bool.or_false]
  unlinked := by simp [dict, insertField, Json.get?, lookupField, hk.1.symm]
  fresh := by simp [dict, insertField, Json.get?, lookupField, hk.2.symm]

theorem admissible_separated : Admissible separatedEvent :=
  admissible_dict (by decide) (by decide)

theorem admissible_sample : Admissible sampleEvent :=
  admissible_dict (by decide) (by decide)

end

/-! ## 6. A process that dies -/

section Crash

variable [Sha256]

/-- The looks of a successful verification. -/
def looks (log : Option Node) : Nat := if log.any Node.present then 3 else 1

omit [Sha256] in
theorem cost_orRaise_look {w : World} (hw : w.Faultless) (path : String) :
    (orRaise (look path)).cost machine w = 1 := by
  rw [orRaise, Prog.cost_bind_of_run _ _ (run_look hw path), look, Prog.cost_perform,
    Prog.cost_liftExcept]

theorem cost_verify {a : AuditLog} {w : World} (hw : w.Faultless) {es : List Json}
    (h : a.verified (w.files a.path) (w.files a.anchorPath) = .ok es) :
    a.verify.cost machine w = looks (w.files a.path) := by
  rw [verify, Prog.cost_bind_of_run _ _ (run_orRaise_look hw a.path), cost_orRaise_look hw]
  cases hnode : (w.files a.path).filter Node.present with
  | none =>
    have habsent : (w.files a.path).any Node.present = false := by
      cases hlog : w.files a.path with
      | none => rfl
      | some node =>
        rw [hlog] at hnode
        simpa using hnode
    rw [looks, habsent]
    rfl
  | some node =>
    have hpresent : (w.files a.path).any Node.present = true := by
      obtain ⟨hlog, hpresent⟩ := Option.filter_eq_some_iff.mp hnode
      rw [hlog]
      exact hpresent
    obtain ⟨hread, content, value, encodable, hanchor, hload, hdict, hsame⟩ :=
      (verified_present hnode).mp h
    have hfile : jsonFile a.anchorPath (.ok (some (.file false content))) = .ok (value, encodable) := by
      simp [jsonFile, hload, hdict]
    have hjson : (readJsonFile a.anchorPath).cost machine w.next.next = 1 ∧
        (readJsonFile a.anchorPath).run machine w.next.next = (.ok value, w.next.next.next) := by
      have hlook := run_look hw.next.next a.anchorPath
      rw [World.next_files, World.next_files, hanchor] at hlook
      rw [readJsonFile, Prog.cost_bind_of_run _ _ hlook, Prog.run_bind_ok hlook, hfile]
      exact ⟨rfl, rfl⟩
    have hanchored : (some (Node.file false content)).any (fun n => n.content?.isSome) = true := rfl
    dsimp only
    rw [Prog.cost_bind_of_run _ _ (by rw [Prog.run_liftExcept, hread]),
      Prog.cost_bind_of_run _ _ (run_orRaise_look hw.next a.anchorPath), cost_orRaise_look hw.next,
      World.next_files, hanchor,
      Prog.cost_bind_of_run _ _ (Prog.run_ensure _ _ hanchored),
      Prog.cost_bind_of_run _ _ hjson.2, hjson.1,
      Prog.cost_bind_of_run _ _ (Prog.run_ensure _ _ hsame), looks, hpresent]
    simp

/-- What `append` leaves when it dies after so many steps. -/
def remains (a : AuditLog) (w : World) (node anchor : Node) : Nat → World
  | 0 => w
  | 1 => (w.put a.path (some node)).next
  | _ => if w.files a.anchorPath = some .other then (w.put a.path (some node)).next.next
    else ((w.put a.path (some node)).next.put a.anchorPath (some anchor)).next

theorem exec_record {a : AuditLog} {w : World} (hw : w.Faultless) {event : Json} {es : List Json}
    {node : Node} (hnode : Node.append (canonicalJson (chained event (lastDigest genesisDigest es)))
      (w.files a.path) = some node) (n : Nat) :
    ((a.record event es).exec machine n w).state = remains a w node (.file false (canonicalJson
      (anchorOf (es.length + 1) (digestAfter (lastDigest genesisDigest es) event)))) n := by
  have hne : a.anchorPath ≠ a.path := Text.append_ne_self (by decide)
  have habsolute : Text.isAbsolute a.anchorPath = true := Text.isAbsolute_append a.bounded.1 _
  let digest := digestAfter (lastDigest genesisDigest es) event
  let anchor := canonicalJson (anchorOf (es.length + 1) digest)
  let line := canonicalJson (chained event (lastDigest genesisDigest es))
  have hcost : (orRaise (Prog.perform (Call.append a.path line)) : Op Unit).cost machine w = 1 := by
    rw [orRaise, Prog.cost_bind_of_run _ _ (Prog.run_perform _ _), Prog.cost_perform,
      Prog.cost_liftExcept]
  have hwrite : atomicWrite a.anchorPath anchor =
      orRaise (Prog.perform (Call.atomicWrite a.anchorPath anchor)) := by
    rw [atomicWrite, Prog.ensure, if_pos habsolute]
    rfl
  have hanswer : ∀ (x : Except Exn Unit) (n : Nat) (s : World),
      (((Prog.liftExcept x : Op Unit) >>= fun _ => (pure digest : Op String)).exec machine n s).state =
        s := fun x n s => by cases x <;> rfl
  cases n with
  | zero => rfl
  | succ n =>
    rw [record, Prog.exec_bind_of_run _ _ (by rw [hcost]; omega) (run_appendLine hw hnode), hcost,
      Nat.add_sub_cancel, hwrite]
    cases n with
    | zero => rfl
    | succ n =>
      have hfiles : (w.put a.path (some node)).next.files a.anchorPath = w.files a.anchorPath := by
        rw [World.next_files, World.put_other _ _ hne]
      have hfault : (w.put a.path (some node)).next.fault (w.put a.path (some node)).next.tick = .none :=
        hw _
      refine (hanswer _ n _).trans ?_
      change (World.step (.atomicWrite a.anchorPath anchor) (w.put a.path (some node)).next).2 = _
      simp only [World.step, hfault, hfiles, remains]
      by_cases hother : w.files a.anchorPath = some .other <;>
        simp [hother, anchor, digest]

omit [Sha256] in
theorem faultless_remains {w : World} (hw : w.Faultless) (a : AuditLog) (node anchor : Node)
    (n : Nat) : (remains a w node anchor n).Faultless := by
  unfold remains
  split
  · exact hw
  · exact hw
  · split <;> exact hw

omit [Sha256] in
/-- Past the first step the log has its line, and past the second the anchor is new, if it can
be replaced. -/
theorem remains_files (a : AuditLog) (w : World) (node anchor : Node) (n : Nat) :
    (remains a w node anchor (n + 1)).files a.path = some node ∧
      (remains a w node anchor (n + 1)).files a.anchorPath =
        if 1 ≤ n ∧ w.files a.anchorPath ≠ some .other then some anchor else w.files a.anchorPath := by
  have hne : a.anchorPath ≠ a.path := Text.append_ne_self (by decide)
  cases n with
  | zero => simp [remains, hne]
  | succ n =>
    by_cases hother : w.files a.anchorPath = some .other
    · simp [remains, hother, hne]
    · simp [remains, hother, hne.symm]

/-- After a crash at `n` the log verifies, with the old events or with the new one behind them. -/
def CrashAtomic (a : AuditLog) (event : Json) (es : List Json) (w : World) (n : Nat) : Prop :=
  ∃ events w', a.verify.run machine ((a.append event).exec machine n w).state = (.ok events, w') ∧
    (events = es ∨ events = es ++ [chained event (lastDigest genesisDigest es)])

/-- Where nothing fails, that is a matter of the two files. -/
theorem exists_run_verify {a : AuditLog} {w : World} (hw : w.Faultless) (F : List Json → Prop) :
    (∃ events w', a.verify.run machine w = (.ok events, w') ∧ F events) ↔
      ∃ events, a.verified (w.files a.path) (w.files a.anchorPath) = .ok events ∧ F events := by
  obtain ⟨k, hrun⟩ := run_verify a hw
  rw [hrun]
  constructor
  · rintro ⟨events, w', heq, h⟩
    exact ⟨events, (Prod.mk.inj heq).1, h⟩
  · rintro ⟨events, heq, h⟩
    exact ⟨events, _, by rw [heq], h⟩

/-- Before the line was written nothing happened. -/
theorem crashAtomic_early {a : AuditLog} {w : World} (hw : w.Faultless) {es : List Json}
    (h : a.verified (w.files a.path) (w.files a.anchorPath) = .ok es) {event : Json}
    (he : Admissible event) {n : Nat} (hn : n ≤ looks (w.files a.path)) :
    CrashAtomic a event es w n := by
  obtain ⟨k, hverify⟩ := run_verify a hw
  rw [h] at hverify
  have hcost := cost_verify hw h
  have hquiet : Quiet w ((a.append event).exec machine n w).state := by
    rw [append_eq a he]
    rcases Nat.lt_or_eq_of_le hn with hlt | rfl
    · rw [Prog.exec_bind_of_le a.verify (a.record event) n w (hcost ▸ hlt)]
      exact quiet_of_looked (Prog.exec_of_wp _ n w (wp_verify a w))
    · rw [Prog.exec_bind_of_run _ _ hcost.le hverify, hcost, Nat.sub_self]
      exact ⟨rfl, rfl⟩
  rw [CrashAtomic, exists_run_verify (faultless_exec _ n hw), hquiet.files]
  exact ⟨es, h, .inl rfl⟩

/-- After it, the line must be readable and the anchor must name it. -/
theorem crashAtomic_late (hhex : Sha256.HexDigests) {a : AuditLog} {w : World} (hw : w.Faultless)
    {es : List Json} (h : a.verified (w.files a.path) (w.files a.anchorPath) = .ok es)
    {event : Json} (he : Admissible event) (m : Nat) :
    CrashAtomic a event es w (looks (w.files a.path) + (m + 1)) ↔
      (Extendable (w.files a.path) ∧ Unmarked event) ∧
        (1 ≤ m ∧ w.files a.anchorPath ≠ some .other ∨ Confirms (w.files a.anchorPath)
          (es.length + 1) (digestAfter (lastDigest genesisDigest es) event)) := by
  obtain ⟨node, hnode, -, hgrown⟩ := verified_grown hhex h he
  obtain ⟨k, hverify⟩ := run_verify a hw
  rw [h] at hverify
  let t : World := { w with tick := w.tick + k }
  have ht : t.Faultless := hw
  let anchor : Node := .file false (canonicalJson (anchorOf (es.length + 1)
    (digestAfter (lastDigest genesisDigest es) event)))
  have hcost := cost_verify hw h
  have hstate : ((a.append event).exec machine (looks (w.files a.path) + (m + 1)) w).state =
      remains a t node anchor (m + 1) := by
    rw [append_eq a he, Prog.exec_bind_of_run _ _ (hcost ▸ Nat.le_add_right ..) hverify, hcost,
      Nat.add_sub_cancel_left]
    exact exec_record ht hnode _
  obtain ⟨hlog, hanchor⟩ := remains_files a t node anchor m
  have hconfirms : Confirms ((remains a t node anchor (m + 1)).files a.anchorPath) (es.length + 1)
      (digestAfter (lastDigest genesisDigest es) event) ↔
        1 ≤ m ∧ w.files a.anchorPath ≠ some .other ∨ Confirms (w.files a.anchorPath) (es.length + 1)
          (digestAfter (lastDigest genesisDigest es) event) := by
    rw [hanchor]
    change Confirms (if 1 ≤ m ∧ w.files a.anchorPath ≠ some .other then _ else
      w.files a.anchorPath) _ _ ↔ _
    split
    · next hnew => exact iff_of_true ((confirms_anchorOf _ _ _ _).mpr ⟨rfl, rfl⟩) (.inl hnew)
    · next hold => exact ⟨.inr, fun hor => hor.resolve_left hold⟩
  rw [CrashAtomic, hstate, exists_run_verify (faultless_remains ht a node anchor _), hlog,
    ← hconfirms]
  constructor
  · rintro ⟨events, hevents, -⟩
    obtain ⟨hgrows, -, hconfirm⟩ := (hgrown _ _).mp hevents
    exact ⟨hgrows, hconfirm⟩
  · rintro ⟨hgrows, hconfirm⟩
    exact ⟨_, (hgrown _ _).mpr ⟨hgrows, rfl, hconfirm⟩, .inr rfl⟩

/-- **Crash points of `append`.** -/
theorem crashAtomic_iff (hhex : Sha256.HexDigests) (a : AuditLog) {w : World} (hw : w.Faultless)
    {es : List Json} (h : a.verified (w.files a.path) (w.files a.anchorPath) = .ok es)
    {event : Json} (he : Admissible event) (n : Nat) :
    CrashAtomic a event es w n ↔ n ≤ looks (w.files a.path) ∨
      (Extendable (w.files a.path) ∧ Unmarked event) ∧
        (looks (w.files a.path) + 2 ≤ n ∧ w.files a.anchorPath ≠ some .other ∨
          Confirms (w.files a.anchorPath) (es.length + 1)
            (digestAfter (lastDigest genesisDigest es) event)) := by
  by_cases hn : n ≤ looks (w.files a.path)
  · exact iff_of_true (crashAtomic_early hw h he hn) (.inl hn)
  · obtain ⟨m, rfl⟩ : ∃ m, n = looks (w.files a.path) + (m + 1) :=
      ⟨n - looks (w.files a.path) - 1, by omega⟩
    have hpast : looks (w.files a.path) + 2 ≤ looks (w.files a.path) + (m + 1) ↔ 1 ≤ m := by omega
    rw [or_iff_right hn, hpast]
    exact crashAtomic_late hhex hw h he m

end Crash

/-! ### A crash between the first line and its anchor -/

section

attribute [local instance] zeroSha256

theorem bare_verified : sampleLog.verified (bareWorld.files sampleLog.path)
    (bareWorld.files sampleLog.anchorPath) = .ok [] := rfl

/-- The line is there and no anchor. -/
theorem crash_blocks : ¬∀ n, CrashAtomic sampleLog sampleEvent [] bareWorld n := by
  intro hall
  have hlate := (crashAtomic_late zeroSha256_hexDigests (fun _ => rfl) bare_verified
    admissible_sample 0).mp (hall 2)
  rcases hlate.2 with ⟨hm, -⟩ | ⟨content, value, encodable, hanchor, -⟩
  · exact absurd hm (by decide)
  · cases hanchor

theorem crashAtomic_iff_bare : CrashAtomic sampleLog sampleEvent [] bareWorld 3 ↔
    3 ≤ looks none ∨ (Extendable none ∧ Unmarked sampleEvent) ∧
      (looks none + 2 ≤ 3 ∧ bareWorld.files sampleLog.anchorPath ≠ some .other ∨
        Confirms none 1 (digestAfter genesisDigest sampleEvent)) :=
  crashAtomic_iff zeroSha256_hexDigests sampleLog (fun _ => rfl) bare_verified admissible_sample 3

end

end AuditLog

end ProductPdfQr.DeployRollback
