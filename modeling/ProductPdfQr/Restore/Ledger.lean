/-
# The order of the stages

What a restore operation is meant to record, without files and without commands: it is declared
once, it goes from each stage to the next one, the database is restored from the bundle at one
stage only, and a rollback ends it.  The rest follows from these rules by induction on the
record.
-/
import ProductPdfQr.Restore.Checkpoint

namespace ProductPdfQr.Restore

open Json

/-! ## 1. Records -/

/-- An entry of the history. -/
structure Entry where
  stage : Stage
  time : Instant
  details : Fields
  plain : PlainFields details

/-- The state of an operation that was declared. -/
structure Recorded where
  declaredAt : Instant
  entries : List Entry

namespace Recorded

/-- The stages of the history. -/
def stages (r : Recorded) : List Stage := r.entries.map Entry.stage

/-- The stage it is at. -/
def stage (r : Recorded) : Stage := (r.stages.getLast?).getD .declared

/-- With one more entry. -/
def push (r : Recorded) (x : Entry) : Recorded := { r with entries := r.entries ++ [x] }

@[simp] theorem push_declaredAt (r : Recorded) (x : Entry) :
    (r.push x).declaredAt = r.declaredAt := rfl

@[simp] theorem push_entries (r : Recorded) (x : Entry) :
    (r.push x).entries = r.entries ++ [x] := rfl

@[simp] theorem stages_push (r : Recorded) (x : Entry) :
    (r.push x).stages = r.stages ++ [x.stage] := by simp [stages]

@[simp] theorem stage_push (r : Recorded) (x : Entry) : (r.push x).stage = x.stage := by
  simp [stage]

end Recorded

/-- What the events of an operation say. -/
inductive Fact
  | recorded (r : Recorded)
  | pgRestored (dump : Dump)

/-- The records among them. -/
def records (trace : List Fact) : List Recorded :=
  trace.filterMap fun
    | .recorded r => some r
    | .pgRestored _ => none

theorem records_snoc_recorded (trace : List Fact) (r : Recorded) :
    records (trace ++ [.recorded r]) = records trace ++ [r] := by simp [records]

theorem records_snoc_restored (trace : List Fact) (dump : Dump) :
    records (trace ++ [.pgRestored dump]) = records trace := by simp [records]

theorem mem_records {trace : List Fact} {r : Recorded} : r ∈ records trace ↔ .recorded r ∈ trace := by
  simp only [records, List.mem_filterMap]
  constructor
  · rintro ⟨fact, hfact, heq⟩
    cases fact with
    | recorded r' => exact Option.some.inj heq ▸ hfact
    | pgRestored dump => cases heq
  · exact fun h => ⟨_, h, rfl⟩

/-! ## 2. The machine -/

/-- A rollback may begin. -/
def Recorded.Retained (r : Recorded) : Prop :=
  Stage.siteRetained.order ≤ r.stage.order ∧ r.stage ≠ .rolledBack

/-- The rules, with the record that each leads to. -/
inductive Lawful : List Fact → Option Recorded → Prop
  | start : Lawful [] none
  | declare {trace : List Fact} (now : Instant) : Lawful trace none →
      Lawful (trace ++ [.recorded ⟨now, []⟩]) (some ⟨now, []⟩)
  | advance {trace : List Fact} {r : Recorded} (x : Entry) : Lawful trace (some r) →
      x.stage.order = r.stage.order + 1 → x.stage ≠ .rolledBack →
      Lawful (trace ++ [.recorded (r.push x)]) (some (r.push x))
  | restore {trace : List Fact} {r : Recorded} : Lawful trace (some r) →
      r.stage = .siteRetained → Lawful (trace ++ [.pgRestored .bundle]) (some r)
  | restoreSite {trace : List Fact} {r : Recorded} : Lawful trace (some r) → r.Retained →
      Lawful (trace ++ [.pgRestored .site]) (some r)
  | rollBack {trace : List Fact} {r : Recorded} (x : Entry) : Lawful trace (some r) →
      r.Retained → x.stage = .rolledBack →
      Lawful (trace ++ [.recorded (r.push x)]) (some (r.push x))

/-- The stages that a restore goes through. -/
def forward : List Stage :=
  [.preflightComplete, .siteRetained, .databaseRestored, .filesComplete, .offlineValidated,
    .isolatedFunctionalValidated, .proxyAuthorized, .externalReady]

/-- The first stages in their order, and perhaps a rollback from `site_retained` on. -/
def Recorded.InOrder (r : Recorded) : Prop :=
  ∃ k, r.stages = forward.take k ∨ (2 ≤ k ∧ r.stages = forward.take k ++ [.rolledBack])

/-- The last record. -/
def lastRecord (trace : List Fact) : Option Recorded := (records trace).getLast?

/-- What an orderly restore comes to.  The first record is empty, each further one has one entry
more, and each is in order; they are of one declaration; a restore of the database finds
`site_retained` recorded, and no rollback; the proxy is authorized after all that precedes it;
and a recorded rollback is the end. -/
structure Laws (trace : List Fact) : Prop where
  declared : ∀ before r after, trace = before ++ .recorded r :: after → lastRecord before = none →
    r.entries = []
  oneByOne : ∀ before r r' after, trace = before ++ .recorded r' :: after →
    lastRecord before = some r → ∃ x, r' = r.push x
  inOrder : ∀ r, .recorded r ∈ trace → r.InOrder
  declaredOnce : ∀ r r', .recorded r ∈ trace → .recorded r' ∈ trace → r.declaredAt = r'.declaredAt
  restored : ∀ before dump after, trace = before ++ .pgRestored dump :: after →
    ∃ r, lastRecord before = some r ∧ .siteRetained ∈ r.stages ∧ .rolledBack ∉ r.stages ∧
      (dump = .bundle → r.stage = .siteRetained)
  proxy : ∀ r before x after, .recorded r ∈ trace → r.entries = before ++ x :: after →
    x.stage = .proxyAuthorized → before.map Entry.stage = forward.take 6
  final : ∀ before r after, trace = before ++ .recorded r :: after → .rolledBack ∈ r.stages →
    after = []

/-! ## 3. The rules keep the order -/

theorem forward_order {k : Nat} (hk : k ≤ 8) :
    ((forward.take k).getLast?.getD .declared).order = k := by
  have hall : ∀ k : Fin 9, ((forward.take k).getLast?.getD .declared).order = k := by decide
  exact hall ⟨k, by omega⟩

theorem forward_proxy {n : Nat} (h : forward[n]? = some .proxyAuthorized) : n = 6 := by
  obtain ⟨hlt, hn⟩ := List.getElem?_eq_some_iff.mp h
  have hall : ∀ m : Fin 8, forward[m] = .proxyAuthorized → m = 6 := by decide
  exact congrArg Fin.val (hall ⟨n, hlt⟩ hn)

namespace Recorded

variable {r : Recorded}

/-- Up to a rollback the stage says how far the record is. -/
theorem InOrder.forward (h : r.InOrder) (hstage : r.stage ≠ .rolledBack) :
    r.stages = Restore.forward.take r.stage.order := by
  obtain ⟨k, hk | ⟨-, hk⟩⟩ := h
  · rcases Nat.lt_or_ge 8 k with hlt | hle
    · have hall : r.stages = Restore.forward := hk.trans (List.take_of_length_le (by
        change 8 ≤ k
        omega))
      have hexternal : r.stage = .externalReady := by rw [stage, hall]; rfl
      rw [hall, hexternal]
      rfl
    · have horder : r.stage.order = k := by rw [stage, hk, forward_order hle]
      rw [horder, hk]
  · exact absurd (by rw [stage, hk]; simp) hstage

theorem InOrder.rolledBack (h : r.InOrder) (hstage : r.stage ≠ .rolledBack) :
    .rolledBack ∉ r.stages := by
  rw [h.forward hstage]
  intro hmem
  exact absurd (List.mem_of_mem_take hmem) (by decide)

theorem InOrder.retained (h : r.InOrder) (hretained : r.Retained) : .siteRetained ∈ r.stages := by
  obtain ⟨hle, hne⟩ := hretained
  rw [h.forward hne]
  generalize r.stage = s at hle hne
  cases s with
  | declared | preflightComplete => exact absurd hle (by decide)
  | rolledBack => exact absurd rfl hne
  | siteRetained | databaseRestored | filesComplete | offlineValidated
  | isolatedFunctionalValidated | proxyAuthorized | externalReady => decide

/-- A rollback is recorded only at the end. -/
theorem InOrder.stage_of_rolledBack (h : r.InOrder) (hmem : .rolledBack ∈ r.stages) :
    r.stage = .rolledBack := by
  by_contra hne
  exact h.rolledBack hne hmem

theorem InOrder.push (h : r.InOrder) {x : Entry} (hnext : x.stage.order = r.stage.order + 1)
    (hx : x.stage ≠ .rolledBack) : (r.push x).InOrder := by
  have hne : r.stage ≠ .rolledBack := by
    intro heq
    rw [heq] at hnext
    generalize x.stage = s at hnext
    cases s <;> cases hnext
  refine ⟨r.stage.order + 1, Or.inl ?_⟩
  rw [stages_push, h.forward hne]
  generalize x.stage = s at hnext hx
  generalize r.stage = s' at hnext
  cases s with
  | rolledBack => exact absurd rfl hx
  | declared => cases hnext
  | preflightComplete | siteRetained | databaseRestored | filesComplete | offlineValidated
  | isolatedFunctionalValidated | proxyAuthorized | externalReady =>
    rw [← hnext, show s'.order = _ from (Nat.succ.inj hnext).symm]
    rfl

theorem InOrder.rollBack (h : r.InOrder) (hretained : r.Retained) {x : Entry}
    (hx : x.stage = .rolledBack) : (r.push x).InOrder :=
  ⟨r.stage.order, Or.inr ⟨hretained.1, by rw [stages_push, h.forward hretained.2, hx]⟩⟩

/-- The proxy is authorized after everything before it. -/
theorem InOrder.proxy (h : r.InOrder) {before : List Entry} {x : Entry} {after : List Entry}
    (hentries : r.entries = before ++ x :: after) (hx : x.stage = .proxyAuthorized) :
    before.map Entry.stage = Restore.forward.take 6 := by
  have hstages : r.stages = before.map Entry.stage ++ .proxyAuthorized :: after.map Entry.stage := by
    rw [stages, hentries, List.map_append, List.map_cons, hx]
  -- the stage stands at one place only of the declared order, and after it
  have hplace : ∀ (tail : List Stage) (k : Nat), .proxyAuthorized ∉ tail →
      r.stages = Restore.forward.take k ++ tail →
        before.map Entry.stage = Restore.forward.take 6 := by
    intro tail k htail hk
    have hat : r.stages[before.length]? = some .proxyAuthorized := by
      rw [hstages, List.getElem?_append_right (by simp)]
      simp
    have htake : r.stages.take before.length = before.map Entry.stage := by
      rw [hstages, List.take_append_of_le_length (by simp), List.take_of_length_le (by simp)]
    rw [hk] at hat htake
    by_cases hlt : before.length < (Restore.forward.take k).length
    · rw [List.getElem?_append_left hlt, List.getElem?_take] at hat
      split at hat
      · rw [List.take_append_of_le_length (Nat.le_of_lt hlt), List.take_take] at htake
        have hsix := forward_proxy hat
        rw [← htake, hsix, Nat.min_eq_left (by omega)]
      · cases hat
    · rw [List.getElem?_append_right (by omega)] at hat
      exact absurd (List.mem_of_getElem? hat) htail
  obtain ⟨k, hk | ⟨-, hk⟩⟩ := h
  · exact hplace [] k (by simp) (by rw [hk, List.append_nil])
  · exact hplace [.rolledBack] k (by decide) hk

end Recorded

/-! ## 4. Every law -/

/-- A fact that the rules admit after the trace. -/
structure Admitted (past : List Fact) (fact : Fact) : Prop where
  goesOn : ∀ r, lastRecord past = some r → r.stage ≠ .rolledBack
  declared : ∀ r, fact = .recorded r → lastRecord past = none → r.entries = []
  oneByOne : ∀ r r', fact = .recorded r' → lastRecord past = some r → ∃ x, r' = r.push x
  restored : ∀ dump, fact = .pgRestored dump → ∃ r, lastRecord past = some r ∧ r.Retained ∧
    (dump = .bundle → r.stage = .siteRetained)

namespace Lawful

variable {trace : List Fact} {last : Option Recorded}

theorem lastRecord_eq (h : Lawful trace last) : lastRecord trace = last := by
  induction h with
  | start => rfl
  | declare now _ _ => simp [lastRecord, records_snoc_recorded]
  | advance x _ _ _ _ => simp [lastRecord, records_snoc_recorded]
  | restore _ _ ih => rwa [lastRecord, records_snoc_restored]
  | restoreSite _ _ ih => rwa [lastRecord, records_snoc_restored]
  | rollBack x _ _ _ _ => simp [lastRecord, records_snoc_recorded]

theorem inOrder (h : Lawful trace last) : ∀ r, .recorded r ∈ trace → r.InOrder := by
  have hlast : ∀ {trace : List Fact} {r : Recorded}, Lawful trace (some r) →
      (∀ r, .recorded r ∈ trace → r.InOrder) → r.InOrder := by
    intro trace r h ih
    exact ih r (mem_records.mp (List.mem_of_getLast? h.lastRecord_eq))
  induction h with
  | start => rintro _ ⟨⟩
  | declare now _ ih =>
    intro r hr
    rcases List.mem_append.mp hr with hr | hr
    · exact ih r hr
    · cases List.mem_singleton.mp hr
      exact ⟨0, Or.inl rfl⟩
  | advance x h hnext hx ih =>
    intro r hr
    rcases List.mem_append.mp hr with hr | hr
    · exact ih r hr
    · cases List.mem_singleton.mp hr
      exact (hlast h ih).push hnext hx
  | restore h _ ih | restoreSite h _ ih =>
    intro r hr
    rcases List.mem_append.mp hr with hr | hr
    · exact ih r hr
    · cases List.mem_singleton.mp hr
  | rollBack x h hretained hx ih =>
    intro r hr
    rcases List.mem_append.mp hr with hr | hr
    · exact ih r hr
    · cases List.mem_singleton.mp hr
      exact (hlast h ih).rollBack hretained hx

theorem inOrder_last {r : Recorded} (h : Lawful trace (some r)) : r.InOrder :=
  h.inOrder r (mem_records.mp (List.mem_of_getLast? h.lastRecord_eq))

theorem declaredAt_eq (h : Lawful trace last) : ∀ r r', .recorded r ∈ trace → last = some r' →
    r.declaredAt = r'.declaredAt := by
  induction h with
  | start => rintro _ _ ⟨⟩
  | @declare trace now h _ =>
    rintro r _ hr ⟨⟩
    rcases List.mem_append.mp hr with hr | hr
    · have hnil : records trace = [] := List.getLast?_eq_none_iff.mp h.lastRecord_eq
      have hmem := mem_records.mpr hr
      rw [hnil] at hmem
      cases hmem
    · cases List.mem_singleton.mp hr
      rfl
  | advance x _ _ _ ih | rollBack x _ _ _ ih =>
    rintro r _ hr ⟨⟩
    rcases List.mem_append.mp hr with hr | hr
    · have hsame := ih r _ hr rfl
      exact hsame
    · cases List.mem_singleton.mp hr
      rfl
  | restore _ _ ih | restoreSite _ _ ih =>
    rintro r _ hr ⟨⟩
    rcases List.mem_append.mp hr with hr | hr
    · exact ih r _ hr rfl
    · cases List.mem_singleton.mp hr

theorem justified (h : Lawful trace last) : Effect.Justified Admitted trace := by
  induction h with
  | start => exact .nil
  | declare now h ih =>
    have hlast := h.lastRecord_eq
    refine .snoc ih ⟨?_, ?_, ?_, ?_⟩
    · simp [hlast]
    · rintro _ ⟨⟩ _
      rfl
    · simp [hlast]
    · rintro _ ⟨⟩
  | @advance trace r x h hnext hx ih =>
    have hlast := h.lastRecord_eq
    refine .snoc ih ⟨?_, ?_, ?_, ?_⟩
    · rintro r' hr' heq
      rw [hlast] at hr'
      obtain rfl := Option.some.inj hr'
      rw [heq] at hnext
      generalize x.stage = s at hnext
      cases s <;> cases hnext
    · simp [hlast]
    · rintro r' _ ⟨⟩ hr'
      rw [hlast] at hr'
      obtain rfl := Option.some.inj hr'
      exact ⟨x, rfl⟩
    · rintro _ ⟨⟩
  | restore h hstage ih =>
    have hlast := h.lastRecord_eq
    have hretained : Recorded.Retained _ := ⟨by rw [hstage], by rw [hstage]; decide⟩
    refine .snoc ih ⟨?_, ?_, ?_, ?_⟩
    · rintro r' hr'
      rw [hlast] at hr'
      obtain rfl := Option.some.inj hr'
      exact hretained.2
    · rintro _ ⟨⟩
    · rintro _ _ ⟨⟩
    · rintro _ ⟨⟩
      exact ⟨_, hlast, hretained, fun _ => hstage⟩
  | restoreSite h hretained ih =>
    have hlast := h.lastRecord_eq
    refine .snoc ih ⟨?_, ?_, ?_, ?_⟩
    · rintro r' hr'
      rw [hlast] at hr'
      obtain rfl := Option.some.inj hr'
      exact hretained.2
    · rintro _ ⟨⟩
    · rintro _ _ ⟨⟩
    · rintro _ ⟨⟩
      exact ⟨_, hlast, hretained, fun h => by cases h⟩
  | rollBack x h hretained hx ih =>
    have hlast := h.lastRecord_eq
    refine .snoc ih ⟨?_, ?_, ?_, ?_⟩
    · rintro r' hr'
      rw [hlast] at hr'
      obtain rfl := Option.some.inj hr'
      exact hretained.2
    · simp [hlast]
    · rintro r' _ ⟨⟩ hr'
      rw [hlast] at hr'
      obtain rfl := Option.some.inj hr'
      exact ⟨x, rfl⟩
    · rintro _ ⟨⟩

/-- A shorter trace is lawful, too. -/
theorem inOrder_lastRecord {before after : List Fact} (h : Lawful (before ++ after) last)
    {r : Recorded} (hr : lastRecord before = some r) : r.InOrder :=
  h.inOrder r (List.mem_append_left _ (mem_records.mp (List.mem_of_getLast? hr)))

theorem laws (h : Lawful trace last) : Laws trace where
  declared := fun before r after heq hnone =>
    (h.justified.split heq).declared r rfl hnone
  oneByOne := fun before r r' after heq hr => (h.justified.split heq).oneByOne r r' rfl hr
  inOrder := h.inOrder
  declaredOnce := by
    intro r r' hr hr'
    cases hlast : last with
    | none =>
      have hnil := h.lastRecord_eq
      rw [hlast, lastRecord, List.getLast?_eq_none_iff] at hnil
      have hmem := mem_records.mpr hr
      rw [hnil] at hmem
      cases hmem
    | some r'' => exact (h.declaredAt_eq r r'' hr hlast).trans (h.declaredAt_eq r' r'' hr' hlast).symm
  restored := by
    intro before dump after heq
    obtain ⟨r, hr, hretained, hdump⟩ := (h.justified.split heq).restored dump rfl
    subst heq
    have horder := h.inOrder_lastRecord hr
    exact ⟨r, hr, horder.retained hretained, horder.rolledBack hretained.2, hdump⟩
  proxy := fun r before x after hr hentries hx => (h.inOrder r hr).proxy hentries hx
  final := by
    intro before r after heq hmem
    cases after with
    | nil => rfl
    | cons fact after =>
      have hsplit : trace = (before ++ [.recorded r]) ++ fact :: after := by simpa using heq
      have hlast : lastRecord (before ++ [.recorded r]) = some r := by
        simp [lastRecord, records_snoc_recorded]
      have hr : .recorded r ∈ trace := by simp [heq]
      exact absurd ((h.inOrder r hr).stage_of_rolledBack hmem)
        ((h.justified.split hsplit).goesOn r hlast)

end Lawful

end ProductPdfQr.Restore
