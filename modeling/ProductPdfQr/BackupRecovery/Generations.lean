/-
# Generations

`generation_tags` looks at one timestamp: a backup frozen on a Monday is weekly, one frozen on
the first of a month is monthly.  The contract says something about all the backups of a week or
a month: the first one from Monday, or from the first day, 02:30 on is the one.

The business timezone is Asia/Shanghai, eight hours ahead of UTC.
-/
import ProductPdfQr.Calendar

namespace ProductPdfQr

namespace Calendar

/-! ## 1. Weeks by their Monday -/

theorem isoWeekOneMonday_weekday (y : Nat) : isoWeekOneMonday y % 7 = 0 := by
  simp only [isoWeekOneMonday, weekday]
  by_cases hlate : 3 < daysBeforeYear y % 7 <;> simp only [hlate, if_true, if_false] <;> omega

/-- The first ISO week starts at most three days before its year, or after its first. -/
theorem isoWeekOneMonday_near (y : Nat) :
    isoWeekOneMonday y ≤ daysBeforeYear y + 3 ∧ daysBeforeYear y ≤ isoWeekOneMonday y + 3 := by
  simp only [isoWeekOneMonday, weekday]
  by_cases hlate : 3 < daysBeforeYear y % 7 <;> simp only [hlate, if_true, if_false] <;> omega

/-- A Monday is the Monday of its ISO week. -/
theorem isoWeek_monday {n : Nat} (h : weekday n = 0) :
    n = isoWeekOneMonday (isoWeek n).1 + 7 * ((isoWeek n).2 - 1) ∧ (isoWeek n).2 < 100 := by
  obtain ⟨hy, hlo, hhi⟩ := yearOf_bracket n
  have hnext := daysBeforeYear_succ hy
  have hlength : yearLength (isLeap (yearOf n)) ≤ 366 := by
    unfold yearLength
    split <;> omega
  have hfirst := isoWeekOneMonday_near (yearOf n)
  have hfirst' := isoWeekOneMonday_near (yearOf n + 1)
  have hmonday := isoWeekOneMonday_weekday (yearOf n)
  have hmonday' := isoWeekOneMonday_weekday (yearOf n + 1)
  unfold weekday at h
  unfold isoWeek
  dsimp only
  split
  · next hbefore =>
    have hprevious := isoWeekOneMonday_near (yearOf n - 1)
    have hmonday'' := isoWeekOneMonday_weekday (yearOf n - 1)
    have hlast : daysBeforeYear (yearOf n) ≤ daysBeforeYear (yearOf n - 1) + 366 := by
      by_cases hone : 1 ≤ yearOf n - 1
      · have hsucc := daysBeforeYear_succ hone
        rw [Nat.sub_add_cancel (by omega)] at hsucc
        have hlength' : yearLength (isLeap (yearOf n - 1)) ≤ 366 := by
          unfold yearLength
          split <;> omega
        omega
      · have hzero : yearOf n = 1 := by omega
        rw [hzero]
        decide
    have hmono : daysBeforeYear (yearOf n - 1) + 365 ≤ daysBeforeYear (yearOf n) ∨ yearOf n = 1 := by
      by_cases hone : 1 ≤ yearOf n - 1
      · have hsucc := daysBeforeYear_succ hone
        rw [Nat.sub_add_cancel (by omega)] at hsucc
        have hlength' : 365 ≤ yearLength (isLeap (yearOf n - 1)) := by
          unfold yearLength
          split <;> omega
        exact .inl (by omega)
      · exact .inr (by omega)
    rcases hmono with hmono | hone
    · constructor <;> dsimp only <;> omega
    · rw [hone] at hbefore
      exact absurd hbefore (by simp [isoWeekOneMonday, daysBeforeYear, weekday])
  · split
    · constructor <;> dsimp only <;> omega
    · constructor <;> dsimp only <;> omega

theorem isoWeek_injective {m n : Nat} (hm : weekday m = 0) (hn : weekday n = 0)
    (h : isoWeek m = isoWeek n) : m = n := by
  have hm' := (isoWeek_monday hm).1
  have hn' := (isoWeek_monday hn).1
  rw [h] at hm'
  omega

end Calendar

namespace BackupRecovery

open Calendar
open Json (ofDigits)

/-! ## 2. Tags -/

/-- The local time in the business timezone, in microseconds since the start of year 1. -/
def shanghai (i : Instant) : Nat := i.micros + 8 * 3600000000

def dailyTag (day : Nat) : String :=
  "daily:" ++ String.ofList (padDigits 4 (date day).year ++ '-' ::
    (padDigits 2 (date day).month ++ '-' :: padDigits 2 (date day).day))

def weeklyTag (day : Nat) : String :=
  "weekly:" ++ String.ofList (Json.decDigits (isoWeek day).1 ++ '-' :: 'W' ::
    padDigits 2 (isoWeek day).2)

def monthlyTag (year month : Nat) : String :=
  "monthly:" ++ String.ofList (Json.decDigits year ++ '-' :: padDigits 2 month)

/-- The tags of a local day. -/
def tagsOfDay (day : Nat) : List String :=
  dailyTag day :: ((if weekday day = 0 then [weeklyTag day] else []) ++
    if (date day).day = 1 then [monthlyTag (date day).year (date day).month] else [])

/-- `generation_tags`, unless the local time is past the last year there is. -/
def generationTags (frozen : Instant) : Option (List String) :=
  if shanghai frozen < endOfTime then some (tagsOfDay (shanghai frozen / dayMicros)) else none

/-- A completed backup, with the generations of its manifest. -/
structure Backup where
  frozen : Instant
  generations : List String
  tagged : generationTags frozen = some generations

/-- The local day on which it was frozen. -/
def Backup.day (b : Backup) : Nat := shanghai b.frozen / dayMicros

theorem Backup.generations_eq (b : Backup) : b.generations = tagsOfDay b.day := by
  have h := b.tagged
  unfold generationTags at h
  split at h
  · exact (Option.some.inj h).symm
  · cases h

theorem digits_field {y y' : Nat} {rest rest' : List Char}
    (h : Json.decDigits y ++ '-' :: rest = Json.decDigits y' ++ '-' :: rest') :
    y = y' ∧ rest = rest' := by
  have hspan : ∀ (y : Nat) (rest : List Char),
      Json.spanDigits (Json.decDigits y ++ '-' :: rest) = (Json.decDigits y, '-' :: rest) :=
    fun y rest =>
      Json.spanDigits_append (Json.decDigits_isDigit y) (Json.endsNumber_cons (by decide))
  have heq := congrArg Json.spanDigits h
  rw [hspan, hspan, Prod.mk.injEq, List.cons.injEq] at heq
  have hyear := congrArg ofDigits heq.1
  rw [Json.ofDigits_decDigits, Json.ofDigits_decDigits] at hyear
  exact ⟨hyear, heq.2.2⟩

theorem padDigits_injective {n n' : Nat} (hn : n < 100) (hn' : n' < 100)
    (h : padDigits 2 n = padDigits 2 n') : n = n' := by
  have heq := congrArg ofDigits h
  rwa [ofDigits_padDigits hn, ofDigits_padDigits hn'] at heq

theorem weeklyTag_injective {m n : Nat} (hm : weekday m = 0) (hn : weekday n = 0)
    (h : weeklyTag m = weeklyTag n) : m = n := by
  have htext := congrArg String.toList h
  simp only [weeklyTag, String.toList_append, String.toList_ofList,
    List.append_cancel_left_eq] at htext
  obtain ⟨hyear, hweek⟩ := digits_field htext
  have hweek' := padDigits_injective (isoWeek_monday hm).2 (isoWeek_monday hn).2
    (List.cons.inj hweek).2
  exact isoWeek_injective hm hn (Prod.ext hyear hweek')

theorem monthlyTag_injective {y y' m m' : Nat} (hm : m < 100) (hm' : m' < 100)
    (h : monthlyTag y m = monthlyTag y' m') : y = y' ∧ m = m' := by
  have htext := congrArg String.toList h
  simp only [monthlyTag, String.toList_append, String.toList_ofList,
    List.append_cancel_left_eq] at htext
  obtain ⟨hyear, hmonth⟩ := digits_field htext
  exact ⟨hyear, padDigits_injective hm hm' hmonth⟩

/-- The kinds of tags have different first letters. -/
theorem head_dailyTag (day : Nat) : (dailyTag day).toList.head? = some 'd' := by
  simp [dailyTag, String.toList_append]

theorem head_weeklyTag (day : Nat) : (weeklyTag day).toList.head? = some 'w' := by
  simp [weeklyTag, String.toList_append]

theorem head_monthlyTag (year month : Nat) : (monthlyTag year month).toList.head? = some 'm' := by
  simp [monthlyTag, String.toList_append]

theorem weeklyTag_mem_iff {monday day : Nat} (hmonday : weekday monday = 0) :
    weeklyTag monday ∈ tagsOfDay day ↔ day = monday := by
  have hdaily : weeklyTag monday ≠ dailyTag day := fun h => by
    have := head_weeklyTag monday
    rw [h, head_dailyTag] at this
    exact absurd this (by decide)
  have hmonthly : ∀ year month, weeklyTag monday ≠ monthlyTag year month := fun year month h => by
    have := head_weeklyTag monday
    rw [h, head_monthlyTag] at this
    exact absurd this (by decide)
  unfold tagsOfDay
  rw [List.mem_cons, List.mem_append]
  constructor
  · rintro (h | h | h)
    · exact absurd h hdaily
    · split at h
      · next hday => exact (weeklyTag_injective hmonday hday (List.mem_singleton.mp h)).symm
      · cases h
    · split at h
      · exact absurd (List.mem_singleton.mp h) (hmonthly _ _)
      · cases h
  · rintro rfl
    exact .inr (.inl (by rw [if_pos hmonday]; exact List.mem_singleton_self _))

theorem monthlyTag_mem_iff {year month day : Nat} (hmonth : month < 100) :
    monthlyTag year month ∈ tagsOfDay day ↔ date day = ⟨year, month, 1⟩ := by
  have hdaily : monthlyTag year month ≠ dailyTag day := fun h => by
    have := head_monthlyTag year month
    rw [h, head_dailyTag] at this
    exact absurd this (by decide)
  have hweekly : monthlyTag year month ≠ weeklyTag day := fun h => by
    have := head_monthlyTag year month
    rw [h, head_weeklyTag] at this
    exact absurd this (by decide)
  have hvalid := (date_spec day).1
  unfold tagsOfDay
  rw [List.mem_cons, List.mem_append]
  constructor
  · rintro (h | h | h)
    · exact absurd h hdaily
    · split at h
      · exact absurd (List.mem_singleton.mp h) hweekly
      · cases h
    · split at h
      · next hfirst =>
        obtain ⟨rfl, rfl⟩ := monthlyTag_injective hmonth (by have := hvalid.2.2.1; omega)
          (List.mem_singleton.mp h)
        rw [← hfirst]
      · cases h
  · intro h
    exact .inr (.inr (by rw [h, if_pos rfl]; exact List.mem_singleton_self _))

/-! ## 3. Weeks and months -/

/-- A calendar week, counted from the first Monday there is, or a calendar month. -/
inductive Period
  | week (n : Nat)
  | month (y m : Nat)
  deriving DecidableEq, Repr

namespace Period

/-- The Monday, or the first day. -/
def start : Period → Nat
  | week n => 7 * n
  | month y m => dayNumber ⟨y, m, 1⟩

/-- The days of the period. -/
def has : Period → Nat → Bool
  | week n, day => day / 7 = n
  | month y m, day => (date day).year = y && (date day).month = m

/-- Its tag. -/
def tag : Period → String
  | week n => weeklyTag (7 * n)
  | month y m => monthlyTag y m

theorem start_le {p : Period} {day : Nat} (h : p.has day = true) : p.start ≤ day := by
  cases p with
  | week n =>
    have hweek : day / 7 = n := of_decide_eq_true h
    simp only [start]
    omega
  | month y m =>
    simp only [has, Bool.and_eq_true, decide_eq_true_eq] at h
    obtain ⟨rfl, rfl⟩ := h
    have hnumber := (date_spec day).2
    simp only [start, dayNumber] at hnumber ⊢
    omega

/-- The tag of a period with days in it is the tag of its first day. -/
theorem tag_mem_iff {p : Period} {day₀ : Nat} (h : p.has day₀ = true) {day : Nat} :
    p.tag ∈ tagsOfDay day ↔ day = p.start := by
  cases p with
  | week n => exact weeklyTag_mem_iff (Nat.mul_mod_right 7 n)
  | month y m =>
    simp only [has, Bool.and_eq_true, decide_eq_true_eq] at h
    obtain ⟨rfl, rfl⟩ := h
    obtain ⟨hyear, hmonth, hmonth', -, -⟩ := (date_spec day₀).1
    have hfirst : ValidDate ⟨(date day₀).year, (date day₀).month, 1⟩ := by
      refine ⟨hyear, hmonth, hmonth', le_refl 1, ?_⟩
      have hvalid := (date_spec day₀).1.2.2.2
      dsimp only
      omega
    simp only [tag, start]
    rw [monthlyTag_mem_iff (by omega)]
    constructor
    · intro hdate
      rw [← hdate, (date_spec day).2]
    · rintro rfl
      exact date_dayNumber hfirst

end Period

/-! ## 4. The first backup of a period -/

/-- `finalizer_local_time`, from midnight. -/
def finalizerMicros : Nat := (2 * 60 + 30) * 60000000

/-- The backup was frozen in the period, at or after 02:30 of its first day. -/
def Period.eligible (p : Period) (b : Backup) : Bool :=
  p.has b.day && p.start * dayMicros + finalizerMicros ≤ shanghai b.frozen

/-- The contract: the first such backup carries the tag of the period, and no other one. -/
def FirstTagged (p : Period) (backups : List Backup) : Prop :=
  ∀ first, backups.find? p.eligible = some first →
    ∀ b ∈ backups, p.tag ∈ b.generations ↔ b = first

/-- On the first day of the period one backup was frozen, and not before 02:30. -/
def OnceOnFirstDay (p : Period) (backups : List Backup) : Prop :=
  ∃ b ∈ backups, b.day = p.start ∧ p.start * dayMicros + finalizerMicros ≤ shanghai b.frozen ∧
    ∀ c ∈ backups, c.day = p.start → c = b

/-- The backups in the order in which they were frozen. -/
def InOrder (backups : List Backup) : Prop :=
  backups.Pairwise fun a b => a.frozen.micros < b.frozen.micros

theorem eligible_iff {p : Period} {b : Backup} : p.eligible b = true ↔
    p.has b.day = true ∧ p.start * dayMicros + finalizerMicros ≤ shanghai b.frozen := by
  simp [Period.eligible]

theorem Period.has_start {p : Period} {day : Nat} (h : p.has day = true) : p.has p.start = true := by
  cases p with
  | week n => simp [has, start]
  | month y m =>
    have hmem := (tag_mem_iff h).mpr rfl
    simp only [has, Bool.and_eq_true, decide_eq_true_eq] at h
    obtain ⟨rfl, rfl⟩ := h
    have hmonth := (date_spec day).1.2.2.1
    have hdate := (monthlyTag_mem_iff (by omega)).mp hmem
    simp [has, hdate]

/-- The first backup in the period is frozen no later than any other. -/
theorem first_le {p : Period} {backups : List Backup} (horder : InOrder backups)
    {first b : Backup} (hfirst : backups.find? p.eligible = some first) (hb : b ∈ backups)
    (helig : p.eligible b = true) : first.frozen.micros ≤ b.frozen.micros := by
  obtain ⟨-, before, after, rfl, hbefore⟩ := List.find?_eq_some_iff_append.mp hfirst
  rcases List.mem_append.mp hb with hb | hb
  · have hnot := hbefore b hb
    rw [helig] at hnot
    cases hnot
  · rcases List.mem_cons.mp hb with rfl | hb
    · exact le_refl _
    · have hafter := (List.pairwise_append.mp horder).2.1
      exact le_of_lt ((List.pairwise_cons.mp hafter).1 b hb)

theorem Backup.day_mono {a b : Backup} (h : a.frozen.micros ≤ b.frozen.micros) : a.day ≤ b.day :=
  Nat.div_le_div_right (Nat.add_le_add_right h _)

/-- For one period. -/
theorem firstTagged_iff {p : Period} {backups : List Backup} (horder : InOrder backups) :
    FirstTagged p backups ↔
      ((∃ b ∈ backups, p.eligible b = true) → OnceOnFirstDay p backups) := by
  constructor
  · rintro htagged ⟨b, hb, helig⟩
    obtain ⟨first, hfirst⟩ : ∃ first, backups.find? p.eligible = some first :=
      Option.isSome_iff_exists.mp (List.find?_isSome.mpr ⟨b, hb, helig⟩)
    have hhas := (eligible_iff.mp (List.find?_some hfirst)).1
    have hmem := List.mem_of_find?_eq_some hfirst
    have hday : ∀ c ∈ backups, c.day = p.start ↔ c = first := by
      intro c hc
      rw [← Period.tag_mem_iff hhas, ← c.generations_eq]
      exact htagged first hfirst c hc
    exact ⟨first, hmem, (hday first hmem).mpr rfl, (eligible_iff.mp (List.find?_some hfirst)).2,
      fun c hc hstart => (hday c hc).mp hstart⟩
  · intro honce first hfirst
    have helig := List.find?_some hfirst
    have hmem := List.mem_of_find?_eq_some hfirst
    have hhas := (eligible_iff.mp helig).1
    obtain ⟨b, hb, hstart, hlate, hunique⟩ := honce ⟨first, hmem, helig⟩
    have hbelig : p.eligible b = true := eligible_iff.mpr ⟨by
      rw [hstart]
      exact Period.has_start hhas, hlate⟩
    -- no day of the period lies before its first, and `first` is not frozen after `b`
    have hday : first.day = p.start :=
      le_antisymm (hstart ▸ Backup.day_mono (first_le horder hfirst hb hbelig))
        (Period.start_le hhas)
    obtain rfl := hunique first hmem hday
    intro c hc
    rw [c.generations_eq, Period.tag_mem_iff hhas]
    exact ⟨hunique c hc, fun h => h ▸ hday⟩

/-- **When the tags are those of the contract.**  For every week and every month, exactly when
wherever a backup was frozen from 02:30 of the first day on, the first day itself has one
backup, and none of before 02:30. -/
theorem generation_tags_right_iff {backups : List Backup} (horder : InOrder backups) :
    (∀ p, FirstTagged p backups) ↔
      ∀ p : Period, (∃ b ∈ backups, p.eligible b = true) → OnceOnFirstDay p backups :=
  forall_congr' fun _ => firstTagged_iff horder

/-- What `finalize` completes. -/
def backupOf (frozen : Instant) (h : shanghai frozen < endOfTime) : Backup :=
  ⟨frozen, tagsOfDay (shanghai frozen / dayMicros), if_pos h⟩

/-- Frozen on the first of June 2026, a Monday, at 02:30 in Shanghai. -/
def mondayBackup : Backup :=
  backupOf ⟨dayNumber ⟨2026, 5, 31⟩ * dayMicros + 18 * 3600000000 + 1800000000, by decide +kernel⟩
    (by decide +kernel)

/-- Frozen on the 13th of January 2026, a Tuesday, at 02:30 in Shanghai. -/
def tuesdayBackup : Backup :=
  backupOf ⟨dayNumber ⟨2026, 1, 12⟩ * dayMicros + 18 * 3600000000 + 1800000000, by decide +kernel⟩
    (by decide +kernel)

theorem generation_tags_right_monday :
    FirstTagged (.week (mondayBackup.day / 7)) [mondayBackup] ∧
      FirstTagged (.month 2026 6) [mondayBackup] := by
  have hall : ∀ p, FirstTagged p [mondayBackup] := by
    refine (generation_tags_right_iff (List.pairwise_singleton _ _)).mpr ?_
    rintro p ⟨b, hb, helig⟩
    obtain rfl := List.mem_singleton.mp hb
    obtain ⟨hhas, hlate⟩ := eligible_iff.mp helig
    refine ⟨_, hb, ?_, hlate, fun c hc _ => List.mem_singleton.mp hc⟩
    have hmonday : mondayBackup.day = 7 * (mondayBackup.day / 7) := by decide +kernel
    have hfirst : date mondayBackup.day = ⟨2026, 6, 1⟩ := by decide +kernel
    cases p with
    | week n =>
      simp only [Period.has, decide_eq_true_eq] at hhas
      rw [Period.start, ← hhas]
      exact hmonday
    | month y m =>
      simp only [Period.has, Bool.and_eq_true, decide_eq_true_eq] at hhas
      rw [Period.start, ← hhas.1, ← hhas.2, hfirst]
      decide +kernel
  exact ⟨hall _, hall _⟩

/-- The Monday was missed: no backup of the week is weekly. -/
theorem missed_monday_untagged : ¬∀ p, FirstTagged p [tuesdayBackup] := by
  intro h
  have helig : (Period.week 105661).eligible tuesdayBackup = true := by decide +kernel
  have htagged := (h (.week 105661) tuesdayBackup (List.find?_cons_of_pos helig) tuesdayBackup
    (List.mem_singleton_self _)).mpr rfl
  rw [tuesdayBackup.generations_eq, Period.tag_mem_iff (eligible_iff.mp helig).1] at htagged
  have hday : tuesdayBackup.day ≠ (Period.week 105661).start := by decide +kernel
  exact hday htagged

end BackupRecovery

end ProductPdfQr
