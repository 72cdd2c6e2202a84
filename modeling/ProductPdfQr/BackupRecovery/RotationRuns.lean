/-
# Runs of the rotation

Whatever stands in the bucket, and wherever a run dies: what it deleted belonged to a point whose
own signed manifest says that it has expired, and of a point that is kept nothing is missing.
-/
import ProductPdfQr.BackupRecovery.RotationPlan

namespace ProductPdfQr.BackupRecovery

open Effect Json Rclone Restore Restore.Verified

variable [Sha256] [Ed25519] {r : Rotation}

/-! ## 1. What a run can do -/

/-- The key is one of the point. -/
def Belongs (t : Trusted r) (key : String) : Prop :=
  key = completeKey r.pre t.backupId ∨ key = verifiedKey r.pre t.backupId ∨
    key = deletingKey r.pre t.backupId ∨ key ∈ t.objectKeys

/-- `str(all_markers[backup_id]["frozen_at"]), backup_id`. -/
def Trusted.age (t : Trusted r) : String ×ₗ String :=
  toLex (pyStr r.conv.repr (t.record.get "frozen_at"), t.backupId)

/-- The point is known to a rotation. -/
def Stands (b : Bucket) (t : Trusted r) : Prop :=
  Authentic b t ∧ (completeKey r.pre t.backupId ∈ b ∨ deletingKey r.pre t.backupId ∈ b)

/-- No younger point was restored. -/
def NewestVerified (b : Bucket) (t : Trusted r) : Prop :=
  Verifies b t ∧ ∀ s : Trusted r, Stands b s → Verifies b s → s.age ≤ t.age

/-- A complete point that has not expired, or that is the newest one that was restored. -/
structure Retained (b : Bucket) (now : Instant) (t : Trusted r) : Prop where
  complete : completeKey r.pre t.backupId ∈ b
  authentic : Authentic b t
  lasting : ¬Expired now t ∨ NewestVerified b t

/-- What a plan allows. -/
def Plan.Allows (p : Plan r) : Rclone.Command → Prop
  | .lsf _ => True
  | .cat _ => True
  | .copyto content target =>
    ∃ t ∈ p.deleted, target = deletingKey r.pre t.backupId ∧ content = canonicalJson t.record
  | .deletefile target => target ∈ p.targets

/-- What a run can have done. -/
structure Plan.Effect (p : Plan r) (b s : Bucket) : Prop where
  untouched : ∀ key, key ∉ p.targets → s.lookup key = b.lookup key
  made : ∀ key content, s.lookup key = some content → b.lookup key = some content ∨
    ∃ t ∈ p.deleted, key = deletingKey r.pre t.backupId ∧ content = canonicalJson t.record

section Step

variable {b s : Bucket} {now : Instant} {p : Plan r}

theorem deleted_subset {t : Trusted r} (ht : t ∈ p.deleted) :
    t ∈ p.markers.records ∧ t.backupId ∉ p.journals.ids ∧ t ∈ p.deletionRecords := by
  obtain ⟨hmarker, hrest⟩ := List.mem_filter.mp ht
  exact ⟨hmarker, (of_decide_eq_true hrest).1, List.mem_append_right _ ht⟩

theorem Plan.Effect.step (h : p.Effect b s) {c : Rclone.Command} (hc : p.Allows c) :
    p.Effect b (Rclone.machine.step c s).2 := by
  cases c with
  | lsf dir => exact h
  | cat target => exact h
  | copyto content target =>
    change p.Effect b (Command.serve s (.copyto content target)).2
    unfold Command.serve
    dsimp only
    cases hthere : s.lookup target with
    | some there => exact h
    | none =>
      obtain ⟨t, ht, rfl, rfl⟩ := hc
      have hmem : deletingKey r.pre t.backupId ∈ p.targets :=
        Plan.deletingKey_mem_targets.mpr (.inl ⟨t, (deleted_subset ht).2.2, rfl⟩)
      refine ⟨fun key hkey => ?_, fun key content hcontent => ?_⟩
      · rw [Finmap.lookup_insert_of_ne _ (ne_of_mem_of_not_mem hmem hkey).symm]
        exact h.untouched key hkey
      · by_cases heq : key = deletingKey r.pre t.backupId
        · rw [heq, Finmap.lookup_insert] at hcontent
          exact .inr ⟨t, ht, heq, (Option.some.inj hcontent).symm⟩
        · rw [Finmap.lookup_insert_of_ne _ heq] at hcontent
          exact h.made key content hcontent
  | deletefile target =>
    change p.Effect b (s.erase target)
    refine ⟨fun key hkey => ?_, fun key content hcontent => ?_⟩
    · rw [Finmap.lookup_erase_ne (ne_of_mem_of_not_mem hc hkey).symm]
      exact h.untouched key hkey
    · by_cases heq : key = target
      · rw [heq, Finmap.lookup_erase] at hcontent
        cases hcontent
      · rw [Finmap.lookup_erase_ne heq] at hcontent
        exact h.made key content hcontent

omit [Sha256] [Ed25519] in
theorem callsIn_forM_mem {α : Type} {P : Rclone.Command → Prop} {f : α → RotationProg PUnit}
    {l : List α} (h : ∀ a ∈ l, (f a).CallsIn P) : (l.forM f).CallsIn P := by
  induction l with
  | nil => exact Prog.callsIn_pure _
  | cons a l ih =>
    obtain ⟨ha, hl⟩ := List.forall_mem_cons.mp h
    exact Prog.callsIn_bind ha fun _ => ih hl

theorem applyPlan_callsIn (p : Plan r) : (applyPlan p).CallsIn p.Allows := by
  refine Prog.callsIn_bind (callsIn_forM_mem fun t ht => ?_) fun _ => callsIn_forM_mem
    fun target htarget => ?_
  · refine Prog.callsIn_bind (Prog.callsIn_perform.mpr ⟨t, ht, rfl, rfl⟩) fun done => ?_
    refine Prog.callsIn_bind (Prog.callsIn_ensure ..) fun _ => ?_
    refine Prog.callsIn_bind (Prog.callsIn_perform.mpr trivial) fun content => ?_
    cases content with
    | none => exact Prog.callsIn_throw _
    | some content =>
      exact Prog.callsIn_bind (Prog.callsIn_liftExcept ..) fun _ => Prog.callsIn_ensure ..
  · unfold deleteIfPresent
    split
    · exact Prog.callsIn_throw _
    · refine Prog.callsIn_bind (Prog.callsIn_perform.mpr trivial) fun names => ?_
      split
      · exact Prog.callsIn_bind (Prog.callsIn_perform.mpr htarget) fun _ => Prog.callsIn_ensure ..
      · exact Prog.callsIn_pure _

/-- What a run leaves, wherever it is cut. -/
theorem rotate_effect (r : Rotation) (b : Bucket) (now : Instant) (dryRun : Bool) (calls : Nat) :
    ((rotate r b now dryRun).exec Rclone.machine calls b).state = b ∨ dryRun = false ∧
      ∃ p, plan r b now = .ok p ∧
        p.Effect b ((rotate r b now dryRun).exec Rclone.machine calls b).state := by
  cases hplan : plan r b now with
  | error e =>
    left
    rw [rotate, hplan]
    rfl
  | ok p =>
    cases dryRun with
    | true =>
      left
      rw [rotate, hplan]
      rfl
    | false =>
      right
      refine ⟨rfl, p, rfl, ?_⟩
      have hstart : p.Effect b b := ⟨fun _ _ => rfl, fun _ _ hcontent => .inl hcontent⟩
      have hcalls : (rotate r b now false).CallsIn p.Allows := by
        rw [rotate, hplan]
        exact Prog.callsIn_bind (p := applyPlan p) (applyPlan_callsIn p) fun _ =>
          Prog.callsIn_pure _
      have hkeeps : (rotate r b now false).Keeps Rclone.machine (p.Effect b) :=
        hcalls.keeps fun c hc s hs => Plan.Effect.step hs hc
      exact hkeeps.exec calls hstart

end Step

/-! ## 2. What is never lost -/

section Lost

variable {b : Bucket} {now : Instant} {p : Plan r}

/-- The records that the bucket has of an id are the ones a plan has of it. -/
theorem Plan.Reads.stands (h : p.Reads b) {t : Trusted r} :
    Stands b t ↔ t ∈ allTrusted p.markers p.journals := by
  rw [h.mem_all, h.markers, h.journals, ← or_and_right, and_comm, Stands]

/-- The newest verified point is the one that no other is younger than. -/
theorem newestVerified_eq {all : List (Trusted r)} (hall : ∀ t ∈ all, Authentic b t)
    {verified : List String} (hverified : ∀ id ∈ verified, ∃ t ∈ all, t.backupId = id)
    {t : Trusted r} (ht : t ∈ all) : newestVerified all verified = some t.backupId ↔
      t.backupId ∈ verified ∧ ∀ s ∈ all, s.backupId ∈ verified → s.age ≤ t.age := by
  have hkey : ∀ s ∈ all, (toLex ((((byId all).lookup s.backupId).map fun record =>
      pyStr r.conv.repr (record.get "frozen_at")).getD "", s.backupId) : String ×ₗ String) =
        s.age := by
    intro s hs
    rw [lookup_byId hall hs]
    rfl
  have hid : ∀ s : Trusted r, (ofLex s.age).2 = s.backupId := fun s => rfl
  unfold newestVerified
  dsimp only
  rw [Option.map_eq_some_iff]
  constructor
  · rintro ⟨newest, hmax, hnewest⟩
    obtain ⟨hmem, hle⟩ := List.max?_eq_some_iff.mp hmax
    obtain ⟨id, hidmem, rfl⟩ := List.mem_map.mp hmem
    obtain rfl : id = t.backupId := hnewest
    refine ⟨hidmem, fun s hs hsmem => ?_⟩
    have := hle _ (List.mem_map_of_mem hsmem)
    rwa [hkey s hs, hkey t ht] at this
  · rintro ⟨hmem, hle⟩
    refine ⟨t.age, List.max?_eq_some_iff.mpr ⟨?_, ?_⟩, hid t⟩
    · exact List.mem_map.mpr ⟨t.backupId, hmem, hkey t ht⟩
    · intro newest hnewest
      obtain ⟨id, hidmem, rfl⟩ := List.mem_map.mp hnewest
      obtain ⟨s, hs, rfl⟩ := hverified id hidmem
      rw [hkey s hs]
      exact hle s hs hidmem

theorem Plan.Reads.protectedVerified_eq (h : p.Reads b) {t : Trusted r}
    (ht : t ∈ allTrusted p.markers p.journals) :
    p.protectedVerified = some t.backupId ↔ NewestVerified b t := by
  rw [Plan.protectedVerified, newestVerified_eq (fun s hs => h.authentic hs)
    (fun id hid => h.verified id hid) ht, h.verifies t ht, NewestVerified]
  refine and_congr_right fun _ => ⟨fun hle s hs hs' => ?_, fun hle s hs hs' => ?_⟩
  · rw [h.stands] at hs
    exact hle s hs ((h.verifies s hs).mpr hs')
  · exact hle s (h.stands.mpr hs) ((h.verifies s hs).mp hs')

/-- A retained point is kept. -/
theorem mem_kept_of_retained (hplan : plan r b now = .ok p) {t : Trusted r}
    (ht : Retained b now t) : t ∈ p.kept := by
  have h := plan_knows hplan
  have hmarker := (h.markers t).mpr ⟨ht.complete, ht.authentic⟩
  refine (h.mem_kept hmarker).resolve_right fun hdeleted => ?_
  obtain ⟨-, hexpired, hunprotected⟩ := h.expired hdeleted
  rcases ht.lasting with hlasting | hnewest
  · exact hlasting hexpired
  · exact hunprotected
      ((h.protectedVerified_eq (h.mem_all.mpr (.inl hmarker))).mpr hnewest).symm

theorem notMem_targets_of_kept (h : p.Knows b now) {t : Trusted r} (ht : t ∈ p.kept) {key : String}
    (hkey : Belongs t key) : key ∉ p.targets := by
  have hnone : ¬∃ s ∈ p.deletionRecords, s.backupId = t.backupId := by
    rintro ⟨s, hs, heq⟩
    exact Plan.kept_disjoint ht hs heq.symm
  rcases hkey with rfl | rfl | rfl | hkey
  · rw [Plan.completeKey_mem_targets]
    exact hnone
  · rw [Plan.verifiedKey_mem_targets]
    exact fun hmem => hnone hmem.1
  · rw [Plan.deletingKey_mem_targets]
    have hmarker := (List.mem_filter.mp ht).1
    exact fun hmem => hmem.elim hnone (h.notMem_finalizing ((h.markers t).mp hmarker).2)
  · rw [Plan.object_mem_targets (Trusted.inArea hkey)]
    exact fun hmem => hmem.2 (List.mem_flatMap.mpr ⟨t, ht, hkey⟩)

/-- Of a point that is retained nothing changes. -/
theorem Retained.lookup_eq {t : Trusted r} (ht : Retained b now t) (dryRun : Bool) (calls : Nat)
    {key : String} (hkey : Belongs t key) :
    ((rotate r b now dryRun).exec Rclone.machine calls b).state.lookup key = b.lookup key := by
  rcases rotate_effect r b now dryRun calls with hsame | ⟨-, p, hplan, heffect⟩
  · rw [hsame]
  · exact heffect.untouched key
      (notMem_targets_of_kept (plan_knows hplan) (mem_kept_of_retained hplan ht) hkey)

/-- Whatever stands in the bucket and wherever the run is cut: what has changed belongs to a point
that has expired and is not the newest verified one, or is the journal of a point of which nothing
else is left; what is new is the journal of such a point; and of a point that is retained nothing
has changed. -/
theorem rotate_deletes_expired (r : Rotation) (b : Bucket) (now : Instant) (dryRun : Bool)
    (calls : Nat) :
    let after := ((rotate r b now dryRun).exec Rclone.machine calls b).state
    (dryRun = true → after = b) ∧
    (∀ key, after.lookup key ≠ b.lookup key →
      (∃ t : Trusted r, Authentic b t ∧ Expired now t ∧ ¬NewestVerified b t ∧ Belongs t key) ∨
      ∃ backupId, key = deletingKey r.pre backupId ∧ manifestKeyOf r.pre backupId ∉ b ∧
        completeKey r.pre backupId ∉ b ∧ verifiedKey r.pre backupId ∉ b) ∧
    (∀ key content, after.lookup key = some content → b.lookup key = some content ∨
      ∃ t : Trusted r, Authentic b t ∧ Expired now t ∧ ¬NewestVerified b t ∧
        key = deletingKey r.pre t.backupId ∧ content = canonicalJson t.record) ∧
    ∀ t : Trusted r, Retained b now t → ∀ key, Belongs t key →
      after.lookup key = b.lookup key := by
  intro after
  rcases rotate_effect r b now dryRun calls with hsame | ⟨hwet, p, hplan, heffect⟩
  · have hsame : after = b := hsame
    rw [hsame]
    exact ⟨fun _ => rfl, fun key hne => absurd rfl hne, fun key content h => .inl h,
      fun t ht key hkey => rfl⟩
  · have heffect : p.Effect b after := heffect
    have h := plan_knows hplan
    have hgone : ∀ t ∈ p.deletionRecords,
        Authentic b t ∧ Expired now t ∧ ¬NewestVerified b t := by
      intro t ht
      obtain ⟨hauthentic, hexpired, hunprotected⟩ := h.expired ht
      refine ⟨hauthentic, hexpired, fun hnewest => hunprotected ?_⟩
      have hall : t ∈ allTrusted p.markers p.journals := by
        refine h.mem_all.mpr ?_
        rcases List.mem_append.mp ht with ht | ht
        · exact .inr ht
        · exact .inl (deleted_subset ht).1
      exact ((h.protectedVerified_eq hall).mpr hnewest).symm
    refine ⟨fun hdry => ?_, fun key hne => ?_, fun key content hcontent => ?_,
      fun t ht key hkey => ?_⟩
    · rw [hwet] at hdry
      cases hdry
    · by_cases hmem : key ∈ p.targets
      · rcases Plan.mem_targets.mp hmem with ⟨t, ht, hkey⟩ | ⟨id, hid, hkey⟩
        · obtain ⟨hauthentic, hexpired, hold⟩ := hgone t ht
          refine .inl ⟨t, hauthentic, hexpired, hold, ?_⟩
          rcases Plan.mem_targetsOf.mp hkey with hkey | hkey | hkey | hkey
          · exact .inl hkey
          · exact .inr (.inr (.inr hkey.1))
          · exact .inr (.inl hkey.1)
          · exact .inr (.inr (.inl hkey))
        · exact .inr ⟨id, hkey, (h.finalizing id hid).2⟩
      · exact absurd (heffect.untouched key hmem) hne
    · rcases heffect.made key content hcontent with hold | ⟨t, ht, hkey, hrecord⟩
      · exact .inl hold
      · obtain ⟨hauthentic, hexpired, hold⟩ := hgone t (deleted_subset ht).2.2
        exact .inr ⟨t, hauthentic, hexpired, hold, hkey, hrecord⟩
    · exact ht.lookup_eq dryRun calls hkey

end Lost

end ProductPdfQr.BackupRecovery
