/-
# The marker and the rotation

What `finalize` publishes is read again by `rotate`, which checks more than the builder does: the
shape of the recipient key id, the order of the times, the images, the keys of the objects, the
size of the manifest.  A point that is refused there stops every later rotation, since nothing
but a rotation removes a marker.

`Retainable` says exactly which points are accepted.
-/
import ProductPdfQr.BackupRecovery.Histories

namespace ProductPdfQr.BackupRecovery

open Effect Json Rclone Restore Restore.Verified

/-! ## 1. Accepting -/

section Accepts

variable {α β : Type}

/-- A check that raises nothing. -/
def Accepts (x : Except Exn α) : Prop := ∃ a, x = .ok a

theorem ok_then (a : α) (k : α → Except Exn β) : (Except.ok a >>= k) = k a := rfl

theorem accepts_ok (a : α) : Accepts (.ok a : Except Exn α) := ⟨a, rfl⟩

theorem accepts_check {c : Bool} {message : String} : Accepts (check c message) ↔ c = true := by
  cases c with
  | true => exact ⟨fun _ => rfl, fun _ => ⟨(), rfl⟩⟩
  | false => exact ⟨fun ⟨_, h⟩ => (nomatch h), fun h => (nomatch h)⟩

theorem accepts_check_bind {c : Bool} {message : String} {k : Unit → Except Exn β} :
    Accepts (check c message >>= k) ↔ c = true ∧ Accepts (k ()) := by
  cases c with
  | true => exact (and_iff_right rfl).symm
  | false => exact ⟨fun ⟨_, h⟩ => (nomatch h), fun h => (nomatch h.1)⟩

theorem accepts_bind {x : Except Exn α} {k : α → Except Exn β} :
    Accepts (x >>= k) ↔ ∃ a, x = .ok a ∧ Accepts (k a) := by
  cases x with
  | error e => exact ⟨fun ⟨_, h⟩ => (nomatch h), fun ⟨_, h, _⟩ => (nomatch h)⟩
  | ok a => exact ⟨fun h => ⟨a, rfl, h⟩, fun ⟨_, ha, h⟩ => Except.ok.inj ha ▸ h⟩

theorem accepts_bind_ok {x : Except Exn α} {a : α} {k : α → Except Exn β} (h : x = .ok a) :
    Accepts (x >>= k) ↔ Accepts (k a) := by
  rw [h, ok_then]

theorem accepts_check_pos {c : Bool} {message : String} {k : Unit → Except Exn β} (h : c = true) :
    Accepts (check c message >>= k) ↔ Accepts (k ()) := by
  rw [accepts_check_bind, and_iff_right h]

theorem orRaise_filter (a : α) (p : α → Bool) (e : Exn) :
    orRaise ((some a).filter p) e = if p a then .ok a else .error e := by
  cases h : p a with
  | true => simp [orRaise, Option.filter, h]
  | false => simp [orRaise, Option.filter, h]

end Accepts

/-! ## 2. The keys of the objects -/

section Keys

variable {b : BackupBuilder} {digest : String}

/-- The keys of a point are not those of shared objects. -/
theorem casKey_notMem_pointKeys {backupId : String} :
    b.casKey digest ∉ pointKeys b.pre backupId := fun h =>
  absurd ((inArea_pointKeys h).unique (inArea_casKey digest)) (by decide)

theorem casMetaKey_notMem_pointKeys {backupId : String} :
    b.casMetaKey digest ∉ pointKeys b.pre backupId := fun h =>
  absurd ((inArea_pointKeys h).unique (inArea_casMetaKey digest)) (by decide)

theorem inArea_of_startsWith {pre backupId key : String}
    (h : Text.startsWith key (pointRoot pre backupId ++ "/") = true) : InArea pre .points key := by
  obtain ⟨rest, hrest⟩ := List.isPrefixOf_iff_prefix.mp h
  refine ⟨backupId ++ "/" ++ String.ofList rest, String.toList_inj.mp ?_⟩
  rw [← hrest]
  simp [pointRoot, Area.path, String.toList_append]

theorem startsWith_append (start rest : String) : Text.startsWith (start ++ rest) start = true := by
  rw [Text.startsWith, String.toList_append, List.isPrefixOf_iff_prefix]
  exact List.prefix_append ..

theorem startsWith_pointKey {pre backupId key : String} (h : key ∈ pointKeys pre backupId) :
    Text.startsWith key (pointRoot pre backupId ++ "/") = true := by
  simp only [pointKeys, manifestKeyOf, List.mem_cons, List.not_mem_nil, or_false] at h
  have hsplit (name : String) : pointRoot pre backupId ++ ("/" ++ name) =
      pointRoot pre backupId ++ "/" ++ name := (String.append_assoc ..).symm
  rcases h with rfl | rfl | rfl
  · exact hsplit "database.dump.age" ▸ startsWith_append _ "database.dump.age"
  · exact hsplit "config.tar.age" ▸ startsWith_append _ "config.tar.age"
  · exact hsplit "manifest.json.age" ▸ startsWith_append _ "manifest.json.age"

theorem casMatch_eq {key rest : String} (hdigest : Text.isSha256 digest = true)
    (hkey : key = b.pre ++ "/objects/sha256/" ++ (digest ++ rest)) :
    casMatch b.pre b.recipientKeyId key =
      if rest.toList = ("/" ++ b.recipientKeyId ++ ".age").toList then some (digest, "age")
      else if rest.toList = ("/" ++ b.recipientKeyId ++ ".json").toList then some (digest, "json")
      else none := by
  have hlength : digest.toList.length = 64 := (Text.isHex_iff.mp hdigest).1
  have hlist : key.toList =
      (b.pre ++ "/objects/sha256/").toList ++ (digest.toList ++ rest.toList) := by
    rw [hkey]
    simp only [String.toList_append, List.append_assoc]
  have hdrop : key.toList.drop (b.pre ++ "/objects/sha256/").toList.length =
      digest.toList ++ rest.toList := by
    rw [hlist, List.drop_left]
  have hstart : Text.startsWith key (b.pre ++ "/objects/sha256/") = true := by
    rw [hkey]
    exact startsWith_append ..
  unfold casMatch
  simp only [hdrop, hstart, List.take_left' hlength, List.drop_left' hlength, String.ofList_toList,
    hdigest, Bool.and_self, if_true]

theorem casMatch_casKey (hdigest : Text.isSha256 digest = true) :
    casMatch b.pre b.recipientKeyId (b.casKey digest) = some (digest, "age") := by
  have hkey : b.casKey digest =
      b.pre ++ "/objects/sha256/" ++ (digest ++ ("/" ++ b.recipientKeyId ++ ".age")) := by
    simp only [BackupBuilder.casKey, String.append_assoc]
  rw [casMatch_eq hdigest hkey, if_pos rfl]

theorem casMatch_casMetaKey (hdigest : Text.isSha256 digest = true) :
    casMatch b.pre b.recipientKeyId (b.casMetaKey digest) = some (digest, "json") := by
  have hother : ("/" ++ b.recipientKeyId ++ ".json").toList ≠
      ("/" ++ b.recipientKeyId ++ ".age").toList := fun heq =>
    Text.append_ne_append (by decide) (String.toList_inj.mp heq)
  have hkey : b.casMetaKey digest =
      b.pre ++ "/objects/sha256/" ++ (digest ++ ("/" ++ b.recipientKeyId ++ ".json")) := by
    simp only [BackupBuilder.casMetaKey, String.append_assoc]
  rw [casMatch_eq hdigest hkey, if_neg hother, if_pos rfl]

theorem casSuffixes_ok {backupId : String} {keys : List String}
    (h : ∀ key ∈ keys, key ∈ pointKeys b.pre backupId ∨ ∃ d, Text.isSha256 d = true ∧
      (key = b.casKey d ∨ key = b.casMetaKey d)) :
    ∃ found, casSuffixes b.pre backupId b.recipientKeyId keys = .ok found ∧
      ∀ d suffix, (d, suffix) ∈ found ↔ ∃ key ∈ keys, key ∉ pointKeys b.pre backupId ∧
        casMatch b.pre b.recipientKeyId key = some (d, suffix) := by
  induction keys with
  | nil => exact ⟨[], rfl, fun _ _ => by simp⟩
  | cons key keys ih =>
    obtain ⟨found, hfound, hiff⟩ := ih fun k hk => h k (List.mem_cons_of_mem _ hk)
    by_cases hpoint : key ∈ pointKeys b.pre backupId
    · refine ⟨found, ?_, fun d suffix => ?_⟩
      · rw [casSuffixes, List.contains_eq_mem, decide_eq_true hpoint, if_pos rfl, hfound]
      · rw [hiff]
        simp [hpoint]
    · have hmatch : ∃ d suffix, casMatch b.pre b.recipientKeyId key = some (d, suffix) := by
        rcases h key List.mem_cons_self with hmem | ⟨d, hd, rfl | rfl⟩
        · exact absurd hmem hpoint
        · exact ⟨d, "age", casMatch_casKey hd⟩
        · exact ⟨d, "json", casMatch_casMetaKey hd⟩
      obtain ⟨d₀, suffix₀, hmatch⟩ := hmatch
      refine ⟨(d₀, suffix₀) :: found, ?_, fun d suffix => ?_⟩
      · rw [casSuffixes, List.contains_eq_mem, decide_eq_false hpoint, if_neg Bool.false_ne_true,
          hmatch, hfound]
        rfl
      · rw [List.mem_cons, hiff]
        simp [hpoint, hmatch, eq_comm]

theorem validateObjectKeys_ok {backupId : String} {keys digests : List String}
    (hsorted : Text.strictlySorted keys = true)
    (hdigests : ∀ d ∈ digests, Text.isSha256 d = true)
    (hmem : ∀ key, key ∈ keys ↔ key ∈ pointKeys b.pre backupId ∨
      ∃ d ∈ digests, key = b.casKey d ∨ key = b.casMetaKey d) :
    validateObjectKeys b.pre backupId b.recipientKeyId (.arr (keys.map .str)) = .ok () := by
  have hitems : (Json.arr (keys.map Json.str)).items.filterMap Json.str? = keys := by
    simp [Json.items, List.filterMap_map, Function.comp_def, Json.str?]
  have hne : keys ≠ [] := by
    rintro rfl
    have hmanifest : manifestKeyOf b.pre backupId ∈ pointKeys b.pre backupId := by simp [pointKeys]
    exact List.not_mem_nil ((hmem _).mpr (.inl hmanifest))
  have hlength : keys.length = (Json.arr (keys.map Json.str)).items.length := by
    simp [Json.items]
  have hkeys : ∀ key ∈ keys, key ∈ pointKeys b.pre backupId ∨
      ∃ d, Text.isSha256 d = true ∧ (key = b.casKey d ∨ key = b.casMetaKey d) := by
    intro key hkey
    rcases (hmem key).mp hkey with hpoint | ⟨d, hd, hcase⟩
    · exact .inl hpoint
    · exact .inr ⟨d, hdigests d hd, hcase⟩
  obtain ⟨found, hfound, hiff⟩ := casSuffixes_ok hkeys
  have hcanonical : ((Json.arr (keys.map Json.str)).isList && decide (keys ≠ []) &&
      decide (keys.length = (Json.arr (keys.map Json.str)).items.length) &&
        Text.strictlySorted keys) = true := by
    rw [hsorted, ← hlength, decide_eq_true hne, decide_eq_true rfl]
    rfl
  have hown : ((keys.filter fun key => Text.startsWith key (pointRoot b.pre backupId ++ "/")).all
      (pointKeys b.pre backupId).contains && (pointKeys b.pre backupId).all
        (keys.filter fun key =>
          Text.startsWith key (pointRoot b.pre backupId ++ "/")).contains) = true := by
    simp only [Bool.and_eq_true, List.all_eq_true, List.mem_filter, List.contains_iff_mem]
    constructor
    · rintro key ⟨hkey, hstart⟩
      rcases (hmem key).mp hkey with hpoint | ⟨d, -, rfl | rfl⟩
      · exact hpoint
      · exact absurd ((inArea_of_startsWith hstart).unique (inArea_casKey d)) (by decide)
      · exact absurd ((inArea_of_startsWith hstart).unique (inArea_casMetaKey d)) (by decide)
    · exact fun key hpoint => ⟨(hmem key).mpr (.inl hpoint), startsWith_pointKey hpoint⟩
  have hpairs : (found.all fun x =>
      found.contains (x.1, "age") && found.contains (x.1, "json")) = true := by
    simp only [List.all_eq_true, Bool.and_eq_true, List.contains_iff_mem]
    rintro ⟨d, suffix⟩ hx
    obtain ⟨key, hkey, hpoint, hmatch⟩ := (hiff d suffix).mp hx
    have hdigest : d ∈ digests := by
      rcases (hmem key).mp hkey with hmem' | ⟨d', hd', rfl | rfl⟩
      · exact absurd hmem' hpoint
      · rw [casMatch_casKey (hdigests d' hd')] at hmatch
        exact (Prod.mk.inj (Option.some.inj hmatch)).1 ▸ hd'
      · rw [casMatch_casMetaKey (hdigests d' hd')] at hmatch
        exact (Prod.mk.inj (Option.some.inj hmatch)).1 ▸ hd'
    exact ⟨(hiff d "age").mpr ⟨_, (hmem _).mpr (.inr ⟨d, hdigest, .inl rfl⟩),
        casKey_notMem_pointKeys, casMatch_casKey (hdigests d hdigest)⟩,
      (hiff d "json").mpr ⟨_, (hmem _).mpr (.inr ⟨d, hdigest, .inr rfl⟩),
        casMetaKey_notMem_pointKeys, casMatch_casMetaKey (hdigests d hdigest)⟩⟩
  unfold validateObjectKeys
  simp only [hitems]
  rw [check_of_true hcanonical, check_of_true hown, hfound]
  exact check_of_true hpairs _

end Keys

/-! ## 3. The marker -/

/-- `sorted(set(...))` is what is asked of the keys. -/
theorem strictlySorted_sorted (keys : List String) :
    Text.strictlySorted (keys.dedup.mergeSort (· ≤ ·)) = true := by
  have hle : (keys.dedup.mergeSort (· ≤ ·)).Pairwise (· ≤ ·) := List.pairwise_mergeSort' _ _
  have hnodup : (keys.dedup.mergeSort (· ≤ ·)).Nodup :=
    (List.mergeSort_perm _ _).nodup_iff.mpr (List.nodup_dedup keys)
  exact decide_eq_true ((hle.and hnodup).imp fun ⟨hle, hne⟩ => lt_of_le_of_ne hle hne)

section Points

variable [Sha256] [Ed25519] {b : BackupBuilder} {r : Finalization} {g : Gathered} {sealed : Bytes}
  {remote : Bucket}

theorem mem_completionObjectKeys (h : CompletePoint b r g sealed remote) {key : String} :
    key ∈ completionObjectKeys b r g ↔ key ∈ pointKeys b.pre r.backupId ∨
      ∃ d ∈ g.files.map SourceFile.digest, key = b.casKey d ∨ key = b.casMetaKey d := by
  have hkeys : pointKeys b.pre r.backupId =
    [r.databaseKey b, r.configKey b, r.manifestKey b] := rfl
  simp only [completionObjectKeys_eq h, hkeys, List.mem_append, List.mem_cons, List.not_mem_nil,
    or_false, List.mem_map]
  constructor
  · rintro ((((hkey | hkey) | ⟨f, hf, rfl⟩) | hkey) | ⟨f, hf, rfl⟩)
    · exact .inl (.inl hkey)
    · exact .inl (.inr (.inl hkey))
    · exact .inr ⟨_, ⟨f, hf, rfl⟩, .inl rfl⟩
    · exact .inl (.inr (.inr hkey))
    · exact .inr ⟨_, ⟨f, hf, rfl⟩, .inr rfl⟩
  · rintro ((hkey | hkey | hkey) | ⟨_, ⟨f, hf, rfl⟩, rfl | rfl⟩)
    · exact .inl (.inl (.inl (.inl hkey)))
    · exact .inl (.inl (.inl (.inr hkey)))
    · exact .inl (.inr hkey)
    · exact .inl (.inl (.inr ⟨f, hf, rfl⟩))
    · exact .inr ⟨f, hf, rfl⟩

/-- The keys of the objects, as the marker lists them. -/
def sortedKeys (b : BackupBuilder) (r : Finalization) (g : Gathered) : List String :=
  (completionObjectKeys b r g).dedup.mergeSort (· ≤ ·)

omit [Ed25519] in
theorem completion_get : (completion b r g sealed).get "schema_version" = .int 1 ∧
    (completion b r g sealed).get "backup_id" = .str r.backupId ∧
    (completion b r g sealed).get "frozen_at" = .str r.frozen.formatTime ∧
    (completion b r g sealed).get "verified_at" = .str r.verified.formatTime ∧
    (completion b r g sealed).get "manifest_key" = .str (manifestKeyOf b.pre r.backupId) ∧
    (completion b r g sealed).get "manifest_ciphertext_size" = .int sealed.size ∧
    (completion b r g sealed).get "manifest_ciphertext_sha256" = .str (hexdigest sealed) ∧
    (completion b r g sealed).get "recipient_key_id" = .str b.recipientKeyId ∧
    (completion b r g sealed).get "generations" = .arr (g.generations.map .str) ∧
    (completion b r g sealed).get "object_keys" = .arr ((sortedKeys b r g).map .str) ∧
    (completion b r g sealed).get "status" = .str "remote_ciphertext_verified" := by
  simp only [completion, get_dict]
  exact ⟨rfl, rfl, rfl, rfl, rfl, rfl, rfl, rfl, rfl, rfl, rfl⟩

/-- The marker of a point is accepted exactly when its id, its recipient and its times are what
they are expected to be. -/
theorem marker_accepted_iff (hhex : Sha256.HexDigests) (h : CompletePoint b r g sealed remote)
    (repr : Json → String) :
    Accepts (validateCompletionMarker repr (completion b r g sealed) r.backupId b.pre) ↔
      Text.isBackupId r.backupId = true ∧ r.frozen < r.verified ∧
        Text.isSafeId b.recipientKeyId = true ∧ 0 < sealed.size := by
  obtain ⟨hversion, hid, hfrozen, hverified, hkey, hsize, hdigest, hrecipient, hgenerations, hkeys,
    hstatus⟩ := @completion_get _ b r g sealed
  have hfields : (completion b r g sealed).hasKeys completionFields = true :=
    hasKeys_dict fun k => by simp [completionFields]
  have htimestamp (i : Instant) (field : String) :
      canonicalTimestamp (.str i.formatTime) field = .ok i := by
    simp only [canonicalTimestamp, Instant.parseTime?_formatTime]
    rfl
  have hobjects : validateObjectKeys b.pre r.backupId b.recipientKeyId
      (.arr ((sortedKeys b r g).map .str)) = .ok () := by
    refine @validateObjectKeys_ok b _ _ (g.files.map SourceFile.digest)
      (strictlySorted_sorted _) ?_ fun key => ?_
    · intro d hd
      obtain ⟨f, -, rfl⟩ := List.mem_map.mp hd
      exact hhex f.content
    · rw [sortedKeys, List.mem_mergeSort, List.mem_dedup, mem_completionObjectKeys h]
  unfold validateCompletionMarker
  simp only [hversion, hid, hfrozen, hverified, hkey, hsize, hdigest, hrecipient, hgenerations,
    hkeys, hstatus, htimestamp]
  rw [accepts_check_pos hfields, accepts_check_bind]
  refine and_congr_right fun _ => ?_
  rw [accepts_check_pos (by simp [pyEq_refl]), accepts_check_pos (pyEq_refl _),
    accepts_bind_ok rfl, accepts_bind_ok rfl, accepts_check_bind, decide_eq_true_iff]
  refine and_congr_right fun _ => ?_
  rw [accepts_bind_ok h.generations, accepts_check_pos (pyEq_refl _)]
  have hread (e : Exn) : orRaise ((Json.str b.recipientKeyId).str?.filter Text.isSafeId) e =
    if Text.isSafeId b.recipientKeyId then .ok b.recipientKeyId else .error e := orRaise_filter ..
  rw [hread]
  cases Text.isSafeId b.recipientKeyId with
  | false => exact ⟨fun ⟨_, hok⟩ => (nomatch hok), fun hfalse => (nomatch hfalse.1)⟩
  | true =>
    have hpre : (decide (b.pre ≠ "") && !Text.hasParentPart b.pre) = true := by
      rw [decide_eq_true b.pre_ne, b.pre_parts]
      rfl
    have hsha : Text.isSha256 (pyStr repr (.str (hexdigest sealed))) = true := hhex sealed
    have hpositive : ((Json.int sealed.size).int?.any fun size => 0 < size) = true ↔
        0 < sealed.size := by
      simp [Json.int?]
    rw [if_pos rfl, accepts_bind_ok rfl, accepts_check_pos (pyEq_refl _), accepts_check_bind,
      hpositive, accepts_check_pos hsha, accepts_check_pos hpre,
      accepts_check_pos (pyEq_refl _), hobjects, and_iff_left (accepts_ok ()), and_iff_right rfl]

/-! ## 4. The signature -/

omit [Sha256] in
theorem authenticateManifest_ok {body manifest : Json} {key : Bytes} {keyId : String}
    (h : authenticateManifest body key keyId = .ok manifest) : key.size = 32 ∧
      Text.isSafeId keyId = true ∧ body.get? "authentication" = none ∧
      manifest = body.set "authentication" (manifestAuthentication body key keyId) := by
  unfold authenticateManifest at h
  obtain ⟨_, hsize, h⟩ := bind_ok h
  obtain ⟨_, hid, h⟩ := bind_ok h
  obtain ⟨_, hnone, h⟩ := bind_ok h
  exact ⟨of_decide_eq_true (check_eq_ok hsize), check_eq_ok hid,
    Option.isNone_iff_eq_none.mp (check_eq_ok hnone), (Except.ok.inj h).symm⟩

omit [Sha256] in
/-- The authentication that a manifest gets. -/
theorem manifestAuthentication_get (body : Json) (key : Bytes) (keyId : String) :
    let a := manifestAuthentication body key keyId
    a.hasKeys authenticationFields = true ∧ a.get "algorithm" = .str "ed25519" ∧
      a.get "key_id" = .str keyId ∧
      a.get "signature" = .str (toHex (Ed25519.sign key (canonicalJson body))) := by
  refine ⟨hasKeys_dict fun _ => Iff.rfl, ?_⟩
  simp only [manifestAuthentication, get_dict]
  exact ⟨rfl, rfl, rfl⟩

omit [Sha256] in
/-- What the builder signs verifies under its public key. -/
theorem verify_authenticated {body manifest : Json} (hdict : body.isDict = true) {key : Bytes}
    {keyId : String} (h : authenticateManifest body key keyId = .ok manifest) :
    verifyManifestAuthentication manifest (Ed25519.publicBytes key) keyId = .ok () := by
  obtain ⟨hsize, hid, hnone, rfl⟩ := authenticateManifest_ok h
  obtain ⟨hkeys, halgorithm, hkeyId, hsignature⟩ := manifestAuthentication_get body key keyId
  have hunsigned (v : Json) :
      Json.obj (eraseField "authentication" (body.set "authentication" v).fields) = body := by
    rw [eq_obj_of_isDict hdict] at hnone ⊢
    exact congrArg Json.obj (eraseField_insertField hnone)
  have hverifies : (fromHex? (toHex (Ed25519.sign key (canonicalJson body)))).any (fun s =>
      Ed25519.verify (Ed25519.publicBytes key) s (canonicalJson body)) = true := by
    rw [fromHex?_toHex]
    exact Ed25519.verify_sign _ _ hsize
  have hpublic : decide ((Ed25519.publicBytes key).size = 32) = true :=
    decide_eq_true (Ed25519.size_publicBytes _ hsize)
  rw [verifyManifestAuthentication, check_of_true hpublic, check_of_true hid]
  simp only [get_set hdict, if_true, hunsigned, halgorithm, hkeyId, hsignature]
  rw [check_of_true hkeys, check_of_true (by rw [pyEq_refl, pyEq_refl]; rfl),
    check_of_true (isHex_toHex (Ed25519.size_sign _ _ hsize)), check_of_true hverifies]
  rfl

/-! ## 5. The schema -/

variable {conv : Conversions}

omit [Sha256] [Ed25519] in
theorem getOr_dict {fs : Fields} {name : String} {value otherwise : Json}
    (h : (dict fs).get name = value) (hne : value ≠ .null) :
    getOr (dict fs) name otherwise = .ok value := by
  have hfound : (dict fs).get? name = some value := by
    rw [Json.get] at h
    cases hget : (dict fs).get? name with
    | none =>
      rw [hget] at h
      exact absurd h.symm hne
    | some other =>
      rw [hget] at h
      exact congrArg some h
  change Except.ok (((dict fs).get? name).getD otherwise) = _
  rw [hfound]
  rfl

omit [Sha256] [Ed25519] in
theorem textOf_dict {fs : Fields} {name text : String} (h : (dict fs).get name = .str text) :
    textOf conv (dict fs) name = .ok text := by
  rw [textOf, getOr_dict h (by simp)]
  rfl

omit [Sha256] [Ed25519] in
theorem isNegative_dict {fs : Fields} {name : String} {n : Nat}
    (h : (dict fs).get name = .int n) : isNegative conv (dict fs) name = .ok false := by
  rw [isNegative, getOr_dict h (by simp)]
  exact congrArg Except.ok (decide_eq_false (by omega))

/-- The files of an inventory are safe, whatever they are called. -/
structure ProperFiles (files : List SourceFile) : Prop where
  distinct : (files.map fun f => posix f.path).Nodup
  named : ∀ f ∈ files, f.path ≠ [] ∧ ∀ name ∈ f.path, isName name = true

omit [Sha256] [Ed25519] in
theorem posix_injective {p q : List String} (hp : p ≠ []) (hq : q ≠ [])
    (hpn : ∀ name ∈ p, isName name = true) (hqn : ∀ name ∈ q, isName name = true)
    (h : posix p = posix q) : p = q := by
  have hsplit := split_posix hp hpn
  rw [h, split_posix hq hqn] at hsplit
  exact pieces_injective hsplit.symm

omit [Ed25519] in
theorem properFiles_of_sourceFiles {root : SourceRoot} {files : List SourceFile}
    (h : sourceFiles root = .ok files) : ProperFiles files := by
  unfold sourceFiles at h
  split at h
  · cases h
  · next items hitems =>
    obtain ⟨tree, htree, -⟩ := inventory_ok hitems
    obtain rfl := Except.ok.inj h
    rw [htree, Option.elim_some]
    have hnamed : ∀ item ∈ listed ["temporary"] (sortedNodes tree),
        item.1 ≠ [] ∧ ∀ name ∈ item.1, isName name = true := by
      intro item hitem
      have hlists : tree.Lists ["temporary"] item.1 :=
        lists_iff.mpr (List.mem_map_of_mem hitem)
      exact hlists.named
    refine ⟨?_, ?_⟩
    · have hmap : ((listed ["temporary"] (sortedNodes tree)).map fun item =>
            (⟨item.1, item.2⟩ : SourceFile)).map (fun f => posix f.path) =
          ((listed ["temporary"] (sortedNodes tree)).map Prod.fst).map posix := by
        rw [List.map_map, List.map_map]
        rfl
      have hpaths : ((listed ["temporary"] (sortedNodes tree)).map Prod.fst).Nodup :=
        (pairwise_listed tree ["temporary"]).imp fun hlt heq => (heq ▸ hlt).ne rfl
      have hname : ∀ path ∈ (listed ["temporary"] (sortedNodes tree)).map Prod.fst,
          path ≠ [] ∧ ∀ name ∈ path, isName name = true := by
        intro path hpath
        obtain ⟨item, hitem, rfl⟩ := List.mem_map.mp hpath
        exact hnamed item hitem
      rw [hmap]
      exact hpaths.map_on fun p hp q hq heq => posix_injective (hname p hp).1 (hname q hq).1
        (hname p hp).2 (hname q hq).2 heq
    · intro f hf
      obtain ⟨item, hitem, rfl⟩ := List.mem_map.mp hf
      exact hnamed item hitem

omit [Sha256] [Ed25519] in
/-- The text of a path that an inventory lists. -/
theorem posix_safe {path : List String} (hne : path ≠ [])
    (hnamed : ∀ name ∈ path, isName name = true) :
    (posix path ≠ "" && !Text.startsWith (posix path) "/" && !Text.hasParentPart (posix path)) =
      true := by
  have hsplit := split_posix hne hnamed
  have hpieces := piece_named hnamed
  have hparent : Text.hasParentPart (posix path) = false := by
    rw [Text.hasParentPart, hsplit, List.contains_eq_mem, decide_eq_false_iff_not]
    exact fun hmem => (hpieces _ hmem).2 rfl
  have hhead : ∀ rest, (posix path).toList ≠ '/' :: rest := by
    intro rest heq
    rw [heq, Text.split, if_pos rfl] at hsplit
    exact (hpieces [] (hsplit ▸ List.mem_cons_self)).1 rfl
  have hempty : posix path ≠ "" := by
    intro heq
    rw [heq] at hsplit
    exact (hpieces [] (hsplit ▸ List.mem_cons_self)).1 rfl
  have hstart : Text.startsWith (posix path) "/" = false := by
    rw [Text.startsWith, Bool.eq_false_iff, ne_eq, List.isPrefixOf_iff_prefix]
    rintro ⟨rest, hrest⟩
    exact hhead rest hrest.symm
  rw [decide_eq_true hempty, hstart, hparent]
  rfl

omit [Ed25519] in
/-- The files that an inventory lists are accepted. -/
theorem validateFiles_ok (hhex : Sha256.HexDigests) {files : List SourceFile} {paths : List String}
    (hnamed : ∀ f ∈ files, f.path ≠ [] ∧ ∀ name ∈ f.path, isName name = true)
    (hdistinct : (files.map fun f => posix f.path).Nodup)
    (hfresh : ∀ f ∈ files, posix f.path ∉ paths) :
    ∃ found, validateFiles conv (files.map SourceFile.item) paths = .ok found ∧
      ∀ path, path ∈ found ↔ path ∈ paths ∨ ∃ f ∈ files, posix f.path = path := by
  induction files generalizing paths with
  | nil => exact ⟨paths, rfl, fun _ => by simp⟩
  | cons f files ih =>
    obtain ⟨hnot, hrest⟩ := List.nodup_cons.mp hdistinct
    obtain ⟨found, hfound, hiff⟩ := @ih (posix f.path :: paths)
      (fun f' hf' => hnamed f' (List.mem_cons_of_mem _ hf')) hrest fun f' hf' hmem => by
        rcases List.mem_cons.mp hmem with heq | hmem
        · exact hnot (List.mem_map.mpr ⟨f', hf', heq⟩)
        · exact hfresh f' (List.mem_cons_of_mem _ hf') hmem
    refine ⟨found, ?_, fun path => ?_⟩
    · have hpath : textOf conv f.item "path" = .ok (posix f.path) := textOf_dict (by
        rw [get_dict]
        rfl)
      have hdigest : textOf conv f.item "sha256" = .ok f.digest := textOf_dict (by
        rw [get_dict]
        rfl)
      have hsize : isNegative conv f.item "size" = .ok false := @isNegative_dict _ _ _
        f.content.size (by
          rw [get_dict]
          rfl)
      obtain ⟨hne, hall⟩ := hnamed f List.mem_cons_self
      have hsha : Text.isSha256 f.digest = true := hhex f.content
      have hnew : (!paths.contains (posix f.path)) = true := by
        simpa using hfresh f List.mem_cons_self
      rw [List.map_cons, validateFiles, hpath, hdigest, ok_then, ok_then,
        check_of_true (posix_safe hne hall), check_of_true hnew, ok_then, ok_then,
        check_of_true hsha, hsize]
      exact hfound
    · rw [hiff, List.mem_cons]
      simp only [List.mem_cons, exists_eq_or_imp]
      rw [eq_comm, or_assoc, or_left_comm]

omit [Sha256] [Ed25519] in
/-- One more that was not seen. -/
theorem fresh_cons {α : Type} {text : α → String} {a : α} {list : List α} {seen : List String} :
    (text a ∉ seen ∧ (list.map text).Nodup ∧ ∀ x ∈ list, text x ∉ text a :: seen) ↔
      ((a :: list).map text).Nodup ∧ ∀ x ∈ a :: list, text x ∉ seen := by
  rw [List.map_cons, List.nodup_cons, List.forall_mem_cons, List.mem_map]
  constructor
  · rintro ⟨ha, hnodup, hrest⟩
    refine ⟨⟨?_, hnodup⟩, ha, fun x hx hmem => hrest x hx (List.mem_cons_of_mem _ hmem)⟩
    rintro ⟨x, hx, heq⟩
    exact hrest x hx (heq ▸ List.mem_cons_self)
  · rintro ⟨⟨hnot, hnodup⟩, ha, hrest⟩
    refine ⟨ha, hnodup, fun x hx hmem => ?_⟩
    rcases List.mem_cons.mp hmem with heq | hmem
    · exact hnot ⟨x, hx, heq⟩
    · exact hrest x hx hmem

/-- What `validate_manifest` sees of an object. -/
structure SafeObject (conv : Conversions) (backupId : String) (entry : String × String)
    (item : Json) : Prop where
  name : textOf conv item "name" = .ok entry.1
  key : textOf conv item "key" = .ok entry.2
  named : entry.1 ≠ ""
  keyed : entry.2 ≠ ""
  relative : Text.startsWith entry.2 "/" = false
  inside : Text.hasParentPart entry.2 = false
  identity : validateIdentity conv item = .ok ()
  owner : getOr item "backup_id" .null = .ok (.str backupId)

omit [Sha256] [Ed25519] in
/-- Safe objects are accepted exactly when no name and no key comes twice. -/
theorem accepts_validateObjects {backupId : String} {entries : List (String × String)}
    {items : List Json} (h : List.Forall₂ (SafeObject conv backupId) entries items)
    {names keys : List String} :
    (∀ found, validateObjects conv (.str backupId) items names keys = .ok found →
      ∀ name, name ∈ found ↔ name ∈ names ∨ ∃ entry ∈ entries, entry.1 = name) ∧
    (Accepts (validateObjects conv (.str backupId) items names keys) ↔
      ((entries.map Prod.fst).Nodup ∧ ∀ entry ∈ entries, entry.1 ∉ names) ∧
        (entries.map Prod.snd).Nodup ∧ ∀ entry ∈ entries, entry.2 ∉ keys) := by
  induction h generalizing names keys with
  | nil =>
    refine ⟨fun found hfound name => ?_, ?_⟩
    · obtain rfl := Except.ok.inj hfound
      simp
    · simp [validateObjects, accepts_ok]
  | @cons entry item entries items hitem _ ih =>
    obtain ⟨hvalue, hiff⟩ := @ih (entry.1 :: names) (entry.2 :: keys)
    have hsafe : (!Text.startsWith entry.2 "/" && !Text.hasParentPart entry.2) = true := by
      rw [hitem.relative, hitem.inside]
      rfl
    have hfresh : (decide (entry.1 ≠ "") && !names.contains entry.1 && decide (entry.2 ≠ "") &&
        !keys.contains entry.2) = true ↔ entry.1 ∉ names ∧ entry.2 ∉ keys := by
      simp [hitem.named, hitem.keyed]
    have hstep : validateObjects conv (.str backupId) (item :: items) names keys =
        (check (decide (entry.1 ≠ "") && !names.contains entry.1 && decide (entry.2 ≠ "") &&
          !keys.contains entry.2) "duplicate or empty object identity" >>= fun _ =>
            validateObjects conv (.str backupId) items (entry.1 :: names) (entry.2 :: keys)) := by
      rw [validateObjects, hitem.name, hitem.key, ok_then, ok_then]
      refine congrArg _ (funext fun _ => ?_)
      rw [check_of_true hsafe, hitem.identity, hitem.owner, ok_then, ok_then, ok_then,
        check_of_true (pyEq_refl _), ok_then]
    constructor
    · intro found hfound name
      rw [hstep] at hfound
      obtain ⟨_, -, hfound⟩ := bind_ok hfound
      rw [hvalue found hfound name, List.mem_cons]
      simp only [List.mem_cons, exists_eq_or_imp]
      rw [eq_comm, or_assoc, or_left_comm]
    · rw [hstep, accepts_check_bind, hfresh, hiff, ← fresh_cons, ← fresh_cons]
      constructor
      · rintro ⟨⟨hname, hkey⟩, ⟨hnames, hnames'⟩, hkeys, hkeys'⟩
        exact ⟨⟨hname, hnames, hnames'⟩, hkey, hkeys, hkeys'⟩
      · rintro ⟨⟨hname, hnames, hnames'⟩, hkey, hkeys, hkeys'⟩
        exact ⟨⟨hname, hkey⟩, ⟨hnames, hnames'⟩, hkeys, hkeys'⟩

/-! ### The objects of a manifest -/

omit [Sha256] [Ed25519] in
/-- A name without a separator leads upwards only if it is two dots. -/
theorem hasParentPart_plain {name : String} (h : '/' ∉ name.toList) (hne : name ≠ "..") :
    Text.hasParentPart name = false := by
  rw [Text.hasParentPart, split_of_not_mem h, List.contains_eq_mem, decide_eq_false_iff_not,
    List.mem_singleton]
  exact fun heq => hne (String.toList_inj.mp heq.symm)

omit [Sha256] [Ed25519] in
theorem startsWith_pre (rest : String) : Text.startsWith (b.pre ++ rest) "/" = false := by
  obtain ⟨c, tail, hlist⟩ : ∃ c tail, b.pre.toList = c :: tail := by
    cases hlist : b.pre.toList with
    | nil => exact absurd (String.toList_inj.mp hlist) b.pre_ne
    | cons c tail => exact ⟨c, tail, rfl⟩
  have hstart := b.pre_relative
  rw [Text.startsWith, hlist] at hstart
  rw [Text.startsWith, String.toList_append, hlist, List.cons_append]
  simpa [List.isPrefixOf] using hstart

omit [Sha256] [Ed25519] in
theorem hasParentPart_id {id : String} (h : Text.isBackupId id = true) :
    Text.hasParentPart id = false := by
  refine hasParentPart_plain (fun hmem => (isIdChar_safe (isBackupId_chars h _ hmem)).1 rfl) ?_
  rintro rfl
  exact absurd h (by decide)

omit [Sha256] [Ed25519] in
theorem pointKey_safe (hid : Text.isBackupId r.backupId = true) {name : String}
    (hplain : '/' ∉ name.toList) (hne : name ≠ "..") :
    Text.startsWith (pointRoot b.pre r.backupId ++ "/" ++ name) "/" = false ∧
      Text.hasParentPart (pointRoot b.pre r.backupId ++ "/" ++ name) = false := by
  have hroot : pointRoot b.pre r.backupId = b.pre ++ "/" ++ "points" ++ "/" ++ r.backupId := by
    simp [pointRoot, ← String.toList_inj, String.toList_append]
  constructor
  · rw [hroot]
    simp only [String.append_assoc]
    exact startsWith_pre _
  · rw [hroot, Text.hasParentPart_append, Text.hasParentPart_append, Text.hasParentPart_append,
      b.pre_parts, hasParentPart_id hid, hasParentPart_plain hplain hne,
      hasParentPart_plain (by decide : '/' ∉ "points".toList) (by decide)]
    rfl

omit [Ed25519] in
theorem casKey_safe (hhex : Sha256.HexDigests) (hsafe : Text.isSafeId b.recipientKeyId = true)
    (f : SourceFile) : Text.startsWith (b.casKey f.digest) "/" = false ∧
      Text.hasParentPart (b.casKey f.digest) = false := by
  have hkey : b.casKey f.digest = b.pre ++ "/" ++ "objects" ++ "/" ++ "sha256" ++ "/" ++ f.digest ++
      "/" ++ (b.recipientKeyId ++ ".age") := by
    simp [BackupBuilder.casKey, ← String.toList_inj, String.toList_append]
  have hsha : Text.isSha256 f.digest = true := hhex f.content
  have hdigest : Text.hasParentPart f.digest = false := by
    refine hasParentPart_plain (fun hmem => ?_) ?_
    · exact absurd ((Text.isHex_iff.mp hsha).2 _ hmem) (by decide)
    · intro heq
      rw [heq] at hsha
      exact absurd hsha (by decide)
  have hname : Text.hasParentPart (b.recipientKeyId ++ ".age") = false := by
    refine hasParentPart_plain (fun hmem => ?_) fun heq => ?_
    · rw [String.toList_append, List.mem_append] at hmem
      rcases hmem with hmem | hmem
      · exact (isIdChar_safe (isSafeId_chars hsafe _ hmem)).1 rfl
      · exact absurd hmem (by decide)
    · have hlength := congrArg (fun text => text.toList.length) heq
      simp [String.toList_append] at hlength
  constructor
  · rw [hkey]
    simp only [String.append_assoc]
    exact startsWith_pre _
  · rw [hkey, Text.hasParentPart_append, Text.hasParentPart_append, Text.hasParentPart_append,
      Text.hasParentPart_append, b.pre_parts, hdigest, hname,
      hasParentPart_plain (by decide : '/' ∉ "objects".toList) (by decide),
      hasParentPart_plain (by decide : '/' ∉ "sha256".toList) (by decide)]
    rfl

omit [Sha256] [Ed25519] in
theorem get_dict_cons_self {k : String} {fs : Fields} (h : k ∉ fs.map Prod.fst) (value : Json) :
    (dict ((k, value) :: fs)).get k = value := by
  have hnone : lookupField k fs.reverse = none := by
    cases hfound : lookupField k fs.reverse with
    | none => rfl
    | some other =>
      have hmem := List.mem_reverse.mp (lookupField_eq_some_mem hfound)
      exact absurd (List.mem_map_of_mem hmem) h
  rw [get_dict, List.reverse_cons, lookupField_append, hnone, Option.none_or]
  simp [lookupField]

/-- The names and keys of the objects of a manifest. -/
def objectEntries (b : BackupBuilder) (r : Finalization) (g : Gathered) : List (String × String) :=
  [("database", r.databaseKey b), ("config", r.configKey b)] ++
    g.files.map fun f => (f.name, b.casKey f.digest)

omit [Ed25519] in
theorem validateIdentity_ok (hhex : Sha256.HexDigests) {fs : Fields} {plain sealed : Bytes}
    {size : Nat} (hplain : (dict fs).get "plaintext_sha256" = .str (hexdigest plain))
    (hsealed : (dict fs).get "ciphertext_sha256" = .str (hexdigest sealed))
    (hsize : (dict fs).get "plaintext_size" = .int size)
    (hsize' : (dict fs).get "ciphertext_size" = .int sealed.size) :
    validateIdentity conv (dict fs) = .ok () := by
  rw [validateIdentity, textOf_dict hplain, ok_then, check_of_true (hhex plain), ok_then,
    textOf_dict hsealed, ok_then, check_of_true (hhex sealed), ok_then, isNegative_dict hsize,
    ok_then, isNegative_dict hsize']
  rfl

omit [Ed25519] in
/-- The objects of a manifest are safe. -/
theorem safeObjects (hhex : Sha256.HexDigests) (hid : Text.isBackupId r.backupId = true)
    (hsafe : Text.isSafeId b.recipientKeyId = true)
    (hfiles : List.Forall₂ (Published b remote) g.files g.fileObjects) :
    List.Forall₂ (SafeObject conv r.backupId) (objectEntries b r g) (manifestObjects b r g) := by
  have hstream (name file : String) (x : Streamed) (hname : name ≠ "") (hplain : '/' ∉ file.toList)
      (hne : file ≠ "..") : SafeObject conv r.backupId
        (name, pointRoot b.pre r.backupId ++ "/" ++ file)
        (streamObject r name (pointRoot b.pre r.backupId ++ "/" ++ file) x) := by
    obtain ⟨hrelative, hinside⟩ := pointKey_safe (b := b) hid hplain hne
    refine ⟨textOf_dict ?_, textOf_dict ?_, hname, ?_, hrelative, hinside,
      @validateIdentity_ok _ _ hhex _ x.plain x.sealed x.plain.size ?_ ?_ ?_ ?_,
      getOr_dict ?_ (by simp)⟩
    · rw [get_dict]
      rfl
    · rw [get_dict]
      rfl
    · intro hempty
      exact absurd (String.append_eq_empty_iff.mp hempty).1 (by simp [String.append_eq_empty_iff])
    all_goals
      rw [get_dict]
      rfl
  have hdatabase : r.databaseKey b =
      pointRoot b.pre r.backupId ++ "/" ++ "database.dump.age" := by
    simp [Finalization.databaseKey, ← String.toList_inj, String.toList_append]
  have hconfig : r.configKey b = pointRoot b.pre r.backupId ++ "/" ++ "config.tar.age" := by
    simp [Finalization.configKey, ← String.toList_inj, String.toList_append]
  rw [objectEntries, manifestObjects, hdatabase, hconfig]
  refine .cons (hstream _ _ _ (by decide) (by decide) (by decide))
    (.cons (hstream _ _ _ (by decide) (by decide) (by decide)) ?_)
  change List.Forall₂ _ (g.files.map _) (g.fileObjects.map _)
  refine List.forall₂_map_left_iff.mpr (List.forall₂_map_right_iff.mpr (hfiles.imp ?_))
  intro f item hitem
  obtain ⟨there, _, _, _, _, _, hsize, hdigest, _⟩ := hitem.halves
  obtain ⟨size, hplain⟩ := hitem.size
  obtain ⟨hrelative, hinside⟩ := casKey_safe hhex hsafe f
  have hget {k : String} (hne : "backup_id" ≠ k) :
      (dict (("backup_id", .str r.backupId) :: item)).get k = (dict item).get k :=
    get_dict_cons hne _ _
  refine ⟨textOf_dict ?_, textOf_dict ?_, ?_, ?_, hrelative, hinside,
    @validateIdentity_ok _ _ hhex _ f.content there size ?_ ?_ ?_ ?_,
    getOr_dict ?_ (by simp)⟩
  · rw [hget (by decide), hitem.name]
  · rw [hget (by decide), hitem.key]
  · simp [SourceFile.name, String.append_eq_empty_iff]
  · simp [BackupBuilder.casKey, String.append_eq_empty_iff]
  · rw [hget (by decide), hitem.plaintext, SourceFile.digest]
  · rw [hget (by decide), hdigest]
  · rw [hget (by decide), hplain]
  · rw [hget (by decide), hsize]
  · exact get_dict_cons_self hitem.unowned _
/-! ## 6. The manifest -/

omit [Sha256] [Ed25519] in
theorem accepts_bind_unit {β : Type} {x : Except Exn Unit} {k : Unit → Except Exn β} :
    Accepts (x >>= k) ↔ Accepts x ∧ Accepts (k ()) := by
  rw [accepts_bind]
  constructor
  · rintro ⟨_, hx, hk⟩
    exact ⟨⟨_, hx⟩, hk⟩
  · rintro ⟨⟨_, hx⟩, hk⟩
    exact ⟨_, hx, hk⟩

/-- The manifest that the builder signs. -/
def signedManifest (b : BackupBuilder) (r : Finalization) (g : Gathered) : Json :=
  (manifestBody b r g).set "authentication" (manifestAuthentication (manifestBody b r g)
    b.manifestAuthenticationKey b.manifestAuthenticationKeyId)

theorem signedManifest_get {k : String} (hne : k ≠ "authentication") :
    (signedManifest b r g).get k = (manifestBody b r g).get k := by
  rw [signedManifest, get_set rfl, if_neg hne]

theorem signedManifest_authentication : (signedManifest b r g).get "authentication" =
    manifestAuthentication (manifestBody b r g) b.manifestAuthenticationKey
      b.manifestAuthenticationKeyId := by
  rw [signedManifest, get_set rfl, if_pos rfl]

theorem signedManifest_fields :
    (signedManifest b r g).get "backup_id" = .str r.backupId ∧
    (signedManifest b r g).get "schema_version" = .int 1 ∧
    (signedManifest b r g).get "started_at" = .str r.started.formatTime ∧
    (signedManifest b r g).get "frozen_at" = .str r.frozen.formatTime ∧
    (signedManifest b r g).get "completed_at" = .str r.completed.formatTime ∧
    (signedManifest b r g).get "images" =
      dict (imageVariables.map fun image => (image.1, .str (r.environ image.2))) ∧
    (signedManifest b r g).get "config_hashes" = dict g.configHashes ∧
    (signedManifest b r g).get "recipient_key_id" = .str b.recipientKeyId ∧
    (signedManifest b r g).get "files" = .arr (g.files.map SourceFile.item) ∧
    (signedManifest b r g).get "objects" = .arr (manifestObjects b r g) ∧
    (signedManifest b r g).get "generations" = .arr (g.generations.map .str) := by
  refine ⟨?_, ?_, ?_, ?_, ?_, ?_, ?_, ?_, ?_, ?_, ?_⟩
  all_goals
    rw [signedManifest_get (by decide), manifestBody, get_dict]
    rfl

omit [Sha256] [Ed25519] in
theorem mem_keys_set {j : Json} (h : j.isDict = true) {k k' : String} {v : Json} :
    k' ∈ (j.set k v).keys ↔ k' = k ∨ k' ∈ j.keys := by
  cases j with
  | obj fs => exact mem_keys_insertField
  | _ => cases h

theorem signedManifest_complete :
    (manifestFields.filter fun field => !(signedManifest b r g).keys.contains field) = [] := by
  have hbody (field : String) (h : field ∈ ["schema_version", "backup_id", "started_at",
      "frozen_at", "completed_at", "source_commit", "images", "config_hashes", "alembic_revision",
      "tools", "volume_name", "database_name", "recipient_key_id", "database_assertions", "files",
      "objects", "generations"]) : field ∈ (manifestBody b r g).keys := by
    rw [manifestBody, mem_keys_dict]
    exact h
  have hnames : ∀ field ∈ manifestFields, field = "authentication" ∨
      field ∈ ["schema_version", "backup_id", "started_at", "frozen_at", "completed_at",
        "source_commit", "images", "config_hashes", "alembic_revision", "tools", "volume_name",
        "database_name", "recipient_key_id", "database_assertions", "files", "objects",
        "generations"] := by
    decide
  refine List.filter_eq_nil_iff.mpr fun field hfield => ?_
  have hmem : field ∈ (signedManifest b r g).keys :=
    (mem_keys_set rfl).mpr ((hnames field hfield).imp_right (hbody field))
  simpa using hmem

omit [Ed25519] in
theorem hashConfig_digests (hhex : Sha256.HexDigests) {files : List (String × Option Bytes)}
    {hashes : List (String × Json)} (h : hashConfig files = .ok hashes) :
    ∀ f ∈ hashes, ∃ digest, f.2 = .str digest ∧ Text.isSha256 digest = true := by
  induction files generalizing hashes with
  | nil =>
    obtain rfl := Except.ok.inj h
    exact fun _ hf => absurd hf List.not_mem_nil
  | cons file files ih =>
    obtain ⟨path, payload⟩ := file
    cases payload with
    | none => cases h
    | some payload =>
      obtain ⟨_, -, h⟩ := bind_ok h
      obtain ⟨rest, hrest, h⟩ := bind_ok h
      obtain rfl := Except.ok.inj h
      exact List.forall_mem_cons.mpr ⟨⟨_, rfl, hhex payload⟩, ih hrest⟩

omit [Ed25519] in
theorem configHashes_digests (hhex : Sha256.HexDigests) {files : List (String × Option Bytes)}
    {hashes : List (String × Json)} (h : configHashes files = .ok hashes) :
    hashes ≠ [] ∧ ∀ f ∈ hashes, ∃ digest, f.2 = .str digest ∧ Text.isSha256 digest = true := by
  obtain ⟨found, hfound, h⟩ := bind_ok h
  obtain ⟨_, hne, h⟩ := bind_ok h
  obtain rfl := Except.ok.inj h
  refine ⟨fun hempty => ?_, hashConfig_digests hhex hfound⟩
  have hnot := check_eq_ok hne
  rw [hempty] at hnot
  exact absurd hnot (by decide)
/-- The times that a manifest tells are three. -/
def Finalization.distinctTimes (r : Finalization) : Prop :=
  r.started ≠ r.frozen ∧ r.started ≠ r.completed ∧ r.frozen ≠ r.completed

/-- The images that the environment names are immutable. -/
def Finalization.immutableImages (r : Finalization) : Prop :=
  ∀ image ∈ imageVariables, Text.isImageReference (r.environ image.2) = true

omit [Sha256] [Ed25519] in
theorem distinctTimes_signed (r : Finalization) : ∃ distinct,
    BackupRecovery.distinctTimes (.str r.started.formatTime) (.str r.frozen.formatTime)
      (.str r.completed.formatTime) = .ok distinct ∧ (distinct = true ↔ r.distinctTimes) := by
  have hdiffer (i j : Instant) :
      (!(Json.str i.formatTime).pyEq (.str j.formatTime)) = true ↔ i ≠ j := by
    rw [Bool.not_eq_true', Bool.eq_false_iff, ne_eq, pyEq_str]
    exact not_congr ⟨fun h => Instant.formatTime_injective (Json.str.inj h), fun h => h ▸ rfl⟩
  refine ⟨_, rfl, ?_⟩
  rw [Bool.and_eq_true, Bool.and_eq_true, hdiffer, hdiffer, hdiffer, and_assoc]
  rfl

omit [Sha256] [Ed25519] in
theorem images_signed (r : Finalization) : ∃ references,
    valuesOf (dict (imageVariables.map fun image => (image.1, Json.str (r.environ image.2)))) =
      .ok references ∧ ((references.all fun reference =>
        Text.isImageReference (pyStr conv.repr reference)) = true ↔ r.immutableImages) := by
  refine ⟨[.str (r.environ "APP_IMAGE"), .str (r.environ "BACKUP_IMAGE"),
    .str (r.environ "CERTBOT_IMAGE"), .str (r.environ "DB_IMAGE"),
    .str (r.environ "PROXY_IMAGE")], ?_, ?_⟩
  · simp +decide only [imageVariables, List.map_cons, List.map_nil, dict, List.foldl_cons,
      List.foldl_nil, insertField, valuesOf, if_true, if_false]
  · rw [Finalization.immutableImages]
    simp only [List.all_cons, List.all_nil, Bool.and_eq_true, pyStr_str, imageVariables,
      List.forall_mem_cons, List.not_mem_nil, false_imp_iff, implies_true, and_true]
    constructor
    · rintro ⟨happ, hbackup, hcertbot, hdb, hproxy⟩
      exact ⟨happ, hdb, hproxy, hcertbot, hbackup⟩
    · rintro ⟨happ, hdb, hproxy, hcertbot, hbackup⟩
      exact ⟨happ, hbackup, hcertbot, hdb, hproxy⟩

omit [Sha256] [Ed25519] in
theorem hasText_of_isSafeId {id : String} (h : Text.isSafeId id = true) :
    Text.hasText id = true := by
  rw [Text.isSafeId] at h
  split at h
  · cases h
  · next c rest hlist =>
    simp only [Bool.and_eq_true] at h
    obtain ⟨hleft, hright⟩ := isAlnum_bounds h.1.1
    have hblank : Text.isSpace c = false := by
      simp only [Text.isSpace, Bool.or_eq_false_iff, Bool.and_eq_false_iff,
        decide_eq_false_iff_not]
      omega
    rw [Text.hasText, hlist, List.any_cons, hblank]
    rfl

omit [Sha256] [Ed25519] in
theorem truthy_dict {fs : Fields} (h : fs ≠ []) : (dict fs).truthy = true := by
  obtain ⟨f, rest, rfl⟩ := List.exists_cons_of_ne_nil h
  have hmem : f.1 ∈ (dict (f :: rest)).keys := mem_keys_dict.mpr List.mem_cons_self
  cases hfields : (dict (f :: rest)).fields with
  | nil =>
    rw [Json.keys, hfields] at hmem
    exact absurd hmem List.not_mem_nil
  | cons f' rest' =>
    have heq : dict (f :: rest) = .obj (f' :: rest') := by
      rw [← hfields]
      rfl
    rw [heq]
    rfl

/-- The identities of the manifest are accepted exactly when the images are immutable. -/
theorem identities_signed (hhex : Sha256.HexDigests) (h : CompletePoint b r g sealed remote)
    (hsafe : Text.isSafeId b.recipientKeyId = true) :
    Accepts (validateIdentities conv (signedManifest b r g)) ↔ r.immutableImages := by
  obtain ⟨-, -, -, -, -, himages, hhashes, hrecipient, -⟩ := @signedManifest_fields _ _ b r g
  obtain ⟨manifest, hsigned, -⟩ := h.manifest
  obtain ⟨hsize, hkeyId, -, -⟩ := authenticateManifest_ok hsigned
  obtain ⟨hne, hdigests⟩ := configHashes_digests hhex h.hashes
  obtain ⟨references, hreferences, hiff⟩ := @images_signed conv r
  obtain ⟨hkeys, halgorithm, hid, hsignature⟩ := manifestAuthentication_get (manifestBody b r g)
    b.manifestAuthenticationKey b.manifestAuthenticationKeyId
  have hvalues : valuesOf (dict g.configHashes) =
      .ok ((dict g.configHashes).fields.map Prod.snd) := rfl
  have hall : ((dict g.configHashes).fields.map Prod.snd).all
      (fun digest => Text.isSha256 (pyStr conv.repr digest)) = true := by
    refine List.all_eq_true.mpr fun value hvalue => ?_
    obtain ⟨f, hf, rfl⟩ := List.mem_map.mp hvalue
    obtain ⟨digest, hdigest, hsha⟩ := hdigests f (mem_fields_dict hf)
    rw [hdigest, pyStr_str]
    exact hsha
  have hshape : authenticationShape conv (manifestAuthentication (manifestBody b r g)
      b.manifestAuthenticationKey b.manifestAuthenticationKeyId) = true := by
    rw [authenticationShape, hkeys, halgorithm, hid, hsignature, pyEq_refl, pyStr_str, pyStr_str,
      hkeyId, isHex_toHex (Ed25519.size_sign _ _ hsize)]
    rfl
  unfold validateIdentities
  rw [signedManifest_authentication, himages, hhashes, hrecipient, hvalues, ok_then,
    accepts_check_pos hall, accepts_check_pos (truthy_dict hne),
    accepts_check_pos (truthy_dict (by simp [imageVariables])), hreferences, ok_then,
    accepts_check_bind, hiff,
    pyStr_str, accepts_check_pos (hasText_of_isSafeId hsafe), accepts_check, and_iff_left hshape]
omit [Ed25519] in
/-- The names of the objects are all different, and their keys are when the digests are. -/
theorem objectEntries_nodup (hproper : ProperFiles g.files) :
    ((objectEntries b r g).map Prod.fst).Nodup ∧
      (((objectEntries b r g).map Prod.snd).Nodup ↔ (g.files.map SourceFile.digest).Nodup) := by
  have hnames : (objectEntries b r g).map Prod.fst =
      "database" :: "config" :: (g.files.map fun f => posix f.path).map ("file:" ++ ·) := by
    simp only [objectEntries, List.cons_append, List.nil_append, List.map_cons, List.map_map]
    rfl
  have hkeys : (objectEntries b r g).map Prod.snd =
      r.databaseKey b :: r.configKey b :: (g.files.map SourceFile.digest).map b.casKey := by
    simp only [objectEntries, List.cons_append, List.nil_append, List.map_cons, List.map_map]
    rfl
  constructor
  · rw [hnames, List.nodup_cons, List.nodup_cons]
    have hfile (name : String) (hstart : Text.startsWith name "file:" = false) :
        name ∉ (g.files.map fun f => posix f.path).map ("file:" ++ ·) := by
      intro hmem
      obtain ⟨path, -, rfl⟩ := List.mem_map.mp hmem
      rw [startsWith_append] at hstart
      cases hstart
    refine ⟨fun hmem => ?_, hfile _ (by decide), hproper.distinct.map fun p q heq => ?_⟩
    · rcases List.mem_cons.mp hmem with heq | hmem
      · exact absurd heq (by decide)
      · exact hfile _ (by decide) hmem
    · by_contra hne
      exact Text.append_ne_append hne heq
  · have hshared (key : String) (hkey : InArea b.pre .points key) :
        key ∉ (g.files.map SourceFile.digest).map b.casKey := by
      intro hmem
      obtain ⟨digest, -, rfl⟩ := List.mem_map.mp hmem
      exact absurd (hkey.unique (inArea_casKey digest)) (by decide)
    have hdatabase : InArea b.pre .points (r.databaseKey b) :=
      @inArea_pointKeys b.pre r.backupId _ (by simp [pointKeys, Finalization.databaseKey])
    have hconfig : InArea b.pre .points (r.configKey b) :=
      @inArea_pointKeys b.pre r.backupId _ (by simp [pointKeys, Finalization.configKey])
    have hdiffer : r.databaseKey b ≠ r.configKey b := Text.append_ne_append (by decide)
    rw [hkeys, List.nodup_cons, List.nodup_cons, List.mem_cons, not_or,
      and_iff_right ⟨hdiffer, hshared _ hdatabase⟩, and_iff_right (hshared _ hconfig)]
    exact List.nodup_map_iff fun d d' heq => casKey_injective heq
/-- The manifest of a point is accepted exactly when its times differ, its images are immutable
and no two of its files have the same content. -/
theorem manifest_accepted_iff (hhex : Sha256.HexDigests) (h : CompletePoint b r g sealed remote)
    (hid : Text.isBackupId r.backupId = true) (hsafe : Text.isSafeId b.recipientKeyId = true) :
    Accepts (validateManifest conv (signedManifest b r g)) ↔
      r.distinctTimes ∧ r.immutableImages ∧ (g.files.map SourceFile.digest).Nodup := by
  obtain ⟨hbackupId, hversion, hstarted, hfrozen, hcompleted, -, -, -, hfiles, hobjects, -⟩ :=
    @signedManifest_fields _ _ b r g
  obtain ⟨distinct, hdistinct, hdistinctIff⟩ := distinctTimes_signed r
  have hproper := properFiles_of_sourceFiles h.listed
  obtain ⟨paths, hpaths, hpathsIff⟩ := @validateFiles_ok _ conv hhex g.files [] hproper.named
    hproper.distinct fun _ _ => List.not_mem_nil
  obtain ⟨hnames, hkeys⟩ := @objectEntries_nodup _ b r g hproper
  obtain ⟨hfound, hobjectsIff⟩ := @accepts_validateObjects conv r.backupId _ _
    (@safeObjects _ b r g remote conv hhex hid hsafe h.files) [] []
  have hlast (found : List String) (hok : validateObjects conv (.str r.backupId)
      (manifestObjects b r g) [] [] = .ok found) :
      Accepts (check (found.contains "database" && found.contains "config")
          "database or config object is missing" >>= fun _ =>
        check (paths.all fun path => found.contains ("file:" ++ path))
          "file object is missing") := by
    have hmem (name : String) (hname : name ∈ (objectEntries b r g).map Prod.fst) :
        found.contains name = true := by
      obtain ⟨entry, hentry, rfl⟩ := List.mem_map.mp hname
      exact List.contains_iff_mem.mpr ((hfound found hok _).mpr (.inr ⟨entry, hentry, rfl⟩))
    rw [accepts_check_bind, accepts_check]
    refine ⟨?_, List.all_eq_true.mpr fun path hpath => hmem _ ?_⟩
    · rw [hmem "database" (by simp [objectEntries]), hmem "config" (by simp [objectEntries])]
      rfl
    · rcases (hpathsIff path).mp hpath with hmem | ⟨f, hf, rfl⟩
      · exact absurd hmem List.not_mem_nil
      · refine List.mem_map.mpr ⟨(f.name, b.casKey f.digest), ?_, rfl⟩
        exact List.mem_append_right _ (List.mem_map_of_mem hf)
  have hlist (items : List Json) : iterate (.arr items) = .ok items := rfl
  unfold validateManifest
  dsimp only
  rw [signedManifest_complete, hbackupId, hversion, hstarted, hfrozen, hcompleted, hfiles, hobjects,
    hdistinct, pyStr_str, accepts_check_pos List.isEmpty_nil, accepts_check_pos hid,
    accepts_check_pos (pyEq_refl _), ok_then, accepts_check_bind, hdistinctIff,
    accepts_bind_unit, identities_signed hhex h hsafe]
  refine and_congr_right fun _ => and_congr_right fun _ => ?_
  rw [hlist, accepts_bind_ok rfl, accepts_bind_ok hpaths, hlist, accepts_bind_ok rfl, accepts_bind]
  trans Accepts (validateObjects conv (.str r.backupId) (manifestObjects b r g) [] [])
  · exact ⟨fun ⟨found, hok, _⟩ => ⟨found, hok⟩, fun ⟨found, hok⟩ => ⟨found, hok, hlast found hok⟩⟩
  · rw [hobjectsIff, hkeys]
    simp [hnames]
/-! ## 7. The record -/

omit [Sha256] [Ed25519] in
theorem forall_mapM {α β : Type} {p : β → Prop} {f : α → Except Exn β} {list : List α}
    {values : List β} (hf : ∀ a value, f a = .ok value → p value)
    (h : list.mapM f = .ok values) : ∀ value ∈ values, p value := by
  induction list generalizing values with
  | nil =>
    rw [List.mapM_nil] at h
    obtain rfl := Except.ok.inj h
    exact fun _ hvalue => absurd hvalue List.not_mem_nil
  | cons a list ih =>
    rw [List.mapM_cons] at h
    obtain ⟨value, hvalue, h⟩ := bind_ok h
    obtain ⟨rest, hrest, h⟩ := bind_ok h
    obtain rfl := Except.ok.inj h
    exact List.forall_mem_cons.mpr ⟨hf a value hvalue, ih hrest⟩

omit [Ed25519] in
theorem plain_of_published {files : List SourceFile} {items : List Fields}
    (h : List.Forall₂ (Published b remote) files items) {item : Fields} (hmem : item ∈ items) :
    PlainFields item := by
  induction h with
  | nil => cases hmem
  | cons hitem _ ih =>
    rcases List.mem_cons.mp hmem with rfl | hmem
    · exact hitem.plain
    · exact ih hmem

theorem plain_signedManifest (hhex : Sha256.HexDigests) (h : CompletePoint b r g sealed remote) :
    Plain (signedManifest b r g) := by
  have htools : Plain g.tools := by
    obtain ⟨postgresql, -, htools⟩ := bind_ok h.tools
    obtain ⟨pgDump, -, htools⟩ := bind_ok htools
    obtain ⟨_, -, htools⟩ := bind_ok htools
    obtain ⟨rclone, -, htools⟩ := bind_ok htools
    rw [← Except.ok.inj htools]
    exact plain_dict ⟨trivial, trivial, trivial, trivial, trivial⟩
  have hassertions : Plain g.assertions := by
    obtain ⟨counts, hcounts, hassertions⟩ := bind_ok h.assertions
    obtain ⟨audit, -, hassertions⟩ := bind_ok hassertions
    obtain ⟨relation, -, hassertions⟩ := bind_ok hassertions
    rw [← Except.ok.inj hassertions]
    refine plain_dict ⟨plain_dict (plainFields_iff.mpr (forall_mapM ?_ hcounts)), trivial, trivial,
      trivial⟩
    intro table count hcount
    obtain ⟨_, -, hcount⟩ := bind_ok hcount
    obtain ⟨_, -, hcount⟩ := bind_ok hcount
    rw [← Except.ok.inj hcount]
    trivial
  have hhashes : PlainFields g.configHashes := by
    refine plainFields_iff.mpr fun f hf => ?_
    obtain ⟨digest, hdigest, -⟩ := (configHashes_digests hhex h.hashes).2 f hf
    rw [hdigest]
    trivial
  have hfiles : PlainItems (g.files.map SourceFile.item) := by
    refine plainItems_iff.mpr fun item hitem => ?_
    obtain ⟨f, -, rfl⟩ := List.mem_map.mp hitem
    exact plain_dict ⟨trivial, trivial, trivial, trivial⟩
  have hobjects : PlainItems (manifestObjects b r g) := by
    refine plainItems_iff.mpr (List.forall_mem_append.mpr ⟨?_, fun item hitem => ?_⟩)
    · refine List.forall_mem_cons.mpr ⟨?_, List.forall_mem_singleton.mpr ?_⟩
      · exact plain_dict ⟨trivial, trivial, trivial, trivial, trivial, trivial, trivial, trivial⟩
      · exact plain_dict ⟨trivial, trivial, trivial, trivial, trivial, trivial, trivial, trivial⟩
    · obtain ⟨fs, hfs, rfl⟩ := List.mem_map.mp hitem
      exact plain_dict ⟨trivial, plain_of_published h.files hfs⟩
  have hgenerations : PlainItems (g.generations.map .str) := by
    refine plainItems_iff.mpr fun item hitem => ?_
    obtain ⟨text, -, rfl⟩ := List.mem_map.mp hitem
    trivial
  have himages : Plain (dict (imageVariables.map fun image =>
      (image.1, Json.str (r.environ image.2)))) :=
    plain_dict ⟨trivial, trivial, trivial, trivial, trivial, trivial⟩
  refine Plain.set (plain_dict ?_) (plain_dict ⟨trivial, trivial, trivial, trivial⟩)
  exact ⟨trivial, trivial, trivial, trivial, trivial, trivial, himages, plain_dict hhashes, trivial,
    htools, trivial, trivial, trivial, hassertions, hfiles, hobjects, hgenerations, trivial⟩
omit [Sha256] [Ed25519] in
/-- Two lists of the same texts give the same `sorted(set(...))`. -/
theorem sorted_eq {keys keys' : List String} (h : ∀ key, key ∈ keys ↔ key ∈ keys') :
    keys.dedup.mergeSort (· ≤ ·) = keys'.dedup.mergeSort (· ≤ ·) := by
  have hperm : keys.dedup.Perm keys'.dedup :=
    (List.perm_ext_iff_of_nodup (List.nodup_dedup _) (List.nodup_dedup _)).mpr fun key => by
      rw [List.mem_dedup, List.mem_dedup, h]
  have hle (texts : List String) : (texts.mergeSort (· ≤ ·)).Pairwise (· ≤ ·) :=
    List.pairwise_mergeSort' _ _
  exact List.Perm.eq_of_pairwise' (hle _) (hle _)
    ((List.mergeSort_perm _ _).trans (hperm.trans (List.mergeSort_perm _ _).symm))

omit [Ed25519] in
/-- The object of a file adds both halves. -/
theorem objectKeys_file {f : SourceFile} {item : Fields} (h : Published b remote f item)
    (keys : List String) : retentionRecord.objectKeys conv.repr b.pre (pointRoot b.pre r.backupId)
      b.recipientKeyId keys (dict (("backup_id", .str r.backupId) :: item)) =
        .ok (b.casKey f.digest :: b.casMetaKey f.digest :: keys) := by
  have hfile : Text.startsWith f.name "file:" = true := startsWith_append "file:" (posix f.path)
  have hother (name : String) (hstart : Text.startsWith name "file:" = false) : f.name ≠ name := by
    rintro rfl
    rw [hfile] at hstart
    cases hstart
  have hkey : b.casKey f.digest =
    b.pre ++ "/objects/sha256/" ++ f.digest ++ "/" ++ b.recipientKeyId ++ ".age" := rfl
  unfold retentionRecord.objectKeys
  simp only [get_dict_cons (show "backup_id" ≠ "name" by decide),
    get_dict_cons (show "backup_id" ≠ "key" by decide),
    get_dict_cons (show "backup_id" ≠ "plaintext_sha256" by decide), h.name, h.key, h.plaintext,
    pyStr_str]
  rw [if_neg (hother "database" (by decide)), if_neg (hother "config" (by decide)), if_pos hfile,
    check_of_true (decide_eq_true hkey)]
  rfl

omit [Ed25519] in
theorem foldlM_files {files : List SourceFile} {items : List Fields}
    (h : List.Forall₂ (Published b remote) files items) (keys : List String) :
    ∃ keys', (items.map fun item => dict (("backup_id", .str r.backupId) :: item)).foldlM
        (retentionRecord.objectKeys conv.repr b.pre (pointRoot b.pre r.backupId) b.recipientKeyId)
        keys = .ok keys' ∧
      ∀ key, key ∈ keys' ↔ key ∈ keys ∨
        ∃ d ∈ files.map SourceFile.digest, key = b.casKey d ∨ key = b.casMetaKey d := by
  induction h generalizing keys with
  | nil => exact ⟨keys, rfl, fun key => by simp⟩
  | @cons f item files items hitem _ ih =>
    obtain ⟨keys', hkeys', hiff⟩ := ih (b.casKey f.digest :: b.casMetaKey f.digest :: keys)
    refine ⟨keys', ?_, fun key => ?_⟩
    · rw [List.map_cons, List.foldlM_cons, objectKeys_file hitem, ok_then, hkeys']
    · simp only [hiff, List.map_cons, List.mem_cons, exists_eq_or_imp]
      constructor
      · rintro ((hcipher | hmeta | hold) | hrest)
        · exact .inr (.inl (.inl hcipher))
        · exact .inr (.inl (.inr hmeta))
        · exact .inl hold
        · exact .inr (.inr hrest)
      · rintro (hold | (hcipher | hmeta) | hrest)
        · exact .inl (.inr (.inr hold))
        · exact .inl (.inl hcipher)
        · exact .inl (.inr (.inl hmeta))
        · exact .inr hrest

omit [Ed25519] in
/-- The loop over the objects of the manifest gives the keys that the marker names. -/
theorem foldlM_objectKeys (h : List.Forall₂ (Published b remote) g.files g.fileObjects) :
    ∃ keys, (manifestObjects b r g).foldlM (retentionRecord.objectKeys conv.repr b.pre
        (pointRoot b.pre r.backupId) b.recipientKeyId)
        [pointRoot b.pre r.backupId ++ "/manifest.json.age",
          pointRoot b.pre r.backupId ++ "/database.dump.age",
          pointRoot b.pre r.backupId ++ "/config.tar.age"] = .ok keys ∧
      ∀ key, key ∈ keys ↔ key ∈ pointKeys b.pre r.backupId ∨
        ∃ d ∈ g.files.map SourceFile.digest, key = b.casKey d ∨ key = b.casMetaKey d := by
  have hstream (name key : String) (x : Streamed) : (streamObject r name key x).get "name" =
      .str name ∧ (streamObject r name key x).get "key" = .str key := by
    constructor
    all_goals
      rw [streamObject, get_dict]
      rfl
  have hdatabase (keys : List String) : retentionRecord.objectKeys conv.repr b.pre
      (pointRoot b.pre r.backupId) b.recipientKeyId keys
      (streamObject r "database" (r.databaseKey b) r.dump) = .ok (r.databaseKey b :: keys) := by
    have hkey : r.databaseKey b = pointRoot b.pre r.backupId ++ "/database.dump.age" := rfl
    unfold retentionRecord.objectKeys
    simp only [(hstream _ _ _).1, (hstream _ _ _).2, pyStr_str, if_true]
    rw [check_of_true (decide_eq_true hkey)]
    rfl
  have hconfig (keys : List String) : retentionRecord.objectKeys conv.repr b.pre
      (pointRoot b.pre r.backupId) b.recipientKeyId keys
      (streamObject r "config" (r.configKey b) r.config) = .ok (r.configKey b :: keys) := by
    have hkey : r.configKey b = pointRoot b.pre r.backupId ++ "/config.tar.age" := rfl
    unfold retentionRecord.objectKeys
    simp only [(hstream _ _ _).1, (hstream _ _ _).2, pyStr_str]
    rw [if_neg (by decide), if_pos trivial, check_of_true (decide_eq_true hkey)]
    rfl
  obtain ⟨keys, hkeys, hiff⟩ := @foldlM_files _ b r remote conv _ _ h
    (r.configKey b :: r.databaseKey b :: [pointRoot b.pre r.backupId ++ "/manifest.json.age",
      pointRoot b.pre r.backupId ++ "/database.dump.age",
      pointRoot b.pre r.backupId ++ "/config.tar.age"])
  refine ⟨keys, ?_, fun key => ?_⟩
  · rw [manifestObjects, List.cons_append, List.cons_append, List.nil_append, List.foldlM_cons,
      hdatabase, ok_then, List.foldlM_cons, hconfig, ok_then, hkeys]
  · rw [hiff]
    refine or_congr_left ?_
    simp only [pointKeys, manifestKeyOf, Finalization.configKey, Finalization.databaseKey,
      List.mem_cons, List.not_mem_nil, or_false]
    constructor
    · rintro (hkey | hkey | hkey | hkey | hkey)
      · exact .inr (.inl hkey)
      · exact .inl hkey
      · exact .inr (.inr hkey)
      · exact .inl hkey
      · exact .inr (.inl hkey)
    · rintro (hkey | hkey | hkey)
      · exact .inr (.inl hkey)
      · exact .inl hkey
      · exact .inr (.inr (.inl hkey))
/-! ## 8. The rotation -/

/-- A rotation that is given what a builder has: its prefix and its public key. -/
structure Keyed (b : BackupBuilder) (rot : Rotation) : Prop where
  pre : rot.pre = b.pre
  key : rot.manifestVerificationKey = Ed25519.publicBytes b.manifestAuthenticationKey
  keyId : rot.manifestAuthenticationKeyId = b.manifestAuthenticationKeyId

variable {rot : Rotation}

/-- What a rotation makes of the manifest of a point. -/
def recordOfPoint (b : BackupBuilder) (r : Finalization) (g : Gathered) : Json :=
  retentionRecord.recordOf (signedManifest b r g) r.backupId b.manifestAuthenticationKeyId r.frozen
    (.arr (g.generations.map .str)) (manifestKeyOf b.pre r.backupId)
    ((sortedKeys b r g).map .str)

/-- A manifest that is authentic gives the record of its point. -/
theorem record_of_authentic (hrot : Keyed b rot) (h : CompletePoint b r g sealed remote)
    (hsafe : Text.isSafeId b.recipientKeyId = true)
    (hauthentic : rot.authentic (signedManifest b r g) = .ok ()) :
    rot.record (signedManifest b r g) r.backupId = .ok (recordOfPoint b r g) := by
  obtain ⟨hbackupId, -, -, hfrozen, -, -, -, hrecipient, -, hobjects, hgenerations⟩ :=
    @signedManifest_fields _ _ b r g
  obtain ⟨tags, htags, htagsSorted⟩ : ∃ tags, generationTags r.frozen = some tags ∧
      g.generations = tags.mergeSort (· ≤ ·) := by
    have hsorted := h.generations
    unfold sortedGenerations at hsorted
    cases htags : generationTags r.frozen with
    | none =>
      rw [htags] at hsorted
      cases hsorted
    | some tags =>
      rw [htags] at hsorted
      exact ⟨tags, rfl, (Except.ok.inj hsorted).symm⟩
  obtain ⟨keys, hkeys, hiff⟩ := @foldlM_objectKeys _ b r g remote rot.conv h.files
  have hsame : keys.dedup.mergeSort (· ≤ ·) = sortedKeys b r g :=
    sorted_eq fun key => by rw [hiff, mem_completionObjectKeys h]
  have hpre : (decide (b.pre ≠ "") && !Text.hasParentPart b.pre) = true := by
    rw [decide_eq_true b.pre_ne, b.pre_parts]
    rfl
  have hparse : orRaise ((Json.str r.frozen.formatTime).str?.bind Instant.parseTime?)
      (.safety "non-canonical completion manifest frozen_at") = .ok r.frozen := by
    rw [Json.str?, Option.bind_some, Instant.parseTime?_formatTime]
    rfl
  have hread (e : Exn) : orRaise ((Json.str b.recipientKeyId).str?.filter Text.isSafeId) e =
      .ok b.recipientKeyId := by
    rw [Json.str?, orRaise_filter, if_pos hsafe]
  have hlist : (Json.arr (manifestObjects b r g)).items = manifestObjects b r g := rfl
  have htagsRaise (e : Exn) : orRaise (some tags) e = .ok tags := rfl
  unfold Rotation.record retentionRecord
  rw [hauthentic, hrot.pre, hrot.keyId, hbackupId, hfrozen, hrecipient, hobjects, hgenerations,
    ok_then, check_of_true (pyEq_refl _), ok_then, check_of_true hpre, ok_then, hparse, ok_then,
    htags, htagsRaise, ok_then]
  dsimp only
  rw [pointRoot] at hkeys
  rw [htagsSorted, check_of_true (pyEq_refl _), ok_then, hread, ok_then, hlist, hkeys, ok_then,
    hsame, recordOfPoint, htagsSorted]
  rfl
/-- A rotation reads a record from the manifest exactly when it accepts the manifest. -/
theorem record_accepted_iff (hhex : Sha256.HexDigests) (hrot : Keyed b rot)
    (h : CompletePoint b r g sealed remote) (hid : Text.isBackupId r.backupId = true)
    (hsafe : Text.isSafeId b.recipientKeyId = true) :
    Accepts (rot.record (signedManifest b r g) r.backupId) ↔
      r.distinctTimes ∧ r.immutableImages ∧ (g.files.map SourceFile.digest).Nodup := by
  obtain ⟨manifest, hsigned, -⟩ := h.manifest
  have hverified : verifyManifestAuthentication (signedManifest b r g) rot.manifestVerificationKey
      rot.manifestAuthenticationKeyId = .ok () := by
    have heq : manifest = signedManifest b r g := (authenticateManifest_ok hsigned).2.2.2
    rw [hrot.key, hrot.keyId, ← heq]
    exact verify_authenticated rfl hsigned
  have hauthentic : Accepts (rot.authentic (signedManifest b r g)) ↔
      Accepts (validateManifest rot.conv (signedManifest b r g)) := by
    unfold Rotation.authentic
    exact accepts_bind_ok hverified
  rw [← manifest_accepted_iff hhex h hid hsafe, ← hauthentic]
  constructor
  · rintro ⟨record, hrecord⟩
    obtain ⟨u, hok, -⟩ := bind_ok hrecord
    exact ⟨u, hok⟩
  · rintro ⟨_, hok⟩
    exact ⟨_, record_of_authentic hrot h hsafe hok⟩

/-- What a point must be for a rotation to go on. -/
structure Retainable (b : BackupBuilder) (r : Finalization) (g : Gathered) (sealed : Bytes) :
    Prop where
  recipient : Text.isSafeId b.recipientKeyId = true
  ordered : r.frozen < r.verified
  distinct : r.distinctTimes
  images : r.immutableImages
  unshared : (g.files.map SourceFile.digest).Nodup
  sealed : 0 < sealed.size
  small : (canonicalJson (signedManifest b r g)).size ≤ controlLimit

theorem readManifest_eq (hhex : Sha256.HexDigests) (hrot : Keyed b rot)
    (h : CompletePoint b r g sealed remote)
    (hopens : ∀ plain, r.sealManifest plain = some sealed → rot.decrypt sealed = some plain) :
    readManifest rot remote r.backupId =
      if controlLimit < (canonicalJson (signedManifest b r g)).size then
        .error (.safety "decrypted control object exceeds limit")
      else .ok (signedManifest b r g) := by
  obtain ⟨manifest, hsigned, hsealed⟩ := h.manifest
  have heq : manifest = signedManifest b r g := (authenticateManifest_ok hsigned).2.2.2
  have hpublished : remote.lookup (manifestKeyOf rot.pre r.backupId) = some sealed := by
    rw [hrot.pre]
    exact h.published
  rw [heq] at hsealed
  unfold readManifest
  rw [hpublished]
  dsimp only
  rw [hopens _ hsealed]
  dsimp only
  rw [loads_canonicalJson (plain_signedManifest hhex h)]
/-- The record that a rotation gets is that of the manifest. -/
theorem authenticatedRetentionRecord_map {manifest : Json} {backupId : String}
    (hread : readManifest rot remote backupId = .ok manifest) (hdict : manifest.isDict = true) :
    (authenticatedRetentionRecord rot remote backupId).map Trusted.record =
      rot.record manifest backupId := by
  unfold authenticatedRetentionRecord
  rw [hread]
  dsimp only
  rw [if_pos hdict]
  split
  · next e he => exact he.symm
  · next record hrecord => exact hrecord.symm

/-- A record that was made of the manifest is the record of the point. -/
theorem record_eq_recordOfPoint (hrot : Keyed b rot) (h : CompletePoint b r g sealed remote)
    {record : Json} (hrecord : rot.record (signedManifest b r g) r.backupId = .ok record) :
    record = recordOfPoint b r g := by
  have hrecipient := (@signedManifest_fields _ _ b r g).2.2.2.2.2.2.2.1
  have hparts := hrecord
  unfold Rotation.record retentionRecord at hparts
  obtain ⟨u, hauthentic, hparts⟩ := bind_ok hparts
  obtain ⟨_, -, hparts⟩ := bind_ok hparts
  obtain ⟨_, -, hparts⟩ := bind_ok hparts
  obtain ⟨_, -, hparts⟩ := bind_ok hparts
  obtain ⟨_, -, hparts⟩ := bind_ok hparts
  obtain ⟨_, -, hparts⟩ := bind_ok hparts
  obtain ⟨id, hid, -⟩ := bind_ok hparts
  have hsafe : Text.isSafeId b.recipientKeyId = true := by
    rw [hrecipient, Json.str?, orRaise_filter] at hid
    by_contra hunsafe
    rw [if_neg hunsafe] at hid
    cases hid
  rw [record_of_authentic hrot h hsafe hauthentic] at hrecord
  exact (Except.ok.inj hrecord).symm

/-- What a rotation trusts under the id of a point is its record. -/
theorem trusted_of_point (hhex : Sha256.HexDigests) (hrot : Keyed b rot)
    (h : CompletePoint b r g sealed remote)
    (hopens : ∀ plain, r.sealManifest plain = some sealed → rot.decrypt sealed = some plain)
    {t : Trusted rot} (ht : authenticatedRetentionRecord rot remote r.backupId = .ok t) :
    t.backupId = r.backupId ∧ t.record = recordOfPoint b r g := by
  refine ⟨(authenticatedRetentionRecord_ok ht).1, ?_⟩
  have hread := readManifest_eq hhex hrot h hopens
  split at hread
  · unfold authenticatedRetentionRecord at ht
    rw [hread] at ht
    cases ht
  · have hmap := authenticatedRetentionRecord_map hread rfl
    rw [ht] at hmap
    exact record_eq_recordOfPoint hrot h hmap.symm

/-- The record of a point is read exactly when its manifest is accepted and not too large. -/
theorem accepts_authenticated (hhex : Sha256.HexDigests) (hrot : Keyed b rot)
    (h : CompletePoint b r g sealed remote) (hid : Text.isBackupId r.backupId = true)
    (hsafe : Text.isSafeId b.recipientKeyId = true)
    (hopens : ∀ plain, r.sealManifest plain = some sealed → rot.decrypt sealed = some plain) :
    Accepts (authenticatedRetentionRecord rot remote r.backupId) ↔
      (canonicalJson (signedManifest b r g)).size ≤ controlLimit ∧
        r.distinctTimes ∧ r.immutableImages ∧ (g.files.map SourceFile.digest).Nodup := by
  have hread := readManifest_eq hhex hrot h hopens
  split at hread
  · next hlimit =>
    have herror : authenticatedRetentionRecord rot remote r.backupId =
        .error (.safety "decrypted control object exceeds limit") := by
      unfold authenticatedRetentionRecord
      rw [hread]
    rw [herror]
    exact ⟨fun ⟨_, hok⟩ => (nomatch hok), fun hall => absurd hlimit (Nat.not_lt.mpr hall.1)⟩
  · next hlimit =>
    have hmap := authenticatedRetentionRecord_map hread rfl
    rw [and_iff_right (Nat.not_lt.mp hlimit), ← record_accepted_iff hhex hrot h hid hsafe, ← hmap]
    cases authenticatedRetentionRecord rot remote r.backupId with
    | error e => exact ⟨fun ⟨_, hok⟩ => (nomatch hok), fun ⟨_, hok⟩ => (nomatch hok)⟩
    | ok t => exact ⟨fun _ => ⟨_, rfl⟩, fun _ => ⟨_, rfl⟩⟩

omit [Ed25519] in
theorem plain_completion : Plain (completion b r g sealed) := by
  have htexts (texts : List String) : PlainItems (texts.map .str) := by
    refine plainItems_iff.mpr fun item hitem => ?_
    obtain ⟨text, -, rfl⟩ := List.mem_map.mp hitem
    trivial
  refine plain_dict ?_
  exact ⟨trivial, trivial, trivial, trivial, trivial, trivial, trivial, trivial, htexts _, htexts _,
    trivial, trivial⟩

/-- The marker of a point is accepted, and its record with it, exactly when the point can be
retained. -/
theorem accepts_completionRecord (hhex : Sha256.HexDigests) (hrot : Keyed b rot)
    (h : CompletePoint b r g sealed remote) (hid : Text.isBackupId r.backupId = true)
    (hopens : ∀ plain, r.sealManifest plain = some sealed → rot.decrypt sealed = some plain)
    (hmarker : remote.lookup (r.completionKey b) = some (canonicalJson (completion b r g sealed))) :
    Accepts (completionRecord rot remote r.backupId) ↔ Retainable b r g sealed := by
  have hread : readJson remote (completeKey rot.pre r.backupId) =
      .ok (completion b r g sealed) := by
    have hkey : completeKey rot.pre r.backupId = r.completionKey b := by
      rw [hrot.pre]
      rfl
    unfold readJson
    rw [hkey, hmarker]
    dsimp only
    rw [loads_canonicalJson plain_completion]
    rfl
  have hdict : (completion b r g sealed).isDict = true := rfl
  unfold completionRecord
  rw [accepts_check_pos hid, accepts_bind_ok hread, accepts_check_pos hdict, accepts_bind_unit,
    hrot.pre, marker_accepted_iff hhex h, and_iff_right hid]
  constructor
  · rintro ⟨⟨hordered, hsafe, hsealed⟩, hrest⟩
    obtain ⟨t, ht, -⟩ := accepts_bind.mp hrest
    obtain ⟨hsmall, hdistinct, himages, hunshared⟩ :=
      (accepts_authenticated hhex hrot h hid hsafe hopens).mp ⟨t, ht⟩
    exact ⟨hsafe, hordered, hdistinct, himages, hunshared, hsealed, hsmall⟩
  · rintro ⟨hsafe, hordered, hdistinct, himages, hunshared, hsealed, hsmall⟩
    obtain ⟨t, ht⟩ := (accepts_authenticated hhex hrot h hid hsafe hopens).mpr
      ⟨hsmall, hdistinct, himages, hunshared⟩
    refine ⟨⟨hordered, hsafe, hsealed⟩, accepts_bind.mpr ⟨t, ht, ?_⟩⟩
    have hagree : (["frozen_at", "generations", "manifest_key", "object_keys"].all fun field =>
        ((completion b r g sealed).get field).pyEq (t.record.get field)) = true := by
      obtain ⟨-, -, hfrozen, -, hkey, -, -, -, hgenerations, hkeys, -⟩ :=
        @completion_get _ b r g sealed
      obtain ⟨-, hfrozen', hgenerations', hkey', hkeys'⟩ := @recordOf_get _ (signedManifest b r g)
        r.backupId b.manifestAuthenticationKeyId (manifestKeyOf b.pre r.backupId) r.frozen
        (.arr (g.generations.map .str)) ((sortedKeys b r g).map .str)
      rw [(trusted_of_point hhex hrot h hopens ht).2, recordOfPoint]
      simp only [List.all_cons, List.all_nil, hfrozen, hfrozen', hkey, hkey', hgenerations,
        hgenerations', hkeys, hkeys', pyEq_refl, Bool.and_self]
    rw [accepts_check_pos hagree]
    exact accepts_ok t
/-! ## 9. Histories -/

/-- Runs of a builder, and a rotation of what they leave. -/
structure Handover where
  builder : BackupBuilder
  history : History builder
  rotation : Rotation
  keyed : Keyed builder rotation
  hexDigests : Sha256.HexDigests
  /-- What `new_backup_id` answers. -/
  ids : ∀ r n, (Run.finalize r, n) ∈ history.attempts → Text.isBackupId r.backupId = true
  /-- What the runs encrypt the rotation can decrypt. -/
  opens : ∀ r n, (Run.finalize r, n) ∈ history.attempts → ∀ plain sealed,
    r.sealManifest plain = some sealed → rotation.decrypt sealed = some plain

namespace Handover

def bucket (h : Handover) : Bucket := h.history.site.remote

/-- What is listed of the markers. -/
def names (h : Handover) : List String := lsf h.bucket (h.rotation.pre ++ "/complete")

/-- A run that has published its marker. -/
structure Point (h : Handover) (r : Finalization) (g : Gathered) (sealed : Bytes) : Prop where
  run : ∃ n, (Run.finalize r, n) ∈ h.history.attempts
  marker : h.bucket.lookup (r.completionKey h.builder) =
    some (canonicalJson (completion h.builder r g sealed))
  complete : CompletePoint h.builder r g sealed h.bucket

variable {h : Handover}

theorem Point.accepts_iff (hpoint : h.Point r g sealed) :
    Accepts (completionRecord h.rotation h.bucket r.backupId) ↔
      Retainable h.builder r g sealed := by
  obtain ⟨n, hrun⟩ := hpoint.run
  exact accepts_completionRecord h.hexDigests h.keyed hpoint.complete (h.ids r n hrun)
    (fun plain => h.opens r n hrun plain sealed) hpoint.marker

theorem completionKey_eq (h : Handover) (r : Finalization) : r.completionKey h.builder =
    h.rotation.pre ++ "/complete" ++ "/" ++ (r.backupId ++ ".json") := by
  rw [h.keyed.pre, ← completeKey_eq]
  rfl

/-- A marker that is there is that of a run. -/
theorem exists_point {name : String}
    (hmem : h.rotation.pre ++ "/complete" ++ "/" ++ name ∈ h.bucket) :
    ∃ r g sealed, h.Point r g sealed ∧ name = r.backupId ++ ".json" := by
  obtain ⟨content, hcontent⟩ := Option.isSome_iff_exists.mp (Finmap.lookup_isSome.mpr hmem)
  have harea : InArea h.builder.pre .complete
      (h.rotation.pre ++ "/complete" ++ "/" ++ name) := ⟨name, by
    rw [h.keyed.pre, Area.path]
    simp [← String.toList_inj, String.toList_append]⟩
  obtain ⟨r, g, sealed, n, hrun, hkey, hmarker, hcomplete⟩ :=
    h.history.marked.markers _ content harea hcontent
  rw [h.completionKey_eq r] at hkey
  refine ⟨r, g, sealed, ⟨⟨n, hrun⟩, ?_, hcomplete⟩, ?_⟩
  · rw [h.completionKey_eq r, ← hkey, ← hmarker]
    exact hcontent
  · by_contra hne
    exact Text.append_ne_append hne hkey

/-- The listing names the points and nothing else. -/
theorem mem_names {name : String} :
    name ∈ h.names ↔ ∃ r g sealed, h.Point r g sealed ∧ name = r.backupId ++ ".json" := by
  have hproper {name : String} (hpoint : ∃ r g sealed, h.Point r g sealed ∧
      name = r.backupId ++ ".json") : ProperName name := by
    obtain ⟨r, g, sealed, hpoint, rfl⟩ := hpoint
    obtain ⟨n, hrun⟩ := hpoint.run
    exact properName_json (h.ids r n hrun)
  have hlines : ∀ other ∈ children h.bucket (h.rotation.pre ++ "/complete"),
      DeployRollback.AuditLog.OneLine other.toList := fun other hother =>
    (hproper (exists_point (mem_children.mp hother).2)).line
  rw [names, mem_lsf_of_lines hlines]
  constructor
  · exact fun ⟨_, _, hmem⟩ => exists_point hmem
  · intro hpoint
    refine ⟨(hproper hpoint).ne, (hproper hpoint).plain, ?_⟩
    obtain ⟨r, g, sealed, hpoint, rfl⟩ := hpoint
    rw [← h.completionKey_eq r]
    exact Finmap.mem_of_lookup_eq_some hpoint.marker

end Handover

/-- The records of the markers are one for each marker that is listed. -/
theorem completionRecords_listed {bucket : Bucket} {d : TrustedRecords rot}
    (hd : completionRecords rot bucket (lsf bucket (rot.pre ++ "/complete")) .empty = .ok d)
    (id : String) : (id ∈ d.ids ↔ id ++ ".json" ∈ lsf bucket (rot.pre ++ "/complete")) ∧
      (id ∈ d.ids → Accepts (completionRecord rot bucket id)) := by
  obtain ⟨hrecords, hids⟩ := completionRecords_ok (fun t ht => absurd ht List.not_mem_nil) hd
  refine ⟨(hids id).trans (or_iff_right List.not_mem_nil), fun hid => ?_⟩
  obtain ⟨t, ht, rfl⟩ := List.mem_map.mp hid
  exact ⟨t, hrecords t ht⟩

/-- A rotation that does not get through the markers does nothing. -/
theorem rotate_of_refused {bucket : Bucket} (h : ∀ d, completionRecords rot bucket
    (lsf bucket (rot.pre ++ "/complete")) .empty ≠ .ok d) (now : Instant) (dryRun : Bool)
    (calls : Nat) : ∃ e, (rotate rot bucket now dryRun).exec Rclone.machine calls bucket =
      ⟨.raised e, bucket⟩ := by
  cases hd : completionRecords rot bucket (lsf bucket (rot.pre ++ "/complete")) .empty with
  | ok d => exact absurd hd (h d)
  | error e =>
    have hplan : plan rot bucket now = .error e := by
      unfold plan
      rw [hd]
      rfl
    refine ⟨e, ?_⟩
    rw [rotate, hplan]
    rfl

end Points

end ProductPdfQr.BackupRecovery
