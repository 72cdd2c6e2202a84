/-
# Paths that a pull request introduced

The gate folds the file lists of the commits into the set of paths that the code commits created
and kept, and expects every one of them in the net diff.  The fold sees names only.  A path that
is removed and then added again with its old content is introduced for the fold and unchanged
for the trees, and so is one that a metadata commit takes away after a code commit added it.
-/
import ProductPdfQr.ReviewGate.Soundness

namespace ProductPdfQr.ReviewGate

variable {Blob : Type}

/-! ## 1. True diffs -/

namespace ReviewFile

/-- The file is new at its path. -/
def Creates (f : ReviewFile) : Prop := f.status = "added" ∨ f.status = "copied"

/-- The file was at `previous` before. -/
def Renames (f : ReviewFile) (previous : String) : Prop :=
  f.status = "renamed" ∧ f.previousFilename = some previous

/-- The paths that the file leaves or fills: both names of a rename. -/
def touched (f : ReviewFile) : List String :=
  if f.status = "renamed" then f.paths else [f.filename]

theorem mem_touched (f : ReviewFile) : f.filename ∈ f.touched := by
  unfold touched paths
  split
  · split <;> simp
  · exact List.mem_singleton.mpr rfl

theorem Renames.mem_touched {f : ReviewFile} {previous : String} (h : f.Renames previous) :
    previous ∈ f.touched := by
  rw [touched, if_pos h.1, paths, h.2]
  exact List.mem_cons_self ..

end ReviewFile

/-- What a file list may say of one file, given the trees before and after. -/
inductive Truthful (old new : String → Option Blob) : ReviewFile → Prop
  | created {f : ReviewFile} (h : f.Creates) (hold : old f.filename = none)
      (hnew : (new f.filename).isSome) : Truthful old new f
  | modified {f : ReviewFile} (h : f.status = "modified" ∨ f.status = "changed")
      (hold : (old f.filename).isSome) (hnew : (new f.filename).isSome)
      (hne : old f.filename ≠ new f.filename) : Truthful old new f
  | removed {f : ReviewFile} (h : f.status = "removed") (hold : (old f.filename).isSome)
      (hnew : new f.filename = none) : Truthful old new f
  | renamed {f : ReviewFile} {previous : String} (h : f.Renames previous)
      (hprevious : (old previous).isSome ∧ new previous = none) (hold : old f.filename = none)
      (hnew : (new f.filename).isSome) : Truthful old new f

/-- The files are the diff of the two trees: each says what happened, each path that changed is
there, and none is there twice. -/
structure TrueDiff (old new : String → Option Blob) (files : List ReviewFile) : Prop where
  truthful : ∀ f ∈ files, Truthful old new f
  complete : ∀ path, old path ≠ new path → ∃ f ∈ files, path ∈ f.touched
  disjoint : (files.flatMap ReviewFile.touched).Nodup

/-- A chain of commits from a tree on: each is classified, follows on the tree of the one before
it, and lists its true diff. -/
def Chained (trees : Trees Blob) : String → List (ReviewCommit × Classification) → Prop
  | _, [] => True
  | base, (commit, classification) :: rest =>
    commit.parentTreeSha = base ∧ commit.classification = .ok classification ∧
      TrueDiff (trees base) (trees commit.treeSha) commit.files ∧
      Chained trees commit.treeSha rest

/-! ## 2. Files that the chain created -/

/-- Something of the commit is put at `path`: a new file, or one whose old name is among `source`. -/
def Filled (files : List ReviewFile) (source : String → Prop) (path : String) : Prop :=
  ∃ f ∈ files, f.filename = path ∧ (f.Creates ∨ ∃ previous, f.Renames previous ∧ source previous)

/-- What stood at `path` goes: it is removed, or it gets another name. -/
def Vacated (files : List ReviewFile) (path : String) : Prop :=
  ∃ f ∈ files, (f.status = "removed" ∧ f.filename = path) ∨ f.Renames path

/-- The file at `path` was created by a code commit of the chain, the newest commit first: it was
added or copied there, or it was created elsewhere and renamed, and no code commit since has
removed it or given it another name. -/
inductive Born : List (ReviewCommit × Classification) → String → Prop
  | created {commit : ReviewCommit} {earlier : List (ReviewCommit × Classification)}
      {f : ReviewFile} (hf : f ∈ commit.files) (h : f.Creates) :
      Born ((commit, .code) :: earlier) f.filename
  | renamed {commit : ReviewCommit} {earlier : List (ReviewCommit × Classification)}
      {f : ReviewFile} {previous : String} (hf : f ∈ commit.files) (h : f.Renames previous)
      (hborn : Born earlier previous) : Born ((commit, .code) :: earlier) f.filename
  | kept {commit : ReviewCommit} {classification : Classification}
      {earlier : List (ReviewCommit × Classification)} {path : String} (hborn : Born earlier path)
      (h : classification = .code → ¬Vacated commit.files path) :
      Born ((commit, classification) :: earlier) path

theorem born_code {commit : ReviewCommit} {earlier : List (ReviewCommit × Classification)}
    {path : String} : Born ((commit, .code) :: earlier) path ↔
      Filled commit.files (Born earlier) path ∨
        Born earlier path ∧ ¬Vacated commit.files path := by
  constructor
  · intro h
    cases h with
    | created hf h => exact .inl ⟨_, hf, rfl, .inl h⟩
    | renamed hf h hborn => exact .inl ⟨_, hf, rfl, .inr ⟨_, h, hborn⟩⟩
    | kept hborn h => exact .inr ⟨hborn, h rfl⟩
  · rintro (⟨f, hf, rfl, h | ⟨previous, h, hborn⟩⟩ | ⟨hborn, h⟩)
    · exact .created hf h
    · exact .renamed hf h hborn
    · exact .kept hborn fun _ => h

theorem born_other {commit : ReviewCommit} {classification : Classification}
    {earlier : List (ReviewCommit × Classification)} {path : String}
    (h : classification ≠ .code) :
    Born ((commit, classification) :: earlier) path ↔ Born earlier path := by
  constructor
  · intro hborn
    cases hborn with
    | created => exact absurd rfl h
    | renamed => exact absurd rfl h
    | kept hborn => exact hborn
  · exact fun hborn => .kept hborn fun hcode => absurd hcode h

/-! ## 3. One commit of the fold -/

/-- Away from the paths a file touches, it changes nothing. -/
theorem introduce_other {introduced : Finset String} {f : ReviewFile} {path : String}
    (h : path ∉ f.touched) : path ∈ introduce introduced f ↔ path ∈ introduced := by
  have hname : path ≠ f.filename := by
    rintro rfl
    exact h f.mem_touched
  unfold introduce
  split
  · simp [hname]
  · split
    · simp [hname]
    · split
      · next previous hprevious =>
        split
        · next hrenamed =>
          have hpath : path ≠ previous := by
            rintro rfl
            exact h (ReviewFile.Renames.mem_touched ⟨hrenamed.1, hprevious⟩)
          simp [hname, hpath]
        · rfl
      · rfl

theorem introduce_self {introduced : Finset String} {f : ReviewFile} {path : String}
    (htouched : f.touched.Nodup) (hpath : path ∈ f.touched)
    (hstatus : f.status = "renamed" → ∃ previous, f.previousFilename = some previous) :
    path ∈ introduce introduced f ↔
      Filled [f] (· ∈ introduced) path ∨ path ∈ introduced ∧ ¬Vacated [f] path := by
  by_cases hrenamed : f.status = "renamed"
  · obtain ⟨previous, hprevious⟩ := hstatus hrenamed
    have htouched' : f.touched = [previous, f.filename] := by
      rw [ReviewFile.touched, if_pos hrenamed, ReviewFile.paths, hprevious]
    rw [htouched'] at htouched hpath
    have hne : previous ≠ f.filename := by simpa using htouched
    simp only [List.mem_cons, List.not_mem_nil, or_false] at hpath
    have hintroduce : introduce introduced f = if previous ∈ introduced then
        insert f.filename (introduced.erase previous) else introduced := by
      simp [introduce, hrenamed, hprevious]
    rw [hintroduce]
    by_cases hin : previous ∈ introduced <;> rcases hpath with rfl | rfl <;>
      simp [Filled, Vacated, ReviewFile.Creates, ReviewFile.Renames, hrenamed, hprevious, hin, hne,
        hne.symm]
  · have hpath' : path = f.filename := by
      rw [ReviewFile.touched, if_neg hrenamed] at hpath
      exact List.mem_singleton.mp hpath
    subst hpath'
    unfold introduce
    split
    · next h =>
      have hcreates : f.Creates := by simpa [ReviewFile.Creates] using h
      simp [Filled, hcreates]
    · next h =>
      have hcreates : ¬f.Creates := by simpa [ReviewFile.Creates] using h
      split
      · next hremoved =>
        simp [Filled, Vacated, ReviewFile.Renames, hcreates, hremoved]
      · next hremoved =>
        have hremoved' : f.status ≠ "removed" := hremoved
        split <;>
          simp [Filled, Vacated, ReviewFile.Renames, hcreates, hrenamed, hremoved']

theorem filled_cons {f : ReviewFile} {files : List ReviewFile} {source : String → Prop}
    {path : String} :
    Filled (f :: files) source path ↔ Filled [f] source path ∨ Filled files source path := by
  simp [Filled]

theorem vacated_cons {f : ReviewFile} {files : List ReviewFile} {path : String} :
    Vacated (f :: files) path ↔ Vacated [f] path ∨ Vacated files path := by
  simp [Vacated]

theorem Filled.mem_touched {files : List ReviewFile} {source : String → Prop} {path : String}
    (h : Filled files source path) : path ∈ files.flatMap ReviewFile.touched := by
  obtain ⟨f, hf, rfl, -⟩ := h
  exact List.mem_flatMap.mpr ⟨f, hf, f.mem_touched⟩

theorem Vacated.mem_touched {files : List ReviewFile} {path : String} (h : Vacated files path) :
    path ∈ files.flatMap ReviewFile.touched := by
  obtain ⟨f, hf, ⟨-, rfl⟩ | hrenames⟩ := h
  · exact List.mem_flatMap.mpr ⟨f, hf, f.mem_touched⟩
  · exact List.mem_flatMap.mpr ⟨f, hf, hrenames.mem_touched⟩

/-- Where a rename takes its file from matters only at the paths the files touch. -/
theorem filled_congr {files : List ReviewFile} {source source' : String → Prop} {path : String}
    (h : ∀ p ∈ files.flatMap ReviewFile.touched, source p ↔ source' p) :
    Filled files source path ↔ Filled files source' path := by
  constructor
  · rintro ⟨f, hf, hpath, hcreates | ⟨previous, hrenames, hprevious⟩⟩
    · exact ⟨f, hf, hpath, .inl hcreates⟩
    · exact ⟨f, hf, hpath, .inr ⟨previous, hrenames,
        (h _ (List.mem_flatMap.mpr ⟨f, hf, hrenames.mem_touched⟩)).mp hprevious⟩⟩
  · rintro ⟨f, hf, hpath, hcreates | ⟨previous, hrenames, hprevious⟩⟩
    · exact ⟨f, hf, hpath, .inl hcreates⟩
    · exact ⟨f, hf, hpath, .inr ⟨previous, hrenames,
        (h _ (List.mem_flatMap.mpr ⟨f, hf, hrenames.mem_touched⟩)).mpr hprevious⟩⟩

/-- The files of one commit, in whatever order they are listed. -/
theorem mem_foldl_introduce {files : List ReviewFile} {introduced : Finset String} {path : String}
    (hdisjoint : (files.flatMap ReviewFile.touched).Nodup)
    (hstatus : ∀ f ∈ files, f.status = "renamed" → ∃ previous, f.previousFilename = some previous) :
    path ∈ files.foldl introduce introduced ↔
      Filled files (· ∈ introduced) path ∨ path ∈ introduced ∧ ¬Vacated files path := by
  induction files generalizing introduced with
  | nil => simp [Filled, Vacated]
  | cons f files ih =>
    rw [List.flatMap_cons, List.nodup_append] at hdisjoint
    obtain ⟨hf, hfiles, happart⟩ := hdisjoint
    have hsame : ∀ p ∈ files.flatMap ReviewFile.touched,
        (p ∈ introduce introduced f ↔ p ∈ introduced) := fun p hp =>
      introduce_other fun hin => happart p hin p hp rfl
    rw [List.foldl_cons, ih hfiles fun g hg => hstatus g (List.mem_cons_of_mem _ hg),
      filled_congr hsame, filled_cons, vacated_cons]
    by_cases hpath : path ∈ f.touched
    · have hrest : path ∉ files.flatMap ReviewFile.touched := fun hin => happart path hpath path hin rfl
      have hfilled : ¬Filled files (· ∈ introduced) path := fun h => hrest h.mem_touched
      have hvacated : ¬Vacated files path := fun h => hrest h.mem_touched
      rw [introduce_self hf hpath (hstatus f (List.mem_cons_self ..))]
      tauto
    · have hout : path ∉ [f].flatMap ReviewFile.touched := by simpa using hpath
      have hfilled : ¬Filled [f] (· ∈ introduced) path := fun h => hout h.mem_touched
      have hvacated : ¬Vacated [f] path := fun h => hout h.mem_touched
      rw [introduce_other hpath]
      tauto

/-! ## 4. The whole fold -/

theorem TrueDiff.renamed {old new : String → Option Blob} {files : List ReviewFile}
    (h : TrueDiff old new files) :
    ∀ f ∈ files, f.status = "renamed" → ∃ previous, f.previousFilename = some previous := by
  intro f hf hstatus
  cases h.truthful f hf with
  | created hcreates =>
    rcases hcreates with h | h <;> exact absurd (h.symm.trans hstatus) (by decide)
  | modified hmodified =>
    rcases hmodified with h | h <;> exact absurd (h.symm.trans hstatus) (by decide)
  | removed hremoved => exact absurd (hremoved.symm.trans hstatus) (by decide)
  | renamed hrenames => exact ⟨_, hrenames.2⟩

/-- Every commit of a chain has its true diff. -/
theorem Chained.trueDiff {trees : Trees Blob} :
    ∀ {base : String} {classified : List (ReviewCommit × Classification)},
      Chained trees base classified → ∀ entry ∈ classified,
        TrueDiff (trees entry.1.parentTreeSha) (trees entry.1.treeSha) entry.1.files
  | _, [], _, _, hentry => absurd hentry List.not_mem_nil
  | _, _ :: _, h, entry, hentry => by
    rcases List.mem_cons.mp hentry with rfl | hentry
    · exact h.1 ▸ h.2.2.1
    · exact Chained.trueDiff h.2.2.2 entry hentry

/-- Up to the final commit, the paths of the fold are those of files the chain created. -/
theorem mem_persistentIntroducedPaths {trees : Trees Blob} {final : ReviewCommit}
    {after : List (ReviewCommit × Classification)} {path : String} :
    ∀ {before earlier : List (ReviewCommit × Classification)} {introduced : Finset String},
      (∀ entry ∈ before ++ [(final, .code)],
        TrueDiff (trees entry.1.parentTreeSha) (trees entry.1.treeSha) entry.1.files) →
      (∀ entry ∈ before, entry.1.sha ≠ final.sha) → (∀ p, p ∈ introduced ↔ Born earlier p) →
      (path ∈ persistentIntroducedPaths final.sha introduced (before ++ (final, .code) :: after) ↔
        Born ((final, .code) :: (before.reverse ++ earlier)) path)
  | [], earlier, introduced, hdiff, _, hintroduced => by
    have hfinal := hdiff (final, .code) (by simp)
    rw [List.nil_append, persistentIntroducedPaths, if_pos rfl, if_pos rfl,
      mem_foldl_introduce hfinal.disjoint hfinal.renamed, List.reverse_nil, List.nil_append, born_code,
      filled_congr fun p _ => hintroduced p, hintroduced]
  | (commit, classification) :: before, earlier, introduced, hdiff, hfirst, hintroduced => by
    have hcommit := hdiff (commit, classification) (by simp)
    rw [List.cons_append, persistentIntroducedPaths, if_neg (hfirst _ (List.mem_cons_self ..)),
      List.reverse_cons, List.append_assoc, List.singleton_append]
    refine mem_persistentIntroducedPaths (fun entry hentry => hdiff entry ?_)
      (fun entry hentry => hfirst entry (List.mem_cons_of_mem _ hentry)) fun p => ?_
    · exact List.mem_cons_of_mem _ hentry
    · split
      · next hcode =>
        rw [hcode, mem_foldl_introduce hcommit.disjoint hcommit.renamed, born_code,
          filled_congr fun p _ => hintroduced p, hintroduced]
      · next hcode => rw [born_other hcode, hintroduced]

theorem Chained.front {trees : Trees Blob} :
    ∀ {base : String} {before after : List (ReviewCommit × Classification)},
      Chained trees base (before ++ after) → Chained trees base before
  | _, [], _, _ => trivial
  | _, _ :: _, _, h => ⟨h.1, h.2.1, h.2.2.1, Chained.front h.2.2.2⟩

theorem Chained.link {trees : Trees Blob} {older newer : ReviewCommit × Classification} :
    ∀ {base : String} {before : List (ReviewCommit × Classification)},
      Chained trees base (before ++ [older, newer]) → newer.1.parentTreeSha = older.1.treeSha
  | _, [], h => h.2.2.2.1
  | _, _ :: _, h => Chained.link h.2.2.2

/-- A path that nothing vacates stays. -/
theorem TrueDiff.isSome_of_not_vacated {old new : String → Option Blob} {files : List ReviewFile}
    (h : TrueDiff old new files) {path : String} (hold : (old path).isSome)
    (hkept : ¬Vacated files path) : (new path).isSome := by
  by_cases hsame : old path = new path
  · exact hsame ▸ hold
  · obtain ⟨f, hf, hpath⟩ := h.complete path hsame
    have hname : f.status ≠ "renamed" → path = f.filename := by
      intro hstatus
      rw [ReviewFile.touched, if_neg hstatus] at hpath
      exact List.mem_singleton.mp hpath
    cases h.truthful f hf with
    | created hcreates _ hnew =>
      rw [hname (by rcases hcreates with h | h <;> rw [h] <;> decide)]
      exact hnew
    | modified hmodified _ hnew =>
      rw [hname (by rcases hmodified with h | h <;> rw [h] <;> decide)]
      exact hnew
    | removed hremoved _ _ =>
      exact absurd ⟨f, hf, .inl ⟨hremoved, (hname (by rw [hremoved]; decide)).symm⟩⟩ hkept
    | renamed hrenames _ _ hnew =>
      rw [ReviewFile.touched, if_pos hrenames.1, ReviewFile.paths, hrenames.2] at hpath
      rcases List.mem_cons.mp hpath with rfl | hpath
      · exact absurd ⟨f, hf, .inr hrenames⟩ hkept
      · rw [List.mem_singleton.mp hpath]
        exact hnew

/-- Whatever fills a path puts something there. -/
theorem TrueDiff.isSome_of_filled {old new : String → Option Blob} {files : List ReviewFile}
    (h : TrueDiff old new files) {source : String → Prop} {path : String}
    (hfilled : Filled files source path) : (new path).isSome := by
  obtain ⟨f, hf, rfl, hfilled⟩ := hfilled
  have hstatus : f.status = "added" ∨ f.status = "copied" ∨ f.status = "renamed" := by
    rcases hfilled with (h | h) | ⟨_, h, -⟩
    · exact .inl h
    · exact .inr (.inl h)
    · exact .inr (.inr h.1)
  cases h.truthful f hf with
  | created _ _ hnew => exact hnew
  | modified hmodified =>
    rcases hmodified with h | h <;> rw [h] at hstatus <;> simp at hstatus
  | removed hremoved => rw [hremoved] at hstatus; simp at hstatus
  | renamed _ _ _ hnew => exact hnew

/-- As long as only code commits take files away, a file that the chain created is there: nothing
is lost. -/
theorem Born.present {trees : Trees Blob} {path : String} :
    ∀ {base : String} {chain : List (ReviewCommit × Classification)}
      {entry : ReviewCommit × Classification}, Chained trees base (chain.reverse ++ [entry]) →
      (∀ e ∈ entry :: chain, e.2 ≠ .code → ∀ p, ¬Vacated e.1.files p) →
      Born (entry :: chain) path → (trees entry.1.treeSha path).isSome := by
  intro base chain
  induction chain with
  | nil =>
    intro entry hchain hkept hborn
    have hdiff := hchain.trueDiff entry (by simp)
    cases hborn with
    | @created commit _ _ hf h =>
      have hfilled : Filled commit.files (fun _ => False) _ := ⟨_, hf, rfl, .inl h⟩
      exact hdiff.isSome_of_filled hfilled
    | renamed _ _ hborn => cases hborn
    | kept hborn => cases hborn
  | cons older chain ih =>
    intro entry hchain hkept hborn
    have hdiff := hchain.trueDiff entry (by simp)
    rw [List.reverse_cons, List.append_assoc] at hchain
    have holder : Born (older :: chain) path → (trees entry.1.parentTreeSha path).isSome := by
      intro hborn
      have hfront : Chained trees base ((chain.reverse ++ [older]) ++ [entry]) := by
        rwa [List.append_assoc]
      rw [hchain.link]
      exact ih hfront.front (fun e he => hkept e (List.mem_cons_of_mem _ he)) hborn
    cases hborn with
    | @created commit _ _ hf h =>
      have hfilled : Filled commit.files (fun _ => False) _ := ⟨_, hf, rfl, .inl h⟩
      exact hdiff.isSome_of_filled hfilled
    | @renamed commit _ _ _ hf h hborn =>
      have hfilled : Filled commit.files (Born (older :: chain)) _ :=
        ⟨_, hf, rfl, .inr ⟨_, h, hborn⟩⟩
      exact hdiff.isSome_of_filled hfilled
    | @kept _ classification _ _ hborn h =>
      refine hdiff.isSome_of_not_vacated (holder hborn) ?_
      by_cases hcode : classification = .code
      · exact h hcode
      · exact hkept _ (List.mem_cons_self ..) hcode path

/-! ## 5. False gaps -/

/-- The trees differ at the path: the net diff has it, under one name or the other. -/
def Changed (trees : Trees Blob) (base final path : String) : Prop := trees base path ≠ trees final path

/-- Nothing that the chain created ended where the base tree had the same: neither with the
content that the base has at the path, nor gone from a path that the base does not have. -/
structure NothingReturned (trees : Trees Blob) (base final : String)
    (chain : List (ReviewCommit × Classification)) : Prop where
  restored : ∀ path content, Born chain path → trees base path = some content →
    trees final path ≠ some content
  lost : ∀ path, Born chain path → trees base path = none → (trees final path).isSome

theorem nothingReturned_iff {trees : Trees Blob} {base final : String}
    {chain : List (ReviewCommit × Classification)} :
    NothingReturned trees base final chain ↔
      ∀ path, Born chain path → Changed trees base final path := by
  constructor
  · intro h path hborn heq
    cases hbase : trees base path with
    | none =>
      have hsome := h.lost path hborn hbase
      rw [← heq, hbase] at hsome
      cases hsome
    | some content => exact h.restored path content hborn hbase (heq ▸ hbase)
  · intro h
    refine ⟨fun path content hborn hbase hfinal => h path hborn (hbase.trans hfinal.symm),
      fun path hborn hbase => ?_⟩
    cases hfinal : trees final path with
    | none => exact absurd (hbase.trans hfinal.symm) (h path hborn)
    | some content => rfl

/-- The fold stays within the net diff exactly when nothing that the chain created came back to
what the base tree had. -/
theorem introduced_within_net_diff_iff {trees : Trees Blob} {base : String} {final : ReviewCommit}
    {before after : List (ReviewCommit × Classification)}
    (hchain : Chained trees base (before ++ [(final, .code)]))
    (hfirst : ∀ entry ∈ before, entry.1.sha ≠ final.sha) :
    (∀ path ∈ persistentIntroducedPaths final.sha ∅ (before ++ (final, .code) :: after),
      Changed trees base final.treeSha path) ↔
        NothingReturned trees base final.treeSha ((final, .code) :: before.reverse) := by
  have hnone : ∀ path, path ∈ (∅ : Finset String) ↔ Born [] path := by
    intro path
    constructor
    · intro h
      exact absurd h (Finset.notMem_empty path)
    · intro h
      cases h
  rw [nothingReturned_iff]
  simp only [mem_persistentIntroducedPaths hchain.trueDiff hfirst hnone, List.append_nil]

/-! ### A file that is taken out and put back -/

namespace Sample

/-- A commit takes the application out. -/
def takeOut : ReviewCommit := ⟨sha 'b', sha 'a', sha '2', sha '1', [⟨"app.py", "removed", none⟩]⟩

/-- The next one puts it back as it was. -/
def putBack : ReviewCommit := ⟨sha 'c', sha 'b', sha '1', sha '2', [⟨"app.py", "added", none⟩]⟩

/-- One file, in one of the trees. -/
def oneFile : Trees Nat := fun tree path => if path = "app.py" ∧ tree = sha '1' then some 0 else none

theorem chained_putBack : Chained oneFile (sha '1') [(takeOut, .code), (putBack, .code)] := by
  have h12 : sha '2' ≠ sha '1' := by decide +kernel
  have hfile : ∀ {f : ReviewFile} {tree tree' : String} {path : String}, f.filename = "app.py" →
      oneFile tree path ≠ oneFile tree' path → path ∈ f.touched := by
    intro f tree tree' path hname hne
    by_cases hpath : path = "app.py"
    · rw [hpath, ← hname]
      exact f.mem_touched
    · simp [oneFile, hpath] at hne
  refine ⟨rfl, rfl, ⟨?_, fun path hne => ⟨_, List.mem_singleton.mpr rfl, hfile rfl hne⟩, by decide⟩,
    rfl, rfl, ⟨?_, fun path hne => ⟨_, List.mem_singleton.mpr rfl, hfile rfl hne⟩, by decide⟩,
    trivial⟩
  · intro f hf
    obtain rfl := List.mem_singleton.mp hf
    exact .removed rfl (by simp [oneFile]) (by simp [oneFile, takeOut, h12])
  · intro f hf
    obtain rfl := List.mem_singleton.mp hf
    exact .created (.inl rfl) (by simp [oneFile, takeOut, h12]) (by simp [oneFile, putBack])

end Sample

/-- The file that was put back is introduced for the fold and unchanged for the trees. -/
theorem putBack_not_in_net_diff :
    Chained Sample.oneFile (Sample.sha '1') [(Sample.takeOut, .code), (Sample.putBack, .code)] ∧
      "app.py" ∈ persistentIntroducedPaths Sample.putBack.sha ∅
        [(Sample.takeOut, .code), (Sample.putBack, .code)] ∧
      ¬Changed Sample.oneFile (Sample.sha '1') Sample.putBack.treeSha "app.py" :=
  ⟨Sample.chained_putBack, by decide +kernel, fun h => h rfl⟩

/-- What the fold says of it stays within the net diff only if nothing came back. -/
theorem introduced_within_net_diff_putBack :
    (∀ path ∈ persistentIntroducedPaths Sample.putBack.sha ∅
        [(Sample.takeOut, .code), (Sample.putBack, .code)],
      Changed Sample.oneFile (Sample.sha '1') Sample.putBack.treeSha path) ↔
        NothingReturned Sample.oneFile (Sample.sha '1') Sample.putBack.treeSha
          [(Sample.putBack, .code), (Sample.takeOut, .code)] :=
  @introduced_within_net_diff_iff _ _ _ _ [(Sample.takeOut, .code)] []
    Sample.chained_putBack fun entry hentry => by
      rw [List.mem_singleton.mp hentry]
      decide +kernel

end ProductPdfQr.ReviewGate
