/-
# When the restore of the files is exact

A file is written through a temporary, and what stands under the temporary's name is deleted.
`Clear` names the files that are written, and says that none of them has its temporary under the
name of somebody else's file or of a file of the manifest that comes before it.

`restore_exact` says that then every restore that completes is exact and harms nothing, whatever
attempts failed or died before; and that an attempt that completes at once and is exact shows
`Clear`.
-/
import Mathlib.Data.List.Induction
import ProductPdfQr.Restore.Files

namespace ProductPdfQr.Restore.Files

open Effect BackupRecovery Json

section
variable [Sha256]

/-! ## 1. The manifest's files -/

/-- `file_root / str(file_item["path"])`, of a path without empty pieces. -/
def targetOf (name : String) : Path := (Text.split '/' name.toList).map String.ofList

omit [Sha256] in
theorem targetOf_posix {path : Path} (hne : path ≠ []) (h : ∀ name ∈ path, isName name = true) :
    targetOf (posix path) = path := by
  rw [targetOf, split_posix hne h, pieces, List.map_map]
  simp [Function.comp_def]

/-- An item of `manifest["files"]`. -/
def itemOf (file : Json) : Item where
  name := (file.get "path").str?.getD ""
  target := targetOf ((file.get "path").str?.getD "")
  size := (file.get "size").int?.getD 0
  sha256 := (file.get "sha256").str?.getD ""

theorem itemOf_fileItem {path : Path} {content : Bytes} (hne : path ≠ [])
    (h : ∀ name ∈ path, isName name = true) :
    itemOf (fileItem path content) = ⟨posix path, path, content.size, hexdigest content⟩ := by
  have hpath : (fileItem path content).get "path" = .str (posix path) := by
    simp [fileItem, get_dict, lookupField]
  have hsize : (fileItem path content).get "size" = .int content.size := by
    simp [fileItem, get_dict, lookupField]
  have hsha : (fileItem path content).get "sha256" = .str (hexdigest content) := by
    simp [fileItem, get_dict, lookupField]
  simp [itemOf, hpath, hsize, hsha, str?, int?, targetOf_posix hne h]

/-- What the manifest's files have from the tree that they were taken from. -/
structure Listing (files : List Item) : Prop where
  distinct : (files.map Item.target).Nodup
  nonempty : ∀ item ∈ files, item.target ≠ []
  apart : ∀ a ∈ files, ∀ b ∈ files, a.target <+: b.target → a.target = b.target

omit [Sha256] in
/-- Everything above a node is a directory. -/
theorem directory_above (tree : FileTree) {above : Path} (hne : above ≠ []) :
    ∀ (below : Path) {kind : Kind}, below ≠ [] →
      (above ++ below, kind) ∈ tree.nodes → (above, Kind.directory) ∈ tree.nodes := by
  intro below
  induction below using List.reverseRecOn with
  | nil => exact fun h => absurd rfl h
  | append_singleton below name ih =>
    intro kind _ hnode
    have hclosed := tree.closed _ hnode
    rw [← List.append_assoc, List.dropLast_concat] at hclosed
    have hparent := hclosed.resolve_left (List.append_ne_nil_of_left_ne_nil hne _)
    by_cases hnil : below = []
    · rwa [hnil, List.append_nil] at hparent
    · exact ih hnil hparent

omit [Sha256] in
/-- No file is below another. -/
theorem not_below (tree : FileTree) {path other : Path} {content content' : Bytes}
    (hne : path ≠ []) (hpath : (path, Kind.file content) ∈ tree.nodes)
    (hother : (other, Kind.file content') ∈ tree.nodes) (hbelow : path <+: other) :
    path = other := by
  obtain ⟨below, rfl⟩ := hbelow
  by_contra hnot
  have hnil : below ≠ [] := fun h => hnot (by rw [h, List.append_nil])
  have hdir := directory_above tree hne below hnil hother
  have hsame := List.inj_on_of_nodup_map tree.distinct hpath hdir rfl
  cases hsame

theorem listing_of_inventory {source : SourceRoot} {excluded : List String} {files : List Json}
    (h : inventory source excluded = .ok files) : Listing (files.map itemOf) := by
  obtain ⟨tree, -, rfl⟩ := inventory_ok h
  have htargets : ((listed excluded (sortedNodes tree)).map fun item =>
      fileItem item.1 item.2).map itemOf =
        (listed excluded (sortedNodes tree)).map fun item =>
          ⟨posix item.1, item.1, item.2.size, hexdigest item.2⟩ := by
    rw [List.map_map]
    refine List.map_congr_left fun item hitem => ?_
    have hnamed := (lists_iff.mpr (List.mem_map_of_mem hitem)).named
    exact itemOf_fileItem hnamed.1 hnamed.2
  rw [htargets]
  constructor
  · rw [List.map_map]
    have hsorted := pairwise_listed tree excluded
    exact hsorted.imp fun hlt heq => (ne_of_lt hlt) (congrArg pieces heq)
  · simp only [List.mem_map]
    rintro a ⟨⟨path, content⟩, hpath, rfl⟩
    exact (lists_iff.mpr (List.mem_map_of_mem hpath)).named.1
  · simp only [List.mem_map]
    rintro a ⟨⟨path, content⟩, hpath, rfl⟩ b ⟨⟨other, content'⟩, hother, rfl⟩ hbelow
    have hne := (lists_iff.mpr (List.mem_map_of_mem hpath)).named.1
    have hpath := (mem_listed.mp hpath).1
    have hother := (mem_listed.mp hother).1
    rw [sortedNodes, List.mem_insertionSort] at hpath hother
    exact not_below tree hne hpath hother hbelow

/-! ## 2. The condition -/

/-- In the tree itself, not behind a link. -/
def Inside (tree : Tree) (path : Path) : Prop :=
  ∀ above, above <+: path → above ≠ path → above ≠ [] → tree above = some .directory

/-- A file of the tree that the manifest does not name. -/
structure Unnamed (files : List Item) (tree : Tree) (path : Path) : Prop where
  isFile : ∃ content, tree path = some (.file content)
  inside : Inside tree path
  notNamed : ∀ item ∈ files, item.target ≠ path

/-- The files that the restore writes: those that the tree does not hold, and those whose name is
the temporary's of one that it writes. -/
inductive Needed (files : List Item) (start : Tree) : Item → Prop
  | differs {item : Item} : item ∈ files → ¬Matches start item → Needed files start item
  | displaced {item other : Item} : item ∈ files → Needed files start other →
      item.target = temporaryOf other.target → Needed files start item

/-- No file that is written has its temporary under the name of a file of somebody else, or of
one of the manifest that comes before it. -/
def Clear (files : List Item) (start : Tree) : Prop :=
  ∀ item, Needed files start item → ¬Unnamed files start (temporaryOf item.target) ∧
    ∀ other, [other, item].Sublist files → other.target ≠ temporaryOf item.target

/-- What the files are to be like at the end. -/
structure Exact (files : List Item) (start tree : Tree) : Prop where
  restored : ∀ item ∈ files, Matches tree item
  unharmed : ∀ path, Unnamed files start path → tree path = start path

/-! ## 3. While the condition holds -/

/-- What no attempt changes. -/
structure Kept (files : List Item) (start tree : Tree) : Prop where
  unharmed : ∀ path, Unnamed files start path → tree path = start path ∧ Inside tree path
  settled : ∀ item ∈ files, ¬Needed files start item → tree item.target = start item.target

variable {files : List Item} {start tree tree' : Tree} {item : Item}

theorem matches_congr (h : tree' item.target = tree item.target) :
    Matches tree' item ↔ Matches tree item := by
  simp only [Matches, Tree.shows, h]

theorem Gone.not_matches (h : Gone (tree item.target)) : ¬Matches tree item := by
  rintro ⟨content, hshows, -⟩
  rcases h with hnone | hdir
  · simp [Tree.shows, hnone] at hshows
  · simp [Tree.shows, hdir, Node.shown] at hshows

theorem Kept.refl (files : List Item) (start : Tree) : Kept files start start :=
  ⟨fun _ h => ⟨rfl, h.inside⟩, fun _ _ _ => rfl⟩

theorem Kept.needed (h : Kept files start tree) (hmem : item ∈ files) (hnot : ¬Matches tree item) :
    Needed files start item := by
  by_contra hneeded
  have hstart : Matches start item := by
    by_contra hdiffers
    exact hneeded (.differs hmem hdiffers)
  exact hnot ((matches_congr (h.settled item hmem hneeded)).mpr hstart)

omit [Sha256] in
/-- A file inside the tree is not below one that is replaced. -/
theorem Inside.not_below {path target : Path} (h : Inside tree path) (hne : target ≠ [])
    (hother : path ≠ target) (hbelow : target <+: path) : tree target = some .directory :=
  h target hbelow hother.symm hne

/-- The restore of one file, ended or not, where its temporary is nobody else's. -/
theorem Kept.touched (listing : Listing files) (clear : Clear files start)
    (h : Kept files start tree) (hmem : item ∈ files) (hnot : ¬Matches tree item)
    (touched : Touched item.target tree tree') : Kept files start tree' := by
  have hneeded := h.needed hmem hnot
  have hne := listing.nonempty item hmem
  constructor
  · intro path hunnamed
    obtain ⟨hsame, hinside⟩ := h.unharmed path hunnamed
    have hpath : path ≠ item.target := (hunnamed.notNamed item hmem).symm
    have htemp : path ≠ temporaryOf item.target := fun heq =>
      (clear item hneeded).1 (heq ▸ hunnamed)
    have hspared : ¬(item.target <+: path ∧ tree item.target ≠ some .directory) := fun hbelow =>
      hbelow.2 (hinside.not_below hne hpath hbelow.1)
    constructor
    · rcases touched.others path hpath htemp with hkept | ⟨-, hnone | hbelow⟩
      · exact hkept.trans hsame
      · obtain ⟨content, hfile⟩ := hunnamed.isFile
        rw [hnone, hfile] at hsame
        cases hsame
      · exact absurd hbelow hspared
    · intro above habove hother hnil
      rcases touched.directories above (hinside above habove hother hnil) with hkept | hbelow
      · exact hkept
      · exact absurd ⟨hbelow.1.trans habove, hbelow.2⟩ hspared
  · intro other hother hunneeded
    have hsame := h.settled other hother hunneeded
    have htarget : other.target ≠ item.target := by
      intro heq
      have heq := List.inj_on_of_nodup_map listing.distinct hother hmem heq
      exact hunneeded (heq ▸ hneeded)
    have htemp : other.target ≠ temporaryOf item.target := fun heq =>
      hunneeded (.displaced hother hneeded heq)
    rcases touched.others other.target htarget htemp with hkept | ⟨-, hnone | hbelow⟩
    · exact hkept.trans hsame
    · have hmatches : Matches tree other := by
        by_contra hdiffers
        exact hunneeded (h.needed hother hdiffers)
      exact absurd hmatches (Gone.not_matches (.inl hnone))
    · exact absurd (listing.apart _ hmem _ hother hbelow.1).symm htarget

theorem Kept.done (listing : Listing files) (clear : Clear files start)
    (h : Kept files start tree) (hmem : item ∈ files) (hdone : Done item tree tree') :
    Kept files start tree' := by
  rcases hdone with ⟨-, rfl⟩ | ⟨hnot, htouched, -, -⟩
  · exact h
  · exact h.touched listing clear hmem hnot htouched

/-- A file that was restored stays as it is. -/
theorem matches_done (listing : Listing files) (clear : Clear files start)
    (h : Kept files start tree) {other : Item} (hbefore : [other, item].Sublist files)
    (hmatches : Matches tree other) (hdone : Done item tree tree') : Matches tree' other := by
  have hmem : item ∈ files := hbefore.subset (by simp)
  have hother : other ∈ files := hbefore.subset (by simp)
  rcases hdone with ⟨-, rfl⟩ | ⟨hnot, htouched, -, -⟩
  · exact hmatches
  · have htemp := (clear item (h.needed hmem hnot)).2 other hbefore
    have htarget : other.target ≠ item.target := by
      have hnodup := hbefore.map Item.target |>.nodup listing.distinct
      simpa using hnodup
    rcases htouched.others other.target htarget htemp with hkept | ⟨-, hnone | hbelow⟩
    · exact (matches_congr hkept).mpr hmatches
    · exact absurd hmatches (Gone.not_matches (.inl hnone))
    · exact absurd (listing.apart _ hmem _ hother hbelow.1).symm htarget

/-- The loop, of which some files are done. -/
theorem Kept.settles (listing : Listing files) (clear : Clear files start) :
    ∀ (done : List Item) {rest : List Item} {tree : Tree}, (done ++ rest).Sublist files → Kept files start tree →
      (∀ item ∈ done, Matches tree item) → Settles rest tree tree' →
        Kept files start tree' ∧ ∀ item ∈ done ++ rest, Matches tree' item
  | done, [], tree, _, h, hmatches, hsettles => by
    obtain rfl : tree' = tree := hsettles
    exact ⟨h, by simpa using hmatches⟩
  | done, item :: rest, tree, hsub, h, hmatches, ⟨between, hdone, hrest⟩ => by
    have hmem : item ∈ files := hsub.subset (by simp)
    have hnext : ∀ other ∈ done ++ [item], Matches between other := by
      intro other hother
      rcases List.mem_append.mp hother with hbefore | hself
      · refine matches_done listing clear h ?_ (hmatches other hbefore) hdone
        refine List.Sublist.trans ?_ hsub
        exact (List.singleton_sublist.mpr hbefore).append
          (List.singleton_sublist.mpr List.mem_cons_self)
      · obtain rfl := List.mem_singleton.mp hself
        rcases hdone with ⟨hsame, rfl⟩ | ⟨-, -, -, hwritten⟩
        · exact hsame
        · exact hwritten
    have hsub' : (done ++ [item] ++ rest).Sublist files := by simpa using hsub
    have := Kept.settles listing clear (done ++ [item]) hsub' (h.done listing clear hmem hdone) hnext hrest
    simpa using this

/-- Wherever an attempt ends. -/
theorem Kept.stops (listing : Listing files) (clear : Clear files start)
    (h : Kept files start tree) (hstops : Stops files tree tree') : Kept files start tree' := by
  obtain ⟨done, rest, between, rfl, hsettles, hend⟩ := hstops
  have hbetween := (h.settles listing clear [] (List.sublist_append_left ..) (by simp) hsettles).1
  rcases hend with rfl | ⟨item, hitem, hnot, htouched⟩
  · exact hbetween
  · exact hbetween.touched listing clear (List.mem_append_right _ hitem) hnot htouched

/-! ## 4. Where it does not -/

theorem settles_append {first second : List Item} : Settles (first ++ second) tree tree' ↔
    ∃ between, Settles first tree between ∧ Settles second between tree' := by
  induction first generalizing tree with
  | nil =>
    constructor
    · intro h
      exact ⟨tree, rfl, h⟩
    · rintro ⟨between, rfl, h⟩
      exact h
  | cons item first ih =>
    constructor
    · rintro ⟨next, hdone, hrest⟩
      obtain ⟨between, hfirst, hsecond⟩ := ih.mp hrest
      exact ⟨between, ⟨next, hdone, hfirst⟩, hsecond⟩
    · rintro ⟨between, ⟨next, hdone, hfirst⟩, hsecond⟩
      exact ⟨next, hdone, ih.mpr ⟨between, hfirst, hsecond⟩⟩

/-- What is gone comes back only if it is itself restored. -/
theorem gone_settles (path : Path) {rest : List Item} (hnot : path ∉ rest.map Item.target)
    (hgone : Gone (tree path)) (h : Settles rest tree tree') : Gone (tree' path) := by
  induction rest generalizing tree with
  | nil =>
    obtain rfl : tree' = tree := h
    exact hgone
  | cons item rest ih =>
    obtain ⟨between, hdone, hrest⟩ := h
    rw [List.map_cons, List.mem_cons, not_or] at hnot
    refine ih hnot.2 ?_ hrest
    rcases hdone with ⟨-, rfl⟩ | ⟨-, htouched, htemp, -⟩
    · exact hgone
    by_cases heq : path = temporaryOf item.target
    · exact .inl (heq ▸ htemp)
    rcases htouched.others path hnot.1 heq with hkept | ⟨hnow, -⟩
    · rwa [hkept]
    · exact hnow

/-- So does a file that is not as recorded. -/
theorem differs_settles {rest : List Item} (hnot : item.target ∉ rest.map Item.target)
    (hdiffers : ¬Matches tree item) (h : Settles rest tree tree') : ¬Matches tree' item := by
  induction rest generalizing tree with
  | nil =>
    obtain rfl : tree' = tree := h
    exact hdiffers
  | cons first rest ih =>
    obtain ⟨between, hdone, hrest⟩ := h
    rw [List.map_cons, List.mem_cons, not_or] at hnot
    refine ih hnot.2 ?_ hrest
    rcases hdone with ⟨-, rfl⟩ | ⟨-, htouched, htemp, -⟩
    · exact hdiffers
    by_cases heq : item.target = temporaryOf first.target
    · exact Gone.not_matches (.inl (heq ▸ htemp))
    rcases htouched.others item.target hnot.1 heq with hkept | ⟨hnow, -⟩
    · rwa [matches_congr hkept]
    · exact hnow.not_matches

theorem Done.temporary_gone (h : Done item tree tree') (hnot : ¬Matches tree item) :
    tree' (temporaryOf item.target) = none := by
  rcases h with ⟨hmatches, -⟩ | ⟨-, -, htemp, -⟩
  · exact absurd hmatches hnot
  · exact htemp

omit [Sha256] in
theorem Listing.notMem (listing : Listing files) {first rest : List Item}
    (hfiles : files = first ++ item :: rest) :
    item.target ∉ first.map Item.target ∧ item.target ∉ rest.map Item.target := by
  have hnodup := listing.distinct
  rw [hfiles, List.map_append, List.map_cons, List.nodup_middle] at hnodup
  simpa [not_or] using (List.nodup_cons.mp hnodup).1

omit [Sha256] in
/-- What comes before a file is on its left. -/
theorem mem_left {first rest : List Item} {other : Item} (hleft : item ∉ first)
    (hright : item ∉ rest) (h : [other, item].Sublist (first ++ item :: rest)) : other ∈ first := by
  obtain ⟨left, right, hsplit, hfirst, hrest⟩ := List.sublist_append_iff.mp h
  match left with
  | [] =>
    obtain rfl : [other, item] = right := hsplit
    cases hrest with
    | cons _ hsub => exact absurd (hsub.subset (by simp)) hright
    | cons_cons _ hsub => exact absurd (hsub.subset (by simp)) hright
  | [_] =>
    obtain rfl : other = _ := (List.cons.inj hsplit).1
    exact hfirst.subset List.mem_cons_self
  | _ :: _ :: _ =>
    obtain ⟨-, htail⟩ := List.cons.inj hsplit
    obtain ⟨rfl, -⟩ := List.cons.inj htail
    exact absurd (hfirst.subset (by simp)) hleft

/-- In an attempt that completes at once and is exact, each file that is to be written is
written when its turn comes. -/
theorem written_of_needed (listing : Listing files) (exact : Exact files start tree')
    (hneeded : Needed files start item) :
    ∀ (first rest : List Item) {before after : Tree}, files = first ++ item :: rest →
      Settles first start before → Done item before after → Settles rest after tree' →
        ¬Matches before item := by
  induction hneeded with
  | differs _ hdiffers =>
    intro first rest before after hfiles hfirst _ _
    exact differs_settles (listing.notMem hfiles).1 hdiffers hfirst
  | @displaced item other hitem hother htarget ih =>
    intro first rest before after hfiles hfirst hdone hrest
    have hmem : other ∈ files := by
      cases hother <;> assumption
    have hne : other ≠ item := by
      rintro rfl
      exact temporaryOf_ne _ htarget.symm
    rw [hfiles, List.mem_append, List.mem_cons] at hmem
    rcases hmem with hbefore | heq | hafter
    · -- The other one's temporary is deleted before this file's turn.
      obtain ⟨a, b, rfl⟩ := List.append_of_mem hbefore
      obtain ⟨m, hm, m', hm', hb⟩ := settles_append.mp hfirst
      have hchain : Settles (b ++ item :: rest) m' tree' :=
        settles_append.mpr ⟨before, hb, after, hdone, hrest⟩
      have hwritten := ih a (b ++ item :: rest) (by simp [hfiles]) hm hm' hchain
      have hgone : Gone (m' item.target) := .inl (htarget ▸ hm'.temporary_gone hwritten)
      refine (gone_settles _ ?_ hgone hb).not_matches
      have := (listing.notMem hfiles).1
      simp only [List.map_append, List.map_cons, List.mem_append, List.mem_cons, not_or] at this
      exact this.2.2
    · exact absurd heq hne
    · -- After its turn, and then the file itself is gone at the end.
      obtain ⟨a, b, rfl⟩ := List.append_of_mem hafter
      obtain ⟨m, hm, m', hm', hb⟩ := settles_append.mp hrest
      have hchain : Settles (first ++ item :: a) start m :=
        settles_append.mpr ⟨before, hfirst, after, hdone, hm⟩
      have hwritten := ih (first ++ item :: a) b (by simp [hfiles]) hchain hm' hb
      have hgone : Gone (m' item.target) := .inl (htarget ▸ hm'.temporary_gone hwritten)
      have hlast := gone_settles item.target ?_ hgone hb
      · exact absurd (exact.restored item hitem) hlast.not_matches
      · have := (listing.notMem hfiles).2
        simp only [List.map_append, List.map_cons, List.mem_append, List.mem_cons, not_or] at this
        exact this.2.2

theorem clear_of_exact (listing : Listing files) (hsettles : Settles files start tree')
    (exact : Exact files start tree') : Clear files start := by
  intro item hneeded
  have hmem : item ∈ files := by
    cases hneeded <;> assumption
  obtain ⟨first, rest, hfiles⟩ := List.append_of_mem hmem
  obtain ⟨before, hfirst, after, hdone, hrest⟩ := settles_append.mp (hfiles ▸ hsettles)
  have hwritten := written_of_needed listing exact hneeded first rest hfiles hfirst hdone hrest
  have hgone : Gone (after (temporaryOf item.target)) := .inl (hdone.temporary_gone hwritten)
  constructor
  · intro hunnamed
    have hlast := gone_settles (temporaryOf item.target) ?_ hgone hrest
    · obtain ⟨content, hfile⟩ := hunnamed.isFile
      rw [exact.unharmed _ hunnamed, hfile] at hlast
      rcases hlast with hnone | hdir
      · cases hnone
      · cases hdir
    · intro hmem
      obtain ⟨other, hother, heq⟩ := List.mem_map.mp hmem
      exact hunnamed.notNamed other (by simp [hfiles, hother]) heq
  · intro other hbefore heq
    have hother : other ∈ files := hbefore.subset (by simp)
    have hleft : other ∈ first := by
      have hnot := listing.notMem hfiles
      refine mem_left (fun h => hnot.1 (List.mem_map_of_mem h))
        (fun h => hnot.2 (List.mem_map_of_mem h)) (hfiles ▸ hbefore)
    obtain ⟨a, b, rfl⟩ := List.append_of_mem hleft
    have hsplit : files = a ++ other :: (b ++ item :: rest) := by simp [hfiles]
    have hnot := (listing.notMem hsplit).2
    have hlast := gone_settles (temporaryOf item.target) ?_ hgone hrest
    · exact Gone.not_matches (heq ▸ hlast) (exact.restored other hother)
    · rw [← heq]
      simp only [List.map_append, List.map_cons, List.mem_append, List.mem_cons, not_or] at hnot
      exact hnot.2.2

/-! ## 5. Whole restores -/

/-- An attempt that fails or dies: what `age` prints in it, which of its operations fail, and
after how many calls it is cut off. -/
structure Attempt where
  age : String → List Bytes × Bool
  faults : List Bool
  calls : Nat

/-- What an attempt leaves. -/
def afterAttempt (objects : Objects) (files : List Item) (tree : Tree) (attempt : Attempt) : Tree :=
  ((restoreFiles objects files).exec (fileSystem attempt.age) attempt.calls
    ⟨tree, attempt.faults⟩).state.tree

/-- An attempt comes to its end. -/
def Completes (objects : Objects) (files : List Item) (age : String → List Bytes × Bool)
    (tree tree' : Tree) : Prop :=
  ∃ faults disk, (restoreFiles objects files).run (fileSystem age) ⟨tree, faults⟩ = (.ok (), disk) ∧
    disk.tree = tree'

theorem Completes.settles {objects : Objects} {age : String → List Bytes × Bool}
    (h : Completes objects files age tree tree') : Settles files tree tree' := by
  obtain ⟨faults, disk, hrun, rfl⟩ := h
  exact Prog.run_ok_of_wp (wp_restoreFiles files) hrun

/-- Any number of attempts. -/
theorem kept_attempts (listing : Listing files) (clear : Clear files start) (objects : Objects)
    (attempts : List Attempt) :
    Kept files start (attempts.foldl (afterAttempt objects files) start) := by
  induction attempts using List.reverseRecOn with
  | nil => exact .refl files start
  | append_singleton attempts attempt ih =>
    rw [List.foldl_append, List.foldl_cons, List.foldl_nil]
    set tree := attempts.foldl (afterAttempt objects files) start
    have hend := Prog.exec_of_wp (m := fileSystem attempt.age) (restoreFiles objects files)
      attempt.calls ⟨tree, attempt.faults⟩ (wp_restoreFiles files)
    rw [afterAttempt]
    unfold Post.Holds at hend
    split at hend
    · exact (ih.settles listing clear [] (List.Sublist.refl _) (by simp) hend).1
    · exact ih.stops listing clear hend
    · exact ih.stops listing clear hend

/-- Where the files that are written have temporaries of their own, every restore that
completes, after whatever attempts, is exact and harms nothing; and if an attempt that completes
at once is exact and harms nothing, they have. -/
theorem restore_exact {source : SourceRoot} {excluded : List String} {manifest : List Json}
    (h : inventory source excluded = .ok manifest) (objects : Objects) (start : Tree) :
    (Clear (manifest.map itemOf) start → ∀ (attempts : List Attempt) age tree,
      Completes objects (manifest.map itemOf) age
        (attempts.foldl (afterAttempt objects (manifest.map itemOf)) start) tree →
      Exact (manifest.map itemOf) start tree) ∧
    ∀ age tree, Completes objects (manifest.map itemOf) age start tree →
      Exact (manifest.map itemOf) start tree → Clear (manifest.map itemOf) start := by
  have listing := listing_of_inventory h
  constructor
  · intro clear attempts age tree hcompletes
    have hkept := kept_attempts listing clear objects attempts
    have hend := hkept.settles listing clear [] (List.Sublist.refl _) (by simp)
      hcompletes.settles
    exact ⟨hend.2, fun path hunnamed => (hend.1.unharmed path hunnamed).1⟩
  · intro age tree hcompletes exact
    exact clear_of_exact listing hcompletes.settles exact

end

/-! ## 6. A file under a temporary's name -/

/-- Two files, the one named like the other's temporary. -/
def collidingSource : SourceRoot where
  path := "/app"
  tree := some {
    nodes := [([".a.restore"], .file ⟨#[1]⟩), (["a"], .file ⟨#[2]⟩)]
    named := by simp [isName]
    distinct := by decide
    closed := by simp }

/-- What is recorded of them. -/
def collidingManifest : List Json := [
  @fileItem zeroSha256 [".a.restore"] ⟨#[1]⟩, @fileItem zeroSha256 ["a"] ⟨#[2]⟩]

def collidingObjects : Objects := [("file:.a.restore", "first"), ("file:a", "second")]

def printsOneByte : String → List Bytes × Bool := fun _ => ([⟨#[1]⟩], true)

def noFiles : Tree := fun _ => none

/-- The restore of the second deletes the first, and the restore completes. -/
theorem restored_file_deleted : ¬∀ [Sha256] (source : SourceRoot) (excluded : List String)
    (manifest : List Json), inventory source excluded = .ok manifest →
      ∀ objects start (attempts : List Attempt) age tree,
        Completes objects (manifest.map itemOf) age
          (attempts.foldl (afterAttempt objects (manifest.map itemOf)) start) tree →
        Exact (manifest.map itemOf) start tree := by
  intro claim
  have hrun : (@restoreFiles zeroSha256 collidingObjects (collidingManifest.map itemOf)).run
      (fileSystem printsOneByte) ⟨noFiles, []⟩ = (.ok (), _) := rfl
  have exact := @claim zeroSha256 collidingSource [] collidingManifest rfl collidingObjects noFiles []
    printsOneByte _ ⟨[], _, hrun, rfl⟩
  have first := @Exact.restored zeroSha256 _ _ _ exact _ (List.mem_map_of_mem List.mem_cons_self)
  obtain ⟨content, hshows, -⟩ := first
  cases hshows

/-- One file, and a tree without any. -/
def plainSource : SourceRoot where
  path := "/app"
  tree := some {
    nodes := [(["a"], .file ⟨#[1]⟩)]
    named := by simp [isName]
    distinct := by decide
    closed := by simp }

def plainManifest : List Json := [@fileItem zeroSha256 ["a"] ⟨#[1]⟩]

theorem clear_plain : @Clear zeroSha256 (plainManifest.map itemOf) noFiles := by
  intro item hneeded
  refine ⟨fun hunnamed => ?_, fun other hbefore => ?_⟩
  · obtain ⟨content, hfile⟩ := hunnamed.isFile
    cases hfile
  · exact absurd hbefore.length_le (by simp [plainManifest])

theorem restore_exact_plain : ∃ tree, @Exact zeroSha256 (plainManifest.map itemOf) noFiles tree ∧
    tree ["a"] = some (.file ⟨#[1]⟩) := by
  have hrun : (@restoreFiles zeroSha256 [("file:a", "key")] (plainManifest.map itemOf)).run
      (fileSystem printsOneByte) ⟨noFiles, []⟩ = (.ok (), _) := rfl
  have exact := (@restore_exact zeroSha256 plainSource [] plainManifest rfl [("file:a", "key")]
    noFiles).1 clear_plain [] printsOneByte _ ⟨[], _, hrun, rfl⟩
  exact ⟨_, exact, rfl⟩

end ProductPdfQr.Restore.Files
