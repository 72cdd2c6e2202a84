/-
# Whether the space suffices

`_require_target_capacity` compares one sum with the free space: what all the missing files take,
against what is free and what the stale temporaries give back.  `restore_files` spends and gains
back file by file.  A temporary is only given back when its own file is restored, which may be
too late for a file before it.

What `age` prints for a file is the file of the manifest; the preflight has decrypted it.  Nobody
else writes to the volume, and apart from space nothing fails that the tree does not make fail.
-/
import ProductPdfQr.Effect.Budget
import ProductPdfQr.Restore.Exact
import Mathlib.Algebra.Order.Group.Nat
import Mathlib.Data.Finset.Card

namespace ProductPdfQr.Restore.Capacity

open Effect Effect.Move Files

/-! ## 1. The volume -/

/-- What stands at a path.  The check refuses every other kind wherever the restore goes. -/
inductive Node where
  | directory
  /-- What `_size_and_sha256` tells of it, and `st_blocks * 512`. -/
  | file (identity : Int × String) (allocated : Nat)
  | other
  deriving DecidableEq, Repr

abbrev Tree := Path → Option Node

/-- Bytes and inodes. -/
abbrev Space := Nat × Nat

structure Volume where
  tree : Tree
  free : Space

def Volume.set (volume : Volume) (path : Path) (node : Option Node) : Volume :=
  { volume with tree := Function.update volume.tree path node }

/-- How the file system allocates: the bytes that a file of a size occupies, and a directory. -/
structure Allocation where
  file : Nat → Nat
  directory : Nat

/-- `expected`. -/
def expected (item : Item) : Int × String := (item.size, item.sha256)

/-- `target.is_file() and _size_and_sha256(target) == expected`. -/
def holds (tree : Tree) (item : Item) : Bool :=
  match tree item.target with
  | some (.file identity _) => identity = expected item
  | _ => false

/-! ## 2. The check -/

abbrev Refusal := String

/-- What the loop of `_target_restore_requirements` holds. -/
structure Requirements where
  replacementBytes : Int := 0
  replacementInodes : Nat := 0
  missingDirectories : Finset Path := ∅

/-- The loop over the parts of a parent. -/
def requireParents (tree : Tree) : List Path → Finset Path → Except Refusal (Finset Path)
  | [], missing => .ok missing
  | parent :: further, missing =>
    match tree parent with
    | none => requireParents tree further (insert parent missing)
    | some .directory => requireParents tree further missing
    | some _ => .error "restore target parent is unsafe"

/-- Something is there that is not a regular file. -/
def obstructed (tree : Tree) (path : Path) : Bool :=
  match tree path with
  | none => false
  | some (.file _ _) => false
  | some _ => true

/-- The body of the loop. -/
def requireItem (tree : Tree) (sums : Requirements) (item : Item) :
    Except Refusal Requirements := do
  let missingDirectories ←
    requireParents tree (parents item.target).reverse sums.missingDirectories
  if obstructed tree item.target then .error "restore target is unsafe"
  else if holds tree item then return { sums with missingDirectories }
  else return ⟨sums.replacementBytes + item.size, sums.replacementInodes + 1, missingDirectories⟩

/-- `_target_restore_requirements`. -/
def targetRestoreRequirements (tree : Tree) (files : List Item) : Except Refusal (Int × Nat) := do
  let sums ← files.foldlM (requireItem tree) {}
  return (sums.replacementBytes, sums.replacementInodes + sums.missingDirectories.card)

/-- The body of the loop of `_reclaimable_restore_temporary_capacity`. -/
def reclaimItem (tree : Tree) (sums : Space) (item : Item) : Except Refusal Space :=
  if obstructed tree (temporaryOf item.target) then .error "restore temporary is unsafe"
  else if holds tree item then .ok sums
  else match tree (temporaryOf item.target) with
  | some (.file _ allocated) => .ok (sums.1 + allocated, sums.2 + 1)
  | _ => .ok sums

/-- `_reclaimable_restore_temporary_capacity`. -/
def reclaimableRestoreTemporaryCapacity (tree : Tree) (files : List Item) :
    Except Refusal Space :=
  files.foldlM (reclaimItem tree) (0, 0)

/-- `_require_target_capacity`. -/
def requireTargetCapacity (volume : Volume) (files : List Item) (safetyPercent : Int) :
    Except Refusal Unit := do
  let (requiredBytes, requiredInodes) ← targetRestoreRequirements volume.tree files
  let (reclaimableBytes, reclaimableInodes) ←
    reclaimableRestoreTemporaryCapacity volume.tree files
  let requiredWithMargin := requiredBytes * (100 + safetyPercent) / 100
  if (volume.free.1 : Int) + reclaimableBytes < requiredWithMargin then
    .error "insufficient target file space"
  else if volume.free.2 + reclaimableInodes < requiredInodes then
    .error "insufficient target inodes"
  else .ok ()

/-! ## 3. The restore -/

inductive Stop where
  /-- An exception for something in the way. -/
  | failed
  /-- More is needed than is free. -/
  | short
  deriving DecidableEq, Repr

def Volume.spend (volume : Volume) (amount : Space) : Except Stop Volume :=
  if amount ≤ volume.free then .ok { volume with free := volume.free - amount }
  else .error .short

def Volume.gain (volume : Volume) (amount : Space) : Volume :=
  { volume with free := volume.free + amount }

section Restoring

variable (allocation : Allocation)

/-- One directory of `mkdir(parents=True, exist_ok=True)`. -/
def makeDirectory (volume : Volume) (parent : Path) : Except Stop Volume :=
  match volume.tree parent with
  | none => do
    let volume ← volume.spend (allocation.directory, 1)
    return volume.set parent (some .directory)
  | some .directory => .ok volume
  | some _ => .error .failed

/-- What becomes of a path that is to hold something else: a file that is there gives its space
back. -/
def release (volume : Volume) (path : Path) (node : Option Node) : Except Stop Volume :=
  match volume.tree path with
  | none => .ok (volume.set path node)
  | some (.file _ allocated) => .ok ((volume.gain (allocated, 1)).set path node)
  | some _ => .error .failed

/-- What the manifest has for a path. -/
def restored (item : Item) : Node :=
  .file (expected item) (allocation.file item.size.toNat)

/-- `decrypt_to_path`: the directories, the stale temporary, a new one, and its renaming. -/
def decryptToPath (item : Item) (volume : Volume) : Except Stop Volume := do
  let volume ← (parents item.target).reverse.foldlM (makeDirectory allocation) volume
  let volume ← release volume (temporaryOf item.target) none
  -- `temporary.open("xb")`, and all that is written to it
  let volume ← volume.spend (0, 1)
  let volume ← volume.spend (allocation.file item.size.toNat, 0)
  release volume item.target (some (restored allocation item))

/-- The body of the loop. -/
def restoreFile (volume : Volume) (item : Item) : Except Stop Volume :=
  if holds volume.tree item then .ok volume else decryptToPath allocation item volume

/-- `restore_files`. -/
def restoreFiles (volume : Volume) (files : List Item) : Except Stop Volume :=
  files.foldlM (restoreFile allocation) volume

end Restoring

/-! ## 4. The moves of a restore -/

/-- A directory can be there, or is. -/
def clear (tree : Tree) (path : Path) : Bool :=
  tree path = none || tree path = some .directory

/-- Nothing stands in the way of an item. -/
def passable (tree : Tree) (item : Item) : Bool :=
  (parents item.target).all (clear tree) && !obstructed tree (temporaryOf item.target) &&
    !obstructed tree item.target

/-- The tree with directories made. -/
def withDirectories (tree : Tree) (directories : List Path) : Tree := fun path =>
  if path ∈ directories then some .directory else tree path

/-- What a file at a path gives back. -/
def returned (tree : Tree) (path : Path) : List (Move Space) :=
  match tree path with
  | some (.file _ allocated) => [.gain (allocated, 1)]
  | _ => []

section Moves

variable (allocation : Allocation)

/-- The tree once an item is written. -/
def written (tree : Tree) (item : Item) : Tree :=
  Function.update
    (Function.update (withDirectories tree (parents item.target).reverse)
      (temporaryOf item.target) none)
    item.target (some (restored allocation item))

/-- The moves of directories that are made, those of them that are not there. -/
def directoryMoves (tree : Tree) (directories : List Path) : List (Move Space) :=
  (directories.filter fun path => tree path = none).map fun _ => .spend (allocation.directory, 1)

/-- An inode for the temporary, and the bytes that are written to it. -/
def fileMoves (item : Item) : List (Move Space) :=
  [.spend (0, 1), .spend (allocation.file item.size.toNat, 0)]

/-- The moves of an item that is written. -/
def itemMoves (tree : Tree) (item : Item) : List (Move Space) :=
  directoryMoves allocation tree (parents item.target).reverse ++
    (returned tree (temporaryOf item.target) ++
      (fileMoves allocation item ++ returned tree item.target))

/-- The moves of an item that something is in the way of, as far as it comes. -/
def blockedMoves (tree : Tree) (item : Item) : List (Move Space) :=
  if (parents item.target).all (clear tree) then
    directoryMoves allocation tree (parents item.target).reverse ++
      if obstructed tree (temporaryOf item.target) then []
      else returned tree (temporaryOf item.target) ++ fileMoves allocation item
  else
    directoryMoves allocation tree ((parents item.target).reverse.takeWhile (clear tree))

/-- The moves of a manifest: of each file that is not held when its turn comes, up to the first
that something is in the way of. -/
def plan (tree : Tree) : List Item → List (Move Space)
  | [] => []
  | item :: files =>
    if holds tree item then plan tree files
    else if passable tree item then
      itemMoves allocation tree item ++ plan (written allocation tree item) files
    else blockedMoves allocation tree item

variable (start : Tree)

/-- The directories that an item is the first to need. -/
def newDirectories (before : List Item) (item : Item) : List Path :=
  (parents item.target).reverse.filter fun parent =>
    start parent = none && !before.any fun earlier => (parents earlier.target).contains parent

/-- The same moves, read off the start: each file that it does not hold spends for the directories
that are not made for one before it, has its own stale temporary back, spends for itself, and has
what it replaces back. -/
def moves (before : List Item) : List Item → List (Move Space)
  | [] => []
  | item :: files =>
    if holds start item then moves before files
    else
      ((newDirectories start before item).map fun _ => .spend (allocation.directory, 1)) ++
        (returned start (temporaryOf item.target) ++
          (fileMoves allocation item ++ returned start item.target)) ++
        moves (before ++ [item]) files

end Moves

/-- No file is named twice, above another, or as another's temporary, or above it. -/
structure Regular (files : List Item) : Prop where
  listing : Listing files
  unnamed : ∀ a ∈ files, ∀ b ∈ files, ¬ temporaryOf a.target <+: b.target

/-! ## 5. What the check makes sure of -/

theorem passable_iff {tree : Tree} {item : Item} :
    passable tree item = true ↔ (∀ parent ∈ parents item.target, clear tree parent = true) ∧
      obstructed tree (temporaryOf item.target) = false ∧ obstructed tree item.target = false := by
  simp only [passable, Bool.and_eq_true, List.all_eq_true, Bool.not_eq_true', and_assoc]

theorem parents_of_require {tree : Tree} {ancestors : List Path} {missing found : Finset Path}
    (h : requireParents tree ancestors missing = .ok found) :
    ∀ parent ∈ ancestors, clear tree parent = true := by
  induction ancestors generalizing missing with
  | nil => simp
  | cons parent ancestors ih =>
    rw [requireParents] at h
    rw [List.forall_mem_cons]
    split at h
    · exact ⟨by simp [clear, *], ih h⟩
    · exact ⟨by simp [clear, *], ih h⟩
    · cases h

/-- A loop that ends well has gone well for each item. -/
theorem forall_of_foldlM {ε σ α : Type} {step : σ → α → Except ε σ} {P : α → Prop}
    (hstep : ∀ s a s', step s a = .ok s' → P a) :
    ∀ (items : List α) {s s' : σ}, items.foldlM step s = .ok s' → ∀ a ∈ items, P a := by
  intro items
  induction items with
  | nil => simp
  | cons a items ih =>
    intro s s' h
    rw [List.foldlM_cons] at h
    cases hfirst : step s a with
    | error e =>
      rw [hfirst] at h
      cases h
    | ok s₁ =>
      rw [hfirst] at h
      exact List.forall_mem_cons.mpr ⟨hstep s a s₁ hfirst, ih h⟩

theorem requireItem_ok {tree : Tree} (sums : Requirements) (item : Item) (sums' : Requirements)
    (h : requireItem tree sums item = .ok sums') :
    (∀ parent ∈ parents item.target, clear tree parent = true) ∧
      obstructed tree item.target = false := by
  unfold requireItem at h
  cases hparents :
      requireParents tree (parents item.target).reverse sums.missingDirectories with
  | error e =>
    rw [hparents] at h
    cases h
  | ok missing =>
    rw [hparents] at h
    refine ⟨fun parent hparent =>
      parents_of_require hparents parent (List.mem_reverse.mpr hparent), ?_⟩
    by_contra hbad
    simp only [bind, Except.bind, Bool.not_eq_false] at h hbad
    rw [if_pos hbad] at h
    cases h

theorem reclaimItem_ok {tree : Tree} (sums : Space) (item : Item) (sums' : Space)
    (h : reclaimItem tree sums item = .ok sums') :
    obstructed tree (temporaryOf item.target) = false := by
  unfold reclaimItem at h
  by_contra hbad
  rw [if_pos (by simpa using hbad)] at h
  cases h

theorem passable_of_require {volume : Volume} {files : List Item} {safetyPercent : Int}
    (h : requireTargetCapacity volume files safetyPercent = .ok ()) :
    ∀ item ∈ files, passable volume.tree item = true := by
  unfold requireTargetCapacity at h
  cases hrequired : targetRestoreRequirements volume.tree files with
  | error e =>
    rw [hrequired] at h
    cases h
  | ok required =>
    rw [hrequired] at h
    simp only [bind, Except.bind] at h
    cases hreclaimed : reclaimableRestoreTemporaryCapacity volume.tree files with
    | error e =>
      rw [hreclaimed] at h
      cases h
    | ok reclaimed =>
      have htemporaries := forall_of_foldlM
        (P := fun item => obstructed volume.tree (temporaryOf item.target) = false)
        reclaimItem_ok files hreclaimed
      unfold targetRestoreRequirements at hrequired
      cases hsums : files.foldlM (requireItem volume.tree) {} with
      | error e =>
        rw [hsums] at hrequired
        cases hrequired
      | ok sums =>
        have htargets := forall_of_foldlM
          (P := fun item => (∀ parent ∈ parents item.target, clear volume.tree parent = true) ∧
            obstructed volume.tree item.target = false)
          requireItem_ok files hsums
        exact fun item hitem => passable_iff.mpr
          ⟨(htargets item hitem).1, htemporaries item hitem, (htargets item hitem).2⟩

/-! ## 6. One item -/

theorem length_of_mem_parents {path parent : Path} (h : parent ∈ parents path) :
    parent.length < path.length := by
  simp only [parents, List.mem_reverse, List.mem_filter, List.mem_inits, decide_eq_true_eq] at h
  have hne : path ≠ [] := by
    rintro rfl
    exact h.2 (List.prefix_nil.mp h.1)
  calc parent.length ≤ path.dropLast.length := h.1.length_le
    _ = path.length - 1 := List.length_dropLast
    _ < path.length := Nat.sub_lt (List.length_pos_iff.mpr hne) Nat.one_pos

theorem prefix_of_mem_parents {path parent : Path} (h : parent ∈ parents path) :
    parent <+: path := by
  simp only [parents, List.mem_reverse, List.mem_filter, List.mem_inits] at h
  exact h.1.trans (List.dropLast_prefix path)

theorem takeWhile_congr {α : Type} {p q : α → Bool} {l : List α} (h : ∀ a ∈ l, p a = q a) :
    l.takeWhile p = l.takeWhile q := by
  induction l with
  | nil => rfl
  | cons a l ih =>
    obtain ⟨ha, hl⟩ := List.forall_mem_cons.mp h
    rw [List.takeWhile_cons, List.takeWhile_cons, ha, ih hl]

theorem nodup_inits {α : Type} (l : List α) : l.inits.Nodup := by
  induction l with
  | nil => simp
  | cons a l ih =>
    rw [List.inits_cons, List.nodup_cons]
    exact ⟨by simp, ih.map List.cons_injective⟩

theorem nodup_parents (path : Path) : (parents path).Nodup :=
  List.nodup_reverse.mpr ((nodup_inits path.dropLast).filter _)

theorem temporaryOf_injective {path other : Path} (hne : path ≠ []) (hne' : other ≠ [])
    (h : temporaryOf path = temporaryOf other) : path = other := by
  obtain ⟨hfolder, hname⟩ := List.append_inj' h rfl
  have htexts := congrArg String.toList (List.singleton_inj.mp hname)
  simp only [String.toList_append, List.append_cancel_right_eq, List.append_cancel_left_eq]
    at htexts
  rw [← List.dropLast_append_getLast hne, ← List.dropLast_append_getLast hne', hfolder]
  rw [List.getLastD_eq_getLast?, List.getLastD_eq_getLast?, List.getLast?_eq_some_getLast hne,
    List.getLast?_eq_some_getLast hne'] at htexts
  have hlast : path.getLast hne = other.getLast hne' := String.toList_inj.mp htexts
  rw [hlast]

/-- How a run ends that asks for nothing but space. -/
def settle (tree : Tree) : Option Space → Except Stop Volume
  | some free => .ok ⟨tree, free⟩
  | none => .error .short

/-- How a run ends that comes to an obstacle. -/
def halt : Option Space → Except Stop Volume
  | some _ => .error .failed
  | none => .error .short

theorem settle_bind {tree tree' : Tree} {first rest : List (Move Space)} {free : Space}
    {k : Volume → Except Stop Volume}
    (h : ∀ free, k ⟨tree, free⟩ = settle tree' (run rest free)) :
    (settle tree (run first free) >>= k) = settle tree' (run (first ++ rest) free) := by
  rw [run_append]
  cases run first free with
  | none => rfl
  | some left => exact h left

theorem settle_halt {tree : Tree} {first rest : List (Move Space)} {free : Space}
    {k : Volume → Except Stop Volume} (h : ∀ free, k ⟨tree, free⟩ = halt (run rest free)) :
    (settle tree (run first free) >>= k) = halt (run (first ++ rest) free) := by
  rw [run_append]
  cases run first free with
  | none => rfl
  | some left => exact h left

theorem spend_eq {tree : Tree} {free amount : Space} :
    Volume.spend ⟨tree, free⟩ amount = settle tree (run [.spend amount] free) := by
  simp only [Volume.spend, run]
  split <;> rfl

theorem release_eq {tree : Tree} {free : Space} {path : Path} {node : Option Node}
    (h : obstructed tree path = false) :
    release ⟨tree, free⟩ path node =
      settle (Function.update tree path node) (run (returned tree path) free) := by
  cases hnode : tree path with
  | none => simp only [release, returned, hnode, run, settle, Volume.set]
  | some found =>
    cases found with
    | file identity allocated =>
      simp only [release, returned, hnode, run, settle, Volume.set, Volume.gain]
    | directory => simp [obstructed, hnode] at h
    | other => simp [obstructed, hnode] at h

theorem release_obstructed {tree : Tree} {free : Space} {path : Path} {node : Option Node}
    (h : obstructed tree path = true) : release ⟨tree, free⟩ path node = .error .failed := by
  cases hnode : tree path with
  | none => simp [obstructed, hnode] at h
  | some found =>
    cases found with
    | file identity allocated => simp [obstructed, hnode] at h
    | directory => simp only [release, hnode]
    | other => simp only [release, hnode]

section Items

variable {allocation : Allocation} {tree : Tree} {item : Item} {free : Space}

/-- Making the first of some directories leaves the others as they are. -/
theorem update_directory (tree : Tree) {parent : Path} {directories : List Path}
    (hnot : parent ∉ directories) :
    (∀ other ∈ directories, Function.update tree parent (some .directory) other = tree other) ∧
      withDirectories (Function.update tree parent (some .directory)) directories =
        withDirectories tree (parent :: directories) := by
  constructor
  · intro other hother
    exact Function.update_of_ne (fun h : other = parent => hnot (h ▸ hother)) _ _
  · funext path
    by_cases hpath : path = parent
    · simp [withDirectories, hpath]
    · simp [withDirectories, hpath]

theorem directoryMoves_congr {tree' : Tree} {directories : List Path}
    (h : ∀ path ∈ directories, tree' path = tree path) :
    directoryMoves allocation tree' directories = directoryMoves allocation tree directories := by
  rw [directoryMoves, directoryMoves, List.filter_congr fun path hpath => by rw [h path hpath]]

theorem makeDirectory_none {parent : Path} (h : tree parent = none) :
    makeDirectory allocation ⟨tree, free⟩ parent =
      settle (Function.update tree parent (some .directory))
        (run [.spend (allocation.directory, 1)] free) := by
  simp only [makeDirectory, h, spend_eq, run]
  split <;> rfl

theorem makeDirectory_directory {parent : Path} (h : tree parent = some .directory) :
    makeDirectory allocation ⟨tree, free⟩ parent = .ok ⟨tree, free⟩ := by
  simp only [makeDirectory, h]

theorem makeDirectory_blocked {parent : Path} (h : clear tree parent ≠ true) :
    makeDirectory allocation ⟨tree, free⟩ parent = .error .failed := by
  cases hnode : tree parent with
  | none => simp [clear, hnode] at h
  | some node =>
    cases node with
    | directory => simp [clear, hnode] at h
    | file identity allocated => simp only [makeDirectory, hnode]
    | other => simp only [makeDirectory, hnode]

theorem makeDirectories_eq {directories : List Path} : ∀ {tree : Tree} {free : Space},
    directories.Nodup → (∀ parent ∈ directories, clear tree parent = true) →
    directories.foldlM (makeDirectory allocation) ⟨tree, free⟩ =
      settle (withDirectories tree directories)
        (run (directoryMoves allocation tree directories) free) := by
  induction directories with
  | nil =>
    intro tree free _ _
    simp only [List.foldlM_nil, directoryMoves, List.filter_nil, List.map_nil, run, settle]
    rfl
  | cons parent directories ih =>
    intro tree free hdistinct hclear
    obtain ⟨hnot, hdistinct⟩ := List.nodup_cons.mp hdistinct
    obtain ⟨hparent, hclear⟩ := List.forall_mem_cons.mp hclear
    obtain ⟨hothers, htree⟩ := update_directory tree hnot
    rw [List.foldlM_cons]
    rcases Bool.or_eq_true_iff.mp hparent with hparent | hparent
    · have hnone := of_decide_eq_true hparent
      have hmoves : directoryMoves allocation tree (parent :: directories) =
          [.spend (allocation.directory, 1)] ++ directoryMoves allocation
            (Function.update tree parent (some .directory)) directories := by
        rw [directoryMoves_congr hothers]
        simp [directoryMoves, hnone]
      rw [makeDirectory_none hnone, hmoves, ← htree]
      refine settle_bind fun free => ?_
      exact ih hdistinct fun other hother => by
        rw [clear, hothers other hother]
        exact hclear other hother
    · have hdirectory := of_decide_eq_true hparent
      have hsame : Function.update tree parent (some .directory) = tree := by
        rw [← hdirectory, Function.update_eq_self]
      rw [hsame] at htree
      have hmoves : directoryMoves allocation tree (parent :: directories) =
          directoryMoves allocation tree directories := by
        simp [directoryMoves, hdirectory]
      rw [makeDirectory_directory hdirectory, hmoves, ← htree]
      exact ih hdistinct hclear

/-- Where something is in the way of a directory, those before it are made. -/
theorem makeDirectories_blocked {directories : List Path} : ∀ {tree : Tree} {free : Space},
    directories.Nodup → (∃ parent ∈ directories, clear tree parent = false) →
    directories.foldlM (makeDirectory allocation) ⟨tree, free⟩ =
      halt (run (directoryMoves allocation tree (directories.takeWhile (clear tree))) free) := by
  induction directories with
  | nil => simp
  | cons parent directories ih =>
    intro tree free hdistinct hblocked
    obtain ⟨hnot, hdistinct⟩ := List.nodup_cons.mp hdistinct
    obtain ⟨hothers, -⟩ := update_directory tree hnot
    rw [List.foldlM_cons]
    by_cases hparent : clear tree parent = true
    · obtain ⟨blocked, hmem, hclear⟩ := hblocked
      have hrest : ∃ other ∈ directories, clear tree other = false := by
        refine ⟨blocked, ?_, hclear⟩
        rcases List.mem_cons.mp hmem with rfl | hmem
        · rw [hparent] at hclear
          cases hclear
        · exact hmem
      rw [List.takeWhile_cons, if_pos hparent]
      rcases Bool.or_eq_true_iff.mp hparent with hparent | hparent
      · have hnone := of_decide_eq_true hparent
        have hclear' : ∀ other ∈ directories,
            clear (Function.update tree parent (some .directory)) other = clear tree other :=
          fun other hother => by rw [clear, clear, hothers other hother]
        have htake : directories.takeWhile
            (clear (Function.update tree parent (some .directory))) =
              directories.takeWhile (clear tree) := takeWhile_congr hclear'
        have hmoves : directoryMoves allocation tree
              (parent :: directories.takeWhile (clear tree)) =
            [.spend (allocation.directory, 1)] ++ directoryMoves allocation
              (Function.update tree parent (some .directory))
                (directories.takeWhile (clear tree)) := by
          rw [directoryMoves_congr fun path hpath =>
            hothers path ((List.takeWhile_prefix _).subset hpath)]
          simp [directoryMoves, hnone]
        rw [makeDirectory_none hnone, hmoves, ← htake]
        refine settle_halt fun free => ?_
        obtain ⟨other, hother, hbad⟩ := hrest
        exact ih hdistinct ⟨other, hother, (hclear' other hother).trans hbad⟩
      · have hdirectory := of_decide_eq_true hparent
        have hmoves : directoryMoves allocation tree
              (parent :: directories.takeWhile (clear tree)) =
            directoryMoves allocation tree (directories.takeWhile (clear tree)) := by
          simp [directoryMoves, hdirectory]
        rw [makeDirectory_directory hdirectory, hmoves]
        exact ih hdistinct hrest
    · rw [List.takeWhile_cons, if_neg hparent, makeDirectory_blocked hparent]
      rfl

/-- The target of an item and its temporary are none of the directories above it. -/
theorem withDirectories_target :
    withDirectories tree (parents item.target).reverse item.target = tree item.target := by
  rw [withDirectories, if_neg fun hmem =>
    lt_irrefl _ (length_of_mem_parents (List.mem_reverse.mp hmem))]

theorem withDirectories_temporary :
    withDirectories tree (parents item.target).reverse (temporaryOf item.target) =
      tree (temporaryOf item.target) := by
  rw [withDirectories, if_neg]
  intro hmem
  have hlength := length_of_mem_parents (List.mem_reverse.mp hmem)
  have hne : item.target ≠ [] := fun h => by
    rw [h] at hlength
    exact absurd hlength (Nat.not_lt_zero _)
  rw [length_temporaryOf hne] at hlength
  exact lt_irrefl _ hlength

theorem obstructed_congr {tree' : Tree} {path : Path} (h : tree' path = tree path) :
    obstructed tree' path = obstructed tree path := by
  rw [obstructed, obstructed, h]

theorem returned_congr {tree' : Tree} {path : Path} (h : tree' path = tree path) :
    returned tree' path = returned tree path := by
  rw [returned, returned, h]

/-- Once the stale temporary is gone, the target is as it was. -/
theorem cleared_target :
    Function.update (withDirectories tree (parents item.target).reverse)
      (temporaryOf item.target) none item.target = tree item.target := by
  rw [Function.update_of_ne (temporaryOf_ne item.target).symm, withDirectories_target]

/-- An item that nothing is in the way of makes its moves. -/
theorem decryptToPath_eq (h : passable tree item = true) :
    decryptToPath allocation item ⟨tree, free⟩ =
      settle (written allocation tree item) (run (itemMoves allocation tree item) free) := by
  obtain ⟨hparents, htemporary, htarget⟩ := passable_iff.mp h
  unfold decryptToPath
  rw [makeDirectories_eq (List.nodup_reverse.mpr (nodup_parents item.target)) fun parent hparent =>
    hparents parent (List.mem_reverse.mp hparent)]
  refine settle_bind fun free => ?_
  rw [release_eq ((obstructed_congr withDirectories_temporary).trans htemporary),
    returned_congr withDirectories_temporary]
  refine settle_bind fun free => ?_
  rw [spend_eq]
  change _ = settle _ (run ([.spend (0, 1)] ++ ([.spend (allocation.file item.size.toNat, 0)] ++
    returned tree item.target)) free)
  refine settle_bind fun free => ?_
  rw [spend_eq]
  refine settle_bind fun free => ?_
  rw [release_eq ((obstructed_congr cleared_target).trans htarget), returned_congr cleared_target]
  rfl

/-- Any other comes as far as what is in its way. -/
theorem decryptToPath_blocked (h : passable tree item ≠ true) :
    decryptToPath allocation item ⟨tree, free⟩ =
      halt (run (blockedMoves allocation tree item) free) := by
  have hdistinct := List.nodup_reverse.mpr (nodup_parents item.target)
  unfold decryptToPath blockedMoves
  by_cases hparents : (parents item.target).all (clear tree) = true
  · rw [if_pos hparents, makeDirectories_eq hdistinct fun parent hparent =>
      List.all_eq_true.mp hparents parent (List.mem_reverse.mp hparent)]
    refine settle_halt fun free => ?_
    by_cases htemporary : obstructed tree (temporaryOf item.target) = true
    · rw [if_pos htemporary,
        release_obstructed ((obstructed_congr withDirectories_temporary).trans htemporary)]
      rfl
    · have htarget : obstructed tree item.target = true := by
        by_contra htarget
        exact h (passable_iff.mpr ⟨List.all_eq_true.mp hparents, by simpa using htemporary,
          by simpa using htarget⟩)
      rw [if_neg htemporary, release_eq ((obstructed_congr withDirectories_temporary).trans
        (by simpa using htemporary)), returned_congr withDirectories_temporary]
      refine settle_halt fun free => ?_
      rw [spend_eq]
      change _ = halt (run ([.spend (0, 1)] ++
        [.spend (allocation.file item.size.toNat, 0)]) free)
      refine settle_halt fun free => ?_
      rw [spend_eq, ← List.append_nil [Move.spend (allocation.file item.size.toNat, 0)]]
      refine settle_halt fun free => ?_
      rw [release_obstructed ((obstructed_congr cleared_target).trans htarget)]
      rfl
  · rw [if_neg hparents, makeDirectories_blocked hdistinct]
    · cases run (directoryMoves allocation tree
          ((parents item.target).reverse.takeWhile (clear tree))) free with
      | none => rfl
      | some left => rfl
    · simpa [List.all_eq_true] using hparents

end Items

/-! ## 7. The whole manifest -/

/-- A restore falls short just when its plan does. -/
theorem restoreFiles_short {allocation : Allocation} {files : List Item} :
    ∀ {tree : Tree} {free : Space}, restoreFiles allocation ⟨tree, free⟩ files = .error .short ↔
      run (plan allocation tree files) free = none := by
  induction files with
  | nil => exact iff_of_false (fun h => (nomatch h)) (fun h => (nomatch h))
  | cons item files ih =>
    intro tree free
    rw [restoreFiles, List.foldlM_cons, restoreFile, plan]
    by_cases hheld : holds tree item = true
    · rw [if_pos hheld, if_pos hheld]
      exact ih
    · rw [if_neg hheld, if_neg hheld]
      by_cases hpassable : passable tree item = true
      · rw [if_pos hpassable, decryptToPath_eq hpassable, run_append]
        cases run (itemMoves allocation tree item) free with
        | none => exact iff_of_true rfl rfl
        | some left => exact ih
      · rw [if_neg hpassable, decryptToPath_blocked hpassable]
        cases run (blockedMoves allocation tree item) free with
        | none => exact iff_of_true rfl rfl
        | some left => exact iff_of_false (fun h => (nomatch h)) (fun h => (nomatch h))

/-! ## 8. Regular manifests -/

/-- What the items that were written have left of the start. -/
structure Left (start : Tree) (before : List Item) (tree : Tree) : Prop where
  made : ∀ item ∈ before, ∀ parent ∈ parents item.target, tree parent = some .directory
  kept : ∀ path, (∀ item ∈ before, path ≠ item.target ∧ path ≠ temporaryOf item.target ∧
    path ∉ parents item.target) → tree path = start path

section Runs

variable {allocation : Allocation} {start tree : Tree} {before files : List Item} {item : Item}

theorem Regular.sublist {first : List Item} (h : Regular files) (hsub : first.Sublist files) :
    Regular first where
  listing := {
    distinct := h.listing.distinct.sublist (hsub.map _)
    nonempty := fun item hitem => h.listing.nonempty item (hsub.mem hitem)
    apart := fun a ha b hb => h.listing.apart a (hsub.mem ha) b (hsub.mem hb) }
  unnamed := fun a ha b hb => h.unnamed a (hsub.mem ha) b (hsub.mem hb)

/-- An item keeps clear of one before it: so do its target, what is above it, and its
temporary. -/
structure Apart (earlier item : Item) : Prop where
  above : ∀ path, path <+: item.target → path ≠ earlier.target ∧ path ≠ temporaryOf earlier.target
  target : item.target ∉ parents earlier.target
  temporary : temporaryOf item.target ≠ earlier.target ∧
    temporaryOf item.target ≠ temporaryOf earlier.target ∧
      temporaryOf item.target ∉ parents earlier.target

theorem Regular.apart (regular : Regular (before ++ item :: files)) {earlier : Item}
    (hearlier : earlier ∈ before) : Apart earlier item := by
  have hmem : earlier ∈ before ++ item :: files := List.mem_append_left _ hearlier
  have hitem : item ∈ before ++ item :: files := by simp
  have hdistinct : earlier.target ≠ item.target := by
    have h := regular.listing.distinct
    rw [List.map_append, List.nodup_append] at h
    exact h.2.2 _ (List.mem_map_of_mem hearlier) _ (by simp)
  refine ⟨fun path hpath => ⟨?_, ?_⟩, ?_, ⟨?_, ?_, ?_⟩⟩
  · rintro rfl
    exact hdistinct (regular.listing.apart _ hmem _ hitem hpath)
  · rintro rfl
    exact regular.unnamed _ hmem _ hitem hpath
  · intro hparent
    exact hdistinct (regular.listing.apart _ hitem _ hmem (prefix_of_mem_parents hparent)).symm
  · intro h
    exact regular.unnamed _ hitem _ hmem (h ▸ List.prefix_refl _)
  · intro h
    exact hdistinct (temporaryOf_injective (regular.listing.nonempty _ hitem)
      (regular.listing.nonempty _ hmem) h).symm
  · intro h
    exact regular.unnamed _ hitem _ hmem (prefix_of_mem_parents h)

theorem Left.target (left : Left start before tree)
    (regular : Regular (before ++ item :: files)) : tree item.target = start item.target :=
  left.kept _ fun _ hearlier =>
    have apart := regular.apart hearlier
    ⟨(apart.above _ (List.prefix_refl _)).1, (apart.above _ (List.prefix_refl _)).2, apart.target⟩

theorem Left.temporary (left : Left start before tree)
    (regular : Regular (before ++ item :: files)) :
    tree (temporaryOf item.target) = start (temporaryOf item.target) :=
  left.kept _ fun _ hearlier => (regular.apart hearlier).temporary

/-- A parent is as it was, unless one before it has made it. -/
theorem Left.parent (left : Left start before tree) (regular : Regular (before ++ item :: files))
    {parent : Path} (hparent : parent ∈ parents item.target)
    (hnot : ∀ earlier ∈ before, parent ∉ parents earlier.target) : tree parent = start parent :=
  left.kept _ fun earlier hearlier =>
    have apart := (regular.apart hearlier).above _ (prefix_of_mem_parents hparent)
    ⟨apart.1, apart.2, hnot earlier hearlier⟩

/-- The moves of an item are those that the start shows. -/
theorem Left.itemMoves (left : Left start before tree)
    (regular : Regular (before ++ item :: files)) :
    itemMoves allocation tree item =
      ((newDirectories start before item).map fun _ => .spend (allocation.directory, 1)) ++
        (returned start (temporaryOf item.target) ++
          (fileMoves allocation item ++ returned start item.target)) := by
  have hnew : ((parents item.target).reverse.filter fun path => tree path = none) =
      newDirectories start before item := by
    refine List.filter_congr fun parent hparent => ?_
    by_cases hmade : ∃ earlier ∈ before, parent ∈ parents earlier.target
    · obtain ⟨earlier, hearlier, hmem⟩ := hmade
      have htree := left.made earlier hearlier parent hmem
      simpa [htree] using fun _ => ⟨earlier, hearlier, hmem⟩
    · have hnot : ∀ earlier ∈ before, parent ∉ parents earlier.target :=
        fun earlier hearlier hmem => hmade ⟨earlier, hearlier, hmem⟩
      have htree := left.parent regular (List.mem_reverse.mp hparent) hnot
      simpa [htree] using fun _ => hnot
  rw [Capacity.itemMoves, directoryMoves, hnew, returned_congr (left.temporary regular),
    returned_congr (left.target regular)]

theorem Left.passable (left : Left start before tree)
    (regular : Regular (before ++ item :: files)) (h : passable start item = true) :
    passable tree item = true := by
  obtain ⟨hparents, htemporary, htarget⟩ := passable_iff.mp h
  refine passable_iff.mpr ⟨fun parent hparent => ?_, ?_, ?_⟩
  · by_cases hmade : ∃ earlier ∈ before, parent ∈ parents earlier.target
    · obtain ⟨earlier, hearlier, hmem⟩ := hmade
      simp [clear, left.made earlier hearlier parent hmem]
    · rw [clear, left.parent regular hparent
        fun earlier hearlier hmem => hmade ⟨earlier, hearlier, hmem⟩]
      exact hparents parent hparent
  · exact (obstructed_congr (left.temporary regular)).trans htemporary
  · exact (obstructed_congr (left.target regular)).trans htarget

/-- What an item leaves where it does not write. -/
theorem written_other {path : Path} (htarget : path ≠ item.target)
    (htemporary : path ≠ temporaryOf item.target) :
    written allocation tree item path =
      if path ∈ parents item.target then some .directory else tree path := by
  rw [written, Function.update_of_ne htarget, Function.update_of_ne htemporary, withDirectories]
  simp only [List.mem_reverse]

theorem Left.written (left : Left start before tree)
    (regular : Regular (before ++ item :: files)) :
    Left start (before ++ [item]) (written allocation tree item) where
  made := by
    intro made hmade parent hparent
    have hitem : item.target ≠ [] := regular.listing.nonempty _ (by simp)
    rcases List.mem_append.mp hmade with hearlier | hlast
    · have apart := regular.apart hearlier
      rw [written_other (fun h : parent = item.target => apart.target (h ▸ hparent))
        (fun h : parent = temporaryOf item.target => apart.temporary.2.2 (h ▸ hparent))]
      split
      · rfl
      · exact left.made made hearlier parent hparent
    · obtain rfl := List.mem_singleton.mp hlast
      have hlength := length_of_mem_parents hparent
      have htemporary := length_temporaryOf hitem
      rw [written_other (fun h => by rw [h] at hlength; omega)
        (fun h => by rw [h] at hlength; omega), if_pos hparent]
  kept := by
    intro path hpath
    obtain ⟨htarget, htemporary, hparents⟩ := hpath item (by simp)
    rw [written_other htarget htemporary, if_neg hparents]
    exact left.kept path fun earlier hearlier => hpath earlier (List.mem_append_left _ hearlier)

/-- The plan of a regular manifest that nothing is in the way of is read off the start. -/
theorem plan_eq_moves {files : List Item} : ∀ {before : List Item} {tree : Tree},
    Regular (before ++ files) → (∀ item ∈ files, passable start item = true) →
    Left start before tree → plan allocation tree files = moves allocation start before files := by
  induction files with
  | nil => exact fun _ _ _ => rfl
  | cons item files ih =>
    intro before tree regular hpassable left
    obtain ⟨hitem, hpassable⟩ := List.forall_mem_cons.mp hpassable
    have hholds : holds tree item = holds start item := by
      rw [holds, holds, left.target regular]
    rw [plan, moves, hholds]
    by_cases hheld : holds start item = true
    · have hrest : Regular (before ++ files) :=
        regular.sublist ((List.sublist_cons_self item files).append_left before)
      rw [if_pos hheld, if_pos hheld, ih hrest hpassable left]
    · have hsplit : Regular ((before ++ [item]) ++ files) := by
        rwa [List.append_assoc, List.singleton_append]
      rw [if_neg hheld, if_neg hheld, if_pos (left.passable regular hitem),
        left.itemMoves regular, ih hsplit hpassable (left.written regular)]

end Runs

/-- Blocks of 4096 bytes. -/
def blocks : Allocation where
  file := fun size => (size + 4095) / 4096 * 4096
  directory := 4096

def firstFile : Item := ⟨"a", ["a"], 4096, "first"⟩

def secondFile : Item := ⟨"b", ["b"], 4096, "second"⟩

/-- Both files are missing, no byte is free, and the second has a stale temporary of four
blocks. -/
def staleVolume : Volume where
  tree := fun path =>
    if path = [".b.restore"] then some (.file (16384, "stale") 16384) else none
  free := (0, 10)

end ProductPdfQr.Restore.Capacity
