/-
# The files of a restore

`restore_files` writes each file of the manifest that the tree does not hold yet: into a
temporary beside it, which replaces it at the end.  A temporary that is already there is taken
for one of an earlier attempt and deleted.  It may be a file of somebody else, and it may be a
file of the manifest, one that was restored a moment ago.

`wp_restoreFile` and `wp_restoreFiles` say all that an attempt can do to the tree, wherever it
ends.  What follows for a whole restore is in `Restore.Exact`.

What a symbolic link leads to lies outside the tree and stays what it is.  Where the stages of
the checkpoint let `restore_files` begin is in `Restore.Commands`.
-/
import ProductPdfQr.BackupRecovery.Inventory
import ProductPdfQr.Effect.Prog

namespace ProductPdfQr.Restore.Files

open Effect

/-! ## 1. The tree -/

/-- What is found at the end of a path. -/
inductive Shown where
  | directory
  | file (content : Bytes)
  | special
  deriving DecidableEq

/-- What stands at a path: the thing itself, or a link and what it leads to. -/
inductive Node where
  | plain (shown : Shown)
  | link (shown : Option Shown)
  deriving DecidableEq

def Node.shown : Node → Option Shown
  | plain shown => some shown
  | link shown => shown

abbrev Node.file (content : Bytes) : Node := .plain (.file content)

abbrev Node.directory : Node := .plain .directory

abbrev Path := List String

abbrev Tree := Path → Option Node

namespace Tree

/-- What `open` and `stat` see there. -/
def shows (tree : Tree) (path : Path) : Option Shown := (tree path).bind Node.shown

def set (tree : Tree) (path : Path) (node : Option Node) : Tree := Function.update tree path node

/-- `source.replace(target)`.  What was reached through the target is reached no more. -/
def replace (tree : Tree) (source target : Path) (node : Node) : Tree := fun path =>
  if path = target then some node
  else if path = source || target.isPrefixOf path then none
  else tree path

end Tree

/-- `path.with_name(f".{path.name}.restore")`. -/
def temporaryOf (path : Path) : Path :=
  path.dropLast ++ ["." ++ path.getLastD "" ++ ".restore"]

/-! ## 2. The operations -/

inductive FileCall where
  | isFile (path : Path)
  | read (path : Path)
  | pathExists (path : Path)
  | mkdir (path : Path)
  | setRestoreAcl (path : Path)
  | isSymlink (path : Path)
  | unlink (path : Path)
  | unlinkMissingOk (path : Path)
  | decrypt (key : String)
  | openNew (path : Path)
  | write (path : Path) (chunk : Bytes)
  | fsync (path : Path)
  | chmod (path : Path)
  | replace (source target : Path)

abbrev FileCall.Answer : FileCall → Type
  | isFile _ => Bool
  | read _ => Bytes
  | pathExists _ => Bool
  | isSymlink _ => Bool
  -- What `age` prints, in pieces, and whether it ends well.
  | decrypt _ => List Bytes × Bool
  | _ => Unit

inductive Failure where
  | safetyError (message : String)
  | keyError (name : String)
  | osError
  deriving DecidableEq, Repr

abbrev FileProg := Prog FileCall (fun c => Except Failure c.Answer) Failure

/-- One operation, raising what it raises. -/
def act (c : FileCall) : FileProg c.Answer := Prog.perform c >>= Prog.liftExcept

/-- The tree, and which of the next operations are to fail. -/
structure Disk where
  tree : Tree
  faults : List Bool

def Disk.set (disk : Disk) (path : Path) (node : Option Node) : Disk :=
  { disk with tree := disk.tree.set path node }

section Serving

variable (age : String → List Bytes × Bool)

/-- What an operation does that is not made to fail. -/
def FileCall.serve (disk : Disk) : (c : FileCall) → Except Failure c.Answer × Disk
  | .isFile path =>
    (.ok (match disk.tree.shows path with | some (.file _) => true | _ => false), disk)
  | .read path =>
    match disk.tree.shows path with
    | some (.file content) => (.ok content, disk)
    | _ => (.error .osError, disk)
  | .pathExists path => (.ok (disk.tree.shows path).isSome, disk)
  | .mkdir path =>
    match disk.tree path with
    | none => (.ok (), disk.set path (some .directory))
    | some node => (if node.shown = some .directory then .ok () else .error .osError, disk)
  | .setRestoreAcl _ => (.ok (), disk)
  | .isSymlink path => (.ok (match disk.tree path with | some (.link _) => true | _ => false), disk)
  | .unlink path =>
    match disk.tree path with
    | none => (.error .osError, disk)
    | some node =>
      if node = .directory then (.error .osError, disk) else (.ok (), disk.set path none)
  | .unlinkMissingOk path =>
    match disk.tree path with
    | none => (.ok (), disk)
    | some node =>
      if node = .directory then (.error .osError, disk) else (.ok (), disk.set path none)
  | .decrypt key => (.ok (age key), disk)
  | .openNew path =>
    match disk.tree path with
    | none => (.ok (), disk.set path (some (.file .empty)))
    | some _ => (.error .osError, disk)
  | .write path chunk =>
    match disk.tree path with
    | some (.plain (.file content)) => (.ok (), disk.set path (some (.file (content ++ chunk))))
    | _ => (.error .osError, disk)
  | .fsync _ => (.ok (), disk)
  | .chmod _ => (.ok (), disk)
  | .replace source target =>
    match disk.tree source with
    | none => (.error .osError, disk)
    | some node =>
      -- A directory is never moved here.
      if node = .directory || disk.tree target = some .directory then (.error .osError, disk)
      else (.ok (), { disk with tree := disk.tree.replace source target node })

def fileSystem : Machine FileCall (fun c => Except Failure c.Answer) Disk where
  step c disk :=
    if disk.faults.headD false then (.error .osError, { disk with faults := disk.faults.tail })
    else c.serve age { disk with faults := disk.faults.tail }

end Serving

/-! ## 3. The restore -/

/-- The parents of a path, the nearest first. -/
def parents (path : Path) : List Path := (path.dropLast.inits.filter (· ≠ [])).reverse

/-- The loop over `parent.exists()`. -/
def missingParents : List Path → FileProg (List Path)
  | [] => pure []
  | parent :: further => do
    if ← act (.pathExists parent) then pure []
    else do
      let missing ← missingParents further
      pure (parent :: missing)

/-- `temporary.is_symlink() or (temporary.exists() and not temporary.is_file())`. -/
def unsafeTemporary (temporary : Path) : FileProg Bool := do
  if ← act (.isSymlink temporary) then pure true
  else do
    if ← act (.pathExists temporary) then do
      let regular ← act (.isFile temporary)
      pure (!regular)
    else pure false

/-- `if c: p`. -/
def only (c : Bool) (p : FileProg Unit) : FileProg Unit := if c then p else pure ()

/-- What comes before the stream. -/
def prepare (target : Path) : FileProg Unit := do
  let missing ← missingParents (parents target)
  -- `mkdir(parents=True, exist_ok=True)`
  (parents target).reverse.forM fun parent => act (.mkdir parent)
  missing.reverse.forM fun parent => act (.setRestoreAcl parent)
  let bad ← unsafeTemporary (temporaryOf target)
  Prog.ensure (!bad) (.safetyError "restore temporary is unsafe")
  let stale ← act (.isFile (temporaryOf target))
  only stale (act (.unlink (temporaryOf target)))

/-- The body of the `try`. -/
def stream (temporary target : Path) (chunks : List Bytes) (authentic : Bool) : FileProg Unit := do
  act (.openNew temporary)
  chunks.forM fun chunk => act (.write temporary chunk)
  act (.fsync temporary)
  Prog.ensure authentic (.safetyError "age authentication failed")
  act (.chmod temporary)
  act (.setRestoreAcl temporary)
  act (.replace temporary target)

section
variable [Sha256]

/-- `_size_and_sha256`. -/
def sizeAndSha256 (content : Bytes) : Int × String := (content.size, hexdigest content)

/-- `decrypt_to_path`. -/
def decryptToPath (key : String) (target : Path) : FileProg (Int × String) := do
  prepare target
  let plaintext ← act (.decrypt key)
  MonadExcept.tryCatch (stream (temporaryOf target) target plaintext.1 plaintext.2) fun e => do
    act (.unlinkMissingOk (temporaryOf target))
    throw e
  act (.unlinkMissingOk (temporaryOf target))
  pure (sizeAndSha256 (plaintext.1.foldl (· ++ ·) .empty))

/-- An item of the manifest's `files`. -/
structure Item where
  name : String
  target : Path
  size : Int
  sha256 : String
  deriving DecidableEq, Repr

/-- `manifest["objects"]`: names and keys. -/
abbrev Objects := List (String × String)

def restoreItem (objects : Objects) (item : Item) : FileProg Unit := do
  match objects.reverse.lookup ("file:" ++ item.name) with
  | none => throw (.keyError ("file:" ++ item.name))
  | some key => do
    let observed ← decryptToPath key item.target
    Prog.ensure (observed = (item.size, item.sha256)) (.safetyError "restored file digest mismatch")

/-- The body of the loop. -/
def restoreFile (objects : Objects) (item : Item) : FileProg Unit := do
  if ← act (.isFile item.target) then do
    let content ← act (.read item.target)
    if sizeAndSha256 content = (item.size, item.sha256) then pure () else restoreItem objects item
  else restoreItem objects item

/-- `restore_files`, between its checks of the stage and its advance. -/
def restoreFiles (objects : Objects) (files : List Item) : FileProg Unit :=
  files.forM (restoreFile objects)

end

/-! ## 4. What one file's restore can do to the tree -/

/-- No file there, nor anything that leads to one. -/
def Gone (node : Option Node) : Prop := node = none ∨ node = some .directory

/-- What may have become of the tree while the file of one path was restored, whether or not it
came to its end. -/
structure Touched (path : Path) (tree tree' : Tree) : Prop where
  directories : ∀ other, tree other = some .directory →
    tree' other = some .directory ∨ path <+: other ∧ tree path ≠ some .directory
  others : ∀ other, other ≠ path → other ≠ temporaryOf path →
    tree' other = tree other ∨
      Gone (tree' other) ∧ (tree other = none ∨ path <+: other ∧ tree path ≠ some .directory)

/-- The calls that the restore of one file makes. -/
def Own (path : Path) : FileCall → Prop
  | .unlink other => other = temporaryOf path
  | .unlinkMissingOk other => other = temporaryOf path
  | .openNew other => other = temporaryOf path
  | .write other _ => other = temporaryOf path
  | .replace source target => source = temporaryOf path ∧ target = path
  | _ => True

theorem length_temporaryOf {path : Path} (hne : path ≠ []) :
    (temporaryOf path).length = path.length := by
  have := List.length_pos_iff.mpr hne
  simp only [temporaryOf, List.length_append, List.length_dropLast, List.length_singleton]
  omega

theorem temporaryOf_ne (path : Path) : temporaryOf path ≠ path := by
  intro heq
  have hlast := congrArg (fun p => (p.getLastD "").length) heq
  simp only [temporaryOf, List.getLastD_concat, String.length_append] at hlast
  have : (".".length : Nat) = 1 := rfl
  omega

namespace Touched

variable {path : Path} {start tree : Tree}

theorem refl (path : Path) (tree : Tree) : Touched path tree tree :=
  ⟨fun _ => .inl, fun _ _ _ => .inl rfl⟩

theorem path_plain (h : Touched path start tree) (hplain : tree path ≠ some .directory) :
    start path ≠ some .directory := by
  intro hdir
  rcases h.directories path hdir with hkept | ⟨-, hnot⟩
  · exact hplain hkept
  · exact hnot hdir

/-- A change under the temporary's name, of what is no directory. -/
theorem set_temporary (h : Touched path start tree) {node : Option Node}
    (hplain : tree (temporaryOf path) ≠ some .directory) :
    Touched path start (tree.set (temporaryOf path) node) := by
  constructor
  · intro other hdir
    rcases h.directories other hdir with hkept | hbelow
    · by_cases heq : other = temporaryOf path
      · exact absurd (heq ▸ hkept) hplain
      · exact .inl (by rw [Tree.set, Function.update_of_ne heq, hkept])
    · exact .inr hbelow
  · intro other hpath htemp
    rw [Tree.set, Function.update_of_ne htemp]
    exact h.others other hpath htemp

theorem mkdir (h : Touched path start tree) {parent : Path} (hnone : tree parent = none) :
    Touched path start (tree.set parent (some .directory)) := by
  constructor
  · intro other hdir
    by_cases heq : other = parent
    · exact .inl (by rw [heq, Tree.set, Function.update_self])
    · rw [Tree.set, Function.update_of_ne heq]
      exact h.directories other hdir
  · intro other hpath htemp
    by_cases heq : other = parent
    · subst heq
      rw [Tree.set, Function.update_self]
      rcases h.others other hpath htemp with hsame | ⟨-, hwhy⟩
      · exact .inr ⟨.inr rfl, .inl (hsame ▸ hnone)⟩
      · exact .inr ⟨.inr rfl, hwhy⟩
    · rw [Tree.set, Function.update_of_ne heq]
      exact h.others other hpath htemp

theorem replace (h : Touched path start tree) {node : Node}
    (hplain : tree path ≠ some .directory) (htemp : tree (temporaryOf path) ≠ some .directory) :
    Touched path start (tree.replace (temporaryOf path) path node) := by
  have hstart := h.path_plain hplain
  constructor
  · intro other hdir
    by_cases hbelow : path <+: other
    · exact .inr ⟨hbelow, hstart⟩
    rcases h.directories other hdir with hkept | hwhy
    · have hpath : other ≠ path := fun heq => hbelow (heq ▸ List.prefix_rfl)
      have hother : other ≠ temporaryOf path := fun heq => htemp (heq ▸ hkept)
      left
      simpa [Tree.replace, hpath, hother, hbelow] using hkept
    · exact absurd hwhy.1 hbelow
  · intro other hpath hother
    by_cases hbelow : path <+: other
    · exact .inr ⟨.inl (by simp [Tree.replace, hpath, hbelow]), .inr ⟨hbelow, hstart⟩⟩
    · have hsame : tree.replace (temporaryOf path) path node other = tree other := by
        simp [Tree.replace, hpath, hother, hbelow]
      rw [hsame]
      exact h.others other hpath hother

/-- One call of the restore of a file. -/
theorem step (h : Touched path start tree) {age : String → List Bytes × Bool} {c : FileCall}
    (own : Own path c) {faults : List Bool} :
    Touched path start ((fileSystem age).step c ⟨tree, faults⟩).2.tree := by
  simp only [fileSystem]
  split
  · exact h
  cases c with
  | isFile | pathExists | setRestoreAcl | isSymlink | decrypt | fsync | chmod => exact h
  | read other =>
    simp only [FileCall.serve]
    split <;> exact h
  | mkdir other =>
    simp only [FileCall.serve]
    split
    · rename_i hnone
      exact h.mkdir hnone
    · exact h
  | unlink other =>
    obtain rfl : other = temporaryOf path := own
    simp only [FileCall.serve]
    split
    · exact h
    · rename_i node hnode
      split
      · exact h
      · rename_i hdir
        refine h.set_temporary ?_
        rw [hnode]
        exact fun heq => hdir (Option.some.inj heq)
  | unlinkMissingOk other =>
    obtain rfl : other = temporaryOf path := own
    simp only [FileCall.serve]
    split
    · exact h
    · rename_i node hnode
      split
      · exact h
      · rename_i hdir
        refine h.set_temporary ?_
        rw [hnode]
        exact fun heq => hdir (Option.some.inj heq)
  | openNew other =>
    obtain rfl : other = temporaryOf path := own
    simp only [FileCall.serve]
    split
    · rename_i hnone
      exact h.set_temporary (by simp [hnone])
    · exact h
  | write other chunk =>
    obtain rfl : other = temporaryOf path := own
    simp only [FileCall.serve]
    split
    · rename_i hfile
      exact h.set_temporary (by rw [hfile]; simp)
    · exact h
  | replace source target =>
    obtain ⟨rfl, rfl⟩ := own
    simp only [FileCall.serve]
    split
    · exact h
    · rename_i node hnode
      split
      · exact h
      · rename_i hdirs
        simp only [Bool.or_eq_true, decide_eq_true_eq, not_or] at hdirs
        refine h.replace hdirs.2 ?_
        rw [hnode]
        exact fun heq => hdirs.1 (Option.some.inj heq)

end Touched

/-! ### The calls -/

theorem callsIn_act {P : FileCall → Prop} {c : FileCall} (h : P c) : (act c).CallsIn P :=
  Prog.callsIn_bind (Prog.callsIn_perform.mpr h) fun _ => Prog.callsIn_liftExcept _

theorem callsIn_missingParents (path : Path) : ∀ ancestors : List Path,
    (missingParents ancestors).CallsIn (Own path)
  | [] => Prog.callsIn_pure _
  | parent :: further => by
    refine Prog.callsIn_bind (callsIn_act trivial) fun there => ?_
    split
    · exact Prog.callsIn_pure _
    · exact Prog.callsIn_bind (callsIn_missingParents path further) fun _ => Prog.callsIn_pure _

theorem callsIn_prepare (target : Path) : (prepare target).CallsIn (Own target) := by
  refine Prog.callsIn_bind (callsIn_missingParents ..) fun missing => ?_
  refine Prog.callsIn_bind (Prog.callsIn_forM (fun _ => callsIn_act trivial) _) fun _ => ?_
  refine Prog.callsIn_bind (Prog.callsIn_forM (fun _ => callsIn_act trivial) _) fun _ => ?_
  refine Prog.callsIn_bind ?_ fun bad => ?_
  · refine Prog.callsIn_bind (callsIn_act trivial) fun link => ?_
    split
    · exact Prog.callsIn_pure _
    refine Prog.callsIn_bind (callsIn_act trivial) fun there => ?_
    split
    · exact Prog.callsIn_bind (callsIn_act trivial) fun _ => Prog.callsIn_pure _
    · exact Prog.callsIn_pure _
  refine Prog.callsIn_bind (Prog.callsIn_ensure _ _) fun _ => ?_
  refine Prog.callsIn_bind (callsIn_act trivial) fun stale => ?_
  cases stale with
  | false => exact Prog.callsIn_pure _
  | true => exact callsIn_act rfl

theorem callsIn_stream (target : Path) (chunks : List Bytes) (authentic : Bool) :
    (stream (temporaryOf target) target chunks authentic).CallsIn (Own target) := by
  refine Prog.callsIn_bind (callsIn_act rfl) fun _ => ?_
  refine Prog.callsIn_bind (Prog.callsIn_forM (fun chunk => ?_) _) fun _ => ?_
  · exact callsIn_act (c := .write _ chunk) rfl
  refine Prog.callsIn_bind (callsIn_act trivial) fun _ => ?_
  refine Prog.callsIn_bind (Prog.callsIn_ensure _ _) fun _ => ?_
  refine Prog.callsIn_bind (callsIn_act trivial) fun _ => ?_
  refine Prog.callsIn_bind (callsIn_act trivial) fun _ => ?_
  exact callsIn_act ⟨rfl, rfl⟩

section
variable [Sha256]

theorem callsIn_decryptToPath (key : String) (target : Path) :
    (decryptToPath key target).CallsIn (Own target) := by
  refine Prog.callsIn_bind (callsIn_prepare target) fun _ => ?_
  refine Prog.callsIn_bind (callsIn_act trivial) fun plaintext => ?_
  refine Prog.callsIn_bind ?_ fun _ => ?_
  · refine Prog.callsIn_tryCatch (callsIn_stream ..) fun e => ?_
    exact Prog.callsIn_bind (callsIn_act rfl) fun _ => Prog.callsIn_throw _
  · exact Prog.callsIn_bind (callsIn_act rfl) fun _ => Prog.callsIn_pure _

theorem callsIn_restoreItem (objects : Objects) (item : Item) :
    (restoreItem objects item).CallsIn (Own item.target) := by
  rw [restoreItem]
  split
  · exact Prog.callsIn_throw _
  · exact Prog.callsIn_bind (callsIn_decryptToPath ..) fun _ => Prog.callsIn_ensure _ _

/-- Wherever the restore of a file ends. -/
theorem touched_restoreItem (objects : Objects) (item : Item) (age : String → List Bytes × Bool)
    (disk : Disk) : (restoreItem objects item).wp (fileSystem age)
      (Post.always fun disk' : Disk => Touched item.target disk.tree disk'.tree) disk :=
  (callsIn_restoreItem objects item).keeps (fun _ own _ h => Touched.step h own) _ (.refl _ _)

end

/-! ## 5. What it leaves when it ends well -/

/-- A condition on the runs that end well. -/
def ending {α : Type} (returned : α → Disk → Prop) : Post Disk Failure α :=
  ⟨returned, fun _ _ => True, fun _ => True⟩

section
variable [Sha256]

/-- A file of the manifest is there as it was recorded. -/
def Matches (tree : Tree) (item : Item) : Prop :=
  ∃ content, tree.shows item.target = some (.file content) ∧
    sizeAndSha256 content = (item.size, item.sha256)

end

section Ends

variable {age : String → List Bytes × Bool} {α : Type} {returned : α → Disk → Prop} {disk : Disk}

theorem wp_ending_mono {first : α → Disk → Prop} {p : FileProg α}
    (h : p.wp (fileSystem age) (ending first) disk) (hle : ∀ a disk', first a disk' → returned a disk') :
    p.wp (fileSystem age) (ending returned) disk :=
  Prog.wp_le h ⟨hle, fun _ _ => id, fun _ => id⟩

theorem wp_bind_ending {β : Type} {p : FileProg β} {k : β → FileProg α}
    (h : p.wp (fileSystem age) (ending fun b disk' => (k b).wp (fileSystem age) (ending returned)
      disk') disk) : (p >>= k).wp (fileSystem age) (ending returned) disk :=
  (Prog.wp_bind ..).mpr h

theorem step_ok {c : FileCall} {a : c.Answer} {disk' : Disk}
    (h : (fileSystem age).step c disk = (.ok a, disk')) :
    c.serve age { disk with faults := disk.faults.tail } = (.ok a, disk') := by
  simp only [fileSystem] at h
  split at h
  · cases h
  · exact h

theorem wp_act_ending (c : FileCall) {returned : c.Answer → Disk → Prop}
    (h : ∀ a disk', c.serve age { disk with faults := disk.faults.tail } = (.ok a, disk') →
      returned a disk') : (act c).wp (fileSystem age) (ending returned) disk := by
  rw [act, Prog.wp_bind, Prog.wp_perform]
  refine ⟨trivial, Prog.wp_liftExcept.mpr ⟨fun a heq => ?_, fun _ _ => trivial⟩⟩
  exact h a _ (step_ok (Prod.ext heq rfl))

theorem wp_ensure_ending {c : Bool} {e : Failure} {returned : Unit → Disk → Prop}
    (h : c = true → returned () disk) :
    (Prog.ensure c e).wp (fileSystem age) (ending returned) disk :=
  Prog.wp_ensure.mpr ⟨h, fun _ => trivial⟩

theorem wp_trivial : ∀ (p : FileProg α) (disk : Disk),
    p.wp (fileSystem age) (ending fun _ _ => True) disk
  | .ret _, _ => by simp [ending]
  | .raise _, _ => by simp [ending]
  | .call _ k, _ => by
    rw [Prog.wp_call]
    exact ⟨trivial, wp_trivial (k _) _⟩

/-- The first of two parts, of which nothing is asked. -/
theorem wp_skip {β : Type} {p : FileProg β} {k : β → FileProg α}
    (h : ∀ b disk', (k b).wp (fileSystem age) (ending returned) disk') :
    (p >>= k).wp (fileSystem age) (ending returned) disk :=
  wp_bind_ending (wp_ending_mono (wp_trivial p disk) fun b disk' _ => h b disk')

/-- The pieces come together under the temporary's name. -/
theorem wp_writes {temporary : Path} {chunks : List Bytes} {content : Bytes}
    (h : disk.tree temporary = some (.file content)) :
    (chunks.forM fun chunk => act (.write temporary chunk)).wp (fileSystem age)
      (ending fun _ disk' => disk'.tree temporary = some (.file (chunks.foldl (· ++ ·) content)))
      disk := by
  refine Prog.wp_forM (I := fun rest disk' => ∃ written,
    disk'.tree temporary = some (.file written) ∧
      rest.foldl (· ++ ·) written = chunks.foldl (· ++ ·) content) ?_ ?_ chunks disk ⟨_, h, rfl⟩
  · rintro chunk rest disk' ⟨written, hwritten, hrest⟩
    refine wp_act_ending (.write temporary chunk) fun a after hserve => ?_
    simp only [FileCall.serve, hwritten] at hserve
    refine ⟨written ++ chunk, ?_, hrest⟩
    rw [← (Prod.mk.inj hserve).2]
    exact Function.update_self ..
  · rintro disk' ⟨written, hwritten, hrest⟩
    rw [List.foldl_nil] at hrest
    exact hrest ▸ hwritten

theorem wp_stream {target : Path} {chunks : List Bytes} {authentic : Bool} :
    (stream (temporaryOf target) target chunks authentic).wp (fileSystem age)
      (ending fun _ disk' => disk'.tree target = some (.file (chunks.foldl (· ++ ·) .empty)))
      disk := by
  refine wp_bind_ending (wp_act_ending (.openNew _) fun _ opened hopen => ?_)
  have hempty : opened.tree (temporaryOf target) = some (.file .empty) := by
    simp only [FileCall.serve] at hopen
    split at hopen
    · rw [← (Prod.mk.inj hopen).2]
      exact Function.update_self ..
    · cases (Prod.mk.inj hopen).1
  refine wp_bind_ending (wp_ending_mono (wp_writes hempty) fun _ written hwritten => ?_)
  refine wp_bind_ending (wp_act_ending (.fsync _) fun _ synced hsync => ?_)
  obtain rfl := (Prod.mk.inj hsync).2
  refine wp_bind_ending (wp_ensure_ending fun _ => ?_)
  refine wp_bind_ending (wp_act_ending (.chmod _) fun _ _ hchmod => ?_)
  obtain rfl := (Prod.mk.inj hchmod).2
  refine wp_bind_ending (wp_act_ending (.setRestoreAcl _) fun _ _ hacl => ?_)
  obtain rfl := (Prod.mk.inj hacl).2
  refine wp_act_ending (.replace _ _) fun _ placed hplace => ?_
  simp only [FileCall.serve, hwritten] at hplace
  split at hplace
  · cases (Prod.mk.inj hplace).1
  · rw [← (Prod.mk.inj hplace).2]
    exact if_pos rfl

variable [Sha256]

theorem wp_decryptToPath {key : String} {target : Path} :
    (decryptToPath key target).wp (fileSystem age)
      (ending fun observed disk' => disk'.tree (temporaryOf target) = none ∧
        ∃ content, disk'.tree target = some (.file content) ∧ observed = sizeAndSha256 content)
      disk := by
  refine wp_skip fun _ disk => wp_skip fun plaintext disk => ?_
  refine wp_bind_ending ?_
  refine Prog.wp_tryCatch_of wp_stream ?_ ?_ fun _ _ => trivial
  · intro _ streamed hstreamed
    refine wp_bind_ending (wp_act_ending (.unlinkMissingOk _) fun _ cleared hclear => ?_)
    rw [Prog.wp_pure]
    have hother := temporaryOf_ne target
    have hafter : cleared.tree (temporaryOf target) = none ∧
        cleared.tree target = streamed.tree target := by
      simp only [FileCall.serve] at hclear
      split at hclear
      · rename_i hnone
        obtain rfl := (Prod.mk.inj hclear).2
        exact ⟨hnone, rfl⟩
      · split at hclear
        · cases (Prod.mk.inj hclear).1
        · rw [← (Prod.mk.inj hclear).2]
          exact ⟨Function.update_self .., Function.update_of_ne hother.symm ..⟩
    exact ⟨hafter.1, _, hafter.2.trans hstreamed, rfl⟩
  · intro e _ _
    exact wp_skip fun _ _ => by rw [Prog.wp_throw]; trivial

theorem wp_restoreItem {objects : Objects} {item : Item} :
    (restoreItem objects item).wp (fileSystem age)
      (ending fun _ disk' => disk'.tree (temporaryOf item.target) = none ∧ Matches disk'.tree item)
      disk := by
  rw [restoreItem]
  split
  · rw [Prog.wp_throw]
    trivial
  · refine wp_bind_ending (wp_ending_mono wp_decryptToPath fun observed disk' h => ?_)
    obtain ⟨htemp, content, hfile, rfl⟩ := h
    refine wp_ensure_ending fun hsame => ⟨htemp, content, ?_, of_decide_eq_true hsame⟩
    simp [Tree.shows, hfile, Node.shown]

end Ends

/-! ## 6. One file, and the loop -/

section Loop

variable [Sha256]

/-- The restore of a file that was interrupted, or not even begun. -/
def Begun (item : Item) (tree tree' : Tree) : Prop :=
  tree' = tree ∨ ¬Matches tree item ∧ Touched item.target tree tree'

/-- The restore of a file that ended well: nothing was done, or all. -/
def Done (item : Item) (tree tree' : Tree) : Prop :=
  Matches tree item ∧ tree' = tree ∨
    ¬Matches tree item ∧ Touched item.target tree tree' ∧
      tree' (temporaryOf item.target) = none ∧ Matches tree' item

/-- All files, one after the other. -/
def Settles : List Item → Tree → Tree → Prop
  | [], tree, tree' => tree' = tree
  | item :: rest, tree, tree' => ∃ between, Done item tree between ∧ Settles rest between tree'

/-- Some files, and one that was begun. -/
def Stops (files : List Item) (tree tree' : Tree) : Prop :=
  ∃ done rest between, files = done ++ rest ∧ Settles done tree between ∧
    (tree' = between ∨ ∃ item ∈ rest, ¬Matches between item ∧ Touched item.target between tree')

variable {age : String → List Bytes × Bool} {objects : Objects} {item : Item} {disk : Disk}

omit [Sha256] in
theorem wp_act_bind {α : Type} {Q : Post Disk Failure α} (c : FileCall) {k : c.Answer → FileProg α}
    (hcrash : Q.crashed disk) (hfault : Q.raised .osError { disk with faults := disk.faults.tail })
    (hok : ∀ a disk', c.serve age { disk with faults := disk.faults.tail } = (.ok a, disk') →
      (k a).wp (fileSystem age) Q disk')
    (hbad : ∀ e disk', c.serve age { disk with faults := disk.faults.tail } = (.error e, disk') →
      Q.raised e disk') : (act c >>= k).wp (fileSystem age) Q disk := by
  rw [act, bind_assoc, Prog.wp_bind, Prog.wp_perform]
  refine ⟨hcrash, ?_⟩
  simp only [fileSystem]
  split
  · change (Prog.raise Failure.osError : FileProg α).wp (fileSystem age) Q _
    rwa [Prog.wp_raise]
  · cases hserve : c.serve age { disk with faults := disk.faults.tail } with
    | mk answer disk' =>
      cases answer with
      | ok a => exact hok a disk' hserve
      | error e =>
        change (Prog.raise e : FileProg α).wp (fileSystem age) Q _
        rw [Prog.wp_raise]
        exact hbad e disk' hserve

theorem wp_restoreItem_of {tree : Tree} (faults : List Bool) (hnot : ¬Matches tree item) :
    (restoreItem objects item).wp (fileSystem age)
      ⟨fun _ disk' => Done item tree disk'.tree, fun _ disk' => Begun item tree disk'.tree,
        fun disk' => Begun item tree disk'.tree⟩ ⟨tree, faults⟩ := by
  have hboth := Prog.wp_and _ _ (touched_restoreItem objects item age ⟨tree, faults⟩)
    wp_restoreItem
  refine Prog.wp_le hboth ⟨fun _ _ h => ?_, fun _ _ h => ?_, fun _ h => ?_⟩
  · exact .inr ⟨hnot, h.1, h.2⟩
  · exact .inr ⟨hnot, h.1⟩
  · exact .inr ⟨hnot, h.1⟩

theorem wp_restoreFile :
    (restoreFile objects item).wp (fileSystem age)
      ⟨fun _ disk' => Done item disk.tree disk'.tree, fun _ disk' => Begun item disk.tree disk'.tree,
        fun disk' => Begun item disk.tree disk'.tree⟩ disk := by
  rw [restoreFile]
  refine wp_act_bind _ (.inl rfl) (.inl rfl) (fun there looked hlook => ?_) fun e looked hlook => ?_
  · obtain ⟨hthere, rfl⟩ := Prod.mk.inj hlook
    have hthere := Except.ok.inj hthere
    cases there with
    | false =>
      refine wp_restoreItem_of disk.faults.tail ?_
      rintro ⟨content, hshows, -⟩
      simp only [hshows] at hthere
      cases hthere
    | true =>
      refine wp_act_bind _ (.inl rfl) (.inl rfl) (fun content read hread => ?_) fun e read hread => ?_
      · simp only [FileCall.serve] at hread
        split at hread
        · rename_i shown hshows
          obtain ⟨hcontent, rfl⟩ := Prod.mk.inj hread
          obtain rfl := Except.ok.inj hcontent
          split
          · rename_i hsame
            rw [Prog.wp_pure]
            exact .inl ⟨⟨_, hshows, hsame⟩, rfl⟩
          · rename_i hdiffers
            refine wp_restoreItem_of disk.faults.tail.tail ?_
            rintro ⟨content', hshows', hsame⟩
            obtain rfl : shown = content' := by simpa using hshows.symm.trans hshows'
            exact hdiffers hsame
        · cases (Prod.mk.inj hread).1
      · simp only [FileCall.serve] at hread
        split at hread
        · cases (Prod.mk.inj hread).1
        · obtain rfl := (Prod.mk.inj hread).2
          exact .inl rfl
  · cases (Prod.mk.inj hlook).1

theorem Settles.snoc {done : List Item} {tree between tree' : Tree}
    (h : Settles done tree between) (last : Done item between tree') :
    Settles (done ++ [item]) tree tree' := by
  induction done generalizing tree with
  | nil =>
    obtain rfl : between = tree := h
    exact ⟨tree', last, rfl⟩
  | cons first done ih =>
    obtain ⟨next, hfirst, hdone⟩ := h
    exact ⟨next, hfirst, ih hdone⟩

/-- Where an attempt ends. -/
theorem wp_restoreFiles (files : List Item) :
    (restoreFiles objects files).wp (fileSystem age)
      ⟨fun _ disk' => Settles files disk.tree disk'.tree,
        fun _ disk' => Stops files disk.tree disk'.tree,
        fun disk' => Stops files disk.tree disk'.tree⟩ disk := by
  refine Prog.wp_forM (I := fun rest (disk' : Disk) => ∃ done, files = done ++ rest ∧
    Settles done disk.tree disk'.tree) ?_ ?_ files disk ⟨[], rfl, rfl⟩
  · rintro item rest between ⟨done, rfl, hdone⟩
    refine Prog.wp_le wp_restoreFile ⟨fun _ disk' h => ?_, fun _ disk' h => ?_, fun disk' h => ?_⟩
    · exact ⟨done ++ [item], by simp, hdone.snoc h⟩
    · exact ⟨done, item :: rest, _, rfl, hdone,
        h.imp_right fun h => ⟨item, List.mem_cons_self, h⟩⟩
    · exact ⟨done, item :: rest, _, rfl, hdone,
        h.imp_right fun h => ⟨item, List.mem_cons_self, h⟩⟩
  · rintro disk' ⟨done, hfiles, hdone⟩
    rw [List.append_nil] at hfiles
    exact hfiles ▸ hdone

end Loop

end ProductPdfQr.Restore.Files
