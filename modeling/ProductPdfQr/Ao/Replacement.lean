/-
# Replacing the evidence directory

`replaceEvidenceDirectory` writes the new snapshot into a temporary folder, moves the old
directory to a backup, moves the temporary folder to its place and deletes the backup.  Whatever
fails on the way is met by one handler, which looks at what it finds under the three names and
guesses from that how far the sequence got.

The guess is right except in three places.  A backup that was there before is taken for the one
of this run.  So is one of which the delete has already removed something.  And where there was
no directory before, nothing tells the new one from an old one.  `replacement_atomic_iff` says
that these are all.

One operation of the sequence fails, which one being the fuse; those of the handler succeed.
-/
import ProductPdfQr.Effect.Prog
import ProductPdfQr.Effect.FileTree
import Mathlib.Data.List.Dedup
import Mathlib.Data.List.Sort
import Mathlib.Data.String.Basic

namespace ProductPdfQr.Ao

open Effect

/-! ## 1. The file operations -/

inductive FileCall where
  | docsIsSymlink
  | parentIsSymlink
  | mkdir
  | isSymlink (name : String)
  | pathExists (name : String)
  | iterdir (name : String)
  | mkdtemp (start : String)
  | openFile (folder name : String)
  | writeText (folder name text : String)
  | rename (source target : String)
  | rmtree (name : String)

abbrev FileCall.Answer : FileCall → Type
  | docsIsSymlink => Bool
  | parentIsSymlink => Bool
  | mkdir => Unit
  | isSymlink _ => Bool
  | pathExists _ => Bool
  | iterdir _ => List String
  | mkdtemp _ => String
  | openFile _ _ => Unit
  | writeText _ _ _ => Unit
  | rename _ _ => Unit
  | rmtree _ => Unit

inductive Failure where
  | evidenceError (message : String)
  | osError
  deriving DecidableEq, Repr

abbrev FileProg := Prog FileCall (fun c => Except Failure c.Answer) Failure

/-- One operation, raising what it raises. -/
def act (c : FileCall) : FileProg c.Answer := Prog.perform c >>= Prog.liftExcept

/-- `docs` and `docs/evidence`: whether they are links, and what is in the latter. -/
structure Disk where
  docsIsSymlink : Bool
  parentIsSymlink : Bool
  shelf : Shelf
  fuse : Option Nat

def Disk.put (disk : Disk) (name : String) (node : Option Node) : Disk :=
  { disk with shelf := disk.shelf.set name node }

section Serving

variable (lives : String → Bool) (suffix : String)

/-- What an operation does that is not made to fail.  `suffix` is what `mkdtemp` picks, and a
recursive delete has a fuse of its own. -/
def FileCall.serve (disk : Disk) : (c : FileCall) → Except Failure c.Answer × Disk
  | .docsIsSymlink => (.ok disk.docsIsSymlink, disk)
  | .parentIsSymlink => (.ok disk.parentIsSymlink, disk)
  | .mkdir => (.ok (), disk)
  | .isSymlink name => (.ok (isLink (disk.shelf name)), disk)
  | .pathExists name => (.ok (found lives (disk.shelf name)), disk)
  | .iterdir name =>
    match disk.shelf name with
    | some (.folder entries) => (.ok entries.names, disk)
    | _ => (.error .osError, disk)
  | .mkdtemp start =>
    (.ok (start ++ suffix), disk.put (start ++ suffix) (some (.folder .nil)))
  | .openFile folder name =>
    match disk.shelf folder with
    | some (.folder entries) =>
      (.ok (), disk.put folder (some (.folder (entries.set name (.file "")))))
    | _ => (.error .osError, disk)
  | .writeText folder name text =>
    match disk.shelf folder with
    | some (.folder entries) =>
      (.ok (), disk.put folder (some (.folder (entries.set name (.file text)))))
    | _ => (.error .osError, disk)
  | .rename source target =>
    match disk.shelf.rename source target with
    | some shelf => (.ok (), { disk with shelf })
    | none => (.error .osError, disk)
  | .rmtree name =>
    match disk.shelf name with
    | some (.folder entries) =>
      match (Node.folder entries).erase disk.fuse with
      | (none, fuse) => (.ok (), { disk.put name none with fuse })
      | (some left, fuse) => (.error .osError, { disk.put name (some left) with fuse })
    | _ => (.error .osError, disk)

/-- Any other call is one operation. -/
def FileCall.single : FileCall → Bool
  | .rmtree _ => false
  | _ => true

def fileSystem : Machine FileCall (fun c => Except Failure c.Answer) Disk where
  step c disk :=
    match if c.single then spend disk.fuse else some disk.fuse with
    | none => (.error .osError, { disk with fuse := none })
    | some fuse => c.serve lives suffix { disk with fuse }

end Serving

/-! ## 2. The sequence and its handler -/

def evidenceFiles : List String :=
  ["metadata.md", "changed-files.md", "diff.patch", "validation.md", "advisor-context.md"]

def targetName (pr : Int) : String := "pr-" ++ toString pr

def temporaryStart (pr : Int) : String := ".pr-" ++ toString pr ++ "-"

def backupName (pr : Int) : String := temporaryStart pr ++ "backup"

/-- The names are those of the five files. -/
def requiredFiles (contents : List (String × String)) : Bool :=
  (contents.all fun entry => evidenceFiles.contains entry.1) &&
    evidenceFiles.all fun name => (contents.map Prod.fst).contains name

def unexpected (existing : List String) : List String :=
  ((existing.filter fun name => !evidenceFiles.contains name).dedup).insertionSort (· ≤ ·)

/-- `p or q`. -/
def either (p q : FileProg Bool) : FileProg Bool := do
  if ← p then pure true else q

/-- `p and q`. -/
def both (p q : FileProg Bool) : FileProg Bool := do
  if ← p then q else pure false

/-- `if c: p`. -/
def only (c : Bool) (p : FileProg Unit) : FileProg Unit := if c then p else pure ()

/-- What is in the directory that is to be replaced. -/
def checkExisting (pr : Int) : FileProg Unit := do
  let existing ← act (.iterdir (targetName pr))
  Prog.ensure (unexpected existing).isEmpty
    (.evidenceError ("refusing to replace Evidence directory containing unexpected files: " ++
      ", ".intercalate (unexpected existing)))

/-- The checks, and the temporary folder. -/
def prepare (pr : Int) (contents : List (String × String)) : FileProg String := do
  Prog.ensure (requiredFiles contents)
    (.evidenceError "Evidence Snapshot must contain exactly the five required files")
  let linked ← either (act .docsIsSymlink) (act .parentIsSymlink)
  Prog.ensure (!linked)
    (.evidenceError "Evidence parent directories must not be symbolic links")
  act .mkdir
  let link ← act (.isSymlink (targetName pr))
  Prog.ensure (!link)
    (.evidenceError "Evidence target directory must not be a symbolic link")
  let present ← act (.pathExists (targetName pr))
  only present (checkExisting pr)
  act (.mkdtemp (temporaryStart pr))

def writeFile (temporary : String) (entry : String × String) : FileProg PUnit := do
  act (.openFile temporary entry.1)
  act (.writeText temporary entry.1 entry.2)

/-- The body of the `try`. -/
def swap (root : String) (pr : Int) (contents : List (String × String)) (temporary : String) :
    FileProg Unit := do
  contents.forM (writeFile temporary)
  let stale ← act (.pathExists (backupName pr))
  Prog.ensure (!stale)
    (.evidenceError
      ("stale Evidence backup exists: " ++ root ++ "/docs/evidence/" ++ backupName pr))
  let present ← act (.pathExists (targetName pr))
  only present (act (.rename (targetName pr) (backupName pr)))
  act (.rename temporary (targetName pr))
  let kept ← act (.pathExists (backupName pr))
  only kept (act (.rmtree (backupName pr)))

/-- The handler, but for its last line, which raises again. -/
def undo (pr : Int) (temporary : String) : FileProg Unit := do
  let clash ← both (act (.pathExists (targetName pr))) (act (.pathExists (backupName pr)))
  only clash (act (.rmtree (targetName pr)))
  let kept ← act (.pathExists (backupName pr))
  only kept (act (.rename (backupName pr) (targetName pr)))
  let left ← act (.pathExists temporary)
  only left (act (.rmtree temporary))

/-- `_replace_evidence_directory`, whose handler meets no further failure. -/
def replaceEvidenceDirectory (lives : String → Bool) (suffix root : String) (pr : Int)
    (contents : List (String × String)) (disk : Disk) : Except Failure String × Disk :=
  match (prepare pr contents).run (fileSystem lives suffix) disk with
  | (.error e, disk) => (.error e, disk)
  | (.ok temporary, disk) =>
    match (swap root pr contents temporary).run (fileSystem lives suffix) disk with
    | (.ok (), disk) => (.ok (root ++ "/docs/evidence/" ++ targetName pr), disk)
    | (.error e, disk) =>
      match (undo pr temporary).run (fileSystem lives suffix) { disk with fuse := none } with
      | (.ok (), disk) => (.error e, disk)
      | (.error e', disk) => (.error e', disk)

/-! ## 3. Names -/

theorem targetName_ne_backupName (pr : Int) : targetName pr ≠ backupName pr := by
  intro h
  have := congrArg (fun name => name.toList.head?) h
  simp [targetName, backupName, temporaryStart] at this

theorem targetName_ne_temporary (pr : Int) (suffix : String) :
    targetName pr ≠ temporaryStart pr ++ suffix := by
  intro h
  have := congrArg (fun name => name.toList.head?) h
  simp [targetName, temporaryStart] at this

/-- `mkdtemp` picks eight characters, and `backup` has six. -/
theorem backupName_ne_temporary {pr : Int} {suffix : String} (h : suffix.length = 8) :
    backupName pr ≠ temporaryStart pr ++ suffix := by
  intro heq
  have hlength : "backup".length = 8 := by simpa [backupName, h] using congrArg String.length heq
  exact absurd hlength (by decide)

/-! ## 4. One operation -/

section Runs

variable {lives : String → Bool} {suffix root : String} {pr : Int} {start : Disk} {shelf : Shelf}
  {fuse : Option Nat} {n : Nat} {α : Type} {Q : Post Disk Failure α}

theorem serve_docsIsSymlink (fuse : Option Nat) :
    FileCall.docsIsSymlink.serve lives suffix { start with shelf, fuse } =
      (.ok start.docsIsSymlink, { start with shelf, fuse }) := rfl

theorem serve_parentIsSymlink (fuse : Option Nat) :
    FileCall.parentIsSymlink.serve lives suffix { start with shelf, fuse } =
      (.ok start.parentIsSymlink, { start with shelf, fuse }) := rfl

theorem serve_mkdir (fuse : Option Nat) :
    FileCall.mkdir.serve lives suffix { start with shelf, fuse } =
      (.ok (), { start with shelf, fuse }) := rfl

theorem serve_isSymlink (name : String) (fuse : Option Nat) :
    (FileCall.isSymlink name).serve lives suffix { start with shelf, fuse } =
      (.ok (isLink (shelf name)), { start with shelf, fuse }) := rfl

theorem serve_pathExists (name : String) (fuse : Option Nat) :
    (FileCall.pathExists name).serve lives suffix { start with shelf, fuse } =
      (.ok (found lives (shelf name)), { start with shelf, fuse }) := rfl

theorem serve_iterdir {name : String} {entries : Entries}
    (h : shelf name = some (.folder entries)) (fuse : Option Nat) :
    (FileCall.iterdir name).serve lives suffix { start with shelf, fuse } =
      (.ok entries.names, { start with shelf, fuse }) := by
  simp [FileCall.serve, h]

theorem serve_iterdir_of_not {name : String} {node : Node} (h : shelf name = some node)
    (hnot : ∀ entries, node ≠ .folder entries) (fuse : Option Nat) :
    (FileCall.iterdir name).serve lives suffix { start with shelf, fuse } =
      (.error .osError, { start with shelf, fuse }) := by
  cases node with
  | file text => simp [FileCall.serve, h]
  | link goal => simp [FileCall.serve, h]
  | folder entries => exact absurd rfl (hnot entries)

theorem serve_mkdtemp (begin : String) (fuse : Option Nat) :
    (FileCall.mkdtemp begin).serve lives suffix { start with shelf, fuse } =
      (.ok (begin ++ suffix),
        { start with shelf := shelf.set (begin ++ suffix) (some (.folder .nil)), fuse }) := rfl

theorem serve_openFile {folder : String} {entries : Entries}
    (h : shelf folder = some (.folder entries)) (name : String) (fuse : Option Nat) :
    (FileCall.openFile folder name).serve lives suffix { start with shelf, fuse } =
      (.ok (), { start with
        shelf := shelf.set folder (some (.folder (entries.set name (.file "")))), fuse }) := by
  simp [FileCall.serve, Disk.put, h]

theorem serve_writeText {folder : String} {entries : Entries}
    (h : shelf folder = some (.folder entries)) (name text : String) (fuse : Option Nat) :
    (FileCall.writeText folder name text).serve lives suffix { start with shelf, fuse } =
      (.ok (), { start with
        shelf := shelf.set folder (some (.folder (entries.set name (.file text)))), fuse }) := by
  simp [FileCall.serve, Disk.put, h]

theorem serve_rename {source target : String} {node : Node} (hsource : shelf source = some node)
    (htarget : shelf target = none) (fuse : Option Nat) :
    (FileCall.rename source target).serve lives suffix { start with shelf, fuse } =
      (.ok (), { start with
        shelf := (shelf.set source none).set target (some node), fuse }) := by
  simp [FileCall.serve, Shelf.rename_of_none hsource htarget]

/-- An operation that would succeed: it is the one that fails, or it is not. -/
theorem wp_act_bind {c : FileCall} {a : c.Answer} {shelf' : Shelf} {k : c.Answer → FileProg α}
    (hfuse : fuse.map (· + n) = start.fuse) (hcrash : ∀ s, Q.crashed s) (hc : c.single = true)
    (hserve : ∀ fuse, c.serve lives suffix { start with shelf, fuse } =
      (.ok a, { start with shelf := shelf', fuse }))
    (hfail : start.fuse = some n → Q.raised .osError { start with shelf, fuse := none })
    (hgo : ∀ fuse', fuse'.map (· + (n + 1)) = start.fuse → start.fuse ≠ some n →
      (k a).wp (fileSystem lives suffix) Q { start with shelf := shelf', fuse := fuse' }) :
    (act c >>= k).wp (fileSystem lives suffix) Q { start with shelf, fuse } := by
  rw [act, bind_assoc, Prog.wp_bind, Prog.wp_perform]
  refine ⟨hcrash _, ?_⟩
  have hstep : (fileSystem lives suffix).step c { start with shelf, fuse } =
      match spend fuse with
      | none => (.error .osError, { start with shelf, fuse := none })
      | some fuse => (.ok a, { start with shelf := shelf', fuse }) := by
    simp only [fileSystem, hc, if_true]
    cases hspend : spend fuse with
    | none => rfl
    | some fuse => exact hserve fuse
  rw [hstep]
  cases fuse with
  | none =>
    have hnone : start.fuse = none := by simpa using hfuse.symm
    exact hgo none (by simp [hnone]) (by simp [hnone])
  | some m =>
    cases m with
    | zero =>
      have hn : start.fuse = some n := by simpa using hfuse.symm
      change (Prog.raise Failure.osError : FileProg α).wp (fileSystem lives suffix) Q _
      rw [Prog.wp_raise]
      exact hfail hn
    | succ m =>
      have hm : start.fuse = some (m + (n + 1)) := by
        rw [← hfuse, Option.map_some]
        congr 1
        omega
      refine hgo (some m) hm.symm ?_
      rw [hm]
      intro heq
      have := Option.some.inj heq
      omega

/-- The last operation of a part. -/
theorem wp_act {c : FileCall} {a : c.Answer} {shelf' : Shelf} {Q : Post Disk Failure c.Answer}
    (hfuse : fuse.map (· + n) = start.fuse) (hcrash : ∀ s, Q.crashed s) (hc : c.single = true)
    (hserve : ∀ fuse, c.serve lives suffix { start with shelf, fuse } =
      (.ok a, { start with shelf := shelf', fuse }))
    (hfail : start.fuse = some n → Q.raised .osError { start with shelf, fuse := none })
    (hgo : ∀ fuse', fuse'.map (· + (n + 1)) = start.fuse → start.fuse ≠ some n →
      Q.returned a { start with shelf := shelf', fuse := fuse' }) :
    (act c).wp (fileSystem lives suffix) Q { start with shelf, fuse } := by
  have h := wp_act_bind (k := pure) hfuse hcrash hc hserve hfail fun fuse' hfuse' hne => by
    rw [Prog.wp_pure]
    exact hgo fuse' hfuse' hne
  rwa [bind_pure] at h

/-- An operation that fails in any case. -/
theorem wp_act_refused {c : FileCall} {k : c.Answer → FileProg α} {e : Failure}
    (hcrash : ∀ s, Q.crashed s) (hc : c.single = true)
    (hserve : ∀ fuse, c.serve lives suffix { start with shelf, fuse } =
      (.error e, { start with shelf, fuse }))
    (hraise : ∀ e fuse', Q.raised e { start with shelf, fuse := fuse' }) :
    (act c >>= k).wp (fileSystem lives suffix) Q { start with shelf, fuse } := by
  rw [act, bind_assoc, Prog.wp_bind, Prog.wp_perform]
  refine ⟨hcrash _, ?_⟩
  have hstep : ∃ e fuse', (fileSystem lives suffix).step c { start with shelf, fuse } =
      (.error e, { start with shelf, fuse := fuse' }) := by
    simp only [fileSystem, hc, if_true]
    cases spend fuse with
    | none => exact ⟨_, _, rfl⟩
    | some fuse => exact ⟨_, _, hserve fuse⟩
  obtain ⟨e', fuse', hstep⟩ := hstep
  rw [hstep]
  change (Prog.raise e' : FileProg α).wp (fileSystem lives suffix) Q _
  rw [Prog.wp_raise]
  exact hraise e' fuse'

theorem wp_ensure_bind {c : Bool} {e : Failure} {k : Unit → FileProg α} {s : Disk} :
    (Prog.ensure c e >>= k).wp (fileSystem lives suffix) Q s ↔
      (c = true → (k ()).wp (fileSystem lives suffix) Q s) ∧ (c = false → Q.raised e s) := by
  rw [Prog.wp_bind, Prog.wp_ensure]
  exact Iff.rfl

/-! ## 5. The files of the snapshot -/

theorem wp_writeFiles {temporary : String} : ∀ (contents : List (String × String)) {n : Nat}
    {fuse : Option Nat} (entries : Entries), fuse.map (· + n) = start.fuse →
    (contents.forM (writeFile temporary)).wp (fileSystem lives suffix)
      ⟨fun _ s => ∃ fuse' entries', fuse'.map (· + (n + 2 * contents.length)) = start.fuse ∧
        s = { start with shelf := shelf.set temporary (some (.folder entries')), fuse := fuse' },
      fun _ s => (∃ k, start.fuse = some k ∧ k < n + 2 * contents.length) ∧
        ∃ entries', s.shelf = shelf.set temporary (some (.folder entries')),
      fun _ => True⟩
      { start with shelf := shelf.set temporary (some (.folder entries)), fuse }
  | [], n, fuse, entries, hfuse => by
    rw [List.forM, Prog.wp_pure]
    exact ⟨fuse, entries, by simpa using hfuse, rfl⟩
  | entry :: contents, n, fuse, entries, hfuse => by
    have hlength : (entry :: contents).length = contents.length + 1 := rfl
    rw [List.forM, writeFile, bind_assoc]
    refine wp_act_bind hfuse (fun _ => trivial) rfl (serve_openFile (Shelf.set_self ..) _)
      (fun hn => ⟨⟨n, hn, by omega⟩, entries, rfl⟩) fun fuse' hfuse' _ => ?_
    rw [Shelf.set_set]
    refine wp_act_bind hfuse' (fun _ => trivial) rfl (serve_writeText (Shelf.set_self ..) _ _)
      (fun hn => ⟨⟨n + 1, hn, by omega⟩, _, rfl⟩) fun fuse'' hfuse'' _ => ?_
    rw [Shelf.set_set]
    refine Prog.wp_le (wp_writeFiles contents _ hfuse'') ⟨?_, ?_, fun _ => id⟩
    · rintro - s ⟨fuse, entries', hfuse, rfl⟩
      refine ⟨fuse, entries', ?_, rfl⟩
      rw [← hfuse, hlength]
      congr 2
      funext m
      omega
    · rintro - s ⟨⟨k, hk, hlt⟩, entries', hs⟩
      exact ⟨⟨k, hk, by omega⟩, entries', hs⟩

/-! ## 6. The checks -/

end Runs

/-- What stands in the directory's place is nothing, or a folder of the five files. -/
def Replaceable : Option Node → Prop
  | none => True
  | some (.folder entries) => ∀ name ∈ entries.names, name ∈ evidenceFiles
  | some _ => False

/-- The operations before the `try`. -/
def looks : Option Node → Nat
  | none => 6
  | some _ => 7

/-- The run gets to the `try`. -/
structure Enters (pr : Int) (contents : List (String × String)) (disk : Disk) : Prop where
  files : requiredFiles contents = true
  docs : disk.docsIsSymlink = false
  parent : disk.parentIsSymlink = false
  directory : Replaceable (disk.shelf (targetName pr))
  fuse : ∀ k, disk.fuse = some k → looks (disk.shelf (targetName pr)) ≤ k

theorem Enters.not_of_lt {pr : Int} {contents : List (String × String)} {disk : Disk} {n : Nat}
    (hn : disk.fuse = some n) (hlt : n < looks (disk.shelf (targetName pr))) :
    ¬Enters pr contents disk := fun h => absurd (h.fuse n hn) (Nat.not_le.mpr hlt)

theorem looks_ge (node : Option Node) : 6 ≤ looks node := by
  cases node <;> simp [looks]

theorem unexpected_isEmpty {existing : List String} :
    (unexpected existing).isEmpty = true ↔ ∀ name ∈ existing, name ∈ evidenceFiles := by
  rw [unexpected, List.isEmpty_iff, ← List.length_eq_zero_iff, List.length_insertionSort,
    List.length_eq_zero_iff, List.eq_nil_iff_forall_not_mem]
  constructor
  · intro h name hname
    by_contra hnot
    exact h name (List.mem_dedup.mpr (List.mem_filter.mpr ⟨hname, by simpa using hnot⟩))
  · intro h name hname
    rw [List.mem_dedup, List.mem_filter] at hname
    simp [h name hname.1] at hname

section Runs

variable {lives : String → Bool} {suffix root : String} {pr : Int} {start : Disk}
  {contents : List (String × String)}

theorem wp_prepare : (prepare pr contents).wp (fileSystem lives suffix)
    ⟨fun temporary s => Enters pr contents start ∧ temporary = temporaryStart pr ++ suffix ∧
        ∃ fuse, fuse.map (· + looks (start.shelf (targetName pr))) = start.fuse ∧
          s = { start with shelf := start.shelf.set temporary (some (.folder .nil)), fuse },
      fun _ s => ¬Enters pr contents start ∧ s.shelf = start.shelf,
      fun _ => True⟩ start := by
  have hge := looks_ge (start.shelf (targetName pr))
  have hstop : ∀ n, n < 6 → start.fuse = some n → ¬Enters pr contents start := fun n hlt hn =>
    Enters.not_of_lt hn (by omega)
  rw [prepare, wp_ensure_bind]
  refine ⟨fun hfiles => ?_, fun hfiles => ⟨fun h => ?_, rfl⟩⟩
  swap
  · rw [h.files] at hfiles
    cases hfiles
  have hstart : start.fuse.map (· + 0) = start.fuse := by simp
  rw [either, bind_assoc]
  refine wp_act_bind hstart (fun _ => trivial) rfl serve_docsIsSymlink
    (fun hn => ⟨hstop 0 (by decide) hn, rfl⟩) fun fuse hfuse _ => ?_
  cases hdocs : start.docsIsSymlink with
  | true =>
    rw [if_pos rfl, pure_bind, wp_ensure_bind]
    refine ⟨fun h => (by cases h), fun _ => ⟨fun h => ?_, rfl⟩⟩
    rw [h.docs] at hdocs
    cases hdocs
  | false =>
    rw [if_neg Bool.false_ne_true, ← hdocs]
    refine wp_act_bind hfuse (fun _ => trivial) rfl serve_parentIsSymlink
      (fun hn => ⟨hstop 1 (by decide) hn, rfl⟩) fun fuse hfuse _ => ?_
    rw [wp_ensure_bind]
    refine ⟨fun hparent => ?_, fun hparent => ⟨fun h => ?_, rfl⟩⟩
    swap
    · rw [h.parent] at hparent
      cases hparent
    refine wp_act_bind hfuse (fun _ => trivial) rfl serve_mkdir
      (fun hn => ⟨hstop 2 (by decide) hn, rfl⟩) fun fuse hfuse _ => ?_
    refine wp_act_bind hfuse (fun _ => trivial) rfl (serve_isSymlink _)
      (fun hn => ⟨hstop 3 (by decide) hn, rfl⟩) fun fuse hfuse _ => ?_
    rw [wp_ensure_bind]
    refine ⟨fun hlink => ?_, fun hlink => ⟨fun h => ?_, rfl⟩⟩
    swap
    · have := h.directory
      revert hlink this
      cases start.shelf (targetName pr) with
      | none => simp [isLink]
      | some node => cases node <;> simp [isLink, Replaceable]
    refine wp_act_bind hfuse (fun _ => trivial) rfl (serve_pathExists _)
      (fun hn => ⟨hstop 4 (by decide) hn, rfl⟩) fun fuse hfuse _ => ?_
    have henters : Replaceable (start.shelf (targetName pr)) →
        (∀ k, start.fuse = some k → looks (start.shelf (targetName pr)) ≤ k) →
        Enters pr contents start := fun hdirectory hfuse =>
      ⟨hfiles, hdocs, by simpa using hparent, hdirectory, hfuse⟩
    cases htarget : start.shelf (targetName pr) with
    | none =>
      rw [htarget] at henters
      rw [found, only, if_neg Bool.false_ne_true, pure_bind]
      exact wp_act hfuse (fun _ => trivial) rfl (serve_mkdtemp _)
        (fun hn => ⟨hstop 5 (by decide) hn, rfl⟩) fun fuse hfuse _ =>
          ⟨henters trivial fun k hk => le_of_map_add hfuse hk, rfl, fuse, hfuse, rfl⟩
    | some node =>
      rw [htarget] at henters hlink
      cases node with
      | file text =>
        simp only [found, only, if_true, checkExisting, bind_assoc]
        refine wp_act_refused (fun _ => trivial) rfl (serve_iterdir_of_not htarget nofun)
          fun e fuse => ⟨fun h => ?_, rfl⟩
        simpa [htarget, Replaceable] using h.directory
      | link goal => simp [isLink] at hlink
      | folder entries =>
        simp only [found, only, if_true, checkExisting, bind_assoc]
        refine wp_act_bind hfuse (fun _ => trivial) rfl (serve_iterdir htarget)
          (fun hn => ⟨hstop 5 (by decide) hn, rfl⟩) fun fuse hfuse _ => ?_
        rw [wp_ensure_bind, unexpected_isEmpty]
        refine ⟨fun hnames => ?_, fun hnames => ⟨fun h => ?_, rfl⟩⟩
        · refine wp_act hfuse (fun _ => trivial) rfl (serve_mkdtemp _)
            (fun hn => ⟨Enters.not_of_lt hn (by simp [htarget, looks]), rfl⟩) fun fuse hfuse _ =>
              ⟨henters hnames fun k hk => le_of_map_add hfuse hk, rfl, fuse, hfuse, rfl⟩
        · have := h.directory
          rw [htarget, Replaceable, ← unexpected_isEmpty] at this
          rw [this] at hnames
          cases hnames

/-! ## 7. The handler -/

/-- What the handler leaves in the directory's place: a backup if it finds one. -/
def restored (lives : String → Bool) (pr : Int) (shelf : Shelf) : Option Node :=
  if found lives (shelf (backupName pr)) then shelf (backupName pr) else shelf (targetName pr)

/-- Where the handler starts there is a directory, or nothing. -/
def FolderOrNone : Option Node → Prop
  | none => True
  | some (.folder _) => True
  | some _ => False

theorem step_rmtree {shelf : Shelf} {fuse : Option Nat} {name : String} {entries : Entries}
    (h : shelf name = some (.folder entries)) :
    (fileSystem lives suffix).step (.rmtree name) { start with shelf, fuse } =
      ((if ((Node.folder entries).erase fuse).1 = none then .ok () else .error .osError),
        { start with
          shelf := shelf.set name ((Node.folder entries).erase fuse).1
          fuse := ((Node.folder entries).erase fuse).2 }) := by
  simp only [fileSystem, FileCall.single, FileCall.serve, Bool.false_eq_true, if_false, h, Disk.put]
  rcases (Node.folder entries).erase fuse with ⟨left, fuse'⟩
  cases left <;> rfl

/-- A recursive delete touches no other name. -/
theorem step_rmtree_other {s : Disk} {name other : String} (h : other ≠ name) :
    ((fileSystem lives suffix).step (.rmtree name) s).2.shelf other = s.shelf other := by
  simp only [fileSystem, FileCall.single, FileCall.serve, Bool.false_eq_true, if_false]
  split
  · split <;> simp [Disk.put, Shelf.set_of_ne h]
  · rfl

/-- The last look of the handler: at the temporary folder. -/
theorem wp_clear {temporary : String} (hne : targetName pr ≠ temporary) {shelf : Shelf}
    (hnone : start.fuse = none) :
    (act (.pathExists temporary) >>= fun left => only left (act (.rmtree temporary))).wp
      (fileSystem lives suffix)
      ⟨fun _ s => s.shelf (targetName pr) = shelf (targetName pr),
        fun _ s => s.shelf (targetName pr) = shelf (targetName pr), fun _ => True⟩
      { start with shelf, fuse := none } := by
  refine wp_act_bind (n := 0) (by simp [hnone]) (fun _ => trivial) rfl (serve_pathExists _)
    (fun hn => by simp [hnone] at hn) fun fuse _ _ => ?_
  cases found lives (shelf temporary) with
  | false => exact (Prog.wp_pure ()).mpr rfl
  | true =>
    rw [only, if_pos rfl, act, Prog.wp_bind, Prog.wp_perform]
    refine ⟨trivial, Prog.wp_liftExcept.mpr ⟨fun _ _ => ?_, fun _ _ => ?_⟩⟩ <;>
      exact step_rmtree_other hne

theorem wp_undo {temporary : String} (hne : targetName pr ≠ temporary) {shelf : Shelf}
    (hfolder : FolderOrNone (shelf (targetName pr))) (hnone : start.fuse = none) :
    (undo pr temporary).wp (fileSystem lives suffix)
      ⟨fun _ s => s.shelf (targetName pr) = restored lives pr shelf,
        fun _ s => s.shelf (targetName pr) = restored lives pr shelf, fun _ => True⟩
      { start with shelf, fuse := none } := by
  have htb := targetName_ne_backupName pr
  have hstart : (none : Option Nat).map (· + 0) = start.fuse := by rw [hnone]; rfl
  have hstop : ∀ {n} {P : Prop}, start.fuse = some n → P := fun hn => by
    rw [hnone] at hn
    cases hn
  have hnofuse : ∀ {fuse : Option Nat} {n}, fuse.map (· + n) = start.fuse → fuse = none :=
    fun h => by simpa [hnone] using h
  -- The directory is gone if there is a backup, and as it was if there is none.
  have hback : ∀ shelf' : Shelf, shelf' (backupName pr) = shelf (backupName pr) →
      shelf' (targetName pr) =
        (if found lives (shelf (backupName pr)) then none else shelf (targetName pr)) →
      (act (.pathExists (backupName pr)) >>= fun kept =>
        only kept (act (.rename (backupName pr) (targetName pr))) >>= fun _ =>
        act (.pathExists temporary) >>= fun left => only left (act (.rmtree temporary))).wp
        (fileSystem lives suffix)
        ⟨fun _ s => s.shelf (targetName pr) = restored lives pr shelf,
          fun _ s => s.shelf (targetName pr) = restored lives pr shelf, fun _ => True⟩
        { start with shelf := shelf', fuse := none } := by
    intro shelf' hbackup htarget
    refine wp_act_bind hstart (fun _ => trivial) rfl (serve_pathExists _) hstop
      fun fuse hfuse _ => ?_
    obtain rfl := hnofuse hfuse
    rw [hbackup]
    by_cases hfound : found lives (shelf (backupName pr)) = true
    · rw [if_pos hfound] at htarget
      obtain ⟨node, hnode⟩ : ∃ node, shelf (backupName pr) = some node := by
        cases hnode : shelf (backupName pr) with
        | none => simp [hnode, found] at hfound
        | some node => exact ⟨node, rfl⟩
      rw [hfound, only, if_pos rfl]
      refine wp_act_bind hstart (fun _ => trivial) rfl
        (serve_rename (hbackup.trans hnode) htarget) hstop fun fuse hfuse _ => ?_
      obtain rfl := hnofuse hfuse
      have hafter : ((shelf'.set (backupName pr) none).set (targetName pr) (some node))
          (targetName pr) = restored lives pr shelf := by
        rw [Shelf.set_self, restored, if_pos hfound, hnode]
      rw [← hafter]
      exact wp_clear hne hnone
    · rw [if_neg hfound] at htarget
      have hafter : shelf' (targetName pr) = restored lives pr shelf := by
        rw [restored, if_neg hfound, htarget]
      rw [only, if_neg hfound, pure_bind, ← hafter]
      exact wp_clear hne hnone
  rw [undo, both, bind_assoc]
  refine wp_act_bind hstart (fun _ => trivial) rfl (serve_pathExists _) hstop
    fun fuse hfuse _ => ?_
  obtain rfl := hnofuse hfuse
  cases htarget : shelf (targetName pr) with
  | none =>
    rw [found, if_neg Bool.false_ne_true, pure_bind, only, if_neg Bool.false_ne_true, pure_bind]
    exact hback shelf rfl (by simp [htarget])
  | some node =>
    cases node with
    | file text => simp [htarget, FolderOrNone] at hfolder
    | link goal => simp [htarget, FolderOrNone] at hfolder
    | folder entries =>
      simp only [found, if_true]
      refine wp_act_bind hstart (fun _ => trivial) rfl (serve_pathExists _) hstop
        fun fuse hfuse _ => ?_
      obtain rfl := hnofuse hfuse
      by_cases hfound : found lives (shelf (backupName pr)) = true
      · rw [hfound, only, if_pos rfl, act, bind_assoc, Prog.wp_bind, Prog.wp_perform]
        refine ⟨trivial, ?_⟩
        rw [step_rmtree htarget, Node.erase_none]
        exact hback _ (Shelf.set_of_ne htb.symm) (by simp [hfound])
      · rw [only, if_neg hfound, pure_bind]
        exact hback shelf rfl (by simp [hfound, htarget])

end Runs

/-! ## 8. The whole function -/

/-- The operations of the `try` before the directory is moved, or is found to be absent. -/
def writes (contents : List (String × String)) : Nat := 2 * contents.length + 2

/-- The handler of a run that got to the `try` finds its way back: a backup that was there
before is what the directory was; where there was no directory, the last look does not fail;
and the delete of the backup does not fail between its first removal and its last. -/
def Recoverable (lives : String → Bool) (pr : Int) (contents : List (String × String))
    (disk : Disk) : Prop :=
  if found lives (disk.shelf (backupName pr)) then
    disk.shelf (backupName pr) = disk.shelf (targetName pr)
  else
    match disk.shelf (targetName pr) with
    | none => disk.fuse ≠ some (6 + writes contents + 1)
    | some old => disk.shelf (backupName pr) = none →
      ∀ k, disk.fuse = some (7 + writes contents + 3 + k) →
        k ≤ old.firstRemoval ∨ old.removals ≤ k

section Runs

variable {lives : String → Bool} {suffix root : String} {pr : Int} {start : Disk}
  {contents : List (String × String)}

theorem recoverable_of_early {k : Nat} (hfound : found lives (start.shelf (backupName pr)) = false)
    (hk : start.fuse = some k)
    (hlt : k < looks (start.shelf (targetName pr)) + writes contents + 1) :
    Recoverable lives pr contents start := by
  rw [Recoverable, hfound, if_neg Bool.false_ne_true, hk]
  cases htarget : start.shelf (targetName pr) with
  | none =>
    rw [htarget, looks] at hlt
    intro heq
    have := Option.some.inj heq
    omega
  | some old =>
    rw [htarget, looks] at hlt
    intro _ k' heq
    have := Option.some.inj heq
    omega

/-- What the handler has to make good. -/
def Raised (lives : String → Bool) (pr : Int) (contents : List (String × String)) (start s : Disk) :
    Prop :=
  FolderOrNone (s.shelf (targetName pr)) ∧
    (restored lives pr s.shelf = start.shelf (targetName pr) ↔ Recoverable lives pr contents start)

theorem folderOrNone_of_replaceable : ∀ {node : Option Node}, Replaceable node → FolderOrNone node
  | none, _ => trivial
  | some (.folder _), _ => trivial
  | some (.file _), h => h
  | some (.link _), h => h

/-- Before anything is moved, only a backup that was there can mislead the handler. -/
theorem raised_of_unmoved {s : Disk} (hdirectory : Replaceable (start.shelf (targetName pr)))
    (htarget : s.shelf (targetName pr) = start.shelf (targetName pr))
    (hbackup : s.shelf (backupName pr) = start.shelf (backupName pr))
    (hrec : found lives (start.shelf (backupName pr)) = false →
      Recoverable lives pr contents start) :
    Raised lives pr contents start s := by
  refine ⟨htarget ▸ folderOrNone_of_replaceable hdirectory, ?_⟩
  rw [restored, hbackup, htarget]
  cases hfound : found lives (start.shelf (backupName pr)) with
  | true => simp [Recoverable, hfound]
  | false => simp [hrec hfound]

/-- The body of the `try` behind the writes. -/
def exchange (pr : Int) (temporary : String) (present : Bool) : FileProg Unit := do
  only present (act (.rename (targetName pr) (backupName pr)))
  act (.rename temporary (targetName pr))
  let kept ← act (.pathExists (backupName pr))
  only kept (act (.rmtree (backupName pr)))

section Exchange

variable {temporary : String} {shelf : Shelf} {fuse : Option Nat} {entries : Entries}

/-- Where there was no directory. -/
theorem wp_exchange_absent (hbm : backupName pr ≠ temporary)
    (hfound : found lives (start.shelf (backupName pr)) = false)
    (hnone : start.shelf (targetName pr) = none)
    (htarget : shelf (targetName pr) = none)
    (hbackup : shelf (backupName pr) = start.shelf (backupName pr))
    (htemporary : shelf temporary = some (.folder entries))
    (hfuse : fuse.map (· + (6 + writes contents)) = start.fuse) :
    (exchange pr temporary false).wp (fileSystem lives suffix)
      ⟨fun _ _ => Recoverable lives pr contents start,
        fun _ s => Raised lives pr contents start s, fun _ => True⟩
      { start with shelf, fuse } := by
  have htb := targetName_ne_backupName pr
  have hiff : Recoverable lives pr contents start ↔
      start.fuse ≠ some (6 + writes contents + 1) := by
    rw [Recoverable, hfound, if_neg Bool.false_ne_true, hnone]
  rw [exchange, only, if_neg Bool.false_ne_true, pure_bind]
  refine wp_act_bind hfuse (fun _ => trivial) rfl (serve_rename htemporary htarget)
    (fun hn => ?_) fun fuse hfuse _ => ?_
  · refine raised_of_unmoved (by rw [hnone]; trivial) (htarget.trans hnone.symm) hbackup fun _ =>
      recoverable_of_early hfound hn ?_
    rw [hnone, looks]
    omega
  have hkept : ((shelf.set temporary none).set (targetName pr) (some (.folder entries)))
      (backupName pr) = start.shelf (backupName pr) := by
    rw [Shelf.set_of_ne htb.symm, Shelf.set_of_ne hbm, hbackup]
  refine wp_act_bind hfuse (fun _ => trivial) rfl (serve_pathExists _) (fun hn => ?_)
    fun fuse _ hne => ?_
  · -- The new directory stays.
    refine ⟨by simp [FolderOrNone], ?_⟩
    simp only [restored, hkept, hfound, Bool.false_eq_true, if_false, Shelf.set_self, hnone, hiff]
    simp [hn]
  · rw [hkept, hfound, only, if_neg Bool.false_ne_true]
    exact (Prog.wp_pure ()).mpr (hiff.mpr hne)

/-- Where there was one, and no backup: it is moved, and the backup is deleted at the end. -/
theorem wp_exchange_present {old : Entries} (htm : targetName pr ≠ temporary)
    (hbm : backupName pr ≠ temporary)
    (hnone : start.shelf (backupName pr) = none)
    (hold : start.shelf (targetName pr) = some (.folder old))
    (hdirectory : Replaceable (start.shelf (targetName pr)))
    (htarget : shelf (targetName pr) = start.shelf (targetName pr))
    (hbackup : shelf (backupName pr) = none)
    (htemporary : shelf temporary = some (.folder entries))
    (hfuse : fuse.map (· + (7 + writes contents)) = start.fuse) :
    (exchange pr temporary true).wp (fileSystem lives suffix)
      ⟨fun _ _ => Recoverable lives pr contents start,
        fun _ s => Raised lives pr contents start s, fun _ => True⟩
      { start with shelf, fuse } := by
  have htb := targetName_ne_backupName pr
  have hfound : found lives (start.shelf (backupName pr)) = false := by rw [hnone]; rfl
  have hiff : Recoverable lives pr contents start ↔
      ∀ k, start.fuse = some (7 + writes contents + 3 + k) →
        k ≤ (Node.folder old).firstRemoval ∨ (Node.folder old).removals ≤ k := by
    rw [Recoverable, hfound, if_neg Bool.false_ne_true, hold]
    simp [hnone]
  have hearly : ∀ k, start.fuse = some k → k < 7 + writes contents + 3 →
      Recoverable lives pr contents start := by
    intro k hk hlt
    rw [hiff]
    intro k' hk'
    have := Option.some.inj (hk.symm.trans hk')
    omega
  rw [exchange, only, if_pos rfl]
  refine wp_act_bind hfuse (fun _ => trivial) rfl (serve_rename (htarget.trans hold) hbackup)
    (fun hn => ?_) fun fuse hfuse _ => ?_
  · exact raised_of_unmoved hdirectory htarget (hbackup.trans hnone.symm) fun _ =>
      hearly _ hn (by omega)
  -- From here on the old directory is the backup.
  have hraised : ∀ s : Disk, FolderOrNone (s.shelf (targetName pr)) →
      s.shelf (backupName pr) = some (.folder old) → Recoverable lives pr contents start →
      Raised lives pr contents start s := by
    intro s hs hb hrec
    refine ⟨hs, ?_⟩
    rw [restored, hb, hold]
    simp [found, hrec]
  have hsource : (shelf.set (targetName pr) none).set (backupName pr) (some (.folder old))
      temporary = some (.folder entries) := by
    rw [Shelf.set_of_ne hbm.symm, Shelf.set_of_ne htm.symm, htemporary]
  have hgone : (shelf.set (targetName pr) none).set (backupName pr) (some (.folder old))
      (targetName pr) = none := by
    rw [Shelf.set_of_ne htb, Shelf.set_self]
  refine wp_act_bind hfuse (fun _ => trivial) rfl (serve_rename hsource hgone)
    (fun hn => ?_) fun fuse hfuse _ => ?_
  · refine hraised _ ?_ (Shelf.set_self ..) (hearly _ hn (by omega))
    simp [Shelf.set_of_ne htb, FolderOrNone]
  have hkept : ((((shelf.set (targetName pr) none).set (backupName pr) (some (.folder old))).set
      temporary none).set (targetName pr) (some (.folder entries))) (backupName pr) =
        some (.folder old) := by
    rw [Shelf.set_of_ne htb.symm, Shelf.set_of_ne hbm, Shelf.set_self]
  refine wp_act_bind hfuse (fun _ => trivial) rfl (serve_pathExists _) (fun hn => ?_)
    fun fuse hfuse _ => ?_
  · exact hraised _ (by simp [FolderOrNone]) hkept (hearly _ hn (by omega))
  have hlives : found lives (some (.folder old)) = true := rfl
  rw [hkept, hlives, only, if_pos rfl, act, Prog.wp_bind, Prog.wp_perform]
  refine ⟨trivial, ?_⟩
  rw [step_rmtree hkept]
  refine Prog.wp_liftExcept.mpr ⟨fun _ hok => ?_, fun _ herror => ?_⟩
  · -- The delete went through.
    refine hiff.mpr fun k hk => .inr (Nat.le_of_not_lt fun hlt => ?_)
    obtain rfl : fuse = some k := fuse_of_map_add hfuse (by rw [hk]; congr 1; omega)
    obtain ⟨left, herase, -⟩ := (Node.folder old).erase_of_lt k hlt
    rw [herase] at hok
    cases hok
  · cases fuse with
    | none =>
      rw [Node.erase_none] at herror
      cases herror
    | some k =>
      have hk : start.fuse = some (7 + writes contents + 3 + k) := by
        rw [← hfuse, Option.map_some]
        congr 1
        omega
      have hlt : k < (Node.folder old).removals := by
        by_contra hge
        rw [Node.erase_of_le _ _ (Nat.not_lt.mp hge)] at herror
        cases herror
      obtain ⟨left, herase, hleft⟩ := (Node.folder old).erase_of_lt k hlt
      obtain ⟨rest, rfl⟩ := Node.erase_folder (congrArg Prod.fst herase)
      have hrec : Recoverable lives pr contents start ↔ k ≤ (Node.folder old).firstRemoval := by
        rw [hiff]
        constructor
        · intro h
          exact (h k hk).resolve_right (Nat.not_le.mpr hlt)
        · intro h k' hk'
          have := Option.some.inj (hk.symm.trans hk')
          exact .inl (by omega)
      refine ⟨by simp [Shelf.set_of_ne htb, FolderOrNone], ?_⟩
      simp only [restored, herase, Shelf.set_self, found, if_true, hold, Option.some.injEq]
      rw [hleft, hrec]

end Exchange

theorem rename_folder_onto_link {shelf : Shelf} {source target goal : String} {entries : Entries}
    (hsource : shelf source = some (.folder entries)) (htarget : shelf target = some (.link goal)) :
    shelf.rename source target = none := by
  rw [Shelf.rename, hsource, htarget]
  rfl

theorem wp_swap {fuse : Option Nat} (hsuffix : suffix.length = 8)
    (hdirectory : Replaceable (start.shelf (targetName pr)))
    (hfuse : fuse.map (· + looks (start.shelf (targetName pr))) = start.fuse) :
    (swap root pr contents (temporaryStart pr ++ suffix)).wp (fileSystem lives suffix)
      ⟨fun _ _ => Recoverable lives pr contents start,
        fun _ s => Raised lives pr contents start s, fun _ => True⟩
      { start with
        shelf := start.shelf.set (temporaryStart pr ++ suffix) (some (.folder .nil)), fuse } := by
  have htb := targetName_ne_backupName pr
  have htm := targetName_ne_temporary pr suffix
  have hbm : backupName pr ≠ temporaryStart pr ++ suffix := backupName_ne_temporary hsuffix
  generalize temporaryStart pr ++ suffix = temporary at *
  rw [swap, Prog.wp_bind]
  -- What a failure among the writes leaves.
  refine Prog.wp_le (wp_writeFiles contents .nil hfuse) ⟨?_, ?_, fun _ => id⟩
  · rintro - s ⟨fuse, entries, hfuse, rfl⟩
    have htarget : (start.shelf.set temporary (some (.folder entries))) (targetName pr) =
        start.shelf (targetName pr) := Shelf.set_of_ne htm
    have hbackup : (start.shelf.set temporary (some (.folder entries))) (backupName pr) =
        start.shelf (backupName pr) := Shelf.set_of_ne hbm
    have htemporary := Shelf.set_self start.shelf temporary (some (.folder entries))
    have hunmoved : ∀ fuse, (found lives (start.shelf (backupName pr)) = false →
        Recoverable lives pr contents start) → Raised lives pr contents start
          { start with shelf := start.shelf.set temporary (some (.folder entries)), fuse } :=
      fun _ hrec => raised_of_unmoved hdirectory htarget hbackup hrec
    refine wp_act_bind hfuse (fun _ => trivial) rfl (serve_pathExists _)
      (fun hn => hunmoved none fun hfound => recoverable_of_early hfound hn ?_)
      fun fuse hfuse _ => ?_
    · rw [writes]
      omega
    rw [hbackup, wp_ensure_bind]
    refine ⟨fun hstale => ?_, fun hstale => hunmoved fuse fun hfound => by simp [hfound] at hstale⟩
    have hfound : found lives (start.shelf (backupName pr)) = false := by simpa using hstale
    refine wp_act_bind hfuse (fun _ => trivial) rfl (serve_pathExists _)
      (fun hn => hunmoved none fun _ => recoverable_of_early hfound hn ?_)
      fun fuse hfuse _ => ?_
    · rw [writes]
      omega
    rw [htarget]
    cases hold : start.shelf (targetName pr) with
    | none =>
      refine wp_exchange_absent hbm hfound hold (htarget.trans hold) hbackup htemporary ?_
      simpa [hold, looks, writes, Nat.add_assoc] using hfuse
    | some node =>
      cases node with
      | file text => simp [hold, Replaceable] at hdirectory
      | link goal => simp [hold, Replaceable] at hdirectory
      | folder old =>
        cases hnone : start.shelf (backupName pr) with
        | none =>
          refine wp_exchange_present htm hbm hnone hold hdirectory htarget (hbackup.trans hnone)
            htemporary ?_
          simpa [hold, looks, writes, Nat.add_assoc] using hfuse
        | some node =>
          cases node with
          | file text => simp [hnone, found] at hfound
          | folder entries => simp [hnone, found] at hfound
          | link goal =>
            -- A link that leads nowhere is not found, and no folder can be renamed onto it.
            have hrename := rename_folder_onto_link (htarget.trans hold) (hbackup.trans hnone)
            have hlives : found lives (some (.folder old)) = true := rfl
            rw [hlives, only, if_pos rfl]
            refine wp_act_refused (e := .osError) (fun _ => trivial) rfl (fun fuse => ?_)
              fun _ fuse => hunmoved fuse fun _ => ?_
            · simp only [FileCall.serve, hrename]
            · rw [Recoverable, hfound, if_neg Bool.false_ne_true, hold]
              simp [hnone]
  · rintro - s ⟨⟨k, hk, hlt⟩, entries, hs⟩
    have htarget : s.shelf (targetName pr) = start.shelf (targetName pr) := by
      rw [hs, Shelf.set_of_ne htm]
    have hbackup : s.shelf (backupName pr) = start.shelf (backupName pr) := by
      rw [hs, Shelf.set_of_ne hbm]
    refine raised_of_unmoved hdirectory htarget hbackup fun hfound =>
      recoverable_of_early hfound hk ?_
    rw [writes]
    omega

end Runs

/-! ## 9. Atomicity -/

section Runs

variable {lives : String → Bool} {suffix root : String} {pr : Int}
  {contents : List (String × String)} {disk s s' t : Disk} {temporary : String} {e : Failure}

theorem replace_of_prepare
    (h : (prepare pr contents).run (fileSystem lives suffix) disk = (.error e, s)) :
    replaceEvidenceDirectory lives suffix root pr contents disk = (.error e, s) := by
  rw [replaceEvidenceDirectory, h]

theorem replace_of_swap
    (h : (prepare pr contents).run (fileSystem lives suffix) disk = (.ok temporary, s))
    (hswap : (swap root pr contents temporary).run (fileSystem lives suffix) s = (.ok (), s')) :
    replaceEvidenceDirectory lives suffix root pr contents disk =
      (.ok (root ++ "/docs/evidence/" ++ targetName pr), s') := by
  rw [replaceEvidenceDirectory, h]
  simp only [hswap]

theorem replace_of_undo {result : Except Failure Unit}
    (h : (prepare pr contents).run (fileSystem lives suffix) disk = (.ok temporary, s))
    (hswap : (swap root pr contents temporary).run (fileSystem lives suffix) s = (.error e, s'))
    (hundo : (undo pr temporary).run (fileSystem lives suffix) { s' with fuse := none } =
      (result, t)) :
    ∃ e, replaceEvidenceDirectory lives suffix root pr contents disk = (.error e, t) := by
  rw [replaceEvidenceDirectory, h]
  simp only [hswap, hundo]
  cases result with
  | ok _ => exact ⟨e, rfl⟩
  | error e' => exact ⟨e', rfl⟩

end Runs

/-- Whatever the function raises, the directory is what it was. -/
def AtomicOnFailure (lives : String → Bool) (suffix root : String) (pr : Int)
    (contents : List (String × String)) (disk : Disk) : Prop :=
  ∀ e after, replaceEvidenceDirectory lives suffix root pr contents disk = (.error e, after) →
    after.shelf (targetName pr) = disk.shelf (targetName pr)

/-- It is exactly when the run stops before the `try`, or the handler finds its way back. -/
theorem replacement_atomic_iff {lives : String → Bool} {suffix root : String} {pr : Int}
    {contents : List (String × String)} {disk : Disk} (hsuffix : suffix.length = 8) :
    AtomicOnFailure lives suffix root pr contents disk ↔
      (Enters pr contents disk → Recoverable lives pr contents disk) := by
  have hprepare := Prog.run_of_wp _ _ (@wp_prepare lives suffix pr disk contents)
  rcases hrun : (prepare pr contents).run (fileSystem lives suffix) disk with ⟨result, s⟩
  rw [hrun] at hprepare
  cases result with
  | error e =>
    obtain ⟨hnot, hshelf⟩ := hprepare
    constructor
    · intro _ henters
      exact absurd henters hnot
    · intro _ e' after heq
      rw [replace_of_prepare hrun] at heq
      cases heq
      rw [hshelf]
  | ok temporary =>
    obtain ⟨henters, rfl, fuse, hfuse, rfl⟩ := hprepare
    have hswap := Prog.run_of_wp _ _
      (@wp_swap lives suffix root pr disk contents fuse hsuffix henters.directory hfuse)
    rw [forall_prop_of_true henters]
    rcases hrun' : (swap root pr contents (temporaryStart pr ++ suffix)).run
      (fileSystem lives suffix) { disk with
        shelf := disk.shelf.set (temporaryStart pr ++ suffix) (some (.folder .nil)), fuse }
      with ⟨result, s⟩
    rw [hrun'] at hswap
    cases result with
    | ok _ =>
      constructor
      · intro _
        exact hswap
      · intro _ e after heq
        rw [replace_of_swap hrun hrun'] at heq
        cases heq
    | error e =>
      obtain ⟨hfolder, hiff⟩ := hswap
      have hne := targetName_ne_temporary pr suffix
      have hundo := Prog.run_of_wp _ _
        (@wp_undo lives suffix pr { s with fuse := none } _ hne _ hfolder rfl)
      rcases hrun'' : (undo pr (temporaryStart pr ++ suffix)).run (fileSystem lives suffix)
        { s with fuse := none } with ⟨result, t⟩
      have ht : t.shelf (targetName pr) = restored lives pr s.shelf := by
        rw [hrun''] at hundo
        cases result <;> exact hundo
      obtain ⟨e', heq⟩ := replace_of_undo hrun hrun' hrun''
      rw [← hiff, ← ht]
      constructor
      · intro h
        exact h e' t heq
      · intro h e'' after heq'
        rw [heq] at heq'
        cases heq'
        exact h

/-! ### Two failures that are not made good -/

namespace Sample

def contents : List (String × String) := evidenceFiles.map fun name => (name, "new")

/-- The directory of an earlier snapshot. -/
def earlier : Node := .folder
  (.cons "metadata.md" (.file "earlier") (.cons "diff.patch" (.file "earlier") .nil))

/-- The backup of a run that died. -/
def leftover : Node := .folder (.cons "metadata.md" (.file "older") .nil)

def stale : Disk :=
  ⟨false, false, fun name =>
    if name = "pr-7" then some earlier else if name = ".pr-7-backup" then some leftover else none,
    none⟩

/-- No backup: but the second file of the old directory cannot be deleted. -/
def torn : Disk :=
  ⟨false, false, fun name => if name = "pr-7" then some earlier else none, some 24⟩

/-- Without either there is nothing to go wrong. -/
def sound : Disk :=
  ⟨false, false, fun name => if name = "pr-7" then some earlier else none, some 20⟩

end Sample

/-- The stale backup replaces the directory, and so does the half of a backup. -/
theorem replacement_not_atomic :
    ¬AtomicOnFailure (fun _ => false) "abcdefgh" "/srv/repo" 7 Sample.contents Sample.stale ∧
      ¬AtomicOnFailure (fun _ => false) "abcdefgh" "/srv/repo" 7 Sample.contents Sample.torn := by
  constructor
  · intro h
    have hraised : (replaceEvidenceDirectory (fun _ => false) "abcdefgh" "/srv/repo" 7
        Sample.contents Sample.stale).1 = .error (.evidenceError
          "stale Evidence backup exists: /srv/repo/docs/evidence/.pr-7-backup") := by decide +kernel
    have hafter := h _ _ (Prod.ext hraised rfl)
    revert hafter
    decide +kernel
  · intro h
    have hraised : (replaceEvidenceDirectory (fun _ => false) "abcdefgh" "/srv/repo" 7
        Sample.contents Sample.torn).1 = .error .osError := by decide +kernel
    have hafter := h _ _ (Prod.ext hraised rfl)
    revert hafter
    decide +kernel

/-- A failure of the second rename is made good. -/
theorem replacement_atomic_sound :
    AtomicOnFailure (fun _ => false) "abcdefgh" "/srv/repo" 7 Sample.contents Sample.sound :=
  (replacement_atomic_iff (by decide)).mpr fun _ => by
    have hbackup : Sample.sound.shelf (backupName 7) = none := by decide +kernel
    have htarget : Sample.sound.shelf (targetName 7) = some Sample.earlier := by decide +kernel
    rw [Recoverable, hbackup, htarget]
    intro _ k hk
    have hwrites : writes Sample.contents = 12 := by decide +kernel
    have := Option.some.inj hk
    omega

end ProductPdfQr.Ao
