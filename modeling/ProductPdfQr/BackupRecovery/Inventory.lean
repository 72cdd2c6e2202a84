/-
# The inventory of a file tree

`inventory`: every regular file below a directory with its size and the digest of its content,
in the order of the paths.  Anything that is neither a regular file nor a directory is refused.
-/
import Mathlib.Data.Char
import Mathlib.Data.List.Lex
import Mathlib.Data.List.Sort
import ProductPdfQr.Digest
import ProductPdfQr.Paths

namespace ProductPdfQr.BackupRecovery

open Json

/-! ## 1. File trees -/

/-- `SafetyError`. -/
structure SafetyError where
  message : String
  deriving DecidableEq, Repr

/-- What stands at a path. -/
inductive Kind
  | directory
  | file (content : Bytes)
  /-- A symbolic link, to a directory or to anything else. -/
  | link (toDirectory : Bool)
  /-- A device, a socket or a pipe. -/
  | special
  deriving DecidableEq

namespace Kind

/-- `path.is_dir()`, which follows links. -/
def isDir : Kind → Bool
  | directory => true
  | link toDirectory => toDirectory
  | _ => false

/-- The content, `if path.is_file() and not path.is_symlink()`. -/
def regular? : Kind → Option Bytes
  | file content => some content
  | _ => none

end Kind

/-- What an entry of a directory can be called. -/
def isName (name : String) : Bool :=
  name ≠ "" && !name.toList.contains '/' && name ≠ "." && name ≠ ".."

/-- Everything below a directory, each with its path from there.  A link to a directory is not
followed. -/
structure FileTree where
  nodes : List (List String × Kind)
  named : ∀ node ∈ nodes, node.1 ≠ [] ∧ node.1.all isName = true
  distinct : (nodes.map Prod.fst).Nodup
  /-- Only directories have something below them. -/
  closed : ∀ node ∈ nodes, node.1.dropLast = [] ∨ (node.1.dropLast, Kind.directory) ∈ nodes

/-- A source root: its path, and what is below it when it is a directory. -/
structure SourceRoot where
  path : String
  tree : Option FileTree

/-! ## 2. The inventory -/

/-- The pieces of a path, as they are compared. -/
def pieces (path : List String) : List (List Char) := path.map String.toList

/-- `relative_path.as_posix()`. -/
def posix (path : List String) : String := String.ofList (Paths.joined '/' (pieces path))

/-- `sorted(root.rglob("*"))`: the order of the pieces. -/
def sortedNodes (tree : FileTree) : List (List String × Kind) :=
  tree.nodes.insertionSort fun a b => pieces a.1 ≤ pieces b.1

/-- `excluded`, of a path from the root. -/
def isExcluded (excluded : List String) (path : List String) : Bool :=
  path.head?.any excluded.contains

/-- A name that excludes nothing. -/
def invalidExclusion (name : String) : Bool :=
  name = "" || name = "." || name = ".." || name.toList.contains '/' || name.toList.contains '\\'

variable [Sha256]

/-- One item of the inventory. -/
def fileItem (path : List String) (content : Bytes) : Json :=
  dict [("path", .str (posix path)), ("size", .int content.size), ("sha256", .str (hexdigest content))]

/-- The loop of `inventory`. -/
def collect (root : String) (excluded : List String) :
    List (List String × Kind) → Except SafetyError (List Json)
  | [] => .ok []
  | (path, kind) :: rest =>
    if kind.isDir || isExcluded excluded path then collect root excluded rest
    else match kind.regular? with
      | some content => do
        let objects ← collect root excluded rest
        return fileItem path content :: objects
      | none => .error ⟨s!"source object is not a regular file: {root}/{posix path}"⟩

/-- `inventory`. -/
def inventory (root : SourceRoot) (excluded : List String) : Except SafetyError (List Json) :=
  match root.tree with
  | some tree =>
    if Text.isAbsolute root.path then
      if excluded.any invalidExclusion then .error ⟨"invalid inventory exclusion"⟩
      else collect root.path excluded (sortedNodes tree)
    else .error ⟨"source root must be an existing absolute directory"⟩
  | none => .error ⟨"source root must be an existing absolute directory"⟩

/-! ## 3. What it lists -/

/-- A regular file that no name excludes. -/
def FileTree.Lists (tree : FileTree) (excluded path : List String) : Prop :=
  (∃ content, (path, Kind.file content) ∈ tree.nodes) ∧ isExcluded excluded path = false

/-- The files among `nodes` that no name excludes. -/
def listed (excluded : List String) (nodes : List (List String × Kind)) :
    List (List String × Bytes) :=
  nodes.filterMap fun node =>
    if isExcluded excluded node.1 then none else node.2.regular?.map fun content => (node.1, content)

theorem collect_ok {root : String} {excluded : List String} {nodes : List (List String × Kind)}
    {files : List Json} (h : collect root excluded nodes = .ok files) :
    files = (listed excluded nodes).map fun item => fileItem item.1 item.2 := by
  induction nodes generalizing files with
  | nil => exact (Except.ok.inj h).symm
  | cons node nodes ih =>
    obtain ⟨path, kind⟩ := node
    rw [collect] at h
    rw [listed, List.filterMap_cons]
    split at h
    · next hskip =>
      have hnone : (if isExcluded excluded path then none
          else kind.regular?.map fun content => (path, content)) = none := by
        rcases Bool.or_eq_true_iff.mp hskip with hdir | hex
        · cases kind <;> simp_all [Kind.isDir, Kind.regular?]
        · rw [if_pos hex]
      rw [hnone]
      exact ih h
    · next hkeep =>
      have hex : isExcluded excluded path = false := by
        cases hex : isExcluded excluded path with
        | false => rfl
        | true => exact absurd (by rw [hex, Bool.or_true]) hkeep
      split at h
      · next content hcontent =>
        rw [hex, if_neg Bool.false_ne_true, hcontent]
        cases hrest : collect root excluded nodes with
        | error e =>
          rw [hrest] at h
          cases h
        | ok objects =>
          rw [hrest] at h
          obtain rfl := Except.ok.inj h
          rw [ih hrest]
          rfl
      · cases h

theorem inventory_ok {root : SourceRoot} {excluded : List String} {files : List Json}
    (h : inventory root excluded = .ok files) : ∃ tree, root.tree = some tree ∧
      files = (listed excluded (sortedNodes tree)).map fun item => fileItem item.1 item.2 := by
  unfold inventory at h
  split at h
  · next tree htree =>
    split at h
    · split at h
      · cases h
      · exact ⟨tree, htree, collect_ok h⟩
    · cases h
  · cases h

omit [Sha256] in
theorem listed_eq_some {excluded : List String} {node : List String × Kind}
    {item : List String × Bytes} (h : (if isExcluded excluded node.1 then none
      else node.2.regular?.map fun content => (node.1, content)) = some item) :
    node = (item.1, .file item.2) ∧ isExcluded excluded item.1 = false := by
  obtain ⟨path, kind⟩ := node
  split at h
  · cases h
  · next hex =>
    cases kind with
    | file content =>
      obtain rfl := Option.some.inj h
      exact ⟨rfl, by simpa using hex⟩
    | directory => cases h
    | link toDirectory => cases h
    | special => cases h

omit [Sha256] in
theorem mem_listed {excluded : List String} {nodes : List (List String × Kind)}
    {path : List String} {content : Bytes} :
    (path, content) ∈ listed excluded nodes ↔
      (path, Kind.file content) ∈ nodes ∧ isExcluded excluded path = false := by
  simp only [listed, List.mem_filterMap]
  constructor
  · rintro ⟨node, hnode, heq⟩
    obtain ⟨rfl, hex⟩ := listed_eq_some heq
    exact ⟨hnode, hex⟩
  · rintro ⟨hnode, hex⟩
    exact ⟨_, hnode, by rw [hex]; rfl⟩

omit [Sha256] in
theorem lists_iff {tree : FileTree} {excluded path : List String} :
    tree.Lists excluded path ↔
      path ∈ (listed excluded (sortedNodes tree)).map Prod.fst := by
  simp only [FileTree.Lists, List.mem_map, Prod.exists, exists_and_right, exists_eq_right,
    mem_listed, sortedNodes, List.mem_insertionSort]

omit [Sha256] in
/-- The names of a listed path are names. -/
theorem FileTree.Lists.named {tree : FileTree} {excluded path : List String}
    (h : tree.Lists excluded path) : path ≠ [] ∧ ∀ name ∈ path, isName name = true := by
  obtain ⟨⟨content, hnode⟩, -⟩ := h
  obtain ⟨hne, hall⟩ := tree.named _ hnode
  exact ⟨hne, fun name hname => List.all_eq_true.mp hall name hname⟩

/-! ## 4. Paths and their texts -/

omit [Sha256] in
theorem split_of_not_mem {sep : Char} {piece : List Char} (h : sep ∉ piece) :
    Text.split sep piece = [piece] := by
  induction piece with
  | nil => rfl
  | cons c piece ih =>
    have hc : c ≠ sep := by
      rintro rfl
      exact h (List.mem_cons_self ..)
    rw [Text.split, if_neg hc, ih fun hmem => h (List.mem_cons_of_mem _ hmem)]

omit [Sha256] in
theorem split_append {sep : Char} {piece : List Char} (h : sep ∉ piece) (rest : List Char) :
    Text.split sep (piece ++ sep :: rest) = piece :: Text.split sep rest := by
  induction piece with
  | nil => rw [List.nil_append, Text.split, if_pos rfl]
  | cons c piece ih =>
    have hc : c ≠ sep := by
      rintro rfl
      exact h (List.mem_cons_self ..)
    rw [List.cons_append, Text.split, if_neg hc, ih fun hmem => h (List.mem_cons_of_mem _ hmem)]

omit [Sha256] in
/-- The text of a path falls apart into its pieces. -/
theorem split_joined {sep : Char} {path : List (List Char)} (hne : path ≠ [])
    (h : ∀ piece ∈ path, sep ∉ piece) : Text.split sep (Paths.joined sep path) = path := by
  induction path with
  | nil => exact absurd rfl hne
  | cons piece path ih =>
    have hpiece := h piece (List.mem_cons_self ..)
    by_cases hnil : path = []
    · rw [hnil, Paths.joined, List.intercalate_singleton, split_of_not_mem hpiece]
    · rw [Paths.joined_cons hnil, split_append hpiece,
        ih hnil fun piece' hmem => h piece' (List.mem_cons_of_mem _ hmem)]

omit [Sha256] in
theorem separator_not_mem {path : List String} (h : ∀ name ∈ path, isName name = true) :
    ∀ piece ∈ pieces path, '/' ∉ piece := by
  intro piece hpiece
  obtain ⟨name, hname, rfl⟩ := List.mem_map.mp hpiece
  have hall := h name hname
  simp only [isName, Bool.and_eq_true, Bool.not_eq_true', List.contains_eq_mem,
    decide_eq_false_iff_not] at hall
  exact hall.1.1.2

omit [Sha256] in
theorem split_posix {path : List String} (hne : path ≠ [])
    (h : ∀ name ∈ path, isName name = true) :
    Text.split '/' (posix path).toList = pieces path := by
  rw [posix, String.toList_ofList]
  exact split_joined (fun hnil => hne (List.map_eq_nil_iff.mp hnil)) (separator_not_mem h)

omit [Sha256] in
/-- No piece of such a path is empty or leads upwards. -/
theorem piece_named {path : List String} (h : ∀ name ∈ path, isName name = true) :
    ∀ piece ∈ pieces path, piece ≠ [] ∧ piece ≠ ['.', '.'] := by
  intro piece hpiece
  obtain ⟨name, hname, rfl⟩ := List.mem_map.mp hpiece
  have hall := h name hname
  simp only [isName, Bool.and_eq_true, decide_eq_true_eq] at hall
  constructor
  · intro hnil
    exact hall.1.1.1 (String.toList_inj.mp hnil)
  · intro hup
    exact hall.2 (String.toList_inj.mp (hup.trans (by decide : ['.', '.'] = "..".toList)))

/-! ## 5. In which order -/

omit [Sha256] in
theorem pieces_injective : Function.Injective pieces :=
  List.map_injective_iff.mpr fun _ _ => String.toList_inj.mp

omit [Sha256] in
/-- The pieces of what is listed ascend. -/
theorem pairwise_listed (tree : FileTree) (excluded : List String) :
    ((listed excluded (sortedNodes tree)).map Prod.fst).Pairwise
      fun p q => pieces p < pieces q := by
  have hsorted : (sortedNodes tree).Pairwise fun a b => pieces a.1 ≤ pieces b.1 := by
    have : Std.Total (fun a b : List String × Kind => pieces a.1 ≤ pieces b.1) :=
      ⟨fun a b => le_total (pieces a.1) (pieces b.1)⟩
    have : IsTrans (List String × Kind) (fun a b => pieces a.1 ≤ pieces b.1) :=
      ⟨fun _ _ _ => le_trans⟩
    exact List.pairwise_insertionSort _ _
  have hdistinct : (sortedNodes tree).Pairwise fun a b => a.1 ≠ b.1 := by
    have hperm := (List.perm_insertionSort (fun a b => pieces a.1 ≤ pieces b.1) tree.nodes).symm
    exact List.pairwise_map.mp ((hperm.map Prod.fst).nodup_iff.mp tree.distinct)
  have hstrict : (sortedNodes tree).Pairwise fun a b => pieces a.1 < pieces b.1 :=
    (hsorted.and hdistinct).imp fun ⟨hle, hne⟩ =>
      lt_of_le_of_ne hle fun heq => hne (pieces_injective heq)
  rw [List.pairwise_map, listed, List.pairwise_filterMap]
  refine hstrict.imp fun {a b} hlt x hx y hy => ?_
  obtain ⟨rfl, -⟩ := listed_eq_some hx
  obtain ⟨rfl, -⟩ := listed_eq_some hy
  exact hlt

/-- No listed file overtakes another: where a listed path goes on below a name, no listed path
has, in the same directory, a name that goes on with a character smaller than the separator. -/
def FileTree.NoneOvertaken (tree : FileTree) (excluded : List String) : Prop :=
  ∀ p q, tree.Lists excluded p → tree.Lists excluded q →
    ¬Paths.Overtaken '/' (pieces p) (pieces q)

omit [Sha256] in
/-- The paths of the listed files ascend as texts exactly when none overtakes another. -/
theorem pairwise_posix_iff (tree : FileTree) (excluded : List String) :
    (((listed excluded (sortedNodes tree)).map Prod.fst).map posix).Pairwise (· < ·) ↔
      tree.NoneOvertaken excluded := by
  have hpieces := pairwise_listed tree excluded
  have htext : ∀ p q, posix p < posix q ↔
      Paths.joined '/' (pieces p) < Paths.joined '/' (pieces q) := by
    intro p q
    rw [posix, posix, String.lt_iff, String.toList_ofList, String.toList_ofList]
  have hiff : ∀ p q, tree.Lists excluded p → tree.Lists excluded q → pieces p < pieces q →
      (posix p < posix q ↔ ¬Paths.Overtaken '/' (pieces p) (pieces q)) := by
    intro p q hp hq hlt
    rw [htext]
    refine Paths.joined_lt_iff ?_ (separator_not_mem hq.named.2) hlt
    exact fun hnil => hp.named.1 (List.map_eq_nil_iff.mp hnil)
  rw [List.pairwise_map, Paths.pairwise_iff_of_asymm hpieces fun _ _ => lt_asymm]
  constructor
  · intro h p q hp hq hover
    have hlt := h p (lists_iff.mp hp) q (lists_iff.mp hq) hover.lt
    exact (hiff p q hp hq hover.lt).mp hlt hover
  · intro h p hp q hq hlt
    exact (hiff p q (lists_iff.mpr hp) (lists_iff.mpr hq) hlt).mpr
      (h p q (lists_iff.mpr hp) (lists_iff.mpr hq))

end ProductPdfQr.BackupRecovery
