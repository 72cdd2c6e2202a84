/-
# What an inventory leaves out

The loop of `inventory` asks `is_dir` first, and `is_dir` follows links: a link to a directory
is passed over like a directory, although the walk never enters it.  Every other object that is
not a regular file is refused.
-/
import ProductPdfQr.BackupRecovery.Inventory

namespace ProductPdfQr.BackupRecovery

open Json

variable [Sha256]

/-! ## 1. A complete inventory -/

/-- Outside the excluded names, every file is listed, once, and there is nothing but files and
directories. -/
structure Complete (tree : FileTree) (excluded : List String) (files : List Json) : Prop where
  once : (files.map fun item => item.get "path").Nodup
  exact : ∀ item, item ∈ files ↔ ∃ path content, (path, Kind.file content) ∈ tree.nodes ∧
    isExcluded excluded path = false ∧ item = fileItem path content
  plain : ∀ node ∈ tree.nodes, isExcluded excluded node.1 = false →
    node.2 = .directory ∨ ∃ content, node.2 = .file content

/-- Refused, or complete. -/
def RefusesOrCompletes (root : SourceRoot) (excluded : List String) : Prop :=
  ∀ files, inventory root excluded = .ok files →
    ∃ tree, root.tree = some tree ∧ Complete tree excluded files

/-! ## 2. What the loop lets through -/

theorem fileItem_path (path : List String) (content : Bytes) :
    (fileItem path content).get "path" = .str (posix path) := by
  simp [fileItem, get_dict, lookupField]

omit [Sha256] in
/-- Different files have different texts. -/
theorem posix_injOn {tree : FileTree} {p q : List String} {a b : Kind}
    (hp : (p, a) ∈ tree.nodes) (hq : (q, b) ∈ tree.nodes) (h : posix p = posix q) : p = q := by
  obtain ⟨hpne, hpnames⟩ := tree.named _ hp
  obtain ⟨hqne, hqnames⟩ := tree.named _ hq
  have hsplit := congrArg (fun text : String => Text.split '/' text.toList) h
  simp only [split_posix hpne (List.all_eq_true.mp hpnames),
    split_posix hqne (List.all_eq_true.mp hqnames)] at hsplit
  exact pieces_injective hsplit

/-- The loop succeeds when nothing is left but directories, links to directories and files. -/
theorem collect_isOk {root : String} {excluded : List String}
    {nodes : List (List String × Kind)} :
    (∃ files, collect root excluded nodes = .ok files) ↔
      ∀ node ∈ nodes, isExcluded excluded node.1 = false →
        node.2.isDir = true ∨ ∃ content, node.2 = .file content := by
  induction nodes with
  | nil => exact ⟨fun _ => nofun, fun _ => ⟨[], rfl⟩⟩
  | cons node nodes ih =>
    obtain ⟨path, kind⟩ := node
    rw [List.forall_mem_cons, ← ih, collect]
    cases hex : isExcluded excluded path with
    | true => simp
    | false =>
      cases kind with
      | directory => simp [Kind.isDir]
      | link toDirectory =>
        cases toDirectory <;> simp [Kind.isDir, Kind.regular?]
      | special => simp [Kind.isDir, Kind.regular?]
      | file content =>
        cases hrest : collect root excluded nodes with
        | error e => simp [Kind.isDir, Kind.regular?, bind, Except.bind]
        | ok files => simp [Kind.isDir, Kind.regular?, bind, Except.bind, pure, Except.pure]

theorem listed_once (tree : FileTree) (excluded : List String) :
    (((listed excluded (sortedNodes tree)).map fun item => fileItem item.1 item.2).map
      fun item => item.get "path").Nodup := by
  rw [List.map_map]
  refine List.Nodup.map_on ?_ ?_
  · rintro ⟨p, a⟩ hp ⟨q, b⟩ hq h
    have hpath : posix p = posix q := by simpa [fileItem_path] using h
    have hpnode := (List.mem_insertionSort _).mp (mem_listed.mp hp).1
    have hqnode := (List.mem_insertionSort _).mp (mem_listed.mp hq).1
    obtain rfl := posix_injOn hpnode hqnode hpath
    have hsame := List.inj_on_of_nodup_map tree.distinct hpnode hqnode rfl
    rw [Prod.mk.injEq, Kind.file.injEq] at hsame
    rw [hsame.2]
  · have hpaths : ((listed excluded (sortedNodes tree)).map Prod.fst).Nodup :=
      (pairwise_listed tree excluded).imp fun {p q} hlt heq => by
        rw [heq] at hlt
        exact lt_irrefl _ hlt
    exact hpaths.of_map

/-- What is listed is listed once and completely; only a link to a directory can be missed. -/
theorem complete_iff {tree : FileTree} {excluded : List String} {files : List Json}
    {root : String} (h : collect root excluded (sortedNodes tree) = .ok files) :
    Complete tree excluded files ↔ ∀ node ∈ tree.nodes, isExcluded excluded node.1 = false →
      node.2 ≠ .link true := by
  have hkinds := collect_isOk.mp ⟨files, h⟩
  obtain rfl := collect_ok h
  constructor
  · intro hcomplete node hnode hex hlink
    rcases hcomplete.plain node hnode hex with hdir | ⟨content, hfile⟩
    · rw [hlink] at hdir
      cases hdir
    · rw [hlink] at hfile
      cases hfile
  · intro hlinks
    refine ⟨listed_once tree excluded, fun item => ?_, fun node hnode hex => ?_⟩
    · rw [List.mem_map]
      constructor
      · rintro ⟨⟨path, content⟩, hmem, rfl⟩
        obtain ⟨hnode, hex⟩ := mem_listed.mp hmem
        exact ⟨path, content, (List.mem_insertionSort _).mp hnode, hex, rfl⟩
      · rintro ⟨path, content, hnode, hex, rfl⟩
        exact ⟨(path, content), mem_listed.mpr ⟨(List.mem_insertionSort _).mpr hnode, hex⟩, rfl⟩
    · rcases hkinds node ((List.mem_insertionSort _).mpr hnode) hex with hdir | hfile
      · have hlink := hlinks node hnode hex
        obtain ⟨path, kind⟩ := node
        cases kind with
        | directory => exact .inl rfl
        | file content => exact .inr ⟨content, rfl⟩
        | special => cases hdir
        | link toDirectory =>
          cases toDirectory with
          | true => exact absurd rfl hlink
          | false => cases hdir
      · exact .inr hfile

/-! ## 3. When the inventory is complete -/

/-- The call is refused for what it is given, or for an object that the loop does refuse. -/
def RefusedAnyway (root : SourceRoot) (excluded : List String) : Prop :=
  root.tree = none ∨ Text.isAbsolute root.path = false ∨ excluded.any invalidExclusion = true ∨
    ∃ tree, root.tree = some tree ∧ ∃ node ∈ tree.nodes, isExcluded excluded node.1 = false ∧
      (node.2 = .link false ∨ node.2 = .special)

/-- No link to a directory stands outside the excluded names. -/
def NoLinkedDirectory (root : SourceRoot) (excluded : List String) : Prop :=
  ∀ tree, root.tree = some tree → ∀ node ∈ tree.nodes, isExcluded excluded node.1 = false →
    node.2 ≠ .link true

theorem inventory_isOk {root : SourceRoot} {excluded : List String} {files : List Json} :
    inventory root excluded = .ok files ↔ ∃ tree, root.tree = some tree ∧
      Text.isAbsolute root.path = true ∧ excluded.any invalidExclusion = false ∧
      collect root.path excluded (sortedNodes tree) = .ok files := by
  unfold inventory
  cases htree : root.tree with
  | none => simp
  | some tree =>
    cases habsolute : Text.isAbsolute root.path <;>
      cases hexclusion : excluded.any invalidExclusion <;> simp

/-- Without a link to a directory, what stops an inventory is one of the reasons above. -/
theorem refusedAnyway_iff {root : SourceRoot} {excluded : List String} :
    RefusedAnyway root excluded ↔ ∀ files, inventory root excluded ≠ .ok files := by
  simp only [ne_eq, inventory_isOk, not_exists]
  constructor
  · rintro (hnone | habsolute | hexclusion | ⟨tree, htree, node, hnode, hex, hkind⟩) files tree'
      ⟨htree', habsolute', hexclusion', hcollect⟩
    · rw [hnone] at htree'
      cases htree'
    · rw [habsolute] at habsolute'
      cases habsolute'
    · rw [hexclusion] at hexclusion'
      cases hexclusion'
    · obtain rfl := Option.some.inj (htree.symm.trans htree')
      rcases collect_isOk.mp ⟨files, hcollect⟩ node ((List.mem_insertionSort _).mpr hnode) hex
        with hdir | ⟨content, hfile⟩
      · rcases hkind with hkind | hkind <;> rw [hkind] at hdir <;> cases hdir
      · rcases hkind with hkind | hkind <;> rw [hkind] at hfile <;> cases hfile
  · intro hrefused
    by_contra hnot
    simp only [RefusedAnyway, not_or, Bool.not_eq_false, Bool.not_eq_true] at hnot
    obtain ⟨hsome, habsolute, hexclusion, hkinds⟩ := hnot
    obtain ⟨tree, htree⟩ := Option.ne_none_iff_exists'.mp hsome
    obtain ⟨files, hfiles⟩ : ∃ files, collect root.path excluded (sortedNodes tree) = .ok files := by
      refine collect_isOk.mpr fun node hnode hex => ?_
      have hplain : ¬(node.2 = .link false ∨ node.2 = .special) := fun hkind =>
        hkinds ⟨tree, htree, node, (List.mem_insertionSort _).mp hnode, hex, hkind⟩
      obtain ⟨path, kind⟩ := node
      cases kind with
      | directory => exact .inl rfl
      | file content => exact .inr ⟨content, rfl⟩
      | special => exact absurd (.inr rfl) hplain
      | link toDirectory =>
        cases toDirectory with
        | true => exact .inl rfl
        | false => exact absurd (.inl rfl) hplain
    exact hrefused files tree ⟨htree, habsolute, hexclusion, hfiles⟩

/-- A volume whose only entry is a link to a directory. -/
def linkedVolume : FileTree where
  nodes := [(["versions"], .link true)]
  named := by decide
  distinct := by decide
  closed := by decide

end ProductPdfQr.BackupRecovery
