/-
# Files, folders and operations that may fail

A folder is a finite tree of named nodes.  `Shelf` is one folder seen from outside, each name
with the node it has, which is all that renaming and looking need.

Operations fail by a fuse: the number of operations that still succeed before one is refused.
`Node.erase` is a recursive delete under a fuse: it reads a folder, deletes what is in it in the
order of its entries, then the folder, and stops where the fuse blows.  `removals` counts its
operations and `firstRemoval` those before it deletes anything, and these two numbers say what
a failed delete leaves: everything (`Node.erase_of_lt`) or less.
-/
import Mathlib.Data.Option.Basic

namespace ProductPdfQr.Effect

/-! ## 1. Fuses -/

/-- One operation: `none` when it is the one that fails. -/
def spend : Option Nat → Option (Option Nat)
  | none => some none
  | some 0 => none
  | some (n + 1) => some (some n)

@[simp] theorem spend_none : spend none = some none := rfl

@[simp] theorem spend_zero : spend (some 0) = none := rfl

@[simp] theorem spend_succ (n : Nat) : spend (some (n + 1)) = some (some n) := rfl

/-- A fuse that has come down by `n` had `n` to spend. -/
theorem le_of_map_add {fuse start : Option Nat} {n : Nat} (h : fuse.map (· + n) = start) {k : Nat}
    (hk : start = some k) : n ≤ k := by
  rw [hk, Option.map_eq_some_iff] at h
  obtain ⟨m, -, rfl⟩ := h
  exact Nat.le_add_left n m

theorem fuse_of_map_add {fuse start : Option Nat} {n k : Nat} (h : fuse.map (· + n) = start)
    (hk : start = some (k + n)) : fuse = some k := by
  rw [hk, Option.map_eq_some_iff] at h
  obtain ⟨m, hm, heq⟩ := h
  rw [hm, Nat.add_right_cancel heq]

/-! ## 2. Trees -/

mutual

/-- What a name in a folder can be. -/
inductive Node where
  | file (text : String)
  | link (goal : String)
  | folder (entries : Entries)

/-- The entries of a folder, in the order in which they are read. -/
inductive Entries where
  | nil
  | cons (name : String) (node : Node) (rest : Entries)

end

deriving instance DecidableEq, Repr for Node, Entries

namespace Entries

def names : Entries → List String
  | nil => []
  | cons name _ rest => name :: rest.names

def length : Entries → Nat
  | nil => 0
  | cons _ _ rest => rest.length + 1

/-- Write an entry: in its place if the name is there, behind the others if not. -/
def set (name : String) (node : Node) : Entries → Entries
  | nil => cons name node nil
  | cons name' node' rest =>
    if name' = name then cons name' node rest else cons name' node' (rest.set name node)

end Entries

/-! ## 3. Recursive delete -/

mutual

/-- Delete a node: what is left of it (nothing when all went well), and the fuse. -/
def Node.erase : Node → Option Nat → Option Node × Option Nat
  | .file text, fuse =>
    match spend fuse with
    | none => (some (.file text), none)
    | some fuse => (none, fuse)
  | .link goal, fuse =>
    match spend fuse with
    | none => (some (.link goal), none)
    | some fuse => (none, fuse)
  | .folder entries, fuse =>
    match spend fuse with
    | none => (some (.folder entries), none)
    | some fuse =>
      match entries.erase fuse with
      | (.nil, fuse) =>
        match spend fuse with
        | none => (some (.folder .nil), none)
        | some fuse => (none, fuse)
      | (.cons name node rest, fuse) => (some (.folder (.cons name node rest)), fuse)

/-- Delete the entries of a folder, in order. -/
def Entries.erase : Entries → Option Nat → Entries × Option Nat
  | .nil, fuse => (.nil, fuse)
  | .cons name node rest, fuse =>
    match node.erase fuse with
    | (none, fuse) => rest.erase fuse
    | (some left, fuse) => (.cons name left rest, fuse)

end

mutual

/-- The operations of a delete. -/
def Node.removals : Node → Nat
  | .file _ => 1
  | .link _ => 1
  | .folder entries => entries.removals + 2

def Entries.removals : Entries → Nat
  | .nil => 0
  | .cons _ node rest => node.removals + rest.removals

end

mutual

/-- The operations of a delete before it deletes anything: the folders it reads on its way to
the first leaf. -/
def Node.firstRemoval : Node → Nat
  | .file _ => 0
  | .link _ => 0
  | .folder entries => entries.firstRemoval + 1

def Entries.firstRemoval : Entries → Nat
  | .nil => 0
  | .cons _ node _ => node.firstRemoval

end

mutual

theorem Node.firstRemoval_lt : ∀ node : Node, node.firstRemoval < node.removals
  | .file _ => Nat.one_pos
  | .link _ => Nat.one_pos
  | .folder entries => by
    have := entries.firstRemoval_le
    simp only [Node.firstRemoval, Node.removals]
    omega

theorem Entries.firstRemoval_le : ∀ entries : Entries, entries.firstRemoval ≤ entries.removals
  | .nil => Nat.le_refl 0
  | .cons _ node rest => by
    have := node.firstRemoval_lt
    simp only [Entries.firstRemoval, Entries.removals]
    omega

end

mutual

/-- Without a fault a delete deletes everything. -/
theorem Node.erase_none : ∀ node : Node, node.erase none = (none, none)
  | .file _ => rfl
  | .link _ => rfl
  | .folder entries => by simp [Node.erase, entries.erase_none]

theorem Entries.erase_none : ∀ entries : Entries, entries.erase none = (.nil, none)
  | .nil => rfl
  | .cons _ node rest => by simp [Entries.erase, node.erase_none, rest.erase_none]

end

mutual

/-- So does one whose fuse lasts. -/
theorem Node.erase_of_le : ∀ (node : Node) (n : Nat), node.removals ≤ n →
    node.erase (some n) = (none, some (n - node.removals))
  | .file _, n + 1, _ => rfl
  | .link _, n + 1, _ => rfl
  | .folder entries, n + 1, h => by
    simp only [Node.removals] at h ⊢
    obtain ⟨m, hm⟩ : ∃ m, n - entries.removals = m + 1 := ⟨n - entries.removals - 1, by omega⟩
    have hn : m = n + 1 - (entries.removals + 2) := by omega
    simp [Node.erase, entries.erase_of_le n (by omega), hm, hn]

theorem Entries.erase_of_le : ∀ (entries : Entries) (n : Nat), entries.removals ≤ n →
    entries.erase (some n) = (.nil, some (n - entries.removals))
  | .nil, _, _ => rfl
  | .cons _ node rest, n, h => by
    simp only [Entries.removals] at h ⊢
    have hrest := rest.erase_of_le (n - node.removals) (by omega)
    simp [Entries.erase, node.erase_of_le n (by omega), hrest, Nat.sub_add_eq]

end

theorem Entries.length_erase_le : ∀ (entries : Entries) (fuse : Option Nat),
    (entries.erase fuse).1.length ≤ entries.length
  | .nil, _ => Nat.le_refl 0
  | .cons name node rest, fuse => by
    rw [Entries.erase]
    rcases node.erase fuse with ⟨left, fuse'⟩
    cases left with
    | none => exact Nat.le_succ_of_le (rest.length_erase_le fuse')
    | some left => exact Nat.le_refl _

mutual

/-- A delete that stops early leaves something, and all of it only if it had deleted nothing. -/
theorem Node.erase_of_lt : ∀ (node : Node) (n : Nat), n < node.removals →
    ∃ left, node.erase (some n) = (some left, none) ∧ (left = node ↔ n ≤ node.firstRemoval)
  | .file text, 0, _ => ⟨.file text, rfl, by simp⟩
  | .link goal, 0, _ => ⟨.link goal, rfl, by simp⟩
  | .file _, n + 1, h => by simp [Node.removals] at h
  | .link _, n + 1, h => by simp [Node.removals] at h
  | .folder entries, 0, _ => ⟨.folder entries, rfl, by simp⟩
  | .folder entries, n + 1, h => by
    simp only [Node.removals, Node.firstRemoval] at h ⊢
    have hfirst := entries.firstRemoval_le
    rcases Nat.lt_or_ge n entries.removals with hlt | hge
    · obtain ⟨name, node, rest, herase, hiff⟩ := entries.erase_of_lt n hlt
      refine ⟨.folder (.cons name node rest), by simp [Node.erase, herase], ?_⟩
      rw [Node.folder.injEq, hiff]
      omega
    · have hn : n = entries.removals := by omega
      have herase := entries.erase_of_le n hge
      rw [hn, Nat.sub_self] at herase
      refine ⟨.folder .nil, by simp [Node.erase, herase, hn], ?_⟩
      rw [Node.folder.injEq]
      cases entries with
      | nil => simp [Entries.removals] at hn; simp [hn]
      | cons _ node rest =>
        have := node.firstRemoval_lt
        simp only [Entries.removals, Entries.firstRemoval, reduceCtorEq, false_iff] at hn ⊢
        omega

theorem Entries.erase_of_lt : ∀ (entries : Entries) (n : Nat), n < entries.removals →
    ∃ name node rest, entries.erase (some n) = (.cons name node rest, none) ∧
      (Entries.cons name node rest = entries ↔ n ≤ entries.firstRemoval)
  | .nil, n, h => absurd h (Nat.not_lt_zero n)
  | .cons name node rest, n, h => by
    simp only [Entries.removals, Entries.firstRemoval] at h ⊢
    rcases Nat.lt_or_ge n node.removals with hlt | hge
    · obtain ⟨left, herase, hiff⟩ := node.erase_of_lt n hlt
      refine ⟨name, left, rest, by simp [Entries.erase, herase], ?_⟩
      rw [Entries.cons.injEq, ← hiff]
      simp
    · obtain ⟨name', node', rest', herase, -⟩ := rest.erase_of_lt (n - node.removals) (by omega)
      have hshort := rest.length_erase_le (some (n - node.removals))
      rw [herase, Entries.length] at hshort
      refine ⟨name', node', rest', by simp [Entries.erase, node.erase_of_le n hge, herase], ?_⟩
      have := node.firstRemoval_lt
      constructor
      · intro heq
        have := congrArg Entries.length heq
        simp only [Entries.length] at this
        omega
      · intro hle
        omega

end

/-- What is left of a folder is a folder. -/
theorem Node.erase_folder {entries : Entries} {fuse : Option Nat} {left : Node}
    (h : ((Node.folder entries).erase fuse).1 = some left) : ∃ rest, left = .folder rest := by
  rw [Node.erase] at h
  split at h
  · exact ⟨entries, (Option.some.inj h).symm⟩
  · split at h
    · split at h
      · exact ⟨.nil, (Option.some.inj h).symm⟩
      · cases h
    · exact ⟨_, (Option.some.inj h).symm⟩

/-! ## 4. One folder from outside -/

/-- The names in a folder. -/
abbrev Shelf := String → Option Node

namespace Shelf

def set (shelf : Shelf) (name : String) (node : Option Node) : Shelf :=
  fun other => if other = name then node else shelf other

@[simp] theorem set_self (shelf : Shelf) (name : String) (node : Option Node) :
    shelf.set name node name = node := if_pos rfl

theorem set_of_ne {shelf : Shelf} {name other : String} {node : Option Node} (h : other ≠ name) :
    shelf.set name node other = shelf other := if_neg h

@[simp] theorem set_set (shelf : Shelf) (name : String) (node node' : Option Node) :
    (shelf.set name node).set name node' = shelf.set name node' := by
  funext other
  by_cases h : other = name <;> simp [set, h]

/-- What may be renamed onto what: anything onto nothing, a folder onto an empty one, what is
not a folder onto what is not one. -/
def replaces : Node → Option Node → Bool
  | _, none => true
  | .folder _, some (.folder .nil) => true
  | .folder _, some _ => false
  | _, some (.folder _) => false
  | _, some _ => true

/-- `rename`, refused where the system refuses it. -/
def rename (shelf : Shelf) (source target : String) : Option Shelf :=
  match shelf source with
  | none => none
  | some node =>
    if replaces node (shelf target) then some ((shelf.set source none).set target (some node))
    else none

theorem rename_of_none {shelf : Shelf} {source target : String} {node : Node}
    (hsource : shelf source = some node) (htarget : shelf target = none) :
    shelf.rename source target = some ((shelf.set source none).set target (some node)) := by
  rw [rename, hsource, htarget]
  cases node <;> rfl

end Shelf

def isLink : Option Node → Bool
  | some (.link _) => true
  | _ => false

/-- Whether something is found under a name: a link counts when it leads somewhere. -/
def found (lives : String → Bool) : Option Node → Bool
  | none => false
  | some (.link goal) => lives goal
  | some _ => true

end ProductPdfQr.Effect
