/-
# Buckets

The objects of a bucket by their keys, and the commands of `rclone` that list, read, create and
delete them.  A directory is nothing but what the keys have in common, and a listing is a text:
an object may have a name of several lines.

An object is stored whole or not at all.
-/
import ProductPdfQr.Effect.Prog
import ProductPdfQr.DeployRollback.Lines
import Mathlib.Data.Finmap
import Mathlib.Data.Finset.Sort
import Mathlib.Data.List.TakeWhile
import Mathlib.Data.String.Basic

namespace ProductPdfQr.Rclone

open Effect DeployRollback.AuditLog

/-! ## 1. Keys -/

/-- `target.rsplit("/", 1)`: the directory of a key and its name there. -/
def parentAndName (target : String) : Option (String × String) :=
  match target.toList.reverse.dropWhile (· ≠ '/') with
  | [] => none
  | _ :: parent =>
    some (String.ofList parent.reverse,
      String.ofList (target.toList.reverse.takeWhile (· ≠ '/')).reverse)

/-- A name without a separator. -/
def Plain (name : String) : Prop := '/' ∉ name.toList

theorem parentAndName_append {name : String} (h : Plain name) (dir : String) :
    parentAndName (dir ++ "/" ++ name) = some (dir, name) := by
  have hlist : (dir ++ "/" ++ name).toList.reverse =
      name.toList.reverse ++ '/' :: dir.toList.reverse := by
    simp [String.toList_append]
  have hname : ∀ c ∈ name.toList.reverse, (decide (c ≠ '/')) = true := by
    intro c hc
    refine decide_eq_true fun heq => ?_
    rw [heq] at hc
    exact h (List.mem_reverse.mp hc)
  rw [parentAndName, hlist, List.dropWhile_append_of_pos hname,
    List.dropWhile_cons_of_neg (by simp), List.takeWhile_append_of_pos hname,
    List.takeWhile_cons_of_neg (by simp)]
  simp

theorem eq_of_parentAndName {target dir name : String}
    (h : parentAndName target = some (dir, name)) :
    target = dir ++ "/" ++ name ∧ Plain name := by
  unfold parentAndName at h
  split at h
  · cases h
  · rename_i sep parent hdrop
    obtain ⟨rfl, rfl⟩ := Prod.mk.inj (Option.some.inj h)
    have hsep : sep = '/' := by
      have hhead := List.head?_dropWhile_not (· ≠ '/') target.toList.reverse
      rw [hdrop] at hhead
      simpa using hhead
    have hwhole := List.takeWhile_append_dropWhile (p := (· ≠ '/')) (l := target.toList.reverse)
    rw [hdrop, hsep] at hwhole
    constructor
    · apply String.toList_inj.mp
      have := congrArg List.reverse hwhole
      simpa using this.symm
    · intro hmem
      rw [String.toList_ofList, List.mem_reverse] at hmem
      have hsep := List.mem_takeWhile_imp hmem
      exact absurd rfl (of_decide_eq_true hsep)

/-- Keys of one directory are told apart by their names. -/
theorem append_injective {dir dir' name name' : String} (h : Plain name) (h' : Plain name')
    (heq : dir ++ "/" ++ name = dir' ++ "/" ++ name') : dir = dir' ∧ name = name' := by
  have hsplit := parentAndName_append h dir
  rw [heq, parentAndName_append h' dir'] at hsplit
  exact Prod.mk.inj (Option.some.inj hsplit.symm)

theorem append_cancel {x y z z' : String} (h : x ++ z ++ y = x ++ z' ++ y) : z = z' := by
  have hlist := congrArg String.toList h
  simp only [String.toList_append, List.append_cancel_left_eq, List.append_cancel_right_eq,
    List.append_assoc] at hlist
  exact String.toList_inj.mp hlist

/-! ## 2. Listings -/

abbrev Bucket := Finmap fun _ : String => Bytes

/-- The names of a directory. -/
def children (b : Bucket) (dir : String) : List String :=
  (b.keys.sort fun x y => y ≥ x).filterMap fun key =>
    (parentAndName key).bind fun (parent, name) => if parent = dir then some name else none

theorem mem_children {b : Bucket} {dir name : String} :
    name ∈ children b dir ↔ Plain name ∧ dir ++ "/" ++ name ∈ b := by
  rw [children, List.mem_filterMap]
  constructor
  · rintro ⟨key, hkey, hname⟩
    obtain ⟨⟨parent, found⟩, hsplit, hfound⟩ := Option.bind_eq_some_iff.mp hname
    dsimp only at hfound
    split at hfound
    · rename_i hparent
      obtain rfl := Option.some.inj hfound
      obtain ⟨rfl, hplain⟩ := eq_of_parentAndName hsplit
      rw [hparent] at hkey
      exact ⟨hplain, Finmap.mem_keys.mp ((Finset.mem_sort _).mp hkey)⟩
    · cases hfound
  · rintro ⟨hplain, hmem⟩
    refine ⟨_, (Finset.mem_sort _).mpr (Finmap.mem_keys.mpr hmem), ?_⟩
    rw [parentAndName_append hplain, Option.bind_some]
    exact if_pos rfl

/-- What `lsf` prints. -/
def printed (names : List String) : List Char := names.flatMap fun name => name.toList ++ ['\n']

/-- `rclone lsf --files-only`, and the lines of what it printed that are not empty. -/
def lsf (b : Bucket) (dir : String) : List String :=
  ((splitLines (universalNewlines (printed (children b dir)))).map String.ofList).filter (· ≠ "")

theorem ends_universalNewlines_printed (names : List String) :
    Ends (universalNewlines (printed names)) := by
  rcases List.eq_nil_or_concat names with rfl | ⟨first, last, rfl⟩
  · exact .inl rfl
  · have hends : ∀ text, ∃ front, universalNewlines (text ++ ['\n']) = front ++ ['\n'] := by
      intro text
      induction text using universalNewlines.induct with
      | case1 => exact ⟨[], rfl⟩
      | case2 rest ih =>
        obtain ⟨front, hfront⟩ := ih
        refine ⟨'\n' :: front, ?_⟩
        rw [List.cons_append, List.cons_append, universalNewlines, hfront]
        rfl
      | case3 c rest hpair ih =>
        obtain ⟨front, hfront⟩ := ih
        by_cases hjoin : c = '\r' ∧ rest = []
        · obtain ⟨rfl, rfl⟩ := hjoin
          exact ⟨[], rfl⟩
        · refine ⟨(if c = '\r' then '\n' else c) :: front, ?_⟩
          rw [List.cons_append, universalNewlines, hfront, List.cons_append]
          intro rest' hc heq
          cases rest with
          | nil => exact hjoin ⟨hc, rfl⟩
          | cons d rest =>
            rw [List.cons_append] at heq
            exact hpair rest hc (by rw [(List.cons.inj heq).1])
    obtain ⟨front, hfront⟩ := hends (printed first ++ last.toList)
    refine .inr ⟨front, '\n', ?_, by decide⟩
    rw [← hfront]
    simp [printed]

/-- A name of one line that is there is listed, whatever else is. -/
theorem mem_lsf {b : Bucket} {dir name : String} (hline : OneLine name.toList) (hne : name ≠ "")
    (h : name ∈ children b dir) : name ∈ lsf b dir := by
  obtain ⟨first, rest, hsplit⟩ := List.append_of_mem h
  have htext : printed (children b dir) =
      printed first ++ (name.toList ++ '\n' :: printed rest) := by
    rw [hsplit]
    simp [printed]
  have hfirst : ∀ more, name.toList ++ '\n' :: printed rest ≠ '\n' :: more := by
    intro more heq
    cases hname : name.toList with
    | nil => exact hne (String.toList_inj.mp hname)
    | cons c cs =>
      rw [hname, List.cons_append] at heq
      rw [hname] at hline
      rw [(List.cons.inj heq).1] at hline
      exact absurd (hline '\n' (List.mem_cons_self ..)) (by decide)
  have hname : universalNewlines name.toList = name.toList := by
    refine universalNewlines_eq fun hmem => ?_
    exact absurd (hline _ hmem) (by decide)
  have hrest : universalNewlines (name.toList ++ '\n' :: printed rest) =
      name.toList ++ '\n' :: universalNewlines (printed rest) := by
    have hreturn : '\r' ∉ name.toList := fun hmem => absurd (hline _ hmem) (by decide)
    clear hfirst hname htext hsplit hline
    generalize name.toList = cs at hreturn ⊢
    induction cs with
    | nil =>
      rw [List.nil_append, List.nil_append, universalNewlines, if_neg (by decide)]
      exact fun _ hc => absurd hc (by decide)
    | cons c cs ih =>
      have hc : c ≠ '\r' := fun heq => hreturn (heq ▸ List.mem_cons_self ..)
      rw [List.cons_append, universalNewlines, if_neg hc,
        ih fun hmem => hreturn (List.mem_cons_of_mem _ hmem), List.cons_append]
      exact fun _ hc' => absurd hc' hc
  rw [lsf, List.mem_filter]
  refine ⟨?_, decide_eq_true hne⟩
  rw [htext, universalNewlines_append _ hfirst,
    splitLines_append (ends_universalNewlines_printed first), hrest,
    splitLines_line hline (by decide), List.map_append, List.map_cons, String.ofList_toList]
  exact List.mem_append_right _ (List.mem_cons_self ..)

/-- No name of the bucket has more than one line. -/
def SingleLines (b : Bucket) : Prop := ∀ key ∈ b, OneLine key.toList

theorem printed_lines {names : List String} (h : ∀ name ∈ names, OneLine name.toList) :
    splitLines (universalNewlines (printed names)) = names.map String.toList := by
  have hreturn : '\r' ∉ printed names := by
    intro hmem
    obtain ⟨name, hname, hc⟩ := List.mem_flatMap.mp hmem
    rcases List.mem_append.mp hc with hc | hc
    · exact absurd (h name hname _ hc) (by decide)
    · exact absurd (List.mem_singleton.mp hc) (by decide)
  rw [universalNewlines_eq hreturn]
  clear hreturn
  induction names with
  | nil => rfl
  | cons name names ih =>
    have htext : printed (name :: names) = name.toList ++ '\n' :: printed names := by
      simp [printed]
    rw [htext, splitLines_line (h name (List.mem_cons_self ..)) (by decide),
      ih fun other hother => h other (List.mem_cons_of_mem _ hother), List.map_cons]

/-- Among such names a listing is exact. -/
theorem mem_lsf_of_lines {b : Bucket} {dir name : String}
    (h : ∀ other ∈ children b dir, OneLine other.toList) :
    name ∈ lsf b dir ↔ name ≠ "" ∧ Plain name ∧ dir ++ "/" ++ name ∈ b := by
  rw [lsf, printed_lines h, List.mem_filter, decide_eq_true_eq, List.map_map, ← mem_children]
  have hid : (String.ofList ∘ String.toList) = id := by
    funext text
    simp
  rw [hid, List.map_id, and_comm]

theorem mem_lsf_iff {b : Bucket} (h : SingleLines b) {dir name : String} :
    name ∈ lsf b dir ↔ name ≠ "" ∧ Plain name ∧ dir ++ "/" ++ name ∈ b := by
  refine mem_lsf_of_lines fun other hother c hc => ?_
  refine h _ (mem_children.mp hother).2 c ?_
  simp [String.toList_append, hc]

/-! ## 3. Commands -/

inductive Command
  | lsf (dir : String)
  | cat (target : String)
  /-- `copyto --immutable`. -/
  | copyto (content : Bytes) (target : String)
  | deletefile (target : String)

abbrev Command.Answer : Command → Type
  | lsf _ => List String
  | cat _ => Option Bytes
  | copyto _ _ => Bool
  | deletefile _ => Bool

/-- What a command answers, and what it leaves. -/
def Command.serve (b : Bucket) : (c : Command) → c.Answer × Bucket
  | .lsf dir => (Rclone.lsf b dir, b)
  | .cat target => (b.lookup target, b)
  | .copyto content target =>
    match b.lookup target with
    | some there => (there = content, b)
    | none => (true, b.insert target content)
  | .deletefile target => (target ∈ b, b.erase target)

def machine : Machine Command Command.Answer Bucket := ⟨fun c b => c.serve b⟩

theorem wp_command {ε α : Type} {c : Command} {b b' : Bucket} {answer : c.Answer}
    {Q : Post Bucket ε α} {f : c.Answer → Prog Command Command.Answer ε α}
    (h : c.serve b = (answer, b')) (hcrashed : Q.crashed b) (hrest : (f answer).wp machine Q b') :
    (Prog.perform c >>= f).wp machine Q b := by
  have hanswer : (machine.step c b).1 = answer := congrArg Prod.fst h
  have hstate : (machine.step c b).2 = b' := congrArg Prod.snd h
  rw [Prog.wp_bind, Prog.wp_perform, hanswer, hstate]
  exact ⟨hcrashed, hrest⟩

theorem SingleLines.mono {b s : Bucket} (h : SingleLines b) (hsub : ∀ key ∈ s, key ∈ b) :
    SingleLines s := fun key hkey => h key (hsub key hkey)

/-! ## 4. Deletions -/

/-- The bucket without some of its objects. -/
def erased (b : Bucket) (targets : List String) : Bucket := targets.foldl (fun b k => b.erase k) b

theorem lookup_erased {b : Bucket} {targets : List String} {key : String} :
    (erased b targets).lookup key = if key ∈ targets then none else b.lookup key := by
  induction targets generalizing b with
  | nil => simp [erased]
  | cons target targets ih =>
    change (erased (b.erase target) targets).lookup key = _
    rw [ih]
    by_cases hmem : key ∈ targets
    · simp [hmem]
    · by_cases heq : key = target
      · rw [heq, Finmap.lookup_erase]
        simp
      · simp [hmem, heq, Finmap.lookup_erase_ne heq]

theorem lookup_erased_of_notMem {b : Bucket} {targets : List String} {key : String}
    (h : key ∉ targets) : (erased b targets).lookup key = b.lookup key := by
  rw [lookup_erased, if_neg h]

theorem mem_erased {b : Bucket} {targets : List String} {key : String} :
    key ∈ erased b targets ↔ key ∈ b ∧ key ∉ targets := by
  rw [← Finmap.lookup_isSome, ← Finmap.lookup_isSome, lookup_erased]
  split
  · simp_all
  · simp_all

theorem erased_append (b : Bucket) (first rest : List String) :
    erased b (first ++ rest) = erased (erased b first) rest :=
  List.foldl_append

/-! ## 5. Orders of deletion -/

/-- Wherever the list is cut, what has come to `c` has come to `a`. -/
def Precedes {α : Type} (list : List α) (a c : α) : Prop :=
  ∀ first, first <+: list → c ∈ first → a ∈ first

section Precedes

variable {α β : Type} {a c : α}

theorem prefix_append_cases {first list rest : List α} (h : first <+: list ++ rest) :
    first <+: list ∨ ∃ more, first = list ++ more ∧ more <+: rest := by
  obtain ⟨tail, htail⟩ := h
  rcases List.append_eq_append_iff.mp htail with ⟨more, hmore, -⟩ | ⟨more, hmore, hrest⟩
  · exact .inl ⟨more, hmore.symm⟩
  · exact .inr ⟨more, hmore, tail, hrest.symm⟩

theorem precedes_of_notMem {list : List α} (h : c ∉ list) : Precedes list a c :=
  fun _ hfirst hc => absurd (hfirst.subset hc) h

theorem precedes_cons (list : List α) : Precedes (a :: list) a c := by
  intro first hfirst hc
  cases first with
  | nil => cases hc
  | cons d first =>
    rw [(List.cons_prefix_cons.mp hfirst).1]
    exact List.mem_cons_self ..

theorem Precedes.append {list rest : List α} (hlist : Precedes list a c)
    (hrest : Precedes rest a c) : Precedes (list ++ rest) a c := by
  intro first hfirst hc
  rcases prefix_append_cases hfirst with hfirst | ⟨more, rfl, hmore⟩
  · exact hlist first hfirst hc
  · rcases List.mem_append.mp hc with hc | hc
    · exact List.mem_append_left _ (hlist list (List.prefix_refl _) hc)
    · exact List.mem_append_right _ (hrest more hmore hc)

theorem precedes_append_of_mem {list : List α} (ha : a ∈ list) (hc : c ∉ list) (rest : List α) :
    Precedes (list ++ rest) a c := by
  intro first hfirst hmem
  rcases prefix_append_cases hfirst with hfirst | ⟨more, rfl, -⟩
  · exact absurd (hfirst.subset hmem) hc
  · exact List.mem_append_left _ ha

theorem precedes_flatMap {f : β → List α} {list : List β} (h : ∀ x ∈ list, Precedes (f x) a c) :
    Precedes (list.flatMap f) a c := by
  induction list with
  | nil => exact precedes_of_notMem List.not_mem_nil
  | cons x list ih =>
    obtain ⟨hx, hlist⟩ := List.forall_mem_cons.mp h
    rw [List.flatMap_cons]
    exact hx.append (ih hlist)

/-- In a list that is in order the smaller goes first. -/
theorem precedes_of_sorted [PartialOrder α] {list : List α} (h : list.Pairwise (· ≤ ·))
    (ha : a ∈ list) (hlt : a < c) : Precedes list a c := by
  rintro first ⟨rest, rfl⟩ hc
  refine (List.mem_append.mp ha).resolve_right fun hrest => ?_
  exact absurd ((List.pairwise_append.mp h).2.2 c hc a hrest) (not_le_of_gt hlt)

/-- Between the two the list can be cut. -/
theorem Precedes.exists_cut {list : List α} (h : Precedes list a c) (hne : a ≠ c) (hc : c ∈ list) :
    ∃ first, first <+: list ∧ a ∈ first ∧ c ∉ first := by
  obtain ⟨first, rest, hsplit, hfirst⟩ := List.eq_append_cons_of_mem hc
  refine ⟨first, ⟨c :: rest, hsplit.symm⟩, ?_, hfirst⟩
  have ha := h (first ++ [c]) ⟨rest, by simp [hsplit]⟩ (by simp)
  simpa [hne] using ha

end Precedes

end ProductPdfQr.Rclone
