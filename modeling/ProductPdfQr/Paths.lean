/-
# Paths, piece by piece and as texts

A path is compared with another in two ways: piece by piece, or as the texts that the pieces
and their separators make.  The two orders differ in one situation only: one path goes on below
a piece that the other path's piece merely begins with, and what follows there is smaller than
the separator.
-/
import Mathlib.Order.Lattice
import Mathlib.Tactic.Common

namespace ProductPdfQr.Paths

variable {α : Type}

/-! ## 1. Lists -/

section Lists

variable [LT α]

/-- How one list comes before another: it is the front of it, or smaller where they part. -/
theorem lt_cases {l l' : List α} (h : l < l') :
    (∃ c rest, l' = l ++ c :: rest) ∨
      ∃ front x y rest rest', l = front ++ x :: rest ∧ l' = front ++ y :: rest' ∧ x < y := by
  induction h with
  | @nil c rest => exact .inl ⟨c, rest, rfl⟩
  | @rel x rest y rest' hxy => exact .inr ⟨[], x, y, rest, rest', rfl, rfl, hxy⟩
  | @cons a as bs _ ih =>
    rcases ih with ⟨c, rest, rfl⟩ | ⟨front, x, y, rest, rest', rfl, rfl, hxy⟩
    · exact .inl ⟨c, rest, rfl⟩
    · exact .inr ⟨a :: front, x, y, rest, rest', rfl, rfl, hxy⟩

theorem append_lt_append {l l' : List α} (front : List α) (h : l < l') :
    front ++ l < front ++ l' := by
  induction front with
  | nil => exact h
  | cons a front ih => exact List.Lex.cons ih

theorem append_rel_lt {front rest rest' : List α} {x y : α} (h : x < y) :
    front ++ x :: rest < front ++ y :: rest' :=
  append_lt_append front (List.Lex.rel h)

theorem lt_append_cons (l rest : List α) (c : α) : l < l ++ c :: rest := by
  have hlt := append_lt_append l (List.nil_lt_cons c rest)
  rwa [List.append_nil] at hlt

end Lists

/-- In a list that ascends in `r`, the members ascend in `s` too exactly when `r` implies `s`
among them. -/
theorem pairwise_iff_of_asymm {β : Type} {r s : β → β → Prop} {l : List β} (hr : l.Pairwise r)
    (hasymm : ∀ a b, r a b → ¬r b a) :
    l.Pairwise s ↔ ∀ a ∈ l, ∀ b ∈ l, r a b → s a b := by
  constructor
  · intro hs a ha b hb hab
    induction l with
    | nil => cases ha
    | cons x l ih =>
      obtain ⟨hrx, hrl⟩ := List.pairwise_cons.mp hr
      obtain ⟨hsx, hsl⟩ := List.pairwise_cons.mp hs
      rcases List.mem_cons.mp ha with rfl | hal
      · rcases List.mem_cons.mp hb with rfl | hbl
        · exact absurd hab (hasymm _ _ hab)
        · exact hsx b hbl
      · rcases List.mem_cons.mp hb with rfl | hbl
        · exact absurd hab (hasymm _ _ (hrx a hal))
        · exact ih hrl hsl hal hbl
  · exact fun h => hr.imp_of_mem fun ha hb hab => h _ ha _ hb hab

/-! ## 2. Joined paths -/

/-- The text of a path. -/
abbrev joined (sep : α) (path : List (List α)) : List α := List.intercalate [sep] path

theorem joined_cons {sep : α} {piece : List α} {path : List (List α)} (h : path ≠ []) :
    joined sep (piece :: path) = piece ++ sep :: joined sep path := by
  rw [joined, List.intercalate_cons_of_ne_nil h, List.append_assoc, List.singleton_append]

/-- Something that begins with the first piece. -/
theorem joined_front (sep : α) (piece : List α) (path : List (List α)) :
    ∃ rest, joined sep (piece :: path) = piece ++ rest := by
  cases path with
  | nil => exact ⟨[], by rw [joined, List.intercalate_singleton, List.append_nil]⟩
  | cons piece' path => exact ⟨_, joined_cons (List.cons_ne_nil _ _)⟩

variable [LinearOrder α]

/-- `p` goes on below a piece that a piece of `q` begins with, and what follows there in `q` is
smaller than the separator. -/
def Overtaken (sep : α) (p q : List (List α)) : Prop :=
  ∃ dir name c rest below below', p = dir ++ name :: below ∧ below ≠ [] ∧
    q = dir ++ (name ++ c :: rest) :: below' ∧ c < sep

theorem Overtaken.cons {sep : α} {p q : List (List α)} (piece : List α) (h : Overtaken sep p q) :
    Overtaken sep (piece :: p) (piece :: q) := by
  obtain ⟨dir, name, c, rest, below, below', rfl, hbelow, rfl, hc⟩ := h
  exact ⟨piece :: dir, name, c, rest, below, below', rfl, hbelow, rfl, hc⟩

/-- Piece by piece the overtaken path comes first. -/
theorem Overtaken.lt {sep : α} {p q : List (List α)} (h : Overtaken sep p q) : p < q := by
  obtain ⟨dir, name, c, rest, below, below', rfl, -, rfl, -⟩ := h
  exact append_rel_lt (lt_append_cons name rest c)

/-- As a text it comes last. -/
theorem Overtaken.joined_gt {sep : α} {p q : List (List α)} (h : Overtaken sep p q) :
    joined sep q < joined sep p := by
  obtain ⟨dir, name, c, rest, below, below', rfl, hbelow, rfl, hc⟩ := h
  induction dir with
  | nil =>
    obtain ⟨rest', hrest'⟩ := joined_front sep (name ++ c :: rest) below'
    rw [List.nil_append, List.nil_append, hrest', joined_cons hbelow, List.append_assoc]
    exact append_rel_lt hc
  | cons piece dir ih =>
    rw [List.cons_append, List.cons_append, joined_cons (by simp), joined_cons (by simp)]
    exact append_lt_append piece (List.Lex.cons ih)

/-- **The two orders.**  Of two paths without empty front, the one that comes first piece by
piece comes first as a text, unless it is overtaken. -/
theorem joined_lt {sep : α} {p q : List (List α)} (hp : p ≠ []) (hsep : ∀ piece ∈ q, sep ∉ piece)
    (h : p < q) (hover : ¬ Overtaken sep p q) : joined sep p < joined sep q := by
  induction p generalizing q with
  | nil => exact absurd rfl hp
  | cons a p ih =>
    cases q with
    | nil => exact absurd h (List.not_lt_nil _)
    | cons b q =>
      rcases List.cons_lt_cons_iff.mp h with hab | ⟨rfl, htail⟩
      · obtain ⟨rest, hrest⟩ := joined_front sep b q
        rw [hrest]
        rcases lt_cases hab with ⟨c, tail, rfl⟩ | ⟨front, x, y, tail, tail', rfl, rfl, hxy⟩
        · rw [List.append_assoc, List.cons_append]
          by_cases hnil : p = []
          · rw [hnil, joined, List.intercalate_singleton]
            exact lt_append_cons a _ c
          · have hne : c ≠ sep := by
              rintro rfl
              exact hsep _ (List.mem_cons_self ..) (by simp)
            have hlt : sep < c := by
              refine lt_of_le_of_ne (le_of_not_gt fun hc => hover ?_) (Ne.symm hne)
              exact ⟨[], a, c, tail, p, q, rfl, hnil, rfl, hc⟩
            rw [joined_cons hnil]
            exact append_rel_lt hlt
        · obtain ⟨rest', hrest'⟩ := joined_front sep (front ++ x :: tail) p
          rw [hrest', List.append_assoc, List.append_assoc]
          exact append_rel_lt hxy
      · have hq : q ≠ [] := by
          rintro rfl
          exact List.not_lt_nil _ htail
        by_cases hnil : p = []
        · rw [hnil, joined, List.intercalate_singleton, joined_cons hq]
          exact lt_append_cons a _ sep
        · rw [joined_cons hnil, joined_cons hq]
          refine append_lt_append a (List.Lex.cons (ih hnil ?_ htail fun h => hover (h.cons a)))
          exact fun piece hmem => hsep piece (List.mem_cons_of_mem _ hmem)

theorem joined_lt_iff {sep : α} {p q : List (List α)} (hp : p ≠ [])
    (hsep : ∀ piece ∈ q, sep ∉ piece) (h : p < q) :
    joined sep p < joined sep q ↔ ¬ Overtaken sep p q :=
  ⟨fun hlt hover => List.lt_asymm hlt hover.joined_gt, joined_lt hp hsep h⟩

end ProductPdfQr.Paths
