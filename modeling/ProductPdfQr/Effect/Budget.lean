/-
# Budgets

A budget is spent and gained back in a given order.  The order matters: what is gained late does
not help what is spent early.  A list of moves never asks for more than there is just when no
beginning of it spends more than the budget and what was gained so far.
-/
import Mathlib.Algebra.Order.Sub.Prod
import Mathlib.Algebra.Order.Monoid.Prod
import Mathlib.Algebra.Order.Sub.Basic
import Mathlib.Algebra.BigOperators.Group.List.Basic

namespace ProductPdfQr.Effect

inductive Move (α : Type) where
  | spend (amount : α)
  | gain (amount : α)
  deriving DecidableEq, Repr

namespace Move

section Defs

variable {α : Type} [AddCommMonoid α] [LE α] [Sub α] [DecidableLE α]

/-- What is left of a budget, unless it falls short. -/
def run : List (Move α) → α → Option α
  | [], free => some free
  | spend amount :: moves, free => if amount ≤ free then run moves (free - amount) else none
  | gain amount :: moves, free => run moves (free + amount)

def spent : List (Move α) → α
  | [] => 0
  | spend amount :: moves => amount + spent moves
  | gain _ :: moves => spent moves

def gained : List (Move α) → α
  | [] => 0
  | spend _ :: moves => gained moves
  | gain amount :: moves => amount + gained moves

/-- No beginning of the moves spends more than there is. -/
def Balanced (moves : List (Move α)) (free : α) : Prop :=
  ∀ first, first <+: moves → spent first ≤ free + gained first

theorem run_append (first rest : List (Move α)) (free : α) :
    run (first ++ rest) free = (run first free).bind (run rest) := by
  induction first generalizing free with
  | nil => rfl
  | cons move first ih =>
    cases move with
    | spend amount =>
      rw [List.cons_append, run, run]
      split
      · exact ih (free - amount)
      · rfl
    | gain amount => exact ih (free + amount)

end Defs

variable {α : Type} [AddCommMonoid α] [PartialOrder α] [CanonicallyOrderedAdd α]

theorem balanced_nil (free : α) : Balanced [] free := by
  intro first hfirst
  rw [List.prefix_nil.mp hfirst]
  exact zero_le

theorem balanced_gain {amount : α} {moves : List (Move α)} {free : α} :
    Balanced (gain amount :: moves) free ↔ Balanced moves (free + amount) := by
  constructor
  · intro h first hfirst
    rw [add_assoc]
    exact h (gain amount :: first) ((List.prefix_cons_inj _).mpr hfirst)
  · intro h first hfirst
    rcases List.prefix_cons_iff.mp hfirst with rfl | ⟨first, rfl, hrest⟩
    · exact zero_le
    · have := h first hrest
      rwa [add_assoc] at this

variable [IsOrderedCancelAddMonoid α] [Sub α] [OrderedSub α]

theorem balanced_spend {amount : α} {moves : List (Move α)} {free : α} :
    Balanced (spend amount :: moves) free ↔ amount ≤ free ∧ Balanced moves (free - amount) := by
  have hafford : amount ≤ free → ∀ first : List (Move α),
      (amount + spent first ≤ free + gained first ↔
        spent first ≤ free - amount + gained first) := by
    intro hle first
    rw [tsub_add_eq_add_tsub hle, le_tsub_iff_left (hle.trans le_self_add)]
  constructor
  · intro h
    have hle : amount ≤ free := by
      simpa [spent, gained] using h [spend amount] ⟨moves, rfl⟩
    refine ⟨hle, fun first hfirst => (hafford hle first).mp ?_⟩
    exact h (spend amount :: first) ((List.prefix_cons_inj _).mpr hfirst)
  · rintro ⟨hle, h⟩ first hfirst
    rcases List.prefix_cons_iff.mp hfirst with rfl | ⟨first, rfl, hrest⟩
    · exact zero_le
    · exact (hafford hle first).mpr (h first hrest)

variable [DecidableLE α]

/-- A budget lasts just when the moves are balanced. -/
theorem run_isSome_iff {moves : List (Move α)} {free : α} :
    (run moves free).isSome = true ↔ Balanced moves free := by
  induction moves generalizing free with
  | nil => exact iff_of_true rfl (balanced_nil free)
  | cons move moves ih =>
    cases move with
    | spend amount =>
      rw [balanced_spend, run]
      split
      · rename_i hle
        rw [ih, and_iff_right hle]
      · rename_i hle
        exact iff_of_false (by simp) fun h => hle h.1
    | gain amount =>
      rw [balanced_gain, run, ih]

instance (moves : List (Move α)) (free : α) : Decidable (Balanced moves free) :=
  decidable_of_iff ((run moves free).isSome = true) run_isSome_iff

end Move

end ProductPdfQr.Effect
