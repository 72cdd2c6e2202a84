/-
# Chains of digests

Every block of a chain names the digest of the block before it.  Two chains of one length whose
last digests agree are one chain, if the hash has no collision among the codes of their blocks:
the last digest and the length commit to the whole past.
-/
import Mathlib.Data.Set.Function

namespace ProductPdfQr

/-- How a block is encoded and hashed, and which digest it names. -/
structure HashChain (B C D : Type) where
  code : B → C
  hash : C → D
  prev : B → Option D
  /-- What is encoded alike names the same digest. -/
  prev_code : ∀ {b b' : B}, code b = code b' → prev b = prev b'

namespace HashChain

variable {B C D : Type} (chain : HashChain B C D)

/-- The digest of a block. -/
def digest (b : B) : D := chain.hash (chain.code b)

/-- The last digest, after `previous`. -/
def headAfter (previous : D) (blocks : List B) : D :=
  blocks.foldl (fun _ b => chain.digest b) previous

/-- Every block names the digest before it. -/
def Linked : D → List B → Prop
  | _, [] => True
  | previous, b :: blocks => chain.prev b = some previous ∧ Linked (chain.digest b) blocks

@[simp] theorem headAfter_nil (previous : D) : chain.headAfter previous [] = previous := rfl

@[simp] theorem headAfter_cons (previous : D) (b : B) (blocks : List B) :
    chain.headAfter previous (b :: blocks) = chain.headAfter (chain.digest b) blocks := rfl

theorem headAfter_append (previous : D) (blocks blocks' : List B) :
    chain.headAfter previous (blocks ++ blocks') =
      chain.headAfter (chain.headAfter previous blocks) blocks' :=
  List.foldl_append ..

theorem linked_append {previous : D} {blocks blocks' : List B} :
    chain.Linked previous (blocks ++ blocks') ↔
      chain.Linked previous blocks ∧ chain.Linked (chain.headAfter previous blocks) blocks' := by
  induction blocks generalizing previous with
  | nil => simp [Linked]
  | cons b blocks ih => simp [Linked, ih, and_assoc]

/-- **Commitment.** -/
theorem commit {S : Set C} (hfree : Set.InjOn chain.hash S) {previous previous' : D}
    {blocks blocks' : List B} (hlinked : chain.Linked previous blocks)
    (hlinked' : chain.Linked previous' blocks') (hlength : blocks.length = blocks'.length)
    (hhead : chain.headAfter previous blocks = chain.headAfter previous' blocks')
    (hS : ∀ b ∈ blocks, chain.code b ∈ S) (hS' : ∀ b ∈ blocks', chain.code b ∈ S) :
    previous = previous' ∧ blocks.map chain.code = blocks'.map chain.code := by
  induction blocks generalizing previous previous' blocks' with
  | nil =>
    obtain rfl := List.eq_nil_of_length_eq_zero hlength.symm
    exact ⟨hhead, rfl⟩
  | cons b blocks ih =>
    cases blocks' with
    | nil => simp at hlength
    | cons b' blocks' =>
      obtain ⟨hb, hrest⟩ := hlinked
      obtain ⟨hb', hrest'⟩ := hlinked'
      have htail := ih hrest hrest' (Nat.succ.inj hlength) hhead
        (fun x hx => hS x (List.mem_cons_of_mem _ hx))
        (fun x hx => hS' x (List.mem_cons_of_mem _ hx))
      have hcode : chain.code b = chain.code b' :=
        hfree (hS b (List.mem_cons_self ..)) (hS' b' (List.mem_cons_self ..)) htail.1
      have hprev := chain.prev_code hcode
      rw [hb, hb'] at hprev
      exact ⟨Option.some.inj hprev, by rw [List.map_cons, List.map_cons, hcode, htail.2]⟩

end HashChain

end ProductPdfQr
