import Mathlib.Data.Nat.Bitwise
import Mathlib.Data.List.Perm.Basic
import Mathlib.Tactic.Common

/-!
# Aligned blocks

A block of order `order` is an aligned run of `2 ^ order` pages, named by its
index among the blocks of its order.  A list of blocks is a set of disjoint
regions when no page lies in two of its entries.
-/

namespace Yaeos

structure Block where
  index : Nat
  order : Nat
  deriving DecidableEq, Repr

namespace Block

/-- `page` lies in `[index * 2 ^ order, (index + 1) * 2 ^ order)`. -/
def Covers (block : Block) (page : Nat) : Prop :=
  block.index * 2 ^ block.order ≤ page ∧ page < (block.index + 1) * 2 ^ block.order

instance (block : Block) (page : Nat) : Decidable (block.Covers page) :=
  inferInstanceAs (Decidable (_ ∧ _))

theorem covers_iff {block : Block} {page : Nat} :
    block.Covers page ↔ page >>> block.order = block.index := by
  have positive : 0 < 2 ^ block.order := Nat.two_pow_pos _
  rw [Nat.shiftRight_eq_div_pow, Covers, Nat.div_eq_iff positive, Nat.add_mul, Nat.one_mul]
  omega

@[simp]
theorem covers_zero {index page : Nat} : (Block.mk index 0).Covers page ↔ page = index := by
  simp [covers_iff]

/-- The first page of a block lies in it. -/
theorem covers_first (block : Block) : block.Covers (block.index <<< block.order) := by
  rw [covers_iff, Nat.shiftLeft_shiftRight]

def Disjoint (first second : Block) : Prop := ∀ page, ¬(first.Covers page ∧ second.Covers page)

theorem Disjoint.symm {first second : Block} (disjoint : first.Disjoint second) :
    second.Disjoint first := fun page both => disjoint page both.symm

/-- Some entry of the list contains the page. -/
def Covered (blocks : List Block) (page : Nat) : Prop := ∃ block ∈ blocks, block.Covers page

/-- No page lies in two entries of the list. -/
def PairwiseDisjoint (blocks : List Block) : Prop := blocks.Pairwise Disjoint

@[simp]
theorem covered_nil {page : Nat} : ¬Covered [] page := by simp [Covered]

@[simp]
theorem covered_cons {block : Block} {blocks : List Block} {page : Nat} :
    Covered (block :: blocks) page ↔ block.Covers page ∨ Covered blocks page := by
  simp [Covered]

theorem pairwiseDisjoint_cons {block : Block} {blocks : List Block} :
    PairwiseDisjoint (block :: blocks) ↔
      (∀ page, block.Covers page → ¬Covered blocks page) ∧ PairwiseDisjoint blocks := by
  rw [PairwiseDisjoint, List.pairwise_cons]
  constructor
  · rintro ⟨apart, rest⟩
    exact ⟨fun page inBlock ⟨other, member, inOther⟩ => apart other member page ⟨inBlock, inOther⟩,
      rest⟩
  · rintro ⟨apart, rest⟩
    exact ⟨fun other member page both => apart page both.1 ⟨other, member, both.2⟩, rest⟩

/-- Taking a block out of a disjoint list leaves exactly the pages outside it. -/
theorem erase_spec {block : Block} {blocks : List Block} (member : block ∈ blocks)
    (disjoint : PairwiseDisjoint blocks) :
    PairwiseDisjoint (blocks.erase block) ∧
      ∀ page, Covered (blocks.erase block) page ↔ Covered blocks page ∧ ¬block.Covers page := by
  have permuted := List.perm_cons_erase member
  have reordered : PairwiseDisjoint (block :: blocks.erase block) :=
    (permuted.pairwise_iff Disjoint.symm).mp disjoint
  rw [pairwiseDisjoint_cons] at reordered
  refine ⟨reordered.2, fun page => ?_⟩
  have covered : Covered blocks page ↔ block.Covers page ∨ Covered (blocks.erase block) page := by
    rw [← covered_cons]
    exact exists_congr fun other => and_congr_left fun _ => permuted.mem_iff
  have apart := reordered.1 page
  rw [covered]
  tauto

end Block

end Yaeos
