import QwidNode.Source.Merkle

/-!
# The Merkle root binds the list of transactions

No function into 32 bytes is injective, so what is assumed of the hash is that it tells apart the
strings that are hashed for the two lists.
-/
namespace QwidNode.Guarantees
open Source Lib List

/-- Two lists of transaction hashes with one root are the same list. -/
theorem merkle_root_binds (calcHash : Bytes → Hash) (xs ys : List Bytes) (nonempty : xs ≠ [])
    (nonempty' : ys ≠ [])
    (distinct : Set.InjOn calcHash
      {b | b ∈ hashedStrings calcHash xs ∨ b ∈ hashedStrings calcHash ys})
    (same : getRootHash (newMerkleTree calcHash xs) = getRootHash (newMerkleTree calcHash ys)) :
    xs = ys := by
  have shape : ∀ data : List Bytes, data ≠ [] → ∃ t, merkleShape data = [t] ∧ t.leaves = data := by
    intro data nonempty
    have leaves : data.map PairTree.leaf ≠ [] := by simpa using nonempty
    obtain ⟨t, reduced, leaves⟩ := reducePairs_tree leaves
    refine ⟨t, reduced, leaves.trans ?_⟩
    rw [flatMap_map]
    exact flatMap_singleton' data
  obtain ⟨t, reduced, leaves⟩ := shape xs nonempty
  obtain ⟨t', reduced', leaves'⟩ := shape ys nonempty'
  rw [newMerkleTree_eq, newMerkleTree_eq, reduced, reduced'] at same
  rw [hashedStrings, hashedStrings, reduced, reduced'] at distinct
  simp only [flatMap_cons, flatMap_nil, append_nil] at distinct
  rw [← leaves, ← leaves', tree_of_data distinct same]

def lengthAndLast (b : Bytes) : Hash := BitVec.ofNat 256 (b.length * 256 + (b.getLastD 0).toNat)

/-- Two transactions, under a hash of length and last byte. -/
theorem pair_bound : [[(1 : UInt8)], [2]] = [[1], [2]] := by
  refine merkle_root_binds lengthAndLast [[1], [2]] [[1], [2]] (by decide) (by decide) ?_ rfl
  have hashed : ∀ calcHash, hashedStrings calcHash [[1], [2]] =
      hashedIn calcHash (.node (.leaf [1]) (.leaf [2])) := by
    intro calcHash
    simp [hashedStrings, merkleShape, reducePairs, pairUp]
  have injective : ∀ a ∈ hashedIn lengthAndLast (.node (.leaf [1]) (.leaf [2])),
      ∀ b ∈ hashedIn lengthAndLast (.node (.leaf [1]) (.leaf [2])),
        lengthAndLast a = lengthAndLast b → a = b := by
    decide
  intro a inside b inside'
  rw [hashed] at inside inside'
  exact injective a (or_self_iff.mp inside) b (or_self_iff.mp inside')

end QwidNode.Guarantees
