import QwidNode.Lib.PairedLevels
import QwidNode.Source.Bytes

/-!
# The Merkle tree of the transactions

Source: `transactionsPool/merkleTree.go:53-115` and `161-171`. A leaf hashes a zero byte and its
data, an inner node a one byte and the hashes of its children, and an odd node goes up unchanged.
-/
namespace QwidNode.Source
open Lib

/-- `MerkleNode`: `Data` is the hash of the node, and a leaf has no children. -/
inductive MerkleNode where
  | leaf (data : Hash)
  | inner (left right : MerkleNode) (data : Hash)

namespace MerkleNode

def data : MerkleNode → Hash
  | leaf data => data
  | inner _ _ data => data

def leafTag : UInt8 := 0
def innerTag : UInt8 := 1

def newLeaf (calcHash : Bytes → Hash) (data : Bytes) : MerkleNode :=
  leaf (calcHash (leafTag :: data))

def newInner (calcHash : Bytes → Hash) (left right : MerkleNode) : MerkleNode :=
  inner left right (calcHash (innerTag :: (left.data.getBytes ++ right.data.getBytes)))

end MerkleNode

def newMerkleTree (calcHash : Bytes → Hash) (data : List Bytes) : List MerkleNode :=
  reducePairs (MerkleNode.newInner calcHash) (data.map (MerkleNode.newLeaf calcHash))

def getRootHash (root : List MerkleNode) : Hash := (root.head?.map MerkleNode.data).getD 0

def merkleShape (data : List Bytes) : List (PairTree Bytes) :=
  reducePairs .node (data.map .leaf)

def buildMerkle (calcHash : Bytes → Hash) : PairTree Bytes → MerkleNode :=
  PairTree.fold (MerkleNode.newLeaf calcHash) (MerkleNode.newInner calcHash)

def hashedString (calcHash : Bytes → Hash) : PairTree Bytes → Bytes
  | .leaf data => MerkleNode.leafTag :: data
  | .node left right => MerkleNode.innerTag :: ((buildMerkle calcHash left).data.getBytes ++
      (buildMerkle calcHash right).data.getBytes)

def hashedIn (calcHash : Bytes → Hash) : PairTree Bytes → List Bytes
  | .leaf data => [hashedString calcHash (.leaf data)]
  | .node left right => hashedString calcHash (.node left right) ::
      (hashedIn calcHash left ++ hashedIn calcHash right)

def hashedStrings (calcHash : Bytes → Hash) (data : List Bytes) : List Bytes :=
  (merkleShape data).flatMap (hashedIn calcHash)

section
variable {calcHash : Bytes → Hash}

theorem newMerkleTree_eq (data : List Bytes) :
    newMerkleTree calcHash data = (merkleShape data).map (buildMerkle calcHash) := by
  rw [merkleShape, map_reducePairs (f := buildMerkle calcHash) fun _ _ => rfl, List.map_map]
  rfl

theorem buildMerkle_data (t : PairTree Bytes) :
    (buildMerkle calcHash t).data = calcHash (hashedString calcHash t) := by
  cases t <;> rfl

theorem hashedString_mem (t : PairTree Bytes) : hashedString calcHash t ∈ hashedIn calcHash t := by
  cases t with
  | leaf data => exact List.mem_singleton_self _
  | node left right => exact List.mem_cons_self

theorem tree_of_data {t t' : PairTree Bytes}
    (distinct : Set.InjOn calcHash {b | b ∈ hashedIn calcHash t ∨ b ∈ hashedIn calcHash t'})
    (same : (buildMerkle calcHash t).data = (buildMerkle calcHash t').data) : t = t' := by
  induction t generalizing t' with
  | leaf data =>
    rw [buildMerkle_data, buildMerkle_data] at same
    have strings := distinct (.inl (hashedString_mem _)) (.inr (hashedString_mem _)) same
    cases t' with
    | leaf data' => rw [(List.cons.inj strings).2]
    | node left right => exact absurd (List.cons.inj strings).1 (by decide)
  | node left right ihLeft ihRight =>
    rw [buildMerkle_data, buildMerkle_data] at same
    have strings := distinct (.inl (hashedString_mem _)) (.inr (hashedString_mem _)) same
    cases t' with
    | leaf data' => exact absurd (List.cons.inj strings).1 (by decide)
    | node left' right' =>
      -- the two hashes have one width, so they are told apart in the string
      rw [hashedString, hashedString, List.cons.injEq] at strings
      obtain ⟨first, second⟩ := List.append_inj strings.2 (by simp only [Hash.getBytes_length])
      have inLeft : ∀ {l r b}, b ∈ hashedIn calcHash l → b ∈ hashedIn calcHash (.node l r) :=
        fun member => List.mem_cons_of_mem _ (List.mem_append_left _ member)
      have inRight : ∀ {l r b}, b ∈ hashedIn calcHash r → b ∈ hashedIn calcHash (.node l r) :=
        fun member => List.mem_cons_of_mem _ (List.mem_append_right _ member)
      rw [ihLeft (distinct.mono fun b => Or.imp inLeft inLeft) (Hash.getBytes_injective first),
        ihRight (distinct.mono fun b => Or.imp inRight inRight) (Hash.getBytes_injective second)]

end
end QwidNode.Source
