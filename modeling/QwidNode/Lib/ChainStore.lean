import QwidNode.Lib.FinMap
import QwidNode.Lib.Word

/-!
# A chain of blocks under two indexes

A block is stored under its hash, and its hash under its height. The chain is linked up to a top
when the heights from zero to the top are the ones in use, each leads to a block of that height, and
every block above the first names the hash of the one below.
-/
namespace QwidNode.Lib

/-- The parts of a block the indexes depend on: its height, its declared hash, the hash it
names as its parent, and the hash computed from it. -/
structure BlockView (H B : Type) where
  height : B → Int64
  hash : B → H
  parent : B → H
  computed : B → H

def BlockView.Binds {H B : Type} (v : BlockView H B) : Prop :=
  ∀ b b', v.computed b = v.computed b' → v.height b = v.height b'

structure ChainStore (H B : Type) where
  blocks : FinMap H B
  byHeight : FinMap Int64 H

namespace ChainStore
variable {H B : Type} [DecidableEq H] {v : BlockView H B} {c : ChainStore H B} {top k : Int64}
  {b p : B}

def load (c : ChainStore H B) (k : Int64) : Option B := (c.byHeight.lookup k).bind c.blocks.lookup

def put (v : BlockView H B) (c : ChainStore H B) (b : B) : ChainStore H B :=
  { c with blocks := c.blocks.insert (v.hash b) b }

def putHeight (v : BlockView H B) (c : ChainStore H B) (b : B) : ChainStore H B :=
  { c with byHeight := c.byHeight.insert (v.height b) (v.hash b) }

def remove (c : ChainStore H B) (k : Int64) : ChainStore H B :=
  match c.byHeight.lookup k with
  | none => c
  | some hash => ⟨c.blocks.erase hash, c.byHeight.erase k⟩

structure LinkedTo (v : BlockView H B) (c : ChainStore H B) (top : Int64) : Prop where
  nonneg : 0 ≤ top
  stored : ∀ k, (c.byHeight.lookup k).isSome = true ↔ 0 ≤ k ∧ k ≤ top
  body : ∀ k hash, c.byHeight.lookup k = some hash →
    ∃ b, c.blocks.lookup hash = some b ∧ v.height b = k
  named : ∀ hash b, c.blocks.lookup hash = some b → v.hash b = hash ∧ v.computed b = hash
  linked : ∀ k b, 0 < k → c.load k = some b → ∃ p, c.load (k - 1) = some p ∧ v.parent b = v.hash p

def StandsOn (v : BlockView H B) (c : ChainStore H B) (b : B) : Prop :=
  0 < v.height b ∧ ∃ p, c.load (v.height b - 1) = some p ∧ v.parent b = v.hash p

theorem load_eq_some : c.load k = some b ↔
    ∃ hash, c.byHeight.lookup k = some hash ∧ c.blocks.lookup hash = some b :=
  Option.bind_eq_some_iff

theorem load_putHeight_ne (other : k ≠ v.height b) : (c.putHeight v b).load k = c.load k := by
  unfold load putHeight
  rw [AList.lookup_insert_ne other]

theorem load_putHeight (found : c.blocks.lookup (v.hash b) = some b) :
    (c.putHeight v b).load (v.height b) = some b :=
  load_eq_some.mpr ⟨v.hash b, AList.lookup_insert _, found⟩

theorem pred_ne (positive : 0 < k) : k - 1 ≠ k := by
  intro equal
  rw [Word.lt_iff, Word.toInt_zero] at positive
  have exact := Word.toInt_pred (a := k) (by omega)
  rw [equal] at exact
  omega

namespace LinkedTo

theorem load_facts (chain : c.LinkedTo v top) (loaded : c.load k = some b) :
    v.height b = k ∧ c.byHeight.lookup k = some (v.hash b) ∧ v.computed b = v.hash b ∧
      0 ≤ k ∧ k ≤ top := by
  obtain ⟨hash, indexed, found⟩ := load_eq_some.mp loaded
  obtain ⟨body, found', height⟩ := chain.body k hash indexed
  rw [found] at found'
  cases found'
  obtain ⟨named, computed⟩ := chain.named hash b found
  exact ⟨height, named ▸ indexed, computed.trans named.symm, (chain.stored k).mp (by rw [indexed]; rfl)⟩

theorem load_isSome (chain : c.LinkedTo v top) (lower : 0 ≤ k) (upper : k ≤ top) :
    ∃ b, c.load k = some b := by
  obtain ⟨hash, indexed⟩ := Option.isSome_iff_exists.mp ((chain.stored k).mpr ⟨lower, upper⟩)
  obtain ⟨b, found, -⟩ := chain.body k hash indexed
  exact ⟨b, load_eq_some.mpr ⟨hash, indexed, found⟩⟩

theorem single (height : v.height b = 0) (hashed : v.computed b = v.hash b) :
    (⟨AList.insert (v.hash b) b ∅, AList.insert (0 : Int64) (v.hash b) ∅⟩ :
      ChainStore H B).LinkedTo v 0 := by
  have only : ∀ (k : Int64) (hash : H),
      (AList.insert (0 : Int64) (v.hash b) ∅ : FinMap Int64 H).lookup k = some hash →
      k = 0 ∧ hash = v.hash b := by
    intro k hash indexed
    by_cases zero : k = 0
    · subst zero
      exact ⟨rfl, (Option.some.inj ((AList.lookup_insert _).symm.trans indexed)).symm⟩
    · cases (AList.lookup_insert_ne zero).symm.trans indexed
  refine ⟨Int64.le_refl 0, ?_, ?_, ?_, ?_⟩
  · intro k
    constructor
    · intro stored
      obtain ⟨hash, indexed⟩ := Option.isSome_iff_exists.mp stored
      obtain ⟨rfl, -⟩ := only k hash indexed
      exact ⟨Int64.le_refl 0, Int64.le_refl 0⟩
    · rintro ⟨lower, upper⟩
      obtain rfl := Int64.le_antisymm upper lower
      exact Option.isSome_iff_exists.mpr ⟨_, AList.lookup_insert _⟩
  · intro k hash indexed
    obtain ⟨rfl, rfl⟩ := only k hash indexed
    exact ⟨b, AList.lookup_insert _, height⟩
  · intro hash b' found
    by_cases same : hash = v.hash b
    · subst same
      cases (AList.lookup_insert _).symm.trans found
      exact ⟨rfl, hashed⟩
    · cases (AList.lookup_insert_ne same).symm.trans found
  · intro k b' positive loaded
    obtain ⟨hash, indexed, -⟩ := load_eq_some.mp loaded
    obtain ⟨rfl, -⟩ := only k hash indexed
    exact absurd positive Int64.lt_irrefl

section
variable (chain : c.LinkedTo v top)
include chain

theorem height_of_hash (binds : v.Binds) (hashed : v.computed b = v.hash b)
    (indexed : c.byHeight.lookup k = some (v.hash b)) : k = v.height b := by
  obtain ⟨old, found, height⟩ := chain.body k _ indexed
  rw [← height]
  exact binds old b ((chain.named _ old found).2.trans hashed.symm)

theorem load_put (binds : v.Binds) (hashed : v.computed b = v.hash b) (other : k ≠ v.height b) :
    (c.put v b).load k = c.load k := by
  unfold load put
  cases indexed : c.byHeight.lookup k with
  | none => rfl
  | some hash =>
    have differs : hash ≠ v.hash b := by
      rintro rfl
      exact other (chain.height_of_hash binds hashed indexed)
    exact AList.lookup_insert_ne differs

theorem put (binds : v.Binds) (hashed : v.computed b = v.hash b) (stands : StandsOn v c b) :
    (c.put v b).LinkedTo v top := by
  obtain ⟨positive, p, below, linked⟩ := stands
  refine ⟨chain.nonneg, chain.stored, ?_, ?_, ?_⟩
  · intro k hash indexed
    by_cases same : hash = v.hash b
    · subst same
      exact ⟨b, AList.lookup_insert _, (chain.height_of_hash binds hashed indexed).symm⟩
    · obtain ⟨old, found, height⟩ := chain.body k hash indexed
      exact ⟨old, (AList.lookup_insert_ne same).trans found, height⟩
  · intro hash old found
    by_cases same : hash = v.hash b
    · subst same
      cases (AList.lookup_insert _).symm.trans found
      exact ⟨rfl, hashed⟩
    · exact chain.named hash old ((AList.lookup_insert_ne same).symm.trans found)
  · intro k a above loaded
    by_cases here : k = v.height b
    · subst here
      -- the block at this height is the new one, or one that was there before
      obtain ⟨hash, indexed, found⟩ := load_eq_some.mp loaded
      by_cases same : hash = v.hash b
      · subst same
        cases (AList.lookup_insert _).symm.trans found
        exact ⟨p, (chain.load_put binds hashed (pred_ne positive)).trans below, linked⟩
      · have before : c.load (v.height b) = some a :=
          load_eq_some.mpr ⟨hash, indexed, (AList.lookup_insert_ne same).symm.trans found⟩
        obtain ⟨q, below', linked'⟩ := chain.linked _ a above before
        exact ⟨q, (chain.load_put binds hashed (pred_ne positive)).trans below', linked'⟩
    · rw [chain.load_put binds hashed here] at loaded
      obtain ⟨q, below', linked'⟩ := chain.linked k a above loaded
      by_cases under : k - 1 = v.height b
      · obtain ⟨-, indexed, -, -⟩ := chain.load_facts below'
        by_cases same : v.hash q = v.hash b
        · refine ⟨b, load_eq_some.mpr ⟨v.hash b, same ▸ indexed, AList.lookup_insert _⟩, ?_⟩
          rw [linked', same]
        · obtain ⟨hash, indexed', found⟩ := load_eq_some.mp below'
          rw [indexed] at indexed'
          cases indexed'
          exact ⟨q, load_eq_some.mpr ⟨_, indexed, (AList.lookup_insert_ne same).trans found⟩,
            linked'⟩
      · exact ⟨q, (chain.load_put binds hashed under).trans below', linked'⟩

theorem putHeight (stands : StandsOn v c b) (found : c.blocks.lookup (v.hash b) = some b)
    (lower : top ≤ v.height b) (upper : v.height b ≤ top ∨ v.height b = top + 1) :
    (c.putHeight v b).LinkedTo v (v.height b) := by
  obtain ⟨positive, p, below, linked⟩ := stands
  refine ⟨Int64.le_of_lt positive, ?_, ?_, chain.named, ?_⟩
  · intro k
    by_cases same : k = v.height b
    · subst same
      simp only [ChainStore.putHeight, AList.lookup_insert, Option.isSome_some, true_iff]
      exact ⟨Int64.le_of_lt positive, Int64.le_refl _⟩
    · simp only [ChainStore.putHeight, AList.lookup_insert_ne same]
      rw [chain.stored k]
      have different : k.toInt ≠ (v.height b).toInt := fun h => same (Int64.toInt_inj.mp h)
      have nonneg := chain.nonneg
      have range := Word.toInt_range (v.height b)
      have one := Word.toInt_one
      simp only [Word.le_iff, Word.lt_iff, Word.toInt_zero] at *
      rcases upper with same' | next
      · omega
      · rw [next] at lower different ⊢
        rcases Word.toInt_add_cases top 1 with h | h | h <;> omega
  · intro k hash indexed
    by_cases same : k = v.height b
    · subst same
      cases (AList.lookup_insert _).symm.trans indexed
      exact ⟨b, found, rfl⟩
    · exact chain.body k hash ((AList.lookup_insert_ne same).symm.trans indexed)
  · intro k a above loaded
    by_cases same : k = v.height b
    · subst same
      cases (load_putHeight found).symm.trans loaded
      exact ⟨p, (load_putHeight_ne (pred_ne positive)).trans below, linked⟩
    · rw [load_putHeight_ne same] at loaded
      obtain ⟨q, below', linked'⟩ := chain.linked k a above loaded
      refine ⟨q, (load_putHeight_ne ?_).trans below', linked'⟩
      -- the block below one that was stored already is below the top
      obtain ⟨-, -, -, -, stored⟩ := chain.load_facts loaded
      intro equal
      have exact := congrArg Int64.toInt equal
      simp only [Word.le_iff, Word.lt_iff, Word.toInt_zero] at *
      rw [Word.toInt_pred (by omega)] at exact
      omega

theorem hash_ne (loaded : c.load top = some b) {hash : H} (other : k ≠ top)
    (indexed : c.byHeight.lookup k = some hash) : hash ≠ v.hash b := by
  rintro rfl
  obtain ⟨height, indexed', -, -, -⟩ := chain.load_facts loaded
  obtain ⟨old, found, height'⟩ := chain.body k _ indexed
  obtain ⟨hash', indexed'', found'⟩ := load_eq_some.mp loaded
  rw [indexed'] at indexed''
  cases indexed''
  rw [found] at found'
  cases found'
  exact other (height'.symm.trans height)

theorem remove_eq (loaded : c.load top = some b) :
    c.remove top = ⟨c.blocks.erase (v.hash b), c.byHeight.erase top⟩ := by
  unfold ChainStore.remove
  rw [(chain.load_facts loaded).2.1]

theorem load_remove_ne (other : k ≠ top) : (c.remove top).load k = c.load k := by
  obtain ⟨b, loaded⟩ := chain.load_isSome chain.nonneg (Int64.le_refl top)
  rw [chain.remove_eq loaded]
  unfold load
  rw [AList.lookup_erase_ne other]
  cases indexed : c.byHeight.lookup k with
  | none => rfl
  | some hash => exact AList.lookup_erase_ne (chain.hash_ne loaded other indexed)

theorem remove (positive : 0 < top) : (c.remove top).LinkedTo v (top - 1) := by
  obtain ⟨b, loaded⟩ := chain.load_isSome chain.nonneg (Int64.le_refl top)
  have elsewhere : ∀ {k}, k ≠ top → (c.remove top).load k = c.load k := chain.load_remove_ne
  rw [chain.remove_eq loaded] at elsewhere ⊢
  rw [Word.lt_iff, Word.toInt_zero] at positive
  have exact := Word.toInt_pred (a := top) (by omega)
  refine ⟨?_, ?_, ?_, ?_, ?_⟩
  · rw [Word.le_iff, Word.toInt_zero]
    omega
  · intro k
    by_cases same : k = top
    · subst same
      simp only [AList.lookup_erase, Option.isSome_none, Bool.false_eq_true, false_iff,
        Word.le_iff, Word.toInt_zero]
      omega
    · have different : k.toInt ≠ top.toInt := fun h => same (Int64.toInt_inj.mp h)
      simp only [AList.lookup_erase_ne same, chain.stored k, Word.le_iff, Word.toInt_zero]
      omega
  · intro k hash indexed'
    have other : k ≠ top := by
      rintro rfl
      rw [AList.lookup_erase] at indexed'
      cases indexed'
    rw [AList.lookup_erase_ne other] at indexed'
    obtain ⟨old, found, height'⟩ := chain.body k hash indexed'
    exact ⟨old, (AList.lookup_erase_ne (chain.hash_ne loaded other indexed')).trans found, height'⟩
  · intro hash old found
    have other : hash ≠ v.hash b := by
      rintro rfl
      rw [AList.lookup_erase] at found
      cases found
    exact chain.named hash old ((AList.lookup_erase_ne other).symm.trans found)
  · intro k a above loaded'
    have other : k ≠ top := by
      rintro rfl
      obtain ⟨hash, indexed', -⟩ := load_eq_some.mp loaded'
      rw [AList.lookup_erase] at indexed'
      cases indexed'
    rw [elsewhere other] at loaded'
    obtain ⟨q, below, linked⟩ := chain.linked k a above loaded'
    obtain ⟨-, -, -, -, stored⟩ := chain.load_facts loaded'
    refine ⟨q, (elsewhere ?_).trans below, linked⟩
    intro equal
    have value := congrArg Int64.toInt equal
    simp only [Word.le_iff, Word.lt_iff, Word.toInt_zero] at *
    rw [Word.toInt_pred (by omega)] at value
    omega

end

end LinkedTo
end ChainStore
end QwidNode.Lib
