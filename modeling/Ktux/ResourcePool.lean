import Mathlib.Data.Finset.Basic
import Mathlib.Data.Finset.Card

set_option autoImplicit false

/-!
# Pools of resources

The abstract allocator: each resource is either free or held. Taking moves a free resource to its holder,
and is refused only when none is free; giving back moves a held resource to the free ones.
-/
namespace Ktux.ResourcePool

variable {α : Type*} [DecidableEq α]

structure Pool (α : Type*) [DecidableEq α] where
  free : Finset α
  held : Finset α
  apart : Disjoint free held

def Pool.all (p : Pool α) : Finset α := p.free ∪ p.held

inductive PoolOp (α : Type*) where
  | take (answer : Option α)
  | give (a : α)

inductive PoolStep : Pool α → PoolOp α → Pool α → Prop where
  | take {p q : Pool α} {a : α} (h : a ∈ p.free) (hfree : q.free = p.free.erase a)
      (hheld : q.held = insert a p.held) : PoolStep p (.take (some a)) q
  | refuse {p : Pool α} (h : p.free = ∅) : PoolStep p (.take none) p
  | give {p q : Pool α} {a : α} (h : a ∈ p.held) (hfree : q.free = insert a p.free)
      (hheld : q.held = p.held.erase a) : PoolStep p (.give a) q

theorem PoolStep.taken_not_held {p q : Pool α} {a : α} (h : PoolStep p (.take (some a)) q) :
    a ∉ p.held := by
  cases h with
  | take ha _ _ => exact Finset.disjoint_left.mp p.apart ha

theorem PoolStep.refused_all_held {p q : Pool α} (h : PoolStep p (.take none) q) :
    p.held = p.all := by
  cases h with
  | refuse hfree => rw [Pool.all, hfree, Finset.empty_union]

end Ktux.ResourcePool
