import Mathlib.Data.Multiset.Bind

/-!
# The equijoin of two bags

Two bags of rows of any types are joined on a key that each row may have or
lack: a pair belongs to the join as often as its rows belong to the bags, if
they have a key and it is the same.
-/

namespace Equijoin

variable {α β κ : Type}

/-- Both rows have a key, and it is the same. -/
def Matches (f : α → Option κ) (g : β → Option κ) (p : α × β) : Prop := (f p.1).isSome ∧ f p.1 = g p.2

theorem matches_swap {f : α → Option κ} {g : β → Option κ} {p : α × β} : Matches g f p.swap ↔ Matches f g p := by
  obtain ⟨a, b⟩ := p
  unfold Matches
  constructor
  · intro h
    obtain ⟨hkey, heq⟩ := h
    exact ⟨heq ▸ hkey, heq.symm⟩
  · intro h
    obtain ⟨hkey, heq⟩ := h
    exact ⟨heq ▸ hkey, heq.symm⟩

variable [DecidableEq κ]

instance (f : α → Option κ) (g : β → Option κ) : DecidablePred (Matches f g) := fun _ => instDecidableAnd

def equijoin (f : α → Option κ) (g : β → Option κ) (r : Multiset α) (s : Multiset β) : Multiset (α × β) :=
  (r ×ˢ s).filter (Matches f g)

/-- The join of lists, in the order of the nested loops. -/
theorem equijoin_coe (f : α → Option κ) (g : β → Option κ) (r : List α) (s : List β) :
    equijoin f g (r : Multiset α) s = ((r.product s).filter fun p => decide (Matches f g p) : List (α × β)) := by
  rw [equijoin, Multiset.coe_product, Multiset.filter_coe]
  rfl

theorem equijoin_swap (f : α → Option κ) (g : β → Option κ) (r : Multiset α) (s : Multiset β) :
    (equijoin f g r s).map Prod.swap = equijoin g f s r := by
  have hpred : Matches g f ∘ Prod.swap = Matches f g := funext fun p => propext matches_swap
  rw [equijoin, equijoin, ← Multiset.map_swap_product r s, Multiset.filter_map]
  simp only [hpred]

end Equijoin
