import ZigPsql.Zig.Heap

/-!
# Memory that lasts and memory that runs out

An allocation that fails leaves the blocks as they were. What is proved of an
operation for both ways in which it can end gives what it returns where no
allocation fails.
-/

namespace Zig
open Effect Effect.Eff Text

variable {E C : Type} {f : Bool} {a : ℕ}

/-- Of the allocations attempted from the a-th on, none has failed. -/
def Unfailed (P : Platform) (a : ℕ) (h : Heap) : Prop := ∀ k, a ≤ k → k < h.attempts → P.fails k = false

/-- Memory has lasted so far, and the heap holds the blocks of `L`. -/
def Lasts (P : Platform) (f : Bool) (a : ℕ) (L : Multiset Block) (h : Heap) : Prop := Owns f L h ∧ Unfailed P a h

/-- Memory has run out, and the heap holds the blocks of `L`. -/
def RanOut [AllocError E] (P : Platform) (f : Bool) (L : Multiset Block) (e : E) (h : Heap) : Prop :=
  ¬ P.Succeeds ∧ e = AllocError.outOfMemory ∧ Owns f L h

theorem lasts_now {P : Platform} {L : Multiset Block} {h : Heap} (hh : Owns f L h) : Lasts P f h.attempts L h :=
  ⟨hh, fun _ hk hlt => absurd hlt (not_lt.mpr hk)⟩

theorem free_attempts (b : Block) (h : Heap) : ((free b : Eff Heap E C Unit) h).2.attempts = h.attempts := by
  unfold free Heap.released
  split
  · rfl
  · split <;> rfl

theorem remap_attempts (P : Platform) (b : Block) (size : ℕ) (h : Heap) :
    ((remap P b size : Eff Heap E C Bool) h).2.attempts = h.attempts := by
  unfold remap Heap.resized Heap.unmoved Heap.released
  repeat' split
  all_goals rfl

theorem keeps_unfailed {β : Type} (P : Platform) {m : Eff Heap E C β} (hm : ∀ h, (m h).2.attempts = h.attempts) :
    Keeps (Unfailed P a) m := by
  intro h hh k hk hlt
  rw [hm] at hlt
  exact hh k hk hlt

theorem unfailed_granted {P : Platform} {h : Heap} (hh : Unfailed P a h) (hf : P.fails h.attempts = false) (size : ℕ) :
    Unfailed P a (h.granted size) := by
  intro k hk hlt
  rcases Nat.lt_succ_iff_lt_or_eq.mp hlt with hlt | rfl
  · exact hh k hk hlt
  · exact hf

section
variable (P : Platform) (L : Multiset Block)

theorem alloc_ends [AllocError E] (size : ℕ) :
    Ends (Lasts P f a L) (alloc P size : Eff Heap E C ℕ) (fun addr => Lasts P f a (entry ⟨addr, size⟩ + L))
      (RanOut P f L) := by
  intro h hh
  by_cases hs : size = 0
  · refine .inl ⟨0, h, by simp only [alloc, hs, if_true], ?_⟩
    change Lasts P f a (entry ⟨0, size⟩ + L) h
    rwa [entry_of_zero (b := ⟨0, size⟩) hs, zero_add]
  cases hf : P.fails h.attempts with
  | true =>
    have hfails : ¬ P.Succeeds := fun hP => Bool.false_ne_true ((hP h.attempts).symm.trans hf)
    refine .inr ⟨AllocError.outOfMemory, h.refused, ?_, hfails, rfl, hh.1⟩
    simp only [alloc, hs, hf, if_false, if_true]
  | false =>
    refine .inl ⟨h.next, h.granted size, by simp only [alloc, hs, hf, if_false, Bool.false_eq_true], ?_⟩
    exact ⟨owns_granted L h size hs hh.1, unfailed_granted hh.2 hf size⟩

theorem free_lasts (b : Block) :
    Returns (Lasts P f a (entry b + L)) (free b : Eff Heap E C Unit) fun _ => Lasts P f a L :=
  returns_keeps (free_returns L b) (keeps_unfailed P (free_attempts b))

theorem remap_lasts (b : Block) (size : ℕ) :
    Returns (Lasts P f a (entry b + L)) (remap P b size : Eff Heap E C Bool) fun done =>
      Lasts P f a (entry (if done then ⟨b.addr, size⟩ else b) + L) :=
  returns_keeps (remap_returns P L b size) (keeps_unfailed P (remap_attempts P b size))

theorem allocPrint_ends [AllocError E] (text : Bytes) :
    Ends (Lasts P f a L) (allocPrint P text : Eff Heap E C Buf)
      (fun b h => b.text = text ∧ Lasts P f a (entry b.block + L) h) (RanOut P f L) :=
  ends_bind (alloc_ends P L text.length) fun _ => ends_of_returns (returns_pure _ fun _ hh => ⟨rfl, hh⟩)

end

/-! ### Where it does not matter since when memory has lasted -/

theorem ends_owns [AllocError E] {β : Type} {P : Platform} {L : Multiset Block} {m : Eff Heap E C β}
    {Q : ℕ → β → Heap → Prop} {Q' : β → Heap → Prop} (hm : ∀ a, Ends (Lasts P f a L) m (Q a) (RanOut P f L))
    (hq : ∀ a b h, Q a b h → Q' b h) : Ends (Owns f L) m Q' fun _ h => ¬ P.Succeeds ∧ Owns f L h := by
  intro h hh
  exact ends_conseq (hm h.attempts) (fun _ hs => hs) (hq h.attempts) (fun _ _ hr => ⟨hr.1, hr.2.2⟩) h (lasts_now hh)

theorem returns_owns [AllocError E] {β : Type} {P : Platform} (hP : P.Succeeds) {L : Multiset Block} {m : Eff Heap E C β}
    {Q : ℕ → β → Heap → Prop} {Q' : β → Heap → Prop} (hm : ∀ a, Ends (Lasts P f a L) m (Q a) (RanOut P f L))
    (hq : ∀ a b h, Q a b h → Q' b h) : Returns (Owns f L) m Q' :=
  returns_of_ends (ends_owns hm hq) fun _ _ hr => hr.1 hP

theorem allocPrint_returns [AllocError E] (P : Platform) (hP : P.Succeeds) (L : Multiset Block) (text : Bytes) :
    Returns (Owns f L) (allocPrint P text : Eff Heap E C Buf) fun b h =>
      b.text = text ∧ Owns f (entry b.block + L) h :=
  returns_owns hP (fun _ => allocPrint_ends P L text) fun _ _ _ hq => ⟨hq.1, hq.2.1⟩

end Zig
