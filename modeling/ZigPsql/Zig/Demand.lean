import ZigPsql.Zig.ArrayList

/-!
# How often a list of bytes allocates

This depends on the lengths it grows to, on the capacities the platform grants
and on the resizes in place it permits, not on the rest of the heap.
-/

namespace Zig
open Effect Effect.Eff Text

variable {E C α : Type} {width : ℕ} {a : ℕ}

/-- What decides when a list of bytes allocates, and how many allocations that has made so far. -/
structure Demand where
  length : ℕ
  capacity : ℕ
  remapAttempts : ℕ
  allocs : ℕ

/-- A resize in place where the platform grants one, else a new block. -/
def Demand.resize (P : Platform) (d : Demand) (capacity : ℕ) : Demand :=
  if capacity = 0 then { d with capacity := 0 }
  else if d.capacity = 0 then { d with capacity := capacity, allocs := d.allocs + 1 }
  else if P.remaps d.remapAttempts then { d with capacity := capacity, remapAttempts := d.remapAttempts + 1 }
  else { d with capacity := capacity, remapAttempts := d.remapAttempts + 1, allocs := d.allocs + 1 }

def Demand.reserve (P : Platform) (d : Demand) (needed : ℕ) : Demand :=
  if needed ≤ d.capacity then d else d.resize P (P.grow 1 d.capacity needed)

def Demand.append (P : Platform) (d : Demand) (n : ℕ) : Demand :=
  { d.reserve P (d.length + n) with length := d.length + n }

/-- The heap has seen `a` allocations and what the demand says. -/
def Demand.Met (a : ℕ) (d : Demand) (h : Heap) : Prop :=
  h.attempts = a + d.allocs ∧ h.remapAttempts = d.remapAttempts

theorem Demand.le_resize (P : Platform) (d : Demand) (n : ℕ) : d.allocs ≤ (d.resize P n).allocs := by
  unfold resize
  repeat' split
  all_goals simp only [le_refl, Nat.le_add_right]

theorem Demand.le_reserve (P : Platform) (d : Demand) (n : ℕ) : d.allocs ≤ (d.reserve P n).allocs := by
  unfold reserve
  split
  · exact le_refl _
  · exact le_resize P d _

theorem Demand.le_append (P : Platform) (d : Demand) (n : ℕ) : d.allocs ≤ (d.append P n).allocs :=
  le_reserve P d _

section
variable (P : Platform) {d : Demand}

theorem released_met {h : Heap} (hh : d.Met a h) (b : Block) : d.Met a (h.released b) := by
  unfold Heap.released
  split
  · exact hh
  · exact hh

theorem free_met (b : Block) : Returns (d.Met a) (free b : Eff Heap E C Unit) fun _ => d.Met a := by
  intro h hh
  unfold free
  split
  · exact ⟨(), h, rfl, hh⟩
  · exact ⟨(), h.released b, rfl, released_met hh b⟩

theorem move_met [AllocError E] (b : Block) {size : ℕ} (hs : size ≠ 0) {d' : Demand}
    (hd : d'.allocs = d.allocs + 1 ∧ d'.remapAttempts = d.remapAttempts) :
    Ends (d.Met a) (move P b size : Eff Heap E C ℕ) (fun _ => d'.Met a) fun _ => d'.Met a := by
  refine ends_bind (Q := fun _ => d'.Met a) ?_ fun addr =>
    ends_of_returns (returns_bind (free_met b) fun _ => returns_pure addr fun _ hh => hh)
  intro h hh
  have hcounted : h.attempts + 1 = a + d'.allocs ∧ h.remapAttempts = d'.remapAttempts := by
    rw [hd.1, hd.2, hh.1]
    exact ⟨rfl, hh.2⟩
  cases hf : P.fails h.attempts with
  | true => exact .inr ⟨AllocError.outOfMemory, h.refused, by simp only [alloc, hs, hf, if_false, if_true], hcounted⟩
  | false =>
    exact .inl ⟨h.next, h.granted size, by simp only [alloc, hs, hf, if_false, Bool.false_eq_true], hcounted⟩

theorem remap_met (b : Block) (hb : b.size = d.capacity) (size : ℕ) :
    Returns (d.Met a) (remap P b size : Eff Heap E C Bool) fun done h =>
      if done then (d.resize P size).Met a h
      else size ≠ 0 ∧ ∃ d' : Demand, d'.Met a h ∧ (d.resize P size).allocs = d'.allocs + 1 ∧
        (d.resize P size).remapAttempts = d'.remapAttempts := by
  intro h hh
  unfold remap Demand.resize
  rw [hb]
  by_cases hs : size = 0
  · simp only [hs, if_true]
    refine ⟨true, _, rfl, ?_⟩
    change d.Met a (if d.capacity = 0 then h else h.released b)
    split
    · exact hh
    · exact released_met hh b
  by_cases hc : d.capacity = 0
  · simp only [hs, hc, if_true, if_false]
    exact ⟨false, h, rfl, hs, d, hh, rfl, rfl⟩
  · simp only [hs, hc, if_false]
    rw [hh.2]
    split
    · exact ⟨true, _, rfl, (released_met hh b).1, congrArg (· + 1) hh.2⟩
    · exact ⟨false, h.unmoved, rfl, hs, ⟨0, 0, d.remapAttempts + 1, d.allocs⟩, ⟨hh.1, congrArg (· + 1) hh.2⟩, rfl, rfl⟩

/-- The way in which a list changes the size of its block. -/
theorem resize_met [AllocError E] {β : Type} {b : Block} (hb : b.size = d.capacity) {size n : ℕ} (hn : size = n)
    (x : β) (y : ℕ → β) {p : β → Prop} (hx : p x) (hy : ∀ addr, p (y addr)) :
    Ends (d.Met a) (do if ← remap P b size then return x else let addr ← move P b size; return y addr : Eff Heap E C β)
      (fun z h => p z ∧ (d.resize P n).Met a h) fun _ => (d.resize P n).Met a := by
  subst hn
  apply ends_bind (ends_of_returns (remap_met P b hb size))
  intro done
  cases done with
  | true => exact ends_of_returns (returns_pure x fun _ hh => ⟨hx, hh⟩)
  | false =>
    intro h hh
    obtain ⟨hs, d', hd', hnext⟩ := hh
    exact ends_bind (move_met P b hs hnext)
      (fun addr => ends_of_returns (returns_pure (y addr) fun _ hh => ⟨hy addr, hh⟩)) h hd'

theorem Demand.resize_capacity (P : Platform) (d : Demand) (n : ℕ) : (d.resize P n).capacity = n := by
  unfold resize
  repeat' split
  · exact Eq.symm ‹_›
  all_goals rfl

namespace ArrayList

theorem block_size (l : ArrayList Byte 1) : l.block.size = l.capacity := Nat.mul_one _

theorem ensureTotalCapacity_met [AllocError E] (l : ArrayList Byte 1) (hl : l.capacity = d.capacity) (needed : ℕ) :
    Ends (d.Met a) (l.ensureTotalCapacity P needed : Eff Heap E C (l.Room needed))
      (fun g h => g.val.capacity = (d.reserve P needed).capacity ∧ (d.reserve P needed).Met a h)
      fun _ => (d.reserve P needed).Met a := by
  unfold ensureTotalCapacity Demand.reserve
  rw [← hl]
  split
  next => exact ends_of_returns (returns_pure _ fun _ hh => ⟨hl, hh⟩)
  next =>
    rw [Demand.resize_capacity]
    exact resize_met P (l.block_size.trans hl) (Nat.mul_one _) _ _ rfl fun _ => rfl

theorem appendSlice_met [AllocError E] (l : ArrayList Byte 1) (hl : l.capacity = d.capacity) (xs : Bytes) :
    Ends (d.Met a) (l.appendSlice P xs : Eff Heap E C (ArrayList Byte 1))
      (fun g h => (g.items = l.items ++ xs ∧ g.capacity = (d.reserve P (l.items.length + xs.length)).capacity) ∧
        (d.reserve P (l.items.length + xs.length)).Met a h)
      fun _ => (d.reserve P (l.items.length + xs.length)).Met a :=
  ends_bind (ensureTotalCapacity_met P l hl _) fun _ => ends_of_returns (returns_pure _ fun _ hh => ⟨⟨rfl, hh.1⟩, hh.2⟩)

theorem toOwnedSlice_met [AllocError E] (l : ArrayList Byte 1) (hl : l.capacity = d.capacity) :
    Ends (d.Met a) (l.toOwnedSlice P : Eff Heap E C Buf) (fun _ => (d.resize P l.items.length).Met a)
      fun _ => (d.resize P l.items.length).Met a :=
  ends_conseq (resize_met P (l.block_size.trans hl) rfl _ _ (p := fun _ => True) trivial fun _ => trivial)
    (fun _ hh => hh) (fun _ _ hh => hh.2) fun _ _ hh => hh

def VarMet (a : ℕ) (d : Demand) (s : Heap × ArrayList Byte 1) : Prop :=
  s.2.items.length = d.length ∧ s.2.capacity = d.capacity ∧ d.Met a s.1

theorem appendSliceVar_met [AllocError E] (d : Demand) (xs : Bytes) :
    Ends (VarMet a d) (update fun l : ArrayList Byte 1 => (l.appendSlice P xs : Eff Heap E C (ArrayList Byte 1)))
      (fun _ => VarMet a (d.append P xs.length)) fun _ s => (d.append P xs.length).Met a s.1 := by
  refine ends_update (P := fun l h => VarMet a d (h, l)) (Q := fun l h => VarMet a (d.append P xs.length) (h, l))
    (R := fun _ _ h => (d.append P xs.length).Met a h) fun l h hh => ?_
  obtain ⟨hlen, hcap, hmet⟩ := hh
  have happend := appendSlice_met (E := E) (C := C) (a := a) P l hcap xs
  rw [hlen] at happend
  refine ends_conseq happend (fun _ hh => hh) (fun g _ hq => ⟨?_, hq.1.2, hq.2⟩) (fun _ _ hr => hr) h hmet
  rw [hq.1.1, List.length_append, hlen]
  rfl

theorem toOwnedSliceVar_met [AllocError E] (d : Demand) :
    Ends (VarMet a d) (toOwnedSliceVar P : Eff (Heap × ArrayList Byte 1) E C Buf)
      (fun _ s => (d.resize P d.length).Met a s.1) fun _ s => (d.resize P d.length).Met a s.1 := by
  intro s hh
  obtain ⟨h, l⟩ := s
  obtain ⟨hlen, hcap, hmet⟩ := hh
  have hslice := toOwnedSlice_met (E := E) (C := C) P l hcap h hmet
  rw [hlen] at hslice
  rcases hslice with ⟨b, h', hb, ho⟩ | ⟨e, h', he, hr⟩
  · exact .inl ⟨b, (h', init), (bind_ok rfl).trans ((bind_ok (lifted_run hb)).trans rfl), ho⟩
  · exact .inr ⟨e, (h', l), (bind_ok rfl).trans (bind_err (lifted_run he)), hr⟩

omit P in
theorem deinitVar_attempts (p : ℕ → Prop) :
    Returns (fun s => p s.1.attempts) (deinitVar : Eff (Heap × ArrayList α width) E C Unit) fun _ s => p s.1.attempts := by
  intro s hs
  obtain ⟨h, l⟩ := s
  obtain ⟨u, h', hu, -⟩ := free_met (E := E) (C := C) (d := ⟨0, 0, h.remapAttempts, h.attempts⟩) (a := 0) l.block h
    ⟨(Nat.zero_add _).symm, rfl⟩
  refine ⟨u, (h', l), (bind_ok rfl).trans (lifted_run hu), ?_⟩
  have hattempts := free_attempts (E := E) (C := C) l.block h
  rw [hu] at hattempts
  change p h'.attempts
  rwa [show h'.attempts = h.attempts from hattempts]

end ArrayList
end
end Zig
