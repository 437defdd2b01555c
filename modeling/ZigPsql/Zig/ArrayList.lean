import ZigPsql.Zig.Failure

/-!
# Growable lists (std.ArrayList)

A list owns one block, of its capacity times the width of an element. It grows
by a resize in place where the allocator grants one, else by a new block.
-/

namespace Zig
open Effect Effect.Eff Text

variable {E C α : Type} {width : ℕ} {f : Bool} {a : ℕ}

structure ArrayList (α : Type) (width : ℕ) where
  addr : ℕ
  capacity : ℕ
  items : List α
  fits : items.length ≤ capacity

def move [AllocError E] (P : Platform) (old : Block) (size : ℕ) : Eff Heap E C ℕ := do
  let addr ← alloc P size
  free old
  return addr

namespace ArrayList

def init : ArrayList α width := ⟨0, 0, [], le_rfl⟩
def block (l : ArrayList α width) : Block := ⟨l.addr, l.capacity * width⟩

abbrev Room (l : ArrayList α width) (needed : ℕ) : Type :=
  { g : ArrayList α width // g.items = l.items ∧ needed ≤ g.capacity }

def ensureTotalCapacity [AllocError E] (P : Platform) (l : ArrayList α width) (needed : ℕ) :
    Eff Heap E C (l.Room needed) :=
  if h : needed ≤ l.capacity then return ⟨l, rfl, h⟩
  else
    let capacity := P.grow width l.capacity needed
    have hc : needed ≤ capacity := P.grow_ge width l.capacity needed
    have hf : l.items.length ≤ capacity := by have hl := l.fits; omega
    do
      if ← remap P l.block (capacity * width) then
        return ⟨⟨l.addr, capacity, l.items, hf⟩, rfl, hc⟩
      else
        let addr ← move P l.block (capacity * width)
        return ⟨⟨addr, capacity, l.items, hf⟩, rfl, hc⟩

def appendSlice [AllocError E] (P : Platform) (l : ArrayList α width) (xs : List α) :
    Eff Heap E C (ArrayList α width) := do
  let g ← l.ensureTotalCapacity P (l.items.length + xs.length)
  return ⟨g.val.addr, g.val.capacity, l.items ++ xs, by rw [List.length_append]; exact g.property.2⟩

def append [AllocError E] (P : Platform) (l : ArrayList α width) (x : α) :
    Eff Heap E C (ArrayList α width) :=
  l.appendSlice P [x]

def deinit (l : ArrayList α width) : Eff Heap E C Unit := free l.block

/-- The list's items as an exact block; the list is empty afterwards. -/
def toOwnedSlice [AllocError E] (P : Platform) (l : ArrayList Byte 1) : Eff Heap E C Buf := do
  if ← remap P l.block l.items.length then
    return ⟨l.addr, l.items⟩
  else
    let addr ← move P l.block l.items.length
    return ⟨addr, l.items⟩

def deinitVar : Eff (Heap × ArrayList α width) E C Unit := do
  let l ← readVar
  lifted l.deinit

def toOwnedSliceVar [AllocError E] (P : Platform) : Eff (Heap × ArrayList Byte 1) E C Buf := do
  let l ← readVar
  let out ← lifted (l.toOwnedSlice P)
  assign init
  return out

@[simp] theorem init_items : (init : ArrayList α width).items = [] := rfl
@[simp] theorem entry_init : entry (init : ArrayList α width).block = 0 := by
  simp [init, block, entry]

section
variable (P : Platform) (L : Multiset Block)

theorem move_ends [AllocError E] (old : Block) (size : ℕ) :
    Ends (Lasts P f a (entry old + L)) (move P old size : Eff Heap E C ℕ)
      (fun addr => Lasts P f a (entry ⟨addr, size⟩ + L)) (RanOut P f (entry old + L)) := by
  apply ends_bind (alloc_ends P (entry old + L) size)
  intro addr
  refine ends_bind (Q := fun _ => Lasts P f a (entry ⟨addr, size⟩ + L)) (ends_of_returns ?_) fun _ =>
    ends_of_returns (returns_pure addr fun _ hh => hh)
  refine returns_conseq (free_lasts P (entry ⟨addr, size⟩ + L) old) (fun h hh => ?_) fun _ _ hh => hh
  rwa [add_left_comm] at hh

theorem ensureTotalCapacity_ends [AllocError E] (l : ArrayList α width) (needed : ℕ) :
    Ends (Lasts P f a (entry l.block + L)) (l.ensureTotalCapacity P needed : Eff Heap E C (l.Room needed))
      (fun g => Lasts P f a (entry g.val.block + L)) (RanOut P f (entry l.block + L)) := by
  unfold ensureTotalCapacity
  split
  next => exact ends_of_returns (returns_pure _ fun _ hh => hh)
  next =>
    apply ends_bind (ends_of_returns (remap_lasts P L l.block _))
    intro done
    cases done with
    | true => exact ends_of_returns (returns_pure _ fun _ hh => hh)
    | false => exact ends_bind (move_ends P L l.block _) fun _ => ends_of_returns (returns_pure _ fun _ hh => hh)

theorem appendSlice_ends [AllocError E] (l : ArrayList α width) (xs : List α) :
    Ends (Lasts P f a (entry l.block + L)) (l.appendSlice P xs : Eff Heap E C (ArrayList α width))
      (fun g h => g.items = l.items ++ xs ∧ Lasts P f a (entry g.block + L) h) (RanOut P f (entry l.block + L)) :=
  ends_bind (ensureTotalCapacity_ends P L l _) fun _ => ends_of_returns (returns_pure _ fun _ hh => ⟨rfl, hh⟩)

theorem toOwnedSlice_ends [AllocError E] (l : ArrayList Byte 1) :
    Ends (Lasts P f a (entry l.block + L)) (l.toOwnedSlice P : Eff Heap E C Buf)
      (fun b => Lasts P f a (entry b.block + L)) (RanOut P f (entry l.block + L)) := by
  apply ends_bind (ends_of_returns (remap_lasts P L l.block _))
  intro done
  cases done with
  | true => exact ends_of_returns (returns_pure _ fun _ hh => hh)
  | false => exact ends_bind (move_ends P L l.block _) fun _ => ends_of_returns (returns_pure _ fun _ hh => hh)

end

theorem appendSlice_returns [AllocError E] (P : Platform) (hP : P.Succeeds) (L : Multiset Block)
    (l : ArrayList α width) (xs : List α) :
    Returns (Owns f (entry l.block + L)) (l.appendSlice P xs : Eff Heap E C (ArrayList α width))
      fun g h => g.items = l.items ++ xs ∧ Owns f (entry g.block + L) h :=
  returns_owns hP (fun _ => appendSlice_ends P L l xs) fun _ _ _ hq => ⟨hq.1, hq.2.1⟩

theorem append_returns [AllocError E] (P : Platform) (hP : P.Succeeds) (L : Multiset Block)
    (l : ArrayList α width) (x : α) :
    Returns (Owns f (entry l.block + L)) (l.append P x : Eff Heap E C (ArrayList α width))
      fun g h => g.items = l.items ++ [x] ∧ Owns f (entry g.block + L) h :=
  appendSlice_returns P hP L l [x]

theorem deinit_returns (L : Multiset Block) (l : ArrayList α width) :
    Returns (Owns f (entry l.block + L)) (l.deinit : Eff Heap E C Unit) fun _ => Owns f L :=
  free_returns L l.block

theorem move_tries [AllocError E] (P : Platform) (old : Block) (size : ℕ) :
    Tries (¬ P.Succeeds) (fun _ => True) (move P old size : Eff Heap E C ℕ) fun _ _ => True :=
  tries_bind (alloc_tries P size) fun _ =>
    tries_bind (tries_of_returns (free_always old)) fun _ => tries_of_returns (returns_pure _ fun _ _ => trivial)

theorem ensureTotalCapacity_tries [AllocError E] (P : Platform) (l : ArrayList α width) (needed : ℕ) :
    Tries (¬ P.Succeeds) (fun _ => True) (l.ensureTotalCapacity P needed : Eff Heap E C (l.Room needed))
      fun _ _ => True := by
  unfold ensureTotalCapacity
  split
  next => exact tries_of_returns (returns_pure _ fun _ _ => trivial)
  next =>
    apply tries_bind (tries_of_returns (remap_always P l.block _))
    intro done
    cases done with
    | true => exact tries_of_returns (returns_pure _ fun _ _ => trivial)
    | false =>
      exact tries_bind (move_tries P l.block _) fun _ => tries_of_returns (returns_pure _ fun _ _ => trivial)

theorem appendSlice_tries [AllocError E] (P : Platform) (l : ArrayList α width) (xs : List α) :
    Tries (¬ P.Succeeds) (fun _ => True) (l.appendSlice P xs : Eff Heap E C (ArrayList α width))
      fun g _ => g.items = l.items ++ xs :=
  tries_bind (ensureTotalCapacity_tries P l _) fun _ => tries_of_returns (returns_pure _ fun _ _ => rfl)

theorem toOwnedSlice_tries [AllocError E] (P : Platform) (l : ArrayList Byte 1) :
    Tries (¬ P.Succeeds) (fun _ => True) (l.toOwnedSlice P : Eff Heap E C Buf) fun b _ => b.text = l.items := by
  apply tries_bind (tries_of_returns (remap_always P l.block _))
  intro done
  cases done with
  | true => exact tries_of_returns (returns_pure _ fun _ _ => rfl)
  | false => exact tries_bind (move_tries P l.block _) fun _ => tries_of_returns (returns_pure _ fun _ _ => rfl)

/-! ### Lists held in a variable -/

theorem appendSliceVar_yields [AllocError E] (P : Platform) (items xs : List α) :
    Yields (fun s => s.2.items = items)
      (update fun l : ArrayList α width => (l.appendSlice P xs : Eff Heap E C (ArrayList α width)))
      fun _ s => s.2.items = items ++ xs :=
  yields_update (P := fun l : ArrayList α width => l.items = items) (Q := fun l => l.items = items ++ xs)
    fun l hl => hl ▸ yields_of_tries (appendSlice_tries P l xs)

theorem toOwnedSliceVar_yields [AllocError E] (P : Platform) (items : Bytes) :
    Yields (fun s => s.2.items = items) (toOwnedSliceVar P : Eff (Heap × ArrayList Byte 1) E C Buf)
      fun b _ => b.text = items := by
  refine yields_bind (yields_readVar _) fun l => ?_
  refine yields_bind (Q := fun b _ => b.text = items) ?_ fun b => ?_
  · intro s h b s' hb
    obtain ⟨rfl, hl⟩ := h
    exact (yields_lifted (I := fun _ => True) (yields_of_tries (toOwnedSlice_tries P s.2)) s trivial b s' hb).1.trans hl
  · exact yields_bind (Q := fun _ _ => b.text = items) (fun _ hs _ _ _ => hs) fun _ => yields_pure b fun _ hs => hs

def VarHolds (f : Bool) (L : Multiset Block) (s : Heap × ArrayList α width) : Prop :=
  Owns f (entry s.2.block + L) s.1

theorem varHolds_init (L : Multiset Block) (h : Heap) (hh : Owns f L h) :
    VarHolds f L (h, (init : ArrayList α width)) := by
  rwa [VarHolds, entry_init, zero_add]

theorem withVar_returns {β : Type} {L : Multiset Block} {Q : β → Heap → Prop}
    {m : Eff (Heap × ArrayList α width) E C β}
    (hm : Returns (VarHolds f L) m fun b s => Q b s.1) : Returns (Owns f L) (withVar init m) Q := by
  refine returns_withVar (returns_conseq hm ?_ fun _ _ hq => hq)
  intro s hs
  obtain ⟨h, l⟩ := s
  obtain ⟨hh, hl⟩ := hs
  cases hl
  exact varHolds_init L h hh

theorem appendSliceVar_returns [AllocError E] (P : Platform) (hP : P.Succeeds) (L : Multiset Block) (xs : List α) :
    Returns (VarHolds f L)
      (update fun l : ArrayList α width => (l.appendSlice P xs : Eff Heap E C (ArrayList α width)))
      fun _ => VarHolds f L :=
  returns_update (P := fun l h => VarHolds f L (h, l)) (Q := fun l h => VarHolds f L (h, l)) fun l =>
    returns_conseq (appendSlice_returns P hP L l xs) (fun _ hh => hh) fun _ _ hg => hg.2

theorem deinitVar_returns (L : Multiset Block) :
    Returns (VarHolds f L) (deinitVar : Eff (Heap × ArrayList α width) E C Unit) fun _ s => Owns f L s.1 := by
  intro s hh
  obtain ⟨h, l⟩ := s
  obtain ⟨u, h', hu, hq⟩ := deinit_returns (E := E) (C := C) L l h hh
  exact ⟨u, (h', l), (bind_ok rfl).trans (lifted_run hu), hq⟩

theorem deferring_deinitVar_returns {β : Type} {P : Heap × ArrayList α width → Prop} {R : β → Heap → Prop}
    {m : Eff (Heap × ArrayList α width) E C β}
    (hm : Returns P m fun b s => ∃ L, VarHolds f L s ∧ ∀ h, Owns f L h → R b h) :
    Returns P (deferring deinitVar m) fun b s => R b s.1 := by
  apply returns_deferring hm
  intro b s hheld
  obtain ⟨L, hs, hr⟩ := hheld
  obtain ⟨u, s', hu, ho⟩ := deinitVar_returns (E := E) (C := C) L s hs
  exact ⟨u, s', hu, hr _ ho⟩

section
variable (P : Platform) (L : Multiset Block)

/-- As `VarHolds`, while memory has lasted. -/
def VarLasts (P : Platform) (f : Bool) (a : ℕ) (L : Multiset Block) (s : Heap × ArrayList α width) : Prop :=
  Lasts P f a (entry s.2.block + L) s.1

def VarRanOut [AllocError E] (P : Platform) (f : Bool) (L : Multiset Block) (e : E) (s : Heap × ArrayList α width) : Prop :=
  RanOut P f (entry s.2.block + L) e s.1

omit P in
theorem varLasts_init {P : Platform} {h : Heap} (hh : Lasts P f a L h) :
    VarLasts P f a L (h, (init : ArrayList α width)) := by
  rwa [VarLasts, entry_init, zero_add]

theorem appendSliceVar_ends [AllocError E] (xs : List α) :
    Ends (VarLasts P f a L) (update fun l : ArrayList α width => (l.appendSlice P xs : Eff Heap E C (ArrayList α width)))
      (fun _ => VarLasts P f a L) (VarRanOut P f L) :=
  ends_update (P := fun l h => VarLasts P f a L (h, l)) (Q := fun l h => VarLasts P f a L (h, l))
    (R := fun e l h => VarRanOut P f L e (h, l)) fun l =>
    ends_conseq (appendSlice_ends P L l xs) (fun _ hs => hs) (fun _ _ hq => hq.2) fun _ _ hr => hr

theorem deinitVar_lasts :
    Returns (VarLasts P f a L) (deinitVar : Eff (Heap × ArrayList α width) E C Unit) fun _ s => Lasts P f a L s.1 := by
  intro s hh
  obtain ⟨h, l⟩ := s
  obtain ⟨u, h', hu, hq⟩ := free_lasts (E := E) (C := C) P L l.block h hh
  exact ⟨u, (h', l), (bind_ok rfl).trans (lifted_run hu), hq⟩

theorem toOwnedSliceVar_ends [AllocError E] :
    Ends (VarLasts P f a L) (toOwnedSliceVar P : Eff (Heap × ArrayList Byte 1) E C Buf)
      (fun b => VarLasts P f a (entry b.block + L)) (VarRanOut P f L) := by
  intro s hh
  obtain ⟨h, l⟩ := s
  rcases toOwnedSlice_ends (E := E) (C := C) P L l h hh with ⟨b, h', hb, ho⟩ | ⟨e, h', he, hr⟩
  · exact .inl ⟨b, (h', init), (bind_ok rfl).trans ((bind_ok (lifted_run hb)).trans rfl), varLasts_init _ ho⟩
  · exact .inr ⟨e, (h', l), (bind_ok rfl).trans (bind_err (lifted_run he)), hr⟩

/-- What a list that is freed on every way out leaves of a computation that holds nothing else. -/
theorem withList_ends [AllocError E] {β : Type} {M : β → Multiset Block} {m : Eff (Heap × ArrayList α width) E C β}
    (hm : Ends (VarLasts P f a L) m (fun b => VarLasts P f a (M b)) (VarRanOut P f L)) :
    Ends (Lasts P f a L) (withVar init (deferring deinitVar m)) (fun b => Lasts P f a (M b)) (RanOut P f L) := by
  refine ends_withVar (ends_deferring (ends_conseq hm ?_ (fun _ _ h => h) fun _ _ h => h) (fun b => ?_) fun e => ?_)
  · intro s hs
    obtain ⟨h, l⟩ := s
    obtain ⟨hh, hl⟩ := hs
    cases hl
    exact varLasts_init L hh
  · exact deinitVar_lasts P (M b)
  · intro s hs
    obtain ⟨u, s', hu, ho⟩ := deinitVar_returns (E := E) (C := C) L s hs.2.2
    exact ⟨u, s', hu, hs.1, hs.2.1, ho⟩

end

end ArrayList
end Zig
