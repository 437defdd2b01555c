import ZigPsql.Lib.Effect
import ZigPsql.Lib.Text
import Mathlib.Algebra.Order.Group.Multiset
import Mathlib.Tactic.Abel

/-!
# The page allocator (std.heap.page_allocator) as a ledger

The heap keeps the multiset of blocks handed out and not yet freed. A free that
matches no block of the ledger, by address and by size, sets the fault flag. An
empty request takes no block and an empty slice frees none (std.mem.Allocator).
-/

namespace Zig
open Effect Effect.Eff Text

/-- What the operating system and std.ArrayList leave open. -/
structure Platform where
  pageSize : ℕ
  pageSize_pos : 0 < pageSize
  /-- Whether the k-th attempted allocation fails. -/
  fails : ℕ → Bool
  /-- Whether the k-th attempted resize in place succeeds. -/
  remaps : ℕ → Bool
  /-- The capacity a list grows to, from the width of its elements, its capacity and the one it needs. -/
  grow : ℕ → ℕ → ℕ → ℕ
  grow_ge : ∀ width capacity needed, needed ≤ grow width capacity needed

def Platform.Succeeds (P : Platform) : Prop := ∀ k, P.fails k = false

/-- Pages of 4096 bytes, memory without end, no resize in place, lists that take just what they need. -/
def Platform.simple : Platform :=
  ⟨4096, by decide, fun _ => false, fun _ => false, fun _ _ needed => needed, fun _ _ _ => le_rfl⟩

theorem Platform.simple_succeeds : Platform.simple.Succeeds := fun _ => rfl

structure Block where
  addr : ℕ
  size : ℕ
  deriving DecidableEq, Repr

structure Heap where
  ledger : Multiset Block
  next : ℕ
  attempts : ℕ
  remapAttempts : ℕ
  faulted : Bool

def Heap.initial : Heap := ⟨0, 1, 0, 0, false⟩

class AllocError (E : Type) where
  outOfMemory : E

variable {E C : Type} {f : Bool}

def Heap.granted (h : Heap) (size : ℕ) : Heap :=
  { h with ledger := ⟨h.next, size⟩ ::ₘ h.ledger, next := h.next + 1, attempts := h.attempts + 1 }
def Heap.refused (h : Heap) : Heap := { h with attempts := h.attempts + 1 }
def Heap.released (h : Heap) (b : Block) : Heap :=
  if b ∈ h.ledger then { h with ledger := h.ledger.erase b } else { h with faulted := true }
def Heap.resized (h : Heap) (b : Block) (size : ℕ) : Heap :=
  { h.released b with
    ledger := ⟨b.addr, size⟩ ::ₘ (h.released b).ledger
    remapAttempts := h.remapAttempts + 1 }
def Heap.unmoved (h : Heap) : Heap := { h with remapAttempts := h.remapAttempts + 1 }

/-- std.mem.Allocator.alloc: the address of a new block. -/
def alloc [AllocError E] (P : Platform) (size : ℕ) : Eff Heap E C ℕ := fun h =>
  if size = 0 then (.ok 0, h)
  else if P.fails h.attempts then (.err AllocError.outOfMemory, h.refused)
  else (.ok h.next, h.granted size)

/-- std.mem.Allocator.free -/
def free (b : Block) : Eff Heap E C Unit := fun h =>
  if b.size = 0 then (.ok (), h) else (.ok (), h.released b)

/-- std.mem.Allocator.remap: whether the block now has the new size, in place. -/
def remap (P : Platform) (b : Block) (size : ℕ) : Eff Heap E C Bool := fun h =>
  if size = 0 then (.ok true, if b.size = 0 then h else h.released b)
  else if b.size = 0 then (.ok false, h)
  else if P.remaps h.remapAttempts then (.ok true, h.resized b size)
  else (.ok false, h.unmoved)

/-! ### What is owned -/

/-- The ledger entry of a block; an empty slice has none. -/
def entry (b : Block) : Multiset Block := if b.size = 0 then 0 else {b}

/-- The heap holds exactly the blocks of `L`, and its fault flag stands as `f`. -/
def Owns (f : Bool) (L : Multiset Block) (h : Heap) : Prop := h.ledger = L ∧ h.faulted = f

theorem entry_of_zero {b : Block} (h : b.size = 0) : entry b = 0 := by
  simp only [entry, h, if_true]

theorem entry_of_pos {b : Block} (h : b.size ≠ 0) : entry b = {b} := by
  simp only [entry, h, if_false]

theorem entry_card (b : Block) (h : b.size ≠ 0) : (entry b).card = 1 := by
  rw [entry_of_pos h, Multiset.card_singleton]

theorem owns_granted (L : Multiset Block) (h : Heap) (size : ℕ) (hs : size ≠ 0) (hh : Owns f L h) :
    Owns f (entry ⟨h.next, size⟩ + L) (h.granted size) := by
  refine ⟨?_, hh.2⟩
  rw [entry_of_pos (b := ⟨h.next, size⟩) hs, Multiset.singleton_add, ← hh.1]
  rfl

theorem owns_released (L : Multiset Block) (h : Heap) (b : Block) (hb : b.size ≠ 0)
    (hh : Owns f (entry b + L) h) : Owns f L (h.released b) := by
  obtain ⟨hl, hf⟩ := hh
  rw [entry_of_pos hb, Multiset.singleton_add] at hl
  have hm : b ∈ h.ledger := by rw [hl]; exact Multiset.mem_cons_self b L
  unfold Heap.released
  rw [if_pos hm]
  exact ⟨by rw [hl, Multiset.erase_cons_head], hf⟩

theorem owns_resized (L : Multiset Block) (h : Heap) (b : Block) (size : ℕ) (hb : b.size ≠ 0)
    (hs : size ≠ 0) (hh : Owns f (entry b + L) h) : Owns f (entry ⟨b.addr, size⟩ + L) (h.resized b size) := by
  have hr := owns_released L h b hb hh
  refine ⟨?_, hr.2⟩
  rw [entry_of_pos (b := ⟨b.addr, size⟩) hs, Multiset.singleton_add, ← hr.1]
  rfl

theorem free_returns (L : Multiset Block) (b : Block) :
    Returns (Owns f (entry b + L)) (free b : Eff Heap E C Unit) fun _ => Owns f L := by
  intro h hh
  by_cases hb : b.size = 0
  · refine ⟨(), h, by simp only [free, hb, if_true], ?_⟩
    rwa [entry_of_zero hb, zero_add] at hh
  · refine ⟨(), h.released b, ?_, owns_released L h b hb hh⟩
    simp only [free, hb, if_false]

theorem remap_returns (P : Platform) (L : Multiset Block) (b : Block) (size : ℕ) :
    Returns (Owns f (entry b + L)) (remap P b size : Eff Heap E C Bool) fun done =>
      Owns f (entry (if done then ⟨b.addr, size⟩ else b) + L) := by
  intro h hh
  by_cases hs : size = 0
  · refine ⟨true, if b.size = 0 then h else h.released b, by simp only [remap, hs, if_true], ?_⟩
    change Owns f (entry ⟨b.addr, size⟩ + L) (if b.size = 0 then h else h.released b)
    rw [entry_of_zero (b := ⟨b.addr, size⟩) hs, zero_add]
    by_cases hb : b.size = 0
    · rw [if_pos hb]
      rwa [entry_of_zero hb, zero_add] at hh
    · rw [if_neg hb]
      exact owns_released L h b hb hh
  by_cases hb : b.size = 0
  · exact ⟨false, h, by simp only [remap, hs, hb, if_true, if_false], hh⟩
  by_cases hr : P.remaps h.remapAttempts = true
  · refine ⟨true, h.resized b size, ?_, owns_resized L h b size hb hs hh⟩
    simp only [remap, hs, hb, hr, if_true, if_false]
  · refine ⟨false, h.unmoved, ?_, hh⟩
    simp only [remap, hs, hb, hr, if_false, Bool.false_eq_true]

/-! ### Byte buffers -/

structure Buf where
  addr : ℕ
  text : Bytes
  deriving DecidableEq, Repr

def Buf.block (b : Buf) : Block := ⟨b.addr, b.text.length⟩

/-- A slice of a constant, which no allocator handed out. -/
def Buf.static (text : Bytes) : Buf := ⟨0, text⟩

/-- std.fmt.allocPrint, given the text its format produces. -/
def allocPrint [AllocError E] (P : Platform) (text : Bytes) : Eff Heap E C Buf := do
  let addr ← alloc P text.length
  return ⟨addr, text⟩

/-- std.mem.join -/
def join [AllocError E] (P : Platform) (separator : Bytes) (slices : List Bytes) : Eff Heap E C Buf :=
  allocPrint P (separator.intercalate slices)

theorem alloc_tries [AllocError E] (P : Platform) (size : ℕ) :
    Tries (¬ P.Succeeds) (fun _ => True) (alloc P size : Eff Heap E C ℕ) fun _ _ => True := by
  intro h _
  by_cases hs : size = 0
  · exact .inl ⟨0, h, by simp only [alloc, hs, if_true], trivial⟩
  by_cases hf : P.fails h.attempts = true
  · refine .inr ⟨fun hP => ?_, AllocError.outOfMemory, h.refused, by simp only [alloc, hs, hf, if_false, if_true]⟩
    rw [hP] at hf
    cases hf
  · exact .inl ⟨h.next, h.granted size, by simp only [alloc, hs, hf, if_false, Bool.false_eq_true], trivial⟩

theorem allocPrint_tries [AllocError E] (P : Platform) (text : Bytes) :
    Tries (¬ P.Succeeds) (fun _ => True) (allocPrint P text : Eff Heap E C Buf) fun b _ => b.text = text :=
  tries_bind (alloc_tries P text.length) fun _ => tries_of_returns (returns_pure _ fun _ _ => rfl)

theorem allocPrint_served [AllocError E] {P : Platform} {text : Bytes} {h : Heap}
    (hserved : text = [] ∨ P.fails h.attempts = false) :
    ∃ b h', (allocPrint P text : Eff Heap E C Buf) h = (.ok b, h') ∧ b.text = text ∧
      (text ≠ [] → h'.attempts = h.attempts + 1) := by
  by_cases ht : text = []
  · subst ht
    exact ⟨⟨0, []⟩, h, rfl, rfl, fun hne => absurd rfl hne⟩
  · have hf := hserved.resolve_left ht
    have hsize : text.length ≠ 0 := fun hzero => ht (List.length_eq_zero_iff.mp hzero)
    have halloc : (alloc P text.length : Eff Heap E C ℕ) h = (.ok h.next, h.granted text.length) := by
      simp only [alloc, hsize, hf, if_false, Bool.false_eq_true]
    exact ⟨⟨h.next, text⟩, h.granted text.length, bind_ok halloc, rfl, fun _ => rfl⟩

theorem allocPrint_refused [AllocError E] {P : Platform} {text : Bytes} {h : Heap} (ht : text ≠ [])
    (hf : P.fails h.attempts = true) :
    (allocPrint P text : Eff Heap E C Buf) h = (.err AllocError.outOfMemory, h.refused) := by
  have hsize : text.length ≠ 0 := fun hzero => ht (List.length_eq_zero_iff.mp hzero)
  have halloc : (alloc P text.length : Eff Heap E C ℕ) h = (.err AllocError.outOfMemory, h.refused) := by
    simp only [alloc, hsize, hf, if_false, if_true]
  exact bind_err halloc

theorem free_always (b : Block) :
    Returns (fun _ => True) (free b : Eff Heap E C Unit) fun _ _ => True := by
  intro h _
  by_cases hb : b.size = 0
  · exact ⟨(), h, by simp only [free, hb, if_true], trivial⟩
  · exact ⟨(), h.released b, by simp only [free, hb, if_false], trivial⟩

theorem remap_always (P : Platform) (b : Block) (size : ℕ) :
    Returns (fun _ => True) (remap P b size : Eff Heap E C Bool) fun _ _ => True := by
  intro h _
  unfold remap
  split
  · exact ⟨true, _, rfl, trivial⟩
  split
  · exact ⟨false, _, rfl, trivial⟩
  split
  · exact ⟨true, _, rfl, trivial⟩
  · exact ⟨false, _, rfl, trivial⟩

/-! ### C strings in page memory -/

def Platform.mapped (P : Platform) (size : ℕ) : ℕ :=
  (size + P.pageSize - 1) / P.pageSize * P.pageSize

/-- The block of a buffer: its text, then zero bytes to the end of the last page. -/
def Buf.memory (P : Platform) (b : Buf) : Bytes :=
  b.text ++ List.replicate (P.mapped b.text.length - b.text.length) 0

/-- Reads from the start of a block to the first zero byte; `none` is a read past its end. -/
def scanZ : Bytes → Option Bytes
  | [] => none
  | b :: rest => if b = 0 then some [] else (scanZ rest).map (b :: ·)

/-- std.mem.span on a C string -/
def span (t : Bytes) : Bytes := t.takeWhile (· != 0)

theorem scanZ_append (t pad : Bytes) (ht : 0 ∉ t) : scanZ (t ++ pad) = (scanZ pad).map (t ++ ·) := by
  induction t with
  | nil => simp
  | cons b t ih =>
    have hb : b ≠ 0 := fun h => ht (h ▸ List.mem_cons_self ..)
    have hrest := ih fun h => ht (List.mem_cons_of_mem _ h)
    simp only [List.cons_append, scanZ, hb, if_false, hrest, Option.map_map]
    rfl

theorem mapped_eq_iff (P : Platform) (n : ℕ) : P.mapped n - n = 0 ↔ P.pageSize ∣ n := by
  have hp := P.pageSize_pos
  have hdiv := Nat.div_add_mod (n + P.pageSize - 1) P.pageSize
  have hmod := Nat.mod_lt (n + P.pageSize - 1) hp
  have hcomm := Nat.mul_comm P.pageSize ((n + P.pageSize - 1) / P.pageSize)
  constructor
  · intro h
    have he : P.mapped n = n := by unfold Platform.mapped at h ⊢; omega
    exact ⟨_, he.symm.trans hcomm.symm⟩
  · intro hdvd
    obtain ⟨k, rfl⟩ := hdvd
    have hk : (P.pageSize * k + P.pageSize - 1) / P.pageSize = k := by
      rw [Nat.add_sub_assoc hp, Nat.mul_add_div hp, Nat.div_eq_of_lt (by omega), Nat.add_zero]
    rw [Platform.mapped, hk, Nat.mul_comm, Nat.sub_self]

/-- Scanning a buffer for its terminator stays inside its block, and finds the text, exactly when
the text does not end on a page boundary. -/
theorem scanZ_memory_iff (P : Platform) (b : Buf) (ht : 0 ∉ b.text) :
    scanZ (b.memory P) = some b.text ↔ ¬ P.pageSize ∣ b.text.length := by
  rw [Buf.memory, scanZ_append _ _ ht, ← mapped_eq_iff]
  cases P.mapped b.text.length - b.text.length with
  | zero => simp [scanZ]
  | succ k => simp [scanZ, List.replicate_succ]

theorem span_of_noNul (t : Bytes) (ht : 0 ∉ t) : span t = t := by
  induction t with
  | nil => rfl
  | cons b t ih =>
    have hb : b ≠ 0 := fun h => ht (h ▸ List.mem_cons_self ..)
    have hrest := ih fun h => ht (List.mem_cons_of_mem _ h)
    simpa [span, List.takeWhile_cons, hb] using hrest

theorem span_append_nul {t : Bytes} (ht : 0 ∉ t) (rest : Bytes) : span (t ++ 0 :: rest) = t := by
  have hall : ∀ b ∈ t, (b != 0) = true := by
    intro b hb
    have hne : b ≠ 0 := fun h => ht (h ▸ hb)
    simpa using hne
  rw [span, List.takeWhile_append_of_pos hall, List.takeWhile_cons_of_neg (by decide), List.append_nil]

end Zig
