import ZigPsql.Zig.ArrayList
import ZigPsql.Zig.TypeInfo

/-!
# Query parameters: psql.escapeString and psql.QParams

The list of fragments is a variable that the deferred deinit reads on every way
out; the flag `first` is carried by the loop.
-/

namespace Psql
open Effect Effect.Eff Text Zig

inductive Errors where
  | OutOfMemory
  | ConnectionFailed
  | QueryFailed
  | InsertionFailed
  | PrimaryKeyDuplicate
  | SelectJoinFailed
  | NotAStruct
  deriving DecidableEq, Repr

/-- What ends the program: `unreachable`, a read through a null C pointer, a failed safety check, or a use
of what was closed or given back, of which nothing more is said. -/
inductive Stop where
  | unreachable
  | nullPointer
  | safetyCheck
  | misuse
  deriving DecidableEq, Repr

instance : AllocError Errors := ⟨.OutOfMemory⟩

def quote : Bytes := [39]
def quoted (t : Bytes) : Bytes := quote ++ t ++ quote

def escapeString (P : Platform) (str : Bytes) : Eff Heap Errors Stop Buf :=
  withVar (ArrayList.init : ArrayList Byte 1) <| deferring ArrayList.deinitVar do
    str.forM fun c =>
      if c = 39 then update fun escaped => escaped.appendSlice P [39, 39]
      else update fun escaped => escaped.append P c
    ArrayList.toOwnedSliceVar P

structure QueryParams where
  paramString : Buf

def QueryParams.deinit (self : QueryParams) : Eff Heap Errors Stop Unit := free self.paramString.block

/-- The fragments of the parameter string: slices of 16 bytes. -/
abbrev Fragments := ArrayList Buf 16

/-- The separator of a branch: `if (!first) try paramString.append(", ")`. -/
def separate (P : Platform) (first : Bool) : Eff (Heap × Fragments) Errors Stop Unit :=
  if !first then update fun paramString => paramString.append P (.static (ascii ", ")) else return ()

/-- The last step of a branch: `try paramString.append(std.fmt.allocPrint(...) catch unreachable)`. -/
def appendPrinted (P : Platform) (text : Bytes) : Eff (Heap × Fragments) Errors Stop Unit := do
  let fragment ← lifted (orStop .unreachable (allocPrint P text))
  update fun paramString => paramString.append P fragment

def appendNumber (P : Platform) (first : Bool) (text : Bytes) :
    Eff (Heap × Fragments) Errors Stop Unit := do
  separate P first
  appendPrinted P text

def appendString (P : Platform) (first : Bool) (value : Bytes) :
    Eff (Heap × Fragments) Errors Stop Unit := do
  separate P first
  let safe_value ← lifted (escapeString P value)
  appendPrinted P (quoted safe_value.text)

/-- One pass of the loop over the tuple: the flag `first` before and after it. -/
def QParams.item (P : Platform) (first : Bool) (value : Value) :
    Eff (Heap × Fragments) Errors Stop Bool :=
  match value with
  | .int true 32 v => do
    appendNumber P first (intText v)
    return false
  | .float 32 v => do
    appendNumber P first v.text
    return false
  | .pointer .slice true (.int false 8) none v => do
    appendString P first v
    return false
  | .pointer _ _ (.array _ child sentinel) _ v =>
    if child = .u8 ∧ sentinel ≠ none then do
      appendString P first v
      return first
    else return first
  | .comptimeInt v => do
    appendNumber P first (intText v)
    return first
  | .comptimeFloat v => do
    appendNumber P first v.text
    return first
  | _ => return first

def QParams (P : Platform) (values : List Value) : Eff Heap Errors Stop QueryParams :=
  withVar (ArrayList.init : Fragments) <| deferring ArrayList.deinitVar do
    let _ ← values.foldlM (QParams.item P) true
    let paramString ← readVar
    let joined ← lifted (join P [] (paramString.items.map Buf.text))
    return ⟨joined⟩

/-! ### What the loop appends -/

def escaped (str : Bytes) : Bytes := str.flatMap fun c => if c = 39 then [39, 39] else [c]

def rendering : Value → Option Bytes
  | .int true 32 v => some (intText v)
  | .float 32 v => some v.text
  | .pointer .slice true (.int false 8) none v => some (quoted (escaped v))
  | .pointer _ _ (.array _ child sentinel) _ v =>
    if child = .u8 ∧ sentinel ≠ none then some (quoted (escaped v)) else none
  | .comptimeInt v => some (intText v)
  | .comptimeFloat v => some v.text
  | _ => none

/-- The elements of an exactly matched type, whose branches clear the flag `first`. -/
def typed : Value → Bool
  | .int true 32 _ | .float 32 _ | .pointer .slice true (.int false 8) none _ => true
  | _ => false

/-- The string that escapeString is called with for the element. -/
def stringOf : Value → Option Bytes
  | .pointer .slice true (.int false 8) none v => some v
  | .pointer _ _ (.array _ child sentinel) _ v => if child = .u8 ∧ sentinel ≠ none then some v else none
  | _ => none

def separator (first : Bool) : List Bytes := if first then [] else [ascii ", "]
def fragment (first : Bool) (v : Value) : List Bytes :=
  match rendering v with
  | some t => separator first ++ [t]
  | none => []

def fragments : Bool → List Value → List Bytes
  | _, [] => []
  | first, v :: rest => fragment first v ++ fragments (first && !typed v) rest

theorem fragments_append_one (first : Bool) (vs : List Value) (v : Value) :
    fragments first (vs ++ [v]) = fragments first vs ++ fragment (first && !vs.any typed) v := by
  induction vs generalizing first with
  | nil => simp [fragments]
  | cons w rest ih => simp [fragments, ih, List.any_cons, Bool.and_assoc]

/-! ### The text -/

theorem escapeString_text (P : Platform) (str : Bytes) :
    Yields (fun _ => True) (escapeString P str) fun b _ => b.text = escaped str := by
  refine yields_withVar (yields_deferring (yields_bind (Q := fun _ s => s.2.items = escaped str) ?_ fun _ =>
    ArrayList.toOwnedSliceVar_yields P (escaped str)))
  refine fun s hs => yields_forM (fun done s => s.2.items = escaped done) _ (fun done c => ?_) [] str s ?_
  · -- one character: its image goes to the end of what is escaped so far
    have himage : escaped (done ++ [c]) = escaped done ++ if c = 39 then [39, 39] else [c] := by
      simp [escaped]
    rw [himage]
    split
    · exact ArrayList.appendSliceVar_yields P (escaped done) [39, 39]
    · exact ArrayList.appendSliceVar_yields P (escaped done) [c]
  · exact congrArg ArrayList.items hs.2

def Spelling (texts : List Bytes) (s : Heap × Fragments) : Prop := s.2.items.map Buf.text = texts

theorem append_spelling (P : Platform) (texts : List Bytes) (b : Buf) :
    Yields (Spelling texts) (update fun l => (l.append P b : Eff Heap Errors Stop Fragments)) fun _ =>
      Spelling (texts ++ [b.text]) := by
  intro s h u s' hu
  subst h
  have hitems := ArrayList.appendSliceVar_yields P s.2.items [b] s rfl u s' hu
  rw [Spelling, hitems, List.map_append, List.map_singleton]

theorem separate_spelling (P : Platform) (texts : List Bytes) (first : Bool) :
    Yields (Spelling texts) (separate P first) fun _ => Spelling (texts ++ separator first) := by
  cases first with
  | true => exact yields_pure _ fun s hs => by simpa [separator] using hs
  | false => exact append_spelling P texts (.static (ascii ", "))

theorem appendPrinted_spelling (P : Platform) (texts : List Bytes) (text : Bytes) :
    Yields (Spelling texts) (appendPrinted P text) fun _ => Spelling (texts ++ [text]) := by
  refine yields_bind (Q := fun (b : Buf) s => b.text = text ∧ Spelling texts s)
    (yields_lifted (I := fun l : Fragments => l.items.map Buf.text = texts)
      (yields_orStop _ (yields_of_tries (allocPrint_tries P text)))) fun b => ?_
  intro s h
  obtain ⟨rfl, hs⟩ := h
  exact append_spelling P texts b s hs

theorem appendNumber_spelling (P : Platform) (texts : List Bytes) (first : Bool) (text : Bytes) :
    Yields (Spelling texts) (appendNumber P first text) fun _ =>
      Spelling (texts ++ (separator first ++ [text])) := by
  rw [← List.append_assoc]
  exact yields_bind (separate_spelling P texts first) fun _ => appendPrinted_spelling P _ text

theorem appendString_spelling (P : Platform) (texts : List Bytes) (first : Bool) (value : Bytes) :
    Yields (Spelling texts) (appendString P first value) fun _ =>
      Spelling (texts ++ (separator first ++ [quoted (escaped value)])) := by
  rw [← List.append_assoc]
  refine yields_bind (separate_spelling P texts first) fun _ => ?_
  refine yields_bind (Q := fun (b : Buf) s => b.text = escaped value ∧ Spelling (texts ++ separator first) s)
    (yields_lifted (I := fun l : Fragments => l.items.map Buf.text = texts ++ separator first)
      (escapeString_text P value)) fun b => ?_
  intro s h
  obtain ⟨hb, hs⟩ := h
  have hprinted := appendPrinted_spelling P (texts ++ separator first) (quoted b.text) s hs
  rwa [hb] at hprinted ⊢

def Spelled (done : List Value) (first : Bool) (s : Heap × Fragments) : Prop :=
  first = !done.any typed ∧ Spelling (fragments true done) s

theorem not_typed_of_rendering {v : Value} (hr : rendering v = none) : typed v = false := by
  cases hv : typed v with
  | false => rfl
  | true => unfold typed at hv; split at hv <;> simp_all [rendering]

theorem spelled_skip (done : List Value) (first : Bool) (v : Value) (hr : rendering v = none) :
    Yields (Spelled done first) (return first : Eff (Heap × Fragments) Errors Stop Bool)
      (Spelled (done ++ [v])) := by
  refine yields_pure first fun s hs => ⟨by simp [hs.1, not_typed_of_rendering hr], ?_⟩
  rw [fragments_append_one, fragment, hr, List.append_nil]
  exact hs.2

theorem spelled_append (done : List Value) (first : Bool) (v : Value) (t : Bytes) (hr : rendering v = some t)
    (m : Eff (Heap × Fragments) Errors Stop Unit)
    (hm : ∀ texts, Yields (Spelling texts) m fun _ => Spelling (texts ++ (separator first ++ [t]))) :
    Yields (Spelled done first) (do m; return first && !typed v) (Spelled (done ++ [v])) := by
  refine yields_bind (Q := fun _ => Spelled (done ++ [v]) (first && !typed v)) ?_ fun _ =>
    yields_pure _ fun s hs => hs
  intro s h u s' hu
  obtain ⟨hf, hs⟩ := h
  refine ⟨by simp [hf], ?_⟩
  rw [fragments_append_one, fragment, hr, Bool.true_and, ← hf]
  exact hm _ s hs u s' hu

theorem item_cases (P : Platform) (first : Bool) (v : Value) :
    (rendering v = none ∧ QParams.item P first v = return first) ∨
      (∃ t, t ≠ [] ∧ rendering v = some t ∧ stringOf v = none ∧
        QParams.item P first v = do appendNumber P first t; return first && !typed v) ∨
      ∃ x, rendering v = some (quoted (escaped x)) ∧ stringOf v = some x ∧
        QParams.item P first v = do appendString P first x; return first && !typed v := by
  unfold QParams.item
  split
  next x => exact .inr (.inl ⟨_, intText_ne_nil x, rfl, rfl, by simp [typed]⟩)
  next x => exact .inr (.inl ⟨_, x.text_ne_nil, rfl, rfl, by simp [typed]⟩)
  next x => exact .inr (.inr ⟨x, rfl, rfl, by simp [typed]⟩)
  next x =>
    split
    next h => exact .inr (.inr ⟨x, by simp [rendering, h], by simp [stringOf, h], by simp [typed]⟩)
    next h => exact .inl ⟨by simp [rendering, h], rfl⟩
  next x => exact .inr (.inl ⟨_, intText_ne_nil x, rfl, rfl, by simp [typed]⟩)
  next x => exact .inr (.inl ⟨_, x.text_ne_nil, rfl, rfl, by simp [typed]⟩)
  next _ _ _ hptr _ _ =>
    refine .inl ⟨?_, rfl⟩
    unfold rendering
    split
    case h_4 => exact (hptr _ _ _ _ _ _ _ rfl).elim
    all_goals simp_all

theorem item_spelled (P : Platform) (done : List Value) (v : Value) (first : Bool) :
    Yields (Spelled done first) (QParams.item P first v) (Spelled (done ++ [v])) := by
  rcases item_cases P first v with ⟨hr, hitem⟩ | ⟨t, -, hr, -, hitem⟩ | ⟨x, hr, -, hitem⟩
  · rw [hitem]
    exact spelled_skip done first v hr
  · rw [hitem]
    exact spelled_append done first v t hr _ fun texts => appendNumber_spelling P texts first t
  · rw [hitem]
    exact spelled_append done first v _ hr _ fun texts => appendString_spelling P texts first x

theorem QParams_text (P : Platform) (values : List Value) :
    Yields (fun _ => True) (QParams P values) fun q _ =>
      q.paramString.text = (fragments true values).flatten := by
  refine yields_withVar (yields_deferring (R := fun q : QueryParams =>
    q.paramString.text = (fragments true values).flatten) ?_)
  have hloop := yields_foldlM Spelled (QParams.item P) (fun done v first => item_spelled P done v first) [] values true
  refine yields_bind (fun s hs => hloop s ⟨rfl, by rw [Spelling, hs.2]; rfl⟩) fun first => ?_
  refine yields_bind (yields_readVar _) fun l => ?_
  refine yields_bind (Q := fun b _ => b.text = (fragments true values).flatten) ?_ fun b =>
    yields_pure _ fun s hs => hs
  intro s h b s' hb
  obtain ⟨rfl, -, hl⟩ := h
  have hjoin := (yields_lifted (I := fun _ => True) (yields_of_tries
    (allocPrint_tries (E := Errors) (C := Stop) P ([].intercalate (s.2.items.map Buf.text)))) s trivial b s' hb).1
  have hl' : s.2.items.map Buf.text = fragments true values := hl
  rw [hjoin, hl', nil_intercalate]

/-! ### The blocks -/

theorem escapeString_ends (P : Platform) {f : Bool} (a : ℕ) (L : Multiset Block) (str : Bytes) :
    Ends (Lasts P f a L) (escapeString P str) (fun b => Lasts P f a (entry b.block + L)) (RanOut P f L) := by
  refine ArrayList.withList_ends P L (ends_bind (ends_forM (fun c => ?_) str) fun _ => ArrayList.toOwnedSliceVar_ends P L)
  split
  · exact ArrayList.appendSliceVar_ends P L [39, 39]
  · exact ArrayList.appendSliceVar_ends P L [c]

section
variable (P : Platform) (hP : P.Succeeds) {f : Bool} (L : Multiset Block)
include hP

theorem escapeString_returns (str : Bytes) :
    Returns (Owns f L) (escapeString P str) fun b => Owns f (entry b.block + L) :=
  returns_owns hP (fun a => escapeString_ends P a L str) fun _ _ _ hq => hq.1

theorem append_holds (b : Buf) :
    Returns (ArrayList.VarHolds f L) (update fun l => (l.append P b : Eff Heap Errors Stop Fragments)) fun _ =>
      ArrayList.VarHolds f L :=
  ArrayList.appendSliceVar_returns P hP L [b]

theorem separate_returns (first : Bool) :
    Returns (ArrayList.VarHolds f L) (separate P first) fun _ => ArrayList.VarHolds f L := by
  cases first with
  | true => exact returns_pure _ fun s hs => hs
  | false => exact append_holds P hP L (.static (ascii ", "))

theorem appendPrinted_returns (text : Bytes) (ht : text ≠ []) :
    Returns (ArrayList.VarHolds f L) (appendPrinted P text) fun _ s =>
      ∃ K, 0 < K.card ∧ ArrayList.VarHolds f (K + L) s := by
  refine returns_bind (Q := fun b s => b.text = text ∧ ArrayList.VarHolds f (entry b.block + L) s) ?_ fun b => ?_
  · intro s hh
    obtain ⟨h, l⟩ := s
    obtain ⟨b, h', hb, hbt, hbo⟩ := returns_orStop Stop.unreachable
      (allocPrint_returns (E := Errors) P hP (entry l.block + L) text) h hh
    rw [add_left_comm] at hbo
    exact ⟨b, (h', l), lifted_run hb, hbt, hbo⟩
  · intro s hprinted
    obtain ⟨rfl, hs⟩ := hprinted
    obtain ⟨u, s', hu, hs'⟩ := append_holds P hP (entry b.block + L) b s hs
    refine ⟨u, s', hu, entry b.block, ?_, hs'⟩
    rw [entry_card _ (by simpa [Buf.block] using ht)]
    exact Nat.one_pos

theorem appendNumber_returns (first : Bool) (text : Bytes) (ht : text ≠ []) :
    Returns (ArrayList.VarHolds f L) (appendNumber P first text) fun _ s =>
      ∃ K, 0 < K.card ∧ ArrayList.VarHolds f (K + L) s :=
  returns_bind (separate_returns P hP L first) fun _ => appendPrinted_returns P hP L text ht

theorem appendString_returns (first : Bool) (value : Bytes) :
    Returns (ArrayList.VarHolds f L) (appendString P first value) fun _ s =>
      ∃ K, 0 < K.card ∧ ArrayList.VarHolds f (K + L) s := by
  apply returns_bind (separate_returns P hP L first)
  intro _
  refine returns_bind (Q := fun b => ArrayList.VarHolds f (entry b.block + L)) ?_ fun b => ?_
  · intro s hh
    obtain ⟨h, l⟩ := s
    obtain ⟨b, h', hb, hbo⟩ := escapeString_returns P hP (entry l.block + L) value h hh
    rw [add_left_comm] at hbo
    exact ⟨b, (h', l), lifted_run hb, hbo⟩
  · intro s hs
    obtain ⟨u, s', hu, K, hK, hs'⟩ := appendPrinted_returns P hP (entry b.block + L) (quoted b.text)
      (by simp [quoted, quote]) s hs
    refine ⟨u, s', hu, K + entry b.block, by rw [Multiset.card_add]; omega, ?_⟩
    rwa [← add_assoc] at hs'

/-- After `done`: whether anything leaked yet. -/
def Leaked (f : Bool) (L : Multiset Block) (done : List Value) (s : Heap × Fragments) : Prop :=
  ∃ K, (0 < K.card ↔ ∃ v ∈ done, rendering v ≠ none) ∧ ArrayList.VarHolds f (K + L) s

omit hP in
theorem leaked_append (done : List Value) (b : Bool) (v : Value) (t : Bytes) (hr : rendering v = some t)
    (m : Eff (Heap × Fragments) Errors Stop Unit)
    (hm : ∀ L, Returns (ArrayList.VarHolds f L) m fun _ s => ∃ K, 0 < K.card ∧ ArrayList.VarHolds f (K + L) s) :
    Returns (Leaked f L done) (do m; return b) fun _ => Leaked f L (done ++ [v]) := by
  refine returns_bind (Q := fun _ => Leaked f L (done ++ [v])) ?_ fun _ => returns_pure b fun s hs => hs
  intro s h
  obtain ⟨K, hK, hh⟩ := h
  obtain ⟨u, s', hu, K', hK', hh'⟩ := hm (K + L) s hh
  refine ⟨u, s', hu, K' + K, ?_, by rwa [add_assoc]⟩
  simp only [Multiset.card_add, List.mem_append, List.mem_singleton]
  constructor
  · intro _
    exact ⟨v, .inr rfl, by simp [hr]⟩
  · intro _
    omega

theorem item_leaked (done : List Value) (v : Value) (first : Bool) :
    Returns (Leaked f L done) (QParams.item P first v) fun _ => Leaked f L (done ++ [v]) := by
  rcases item_cases P first v with ⟨hr, hitem⟩ | ⟨t, ht, hr, -, hitem⟩ | ⟨x, hr, -, hitem⟩
  · rw [hitem]
    apply returns_pure first
    intro s h
    obtain ⟨K, hK, hh⟩ := h
    exact ⟨K, by simpa [hr] using hK, hh⟩
  · rw [hitem]
    exact leaked_append L done _ v t hr _ fun L => appendNumber_returns P hP L first t ht
  · rw [hitem]
    exact leaked_append L done _ v _ hr _ fun L => appendString_returns P hP L first x

/-- QParams returns, and what stays allocated besides its string is no block exactly for a tuple
without a rendered element. -/
theorem QParams_returns (values : List Value) :
    Returns (Owns f L) (QParams P values) fun q h =>
      ∃ K, (0 < K.card ↔ ∃ v ∈ values, rendering v ≠ none) ∧
        Owns f (entry q.paramString.block + (K + L)) h := by
  refine ArrayList.withVar_returns (ArrayList.deferring_deinitVar_returns (f := f)
    (R := fun (q : QueryParams) h => ∃ K, (0 < K.card ↔ ∃ v ∈ values, rendering v ≠ none) ∧
      Owns f (entry q.paramString.block + (K + L)) h) ?_)
  have hloop := returns_foldlM (fun done _ => Leaked f L done) (QParams.item P) [] values
    (fun done v _ first => item_leaked P hP L done v first) true
  refine returns_bind (returns_conseq hloop (fun s hs => ?_) fun _ _ h => h) fun _ => ?_
  · exact ⟨0, by simp, by rwa [zero_add]⟩
  intro s hs
  obtain ⟨h, l⟩ := s
  obtain ⟨K, hK, hh⟩ := hs
  obtain ⟨b, h', hb, -, hbo⟩ := allocPrint_returns (E := Errors) (C := Stop) P hP
    (entry l.block + (K + L)) ([].intercalate (l.items.map Buf.text)) h hh
  refine ⟨⟨b⟩, (h', l), (bind_ok rfl).trans ((bind_ok (lifted_run hb)).trans rfl),
    entry b.block + (K + L), ?_, fun h'' hh'' => ⟨K, hK, hh''⟩⟩
  rwa [add_left_comm] at hbo

end

end Psql
