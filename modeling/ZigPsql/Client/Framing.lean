import ZigPsql.Client.Params

/-!
# Framing of the parameter string

Only the branches of exactly matched types clear the flag `first`, so no
separator is written up to and including the first such element.
-/

namespace Psql
open Effect Text Zig

/-- The six kinds of element QParams renders. -/
def accepted : Value → Bool
  | .int true 32 _ | .float 32 _ | .pointer .slice true (.int false 8) none _ => true
  | .comptimeInt _ | .comptimeFloat _ => true
  | .pointer .one _ (.array _ (.int false 8) (some _)) none _ => true
  | _ => false

def element (v : Value) : Bytes := (rendering v).getD []

def joined (vs : List Value) : Bytes := (ascii ", ").intercalate (vs.map element)

/-- The tuple has no neighbours to separate, or starts with an exactly matched type. -/
def startsTyped : List Value → Bool
  | [] | [_] => true
  | v :: _ => typed v

theorem rendering_of_accepted (v : Value) (h : accepted v = true) : rendering v = some (element v) := by
  unfold accepted at h
  split at h <;> simp_all [element, rendering, ZigType.u8]

theorem fragments_cons_accepted (first : Bool) (v : Value) (vs : List Value) (h : accepted v = true) :
    (fragments first (v :: vs)).flatten =
      (separator first).flatten ++ element v ++ (fragments (first && !typed v) vs).flatten := by
  simp [fragments, fragment, rendering_of_accepted v h]

theorem joined_cons_cons (v w : Value) (vs : List Value) :
    joined (v :: w :: vs) = element v ++ ascii ", " ++ joined (w :: vs) := by
  simp [joined, List.intercalate_cons_cons]

theorem fragments_false (v : Value) (vs : List Value) (h : ∀ x ∈ v :: vs, accepted x = true) :
    (fragments false (v :: vs)).flatten = ascii ", " ++ joined (v :: vs) := by
  induction vs generalizing v with
  | nil =>
    rw [fragments_cons_accepted false v [] (h v (List.mem_cons_self ..))]
    simp [fragments, separator, joined, List.intercalate]
  | cons w rest ih =>
    rw [fragments_cons_accepted false v _ (h v (List.mem_cons_self ..)), Bool.false_and,
      ih w fun x hx => h x (List.mem_cons_of_mem _ hx), joined_cons_cons]
    simp [separator]

theorem fragments_of_startsTyped (vs : List Value) (h : ∀ x ∈ vs, accepted x = true)
    (hs : startsTyped vs = true) : (fragments true vs).flatten = joined vs := by
  match vs with
  | [] => rfl
  | [v] =>
    rw [fragments_cons_accepted true v [] (h v (List.mem_cons_self ..))]
    simp [fragments, separator, joined, List.intercalate]
  | v :: w :: rest =>
    have ht : typed v = true := hs
    rw [fragments_cons_accepted true v _ (h v (List.mem_cons_self ..)), ht, Bool.not_true, Bool.and_false,
      fragments_false w rest fun x hx => h x (List.mem_cons_of_mem _ hx), joined_cons_cons]
    simp [separator]

theorem fragments_length_le (vs : List Value) (h : ∀ x ∈ vs, accepted x = true) :
    (fragments true vs).flatten.length ≤ (joined vs).length := by
  induction vs with
  | nil => simp [fragments]
  | cons v rest ih =>
    cases hs : startsTyped (v :: rest) with
    | true => rw [fragments_of_startsTyped _ h hs]
    | false =>
      cases rest with
      | nil => simp [startsTyped] at hs
      | cons w rest =>
        have ht : typed v = false := hs
        have hrest := ih fun x hx => h x (List.mem_cons_of_mem _ hx)
        rw [fragments_cons_accepted true v _ (h v (List.mem_cons_self ..)), ht, joined_cons_cons]
        simp only [separator, if_true, List.flatten_nil, List.nil_append, Bool.not_false, Bool.and_self,
          List.length_append]
        omega

theorem fragments_ne_joined (vs : List Value) (h : ∀ x ∈ vs, accepted x = true)
    (hs : startsTyped vs = false) : (fragments true vs).flatten ≠ joined vs := by
  match vs with
  | [] | [_] => cases hs
  | v :: w :: rest =>
    have ht : typed v = false := hs
    have hrest := fragments_length_le (w :: rest) fun x hx => h x (List.mem_cons_of_mem _ hx)
    have hsep : (ascii ", ").length = 2 := by decide
    intro heq
    have hlen := congrArg List.length heq
    rw [fragments_cons_accepted true v _ (h v (List.mem_cons_self ..)), ht, joined_cons_cons] at hlen
    simp only [separator, if_true, List.flatten_nil, List.nil_append, Bool.not_false, Bool.and_self,
      List.length_append, hsep] at hlen
    omega

/-- The string of a tuple that starts typed is the joined renderings; QParams returns, while memory
lasts, and then for these tuples only. -/
theorem QParams_framed_iff (P : Platform) (h : Heap) (values : List Value)
    (hv : ∀ v ∈ values, accepted v = true) :
    (startsTyped values = true →
      ∀ q h', QParams P values h = (.ok q, h') → q.paramString.text = joined values) ∧
    (P.Succeeds → ∃ q h', QParams P values h = (.ok q, h') ∧
      (q.paramString.text = joined values ↔ startsTyped values = true)) := by
  have htext := QParams_text P values h trivial
  have hiff : (fragments true values).flatten = joined values ↔ startsTyped values = true := by
    cases hs : startsTyped values with
    | true => simpa using fragments_of_startsTyped values hv hs
    | false => simpa using fragments_ne_joined values hv hs
  constructor
  · intro hs q h' hq
    rw [htext q h' hq, hiff]
    exact hs
  · intro hP
    obtain ⟨q, h', hq, -⟩ := QParams_returns P hP h.ledger values h ⟨rfl, rfl⟩
    refine ⟨q, h', hq, ?_⟩
    rw [htext q h' hq, hiff]

theorem QParams_framed_runtime :
    ∃ q h, QParams Platform.simple [.int true 32 1, .pointer .slice true .u8 none (ascii "John")] Heap.initial =
        (.ok q, h) ∧ q.paramString.text = ascii "1, 'John'" := by
  obtain ⟨q, h, hq, hiff⟩ := (QParams_framed_iff Platform.simple Heap.initial
    [.int true 32 1, .pointer .slice true .u8 none (ascii "John")] (by decide)).2 Platform.simple_succeeds
  exact ⟨q, h, hq, hiff.mpr rfl⟩

/-- The tuple of two literals, `.{ 1, "John" }`. -/
def literals : List Value :=
  [.comptimeInt 1, .pointer .one true (.array 4 .u8 (some 0)) none (ascii "John")]

theorem QParams_literals_fused :
    (∀ v ∈ literals, accepted v = true) ∧
      ¬ ∃ q h, QParams Platform.simple literals Heap.initial = (.ok q, h) ∧
        q.paramString.text = joined literals := by
  refine ⟨by decide, ?_⟩
  intro hjoined
  obtain ⟨q, h, hq, ht⟩ := hjoined
  have htext := QParams_text Platform.simple literals Heap.initial trivial q h hq
  have hne : (fragments true literals).flatten ≠ joined literals := by decide
  exact hne (htext.symm.trans ht)

end Psql
