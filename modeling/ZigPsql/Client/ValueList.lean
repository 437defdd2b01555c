import ZigPsql.Client.Framing
import Mathlib.Data.List.Forall2

/-!
# The list of values a tuple becomes

The list has one text for each element, in order. An element of a type without a
branch of its own leaves none, and the texts after it move up.
-/

namespace Psql
open Effect Text Zig

/-- Of the pointers to an array that reach escapeString only one to a single array is a []const u8. -/
def compiles : Value → Bool
  | .pointer size _ (.array _ child arraySentinel) sentinel _ =>
    !(child = .u8 && arraySentinel.isSome) || (size = .one && sentinel.isNone)
  | _ => true

/-- A text for the element: the one its branch prints, any other where it has no branch. -/
def Renders (v : Value) (t : Bytes) : Prop := t ≠ [] ∧ ∀ u, rendering v = some u → t = u

def Carries (values : List Value) (text : Bytes) : Prop :=
  ∃ texts, List.Forall₂ Renders values texts ∧ text = (ascii ", ").intercalate texts

/-- Every element has a branch, and the branch of the first, if there is a second, clears the flag. -/
def listed (values : List Value) : Bool := values.all accepted && startsTyped values

theorem accepted_of_rendering (v : Value) (t : Bytes) (hc : compiles v = true) (hr : rendering v = some t) :
    accepted v = true := by
  unfold rendering at hr
  split at hr
  · rfl
  · rfl
  · rfl
  next size _ _ child arraySentinel sentinel _ =>
    split at hr
    · rename_i h
      obtain ⟨rfl, hs⟩ := h
      obtain ⟨s, rfl⟩ := Option.ne_none_iff_exists'.mp hs
      simp only [compiles, Option.isSome_some, Bool.and_true, decide_true, Bool.not_true, Bool.false_or,
        Bool.and_eq_true, decide_eq_true_eq, Option.isNone_iff_eq_none] at hc
      obtain ⟨rfl, rfl⟩ := hc
      rfl
    · cases hr
  · rfl
  · rfl
  · cases hr

theorem element_ne_nil (v : Value) (h : accepted v = true) : element v ≠ [] := by
  rcases item_cases Platform.simple true v with ⟨hr, -⟩ | ⟨t, ht, hr, -⟩ | ⟨x, hr, -⟩
  · rw [rendering_of_accepted v h] at hr
    cases hr
  · rwa [element, hr]
  · rw [element, hr]
    exact List.cons_ne_nil _ _

/-! ### The length of the list -/

/-- The length of the texts, each with a separator. -/
def spread : List Bytes → ℕ
  | [] => 0
  | t :: rest => t.length + 2 + spread rest

theorem intercalate_length (t : Bytes) (ts : List Bytes) :
    ((ascii ", ").intercalate (t :: ts)).length = t.length + spread ts := by
  induction ts generalizing t with
  | nil => simp [spread]
  | cons u rest ih =>
    have hsep : (ascii ", ").length = 2 := rfl
    rw [List.intercalate_cons_cons, List.length_append, List.length_append, ih u, spread, hsep]
    omega

theorem fragment_length (first : Bool) (v : Value) (t : Bytes) (hc : compiles v = true) (ht : Renders v t) :
    (accepted v = true ∧ (fragment first v).flatten.length = t.length + if first then 0 else 2) ∨
      (accepted v = false ∧ (fragment first v).flatten.length = 0 ∧ 0 < t.length) := by
  cases hr : rendering v with
  | none =>
    have hnot : accepted v = false := by
      by_contra ha
      rw [rendering_of_accepted v (by simpa using ha)] at hr
      cases hr
    exact .inr ⟨hnot, by rw [fragment, hr]; rfl, List.length_pos_iff.mpr ht.1⟩
  | some u =>
    have hsep : (ascii ", ").length = 2 := rfl
    refine .inl ⟨accepted_of_rendering v u hc hr, ?_⟩
    rw [fragment, hr, ht.2 u hr]
    cases first <;> simp [separator, hsep, Nat.add_comm]

/-- What the loop appends is no longer than the texts with a separator each, and shorter where an
element leaves none or the flag still stands. -/
theorem fragments_spread (first : Bool) {values : List Value} {texts : List Bytes}
    (hc : ∀ v ∈ values, compiles v = true) (ht : List.Forall₂ Renders values texts) :
    (fragments first values).flatten.length ≤ spread texts ∧
      ((fragments first values).flatten.length = spread texts →
        (first = true → values = []) ∧ values.all accepted = true) := by
  induction ht generalizing first with
  | nil => exact ⟨le_rfl, fun _ => ⟨fun _ => rfl, rfl⟩⟩
  | @cons v t rest texts hv hrest ih =>
    obtain ⟨hle, heq⟩ := ih (first && !typed v) fun w hw => hc w (List.mem_cons_of_mem _ hw)
    have hone := fragment_length first v t (hc v (List.mem_cons_self ..)) hv
    simp only [fragments, List.flatten_append, List.length_append, spread]
    rcases hone with ⟨hacc, hlen⟩ | ⟨hnot, hlen, hpos⟩
    · cases first with
      | true =>
        have hlen' : (fragment true v).flatten.length = t.length := hlen
        exact ⟨by omega, fun h => by omega⟩
      | false =>
        have hlen' : (fragment false v).flatten.length = t.length + 2 := hlen
        refine ⟨by omega, fun h => ⟨fun hf => absurd hf (by decide), ?_⟩⟩
        rw [List.all_cons, hacc, (heq (by omega)).2]
        rfl
    · exact ⟨by omega, fun h => by omega⟩

theorem listed_of_carries {values : List Value} (hc : ∀ v ∈ values, compiles v = true)
    (h : Carries values (fragments true values).flatten) : listed values = true := by
  obtain ⟨texts, ht, htext⟩ := h
  cases ht with
  | nil => rfl
  | @cons v t rest texts hv hrest =>
    have hlen := congrArg List.length htext
    obtain ⟨hle, heq⟩ := fragments_spread (true && !typed v) (fun w hw => hc w (List.mem_cons_of_mem _ hw)) hrest
    rw [intercalate_length] at hlen
    simp only [fragments, List.flatten_append, List.length_append] at hlen
    rcases fragment_length true v t (hc v (List.mem_cons_self ..)) hv with ⟨hacc, hone⟩ | ⟨-, hone, hpos⟩
    · have hone' : (fragment true v).flatten.length = t.length := hone
      obtain ⟨hempty, hall⟩ := heq (by omega)
      rw [listed, List.all_cons, hacc, hall]
      cases htyped : typed v with
      | true => cases rest <;> simp [startsTyped, htyped]
      | false =>
        rw [hempty (by rw [htyped]; rfl)]
        rfl
    · omega

theorem carries_of_listed {values : List Value} (h : listed values = true) :
    Carries values (fragments true values).flatten := by
  simp only [listed, Bool.and_eq_true, List.all_eq_true] at h
  refine ⟨values.map element, ?_, fragments_of_startsTyped values h.1 h.2⟩
  rw [List.forall₂_map_right_iff, List.forall₂_same]
  intro v hv
  refine ⟨element_ne_nil v (h.1 v hv), fun u hu => ?_⟩
  rw [element, hu, Option.getD_some]

/-- The string that QParams returns carries every element, in its place, for the tuples that are
listed and no others. -/
theorem QParams_carries_iff (P : Platform) (h : Heap) (values : List Value) (hc : ∀ v ∈ values, compiles v = true) :
    (∀ q h', QParams P values h = (.ok q, h') → (Carries values q.paramString.text ↔ listed values = true)) ∧
    (P.Succeeds → ∃ q h', QParams P values h = (.ok q, h')) := by
  constructor
  · intro q h' hq
    rw [QParams_text P values h trivial q h' hq]
    exact ⟨listed_of_carries hc, carries_of_listed⟩
  · intro hP
    obtain ⟨q, h', hq, -⟩ := QParams_returns P hP h.ledger values h ⟨rfl, rfl⟩
    exact ⟨q, h', hq⟩

theorem QParams_carries_runtime :
    ∃ q h, QParams Platform.simple [.int true 32 1, .pointer .slice true .u8 none (ascii "John")] Heap.initial =
        (.ok q, h) ∧
      Carries [.int true 32 1, .pointer .slice true .u8 none (ascii "John")] q.paramString.text := by
  obtain ⟨hiff, hreturns⟩ := QParams_carries_iff Platform.simple Heap.initial
    [.int true 32 1, .pointer .slice true .u8 none (ascii "John")] (by decide)
  obtain ⟨q, h, hq⟩ := hreturns Platform.simple_succeeds
  exact ⟨q, h, hq, (hiff q h hq).mpr rfl⟩

/-- The tuple `.{ @as(i32, 1), true, @as(i32, 2) }`. -/
def flagged : List Value := [.int true 32 1, .other .bool, .int true 32 2]

theorem QParams_flagged_dropped :
    (∀ v ∈ flagged, compiles v = true) ∧
      ∃ q h, QParams Platform.simple flagged Heap.initial = (.ok q, h) ∧ q.paramString.text = ascii "1, 2" ∧
        ¬ Carries flagged q.paramString.text := by
  have hc : ∀ v ∈ flagged, compiles v = true := by decide
  obtain ⟨q, h, hq, -⟩ := QParams_returns Platform.simple Platform.simple_succeeds 0 flagged Heap.initial ⟨rfl, rfl⟩
  have htext := QParams_text Platform.simple flagged Heap.initial trivial q h hq
  have hnot : ¬ Carries flagged (fragments true flagged).flatten := fun hcar =>
    absurd (listed_of_carries hc hcar) (by decide)
  refine ⟨hc, q, h, hq, htext.trans (by decide), ?_⟩
  rwa [htext]

end Psql
