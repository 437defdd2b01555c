import ZigPsql.Client.EscapedStrings

/-!
# Strings in a session that takes backslashes for escapes

escapeString leaves backslashes alone. With standard_conforming_strings off the
constant still ends where it is meant to, unless a backslash that is not itself
escaped stands before a quote or at the end.
-/

namespace Psql
open Effect Effect.Eff Text Zig Postgres

/-- A run of backslashes, odd in number, that ends at a quote or at the end of the string. -/
def OddRun (s : Bytes) : Prop :=
  ∃ a k b, s = a ++ (List.replicate (2 * k + 1) 92 ++ b) ∧ a.getLast? ≠ some 92 ∧ (b = [] ∨ b.head? = some 39)

/-- Backslashes are taken with the byte after them. -/
def contained : Bytes → Bool
  | [] => true
  | [b] => b ≠ 92
  | b :: c :: rest => if b = 92 then c ≠ 39 && contained rest else contained (c :: rest)

/-! ### Odd runs -/

theorem oddRun_skip {b : Byte} (hb : b ≠ 92) (s : Bytes) : OddRun (b :: s) ↔ OddRun s := by
  constructor
  · intro h
    obtain ⟨a, k, t, hs, hlast, ht⟩ := h
    cases a with
    | nil => exact absurd (List.cons.inj hs).1 hb
    | cons a₀ a =>
      obtain ⟨rfl, rfl⟩ := List.cons.inj hs
      refine ⟨a, k, t, rfl, fun h => hlast ?_, ht⟩
      cases a with
      | nil => cases h
      | cons a₁ a => rwa [List.getLast?_cons_cons]
  · intro h
    obtain ⟨a, k, t, rfl, hlast, ht⟩ := h
    refine ⟨b :: a, k, t, rfl, fun h => ?_, ht⟩
    cases a with
    | nil => exact hb (Option.some.inj h)
    | cons a₁ a => exact hlast (by rwa [List.getLast?_cons_cons] at h)

theorem oddRun_pair {c : Byte} (hc : c ≠ 39) (s : Bytes) : OddRun (92 :: c :: s) ↔ OddRun s := by
  constructor
  · intro h
    obtain ⟨a, k, t, hs, hlast, ht⟩ := h
    cases a with
    | nil =>
      cases k with
      | zero =>
        -- the byte after the only backslash is no quote
        obtain ⟨-, rfl⟩ := List.cons.inj hs
        rcases ht with h | h
        · cases h
        · exact absurd (Option.some.inj h) hc
      | succ k =>
        obtain ⟨-, hrest⟩ := List.cons.inj hs
        obtain ⟨-, rfl⟩ := List.cons.inj hrest
        exact ⟨[], k, t, rfl, by simp, ht⟩
    | cons a₀ a =>
      obtain ⟨rfl, hrest⟩ := List.cons.inj hs
      cases a with
      | nil => exact absurd rfl hlast
      | cons a₁ a =>
        obtain ⟨rfl, rfl⟩ := List.cons.inj hrest
        refine ⟨a, k, t, rfl, fun h => hlast ?_, ht⟩
        cases a with
        | nil => cases h
        | cons a₂ a => rwa [List.getLast?_cons_cons, List.getLast?_cons_cons]
  · intro h
    obtain ⟨a, k, t, rfl, hlast, ht⟩ := h
    by_cases ha : a = []
    · subst ha
      by_cases hc92 : c = 92
      · subst hc92
        exact ⟨[], k + 1, t, rfl, by simp, ht⟩
      · exact ⟨[92, c], k, t, rfl, by simpa using hc92, ht⟩
    · refine ⟨92 :: c :: a, k, t, rfl, ?_, ht⟩
      rw [List.getLast?_cons_of_ne_nil (List.cons_ne_nil _ _), List.getLast?_cons_of_ne_nil ha]
      exact hlast

theorem contained_iff (s : Bytes) : contained s = true ↔ ¬ OddRun s := by
  induction s using contained.induct with
  | case1 =>
    refine ⟨fun _ h => ?_, fun _ => rfl⟩
    obtain ⟨a, k, t, hs, -⟩ := h
    have hlen := congrArg List.length hs
    simp only [List.length_nil, List.length_append, List.length_replicate] at hlen
    omega
  | case2 b =>
    by_cases hb : b = 92
    · subst hb
      have hodd : OddRun [92] := ⟨[], 0, [], rfl, by simp, .inl rfl⟩
      exact ⟨fun h => absurd h (by decide), fun h => absurd hodd h⟩
    · rw [oddRun_skip hb]
      refine ⟨fun _ h => ?_, fun _ => decide_eq_true hb⟩
      obtain ⟨a, k, t, hs, -⟩ := h
      have hlen := congrArg List.length hs
      simp only [List.length_nil, List.length_append, List.length_replicate] at hlen
      omega
  | case3 c rest ih =>
    by_cases hc : c = 39
    · subst hc
      have hodd : OddRun (92 :: 39 :: rest) := ⟨[], 0, 39 :: rest, rfl, by simp, .inr rfl⟩
      exact ⟨fun h => absurd h (by simp [contained]), fun h => absurd hodd h⟩
    · rw [oddRun_pair hc, ← ih]
      simp [contained, hc]
  | case4 b c rest hb ih =>
    rw [oddRun_skip hb, ← ih]
    simp [contained, hb]

/-! ### Where the constant ends -/

variable {escape : Byte → Byte}

/-- What is read is no longer than the text, so nothing before the text after it is left. -/
theorem readRest_shorter {text v t : Bytes} (h : readRest false escape text = some (v, t)) :
    t.length < text.length := by
  have hlen := (readRest_length h).1
  omega

/-- After an escaped quote the second one of the pair is taken with the next one, or it ends the constant. -/
theorem readRest_loneQuote (s t v : Bytes) :
    readRest false escape (39 :: (doubleQuotes s ++ 39 :: t)) ≠ some (v, t) := by
  induction s generalizing v with
  | nil =>
    intro h
    change (readRest false escape t).map (withByte 39) = some (v, t) at h
    obtain ⟨u, hu, -⟩ := withByte_some h
    exact absurd (readRest_shorter hu) (lt_irrefl _)
  | cons c s ih =>
    intro h
    by_cases hc : c = 39
    · subst hc
      have htext : doubleQuotes (39 :: s) ++ 39 :: t = 39 :: 39 :: (doubleQuotes s ++ 39 :: t) := by simp [doubleQuotes]
      rw [htext] at h
      change (readRest false escape (39 :: (doubleQuotes s ++ 39 :: t))).map (withByte 39) = some (v, t) at h
      obtain ⟨u, hu, -⟩ := withByte_some h
      exact ih u hu
    · have htext : doubleQuotes (c :: s) ++ 39 :: t = c :: (doubleQuotes s ++ 39 :: t) := by simp [doubleQuotes, hc]
      rw [htext, readRest_close (by simpa using hc)] at h
      -- the text after the quote is longer than t
      have htail := congrArg (fun r => List.length r.2) (Option.some.inj h)
      simp only [List.length_cons, List.length_append] at htail
      omega

theorem readRest_contained (s t : Bytes) (ht : t.head? ≠ some 39) :
    (∃ v, readRest false escape (doubleQuotes s ++ 39 :: t) = some (v, t)) ↔ contained s = true := by
  have hmap {b : Byte} {r : Option (Bytes × Bytes)} :
      (∃ v, r.map (withByte b) = some (v, t)) ↔ ∃ v, r = some (v, t) := by
    constructor
    · intro h
      obtain ⟨v, hv⟩ := h
      obtain ⟨u, hu, -⟩ := withByte_some hv
      exact ⟨u, hu⟩
    · intro h
      obtain ⟨v, rfl⟩ := h
      exact ⟨b :: v, rfl⟩
  induction s using contained.induct with
  | case1 => exact ⟨fun _ => rfl, fun _ => ⟨[], readRest_close ht⟩⟩
  | case2 b =>
    by_cases hb : b = 92
    · subst hb
      -- the backslash takes the closing quote with it
      refine ⟨fun h => ?_, fun h => absurd h (by decide)⟩
      obtain ⟨v, hv⟩ := h
      change (readRest false escape t).map (withByte (escape 39)) = some (v, t) at hv
      obtain ⟨u, hu, -⟩ := withByte_some hv
      exact absurd (readRest_shorter hu) (lt_irrefl _)
    · have hsingle : 92 ∉ [b] := by simpa using Ne.symm hb
      exact ⟨fun _ => decide_eq_true hb, fun _ => ⟨[b], readRest_doubleQuotes (.inr hsingle) ht⟩⟩
  | case3 c rest ih =>
    by_cases hc : c = 39
    · subst hc
      refine ⟨fun h => ?_, fun h => absurd h (by simp [contained])⟩
      obtain ⟨v, hv⟩ := h
      have htext : doubleQuotes (92 :: 39 :: rest) ++ 39 :: t = 92 :: 39 :: 39 :: (doubleQuotes rest ++ 39 :: t) := by
        simp [doubleQuotes]
      rw [htext, readRest_backslash] at hv
      obtain ⟨u, hu, -⟩ := withByte_some hv
      exact absurd hu (readRest_loneQuote rest t u)
    · have htext : doubleQuotes (92 :: c :: rest) ++ 39 :: t = 92 :: c :: (doubleQuotes rest ++ 39 :: t) := by
        simp [doubleQuotes, hc]
      have hkeep : contained (92 :: c :: rest) = contained rest := by simp [contained, hc]
      rw [htext, readRest_backslash, hmap, hkeep]
      exact ih
  | case4 b c rest hb ih =>
    have hkeep : contained (b :: c :: rest) = contained (c :: rest) := by simp [contained, hb]
    rw [hkeep]
    refine Iff.trans ?_ ih
    by_cases hquote : b = 39
    · subst hquote
      have htext : doubleQuotes (39 :: c :: rest) ++ 39 :: t = 39 :: 39 :: (doubleQuotes (c :: rest) ++ 39 :: t) := by
        simp [doubleQuotes]
      rw [htext]
      exact hmap
    · have htext : doubleQuotes (b :: c :: rest) ++ 39 :: t = b :: (doubleQuotes (c :: rest) ++ 39 :: t) := by
        simp [doubleQuotes, hquote]
      rw [htext, readRest_plain hquote fun h => hb h.1]
      exact hmap

/-! ### Constants of QParams -/

/-- With backslashes as escapes the constant QParams writes for a string ends at its closing quote, whatever
the escapes stand for, exactly where no odd run of backslashes stands before a quote or at the end. -/
theorem escapeString_contained_iff (P : Platform) (h : Heap) (str t : Bytes) (escape : Byte → Byte)
    (ht : t.head? = some 44 ∨ t.head? = some 41) :
    (∀ b h', escapeString P str h = (.ok b, h') →
      ((∃ v, readConstant false escape (quoted b.text ++ t) = some (v, t)) ↔ ¬ OddRun str)) ∧
    (P.Succeeds → ∃ b h', escapeString P str h = (.ok b, h')) := by
  have hdelimiter : t.head? ≠ some 39 := by
    intro h39
    rcases ht with h | h
    · exact absurd (h.symm.trans h39) (by decide)
    · exact absurd (h.symm.trans h39) (by decide)
  constructor
  · intro b h' hb
    rw [escapeString_text P str h trivial b h' hb, ← contained_iff, ← readRest_contained str t hdelimiter]
    have hread : readConstant false escape (quoted (escaped str) ++ t) =
        readRest false escape (doubleQuotes str ++ 39 :: t) := by
      simp [readConstant, quoted, quote, escaped, doubleQuotes]
    rw [hread]
  · intro hP
    obtain ⟨b, h', hb, -⟩ := escapeString_returns P hP h.ledger str h ⟨rfl, rfl⟩
    exact ⟨b, h', hb⟩

/-- A path whose backslashes stand before letters keeps its end, though not its bytes. -/
theorem escapeString_contained_path :
    ∃ b h v, escapeString Platform.simple (ascii "a\\new") Heap.initial = (.ok b, h) ∧
      readConstant false id (quoted b.text ++ ascii ", 1)") = some (v, ascii ", 1)") := by
  obtain ⟨hiff, hreturns⟩ := escapeString_contained_iff Platform.simple Heap.initial (ascii "a\\new") (ascii ", 1)") id
    (.inl rfl)
  obtain ⟨b, h, hb⟩ := hreturns Platform.simple_succeeds
  obtain ⟨v, hv⟩ := (hiff b h hb).mpr ((contained_iff _).mp rfl)
  exact ⟨b, h, v, hb, hv⟩

end Psql
