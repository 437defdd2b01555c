import ZigPsql.Client.Injection
import ZigPsql.Postgres.QuotedReader

/-!
# Strings on their way into a statement

escapeString doubles quotes and nothing else. That is what the server undoes
while backslashes are ordinary bytes; and a zero byte, which cuts the statement
short, cuts it within the quotes.
-/

namespace Psql
open Effect Effect.Eff Text Zig Libpq Postgres Scanner

variable {σ : Type}

/-- The constant QParams writes for a string reads back as the string, up to the delimiter, exactly
where the session takes no backslash for an escape or there is none. -/
theorem escapeString_reads_iff (P : Platform) (h : Heap) (str t : Bytes) (standard : Bool) (escape : Byte → Byte)
    (ht : t.head? = some 44 ∨ t.head? = some 41) :
    (∀ b h', escapeString P str h = (.ok b, h') →
      (readConstant standard escape (quoted b.text ++ t) = some (str, t) ↔ standard = true ∨ 92 ∉ str)) ∧
    (P.Succeeds → ∃ b h', escapeString P str h = (.ok b, h')) := by
  have hdelimiter : t.head? ≠ some 39 := by
    intro h39
    rcases ht with h | h
    · exact absurd (h.symm.trans h39) (by decide)
    · exact absurd (h.symm.trans h39) (by decide)
  constructor
  · intro b h' hb
    rw [escapeString_text P str h trivial b h' hb]
    exact readConstant_iff str t hdelimiter
  · intro hP
    obtain ⟨b, h', hb, -⟩ := escapeString_returns P hP h.ledger str h ⟨rfl, rfl⟩
    exact ⟨b, h', hb⟩

theorem escapeString_reads_quote :
    ∃ b h, escapeString Platform.simple (ascii "it's") Heap.initial = (.ok b, h) ∧
      readConstant true id (quoted b.text ++ ascii ", 1)") = some (ascii "it's", ascii ", 1)") := by
  obtain ⟨hiff, hreturns⟩ := escapeString_reads_iff Platform.simple Heap.initial (ascii "it's") (ascii ", 1)") true id
    (.inl rfl)
  obtain ⟨b, h, hb⟩ := hreturns Platform.simple_succeeds
  exact ⟨b, h, hb, (hiff b h hb).mpr (.inl rfl)⟩

/-- The string of one backslash, with standard_conforming_strings off. -/
theorem escapeString_backslash :
    ∃ b h, escapeString Platform.simple [92] Heap.initial = (.ok b, h) ∧
      ∀ escape, readConstant false escape (quoted b.text ++ ascii ")") = none := by
  obtain ⟨b, h, hb, -⟩ := escapeString_returns Platform.simple Platform.simple_succeeds 0 [92] Heap.initial ⟨rfl, rfl⟩
  have htext := escapeString_text Platform.simple [92] Heap.initial trivial b h hb
  refine ⟨b, h, hb, fun escape => ?_⟩
  rw [htext]
  rfl

/-! ### A zero byte in a string -/

def holdsNul : Value → Bool
  | .pointer _ _ _ _ bytes => bytes.contains 0
  | _ => false

theorem element_noNul (v : Value) (hv : plain v = true) (h : holdsNul v = false) : 0 ∉ element v := by
  unfold plain at hv
  split at hv
  next z => exact intText_noNul z
  next bytes =>
    have hbytes : 0 ∉ bytes := by simpa [holdsNul] using h
    exact quotedText_noNul hbytes
  next => cases hv

/-- The text up to the first zero byte of a string, from between two tokens, ends within its quotes. -/
def CutInside (text : Bytes) : Prop :=
  ∃ start rest ts acc, text = start ++ 0 :: rest ∧ 0 ∉ start ∧ Emits (step true) .start start ts (.quote .plain acc)

theorem cutInside_element (v : Value) (hv : plain v = true) (h : holdsNul v = true) (t : Bytes) :
    CutInside (element v ++ t) := by
  unfold plain at hv
  split at hv
  next => cases h
  next bytes =>
    have hmem : 0 ∈ bytes := by simpa [holdsNul] using h
    obtain ⟨before, after, rfl, hnot⟩ := List.eq_append_cons_of_mem hmem
    have htext : element (.pointer .slice true (.int false 8) none (before ++ 0 :: after)) ++ t =
        ([39] ++ escaped before) ++ 0 :: (escaped after ++ [39] ++ t) := by
      simp [element, rendering, quoted, quote, escaped]
    have hopen : Emits (step true) .start [39] [] (.quote .plain []) := emits_one rfl
    refine ⟨_, _, [], doubleQuotes before, htext, ?_, emits_append hopen (emits_doubleQuotes [] before)⟩
    intro hmem
    exact quotedText_noNul hnot (List.mem_append_left _ hmem)
  next => cases hv

/-- Neither the values before the string nor what separates them hold a zero byte. -/
theorem cutInside_joined (values : List Value) (hv : ∀ v ∈ values, plain v = true)
    (h : ∃ v ∈ values, holdsNul v = true) (t : Bytes) : CutInside (joined values ++ t) := by
  induction values with
  | nil =>
    obtain ⟨v, hmem, -⟩ := h
    cases hmem
  | cons v rest ih =>
    have hplain := hv v (List.mem_cons_self ..)
    cases rest with
    | nil =>
      obtain ⟨u, hu, hnul⟩ := h
      rw [List.mem_singleton.mp hu] at hnul
      simpa [joined] using cutInside_element v hplain hnul t
    | cons w rest =>
      rw [joined_cons_cons, List.append_assoc, List.append_assoc]
      cases hnul : holdsNul v with
      | true => exact cutInside_element v hplain hnul _
      | false =>
        have hrest : ∃ u ∈ w :: rest, holdsNul u = true := by
          obtain ⟨u, hu, hunul⟩ := h
          rcases List.mem_cons.mp hu with rfl | hu
          · exact absurd (hunul.symm.trans hnul) (by decide)
          · exact ⟨u, hu, hunul⟩
        obtain ⟨start, after, ts, acc, htext, hnot, hemits⟩ := ih (fun u hu => hv u (List.mem_cons_of_mem _ hu)) hrest
        have hcomma := (literal_plain v hplain).lexes 44 (by decide) (by decide)
        have hspace : Lexes true [32] [] := lexes_delimiter 32 (by decide)
        refine ⟨element v ++ [44] ++ [32] ++ start, after, _, acc, ?_, ?_,
          emits_append (emits_append hcomma hspace) hemits⟩
        · rw [htext]
          simp [ascii]
        · simp [element_noNul v hplain hnul, hnot]

/-- With a zero byte in one of the strings, what the server is given of the statement ends within a
constant, and is none. -/
theorem insert_nul_open (P : Platform) (srv : Server σ) (self : Self) (w : World σ) (table : Bytes) (htable : 0 ∉ table)
    (hmode : (modeAfter true (valuesPrefix table)).inside = false) (values : List Value)
    (hv : ∀ v ∈ values, plain v = true) (hnul : ∃ v ∈ values, holdsNul v = true) :
    (∀ b ∈ statements P srv self w table values,
      (∃ acc, modeAfter true (span b.text) = .quote .plain acc) ∧ lex true (span b.text) = none) ∧
    (P.Succeeds → ∃ b, statements P srv self w table values = [b]) := by
  rcases statements_eq P srv self w table values with ⟨hP, hnone⟩ | ⟨b, hb, hone⟩
  · rw [hnone]
    exact ⟨fun b hmem => absurd hmem List.not_mem_nil, fun h => absurd h hP⟩
  · rw [hone, List.forall_mem_singleton]
    refine ⟨?_, fun _ => ⟨b, rfl⟩⟩
    obtain ⟨start, rest, ts, acc, htext, hnot, hemits⟩ := cutInside_joined values hv hnul [41]
    obtain ⟨-, -, hprefix⟩ := lexes_prefix table hmode
    have hstatement : b.text = (valuesPrefix table ++ start) ++ 0 :: rest := by
      have hjoined := fragments_of_startsTyped values (fun v hmem => accepted_of_plain v (hv v hmem))
        (startsTyped_of_plain values hv)
      have hparen : ascii ")" = [41] := rfl
      rw [hb, hjoined, insertQuery, List.append_assoc, hparen, htext, List.append_assoc]
    have hspan : span b.text = valuesPrefix table ++ start := by
      have hprefixNul : 0 ∉ valuesPrefix table ++ start := by
        simp only [valuesPrefix, List.mem_append, htable, hnot, or_false]
        decide
      rw [hstatement, span_append_nul hprefixNul]
    have hmodeAfter : modeAfter true (span b.text) = .quote .plain acc := by
      rw [hspan]
      exact congrArg Prod.fst (emits_append hprefix hemits)
    exact ⟨⟨acc, hmodeAfter⟩, lex_open hmodeAfter⟩

/-- A zero byte just after an escaped quote. -/
def cutName : List Value := [.int true 32 7, .pointer .slice true .u8 none (ascii "O'" ++ 0 :: ascii "Hara")]

theorem insert_nul_open_cutName :
    ∃ b, statements Platform.simple scripted testSelf (connected ⟨none, true⟩) (ascii "Users") cutName = [b] ∧
      lex true (span b.text) = none := by
  obtain ⟨hopen, hsent⟩ := insert_nul_open Platform.simple scripted testSelf (connected ⟨none, true⟩) (ascii "Users")
    (by decide) (by decide) cutName (by decide) ⟨_, List.mem_cons_of_mem _ (List.mem_singleton_self _), rfl⟩
  obtain ⟨b, hb⟩ := hsent Platform.simple_succeeds
  exact ⟨b, hb, (hopen b (by simp [hb])).2⟩

end Psql
