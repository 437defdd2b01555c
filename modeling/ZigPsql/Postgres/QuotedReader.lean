import ZigPsql.Postgres.Literals

/-!
# Reading a quoted constant

The value of a constant and the text after it. With standard_conforming_strings
off a backslash and the byte after it stand for one byte, whichever it is. The
length of what is read tells that the two ways differ on every text with a
backslash in it.
-/

namespace Postgres
open Text Scanner

def withByte (b : Byte) (r : Bytes × Bytes) : Bytes × Bytes := (b :: r.1, r.2)

/-- From within the quotes to after the closing quote. -/
def readRest (standard : Bool) (escape : Byte → Byte) : Bytes → Option (Bytes × Bytes)
  | [] => none
  | [b] => if b = 39 then some ([], []) else none
  | b :: c :: rest =>
    if b = 39 then
      if c = 39 then (readRest standard escape rest).map (withByte 39) else some ([], c :: rest)
    else if b = 92 ∧ standard = false then (readRest standard escape rest).map (withByte (escape c))
    else (readRest standard escape (c :: rest)).map (withByte b)

def readConstant (standard : Bool) (escape : Byte → Byte) : Bytes → Option (Bytes × Bytes)
  | b :: rest => if b = 39 then readRest standard escape rest else none
  | [] => none

variable {standard : Bool} {escape : Byte → Byte}

theorem withByte_some {b : Byte} {r : Option (Bytes × Bytes)} {v t : Bytes} (h : r.map (withByte b) = some (v, t)) :
    ∃ u, r = some (u, t) ∧ v = b :: u := by
  obtain ⟨⟨u, t'⟩, hr, hpair⟩ := Option.map_eq_some_iff.mp h
  cases hpair
  exact ⟨u, hr, rfl⟩

theorem readRest_plain {b : Byte} (hquote : b ≠ 39) (hback : ¬ (b = 92 ∧ standard = false)) (rest : Bytes) :
    readRest standard escape (b :: rest) = (readRest standard escape rest).map (withByte b) := by
  cases rest with
  | nil => simp [readRest, hquote]
  | cons c rest => simp only [readRest, if_neg hquote, if_neg hback]

theorem readRest_backslash (c : Byte) (rest : Bytes) :
    readRest false escape (92 :: c :: rest) = (readRest false escape rest).map (withByte (escape c)) := rfl

theorem readRest_close {t : Bytes} (ht : t.head? ≠ some 39) : readRest standard escape (39 :: t) = some ([], t) := by
  cases t with
  | nil => rfl
  | cons c rest =>
    have hc : c ≠ 39 := fun h => ht (congrArg some h)
    simp only [readRest, if_true, if_neg hc]

theorem readRest_doubleQuotes {s t : Bytes} (hs : standard = true ∨ 92 ∉ s) (ht : t.head? ≠ some 39) :
    readRest standard escape (doubleQuotes s ++ 39 :: t) = some (s, t) := by
  induction s with
  | nil => exact readRest_close ht
  | cons c s ih =>
    have hrest := ih (hs.imp_right fun h hmem => h (List.mem_cons_of_mem _ hmem))
    by_cases hc : c = 39
    · subst hc
      have htext : doubleQuotes (39 :: s) ++ 39 :: t = 39 :: 39 :: (doubleQuotes s ++ 39 :: t) := by simp [doubleQuotes]
      rw [htext]
      simp only [readRest, if_true, hrest, Option.map_some]
      rfl
    · have htext : doubleQuotes (c :: s) ++ 39 :: t = c :: (doubleQuotes s ++ 39 :: t) := by simp [doubleQuotes, hc]
      have hback : ¬ (c = 92 ∧ standard = false) := by
        intro h
        rcases hs with hon | hnot
        · exact absurd (hon.symm.trans h.2) (by decide)
        · exact hnot (h.1 ▸ List.mem_cons_self ..)
      rw [htext, readRest_plain hc hback, hrest]
      rfl

/-! ### What is read and what is yielded -/

theorem doubleQuotes_length (s : Bytes) : (doubleQuotes s).length = s.length + s.count 39 := by
  induction s with
  | nil => rfl
  | cons c s ih =>
    rw [doubleQuotes, List.flatMap_cons, List.length_append, ← doubleQuotes, ih, List.length_cons]
    by_cases hc : c = 39
    · subst hc
      rw [List.count_cons_self, if_pos rfl]
      simp only [List.length_cons, List.length_nil]
      omega
    · rw [List.count_cons_of_ne hc, if_neg hc]
      simp only [List.length_cons, List.length_nil]
      omega

/-- With backslashes as escapes, a value takes its own length and one byte more for every quote in it;
it takes just that only if no escape yields anything but a quote, and then it has no backslash. -/
theorem readRest_length {text v t : Bytes} (h : readRest false escape text = some (v, t)) :
    v.length + v.count 39 + t.length + 1 ≤ text.length ∧
      (v.length + v.count 39 + t.length + 1 = text.length → 92 ∉ v) := by
  induction text using readRest.induct false generalizing v with
  | case1 => cases h
  | case2 =>
    cases h
    exact ⟨by decide, fun _ => List.not_mem_nil⟩
  | case3 b hb => simp [readRest, hb] at h
  | case4 rest ih =>
    simp only [readRest, if_true] at h
    obtain ⟨u, hu, rfl⟩ := withByte_some h
    obtain ⟨hle, heq⟩ := ih hu
    simp only [List.length_cons, List.count_cons_self, List.mem_cons, not_or]
    exact ⟨by omega, fun h => ⟨by decide, heq (by omega)⟩⟩
  | case5 c rest hc =>
    simp only [readRest, if_true, if_neg hc, Option.some.injEq, Prod.mk.injEq] at h
    obtain ⟨rfl, rfl⟩ := h
    exact ⟨by simp, fun _ => List.not_mem_nil⟩
  | case6 b c rest hb hback ih =>
    obtain ⟨rfl, -⟩ := hback
    rw [readRest_backslash] at h
    obtain ⟨u, hu, rfl⟩ := withByte_some h
    obtain ⟨hle, heq⟩ := ih hu
    by_cases hc : escape c = 39
    · rw [hc, List.count_cons_self]
      simp only [List.length_cons, List.mem_cons, not_or]
      exact ⟨by omega, fun h => ⟨by decide, heq (by omega)⟩⟩
    · rw [List.count_cons_of_ne hc]
      simp only [List.length_cons]
      exact ⟨by omega, fun h => by omega⟩
  | case7 b c rest hb hback ih =>
    have h92 : 92 ≠ b := fun h => hback ⟨h.symm, rfl⟩
    rw [readRest_plain hb hback] at h
    obtain ⟨u, hu, rfl⟩ := withByte_some h
    obtain ⟨hle, heq⟩ := ih hu
    rw [List.count_cons_of_ne hb]
    simp only [List.length_cons, List.mem_cons, not_or] at hle heq ⊢
    exact ⟨by omega, fun h => ⟨h92, heq (by omega)⟩⟩

/-- A text whose quotes are doubled reads back, up to the text after it, unless backslashes are
escapes and it has one. -/
theorem readConstant_iff (s t : Bytes) (ht : t.head? ≠ some 39) :
    readConstant standard escape ([39] ++ doubleQuotes s ++ [39] ++ t) = some (s, t) ↔ standard = true ∨ 92 ∉ s := by
  have hread : readConstant standard escape ([39] ++ doubleQuotes s ++ [39] ++ t) =
      readRest standard escape (doubleQuotes s ++ 39 :: t) := by simp [readConstant]
  rw [hread]
  constructor
  · intro h
    cases standard with
    | true => exact .inl rfl
    | false =>
      have hlen : (doubleQuotes s ++ 39 :: t).length = s.length + s.count 39 + t.length + 1 := by
        rw [List.length_append, doubleQuotes_length, List.length_cons]
        omega
      exact .inr ((readRest_length h).2 hlen.symm)
  · exact fun h => readRest_doubleQuotes h ht

/-! ### The reader and the scanner -/

/-- Where the reader ends a constant the scanner does, which keeps its text. -/
theorem emits_readRest {text v t : Bytes} (h : readRest standard escape text = some (v, t)) (acc : Bytes) :
    ∃ body, text = body ++ 39 :: t ∧ t.head? ≠ some 39 ∧
      Emits (step standard) (.quote (plainKind standard) acc) (body ++ [39]) []
        (.quoteEnd (plainKind standard) (acc ++ body)) ∧ (standard = true → unquote body = v) := by
  have hclose (acc : Bytes) : Emits (step standard) (.quote (plainKind standard) acc) [39] []
      (.quoteEnd (plainKind standard) acc) := emits_one rfl
  induction text using readRest.induct standard generalizing v acc with
  | case1 => cases h
  | case2 =>
    cases h
    exact ⟨[], rfl, by simp, by simpa using hclose acc, fun _ => rfl⟩
  | case3 b hb => simp [readRest, hb] at h
  | case4 rest ih =>
    simp only [readRest, if_true] at h
    obtain ⟨u, hu, rfl⟩ := withByte_some h
    obtain ⟨body, rfl, ht, hemits, hvalue⟩ := ih hu (acc ++ [39, 39])
    refine ⟨39 :: 39 :: body, rfl, ht, ?_, fun hon => by rw [unquote, hvalue hon]⟩
    have hdouble : Emits (step standard) (.quote (plainKind standard) acc) [39, 39] []
        (.quote (plainKind standard) (acc ++ [39, 39])) :=
      emits_silent rfl (emits_one (by cases standard <;> rfl))
    simpa using emits_append hdouble hemits
  | case5 c rest hc =>
    simp only [readRest, if_true, if_neg hc, Option.some.injEq, Prod.mk.injEq] at h
    obtain ⟨rfl, rfl⟩ := h
    exact ⟨[], rfl, by simpa using hc, by simpa using hclose acc, fun _ => rfl⟩
  | case6 b c rest hb hback ih =>
    obtain ⟨rfl, rfl⟩ := hback
    rw [readRest_backslash] at h
    obtain ⟨u, hu, rfl⟩ := withByte_some h
    obtain ⟨body, rfl, ht, hemits, -⟩ := ih hu (acc ++ [92, c])
    refine ⟨92 :: c :: body, rfl, ht, ?_, fun hon => absurd hon (by decide)⟩
    have hback : step false (.quote .extended acc) 92 = (.quoteEscape .extended (acc ++ [92]), []) := rfl
    have hpair : Emits (step false) (.quote .extended acc) [92, c] [] (.quote .extended (acc ++ [92, c])) :=
      emits_silent hback (emits_one (by simp [step]))
    simpa [plainKind] using emits_append hpair hemits
  | case7 b c rest hb hback ih =>
    rw [readRest_plain hb hback] at h
    obtain ⟨u, hu, rfl⟩ := withByte_some h
    obtain ⟨body, hbody, ht, hemits, hvalue⟩ := ih hu (acc ++ [b])
    refine ⟨b :: body, congrArg (b :: ·) hbody, ht, ?_, fun hon => ?_⟩
    · have hone : Emits (step standard) (.quote (plainKind standard) acc) [b] []
          (.quote (plainKind standard) (acc ++ [b])) := by
        apply emits_one
        cases standard <;> simp_all [step, plainKind]
      simpa using emits_append hone hemits
    · rw [unquote_plain hb, hvalue hon]

end Postgres
