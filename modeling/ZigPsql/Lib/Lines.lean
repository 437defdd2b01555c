import Mathlib.Tactic.Common

/-!
# Texts in parts

Parts with a mark after each of them, or with two marks between them. Reading
yields no part that holds what ends a part, so it gives the parts back exactly
where none of them does.
-/

namespace Lines

variable {α : Type} [DecidableEq α]

/-! ### A mark after each part -/

omit [DecidableEq α] in
def ended (t : α) (parts : List (List α)) : List α := parts.flatMap fun p => p ++ [t]

/-- The byte goes before the first part, if there is one. -/
def startPart (b : α) : List (List α) → Option (List (List α))
  | [] => none
  | p :: parts => some ((b :: p) :: parts)

/-- What stands after the last mark is no part. -/
def readEnded (t : α) : List α → Option (List (List α))
  | [] => some []
  | b :: s => if b = t then (readEnded t s).map ([] :: ·) else (readEnded t s).bind (startPart b)

omit [DecidableEq α] in
theorem startPart_some {b : α} {parts parts' : List (List α)} (h : startPart b parts = some parts') :
    ∃ p rest, parts = p :: rest ∧ parts' = (b :: p) :: rest := by
  cases parts with
  | nil => cases h
  | cons p rest => exact ⟨p, rest, rfl, (Option.some.inj h).symm⟩

theorem readEnded_append {t : α} {p : List α} (hp : t ∉ p) (s : List α) :
    readEnded t (p ++ t :: s) = (readEnded t s).map (p :: ·) := by
  induction p with
  | nil => simp [readEnded]
  | cons b p ih =>
    have hb : b ≠ t := fun h => hp (h ▸ List.mem_cons_self ..)
    have hrest := ih fun h => hp (List.mem_cons_of_mem _ h)
    rw [List.cons_append, readEnded, if_neg hb, hrest]
    cases readEnded t s <;> rfl

theorem readEnded_ended {t : α} {parts : List (List α)} (h : ∀ p ∈ parts, t ∉ p) :
    readEnded t (ended t parts) = some parts := by
  induction parts with
  | nil => rfl
  | cons p rest ih =>
    have htext : ended t (p :: rest) = p ++ t :: ended t rest := by simp [ended]
    rw [htext, readEnded_append (h p (List.mem_cons_self ..)), ih fun q hq => h q (List.mem_cons_of_mem _ hq)]
    rfl

/-- A part that is read has no mark in it, and its bytes are of the text. -/
theorem readEnded_parts {t : α} {s : List α} {parts : List (List α)} (h : readEnded t s = some parts) :
    ∀ p ∈ parts, t ∉ p ∧ ∀ b ∈ p, b ∈ s := by
  induction s generalizing parts with
  | nil =>
    cases h
    intro p hp
    cases hp
  | cons b s ih =>
    rw [readEnded] at h
    intro p hp
    split at h
    next =>
      obtain ⟨rest, hrest, rfl⟩ := Option.map_eq_some_iff.mp h
      rcases List.mem_cons.mp hp with rfl | hp
      · exact ⟨List.not_mem_nil, fun b hb => absurd hb List.not_mem_nil⟩
      · obtain ⟨hfree, hmem⟩ := ih hrest p hp
        exact ⟨hfree, fun c hc => List.mem_cons_of_mem _ (hmem c hc)⟩
    next hb =>
      obtain ⟨parts', hread, hstart⟩ := Option.bind_eq_some_iff.mp h
      obtain ⟨q, rest, rfl, rfl⟩ := startPart_some hstart
      have hall := ih hread
      rcases List.mem_cons.mp hp with rfl | hp
      · obtain ⟨hfree, hmem⟩ := hall q (List.mem_cons_self ..)
        refine ⟨fun h => ?_, fun c hc => ?_⟩
        · rcases List.mem_cons.mp h with rfl | h
          · exact hb rfl
          · exact hfree h
        · rcases List.mem_cons.mp hc with rfl | hc
          · exact List.mem_cons_self ..
          · exact List.mem_cons_of_mem _ (hmem c hc)
      · obtain ⟨hfree, hmem⟩ := hall p (List.mem_cons_of_mem _ hp)
        exact ⟨hfree, fun c hc => List.mem_cons_of_mem _ (hmem c hc)⟩

/-! ### Two marks between parts -/

omit [DecidableEq α] in
def grow (b : α) : List (List α) → List (List α)
  | [] => [[b]]
  | p :: parts => (b :: p) :: parts

def readBetween (a b : α) : List α → List (List α)
  | [] => [[]]
  | [c] => [[c]]
  | c :: d :: s => if c = a ∧ d = b then [] :: readBetween a b s else grow c (readBetween a b (d :: s))

section
variable {a b : α}

theorem readBetween_cons {c d : α} (h : ¬ (c = a ∧ d = b)) (s : List α) :
    readBetween a b (c :: d :: s) = grow c (readBetween a b (d :: s)) := by
  rw [readBetween, if_neg h]

theorem readBetween_single {p : List α} (hp : ¬ [a, b] <:+: p) : readBetween a b p = [p] := by
  induction p using readBetween.induct a b with
  | case1 => rfl
  | case2 c => rfl
  | case3 c d s hmarks ih =>
    obtain ⟨rfl, rfl⟩ := hmarks
    exact absurd ⟨[], s, rfl⟩ hp
  | case4 c d s h ih =>
    rw [readBetween_cons h, ih fun hin => hp (hin.trans (List.suffix_cons c _).isInfix)]
    rfl

theorem readBetween_append (hab : a ≠ b) {p : List α} (hp : ¬ [a, b] <:+: p) (s : List α) :
    readBetween a b (p ++ a :: b :: s) = p :: readBetween a b s := by
  induction p using readBetween.induct a b with
  | case1 => simp [readBetween]
  | case2 c =>
    have hfirst : ¬ (c = a ∧ a = b) := fun h => hab h.2
    have hmarks : readBetween a b (a :: b :: s) = [] :: readBetween a b s := by simp [readBetween]
    rw [List.singleton_append, readBetween_cons hfirst, hmarks]
    rfl
  | case3 c d p hmarks ih =>
    obtain ⟨rfl, rfl⟩ := hmarks
    exact absurd ⟨[], p, rfl⟩ hp
  | case4 c d p h ih =>
    have hrest := ih fun hin => hp (hin.trans (List.suffix_cons c _).isInfix)
    rw [List.cons_append] at hrest
    rw [List.cons_append, List.cons_append, readBetween_cons h, hrest]
    rfl

theorem readBetween_intercalate (hab : a ≠ b) {parts : List (List α)} (hne : parts ≠ [])
    (h : ∀ p ∈ parts, ¬ [a, b] <:+: p) : readBetween a b ([a, b].intercalate parts) = parts := by
  induction parts with
  | nil => exact absurd rfl hne
  | cons p rest ih =>
    have hp := h p (List.mem_cons_self ..)
    cases rest with
    | nil => simpa using readBetween_single hp
    | cons q rest =>
      have hrest := ih (List.cons_ne_nil _ _) fun r hr => h r (List.mem_cons_of_mem _ hr)
      rw [List.intercalate_cons_cons, List.append_assoc, List.cons_append, List.singleton_append,
        readBetween_append hab hp, hrest]

theorem readBetween_head {s : List α} {p : List α} {parts : List (List α)} (h : readBetween a b s = p :: parts) :
    p <+: s := by
  induction s using readBetween.induct a b generalizing p parts with
  | case1 =>
    cases h
    exact List.prefix_rfl
  | case2 c =>
    cases h
    exact List.prefix_rfl
  | case3 c d s hmarks ih =>
    rw [readBetween, if_pos hmarks] at h
    cases h
    exact List.nil_prefix
  | case4 c d s hne ih =>
    rw [readBetween_cons hne] at h
    cases hrest : readBetween a b (d :: s) with
    | nil =>
      rw [hrest] at h
      cases h
      exact ⟨d :: s, rfl⟩
    | cons q rest =>
      rw [hrest] at h
      cases h
      exact List.cons_prefix_cons.mpr ⟨rfl, ih hrest⟩

/-- A part that is read does not hold the two marks, and its bytes are of the text. -/
theorem readBetween_parts (s : List α) : ∀ p ∈ readBetween a b s, ¬ [a, b] <:+: p ∧ ∀ c ∈ p, c ∈ s := by
  have hshort {c : α} (hin : [a, b] <:+: [c]) : False := by
    have hlen := hin.length_le
    simp at hlen
  induction s using readBetween.induct a b with
  | case1 =>
    intro p hp
    rw [List.mem_singleton.mp hp]
    exact ⟨fun hin => by simpa using hin.length_le, fun c hc => hc⟩
  | case2 c =>
    intro p hp
    rw [List.mem_singleton.mp hp]
    exact ⟨hshort, fun d hd => hd⟩
  | case3 c d s hmarks ih =>
    intro p hp
    rw [readBetween, if_pos hmarks] at hp
    rcases List.mem_cons.mp hp with rfl | hp
    · exact ⟨fun hin => by simpa using hin.length_le, fun c hc => absurd hc List.not_mem_nil⟩
    · obtain ⟨hfree, hmem⟩ := ih p hp
      exact ⟨hfree, fun c hc => List.mem_cons_of_mem _ (List.mem_cons_of_mem _ (hmem c hc))⟩
  | case4 c d s hne ih =>
    intro p hp
    rw [readBetween_cons hne] at hp
    cases hrest : readBetween a b (d :: s) with
    | nil =>
      rw [hrest] at hp
      rw [List.mem_singleton.mp hp]
      refine ⟨hshort, fun e he => ?_⟩
      rw [List.mem_singleton.mp he]
      exact List.mem_cons_self ..
    | cons q rest =>
      rw [hrest] at hp ih
      rcases List.mem_cons.mp hp with rfl | hp
      · obtain ⟨hfree, hmem⟩ := ih q (List.mem_cons_self ..)
        refine ⟨fun hin => ?_, fun e he => ?_⟩
        · -- the marks would be the first two bytes of the text
          rcases List.infix_cons_iff.mp hin with hstart | hin
          · have hpair : [a, b] <+: c :: d :: s :=
              hstart.trans (List.cons_prefix_cons.mpr ⟨rfl, readBetween_head hrest⟩)
            obtain ⟨hfirst, hrest⟩ := List.cons_prefix_cons.mp hpair
            exact hne ⟨hfirst.symm, (List.cons_prefix_cons.mp hrest).1.symm⟩
          · exact hfree hin
        · rcases List.mem_cons.mp he with rfl | he
          · exact List.mem_cons_self ..
          · exact List.mem_cons_of_mem _ (hmem e he)
      · obtain ⟨hfree, hmem⟩ := ih p (List.mem_cons_of_mem _ hp)
        exact ⟨hfree, fun e he => List.mem_cons_of_mem _ (hmem e he)⟩

end
end Lines
