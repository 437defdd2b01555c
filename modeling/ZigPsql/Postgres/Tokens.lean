import ZigPsql.Postgres.Lexer

/-!
# What the pieces of a statement lex to

Each piece is read from between two tokens up to and with the delimiter that
ends it, and leaves the scanner between two tokens again.
-/

namespace Postgres
open Text Scanner

variable {standard : Bool}

/-- From between two tokens to between two tokens. -/
abbrev Lexes (standard : Bool) (text : Bytes) (ts : List Token) : Prop :=
  Emits (step standard) .start text ts .start

theorem lexes_append {a b : Bytes} {ta tb : List Token} (ha : Lexes standard a ta)
    (hb : Lexes standard b tb) : Lexes standard (a ++ b) (ta ++ tb) :=
  emits_append ha hb

theorem lex_of_lexes {text : Bytes} {ts : List Token} (h : Lexes standard text ts) :
    lex standard text = some ts := by
  unfold Lexes Emits at h
  simp [lex, h, finish]

def isDelimiter (b : Byte) : Bool := b = 32 || b = 40 || b = 41 || b = 44
def delimiterTokens (b : Byte) : List Token := if b = 32 then [] else [.self b]

theorem openToken_delimiter (d : Byte) (h : isDelimiter d = true) :
    openToken standard d = (.start, delimiterTokens d) := by
  simp only [isDelimiter, Bool.or_eq_true, decide_eq_true_eq] at h
  rcases h with ((rfl | rfl) | rfl) | rfl <;> rfl

theorem lexes_delimiter (d : Byte) (h : isDelimiter d = true) :
    Lexes standard [d] (delimiterTokens d) :=
  emits_one (openToken_delimiter d h)

/-! ### Words -/

def isWord : Bytes → Bool
  | [] => false
  | b :: rest => isWordStart b && rest.all isWordByte

theorem openToken_wordStart (b : Byte) (h : isWordStart b = true) :
    openToken standard b = (.word [b], []) := by
  have hb : isBlank b = false := by grind [isWordStart, isBlank]
  simp [openToken, hb, h]

theorem wordStep_delimiter (acc : Bytes) (d : Byte) (h : isDelimiter d = true) :
    wordStep standard acc d = (.start, .word (fold acc) :: delimiterTokens d) := by
  have hd : isWordByte d = false := by grind [isDelimiter, isWordByte, isWordStart, isDigit]
  have h39 : d ≠ 39 := by grind [isDelimiter]
  have h38 : d ≠ 38 := by grind [isDelimiter]
  simp [wordStep, hd, h39, h38, openToken_delimiter d h, after]

theorem emits_word (w : Bytes) (hw : isWord w = true) : Emits (step standard) .start w [] (.word w) := by
  cases w with
  | nil => cases hw
  | cons b rest =>
    simp only [isWord, Bool.and_eq_true, List.all_eq_true] at hw
    have hrest : Emits (step standard) (.word [b]) rest [] (.word ([b] ++ rest)) :=
      emits_accumulate Mode.word rest (fun acc i hi => by simp [step, wordStep, hw.2 i hi]) [b]
    exact emits_silent (openToken_wordStart b hw.1) hrest

theorem lexes_word (w : Bytes) (d : Byte) (hw : isWord w = true) (hd : isDelimiter d = true) :
    Lexes standard (w ++ [d]) (.word (fold w) :: delimiterTokens d) :=
  emits_append (emits_word w hw) (emits_one (wordStep_delimiter w d hd))

/-! ### Numbers -/

theorem openToken_digit (b : Byte) (h : isDigit b = true) :
    openToken standard b = (.number [b], []) := by
  have hb : isBlank b = false := by grind [isDigit, isBlank]
  have hw : isWordStart b = false := by grind [isDigit, isWordStart]
  simp [openToken, hb, hw, h]

theorem numberStep_digit (acc : Bytes) (b : Byte) (h : isDigit b = true) :
    numberStep standard acc b = (.number (acc ++ [b]), []) := by
  simp [numberStep, numberGoesOn, h]

theorem numberStep_point (acc : Bytes) (h : ∀ b ∈ acc, isDigit b = true) :
    numberStep standard acc 46 = (.number (acc ++ [46]), []) := by
  have hall : (acc.all fun c => isDigit c || c = 95) = true := by
    simp only [List.all_eq_true]
    intro b hb
    simp [h b hb]
  simp [numberStep, numberGoesOn, hall]

theorem numberStep_delimiter (acc : Bytes) (d : Byte) (h : isDelimiter d = true) :
    numberStep standard acc d = (.start, .number acc :: delimiterTokens d) := by
  have hw : isWordStart d = false := by grind [isDelimiter, isWordStart]
  have hn : isDigit d = false := by grind [isDelimiter, isDigit]
  have h46 : d ≠ 46 := by grind [isDelimiter]
  have h43 : d ≠ 43 := by grind [isDelimiter]
  have h45 : d ≠ 45 := by grind [isDelimiter]
  simp [numberStep, numberGoesOn, hw, hn, h46, h43, h45, openToken_delimiter d h, after]

theorem emits_digits (acc t : Bytes) (h : ∀ b ∈ t, isDigit b = true) :
    Emits (step standard) (.number acc) t [] (.number (acc ++ t)) :=
  emits_accumulate Mode.number t (fun acc' i hi => numberStep_digit acc' i (h i hi)) acc

theorem emits_openDigits (t : Bytes) (ht : t ≠ []) (h : ∀ b ∈ t, isDigit b = true) (m : Mode)
    (out : List Token) (hm : ∀ b, isDigit b = true → step standard m b = (.number [b], out)) :
    Emits (step standard) m t out (.number t) := by
  cases t with
  | nil => exact absurd rfl ht
  | cons b rest =>
    have hrest := @emits_digits standard [b] rest fun c hc => h c (List.mem_cons_of_mem _ hc)
    simpa using emits_cons (hm b (h b (List.mem_cons_self ..))) hrest

theorem opStep_digit (b : Byte) (h : isDigit b = true) :
    opStep standard [45] b = (.number [b], [.op [45]]) := by
  have h45 : b ≠ 45 := by grind [isDigit]
  have h42 : b ≠ 42 := by grind [isDigit]
  have ho : isOpByte b = false := by
    cases ho : isOpByte b with
    | false => rfl
    | true =>
      have hmem : b ∈ [126, 33, 64, 35, 94, 38, 124, 96, 63, 43, 45, 42, 47, 37, 60, 62, 61] := by
        simpa only [isOpByte, List.contains_eq_mem, decide_eq_true_eq] using ho
      have hall : ∀ c ∈ [126, 33, 64, 35, 94, 38, 124, 96, 63, 43, 45, 42, 47, 37, 60, 62, (61 : Byte)],
          isDigit c = false := by decide +kernel
      rw [hall b hmem] at h
      cases h
  have ht : opTokens [45] = [.op [45]] := by decide
  simp [opStep, h45, h42, ho, ht, openToken_digit b h, after]

def signTokens (negative : Bool) : List Token := if negative then [.op [45]] else []
def signBytes (negative : Bool) : Bytes := if negative then [45] else []

theorem emits_signedDigits (negative : Bool) (t : Bytes) (ht : t ≠ []) (h : ∀ b ∈ t, isDigit b = true) :
    Emits (step standard) .start (signBytes negative ++ t) (signTokens negative) (.number t) := by
  cases negative with
  | false => exact emits_openDigits t ht h .start [] openToken_digit
  | true =>
    have hsign : step standard .start 45 = (.op [45], []) := by
      cases standard <;> decide
    exact emits_cons hsign (emits_openDigits t ht h (.op [45]) [.op [45]] opStep_digit)

theorem lexes_integer (negative : Bool) (t : Bytes) (d : Byte) (ht : t ≠ [])
    (h : ∀ b ∈ t, isDigit b = true) (hd : isDelimiter d = true) :
    Lexes standard (signBytes negative ++ t ++ [d])
      (signTokens negative ++ .number t :: delimiterTokens d) :=
  emits_append (emits_signedDigits negative t ht h) (emits_one (numberStep_delimiter t d hd))

theorem lexes_decimal (negative : Bool) (a f : Bytes) (d : Byte) (ha : a ≠ [])
    (had : ∀ b ∈ a, isDigit b = true) (hf : ∀ b ∈ f, isDigit b = true) (hd : isDelimiter d = true) :
    Lexes standard (signBytes negative ++ (a ++ 46 :: f) ++ [d])
      (signTokens negative ++ .number (a ++ 46 :: f) :: delimiterTokens d) := by
  have hpoint : Emits (step standard) (.number a) [46] [] (.number (a ++ [46])) :=
    emits_one (numberStep_point a had)
  have hfrac := @emits_digits standard (a ++ [46]) f hf
  have hwhole := emits_append (@emits_signedDigits standard negative a ha had)
    (emits_append hpoint hfrac)
  have hall := emits_append hwhole (emits_one (numberStep_delimiter (a ++ [46] ++ f) d hd))
  simpa using hall

/-! ### String constants -/

def doubleQuotes (s : Bytes) : Bytes := s.flatMap fun c => if c = 39 then [39, 39] else [c]

theorem unquote_plain {b : Byte} (hb : b ≠ 39) (rest : Bytes) : unquote (b :: rest) = b :: unquote rest := by
  rw [unquote]
  intro _ hcons _
  exact hb hcons

theorem unquote_doubleQuotes (s : Bytes) : unquote (doubleQuotes s) = s := by
  induction s with
  | nil => rfl
  | cons c s ih =>
    by_cases hc : c = 39
    · subst hc
      simpa [doubleQuotes, unquote] using ih
    · simpa [doubleQuotes, hc] using (unquote_plain hc _).trans (congrArg (c :: ·) ih)

/-- Inside a plain constant, every prefix of a doubled text leaves the scanner inside it. -/
theorem emits_doubleQuotes (acc s : Bytes) :
    Emits (step standard) (.quote .plain acc) (doubleQuotes s) [] (.quote .plain (acc ++ doubleQuotes s)) := by
  induction s generalizing acc with
  | nil => simpa [doubleQuotes] using emits_nil (step standard) (.quote .plain acc)
  | cons c s ih =>
    have hc : Emits (step standard) (.quote .plain acc) (if c = 39 then [39, 39] else [c]) []
        (.quote .plain (acc ++ if c = 39 then [39, 39] else [c])) := by
      split
      · have hfirst : step standard (.quote .plain acc) 39 = (.quoteEnd .plain acc, []) := rfl
        exact emits_silent hfirst (emits_one rfl)
      next h => exact emits_one (by simp [step, h])
    have hs := emits_append hc (ih _)
    rw [List.append_assoc] at hs
    exact hs

theorem lexes_string (s : Bytes) (d : Byte) (hd : isDelimiter d = true) (hb : d ≠ 32) :
    Lexes true ([39] ++ doubleQuotes s ++ [39] ++ [d]) (.string .plain (doubleQuotes s) :: delimiterTokens d) := by
  have hopen : Emits (step true) .start [39] [] (.quote .plain []) := emits_one rfl
  have hbody := @emits_doubleQuotes true [] s
  have hclose : Emits (step true) (.quote .plain (doubleQuotes s)) [39] []
      (.quoteEnd .plain (doubleQuotes s)) := emits_one rfl
  have hdelim : step true (.quoteEnd .plain (doubleQuotes s)) d =
      (.start, .string .plain (doubleQuotes s) :: delimiterTokens d) := by
    have h39 : d ≠ 39 := by grind [isDelimiter]
    have hblank : isBlank d = false := by grind [isDelimiter, isBlank]
    have h45 : d ≠ 45 := by grind [isDelimiter]
    simp [step, gapStep, h39, hblank, h45, openToken_delimiter d hd, after]
  have hquoted := emits_append (emits_append hopen hbody) hclose
  exact emits_append hquoted (emits_one hdelim)

/-! ### Where a text leaves off -/

/-- Within a quoted constant, a quoted name or a comment. -/
def Mode.inside : Mode → Bool
  | .dollarQuote _ _ | .quote _ _ | .quoteEscape _ _ | .quoteGapComment _ _ => true
  | .name _ _ | .lineComment | .blockComment _ _ => true
  | _ => false

def modeAfter (standard : Bool) (text : Bytes) : Mode := (scan (step standard) .start text).1

theorem lex_open {text : Bytes} {kind : QuoteKind} {acc : Bytes} (h : modeAfter standard text = .quote kind acc) :
    lex standard text = none := by
  have hmode : (scan (step standard) .start text).1 = .quote kind acc := h
  simp only [lex, hmode, finish, Option.map_none]

theorem step_paren (m : Mode) :
    (step standard m 40).1.inside = true ∨ ∃ ts, step standard m 40 = (.start, ts ++ [.self 40]) := by
  have hopen : openToken standard 40 = (.start, [.self 40]) := rfl
  have hop (acc : Bytes) : opStep standard acc 40 = (.start, opTokens acc ++ [.self 40]) := by
    have hnot : isOpByte 40 = false := by decide
    simp [opStep, hnot, hopen, after]
  have hword (acc : Bytes) : wordStep standard acc 40 = (.start, [.word (fold acc)] ++ [.self 40]) :=
    wordStep_delimiter acc 40 (by decide)
  have hgap (kind : QuoteKind) (acc : Bytes) (newline : Bool) :
      gapStep standard kind acc newline 40 = (.start, [.string kind acc] ++ [.self 40]) := by
    have hblank : isBlank 40 = false := by decide
    simp [gapStep, hblank, hopen, after]
  cases m with
  | start => exact .inr ⟨[], rfl⟩
  | word acc => exact .inr ⟨_, hword acc⟩
  | unicodePrefix acc => exact .inr ⟨.word (fold acc) :: opTokens [38], by simp [step, hop, after]⟩
  | number acc => exact .inr ⟨[.number acc], numberStep_delimiter acc 40 (by decide)⟩
  | dot => exact .inr ⟨[.self 46], rfl⟩
  | colon => exact .inr ⟨[.self 58], rfl⟩
  | op acc => exact .inr ⟨_, hop acc⟩
  | dollar acc =>
    cases acc with
    | nil => exact .inr ⟨[.self 36], rfl⟩
    | cons b rest =>
      refine .inr ⟨[.self 36, .word (fold (b :: rest))], ?_⟩
      have hstart : isWordStart 40 = false := by decide
      have hdigit : isDigit 40 = false := by decide
      simp [step, dollarStep, hstart, hdigit, hword, after]
  | param acc => exact .inr ⟨[.param acc], rfl⟩
  | dollarQuote tag acc =>
    have hend : ([36] ++ tag ++ [36]).isSuffixOf (acc ++ [40]) = false := by
      rw [Bool.eq_false_iff, ne_eq, List.isSuffixOf_iff_suffix]
      intro h
      obtain ⟨u, hu⟩ := h
      rw [← List.append_assoc] at hu
      exact absurd (List.append_inj' hu rfl).2 (by decide)
    exact .inl (by simp only [step, dollarQuoteStep, hend]; rfl)
  | quote kind acc => exact .inl rfl
  | quoteEscape kind acc => exact .inl rfl
  | quoteEnd kind acc => exact .inr ⟨_, hgap kind acc false⟩
  | quoteGap kind acc newline => exact .inr ⟨_, hgap kind acc newline⟩
  | quoteGapDash kind acc => exact .inr ⟨.string kind acc :: opTokens [45], by simp [step, hop, after]⟩
  | quoteGapComment kind acc => exact .inl rfl
  | name unicode acc => exact .inl rfl
  | nameEnd unicode acc => exact .inr ⟨[.quotedName unicode acc], rfl⟩
  | lineComment => exact .inl rfl
  | blockComment depth last => exact .inl (by simp [step, Mode.inside])

theorem lexes_paren (text : Bytes) (h : (modeAfter standard (text ++ [40])).inside = false) :
    ∃ ts, Lexes standard (text ++ [40]) (ts ++ [.self 40]) := by
  have htext : Emits (step standard) .start text (scan (step standard) .start text).2
      (scan (step standard) .start text).1 := rfl
  rcases @step_paren standard (scan (step standard) .start text).1 with hin | ⟨ts, hts⟩
  · have hparen : Emits (step standard) (scan (step standard) .start text).1 [40] _ _ := emits_one rfl
    have hmode : modeAfter standard (text ++ [40]) = _ := congrArg Prod.fst (emits_append htext hparen)
    rw [hmode] at h
    exact absurd (hin.symm.trans h) (by decide)
  · have hall := emits_append htext (emits_one hts)
    rw [← List.append_assoc] at hall
    exact ⟨_, hall⟩

end Postgres
