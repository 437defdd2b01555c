import ZigPsql.Postgres.Statements

/-!
# Names in a statement

A name that is not quoted is a word of the text, and a word is a letter or an
underscore with letters, digits, underscores and dollar signs after it, whatever
the text around it is.
-/

namespace Postgres
open Text Scanner

variable {standard : Bool}

/-! ### Words and case -/

theorem foldByte_letter (b : Byte) : foldByte b = b ∨ isWordStart b = true ∧ isWordStart (foldByte b) = true := by
  unfold foldByte
  split
  next h =>
    have hsum : (b + 32).toNat = b.toNat + 32 := by
      simp only [Bool.and_eq_true, decide_eq_true_eq, UInt8.le_iff_toNat_le] at h
      have h90 : b.toNat ≤ 90 := h.2
      rw [UInt8.toNat_add]
      exact Nat.mod_eq_of_lt (by change b.toNat + 32 < 256; omega)
    have hlower : (97 ≤ b + 32 && b + 32 ≤ 122) = true := by
      simp only [Bool.and_eq_true, decide_eq_true_eq, UInt8.le_iff_toNat_le, hsum] at h ⊢
      obtain ⟨h65, h90⟩ := h
      change 65 ≤ b.toNat at h65
      change b.toNat ≤ 90 at h90
      exact ⟨by change 97 ≤ b.toNat + 32; omega, by change b.toNat + 32 ≤ 122; omega⟩
    exact .inr ⟨by simp [isWordStart, h], by simp [isWordStart, hlower]⟩
  next => exact .inl rfl

theorem isWordStart_foldByte (b : Byte) : isWordStart (foldByte b) = isWordStart b := by
  rcases foldByte_letter b with h | ⟨hb, hf⟩
  · rw [h]
  · rw [hf, hb]

theorem isWordByte_foldByte (b : Byte) : isWordByte (foldByte b) = isWordByte b := by
  rcases foldByte_letter b with h | ⟨hb, hf⟩
  · rw [h]
  · simp only [isWordByte, hf, hb, Bool.true_or]

theorem isWord_fold (w : Bytes) : isWord (fold w) = isWord w := by
  cases w with
  | nil => rfl
  | cons b rest =>
    simp only [fold, List.map_cons, isWord, isWordStart_foldByte, List.all_map]
    congr 2
    funext c
    exact isWordByte_foldByte c

theorem isWord_append_one {w : Bytes} {b : Byte} (hw : isWord w = true) (hb : isWordByte b = true) :
    isWord (w ++ [b]) = true := by
  cases w with
  | nil => cases hw
  | cons c rest =>
    simp only [isWord, Bool.and_eq_true] at hw
    simp [isWord, hw.1, hw.2, hb]

theorem plainName_iff (n : Bytes) : plainName n = true ↔ isWord n = true ∧ fold n ∉ reservedKeywords := by
  simp [plainName]

/-! ### Every word that is read is one -/

/-- What a mode keeps of a word that has begun is a word. -/
def Mode.wordy : Mode → Bool
  | .word acc | .unicodePrefix acc => isWord acc
  | .dollar acc => acc.isEmpty || isWord acc
  | _ => true

def Token.wordy : Token → Bool
  | .word w => isWord w
  | _ => true

def Wordy (s : Step) : Prop := s.1.wordy = true ∧ ∀ t ∈ s.2, t.wordy = true

theorem wordy_silent {m : Mode} (h : m.wordy = true) : Wordy (m, []) := ⟨h, fun _ ht => absurd ht List.not_mem_nil⟩

theorem wordy_after {ts : List Token} {s : Step} (hts : ∀ t ∈ ts, t.wordy = true) (hs : Wordy s) :
    Wordy (after ts s) := by
  refine ⟨hs.1, fun t ht => ?_⟩
  rcases List.mem_append.mp ht with h | h
  · exact hts t h
  · exact hs.2 t h

theorem wordy_after_one {t : Token} {s : Step} (ht : t.wordy = true) (hs : Wordy s) : Wordy (after [t] s) :=
  wordy_after (fun _ hu => List.mem_singleton.mp hu ▸ ht) hs

theorem wordy_word {acc : Bytes} (h : isWord acc = true) : (Token.word (fold acc)).wordy = true :=
  (isWord_fold acc).trans h

theorem openToken_wordy (b : Byte) : Wordy (openToken standard b) := by
  unfold openToken
  split
  · exact wordy_silent rfl
  split
  next h => exact wordy_silent (by simp [Mode.wordy, isWord, h])
  repeat (split; · exact wordy_silent rfl)
  exact ⟨rfl, by simp [Token.wordy]⟩

theorem opTokens_wordy (acc : Bytes) : ∀ t ∈ opTokens acc, t.wordy = true := by
  intro t ht
  unfold opTokens at ht
  split at ht
  · cases ht
  split at ht
  · rw [List.mem_singleton.mp ht]
    rfl
  · rcases List.mem_cons.mp ht with rfl | ht
    · rfl
    · obtain ⟨c, -, rfl⟩ := List.mem_map.mp ht
      rfl

theorem opStep_wordy (acc : Bytes) (b : Byte) : Wordy (opStep standard acc b) := by
  unfold opStep
  split
  · exact ⟨rfl, opTokens_wordy _⟩
  split
  · exact ⟨rfl, opTokens_wordy _⟩
  split
  · exact wordy_silent rfl
  · exact wordy_after (opTokens_wordy _) (openToken_wordy b)

theorem quotePrefix_wordy {acc : Bytes} (h : isWord acc = true) : Wordy (quotePrefix standard acc) := by
  have hword := wordy_word h
  unfold quotePrefix
  repeat (split; · exact wordy_silent rfl)
  split
  · exact ⟨rfl, fun t ht => List.mem_singleton.mp ht ▸ rfl⟩
  · exact ⟨rfl, fun t ht => List.mem_singleton.mp ht ▸ hword⟩

theorem wordStep_wordy {acc : Bytes} (h : isWord acc = true) (b : Byte) : Wordy (wordStep standard acc b) := by
  unfold wordStep
  split
  next hb => exact wordy_silent (isWord_append_one h hb)
  split
  · exact quotePrefix_wordy h
  split
  · exact wordy_silent h
  · exact wordy_after_one (wordy_word h) (openToken_wordy b)

theorem numberStep_wordy (acc : Bytes) (b : Byte) : Wordy (numberStep standard acc b) := by
  unfold numberStep
  split
  · exact wordy_silent rfl
  split
  · exact ⟨rfl, by simp [Token.wordy]⟩
  · exact wordy_after_one rfl (openToken_wordy b)

theorem dollarStep_wordy {acc : Bytes} (h : (Mode.dollar acc).wordy = true) (b : Byte) :
    Wordy (dollarStep standard acc b) := by
  simp only [Mode.wordy, Bool.or_eq_true, List.isEmpty_iff] at h
  unfold dollarStep
  split
  · exact wordy_silent rfl
  split
  · exact wordy_silent rfl
  split
  next hb =>
    refine wordy_silent ?_
    rcases h with rfl | hw
    · have hstart : isWordStart b = true := by simpa using hb
      simp [Mode.wordy, isWord, hstart]
    · have hbyte : isWordByte b = true := by
        rcases hb with hb | ⟨-, hb⟩ <;> simp [isWordByte, hb]
      simp [Mode.wordy, isWord_append_one hw hbyte]
  split
  · exact wordy_after_one rfl (openToken_wordy b)
  next hne => exact wordy_after_one rfl (wordStep_wordy (h.resolve_left hne) b)

theorem gapStep_wordy (kind : QuoteKind) (acc : Bytes) (newline : Bool) (b : Byte) :
    Wordy (gapStep standard kind acc newline b) := by
  unfold gapStep
  repeat (split; · exact wordy_silent rfl)
  exact wordy_after_one rfl (openToken_wordy b)

theorem step_wordy (m : Mode) (b : Byte) (h : m.wordy = true) : Wordy (step standard m b) := by
  have hopen : Wordy (openToken standard b) := openToken_wordy b
  cases m with
  | start => exact hopen
  | word acc => exact wordStep_wordy h b
  | unicodePrefix acc =>
    dsimp only [step]
    repeat (split; · exact wordy_silent rfl)
    exact wordy_after_one (wordy_word h) (opStep_wordy _ b)
  | number acc => exact numberStep_wordy acc b
  | dot =>
    dsimp only [step]
    split
    · exact wordy_silent rfl
    split
    · exact ⟨rfl, by simp [Token.wordy]⟩
    · exact wordy_after_one rfl hopen
  | colon =>
    dsimp only [step]
    split
    · exact ⟨rfl, by simp [Token.wordy]⟩
    · exact wordy_after_one rfl hopen
  | op acc => exact opStep_wordy acc b
  | dollar acc => exact dollarStep_wordy h b
  | param acc =>
    dsimp only [step]
    split
    · exact wordy_silent rfl
    · exact wordy_after_one rfl hopen
  | dollarQuote tag acc =>
    dsimp only [step, dollarQuoteStep]
    split
    · exact ⟨rfl, by simp [Token.wordy]⟩
    · exact wordy_silent rfl
  | quote kind acc =>
    dsimp only [step]
    repeat (split; · exact wordy_silent rfl)
    exact wordy_silent rfl
  | quoteEscape kind acc => exact wordy_silent rfl
  | quoteEnd kind acc =>
    dsimp only [step]
    split
    · exact wordy_silent rfl
    · exact gapStep_wordy kind acc false b
  | quoteGap kind acc newline => exact gapStep_wordy kind acc newline b
  | quoteGapDash kind acc =>
    dsimp only [step]
    split
    · exact wordy_silent rfl
    · exact wordy_after_one rfl (opStep_wordy _ b)
  | quoteGapComment kind acc =>
    dsimp only [step]
    split <;> exact wordy_silent rfl
  | name unicode acc =>
    dsimp only [step]
    split <;> exact wordy_silent rfl
  | nameEnd unicode acc =>
    dsimp only [step]
    split
    · exact wordy_silent rfl
    · exact wordy_after_one rfl hopen
  | lineComment =>
    dsimp only [step]
    split <;> exact wordy_silent rfl
  | blockComment depth last =>
    dsimp only [step]
    split
    · split <;> exact wordy_silent rfl
    · split <;> exact wordy_silent rfl

theorem finish_wordy (m : Mode) (h : m.wordy = true) (ts : List Token) (hts : finish m = some ts) :
    ∀ t ∈ ts, t.wordy = true := by
  intro t ht
  cases m with
  | word acc =>
    cases hts
    rw [List.mem_singleton.mp ht]
    exact wordy_word h
  | unicodePrefix acc =>
    cases hts
    rcases List.mem_cons.mp ht with rfl | ht
    · exact wordy_word h
    · rw [List.mem_singleton.mp ht]
      rfl
  | op acc =>
    cases hts
    exact opTokens_wordy acc t ht
  | dollar acc =>
    cases acc with
    | nil =>
      cases hts
      rw [List.mem_singleton.mp ht]
      rfl
    | cons b rest =>
      cases hts
      rcases List.mem_cons.mp ht with rfl | ht
      · rfl
      · rw [List.mem_singleton.mp ht]
        exact wordy_word h
  | quoteGapDash kind acc =>
    cases hts
    rcases List.mem_cons.mp ht with rfl | ht
    · rfl
    · rw [List.mem_singleton.mp ht]
      rfl
  | start | lineComment =>
    cases hts
    cases ht
  | number _ | dot | colon | param _ | quoteEnd _ _ | quoteGap _ _ _ | quoteGapComment _ _ | nameEnd _ _ =>
    cases hts
    rw [List.mem_singleton.mp ht]
    rfl
  | dollarQuote _ _ | quote _ _ | quoteEscape _ _ | name _ _ | blockComment _ _ => cases hts

theorem lex_wordy {text : Bytes} {ts : List Token} (h : lex standard text = some ts) :
    ∀ t ∈ ts, t.wordy = true := by
  have hrun : (scan (step standard) .start text).1.wordy = true ∧
      ∀ t ∈ (scan (step standard) .start text).2, t.wordy = true :=
    scan_invariant (P := fun m : Mode => m.wordy = true) (Q := fun t : Token => t.wordy = true) step_wordy text
      .start rfl
  obtain ⟨hmode, hout⟩ := hrun
  obtain ⟨rest, hrest, rfl⟩ := Option.map_eq_some_iff.mp h
  intro t ht
  rcases List.mem_append.mp ht with h | h
  · exact hout t h
  · exact finish_wordy _ hmode rest hrest t h

/-! ### The names of a statement are words of its text -/

theorem colId_name {t : Token} {n : Bytes} (h : colId t = some n) :
    t = .word n ∧ n ∉ reservedKeywords ∨ t = .quotedName false n := by
  unfold colId at h
  split at h
  · split at h
    · cases h
    next hn =>
      cases h
      exact .inl ⟨rfl, hn⟩
  · cases h
    exact .inr rfl
  · cases h

theorem mem_of_mem_splitOn {ts part : List Token} {s t : Token} (hp : part ∈ ts.splitOn s) (ht : t ∈ part) :
    t ∈ ts := by
  have hts : [s].intercalate (ts.splitOn s) = ts := List.intercalate_splitOn s
  rw [← hts]
  generalize ts.splitOn s = parts at hp
  induction parts with
  | nil => cases hp
  | cons q rest ih =>
    cases rest with
    | nil =>
      rw [List.mem_singleton.mp hp] at ht
      simpa using ht
    | cons r rest =>
      rw [List.intercalate_cons_cons, List.mem_append, List.mem_append]
      rcases List.mem_cons.mp hp with rfl | hp
      · exact .inl (.inl ht)
      · exact .inr (ih hp)

theorem column_name {part : List Token} {c : Column} (h : column part = some c) :
    ∃ t ∈ part, colId t = some c.name := by
  cases part with
  | nil => cases h
  | cons t rest =>
    obtain ⟨n, hn, type, -, hc⟩ := by
      simpa only [column, Option.bind_eq_bind, Option.bind_eq_some_iff, Option.pure_def, Option.some.injEq] using h
    rw [← hc]
    exact ⟨t, List.mem_cons_self .., hn⟩

theorem commaList_name {items : List Token} {columns : List Column} (h : commaList column items = some columns) :
    ∀ c ∈ columns, ∃ t ∈ items, colId t = some c.name := by
  intro c hc
  unfold commaList at h
  split at h
  · cases h
    cases hc
  · obtain ⟨part, hpart, hcolumn⟩ := mem_of_mapM_some h c hc
    obtain ⟨t, ht, hname⟩ := column_name hcolumn
    exact ⟨t, mem_of_mem_splitOn hpart ht, hname⟩

theorem mem_of_parenthesized {ts items : List Token} (h : parenthesized ts = some items) {t : Token} (ht : t ∈ items) :
    t ∈ ts := by
  unfold parenthesized at h
  split at h
  · split at h
    · cases h
      exact List.mem_cons_of_mem _ (List.dropLast_subset _ ht)
    · cases h
  · cases h

theorem parseCreate_names {ts : List Token} {name : Bytes} {columns : List Column}
    (h : parseCreate ts = some (.createTable name columns)) :
    ∀ n, n = name ∨ n ∈ columns.map Column.name → ∃ t ∈ ts, colId t = some n := by
  obtain ⟨rest, hrest, n, hn, items, hitems, cs, hcs, hstatement⟩ := by
    simpa only [parseCreate, Option.bind_eq_bind, Option.bind_eq_some_iff, Option.pure_def, Option.some.injEq] using h
  obtain ⟨rfl, rfl⟩ := Statement.createTable.inj hstatement
  have hdrop : ∀ t ∈ rest, t ∈ ts := by
    unfold stripPrefix at hrest
    split at hrest
    · cases hrest
      exact fun t ht => List.mem_of_mem_drop ht
    · cases hrest
  intro m hm
  rcases hm with rfl | hm
  · obtain ⟨t, ht, hname⟩ := hn
    exact ⟨t, hdrop t (List.mem_of_head? ht), hname⟩
  · obtain ⟨c, hc, rfl⟩ := List.mem_map.mp hm
    obtain ⟨t, ht, hname⟩ := commaList_name hcs c hc
    exact ⟨t, hdrop t (List.mem_of_mem_tail (mem_of_parenthesized hitems ht)), hname⟩

/-- The other two forms of statement create no table. -/
theorem noCreate_of_others (ts : List Token) {name : Bytes} {columns : List Column} :
    (none <|> parseInsert ts <|> parseSelect ts) ≠ some (.createTable name columns) := by
  intro h
  cases hi : parseInsert ts with
  | some s =>
    obtain ⟨_, -, _, -, _, -, _, -, values, -, hs⟩ := by
      simpa only [parseInsert, Option.bind_eq_bind, Option.bind_eq_some_iff] using hi
    rw [hi] at h
    cases h
    split at hs <;> cases hs
  | none =>
    rw [hi] at h
    have hselect : parseSelect ts = some (.createTable name columns) := h
    obtain ⟨_, -, _, -, hs⟩ := by
      simpa only [parseSelect, Option.bind_eq_bind, Option.bind_eq_some_iff] using hselect
    split at hs <;> cases hs

theorem parse_names {ts : List Token} {name : Bytes} {columns : List Column}
    (h : parse ts = some (.createTable name columns)) :
    ∀ n, n = name ∨ n ∈ columns.map Column.name → ∃ t ∈ ts, colId t = some n := by
  have hbody : ∀ t ∈ (if ts.getLast? = some (.self 59) then ts.dropLast else ts), t ∈ ts := by
    split
    · exact fun t ht => List.dropLast_subset _ ht
    · exact fun t ht => ht
  unfold parse at h
  dsimp only at h
  generalize (if ts.getLast? = some (.self 59) then ts.dropLast else ts) = body at h hbody
  have hcreate : parseCreate body = some (.createTable name columns) := by
    cases hc : parseCreate body with
    | some s => simpa [hc] using h
    | none =>
      rw [hc] at h
      exact absurd h (noCreate_of_others body)
  intro n hn
  obtain ⟨t, ht, hname⟩ := parseCreate_names hcreate n hn
  exact ⟨t, hbody t ht, hname⟩

/-- The names of a table that is created without quoted names can name a table and its columns. -/
theorem names_of_lex {text : Bytes} {ts : List Token} {name : Bytes} {columns : List Column}
    (hlex : lex standard text = some ts) (hplain : ∀ n, .quotedName false n ∉ ts)
    (hparse : parse ts = some (.createTable name columns)) :
    ∀ n, n = name ∨ n ∈ columns.map Column.name → isWord n = true ∧ n ∉ reservedKeywords := by
  intro n hn
  obtain ⟨t, ht, hname⟩ := parse_names hparse n hn
  rcases colId_name hname with ⟨rfl, hkeyword⟩ | rfl
  · exact ⟨lex_wordy hlex _ ht, hkeyword⟩
  · exact absurd ht (hplain n)

/-! ### The setting of the session -/

theorem openToken_standard {b : Byte} (h : b ≠ 39) : openToken standard b = openToken true b := by
  simp only [openToken, if_neg h]

theorem step_standard (m : Mode) {b : Byte} (h : b ≠ 39) : step standard m b = step true m b := by
  have hopen : openToken standard b = openToken true b := openToken_standard h
  cases m with
  | dollar acc => simp only [step, dollarStep, wordStep, hopen, if_neg h]
  | _ => simp only [step, opStep, wordStep, numberStep, gapStep, hopen, if_neg h]

/-- A text without a quote reads the same with standard_conforming_strings on and off. -/
theorem lex_standard {text : Bytes} (h : 39 ∉ text) : lex standard text = lex true text := by
  have hscan := scan_congr text (fun m b hb => @step_standard standard m b fun he => h (he ▸ hb)) .start
  simp only [lex, hscan]

end Postgres
