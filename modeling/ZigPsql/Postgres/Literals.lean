import ZigPsql.Postgres.Grammar
import Mathlib.Data.List.TakeWhile

/-!
# Lists and the constants in them

A text is an item when, with the comma or the parenthesis after it, it lexes to
tokens of its own; it is the literal of a constant when these read back as the
constant. Lists of items lex and split whatever their length.
-/

namespace Postgres
open Text Scanner

/-- The text `t` can stand in a list: up to the byte that ends it, it has the tokens `ts`. -/
structure ListItem (t : Bytes) (ts : List Token) : Prop where
  lexes : ∀ d, isDelimiter d = true → d ≠ 32 → Lexes true (t ++ [d]) (ts ++ [.self d])
  nonempty : ts ≠ []
  noComma : .self 44 ∉ ts

/-- The text `t` is written for the constant `c`. -/
structure Literal (t : Bytes) (ts : List Token) (c : Constant) : Prop extends ListItem t ts where
  reads : constant ts = some c

/-- An item that is no constant: a column reference in parentheses. -/
def placeholder : List Token := [.self 40, .word (ascii "float"), .self 41]

theorem delimiterTokens_of_ne {d : Byte} (h : d ≠ 32) : delimiterTokens d = [.self d] := by
  simp only [delimiterTokens, h, if_false]

/-! ### Numbers and strings -/

theorem span_digits (t : Bytes) (h : ∀ b ∈ t, isDigit b = true) :
    t.takeWhile isDigit = t ∧ t.dropWhile isDigit = [] :=
  ⟨List.takeWhile_eq_self_iff.mpr h, List.dropWhile_eq_nil_iff.mpr h⟩

theorem numberValue_digits (t : Bytes) (ht : t ≠ []) (h : ∀ b ∈ t, isDigit b = true) :
    numberValue t = some (readDigits t : ℚ) := by
  obtain ⟨htake, hdrop⟩ := span_digits t h
  simp only [numberValue, htake, hdrop, ht, if_false]

theorem numberValue_decimal (a f : Bytes) (ha : a ≠ []) (had : ∀ b ∈ a, isDigit b = true)
    (hf : ∀ b ∈ f, isDigit b = true) :
    numberValue (a ++ 46 :: f) = some ((readDigits (a ++ f) : ℚ) / 10 ^ f.length) := by
  have htake : (a ++ 46 :: f).takeWhile isDigit = a := by
    rw [List.takeWhile_append_of_pos had, List.takeWhile_cons_of_neg (by decide), List.append_nil]
  have hdrop : (a ++ 46 :: f).dropWhile isDigit = 46 :: f := by
    rw [List.dropWhile_append_of_pos had, List.dropWhile_cons_of_neg (by decide)]
  have hall : f.all isDigit = true := List.all_eq_true.mpr hf
  simp only [numberValue, htake, hdrop, ha, hall, ne_eq, not_false_eq_true, and_self, if_true]

def signed (negative : Bool) (q : ℚ) : ℚ := if negative then -q else q

theorem constant_signed (negative : Bool) (t : Bytes) (q : ℚ) (h : numberValue t = some q) :
    constant (signTokens negative ++ [.number t]) = some (.number (signed negative q)) := by
  cases negative <;> simp [signTokens, constant, h, signed]

theorem noComma_signed (negative : Bool) (t : Bytes) :
    Token.self 44 ∉ signTokens negative ++ [.number t] := by
  cases negative <;> simp [signTokens]

theorem signed_ne_nil (negative : Bool) (t : Bytes) : signTokens negative ++ [.number t] ≠ [] :=
  List.append_ne_nil_of_right_ne_nil _ (List.cons_ne_nil _ _)

theorem literal_integer (negative : Bool) (t : Bytes) (ht : t ≠ []) (h : ∀ b ∈ t, isDigit b = true) :
    Literal (signBytes negative ++ t) (signTokens negative ++ [.number t])
      (.number (signed negative (readDigits t))) where
  lexes d hd hne := by
    have hlex := @lexes_integer true negative t d ht h hd
    rw [delimiterTokens_of_ne hne] at hlex
    simpa using hlex
  reads := constant_signed negative t _ (numberValue_digits t ht h)
  nonempty := signed_ne_nil negative t
  noComma := noComma_signed negative t

theorem literal_decimal (negative : Bool) (a f : Bytes) (ha : a ≠ []) (had : ∀ b ∈ a, isDigit b = true)
    (hf : ∀ b ∈ f, isDigit b = true) :
    Literal (signBytes negative ++ (a ++ 46 :: f)) (signTokens negative ++ [.number (a ++ 46 :: f)])
      (.number (signed negative (readDigits (a ++ f) / 10 ^ f.length))) where
  lexes d hd hne := by
    have hlex := @lexes_decimal true negative a f d ha had hf hd
    rw [delimiterTokens_of_ne hne] at hlex
    simpa using hlex
  reads := constant_signed negative _ _ (numberValue_decimal a f ha had hf)
  nonempty := signed_ne_nil negative _
  noComma := noComma_signed negative _

theorem literal_string (s : Bytes) :
    Literal ([39] ++ doubleQuotes s ++ [39]) [.string .plain (doubleQuotes s)] (.string s) where
  lexes d hd hne := by
    have hlex := lexes_string s d hd hne
    rw [delimiterTokens_of_ne hne] at hlex
    exact hlex
  nonempty := List.cons_ne_nil _ _
  noComma := by simp
  reads := by simp only [constant, unquote_doubleQuotes]

theorem literal_intText (v : ℤ) :
    Literal (intText v) (signTokens (v < 0) ++ [.number (decimal v.natAbs)]) (.number v) := by
  have hlit := literal_integer (v < 0) (decimal v.natAbs) (decimal_ne_nil _) (decimal_isDigit _)
  have htext : signBytes (v < 0) ++ decimal v.natAbs = intText v := by
    by_cases hv : v < 0 <;> simp [signBytes, intText, hv]
  have hvalue : signed (v < 0) (readDigits (decimal v.natAbs)) = v := by
    rw [readDigits_decimal, Nat.cast_natAbs]
    by_cases hv : v < 0
    · simp [signed, hv, abs_of_neg hv]
    · simp [signed, hv, abs_of_nonneg (not_lt.mp hv)]
  rwa [htext, hvalue] at hlit

/-! ### Lists -/

theorem mapM_cons_some {α β : Type} {f : α → Option β} {x : α} {xs : List α} {ys : List β} :
    (x :: xs).mapM f = some ys ↔ ∃ y zs, f x = some y ∧ xs.mapM f = some zs ∧ ys = y :: zs := by
  simp only [List.mapM_cons, Option.bind_eq_bind, Option.bind_eq_some_iff, Option.pure_def, Option.some.injEq]
  constructor
  · intro h
    obtain ⟨y, hy, zs, hzs, rfl⟩ := h
    exact ⟨y, zs, hy, hzs, rfl⟩
  · intro hall
    obtain ⟨y, zs, hy, hzs, rfl⟩ := hall
    exact ⟨y, hy, zs, hzs, rfl⟩

theorem mem_of_mapM_some {α β : Type} {f : α → Option β} {xs : List α} {ys : List β} (h : xs.mapM f = some ys) :
    ∀ y ∈ ys, ∃ x ∈ xs, f x = some y := by
  induction xs generalizing ys with
  | nil =>
    cases h
    intro y hy
    cases hy
  | cons x rest ih =>
    obtain ⟨y, zs, hy, hzs, rfl⟩ := mapM_cons_some.mp h
    intro z hz
    rcases List.mem_cons.mp hz with rfl | hz
    · exact ⟨x, List.mem_cons_self .., hy⟩
    · obtain ⟨u, hu, hz⟩ := ih hzs z hz
      exact ⟨u, List.mem_cons_of_mem _ hu, hz⟩

theorem mapM_none {α β : Type} {f : α → Option β} {x : α} {xs : List α} (hx : x ∈ xs) (hf : f x = none) :
    xs.mapM f = none := by
  induction xs with
  | nil => cases hx
  | cons y rest ih =>
    rw [List.mapM_cons]
    rcases List.mem_cons.mp hx with rfl | hx
    · rw [hf]
      rfl
    · rw [ih hx]
      cases f y <;> rfl

theorem exists_of_mapM_none {α β : Type} {f : α → Option β} {xs : List α} (h : xs.mapM f = none) :
    ∃ x ∈ xs, f x = none := by
  induction xs with
  | nil => cases h
  | cons x rest ih =>
    rw [List.mapM_cons] at h
    cases hx : f x with
    | none => exact ⟨x, List.mem_cons_self .., hx⟩
    | some y =>
      cases hrest : rest.mapM f with
      | none =>
        obtain ⟨z, hz, hf⟩ := ih hrest
        exact ⟨z, List.mem_cons_of_mem _ hz, hf⟩
      | some ys =>
        rw [hx, hrest] at h
        cases h

theorem length_of_mapM_some {α β : Type} {f : α → Option β} {xs : List α} {ys : List β} (h : xs.mapM f = some ys) :
    ys.length = xs.length := by
  induction xs generalizing ys with
  | nil => cases h; rfl
  | cons x rest ih =>
    obtain ⟨y, zs, -, hzs, rfl⟩ := mapM_cons_some.mp h
    rw [List.length_cons, List.length_cons, ih hzs]

theorem mapM_map_some {α β γ : Type} {f : β → Option γ} {g : α → β} {value : α → γ} (xs : List α)
    (h : ∀ x ∈ xs, f (g x) = some (value x)) : (xs.map g).mapM f = some (xs.map value) := by
  induction xs with
  | nil => rfl
  | cons x rest ih =>
    have hrest := ih fun y hy => h y (List.mem_cons_of_mem _ hy)
    rw [List.map_cons, List.mapM_cons, h x (List.mem_cons_self ..), hrest]
    rfl

theorem commaList_intercalate {β : Type} (part : List Token → Option β) {items : List (List Token)}
    (h : ∀ item ∈ items, item ≠ [] ∧ .self 44 ∉ item) :
    commaList part ([.self 44].intercalate items) = items.mapM part := by
  cases items with
  | nil => rfl
  | cons item rest =>
    have hnil : [Token.self 44].intercalate (item :: rest) ≠ [] := by
      cases rest with
      | nil => simpa using (h item (List.mem_cons_self ..)).1
      | cons next rest => simp [List.intercalate_cons_cons]
    have hcomma : ∀ l ∈ item :: rest, Token.self 44 ∉ l := fun l hl => (h l hl).2
    simp only [commaList, hnil, if_false, List.splitOn_intercalate _ hcomma (by simp)]

section
variable {α : Type} {text : α → Bytes} {tokens : α → List Token}

theorem lexes_list (xs : List α) (h : ∀ x ∈ xs, ListItem (text x) (tokens x)) :
    Lexes true ((ascii ", ").intercalate (xs.map text) ++ [41])
      ([.self 44].intercalate (xs.map tokens) ++ [.self 41]) := by
  induction xs with
  | nil => exact lexes_delimiter 41 (by decide)
  | cons x rest ih =>
    cases rest with
    | nil => simpa using (h x (List.mem_cons_self ..)).lexes 41 (by decide) (by decide)
    | cons y rest =>
      have hx := (h x (List.mem_cons_self ..)).lexes 44 (by decide) (by decide)
      have hrest := ih fun z hz => h z (List.mem_cons_of_mem _ hz)
      have hall := lexes_append hx (lexes_append (@lexes_delimiter true 32 (by decide)) hrest)
      simp only [List.map_cons, List.intercalate_cons_cons] at hall ⊢
      simpa [ascii, delimiterTokens] using hall

theorem commaList_items {β : Type} (part : List Token → Option β) (xs : List α)
    (h : ∀ x ∈ xs, ListItem (text x) (tokens x)) :
    commaList part ([.self 44].intercalate (xs.map tokens)) = (xs.map tokens).mapM part := by
  refine commaList_intercalate part fun item hitem => ?_
  obtain ⟨x, hx, rfl⟩ := List.mem_map.mp hitem
  exact ⟨(h x hx).nonempty, (h x hx).noComma⟩

theorem valueList_literals {value : α → Constant} (xs : List α)
    (h : ∀ x ∈ xs, Literal (text x) (tokens x) (value x)) :
    valueList ([.self 44].intercalate (xs.map tokens)) = some (xs.map value) :=
  (commaList_items constant xs fun x hx => (h x hx).toListItem).trans (mapM_map_some xs fun x hx => (h x hx).reads)

end

/-! ### Tokens without what they hold -/

/-- The tokens with every integer, its sign included, and every plain string constant blanked. -/
def blanked : List Token → List Token
  | .op s :: .number t :: rest =>
    if (s = [45] ∨ s = [43]) ∧ t.all isDigit then .number [] :: blanked rest
    else .op s :: blanked (.number t :: rest)
  | .number t :: rest => (if t.all isDigit then .number [] else .number t) :: blanked rest
  | .string .plain _ :: rest => .string .plain [] :: blanked rest
  | t :: rest => t :: blanked rest
  | [] => []

theorem blanked_append_self (a c : List Token) (b : Byte) :
    blanked (a ++ .self b :: c) = blanked a ++ .self b :: blanked c := by
  fun_induction blanked a with
  | case1 s t rest hs ih => simp only [List.cons_append, blanked, hs, and_self, if_true, ih]
  | case2 s t rest hs ih => simp only [List.cons_append, blanked, hs, if_false] at ih ⊢; rw [ih]
  | case3 t rest ih => simp only [List.cons_append, blanked, ih]
  | case4 text rest ih => simp only [List.cons_append, blanked, ih]
  | case5 t rest hop hnumber hstring ih =>
    have hop' (s t' : Bytes) (rest' : List Token) (ht : t = .op s) :
        rest ++ .self b :: c ≠ .number t' :: rest' := by
      cases rest with
      | nil => simp
      | cons r rest =>
        intro hcons
        exact hop s t' rest ht (congrArg (· :: rest) (List.cons.inj hcons).1)
    rw [List.cons_append, blanked, ih, List.cons_append]
    · exact hop'
    · exact hnumber
    · exact hstring
  | case6 => simp only [List.nil_append, blanked]

end Postgres
