import ZigPsql.Lib.Text
import Mathlib.Data.List.Nodup
import Mathlib.Data.List.Perm.Subperm
import Mathlib.Algebra.Order.BigOperators.Group.List

/-!
# The keyword/value connection strings of libpq (conninfo_parse)

Blanks may stand before a keyword and on both sides of its equals sign. A value
runs to the next blank, or between single quotes; a backslash takes the byte
after it as it is. A setting is a keyword with its value; of two settings for
one keyword the later counts. Whether a keyword is known is not asked here.
-/

namespace Libpq
open Text

abbrev Setting := Bytes × Bytes

/-- isspace -/
def isSpace (b : Byte) : Bool := b = 32 || (9 ≤ b && b ≤ 13)

def skipSpace (t : Bytes) : Bytes := t.dropWhile isSpace

def isKeywordByte (b : Byte) : Bool := b != 61 && !isSpace b

def readKeyword (t : Bytes) : Option (Bytes × Bytes) :=
  match skipSpace (t.dropWhile isKeywordByte) with
  | [] => none
  | b :: rest => if b = 61 then some (t.takeWhile isKeywordByte, rest) else none

/-- A value without quotes, and what follows the blank that ends it; whether a backslash was last. -/
def readPlain : Bool → Bytes → Bytes × Bytes
  | _, [] => ([], [])
  | true, b :: rest => (readPlain false rest).map (b :: ·) id
  | false, b :: rest =>
    if isSpace b then ([], rest)
    else if b = 92 then readPlain true rest
    else (readPlain false rest).map (b :: ·) id

def readQuoted : Bool → Bytes → Option (Bytes × Bytes)
  | _, [] => none
  | true, b :: rest => (readQuoted false rest).map fun r => (b :: r.1, r.2)
  | false, b :: rest =>
    if b = 92 then readQuoted true rest
    else if b = 39 then some ([], rest)
    else (readQuoted false rest).map fun r => (b :: r.1, r.2)

def readValue (t : Bytes) : Option (Bytes × Bytes) :=
  match skipSpace t with
  | [] => some ([], [])
  | b :: rest => if b = 39 then readQuoted false rest else some (readPlain false (b :: rest))

/-- Every setting takes a byte at least, so that as many rounds as there are bytes are enough. -/
def parseFrom : ℕ → Bytes → Option (List Setting)
  | 0, t => if skipSpace t = [] then some [] else none
  | fuel + 1, t =>
    if skipSpace t = [] then some []
    else do
      let (keyword, afterKeyword) ← readKeyword (skipSpace t)
      let (value, afterValue) ← readValue afterKeyword
      let settings ← parseFrom fuel afterValue
      return (keyword, value) :: settings

def parseConninfo (t : Bytes) : Option (List Setting) := parseFrom t.length t

def lastValue (settings : List Setting) (keyword : Bytes) : Option Bytes :=
  (settings.reverse.find? fun s => s.1 = keyword).map Prod.snd

example : parseConninfo (ascii "host = a\\ b  user='it\\'s' user=c") =
    some [(ascii "host", ascii "a b"), (ascii "user", ascii "it's"), (ascii "user", ascii "c")] := by decide +kernel

/-! ### What a round consumes -/

theorem skipSpace_length_le (t : Bytes) : (skipSpace t).length ≤ t.length :=
  (List.dropWhile_sublist isSpace).length_le

theorem readKeyword_length {t keyword rest : Bytes} (h : readKeyword t = some (keyword, rest)) :
    keyword.length + 1 + rest.length ≤ t.length := by
  have hsplit := congrArg List.length (List.takeWhile_append_dropWhile (p := isKeywordByte) (l := t))
  have hskip := skipSpace_length_le (t.dropWhile isKeywordByte)
  rw [List.length_append] at hsplit
  unfold readKeyword at h
  split at h
  next => cases h
  next b rest' hs =>
    split at h
    · cases h
      rw [hs, List.length_cons] at hskip
      omega
    · cases h

/-- Either the byte that ends the value is consumed as well, or nothing is left. -/
theorem readPlain_length (escape : Bool) (t : Bytes) :
    (readPlain escape t).1.length + 1 + (readPlain escape t).2.length ≤ t.length ∨
      (readPlain escape t).2 = [] ∧ (readPlain escape t).1.length ≤ t.length := by
  fun_induction readPlain escape t with
  | case1 => exact .inr ⟨rfl, le_rfl⟩
  | case2 b rest ih =>
    simp only [Prod.map_fst, Prod.map_snd, List.length_cons, id_eq]
    rcases ih with h | ⟨h, h'⟩
    · exact .inl (by omega)
    · exact .inr ⟨h, by omega⟩
  | case3 b rest hb => exact .inl (by simp; omega)
  | case4 rest hb ih =>
    rw [List.length_cons]
    rcases ih with h | ⟨h, h'⟩
    · exact .inl (by omega)
    · exact .inr ⟨h, by omega⟩
  | case5 b rest hb hb' ih =>
    simp only [Prod.map_fst, Prod.map_snd, List.length_cons, id_eq]
    rcases ih with h | ⟨h, h'⟩
    · exact .inl (by omega)
    · exact .inr ⟨h, by omega⟩

theorem readQuoted_length {escape : Bool} {t value rest : Bytes} (h : readQuoted escape t = some (value, rest)) :
    value.length + 1 + rest.length ≤ t.length := by
  fun_induction readQuoted escape t generalizing value with
  | case1 => cases h
  | case2 b rest' ih =>
    obtain ⟨r, hr, he⟩ := Option.map_eq_some_iff.mp h
    cases he
    have hlen := ih hr
    simp only [List.length_cons]
    omega
  | case3 rest' ih =>
    have hlen := ih h
    rw [List.length_cons]
    omega
  | case4 rest' hb =>
    cases h
    simp only [List.length_cons, List.length_nil]
    omega
  | case5 b rest' hb hb' ih =>
    obtain ⟨r, hr, he⟩ := Option.map_eq_some_iff.mp h
    cases he
    have hlen := ih hr
    simp only [List.length_cons]
    omega

theorem readValue_length {t value rest : Bytes} (h : readValue t = some (value, rest)) :
    value.length + 1 + rest.length ≤ t.length ∨ rest = [] ∧ value.length ≤ t.length := by
  have hskip := skipSpace_length_le t
  unfold readValue at h
  split at h
  next =>
    cases h
    exact .inr ⟨rfl, Nat.zero_le _⟩
  next b rest' hs =>
    rw [hs] at hskip
    split at h
    · have hlen := readQuoted_length h
      rw [List.length_cons] at hskip
      exact .inl (by omega)
    · have hplain := readPlain_length false (b :: rest')
      rw [Option.some.inj h] at hplain
      rcases hplain with hlen | ⟨hnil, hlen⟩
      · exact .inl (hlen.trans hskip)
      · exact .inr ⟨hnil, hlen.trans hskip⟩

def weight (s : Setting) : ℕ := s.1.length + s.2.length + 2

theorem setting_shorter {t keyword afterKeyword value afterValue : Bytes}
    (hk : readKeyword (skipSpace t) = some (keyword, afterKeyword))
    (hv : readValue afterKeyword = some (value, afterValue)) : afterValue.length < t.length := by
  have hkeyword := readKeyword_length hk
  have hskip := skipSpace_length_le t
  rcases readValue_length hv with hlen | ⟨rfl, hlen⟩
  · omega
  · rw [List.length_nil]
    omega

theorem parseFrom_enough {fuel fuel' : ℕ} {t : Bytes} (hf : t.length ≤ fuel) (hf' : t.length ≤ fuel') :
    parseFrom fuel t = parseFrom fuel' t := by
  have hnil (n : ℕ) : parseFrom n [] = some [] := by cases n <;> rfl
  induction fuel generalizing fuel' t with
  | zero => rw [List.length_eq_zero_iff.mp (Nat.le_zero.mp hf), hnil, hnil]
  | succ n ih =>
    cases fuel' with
    | zero => rw [List.length_eq_zero_iff.mp (Nat.le_zero.mp hf'), hnil, hnil]
    | succ m =>
      by_cases ht : skipSpace t = []
      · simp only [parseFrom, ht, if_true]
      · simp only [parseFrom, ht, if_false, Option.bind_eq_bind]
        refine Option.bind_congr fun r hr => Option.bind_congr fun u hu => ?_
        have hshort := setting_shorter hr hu
        rw [ih (by omega) (show u.2.length ≤ m by omega)]

theorem parseConninfo_blank {t : Bytes} (ht : skipSpace t = []) : parseConninfo t = some [] := by
  unfold parseConninfo
  cases t.length <;> simp [parseFrom, ht]

/-- One round: nothing but blanks, or a setting and the rounds after it. -/
theorem parseConninfo_eq_some {t : Bytes} {settings : List Setting} :
    parseConninfo t = some settings ↔ (skipSpace t = [] ∧ settings = []) ∨
      ∃ keyword afterKeyword value afterValue rest, readKeyword (skipSpace t) = some (keyword, afterKeyword) ∧
        readValue afterKeyword = some (value, afterValue) ∧ parseConninfo afterValue = some rest ∧
        settings = (keyword, value) :: rest := by
  by_cases ht : skipSpace t = []
  · rw [parseConninfo_blank ht, ht]
    constructor
    · intro hnil
      cases hnil
      exact .inl ⟨rfl, rfl⟩
    · intro hround
      rcases hround with ⟨-, rfl⟩ | ⟨keyword, afterKeyword, value, afterValue, rest, hk, -⟩
      · rfl
      · cases hk
  · have hstep : parseConninfo t = (readKeyword (skipSpace t)).bind fun r => (readValue r.2).bind fun u =>
        (parseConninfo u.2).bind fun rest => some ((r.1, u.1) :: rest) := by
      have hpos : 0 < t.length := List.length_pos_iff.mpr fun h => ht (by rw [h]; rfl)
      obtain ⟨n, hn⟩ := Nat.exists_eq_succ_of_ne_zero hpos.ne'
      rw [parseConninfo, hn]
      simp only [parseFrom, ht, if_false, Option.bind_eq_bind]
      refine Option.bind_congr fun r hr => Option.bind_congr fun u hu => ?_
      have hshort := setting_shorter hr hu
      rw [parseConninfo, parseFrom_enough (show u.2.length ≤ n by omega) le_rfl]
      rfl
    simp only [hstep, Option.bind_eq_some_iff, ht, false_and, false_or]
    constructor
    · intro hround
      obtain ⟨r, hr, u, hu, rest, hrest, ⟨⟩⟩ := hround
      exact ⟨r.1, r.2, u.1, u.2, rest, hr, hu, hrest, rfl⟩
    · rintro ⟨keyword, afterKeyword, value, afterValue, rest, hk, hv, hrest, rfl⟩
      exact ⟨(keyword, afterKeyword), hk, (value, afterValue), hv, rest, hrest, rfl⟩

/-- No text has settings for more than its length; the last of them needs no blank after it. -/
theorem parseConninfo_weight {t : Bytes} {settings : List Setting} (h : parseConninfo t = some settings) :
    (settings.map weight).sum ≤ t.length + 1 := by
  induction hn : t.length using Nat.strong_induction_on generalizing t settings with
  | _ n ih =>
    subst hn
    rcases parseConninfo_eq_some.mp h with ⟨-, rfl⟩ | ⟨keyword, afterKeyword, value, afterValue, rest, hk, hv, hr, rfl⟩
    · exact Nat.zero_le _
    · have hkeyword := readKeyword_length hk
      have hskip := skipSpace_length_le t
      have hrest := ih afterValue.length (setting_shorter hk hv) hr rfl
      rw [List.map_cons, List.sum_cons, weight]
      rcases readValue_length hv with hlen | ⟨rfl, hlen⟩
      · dsimp only
        omega
      · rw [parseConninfo_blank rfl] at hr
        cases hr
        simp only [List.map_nil, List.sum_nil]
        omega

/-! ### Values that read back -/

def unescaped (v : Bytes) : Bool := v.all fun b => !isSpace b && b != 92

/-- A value that needs no quotes and no backslashes. -/
def plainValue (v : Bytes) : Bool := v ≠ [] && v.head? ≠ some 39 && unescaped v

theorem readPlain_unescaped {v : Bytes} (hv : unescaped v = true) (rest : Bytes) :
    readPlain false (v ++ 32 :: rest) = (v, rest) ∧ readPlain false v = (v, []) := by
  induction v with
  | nil => exact ⟨rfl, rfl⟩
  | cons b v ih =>
    simp only [unescaped, List.all_cons, Bool.and_eq_true, Bool.not_eq_true', bne_iff_ne] at hv
    obtain ⟨⟨hspace, hslash⟩, hv⟩ := hv
    obtain ⟨hmid, hend⟩ := ih hv
    have hspace' : ¬ isSpace b = true := by simp [hspace]
    constructor
    · rw [List.cons_append, readPlain, if_neg hspace', if_neg hslash, hmid]
      rfl
    · rw [readPlain, if_neg hspace', if_neg hslash, hend]
      rfl

/-- A value without quotes that takes up no more than its own length has no blank and no backslash. -/
theorem readPlain_tight {t value rest : Bytes} (h : readPlain false t = (value, rest)) (hrest : rest ≠ [])
    (hlen : t.length ≤ value.length + 1 + rest.length) :
    unescaped value = true ∧ ∃ b, t = value ++ b :: rest := by
  induction t generalizing value with
  | nil =>
    cases h
    exact absurd rfl hrest
  | cons b t ih =>
    rw [readPlain] at h
    split at h
    · cases h
      exact ⟨rfl, b, rfl⟩
    next hb =>
      split at h
      next hslash =>
        -- the backslash takes up a byte and gives none
        have hescape := readPlain_length true t
        rw [h] at hescape
        rw [List.length_cons] at hlen
        dsimp only at hescape
        rcases hescape with hle | ⟨hnil, -⟩
        · omega
        · exact absurd hnil hrest
      next hslash =>
        obtain ⟨value', rest', hread⟩ : ∃ v r, readPlain false t = (v, r) := ⟨_, _, rfl⟩
        rw [hread] at h
        cases h
        rw [List.length_cons, List.length_cons] at hlen
        obtain ⟨hv, c, hc⟩ := ih hread (by omega)
        refine ⟨?_, c, by rw [hc, List.cons_append]⟩
        simp only [unescaped, List.all_cons, Bool.and_eq_true, Bool.not_eq_true', bne_iff_ne]
        exact ⟨⟨by simpa using hb, hslash⟩, hv⟩

theorem skipSpace_cons {t : Bytes} {b : Byte} {rest : Bytes} (h : skipSpace t = b :: rest) : isSpace b = false := by
  have hhead := List.head?_dropWhile_not isSpace t
  rw [show t.dropWhile isSpace = b :: rest from h] at hhead
  simpa using hhead

theorem skipSpace_of_head {b : Byte} (hb : isSpace b = false) (rest : Bytes) : skipSpace (b :: rest) = b :: rest :=
  List.dropWhile_cons_of_neg (by simp [hb])

/-- A value that is read as it was written, with all of the text after its blank left, is plain. -/
theorem readValue_tight {v t rest : Bytes} (h : readValue (v ++ 32 :: t) = some (v, rest)) (ht : t ≠ [])
    (hlen : t.length ≤ rest.length) : plainValue v = true ∧ rest = t := by
  have hpos : 0 < t.length := List.length_pos_iff.mpr ht
  have hrest : rest ≠ [] := List.length_pos_iff.mp (by omega)
  have htotal : (v ++ 32 :: t).length = v.length + 1 + t.length := by simp; omega
  have hskip := skipSpace_length_le (v ++ 32 :: t)
  unfold readValue at h
  split at h
  next =>
    cases h
    exact absurd rfl hrest
  next b rest' hs =>
    rw [hs, htotal] at hskip
    split at h
    · have hquoted := readQuoted_length h
      rw [List.length_cons] at hskip
      omega
    next hquote =>
      obtain ⟨hv, c, hc⟩ := readPlain_tight (Option.some.inj h) hrest (by omega)
      have hwhole : b :: rest' = v ++ 32 :: t := by
        rw [← hs]
        apply (List.dropWhile_suffix isSpace).eq_of_length
        rw [show (v ++ 32 :: t).dropWhile isSpace = v ++ c :: rest from hs.trans hc, htotal]
        simp only [List.length_append, List.length_cons]
        have hle := congrArg List.length hc
        simp only [List.length_append, List.length_cons] at hle hskip
        omega
      have hspace := skipSpace_cons hs
      have htail : 32 :: t = c :: rest := List.append_cancel_left (hwhole.symm.trans hc)
      refine ⟨?_, (List.cons.inj htail).2.symm⟩
      cases v with
      | nil =>
        rw [(List.cons.inj hwhole).1] at hspace
        cases hspace
      | cons b' v =>
        rw [(List.cons.inj hwhole).1] at hquote
        simpa [plainValue, hv] using hquote

theorem readKeyword_of_keyword {k : Bytes} (hk : k.all isKeywordByte = true) (t : Bytes) :
    readKeyword (k ++ 61 :: t) = some (k, t) := by
  have hall := List.all_eq_true.mp hk
  have hdrop : (k ++ 61 :: t).dropWhile isKeywordByte = 61 :: t := by
    rw [List.dropWhile_append_of_pos hall, List.dropWhile_cons_of_neg (by decide)]
  have htake : (k ++ 61 :: t).takeWhile isKeywordByte = k := by
    rw [List.takeWhile_append_of_pos hall, List.takeWhile_cons_of_neg (by decide), List.append_nil]
  rw [readKeyword, hdrop, htake, skipSpace_of_head rfl]
  rfl

/-! ### Texts of settings -/

/-- The settings as they are written without quotes. -/
def settingsText : List Setting → Bytes
  | [] => []
  | [s] => s.1 ++ 61 :: s.2
  | s :: rest => s.1 ++ 61 :: (s.2 ++ 32 :: settingsText rest)

def isKeyword (k : Bytes) : Bool := k ≠ [] && k.all isKeywordByte

theorem skipSpace_keyword {k : Bytes} (hk : isKeyword k = true) (t : Bytes) : skipSpace (k ++ t) = k ++ t := by
  cases k with
  | nil => cases hk
  | cons b k =>
    simp only [isKeyword, List.all_cons, isKeywordByte, Bool.and_eq_true, Bool.not_eq_true'] at hk
    exact skipSpace_of_head hk.2.1.2 _

theorem settingsText_ne_nil {s : Setting} {rest : List Setting} : settingsText (s :: rest) ≠ [] := by
  cases rest <;> simp [settingsText]

theorem settingsText_weight (s : Setting) (rest : List Setting) :
    ((s :: rest).map weight).sum = (settingsText (s :: rest)).length + 1 := by
  induction rest generalizing s with
  | nil =>
    simp [settingsText, weight]
    omega
  | cons u rest ih =>
    rw [List.map_cons, List.sum_cons, ih u]
    simp only [settingsText, weight, List.length_append, List.length_cons]
    omega

theorem readValue_plain {v : Bytes} (hv : plainValue v = true) (rest : Bytes) :
    readValue (v ++ 32 :: rest) = some (v, rest) ∧ readValue v = some (v, []) := by
  simp only [plainValue, Bool.and_eq_true, decide_eq_true_eq] at hv
  obtain ⟨⟨hne, hquote⟩, hplain⟩ := hv
  have hread := readPlain_unescaped hplain rest
  cases v with
  | nil => exact absurd rfl hne
  | cons b v =>
    have hb : isSpace b = false := by
      simp only [unescaped, List.all_cons, Bool.and_eq_true, Bool.not_eq_true'] at hplain
      exact hplain.1.1
    have hb' : b ≠ 39 := fun h => hquote (by rw [h]; rfl)
    constructor
    · rw [readValue, List.cons_append, skipSpace_of_head hb]
      simp only [hb', if_false]
      exact congrArg some hread.1
    · rw [readValue, skipSpace_of_head hb]
      simp only [hb', if_false]
      exact congrArg some hread.2

theorem parse_settingsText (settings : List Setting)
    (hs : ∀ s ∈ settings, isKeyword s.1 = true ∧ plainValue s.2 = true) :
    parseConninfo (settingsText settings) = some settings := by
  induction settings with
  | nil => rfl
  | cons s rest ih =>
    obtain ⟨hk, hv⟩ := hs s (List.mem_cons_self ..)
    have hbytes : s.1.all isKeywordByte = true := by
      simp only [isKeyword, Bool.and_eq_true] at hk
      exact hk.2
    rw [parseConninfo_eq_some]
    right
    cases rest with
    | nil =>
      refine ⟨s.1, s.2, s.2, [], [], ?_, (readValue_plain hv []).2, rfl, rfl⟩
      rw [settingsText, skipSpace_keyword hk, readKeyword_of_keyword hbytes]
    | cons u rest =>
      refine ⟨s.1, _, s.2, _, u :: rest, ?_, (readValue_plain hv _).1,
        ih fun x hx => hs x (List.mem_cons_of_mem _ hx), rfl⟩
      rw [settingsText, skipSpace_keyword hk, readKeyword_of_keyword hbytes]
      simp

/-! ### Values of keywords -/

theorem mem_of_lastValue {settings : List Setting} {keyword value : Bytes}
    (h : lastValue settings keyword = some value) : (keyword, value) ∈ settings := by
  obtain ⟨s, hs, rfl⟩ := Option.map_eq_some_iff.mp h
  have hkeyword := List.find?_some hs
  rw [decide_eq_true_eq] at hkeyword
  subst hkeyword
  exact List.mem_reverse.mp (List.mem_of_find?_eq_some hs)

theorem lastValue_of_mem {settings : List Setting} (hdistinct : (settings.map Prod.fst).Nodup) {s : Setting}
    (hs : s ∈ settings) : lastValue settings s.1 = some s.2 := by
  have hfound : ((settings.reverse.find? fun u => u.1 = s.1)).isSome := by
    rw [List.find?_isSome]
    exact ⟨s, List.mem_reverse.mpr hs, decide_eq_true rfl⟩
  obtain ⟨u, hu⟩ := Option.isSome_iff_exists.mp hfound
  have hkeyword := List.find?_some hu
  rw [decide_eq_true_eq] at hkeyword
  have hsame := List.inj_on_of_nodup_map hdistinct (List.mem_reverse.mp (List.mem_of_find?_eq_some hu)) hs hkeyword
  rw [lastValue, hu, hsame]
  rfl

/-! ### Settings that read back -/

theorem weight_le_of_subset {l settings : List Setting} (hl : l.Nodup) (hsub : l ⊆ settings) :
    (l.map weight).sum ≤ (settings.map weight).sum := by
  obtain ⟨l', hperm, hsublist⟩ := List.subperm_of_subset hl hsub
  rw [← (hperm.map weight).sum_eq]
  exact (hsublist.map weight).sum_le_sum fun _ _ => Nat.zero_le _

/-- Where all settings are found again, every value but the last was plain. -/
theorem plain_of_parse_settingsText (fields : List Setting) (hk : ∀ s ∈ fields, isKeyword s.1 = true)
    (hdistinct : (fields.map Prod.fst).Nodup) {settings : List Setting}
    (hparse : parseConninfo (settingsText fields) = some settings) (hsub : fields ⊆ settings) :
    ∀ s ∈ fields.dropLast, plainValue s.2 = true := by
  induction fields generalizing settings with
  | nil => simp
  | cons s rest ih =>
    cases rest with
    | nil => simp
    | cons u rest =>
      have hpairwise : s.1 ∉ (u :: rest).map Prod.fst ∧ ((u :: rest).map Prod.fst).Nodup := List.nodup_cons.mp hdistinct
      have hnodup : (s :: u :: rest).Nodup := List.Nodup.of_map Prod.fst hdistinct
      have htotal := settingsText_weight s (u :: rest)
      have hle := parseConninfo_weight hparse
      have hkeyword := hk s (List.mem_cons_self ..)
      rcases parseConninfo_eq_some.mp hparse with ⟨-, rfl⟩ | ⟨keyword, afterKeyword, value, afterValue, rest', hread,
        hvalue, hrest, rfl⟩
      · exact absurd (hsub (List.mem_cons_self ..)) (List.not_mem_nil)
      have hbytes : s.1.all isKeywordByte = true := by
        simp only [isKeyword, Bool.and_eq_true] at hkeyword
        exact hkeyword.2
      rw [settingsText, skipSpace_keyword hkeyword, readKeyword_of_keyword hbytes] at hread
      · cases hread
        -- a first value other than the field's would be one setting too many
        have hfirst : value = s.2 := by
          by_contra hne
          have hnew : (s.1, value) ∉ s :: u :: rest := by
            rw [List.mem_cons, not_or]
            exact ⟨fun h => hne (congrArg Prod.snd h), fun h => hpairwise.1 (List.mem_map.mpr ⟨_, h, rfl⟩)⟩
          have hmore := weight_le_of_subset (List.nodup_cons.mpr ⟨hnew, hnodup⟩)
            (List.cons_subset.mpr ⟨List.mem_cons_self .., hsub⟩)
          rw [List.map_cons, List.sum_cons, htotal, weight] at hmore
          omega
        subst hfirst
        have hsub' : u :: rest ⊆ rest' := by
          intro x hx
          rcases List.mem_cons.mp (hsub (List.mem_cons_of_mem _ hx)) with rfl | h
          · exact absurd (List.mem_map.mpr ⟨_, hx, rfl⟩) hpairwise.1
          · exact h
        have hfields := weight_le_of_subset (List.nodup_cons.mp hnodup).2 hsub'
        have hleft := parseConninfo_weight hrest
        rw [settingsText_weight u rest] at hfields
        obtain ⟨hplain, rfl⟩ := readValue_tight hvalue settingsText_ne_nil (by omega)
        have hall := ih (fun x hx => hk x (List.mem_cons_of_mem _ hx)) hpairwise.2 hrest hsub'
        rw [List.dropLast_cons_of_ne_nil (List.cons_ne_nil _ _), List.forall_mem_cons]
        exact ⟨hplain, hall⟩
      · simp

end Libpq
