import ZigPsql.Lib.Text
import ZigPsql.Lib.Scanner

/-!
# The lexical rules of PostgreSQL

A byte-wise scanner. A token that needs a look ahead is emitted when the byte
after it is read, so the mode says where in the text a prefix leaves off: at
`start`, the next byte begins a token or is blank. A quoted constant keeps its
text as written; a constant that may go on after a line break is kept open
until something else is read.
-/

namespace Postgres
open Text Scanner

def isBlank (b : Byte) : Bool := b = 32 || (9 ≤ b && b ≤ 13)
def isNewline (b : Byte) : Bool := b = 10 || b = 13
def isWordStart (b : Byte) : Bool :=
  (65 ≤ b && b ≤ 90) || (97 ≤ b && b ≤ 122) || b = 95 || 128 ≤ b
def isWordByte (b : Byte) : Bool := isWordStart b || isDigit b || b = 36
/-- The bytes ~ ! @ # ^ & | ` ? + - * / % < > = -/
def isOpByte (b : Byte) : Bool :=
  [126, 33, 64, 35, 94, 38, 124, 96, 63, 43, 45, 42, 47, 37, 60, 62, 61].contains b

def foldByte (b : Byte) : Byte := if 65 ≤ b && b ≤ 90 then b + 32 else b
def fold (t : Bytes) : Bytes := t.map foldByte

inductive QuoteKind where
  | plain | extended | unicode | bit | hex | dollar
  deriving DecidableEq, Repr

inductive Token where
  | word (name : Bytes)
  | quotedName (unicode : Bool) (name : Bytes)
  | number (text : Bytes)
  | string (kind : QuoteKind) (text : Bytes)
  | param (text : Bytes)
  | op (text : Bytes)
  | self (b : Byte)
  deriving DecidableEq, Repr

inductive Mode where
  | start
  | word (acc : Bytes)
  | unicodePrefix (acc : Bytes)
  | number (acc : Bytes)
  | dot
  | colon
  | op (acc : Bytes)
  | dollar (acc : Bytes)
  | param (acc : Bytes)
  | dollarQuote (tag acc : Bytes)
  | quote (kind : QuoteKind) (acc : Bytes)
  | quoteEscape (kind : QuoteKind) (acc : Bytes)
  | quoteEnd (kind : QuoteKind) (acc : Bytes)
  | quoteGap (kind : QuoteKind) (acc : Bytes) (newline : Bool)
  | quoteGapDash (kind : QuoteKind) (acc : Bytes)
  | quoteGapComment (kind : QuoteKind) (acc : Bytes)
  | name (unicode : Bool) (acc : Bytes)
  | nameEnd (unicode : Bool) (acc : Bytes)
  | lineComment
  | blockComment (depth : ℕ) (last : Byte)
  deriving DecidableEq, Repr

abbrev Step := Mode × List Token

def after (ts : List Token) (s : Step) : Step := (s.1, ts ++ s.2)

/-- How a plain quote begins: with standard_conforming_strings off a backslash escapes in it. -/
def plainKind (standard : Bool) : QuoteKind := if standard then .plain else .extended

def openToken (standard : Bool) (b : Byte) : Step :=
  if isBlank b then (.start, [])
  else if isWordStart b then (.word [b], [])
  else if isDigit b then (.number [b], [])
  else if b = 39 then (.quote (plainKind standard) [], [])
  else if b = 34 then (.name false [], [])
  else if b = 36 then (.dollar [], [])
  else if b = 46 then (.dot, [])
  else if b = 58 then (.colon, [])
  else if isOpByte b then (.op [b], [])
  else (.start, [.self b])

/-- An operator may end in + or - only if it has one of ~ ! @ # ^ & | ` ? % in it. -/
def mayEndInSign (t : Bytes) : Bool := t.any [126, 33, 64, 35, 94, 38, 124, 96, 63, 37].contains

def opTokens (t : Bytes) : List Token :=
  match t with
  | [] => []
  | b :: rest =>
    if mayEndInSign t then [.op t]
    else
      let signs := (rest.reverse.takeWhile fun c => c = 43 || c = 45).reverse
      .op (b :: rest.take (rest.length - signs.length)) :: signs.map fun c => .op [c]

def opStep (standard : Bool) (acc : Bytes) (b : Byte) : Step :=
  if b = 45 ∧ acc.getLast? = some 45 then (.lineComment, opTokens acc.dropLast)
  else if b = 42 ∧ acc.getLast? = some 47 then (.blockComment 0 0, opTokens acc.dropLast)
  else if isOpByte b then (.op (acc ++ [b]), [])
  else after (opTokens acc) (openToken standard b)

/-- A word just before a quote may be the prefix of a constant. -/
def quotePrefix (standard : Bool) (acc : Bytes) : Step :=
  if fold acc = ascii "e" then (.quote .extended [], [])
  else if fold acc = ascii "b" then (.quote .bit [], [])
  else if fold acc = ascii "x" then (.quote .hex [], [])
  else if fold acc = ascii "n" then (.quote (plainKind standard) [], [.word (ascii "nchar")])
  else (.quote (plainKind standard) [], [.word (fold acc)])

def wordStep (standard : Bool) (acc : Bytes) (b : Byte) : Step :=
  if isWordByte b then (.word (acc ++ [b]), [])
  else if b = 39 then quotePrefix standard acc
  else if b = 38 ∧ fold acc = ascii "u" then (.unicodePrefix acc, [])
  else after [.word (fold acc)] (openToken standard b)

/-- Digits, an exponent with its sign, a radix prefix or junk letters, and one point. -/
def numberGoesOn (acc : Bytes) (b : Byte) : Bool :=
  isWordStart b || isDigit b || (b = 46 && acc.all fun c => isDigit c || c = 95) ||
    ((b = 43 || b = 45) && (acc.getLast? = some 101 || acc.getLast? = some 69) &&
      acc.dropLast.all fun c => isDigit c || c = 95 || c = 46)

def numberStep (standard : Bool) (acc : Bytes) (b : Byte) : Step :=
  if numberGoesOn acc b then (.number (acc ++ [b]), [])
  else if b = 46 ∧ acc.getLast? = some 46 then (.start, [.number acc.dropLast, .op [46, 46]])
  else after [.number acc] (openToken standard b)

def dollarStep (standard : Bool) (acc : Bytes) (b : Byte) : Step :=
  if b = 36 then (.dollarQuote acc [], [])
  else if acc = [] ∧ isDigit b then (.param [b], [])
  else if isWordStart b ∨ (acc ≠ [] ∧ isDigit b) then (.dollar (acc ++ [b]), [])
  else if acc = [] then after [.self 36] (openToken standard b)
  else after [.self 36] (wordStep standard acc b)

def dollarQuoteStep (tag acc : Bytes) (b : Byte) : Step :=
  let delimiter := [36] ++ tag ++ [36]
  let acc' := acc ++ [b]
  if delimiter.isSuffixOf acc' then
    (.start, [.string .dollar (acc'.take (acc'.length - delimiter.length))])
  else (.dollarQuote tag acc', [])

/-- After the quote that ends a constant: blanks with a newline in them, then a quote, go on with it. -/
def gapStep (standard : Bool) (kind : QuoteKind) (acc : Bytes) (newline : Bool) (b : Byte) : Step :=
  if b = 39 ∧ newline then (.quote kind acc, [])
  else if isBlank b then (.quoteGap kind acc (newline || isNewline b), [])
  else if b = 45 then (.quoteGapDash kind acc, [])
  else after [.string kind acc] (openToken standard b)

def doubles : QuoteKind → Bool
  | .bit | .hex => false
  | _ => true

def step (standard : Bool) : Mode → Byte → Step
  | .start, b => openToken standard b
  | .word acc, b => wordStep standard acc b
  | .unicodePrefix acc, b =>
    if b = 39 then (.quote .unicode [], [])
    else if b = 34 then (.name true [], [])
    else after [.word (fold acc)] (opStep standard [38] b)
  | .number acc, b => numberStep standard acc b
  | .dot, b =>
    if isDigit b then (.number [46, b], [])
    else if b = 46 then (.start, [.op [46, 46]])
    else after [.self 46] (openToken standard b)
  | .colon, b =>
    if b = 58 ∨ b = 61 then (.start, [.op [58, b]])
    else after [.self 58] (openToken standard b)
  | .op acc, b => opStep standard acc b
  | .dollar acc, b => dollarStep standard acc b
  | .param acc, b =>
    if isWordStart b || isDigit b then (.param (acc ++ [b]), []) else after [.param acc] (openToken standard b)
  | .dollarQuote tag acc, b => dollarQuoteStep tag acc b
  | .quote kind acc, b =>
    if b = 39 then (.quoteEnd kind acc, [])
    else if b = 92 ∧ kind = .extended then (.quoteEscape kind (acc ++ [b]), [])
    else (.quote kind (acc ++ [b]), [])
  | .quoteEscape kind acc, b => (.quote kind (acc ++ [b]), [])
  | .quoteEnd kind acc, b =>
    if b = 39 ∧ doubles kind then (.quote kind (acc ++ [39, 39]), [])
    else gapStep standard kind acc false b
  | .quoteGap kind acc newline, b => gapStep standard kind acc newline b
  | .quoteGapDash kind acc, b =>
    if b = 45 then (.quoteGapComment kind acc, [])
    else after [.string kind acc] (opStep standard [45] b)
  | .quoteGapComment kind acc, b =>
    if isNewline b then (.quoteGap kind acc true, []) else (.quoteGapComment kind acc, [])
  | .name unicode acc, b => if b = 34 then (.nameEnd unicode acc, []) else (.name unicode (acc ++ [b]), [])
  | .nameEnd unicode acc, b =>
    if b = 34 then (.name unicode (acc ++ [34]), [])
    else after [.quotedName unicode acc] (openToken standard b)
  | .lineComment, b => if isNewline b then (.start, []) else (.lineComment, [])
  | .blockComment depth last, b =>
    if last = 42 ∧ b = 47 then
      if depth = 0 then (.start, []) else (.blockComment (depth - 1) 0, [])
    else if last = 47 ∧ b = 42 then (.blockComment (depth + 1) 0, [])
    else (.blockComment depth b, [])

/-- What the end of the text emits; `none` inside a quote, a quoted name or a block comment. -/
def finish : Mode → Option (List Token)
  | .start | .lineComment => some []
  | .word acc => some [.word (fold acc)]
  | .unicodePrefix acc => some [.word (fold acc), .op [38]]
  | .number acc => some [.number acc]
  | .dot => some [.self 46]
  | .colon => some [.self 58]
  | .op acc => some (opTokens acc)
  | .dollar [] => some [.self 36]
  | .dollar acc => some [.self 36, .word (fold acc)]
  | .param acc => some [.param acc]
  | .quoteEnd kind acc | .quoteGap kind acc _ | .quoteGapComment kind acc => some [.string kind acc]
  | .quoteGapDash kind acc => some [.string kind acc, .op [45]]
  | .nameEnd unicode acc => some [.quotedName unicode acc]
  | .dollarQuote _ _ | .quote _ _ | .quoteEscape _ _ | .name _ _ | .blockComment _ _ => none

def lex (standard : Bool) (text : Bytes) : Option (List Token) :=
  let (mode, ts) := scan (step standard) .start text
  (finish mode).map (ts ++ ·)

/-- The value of a plain constant: a doubled quote is one. -/
def unquote : Bytes → Bytes
  | 39 :: 39 :: rest => 39 :: unquote rest
  | b :: rest => b :: unquote rest
  | [] => []

example : lex true (ascii "a-5 /* /* x */ */ 'it''s' \n 'b'") =
    some [.word (ascii "a"), .op [45], .number [53], .string .plain (ascii "it''s" ++ ascii "b")] := by
  decide

end Postgres
