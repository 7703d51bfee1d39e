/-!
Texts. A text is a list of code points, so that a scan of a text is a recursion on a list. The
module has what every other one does with texts: code points and their classes, joining, splitting
and trimming, digits, and patterns with the cut of a text by a pattern. A pattern sees the text
before and behind a point. Substitution, search and the list of all matches are one run of it from
left to right, and the pieces of that run put together are the text (`Text.cut_text`).

Assumed: the classes of characters are those of one version of the character tables, written out
as ranges here and in `Text.Word`, `Text.Quoted` and `Text.Case`.
-/

namespace SclNarrator

/-! ## Code points

Code points, of which texts are made. All are characters but for the 2048 halves: a character beyond
the first 65536 can be written as two halves, and a text can hold one of them without the other. A half
has a number like a character, can be compared and quoted, belongs to no class and cannot be printed. -/

/-- A code point: a character or a half of one. -/
inductive CodePoint where
  | char (c : Char)
  | half (index : Fin 2048)
  deriving DecidableEq, Inhabited

namespace CodePoint

instance : Coe Char CodePoint := ⟨char⟩

def firstHalf : Nat := 0xd800

def toNat : CodePoint → Nat
  | char c => c.toNat
  | half index => firstHalf + index

/-- The code point of a number; the character zero for a number that is none. -/
def ofNat (n : Nat) : CodePoint :=
  if h : firstHalf ≤ n ∧ n - firstHalf < 2048 then half ⟨n - firstHalf, h.2⟩ else char (Char.ofNat n)

theorem toNat_char_lt_or (c : Char) : c.toNat < firstHalf ∨ firstHalf + 2048 ≤ c.toNat := by
  rcases c.valid with h | h
  · exact .inl h
  · exact .inr (by have := h.1; simp only [firstHalf, Char.toNat]; omega)

theorem ofNat_toNat (c : CodePoint) : ofNat c.toNat = c := by
  cases c with
  | char c =>
    have h := toNat_char_lt_or c
    have away : ¬(firstHalf ≤ c.toNat ∧ c.toNat - firstHalf < 2048) := by omega
    simp only [ofNat, toNat, dif_neg away, Char.ofNat_toNat]
  | half index =>
    have inside : firstHalf ≤ firstHalf + index ∧ firstHalf + index - firstHalf < 2048 := by omega
    simp only [ofNat, toNat, dif_pos inside, Nat.add_sub_cancel_left]

def isHalf : CodePoint → Bool
  | char _ => false
  | half _ => true

/-- Whether a code point is a character with a property. -/
def isCharWith (p : Char → Bool) : CodePoint → Bool
  | char c => p c
  | half _ => false

/-- Whether a code point is a digit from `0` to `9`. -/
def isDigit : CodePoint → Bool := isCharWith Char.isDigit

/-- Whether a code point is a capital letter from `A` to `Z`. -/
def isUpper : CodePoint → Bool := isCharWith Char.isUpper

/-- Whether a code point is a small letter from `a` to `z`. -/
def isLower : CodePoint → Bool := isCharWith Char.isLower

def isAlpha : CodePoint → Bool := isCharWith Char.isAlpha

/-- Whether a code point is a letter or a digit of these. -/
def isAlphanum : CodePoint → Bool := isCharWith Char.isAlphanum

/-- The small letter for a capital from `A` to `Z`, and every other code point itself. -/
def toLower : CodePoint → CodePoint
  | char c => char c.toLower
  | half index => half index

/-- The capital for a small letter from `a` to `z`, and every other code point itself. -/
def toUpper : CodePoint → CodePoint
  | char c => char c.toUpper
  | half index => half index

/-- The character that is shown for a code point: a replacement for a half. -/
def shown : CodePoint → Char
  | char c => c
  | half _ => '�'

end CodePoint

/-! ## Texts

Texts and the small operations on them that every other module uses: membership in a table of code
points, joining, splitting at a character, looking for a part. -/

/-- Texts are lists of code points, so that scanning a text is recursion on a list. -/
abbrev Text := List CodePoint

def Text.ofChars (cs : List Char) : Text := cs.map .char

end SclNarrator

def String.toText (s : String) : SclNarrator.Text := .ofChars s.toList

namespace SclNarrator

instance : Coe String Text := ⟨String.toText⟩

/-- Whether a code point lies in one of the ranges, ends included. -/
def inRanges (ranges : List (Nat × Nat)) (n : Nat) : Bool :=
  ranges.any fun r => r.1 ≤ n && n ≤ r.2

namespace Text

/-- The texts one after the other with `separator` between neighbours. -/
def join (separator : Text) : List Text → Text
  | [] => []
  | [t] => t
  | t :: u :: rest => t ++ separator ++ join separator (u :: rest)

/-- The parts of a text between the occurrences of a character; never an empty list. -/
def partsAt (separator : CodePoint) : Text → List Text
  | [] => [[]]
  | c :: rest =>
    if c = separator then [] :: partsAt separator rest
    else match partsAt separator rest with
      | [] => [[c]]
      | part :: parts => (c :: part) :: parts

/-- What follows `part` in a text that starts with it. -/
def dropPart? : (part : Text) → Text → Option Text
  | [], rest => some rest
  | _ :: _, [] => none
  | p :: part, c :: rest => if p = c then dropPart? part rest else none

/-- Whether a text starts with `part`. -/
def startsWith (t part : Text) : Bool := (dropPart? part t).isSome

/-- The text before the first occurrence of `part` and the text after it. -/
def splitOnce? (part : Text) : Text → Option (Text × Text)
  | [] => if part.isEmpty then some ([], []) else none
  | c :: rest =>
    match dropPart? part (c :: rest) with
    | some after => some ([], after)
    | none => (splitOnce? part rest).map fun (before, after) => (c :: before, after)

/-- Whether `part` occurs in the text. -/
def hasPart (part t : Text) : Bool := (splitOnce? part t).isSome

/-- The text without its leading `c`s. -/
def dropLeading (c : CodePoint) (t : Text) : Text := t.dropWhile (· == c)

/-- The text without any `c`. -/
def without (c : CodePoint) (t : Text) : Text := t.filter (· != c)

/-- Whether a text can be printed: it has no halves. -/
def isWhole (t : Text) : Bool := t.all fun c => !c.isHalf

/-- The text as a string, with replacements for halves. -/
def string (t : Text) : String := String.ofList (t.map CodePoint.shown)

/-- The order of two texts by the numbers of their code points. -/
def order (s t : Text) : Ordering := compare (s.map CodePoint.toNat) (t.map CodePoint.toNat)

end Text

/-! ## Blanks

Blank characters, trimming, and the words between blanks. -/

/-- The blank characters: the controls that separate, the spaces, the line and paragraph separators. -/
def blankRanges : List (Nat × Nat) := [
  (0x9, 0xd), (0x1c, 0x20), (0x85, 0x85), (0xa0, 0xa0), (0x1680, 0x1680), (0x2000, 0x200a),
  (0x2028, 0x2029), (0x202f, 0x202f), (0x205f, 0x205f), (0x3000, 0x3000)]

def isBlank (c : CodePoint) : Bool := inRanges blankRanges c.toNat

namespace Text

/-- The text without its leading blanks. -/
def trimLeft (t : Text) : Text := t.dropWhile isBlank

/-- The text without its trailing blanks. -/
def trimRight (t : Text) : Text := (trimLeft t.reverse).reverse

/-- The text without leading and trailing blanks. -/
def trim (t : Text) : Text := trimRight (trimLeft t)

def blank (t : Text) : Bool := t.all isBlank

/-- The stretches of characters that are not blank; `word` is the stretch being read, reversed. -/
def wordsFrom (word : Text) : Text → List Text
  | [] => if word.isEmpty then [] else [word.reverse]
  | c :: rest =>
    if isBlank c then
      if word.isEmpty then wordsFrom [] rest else word.reverse :: wordsFrom [] rest
    else wordsFrom (c :: word) rest

/-- The stretches of characters that are not blank, in order. -/
def words (t : Text) : List Text := wordsFrom [] t

/-- The words of the text with one space between neighbours. -/
def collapse (t : Text) : Text := join [' '] (words t)

end Text

/-! ## Digits

Decimal digits of every script. Each script has ten consecutive ones, so the zeros are enough. -/

/-- The zeros of the scripts beyond ASCII. -/
def digitZeros : List Nat := [
  0x660, 0x6f0, 0x7c0, 0x966, 0x9e6, 0xa66, 0xae6, 0xb66, 0xbe6, 0xc66, 0xce6, 0xd66, 0xde6,
  0xe50, 0xed0, 0xf20, 0x1040, 0x1090, 0x17e0, 0x1810, 0x1946, 0x19d0, 0x1a80, 0x1a90, 0x1b50,
  0x1bb0, 0x1c40, 0x1c50, 0xa620, 0xa8d0, 0xa900, 0xa9d0, 0xa9f0, 0xaa50, 0xabf0, 0xff10, 0x104a0,
  0x10d30, 0x11066, 0x110f0, 0x11136, 0x111d0, 0x112f0, 0x11450, 0x114d0, 0x11650, 0x116c0,
  0x11730, 0x118e0, 0x11950, 0x11c50, 0x11d50, 0x11da0, 0x16a60, 0x16ac0, 0x16b50, 0x1d7ce,
  0x1d7d8, 0x1d7e2, 0x1d7ec, 0x1d7f6, 0x1e140, 0x1e2f0, 0x1e950, 0x1fbf0]

def digitValue? (c : CodePoint) : Option Nat :=
  if c.isDigit then some (c.toNat - 48)
  else if c.toNat < 128 then none
  else (digitZeros.find? fun z => z ≤ c.toNat && c.toNat < z + 10).map (c.toNat - ·)

/-- Whether a character is a decimal digit of some script. -/
def isDecimal (c : CodePoint) : Bool := (digitValue? c).isSome

/-- Whether a character is a hexadecimal digit. -/
def isHex (c : CodePoint) : Bool :=
  c.isDigit || c.isCharWith fun c => ('a' ≤ c && c ≤ 'f') || ('A' ≤ c && c ≤ 'F')

/-- The value of a digit in bases up to thirty-six: decimal digits of any script, then the letters. -/
def alnumValue? (c : CodePoint) : Option Nat :=
  if c.isLower then some (c.toNat - 87)
  else if c.isUpper then some (c.toNat - 55)
  else digitValue? c

/-! ## Patterns

Patterns and the cut of a text by a pattern. A scan goes from left to right: where the pattern
matches, the stretch is one piece and the scan goes on behind it; elsewhere a piece is a single
character. Nothing is lost: the pieces put together are the text (`cut_text`). -/

/-- A way to recognise something at a point of a text. A pattern sees the text before the point,
reversed, and the text from the point on; it answers with what it recognised and the text left. -/
abbrev Pattern (α : Type) := Text → Text → Option (α × Text)

/-- A piece of a cut text: a character that no match covers, or a matched stretch and what it was
read as. -/
inductive Piece (α : Type) where
  | plain (c : CodePoint)
  | found (text : Text) (value : α)

namespace Piece

variable {α : Type}

def text : Piece α → Text
  | plain c => [c]
  | found t _ => t

def value? : Piece α → Option α
  | plain _ => none
  | found _ a => some a

/-- The piece with a match replaced by what it was read as. -/
def replaced : Piece Text → Text
  | plain c => [c]
  | found _ t => t

end Piece

namespace Text

variable {α : Type}

/-- The pieces of a text from a point on. The first `skip` characters belong to the match before, and
`back` is the text before the point, reversed. A match that takes nothing counts as none. -/
def cutFrom (p : Pattern α) (skip : Nat) (back : Text) : Text → List (Piece α)
  | [] => []
  | c :: rest =>
    match skip with
    | n + 1 => cutFrom p n (c :: back) rest
    | 0 =>
      match p back (c :: rest) with
      | none => .plain c :: cutFrom p 0 (c :: back) rest
      | some (a, after) =>
        if after.length ≤ rest.length then
          let n := rest.length - after.length
          .found (c :: rest.take n) a :: cutFrom p n (c :: back) rest
        else .plain c :: cutFrom p 0 (c :: back) rest

def cut (p : Pattern α) (t : Text) : List (Piece α) := cutFrom p 0 [] t

theorem cutFrom_text (p : Pattern α) (t : Text) (skip : Nat) (back : Text) :
    (cutFrom p skip back t).flatMap Piece.text = t.drop skip := by
  induction t generalizing skip back with
  | nil => simp [cutFrom]
  | cons c rest ih =>
    cases skip with
    | succ n => rw [cutFrom, ih, List.drop_succ_cons]
    | zero =>
      rw [cutFrom]
      split
      · simp [Piece.text, ih]
      · split
        · simp [Piece.text, ih]
        · simp [Piece.text, ih]

theorem cut_text (p : Pattern α) (t : Text) : (cut p t).flatMap Piece.text = t :=
  cutFrom_text p t 0 []

/-- The text with every match replaced by what it was read as. -/
def replaceAll (p : Pattern Text) (t : Text) : Text := (cut p t).flatMap Piece.replaced

/-- What the matches were read as, in order. -/
def findAll (p : Pattern α) (t : Text) : List α := (cut p t).filterMap Piece.value?

/-- The first match: the text before it, what it was read as, and the text after it. -/
def searchFrom (p : Pattern α) (back : Text) : Text → Option (Text × α × Text)
  | [] => (p back []).map fun (a, after) => (back.reverse, a, after)
  | c :: rest =>
    match p back (c :: rest) with
    | some (a, after) => some (back.reverse, a, after)
    | none => searchFrom p (c :: back) rest

/-- The first match in a whole text. -/
def search (p : Pattern α) (t : Text) : Option (Text × α × Text) := searchFrom p [] t

end Text

/-! ## Control sequences

Control sequences of terminals: an escape and `[`, digits, `;` and `?` in any number, and a letter. Where
the output is no terminal they are left out of it. -/

/-- Whether a character can be a parameter of a control sequence. -/
def isParameter (c : CodePoint) : Bool := c.isDigit || c == ';' || c == '?'

def controlSequence : Pattern Text := fun _ t =>
  match t with
  | .char '\x1b' :: .char '[' :: rest =>
    match rest.dropWhile isParameter with
    | c :: after => if c.isAlpha then some ([], after) else none
    | [] => none
  | _ => none

def Text.withoutControls (t : Text) : Text := replaceAll controlSequence t

end SclNarrator
