import SclNarrator.Number.Numeral

/-!
Files by their paths, texts from their bytes, and why a file cannot be read.

Assumed: the system follows paths one step after the other, keeps to the limits of 255 bytes for a
name and 4095 for a path, and lets every file be read; there are no links.
-/

namespace SclNarrator

/-! ## Texts from bytes

Texts from bytes: UTF-8, and line ends of every convention read as one. -/

namespace Utf8

inductive Cause where
  | invalidStart | invalidContinuation | endOfData
  deriving DecidableEq, Repr

/-- Where and why bytes are no UTF-8: the position of the first byte at fault, that byte, and how many
bytes are at fault. -/
structure Fault where
  position : Nat
  count : Nat
  byte : Nat
  cause : Cause
  deriving DecidableEq, Repr

def Cause.message : Cause → Text
  | .invalidStart => "invalid start byte".toText
  | .invalidContinuation => "invalid continuation byte".toText
  | .endOfData => "unexpected end of data".toText

def Fault.message (f : Fault) : Text :=
  "'utf-8' codec can't decode byte".toText ++
    (if f.count = 1 then
      " 0x".toText ++ hexDigits 2 f.byte ++ " in position ".toText ++ Numeral.natText f.position
    else
      "s in position ".toText ++ Numeral.natText f.position ++ "-".toText ++
        Numeral.natText (f.position + f.count - 1)) ++
    ": ".toText ++ f.cause.message

def isContinuation (b : Nat) : Bool := 0x80 ≤ b && b < 0xc0

/-- Whether a second byte can follow a first one; some would give characters that have a shorter form
or are none. -/
def allowsSecond (first second : Nat) : Bool :=
  isContinuation second && !(first == 0xe0 && second < 0xa0) && !(first == 0xed && 0xa0 ≤ second) &&
    !(first == 0xf0 && second < 0x90) && !(first == 0xf4 && 0x90 ≤ second)

def decodeFrom (position : Nat) : List Nat → Except Fault Text
  | [] => .ok []
  | a :: as =>
    if a < 0x80 then do return .char (Char.ofNat a) :: (← decodeFrom (position + 1) as)
    else if a < 0xc2 || 0xf4 < a then .error ⟨position, 1, a, .invalidStart⟩
    else match as with
      | [] => .error ⟨position, 1, a, .endOfData⟩
      | b :: bs =>
        if !allowsSecond a b then .error ⟨position, 1, a, .invalidContinuation⟩
        else if a < 0xe0 then do
          return .char (Char.ofNat (a % 32 * 64 + b % 64)) :: (← decodeFrom (position + 2) bs)
        else match bs with
          | [] => .error ⟨position, 2, a, .endOfData⟩
          | c :: cs =>
            if !isContinuation c then .error ⟨position, 2, a, .invalidContinuation⟩
            else if a < 0xf0 then do
              return .char (Char.ofNat ((a % 16 * 64 + b % 64) * 64 + c % 64)) ::
                (← decodeFrom (position + 3) cs)
            else match cs with
              | [] => .error ⟨position, 3, a, .endOfData⟩
              | d :: ds =>
                if !isContinuation d then .error ⟨position, 3, a, .invalidContinuation⟩
                else do
                  return .char (Char.ofNat (((a % 8 * 64 + b % 64) * 64 + c % 64) * 64 + d % 64)) ::
                    (← decodeFrom (position + 4) ds)

def unifyLines : Text → Text
  | [] => []
  | .char '\r' :: .char '\n' :: rest => '\n' :: unifyLines rest
  | c :: rest => (if c = '\r' then '\n' else c) :: unifyLines rest

def decode (bytes : List UInt8) : Except Fault Text :=
  (decodeFrom 0 (bytes.map UInt8.toNat)).map unifyLines

end Utf8

/-! ## Files

Files by their paths, and why one cannot be read. -/

/-- Why a file cannot be read as text. -/
inductive ReadFault where
  | notFound (path : Text)
  | notDirectory (path : Text)
  | isDirectory (path : Text)
  | nameTooLong (path : Text)
  /-- A half in the path stands for no byte; the positions of it and of the last half that follows. -/
  | unencodable (half : CodePoint) (first last : Nat)
  | zeroByte
  | undecodable (fault : Utf8.Fault)
  deriving DecidableEq

/-- The wording of a fault. -/
def ReadFault.message : ReadFault → Text
  | .notFound path => "[Errno 2] No such file or directory: ".toText ++ path.quoted
  | .notDirectory path => "[Errno 20] Not a directory: ".toText ++ path.quoted
  | .isDirectory path => "[Errno 21] Is a directory: ".toText ++ path.quoted
  | .nameTooLong path => "[Errno 36] File name too long: ".toText ++ path.quoted
  | .unencodable half first last =>
    "'utf-8' codec can't encode character".toText ++
      (if first = last then
        " ".toText ++ Text.quoted [half] ++ " in position ".toText ++ Numeral.natText first
      else "s in position ".toText ++ Numeral.natText first ++ "-".toText ++ Numeral.natText last) ++
      ": surrogates not allowed".toText
  | .zeroByte => "embedded null byte".toText
  | .undecodable fault => fault.message

/-- Whether the system refused the file, rather than the path or the bytes being unfit. -/
def ReadFault.isSystem : ReadFault → Bool
  | .unencodable .. => false
  | .zeroByte => false
  | .undecodable _ => false
  | _ => true

namespace Path

/-- The steps of a path; empty ones and `.` lead nowhere. -/
def steps (path : Text) : List Text :=
  (Text.partsAt '/' path).filter fun step => !step.isEmpty && step != ".".toText

/-- The slashes that a path starts with, of which there are at most two. -/
def root (path : Text) : Text :=
  match (path.takeWhile (· == .char '/')).length with
  | 0 => []
  | 2 => ['/', '/']
  | _ => ['/']

/-- A path without steps that lead nowhere. -/
def normalize (path : Text) : Text :=
  match root path ++ Text.join ['/'] (steps path) with
  | [] => ['.']
  | t => t

/-- Whether a code point is a half that stands for no byte in a path. The halves from `U+DC80` to
`U+DCFF` stand for the bytes that are no text. -/
def isStray (c : CodePoint) : Bool := c.isHalf && !(0xdc80 ≤ c.toNat && c.toNat ≤ 0xdcff)

/-- The first half of a path that stands for no byte, and the halves that follow it. -/
def unencodable? (path : Text) : Option ReadFault :=
  match path.dropWhile (!isStray ·) with
  | [] => none
  | half :: rest =>
    let first := (path.takeWhile (!isStray ·)).length
    some (.unencodable half first (first + (rest.takeWhile CodePoint.isHalf).length))

def byteSize (path : Text) : Nat :=
  path.foldl (fun size c => size + if c.isHalf then 1 else c.shown.utf8Size) 0

/-- The longest name that a file can have, in bytes. -/
def nameLimit : Nat := 255

/-- The longest path that can be opened, in bytes. -/
def sizeLimit : Nat := 4095

/-- Why nothing can be at a path, wherever it leads. -/
def fault? (path : Text) : Option ReadFault :=
  let shown := normalize path
  match unencodable? shown with
  | some fault => some fault
  | none =>
    if path.contains '\x00' then some .zeroByte
    else if sizeLimit < byteSize shown then some (.nameTooLong shown)
    else none

end Path

/-- What is below a directory, by the steps of the paths: files, and directories that may be empty. The
directories on the way to a file need not be listed. -/
structure FileTree where
  files : List (List Text × List UInt8) := []
  directories : List (List Text) := []

namespace FileTree

/-- A tree of files given by their paths; of files with one path the last one counts. -/
def ofPaths (files : List (Text × List UInt8)) : FileTree :=
  { files := files.reverse.map fun (path, bytes) => (Path.steps path, bytes) }

def empty : FileTree := {}

/-- Steps without the first one, if that is a given one. -/
def behind? (step : Text) : List Text → Option (List Text)
  | [] => none
  | s :: rest => if s = step then some rest else none

/-- What is below the directory that a step leads to. -/
def enter (tree : FileTree) (step : Text) : FileTree where
  files := tree.files.filterMap fun (steps, bytes) => (behind? step steps).map (·, bytes)
  directories := tree.directories.filterMap (behind? step)

/-- Whether there is nothing, not even a directory. -/
def isMissing (tree : FileTree) : Bool := tree.files.isEmpty && tree.directories.isEmpty

/-- The step to the directory above. -/
def up : Text := ['.', '.']

/-- The bytes of the file that steps lead to from a directory of the tree. `above` are the directories
above it, the nearest first; of what lies above the tree nothing is there but directories. `path` is
the whole path, for messages. -/
def walk (path : Text) : (above : List FileTree) → FileTree → List Text →
    Except ReadFault (List UInt8)
  | _, _, [] => .error (.isDirectory path)
  | above, tree, step :: rest =>
    if step = up then
      match above with
      | [] => walk path [] empty rest
      | parent :: above => walk path above parent rest
    else if Path.nameLimit < Path.byteSize step then .error (.nameTooLong path)
    else
      let inner := tree.enter step
      match inner.files.lookup [] with
      | some bytes => if rest.isEmpty then .ok bytes else .error (.notDirectory path)
      | none =>
        if inner.isMissing then .error (.notFound path) else walk path (tree :: above) inner rest

/-- The bytes of a file. Nothing outside of the tree is there but the directories above it. -/
def read (tree : FileTree) (path : Text) : Except ReadFault (List UInt8) :=
  match Path.fault? path with
  | some fault => .error fault
  | none =>
    let start := if Path.root path = [] then tree else empty
    walk (Path.normalize path) [] start (Path.steps path)

end FileTree

end SclNarrator
