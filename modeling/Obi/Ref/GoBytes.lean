import Mathlib.Data.FinEnum
import Obi.Lib.Decimal

/-!
# Byte slices and strings

What the text parsers use of the packages `bytes` and `strconv`. A string is its
bytes.
-/

namespace Obi.Ref

/-- The bytes of a string constant. -/
def ascii (s : String) : List UInt8 := s.toUTF8.data.toList

/-- `bytes.Index(s, sep)`, `none` standing for -1. -/
def bytesIndex (sep : List UInt8) : List UInt8 → Option Nat
  | [] => if sep.isEmpty then some 0 else none
  | b :: s => if sep.isPrefixOf (b :: s) then some 0 else (bytesIndex sep s).map (· + 1)

/-- `\r\n`, which ends the lines of the text protocols. -/
def crlf : List UInt8 := [13, 10]

/-! ## White space -/

/-- The characters `unicode.IsSpace` accepts, in UTF-8. No byte that starts one
of them stands within another character, so they are found without decoding what
is around them. -/
def whiteSpace : List (List UInt8) :=
  [[9], [10], [11], [12], [13], [32], [0xC2, 0x85], [0xC2, 0xA0], [0xE1, 0x9A, 0x80],
    [0xE2, 0x80, 0x80], [0xE2, 0x80, 0x81], [0xE2, 0x80, 0x82], [0xE2, 0x80, 0x83],
    [0xE2, 0x80, 0x84], [0xE2, 0x80, 0x85], [0xE2, 0x80, 0x86], [0xE2, 0x80, 0x87],
    [0xE2, 0x80, 0x88], [0xE2, 0x80, 0x89], [0xE2, 0x80, 0x8A], [0xE2, 0x80, 0xA8],
    [0xE2, 0x80, 0xA9], [0xE2, 0x80, 0xAF], [0xE2, 0x81, 0x9F], [0xE3, 0x80, 0x80]]

/-- The bytes the entry of a table at the front takes, 0 if there is none. -/
def frontWidth (table : List (List UInt8)) (s : List UInt8) : Nat :=
  match table.find? fun c => c.isPrefixOf s with
  | none => 0
  | some c => c.length

/-- A field that ends at `pos`, with its place, if there is one. -/
def closeField (pos : Nat) (field : List UInt8) : List (Nat × List UInt8) :=
  if field = [] then [] else [(pos - field.length, field)]

/-- The scan of `bytes.Fields`: the position, the bytes of a space still to be
passed, and the field that is open. -/
def fieldsLoop : Nat → Nat → List UInt8 → List UInt8 → List (Nat × List UInt8)
  | pos, _, field, [] => closeField pos field
  | pos, k + 1, field, _ :: s => fieldsLoop (pos + 1) k field s
  | pos, 0, field, b :: s => match frontWidth whiteSpace (b :: s) with
    | 0 => fieldsLoop (pos + 1) 0 (field ++ [b]) s
    | k + 1 => closeField pos field ++ fieldsLoop (pos + 1) k [] s

/-- `bytes.Fields`: the fields, each with its place in the slice. -/
def bytesFields (s : List UInt8) : List (Nat × List UInt8) := fieldsLoop 0 0 [] s

def trimFront (table : List (List UInt8)) : Nat → List UInt8 → List UInt8
  | _, [] => []
  | k + 1, _ :: s => trimFront table k s
  | 0, b :: s => match frontWidth table (b :: s) with
    | 0 => b :: s
    | k + 1 => trimFront table k s

/-- `bytes.TrimSpace`. -/
def trimSpace (s : List UInt8) : List UInt8 :=
  (trimFront (whiteSpace.map List.reverse) 0 (trimFront whiteSpace 0 s).reverse).reverse

/-! ## Letters and numbers -/

def toLowerASCII (c : UInt8) : UInt8 := if 65 ≤ c ∧ c ≤ 90 then c + 32 else c

def equalFoldASCII (a b : List UInt8) : Bool := a.map toLowerASCII = b.map toLowerASCII

def isASCIIAlnumByte (c : UInt8) : Bool :=
  (97 ≤ c ∧ c ≤ 122) ∨ (65 ≤ c ∧ c ≤ 90) ∨ (48 ≤ c ∧ c ≤ 57)

def isASCIIAlnumBytes (field : List UInt8) : Bool := !field.isEmpty && field.all isASCIIAlnumByte

/-- `strconv.Atoi`, whose error is not looked at more closely. -/
def atoi (s : List UInt8) : Option Int :=
  let negative := s.head? = some 45
  let digits := if s.head? = some 45 ∨ s.head? = some 43 then s.tail else s
  if digits = [] ∨ ¬ ∀ c ∈ digits, Lib.IsDigit c then none
  else
    let n := Lib.digitsFrom 0 digits
    if negative then if n ≤ 2 ^ 63 then some (-(n : Int)) else none
    else if n < 2 ^ 63 then some n else none

end Obi.Ref
