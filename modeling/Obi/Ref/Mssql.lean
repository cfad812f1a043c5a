import Obi.Lib.Table
import Obi.Ref.SliceReader

/-!
# Prepared statements of SQL Server

The handle of a prepared statement is read from the response that prepares it and from the
requests that execute it. Both are read from the payloads of the packets put together, which
are one chunk, so that a reader is the bytes it has not read yet.
-/

namespace Obi.Ref.Mssql
open Lib

def kMSSQLHeaderLen : Nat := 8

def kMSSQLTokenReturnValue : UInt8 := 0xAC

/-- "fixed-length 4-byte integer". -/
def kMSSQLTypeInt4 : Nat := 0x26

/-- "variable-length integer (length byte precedes value)". -/
def kMSSQLTypeIntN : Nat := 0x38

/-- Status, user type and flags. -/
def kMSSQLReturnValueMetadataLen : Nat := 1 + 4 + 2

/-! ## Reads, `none` standing for an error -/

def readU8 : List UInt8 → Option (Nat × List UInt8)
  | [] => none
  | b :: r => some (b.toNat, r)

def readU32LE : List UInt8 → Option (Nat × List UInt8)
  | a :: b :: c :: d :: r =>
    some (a.toNat + b.toNat * 256 + c.toNat * 65536 + d.toNat * 16777216, r)
  | _ => none

def skip (n : Nat) (r : List UInt8) : Option (List UInt8) :=
  if r.length < n then none else some (r.drop n)

/-- The value of a read whose error is ignored, and what is left then. -/
def orZero (read : List UInt8 → Option (Nat × List UInt8)) (r : List UInt8) : Nat × List UInt8 :=
  (read r).getD (0, r)

/-! ## The handle -/

def parseHandleFromExecute (r : List UInt8) : Nat :=
  Option.getD (do
    let (nameLen, r) ← readU8 r
    let r ← skip (nameLen * 2) r
    let r ← skip 1 r
    let (typ, r) ← readU8 r
    if typ = kMSSQLTypeInt4 then return (orZero readU32LE r).1
    else if typ = kMSSQLTypeIntN then
      let (length, r) ← readU8 r
      if length = 4 then return (orZero readU32LE r).1 else return 0
    else return 0) 0

/-- The packets from an offset on, without their headers; `none` stands for a loop that has
not ended after so many rounds. -/
def payloadsFrom (b : LargeBuffer) : Nat → Nat → Option (List UInt8)
  | 0, _ => none
  | rounds + 1, offset =>
    if b.total < offset + kMSSQLHeaderLen then some []
    else match (viewAt b (offset + 2) 2).map bigEndian with
    | none => some []
    | some pktLen =>
      if pktLen < kMSSQLHeaderLen ∨ b.total < offset + pktLen then some []
      -- the view of an empty payload is empty
      else match viewAt b (offset + kMSSQLHeaderLen) (pktLen - kMSSQLHeaderLen) with
      | none => some []
      | some chunk => (payloadsFrom b rounds (offset + pktLen)).map (chunk ++ ·)

def extractTDSPayloads (b : LargeBuffer) : Option (List UInt8) :=
  payloadsFrom b (b.total + 1) 0

/-- The loop over the tokens. -/
def returnValueFrom : Nat → List UInt8 → Nat
  | 0, _ => 0
  | rounds + 1, r => match r.findIdx? (· == kMSSQLTokenReturnValue) with
    | none => 0
    | some idx =>
      let r := r.drop (idx + 1)
      if r.length < 3 then returnValueFrom rounds r
      else
        let (nameLen, r) := orZero readU8 (r.drop 2)
        let metadataLen := nameLen * 2 + kMSSQLReturnValueMetadataLen
        if r.length < metadataLen + 1 then returnValueFrom rounds r
        else
          let (typ, r) := orZero readU8 (r.drop metadataLen)
          if typ = kMSSQLTypeInt4 then
            if 4 ≤ r.length then (orZero readU32LE r).1 else returnValueFrom rounds r
          else if typ = kMSSQLTypeIntN then
            let (length, r) := orZero readU8 r
            if length = 4 ∧ 4 ≤ r.length then (orZero readU32LE r).1 else returnValueFrom rounds r
          else returnValueFrom rounds r

/-- Every round takes a byte. -/
def parseHandleFromPrepareResponse (b : LargeBuffer) : Nat :=
  let payload := (extractTDSPayloads b).getD []
  returnValueFrom (payload.length + 1) payload

/-! ## Text -/

def isSurrogate (r : Nat) : Bool := 0xd800 ≤ r ∧ r < 0xe000

/-- `utf16.DecodeRune`, `none` standing for the replacement character. -/
def decodeRune (r1 r2 : Nat) : Option Nat :=
  if 0xd800 ≤ r1 ∧ r1 < 0xdc00 ∧ 0xdc00 ≤ r2 ∧ r2 < 0xe000 then
    some ((r1 - 0xd800) * 1024 + (r2 - 0xdc00) + 0x10000)
  else none

/-- The bytes `utf8.AppendRune` adds: the replacement character for what is no character. -/
def runeBytes (r : Nat) : List UInt8 :=
  String.utf8EncodeChar (if r.isValidChar then .ofNat r else .ofNat 0xfffd)

def unit (a b : UInt8) : Nat := a.toNat + b.toNat * 256

/-- The last byte of an odd number is left out. -/
def ucs2ToUTF8 : List UInt8 → List UInt8
  | a :: b :: c :: d :: rest =>
    match if isSurrogate (unit a b) then decodeRune (unit a b) (unit c d) else none with
    | some r => runeBytes r ++ ucs2ToUTF8 rest
    | none => runeBytes (unit a b) ++ ucs2ToUTF8 (c :: d :: rest)
  | a :: b :: _ => runeBytes (unit a b)
  | _ => []

/-! ## The cache of `handleMSSQL` -/

variable {ConnInfo : Type} [DecidableEq ConnInfo]

def addPrepared (cache : Table (ConnInfo × Nat) String) (connInfo : ConnInfo)
    (responseBuffer : LargeBuffer) (stmt : String) : Table (ConnInfo × Nat) String :=
  let handle := parseHandleFromPrepareResponse responseBuffer
  if handle ≠ 0 ∧ stmt ≠ "" then cache.insert (connInfo, handle) stmt else cache

def getPrepared (cache : Table (ConnInfo × Nat) String) (connInfo : ConnInfo) (r : List UInt8) :
    Option String :=
  let handle := parseHandleFromExecute r
  if handle ≠ 0 then cache.lookup (connInfo, handle) else none

end Obi.Ref.Mssql
