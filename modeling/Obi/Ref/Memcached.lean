import Obi.Ref.GoBytes
import Obi.Ref.SliceReader

/-!
# The memcached parser

A capture of requests in the ASCII protocol: a command line each, and a data
block behind the line of a storage command. The line is a slice of the reader,
and so are its fields; the key is copied out of its field after the data block
was looked at.
-/

namespace Obi.Ref.Memcached
open Lib SliceParser

def minMemcachedFrameLen : Int := 3

/-- The canonical operation names. -/
inductive MemcachedOp
  | get | gat | set | add | replace | append | prepend | cas | delete | incr | decr | touch
  | flushAll | stats | version
deriving DecidableEq, Repr

def MemcachedOp.text : MemcachedOp → String
  | .get => "GET"
  | .gat => "GAT"
  | .set => "SET"
  | .add => "ADD"
  | .replace => "REPLACE"
  | .append => "APPEND"
  | .prepend => "PREPEND"
  | .cas => "CAS"
  | .delete => "DELETE"
  | .incr => "INCR"
  | .decr => "DECR"
  | .touch => "TOUCH"
  | .flushAll => "FLUSH_ALL"
  | .stats => "STATS"
  | .version => "VERSION"

def memcachedCommands : List (List UInt8 × MemcachedOp) :=
  [(ascii "get", .get), (ascii "gets", .get), (ascii "gat", .gat), (ascii "gats", .gat),
    (ascii "set", .set), (ascii "add", .add), (ascii "replace", .replace),
    (ascii "append", .append), (ascii "prepend", .prepend), (ascii "cas", .cas),
    (ascii "delete", .delete), (ascii "incr", .incr), (ascii "decr", .decr),
    (ascii "touch", .touch), (ascii "flush_all", .flushAll), (ascii "stats", .stats),
    (ascii "version", .version)]

def memcachedResponses : List (List UInt8) :=
  [ascii "VALUE", ascii "END", ascii "STORED", ascii "NOT_STORED", ascii "EXISTS",
    ascii "NOT_FOUND", ascii "DELETED", ascii "TOUCHED", ascii "OK", ascii "ERROR",
    ascii "CLIENT_ERROR", ascii "SERVER_ERROR", ascii "VERSION", ascii "STAT"]

structure MemcachedRequestOp where
  op : MemcachedOp
  key : List UInt8
  noreply : Bool
deriving DecidableEq, Repr

structure MemcachedParseResult where
  ops : List MemcachedRequestOp
  isResponse : Bool
deriving DecidableEq, Repr

/-! ## Lines and fields -/

/-- The text in front of the first space. -/
def memcachedToken (line : List UInt8) : List UInt8 := line.takeWhile (· ≠ 32)

def isASCIIDecimal (field : List UInt8) : Bool :=
  !field.isEmpty && field.all fun b => decide (IsDigit b)

def isMemcachedNumericLine (line : List UInt8) : Bool := isASCIIDecimal line

/-- A decimal number with an optional minus sign. -/
def memcachedSignedIntField (field : List UInt8) : Bool :=
  !field.isEmpty && isASCIIDecimal (if field.head? = some 45 then field.tail else field)

/-- The fields with their places: the position, and the field that is open. -/
def memcachedSplitFields : Nat → List UInt8 → List UInt8 → List (Nat × List UInt8)
  | pos, field, [] => closeField pos field
  | pos, field, b :: line =>
    if b = 32 then closeField pos field ++ memcachedSplitFields (pos + 1) [] line
    else memcachedSplitFields (pos + 1) (field ++ [b]) line

def memcachedFirstLineFromReader : SliceParser (Option (Slice UInt8)) := do
  let remaining ← remaining
  if remaining < minMemcachedFrameLen then return none
  else
    let crPos ← indexByte 13
    if crPos ≤ 0 ∨ remaining ≤ crPos + 1 then return none
    else match ← peek (crPos + crlf.length) with
    | .error _ => return none
    | .ok line =>
      let b ← load line
      if b[crPos.toNat + 1]? ≠ some 10 then return none
      else return some (line.slice 0 crPos.toNat)

def memcachedReadLineFromReader : SliceParser (Option (Slice UInt8)) := do
  match ← memcachedFirstLineFromReader with
  | none => return none
  | some line =>
    let b ← load line
    match ← readN b.length with
    | .error _ => return none
    | .ok line => match ← skip crlf.length with
      | .error _ => return none
      | .ok () => return some line

def isMemcachedResponseReader : SliceParser Bool := do
  match ← memcachedFirstLineFromReader with
  | none => return false
  | some line =>
    let b ← load line
    return isMemcachedNumericLine b || memcachedResponses.contains (memcachedToken b)

/-! ## Commands -/

variable (fields : List (List UInt8))

def memcachedFieldsHaveNoreply : Bool := fields.getLast? = some (ascii "noreply")

def memcachedCommandHasPayload : MemcachedOp → Bool
  | .set | .add | .replace | .append | .prepend | .cas => true
  | _ => false

def memcachedCommandSupportsNoreply : MemcachedOp → Bool
  | .set | .add | .replace | .append | .prepend | .cas | .delete | .incr | .decr | .touch
  | .flushAll => true
  | _ => false

/-- The index of the key, of the commands that have one. -/
def memcachedCommandKeyField : MemcachedOp → Option Nat
  | .get | .set | .add | .replace | .append | .prepend | .cas | .delete | .incr | .decr
  | .touch => some 1
  | .gat => some 2
  | _ => none

def memcachedMatchesFieldCount (fieldCount : Nat) (noreply : Bool) (base : Nat) : Bool :=
  if noreply then fieldCount == base + 1 else fieldCount == base

def memcachedValidRequestFields (op : MemcachedOp) (noreply : Bool) : Bool :=
  let fieldCount := fields.length
  let signed (i : Nat) : Bool := memcachedSignedIntField (fields[i]?.getD [])
  match op with
  | .get => decide (2 ≤ fieldCount)
  | .gat => decide (3 ≤ fieldCount) && signed 1
  | .set | .add | .replace | .append | .prepend =>
    memcachedMatchesFieldCount fieldCount noreply 5 && signed 3 && signed 4
  | .cas => memcachedMatchesFieldCount fieldCount noreply 6 && signed 3 && signed 4
  | .delete => memcachedMatchesFieldCount fieldCount noreply 2
  | .incr | .decr => memcachedMatchesFieldCount fieldCount noreply 3
  | .touch => memcachedMatchesFieldCount fieldCount noreply 3 && signed 2
  | .flushAll =>
    if noreply then
      if fieldCount = 2 then true else fieldCount == 3 && signed 1
    else
      if fieldCount = 1 then true else fieldCount == 2 && signed 1
  | .stats => decide (1 ≤ fieldCount)
  | .version => fieldCount == 1

/-- The size of the data block of a storage command. -/
def memcachedCommandBytesField (op : MemcachedOp) : Option Int :=
  let minFields := if op = .cas then 6 else 5
  if fields.length < minFields then none
  else match atoi (fields[4]?.getD []) with
  | none => none
  | some size => if size < 0 then none else some size

def memcachedConsumeStoragePayload (op : MemcachedOp) : SliceParser Bool := do
  match memcachedCommandBytesField fields op with
  | none => return false
  | some bytesField =>
    if bytesField > 2 ^ 63 - 1 - crlf.length then return false
    else match ← peek (bytesField + crlf.length) with
    | .error _ => return false
    | .ok payload =>
      let b ← load payload
      if b.drop bytesField.toNat ≠ crlf then return false
      else match ← skip (bytesField + crlf.length) with
      | .error _ => return false
      | .ok () => return true

/-! ## Requests -/

/-- The operation and the noreply flag of a line `b` with these fields, if it is
a valid request. -/
def requestOf (b : List UInt8) (fields : List (List UInt8)) : Option (MemcachedOp × Bool) :=
  match fields with
  | [] => none
  | token :: _ =>
    if memcachedResponses.contains token || isMemcachedNumericLine b then none
    else match memcachedCommands.lookup token with
    | none => none
    | some op =>
      let noreply := memcachedFieldsHaveNoreply fields
      if noreply && !memcachedCommandSupportsNoreply op then none
      else if !memcachedValidRequestFields fields op noreply then none
      else some (op, noreply)

/-- The operation of a line that holds `b`. -/
def operationOf (line : Slice UInt8) (b : List UInt8) :
    SliceParser (Option MemcachedRequestOp) := do
  let places := memcachedSplitFields 0 [] b
  let fields := places.map Prod.snd
  match requestOf b fields with
  | none => return none
  | some (op, noreply) =>
    let consumed ← if memcachedCommandHasPayload op then memcachedConsumeStoragePayload fields op
      else pure true
    if !consumed then return none
    else match memcachedCommandKeyField op with
    | none => return some ⟨op, [], noreply⟩
    | some keyField =>
      let (place, w) := places[keyField]?.getD (0, [])
      let key ← load (line.slice place (place + w.length))
      return some ⟨op, key, noreply⟩

def parseMemcachedRequestOperation : SliceParser (Option MemcachedRequestOp) := do
  match ← memcachedReadLineFromReader with
  | none => return none
  | some line =>
    let b ← load line
    operationOf line b

/-- The loop over the requests; every request takes a byte at least. -/
def requestsLoop : Nat → List MemcachedRequestOp → SliceParser (Option MemcachedParseResult)
  | 0, ops => return some ⟨ops, false⟩
  | rounds + 1, ops => do
      let remaining ← remaining
      if remaining > 0 then
        match ← parseMemcachedRequestOperation with
        | none => return none
        | some op => requestsLoop rounds (ops ++ [op])
      else return some ⟨ops, false⟩

def parseMemcachedRequests : SliceParser (Option MemcachedParseResult) := do
  if ← isMemcachedResponseReader then return some ⟨[], true⟩
  else
    let remaining ← remaining
    requestsLoop remaining.toNat []

end Obi.Ref.Memcached
