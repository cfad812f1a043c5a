import Obi.Ref.GoBytes

/-!
# The Redis command parser

A Redis client sends arrays of bulk strings: `*` and the number of strings, and
for each of them `$`, its length and its bytes, every line ended by `\r\n`. A
position in the buffer is what is left of the buffer from it on.
-/

namespace Obi.Ref

structure RedisCommand where
  (op text : List UInt8)
deriving DecidableEq, Repr

variable (buf : List UInt8)

/-- The bytes before the next `\r\n`, and what follows it. -/
def readRESPLine : Option (List UInt8 × List UInt8) := match bytesIndex crlf buf with
  | none => none
  | some rel => some (buf.take rel, buf.drop (rel + crlf.length))

/-- The loop over the digits. -/
def respDigits : Nat → List UInt8 → Option Nat
  | n, [] => some n
  | n, c :: line =>
    if c < 48 ∨ 57 < c then none
    else
      let n := n * 10 + (c.toNat - 48)
      if 2 ^ 30 < n then none else respDigits n line

def parseRESPInt : List UInt8 → Option Int
  | [] => none
  | c :: line =>
    if c = 45 then
      if line.isEmpty then none else (respDigits 0 line).map fun n => -n
    else (respDigits 0 (c :: line)).map fun n => n

def isRedisCommandToken (tok : List UInt8) : Bool :=
  !tok.isEmpty && tok.all fun c =>
    (97 ≤ c && c ≤ 122) || (65 ≤ c && c ≤ 90) || c == 46 || c == 95 || c == 45

def isPrintableToken (tok : List UInt8) : Bool := tok.all fun c => 32 ≤ c && c ≤ 126

/-- What is known of a command while its strings are read. -/
structure RedisTokens where
  op : List UInt8
  textDone : Bool
  text : List UInt8

def salvageRedisCommand (s : RedisTokens) : Option RedisCommand :=
  if s.op.isEmpty then none else some ⟨s.op, s.text⟩

/-- The next bulk string, and what follows it. -/
def readBulk : Option (List UInt8 × List UInt8) := match readRESPLine buf with
  | none => none
  | some (lenLine, buf) =>
    if lenLine.length < 2 ∨ lenLine.head? ≠ some 36 then none
    else match parseRESPInt (lenLine.drop 1) with
    | none => none
    | some l =>
      if l < 0 then none
      else if buf.length < l.toNat + crlf.length ∨
          (buf.drop l.toNat).take crlf.length ≠ crlf then none
      else some (buf.take l.toNat, buf.drop (l.toNat + crlf.length))

/-- The string with index `i` is added; the first one has to be a command. -/
def RedisTokens.add (s : RedisTokens) (i : Nat) (tok : List UInt8) : Option RedisTokens :=
  if i = 0 then
    if isRedisCommandToken tok then some { s with op := tok, text := s.text ++ tok } else none
  else if s.textDone then some s
  else if isPrintableToken tok then some { s with text := s.text ++ 32 :: tok }
  else some { s with textDone := true }

/-- The loop over the strings, of which the next has index `i`. The command, and
what follows it if it is whole. -/
def readTokens : Nat → Nat → RedisTokens → List UInt8 → Option RedisCommand × Option (List UInt8)
  | 0, _, s, buf => (some ⟨s.op, s.text⟩, some buf)
  | n + 1, i, s, buf => match readBulk buf with
    | none => (salvageRedisCommand s, none)
    | some (tok, buf) => match s.add i tok with
      | none => (none, none)
      | some s => readTokens n (i + 1) s buf

def parseRedisCommand : Option RedisCommand × Option (List UInt8) := match readRESPLine buf with
  | none => (none, none)
  | some (header, buf) =>
    if header.length < 2 ∨ header.head? ≠ some 42 then (none, none)
    else match parseRESPInt (header.drop 1) with
    | none => (none, none)
    | some n => if n ≤ 0 then (none, none) else readTokens n.toNat 0 ⟨[], false, []⟩ buf

/-- The loop over the commands. Each round takes a byte at least. -/
def redisCommandLoop : Nat → List UInt8 → List RedisCommand
  | 0, _ => []
  | rounds + 1, buf =>
    if buf.head? ≠ some 42 then []
    else match parseRedisCommand buf with
    | (cmd, none) => cmd.toList
    | (cmd, some buf) => cmd.toList ++ redisCommandLoop rounds buf

def parseRedisCommands : List RedisCommand := redisCommandLoop buf.length buf

end Obi.Ref
