import Obi.Ref.Memcached
import Obi.Spec.Tape

/-!
# Memcached requests

The commands of the ASCII protocol with their arguments. A request is a command
on a line of its own, with spaces in front of each argument and `noreply` behind
the arguments of the commands that allow it; a storage command has its data block
behind the line.
-/

namespace Obi.Spec.Memcached
open Lib Ref Ref.Memcached

/-! ## Lines -/

/-- Neither white space nor a control character. -/
def IsWordByte (b : UInt8) : Prop := 32 < b ∧ b ≠ 127

instance (b : UInt8) : Decidable (IsWordByte b) := inferInstanceAs (Decidable (_ ∧ _))

variable (w : List UInt8)

def IsWord : Prop := w ≠ [] ∧ ∀ b ∈ w, IsWordByte b

/-- The text writes these words, each with spaces in front. -/
inductive Spaced : List UInt8 → List (List UInt8) → Prop
  | spaces {text : List UInt8} (h : ∀ b ∈ text, b = 32) : Spaced text []
  | word {sep w text : List UInt8} {words : List (List UInt8)} (hne : sep ≠ [])
      (hsep : ∀ b ∈ sep, b = 32) (hw : IsWord w) (h : Spaced text words) :
      Spaced (sep ++ (w ++ text)) (w :: words)

/-! ## Commands -/

def IsDecimal : Prop := w ≠ [] ∧ ∀ b ∈ w, IsDigit b

/-- A decimal number, or one with a minus sign. -/
def IsSigned : Prop := IsDecimal w ∨ ∃ digits, w = 45 :: digits ∧ IsDecimal digits

/-- The announced size of a data block, which with its line end is in reach of an
`int`. -/
def IsSize (n : Nat) : Prop := IsDecimal w ∧ digitsFrom 0 w = n ∧ n + 2 < 2 ^ 63

/-- The storage commands of the same form. -/
inductive Storage
  | set | add | replace | append | prepend
deriving DecidableEq

inductive Command
  | get (gets : Bool) (key : List UInt8) (more : List (List UInt8))
  | gat (gats : Bool) (exptime key : List UInt8) (more : List (List UInt8))
  | store (how : Storage) (key flags exptime size payload : List UInt8)
  | cas (key flags exptime size unique payload : List UInt8)
  | delete (key : List UInt8)
  | incr (key value : List UInt8)
  | decr (key value : List UInt8)
  | touch (key exptime : List UInt8)
  | flushAll (delay : Option (List UInt8))
  | stats (args : List (List UInt8))
  | version

namespace Command

def verb : Command → List UInt8
  | .get gets _ _ => if gets then ascii "gets" else ascii "get"
  | .gat gats _ _ _ => if gats then ascii "gats" else ascii "gat"
  | .store .set .. => ascii "set"
  | .store .add .. => ascii "add"
  | .store .replace .. => ascii "replace"
  | .store .append .. => ascii "append"
  | .store .prepend .. => ascii "prepend"
  | .cas .. => ascii "cas"
  | .delete _ => ascii "delete"
  | .incr .. => ascii "incr"
  | .decr .. => ascii "decr"
  | .touch .. => ascii "touch"
  | .flushAll _ => ascii "flush_all"
  | .stats _ => ascii "stats"
  | .version => ascii "version"

def args : Command → List (List UInt8)
  | .get _ key more => key :: more
  | .gat _ exptime key more => exptime :: key :: more
  | .store _ key flags exptime size _ => [key, flags, exptime, size]
  | .cas key flags exptime size unique _ => [key, flags, exptime, size, unique]
  | .delete key => [key]
  | .incr key value | .decr key value => [key, value]
  | .touch key exptime => [key, exptime]
  | .flushAll delay => delay.toList
  | .stats args => args
  | .version => []

def Valid : Command → Prop
  | .gat _ exptime _ _ => IsSigned exptime
  | .store _ _ flags exptime size payload =>
    IsDecimal flags ∧ IsSigned exptime ∧ IsSize size payload.length
  | .cas _ flags exptime size unique payload =>
    IsDecimal flags ∧ IsSigned exptime ∧ IsSize size payload.length ∧ IsDecimal unique
  | .incr _ value | .decr _ value => IsDecimal value
  | .touch _ exptime => IsSigned exptime
  | .flushAll delay => ∀ w ∈ delay, IsSigned w
  | _ => True

/-- `noreply` may stand behind the arguments. -/
def AllowsNoreply : Command → Prop
  | .get .. | .gat .. | .stats _ | .version => False
  | _ => True

/-- The operation to be reported: the verb in upper case, `gets` and `gats`
counting as `get` and `gat`. -/
def op : Command → MemcachedOp
  | .get .. => .get
  | .gat .. => .gat
  | .store .set .. => .set
  | .store .add .. => .add
  | .store .replace .. => .replace
  | .store .append .. => .append
  | .store .prepend .. => .prepend
  | .cas .. => .cas
  | .delete _ => .delete
  | .incr .. => .incr
  | .decr .. => .decr
  | .touch .. => .touch
  | .flushAll _ => .flushAll
  | .stats _ => .stats
  | .version => .version

/-- The first key, of the commands that have one. -/
def key : Command → List UInt8
  | .get _ key _ | .gat _ _ key _ | .store _ key _ _ _ _ | .cas key _ _ _ _ _ | .delete key => key
  | .incr key _ | .decr key _ | .touch key _ => key
  | _ => []

/-- The data block. -/
def payload : Command → Option (List UInt8)
  | .store _ _ _ _ _ payload | .cas _ _ _ _ _ payload => some payload
  | _ => none

end Command

/-! ## Requests -/

structure Request where
  command : Command
  noreply : Bool
  text : List UInt8
  valid : command.Valid
  allowed : noreply = true → command.AllowsNoreply
  written : Spaced text (command.args ++ if noreply then [ascii "noreply"] else [])

namespace Request

def line (r : Request) : List UInt8 := r.command.verb ++ r.text

def block (r : Request) : List UInt8 := match r.command.payload with
  | none => []
  | some payload => payload ++ crlf

def wire (r : Request) : List UInt8 := r.line ++ (crlf ++ r.block)

/-- What is to be reported of it. -/
def report (r : Request) : MemcachedRequestOp := ⟨r.command.op, r.command.key, r.noreply⟩

end Request

def requestsWire (requests : List Request) : List UInt8 := requests.flatMap Request.wire

/-! ## Keys in the scratch memory -/

/-- The last argument is the word `noreply`, without being the option. -/
def Request.LooksNoreply (r : Request) : Prop :=
  r.noreply = false ∧ r.command.args.getLast? = some (ascii "noreply")

/-- The place of the first argument on the line. -/
def Request.keyPlace (r : Request) : Nat :=
  r.command.verb.length + (r.text.takeWhile (· = 32)).length

/-- The length of the scratch memory after a line was read, which is looked at with
its line end before. -/
def Request.lineCap (crosses : Nat → Nat → Bool) (pos cap : Nat) (r : Request) : Nat :=
  grown crosses pos r.line.length (grown crosses pos (r.line.length + 2) cap)

/-- The line and the data block both cross the end of a chunk, and the scratch
memory is long enough for the block: it is written over the line. -/
def Request.Overwritten (crosses : Nat → Nat → Bool) (pos cap : Nat) (r : Request) : Prop :=
  r.block ≠ [] ∧ crosses pos r.line.length = true ∧
    crosses (pos + (r.line.length + 2)) r.block.length = true ∧
    r.block.length ≤ r.lineCap crosses pos cap

/-- What of the data block lies where the key is agrees with the key. -/
def Request.KeyShown (r : Request) : Prop :=
  (r.block.drop r.keyPlace).take r.command.key.length <+: r.command.key

/-- No request ends in a word `noreply` that is not the option, and no key is
lost under a data block. -/
def KeysKept (crosses : Nat → Nat → Bool) : Nat → Nat → List Request → Prop
  | _, _, [] => True
  | pos, cap, r :: rest =>
    ¬ r.LooksNoreply ∧ (r.Overwritten crosses pos cap → r.KeyShown) ∧
      KeysKept crosses (pos + r.wire.length) (if r.block = [] then r.lineCap crosses pos cap
          else grown crosses (pos + (r.line.length + 2)) r.block.length
            (r.lineCap crosses pos cap)) rest

end Obi.Spec.Memcached
