import Obi.Ref.Redis

/-!
# Text protocols

What the text protocols are written with: words between blanks, decimal numbers,
and texts that blanks may stand around. In RESP a command and its arguments are the array
of bulk strings a client sends, and the text of a command is its words up to the first one
that cannot be printed.
-/

namespace Obi.Spec
open Lib Ref

/-- A space or a tab. -/
def IsBlank (b : UInt8) : Prop := b = 32 ∨ b = 9

instance (b : UInt8) : Decidable (IsBlank b) := inferInstanceAs (Decidable (_ ∨ _))

/-- No white space starts anywhere in these bytes. -/
def Solid (w : List UInt8) : Prop := ∀ s, s <:+ w → s ≠ [] → frontWidth whiteSpace s = 0

/-- The decimal digits of a number an `int` can hold; they may begin with
zeros. -/
def IsNumber (w : List UInt8) (n : Nat) : Prop :=
  w ≠ [] ∧ (∀ c ∈ w, IsDigit c) ∧ digitsFrom 0 w = n ∧ n < 2 ^ 63

/-- The text writes these words, each with blanks in front. -/
inductive Writes : List UInt8 → List (List UInt8) → Prop
  | blanks {text : List UInt8} (h : ∀ b ∈ text, IsBlank b) : Writes text []
  | word {sep w text : List UInt8} {words : List (List UInt8)} (hne : sep ≠ [])
      (hsep : ∀ b ∈ sep, IsBlank b) (hw : w ≠ []) (hsolid : Solid w) (h : Writes text words) :
      Writes (sep ++ (w ++ text)) (w :: words)

/-- The text is blanks, a text that does not begin or end with white space, and
blanks. -/
def Encloses (text inner : List UInt8) : Prop :=
  ∃ front back, text = front ++ (inner ++ back) ∧ front ≠ [] ∧ inner ≠ [] ∧
    (∀ b ∈ front, IsBlank b) ∧ (∀ b ∈ back, IsBlank b) ∧
    ∀ c ∈ whiteSpace, ¬ c <+: inner ∧ ¬ c <:+ inner

end Obi.Spec

namespace Obi.Spec.Resp
open Lib Ref

structure Command where
  op : List UInt8
  args : List (List UInt8)
  isOp : isRedisCommandToken op = true

def Command.tokens (c : Command) : List (List UInt8) := c.op :: c.args

def bulk (tok : List UInt8) : List UInt8 := 36 :: (decimal tok.length ++ crlf ++ tok ++ crlf)

def Command.encode (c : Command) : List UInt8 :=
  42 :: (decimal c.tokens.length ++ crlf ++ c.tokens.flatMap bulk)

def encodeAll (cmds : List Command) : List UInt8 := cmds.flatMap Command.encode

/-- The words, joined by spaces. -/
def commandText (op : List UInt8) (args : List (List UInt8)) : List UInt8 :=
  [32].intercalate (op :: args.takeWhile isPrintableToken)

def Command.view (c : Command) : RedisCommand := ⟨c.op, commandText c.op c.args⟩

/-- The command has no more than `2 ^ 30` strings, none longer than that. -/
def Command.Sized (c : Command) : Prop :=
  c.tokens.length ≤ 2 ^ 30 ∧ ∀ tok ∈ c.tokens, tok.length ≤ 2 ^ 30

end Obi.Spec.Resp
