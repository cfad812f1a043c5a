import Obi.Ref.Nats
import Obi.Spec.Text

/-!
# NATS frames

A frame is a command with its arguments, or with a text, on a line of its own.
The letters of a command may be of either case. Arguments are words with blanks
between them; a frame that carries a message has its payload behind the line,
with a line end of its own.
-/

namespace Obi.Spec.Nats
open Lib Ref Ref.Nats

inductive Kind
  | ok | err | ping | pong
  | info (payload : List UInt8)
  | connect (payload name : List UInt8)
  | sub (subject : List UInt8) (queue : Option (List UInt8)) (sid : List UInt8)
  | unsub (sid : List UInt8) (maxMsgs : Option (List UInt8))
  | pub (subject : List UInt8) (replyTo : Option (List UInt8)) (size payload : List UInt8)
  | msg (subject sid : List UInt8) (replyTo : Option (List UInt8)) (size payload : List UInt8)
  | hpub (subject : List UInt8) (replyTo : Option (List UInt8)) (header total payload : List UInt8)
  | hmsg (subject sid : List UInt8) (replyTo : Option (List UInt8))
      (header total payload : List UInt8)

namespace Kind

def command : Kind → List UInt8
  | .ok => ascii "+OK"
  | .err => ascii "-ERR"
  | .ping => ascii "PING"
  | .pong => ascii "PONG"
  | .info _ => ascii "INFO"
  | .connect .. => ascii "CONNECT"
  | .sub .. => ascii "SUB"
  | .unsub .. => ascii "UNSUB"
  | .pub .. => ascii "PUB"
  | .msg .. => ascii "MSG"
  | .hpub .. => ascii "HPUB"
  | .hmsg .. => ascii "HMSG"

/-- The arguments, of the commands that have some. -/
def words : Kind → List (List UInt8)
  | .sub subject queue sid => subject :: (queue.toList ++ [sid])
  | .unsub sid maxMsgs => sid :: maxMsgs.toList
  | .pub subject replyTo size _ => subject :: (replyTo.toList ++ [size])
  | .msg subject sid replyTo size _ => subject :: sid :: (replyTo.toList ++ [size])
  | .hpub subject replyTo header total _ => subject :: (replyTo.toList ++ [header, total])
  | .hmsg subject sid replyTo header total _ =>
    subject :: sid :: (replyTo.toList ++ [header, total])
  | _ => []

/-- What may stand behind the command on its line. -/
def Written (k : Kind) (text : List UInt8) : Prop := match k with
  | .ok | .err | .ping | .pong => 13 ∉ text ∧ ∀ b, text.head? = some b → IsBlank b
  | .info payload | .connect payload _ => 13 ∉ text ∧ Encloses text payload
  | _ => Writes text k.words

/-- The arguments are what the protocol wants. -/
def Valid (json : NatsJson) : Kind → Prop
  | .info payload => json.valid payload = true
  | .connect payload name => json.valid payload = true ∧ json.connectName payload = some name
  | .sub _ _ sid => isASCIIAlnumBytes sid = true
  | .unsub sid maxMsgs => isASCIIAlnumBytes sid = true ∧ ∀ w ∈ maxMsgs, ∃ n, IsNumber w n
  | .pub _ _ size payload => IsNumber size payload.length
  | .msg _ sid _ size payload => isASCIIAlnumBytes sid = true ∧ IsNumber size payload.length
  | .hpub _ _ header total payload =>
    (∃ n, IsNumber header n ∧ n ≤ payload.length) ∧ IsNumber total payload.length
  | .hmsg _ sid _ header total payload =>
    isASCIIAlnumBytes sid = true ∧ (∃ n, IsNumber header n ∧ n ≤ payload.length) ∧
      IsNumber total payload.length
  | _ => True

/-- The message a frame carries: how it came, its subject and its payload. -/
def message : Kind → Option (MessagingOperation × List UInt8 × List UInt8)
  | .pub subject _ _ payload | .hpub subject _ _ _ payload => some (.publish, subject, payload)
  | .msg subject _ _ _ payload | .hmsg subject _ _ _ _ payload => some (.process, subject, payload)
  | _ => none

/-- The name of the client after the frame. -/
def clientID : Kind → List UInt8 → List UInt8
  | .connect _ name, before => if name = [] then before else name
  | _, before => before

end Kind

structure Frame (json : NatsJson) where
  kind : Kind
  (spelled text : List UInt8)
  folds : equalFoldASCII spelled kind.command = true
  written : kind.Written text
  valid : kind.Valid json

variable {json : NatsJson}

namespace Frame

def line (f : Frame json) : List UInt8 := f.spelled ++ f.text

def wire (f : Frame json) : List UInt8 :=
  f.line ++ (crlf ++ match f.kind.message with
    | none => []
    | some (_, _, payload) => payload ++ crlf)

end Frame

def framesWire (frames : List (Frame json)) : List UInt8 := frames.flatMap Frame.wire

/-- What is to be reported of a capture. -/
def report : List UInt8 → List (Frame json) → EventResult
  | _, [] => (none, true, none)
  | name, f :: rest => match f.kind.message with
    | some (operation, subject, payload) =>
      (some ⟨operation, subject, name, payload.length⟩, false, none)
    | none => report (f.kind.clientID name) rest

/-! ## Lines in the scratch memory -/

/-- The control line crosses the end of a chunk, and so does the line end: the
line end is written over the first two bytes of the line. -/
def Frame.Overwritten (crosses : Nat → Nat → Bool) (pos : Nat) (f : Frame json) : Prop :=
  crosses pos f.line.length = true ∧ crosses (pos + f.line.length) 2 = true

/-- UNSUB with a number of messages, which is still accepted without its first
two letters. -/
def Frame.IsUnsubMax (f : Frame json) : Prop := ∃ sid maxMsgs, f.kind = .unsub sid (some maxMsgs)

/-- No control line up to that of the first message is written over, but for
UNSUB with a number of messages. -/
def LinesKept (crosses : Nat → Nat → Bool) : Nat → List (Frame json) → Prop
  | _, [] => True
  | pos, f :: rest =>
    (f.Overwritten crosses pos → f.IsUnsubMax) ∧
      (f.kind.message = none → LinesKept crosses (pos + f.wire.length) rest)

end Obi.Spec.Nats
