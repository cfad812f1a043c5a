import Obi.Ref.Mqtt

/-!
# SUBSCRIBE packets, MQTT 3.1.1 and 5.0

A packet of either version: its identifier, the properties if it is 5.0, and its
topic filters, each with the options it is subscribed with.
-/

namespace Obi.Spec.Mqtt
open Ref.Mqtt

/-- Two bytes, the high one first. -/
def twoBytes (n : Nat) : List UInt8 := [UInt8.ofNat (n / 256), UInt8.ofNat n]

structure Entry where
  topicFilter : List UInt8
  options : UInt8
  fits : topicFilter.length < 65536

def Entry.wire (e : Entry) : List UInt8 :=
  twoBytes e.topicFilter.length ++ (e.topicFilter ++ [e.options])

def Entry.subscription (e : Entry) : Subscription := ⟨e.topicFilter, e.options &&& 0x03⟩

def entriesWire (entries : List Entry) : List UInt8 := entries.flatMap Entry.wire

/-- A variable byte integer: seven bits a byte, the lowest first, four bytes at
most. -/
def IsVariableByteInteger (n : Nat) (w : List UInt8) : Prop :=
  ∃ front last, w = front ++ [last] ∧ (∀ b ∈ front, 128 ≤ b) ∧ last < 128 ∧ w.length ≤ 4 ∧
    n = w.foldr (fun b n => b.toNat % 128 + 128 * n) 0

/-- The properties of a 5.0 packet, with their length in front. -/
def IsProperties (w : List UInt8) : Prop :=
  ∃ len properties, IsVariableByteInteger properties.length len ∧ w = len ++ properties

/-- A SUBSCRIBE packet. `front` is what stands between the identifier and the
topic filters. -/
structure Subscribe where
  packetID : UInt16
  front : List UInt8
  entries : List Entry
  nonempty : entries ≠ []
  conforms : (front = [] ∧ ∀ e ∈ entries, e.options ≤ 0x02) ∨ IsProperties front

namespace Subscribe

def subscriptions (p : Subscribe) : List Subscription := p.entries.map Entry.subscription

/-- What follows the identifier. -/
def body (p : Subscribe) : List UInt8 := p.front ++ entriesWire p.entries

def wire (p : Subscribe) : List UInt8 := twoBytes p.packetID.toNat ++ p.body

end Subscribe

/-- No topic filter with its options is there as a whole. -/
def Incomplete (w : List UInt8) : Prop := ∀ (e : Entry) (t : List UInt8), w ≠ e.wire ++ t

end Obi.Spec.Mqtt
