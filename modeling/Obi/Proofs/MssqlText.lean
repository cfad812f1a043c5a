import Obi.Proofs.Mssql

/-!
# Text of SQL Server survives its packets

A statement is sent as UTF-16, cut into packets at any byte, and the packets come in chunks.
Taking the headers out puts the bytes together again whatever the cuts were, because every
read of the loop over the packets goes through `UnsafeViewAt`. The decoder then takes one unit
or two, never more than a character has.
-/

namespace Obi.Refine.Mssql
open Lib Ref Ref.Mssql List

/-! ## UTF-16 -/

def unitBytes (u : Nat) : List UInt8 := [.ofNat u, .ofNat (u / 256)]

def utf16LE (c : Char) : List UInt8 :=
  if c.toNat < 0x10000 then unitBytes c.toNat
  else unitBytes (0xd800 + (c.toNat - 0x10000) / 1024) ++
    unitBytes (0xdc00 + (c.toNat - 0x10000) % 1024)

theorem unit_unitBytes {u : Nat} (h : u < 65536) :
    unit (.ofNat u) (.ofNat (u / 256)) = u := by
  simp [unit]
  omega

theorem runeBytes_char (c : Char) : runeBytes c.toNat = String.utf8EncodeChar c := by
  have hvalid : c.toNat.isValidChar := c.valid
  rw [runeBytes, if_pos hvalid, Char.ofNat_toNat]

theorem ucs2_unit {u : Nat} (hu : u < 65536) (hsur : isSurrogate u = false) (r : List UInt8) :
    ucs2ToUTF8 (unitBytes u ++ r) = runeBytes u ++ ucs2ToUTF8 r := by
  match r with
  | [] | [x] => simp [unitBytes, ucs2ToUTF8, unit_unitBytes hu]
  | x :: y :: r => simp [unitBytes, ucs2ToUTF8, unit_unitBytes hu, hsur]

theorem ucs2_char (c : Char) (r : List UInt8) :
    ucs2ToUTF8 (utf16LE c ++ r) = String.utf8EncodeChar c ++ ucs2ToUTF8 r := by
  have hvalid : c.toNat < 0xd800 ∨ 0xdfff < c.toNat ∧ c.toNat < 0x110000 := c.valid
  rw [← runeBytes_char, utf16LE]
  split
  · next hlt =>
    refine ucs2_unit hlt ?_ r
    simp only [isSurrogate, decide_eq_false_iff_not]
    omega
  · next hlt =>
    have hpair : decodeRune (0xd800 + (c.toNat - 0x10000) / 1024)
        (0xdc00 + (c.toNat - 0x10000) % 1024) = some c.toNat := by
      rw [decodeRune, if_pos (by omega), Option.some.injEq]
      omega
    have hsur : isSurrogate (0xd800 + (c.toNat - 0x10000) / 1024) = true := by
      simp only [isSurrogate, decide_eq_true_eq]
      omega
    simp only [unitBytes, cons_append, nil_append, ucs2ToUTF8]
    rw [unit_unitBytes (by omega), unit_unitBytes (by omega), if_pos hsur, hpair]

theorem ucs2_text (s : List Char) :
    ucs2ToUTF8 (s.flatMap utf16LE) = s.flatMap String.utf8EncodeChar := by
  induction s with
  | nil => rfl
  | cons c s ih => rw [flatMap_cons, ucs2_char, ih, flatMap_cons]

/-! ## The packets -/

/-- Every packet takes its header at least, so the loop ends before it is out of rounds. -/
theorem payloadsFrom_ends {b : LargeBuffer} {offset rounds : Nat} (hoff : offset ≤ b.total)
    (h : b.total < offset + rounds) : (payloadsFrom b rounds offset).isSome := by
  induction rounds generalizing offset with
  | zero => omega
  | succ rounds ih =>
    rw [payloadsFrom_succ]
    split
    · rfl
    simp only
    split
    · rfl
    · rw [Option.isSome_map]
      exact ih (by omega) (by omega)

/-- The loop over the packets ends on every buffer, and the text comes out of its packets,
however it is cut into them and they into chunks. -/
theorem text_survives_packets (b : LargeBuffer) :
    (extractTDSPayloads b).isSome ∧
    ∀ (s : String) packets, b.cloneBytes = flatMap TdsPacket.wire packets →
      flatMap TdsPacket.payload packets = s.toList.flatMap utf16LE →
      (extractTDSPayloads b).map ucs2ToUTF8 = some (s.toList.flatMap String.utf8EncodeChar) := by
  refine ⟨payloadsFrom_ends (Nat.zero_le _) (by omega), fun s packets hbytes htext => ?_⟩
  rw [extract_packets hbytes, Option.map_some, htext, ucs2_text]

def packetOf (payload : List UInt8) (small : payload.length + 8 < 65536) : TdsPacket :=
  ⟨1, 0, 0, 0, 1, 0, payload, small⟩

/-- An `a` and a clef, cut inside both of them, with an empty packet between. -/
def clefPackets : List TdsPacket :=
  [packetOf [97] (by decide), packetOf [] (by decide),
    packetOf [0, 0x34, 0xd8, 0x1e] (by decide), packetOf [0xdd] (by decide)]

/-- The packets are cut inside a header. -/
theorem text_survives_packets_clef :
    let wire := clefPackets.flatMap TdsPacket.wire
    (extractTDSPayloads (bufferOf [wire.take 11, [], wire.drop 11])).map ucs2ToUTF8 =
      some [97, 0xf0, 0x9d, 0x84, 0x9e] :=
  (text_survives_packets _).2 "a𝄞" clefPackets (by decide) (by decide)

end Obi.Refine.Mssql
