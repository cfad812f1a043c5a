import Obi.Proofs.SliceReader
import Obi.Ref.Mssql

/-!
# Handles of SQL Server

The identifiers of the two integer types are exchanged: `0x26` is INTN, whose value comes
behind two lengths, and `0x38` is INT4, whose value comes at once. So the lengths of an INTN
are read as the low half of the handle and its own low half as the high one, and the first
byte of an INT4 is taken for a length.
-/

namespace Obi.Refine.Mssql
open Lib Ref Ref.Mssql List

/-! ## What the server and its clients send -/

def handleBytes (h : Nat) : List UInt8 :=
  [.ofNat h, .ofNat (h / 256), .ofNat (h / 65536), .ofNat (h / 16777216)]

/-- The two encodings of an integer of four bytes. -/
inductive TdsInt
  | intN | int4

def TdsInt.wire (h : Nat) : TdsInt → List UInt8
  | .intN => 0x26 :: 4 :: 4 :: handleBytes h
  | .int4 => 0x38 :: handleBytes h

/-- A name of UCS-2 characters. -/
structure ParamName where
  chars : Nat
  bytes : List UInt8
  chars_lt : chars < 256
  length : bytes.length = chars * 2

/-- The parameters of an `sp_execute` request, the value of the first in front of the rest. -/
def executeWire (name : ParamName) (status : UInt8) (rest : List UInt8) : List UInt8 :=
  .ofNat name.chars :: (name.bytes ++ status :: rest)

/-- A RETURNVALUE token: ordinal, name and metadata in front of the value. -/
structure ReturnValue where
  (o₁ o₂ : UInt8)
  name : ParamName
  metadata : List UInt8
  length : metadata.length = kMSSQLReturnValueMetadataLen

def ReturnValue.wire (t : ReturnValue) (rest : List UInt8) : List UInt8 :=
  kMSSQLTokenReturnValue :: t.o₁ :: t.o₂ :: .ofNat t.name.chars ::
    (t.name.bytes ++ t.metadata ++ rest)

structure TdsPacket where
  (typ status spid₁ spid₂ packetID window : UInt8)
  payload : List UInt8
  small : payload.length + 8 < 65536

def TdsPacket.wire (p : TdsPacket) : List UInt8 :=
  p.typ :: p.status :: .ofNat ((p.payload.length + 8) / 256) :: .ofNat (p.payload.length + 8) ::
    p.spid₁ :: p.spid₂ :: p.packetID :: p.window :: p.payload

/-- What both parsers make of an INTN. -/
def handleOfIntN (h : Nat) : Nat := 0x0404 + h % 65536 * 65536

theorem readU32LE_intN (h : Nat) (rest : List UInt8) :
    (orZero readU32LE (4 :: 4 :: (handleBytes h ++ rest))).1 = handleOfIntN h := by
  simp [orZero, readU32LE, handleBytes, handleOfIntN]
  omega

section
variable (name : ParamName)
include name

theorem ParamName.toNat_chars : (UInt8.ofNat name.chars).toNat * 2 = name.bytes.length := by
  rw [name.length, UInt8.toNat_ofNat', Nat.mod_eq_of_lt name.chars_lt]

/-! ## The request -/

theorem handle_value (status t : UInt8) (r : List UInt8) :
    parseHandleFromExecute (executeWire name status (t :: r)) =
      if t.toNat = kMSSQLTypeInt4 then (orZero readU32LE r).1
      else if t.toNat = kMSSQLTypeIntN ∧ (orZero readU8 r).1 = 4 then
        (orZero readU32LE (orZero readU8 r).2).1
      else 0 := by
  have hskip (xs ys : List UInt8) : skip xs.length (xs ++ ys) = some ys := by simp [skip]
  simp only [parseHandleFromExecute, executeWire, readU8, name.toNat_chars, hskip,
    Option.bind_eq_bind, Option.bind_some, show skip 1 (status :: t :: r) = _ from hskip [_] _]
  split
  · rfl
  split
  · next hN =>
    cases r with
    | nil => simp [orZero, readU8]
    | cons b r => by_cases hb : b.toNat = 4 <;> simp [orZero, readU8, hN, hb]
  · next hN => simp [hN]

theorem handle_intN (status : UInt8) (h : Nat) (rest : List UInt8) :
    parseHandleFromExecute (executeWire name status (TdsInt.intN.wire h ++ rest)) =
      handleOfIntN h := by
  rw [TdsInt.wire, cons_append, handle_value, if_pos (by decide)]
  exact readU32LE_intN h rest

/-- The first byte is taken for the length. -/
theorem handle_int4 (status : UInt8) {h : Nat} (hlow : h % 256 ≠ 4) (rest : List UInt8) :
    parseHandleFromExecute (executeWire name status (TdsInt.int4.wire h ++ rest)) = 0 := by
  rw [TdsInt.wire, cons_append, handle_value, if_neg (by decide),
    if_neg (fun hlen => hlow (by simpa [handleBytes, orZero, readU8] using hlen.2))]

/-- Three bytes are left behind the one that is taken for the length. -/
theorem handle_int4_last (status : UInt8) (h : Nat) :
    parseHandleFromExecute (executeWire name status (TdsInt.int4.wire h)) = 0 := by
  rw [TdsInt.wire, handle_value, if_neg (by decide)]
  split <;> rfl

end

/-! ## The response -/

variable {packets : List TdsPacket} {b : LargeBuffer}

/-- One round: a packet that is there is there in whatever chunks. -/
theorem payloadsFrom_succ (rounds offset : Nat) : payloadsFrom b (rounds + 1) offset =
    if b.total < offset + 8 then some []
    else
      let pktLen := bigEndian ((b.cloneBytes.drop (offset + 2)).take 2)
      if pktLen < 8 ∨ b.total < offset + pktLen then some []
      else (payloadsFrom b rounds (offset + pktLen)).map
        ((b.cloneBytes.drop (offset + 8)).take (pktLen - 8) ++ ·) := by
  simp only [payloadsFrom, viewAt_eq, kMSSQLHeaderLen]
  split
  · rfl
  rw [if_pos (by omega), Option.map_some]
  simp only
  split
  · rfl
  · rw [if_pos (by omega)]

theorem payloadsFrom_packets (pre : List UInt8) {rounds : Nat}
    (hbytes : b.cloneBytes = pre ++ packets.flatMap TdsPacket.wire)
    (hrounds : packets.length < rounds) :
    payloadsFrom b rounds pre.length = some (packets.flatMap TdsPacket.payload) := by
  obtain ⟨rounds, rfl⟩ : ∃ n, rounds = n + 1 := ⟨rounds - 1, by omega⟩
  have htotal : b.total = b.cloneBytes.length := b.total_eq
  induction packets generalizing pre rounds with
  | nil => rw [payloadsFrom_succ, if_pos (by simp [htotal, hbytes]), flatMap_nil]
  | cons p rest ih =>
    obtain ⟨rounds, rfl⟩ : ∃ n, rounds = n + 1 := ⟨rounds - 1, by simp at hrounds; omega⟩
    have hsmall := p.small
    have hlen : p.wire.length = p.payload.length + 8 := rfl
    have hnext := ih (pre ++ p.wire) (by simp [hbytes]) rounds (by simpa using hrounds)
    have hpkt : bigEndian ((b.cloneBytes.drop (pre.length + 2)).take 2) =
        p.payload.length + 8 := by
      simp [hbytes, TdsPacket.wire, bigEndian]
      omega
    rw [length_append, hlen] at hnext
    rw [payloadsFrom_succ, if_neg (by simp [htotal, hbytes, hlen]; omega)]
    simp only [hpkt, hnext, Option.map_some]
    rw [if_neg (by simp [htotal, hbytes, hlen])]
    simp [hbytes, TdsPacket.wire]

theorem extract_packets (hbytes : b.cloneBytes = packets.flatMap TdsPacket.wire) :
    extractTDSPayloads b = some (packets.flatMap TdsPacket.payload) := by
  have htotal : b.total = b.cloneBytes.length := b.total_eq
  refine payloadsFrom_packets [] hbytes (Nat.lt_succ_of_le ?_)
  rw [htotal, hbytes, length_flatMap, ← length_map]
  exact length_le_sum_of_one_le _ (by simp [TdsPacket.wire])

theorem token_not_found {r : List UInt8} (h : kMSSQLTokenReturnValue ∉ r) :
    r.findIdx? (· == kMSSQLTokenReturnValue) = none := by
  rw [findIdx?_eq_none_iff]
  intro x hx
  rw [beq_eq_false_iff_ne]
  rintro rfl
  exact h hx

/-- What is left of a response without a token is passed over. -/
theorem returnValueFrom_none {r : List UInt8} (h : kMSSQLTokenReturnValue ∉ r) (rounds : Nat) :
    returnValueFrom rounds r = 0 := by
  cases rounds with
  | zero => rfl
  | succ rounds => rw [returnValueFrom, token_not_found h]

section
variable {before rest : List UInt8} {t : ReturnValue} {h : Nat}
  (hbytes : b.cloneBytes = packets.flatMap TdsPacket.wire)
  (hbefore : kMSSQLTokenReturnValue ∉ before)
include hbytes hbefore

/-- The first token is found, and its value looked at. -/
theorem value_prepared {typ : UInt8} {v : List UInt8}
    (hpayload : packets.flatMap TdsPacket.payload = before ++ t.wire (typ :: v)) :
    ∃ rounds, parseHandleFromPrepareResponse b =
      if typ.toNat = kMSSQLTypeInt4 then
        if 4 ≤ v.length then (orZero readU32LE v).1 else returnValueFrom rounds v
      else if typ.toNat = kMSSQLTypeIntN then
        let (length, r) := orZero readU8 v
        if length = 4 ∧ 4 ≤ r.length then (orZero readU32LE r).1 else returnValueFrom rounds r
      else returnValueFrom rounds v := by
  have hfind : (before ++ t.wire (typ :: v)).findIdx? (· == kMSSQLTokenReturnValue) =
      some before.length := by
    simp [findIdx?_append, token_not_found hbefore, ReturnValue.wire, findIdx?_cons]
  have hdrop : (before ++ t.wire (typ :: v)).drop (before.length + 1) =
      t.o₁ :: t.o₂ :: .ofNat t.name.chars :: (t.name.bytes ++ t.metadata ++ typ :: v) := by
    simp [ReturnValue.wire]
  have hmeta : t.name.bytes.length + kMSSQLReturnValueMetadataLen =
      (t.name.bytes ++ t.metadata).length := by
    rw [length_append, t.length]
  have hcons (b : UInt8) (r : List UInt8) : orZero readU8 (b :: r) = (b.toNat, r) := rfl
  refine ⟨(before ++ t.wire (typ :: v)).length, ?_⟩
  rw [parseHandleFromPrepareResponse, extract_packets hbytes, Option.getD_some, hpayload,
    returnValueFrom, hfind]
  simp only [hdrop, drop_succ_cons, drop_zero, hcons, t.name.toNat_chars, hmeta, drop_left]
  rw [if_neg (by simp), if_neg (by rw [length_append, length_cons]; omega)]

theorem handle_prepared (hpayload : packets.flatMap TdsPacket.payload =
      before ++ t.wire (TdsInt.intN.wire h ++ rest)) :
    parseHandleFromPrepareResponse b = handleOfIntN h := by
  obtain ⟨rounds, hvalue⟩ := value_prepared hbytes hbefore hpayload
  rw [hvalue, if_pos (by decide), if_pos (by simp [handleBytes])]
  exact readU32LE_intN h rest

/-- An INT4 is passed over, its first byte not being the length it is taken for. -/
theorem int4_passed_over (hlow : h % 256 ≠ 4)
    (hrest : kMSSQLTokenReturnValue ∉ handleBytes h ++ rest)
    (hpayload : packets.flatMap TdsPacket.payload =
      before ++ t.wire (TdsInt.int4.wire h ++ rest)) :
    parseHandleFromPrepareResponse b = 0 := by
  have hbyte : orZero readU8 (handleBytes h ++ rest) = (h % 256, (handleBytes h).tail ++ rest) := by
    simp [orZero, readU8, handleBytes]
  rw [TdsInt.wire, cons_append] at hpayload
  obtain ⟨rounds, hvalue⟩ := value_prepared hbytes hbefore hpayload
  rw [hvalue, if_neg (by decide), if_pos (by decide), hbyte]
  simp only
  rw [if_neg (fun hlen => hlow hlen.1)]
  exact returnValueFrom_none (fun hmem => hrest (mem_cons_of_mem _ hmem)) rounds

end

/-! ## Which handles are read -/

/-- A handle is read from requests, and from responses however they are cut into packets and
the packets into chunks. -/
def HandleRead (e : TdsInt) (h : Nat) : Prop :=
  (∀ name status rest, parseHandleFromExecute (executeWire name status (e.wire h ++ rest)) = h) ∧
  ∀ (b : LargeBuffer) packets before (t : ReturnValue) rest,
    b.cloneBytes = flatMap TdsPacket.wire packets → kMSSQLTokenReturnValue ∉ before →
    flatMap TdsPacket.payload packets = before ++ t.wire (e.wire h ++ rest) →
    parseHandleFromPrepareResponse b = h

def nameA : ParamName := ⟨1, [97, 0], by decide, rfl⟩

/-- One handle is read, and only as an INTN. A statement is found under every handle that has
the low half of the one it was prepared with, if both come as an INTN; under an INT4 whose low
byte is not 4, none is kept and none is found. -/
theorem handles_mixed_up {h : Nat} (hpos : 0 < h) (hlt : h < 4294967296) :
    (∀ e, HandleRead e h ↔ e = .intN ∧ h = 0x04040404) ∧
    ∀ {C : Type} [DecidableEq C] (cache : Table (C × Nat) String) connInfo (b : LargeBuffer)
      packets before (t : ReturnValue) rest name status rest' h' stmt,
      b.cloneBytes = flatMap TdsPacket.wire packets → kMSSQLTokenReturnValue ∉ before →
      stmt ≠ "" →
      let request (e : TdsInt) := executeWire name status (e.wire h' ++ rest')
      (flatMap TdsPacket.payload packets = before ++ t.wire (TdsInt.intN.wire h ++ rest) →
        getPrepared (addPrepared cache connInfo b stmt) connInfo (request .intN) =
          if h' % 65536 = h % 65536 then some stmt
          else getPrepared cache connInfo (request .intN)) ∧
      (flatMap TdsPacket.payload packets = before ++ t.wire (TdsInt.int4.wire h ++ rest) →
        h % 256 ≠ 4 → kMSSQLTokenReturnValue ∉ handleBytes h ++ rest →
        addPrepared cache connInfo b stmt = cache) ∧
      (h' % 256 ≠ 4 → getPrepared cache connInfo (request .int4) = none) := by
  refine ⟨fun e => ?_, ?_⟩
  · have heq : handleOfIntN h = h ↔ h = 0x04040404 := by
      rw [handleOfIntN]
      omega
    cases e with
    | intN =>
      simp only [true_and, ← heq]
      refine ⟨fun hread => ?_, fun hread => ⟨fun name status rest => ?_, ?_⟩⟩
      · rw [← handle_intN nameA 0 h [], hread.1]
      · rw [handle_intN, hread]
      · intro b packets before t rest hbytes hbefore hpayload
        rw [handle_prepared hbytes hbefore hpayload, hread]
    | int4 =>
      simp only [reduceCtorEq, false_and, iff_false]
      intro hread
      have hzero := hread.1 nameA 0 []
      rw [append_nil, handle_int4_last] at hzero
      omega
  · intro C _ cache connInfo b packets before t rest name status rest' h' stmt hbytes hbefore
      hstmt request
    refine ⟨fun hpayload => ?_, fun hpayload hlow hrest => ?_, fun hlow => ?_⟩
    · have hne : ∀ h, handleOfIntN h ≠ 0 := fun h => by rw [handleOfIntN]; omega
      have hsame : handleOfIntN h' = handleOfIntN h ↔ h' % 65536 = h % 65536 := by
        simp only [handleOfIntN]
        omega
      simp [request, getPrepared, addPrepared, handle_prepared hbytes hbefore hpayload,
        handle_intN, hne, hstmt, Table.get_insert, hsame]
    · simp [addPrepared, int4_passed_over hbytes hbefore hlow hrest hpayload]
    · simp [request, getPrepared, handle_int4 name status hlow]

theorem handles_mixed_up_exception : HandleRead .intN 0x04040404 :=
  ((handles_mixed_up (h := 0x04040404) (by decide) (by decide)).1 .intN).mpr ⟨rfl, rfl⟩

/-- Handles 1 and 65537 are read as the same other one, and an INT4 is not read. -/
theorem handle_one_misread :
    parseHandleFromExecute (executeWire nameA 0 (TdsInt.intN.wire 1)) = 0x10404 ∧
    parseHandleFromExecute (executeWire nameA 0 (TdsInt.intN.wire 65537)) = 0x10404 ∧
    parseHandleFromExecute (executeWire nameA 0 (TdsInt.int4.wire 1)) = 0 := by
  decide

end Obi.Refine.Mssql
