import Mathlib.Tactic.Ring
import Obi.Lib.Bits
import Obi.Spec.Mqtt

/-!
# When a SUBSCRIBE packet is read as what it is

The filters are read as 3.1.1 as long as they can be. A 5.0 packet whose
properties pass for filters of 3.1.1 is taken for one: if what follows them is
not a filter, it is dropped. Every other packet is read as it was sent.
-/

namespace Obi.Refine
open Lib Ref.Mqtt Spec.Mqtt List PacketReader Nat

/-! ## Two bytes -/

theorem uint16_of_bytes (hi lo : UInt8) :
    (hi.toUInt16 <<< 8 ||| lo.toUInt16).toNat = hi.toNat * 256 + lo.toNat := by
  have hhi := hi.toNat_lt
  have hlo := lo.toNat_lt
  have hshift : (hi.toNat <<< 8) % 2 ^ 16 = hi.toNat <<< 8 := by exact mod_eq_of_lt (by omega)
  change hi.toNat <<< 8 % 2 ^ 16 ||| lo.toNat = _
  rw [hshift, ← shiftLeft_add_eq_or_of_lt hlo, shiftLeft_eq]

theorem twoBytes_toNat (hi lo : UInt8) : twoBytes (hi.toNat * 256 + lo.toNat) = [hi, lo] := by
  have hhi := hi.toNat_lt
  have hlo := lo.toNat_lt
  have hhigh : UInt8.ofNat ((hi.toNat * 256 + lo.toNat) / 256) = hi := by
    rw [← UInt8.toNat_inj, UInt8.toNat_ofNat']
    omega
  have hlow : UInt8.ofNat (hi.toNat * 256 + lo.toNat) = lo := by
    rw [← UInt8.toNat_inj, UInt8.toNat_ofNat']
    omega
  rw [twoBytes, hhigh, hlow]

variable {w s rest before : List UInt8} {n : Nat} {p : Subscribe}

theorem twoBytes_value (hn : n < 65536) :
    ((UInt8.ofNat (n / 256)).toUInt16 <<< 8 ||| (UInt8.ofNat n).toUInt16).toNat = n := by
  rw [uint16_of_bytes, UInt8.toNat_ofNat', UInt8.toNat_ofNat']
  omega

/-! ## The reader -/

section
variable {r : PacketReader} {l t : List UInt8}

/-- What is ahead of the reader. -/
structure Ahead (r : PacketReader) (l : List UInt8) : Prop where
  offset_le : r.offset ≤ r.pkt.length
  drop : r.pkt.drop r.offset = l

theorem Ahead.forward (h : Ahead r (w ++ t)) :
    Ahead { r with offset := r.offset + w.length } t := by
  have hlen := congrArg length h.drop
  rw [length_drop, length_append] at hlen
  refine ⟨?_, ?_⟩
  · change r.offset + w.length ≤ r.pkt.length
    have hle := h.offset_le
    omega
  · rw [← drop_drop, h.drop, drop_left]

theorem Ahead.getElem? (h : Ahead r l) (i : Nat) : r.pkt[r.offset + i]? = l[i]? := by
  rw [← h.drop, getElem?_drop]

theorem Ahead.remaining (h : Ahead r l) : r.remaining = l.length := by
  rw [PacketReader.remaining, ← length_drop, h.drop]

theorem readUint8_cons {b : UInt8} (h : Ahead r (b :: t)) :
    r.readUint8 = (.ok b, { r with offset := r.offset + 1 }) := by
  have hb := h.getElem? 0
  rw [add_zero] at hb
  rw [readUint8, hb]
  rfl

theorem readUint8_nil (h : Ahead r []) : r.readUint8 = (.error .notEnoughData, r) := by
  have hb := h.getElem? 0
  rw [add_zero] at hb
  rw [readUint8, hb]
  rfl

theorem readUint16_cons {hi lo : UInt8} (h : Ahead r (hi :: lo :: t)) :
    r.readUint16 =
      (.ok (hi.toUInt16 <<< 8 ||| lo.toUInt16), { r with offset := r.offset + 2 }) := by
  have hhi := h.getElem? 0
  have hlo := h.getElem? 1
  rw [add_zero] at hhi
  rw [readUint16, hhi, hlo]
  rfl

theorem readUint16_short (h : Ahead r l) (hsh : l.length < 2) :
    r.readUint16 = (.error .notEnoughData, r) := by
  have hnone : l[1]? = none := getElem?_eq_none (le_of_lt_succ hsh)
  rw [readUint16, h.getElem? 1, hnone]
  cases r.pkt[r.offset]? with
  | none | some b => rfl

theorem readString_twoBytes (hs : s.length < 65536) (h : Ahead r (twoBytes s.length ++ (s ++ t))) :
    ∃ r', r.readString = (.ok s, r') ∧ Ahead r' t := by
  have hbeh := h.forward
  rw [readString, readUint16_cons h]
  simp only [twoBytes_value hs]
  have hfits : ¬ r.offset + 2 + s.length > r.pkt.length := by
    have hend := hbeh.forward.offset_le
    exact not_lt.mpr hend
  rw [if_neg hfits]
  refine ⟨_, ?_, hbeh.forward⟩
  have htake : (r.pkt.drop (r.offset + 2)).take s.length = s := by
    rw [show r.pkt.drop (r.offset + 2) = s ++ t from hbeh.drop, take_left]
  rw [htake]
  rfl

/-- A topic filter and its options are read. -/
theorem readEntry {e : Entry} (h : Ahead r (e.wire ++ t)) :
    ∃ r1 r2, r.readString = (.ok e.topicFilter, r1) ∧ r1.readUint8 = (.ok e.options, r2) ∧
      Ahead r2 t := by
  rw [Entry.wire, append_assoc, append_assoc] at h
  obtain ⟨r1, hstr, hahead⟩ := readString_twoBytes e.fits h
  exact ⟨r1, _, hstr, readUint8_cons hahead, hahead.forward⟩

/-- What is read as a topic filter and its options is one. -/
theorem readEntry_inv (h : Ahead r l) {o : UInt8} {r1 r2 : PacketReader}
    (hstr : r.readString = (.ok s, r1)) (hopts : r1.readUint8 = (.ok o, r2)) :
    ∃ (e : Entry) (t : List UInt8), l = e.wire ++ t := by
  match l, h with
  | [], h =>
    rw [readString, readUint16_short h (by decide)] at hstr
    cases hstr
  | [b], h =>
    rw [readString, readUint16_short h (lt_succ_self 1)] at hstr
    cases hstr
  | hi :: lo :: t, h =>
    have hbeh : Ahead { r with offset := r.offset + 2 } t := h.forward (w := [hi, lo])
    rw [readString, readUint16_cons h] at hstr
    simp only [uint16_of_bytes] at hstr
    split at hstr
    · cases hstr
    · next hfits =>
      cases hstr
      have hlen := congrArg length hbeh.drop
      rw [length_drop] at hlen
      have hsize : hi.toNat * 256 + lo.toNat ≤ t.length := by
        have hle := hbeh.offset_le
        simp only at hlen hle
        omega
      obtain ⟨s, t', rfl, hs⟩ : ∃ s t', t = s ++ t' ∧ s.length = hi.toNat * 256 + lo.toNat :=
        ⟨t.take _, t.drop _, (take_append_drop _ _).symm, length_take_of_le hsize⟩
      rw [← hs] at hopts
      cases t' with
      | nil =>
        rw [readUint8_nil hbeh.forward] at hopts
        cases hopts
      | cons o t =>
        have hhi := hi.toNat_lt
        have hlo := lo.toNat_lt
        refine ⟨⟨s, o, by omega⟩, t, ?_⟩
        change hi :: lo :: (s ++ o :: t) = twoBytes s.length ++ (s ++ [o]) ++ t
        rw [hs, twoBytes_toNat]
        simp

theorem readUint8_pkt (r : PacketReader) : r.readUint8.2.pkt = r.pkt := by
  rw [readUint8]
  split
  · rfl
  · rfl

theorem readString_pkt (r : PacketReader) : r.readString.2.pkt = r.pkt := by
  rw [readString, readUint16]
  cases r.pkt[r.offset]? with
  | none => rfl
  | some hi =>
    cases r.pkt[r.offset + 1]? with
    | none => rfl
    | some lo =>
      simp only
      split
      · rfl
      · rfl

end

/-! ## Topic filters -/

section
variable {r : PacketReader} {l t : List UInt8} {e : Entry} {v : ProtocolLevel}
  {subscriptions : List Subscription}

theorem subLoop_pkt (v : ProtocolLevel) (rounds : Nat)
    (subscriptions : List Subscription) (r : PacketReader) :
    (subscriptionLoop v rounds subscriptions r).2.pkt = r.pkt := by
  induction rounds generalizing subscriptions r with
  | zero => rfl
  | succ rounds ih =>
    rw [subscriptionLoop]
    have hstr := readString_pkt r
    split
    · rcases hread : r.readString with ⟨e | s, r1⟩
      · rw [hread] at hstr
        exact hstr
      rw [hread] at hstr
      have hopts := readUint8_pkt r1
      simp only
      rcases hread₁ : r1.readUint8 with ⟨e | o, r2⟩
      · rw [hread₁] at hopts
        exact hopts.trans hstr
      rw [hread₁] at hopts
      simp only
      split
      · exact hopts.trans hstr
      · rw [ih]
        exact hopts.trans hstr
    · rfl

theorem length_wire_pos (e : Entry) : 0 < e.wire.length := succ_pos _

/-- A filter that is there is read, and its options are looked at. -/
theorem subLoop_entry (h : Ahead r (e.wire ++ t)) (v : ProtocolLevel) (rounds : Nat)
    (subscriptions : List Subscription) :
    ∃ r', Ahead r' t ∧ subscriptionLoop v (rounds + 1) subscriptions r =
      if v = .mqtt311 ∧ e.options > 0x02 then (.error .protocolMismatch, r')
      else subscriptionLoop v rounds (subscriptions ++ [e.subscription]) r' := by
  obtain ⟨r1, r2, hstr, hopts, hahead⟩ := readEntry h
  have hmore : r.remaining > 0 := by
    have hpos := length_wire_pos e
    rw [h.remaining, length_append]
    omega
  refine ⟨r2, hahead, ?_⟩
  rw [subscriptionLoop, if_pos hmore, hstr]
  simp only [hopts]
  rfl

/-- Where no filter is there, the loop ends. -/
theorem subLoop_incomplete (h : Ahead r l) (hl : Incomplete l) (v : ProtocolLevel)
    (rounds : Nat) (subscriptions : List Subscription) :
    ∃ e, (subscriptionLoop v rounds subscriptions r).1 = subscriptionsOr v subscriptions e := by
  cases rounds with
  | zero => exact ⟨_, rfl⟩
  | succ rounds =>
    rw [subscriptionLoop]
    split
    · rcases hread : r.readString with ⟨e | s, r1⟩
      · exact ⟨_, rfl⟩
      rcases hread₁ : r1.readUint8 with ⟨e | o, r2⟩
      · simp only [hread₁]
        exact ⟨_, rfl⟩
      · obtain ⟨e, t, rfl⟩ := readEntry_inv h hread hread₁
        exact absurd rfl (hl e t)
    · exact ⟨_, rfl⟩

theorem entriesWire_cons (e : Entry) (entries : List Entry) :
    entriesWire (e :: entries) = e.wire ++ entriesWire entries := flatMap_cons

/-- Filters that are there and have options the version has are read. -/
theorem subLoop_entries {entries : List Entry}
    (hents : ∀ e ∈ entries, ¬ (v = .mqtt311 ∧ e.options > 0x02))
    (h : Ahead r (entriesWire entries ++ l)) {rounds : Nat}
    (hrds : (entriesWire entries ++ l).length ≤ rounds) (subscriptions : List Subscription) :
    ∃ r' rounds', Ahead r' l ∧ l.length ≤ rounds' ∧ subscriptionLoop v rounds subscriptions r =
        subscriptionLoop v rounds' (subscriptions ++ entries.map Entry.subscription) r' := by
  induction entries generalizing r rounds subscriptions with
  | nil =>
    refine ⟨r, rounds, h, hrds, ?_⟩
    rw [map_nil, append_nil]
  | cons e entries ih =>
    obtain ⟨he, hrest⟩ := forall_mem_cons.mp hents
    rw [entriesWire_cons, append_assoc] at h hrds
    have hpos := length_wire_pos e
    rw [length_append] at hrds
    obtain ⟨rounds, rfl⟩ : ∃ k, rounds = k + 1 := ⟨rounds - 1, by omega⟩
    obtain ⟨r1, hahead, hstep⟩ := subLoop_entry h v rounds subscriptions
    obtain ⟨r', rounds', hahead', hrds', hloop⟩ :=
      ih hrest hahead (show _ ≤ rounds by omega) (subscriptions ++ [e.subscription])
    refine ⟨r', rounds', hahead', hrds', ?_⟩
    rw [hstep, if_neg he, hloop, append_assoc]
    rfl

/-- Any bytes are filters that 3.1.1 has, up to where there is none or one that
it does not have. -/
theorem exists_entries (l : List UInt8) :
    ∃ entries rest, l = entriesWire entries ++ rest ∧ (∀ e ∈ entries, e.options ≤ 0x02) ∧
      (Incomplete rest ∨
        ∃ (e : Entry) (t : List UInt8), rest = e.wire ++ t ∧ e.options > 0x02) := by
  induction hn : l.length using Nat.strong_induction_on generalizing l with
  | _ n ih =>
    by_cases hent : ∃ (e : Entry) (t : List UInt8), l = e.wire ++ t
    · obtain ⟨e, t, rfl⟩ := hent
      by_cases hopts : e.options > 0x02
      · exact ⟨[], _, rfl, fun e he => absurd he not_mem_nil, .inr ⟨e, t, rfl, hopts⟩⟩
      have hpos := length_wire_pos e
      rw [length_append] at hn
      obtain ⟨entries, rest, rfl, hents, hrest⟩ := ih t.length (by omega) t rfl
      refine ⟨e :: entries, rest, ?_, ?_, hrest⟩
      · rw [entriesWire_cons, append_assoc]
      · exact forall_mem_cons.mpr ⟨UInt8.not_lt.mp hopts, hents⟩
    · refine ⟨[], l, rfl, fun e he => absurd he not_mem_nil, .inl ?_⟩
      intro e t hl
      exact hent ⟨e, t, hl⟩

end

/-! ## Versions -/

section
variable {r : PacketReader} {l : List UInt8} {entries : List Entry}

/-- Filters that the version has are read as such, whatever is left of the
packet. -/
theorem readSubs_entries {v : ProtocolLevel}
    (hne : entries ≠ []) (hents : ∀ e ∈ entries, ¬ (v = .mqtt311 ∧ e.options > 0x02))
    (hrest : Incomplete rest) (h : Ahead r (entriesWire entries ++ rest)) :
    (r.readSubscriptions v).1 = .ok (entries.map Entry.subscription) := by
  obtain ⟨r', rounds, hahead, -, hloop⟩ :=
    subLoop_entries hents h (le_of_eq h.remaining.symm) []
  obtain ⟨e, hend⟩ := subLoop_incomplete hahead hrest v rounds
    ([] ++ entries.map Entry.subscription)
  rw [readSubscriptions, hloop, hend]
  exact if_pos (length_pos_iff.mpr (mt map_eq_nil_iff.mp hne))

theorem entries_311 (h : ∀ e ∈ entries, e.options ≤ 0x02) :
    ∀ e ∈ entries, ¬ (ProtocolLevel.mqtt311 = .mqtt311 ∧ e.options > 0x02) :=
  fun e he hbad => UInt8.not_lt.mpr (h e he) hbad.2

/-- Where that is not what is there, the version is another one. -/
theorem readSubs_mismatch
    (hents : ∀ e ∈ entries, e.options ≤ 0x02) (h : Ahead r (entriesWire entries ++ rest))
    (hrest : (entries = [] ∧ Incomplete rest) ∨
      ∃ (e : Entry) (t : List UInt8), rest = e.wire ++ t ∧ e.options > 0x02) :
    (r.readSubscriptions .mqtt311).1 = .error .protocolMismatch := by
  obtain ⟨r', rounds, hahead, hrds, hloop⟩ :=
    subLoop_entries (entries_311 hents) h (le_of_eq h.remaining.symm) []
  rw [readSubscriptions, hloop]
  rcases hrest with ⟨rfl, hrest⟩ | ⟨e, t, rfl, hbad⟩
  · obtain ⟨e, hend⟩ := subLoop_incomplete hahead hrest .mqtt311 rounds []
    exact hend
  have hpos := length_wire_pos e
  rw [length_append] at hrds
  obtain ⟨rounds, rfl⟩ : ∃ k, rounds = k + 1 := ⟨rounds - 1, by omega⟩
  obtain ⟨r'', -, hstep⟩ := subLoop_entry hahead .mqtt311 rounds
    ([] ++ entries.map Entry.subscription)
  rw [hstep, if_pos ⟨rfl, hbad⟩]

theorem incomplete_nil : Incomplete [] := by
  intro e t h
  have hlen := congrArg length h
  have hpos := length_wire_pos e
  rw [length_append, length_nil] at hlen
  omega

/-! ### Properties -/

/-- The loop over the bytes of a length, from byte `k` on. -/
theorem varByteLoop_eq {front : List UInt8} {last : UInt8} {t : List UInt8} {k : Nat}
    (hfrt : ∀ b ∈ front, 128 ≤ b) (hlast : last < 128) (hn : front.length < n)
    (hahead : ∀ i, r.pkt[r.offset + (k + i)]? = (front ++ last :: t)[i]?) (multiplier value : Nat) :
    r.variableByteLoop multiplier value (List.range' k n) = (.ok (value + multiplier *
          (front ++ [last]).foldr (fun b n => b.toNat % 128 + 128 * n) 0),
        { r with offset := r.offset + (k + front.length) + 1 }) := by
  induction front generalizing k n multiplier value with
  | nil =>
    obtain ⟨n, rfl⟩ : ∃ m, n = m + 1 := ⟨n - 1, by omega⟩
    have hbyte : r.pkt[r.offset + k]? = some last := hahead 0
    rw [range'_succ, variableByteLoop, hbyte]
    simp only [low_bits, if_pos ((high_bit_clear last).mpr hlast), nil_append,
      foldr_cons, foldr_nil, mul_zero, add_zero, length_nil]
    rw [mul_comm]
  | cons b front ih =>
    obtain ⟨n, rfl⟩ : ∃ m, n = m + 1 := ⟨n - 1, by omega⟩
    obtain ⟨hb, hrest⟩ := forall_mem_cons.mp hfrt
    have hbyte : r.pkt[r.offset + k]? = some b := hahead 0
    have hgo : ¬ b &&& 0x80 = 0 := fun h => UInt8.not_lt.mpr hb ((high_bit_clear b).mp h)
    have hnext : ∀ i, r.pkt[r.offset + (k + 1 + i)]? = (front ++ last :: t)[i]? := by
      intro i
      have hi := hahead (i + 1)
      rw [cons_append, getElem?_cons_succ] at hi
      rw [← hi, add_right_comm k 1 i, add_assoc k i 1]
    rw [length_cons] at hn
    rw [range'_succ, variableByteLoop, hbyte]
    simp only [if_neg hgo, low_bits]
    have hoff : r.offset + (k + 1 + front.length) = r.offset + (k + (front.length + 1)) := by omega
    rw [ih hrest (by omega) hnext, cons_append, foldr_cons, hoff]
    congr 2
    ring

theorem skipProperties_ahead (hw : IsProperties w) (h : Ahead r (w ++ l)) :
    ∃ r', r.skipProperties = (.ok (), r') ∧ Ahead r' l := by
  obtain ⟨len, properties, ⟨front, last, rfl, hfrt, hlast, hsize, hvalue⟩, rfl⟩ := hw
  rw [append_assoc] at h
  have hbeh := h.forward
  have hend := hbeh.forward
  have hbs : ∀ i, r.pkt[r.offset + (0 + i)]? = (front ++ last :: (properties ++ l))[i]? := by
    intro i
    rw [zero_add, h.getElem?, append_assoc, singleton_append]
  rw [length_append, length_singleton] at hsize
  have hread := varByteLoop_eq hfrt hlast (show front.length < 4 by omega) hbs 1 0
  rw [← hvalue, one_mul, zero_add, zero_add, ← range_eq_range'] at hread
  have hmore : ¬ r.offset ≥ r.pkt.length := by
    have hle := hbeh.offset_le
    simp only [length_append, length_singleton] at hle
    omega
  rw [skipProperties, readVariableByteInteger, if_neg hmore, hread]
  refine ⟨_, ?_, hend⟩
  have hfits : ¬ r.offset + front.length + 1 + properties.length > r.pkt.length := by
    have hle := hend.offset_le
    simp only [length_append, length_singleton] at hle
    omega
  simp only [skip, if_neg hfits]
  rw [length_append, length_singleton, add_assoc r.offset front.length 1]

end

/-! ## Packets -/

/-- The reader behind the identifier. -/
def behindID (p : Subscribe) (before : List UInt8) : PacketReader :=
  ⟨before ++ p.wire, before.length + 2⟩

theorem ahead_behindID (p : Subscribe) (before : List UInt8) :
    Ahead (behindID p before) p.body := by
  refine ⟨?_, ?_⟩
  · rw [behindID, Subscribe.wire, length_append, length_append]
    exact Nat.add_le_add_left (le_add_right 2 _) _
  · rw [behindID, ← drop_drop, drop_left]
    rfl

theorem subscribe_eq (p : Subscribe) (before after : List UInt8) :
    parseSubscribePacket (before ++ p.wire ++ after) before.length p.wire.length =
      match (behindID p before).readSubscriptions .mqtt311 with
      | (.ok subscriptions, r) => (⟨p.packetID, subscriptions⟩, r.offset, none)
      | (.error .protocolMismatch, r) => match (r.setOffset (before.length + 2)).skipProperties with
        | (.error e, r) => (⟨p.packetID, []⟩, r.offset, some e)
        | (.ok _, r) => match r.readSubscriptions .mqtt50 with
          | (.error e, r) => (⟨p.packetID, []⟩, r.offset, some e)
          | (.ok subscriptions, r) => (⟨p.packetID, subscriptions⟩, r.offset, none)
      | (.error e, r) => (⟨p.packetID, []⟩, r.offset, some e) := by
  have hfits : ¬ before.length + p.wire.length > (before ++ p.wire ++ after).length := by
    rw [length_append, length_append]
    omega
  have htake : (before ++ p.wire ++ after).take (before.length + p.wire.length) =
      before ++ p.wire := by
    rw [← length_append, take_left]
  have hstart : Ahead ⟨before ++ p.wire, before.length⟩ p.wire :=
    ⟨by rw [length_append]; exact le_add_right _ _, drop_left⟩
  have hid : (UInt8.ofNat (p.packetID.toNat / 256)).toUInt16 <<< 8 |||
      (UInt8.ofNat p.packetID.toNat).toUInt16 = p.packetID :=
    UInt16.toNat_inj.mp (twoBytes_value p.packetID.toNat_lt)
  rw [parseSubscribePacket, if_neg hfits, htake]
  simp only [readUint16_cons hstart, hid]
  rfl

/-- A packet whose filters are taken for 3.1.1. -/
theorem subscribe_311 {subscriptions : List Subscription}
    (h : ((behindID p before).readSubscriptions .mqtt311).1 = .ok subscriptions)
    (after : List UInt8) :
    ∃ offset, parseSubscribePacket (before ++ p.wire ++ after) before.length p.wire.length =
      (⟨p.packetID, subscriptions⟩, offset, none) := by
  rw [subscribe_eq]
  rcases hread : (behindID p before).readSubscriptions .mqtt311 with ⟨result, r⟩
  rw [hread] at h
  obtain rfl : result = .ok subscriptions := h
  exact ⟨r.offset, rfl⟩

/-- A packet with properties whose filters are not. -/
theorem subscribe_50 (hfrt : IsProperties p.front)
    (h : ((behindID p before).readSubscriptions .mqtt311).1 = .error .protocolMismatch)
    (after : List UInt8) :
    ∃ offset, parseSubscribePacket (before ++ p.wire ++ after) before.length p.wire.length =
      (⟨p.packetID, p.subscriptions⟩, offset, none) := by
  have hpkt := subLoop_pkt .mqtt311 (behindID p before).remaining [] (behindID p before)
  rw [subscribe_eq]
  rcases hread : (behindID p before).readSubscriptions .mqtt311 with ⟨result, r⟩
  rw [hread] at h
  obtain rfl : result = .error .protocolMismatch := h
  rw [readSubscriptions] at hread
  rw [hread] at hpkt
  have hckpt : r.setOffset (before.length + 2) = behindID p before := by
    rw [setOffset, show r.pkt = before ++ p.wire from hpkt, behindID]
  have hbody := ahead_behindID p before
  obtain ⟨r1, hskip, hahead⟩ := skipProperties_ahead hfrt hbody
  rw [← append_nil (entriesWire _)] at hahead
  have hfilters := readSubs_entries (v := .mqtt50) p.nonempty
    (fun _ _ hbad => ProtocolLevel.noConfusion hbad.1) incomplete_nil hahead
  simp only [hckpt, hskip]
  rcases hread₁ : r1.readSubscriptions .mqtt50 with ⟨result, r2⟩
  rw [hread₁] at hfilters
  obtain rfl : result = .ok (p.entries.map Entry.subscription) := hfilters
  exact ⟨r2.offset, rfl⟩

/-- The identifier and the filters of a packet are returned exactly if what
follows the identifier does not pass for other filters of 3.1.1, up to where no
filter is left. -/
theorem subscribe_read_iff (p : Subscribe) (before after : List UInt8) :
    (∃ offset, parseSubscribePacket (before ++ p.wire ++ after) before.length p.wire.length =
      (⟨p.packetID, p.subscriptions⟩, offset, none)) ↔
    ∀ entries rest, entries ≠ [] → (∀ e ∈ entries, e.options ≤ 0x02) → Incomplete rest →
      p.body = entriesWire entries ++ rest → entries.map Entry.subscription = p.subscriptions := by
  have hbody := ahead_behindID p before
  constructor
  · rintro ⟨offset, hprs⟩ entries rest hne hents hrest hspl
    rw [hspl] at hbody
    obtain ⟨offset', hread⟩ :=
      subscribe_311 (readSubs_entries hne (entries_311 hents) hrest hbody) after
    rw [hread] at hprs
    exact congrArg (fun result => result.1.subscriptions) hprs
  · intro hoth
    rcases p.conforms with ⟨hnone, hopts⟩ | hfrt
    · refine subscribe_311 ?_ after
      rw [Subscribe.body, hnone, ← append_nil (entriesWire _)] at hbody
      exact readSubs_entries p.nonempty (entries_311 hopts) incomplete_nil hbody
    obtain ⟨entries, rest, hspl, hents, hend⟩ := exists_entries p.body
    have hbody' := hbody
    rw [hspl] at hbody'
    rcases hend with hrest | hbad
    · by_cases hne : entries = []
      · exact subscribe_50 hfrt
          (readSubs_mismatch hents hbody' (.inl ⟨hne, hrest⟩)) after
      have hread := readSubs_entries hne (entries_311 hents) hrest hbody'
      rw [hoth entries rest hne hents hrest hspl] at hread
      exact subscribe_311 hread after
    · exact subscribe_50 hfrt
        (readSubs_mismatch hents hbody' (.inr hbad)) after

/-- `#` with QoS 1, in a 5.0 packet without properties. -/
def subscribeAll : Subscribe where
  packetID := 1
  front := [0]
  entries := [⟨[35], 1, by decide⟩]
  nonempty := cons_ne_nil _ _
  conforms := .inr ⟨[0], [], ⟨[], 0, rfl, fun b hb => absurd hb not_mem_nil, by decide,
    by decide, rfl⟩, rfl⟩

/-- An empty filter is returned in its place. -/
theorem subscribe_all_misread :
    parseSubscribePacket subscribeAll.wire 0 subscribeAll.wire.length = (⟨1, [⟨[], 1⟩]⟩, 7, none) ∧
      subscribeAll.subscriptions = [⟨[35], 1⟩] := by
  decide

end Obi.Refine
