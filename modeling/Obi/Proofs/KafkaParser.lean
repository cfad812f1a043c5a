import Mathlib.Tactic.Ring
import Obi.Lib.Bits
import Obi.Proofs.LargeBuffer
import Obi.Spec.KafkaWire

/-!
# The fields of Kafka messages are read

A parser on a chunked reader does what it does on the byte string. There, each
parser of a field takes just the bytes of the field.
-/

namespace Obi.Refine
open Lib Ref Spec List KafkaParser Nat

/-! ## Chunks -/

section
variable {r : LargeBufferReader} {f : FlatReader} {l : List UInt8} {α : Type}

/-- The reader has just these bytes before it. -/
def Before (r : LargeBufferReader) (l : List UInt8) : Prop := ∃ f, Views r f ∧ f.unread = l

theorem before_answer (call : ReadCall) (r : LargeBufferReader) (l : List UInt8) (h : Before r l) :
    ∃ r', r.answer call = some ((flatAnswer call l).1, r') ∧ Before r' (flatAnswer call l).2 := by
  obtain ⟨f, v, rfl⟩ := h
  have hlen : f.unread.length = f.remaining := by rw [FlatReader.length_unread]
  cases call with
  | remaining =>
    refine ⟨r, ?_, f, v, rfl⟩
    rw [LargeBufferReader.answer, v.remaining, flatAnswer, hlen, Option.map_some]
  | readN n =>
    rw [flatAnswer, hlen]
    by_cases hn : 0 ≤ n ∧ n ≤ f.remaining
    · obtain ⟨r', hread, v'⟩ := readN_ok v hn
      rw [if_pos hn]
      exact ⟨r', hread, _, v', unread_forward _⟩
    · rw [if_neg hn]
      exact ⟨r, readN_error v hn, f, v, rfl⟩
  | skip n =>
    rw [flatAnswer, hlen]
    by_cases hn : 0 ≤ n ∧ n ≤ (f.remaining : Int)
    · obtain ⟨r', hskip, v'⟩ := skip_ok v hn
      rw [if_pos hn]
      exact ⟨r', hskip, _, v', unread_forward _⟩
    · rw [if_neg hn]
      exact ⟨r, skip_error v hn, f, v, rfl⟩

/-- A parser does not see how the bytes are cut into chunks, and never panics. -/
theorem on_eq_flat (p : KafkaParser α) (h : Before r l) :
    ∃ r', p.on r = some ((flat p l).1, r') ∧ Before r' (flat p l).2 :=
  Script.run_eq_eval before_answer (ExceptT.run p) h

theorem before_newReader (chunks : List (List UInt8)) :
    Before (bufferOf chunks).newReader chunks.flatten := by
  obtain ⟨f, hf, v⟩ := newReader_views (bufferOf chunks)
  rw [chunks_bufferOf] at hf
  cases hf
  refine ⟨_, v, ?_⟩
  exact take_of_length_le (le_rfl)

end

/-! ## Parsers on a byte string -/

section
variable {α β : Type} {l : List UInt8}

theorem flat_bind (p : KafkaParser α) (f : α → KafkaParser β) :
    flat (p >>= f) = andThen (flat p) fun a => flat (f a) := by
  funext l
  refine (Script.eval_bind _ _ l).trans ?_
  change Script.eval flatAnswer (ExceptT.bindCont f (flat p l).1) (flat p l).2 = _
  rw [andThen]
  rcases flat p l with ⟨_ | a, rest⟩
  · rfl
  · rfl

theorem flat_attempt (p : KafkaParser α) (f : Except KafkaError α → KafkaParser β) :
    flat (attempt p >>= f) l = flat (f (flat p l).1) (flat p l).2 := by
  have hattempt : flat (attempt p) l = (.ok (flat p l).1, (flat p l).2) := Script.eval_bind _ _ l
  rw [flat_bind, andThen, hattempt]

theorem flat_remaining : flat remaining l = (.ok (l.length : Int), l) := rfl

theorem nat_in_range {n : Nat} : 0 ≤ (n : Int) ∧ (n : Int) ≤ l.length ↔ n ≤ l.length := by omega

theorem flat_skip (n : Nat) : flat (skip n) l = if n ≤ l.length then (.ok (), l.drop n)
      else (.error (.reader (.requested .skip n l.length)), l) := by
  change ((flatAnswer (.skip n) l).1.mapError KafkaError.reader, (flatAnswer (.skip n) l).2) = _
  simp only [flatAnswer, nat_in_range]
  split
  · rfl
  · rfl

theorem flat_readNOr (n : Nat) (e : KafkaError) : flat (readNOr n e) l =
      if n ≤ l.length then (.ok (l.take n), l.drop n) else (.error e, l) := by
  change ((flatAnswer (.readN n) l).1.mapError fun _ => e, (flatAnswer (.readN n) l).2) = _
  simp only [flatAnswer, nat_in_range]
  split
  · rfl
  · rfl

theorem flat_readN_one (b : UInt8) (l : List UInt8) : flat (readN 1) (b :: l) = (.ok [b], l) := by
  change ((flatAnswer (.readN 1) (b :: l)).1.mapError KafkaError.reader,
    (flatAnswer (.readN 1) (b :: l)).2) = _
  rw [flatAnswer, if_pos]
  · rfl
  · rw [length_cons]
    omega

end

/-! ## Fields -/

variable {nullable : Bool} {P : Layout} {body : KafkaParser Unit} {value i k n : Nat}
  {α β : Type} {p : KafkaParser α} {f : α → KafkaParser β} {u v w : List UInt8} {a : α} {b : β}

theorem reads_pure (a : α) : Reads (flat (pure a : KafkaParser α)) [] a := fun _ => rfl

theorem reads_bind (hp : Reads (flat p) u a) (hf : Reads (flat (f a)) v b) :
    Reads (flat (p >>= f)) (u ++ v) b := by
  rw [flat_bind]
  exact hp.andThen hf

/-- What is read first is read in two steps. -/
theorem reads_bind_bind {γ : Type} {g : β → KafkaParser γ} {c : γ}
    (hp : Reads (flat (p >>= f)) u b) (hg : Reads (flat (g b)) v c) :
    Reads (flat (p >>= fun a => f a >>= g)) (u ++ v) c := by
  rw [← bind_assoc]
  exact reads_bind hp hg

/-- What follows reads no field. -/
theorem reads_bind_pure (hp : Reads (flat p) w a) (hf : Reads (flat (f a)) [] b) :
    Reads (flat (p >>= f)) w b := by
  rw [← append_nil w]
  exact reads_bind hp hf

theorem reads_skip (h : IsBlock n w) : Reads (flat (skip n)) w () := by
  intro t
  obtain rfl : w.length = n := h
  rw [flat_skip, if_pos (by rw [length_append]; omega), drop_left]

theorem reads_len {m : Int} (hm : m = n) (h : IsBlock n w) : Reads (flat (skip m)) w () := by
  rw [hm]
  exact reads_skip h

theorem reads_readNOr (e : KafkaError) (hw : w.length = n) : Reads (flat (readNOr n e)) w w := by
  intro t
  subst hw
  rw [flat_readNOr, if_pos (by rw [length_append]; omega), take_left, drop_left]

theorem reads_int32 {n : Int} (h : IsScalar .i32be n w) : Reads (flat readInt32) w n := by
  obtain ⟨hw, rfl⟩ := h
  exact reads_bind_pure (reads_readNOr _ hw) (reads_pure _)

theorem ofFn_getD_toList (uuid : UUID) :
    Vector.ofFn (fun i : Fin 16 => uuid.toList.getD i 0) = uuid := by
  refine Vector.ext fun i hi => ?_
  simp

theorem reads_uuid {uuid : UUID} (h : IsUUID uuid w) : Reads (flat readUUID) w uuid := by
  obtain rfl : w = uuid.toList := h
  have hread : Reads (flat (readNOr uuidLen .packetTooShortForTopicUUID)) uuid.toList
      uuid.toList := reads_readNOr _ (by rw [Vector.length_toList])
  refine reads_bind_pure hread ?_
  rw [ofFn_getD_toList]
  exact reads_pure uuid

/-! ### Varints -/

theorem or_shiftLeft (h : value < 2 ^ i) (n : Nat) : value ||| (n <<< i) = value + n * 2 ^ i := by
  rw [Nat.or_comm, ← shiftLeft_add_eq_or_of_lt h, shiftLeft_eq, add_comm]

theorem flat_varint_cons (value i : Nat) (shifts : List Nat) (b : UInt8) (l : List UInt8) :
    flat (readUnsignedVarintLoop value (i :: shifts)) (b :: l) =
      if b < 128 then (.ok (value ||| (b.toNat <<< i)), l)
      else flat (readUnsignedVarintLoop (value ||| ((b.toNat % 128) <<< i)) shifts) l := by
  have hlen : ¬ ((b :: l).length : Int) = 0 := by
    rw [length_cons]
    omega
  rw [readUnsignedVarintLoop, flat_bind, andThen, flat_remaining]
  simp only [hlen, if_false, flat_bind, andThen, flat_readN_one]
  change flat (if b &&& 0x80 = 0 then pure (value ||| (b.toNat <<< i))
    else readUnsignedVarintLoop (value ||| ((b &&& 0x7F).toNat <<< i)) shifts) l = _
  rw [low_bits]
  by_cases hb : b < 128
  · rw [if_pos (high_bit_clear b |>.mpr hb), if_pos hb]
    rfl
  · rw [if_neg fun h => hb (high_bit_clear b |>.mp h), if_neg hb]

theorem varint_whole (front : List UInt8) {last : UInt8} (hlast : last < 128)
    (hfrt : ∀ b ∈ front, 128 ≤ b) (hk : front.length < k)
    (hvalue : value < 2 ^ i) (t : List UInt8) :
    flat (readUnsignedVarintLoop value (List.range' i k 7)) (front ++ [last] ++ t) = (.ok (value +
        front.foldr (fun b n => b.toNat % 128 + 128 * n) last.toNat * 2 ^ i), t) := by
  induction front generalizing k value i with
  | nil =>
    obtain ⟨k, rfl⟩ := exists_eq_succ_of_ne_zero (ne_of_gt hk)
    refine (flat_varint_cons _ _ _ last t).trans ?_
    rw [if_pos hlast, or_shiftLeft hvalue]
    rfl
  | cons b front ih =>
    obtain ⟨hb, hfrt⟩ := forall_mem_cons.mp hfrt
    obtain ⟨k, rfl⟩ := exists_eq_succ_of_ne_zero (ne_of_gt (zero_lt_of_lt hk))
    have hnext : value + b.toNat % 128 * 2 ^ i < 2 ^ (i + 7) := by
      have hlow : b.toNat % 128 * 2 ^ i ≤ 127 * 2 ^ i :=
        mul_le_mul_right _ (le_of_lt_succ (mod_lt _ (by decide)))
      rw [pow_add]
      omega
    rw [range'_succ, cons_append, cons_append, flat_varint_cons, if_neg (UInt8.not_lt.mpr hb),
      or_shiftLeft hvalue, ih hfrt (lt_of_succ_lt_succ hk) hnext, foldr_cons]
    congr 2
    ring

theorem reads_varint (h : IsVarint n w) : Reads (flat readUnsignedVarint) w n := by
  intro t
  obtain ⟨v, rfl, rfl⟩ := h
  have hwhole := varint_whole v.front v.ended v.continued (lt_succ_of_le v.short) (i := 0)
    one_pos t
  rw [zero_add, pow_zero, mul_one] at hwhole
  exact hwhole

/-! ### Lengths -/

variable {header : KafkaRequestHeader}

theorem isFlexible_eq (header : KafkaRequestHeader) :
    isFlexible header = flexibleVersion header := by
  obtain ⟨key, version⟩ := header
  cases key <;> rfl

theorem legal_iff (b : UInt8) :
    kafkaStringByte b = true ↔ Char.ofNat b.toNat ∈ topicCharacters := by
  have hall : ∀ n : Fin 256, kafkaStringByte (UInt8.ofNat n) = true ↔
      Char.ofNat n ∈ topicCharacters := by
    decide +kernel
  have hb := hall ⟨b.toNat, b.toNat_lt⟩
  rwa [UInt8.ofNat_toNat] at hb

theorem validateKafkaString_iff {name : List UInt8} :
    validateKafkaString name = true ↔ LegalBytes name := by
  simp only [validateKafkaString, all_eq_true, legal_iff, LegalBytes]

theorem reads_arrayLength (h : IsArrayLength (flexibleVersion header) n w) :
    Reads (flat (readArrayLength header)) w (n : Int) := by
  rw [readArrayLength, isFlexible_eq]
  cases hflex : flexibleVersion header with
  | true =>
    rw [hflex] at h
    refine reads_bind_pure (reads_varint h) ?_
    have hsize : ((n + 1 : Nat) : Int) - 1 = n := by omega
    rw [hsize]
    exact reads_pure _
  | false =>
    rw [hflex] at h
    exact reads_int32 h

/-- There are as many bytes as are asked for. -/
theorem reads_checked {m : Int} {e : KafkaError} (hm : m ≤ w.length) (h : Reads (flat p) w a) :
    Reads (flat (do if (← remaining) < m then throw e else p)) w a := by
  intro t
  rw [flat_bind, andThen, flat_remaining]
  simp only []
  rw [if_neg (by rw [length_append]; omega)]
  exact h t

/-- The length is not that of null. -/
theorem not_null {q : Prop} [Decidable q] (h : ¬ q) : ¬ (nullable && decide q) = true := by
  rw [decide_eq_false h, Bool.and_false]
  exact Bool.false_ne_true

theorem reads_shortStringLength {n size : Int} (hflex : flexibleVersion header = false)
    (h : IsScalar .i16be n w) (hsize : nullable = true ∧ n = -1 ∧ size = 0 ∨ 1 ≤ n ∧ size = n) :
    Reads (flat (readStringLength header nullable)) w size := by
  obtain ⟨hw, rfl⟩ := h
  rw [readStringLength, isFlexible_eq, hflex]
  have hwide : (int16Len : Int) ≤ w.length := by rw [hw]; decide
  refine reads_checked hwide (reads_bind_pure (reads_readNOr _ hw) ?_)
  rcases hsize with ⟨rfl, hnull, rfl⟩ | ⟨hpos, rfl⟩
  · rw [hnull]
    exact reads_pure 0
  · rw [if_neg (not_null (by omega)), if_neg (by omega)]
    exact reads_pure _

theorem reads_stringLength (nullable : Bool)
    (h : IsStringLength (flexibleVersion header) n w)
    (hn : flexibleVersion header = true ∨ n ≠ 0) :
    Reads (flat (readStringLength header nullable)) w (n : Int) := by
  cases hflex : flexibleVersion header with
  | true =>
    rw [hflex] at h
    rw [readStringLength, isFlexible_eq, hflex]
    refine reads_bind_pure (reads_varint h) ?_
    rw [if_neg (not_null (succ_ne_zero n))]
    have hsize : ((n + 1 : Nat) : Int) - 1 = n := by omega
    rw [hsize]
    exact reads_pure _
  | false =>
    rw [hflex] at h
    have hpos : n ≠ 0 := hn.resolve_left (by rw [hflex]; exact Bool.false_ne_true)
    exact reads_shortStringLength hflex h (.inr ⟨by omega, rfl⟩)

theorem reads_nullString (h : IsNullString (flexibleVersion header) w) :
    Reads (flat (readStringLength header true)) w 0 := by
  cases hflex : flexibleVersion header with
  | true =>
    rw [hflex] at h
    rw [readStringLength, isFlexible_eq, hflex]
    exact reads_bind_pure (reads_varint h) (reads_pure _)
  | false =>
    rw [hflex] at h
    exact reads_shortStringLength hflex h (.inl ⟨rfl, rfl, rfl⟩)

/-! ### Strings -/

theorem reads_string {name : List UInt8} (nullable : Bool) (hname : TopicName name)
    (h : IsName (flexibleVersion header) name w) :
    Reads (flat (readString header nullable)) w name := by
  obtain ⟨u, _, hlen, hbytes, rfl⟩ := h
  rw [hbytes]
  have hpos : name.length ≠ 0 := mt length_eq_zero_iff.mp hname.1
  refine reads_bind (reads_stringLength nullable hlen (.inr hpos)) ?_
  rw [if_neg (not_null (by omega))]
  refine reads_checked le_rfl (reads_bind_pure (reads_readNOr _ rfl) ?_)
  rw [validateKafkaString_iff.mpr hname.2]
  exact reads_pure _

/-- A string that is skipped together with what follows it. An empty one that is not null
would be refused where the versions are not flexible. -/
theorem reads_skippedString {more : Nat} (hflex : flexibleVersion header = true)
    (h : IsSkippedString true nullable more w) :
    Reads (flat (do skip ((← readStringLength header nullable) + more))) w () := by
  rw [← hflex] at h
  rcases h with ⟨rfl, u, v, hnull, hblk, rfl⟩ | ⟨n, u, v, hlen, hblk, rfl⟩
  · refine reads_bind (reads_nullString hnull) ?_
    rw [zero_add]
    exact reads_skip hblk
  · exact reads_bind (reads_stringLength nullable hlen (.inl hflex)) (reads_skip hblk)

/-! ### Sequences -/

theorem reads_forRange (hbody : ∀ w, P w → Reads (flat body) w ()) (h : Times P n w) :
    Reads (flat (forRange body n)) w () := by
  induction n generalizing w with
  | zero =>
    obtain rfl : w = [] := h
    exact reads_pure ()
  | succ n ih =>
    obtain ⟨u, v, hu, hv, rfl⟩ := h
    exact reads_bind (hbody u hu) (ih hv)

/-- An array, whose entries are skipped. -/
theorem reads_array
    (hbody : ∀ w, P w → Reads (flat body) w ()) (h : IsArray (flexibleVersion header) P w) :
    Reads (flat (do forRange body (← readArrayLength header).toNat)) w () := by
  obtain ⟨n, u, v, hlen, htimes, rfl⟩ := h
  exact reads_bind (reads_arrayLength hlen) (reads_forRange hbody htimes)

theorem reads_taggedField (w : List UInt8) (h : IsTaggedField w) :
    Reads (flat skipTaggedField) w () := by
  obtain ⟨tag, n, _, _, htag, ⟨u, v, hlen, hblk, rfl⟩, rfl⟩ := h
  exact reads_bind (reads_varint htag) (reads_bind (reads_varint hlen) (reads_skip hblk))

theorem reads_taggedFields (h : IsTaggedFields (flexibleVersion header) w) :
    Reads (flat (skipTaggedFields header)) w () := by
  rw [skipTaggedFields, isFlexible_eq]
  cases hflex : flexibleVersion header with
  | true =>
    rw [hflex] at h
    obtain ⟨n, u, v, hlen, htimes, rfl⟩ := h
    exact reads_bind (reads_varint hlen) (reads_forRange reads_taggedField htimes)
  | false =>
    rw [hflex] at h
    obtain rfl : w = [] := h
    exact reads_pure ()

end Obi.Refine
